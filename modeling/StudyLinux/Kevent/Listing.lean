import StudyLinux.Kevent.Stages

/-!
# The first names of a listing

`ls -S | head -n` as the words of a loop. On a directory whose names are words the
loop sees a file exactly when it is not hidden and fewer than `n` visible entries
stand in front of it (`mem_firstNames`).
-/

namespace StudyLinux

/-- The words of `` `ls -S | head -n` ``. -/
def firstNames (n : Nat) (entries : List Entry) : List Text :=
  ((listSizes entries).take n).flatMap words

/-- How many visible entries stand in front of an entry: larger ones, and those of its
size with an earlier name. -/
def inFront (entries : List Entry) (entry : Entry) : Nat :=
  (entries.filter fun other => IsVisible other.name).countP fun other =>
    listingKey other < listingKey entry

/-! ## Sizes -/

theorem fileSize_pos {file : File} : 0 < fileSize file ↔ file ≠ [] := by
  cases file with
  | nil => simp [fileSize]
  | cons line file =>
      simp only [fileSize, List.map_cons, List.sum_cons, ne_eq, reduceCtorEq, not_false_eq_true,
        iff_true]
      omega

/-- Files that a listing puts in front of a file with rows have rows, too. -/
theorem size_pos_of_listingKey_lt {a b : Entry} (inhabited : 0 < a.size)
    (before : listingKey b < listingKey a) : 0 < b.size := by
  rcases Prod.Lex.toLex_lt_toLex.mp before with larger | ⟨same, -⟩
  · exact inhabited.trans (OrderDual.toDual_lt_toDual.mp larger)
  · rw [OrderDual.toDual_inj] at same
    rwa [same]

/-- Larger files stand in front of smaller ones. -/
theorem listingKey_lt_of_size_lt {a b : Entry} (larger : b.size < a.size) :
    listingKey a < listingKey b :=
  Prod.Lex.toLex_lt_toLex.mpr (Or.inl (OrderDual.toDual_lt_toDual.mpr larger))

/-! ## The names -/

theorem solid_elapsedName : elapsedName ≠ [] ∧ ∀ c ∈ elapsedName, isBlank c = false := by
  decide

theorem map_name_fileEntries (d : Dir Text File) : (fileEntries d).map Entry.name = d.names := by
  rw [fileEntries, List.map_map]
  rfl

theorem nodup_fileEntries (d : Dir Text File) : ((fileEntries d).map Entry.name).Nodup := by
  rw [map_name_fileEntries]
  exact Dir.nodup_names d

theorem name_mem_names {d : Dir Text File} {entry : Entry} (member : entry ∈ fileEntries d) :
    entry.name ∈ d.names := by
  rw [← map_name_fileEntries]
  exact List.mem_map_of_mem member

section Subdirectory

variable {files : Dir Text File} {size : Nat}

/-- With the subdirectory the names are still words. -/
theorem solid_with_elapsed (solid : ∀ f ∈ files.names, f ≠ [] ∧ ∀ c ∈ f, isBlank c = false)
    {entry : Entry} (member : entry ∈ fileEntries files ++ [Entry.mk elapsedName size]) :
    entry.name ≠ [] ∧ ∀ c ∈ entry.name, isBlank c = false := by
  rcases List.mem_append.mp member with file | own
  · exact solid entry.name (name_mem_names file)
  · obtain rfl := List.mem_singleton.mp own
    exact solid_elapsedName

/-- With the subdirectory the names are still different when no file has its name. -/
theorem nodup_with_elapsed (absent : elapsedName ∉ files.names) :
    ((fileEntries files ++ [Entry.mk elapsedName size]).map Entry.name).Nodup := by
  rw [List.map_append, map_name_fileEntries]
  refine List.Nodup.append (Dir.nodup_names files) (List.nodup_singleton _) fun f named own => ?_
  obtain rfl := List.mem_singleton.mp own
  exact absent named

end Subdirectory

variable {entries : List Entry} {n : Nat}

/-- Names that are words are seen as they are. -/
theorem firstNames_eq
    (solid : ∀ entry ∈ entries, entry.name ≠ [] ∧ ∀ c ∈ entry.name, isBlank c = false) :
    firstNames n entries =
      ((sortBy listingKey (entries.filter fun entry => IsVisible entry.name)).take n).map
        Entry.name := by
  rw [firstNames, listSizes, ← List.map_take]
  refine flatMap_wordsBy fun name member => ?_
  obtain ⟨entry, inTake, rfl⟩ := List.mem_map.mp member
  exact solid entry (List.mem_filter.mp (mem_sortBy.mp (List.mem_of_mem_take inTake))).1

/-- The files that the loop sees. -/
theorem mem_firstNames
    (solid : ∀ entry ∈ entries, entry.name ≠ [] ∧ ∀ c ∈ entry.name, isBlank c = false)
    (distinct : (entries.map Entry.name).Nodup) {entry : Entry} (member : entry ∈ entries) :
    entry.name ∈ firstNames n entries ↔ IsVisible entry.name ∧ inFront entries entry < n := by
  have separates := Separates.of_injective listingKey_injective
    (entries.filter fun entry => IsVisible entry.name)
  have nodup := (distinct.of_map Entry.name).filter fun entry => IsVisible entry.name
  rw [firstNames_eq solid, List.mem_map, inFront]
  constructor
  · intro taken
    obtain ⟨shown, inTake, same⟩ := taken
    obtain ⟨inListing, early⟩ := (mem_take_sortBy separates nodup).mp inTake
    obtain ⟨inEntries, visible⟩ := List.mem_filter.mp inListing
    obtain rfl := List.inj_on_of_nodup_map distinct inEntries member same
    exact ⟨of_decide_eq_true visible, early⟩
  · intro chosen
    obtain ⟨visible, early⟩ := chosen
    exact ⟨entry, (mem_take_sortBy separates nodup).mpr
      ⟨List.mem_filter.mpr ⟨member, decide_eq_true visible⟩, early⟩, rfl⟩

/-- Every name that the loop sees is that of a visible entry. -/
theorem exists_of_mem_firstNames
    (solid : ∀ entry ∈ entries, entry.name ≠ [] ∧ ∀ c ∈ entry.name, isBlank c = false)
    {name : Text} (seen : name ∈ firstNames n entries) :
    ∃ entry ∈ entries, entry.name = name ∧ IsVisible name := by
  rw [firstNames_eq solid, List.mem_map] at seen
  obtain ⟨entry, inTake, rfl⟩ := seen
  obtain ⟨member, visible⟩ := List.mem_filter.mp (mem_sortBy.mp (List.mem_of_mem_take inTake))
  exact ⟨entry, member, rfl, of_decide_eq_true visible⟩

theorem nodup_firstNames
    (solid : ∀ entry ∈ entries, entry.name ≠ [] ∧ ∀ c ∈ entry.name, isBlank c = false)
    (distinct : (entries.map Entry.name).Nodup) : (firstNames n entries).Nodup := by
  rw [firstNames_eq solid]
  have visible := distinct.sublist
    ((List.filter_sublist (p := fun entry : Entry => IsVisible entry.name)).map Entry.name)
  have sorted := ((sortBy_perm listingKey _).map Entry.name).nodup_iff.mpr visible
  exact sorted.sublist ((List.take_sublist n _).map Entry.name)

theorem inFront_le (entries : List Entry) (entry : Entry) :
    inFront entries entry ≤ entries.length :=
  List.countP_le_length.trans (List.length_filter_le _ _)

end StudyLinux
