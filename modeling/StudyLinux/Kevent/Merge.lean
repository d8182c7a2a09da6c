import StudyLinux.Kevent.Stages

/-!
# The summary of the elapsed files

The first line names the files in the order of `ls -S`, the rows below take them in
the order of `du | sort -r -h`. Both orders are sorts of one list of names; they
agree exactly when no file is hidden and, among files with one number of disk
blocks, the sizes increase with the names. Then the names stand over their columns,
as long as the shell leaves the names as they are (`titledBy_iff`).
-/

namespace StudyLinux

/-- The names on the first line of the summary. -/
def headerNames (summary : File) : List Text :=
  ((summary.headD []).splitOn ',').filter (fun name => name ≠ [])

/-- The bytes of a file of a directory. -/
def sizeIn (d : Dir Text File) (name : Text) : Nat := fileSize ((d.get name).getD [])

/-- A file as a listing shows it. -/
def shownIn (d : Dir Text File) (name : Text) : Entry := ⟨name, sizeIn d name⟩

/-- A name without whitespace and commas that `echo` prints. -/
def IsColumnName (name : Text) : Prop :=
  (name ≠ [] ∧ isEchoOption name = false) ∧ ∀ c ∈ name, isBlank c = false ∧ c ≠ ','

instance : DecidablePred IsColumnName := fun _ => inferInstanceAs (Decidable (_ ∧ _))

/-- The files that the script itself makes have a dot in their names. -/
theorem isEchoOption_taskFile (name pid : Text) : isEchoOption (taskFile name pid) = false := by
  unfold isEchoOption taskFile
  cases name with
  | nil => rfl
  | cons c name =>
      have dot : (name ++ '.' :: pid).all (fun c => c == 'n' || c == 'e' || c == 'E') = false :=
        List.all_eq_false.mpr ⟨'.', List.mem_append_right _ List.mem_cons_self, by decide⟩
      rw [List.cons_append, List.tail_cons, dot, Bool.and_false]

theorem isColumnName_taskFile {name pid : Text}
    (nameSolid : ∀ c ∈ name, isBlank c = false ∧ c ≠ ',')
    (pidSolid : ∀ c ∈ pid, isBlank c = false ∧ c ≠ ',') : IsColumnName (taskFile name pid) := by
  refine ⟨⟨by simp [taskFile], isEchoOption_taskFile name pid⟩, ?_⟩
  exact List.forall_mem_append.mpr ⟨nameSolid, List.forall_mem_cons.mpr ⟨by decide, pidSolid⟩⟩

/-- Files that occupy equally many blocks are larger the later their name is. -/
def BlocksInOrder (env : Env) (d : Dir Text File) : Prop :=
  ∀ x ∈ d.names, ∀ y ∈ d.names, x < y →
    diskUsage env (sizeIn d x) = diskUsage env (sizeIn d y) → sizeIn d x < sizeIn d y

instance (env : Env) (d : Dir Text File) : Decidable (BlocksInOrder env d) :=
  inferInstanceAs (Decidable (∀ x ∈ d.names, ∀ y ∈ d.names, x < y →
    diskUsage env (sizeIn d x) = diskUsage env (sizeIn d y) → sizeIn d x < sizeIn d y))

variable {env : Env} {d : Dir Text File}

theorem shownIn_injective : Function.Injective (shownIn d) := fun _ _ same =>
  congrArg Entry.name same

theorem fileEntries_eq : fileEntries d = d.names.map (shownIn d) := by
  rw [fileEntries, Dir.names, List.map_map]
  refine List.map_congr_left fun entry member => ?_
  have stored : d.get entry.1 = some entry.2 := (Dir.get_eq_some_iff d).mpr member
  rw [Function.comp_apply, shownIn, sizeIn, stored]
  rfl

/-- The order of the first line, as a sort of names. -/
theorem listSizes_fileEntries :
    listSizes (fileEntries d) =
      sortBy (fun name => listingKey (shownIn d name))
        (d.names.filter fun name => IsVisible name) := by
  rw [listSizes, fileEntries_eq, List.filter_map, sortBy_map, List.map_map]
  exact List.map_id _

theorem mem_names_of_mem_listSizes {name : Text} (listed : name ∈ listSizes (fileEntries d)) :
    name ∈ d.names := by
  rw [listSizes_fileEntries, mem_sortBy] at listed
  exact (List.mem_filter.mp listed).1

/-- The order of the rows, as a sort of names. -/
theorem map_name_usage :
    (sortBy (usageKey env) (fileEntries d)).map Entry.name =
      sortBy (fun name => usageKey env (shownIn d name)) d.names := by
  rw [fileEntries_eq, sortBy_map, List.map_map]
  exact List.map_id _

theorem usageKey_injective : Function.Injective fun name => usageKey env (shownIn d name) := by
  intro x y same
  have pair : (diskUsage env (sizeIn d x), x) = (diskUsage env (sizeIn d y), y) := same
  exact congrArg Prod.snd pair

theorem diskUsage_mono {small large : Nat} (le : small ≤ large) :
    diskUsage env small ≤ diskUsage env large := by
  rw [diskUsage, diskUsage]
  exact Nat.div_le_div_right (by omega)

/-- The two keys order two files alike exactly when they do not share their number
of blocks against the order of their sizes. -/
theorem keys_agree_iff :
    (∀ x ∈ d.names, ∀ y ∈ d.names, listingKey (shownIn d x) < listingKey (shownIn d y) →
        usageKey env (shownIn d x) < usageKey env (shownIn d y)) ↔ BlocksInOrder env d := by
  have listing (x y : Text) : listingKey (shownIn d x) < listingKey (shownIn d y) ↔
      sizeIn d y < sizeIn d x ∨ sizeIn d x = sizeIn d y ∧ x < y := Prod.Lex.toLex_lt_toLex
  have usage (x y : Text) : usageKey env (shownIn d x) < usageKey env (shownIn d y) ↔
      diskUsage env (sizeIn d y) < diskUsage env (sizeIn d x) ∨
        diskUsage env (sizeIn d y) = diskUsage env (sizeIn d x) ∧ y < x := Prod.Lex.toLex_lt_toLex
  simp only [listing, usage]
  constructor
  · intro agree x inX y inY before blocks
    by_contra notLarger
    have first : sizeIn d y < sizeIn d x ∨ sizeIn d x = sizeIn d y ∧ x < y := by
      rcases lt_or_eq_of_le (not_lt.mp notLarger) with smaller | same
      · exact Or.inl smaller
      · exact Or.inr ⟨same.symm, before⟩
    rcases agree x inX y inY first with fewer | ⟨-, after⟩
    · exact absurd blocks fewer.ne'
    · exact before.asymm after
  · intro ordered x inX y inY first
    have le : sizeIn d y ≤ sizeIn d x := by
      rcases first with smaller | ⟨same, -⟩
      · exact smaller.le
      · exact same.ge
    have blocksLe : diskUsage env (sizeIn d y) ≤ diskUsage env (sizeIn d x) := diskUsage_mono le
    rcases lt_or_eq_of_le blocksLe with fewer | blocks
    · exact Or.inl fewer
    · refine Or.inr ⟨blocks, ?_⟩
      rcases lt_trichotomy x y with before | rfl | after
      · exact absurd (ordered x inX y inY before blocks.symm) (not_lt.mpr le)
      · rcases first with smaller | ⟨-, before⟩
        · exact absurd smaller (lt_irrefl _)
        · exact absurd before (lt_irrefl _)
      · exact after

/-- `tr ' ' ','` on the words of an `echo`. -/
theorem map_blank_intercalate {names : List Text}
    (solid : ∀ name ∈ names, ∀ c ∈ name, isBlank c = false) :
    ([' '].intercalate names).map (fun c => if c = ' ' then ',' else c) =
      [','].intercalate names := by
  have keep : ∀ name ∈ names, name.map (fun c => if c = ' ' then ',' else c) = name := by
    intro name member
    refine (List.map_congr_left fun c inName => if_neg ?_).trans (List.map_id _)
    intro same
    subst same
    exact absurd (solid name member ' ' inName) (by decide)
  induction names with
  | nil => rfl
  | cons name names ih =>
      have rest := ih (fun later member => solid later (List.mem_cons_of_mem _ member))
        fun later member => keep later (List.mem_cons_of_mem _ member)
      cases names with
      | nil => simpa [List.intercalate] using keep name List.mem_cons_self
      | cons next names =>
          rw [List.intercalate_cons_cons, List.intercalate_cons_cons, List.map_append,
            List.map_append, rest, keep name List.mem_cons_self]
          rfl

/-- The lines of a file of a directory. -/
def contentIn (d : Dir Text File) (name : Text) : File := (d.get name).getD []

/-- The columns of the rows are the lines of `files`, and the first line names these files,
one for each column. -/
structure TitledBy (d : Dir Text File) (summary : File) (files : List Text) : Prop where
  rows : files ≠ [] → summary.tail = paste '\t' (files.map (contentIn d))
  header : headerNames summary = files

/-- The names in the order of the rows. -/
def usageNames (env : Env) (d : Dir Text File) : List Text :=
  sortBy (fun name => usageKey env (shownIn d name)) d.names

section Names

variable (plain : ∀ name ∈ d.names, IsColumnName name)

include plain

/-- Names without blanks survive the word splitting of a list. -/
theorem flatMap_words_names {names : List Text} (inside : ∀ name ∈ names, name ∈ d.names) :
    names.flatMap words = names :=
  flatMap_wordsBy fun name member =>
    ⟨(plain name (inside name member)).1.1, fun c inName =>
      ((plain name (inside name member)).2 c inName).1⟩

/-- What the shell makes of such a name in the working directory. -/
theorem isColumnName_of_mem_expandHere {name shown : Text} (member : name ∈ d.names)
    (expanded : shown ∈ env.expandHere name) : IsColumnName shown := by
  rcases Patterns.mem_expand expanded with rfl | here
  · exact plain shown member
  · exact ⟨env.workingDir.full shown here, env.workingDir.plain shown here⟩

/-- The names on the first line. -/
theorem headerNames_merge {o : Output} (made : o.elapsed = some d) :
    headerNames (mergeCpuusageOfPertask env o).totCpuusagePertask =
      (listSizes (fileEntries d)).flatMap env.expandHere := by
  have column : ∀ shown ∈ (listSizes (fileEntries d)).flatMap env.expandHere,
      IsColumnName shown := by
    intro shown member
    obtain ⟨name, listed, expanded⟩ := List.mem_flatMap.mp member
    exact isColumnName_of_mem_expandHere plain (mem_names_of_mem_listSizes listed) expanded
  rw [mergeCpuusageOfPertask, made]
  change ((summaryNames env d).splitOn ',').filter _ = _
  rw [summaryNames, flatMap_words_names plain fun _ => mem_names_of_mem_listSizes]
  generalize (listSizes (fileEntries d)).flatMap env.expandHere = names at *
  rw [map_blank_intercalate fun name member c inName => ((column name member).2 c inName).1]
  rcases eq_or_ne names [] with rfl | inhabited
  · decide
  · rw [List.splitOn_intercalate ',' (fun name member comma =>
      ((column name member).2 ',' comma).2 rfl) inhabited, List.filter_eq_self]
    exact fun name member => decide_eq_true (column name member).1.1

/-- The arguments of `paste`. -/
theorem summaryFiles_eq : summaryFiles env d = (usageNames env d).flatMap (env.expand d.names) := by
  rw [summaryFiles, map_name_usage, usageNames,
    flatMap_words_names plain fun name member => mem_sortBy.mp member]

omit plain in
/-- Without hidden files both orders are of the same names. -/
theorem listSizes_eq_usageNames_iff :
    listSizes (fileEntries d) = usageNames env d ↔
      (∀ name ∈ d.names, IsVisible name) ∧ BlocksInOrder env d := by
  have separates₁ : Separates (fun name => listingKey (shownIn d name)) d.names :=
    Separates.of_injective (listingKey_injective.comp shownIn_injective) d.names
  have separates₂ : Separates (fun name => usageKey env (shownIn d name)) d.names :=
    Separates.of_injective usageKey_injective d.names
  rw [listSizes_fileEntries, usageNames, ← keys_agree_iff,
    ← sortBy_eq_sortBy_iff separates₁ separates₂ d.nodup_names]
  constructor
  · intro same
    have visible : ∀ name ∈ d.names, IsVisible name := fun name member => by
      have inBody : name ∈ sortBy (fun name => usageKey env (shownIn d name)) d.names :=
        mem_sortBy.mpr member
      rw [← same, mem_sortBy] at inBody
      exact of_decide_eq_true (List.mem_filter.mp inBody).2
    rw [List.filter_eq_self.mpr fun name member => decide_eq_true (visible name member)] at same
    exact ⟨visible, same⟩
  · intro agree
    rcases agree with ⟨visible, same⟩
    rw [List.filter_eq_self.mpr fun name member => decide_eq_true (visible name member)]
    exact same

omit plain in
/-- The rows are the lines of the arguments of `paste`, side by side. -/
theorem tail_merge {o : Output} (made : o.elapsed = some d) (some : summaryFiles env d ≠ []) :
    (mergeCpuusageOfPertask env o).totCpuusagePertask.tail =
      paste '\t' ((summaryFiles env d).map (contentIn d)) := by
  rw [mergeCpuusageOfPertask, made]
  change summaryRows env d = _
  unfold summaryRows
  obtain ⟨first, rest, files⟩ := List.exists_cons_of_ne_nil some
  rw [files]
  rfl

/-- The names stand over their columns exactly when the listing and the arguments of
`paste` are the same names behind the expansion of both. -/
theorem titledBy_summaryFiles_iff {o : Output} (made : o.elapsed = some d) :
    TitledBy d (mergeCpuusageOfPertask env o).totCpuusagePertask (summaryFiles env d) ↔
      (listSizes (fileEntries d)).flatMap env.expandHere =
        (usageNames env d).flatMap (env.expand d.names) := by
  rw [← headerNames_merge plain made, ← summaryFiles_eq plain]
  constructor
  · exact TitledBy.header
  · exact fun header => ⟨tail_merge made, header⟩

omit plain in
theorem flatMap_expandHere_listing (here : ∀ name ∈ d.names, env.expandHere name = [name]) :
    (listSizes (fileEntries d)).flatMap env.expandHere = listSizes (fileEntries d) :=
  flatMap_of_itself fun name listed => here name (mem_names_of_mem_listSizes listed)

omit plain in
/-- If no name on the first line is expanded, one name in the rows for each of them leaves
no name that stands for several files. -/
theorem expand_of_same (here : ∀ name ∈ d.names, env.expandHere name = [name])
    (own : ∀ name ∈ d.names, name ∈ env.expand d.names name)
    (same : (listSizes (fileEntries d)).flatMap env.expandHere =
      (usageNames env d).flatMap (env.expand d.names)) :
    ∀ name ∈ d.names, env.expand d.names name = [name] := by
  have few : ((usageNames env d).flatMap (env.expand d.names)).length ≤
      (usageNames env d).length := by
    have sizes : (listSizes (fileEntries d)).length ≤ (usageNames env d).length := by
      rw [listSizes_fileEntries, usageNames, (sortBy_perm _ _).length_eq,
        (sortBy_perm _ _).length_eq]
      exact List.length_filter_le _ _
    rwa [← same, flatMap_expandHere_listing here]
  intro name member
  have one := length_eq_one_of_flatMap_le (fun a _ => Patterns.expand_ne_nil _ _ a) few name
    (mem_sortBy.mpr member)
  obtain ⟨only, alone⟩ := List.length_eq_one_iff.mp one
  have isOnly : name ∈ [only] := alone ▸ own name member
  rw [alone, ← List.mem_singleton.mp isOnly]

/-- The first line names the files of the columns exactly when it has, expanded, the same
names as the arguments of `paste`. If every name stands for its own file, in the working
directory for nothing else: when every name stands for that file alone, none is hidden, and
files of one number of blocks grow with their names. Every elapsed file is one column then. -/
theorem titledBy_iff {o : Output} (made : o.elapsed = some d) :
    (TitledBy d (mergeCpuusageOfPertask env o).totCpuusagePertask (summaryFiles env d) ↔
      (listSizes (fileEntries d)).flatMap env.expandHere =
        (usageNames env d).flatMap (env.expand d.names)) ∧
    ((∀ name ∈ d.names, env.expandHere name = [name] ∧ name ∈ env.expand d.names name) →
      (TitledBy d (mergeCpuusageOfPertask env o).totCpuusagePertask (summaryFiles env d) ↔
        (∀ name ∈ d.names, env.expand d.names name = [name]) ∧
          (∀ name ∈ d.names, IsVisible name) ∧ BlocksInOrder env d) ∧
      (TitledBy d (mergeCpuusageOfPertask env o).totCpuusagePertask (summaryFiles env d) →
        (summaryFiles env d).Perm d.names)) := by
  have expanded := @titledBy_summaryFiles_iff env d plain o made
  refine ⟨expanded, fun own => ?_⟩
  have here : (listSizes (fileEntries d)).flatMap env.expandHere = listSizes (fileEntries d) :=
    flatMap_expandHere_listing fun name member => (own name member).1
  have inside : (∀ name ∈ d.names, env.expand d.names name = [name]) →
      (usageNames env d).flatMap (env.expand d.names) = usageNames env d := fun alone =>
    flatMap_of_itself fun name member => alone name (mem_sortBy.mp member)
  have alone := expand_of_same (fun name member => (own name member).1) fun name member =>
    (own name member).2
  rw [expanded]
  refine ⟨⟨fun same => ⟨alone same, ?_⟩, fun conditions => ?_⟩, fun same => ?_⟩
  · exact listSizes_eq_usageNames_iff.mp (here.symm.trans (same.trans (inside (alone same))))
  · rw [here, inside conditions.1]
    exact listSizes_eq_usageNames_iff.mpr conditions.2
  · rw [summaryFiles_eq plain, inside (alone same)]
    exact sortBy_perm _ _

end Names

/-- Two tasks: a short file, and a longer one with a later name, in one block each. -/
def growingSizes : Dir Text File :=
  (Dir.empty.put "a.1".toList [".5".toList]).put "b.1".toList [".25".toList, ".75".toList]

theorem titledBy_growing :
    TitledBy growingSizes (mergeCpuusageOfPertask (.small false)
      { Output.new with elapsed := some growingSizes }).totCpuusagePertask
        ["b.1".toList, "a.1".toList] :=
  have here : ∀ name ∈ growingSizes.names, (Env.small false).expandHere name = [name] := by decide
  have plain : ∀ name ∈ growingSizes.names, ∀ c ∈ name, c ≠ '[' ∧ c ≠ '\\' := by decide
  have conditions := (@titledBy_iff (.small false) growingSizes (by decide) _ rfl).2
    fun name member => ⟨here name member, Patterns.self_mem_expand member (plain name member)⟩
  conditions.1.mpr ⟨by decide, by decide, by decide⟩

/-- Two tasks with one run time each. -/
def equalSizes : Dir Text File :=
  (Dir.empty.put "a.1".toList [".5".toList]).put "b.1".toList [".7".toList]

/-- What the summary of the two says. -/
theorem merge_equalSizes :
    (mergeCpuusageOfPertask (.small false)
      { Output.new with elapsed := some equalSizes }).totCpuusagePertask =
      ["a.1,b.1".toList, ".7\t.5".toList] := by decide

/-- The first line names `a.1` first, the rows begin with the line of `b.1`: they are not
the columns of the named files. -/
theorem titledBy_fail :
    ¬ ∀ (env : Env) (d : Dir Text File) (o : Output), o.elapsed = some d →
      (∀ name ∈ d.names, IsColumnName name) →
      ∃ files, TitledBy d (mergeCpuusageOfPertask env o).totCpuusagePertask files := by
  intro all
  obtain ⟨files, rows, header⟩ := all (.small false) equalSizes
    { Output.new with elapsed := some equalSizes } rfl (by decide)
  rw [merge_equalSizes] at rows header
  have names : headerNames ["a.1,b.1".toList, ".7\t.5".toList] = ["a.1".toList, "b.1".toList] := by
    decide
  obtain rfl := header.symm.trans names
  exact absurd (rows (List.cons_ne_nil _ _)) (by decide)

end StudyLinux
