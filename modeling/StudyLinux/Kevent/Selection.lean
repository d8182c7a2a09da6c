import StudyLinux.Kevent.Checks
import StudyLinux.Kevent.Reruns

/-!
# The forty largest files

The stage lists `output/pertask` after it has made its own subdirectory there, and it
takes the first forty names. So the subdirectory takes a place unless forty files with
rows stand in front of it, and a hidden file never gets one. `computesLargest_iff` says
for which directories the files with elapsed values are nevertheless the largest ones,
forty or all.
-/

namespace StudyLinux

/-! ## Split directories -/

/-- A directory of per-task files as the split stage leaves it: the names are words other
than that of the subdirectory. -/
structure SplitOutput extends PertaskOutput where
  word : ∀ f ∈ pertask.names, f ≠ [] ∧ ∀ c ∈ f, isBlank c = false
  notElapsed : elapsedName ∉ pertask.names

/-- The split stage leaves such a directory, for every list of names without pattern
characters. -/
def splitOutput (env : Env) (o : Output) (events : Cpu → List FixedEvent)
    (tasks : List ListedTask) (plainList : PlainList tasks) : SplitOutput where
  toOutput := splitOf env o events tasks
  plain f named := by
    obtain ⟨entry, listed, rfl⟩ := exists_entry_of_mem_listing named
    exact (plainList.isEntry listed).plain_entryFile
  timed stored inDir row member := by
    have there := (Dir.get_eq_some_iff _).mpr inDir
    rw [splitOf, splitEventIntoPertask_listing, Dir.get_mapValues] at there
    obtain ⟨writer, -, rows⟩ := Option.map_eq_some_iff.mp there
    rw [← rows, entryRows_eq] at member
    obtain ⟨e, -, rfl⟩ := List.mem_map.mp member
    rw [cutField_row]
    exact ⟨fixedPoint_ne_nil, fun c => mem_fixedPoint⟩
  word _ := solid_listing
  notElapsed named := by
    obtain ⟨entry, -, same⟩ := exists_entry_of_mem_listing named
    exact elapsedName_ne_entryFile entry same

/-- The files that have rows. -/
def rowFiles (o : Output) : List Entry := (fileEntries o.pertask).filter fun entry => 0 < entry.size

/-- Those of them that a listing shows. -/
def shownFiles (o : Output) : List Entry := (rowFiles o).filter fun entry => IsVisible entry.name

/-- The subdirectory in the listing. -/
def elapsedEntry (env : Env) : Entry := ⟨elapsedName, env.dirSize⟩

/-- The stage computes elapsed values for a name: there are none, and then there are. -/
def Computed (env : Env) (o : Output) (f : Text) : Prop :=
  ((leftover (getCpuusageForPertask env { o with elapsed := none })).get f).isSome

instance (env : Env) (o : Output) : DecidablePred (Computed env o) :=
  fun _ => inferInstanceAs (Decidable (_ = true))

/-- The stage computes elapsed values for the forty largest of the files that have rows,
or for all of them, and for nothing else. -/
structure ComputesLargest (env : Env) (o : Output) : Prop where
  only : ∀ f, Computed env o f → ∃ entry ∈ rowFiles o, entry.name = f
  number : ((rowFiles o).filter fun entry => Computed env o entry.name).length =
    min total (rowFiles o).length
  largest : ∀ entry ∈ rowFiles o, Computed env o entry.name →
    ∀ other ∈ rowFiles o, ¬ Computed env o other.name → other.size ≤ entry.size

/-! ## Files that contribute lines -/

/-- Words in a loop over pairs: a file of rows with times has periods. -/
theorem words_xargsN2_ne_nil {times : List Text} (some : times ≠ [])
    (solid : ∀ time ∈ times, time ≠ [] ∧ ∀ c ∈ time, isBlank c = false) :
    ((xargsN2 times).map fun line => line.map fun c => if c = ' ' then ',' else c).flatMap words ≠
      [] := by
  obtain ⟨first, rest, rfl⟩ := List.exists_cons_of_ne_nil some
  obtain ⟨inhabited, noBlank⟩ := solid first List.mem_cons_self
  obtain ⟨c, tail, rfl⟩ := List.exists_cons_of_ne_nil inhabited
  have front : ∃ behind lines, xargsN2 ((c :: tail) :: rest) = (c :: behind) :: lines := by
    rcases rest with _ | ⟨second, _ | ⟨third, rest⟩⟩
    · exact ⟨tail, [], rfl⟩
    · exact ⟨_, [], rfl⟩
    · exact ⟨_, _, rfl⟩
  obtain ⟨behind, lines, shape⟩ := front
  have visible : isBlank c = false := noBlank c List.mem_cons_self
  have kept : c ≠ ' ' := by
    intro same
    rw [same] at visible
    exact absurd visible (by decide)
  rw [shape, List.map_cons, List.map_cons, if_neg kept, List.flatMap_cons]
  intro none
  have flat := congrArg List.flatten (List.append_eq_nil_iff.mp none).1
  rw [words, flatten_wordsBy, List.filter_cons_of_pos (by rw [visible]; rfl)] at flat
  cases flat

/-- A time is a word. -/
theorem IsTime.words_eq {text : Text} (time : IsTime text) : words text = [text] := by
  refine wordsBy_eq_singleton (fun c member => ?_) time.1
  rcases time.2 c member with digit | rfl
  · exact isBlank_eq_false_of_isDigit digit
  · rfl

theorem elapsedLines_ne_nil_iff {file : File}
    (timed : ∀ row ∈ file, IsTime (cutField ',' 1 row)) :
    elapsedLines file ≠ [] ↔ file ≠ [] := by
  constructor
  · intro lines none
    rw [none] at lines
    exact lines elapsedLines_nil
  · intro rows
    obtain ⟨row, rest, rfl⟩ := List.exists_cons_of_ne_nil rows
    unfold elapsedLines periods
    rw [ne_eq, List.map_eq_nil_iff]
    apply words_xargsN2_ne_nil
    · rw [List.map_cons, List.flatMap_cons]
      rw [(timed row List.mem_cons_self).words_eq]
      exact List.cons_ne_nil _ _
    · intro time member
      obtain ⟨column, -, word⟩ := List.mem_flatMap.mp member
      exact solid_of_mem_wordsBy word

/-- A file appears exactly when it is listed and contributes lines. -/
theorem computed_iff {env : Env} {o : Output} {f : Text} :
    Computed env o f ↔ f ∈ listedNames env o ∧ contribution o f ≠ [] := by
  obtain ⟨d, made, run⟩ := getCpuusageForPertask_elapsed env { o with elapsed := none }
  have nothing : (leftover { o with elapsed := none }).get f = none := rfl
  unfold Computed
  rw [leftover, made, Option.getD_some, run, nothing]
  refine (isSome_iterate_afterRound _ _ _).trans (and_congr_left' ?_)
  exact (not_congr List.count_eq_zero).trans not_not

/-! ## The place of a file -/

section Place

variable (env : Env) (o : SplitOutput)

/-- In front of a file with rows stand only files with rows, and the subdirectory. -/
theorem inFront_listed {entry : Entry} (rows : 0 < entry.size) :
    inFront (fileEntries o.pertask ++ [elapsedEntry env]) entry =
      (elapsedEntry env :: shownFiles o.toOutput).countP fun other =>
        listingKey other < listingKey entry := by
  have shown : IsVisible (elapsedEntry env).name := by
    change IsVisible elapsedName
    decide
  have perm : ((fileEntries o.pertask ++ [elapsedEntry env]).filter fun other =>
      IsVisible other.name).Perm
      (elapsedEntry env :: (fileEntries o.pertask).filter fun other => IsVisible other.name) := by
    rw [List.filter_append, List.filter_singleton, decide_eq_true shown, cond_true]
    exact List.perm_append_singleton _ _
  unfold inFront shownFiles rowFiles
  rw [perm.countP_eq, List.countP_cons, List.countP_cons, List.filter_filter, List.countP_filter,
    List.countP_filter]
  congr 1
  refine List.countP_congr fun other _ => ?_
  simp only [Bool.and_eq_true, decide_eq_true_eq]
  constructor
  · intro both
    exact ⟨both.1, both.2, size_pos_of_listingKey_lt rows both.1⟩
  · intro both
    exact ⟨both.1, both.2.1⟩

theorem mem_fileEntries_of_mem_rowFiles {o : Output} {entry : Entry} (member : entry ∈ rowFiles o) :
    ∃ file, (entry.name, file) ∈ o.pertask.entries ∧ entry.size = fileSize file ∧ file ≠ [] := by
  obtain ⟨inDir, rows⟩ := List.mem_filter.mp member
  obtain ⟨stored, inEntries, rfl⟩ := List.mem_map.mp inDir
  exact ⟨stored.2, inEntries, rfl, fileSize_pos.mp (of_decide_eq_true rows)⟩

theorem contribution_ne_nil {f : Text} {file : File} (stored : (f, file) ∈ o.pertask.entries) :
    contribution o.toOutput f ≠ [] ↔ file ≠ [] := by
  rw [contribution, (Dir.get_eq_some_iff _).mpr stored, Option.getD_some]
  exact elapsedLines_ne_nil_iff (o.timed _ stored)

/-- How many files the stage has places for. -/
def places : Nat :=
  if total ≤ (shownFiles o.toOutput).countP fun other =>
      listingKey other < listingKey (elapsedEntry env) then total
  else total - 1

/-- A file with rows is computed when it is shown and early enough. -/
theorem computed_iff_places {entry : Entry} (member : entry ∈ rowFiles o.toOutput) :
    Computed env o.toOutput entry.name ↔ IsVisible entry.name ∧
      (shownFiles o.toOutput).countP (fun other => listingKey other < listingKey entry) <
        places env o := by
  obtain ⟨file, stored, -, rows⟩ := mem_fileEntries_of_mem_rowFiles member
  obtain ⟨inDir, sized⟩ := List.mem_filter.mp member
  have listed : entry ∈ fileEntries o.pertask ++ [elapsedEntry env] :=
    List.mem_append_left _ inDir
  have seen : entry.name ∈ listedNames env o.toOutput ↔ IsVisible entry.name ∧
      inFront (fileEntries o.pertask ++ [elapsedEntry env]) entry < total :=
    mem_firstNames (fun _ => solid_with_elapsed o.word) (nodup_with_elapsed o.notElapsed) listed
  rw [computed_iff, and_iff_left ((contribution_ne_nil o stored).mpr rows), seen]
  refine and_congr_right fun visible => ?_
  have shown : entry ∈ shownFiles o.toOutput :=
    List.mem_filter.mpr ⟨member, decide_eq_true visible⟩
  have apart : listingKey entry ≠ listingKey (elapsedEntry env) := by
    intro same
    have name : entry.name = elapsedName := congrArg Entry.name (listingKey_injective same)
    refine o.notElapsed ?_
    rw [← name]
    exact List.mem_map_of_mem stored
  rw [inFront_listed env o (of_decide_eq_true sized)]
  exact countP_cons_lt_iff apart shown

theorem nodup_shownFiles : (shownFiles o.toOutput).Nodup :=
  (((nodup_fileEntries o.pertask).of_map Entry.name).filter _).filter _

/-- As many files are computed as there are places, or shown files with rows. -/
theorem length_filter_computed :
    ((rowFiles o.toOutput).filter fun entry => Computed env o.toOutput entry.name).length =
      min (places env o) (shownFiles o.toOutput).length := by
  have separates := Separates.of_injective listingKey_injective (shownFiles o.toOutput)
  rw [← length_filter_early separates (nodup_shownFiles o)]
  unfold shownFiles
  rw [List.filter_filter]
  refine congrArg List.length (List.filter_congr fun entry member => ?_)
  rw [← Bool.decide_and]
  exact decide_eq_decide.mpr ((computed_iff_places env o member).trans and_comm)

/-- Nothing but a file with rows is computed. -/
theorem exists_of_computed {f : Text} (computed : Computed env o.toOutput f) :
    ∃ entry ∈ rowFiles o.toOutput, entry.name = f := by
  have lines := (computed_iff.mp computed).2
  rcases stored : o.pertask.get f with _ | file
  · rw [contribution, stored, Option.getD_none, elapsedLines_nil] at lines
    exact absurd rfl lines
  · have inDir := (Dir.get_eq_some_iff _).mp stored
    have rows := (contribution_ne_nil o inDir).mp lines
    exact ⟨⟨f, fileSize file⟩, List.mem_filter.mpr ⟨List.mem_map_of_mem inDir,
      decide_eq_true (fileSize_pos.mpr rows)⟩, rfl⟩

/-- Among the files that a listing shows the largest are computed. -/
theorem size_le_of_shown {entry other : Entry} (member : entry ∈ rowFiles o.toOutput)
    (computed : Computed env o.toOutput entry.name) (otherMember : other ∈ rowFiles o.toOutput)
    (shown : IsVisible other.name) (skipped : ¬ Computed env o.toOutput other.name) :
    other.size ≤ entry.size := by
  by_contra larger
  have before := listingKey_lt_of_size_lt (not_le.mp larger)
  have early := ((computed_iff_places env o member).mp computed).2
  have inShown : other ∈ shownFiles o.toOutput :=
    List.mem_filter.mpr ⟨otherMember, decide_eq_true shown⟩
  have earlier := countP_lt_lt inShown before
  exact skipped ((computed_iff_places env o otherMember).mpr ⟨shown, earlier.trans early⟩)

/-- A hidden file is no larger than any computed one exactly when forty of the shown files
are as large, given that forty are computed. -/
theorem hidden_le_iff (enough : places env o = total)
    (filled : total ≤ (shownFiles o.toOutput).length) (size : Nat) :
    (∀ entry ∈ rowFiles o.toOutput, Computed env o.toOutput entry.name → size ≤ entry.size) ↔
      total ≤ (shownFiles o.toOutput).countP fun other => size ≤ other.size := by
  have number := length_filter_computed env o
  rw [enough, min_eq_left filled] at number
  constructor
  · intro below
    rw [← number, ← List.countP_eq_length_filter, shownFiles, List.countP_filter]
    refine List.countP_mono_left fun entry member own => ?_
    have computed := of_decide_eq_true own
    rw [Bool.and_eq_true, decide_eq_true_eq, decide_eq_true_eq]
    exact ⟨below entry member computed, ((computed_iff_places env o member).mp computed).1⟩
  · intro large entry member computed
    by_contra smaller
    have early := ((computed_iff_places env o member).mp computed).2
    have before : ∀ other ∈ shownFiles o.toOutput, decide (size ≤ other.size) →
        decide (listingKey other < listingKey entry) := by
      intro other _ above
      exact decide_eq_true (listingKey_lt_of_size_lt
        ((not_le.mp smaller).trans_le (of_decide_eq_true above)))
    have more := List.countP_mono_left before
    omega

end Place

/-- The elapsed values are those of the forty largest files with rows, or of all of them,
exactly when: there are fewer than forty and none is hidden; or at least forty shown ones
stand in front of the subdirectory, and for every hidden one forty shown ones are as
large. -/
theorem computesLargest_iff (env : Env) (o : SplitOutput) :
    ComputesLargest env o.toOutput ↔
      if (rowFiles o.toOutput).length < total then
        ∀ entry ∈ rowFiles o.toOutput, IsVisible entry.name
      else
        total ≤ (shownFiles o.toOutput).countP (fun other =>
            listingKey other < listingKey (elapsedEntry env)) ∧
          ∀ entry ∈ rowFiles o.toOutput, ¬ IsVisible entry.name →
            total ≤ (shownFiles o.toOutput).countP fun other => entry.size ≤ other.size := by
  have number := length_filter_computed env o
  have bound : (shownFiles o.toOutput).length ≤ (rowFiles o.toOutput).length :=
    List.length_filter_le _ _
  have shownPlaces : total - 1 ≤ places env o ∧ places env o ≤ total := by
    unfold places
    split_ifs <;> omega
  split_ifs with few
  · constructor
    · intro largest
      have all := largest.number
      have everyShown : (shownFiles o.toOutput).length = (rowFiles o.toOutput).length := by omega
      intro entry member
      exact of_decide_eq_true (List.length_filter_eq_length_iff.mp everyShown entry member)
    · intro visible
      have everyShown : (shownFiles o.toOutput).length = (rowFiles o.toOutput).length :=
        List.length_filter_eq_length_iff.mpr fun entry member =>
          decide_eq_true (visible entry member)
      refine ⟨fun f => exists_of_computed env o, by omega, ?_⟩
      intro entry member computed other otherMember
      exact size_le_of_shown env o member computed otherMember (visible other otherMember)
  · constructor
    · intro largest
      have all := largest.number
      have front : total ≤ (shownFiles o.toOutput).countP fun other =>
          listingKey other < listingKey (elapsedEntry env) := by
        by_contra crowded
        have fewer : places env o = total - 1 := if_neg crowded
        have positive : 0 < total := by decide
        omega
      have enough : places env o = total := if_pos front
      refine ⟨front, fun hidden member notShown => ?_⟩
      apply (hidden_le_iff env o enough (front.trans List.countP_le_length) hidden.size).mp
      intro entry entryMember computed
      refine largest.largest entry entryMember computed hidden member fun own => notShown ?_
      exact ((computed_iff_places env o member).mp own).1
    · intro both
      obtain ⟨front, hiddenSmall⟩ := both
      have enough : places env o = total := if_pos front
      have filled := front.trans List.countP_le_length
      refine ⟨fun f => exists_of_computed env o, by omega, ?_⟩
      intro entry member computed other otherMember skipped
      by_cases shown : IsVisible other.name
      · exact size_le_of_shown env o member computed otherMember shown skipped
      · exact (hidden_le_iff env o enough filled other.size).mpr
          (hiddenSmall other otherMember shown) entry member computed

/-! ## Forty small files -/

/-- The row of a task `a` that leaves the CPU. -/
def smallRow (pid : Nat) : Text := "1.000000,a,".toList ++ decimal pid ++ ",120,S,b,99,120".toList

/-- Forty tasks with one row each. -/
def smallFiles : Dir Text File where
  entries := (List.range total).map fun k =>
    (taskFile ['a'] (decimal (k + 10)), [smallRow (k + 10)])
  sorted := by decide

def smallOutput : SplitOutput where
  toOutput := { Output.new with pertask := smallFiles }
  plain := by decide
  timed := by decide
  word := by decide
  notElapsed := by decide

/-- The subdirectory of 4096 bytes takes the place of one of them. -/
theorem computesLargest_fail :
    ¬ ∀ (env : Env) (o : SplitOutput), ComputesLargest env o.toOutput := by
  intro all
  let env : Env := .small false
  have number := (all env smallOutput).number
  have files : (rowFiles smallOutput.toOutput).length = total := by decide
  have front : ((shownFiles smallOutput.toOutput).countP fun other =>
      listingKey other < listingKey (elapsedEntry env)) = 0 := by decide
  have fewer : places env smallOutput = total - 1 := by
    unfold places
    rw [front]
    rfl
  have positive : 0 < total := by decide
  rw [length_filter_computed, fewer, files] at number
  omega

end StudyLinux
