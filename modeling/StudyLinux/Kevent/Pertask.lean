import Mathlib.Data.List.Dedup
import StudyLinux.Kevent.Writers

/-!
# What the stages leave behind

One rule for each stage. The csv of a CPU depends on its trace only
(`transToCsv_csv`), the task list is the one found in `output/` followed by the
tasks of the traces (`splitStages_tasklist`), a listed task has its rows in its
file (`get_splitStages_of_mem`), and a processed file has its lines in
`output/pertask/elapsed` (`get_doAllStage_elapsed`).
-/

namespace StudyLinux

/-! ## Rows and task lists -/

/-- The csv of one trace. -/
def csvOf (trace : File) : File := (makeItCsv (getOnlySwitchField trace)).csv

/-- The csv of every CPU. -/
def csvsOf (traces : Traces) (cpu : Cpu) : File := csvOf (traces cpu)

/-- The task list of one trace. -/
def taskLines (trace : File) : File := uniq (sortLines ((csvOf trace).map (cutFields ',' [2, 3])))

variable (env : Env) (traces : Traces) (o : Output)

theorem transToCsv_csv (cpu : Cpu) : (transToCsv traces o).csv cpu = csvOf (traces cpu) := by
  cases cpu <;> simp [transToCsv, fileList, transOneToCsv, csvOf, Function.update]

theorem transToCsv_cpuTasklist : (transToCsv traces o).cpuTasklist = fun _ => [] := rfl

theorem transToCsv_tasklist : (transToCsv traces o).tasklist = o.tasklist := rfl

theorem findAllTasknamePercpu_tasklist : (findAllTasknamePercpu o).tasklist = o.tasklist := rfl

theorem findAllTasknamePercpu_cpuTasklist (cpu : Cpu) :
    (findAllTasknamePercpu o).cpuTasklist cpu =
      o.cpuTasklist cpu ++ (o.csv cpu).map (cutFields ',' [2, 3]) := by
  cases cpu <;> simp [findAllTasknamePercpu, fileList, Function.update]

theorem getUniqTasklist_tasklist :
    (getUniqTasklist o).tasklist =
      o.tasklist ++ fileList.flatMap fun cpu => uniq (sortLines (o.cpuTasklist cpu)) := by
  simp [getUniqTasklist, fileList]

/-- The stale list stays in front of the tasks of the traces. -/
theorem splitStages_tasklist :
    (splitStages env traces o).tasklist =
      o.tasklist ++ fileList.flatMap fun cpu => taskLines (traces cpu) := by
  have lists (cpu : Cpu) :
      (findAllTasknamePercpu (transToCsv traces o)).cpuTasklist cpu =
        (csvOf (traces cpu)).map (cutFields ',' [2, 3]) := by
    rw [findAllTasknamePercpu_cpuTasklist, transToCsv_csv, transToCsv_cpuTasklist]
    rfl
  change (getUniqTasklist (findAllTasknamePercpu (transToCsv traces o))).tasklist = _
  rw [getUniqTasklist_tasklist, findAllTasknamePercpu_tasklist, transToCsv_tasklist]
  simp only [lists, taskLines]

/-! ## Entries -/

/-- The entries the split loop runs over. -/
def entries : List Text :=
  listedEntries env (o.tasklist ++ fileList.flatMap fun cpu => taskLines (traces cpu))

/-- An entry `name,pid` that the shell takes as it is. -/
structure IsEntry (entry : Text) : Prop where
  numbered : IsNumbered entry
  plain : ∀ c ∈ entry, isGlob c = false

theorem mem_of_mem_arrayField {k : Nat} {line : Text} {c : Char} (member : c ∈ arrayField k line) :
    c ∈ line := by
  rw [arrayField, List.getD_eq_getElem?_getD] at member
  rcases part : (line.splitOn ',')[k]? with _ | field
  · rw [part] at member
    exact absurd member List.not_mem_nil
  · rw [part] at member
    have inSplit := List.mem_of_getElem? part
    rw [List.splitOn_eq_splitOnP] at inSplit
    exact (infix_of_mem_splitOnP inSplit).1.subset member

/-- The characters of a file name are those of its entry, and a dot. -/
theorem mem_of_mem_entryFile {entry : Text} {c : Char} (member : c ∈ entryFile entry) :
    c ∈ entry ∨ c = '.' := by
  rw [entryFile, taskFile, List.mem_append, List.mem_cons] at member
  rcases member with name | dot | pid
  · exact Or.inl (mem_of_mem_arrayField name)
  · exact Or.inr dot
  · exact Or.inl (mem_of_mem_arrayField pid)

theorem IsEntry.plain_entryFile {entry : Text} (isEntry : IsEntry entry) :
    ∀ c ∈ entryFile entry, isGlob c = false := by
  intro c member
  rcases mem_of_mem_entryFile member with inEntry | rfl
  · exact isEntry.plain c inEntry
  · decide

/-- Entries that the shell takes as they are write their own files. -/
theorem noClash_of_isEntry (p : Patterns) {list : List Text}
    (isEntry : ∀ entry ∈ list, IsEntry entry) : NoClash p list := fun entry member _ _ found =>
  (p.matchesName_iff_eq (isEntry entry member).plain_entryFile).mp found

variable {env traces o}

theorem splitStages_pertask :
    (splitStages env traces o).pertask =
      (entries env traces o).foldl (getCpuusageForProcess env.toPatterns (csvsOf traces))
        .empty := by
  have csv : (getUniqTasklist (findAllTasknamePercpu (transToCsv traces o))).csv =
      csvsOf traces := funext (transToCsv_csv traces o)
  have list : listedEntries env
      (getUniqTasklist (findAllTasknamePercpu (transToCsv traces o))).tasklist =
        entries env traces o := congrArg (listedEntries env) (splitStages_tasklist env traces o)
  rw [splitStages, splitEventIntoPertask, csv, list]

/-- The file of a listed entry holds its rows. -/
theorem get_splitStages_of_mem (isEntry : ∀ entry ∈ entries env traces o, IsEntry entry)
    {entry : Text} (listed : entry ∈ entries env traces o) :
    (splitStages env traces o).pertask.get (entryFile entry) =
      some (entryRows env.toPatterns (csvsOf traces) entry) := by
  rw [splitStages_pertask]
  exact (get_foldl_getCpuusageForProcess (fun entry member => (isEntry entry member).numbered)
    (noClash_of_isEntry _ isEntry)).1 entry listed

/-- No other file is there. -/
theorem exists_entry_of_mem_names (isEntry : ∀ entry ∈ entries env traces o, IsEntry entry)
    {f : Text} (there : f ∈ (splitStages env traces o).pertask.names) :
    ∃ entry ∈ entries env traces o, f = entryFile entry := by
  by_contra none
  have foreign : ∀ entry ∈ entries env traces o, entryFile entry ≠ f := fun entry listed same =>
    none ⟨entry, listed, same.symm⟩
  rw [Dir.mem_names, splitStages_pertask,
    (get_foldl_getCpuusageForProcess (fun entry member => (isEntry entry member).numbered)
      (noClash_of_isEntry _ isEntry)).2 f foreign] at there
  cases there

/-! ## The elapsed files -/

/-- The lines that a per-task file contributes. -/
def elapsedLines (file : File) : File := (periods file).map elapsedLine

@[simp] theorem elapsedLines_nil : elapsedLines [] = [] := by decide

/-- A loop that appends lines to one file. -/
theorem get_foldl_appendTo (name : Text) (lines : List Text) (d : Dir Text File) (f : Text) :
    (lines.foldl (fun d line => appendTo name [line] d) d).get f =
      if f = name ∧ lines ≠ [] then some ((d.get name).getD [] ++ lines) else d.get f := by
  induction lines generalizing d with
  | nil => simp
  | cons line lines ih =>
      rw [List.foldl_cons, ih]
      by_cases own : f = name
      · subst own
        cases lines with
        | nil => simp
        | cons next lines => simp
      · simp [own, get_appendTo_of_ne own]

theorem foldl_map_some (name : Text) (steps : List Text) (d : Dir Text File) :
    steps.foldl (fun elapsed period => elapsed.map (appendTo name [elapsedLine period])) (some d) =
      some ((steps.map elapsedLine).foldl (fun d line => appendTo name [line] d) d) := by
  induction steps generalizing d with
  | nil => rfl
  | cons period steps ih => rw [List.foldl_cons, List.map_cons, List.foldl_cons]; exact ih _

/-- What one round of the loop over the listing makes of the elapsed file of its name:
cleared in debug mode only, then the lines are appended. -/
def afterRound (debug : Bool) (added : File) (old : Option File) : Option File :=
  if added = [] then if debug then none else old
  else some ((if debug then none else old).getD [] ++ added)

theorem afterRound_none (debug : Bool) (added : File) :
    afterRound debug added none = if added = [] then none else some added := by
  unfold afterRound
  rw [ite_self, Option.getD_none, List.nil_append]

/-- One round of the loop over the listing. -/
theorem getCpuusageForTask_elapsed (env : Env) {d : Dir Text File} (made : o.elapsed = some d)
    (name : Text) :
    ∃ d', (getCpuusageForTask env o name).elapsed = some d' ∧ ∀ f, d'.get f =
      if f = name then
        afterRound env.debug (elapsedLines ((o.pertask.get name).getD [])) (d.get name)
      else d.get f := by
  have cleared : ∃ d₀, (if env.debug then o.elapsed.map fun d => d.erase name else o.elapsed) =
      some d₀ ∧ ∀ f, d₀.get f = if f = name ∧ env.debug then none else d.get f := by
    rw [made]
    split_ifs with debug
    · refine ⟨d.erase name, rfl, fun f => ?_⟩
      by_cases own : f = name
      · rw [if_pos ⟨own, debug⟩, own, Dir.get_erase_self]
      · rw [if_neg fun both => own both.1, Dir.get_erase_of_ne d own]
    · refine ⟨d, rfl, fun f => ?_⟩
      rw [if_neg fun both => debug both.2]
  obtain ⟨d₀, start, same⟩ := cleared
  let added := elapsedLines ((o.pertask.get name).getD [])
  refine ⟨added.foldl (fun d line => appendTo name [line] d) d₀, ?_, fun f => ?_⟩
  · unfold getCpuusageForTask
    rw [start]
    exact foldl_map_some name _ d₀
  · rw [get_foldl_appendTo, same, same]
    unfold afterRound
    by_cases own : f = name
    · subst own
      by_cases empty : added = []
      · simp [added, empty]
      · simp [added, empty]
    · simp [own]

/-- The loop: as many rounds for a file as its name occurs. -/
theorem foldl_getCpuusageForTask (env : Env) (names : List Text) {d : Dir Text File}
    (made : o.elapsed = some d) :
    ∃ d', (names.foldl (getCpuusageForTask env) o).elapsed = some d' ∧ ∀ f, d'.get f =
      (afterRound env.debug (elapsedLines ((o.pertask.get f).getD [])))^[names.count f]
        (d.get f) := by
  induction names generalizing o d with
  | nil => exact ⟨d, made, fun f => rfl⟩
  | cons name names ih =>
      obtain ⟨d₁, made₁, step⟩ := getCpuusageForTask_elapsed env made name
      obtain ⟨d₂, made₂, run⟩ := ih made₁
      refine ⟨d₂, made₂, fun f => (run f).trans ?_⟩
      have frame : (getCpuusageForTask env o name).pertask = o.pertask := rfl
      rw [frame, step]
      split_ifs with own
      · subst own
        rw [List.count_cons_self, Function.iterate_succ_apply]
      · rw [List.count_cons_of_ne (Ne.symm own)]

/-! ## Names are words -/

theorem solid_of_mem_entries {entry : Text} (listed : entry ∈ entries env traces o) :
    ∀ c ∈ entry, isBlank c = false := solid_of_mem_listedEntries listed

theorem solid_entryFile {entry : Text} (solid : ∀ c ∈ entry, isBlank c = false) :
    entryFile entry ≠ [] ∧ ∀ c ∈ entryFile entry, isBlank c = false := by
  refine ⟨by simp [entryFile, taskFile], fun c member => ?_⟩
  rcases mem_of_mem_entryFile member with inEntry | rfl
  · exact solid c inEntry
  · rfl

/-! ## Which files are processed -/

/-- The directory in which `get_cpuusage_for_pertask` lists the per-task files. -/
def withElapsed (env : Env) (traces : Traces) (o : Output) : Output :=
  { splitStages env traces o with elapsed := some .empty }

theorem splitStages_elapsed : (splitStages env traces o).elapsed = none := rfl

theorem getCpuusageForPertask_splitStages :
    getCpuusageForPertask env (splitStages env traces o) =
      (processed env (withElapsed env traces o)).foldl (getCpuusageForTask env)
        (withElapsed env traces o) := by
  rw [getCpuusageForPertask, splitStages_elapsed]
  rfl

theorem mergeCpuusageOfPertask_elapsed : (mergeCpuusageOfPertask env o).elapsed = o.elapsed := rfl

/-- A per-task file as the listing shows it. -/
def entryOf (p : Patterns) (csv : Cpu → File) (entry : Text) : Entry :=
  ⟨entryFile entry, fileSize (entryRows p csv entry)⟩

/-- What `ls -S output/pertask` shows when these entries are listed: their files and
the subdirectory, without hidden names. -/
def contenders (env : Env) (csv : Cpu → File) (list : List Text) : List Entry :=
  ((⟨elapsedName, env.dirSize⟩ :: list.map (entryOf env.toPatterns csv)).dedup).filter fun entry =>
    IsVisible entry.name

/-- How many entries of the listing stand in front of an entry's file. -/
def rank (env : Env) (csv : Cpu → File) (list : List Text) (entry : Text) : Nat :=
  (contenders env csv list).countP fun other =>
    listingKey other < listingKey (entryOf env.toPatterns csv entry)

/-- A listing of few entries ranks every one of them low. -/
theorem rank_le_of_subset (env : Env) (csv : Cpu → File) {list names : List Text}
    (few : ∀ entry ∈ list, entry ∈ names) (entry : Text) :
    rank env csv list entry ≤ names.length + 1 := by
  have inside : contenders env csv list ⊆
      ⟨elapsedName, env.dirSize⟩ :: names.map (entryOf env.toPatterns csv) := by
    intro shown member
    rcases List.mem_cons.mp (List.mem_dedup.mp (List.mem_filter.mp member).1) with own | listed
    · exact own ▸ List.mem_cons_self
    · obtain ⟨entry, inList, rfl⟩ := List.mem_map.mp listed
      exact List.mem_cons_of_mem _ (List.mem_map_of_mem (few entry inList))
  have bound := (List.subperm_of_subset ((List.nodup_dedup _).filter _) inside).length_le
  rw [List.length_cons, List.length_map] at bound
  exact List.countP_le_length.trans bound

theorem elapsedName_ne_entryFile (entry : Text) : elapsedName ≠ entryFile entry := by
  intro same
  have dot : '.' ∈ elapsedName := by rw [same]; simp [entryFile, taskFile]
  exact absurd dot (by decide)

section Processed

variable (isEntry : ∀ entry ∈ entries env traces o, IsEntry entry)

include isEntry

theorem mem_pertaskEntries {shown : Entry} :
    shown ∈ pertaskEntries env (withElapsed env traces o) ↔
      shown = ⟨elapsedName, env.dirSize⟩ ∨
        ∃ entry ∈ entries env traces o, entryOf env.toPatterns (csvsOf traces) entry = shown := by
  rw [pertaskEntries, List.mem_append, or_comm]
  refine or_congr (by simp [withElapsed]) ?_
  rw [fileEntries, List.mem_map]
  constructor
  · intro named
    rcases named with ⟨⟨f, file⟩, inDir, rfl⟩
    have stored := (Dir.get_eq_some_iff _).mpr inDir
    obtain ⟨entry, listed, rfl⟩ := exists_entry_of_mem_names isEntry
      ((Dir.mem_names _).mpr (Option.isSome_of_eq_some stored))
    have rows := (get_splitStages_of_mem isEntry listed).symm.trans stored
    exact ⟨entry, listed, by rw [entryOf, Option.some.inj rows]⟩
  · intro named
    rcases named with ⟨entry, listed, rfl⟩
    exact ⟨_, (Dir.get_eq_some_iff _).mp (get_splitStages_of_mem isEntry listed), rfl⟩

theorem nodup_pertaskNames :
    ((pertaskEntries env (withElapsed env traces o)).map Entry.name).Nodup := by
  refine nodup_with_elapsed fun named => ?_
  obtain ⟨entry, -, same⟩ := exists_entry_of_mem_names isEntry named
  exact elapsedName_ne_entryFile entry same

theorem nodup_pertaskEntries : (pertaskEntries env (withElapsed env traces o)).Nodup :=
  (nodup_pertaskNames isEntry).of_map Entry.name

theorem solid_pertaskEntries {shown : Entry}
    (member : shown ∈ pertaskEntries env (withElapsed env traces o)) :
    shown.name ≠ [] ∧ ∀ c ∈ shown.name, isBlank c = false := by
  rcases (mem_pertaskEntries isEntry).mp member with rfl | ⟨entry, listed, rfl⟩
  · exact solid_elapsedName
  · exact solid_entryFile (solid_of_mem_entries listed)

theorem perm_contenders :
    ((pertaskEntries env (withElapsed env traces o)).filter fun entry => IsVisible entry.name).Perm
      (contenders env (csvsOf traces) (entries env traces o)) := by
  refine List.Perm.filter _ ((List.perm_ext_iff_of_nodup (nodup_pertaskEntries isEntry)
    (List.nodup_dedup _)).mpr fun shown => ?_)
  rw [mem_pertaskEntries isEntry, List.mem_dedup, List.mem_cons, List.mem_map]

/-- The files whose run times are computed: the visible ones that fewer than forty
entries precede. -/
theorem mem_processed {entry : Text} (listed : entry ∈ entries env traces o) :
    entryFile entry ∈ processed env (withElapsed env traces o) ↔
      IsVisible (entryFile entry) ∧
        rank env (csvsOf traces) (entries env traces o) entry < total := by
  have inEntries : entryOf env.toPatterns (csvsOf traces) entry ∈
      pertaskEntries env (withElapsed env traces o) :=
    (mem_pertaskEntries isEntry).mpr (Or.inr ⟨entry, listed, rfl⟩)
  have front : rank env (csvsOf traces) (entries env traces o) entry =
      inFront (pertaskEntries env (withElapsed env traces o))
        (entryOf env.toPatterns (csvsOf traces) entry) :=
    ((perm_contenders isEntry).countP_eq _).symm
  rw [front]
  exact mem_firstNames (fun _ => solid_pertaskEntries isEntry) (nodup_pertaskNames isEntry)
    inEntries

/-- A processed name is a per-task file or the subdirectory. -/
theorem exists_entry_of_processed {f : Text}
    (chosen : f ∈ processed env (withElapsed env traces o)) :
    f = elapsedName ∨ ∃ entry ∈ entries env traces o, f = entryFile entry := by
  obtain ⟨shown, inListing, rfl, -⟩ :=
    exists_of_mem_firstNames (fun _ => solid_pertaskEntries isEntry) chosen
  rcases (mem_pertaskEntries isEntry).mp inListing with rfl | ⟨entry, listed, rfl⟩
  · exact Or.inl rfl
  · exact Or.inr ⟨entry, listed, rfl⟩

theorem nodup_processed : (processed env (withElapsed env traces o)).Nodup :=
  nodup_firstNames (fun _ => solid_pertaskEntries isEntry) (nodup_pertaskNames isEntry)

/-- The elapsed files of a run: the lines of every processed file that has any. -/
theorem get_doAllStage_elapsed :
    ∃ d, (doAllStage env traces o).1.elapsed = some d ∧ ∀ f, d.get f =
      if f ∈ processed env (withElapsed env traces o) ∧
          elapsedLines (((splitStages env traces o).pertask.get f).getD []) ≠ [] then
        some (elapsedLines (((splitStages env traces o).pertask.get f).getD []))
      else none := by
  have start : (withElapsed env traces o).elapsed = some .empty := rfl
  obtain ⟨d, made, run⟩ := foldl_getCpuusageForTask env
    (processed env (withElapsed env traces o)) start
  refine ⟨d, ?_, fun f => (run f).trans ?_⟩
  · rw [doAllStage, mergeCpuusageOfPertask_elapsed, getCpuusageForPertask_splitStages]
    exact made
  · have nothing : Dir.get (.empty : Dir Text File) f = none := rfl
    have files : (withElapsed env traces o).pertask = (splitStages env traces o).pertask := rfl
    rw [nothing, files]
    by_cases chosen : f ∈ processed env (withElapsed env traces o)
    · rw [List.count_eq_one_of_mem (nodup_processed isEntry) chosen, Function.iterate_one,
        afterRound_none]
      simp [chosen]
    · rw [List.count_eq_zero.mpr chosen, Function.iterate_zero_apply,
        if_neg fun both => chosen both.1]

end Processed

end StudyLinux
