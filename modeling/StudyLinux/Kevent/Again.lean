import StudyLinux.Kevent.History
import StudyLinux.Kevent.Leftovers

/-!
# Running all stages again

`--mode all` appends to `output/tasklist` each time, but nothing else grows: behind any
history, further runs of all stages on the same traces leave what the first one leaves,
except for the task list (`leftByAll_again`).
-/

namespace StudyLinux

/-! ## A run and the entries it looks for -/

/-- The directory without `output/tasklist`. -/
def Output.withoutTasklist (o : Output) : Output := { o with tasklist := [] }

/-- The directory without what the last two stages neither read nor keep. -/
def Output.basis (o : Output) : Output :=
  { o with
    tasklist := []
    totCpuusagePertask := [] }

theorem foldl_getCpuusageForTask_basis (env : Env) (names : List Text) (o : Output) :
    (names.foldl (getCpuusageForTask env) o).basis =
      names.foldl (getCpuusageForTask env) o.basis := by
  induction names generalizing o with
  | nil => rfl
  | cons name names ih => exact ih (getCpuusageForTask env o name)

theorem getCpuusageForPertask_basis (env : Env) (o : Output) :
    (getCpuusageForPertask env o).basis = getCpuusageForPertask env o.basis := by
  unfold getCpuusageForPertask
  rw [foldl_getCpuusageForTask_basis]
  rfl

theorem mergeCpuusageOfPertask_withoutTasklist (env : Env) (o : Output) :
    (mergeCpuusageOfPertask env o).withoutTasklist = mergeCpuusageOfPertask env o.basis := rfl

/-- The last two stages on the basis. -/
theorem doAllStage_withoutTasklist (env : Env) (traces : Traces) (o : Output) :
    (doAllStage env traces o).1.withoutTasklist =
      mergeCpuusageOfPertask env (getCpuusageForPertask env (splitStages env traces o).basis) := by
  rw [← getCpuusageForPertask_basis, ← mergeCpuusageOfPertask_withoutTasklist, doAllStage]

section Entries

variable {env : Env} {traces : Traces} {a b : Output}

/-- The stages in front of the split leave nothing of an earlier directory but its task
list. -/
theorem splitStages_basis
    (same : (splitStages env traces a).pertask = (splitStages env traces b).pertask) :
    (splitStages env traces a).basis = (splitStages env traces b).basis := by
  have onlySwitch : (splitStages env traces a).onlySwitch = (splitStages env traces b).onlySwitch :=
    funext fun cpu => by cases cpu <;> rfl
  have timestamp : (splitStages env traces a).timestamp = (splitStages env traces b).timestamp :=
    funext fun cpu => by cases cpu <;> rfl
  have switchdata : (splitStages env traces a).switchdata = (splitStages env traces b).switchdata :=
    funext fun cpu => by cases cpu <;> rfl
  have csv : (splitStages env traces a).csv = (splitStages env traces b).csv :=
    funext fun cpu => by cases cpu <;> rfl
  have lists : (splitStages env traces a).cpuTasklist = (splitStages env traces b).cpuTasklist :=
    funext fun cpu => by cases cpu <;> rfl
  unfold Output.basis
  rw [onlySwitch, timestamp, switchdata, csv, lists, same, splitStages_elapsed, splitStages_elapsed]

/-- The per-task files depend on the entries that are looked for, not on their order. -/
theorem splitStages_pertask_congr (isEntry : ∀ entry ∈ entries env traces a, IsEntry entry)
    (same : ∀ entry, entry ∈ entries env traces a ↔ entry ∈ entries env traces b) :
    (splitStages env traces a).pertask = (splitStages env traces b).pertask := by
  have isEntry' : ∀ entry ∈ entries env traces b, IsEntry entry := fun entry listed =>
    isEntry entry ((same entry).mpr listed)
  rw [splitStages_pertask, splitStages_pertask]
  exact foldl_getCpuusageForProcess_congr (fun entry listed => (isEntry entry listed).numbered)
    (noClash_of_isEntry _ isEntry) same

/-- So does everything that all stages leave, but for the task list. -/
theorem doAllStage_congr (isEntry : ∀ entry ∈ entries env traces a, IsEntry entry)
    (same : ∀ entry, entry ∈ entries env traces a ↔ entry ∈ entries env traces b) :
    (doAllStage env traces a).1.withoutTasklist = (doAllStage env traces b).1.withoutTasklist := by
  rw [doAllStage_withoutTasklist, doAllStage_withoutTasklist,
    splitStages_basis (splitStages_pertask_congr isEntry same)]

/-- A run adds no entry that it does not look for itself. -/
theorem mem_entries_doAllStage {entry : Text} :
    entry ∈ entries env traces (doAllStage env traces a).1 ↔ entry ∈ entries env traces a := by
  unfold entries
  rw [doAllStage_tasklist, listedEntries_append, List.mem_append]
  refine or_iff_left_of_imp fun listed => ?_
  rw [listedEntries_append]
  exact List.mem_append_right _ listed

theorem mem_entries_iterate {entry : Text} (n : Nat) :
    entry ∈ entries env traces ((fun o => (doAllStage env traces o).1)^[n] a) ↔
      entry ∈ entries env traces a := by
  induction n with
  | zero => rfl
  | succ n ih => rw [Function.iterate_succ_apply', mem_entries_doAllStage, ih]

end Entries

/-! ## Histories -/

/-- Every run behind a history looks for entries only. -/
theorem isEntry_of_leftByAll {p : Patterns} {history : List Invocation}
    (stages : ∀ i ∈ history, i.RunsStages) (w : World) (options : Options) :
    ∀ entry ∈ entries (w.env p options) w.traces ((leftByAll p history).getD .new),
      IsEntry entry := by
  have holds := (holds_leftByAll p stages).2
  have list : (((leftByAll p history).getD .new).tasklist ++
      fileList.flatMap fun cpu => taskLines (w.traces cpu)) =
        mergedLines ((Ledger.ofHistory p history).merged ++ [w.recorded]) := by
    rw [holds.tasklist, mergedLines, mergedLines, List.flatMap_append, List.flatMap_singleton]
    rfl
  rw [entries, list, listedEntries_of_isEntry _ isEntry_of_mem_mergedLines]
  exact isEntry_of_mem_mergedLines

/-- An invocation that runs all stages. -/
structure Invocation.RunsAll (i : Invocation) (options : Options) : Prop where
  accepted : i.options = .ok options
  mode : OpMode.ofText options.opMode = .all

theorem Invocation.RunsAll.invoke {p : Patterns} {i : Invocation} {options : Options}
    (runs : i.RunsAll options) (o : Option Output) :
    invoke p o i =
      some (doAllStage (i.world.env p options) i.world.traces (o.getD .new)).1 := by
  unfold StudyLinux.invoke dispatch
  rw [runs.accepted]
  dsimp only
  rw [runs.mode]

/-- Behind any history of stages, running all of them several times leaves what running
them once leaves, except for the task list. -/
theorem leftByAll_again (p : Patterns) {history : List Invocation} {i : Invocation}
    {options : Options} (stages : ∀ j ∈ history, j.RunsStages) (runs : i.RunsAll options)
    (n : Nat) :
    (leftByAll p (history ++ List.replicate (n + 1) i)).map Output.withoutTasklist =
      (leftByAll p (history ++ [i])).map Output.withoutTasklist := by
  let o := (leftByAll p history).getD .new
  let again := fun o => (doAllStage (i.world.env p options) i.world.traces o).1
  have left (n : Nat) :
      leftByAll p (history ++ List.replicate (n + 1) i) = some (again^[n + 1] o) := by
    induction n with
    | zero =>
        rw [List.replicate_one, leftByAll, List.foldl_append, List.foldl_cons, List.foldl_nil,
          runs.invoke]
        rfl
    | succ n ih =>
        rw [List.replicate_succ', ← List.append_assoc, leftByAll, List.foldl_append,
          List.foldl_cons, List.foldl_nil, ← leftByAll, ih, runs.invoke,
          Function.iterate_succ_apply' again (n + 1)]
        rfl
  have isEntry : ∀ entry ∈ entries (i.world.env p options) i.world.traces (again^[n] o),
      IsEntry entry := fun entry listed =>
    isEntry_of_leftByAll stages i.world options entry ((mem_entries_iterate n).mp listed)
  have once := left 0
  rw [List.replicate_one, Function.iterate_one] at once
  rw [left n, once, Option.map_some, Option.map_some, Function.iterate_succ_apply' again]
  exact congrArg some (doAllStage_congr isEntry fun entry => mem_entries_iterate n)

def convertEarlier : Invocation := convertOnly ⟨earlierEvents, cleanNames_earlierEvents⟩

def runCurrent : Invocation := runAll ⟨currentEvents, cleanNames_currentEvents⟩

/-- The second of two runs on `currentEvents` changes the task list only. -/
theorem leftByAll_again_twice :
    (leftByAll .simple ([convertEarlier] ++ List.replicate 2 runCurrent)).map
        Output.withoutTasklist =
      (leftByAll .simple ([convertEarlier] ++ [runCurrent])).map Output.withoutTasklist := by
  have runs : runCurrent.RunsAll .initial := ⟨rfl, by decide⟩
  refine leftByAll_again .simple (fun i member => ?_) runs 1
  obtain rfl := List.mem_singleton.mp member
  intro options accepted
  cases accepted
  decide

end StudyLinux
