import StudyLinux.Kevent.Invocation

/-!
# What a history of invocations leaves

The stages may be run one by one, in any order and any number of times. The ledger has
what remains of that: the traces that were converted last and how often their tasks were
collected since, the traces whose tasks were merged, both as they stood at the last
split, and how often each per-task file was worked on since then. The directory is
determined by the ledger, file by file (`holds_leftByAll`).
-/

namespace StudyLinux

/-! ## The ledger -/

/-- What a history comes down to. `there` says that `output/` has been made, `copies` is
there when `output/pertask/elapsed` is, and `summary` is the file of the last merge. -/
structure Ledger where
  there : Bool
  latest : CleanEvents
  collected : Nat
  merged : List CleanEvents
  splitFrom : CleanEvents
  splitFor : List CleanEvents
  copies : Option (Text → Nat)
  summary : File

/-- Nothing has been run. -/
def Ledger.initial : Ledger where
  there := false
  latest := .none
  collected := 0
  merged := []
  splitFrom := .none
  splitFor := []
  copies := none
  summary := []

/-- The task names of one CPU, one for each event. -/
def taskNames (traces : Traces) (cpu : Cpu) : File :=
  (csvsOf traces cpu).map (cutFields ',' [2, 3])

/-- The task lists of traces, one behind the other. -/
def mergedLines (merged : List CleanEvents) : File :=
  merged.flatMap fun recorded => fileList.flatMap fun cpu => taskLines (recorded.traces cpu)

/-- Lines that are there so many times. -/
def repeated (n : Nat) (lines : File) : Option File :=
  if n = 0 ∨ lines = [] then none else some (List.replicate n lines).flatten

/-- The copies after rounds of the files of some names. -/
def copiesAfter (debug : Bool) (names : List Text) (copies : Text → Nat) (f : Text) : Nat :=
  if names.count f = 0 then copies f else if debug then 1 else copies f + names.count f

namespace Ledger

section Files

variable (p : Patterns) (l : Ledger)

/-- The per-task files: each has the rows of one of the tasks. -/
def pertask : Dir Text File :=
  (writers p ((mergedLines l.splitFor).flatMap words)).mapValues
    (entryRows p (csvsOf l.splitFrom.traces))

/-- The elapsed files: each has copies of the lines of its per-task file. -/
def elapsed : Option (Dir Text File) :=
  l.copies.map fun copies =>
    (l.pertask p).filterMapValues fun name file => repeated (copies name) (elapsedLines file)

/-- The files that `get_cpuusage` works on. -/
def listed (env : Env) : List Text :=
  listedNames env { Output.new with pertask := l.pertask env.toPatterns }

end Files

def convert (recorded : CleanEvents) (l : Ledger) : Ledger :=
  { l with
    there := true
    latest := recorded
    collected := 0 }

def collect (l : Ledger) : Ledger := { l with collected := l.collected + 1 }

def merge (l : Ledger) : Ledger :=
  { l with merged := if l.collected = 0 then l.merged else l.merged ++ [l.latest] }

def split (l : Ledger) : Ledger :=
  { l with
    there := true
    splitFrom := l.latest
    splitFor := l.merged
    copies := none }

def work (debug : Bool) (names : List Text) (l : Ledger) : Ledger :=
  { l with
    there := true
    copies := some (copiesAfter debug names (l.copies.getD 0)) }

/-- Without `output/` there is no place for the summary. -/
def summarize (summary : Dir Text File → File) (p : Patterns) (l : Ledger) : Ledger :=
  { l with summary := if l.there then summary ((l.elapsed p).getD .empty) else l.summary }

/-- What the branch of the dispatch enters in the ledger. -/
def enter (p : Patterns) (w : World) (options : Options) (l : Ledger) : Ledger :=
  let env := w.env p options
  match OpMode.ofText options.opMode with
  | .all =>
      let l := ((l.convert w.recorded).collect.merge).split
      let worked := l.work env.debug (l.listed env)
      worked.summarize (fun elapsed => summaryNames env elapsed :: summaryRows env elapsed) p
  | .csv => l.convert w.recorded
  | .tasklist => l.collect
  | .tasklistUniq => l.merge
  | .splitEvent => l.split
  | .getCpuusage => l.work env.debug (l.listed env)
  | .gcu => if l.copies.isNone then l else l.work env.debug [inputName p w options]
  | .mergeCpuusage => l.summarize (summaryOf p w options) p
  | .checkNFix | .getYpt => l

/-- The ledger of one more invocation. -/
def record (p : Patterns) (l : Ledger) (i : Invocation) : Ledger :=
  match i.options with
  | .error _ => l
  | .ok options => l.enter p i.world options

/-- The ledger of a history. -/
def ofHistory (p : Patterns) (history : List Invocation) : Ledger :=
  history.foldl (record p) initial

/-- The directory is what the ledger says. -/
structure Holds (p : Patterns) (l : Ledger) (o : Output) : Prop where
  onlySwitch : ∀ cpu, o.onlySwitch cpu = getOnlySwitchField (l.latest.traces cpu)
  timestamp : ∀ cpu,
    o.timestamp cpu = (makeItCsv (getOnlySwitchField (l.latest.traces cpu))).timestamp
  switchdata : ∀ cpu,
    o.switchdata cpu = (makeItCsv (getOnlySwitchField (l.latest.traces cpu))).switchdata
  csv : o.csv = csvsOf l.latest.traces
  cpuTasklist : ∀ cpu,
    o.cpuTasklist cpu = (List.replicate l.collected (taskNames l.latest.traces cpu)).flatten
  tasklist : o.tasklist = mergedLines l.merged
  pertask : o.pertask = l.pertask p
  elapsed : o.elapsed = l.elapsed p
  totCpuusagePertask : o.totCpuusagePertask = l.summary

end Ledger

/-! ## Repetition -/

/-- Rounds add copies, or start with one copy. -/
theorem iterate_afterRound_repeated (debug : Bool) (lines : File) (n k : Nat) :
    (afterRound debug lines)^[k] (repeated n lines) =
      repeated (if k = 0 then n else if debug then 1 else n + k) lines := by
  cases k with
  | zero => rfl
  | succ m =>
      rw [if_neg m.succ_ne_zero]
      by_cases empty : lines = []
      · subst empty
        have nothing (n : Nat) : repeated n [] = none := if_pos (Or.inr rfl)
        rw [nothing, nothing]
        cases debug with
        | true => rw [iterate_afterRound_debug, if_pos rfl]
        | false => rw [iterate_afterRound_nil]
      · cases debug with
        | true =>
            rw [iterate_afterRound_debug, if_neg empty, if_pos rfl, repeated,
              if_neg fun none => none.elim Nat.one_ne_zero empty, List.replicate_one,
              List.flatten_singleton]
        | false =>
            have old : (repeated n lines).getD [] = (List.replicate n lines).flatten := by
              unfold repeated
              split_ifs with none
              · rcases none with rfl | none
                · rfl
                · exact absurd none empty
              · rfl
            rw [iterate_afterRound empty, old, if_neg Bool.false_ne_true, repeated,
              if_neg fun none => none.elim (by omega) empty, List.replicate_add n (m + 1),
              List.flatten_append]

/-- A list of names that is collected several times has no further tasks. -/
theorem uniq_sortLines_replicate (names : File) {n : Nat} (collected : n ≠ 0) :
    uniq (sortLines (List.replicate n names).flatten) = uniq (sortLines names) := by
  refine uniq_sortLines_congr fun line => ?_
  rw [List.mem_flatten]
  constructor
  · intro inCopy
    rcases inCopy with ⟨copy, member, inside⟩
    rwa [(List.mem_replicate.mp member).2] at inside
  · exact fun member => ⟨names, List.mem_replicate.mpr ⟨collected, rfl⟩, member⟩

/-! ## The stages and the ledger -/

theorem findAllTasknamePercpu_new : findAllTasknamePercpu .new = .new := by
  have lists : (findAllTasknamePercpu .new).cpuTasklist = Output.new.cpuTasklist :=
    funext fun cpu => findAllTasknamePercpu_cpuTasklist .new cpu
  unfold findAllTasknamePercpu fileList at lists ⊢
  dsimp only [List.foldl_cons, List.foldl_nil] at lists ⊢
  rw [lists]

theorem getUniqTasklist_new : getUniqTasklist .new = .new := rfl

/-- Without the directory there is nowhere to append. -/
theorem getCpuusageForTask_of_none (env : Env) {o : Output} (absent : o.elapsed = none)
    (name : Text) : getCpuusageForTask env o name = o := by
  have fold (steps : List Text) (start : Option (Dir Text File)) (none : start = none) :
      steps.foldl (fun elapsed period => elapsed.map (appendTo name [elapsedLine period])) start =
        Option.none := by
    induction steps generalizing start with
    | nil => exact none
    | cons step steps ih => exact ih _ (by rw [none]; rfl)
  unfold getCpuusageForTask
  rw [absent, Option.map_none, ite_self]
  dsimp only
  rw [fold _ none rfl, ← absent]

/-- Working on files changes the elapsed files only. -/
theorem foldl_getCpuusageForTask_frame (env : Env) (names : List Text) (o : Output) :
    names.foldl (getCpuusageForTask env) o =
      { o with elapsed := (names.foldl (getCpuusageForTask env) o).elapsed } := by
  induction names generalizing o with
  | nil => rfl
  | cons name names ih => exact ih (getCpuusageForTask env o name)

theorem getCpuusageForPertask_frame (env : Env) (o : Output) :
    getCpuusageForPertask env o =
      { o with elapsed := (getCpuusageForPertask env o).elapsed } := by
  unfold getCpuusageForPertask
  dsimp only
  rw [foldl_getCpuusageForTask_frame]

/-- The words of merged lists are entries. -/
theorem isEntry_of_mem_mergedLines {merged : List CleanEvents} :
    ∀ word ∈ (mergedLines merged).flatMap words, IsEntry word := by
  intro word listed
  obtain ⟨line, inLines, inLine⟩ := List.mem_flatMap.mp listed
  obtain ⟨recorded, -, inTraces⟩ := List.mem_flatMap.mp inLines
  have added : word ∈ (fileList.flatMap fun cpu => taskLines (recorded.traces cpu)).flatMap
      words := List.mem_flatMap.mpr ⟨line, inTraces, inLine⟩
  obtain ⟨cpu, e, member, inLeaving⟩ := (mem_words_taskLines recorded.clean).mp added
  exact recorded.clean.isEntry member inLeaving

/-- Each elapsed file has copies of the lines of its per-task file. -/
theorem Ledger.get_elapsed (p : Patterns) (l : Ledger) (f : Text) :
    ((l.elapsed p).getD .empty).get f =
      repeated (l.copies.getD 0 f) (elapsedLines (((l.pertask p).get f).getD [])) := by
  unfold Ledger.elapsed
  cases l.copies with
  | none => exact (if_pos (Or.inl rfl)).symm
  | some copies =>
      rw [Option.map_some, Option.getD_some, Option.getD_some, Dir.get_filterMapValues]
      cases (l.pertask p).get f with
      | none => exact (if_pos (Or.inr elapsedLines_nil)).symm
      | some file => rfl

namespace Ledger.Holds

variable {p : Patterns} {l : Ledger} {o : Output}

theorem initial : Ledger.initial.Holds p .new where
  onlySwitch _ := rfl
  timestamp _ := rfl
  switchdata _ := rfl
  csv := funext fun _ => show [] = csvOf [] by decide
  cpuTasklist _ := rfl
  tasklist := rfl
  pertask := rfl
  elapsed := rfl
  totCpuusagePertask := rfl

theorem convert (holds : l.Holds p o) (recorded : CleanEvents) :
    (l.convert recorded).Holds p (transToCsv recorded.traces o) where
  onlySwitch cpu := by cases cpu <;> rfl
  timestamp cpu := by cases cpu <;> rfl
  switchdata cpu := by cases cpu <;> rfl
  csv := funext (transToCsv_csv recorded.traces o)
  cpuTasklist _ := rfl
  tasklist := holds.tasklist
  pertask := holds.pertask
  elapsed := holds.elapsed
  totCpuusagePertask := holds.totCpuusagePertask

theorem collect (holds : l.Holds p o) : l.collect.Holds p (findAllTasknamePercpu o) where
  onlySwitch := holds.onlySwitch
  timestamp := holds.timestamp
  switchdata := holds.switchdata
  csv := holds.csv
  cpuTasklist cpu := by
    rw [findAllTasknamePercpu_cpuTasklist, holds.cpuTasklist, holds.csv]
    change _ = (List.replicate (l.collected + 1) (taskNames l.latest.traces cpu)).flatten
    rw [List.replicate_succ', List.flatten_append, List.flatten_singleton]
    rfl
  tasklist := holds.tasklist
  pertask := holds.pertask
  elapsed := holds.elapsed
  totCpuusagePertask := holds.totCpuusagePertask

theorem merge (holds : l.Holds p o) : l.merge.Holds p (getUniqTasklist o) where
  onlySwitch := holds.onlySwitch
  timestamp := holds.timestamp
  switchdata := holds.switchdata
  csv := holds.csv
  cpuTasklist := holds.cpuTasklist
  tasklist := by
    rw [getUniqTasklist_tasklist, holds.tasklist]
    simp only [holds.cpuTasklist]
    unfold Ledger.merge
    dsimp only
    split_ifs with fresh
    · simp [fresh, sortLines, sortBy, uniq]
    · rw [mergedLines, mergedLines, List.flatMap_append, List.flatMap_singleton]
      refine congrArg _ (List.flatMap_congr fun cpu _ => ?_)
      rw [uniq_sortLines_replicate _ fresh, taskNames, taskLines, csvsOf]
  pertask := holds.pertask
  elapsed := holds.elapsed
  totCpuusagePertask := holds.totCpuusagePertask

theorem split (env : Env) (holds : l.Holds env.toPatterns o) :
    l.split.Holds env.toPatterns (splitEventIntoPertask env o) where
  onlySwitch := holds.onlySwitch
  timestamp := holds.timestamp
  switchdata := holds.switchdata
  csv := holds.csv
  cpuTasklist := holds.cpuTasklist
  tasklist := holds.tasklist
  pertask := by
    have isEntry : ∀ word ∈ (mergedLines l.merged).flatMap words, IsEntry word :=
      isEntry_of_mem_mergedLines
    change (listedEntries env o.tasklist).foldl (getCpuusageForProcess env.toPatterns o.csv)
      .empty = _
    rw [holds.csv, holds.tasklist, listedEntries_of_isEntry env isEntry,
      foldl_getCpuusageForProcess_eq fun word member => (isEntry word member).numbered]
    rfl
  elapsed := rfl
  totCpuusagePertask := holds.totCpuusagePertask

/-- The listing depends on the per-task files alone. -/
theorem listed {env : Env} (holds : l.Holds env.toPatterns o) :
    listedNames env o = l.listed env := by
  unfold Ledger.listed listedNames processed pertaskEntries
  rw [holds.pertask]

/-- Rounds of some files, where there is a place for their lines. -/
theorem rounds {debug : Bool} {names : List Text} {d : Dir Text File} (holds : l.Holds p o)
    (run : ∀ f, d.get f =
      (afterRound debug (contribution o f))^[names.count f] ((leftover o).get f)) :
    (l.work debug names).Holds p { o with elapsed := some d } where
  onlySwitch := holds.onlySwitch
  timestamp := holds.timestamp
  switchdata := holds.switchdata
  csv := holds.csv
  cpuTasklist := holds.cpuTasklist
  tasklist := holds.tasklist
  pertask := holds.pertask
  elapsed := by
    refine congrArg some (Dir.ext_get fun f => ?_)
    have after := (l.work debug names).get_elapsed p f
    have before := l.get_elapsed p f
    rw [← holds.elapsed, ← holds.pertask] at before
    refine Eq.trans ?_ after.symm
    rw [run, leftover, before, contribution, iterate_afterRound_repeated, holds.pertask]
    rfl
  totCpuusagePertask := holds.totCpuusagePertask

theorem work (env : Env) (holds : l.Holds env.toPatterns o) :
    (l.work env.debug (l.listed env)).Holds env.toPatterns (getCpuusageForPertask env o) := by
  obtain ⟨d, made, run⟩ := getCpuusageForPertask_elapsed env o
  rw [getCpuusageForPertask_frame, made, ← holds.listed]
  exact holds.rounds run

theorem isSome_copies (holds : l.Holds p o) : o.elapsed.isSome = l.copies.isSome := by
  rw [holds.elapsed, Ledger.elapsed, Option.isSome_map]

/-- `gcu` works on one file, when there is a place for its lines. -/
theorem gcu (env : Env) (holds : l.Holds p o) (name : Text) :
    (if l.copies.isNone then l else l.work env.debug [name]).Holds p
      (getCpuusageForTask env o name) := by
  have made := holds.isSome_copies
  cases copies : l.copies with
  | none =>
      have absent : o.elapsed = none := by
        rw [← Option.not_isSome_iff_eq_none, made, copies]
        exact Bool.false_ne_true
      rw [getCpuusageForTask_of_none env absent, Option.isNone_none, if_pos rfl]
      exact holds
  | some c =>
      obtain ⟨d, there⟩ : ∃ d, o.elapsed = some d := by
        rw [← Option.isSome_iff_exists, made, copies]
        rfl
      obtain ⟨d', made', run⟩ := foldl_getCpuusageForTask env [name] there
      have frame := foldl_getCpuusageForTask_frame env [name] o
      rw [made'] at frame
      rw [List.foldl_cons, List.foldl_nil] at frame
      rw [Option.isNone_some, if_neg Bool.false_ne_true, frame]
      refine holds.rounds fun f => ?_
      rw [run, leftover, there, Option.getD_some]
      rfl

/-- A merge writes the summary of the elapsed files that are there. -/
theorem summarize (holds : l.Holds p o) (there : l.there) (summary : Dir Text File → File) :
    (l.summarize summary p).Holds p
      { o with totCpuusagePertask := summary (o.elapsed.getD .empty) } where
  onlySwitch := holds.onlySwitch
  timestamp := holds.timestamp
  switchdata := holds.switchdata
  csv := holds.csv
  cpuTasklist := holds.cpuTasklist
  tasklist := holds.tasklist
  pertask := holds.pertask
  elapsed := holds.elapsed
  totCpuusagePertask := by
    unfold Ledger.summarize
    rw [if_pos there, holds.elapsed]

end Ledger.Holds

theorem Ledger.summarize_of_absent {l : Ledger} (absent : l.there = false)
    (summary : Dir Text File → File) (p : Patterns) : l.summarize summary p = l := by
  unfold Ledger.summarize
  rw [if_neg (by rw [absent]; exact Bool.false_ne_true)]

/-- The ledger of a directory that may not be there yet. -/
structure Ledger.HoldsAt (p : Patterns) (l : Ledger) (o : Option Output) : Prop where
  there : l.there = o.isSome
  holds : l.Holds p (o.getD .new)

/-- One branch of the dispatch. -/
theorem Ledger.HoldsAt.enter {p : Patterns} {l : Ledger} {o : Option Output} (w : World)
    (options : Options) (at' : l.HoldsAt p o) (stages : OpMode.ofText options.opMode ≠ .getYpt) :
    (l.enter p w options).HoldsAt p (dispatch p w options o) := by
  obtain ⟨there, holds⟩ := at'
  unfold Ledger.enter dispatch
  dsimp only
  cases mode : OpMode.ofText options.opMode with
  | all =>
      have split := ((holds.convert w.recorded).collect).merge.split (w.env p options)
      exact ⟨rfl, (split.work (w.env p options)).summarize rfl _⟩
  | csv => exact ⟨rfl, holds.convert w.recorded⟩
  | tasklist =>
      cases o with
      | none => exact ⟨there, findAllTasknamePercpu_new ▸ holds.collect⟩
      | some o => exact ⟨there, holds.collect⟩
  | tasklistUniq =>
      cases o with
      | none => exact ⟨there, getUniqTasklist_new ▸ holds.merge⟩
      | some o => exact ⟨there, holds.merge⟩
  | splitEvent => exact ⟨rfl, holds.split (w.env p options)⟩
  | getCpuusage => exact ⟨rfl, holds.work (w.env p options)⟩
  | gcu =>
      cases o with
      | none =>
          have still := getCpuusageForTask_of_none (w.env p options) (o := .new) rfl
          have absent : l.copies.isNone := by
            rw [← Option.not_isSome, ← holds.isSome_copies]
            rfl
          have worked := holds.gcu (w.env p options) (inputName p w options)
          rw [Option.getD_none, still] at worked
          refine ⟨?_, worked⟩
          rw [if_pos absent]
          exact there
      | some o =>
          refine ⟨?_, holds.gcu _ _⟩
          split_ifs
          · exact there
          · rfl
  | mergeCpuusage =>
      cases o with
      | none => exact ⟨there, (Ledger.summarize_of_absent there _ p).symm ▸ holds⟩
      | some o => exact ⟨there, holds.summarize there _⟩
  | checkNFix => exact ⟨there, holds⟩
  | getYpt => exact absurd mode stages

/-- What any history of invocations leaves is what its ledger says: the files of the
conversion are those of the traces converted last, the task lists are those collected and
merged since, the per-task files are those of the last split, each elapsed file has as
many copies of the lines of its per-task file as the ledger counts, and the summary is
that of the last merge. -/
theorem holds_leftByAll (p : Patterns) {history : List Invocation}
    (stages : ∀ i ∈ history, i.RunsStages) :
    (Ledger.ofHistory p history).there = (leftByAll p history).isSome ∧
      (Ledger.ofHistory p history).Holds p ((leftByAll p history).getD .new) := by
  have at' : (Ledger.ofHistory p history).HoldsAt p (leftByAll p history) := by
    induction history using List.reverseRecOn with
    | nil => exact ⟨rfl, .initial⟩
    | append_singleton history i ih =>
        have earlier := ih fun j member => stages j (List.mem_append_left _ member)
        rw [Ledger.ofHistory, leftByAll, List.foldl_append, List.foldl_append, List.foldl_cons,
          List.foldl_nil, List.foldl_cons, List.foldl_nil]
        unfold Ledger.record invoke
        cases accepted : i.options with
        | error _ => exact earlier
        | ok options =>
            exact earlier.enter i.world options
              (stages i (List.mem_append_right _ (List.mem_singleton_self i)) options accepted)
  exact ⟨at'.there, at'.holds⟩

/-- One switch from `a` to `b`. -/
def oneSwitch : CleanEvents where
  events
    | .cpu0 => [switchEvent taskA taskB 2]
    | _ => []
  clean cpu e member := by
    cases cpu with
    | cpu0 =>
        obtain rfl := List.mem_singleton.mp member
        decide
    | _ => exact absurd member List.not_mem_nil

/-- A working directory with the traces of these events. -/
def smallWorld (recorded : CleanEvents) : World where
  recorded := recorded
  dirSize := 4096
  blockSize := 4096
  stdin := []
  workingDir := (Env.small false).workingDir
  otherListing _ := []
  getProcessDetailEvt _ o := o

/-- An invocation with these arguments. -/
def invocation (recorded : CleanEvents) (arguments : List Text)
    (plain : ∀ argument ∈ arguments, ∀ c ∈ argument, isGlob c = false) : Invocation :=
  ⟨smallWorld recorded, arguments, plain⟩

/-- Converts the traces. -/
def convertOnly (recorded : CleanEvents) : Invocation :=
  invocation recorded ["--mode".toList, "csv".toList] (by decide)

/-- Runs all stages. -/
def runAll (recorded : CleanEvents) : Invocation := invocation recorded [] (by decide)

/-- The traces are converted, then all stages are run. -/
def smallHistory : List Invocation := [convertOnly oneSwitch, runAll oneSwitch]

theorem holds_leftByAll_small :
    (Ledger.ofHistory .simple smallHistory).Holds .simple
      ((leftByAll .simple smallHistory).getD .new) := by
  refine (holds_leftByAll .simple fun i member => ?_).2
  rcases List.mem_cons.mp member with rfl | second
  · intro options accepted
    cases accepted
    decide
  · obtain rfl := List.mem_singleton.mp second
    intro options accepted
    cases accepted
    decide

end StudyLinux
