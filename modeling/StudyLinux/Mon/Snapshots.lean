import StudyLinux.Mon.Setup
import StudyLinux.Mon.Start
import StudyLinux.Store.Replay
import StudyLinux.Text.Decimal

/-!
# Snapshots of the process

mon.sh copies three files of the process to the directory hudhmi.leakinfo: when it
starts, in every round, and in the round that ends the monitoring. The directory is
made by a setup and nobody ever clears it, so behind a history of invocations each of
its files is what some run has copied there last (`snapshots_runScript`).
-/

namespace StudyLinux

namespace Mon

/-! ## The directory -/

/-- The files of a process that are copied. -/
inductive ProcFile
  | maps | smaps | status
  deriving DecidableEq

/-- When they are copied. -/
inductive Moment
  | start | last | final
  deriving DecidableEq

def ProcFile.word : ProcFile → Text
  | maps => "maps".toList
  | smaps => "smaps".toList
  | status => "staus".toList

/-- POSTFIX. -/
def Moment.word : Moment → Text
  | start => "start".toList
  | last => "last".toList
  | final => "end".toList

/-- `hudhmi.$PID.maps.$POSTFIX`, and the same for the other two. -/
def snapshotName (pid : Nat) (file : ProcFile) (moment : Moment) : Text :=
  "hudhmi.".toList ++ (decimal pid ++ '.' :: file.word ++ '.' :: moment.word)

/-- /proc/$PID, when it is read. What cannot be read is `none`. -/
abbrev ProcDir (α : Type) := ProcFile → Option α

/-- The directory hudhmi.leakinfo, if it exists. -/
abbrev WorkingDir (α : Type) := Option (Text → Option α)

variable {α : Type}

/-- `cp_proc_meminfo`. Without a pid it looks for /proc//maps, and without the directory
there is nowhere to copy to. -/
def cpProcMeminfo (pid : Option Nat) (moment : Moment) (proc : ProcDir α) (dir : WorkingDir α) :
    WorkingDir α :=
  match pid with
  | none => dir
  | some pid => dir.map fun dir =>
      let dir := perform dir (snapshotName pid .maps moment, proc .maps)
      let dir := perform dir (snapshotName pid .smaps moment, proc .smaps)
      perform dir (snapshotName pid .status moment, proc .status)

/-! ## The monitoring loop with its copies -/

/-- What one round reads, /proc included, at its start and in case that it is the last. -/
structure Round (α : Type) extends Sample α where
  proc : ProcDir α
  endProc : ProcDir α

/-- One round of the loop of `mon_start`, its copies included. -/
def copyingRound (startRss endRss : Option Int) (p : Progress α × WorkingDir α) (round : Round α) :
    Except (Nat × Device α × WorkingDir α) (Progress α × WorkingDir α) :=
  let d := p.1.device
  let dir := cpProcMeminfo round.pid .last round.proc p.2
  if p.1.monitoringStarted = false then
    if numGt round.rss startRss then
      let d := startAndReportLeak round.reaction.pid d
      let d := reported round.reaction.report d
      match testMonitoringWorkOrNot d with
      | .error (status, d) => .error (status, d, dir)
      | .ok () => .ok (⟨true, cleanPrevFiles d⟩, dir)
    else .ok (p.1, dir)
  else if numGt round.rss endRss then
    .error (0, d.kill 30 round.pid, cpProcMeminfo round.pid .final round.endProc dir)
  else .ok (p.1, dir)

/-- What an invocation finds: for a setup, and for the monitoring until it exits or is
killed. -/
structure Surroundings (α : Type) where
  setup : SetupEnv α
  startPid : Option Nat
  startProc : ProcDir α
  rounds : List (Round α)

/-- `mon_start`, its copies included. -/
def copyingMonStart (startRss endRss : Option Int) (around : Surroundings α) (d : Device α)
    (dir : WorkingDir α) : Except (Nat × Device α × WorkingDir α) (Progress α × WorkingDir α) :=
  let dir := cpProcMeminfo around.startPid .start around.startProc dir
  around.rounds.foldlM (copyingRound startRss endRss) (⟨false, cleanPrevFiles d⟩, dir)

/-! ## The script -/

/-- What the arguments ask for. -/
inductive Request
  | setup
  | restore
  | invalid
  | monitor (endRss startRss : Text)
  deriving DecidableEq

/-- The tests of `$1` and `$2`. -/
def request (argv : List Text) : Request :=
  let first := argv[0]?.getD []
  let second := argv[1]?.getD []
  if first = "setup".toList then .setup
  else if first = "restore".toList then .restore
  else if first = [] then .invalid
  else if second = [] then .monitor first "0".toList
  else .monitor first second

/-- The files of the device and its snapshots. -/
structure State (α : Type) where
  files : Path → Option α
  workingDir : WorkingDir α

/-- An invocation of the script. -/
structure Invocation (α : Type) where
  argv : List Text
  around : Surroundings α

/-- What a run of the monitoring leaves behind, whether it has exited or is killed. -/
def leftByMonStart : Except (Nat × Device α × WorkingDir α) (Progress α × WorkingDir α) → State α
  | .ok (p, dir) => ⟨p.device.files, dir⟩
  | .error (_, d, dir) => ⟨d.files, dir⟩

/-- The whole script. `numberOf` is how `[` reads a number. -/
def runScript (numberOf : Text → Option Int) (s : State α) (invocation : Invocation α) : State α :=
  match request invocation.argv with
  | .setup =>
      -- `mkdir` fails when the directory is there, and nobody looks at that
      ⟨runCommand s.files (.setup invocation.around.setup),
        some (s.workingDir.getD fun _ => none)⟩
  | .restore => ⟨runCommand s.files .restore, s.workingDir⟩
  | .invalid => s
  | .monitor endRss startRss =>
      leftByMonStart (copyingMonStart (numberOf startRss) (numberOf endRss) invocation.around
        ⟨s.files, []⟩ s.workingDir)

/-! ## Names of snapshots -/

theorem ProcFile.word_injective {file other : ProcFile} (same : file.word = other.word) :
    file = other := by
  cases file <;> cases other <;> first | rfl | exact absurd same (by decide)

theorem Moment.word_injective {moment other : Moment} (same : moment.word = other.word) :
    moment = other := by
  cases moment <;> cases other <;> first | rfl | exact absurd same (by decide)

/-- The name says whose snapshot it is, of which file and when. -/
theorem snapshotName_inj {pid pid' : Nat} {file file' : ProcFile} {moment moment' : Moment} :
    snapshotName pid file moment = snapshotName pid' file' moment' ↔
      pid = pid' ∧ file = file' ∧ moment = moment' := by
  constructor
  · intro same
    have solid (moment : Moment) : '.' ∉ moment.word := by cases moment <;> decide
    have solid' (file : ProcFile) : '.' ∉ file.word := by cases file <;> decide
    have rest := List.append_cancel_left same
    obtain ⟨rest, moments⟩ := join_inj (solid moment) (solid moment') rest
    obtain ⟨pids, files⟩ := join_inj (solid' file) (solid' file') rest
    exact ⟨decimal_injective pids, ProcFile.word_injective files, Moment.word_injective moments⟩
  · rintro ⟨rfl, rfl, rfl⟩
    rfl

/-! ## What is read -/

/-- One call of `cp_proc_meminfo`, with what it finds. -/
structure Reading (α : Type) where
  pid : Option Nat
  moment : Moment
  proc : ProcDir α

namespace Reading

variable (r : Reading α)

/-- The copies of a process. -/
def writesFor (pid : Nat) : List (Text × Option α) :=
  [ProcFile.maps, .smaps, .status].map fun file => (snapshotName pid file r.moment, r.proc file)

def writes : List (Text × Option α) := r.pid.toList.flatMap r.writesFor

/-- What it has for a snapshot. -/
def contentOf (pid : Nat) (file : ProcFile) (moment : Moment) : Option α :=
  if r.pid = some pid ∧ r.moment = moment then r.proc file else none

theorem filterMap_writesFor (pid : Nat) (file : ProcFile) :
    (r.writesFor pid).filterMap (contentFor (snapshotName pid file r.moment)) =
      (r.proc file).toList := by
  have single (other : ProcFile) :
      contentFor (snapshotName pid file r.moment) (snapshotName pid other r.moment, r.proc other) =
        if other = file then r.proc other else none := by
    unfold contentFor
    simp only [snapshotName_inj, true_and, and_true]
  rw [writesFor, List.filterMap_map]
  simp only [Function.comp_def, single]
  cases file <;> cases found : r.proc _ <;> simp [found]

/-- A call copies each file once at most. -/
theorem filterMap_writes (pid : Nat) (file : ProcFile) (moment : Moment) :
    r.writes.filterMap (contentFor (snapshotName pid file moment)) =
      (r.contentOf pid file moment).toList := by
  unfold contentOf
  by_cases here : r.pid = some pid ∧ r.moment = moment
  · obtain ⟨same, rfl⟩ := here
    rw [if_pos ⟨same, rfl⟩, writes, same, Option.toList_some, List.flatMap_singleton,
      filterMap_writesFor]
  · rw [if_neg here, Option.toList_none, List.filterMap_eq_nil_iff]
    intro write member
    obtain ⟨owner, isOwner, member⟩ := List.mem_flatMap.mp member
    obtain ⟨other, -, rfl⟩ := List.mem_map.mp member
    refine if_neg fun same => here ?_
    obtain ⟨rfl, -, moments⟩ := snapshotName_inj.mp same
    exact ⟨Option.mem_toList.mp isOwner, moments⟩

/-- Whatever it copies is a snapshot. -/
theorem name_of_mem_writes {write : Text × Option α} (member : write ∈ r.writes) :
    ∃ pid file moment, write.1 = snapshotName pid file moment := by
  obtain ⟨pid, -, member⟩ := List.mem_flatMap.mp member
  obtain ⟨file, -, rfl⟩ := List.mem_map.mp member
  exact ⟨pid, file, r.moment, rfl⟩

end Reading

/-- The directory behind some calls. -/
def copied (dir : WorkingDir α) (readings : List (Reading α)) : WorkingDir α :=
  dir.map fun dir => replay dir (readings.flatMap Reading.writes)

theorem copied_nil (dir : WorkingDir α) : copied dir [] = dir := Option.map_id' ..

theorem copied_append (dir : WorkingDir α) (front back : List (Reading α)) :
    copied dir (front ++ back) = copied (copied dir front) back := by
  unfold copied
  rw [Option.map_map, List.flatMap_append]
  exact congrArg (Option.map · dir) (funext fun dir => replay_append dir _ _)

theorem copied_cons (dir : WorkingDir α) (reading : Reading α) (readings : List (Reading α)) :
    copied dir (reading :: readings) = copied (copied dir [reading]) readings :=
  copied_append dir [reading] readings

theorem cpProcMeminfo_eq (pid : Option Nat) (moment : Moment) (proc : ProcDir α)
    (dir : WorkingDir α) :
    cpProcMeminfo pid moment proc dir = copied dir [⟨pid, moment, proc⟩] := by
  cases pid with
  | none => exact (copied_nil dir).symm
  | some pid => rfl

/-! ## Readings of a run -/

namespace Round

variable (round : Round α)

def lastReading : Reading α := ⟨round.pid, .last, round.proc⟩

def finalReading : Reading α := ⟨round.pid, .final, round.endProc⟩

end Round

/-- A round that does not end the wait for a threshold. -/
def Round.below (threshold : Option Int) (round : Round α) : Bool :=
  !reaches threshold round.toSample

/-- The rounds up to the first one that ends the wait for a threshold. -/
def upTo (threshold : Option Int) (rounds : List (Round α)) : List (Round α) :=
  rounds.takeWhile (Round.below threshold) ++ (rounds.find? fun r => !r.below threshold).toList

/-- The rounds that take place. -/
def roundsRun (startRss endRss : Option Int) (rounds : List (Round α)) : List (Round α) :=
  match rounds.dropWhile (Round.below startRss) with
  | [] => rounds
  | first :: rest =>
      rounds.takeWhile (Round.below startRss) ++
        first :: if first.reaction.report.isNone then [] else upTo endRss rest

/-- The round that ends the monitoring. -/
def finalRound (startRss endRss : Option Int) (rounds : List (Round α)) : Option (Round α) :=
  match rounds.dropWhile (Round.below startRss) with
  | [] => none
  | first :: rest =>
      if first.reaction.report.isNone then none else rest.find? fun r => !r.below endRss

/-- What `mon_start` reads. -/
def monReadings (startRss endRss : Option Int) (around : Surroundings α) : List (Reading α) :=
  ⟨around.startPid, .start, around.startProc⟩ ::
    ((roundsRun startRss endRss around.rounds).map Round.lastReading ++
      (finalRound startRss endRss around.rounds).toList.map Round.finalReading)

section Run

variable {startRss endRss : Option Int}

theorem copyingRound_waiting {round : Round α} {d : Device α} (dir : WorkingDir α)
    (low : round.below startRss) :
    copyingRound startRss endRss (⟨false, d⟩, dir) round =
      .ok (⟨false, d⟩, copied dir [round.lastReading]) := by
  have low : ¬ numGt round.rss startRss := by simpa [Round.below, reaches] using low
  unfold copyingRound
  dsimp only
  rw [if_pos rfl, if_neg low, cpProcMeminfo_eq]
  rfl

theorem copyingRound_tracing {round : Round α} {d : Device α} (dir : WorkingDir α)
    (low : round.below endRss) :
    copyingRound startRss endRss (⟨true, d⟩, dir) round =
      .ok (⟨true, d⟩, copied dir [round.lastReading]) := by
  have low : ¬ numGt round.rss endRss := by simpa [Round.below, reaches] using low
  unfold copyingRound
  dsimp only
  rw [if_neg Bool.true_eq_false.mp, if_neg low, cpProcMeminfo_eq]
  rfl

theorem copyingRound_final {round : Round α} {d : Device α} (dir : WorkingDir α)
    (high : round.below endRss = false) :
    copyingRound startRss endRss (⟨true, d⟩, dir) round =
      .error (0, d.kill 30 round.pid, copied dir [round.lastReading, round.finalReading]) := by
  have high : numGt round.rss endRss := by simpa [Round.below, reaches] using high
  unfold copyingRound
  dsimp only
  rw [if_neg Bool.true_eq_false.mp, if_pos high, cpProcMeminfo_eq, cpProcMeminfo_eq]
  exact congrArg (fun dir => Except.error (0, d.kill 30 round.pid, dir))
    (copied_cons dir round.lastReading [round.finalReading]).symm

/-- The round that ends the first wait leaves the script exited without a report and
waiting for the second one with it. -/
theorem copyingRound_start (endRss : Option Int) {round : Round α} {d : Device α}
    (dir : WorkingDir α) (high : round.below startRss = false) (clean : d.files .leaksOut = none) :
    ∃ d', copyingRound startRss endRss (⟨false, d⟩, dir) round =
      if round.reaction.report.isNone then .error (255, d', copied dir [round.lastReading])
      else .ok (⟨true, d'⟩, copied dir [round.lastReading]) := by
  have high : numGt round.rss startRss := by simpa [Round.below, reaches] using high
  have file : (reported round.reaction.report (startAndReportLeak round.reaction.pid d)).files
      .leaksOut = round.reaction.report := by
    rw [reported, Device.write_files_self, startAndReportLeak, Device.kill_files, Device.kill_files,
      clean, Option.or_none]
  unfold copyingRound testMonitoringWorkOrNot
  dsimp only
  rw [if_pos rfl, if_pos high, cpProcMeminfo_eq, file]
  by_cases silent : round.reaction.report.isNone
  · rw [if_pos silent]
    exact ⟨_, (if_pos silent).symm⟩
  · rw [if_neg silent]
    exact ⟨_, (if_neg silent).symm⟩

theorem upTo_of_below {round : Round α} {threshold : Option Int} (low : round.below threshold)
    (rounds : List (Round α)) :
    upTo threshold (round :: rounds) = round :: upTo threshold rounds := by
  rw [upTo, List.takeWhile_cons_of_pos low, List.find?_cons_of_neg (by simpa using low)]
  rfl

theorem upTo_of_not_below {round : Round α} {threshold : Option Int}
    (high : round.below threshold = false) (rounds : List (Round α)) :
    upTo threshold (round :: rounds) = [round] := by
  rw [upTo, List.takeWhile_cons_of_neg (by simpa using high),
    List.find?_cons_of_pos (by simpa using high)]
  rfl

/-- The rounds behind the start of the tracing. -/
theorem leftBy_tracing (rounds : List (Round α)) (d : Device α) (dir : WorkingDir α) :
    (leftByMonStart (rounds.foldlM (copyingRound startRss endRss) (⟨true, d⟩, dir))).workingDir =
      copied dir ((upTo endRss rounds).map Round.lastReading ++
        (rounds.find? fun r => !r.below endRss).toList.map Round.finalReading) := by
  induction rounds generalizing dir with
  | nil => exact (copied_nil dir).symm
  | cons round rounds ih =>
      rw [List.foldlM_cons]
      cases level : round.below endRss with
      | true =>
          rw [copyingRound_tracing dir level, upTo_of_below level,
            List.find?_cons_of_neg (by simp [level])]
          exact (ih (copied dir [round.lastReading])).trans (copied_cons dir _ _).symm
      | false =>
          rw [copyingRound_final dir level, upTo_of_not_below level,
            List.find?_cons_of_pos (by simp [level])]
          rfl

theorem roundsRun_of_below {round : Round α} (low : round.below startRss)
    (rounds : List (Round α)) :
    roundsRun startRss endRss (round :: rounds) = round :: roundsRun startRss endRss rounds := by
  unfold roundsRun
  rw [List.dropWhile_cons_of_pos low, List.takeWhile_cons_of_pos low]
  cases rounds.dropWhile (Round.below startRss) <;> rfl

theorem finalRound_of_below {round : Round α} (low : round.below startRss)
    (rounds : List (Round α)) :
    finalRound startRss endRss (round :: rounds) = finalRound startRss endRss rounds := by
  unfold finalRound
  rw [List.dropWhile_cons_of_pos low]

/-- All rounds, from the start of the script. -/
theorem leftBy_waiting (rounds : List (Round α)) {d : Device α} (clean : d.files .leaksOut = none)
    (dir : WorkingDir α) :
    (leftByMonStart (rounds.foldlM (copyingRound startRss endRss) (⟨false, d⟩, dir))).workingDir =
      copied dir ((roundsRun startRss endRss rounds).map Round.lastReading ++
        (finalRound startRss endRss rounds).toList.map Round.finalReading) := by
  induction rounds generalizing dir with
  | nil => exact (copied_nil dir).symm
  | cons round rounds ih =>
      rw [List.foldlM_cons]
      cases level : round.below startRss with
      | true =>
          rw [copyingRound_waiting dir level, roundsRun_of_below level, finalRound_of_below level]
          exact (ih (copied dir [round.lastReading])).trans (copied_cons dir _ _).symm
      | false =>
          obtain ⟨d', step⟩ := copyingRound_start endRss dir level clean
          have high : ¬ round.below startRss := by simp [level]
          unfold roundsRun finalRound
          rw [step, List.dropWhile_cons_of_neg high, List.takeWhile_cons_of_neg high]
          dsimp only
          by_cases silent : round.reaction.report.isNone
          · rw [if_pos silent, if_pos silent, if_pos silent]
            rfl
          · rw [if_neg silent, if_neg silent, if_neg silent, List.nil_append]
            exact (leftBy_tracing rounds d' (copied dir [round.lastReading])).trans
              (copied_cons dir _ _).symm

/-- The snapshots of a run of the monitoring. -/
theorem workingDir_copyingMonStart (around : Surroundings α) (d : Device α) (dir : WorkingDir α) :
    (leftByMonStart (copyingMonStart startRss endRss around d dir)).workingDir =
      copied dir (monReadings startRss endRss around) := by
  have clean : (cleanPrevFiles d).files .leaksOut = none := rfl
  unfold copyingMonStart monReadings
  rw [cpProcMeminfo_eq]
  exact (leftBy_waiting around.rounds clean _).trans (copied_cons dir _ _).symm

/-! ## The loop without its copies -/

/-- A run, its snapshots left out. -/
def withoutCopies : Except (Nat × Device α × WorkingDir α) (Progress α × WorkingDir α) →
    Outcome α (Progress α)
  | .ok (p, _) => .ok p
  | .error (status, d, _) => .error (status, d)

theorem withoutCopies_copyingRound (p : Progress α × WorkingDir α) (round : Round α) :
    withoutCopies (copyingRound startRss endRss p round) =
      monRound startRss endRss p.1 round.toSample := by
  unfold copyingRound monRound
  dsimp only
  by_cases waiting : p.1.monitoringStarted = false
  · rw [if_pos waiting, if_pos waiting]
    by_cases high : numGt round.rss startRss
    · rw [if_pos high, if_pos high]
      unfold testMonitoringWorkOrNot
      by_cases silent : ((reported round.reaction.report (startAndReportLeak round.reaction.pid
          p.1.device)).files .leaksOut).isNone
      · rw [if_pos silent]
        rfl
      · rw [if_neg silent]
        rfl
    · rw [if_neg high, if_neg high]
      rfl
  · rw [if_neg waiting, if_neg waiting]
    by_cases high : numGt round.rss endRss
    · rw [if_pos high, if_pos high]
      rfl
    · rw [if_neg high, if_neg high]
      rfl

/-- What the monitoring does to the device does not depend on its snapshots. -/
theorem withoutCopies_copyingMonStart (around : Surroundings α) (d : Device α)
    (dir : WorkingDir α) :
    withoutCopies (copyingMonStart startRss endRss around d dir) =
      monStart startRss endRss (around.rounds.map Round.toSample) d := by
  have loop (rounds : List (Round α)) (p : Progress α × WorkingDir α) :
      withoutCopies (rounds.foldlM (copyingRound startRss endRss) p) =
        (rounds.map Round.toSample).foldlM (monRound startRss endRss) p.1 := by
    induction rounds generalizing p with
    | nil => rfl
    | cons round rounds ih =>
        rw [List.foldlM_cons, List.map_cons, List.foldlM_cons, ← withoutCopies_copyingRound p round]
        cases copyingRound startRss endRss p round with
        | error exit => rfl
        | ok next => exact ih next
  exact loop around.rounds _

end Run

/-! ## Histories -/

section History

variable (numberOf : Text → Option Int)

/-- Without its snapshots an invocation is one of the two commands, a run of the
monitoring, or nothing. -/
theorem files_runScript (s : State α) (invocation : Invocation α) :
    (runScript numberOf s invocation).files =
      match request invocation.argv with
      | .setup => runCommand s.files (.setup invocation.around.setup)
      | .restore => runCommand s.files .restore
      | .invalid => s.files
      | .monitor endRss startRss =>
          match monStart (numberOf startRss) (numberOf endRss)
              (invocation.around.rounds.map Round.toSample) ⟨s.files, []⟩ with
          | .ok p => p.device.files
          | .error (_, d) => d.files := by
  unfold runScript
  cases request invocation.argv with
  | setup => rfl
  | restore => rfl
  | invalid => rfl
  | monitor endRss startRss =>
      dsimp only
      rw [← withoutCopies_copyingMonStart invocation.around ⟨s.files, []⟩ s.workingDir]
      cases copyingMonStart (numberOf startRss) (numberOf endRss) invocation.around ⟨s.files, []⟩
          s.workingDir <;> rfl

namespace Invocation

/-- What an invocation reads. -/
def readings (invocation : Invocation α) : List (Reading α) :=
  match request invocation.argv with
  | .monitor endRss startRss =>
      monReadings (numberOf startRss) (numberOf endRss) invocation.around
  | _ => []

def isSetup (invocation : Invocation α) : Bool := request invocation.argv = .setup

end Invocation

/-- The directory that is there from the beginning, or the empty one of the first setup. -/
def found (s : State α) (history : List (Invocation α)) : WorkingDir α :=
  s.workingDir.or (if history.any Invocation.isSetup then some fun _ => none else none)

/-- The invocations that have it. -/
def sinceFound (s : State α) (history : List (Invocation α)) : List (Invocation α) :=
  if s.workingDir.isSome then history else history.dropWhile fun invocation => !invocation.isSetup

/-- What the calls have for a snapshot last. -/
def lastTaken (readings : List (Reading α)) (pid : Nat) (file : ProcFile) (moment : Moment) :
    Option α :=
  (readings.filterMap fun r => r.contentOf pid file moment).getLast?

theorem workingDir_of_isSetup {invocation : Invocation α} (setup : invocation.isSetup)
    (s : State α) :
    (runScript numberOf s invocation).workingDir = some (s.workingDir.getD fun _ => none) ∧
      invocation.readings numberOf = [] := by
  have asked : request invocation.argv = .setup := of_decide_eq_true setup
  unfold runScript Invocation.readings
  rw [asked]
  exact ⟨rfl, rfl⟩

/-- Whatever is not a setup works on the directory as it is. -/
theorem workingDir_of_not_isSetup {invocation : Invocation α}
    (other : invocation.isSetup = false) (s : State α) :
    (runScript numberOf s invocation).workingDir =
      copied s.workingDir (invocation.readings numberOf) := by
  have asked : request invocation.argv ≠ .setup := of_decide_eq_false other
  unfold runScript Invocation.readings
  cases argument : request invocation.argv with
  | setup => exact absurd argument asked
  | restore => exact (copied_nil s.workingDir).symm
  | invalid => exact (copied_nil s.workingDir).symm
  | monitor endRss startRss => exact workingDir_copyingMonStart invocation.around _ s.workingDir

variable {numberOf}

/-- With the directory at hand. -/
theorem workingDir_of_some (history : List (Invocation α)) {s : State α} {dir : Text → Option α}
    (there : s.workingDir = some dir) :
    (history.foldl (runScript numberOf) s).workingDir =
      copied (some dir) (history.flatMap (Invocation.readings numberOf)) := by
  induction history generalizing s dir with
  | nil => exact there.trans (copied_nil _).symm
  | cons invocation history ih =>
      rw [List.foldl_cons, List.flatMap_cons, copied_append]
      cases setup : invocation.isSetup with
      | true =>
          obtain ⟨kept, none⟩ := workingDir_of_isSetup numberOf setup s
          rw [there] at kept
          rw [none, copied_nil]
          exact ih kept
      | false =>
          have next := workingDir_of_not_isSetup numberOf setup s
          rw [there] at next
          exact ih next

/-- Without it, the first setup makes it. -/
theorem workingDir_of_none (history : List (Invocation α)) {s : State α}
    (missing : s.workingDir = none) :
    (history.foldl (runScript numberOf) s).workingDir =
      copied (if history.any Invocation.isSetup then some fun _ => none else none)
        ((history.dropWhile fun invocation => !invocation.isSetup).flatMap
          (Invocation.readings numberOf)) := by
  induction history generalizing s with
  | nil => exact missing
  | cons invocation history ih =>
      rw [List.foldl_cons, List.any_cons]
      cases setup : invocation.isSetup with
      | true =>
          obtain ⟨made, none⟩ := workingDir_of_isSetup numberOf setup s
          rw [missing, Option.getD_none] at made
          rw [Bool.true_or, if_pos rfl, List.dropWhile_cons_of_neg (by simp [setup]),
            List.flatMap_cons, none, List.nil_append]
          exact workingDir_of_some history made
      | false =>
          have next := workingDir_of_not_isSetup numberOf setup s
          rw [missing] at next
          rw [Bool.false_or, List.dropWhile_cons_of_pos (by simp [setup])]
          exact ih next

theorem workingDir_runScript (history : List (Invocation α)) (s : State α) :
    (history.foldl (runScript numberOf) s).workingDir =
      copied (found s history)
        ((sinceFound s history).flatMap (Invocation.readings numberOf)) := by
  unfold found sinceFound
  cases there : s.workingDir with
  | none => exact workingDir_of_none history there
  | some dir => exact workingDir_of_some history there

variable (numberOf)

/-- Behind any history, a snapshot of a process is what was read last of that process, at
that moment of a run, since there is a directory; and the directory has no other files
than it had. -/
theorem snapshots_runScript (history : List (Invocation α)) (s : State α) :
    let after := (history.foldl (runScript numberOf) s).workingDir
    let readings := (sinceFound s history).flatMap (Invocation.readings numberOf)
    (∀ pid file moment, after.map (· (snapshotName pid file moment)) =
      (found s history).map fun dir =>
        (lastTaken readings pid file moment).or (dir (snapshotName pid file moment))) ∧
    ∀ name, (∀ pid file moment, name ≠ snapshotName pid file moment) →
      after.map (· name) = (found s history).map (· name) := by
  intro after readings
  have behind : after = copied (found s history) readings := workingDir_runScript history s
  have content (name : Text) : after.map (· name) = (found s history).map fun dir =>
      (lastWrite (readings.flatMap Reading.writes) name).or (dir name) := by
    rw [behind, copied, Option.map_map]
    exact congrArg (Option.map · _) (funext fun dir => replay_apply dir _ name)
  constructor
  · intro pid file moment
    have last : lastWrite (readings.flatMap Reading.writes) (snapshotName pid file moment) =
        lastTaken readings pid file moment :=
      lastWrite_flatMap fun r _ => r.filterMap_writes pid file moment
    rw [content, last]
  · intro name other
    have untouched : lastWrite (readings.flatMap Reading.writes) name = none := by
      refine lastWrite_eq_none fun write member same => ?_
      obtain ⟨r, -, member⟩ := List.mem_flatMap.mp member
      obtain ⟨pid, file, moment, isSnapshot⟩ := r.name_of_mem_writes member
      exact other pid file moment (same.symm.trans isSnapshot)
    rw [content, untouched]
    rfl

end History

end Mon

end StudyLinux
