import StudyLinux.Mon.Device
import StudyLinux.System.Run

/-!
# The monitoring loop

`mon_start` reads the pid and the memory of hudhmi every ten seconds. The first
sample above the start threshold starts the tracing, the first one after that
above the end threshold asks for the final report and ends the run. Nothing in
between looks whether the process is still the same one: `monStart_caused_iff`
says when every report is asked of a process that was told to trace.
-/

namespace StudyLinux

namespace Mon

variable {α : Type}

/-! ## The loop -/

/-- What one round reads: the pid and the memory at its start, and the reaction of
the process if the round sends the start signals. Memory that is not one number is
`none`. -/
structure Sample (α : Type) where
  pid : Option Nat
  rss : Option Int
  reaction : Reaction α

/-- `[ $a -gt $b ]`. What is not a number makes it fail. -/
def numGt : Option Int → Option Int → Bool
  | some a, some b => b < a
  | _, _ => false

/-- MONITORING_STARTED and the device. -/
structure Progress (α : Type) where
  monitoringStarted : Bool
  device : Device α

/-- One round of the loop of `mon_start`. -/
def monRound (startRss endRss : Option Int) (p : Progress α) (sample : Sample α) :
    Outcome α (Progress α) :=
  if p.monitoringStarted = false then
    if numGt sample.rss startRss then do
      let d := startAndReportLeak sample.reaction.pid p.device
      let d := reported sample.reaction.report d
      testMonitoringWorkOrNot d
      return ⟨true, cleanPrevFiles d⟩
    else .ok p
  else if numGt sample.rss endRss then .error (0, p.device.kill 30 sample.pid)
  else .ok p

/-- `mon_start`, for the rounds that the samples are read in. -/
def monStart (startRss endRss : Option Int) (samples : List (Sample α)) (d : Device α) :
    Outcome α (Progress α) :=
  samples.foldlM (monRound startRss endRss) ⟨false, cleanPrevFiles d⟩

/-- What a run did to the process, whether it goes on or has exited. -/
def logOf : Outcome α (Progress α) → List Event
  | .ok p => p.device.log
  | .error (_, d) => d.log

/-! ## The two waits -/

variable {startRss endRss : Option Int}

/-- A sample that ends the wait for a threshold. -/
def reaches (threshold : Option Int) (sample : Sample α) : Bool := numGt sample.rss threshold

/-- The first sample above the threshold, and the ones after it. -/
def fromFirst (threshold : Option Int) (samples : List (Sample α)) : List (Sample α) :=
  samples.dropWhile fun sample => !reaches threshold sample

/-- A round without a sample above the threshold it waits for. -/
theorem monRound_waiting {sample : Sample α} {d : Device α}
    (below : ¬ reaches startRss sample) :
    monRound startRss endRss ⟨false, d⟩ sample = .ok ⟨false, d⟩ := by
  unfold monRound
  rw [if_pos rfl, if_neg (show ¬ numGt sample.rss startRss from below)]

theorem monRound_tracing {sample : Sample α} {d : Device α} (below : ¬ reaches endRss sample) :
    monRound startRss endRss ⟨true, d⟩ sample = .ok ⟨true, d⟩ := by
  unfold monRound
  rw [if_neg Bool.true_eq_false.mp, if_neg (show ¬ numGt sample.rss endRss from below)]

/-- The round that ends the run. -/
theorem monRound_end {sample : Sample α} {d : Device α} (above : reaches endRss sample) :
    monRound startRss endRss ⟨true, d⟩ sample = .error (0, d.kill 30 sample.pid) := by
  unfold monRound
  rw [if_neg Bool.true_eq_false.mp, if_pos (show numGt sample.rss endRss from above)]

/-- Nothing happens in front of the first sample above the start threshold. -/
theorem foldlM_waiting (samples : List (Sample α)) (d : Device α) :
    samples.foldlM (monRound startRss endRss) ⟨false, d⟩ =
      (fromFirst startRss samples).foldlM (monRound startRss endRss) ⟨false, d⟩ := by
  induction samples with
  | nil => rfl
  | cons sample samples ih =>
      by_cases above : reaches startRss sample
      · rw [fromFirst, List.dropWhile_cons_of_neg (by simpa using above)]
      · rw [fromFirst, List.dropWhile_cons_of_pos (by simpa using above), List.foldlM_cons,
          monRound_waiting above]
        exact ih

/-- Nor between the start and the first later sample above the end threshold, which
ends the run. -/
theorem foldlM_started (samples : List (Sample α)) (d : Device α) :
    samples.foldlM (monRound startRss endRss) ⟨true, d⟩ =
      match fromFirst endRss samples with
      | [] => .ok ⟨true, d⟩
      | last :: _ => .error (0, d.kill 30 last.pid) := by
  induction samples with
  | nil => rfl
  | cons sample samples ih =>
      by_cases above : reaches endRss sample
      · rw [fromFirst, List.dropWhile_cons_of_neg (by simpa using above), List.foldlM_cons,
          monRound_end above]
        rfl
      · rw [fromFirst, List.dropWhile_cons_of_pos (by simpa using above), List.foldlM_cons,
          monRound_tracing above]
        exact ih

/-- The round of the first sample above the start threshold exits when there is no
report. -/
theorem monRound_start {sample : Sample α} {d : Device α} (above : reaches startRss sample)
    (clean : d.files .leaksOut = none) :
    monRound startRss endRss ⟨false, d⟩ sample =
      let told := reported sample.reaction.report (startAndReportLeak sample.reaction.pid d)
      if sample.reaction.report.isNone then .error (255, told)
      else .ok ⟨true, cleanPrevFiles told⟩ := by
  have file : (reported sample.reaction.report (startAndReportLeak sample.reaction.pid d)).files
      .leaksOut = sample.reaction.report := by
    rw [reported, Device.write_files_self, startAndReportLeak, Device.kill_files, Device.kill_files,
      clean, Option.or_none]
  unfold monRound testMonitoringWorkOrNot
  rw [if_pos rfl, if_pos (show numGt sample.rss startRss from above)]
  dsimp only
  rw [file]
  by_cases silent : sample.reaction.report.isNone
  · rw [if_pos silent, if_pos silent]
    rfl
  · rw [if_neg silent, if_neg silent]
    rfl

theorem reaches_of_fromFirst {threshold : Option Int} {samples rest : List (Sample α)}
    {first : Sample α} (found : fromFirst threshold samples = first :: rest) :
    reaches threshold first := by
  have head := List.head?_dropWhile_not (fun sample => !reaches threshold sample) samples
  rw [show samples.dropWhile (fun sample => !reaches threshold sample) = first :: rest from found]
    at head
  simpa using head

/-! ## The log -/

/-- The signals that start the tracing. -/
def startEvents (pid : Option Nat) : List Event :=
  pid.toList.map (.kill 12) ++ pid.toList.map (.kill 30)

/-- The signals that a run has sent when it has read the samples. -/
def signals (startRss endRss : Option Int) (samples : List (Sample α)) : List Event :=
  match fromFirst startRss samples with
  | [] => []
  | first :: rest =>
      startEvents first.reaction.pid ++
        if first.reaction.report.isNone then []
        else
          match fromFirst endRss rest with
          | [] => []
          | last :: _ => last.pid.toList.map (.kill 30)

theorem logOf_monStart (samples : List (Sample α)) (d : Device α) :
    logOf (monStart startRss endRss samples d) = d.log ++ signals startRss endRss samples := by
  have clean : (cleanPrevFiles d).files .leaksOut = none := rfl
  rw [monStart, foldlM_waiting, signals]
  cases found : fromFirst startRss samples with
  | nil => exact (List.append_nil _).symm
  | cons first rest =>
      rw [List.foldlM_cons, monRound_start (reaches_of_fromFirst found) clean]
      dsimp only
      by_cases silent : first.reaction.report.isNone
      · rw [if_pos silent, if_pos silent, List.append_nil, startEvents, ← List.append_assoc]
        rfl
      · rw [if_neg silent, if_neg silent]
        refine (congrArg logOf (foldlM_started rest _)).trans ?_
        cases fromFirst endRss rest with
        | nil =>
            rw [List.append_nil, startEvents, ← List.append_assoc]
            rfl
        | cons last later =>
            rw [startEvents, ← List.append_assoc, ← List.append_assoc]
            rfl

/-! ## Reports and their process -/

/-- Signal 30 asks a process for a report, which wants signal 12 before. -/
def startSignal : Event → Option Event
  | .kill 30 pid => some (.kill 12 pid)
  | _ => none

/-- The start signals are in order. -/
theorem caused_startEvents (pid : Option Nat) : Caused startSignal (startEvents pid) := by
  cases pid with
  | none => exact caused_nil
  | some pid =>
      have told : Caused startSignal ([] ++ [.kill 12 pid]) :=
        caused_concat.mpr ⟨caused_nil, fun cause found => by cases found⟩
      have asked : Caused startSignal ([.kill 12 pid] ++ [.kill 30 pid]) := by
        refine caused_concat.mpr ⟨told, fun cause found => ?_⟩
        cases found
        exact List.mem_cons_self
      exact asked

/-- The process that is asked for the final report is the one that the start signals
went to. -/
def SameProcess (startRss endRss : Option Int) (samples : List (Sample α)) : Prop :=
  ∀ first rest last later, fromFirst startRss samples = first :: rest →
    first.reaction.report ≠ none → fromFirst endRss rest = last :: later →
      ∀ pid, last.pid = some pid → first.reaction.pid = some pid

theorem mem_startEvents {pid : Nat} {told : Option Nat} :
    Event.kill 12 pid ∈ startEvents told ↔ told = some pid := by
  cases told with
  | none => simp [startEvents]
  | some other =>
      rw [Option.some.injEq]
      simp [startEvents, eq_comm]

/-- A final report is in order when the start signals went to its process. -/
theorem caused_final_iff {told asked : Option Nat} :
    Caused startSignal (startEvents told ++ asked.toList.map (.kill 30)) ↔
      ∀ pid, asked = some pid → told = some pid := by
  cases asked with
  | none =>
      rw [Option.toList_none, List.map_nil, List.append_nil]
      exact iff_of_true (caused_startEvents told) (fun _ same => by cases same)
  | some pid =>
      rw [Option.toList_some, List.map_singleton, caused_concat,
          and_iff_right (caused_startEvents told)]
      constructor
      · intro sent other same
        cases same
        exact mem_startEvents.mp (sent _ rfl)
      · intro same cause found
        cases found
        exact mem_startEvents.mpr (same pid rfl)

/-- A report follows the start signals to its process, in every run that keeps its
process from the start to the end and in no other. -/
theorem monStart_caused_iff (startRss endRss : Option Int) (samples : List (Sample α))
    (files : Path → Option α) :
    Caused startSignal (logOf (monStart startRss endRss samples ⟨files, []⟩)) ↔
      SameProcess startRss endRss samples := by
  rw [logOf_monStart, List.nil_append, signals]
  cases found : fromFirst startRss samples with
  | nil =>
      refine iff_of_true caused_nil fun first rest last later start => ?_
      rw [found] at start
      cases start
  | cons first rest =>
      dsimp only
      by_cases silent : first.reaction.report.isNone
      · rw [if_pos silent, List.append_nil]
        refine iff_of_true (caused_startEvents _) fun first' rest' last later start report => ?_
        rw [found] at start
        cases start
        exact absurd (Option.isNone_iff_eq_none.mp silent) report
      · rw [if_neg silent]
        cases ended : fromFirst endRss rest with
        | nil =>
            rw [List.append_nil]
            refine iff_of_true (caused_startEvents _) fun first' rest' last later start _ stop => ?_
            rw [found] at start
            cases start
            rw [ended] at stop
            cases stop
        | cons last later =>
            refine caused_final_iff.trans ⟨fun same first' rest' last' later' start _ stop => ?_,
              fun same => same first rest last later found (by simpa using silent) ended⟩
            rw [found] at start
            cases start
            rw [ended] at stop
            cases stop
            exact same

/-! ## A restart under the monitor -/

/-- The process 7 is told to trace, the process 8 has taken its place. -/
def restarted : List (Sample Text) :=
  [⟨some 7, some 2000, ⟨some 7, some "leaks".toList⟩⟩,
    ⟨some 8, some 9000, ⟨some 8, none⟩⟩]

/-- The final report is asked of a process that was never told to trace. -/
theorem monStart_caused_fail :
    ¬ ∀ (startRss endRss : Option Int) (samples : List (Sample Text)) (files : Path → Option Text),
      Caused startSignal (logOf (monStart startRss endRss samples ⟨files, []⟩)) := by
  intro all
  have order := all (some 1000) (some 8000) restarted fun _ => none
  have log : logOf (monStart (some 1000) (some 8000) restarted ⟨fun _ => none, []⟩) =
      [.kill 12 7, .kill 30 7] ++ .kill 30 8 :: [] := by decide
  exact absurd (order _ _ _ log _ rfl) (by decide)

end Mon

end StudyLinux
