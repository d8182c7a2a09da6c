import Mathlib.Order.Bounds.Basic
import StudyLinux.Mon.Start

/-!
# The two phases of the monitoring loop

`mon_start` waits for the first sample above the start threshold, and from the next
sample on for one above the end threshold. The sample that ends the first wait is never
looked at for the second one. `monStart_phases` says what each sample of an unbounded
run makes the script do, when hudhmi writes its report in time.
-/

namespace StudyLinux

namespace Mon

variable {α : Type}

/-- The run when it has read the first `n` samples. -/
def monAfter (startRss endRss : Option Int) (samples : Nat → Sample α) (d : Device α) (n : Nat) :
    Outcome α (Progress α) :=
  monStart startRss endRss ((List.range n).map samples) d

/-- Sample `i` is the first one above the start threshold. -/
def StartsAt (startRss : Option Int) (samples : Nat → Sample α) (i : Nat) : Prop :=
  IsLeast {k | reaches startRss (samples k)} i

/-- Sample `j` is the first one behind that above the end threshold. -/
def EndsAt (startRss endRss : Option Int) (samples : Nat → Sample α) (j : Nat) : Prop :=
  ∃ i, StartsAt startRss samples i ∧ IsLeast {k | i < k ∧ reaches endRss (samples k)} j

/-- The status that a run has exited with. -/
def exitStatus : Outcome α (Progress α) → Option Nat
  | .ok _ => none
  | .error (status, _) => some status

section Phases

variable {startRss endRss : Option Int} {samples : Nat → Sample α} {d : Device α}

/-- One more sample is one more round. -/
theorem monAfter_succ (n : Nat) :
    monAfter startRss endRss samples d (n + 1) =
      monAfter startRss endRss samples d n >>= fun p => monRound startRss endRss p (samples n) := by
  unfold monAfter monStart
  rw [List.range_succ, List.map_append, List.foldlM_append, List.map_singleton]
  simp only [List.foldlM_cons, List.foldlM_nil, bind_pure]

theorem monAfter_succ_of_ok {n : Nat} {p : Progress α}
    (running : monAfter startRss endRss samples d n = .ok p) :
    monAfter startRss endRss samples d (n + 1) = monRound startRss endRss p (samples n) := by
  rw [monAfter_succ, running]
  rfl

theorem monAfter_succ_of_error {n : Nat} {exit : Nat × Device α}
    (exited : monAfter startRss endRss samples d n = .error exit) :
    monAfter startRss endRss samples d (n + 1) = .error exit := by
  rw [monAfter_succ, exited]
  rfl

/-- The device when the tracing has been started with a sample. -/
def traced (d : Device α) (sample : Sample α) : Device α :=
  cleanPrevFiles (reported sample.reaction.report
    (startAndReportLeak sample.reaction.pid (cleanPrevFiles d)))

theorem traced_log (d : Device α) (sample : Sample α) :
    (traced d sample).log = d.log ++ startEvents sample.reaction.pid := by
  rw [startEvents, ← List.append_assoc]
  rfl

/-- The first wait. -/
theorem monAfter_waiting {n : Nat} (none : ∀ k < n, ¬ reaches startRss (samples k)) :
    monAfter startRss endRss samples d n = .ok ⟨false, cleanPrevFiles d⟩ := by
  induction n with
  | zero => rfl
  | succ n ih =>
      rw [monAfter_succ_of_ok (ih fun k before => none k (before.trans n.lt_succ_self))]
      exact monRound_waiting (none n n.lt_succ_self)

/-- The sample that ends it. -/
theorem monAfter_start {i : Nat} (starts : StartsAt startRss samples i)
    (appears : (samples i).reaction.report ≠ none) :
    monAfter startRss endRss samples d (i + 1) = .ok ⟨true, traced d (samples i)⟩ := by
  obtain ⟨above, least⟩ := starts
  rw [monAfter_succ_of_ok (monAfter_waiting fun k before exceeds => before.not_ge (least exceeds)),
    monRound_start above rfl]
  dsimp only
  rw [if_neg fun silent => appears (Option.isNone_iff_eq_none.mp silent)]
  rfl

/-- The second wait. -/
theorem monAfter_started {i : Nat} (starts : StartsAt startRss samples i)
    (appears : (samples i).reaction.report ≠ none) {n : Nat}
    (none : ∀ k, i < k → k < n → ¬ reaches endRss (samples k)) (behind : i < n) :
    monAfter startRss endRss samples d n = .ok ⟨true, traced d (samples i)⟩ := by
  induction n with
  | zero => exact absurd behind i.not_lt_zero
  | succ n ih =>
      rcases (Nat.lt_succ_iff.mp behind).eq_or_lt with rfl | later
      · exact monAfter_start starts appears
      · have sooner : ∀ k, i < k → k < n → ¬ reaches endRss (samples k) := fun k after before =>
          none k after (before.trans n.lt_succ_self)
        rw [monAfter_succ_of_ok (ih sooner later)]
        exact monRound_tracing (none n later n.lt_succ_self)

/-- The sample that ends it, and the samples behind, which nobody reads. -/
theorem monAfter_ended {i j : Nat} (starts : StartsAt startRss samples i)
    (appears : (samples i).reaction.report ≠ none)
    (ends : IsLeast {k | i < k ∧ reaches endRss (samples k)} j) {n : Nat} (behind : j < n) :
    monAfter startRss endRss samples d n =
      .error (0, (traced d (samples i)).kill 30 (samples j).pid) := by
  obtain ⟨⟨later, above⟩, least⟩ := ends
  induction n with
  | zero => exact absurd behind j.not_lt_zero
  | succ n ih =>
      rcases (Nat.lt_succ_iff.mp behind).eq_or_lt with rfl | further
      · rw [monAfter_succ_of_ok (monAfter_started starts appears
          (fun k after before exceeds => before.not_ge (least ⟨after, exceeds⟩)) later)]
        exact monRound_end above
      · exact monAfter_succ_of_error (ih further)

/-- The least of some numbers. -/
theorem exists_isLeast {numbers : Set Nat} {k : Nat} (mem : k ∈ numbers) :
    ∃ least, IsLeast numbers least := by
  classical
  exact ⟨Nat.find ⟨k, mem⟩, Nat.find_spec ⟨k, mem⟩, fun _ other => Nat.find_min' _ other⟩

/-- The part of its course that a run is in. -/
theorem phase_cases (startRss endRss : Option Int) (samples : Nat → Sample α) (n : Nat) :
    (∀ k < n, ¬ reaches startRss (samples k)) ∨
    (∃ i < n, StartsAt startRss samples i ∧
      ∀ k, i < k → k < n → ¬ reaches endRss (samples k)) ∨
    ∃ j < n, EndsAt startRss endRss samples j := by
  by_cases started : ∃ i < n, StartsAt startRss samples i
  · obtain ⟨i, behind, starts⟩ := started
    by_cases ended : ∃ j < n, EndsAt startRss endRss samples j
    · exact .inr (.inr ended)
    · refine .inr (.inl ⟨i, behind, starts, fun k after before exceeds => ended ?_⟩)
      have late : k ∈ {k | i < k ∧ reaches endRss (samples k)} := ⟨after, exceeds⟩
      obtain ⟨j, ends⟩ := exists_isLeast late
      exact ⟨j, (ends.2 late).trans_lt before, i, starts, ends⟩
  · refine .inl fun k before exceeds => started ?_
    have early : k ∈ {k | reaches startRss (samples k)} := exceeds
    obtain ⟨i, starts⟩ := exists_isLeast early
    exact ⟨i, (starts.2 early).trans_lt before, starts⟩

/-- A run has exited when it has read the sample that ends the second wait. -/
theorem exitStatus_monAfter_iff
    (appears : ∀ i, StartsAt startRss samples i → (samples i).reaction.report ≠ none)
    (n status : Nat) :
    exitStatus (monAfter startRss endRss samples d n) = some status ↔
      status = 0 ∧ ∃ j < n, EndsAt startRss endRss samples j := by
  have unended {p : Progress α} (running : monAfter startRss endRss samples d n = .ok p) :
      ¬ ∃ j < n, EndsAt startRss endRss samples j := by
    intro ended
    rcases ended with ⟨j, behind, i, starts, ends⟩
    rw [monAfter_ended starts (appears i starts) ends behind] at running
    cases running
  have unexited {p : Progress α} (running : monAfter startRss endRss samples d n = .ok p) :
      exitStatus (monAfter startRss endRss samples d n) ≠ some status := by
    rw [running]
    exact fun exited => by cases exited
  rcases phase_cases startRss endRss samples n with none | ⟨i, behind, starts, none⟩ | ended
  · have running : monAfter startRss endRss samples d n = _ := monAfter_waiting none
    exact iff_of_false (unexited running) fun both => unended running both.2
  · have running := monAfter_started (d := d) starts (appears i starts) none behind
    exact iff_of_false (unexited running) fun both => unended running both.2
  · obtain ⟨j, behind, i, starts, ends⟩ := ended
    rw [monAfter_ended starts (appears i starts) ends behind, exitStatus, Option.some.injEq,
      eq_comm]
    exact (and_iff_left ⟨j, behind, i, starts, ends⟩).symm

/-- A sample that ends no wait is read without a trace. -/
theorem monAfter_quiet
    (appears : ∀ i, StartsAt startRss samples i → (samples i).reaction.report ≠ none) {k : Nat}
    (noStart : ¬ StartsAt startRss samples k) (noEnd : ¬ EndsAt startRss endRss samples k) :
    monAfter startRss endRss samples d (k + 1) = monAfter startRss endRss samples d k := by
  rcases phase_cases startRss endRss samples (k + 1) with
    none | ⟨i, behind, starts, none⟩ | ⟨j, behind, i, starts, ends⟩
  · rw [monAfter_waiting none,
      monAfter_waiting fun m before => none m (before.trans k.lt_succ_self)]
  · have further : i < k :=
      (Nat.lt_succ_iff.mp behind).lt_of_ne fun same => noStart (same ▸ starts)
    rw [monAfter_started starts (appears i starts) none behind,
      monAfter_started starts (appears i starts)
        (fun m after before => none m after (before.trans k.lt_succ_self)) further]
  · have further : j < k :=
      (Nat.lt_succ_iff.mp behind).lt_of_ne fun same => noEnd (same ▸ ⟨i, starts, ends⟩)
    rw [monAfter_ended starts (appears i starts) ends behind,
      monAfter_ended starts (appears i starts) ends further]

/-- With a report in time, the sample that ends the first wait sends the start signals
and leaves no report behind, the one that ends the second wait asks for the final
report and exits with 0, and no other sample does anything. -/
theorem monStart_phases (startRss endRss : Option Int) (samples : Nat → Sample α) (d : Device α)
    (appears : ∀ i, StartsAt startRss samples i → (samples i).reaction.report ≠ none) :
    (∀ i, StartsAt startRss samples i →
      logOf (monAfter startRss endRss samples d (i + 1)) =
        logOf (monAfter startRss endRss samples d i) ++ startEvents (samples i).reaction.pid ∧
      ∃ p, monAfter startRss endRss samples d (i + 1) = .ok p ∧
        p.monitoringStarted = true ∧ p.device.files .leaksOut = none) ∧
    (∀ j, EndsAt startRss endRss samples j →
      logOf (monAfter startRss endRss samples d (j + 1)) =
        logOf (monAfter startRss endRss samples d j) ++ (samples j).pid.toList.map (.kill 30)) ∧
    (∀ k, ¬ StartsAt startRss samples k → ¬ EndsAt startRss endRss samples k →
      logOf (monAfter startRss endRss samples d (k + 1)) =
        logOf (monAfter startRss endRss samples d k)) ∧
    ∀ n status, exitStatus (monAfter startRss endRss samples d n) = some status ↔
      status = 0 ∧ ∃ j < n, EndsAt startRss endRss samples j := by
  refine ⟨fun i starts => ?atStart, fun j ends => ?atEnd, fun k noStart noEnd => ?quiet,
    exitStatus_monAfter_iff appears⟩
  case atStart =>
    have before : monAfter startRss endRss samples d i = _ :=
      monAfter_waiting fun k before exceeds => before.not_ge (starts.2 exceeds)
    have after : monAfter startRss endRss samples d (i + 1) = _ :=
      monAfter_start starts (appears i starts)
    refine ⟨?_, _, after, rfl, rfl⟩
    rw [before, after]
    exact traced_log (cleanPrevFiles d) (samples i)
  case atEnd =>
    obtain ⟨i, starts, ends⟩ := ends
    have before := monAfter_started (d := d) starts (appears i starts)
      (fun k after before exceeds => before.not_ge (ends.2 ⟨after, exceeds⟩)) ends.1.1
    rw [monAfter_ended starts (appears i starts) ends j.lt_succ_self, before]
    rfl
  case quiet => rw [monAfter_quiet appears noStart noEnd]

end Phases

/-- Memory that grows by 1000 a sample, of a process that answers. -/
def growing (n : Nat) : Sample Text :=
  ⟨some 7, some (1000 * n), ⟨some 7, some "leaks".toList⟩⟩

/-- Sample 2 is above both thresholds, the run ends with sample 3. -/
theorem monStart_phases_growing :
    exitStatus (monAfter (some 1000) (some 500) growing ⟨fun _ => none, []⟩ 4) = some 0 ∧
    exitStatus (monAfter (some 1000) (some 500) growing ⟨fun _ => none, []⟩ 3) ≠ some 0 := by
  have exits := (monStart_phases (some 1000) (some 500) growing ⟨fun _ => none, []⟩
    fun _ _ silent => by cases silent).2.2.2
  have above (threshold : Int) (k : Nat) :
      reaches (some threshold) (growing k) ↔ threshold < 1000 * k := decide_eq_true_iff
  have starts : StartsAt (some 1000) growing 2 := by
    refine ⟨(above 1000 2).mpr (by decide), fun k exceeds => ?_⟩
    have := (above 1000 k).mp exceeds
    omega
  have ends : IsLeast {k | 2 < k ∧ reaches (some 500) (growing k)} 3 :=
    ⟨⟨by decide, (above 500 3).mpr (by decide)⟩, fun _ later => later.1⟩
  refine ⟨(exits 4 0).mpr ⟨rfl, 3, by decide, 2, starts, ends⟩, fun exited => ?_⟩
  obtain ⟨-, j, early, i, starts', ends'⟩ := (exits 3 0).mp exited
  obtain rfl := starts'.unique starts
  exact early.not_ge (ends'.unique ends).ge

end Mon

end StudyLinux
