import Mathlib.Order.Nat
import StudyLinux.System.Interleave

/-!
# Runs that go on

An endless interleaving of a program with its jobs, in which the program is not held up
for ever. What no step takes back holds from some time on (`InterleavedRun.keeps`), and a
program whose steps lower a measure of its points comes to an end
(`InterleavedRun.stops`).
-/

namespace StudyLinux

section Runs

variable {Pc σ : Type} {main : Pc × σ → Option (Pc × σ)} {job : σ → σ → Prop}
  {run : Nat → Pc × σ}

/-- At each time the program takes a step, a job does, or nothing happens. -/
structure InterleavedRun (main : Pc × σ → Option (Pc × σ)) (job : σ → σ → Prop)
    (run : Nat → Pc × σ) : Prop where
  next : ∀ n, run (n + 1) = run n ∨ Interleave main job (run n) (run (n + 1))
  goesOn : ∀ n, main (run n) ≠ none → ∃ m, n ≤ m ∧ main (run m) = some (run (m + 1))

theorem InterleavedRun.reaches (runs : InterleavedRun main job run) (n : Nat) :
    Reaches main job (run 0) (run n) := by
  induction n with
  | zero => exact .refl
  | succ n ih =>
      rcases runs.next n with idle | step
      · rw [idle]
        exact ih
      · exact ih.tail step

/-- What every step keeps holds ever after. -/
theorem InterleavedRun.keeps (runs : InterleavedRun main job run) (holds : Pc × σ → Prop)
    {n : Nat}
    (kept : ∀ m, n ≤ m → holds (run m) → Interleave main job (run m) (run (m + 1)) →
      holds (run (m + 1)))
    (here : holds (run n)) {m : Nat} (later : n ≤ m) : holds (run m) := by
  induction m, later using Nat.le_induction with
  | base => exact here
  | succ m later ih =>
      rcases runs.next m with idle | step
      · rw [idle]
        exact ih
      · exact kept m later ih step

theorem Interleave.measure_le {measure : Pc → Nat} {a b : Pc × σ} (step : Interleave main job a b)
    (lowers : ∀ c, main a = some c → measure c.1 < measure a.1) : measure b.1 ≤ measure a.1 := by
  cases step with
  | main step => exact Nat.le_of_lt (lowers _ step)
  | job step => exact Nat.le_refl _

/-- A measure that the jobs leave alone and every step of the program lowers. -/
theorem InterleavedRun.stops (runs : InterleavedRun main job run) (measure : Pc → Nat) {n : Nat}
    (lowers : ∀ m, n ≤ m → ∀ b, main (run m) = some b → measure b.1 < measure (run m).1) :
    ∃ m, n ≤ m ∧ main (run m) = none := by
  generalize size : measure (run n).1 = k
  induction k using Nat.strong_induction_on generalizing n with
  | h k ih =>
      cases here : main (run n) with
      | none => exact ⟨n, Nat.le_refl n, here⟩
      | some b =>
          obtain ⟨m, later, step⟩ := runs.goesOn n (here ▸ Option.some_ne_none b)
          have kept : measure (run m).1 ≤ measure (run n).1 := by
            have kept (i : Nat) (after : n ≤ i) (le : measure (run i).1 ≤ measure (run n).1)
                (step : Interleave main job (run i) (run (i + 1))) :
                measure (run (i + 1)).1 ≤ measure (run n).1 :=
              (step.measure_le (lowers i after)).trans le
            exact runs.keeps (fun c => measure c.1 ≤ measure (run n).1) kept (Nat.le_refl _) later
          have less : measure (run (m + 1)).1 < k :=
            size ▸ Nat.lt_of_lt_of_le (lowers m later _ step) kept
          obtain ⟨last, after, stopped⟩ :=
            ih _ less (fun i more => lowers i (later.trans ((Nat.le_succ m).trans more))) rfl
          exact ⟨last, later.trans ((Nat.le_succ m).trans after), stopped⟩

/-- A step is one of the program, or the program stays where it is. -/
theorem Interleave.main_or_stays {a b : Pc × σ} (step : Interleave main job a b) :
    main a = some b ∨ b.1 = a.1 := by
  cases step with
  | main step => exact Or.inl step
  | job step => exact Or.inr rfl

/-- The next step of the program is taken where it stands now. -/
theorem InterleavedRun.first_step (runs : InterleavedRun main job run) {n : Nat}
    (more : main (run n) ≠ none) :
    ∃ m, n ≤ m ∧ (run m).1 = (run n).1 ∧ main (run m) = some (run (m + 1)) := by
  obtain ⟨last, later, step⟩ := runs.goesOn n more
  obtain ⟨gap, rfl⟩ := Nat.exists_eq_add_of_le later
  clear more later
  induction gap generalizing n with
  | zero => exact ⟨n, Nat.le_refl n, rfl, step⟩
  | succ gap ih =>
      have here : main (run n) = some (run (n + 1)) ∨ (run (n + 1)).1 = (run n).1 := by
        rcases runs.next n with idle | taken
        · exact Or.inr (congrArg Prod.fst idle)
        · exact taken.main_or_stays
      rcases here with now | stays
      · exact ⟨n, Nat.le_refl n, rfl, now⟩
      · rw [Nat.add_comm gap, ← Nat.add_assoc] at step
        obtain ⟨m, after, point, taken⟩ := ih step
        exact ⟨m, (Nat.le_succ n).trans after, point.trans stays, taken⟩

/-- Points at which the program always has a step, each lower than the one before, are left
at some time. -/
theorem InterleavedRun.leaves (runs : InterleavedRun main job run) (measure : Pc → Nat)
    {inside : Pc → Prop}
    (lowers : ∀ a : Pc × σ, inside a.1 → ∃ b, main a = some b ∧ measure b.1 < measure a.1)
    (n : Nat) : ∃ m, n ≤ m ∧ ¬ inside (run m).1 := by
  generalize size : measure (run n).1 = k
  induction k using Nat.strong_induction_on generalizing n with
  | h k ih =>
      by_cases within : inside (run n).1
      · obtain ⟨b, here, -⟩ := lowers (run n) within
        obtain ⟨m, after, point, taken⟩ := runs.first_step (here ▸ Option.some_ne_none b)
        obtain ⟨c, step, less⟩ := lowers (run m) (point ▸ within)
        obtain rfl := Option.some.inj (taken.symm.trans step)
        rw [point, size] at less
        obtain ⟨last, later, outside⟩ := ih _ less (m + 1) rfl
        exact ⟨last, after.trans ((Nat.le_succ m).trans later), outside⟩
      · exact ⟨n, Nat.le_refl n, within⟩

/-- A run with one more configuration in front. -/
def consRun (a : Pc × σ) (run : Nat → Pc × σ) : Nat → Pc × σ
  | 0 => a
  | m + 1 => run m

section Extend

variable (own : ∀ {pc s s'}, job s s' → main (pc, s') = none → main (pc, s) = none)

include own

/-- A step in front of a run, when no job brings the program to its end. -/
theorem InterleavedRun.cons (runs : InterleavedRun main job run) {a : Pc × σ}
    (step : Interleave main job a (run 0)) : InterleavedRun main job (consRun a run) where
  next m := by
    cases m with
    | zero => exact Or.inr step
    | succ m => exact runs.next m
  goesOn m more := by
    cases m with
    | succ m =>
        obtain ⟨i, later, taken⟩ := runs.goesOn m more
        exact ⟨i + 1, Nat.succ_le_succ later, taken⟩
    | zero =>
        generalize first : run 0 = c at step
        cases step with
        | main step => exact ⟨0, Nat.le_refl 0, step.trans (congrArg some first.symm)⟩
        | job step =>
            have still : main (run 0) ≠ none := by
              rw [first]
              exact mt (own step) more
            obtain ⟨i, later, taken⟩ := runs.goesOn 0 still
            exact ⟨i + 1, Nat.zero_le _, taken⟩

end Extend

end Runs

end StudyLinux
