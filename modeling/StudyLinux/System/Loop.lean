import Mathlib.Logic.Relation
import Mathlib.Order.Nat

/-!
# Loops that may not end

A round of a loop leaves outputs and a new state behind, or is the last one. `runLoop`
runs the rounds that the fuel is enough for, `Ends` says that some fuel is enough, and
`Visits` has the states that rounds start from. A measure that every round lowers makes
a loop end (`ends_of_measure`), a set of states that no round leaves keeps it going
(`not_ends_of_trap`).
-/

namespace StudyLinux

section Loop

variable {σ ω : Type} {round : σ → Option (List ω × σ)} {s t : σ}

/-- The outputs of a loop, for the rounds that the fuel is enough for. -/
def runLoop (round : σ → Option (List ω × σ)) : Nat → σ → Option (List ω)
  | 0, _ => none
  | fuel + 1, s =>
      match round s with
      | none => some []
      | some (outputs, next) => (runLoop round fuel next).map (outputs ++ ·)

/-- The loop ends. -/
def Ends (round : σ → Option (List ω × σ)) (s : σ) : Prop :=
  ∃ fuel outputs, runLoop round fuel s = some outputs

/-- The loop ends with the outputs. -/
def EndsWith (round : σ → Option (List ω × σ)) (s : σ) (outputs : List ω) : Prop :=
  ∃ fuel, runLoop round fuel s = some outputs

/-- A round that starts with `s` leaves `t` behind. -/
def Round (round : σ → Option (List ω × σ)) (s t : σ) : Prop :=
  ∃ outputs, round s = some (outputs, t)

/-- The loop comes from `s` to `t`. -/
abbrev Visits (round : σ → Option (List ω × σ)) : σ → σ → Prop :=
  Relation.ReflTransGen (Round round)

theorem runLoop_last (last : round s = none) (fuel : Nat) :
    runLoop round (fuel + 1) s = some [] := by
  rw [runLoop, last]

theorem runLoop_next {outputs : List ω} (next : round s = some (outputs, t)) (fuel : Nat) :
    runLoop round (fuel + 1) s = (runLoop round fuel t).map (outputs ++ ·) := by
  rw [runLoop, next]

/-- What the last round has and every round passes on to its start holds of a loop that
has ended. -/
theorem runLoop_induction (holds : σ → List ω → Prop)
    (last : ∀ {s}, round s = none → holds s [])
    (next : ∀ {s t outputs rest}, round s = some (outputs, t) → holds t rest →
      holds s (outputs ++ rest))
    {fuel : Nat} {outputs : List ω} (ended : runLoop round fuel s = some outputs) :
    holds s outputs := by
  induction fuel generalizing s outputs with
  | zero => cases ended
  | succ fuel ih =>
      cases step : round s with
      | none =>
          rw [runLoop_last step] at ended
          cases ended
          exact last step
      | some made =>
          obtain ⟨first, t⟩ := made
          rw [runLoop_next step] at ended
          obtain ⟨rest, later, rfl⟩ := Option.map_eq_some_iff.mp ended
          exact next step (ih later)

theorem endsWith_of_last (last : round s = none) : EndsWith round s [] := ⟨1, runLoop_last last 0⟩

theorem endsWith_of_next {outputs rest : List ω} (next : round s = some (outputs, t))
    (later : EndsWith round t rest) : EndsWith round s (outputs ++ rest) := by
  obtain ⟨fuel, ended⟩ := later
  exact ⟨fuel + 1, by rw [runLoop_next next, ended, Option.map_some]⟩

/-- A loop ends in one way. -/
theorem EndsWith.unique {one other : List ω} (first : EndsWith round s one)
    (second : EndsWith round s other) : one = other := by
  obtain ⟨fuel, ended⟩ := first
  obtain ⟨more, ended'⟩ := second
  induction fuel generalizing s one other more with
  | zero => cases ended
  | succ fuel ih =>
      cases more with
      | zero => cases ended'
      | succ more =>
          cases step : round s with
          | none =>
              rw [runLoop_last step] at ended ended'
              exact Option.some.inj (ended.symm.trans ended')
          | some made =>
              obtain ⟨outputs, t⟩ := made
              rw [runLoop_next step] at ended ended'
              obtain ⟨rest, later, rfl⟩ := Option.map_eq_some_iff.mp ended
              obtain ⟨rest', later', rfl⟩ := Option.map_eq_some_iff.mp ended'
              rw [ih later more later']

theorem EndsWith.ends {outputs : List ω} (ended : EndsWith round s outputs) : Ends round s := by
  obtain ⟨fuel, ended⟩ := ended
  exact ⟨fuel, outputs, ended⟩

theorem ends_of_last (last : round s = none) : Ends round s := ⟨1, [], runLoop_last last 0⟩

/-- A loop ends when it ends after its first round. -/
theorem ends_iff_of_round (step : Round round s t) : Ends round s ↔ Ends round t := by
  obtain ⟨outputs, step⟩ := step
  constructor
  · intro ended
    rcases ended with ⟨fuel, all, ended⟩
    cases fuel with
    | zero => cases ended
    | succ fuel =>
        rw [runLoop_next step] at ended
        obtain ⟨rest, later, -⟩ := Option.map_eq_some_iff.mp ended
        exact ⟨fuel, rest, later⟩
  · intro ended
    rcases ended with ⟨fuel, rest, ended⟩
    refine ⟨fuel + 1, outputs ++ rest, ?_⟩
    rw [runLoop_next step, ended, Option.map_some]

/-- And when it ends from anywhere it comes to. -/
theorem ends_iff_of_visits (way : Visits round s t) : Ends round s ↔ Ends round t := by
  induction way with
  | refl => rfl
  | tail _ step ih => exact ih.trans (ends_iff_of_round step)

/-- Every round lowers the measure. -/
theorem ends_of_measure (measure : σ → Nat)
    (lowers : ∀ t u, Visits round s t → Round round t u → measure u < measure t) :
    Ends round s := by
  generalize size : measure s = n
  induction n using Nat.strong_induction_on generalizing s with
  | h n ih =>
      cases step : round s with
      | none => exact ends_of_last step
      | some made =>
          have first : Round round s made.2 := ⟨made.1, step⟩
          have less : measure made.2 < n := size ▸ lowers s made.2 .refl first
          refine (ends_iff_of_round first).mpr (ih _ less (fun t u way => ?_) rfl)
          exact lowers t u (.head first way)

/-- No round leaves the trap, and every state in it has a round. -/
theorem not_ends_of_trap (trap : σ → Prop)
    (keeps : ∀ s, trap s → ∃ t, Round round s t ∧ trap t) (start : trap s) : ¬ Ends round s := by
  intro ended
  rcases ended with ⟨fuel, outputs, ended⟩
  induction fuel generalizing s outputs with
  | zero => cases ended
  | succ fuel ih =>
      obtain ⟨t, ⟨first, step⟩, inside⟩ := keeps s start
      rw [runLoop_next step] at ended
      obtain ⟨rest, later, -⟩ := Option.map_eq_some_iff.mp ended
      exact ih inside rest later

end Loop

end StudyLinux
