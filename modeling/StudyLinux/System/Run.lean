import Mathlib.Data.List.Infix

/-!
# Runs of a deterministic system

A system reads a list of inputs, one step for each. `After` says that a property
holds after every step of a run: it is read off step by step (`after_cons`), and a
view that commutes with the steps carries it to the run of the viewed system
(`after_map_iff`). `Caused` is about the events that a run leaves behind: each
stands behind its cause, which is checked event by event (`caused_concat`).
-/

namespace StudyLinux

section Run

variable {σ τ ι κ : Type} {step : σ → ι → σ} {s : σ} {inputs : List ι}

/-- After every step of the run the property holds of the input and the state. -/
def After (step : σ → ι → σ) (s : σ) (inputs : List ι) (holds : ι → σ → Prop) : Prop :=
  ∀ before input, before ++ [input] <+: inputs → holds input ((before ++ [input]).foldl step s)

theorem after_nil (holds : ι → σ → Prop) : After step s [] holds := by
  intro before input front
  exact absurd (List.prefix_nil.mp front) (by simp)

/-- What holds after the first step, and after every step from there. -/
theorem after_cons {input : ι} {holds : ι → σ → Prop} :
    After step s (input :: inputs) holds ↔
      holds input (step s input) ∧ After step (step s input) inputs holds := by
  constructor
  · intro all
    refine ⟨all [] input ⟨inputs, rfl⟩, fun before later front => ?_⟩
    exact all (input :: before) later (List.cons_prefix_cons.mpr ⟨rfl, front⟩)
  · rintro ⟨now, rest⟩ before later front
    cases before with
    | nil =>
        obtain ⟨rfl, -⟩ := List.cons_prefix_cons.mp front
        exact now
    | cons first before =>
        obtain ⟨rfl, behind⟩ := List.cons_prefix_cons.mp front
        exact rest before later behind

/-- An invariant holds after every step. -/
theorem after_of_invariant {invariant : σ → Prop}
    (keeps : ∀ s input, invariant s → invariant (step s input)) (start : invariant s) :
    After step s inputs fun _ s => invariant s := by
  induction inputs generalizing s with
  | nil => exact after_nil _
  | cons input inputs ih => exact after_cons.mpr ⟨keeps s input start, ih (keeps s input start)⟩

theorem After.imp {holds holds' : ι → σ → Prop} (weaker : ∀ input s, holds input s → holds' input s)
    (all : After step s inputs holds) : After step s inputs holds' := fun before input front =>
  weaker input _ (all before input front)

/-- A view that commutes with the steps, from the states of an invariant: the viewed
system has the property exactly when the system has it of its views. -/
theorem after_map_iff {step' : τ → κ → τ} {view : σ → τ} {label : ι → κ} {invariant : σ → Prop}
    (keeps : ∀ s input, invariant s → invariant (step s input))
    (commutes : ∀ s input, invariant s → view (step s input) = step' (view s) (label input))
    (start : invariant s) {holds : κ → τ → Prop} :
    After step' (view s) (inputs.map label) holds ↔
      After step s inputs fun input s => holds (label input) (view s) := by
  induction inputs generalizing s with
  | nil => exact iff_of_true (after_nil _) (after_nil _)
  | cons input inputs ih =>
      rw [List.map_cons, after_cons, after_cons, ← commutes s input start,
        ih (keeps s input start)]

end Run

section Log

variable {ε : Type} {cause : ε → Option ε} {log : List ε}

/-- Every event of the log that has a cause comes after it. -/
def Caused (cause : ε → Option ε) (log : List ε) : Prop :=
  ∀ before event after, log = before ++ event :: after → ∀ c ∈ cause event, c ∈ before

theorem caused_nil : Caused cause [] := by
  intro before event after shape
  exact absurd shape (by simp)

/-- A further event must find its cause in the log. -/
theorem caused_concat {event : ε} :
    Caused cause (log ++ [event]) ↔ Caused cause log ∧ ∀ c ∈ cause event, c ∈ log := by
  constructor
  · intro all
    refine ⟨fun before earlier after shape => ?_, all log event [] rfl⟩
    exact all before earlier (after ++ [event]) (by rw [shape]; simp)
  · rintro ⟨earlier, last⟩ before found after shape
    rcases List.eq_nil_or_concat after with rfl | ⟨front, final, rfl⟩
    · obtain ⟨rfl, same⟩ := List.append_inj' shape rfl
      obtain rfl := List.singleton_inj.mp same
      exact last
    · rw [List.concat_eq_append, ← List.cons_append, ← List.append_assoc] at shape
      exact earlier before found front (List.append_inj' shape rfl).1

end Log

end StudyLinux
