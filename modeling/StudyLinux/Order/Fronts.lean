import Mathlib.Data.List.Induction

/-!
# Items with what is in front of them

What the items of a list are made into when each is looked at with the items in front of
it. A fold that keeps what it needs of these makes the same, item by item (`made_concat`).
-/

namespace StudyLinux

section Fronts

variable {α β : Type}

def madeBehind (make : List α → α → Option β) (front : List α) : List α → List β
  | [] => []
  | a :: rest => (make front a).toList ++ madeBehind make (front ++ [a]) rest

/-- What the items are made into. -/
def made (make : List α → α → Option β) (items : List α) : List β := madeBehind make [] items

variable {make : List α → α → Option β}

theorem madeBehind_concat (front items : List α) (a : α) :
    madeBehind make front (items ++ [a]) =
      madeBehind make front items ++ (make (front ++ items) a).toList := by
  induction items generalizing front with
  | nil =>
      rw [List.nil_append, madeBehind, madeBehind, madeBehind, List.append_nil, List.append_nil,
        List.nil_append]
  | cons b items ih =>
      rw [List.cons_append, madeBehind, madeBehind, ih, List.append_assoc, List.append_assoc,
        List.singleton_append]

theorem made_concat (items : List α) (a : α) :
    made make (items ++ [a]) = made make items ++ (make items a).toList :=
  madeBehind_concat [] items a

@[simp] theorem made_nil : made make [] = [] := rfl

end Fronts

end StudyLinux
