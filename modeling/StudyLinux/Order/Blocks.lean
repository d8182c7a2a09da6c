import Mathlib.Data.List.Induction

/-!
# Maximal blocks

The maximal blocks of neighbours that a predicate holds of. A counter that goes through
the list and counts a block when it sees the item behind it has all of them, but for one
that reaches to the end (`closedBlocks_add`).
-/

namespace StudyLinux

section Blocks

variable {α : Type} {p : α → Bool}

/-- The number of maximal blocks, each counted at its last item. -/
def blocks (p : α → Bool) : List α → Nat
  | [] => 0
  | a :: rest => blocks p rest + (p a && !rest.head?.any p).toNat

/-- The last item is in a block. -/
def endsInBlock (p : α → Bool) (items : List α) : Bool := items.getLast?.any p

/-- The blocks that an item behind them has closed. -/
def closedBlocks (p : α → Bool) (items : List α) : Nat :=
  blocks p items - (endsInBlock p items).toNat

/-- An item starts a block when it is in one and the item in front of it is not. -/
theorem blocks_concat (items : List α) (a : α) :
    blocks p (items ++ [a]) = blocks p items + (p a && !endsInBlock p items).toNat := by
  induction items with
  | nil => rfl
  | cons b rest ih =>
      rw [List.cons_append, blocks, ih, blocks, endsInBlock, endsInBlock]
      cases rest with
      | nil =>
          rw [List.nil_append, List.head?_cons, List.head?_nil, List.getLast?_singleton,
            List.getLast?_nil, Option.any_some, Option.any_some, Option.any_none]
          cases p a <;> cases p b <;> rfl
      | cons c rest =>
          rw [List.cons_append, List.head?_cons, List.head?_cons, List.getLast?_cons_cons]
          exact Nat.add_right_comm ..

@[simp] theorem endsInBlock_nil : endsInBlock p [] = false := rfl

@[simp] theorem endsInBlock_concat (items : List α) (a : α) :
    endsInBlock p (items ++ [a]) = p a := by
  rw [endsInBlock, List.getLast?_concat, Option.any_some]

theorem toNat_endsInBlock_le (items : List α) :
    (endsInBlock p items).toNat ≤ blocks p items := by
  induction items using List.reverseRecOn with
  | nil => exact Nat.le_refl _
  | append_singleton front a ih =>
      rw [endsInBlock_concat, blocks_concat]
      cases p a with
      | false => exact Nat.zero_le _
      | true =>
          cases inside : endsInBlock p front with
          | false => exact Nat.le_add_left ..
          | true =>
              rw [inside] at ih
              exact ih

theorem closedBlocks_add (items : List α) :
    closedBlocks p items + (endsInBlock p items).toNat = blocks p items :=
  Nat.sub_add_cancel (toNat_endsInBlock_le items)

/-- An item that is not in a block closes the one in front of it. -/
theorem closedBlocks_concat (items : List α) (a : α) :
    closedBlocks p (items ++ [a]) =
      closedBlocks p items + (!p a && endsInBlock p items).toNat := by
  have before := closedBlocks_add (p := p) items
  have after := closedBlocks_add (p := p) (items ++ [a])
  rw [endsInBlock_concat, blocks_concat, ← before] at after
  cases taken : p a with
  | false =>
      rw [taken] at after
      exact after
  | true =>
      rw [taken] at after
      cases inside : endsInBlock p items with
      | false =>
          rw [inside] at after
          exact Nat.succ.inj after
      | true =>
          rw [inside] at after
          exact Nat.succ.inj after

end Blocks

end StudyLinux
