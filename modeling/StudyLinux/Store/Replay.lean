import Mathlib.Data.List.Induction
import Mathlib.Logic.Function.Basic

/-!
# Replayed writes

A write has a name and the content that goes there, or nothing when there was nothing
to write. Behind any number of writes a name has its last content (`replay_apply`).
-/

namespace StudyLinux

section Replay

variable {κ ι α : Type} [DecidableEq κ]

/-- One write. -/
def perform (store : κ → Option α) (write : κ × Option α) : κ → Option α :=
  Function.update store write.1 (write.2.or (store write.1))

/-- The store behind some writes. -/
def replay (store : κ → Option α) (writes : List (κ × Option α)) : κ → Option α :=
  writes.foldl perform store

/-- The content that a write has for a name. -/
def contentFor (name : κ) (write : κ × Option α) : Option α :=
  if write.1 = name then write.2 else none

/-- What is written last under a name. -/
def lastWrite (writes : List (κ × Option α)) (name : κ) : Option α :=
  (writes.filterMap (contentFor name)).getLast?

theorem perform_apply (store : κ → Option α) (write : κ × Option α) (name : κ) :
    perform store write name = (contentFor name write).or (store name) := by
  unfold perform contentFor
  rcases eq_or_ne write.1 name with rfl | other
  · rw [Function.update_self, if_pos rfl]
  · rw [Function.update_of_ne other.symm, if_neg other, Option.none_or]

theorem replay_append (store : κ → Option α) (front back : List (κ × Option α)) :
    replay store (front ++ back) = replay (replay store front) back := List.foldl_append

/-- The last content, or the old one. -/
theorem replay_apply (store : κ → Option α) (writes : List (κ × Option α)) (name : κ) :
    replay store writes name = (lastWrite writes name).or (store name) := by
  induction writes using List.reverseRecOn with
  | nil => rfl
  | append_singleton writes write ih =>
      rw [replay_append, lastWrite, List.filterMap_append, List.getLast?_append, Option.or_assoc]
      refine (perform_apply (replay store writes) write name).trans ?_
      rw [ih, lastWrite, List.filterMap_cons, List.filterMap_nil]
      cases contentFor name write <;> rfl

/-- A name that nothing is written under. -/
theorem lastWrite_eq_none {writes : List (κ × Option α)} {name : κ}
    (apart : ∀ write ∈ writes, write.1 ≠ name) : lastWrite writes name = none := by
  rw [lastWrite, List.getLast?_eq_none_iff, List.filterMap_eq_nil_iff]
  intro write member
  exact if_neg (apart write member)

/-- Groups of writes that each have one content for a name at most. -/
theorem lastWrite_flatMap {groups : List ι} {writesOf : ι → List (κ × Option α)} {name : κ}
    {content : ι → Option α}
    (single : ∀ group ∈ groups,
      (writesOf group).filterMap (contentFor name) = (content group).toList) :
    lastWrite (groups.flatMap writesOf) name = (groups.filterMap content).getLast? := by
  rw [lastWrite, List.filterMap_flatMap]
  congr 1
  induction groups with
  | nil => rfl
  | cons group groups ih =>
      rw [List.flatMap_cons, List.filterMap_cons, single group List.mem_cons_self,
        ih fun other member => single other (List.mem_cons_of_mem _ member)]
      cases content group <;> rfl

end Replay

end StudyLinux
