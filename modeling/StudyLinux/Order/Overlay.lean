import Mathlib.Algebra.BigOperators.Intervals
import Mathlib.Data.List.Induction

/-!
# Lists laid over each other

Each list covers the front of what lies under it. An item stays when no later list is
long enough to cover it (`overlay_cons`), so numbers add up to less as soon as a covered
one is not 0 (`sum_overlay_add_covered`). Numbers that are kept by key may be added up key by
key (`sum_by_key`).
-/

namespace StudyLinux

section Overlay

variable {α : Type}

/-- The lists, each laid over the ones in front of it. -/
def overlay (lists : List (List α)) : List α :=
  lists.foldl (fun under list => list ++ under.drop list.length) []

@[simp] theorem overlay_nil : overlay ([] : List (List α)) = [] := rfl

theorem overlay_concat (lists : List (List α)) (list : List α) :
    overlay (lists ++ [list]) = list ++ (overlay lists).drop list.length := by
  rw [overlay, List.foldl_append]
  rfl

/-- What is left of the first list is what is longer than all the others. -/
theorem overlay_cons (list : List α) (lists : List (List α)) :
    overlay (list :: lists) = overlay lists ++ list.drop (overlay lists).length := by
  induction lists using List.reverseRecOn with
  | nil =>
      rw [overlay, List.foldl_cons, List.foldl_nil, List.drop_nil, List.append_nil]
      rfl
  | append_singleton lists last ih =>
      rw [← List.cons_append, overlay_concat, overlay_concat, ih, List.drop_append,
        List.drop_drop, List.append_assoc, List.length_append, List.length_drop]
      congr 3
      omega

theorem overlay_eq_nil {lists : List (List α)} (empty : ∀ list ∈ lists, list = []) :
    overlay lists = [] := by
  induction lists with
  | nil => rfl
  | cons list lists ih =>
      have rest := ih fun later member => empty later (List.mem_cons_of_mem _ member)
      rw [overlay_cons, rest, empty list List.mem_cons_self]
      rfl

theorem overlay_map {β : Type} (f : α → β) (lists : List (List α)) :
    overlay (lists.map (List.map f)) = (overlay lists).map f := by
  induction lists using List.reverseRecOn with
  | nil => rfl
  | append_singleton lists last ih =>
      rw [List.map_append, List.map_singleton, overlay_concat, overlay_concat, ih, List.length_map,
        List.map_append, List.map_drop]

/-- The numbers that are covered. -/
def covered (lists : List (List α)) : List α :=
  match lists with
  | [] => []
  | list :: lists => list.take (overlay lists).length ++ covered lists

theorem sum_overlay_add_covered (lists : List (List Nat)) :
    (overlay lists).sum + (covered lists).sum = (lists.map List.sum).sum := by
  induction lists with
  | nil => rfl
  | cons list lists ih =>
      have parts := congrArg List.sum (List.take_append_drop (overlay lists).length list)
      rw [List.sum_append] at parts
      rw [overlay_cons, covered, List.sum_append, List.sum_append, List.map_cons, List.sum_cons,
        ← ih, ← parts]
      omega

/-! ## Numbers by key -/

variable {κ : Type} [DecidableEq κ] (key : α → κ)

/-- Numbers may be added up key by key. -/
theorem sum_by_key (f : α → Nat) {keys : List κ} (distinct : keys.Nodup) {items : List α}
    (listed : ∀ item ∈ items, key item ∈ keys) :
    (keys.map fun k => ((items.filter fun item => key item = k).map f).sum).sum =
      (items.map f).sum := by
  induction keys generalizing items with
  | nil =>
      cases items with
      | nil => rfl
      | cons item items => exact absurd (listed item List.mem_cons_self) List.not_mem_nil
  | cons k keys ih =>
      obtain ⟨fresh, distinct⟩ := List.nodup_cons.mp distinct
      have others : ∀ item ∈ items.filter (fun item => !decide (key item = k)),
          key item ∈ keys := by
        intro item member
        obtain ⟨inside, other⟩ := List.mem_filter.mp member
        rcases List.mem_cons.mp (listed item inside) with rfl | later
        · simp at other
        · exact later
      have rest := ih distinct others
      have apart : (items.map f).sum = ((items.filter fun item => key item = k).map f).sum +
          ((items.filter fun item => !decide (key item = k)).map f).sum := by
        have perm := List.filter_append_perm (fun item => decide (key item = k)) items
        rw [← (perm.map f).sum_eq, List.map_append, List.sum_append]
      rw [List.map_cons, List.sum_cons, apart, ← rest]
      refine congrArg _ (congrArg List.sum (List.map_congr_left fun k' later => ?_))
      rw [List.filter_filter]
      refine congrArg (fun own => (List.map f own).sum) (List.filter_congr fun item _ => ?_)
      by_cases here : key item = k'
      · have other : k' ≠ k := fun same => fresh (same ▸ later)
        simp [here, other]
      · simp [here]

end Overlay

end StudyLinux
