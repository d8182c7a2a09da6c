import Mathlib.Data.List.Pairwise
import Mathlib.Data.List.Sort

/-!
# Sorting by a key in a linear order

A command that sorts lines is given by the key it compares. Ties between lines
with one key keep their input order, so the result is determined by the lines
alone exactly when the key tells them apart. Besides the permutation and the
order of the result, this module gives rules for which items are among the first `n`
(`mem_take_sortBy`), how one more item changes this (`countP_cons_lt_iff`), and when
two keys sort one list alike (`sortBy_eq_sortBy_iff`).
-/

namespace StudyLinux

variable {α β κ μ : Type} [LinearOrder κ] [LinearOrder μ]

/-- The order that a key induces on its items. -/
def keyLE (key : α → κ) (a b : α) : Prop := key a ≤ key b

instance (key : α → κ) : DecidableRel (keyLE key) :=
  fun a b => inferInstanceAs (Decidable (key a ≤ key b))

/-- Sort by a key, stable. -/
def sortBy (key : α → κ) (items : List α) : List α := items.insertionSort (keyLE key)

instance keyLE_total (key : α → κ) : Std.Total (keyLE key) :=
  ⟨fun a b => le_total (key a) (key b)⟩

instance keyLE_trans (key : α → κ) : IsTrans α (keyLE key) :=
  ⟨fun _ _ _ => le_trans⟩

theorem sortBy_perm (key : α → κ) (items : List α) : (sortBy key items).Perm items :=
  List.perm_insertionSort _ items

@[simp] theorem mem_sortBy {key : α → κ} {items : List α} {a : α} :
    a ∈ sortBy key items ↔ a ∈ items := (sortBy_perm key items).mem_iff

theorem sortBy_pairwise (key : α → κ) (items : List α) :
    (sortBy key items).Pairwise fun a b => key a ≤ key b :=
  List.pairwise_insertionSort (keyLE key) items

section Distinct

variable {key : α → κ} {items : List α}

/-- The key tells the items of a list apart. -/
def Separates (key : α → κ) (items : List α) : Prop :=
  ∀ a ∈ items, ∀ b ∈ items, key a = key b → a = b

omit [LinearOrder κ] in
theorem Separates.of_injective (injective : Function.Injective key) (items : List α) :
    Separates key items := fun _ _ _ _ same => injective same

/-- The sorted list is the only sorted arrangement of items the key separates. -/
theorem sortBy_eq_of_perm (separates : Separates key items) {sorted : List α}
    (perm : sorted.Perm items) (ordered : sorted.Pairwise fun a b => key a ≤ key b) :
    sortBy key items = sorted :=
  ((sortBy_perm key items).trans perm.symm).eq_of_pairwise
    (fun a b inSort inSorted ab ba => separates a (mem_sortBy.mp inSort) b
      (perm.mem_iff.mp inSorted) (le_antisymm ab ba))
    (sortBy_pairwise key items) ordered

/-- Distinct items come out in strictly increasing order. -/
theorem sortBy_strict (separates : Separates key items) (distinct : items.Nodup) :
    (sortBy key items).Pairwise fun a b => key a < key b := by
  have apart : (sortBy key items).Nodup := (sortBy_perm key items).nodup_iff.mpr distinct
  refine ((sortBy_pairwise key items).and apart).imp_of_mem ?_
  intro a b inA inB both
  refine lt_of_le_of_ne both.1 fun same => both.2 ?_
  exact separates a (mem_sortBy.mp inA) b (mem_sortBy.mp inB) same

end Distinct

/-! ## Projections -/

/-- Sorting images is sorting by the key of the image. -/
theorem sortBy_map (key : β → κ) (project : α → β) (items : List α) :
    sortBy key (items.map project) = (sortBy (fun a => key (project a)) items).map project :=
  (List.map_insertionSort _ _ project items fun _ _ _ _ => Iff.rfl).symm

/-! ## The first items -/

/-- In a strictly increasing list, the first `n` items are those with fewer than
`n` items below them. -/
theorem mem_take_of_strict {key : α → κ} {sorted : List α}
    (strict : sorted.Pairwise fun a b => key a < key b) {a : α} {n : Nat} :
    a ∈ sorted.take n ↔ a ∈ sorted ∧ sorted.countP (fun b => key b < key a) < n := by
  induction sorted generalizing n with
  | nil => simp
  | cons first rest ih =>
      obtain ⟨above, restStrict⟩ := List.pairwise_cons.mp strict
      cases n with
      | zero => simp
      | succ n =>
          rw [List.take_succ_cons, List.mem_cons, List.mem_cons, ih restStrict, List.countP_cons]
          by_cases head : a = first
          · subst head
            have none : rest.countP (fun b => key b < key a) = 0 :=
              List.countP_eq_zero.mpr fun b inRest => by simpa using (above b inRest).le
            simp [none]
          · by_cases later : a ∈ rest
            · simp [head, later, above a later]
            · simp [head, later]

/-- Which items a `head -n` of the sorted list keeps. -/
theorem mem_take_sortBy {key : α → κ} {items : List α} (separates : Separates key items)
    (distinct : items.Nodup) {a : α} {n : Nat} :
    a ∈ (sortBy key items).take n ↔ a ∈ items ∧ items.countP (fun b => key b < key a) < n := by
  rw [mem_take_of_strict (sortBy_strict separates distinct), mem_sortBy,
    (sortBy_perm key items).countP_eq]

/-- The items with fewer than `n` items below them are `n`, or all. -/
theorem length_filter_early {key : α → κ} {items : List α} (separates : Separates key items)
    (distinct : items.Nodup) (n : Nat) :
    (items.filter fun a => items.countP (fun b => key b < key a) < n).length =
      min n items.length := by
  have sorted : (sortBy key items).Nodup := (sortBy_perm key items).nodup_iff.mpr distinct
  have members : ∀ a, a ∈ (sortBy key items).take n ↔
      a ∈ items.filter fun a => items.countP (fun b => key b < key a) < n := by
    intro a
    rw [mem_take_sortBy separates distinct, List.mem_filter, decide_eq_true_eq]
  have perm := (List.perm_ext_iff_of_nodup (sorted.sublist (List.take_sublist n _))
    (distinct.filter _)).mpr members
  rw [← perm.length_eq, List.length_take, (sortBy_perm key items).length_eq]

/-- A list that has all items below a bound has at least as many of them. -/
theorem countP_lt_le {key : α → κ} {first second : List α} (distinct : first.Nodup) {bound : κ}
    (inside : ∀ a ∈ first, key a < bound → a ∈ second) :
    first.countP (fun b => key b < bound) ≤ second.countP fun b => key b < bound := by
  classical
  rw [List.countP_eq_length_filter, List.countP_eq_length_filter]
  refine (List.subperm_of_subset (distinct.filter _) fun a member => ?_).length_le
  obtain ⟨inFirst, below⟩ := List.mem_filter.mp member
  exact List.mem_filter.mpr ⟨inside a inFirst (by simpa using below), below⟩

/-- An item that stands below another has fewer items below it. -/
theorem countP_lt_lt {key : α → κ} {items : List α} {a b : α} (member : a ∈ items)
    (below : key a < key b) :
    items.countP (fun c => key c < key a) < items.countP fun c => key c < key b := by
  obtain ⟨before, after, rfl⟩ := List.append_of_mem member
  have mono (part : List α) :
      part.countP (fun c => key c < key a) ≤ part.countP fun c => key c < key b :=
    List.countP_mono_left fun c _ lower => decide_eq_true ((of_decide_eq_true lower).trans below)
  have front := mono before
  have back := mono after
  rw [List.countP_append, List.countP_append, List.countP_cons_of_neg (by simp),
    List.countP_cons_of_pos (by simpa using below)]
  omega

/-- One more item takes a place from the last of the first `n`, unless it stands behind
all of them. -/
theorem countP_cons_lt_iff {key : α → κ} {items : List α} {x a : α} {n : Nat}
    (apart : key a ≠ key x) (member : a ∈ items) :
    (x :: items).countP (fun b => key b < key a) < n ↔
      items.countP (fun b => key b < key a) <
        if n ≤ items.countP fun b => key b < key x then n else n - 1 := by
  rcases lt_or_gt_of_ne apart with before | behind
  · rw [List.countP_cons_of_neg (by simpa using before.le)]
    have less := countP_lt_lt member before
    split_ifs with crowded
    · rfl
    · omega
  · have below : ∀ b ∈ items, decide (key b < key x) → decide (key b < key a) := by
      intro b _ lower
      exact decide_eq_true ((of_decide_eq_true lower).trans behind)
    have more := List.countP_mono_left below
    rw [List.countP_cons_of_pos (by simpa using behind)]
    split_ifs with crowded
    · omega
    · omega

/-- An item that is early in one list is early in another, if every relevant item
that only the other has is preceded there by `n` items. Relevant items precede
irrelevant ones. -/
theorem countP_lt_of_crowded {key : α → κ} {first second : List α} (distinct : second.Nodup)
    (relevant : α → Prop) (downward : ∀ a b, relevant a → key b < key a → relevant b) {n : Nat}
    (crowded : ∀ b ∈ second, relevant b → b ∉ first → n ≤ second.countP fun c => key c < key b)
    {a : α} (isRelevant : relevant a) (early : first.countP (fun b => key b < key a) < n) :
    second.countP (fun b => key b < key a) < n := by
  -- no item of the second list alone stands below `a`: the least such item is not crowded
  have shared : ∀ rank, ∀ b ∈ second, second.countP (fun c => key c < key b) = rank →
      key b < key a → b ∈ first := by
    intro rank
    induction rank using Nat.strong_induction_on with
    | _ rank ih =>
        intro b inSecond rankEq below
        by_contra alone
        have late := crowded b inSecond (downward a b isRelevant below) alone
        have inside : ∀ c ∈ second, key c < key b → c ∈ first := fun c inSecond' before =>
          ih _ (rankEq ▸ countP_lt_lt inSecond' before) c inSecond' rfl (before.trans below)
        have bounded := countP_lt_le distinct inside
        have mono : first.countP (fun c => key c < key b) ≤ first.countP fun c => key c < key a :=
          List.countP_mono_left fun c _ lower =>
            decide_eq_true ((of_decide_eq_true lower).trans below)
        omega
  have inside : ∀ b ∈ second, key b < key a → b ∈ first := fun b inSecond below =>
    shared _ b inSecond rfl below
  exact (countP_lt_le distinct inside).trans_lt early

/-! ## Two keys -/

/-- Two keys sort a list of distinct items alike exactly when they order every
two of its items alike. -/
theorem sortBy_eq_sortBy_iff {first : α → κ} {second : α → μ} {items : List α}
    (separates₁ : Separates first items) (separates₂ : Separates second items)
    (distinct : items.Nodup) :
    sortBy first items = sortBy second items ↔
      ∀ a ∈ items, ∀ b ∈ items, first a < first b → second a < second b := by
  constructor
  · intro same a inA b inB below
    have both : (sortBy first items).Pairwise fun x y => first x < first y ∧ second x < second y :=
      (sortBy_strict separates₁ distinct).and (same ▸ sortBy_strict separates₂ distinct)
    let Agree (x y : α) : Prop :=
      (first x < first y ∧ second x < second y) ∨ (first y < first x ∧ second y < second x)
    have symm : Std.Symm Agree := ⟨fun _ _ => Or.symm⟩
    have related : (sortBy first items).Pairwise Agree := both.imp Or.inl
    rcases related.forall (mem_sortBy.mpr inA) (mem_sortBy.mpr inB)
      (by rintro rfl; exact below.false) with agree | opposite
    · exact agree.2
    · exact (below.asymm opposite.1).elim
  · intro agree
    refine (sortBy_eq_of_perm separates₂ (sortBy_perm first items) ?_).symm
    refine (sortBy_strict separates₁ distinct).imp_of_mem ?_
    intro a b inA inB below
    exact (agree a (mem_sortBy.mp inA) b (mem_sortBy.mp inB) below).le

end StudyLinux
