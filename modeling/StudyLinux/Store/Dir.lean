import Mathlib.Data.List.Pairwise
import Mathlib.Data.List.Sort
import Mathlib.Order.Defs.LinearOrder

/-!
# Finite directories

A directory maps finitely many names to contents. Its entries are kept in the
order of their names, which is part of the type, so two directories with the
same contents under every name are equal (`Dir.ext_get`). `put`, `erase` and `get`
come with the rules that say what each does at its own name and at every other.
-/

namespace StudyLinux

variable {κ α : Type} [LinearOrder κ]

/-- The entries of a directory, in increasing order of their names. -/
structure Dir (κ α : Type) [LinearOrder κ] where
  entries : List (κ × α)
  sorted : entries.Pairwise fun a b => a.1 < b.1

/-- Insertion at the place of the name; an entry of that name is replaced. -/
def putEntry (k : κ) (v : α) : List (κ × α) → List (κ × α)
  | [] => [(k, v)]
  | (k', v') :: rest =>
      if k < k' then (k, v) :: (k', v') :: rest
      else if k = k' then (k, v) :: rest
      else (k', v') :: putEntry k v rest

theorem mem_putEntry {k : κ} {v : α} {entries : List (κ × α)} {entry : κ × α}
    (member : entry ∈ putEntry k v entries) : entry = (k, v) ∨ entry ∈ entries := by
  induction entries with
  | nil => exact Or.inl (List.mem_singleton.mp member)
  | cons head rest ih =>
      obtain ⟨k', v'⟩ := head
      rw [putEntry] at member
      split_ifs at member with before same
      · simpa using member
      · rcases List.mem_cons.mp member with new | old
        · exact Or.inl new
        · exact Or.inr (List.mem_cons_of_mem _ old)
      · rcases List.mem_cons.mp member with first | later
        · exact Or.inr (first ▸ List.mem_cons_self)
        · exact (ih later).imp_right (List.mem_cons_of_mem _)

theorem putEntry_sorted {k : κ} {v : α} {entries : List (κ × α)}
    (sorted : entries.Pairwise fun a b => a.1 < b.1) :
    (putEntry k v entries).Pairwise fun a b => a.1 < b.1 := by
  induction entries with
  | nil => exact List.pairwise_singleton _ _
  | cons head rest ih =>
      obtain ⟨k', v'⟩ := head
      obtain ⟨above, restSorted⟩ := List.pairwise_cons.mp sorted
      rw [putEntry]
      split_ifs with before same
      · refine List.pairwise_cons.mpr ⟨fun entry member => ?_, sorted⟩
        rcases List.mem_cons.mp member with rfl | later
        · exact before
        · exact before.trans (above entry later)
      · exact List.pairwise_cons.mpr ⟨fun entry member => same ▸ above entry member, restSorted⟩
      · refine List.pairwise_cons.mpr ⟨fun entry member => ?_, ih restSorted⟩
        rcases mem_putEntry member with rfl | old
        · exact lt_of_le_of_ne (not_lt.mp before) (Ne.symm same)
        · exact above entry old

theorem lookup_putEntry_self (k : κ) (v : α) (entries : List (κ × α)) :
    (putEntry k v entries).lookup k = some v := by
  induction entries with
  | nil => simp [putEntry]
  | cons head rest ih =>
      obtain ⟨k', v'⟩ := head
      rw [putEntry]
      split_ifs with before same
      · simp
      · simp
      · rw [List.lookup_cons, beq_eq_false_iff_ne.mpr same]
        exact ih

theorem lookup_putEntry_of_ne {k k' : κ} (v : α) (other : k' ≠ k) (entries : List (κ × α)) :
    (putEntry k v entries).lookup k' = entries.lookup k' := by
  induction entries with
  | nil => simp [putEntry, other]
  | cons head rest ih =>
      obtain ⟨first, value⟩ := head
      rw [putEntry]
      split_ifs with before same
      · rw [List.lookup_cons, beq_eq_false_iff_ne.mpr other]
      · subst same
        rw [List.lookup_cons, List.lookup_cons, beq_eq_false_iff_ne.mpr other]
      · rw [List.lookup_cons, List.lookup_cons, ih]

theorem lookup_filter_of_ne {k k' : κ} (other : k' ≠ k) (entries : List (κ × α)) :
    (entries.filter fun entry => entry.1 ≠ k).lookup k' = entries.lookup k' := by
  induction entries with
  | nil => rfl
  | cons head rest ih =>
      obtain ⟨first, value⟩ := head
      by_cases removed : first = k
      · rw [List.filter_cons_of_neg (by simpa using removed), ih, List.lookup_cons,
          beq_eq_false_iff_ne.mpr (removed ▸ other)]
      · rw [List.filter_cons_of_pos (by simpa using removed), List.lookup_cons,
          List.lookup_cons, ih]

namespace Dir

/-- The empty directory. -/
def empty : Dir κ α := ⟨[], List.Pairwise.nil⟩

/-- What is stored under a name. -/
def get (d : Dir κ α) (k : κ) : Option α := d.entries.lookup k

/-- Store under a name. -/
def put (d : Dir κ α) (k : κ) (v : α) : Dir κ α :=
  ⟨putEntry k v d.entries, putEntry_sorted d.sorted⟩

/-- Remove a name. -/
def erase (d : Dir κ α) (k : κ) : Dir κ α :=
  ⟨d.entries.filter fun entry => entry.1 ≠ k, d.sorted.filter _⟩

/-- The names, in order. -/
def names (d : Dir κ α) : List κ := d.entries.map Prod.fst

@[simp] theorem get_put_self (d : Dir κ α) (k : κ) (v : α) : (d.put k v).get k = some v :=
  lookup_putEntry_self k v d.entries

theorem get_put_of_ne (d : Dir κ α) {k k' : κ} (v : α) (other : k' ≠ k) :
    (d.put k v).get k' = d.get k' := lookup_putEntry_of_ne v other d.entries

@[simp] theorem get_erase_self (d : Dir κ α) (k : κ) : (d.erase k).get k = none := by
  rw [get, List.lookup_eq_none_iff]
  intro entry member
  have kept : entry.1 ≠ k := by simpa using (List.mem_filter.mp member).2
  exact bne_iff_ne.mpr (Ne.symm kept)

theorem get_erase_of_ne (d : Dir κ α) {k k' : κ} (other : k' ≠ k) :
    (d.erase k).get k' = d.get k' := by
  obtain ⟨entries, sorted⟩ := d
  exact lookup_filter_of_ne other entries

theorem nodup_names (d : Dir κ α) : d.names.Nodup :=
  List.pairwise_map.mpr (d.sorted.imp ne_of_lt)

theorem get_eq_some_iff (d : Dir κ α) {k : κ} {v : α} :
    d.get k = some v ↔ (k, v) ∈ d.entries := by
  obtain ⟨entries, sorted⟩ := d
  rw [get]
  induction entries with
  | nil => simp
  | cons head rest ih =>
      obtain ⟨first, value⟩ := head
      obtain ⟨above, restSorted⟩ := List.pairwise_cons.mp sorted
      have rule := ih restSorted
      dsimp only at rule ⊢
      rw [List.lookup_cons, List.mem_cons, Prod.mk.injEq]
      by_cases same : k = first
      · subst same
        have fresh : (k, v) ∉ rest := fun member => (above _ member).false
        simp [fresh, eq_comm]
      · rw [beq_eq_false_iff_ne.mpr same]
        simp [same, rule]

theorem mem_names (d : Dir κ α) {k : κ} : k ∈ d.names ↔ (d.get k).isSome := by
  rw [Option.isSome_iff_exists, names, List.mem_map]
  simp only [get_eq_some_iff]
  constructor
  · intro named
    rcases named with ⟨⟨name, v⟩, member, rfl⟩
    exact ⟨v, member⟩
  · intro stored
    rcases stored with ⟨v, member⟩
    exact ⟨(k, v), member, rfl⟩

/-- Directories with the same contents under every name are equal. -/
theorem ext_get {a b : Dir κ α} (same : ∀ k, a.get k = b.get k) : a = b := by
  have members : ∀ entry, entry ∈ a.entries ↔ entry ∈ b.entries := fun entry => by
    rw [← a.get_eq_some_iff (k := entry.1) (v := entry.2), same, b.get_eq_some_iff]
  have nodup (d : Dir κ α) : d.entries.Nodup :=
    d.sorted.imp fun below same => (same ▸ below).false
  have perm : a.entries.Perm b.entries :=
    (List.perm_ext_iff_of_nodup (nodup a) (nodup b)).mpr members
  have entries := perm.eq_of_pairwise
    (fun x y _ _ below above => (below.asymm above).elim) a.sorted b.sorted
  cases a; cases b
  congr

end Dir

end StudyLinux
