import Mathlib.Data.List.Nodup

/-!
# Objects that hold each key once

The members of an object stand in the order they were added in. `get` looks a key up;
going through all members and passing over those of other keys finds the same
(`flatMap_members`).
-/

namespace StudyLinux

/-- Members with distinct keys. -/
structure Object (κ α : Type) where
  members : List (κ × α)
  distinct : (members.map Prod.fst).Nodup

namespace Object

variable {κ α β : Type} [DecidableEq κ]

/-- The value of a key. -/
def get (o : Object κ α) (key : κ) : Option α := (o.members.find? fun m => m.1 = key).map Prod.snd

/-- When no key is there twice, what the members of a key give is what its value gives. -/
theorem flatMap_of_nodup {list : List (κ × α)} (distinct : (list.map Prod.fst).Nodup) (key : κ)
    (f : κ → α → List β) :
    (list.flatMap fun m => if m.1 = key then f m.1 m.2 else []) =
      (((list.find? fun m => m.1 = key).map Prod.snd).map (f key)).getD [] := by
  induction list with
  | nil => rfl
  | cons m list ih =>
      obtain ⟨fresh, rest⟩ := List.nodup_cons.mp distinct
      rw [List.flatMap_cons, List.find?_cons]
      by_cases here : m.1 = key
      · have absent : ∀ other ∈ list, ¬ other.1 = key := by
          rintro other mem same
          exact fresh (here.trans same.symm ▸ List.mem_map.mpr ⟨other, mem, rfl⟩)
        have later : (list.flatMap fun m => if m.1 = key then f m.1 m.2 else []) = [] :=
          List.flatMap_eq_nil_iff.mpr fun other mem => if_neg (absent other mem)
        rw [if_pos here, later, List.append_nil, decide_eq_true here, here]
        rfl
      · rw [if_neg here, List.nil_append, ih rest, decide_eq_false here]

/-- The scan of an object for a key is the lookup of the key. -/
theorem flatMap_members (o : Object κ α) (key : κ) (f : κ → α → List β) :
    (o.members.flatMap fun m => if m.1 = key then f m.1 m.2 else []) =
      ((o.get key).map (f key)).getD [] :=
  flatMap_of_nodup o.distinct key f

end Object

end StudyLinux
