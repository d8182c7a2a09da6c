import Mathlib.Data.List.MinMax
import StudyLinux.Regex.Matches

/-!
# Leftmost longest matches

Of the matches of an expression the leftmost ones count, and of these the longest.
`search` finds one with its captures by trying every place and every way to match there.
`search_eq_none_iff` and `search_spec` are all that is known of it: how it chooses between
two ways to the same end is its own affair.
-/

namespace StudyLinux

namespace Regex

variable {α : Type} {s : Subject α} {r : Regex α}

/-- The leftmost match from `p` on, and the longest one there. -/
structure LeftmostLongest (s : Subject α) (r : Regex α) (p i j : Nat) : Prop where
  behind : p ≤ i
  inside : i ≤ s.text.length
  span : Matches s r i j
  leftmost : ∀ {i' j'}, p ≤ i' → i' ≤ s.text.length → Matches s r i' j' → i ≤ i'
  longest : ∀ {j'}, Matches s r i j' → j' ≤ j

/-- No match starts from `p` on. -/
def NoMatch (s : Subject α) (r : Regex α) (p : Nat) : Prop :=
  ∀ i j, p ≤ i → i ≤ s.text.length → ¬ Matches s r i j

theorem LeftmostLongest.unique {p i j i' j' : Nat} (one : LeftmostLongest s r p i j)
    (other : LeftmostLongest s r p i' j') : i = i' ∧ j = j' := by
  obtain rfl : i = i' :=
    (one.leftmost other.behind other.inside other.span).antisymm
      (other.leftmost one.behind one.inside one.span)
  exact ⟨rfl, (other.longest one.span).antisymm (one.longest other.span)⟩

theorem LeftmostLongest.not_noMatch {p i j : Nat} (found : LeftmostLongest s r p i j) :
    ¬ NoMatch s r p := fun none => none i j found.behind found.inside found.span

/-! ## All ways to match -/

/-- The ways to match again and again. Only the last time may match no symbol, so `fuel`
symbols are enough. -/
def starTries (step : Nat → Captures → List (Nat × Captures)) :
    Nat → Nat → Captures → List (Nat × Captures)
  | 0, i, c => [(i, c)]
  | fuel + 1, i, c =>
      (i, c) :: ((step i c).filter fun way => i < way.1).flatMap fun way =>
        starTries step fuel way.1 way.2

/-- The ways to match at a place: where the match ends and what the groups have
captured. -/
def tries (s : Subject α) : Regex α → Nat → Captures → List (Nat × Captures)
  | .empty, i, c => [(i, c)]
  | .one symbol, i, c => if s.text[i]?.any symbol then [(i + 1, c)] else []
  | .lineStart, i, c => if s.starts i then [(i, c)] else []
  | .lineEnd, i, c => if s.ends i then [(i, c)] else []
  | .group number r, i, c =>
      (tries s r i (r.clear c)).map fun way =>
        (way.1, Function.update way.2 number (some (i, way.1)))
  | .cat r q, i, c => (tries s r i c).flatMap fun way => tries s q way.1 way.2
  | .alt r q, i, c => tries s r i c ++ tries s q i c
  | .star r, i, c => starTries (tries s r) (s.text.length - i) i c

theorem took_of_mem_starTries {step : Nat → Captures → List (Nat × Captures)}
    (sound : ∀ {i c j c'}, (j, c') ∈ step i c → Took s r i c j c') {fuel i j : Nat}
    {c c' : Captures} (tried : (j, c') ∈ starTries step fuel i c) :
    Took s (.star r) i c j c' := by
  induction fuel generalizing i c with
  | zero =>
      cases List.mem_singleton.mp tried
      exact .starNil
  | succ fuel ih =>
      rcases List.mem_cons.mp tried with here | further
      · cases here
        exact .starNil
      · obtain ⟨⟨k, d⟩, first, rest⟩ := List.mem_flatMap.mp further
        exact .starCons (sound (List.mem_filter.mp first).1) (ih rest)

/-- Every way that is tried is one. -/
theorem took_of_mem_tries {i j : Nat} {c c' : Captures} (tried : (j, c') ∈ tries s r i c) :
    Took s r i c j c' := by
  induction r generalizing i j c c' with
  | empty =>
      cases List.mem_singleton.mp tried
      exact .empty
  | one symbol =>
      obtain ⟨accepts, here⟩ := List.mem_ite_nil_right.mp tried
      obtain ⟨a, found, accepted⟩ := (Option.any_eq_true _ _).mp accepts
      cases List.mem_singleton.mp here
      exact .one found accepted
  | lineStart =>
      obtain ⟨at_start, here⟩ := List.mem_ite_nil_right.mp tried
      cases List.mem_singleton.mp here
      exact .lineStart at_start
  | lineEnd =>
      obtain ⟨at_end, here⟩ := List.mem_ite_nil_right.mp tried
      cases List.mem_singleton.mp here
      exact .lineEnd at_end
  | group number r ih =>
      obtain ⟨⟨k, d⟩, inner, same⟩ := List.mem_map.mp tried
      cases same
      exact .group (ih inner)
  | cat r q ihr ihq =>
      obtain ⟨⟨k, d⟩, left, right⟩ := List.mem_flatMap.mp tried
      exact .cat (ihr left) (ihq right)
  | alt r q ihr ihq =>
      rcases List.mem_append.mp tried with left | right
      · exact .altLeft (ihr left)
      · exact .altRight (ihq right)
  | star r ih => exact took_of_mem_starTries ih tried

theorem starTries_mono {step : Nat → Captures → List (Nat × Captures)} {fuel more i : Nat}
    {c : Captures} (enough : fuel ≤ more) {way : Nat × Captures}
    (tried : way ∈ starTries step fuel i c) : way ∈ starTries step more i c := by
  induction fuel generalizing more i c with
  | zero =>
      rw [List.mem_singleton.mp tried]
      cases more with
      | zero => exact List.mem_singleton_self _
      | succ more => exact List.mem_cons_self
  | succ fuel ih =>
      obtain ⟨rest, rfl⟩ : ∃ rest, more = rest + 1 := ⟨more - 1, by omega⟩
      rcases List.mem_cons.mp tried with here | further
      · exact List.mem_cons.mpr (.inl here)
      · obtain ⟨next, first, later⟩ := List.mem_flatMap.mp further
        exact List.mem_cons.mpr
          (.inr (List.mem_flatMap.mpr ⟨next, first, ih (Nat.le_of_succ_le_succ enough) later⟩))

/-- No match is left out. -/
theorem exists_mem_tries {i j : Nat} (h : Matches s r i j) (inside : i ≤ s.text.length) :
    ∀ c, ∃ c', (j, c') ∈ tries s r i c := by
  induction h with
  | empty => exact fun c => ⟨c, List.mem_singleton_self _⟩
  | one found accepts =>
      have accepted := (Option.any_eq_true _ _).mpr ⟨_, found, accepts⟩
      exact fun c => ⟨c, List.mem_ite_nil_right.mpr ⟨accepted, List.mem_singleton_self _⟩⟩
  | lineStart here =>
      exact fun c => ⟨c, List.mem_ite_nil_right.mpr ⟨here, List.mem_singleton_self _⟩⟩
  | lineEnd here =>
      exact fun c => ⟨c, List.mem_ite_nil_right.mpr ⟨here, List.mem_singleton_self _⟩⟩
  | @group number r _ _ _ ih =>
      intro c
      obtain ⟨c', inner⟩ := ih inside (r.clear c)
      exact ⟨_, List.mem_map.mpr ⟨_, inner, rfl⟩⟩
  | cat left _ ihr ihq =>
      intro c
      obtain ⟨d, first⟩ := ihr inside c
      obtain ⟨c', second⟩ := ihq (left.le_length inside) d
      exact ⟨c', List.mem_flatMap.mpr ⟨_, first, second⟩⟩
  | altLeft _ ih =>
      intro c
      obtain ⟨c', tried⟩ := ih inside c
      exact ⟨c', List.mem_append_left _ tried⟩
  | altRight _ ih =>
      intro c
      obtain ⟨c', tried⟩ := ih inside c
      exact ⟨c', List.mem_append_right _ tried⟩
  | @starNil r i =>
      intro c
      exact ⟨c, starTries_mono (Nat.zero_le _) (List.mem_singleton_self (i, c))⟩
  | @starCons r i j k first _ ihr ihs =>
      intro c
      have upto := first.le_length inside
      rcases first.le.eq_or_lt with rfl | further
      · exact ihs inside c
      · -- a time that matched something leaves less fuel than its symbols were
        obtain ⟨d, once⟩ := ihr inside c
        obtain ⟨c', again⟩ := ihs upto d
        have fuel : s.text.length - i = s.text.length - (i + 1) + 1 := by omega
        refine ⟨c', ?_⟩
        rw [tries, fuel]
        refine List.mem_cons.mpr (.inr (List.mem_flatMap.mpr ⟨(j, d), List.mem_filter.mpr
          ⟨once, decide_eq_true further⟩, starTries_mono (Nat.sub_le_sub_left further _) again⟩))

/-! ## The search -/

/-- The longest way at the first place where there is one. -/
def search (s : Subject α) (r : Regex α) : Option (Nat × Nat × Captures) := do
  let i ← (List.range (s.text.length + 1)).find? fun i => !(tries s r i fun _ => none).isEmpty
  let way ← (tries s r i fun _ => none).argmax Prod.fst
  return (i, way)

theorem tries_isEmpty_iff {i : Nat} (inside : i ≤ s.text.length) :
    (tries s r i fun _ => none).isEmpty ↔ ∀ j, ¬ Matches s r i j := by
  rw [List.isEmpty_iff, List.eq_nil_iff_forall_not_mem]
  constructor
  · intro none j span
    obtain ⟨c', tried⟩ := exists_mem_tries span inside fun _ => Option.none
    exact none _ tried
  · exact fun none way tried => none way.1 (took_of_mem_tries tried).span

theorem search_spec {i j : Nat} {c : Captures} (found : search s r = some (i, j, c)) :
    LeftmostLongest s r 0 i j ∧ Took s r i (fun _ => none) j c := by
  unfold search at found
  obtain ⟨place, first, way, longest, same⟩ := by
    simpa only [Option.bind_eq_bind, Option.bind_eq_some_iff] using found
  cases same
  obtain ⟨-, place, earlier⟩ := List.find?_range_eq_some.mp first
  have inside : i ≤ s.text.length := Nat.lt_succ_iff.mp (List.mem_range.mp place)
  have took := took_of_mem_tries (List.argmax_mem longest)
  refine ⟨⟨i.zero_le, inside, took.span, fun {i' j'} _ inside' span => ?_, fun {j'} span => ?_⟩,
    took⟩
  · apply Nat.le_of_not_lt
    intro before
    have none := earlier i' before
    rw [Bool.not_not, tries_isEmpty_iff inside'] at none
    exact none j' span
  · obtain ⟨c', tried⟩ := exists_mem_tries span inside fun _ => none
    exact List.le_of_mem_argmax tried longest

theorem search_eq_none_iff : search s r = none ↔ NoMatch s r 0 := by
  constructor
  · intro none i j _ inside span
    unfold search at none
    cases first : (List.range (s.text.length + 1)).find? fun i =>
        !(tries s r i fun _ => Option.none).isEmpty with
    | none =>
        have empty := List.find?_range_eq_none.mp first i (Nat.lt_succ_of_le inside)
        rw [Bool.not_not, tries_isEmpty_iff inside] at empty
        exact empty j span
    | some place =>
        have full := (List.find?_range_eq_some.mp first).1
        rw [first, Option.bind_eq_bind, Option.bind_some, Option.bind_eq_bind,
          Option.bind_eq_none_iff] at none
        have empty : (tries s r place fun _ => Option.none).argmax Prod.fst = Option.none :=
          Option.eq_none_iff_forall_ne_some.mpr fun way longest => by cases none way longest
        rw [List.argmax_eq_none.mp empty] at full
        cases full
  · intro none
    rw [Option.eq_none_iff_forall_ne_some]
    intro found some
    exact (search_spec some).1.not_noMatch none

end Regex

end StudyLinux
