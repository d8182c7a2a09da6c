import StudyLinux.System.Run
import StudyLinux.Text.Decimal

/-!
# The nested loops of the jansson example

`main` goes through an object of objects and asks each array in it for its elements. The
bound of the inner loop is a variable that only arrays set: an entry that is no array is
asked for as many elements as the last array had. `scan_iff` says when every entry is
asked for its own elements and for no other.
-/

namespace StudyLinux

namespace Jansson

/-! ## Values -/

/-- A `json_t`. A real number is what it is written as. -/
inductive Json
  | object (members : List (Text × Json))
  | array (elements : List Json)
  | string (text : Text)
  | integer (n : Int)
  | real (text : Text)
  | true
  | false
  | null

/-- `json_typeof`. -/
def jsonTypeof : Json → Nat
  | .object _ => 0
  | .array _ => 1
  | .string _ => 2
  | .integer _ => 3
  | .real _ => 4
  | .true => 5
  | .false => 6
  | .null => 7

/-- The members that `json_object_foreach` goes through. -/
def members : Json → List (Text × Json)
  | .object members => members
  | _ => []

def jsonObjectSize (value : Json) : Nat := (members value).length

/-- The elements of an array, which nothing else has. -/
def elements : Json → List Json
  | .array elements => elements
  | _ => []

def jsonArraySize (value : Json) : Nat := (elements value).length

/-- `json_array_get`. NULL is `none`. -/
def jsonArrayGet (value : Json) (i : Nat) : Option Json := (elements value)[i]?

/-! ## The loops -/

/-- A size_t that is stored in an int. -/
def toInt (n : Nat) : Int := (n : Int).bmod (2 ^ 32)

/-- `grandchild` with its keys. -/
structure Entry where
  mcc : Text
  mnc : Text
  value : Json

/-- An entry with what the inner loop gets from `json_array_get`. -/
structure Visit where
  entry : Entry
  got : List (Option Json)

/-- What the loops carry on: `size`, and the visits so far. `json_typeof` of NULL ends
the program. -/
structure Loop where
  size : Int
  visits : List Visit
  crashed : Bool

/-- Lines 59 to 64. The condition is about the assignment only, the loop is not part of
its block. -/
def visit (s : Loop) (entry : Entry) : Loop :=
  if s.crashed then s
  else
    let size := if jsonTypeof entry.value = 1 then toInt (jsonArraySize entry.value) else s.size
    let got := (List.range size.toNat).map (jsonArrayGet entry.value)
    ⟨size, s.visits ++ [⟨entry, got⟩], got.any Option.isNone⟩

/-- The lines that the inner loop prints, up to the first NULL. -/
def typeLines (got : List (Option Json)) : Text :=
  (got.takeWhile Option.isSome).flatMap fun element =>
    "->->->-> type=".toList ++ (element.map fun value => decimal (jsonTypeof value)).getD [] ++
      ['\n']

/-- The line of a value that is gone through. -/
def foreachLine (arrows : String) (value : Json) (key : String) (name : Text) : Text :=
  arrows.toList ++ "type=".toList ++ decimal (jsonTypeof value) ++ ", size=".toList ++
    decimalInt (toInt (jsonObjectSize value)) ++ ", ".toList ++ key.toList ++ '=' :: name ++ ['\n']

/-- The loops and what they have printed. -/
structure Scan where
  loop : Loop
  printed : Text

/-- The body of the second `json_object_foreach`. -/
def scanEntry (mcc : Text) (s : Scan) (member : Text × Json) : Scan :=
  if s.loop.crashed then s
  else
    let loop := visit s.loop ⟨mcc, member.1, member.2⟩
    let got := (loop.visits.getLast?.map Visit.got).getD []
    ⟨loop, s.printed ++ foreachLine "->->" member.2 "mnc" member.1 ++ "->->-> size=".toList ++
      decimalInt loop.size ++ '\n' :: typeLines got⟩

/-- The body of the first `json_object_foreach`. -/
def scanChild (s : Scan) (member : Text × Json) : Scan :=
  if s.loop.crashed then s
  else
    (members member.2).foldl (scanEntry member.1)
      { s with printed := s.printed ++ foreachLine "->" member.2 "mcc" member.1 }

/-- The loops of `main`. `uninitialized` is what `size` has before the first array. -/
def scan (root : Json) (uninitialized : Int) : Scan :=
  (members root).foldl scanChild
    ⟨⟨uninitialized, [], false⟩, "type=".toList ++ decimal (jsonTypeof root) ++ ", size=".toList ++
      decimalInt (toInt (jsonObjectSize root)) ++ ['\n']⟩

/-! ## Entry by entry -/

/-- The entries under the keys of a member of the root. -/
def childEntries (member : Text × Json) : List Entry :=
  (members member.2).map fun inner => ⟨member.1, inner.1, inner.2⟩

/-- All entries, in the order of the loops. -/
def entries (root : Json) : List Entry := (members root).flatMap childEntries

theorem visit_of_crashed {s : Loop} (crashed : s.crashed) (entry : Entry) : visit s entry = s :=
  if_pos crashed

theorem foldl_visit_of_crashed {s : Loop} (crashed : s.crashed) (entries : List Entry) :
    entries.foldl visit s = s := by
  induction entries with
  | nil => rfl
  | cons entry entries ih => rw [List.foldl_cons, visit_of_crashed crashed, ih]

theorem scanEntry_loop (mcc : Text) (s : Scan) (member : Text × Json) :
    (scanEntry mcc s member).loop = visit s.loop ⟨mcc, member.1, member.2⟩ := by
  unfold scanEntry
  split
  · rw [visit_of_crashed ‹_›]
  · rfl

theorem scanChild_loop (s : Scan) (member : Text × Json) :
    (scanChild s member).loop = (childEntries member).foldl visit s.loop := by
  have inner (list : List (Text × Json)) (s : Scan) :
      (list.foldl (scanEntry member.1) s).loop =
        (list.map fun inner => (⟨member.1, inner.1, inner.2⟩ : Entry)).foldl visit s.loop := by
    induction list generalizing s with
    | nil => rfl
    | cons first list ih => rw [List.foldl_cons, List.map_cons, List.foldl_cons, ih, scanEntry_loop]
  unfold scanChild
  split
  · rw [foldl_visit_of_crashed ‹_›]
  · exact inner _ _

/-- The two loops are one loop over the entries. -/
theorem scan_loop (root : Json) (uninitialized : Int) :
    (scan root uninitialized).loop = (entries root).foldl visit ⟨uninitialized, [], false⟩ := by
  have outer (list : List (Text × Json)) (s : Scan) :
      (list.foldl scanChild s).loop = (list.flatMap childEntries).foldl visit s.loop := by
    induction list generalizing s with
    | nil => rfl
    | cons first list ih =>
        rw [List.foldl_cons, List.flatMap_cons, List.foldl_append, ih, scanChild_loop]
  exact outer _ _

/-! ## Own elements -/

/-- A visit that gets the elements of its entry. -/
def own (entry : Entry) : Visit := ⟨entry, (elements entry.value).map some⟩

/-- The length of the last array so far. -/
def lastLength (length : Int) (entry : Entry) : Int :=
  if jsonTypeof entry.value = 1 then jsonArraySize entry.value else length

/-- An entry that the loop has the right bound for: an array whose length an int can hold,
or another value behind an array without elements. -/
def Bounded (entry : Entry) (length : Int) : Prop :=
  if jsonTypeof entry.value = 1 then length < 2 ^ 31 else length ≤ 0

theorem toInt_of_lt {n : Nat} (small : (n : Int) < 2 ^ 31) : toInt n = n := by
  unfold toInt
  rw [Int.bmod_def]
  omega

theorem toNat_toInt_ne {n : Nat} (large : ¬ (n : Int) < 2 ^ 31) : (toInt n).toNat ≠ n := by
  have below : toInt n < 2 ^ 31 := by
    unfold toInt
    rw [Int.bmod_def]
    omega
  omega

theorem elements_of_typeof_ne {value : Json} (other : jsonTypeof value ≠ 1) :
    elements value = [] := by
  cases value with
  | array => exact absurd rfl other
  | _ => rfl

/-- The loop gets the elements when its bound is their number. -/
theorem got_eq_iff {value : Json} {bound : Nat} :
    (List.range bound).map (jsonArrayGet value) = (elements value).map some ↔
      bound = jsonArraySize value := by
  constructor
  · intro same
    have lengths := congrArg List.length same
    rwa [List.length_map, List.length_range, List.length_map] at lengths
  · intro right
    subst right
    refine List.ext_getElem (by rw [List.length_map, List.length_range, List.length_map]; rfl) ?_
    intro i inside _
    rw [List.length_map, List.length_range] at inside
    rw [List.getElem_map, List.getElem_range, List.getElem_map]
    exact List.getElem?_eq_getElem inside

/-- The bound of the loop is right at a bounded entry and at no other. -/
theorem bounded_iff {entry : Entry} {size : Int} :
    Bounded entry (lastLength size entry) ↔
      (if jsonTypeof entry.value = 1 then toInt (jsonArraySize entry.value) else size).toNat =
        jsonArraySize entry.value := by
  unfold Bounded lastLength
  split
  · constructor
    · intro small
      rw [toInt_of_lt small, Int.toNat_natCast]
    · exact fun same => of_not_not fun large => toNat_toInt_ne large same
  · rw [jsonArraySize, elements_of_typeof_ne ‹_›, List.length_nil, Int.toNat_eq_zero]

theorem visit_of_bounded {s : Loop} {entry : Entry} (running : s.crashed = false)
    (bounded : Bounded entry (lastLength s.size entry)) :
    visit s entry = ⟨lastLength s.size entry, s.visits ++ [own entry], false⟩ := by
  have right := bounded_iff.mp bounded
  have size : (if jsonTypeof entry.value = 1 then toInt (jsonArraySize entry.value) else s.size) =
      lastLength s.size entry := by
    unfold Bounded at bounded
    unfold lastLength at bounded ⊢
    split at bounded
    · rw [if_pos ‹_›, if_pos ‹_›, toInt_of_lt bounded]
    · rw [if_neg ‹_›, if_neg ‹_›]
  have some_get : ((elements entry.value).map some).any Option.isNone = Bool.false := by
    rw [List.any_eq_false]
    intro element mem
    obtain ⟨value, -, rfl⟩ := List.mem_map.mp mem
    exact Bool.false_ne_true
  unfold visit
  rw [if_neg (by rw [running]; exact Bool.false_ne_true)]
  dsimp only
  rw [got_eq_iff.mpr right, some_get, size]
  rfl

theorem visit_of_not_bounded {s : Loop} {entry : Entry} (running : s.crashed = false)
    (wrong : ¬ Bounded entry (lastLength s.size entry)) :
    ∃ v, v ≠ own entry ∧ (visit s entry).visits = s.visits ++ [v] := by
  unfold visit
  rw [if_neg (by rw [running]; exact Bool.false_ne_true)]
  refine ⟨_, fun same => wrong ?_, rfl⟩
  exact bounded_iff.mpr (got_eq_iff.mp (congrArg Visit.got same))

/-- The visits so far stay. -/
theorem visits_prefix (s : Loop) (entries : List Entry) :
    s.visits <+: (entries.foldl visit s).visits := by
  induction entries generalizing s with
  | nil => exact List.prefix_rfl
  | cons entry entries ih =>
      refine List.IsPrefix.trans ?_ (ih (visit s entry))
      unfold visit
      split
      · exact List.prefix_rfl
      · exact List.prefix_append _ _

/-- The loop over the entries. -/
theorem foldl_visit_iff {s : Loop} (running : s.crashed = false) (entries : List Entry) :
    ((entries.foldl visit s).crashed = false ∧
      (entries.foldl visit s).visits = s.visits ++ entries.map own) ↔
      After lastLength s.size entries Bounded := by
  induction entries generalizing s with
  | nil => exact iff_of_true ⟨running, (List.append_nil _).symm⟩ (after_nil _)
  | cons entry entries ih =>
      rw [after_cons, List.foldl_cons, List.map_cons]
      by_cases bounded : Bounded entry (lastLength s.size entry)
      · have rest := ih (s := ⟨lastLength s.size entry, s.visits ++ [own entry], false⟩) rfl
        rw [List.append_assoc] at rest
        rw [visit_of_bounded running bounded, and_iff_right bounded]
        exact rest
      · refine iff_of_false (fun both => ?_) fun both => bounded both.1
        obtain ⟨v, other, visits⟩ := visit_of_not_bounded running bounded
        have front := visits_prefix (visit s entry) entries
        rw [visits, both.2] at front
        exact other (List.cons_prefix_cons.mp ((List.prefix_append_right_inj _).mp front)).1

/-- Every entry is asked for exactly its own elements, and `json_typeof` never for the
type of NULL, exactly when every array is shorter than 2^31 and every other value stands
behind an array without elements, or first with no positive number in `size`. -/
theorem scan_iff (root : Json) (uninitialized : Int) :
    ((scan root uninitialized).loop.crashed = false ∧
      (scan root uninitialized).loop.visits = (entries root).map own) ↔
      After lastLength uninitialized (entries root) Bounded := by
  rw [scan_loop]
  exact foldl_visit_iff rfl _

/-- An array of two numbers and a string behind it. -/
def twoAndText : Json :=
  .object [("450".toList, .object [("05".toList, .array [.integer 1, .integer 2]),
    ("08".toList, .string "none".toList)])]

/-- The string is asked for an element. -/
theorem scan_fail :
    ¬ ∀ root uninitialized, (scan root uninitialized).loop.crashed = false ∧
      (scan root uninitialized).loop.visits = (entries root).map own := by
  intro all
  have crashed : (scan twoAndText 0).loop.crashed = Bool.true := by decide
  rw [(all twoAndText 0).1] at crashed
  cases crashed

end Jansson

end StudyLinux
