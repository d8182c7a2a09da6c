import Mathlib.Data.List.Dedup
import Mathlib.Data.List.Induction
import StudyLinux.Store.Dir

/-!
# Accounts by key

A directory of accounts. A touch is at one key, where it opens the account if need be, or
at every account that is open. The account of a key is what the touches of that key make
of it, in their order (`get_touches`).
-/

namespace StudyLinux

section Accounts

variable {κ α β : Type} [LinearOrder κ]

/-- The same keys, with something made of each account. -/
def Dir.mapValues {γ : Type} (d : Dir κ α) (f : α → γ) : Dir κ γ where
  entries := d.entries.map fun entry => (entry.1, f entry.2)
  sorted := List.pairwise_map.mpr d.sorted

@[simp] theorem Dir.get_mapValues {γ : Type} (d : Dir κ α) (f : α → γ) (k : κ) :
    (d.mapValues f).get k = (d.get k).map f := by
  obtain ⟨entries, sorted⟩ := d
  change (entries.map fun entry => (entry.1, f entry.2)).lookup k = (entries.lookup k).map f
  clear sorted
  induction entries with
  | nil => rfl
  | cons entry entries ih =>
      rw [List.map_cons, List.lookup_cons, List.lookup_cons, ih]
      cases k == entry.1 <;> rfl

@[simp] theorem Dir.names_mapValues {γ : Type} (d : Dir κ α) (f : α → γ) :
    (d.mapValues f).names = d.names := by
  unfold Dir.names Dir.mapValues
  rw [List.map_map]
  rfl

theorem Dir.mapValues_put {γ : Type} (d : Dir κ α) (f : α → γ) (k : κ) (v : α) :
    (d.put k v).mapValues f = (d.mapValues f).put k (f v) := by
  refine Dir.ext_get fun other => ?_
  rw [Dir.get_mapValues]
  by_cases own : other = k
  · rw [own, Dir.get_put_self, Dir.get_put_self, Option.map_some]
  · rw [Dir.get_put_of_ne _ _ own, Dir.get_put_of_ne _ _ own, Dir.get_mapValues]

/-- Something made of some of the accounts, under the same keys. -/
def Dir.filterMapValues {γ : Type} (d : Dir κ α) (f : κ → α → Option γ) : Dir κ γ where
  entries := d.entries.filterMap fun entry => (f entry.1 entry.2).map fun v => (entry.1, v)
  sorted := by
    refine List.pairwise_filterMap.mpr (d.sorted.imp fun {a b} below a' fromA b' fromB => ?_)
    obtain ⟨v, -, rfl⟩ := Option.map_eq_some_iff.mp fromA
    obtain ⟨w, -, rfl⟩ := Option.map_eq_some_iff.mp fromB
    exact below

theorem Dir.get_filterMapValues {γ : Type} (d : Dir κ α) (f : κ → α → Option γ) (k : κ) :
    (d.filterMapValues f).get k = (d.get k).bind (f k) := by
  refine Option.ext fun v => ?_
  rw [Dir.get_eq_some_iff, Option.bind_eq_some_iff]
  constructor
  · intro member
    obtain ⟨⟨key, old⟩, inDir, made⟩ := List.mem_filterMap.mp member
    obtain ⟨w, value, same⟩ := Option.map_eq_some_iff.mp made
    obtain ⟨rfl, rfl⟩ := Prod.mk.inj same
    exact ⟨old, (Dir.get_eq_some_iff d).mpr inDir, value⟩
  · rintro ⟨old, stored, value⟩
    refine List.mem_filterMap.mpr ⟨(k, old), (Dir.get_eq_some_iff d).mp stored, ?_⟩
    exact Option.map_eq_some_iff.mpr ⟨v, value, rfl⟩

/-- A touch of one account, or of all. -/
inductive Touch (κ β : Type) where
  | one (k : κ) (b : β)
  | all

variable (step : Option α → β → α) (sweep : α → α)

def touch (d : Dir κ α) : Touch κ β → Dir κ α
  | .one k b => d.put k (step (d.get k) b)
  | .all => d.mapValues sweep

def touches (d : Dir κ α) (list : List (Touch κ β)) : Dir κ α := list.foldl (touch step sweep) d

theorem touches_append (d : Dir κ α) (list later : List (Touch κ β)) :
    touches step sweep d (list ++ later) =
      touches step sweep (touches step sweep d list) later := List.foldl_append

/-- The touches that reach a key, those of all accounts as `none`. -/
def reaching (k : κ) (list : List (Touch κ β)) : List (Option β) :=
  list.filterMap fun
    | .one k' b => if k' = k then some (some b) else none
    | .all => some none

theorem reaching_cons_one (k k' : κ) (b : β) (list : List (Touch κ β)) :
    reaching k (.one k' b :: list) =
      if k' = k then some b :: reaching k list else reaching k list := by
  rcases eq_or_ne k' k with rfl | other
  · rw [if_pos rfl]
    exact List.filterMap_cons_some (if_pos rfl)
  · rw [if_neg other]
    exact List.filterMap_cons_none (if_neg other)

/-- The touches of single keys that reach one. -/
theorem reaching_map_one {γ : Type} (key : γ → κ) (value : γ → β) {k : κ} {p : γ → Bool}
    (own : ∀ item, p item ↔ key item = k) (items : List γ) :
    reaching k (items.map fun item => Touch.one (key item) (value item)) =
      (items.filter p).map fun item => some (value item) := by
  induction items with
  | nil => rfl
  | cons item items ih =>
      rw [List.map_cons, reaching_cons_one, ih, List.filter_cons]
      by_cases here : key item = k
      · rw [if_pos here, if_pos ((own item).mpr here), List.map_cons]
      · rw [if_neg here, if_neg (mt (own item).mp here)]

theorem some_mem_reaching {k : κ} {b : β} {list : List (Touch κ β)} :
    some b ∈ reaching k list ↔ Touch.one k b ∈ list := by
  rw [reaching, List.mem_filterMap]
  constructor
  · rintro ⟨t, member, reached⟩
    cases t with
    | one k' b' =>
        dsimp only at reached
        split at reached
        · cases reached
          subst k'
          exact member
        · cases reached
    | all => cases reached
  · intro member
    exact ⟨_, member, if_pos rfl⟩

/-- What they make of an account. -/
def stepOwn (account : Option α) : Option β → Option α
  | some b => some (step account b)
  | none => account.map sweep

theorem get_touch (d : Dir κ α) (t : Touch κ β) (k : κ) :
    (touch step sweep d t).get k = (reaching k [t]).foldl (stepOwn step sweep) (d.get k) := by
  cases t with
  | one k' b =>
      rw [touch, reaching, List.filterMap_cons]
      dsimp only
      rcases eq_or_ne k' k with rfl | other
      · rw [if_pos rfl, Dir.get_put_self]
        rfl
      · rw [if_neg other, Dir.get_put_of_ne d _ other.symm]
        rfl
  | all => exact Dir.get_mapValues d sweep k

/-- The account of a key after all touches. -/
theorem get_touches (d : Dir κ α) (list : List (Touch κ β)) (k : κ) :
    (touches step sweep d list).get k =
      (reaching k list).foldl (stepOwn step sweep) (d.get k) := by
  induction list generalizing d with
  | nil => rfl
  | cons t list ih =>
      have first : reaching k (t :: list) = reaching k [t] ++ reaching k list :=
        List.filterMap_append (l := [t])
      rw [touches, List.foldl_cons, ← touches, ih, get_touch, first, List.foldl_append]

/-! ## Touches of single keys -/

section Ones

variable {step sweep} {γ : Type} [DecidableEq κ] (key : γ → κ) (value : γ → β) {init : α}

/-- What the items of a key make of an account that is opened with `init`. -/
def accountOf (step : Option α → β → α) (init : α) (items : List γ) (k : κ) : α :=
  ((items.filter fun item => key item = k).map value).foldl (fun account b => step (some account) b)
    init

theorem get_touches_ones (opens : ∀ b, step none b = step (some init) b) (items : List γ) (k : κ) :
    (touches step sweep .empty (items.map fun item => .one (key item) (value item))).get k =
      if k ∈ items.map key then some (accountOf key value step init items k) else none := by
  rw [get_touches, reaching_map_one key value (fun _ => decide_eq_true_iff)]
  have seen : k ∈ items.map key ↔ (items.filter fun item => key item = k) ≠ [] := by
    rw [List.mem_map, ne_eq, List.filter_eq_nil_iff]
    simp
  simp only [seen, accountOf]
  induction items.filter fun item => key item = k using List.reverseRecOn with
  | nil => rfl
  | append_singleton own item ih =>
      rw [if_pos (List.concat_ne_nil item own), List.map_append, List.map_append, List.foldl_append,
        List.foldl_append, ih]
      split
      · rfl
      · rename_i first
        rw [not_ne_iff] at first
        subst first
        exact congrArg some (opens _)

/-- The accounts, but for their order. -/
theorem perm_entries_touches (opens : ∀ b, step none b = step (some init) b) (items : List γ) :
    (touches step sweep .empty
        (items.map fun item => Touch.one (key item) (value item))).entries.Perm
      ((items.map key).dedup.map fun k => (k, accountOf key value step init items k)) := by
  let d := touches step sweep .empty (items.map fun item => Touch.one (key item) (value item))
  have distinct : d.entries.Nodup := List.Nodup.of_map Prod.fst d.nodup_names
  have listed : ((items.map key).dedup.map fun k =>
      (k, accountOf key value step init items k)).Nodup :=
    List.Nodup.map (fun _ _ same => (Prod.mk.inj same).1) (List.nodup_dedup _)
  refine (List.perm_ext_iff_of_nodup distinct listed).mpr fun entry => ?_
  obtain ⟨k, account⟩ := entry
  rw [← Dir.get_eq_some_iff, get_touches_ones key value opens]
  constructor
  · intro stored
    split at stored
    · rename_i seen
      cases stored
      exact List.mem_map.mpr ⟨k, List.mem_dedup.mpr seen, rfl⟩
    · cases stored
  · intro member
    obtain ⟨_, seen, same⟩ := List.mem_map.mp member
    cases same
    rw [if_pos (List.mem_dedup.mp seen)]

end Ones

end Accounts

end StudyLinux
