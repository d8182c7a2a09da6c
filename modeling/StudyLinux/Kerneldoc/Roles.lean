import Mathlib.Data.List.Chain
import StudyLinux.Kerneldoc.FlatTable

/-!
# Taking the roles out of a cell

The loop of `parseCellItem` removes from the list that it walks through, so that it does
not see what follows a role. All roles are taken out exactly when no two of them are
neighbours (`roles_removed_iff`).
-/

namespace StudyLinux.FlatTable

variable {κ : Type}

/-- The spans after a role. -/
def Inline.sets : Inline κ → Int × Int → Option (Int × Int)
  | .colSpan span, (_, rspan) => some (span, rspan)
  | .rowSpan span, (cspan, _) => some (cspan, span)
  | .other _, _ => none

theorem Inline.sets_eq_none {node : Inline κ} {spans : Int × Int} :
    node.sets spans = none ↔ node.isSpan = false := by
  cases node with
  | colSpan => exact ⟨nofun, nofun⟩
  | rowSpan => exact ⟨nofun, nofun⟩
  | other => exact ⟨fun _ => rfl, fun _ => rfl⟩

/-- The loop, from a place of the list on. What follows a role is not seen. -/
def walk : Bool → List (Inline κ) → Int × Int → List (Inline κ) × (Int × Int)
  | _, [], spans => ([], spans)
  | true, node :: rest, spans => ((walk false rest spans).map (node :: ·) id)
  | false, node :: rest, spans =>
      match node.sets spans with
      | none => (walk false rest spans).map (node :: ·) id
      | some spans => walk true rest spans

theorem removeSpan_at (done rest : List (Inline κ)) (node : Inline κ) (spans : Int × Int) :
    removeSpan ⟨done ++ node :: rest, spans.1, spans.2⟩ done.length =
      match node.sets spans with
      | none => ⟨done ++ node :: rest, spans.1, spans.2⟩
      | some spans => ⟨done ++ rest, spans.1, spans.2⟩ := by
  have here : (done ++ node :: rest)[done.length]? = some node := by
    rw [List.getElem?_append_right (Nat.le_refl _), Nat.sub_self, List.getElem?_cons_zero]
  have out : (done ++ node :: rest).eraseIdx done.length = done ++ rest := by
    rw [List.eraseIdx_append_of_length_le (Nat.le_refl _), Nat.sub_self, List.eraseIdx_cons_zero]
  unfold removeSpan
  dsimp only
  rw [here, ← out]
  cases node with
  | colSpan => rfl
  | rowSpan => rfl
  | other => rfl

theorem foldl_removeSpan_past {done : List (Inline κ)} {start : Nat} (past : done.length ≤ start)
    (n : Nat) (spans : Int × Int) :
    (List.range' start n).foldl removeSpan ⟨done, spans.1, spans.2⟩ =
      ⟨done, spans.1, spans.2⟩ := by
  induction n generalizing start with
  | zero => rfl
  | succ n ih =>
      rw [List.range'_succ, List.foldl_cons, removeSpan, List.getElem?_eq_none past]
      exact ih (Nat.le_succ_of_le past)

theorem foldl_removeSpan (todo done : List (Inline κ)) (skip : Bool) (spans : Int × Int) {n : Nat}
    (enough : todo.length ≤ n + skip.toNat) :
    (List.range' (done.length + skip.toNat) n).foldl removeSpan
        ⟨done ++ todo, spans.1, spans.2⟩ =
      ⟨done ++ (walk skip todo spans).1, (walk skip todo spans).2.1,
        (walk skip todo spans).2.2⟩ := by
  induction todo generalizing done skip spans n with
  | nil =>
      rw [List.append_nil, foldl_removeSpan_past (Nat.le_add_right ..) n spans, walk,
        List.append_nil]
  | cons node rest ih =>
      have front (rest : List (Inline κ)) : done ++ node :: rest = (done ++ [node]) ++ rest := by
        rw [List.append_assoc, List.singleton_append]
      have next : done.length + 1 = (done ++ [node]).length + false.toNat := by
        rw [List.length_append, List.length_singleton]
        rfl
      rw [List.length_cons] at enough
      cases skip with
      | true =>
          rw [front, Bool.toNat_true, next, ih _ false spans (Nat.le_of_succ_le_succ enough), walk,
            List.append_assoc, List.singleton_append]
          rfl
      | false =>
          cases n with
          | zero => cases enough
          | succ n =>
              rw [Bool.toNat_false, Nat.add_zero, List.range'_succ, List.foldl_cons,
                removeSpan_at, walk]
              cases node.sets spans with
              | none =>
                  dsimp only
                  rw [front, next, ih _ false spans (Nat.le_of_succ_le_succ enough),
                    List.append_assoc, List.singleton_append]
                  rfl
              | some spans =>
                  have fewer : rest.length ≤ n + true.toNat :=
                    Nat.le_trans (Nat.le_of_succ_le_succ enough) (Nat.le_add_right ..)
                  exact ih done true spans fewer

theorem removeSpans_eq_walk (children : List (Inline κ)) :
    removeSpans children =
      ⟨(walk false children (0, 0)).1, (walk false children (0, 0)).2.1,
        (walk false children (0, 0)).2.2⟩ := by
  rw [removeSpans, List.range_eq_range']
  exact foldl_removeSpan children [] false (0, 0) (Nat.le_refl _)

/-- The text of a block, in its order. -/
def texts (nodes : List (Inline κ)) : List (Inline κ) := nodes.filter (!·.isSpan)

theorem texts_cons (node : Inline κ) (rest : List (Inline κ)) :
    texts (node :: rest) = if node.isSpan then texts rest else node :: texts rest := by
  unfold texts
  rw [List.filter_cons]
  cases node.isSpan <;> rfl

/-- The spans that the last role of each kind asks for. -/
def lastSpans (nodes : List (Inline κ)) (spans : Int × Int) : Int × Int :=
  nodes.foldl (fun spans node => (node.sets spans).getD spans) spans

/-- No two roles are neighbours. -/
def Apart (nodes : List (Inline κ)) : Prop :=
  nodes.IsChain fun a b => ¬(a.isSpan = true ∧ b.isSpan = true)

theorem apart_cons {node : Inline κ} {rest : List (Inline κ)} :
    Apart (node :: rest) ↔
      (node.isSpan = true → ∀ next ∈ rest.head?, next.isSpan = false) ∧ Apart rest := by
  unfold Apart
  rw [List.isChain_cons]
  refine and_congr_left fun _ => ?_
  constructor
  · intro apart role next member
    exact Bool.eq_false_iff.mpr fun again => apart next member ⟨role, again⟩
  · rintro apart next member ⟨role, again⟩
    exact Bool.false_ne_true ((apart role next member).symm.trans again)

theorem isSpan_of_sets {node : Inline κ} {spans spans' : Int × Int}
    (sets : node.sets spans = some spans') : node.isSpan = true := by
  cases role : node.isSpan with
  | true => rfl
  | false =>
      rw [Inline.sets_eq_none.mpr role] at sets
      cases sets

/-- Text is not lost. -/
theorem texts_walk (skip : Bool) (nodes : List (Inline κ)) (spans : Int × Int) :
    texts (walk skip nodes spans).1 = texts nodes := by
  induction nodes generalizing skip spans with
  | nil => rfl
  | cons node rest ih =>
      cases skip with
      | true =>
          rw [walk, Prod.map_fst, texts_cons, texts_cons, ih]
      | false =>
          rw [walk]
          cases sets : node.sets spans with
          | none =>
              dsimp only
              rw [Prod.map_fst, texts_cons, texts_cons, ih]
          | some spans' =>
              dsimp only
              rw [ih, texts_cons, if_pos (isSpan_of_sets sets)]

theorem apart_of_text {node : Inline κ} (text : node.isSpan = false) (rest : List (Inline κ)) :
    Apart (node :: rest) ↔ Apart rest := by
  rw [apart_cons, text]
  exact and_iff_right nofun

/-- The loop leaves text only exactly when no two roles are neighbours. -/
theorem walk_clean_iff (skip : Bool) (nodes : List (Inline κ)) (spans : Int × Int) :
    (∀ node ∈ (walk skip nodes spans).1, node.isSpan = false) ↔
      (skip = true → ∀ next ∈ nodes.head?, next.isSpan = false) ∧ Apart nodes := by
  induction nodes generalizing skip spans with
  | nil => exact ⟨fun _ => ⟨nofun, .nil⟩, nofun⟩
  | cons node rest ih =>
      cases skip with
      | true =>
          rw [walk, Prod.map_fst, List.forall_mem_cons, ih]
          constructor
          · rintro ⟨text, -, apart⟩
            exact ⟨fun _ next member => Option.some.inj member ▸ text,
              (apart_of_text text rest).mpr apart⟩
          · rintro ⟨head, apart⟩
            have text := head rfl node rfl
            exact ⟨text, nofun, (apart_of_text text rest).mp apart⟩
      | false =>
          rw [walk]
          cases sets : node.sets spans with
          | none =>
              have text := Inline.sets_eq_none.mp sets
              dsimp only
              rw [Prod.map_fst, List.forall_mem_cons, ih, apart_of_text text]
              exact ⟨fun ⟨_, _, apart⟩ => ⟨nofun, apart⟩, fun ⟨_, apart⟩ => ⟨text, nofun, apart⟩⟩
          | some spans' =>
              have role := isSpan_of_sets sets
              dsimp only
              rw [ih, apart_cons]
              exact ⟨fun ⟨head, apart⟩ => ⟨nofun, fun _ => head rfl, apart⟩,
                fun ⟨_, head, apart⟩ => ⟨fun _ => head role, apart⟩⟩

/-- And what it leaves then. -/
theorem walk_of_apart {skip : Bool} {nodes : List (Inline κ)} (spans : Int × Int)
    (seen : skip = true → ∀ next ∈ nodes.head?, next.isSpan = false) (apart : Apart nodes) :
    walk skip nodes spans = (texts nodes, lastSpans nodes spans) := by
  induction nodes generalizing skip spans with
  | nil => rfl
  | cons node rest ih =>
      obtain ⟨head, later⟩ := apart_cons.mp apart
      have all : walk false rest spans = (texts rest, lastSpans rest spans) :=
        ih spans Bool.noConfusion later
      have unset (text : node.isSpan = false) :
          lastSpans (node :: rest) spans = lastSpans rest spans := by
        rw [lastSpans, List.foldl_cons, Inline.sets_eq_none.mpr text]
        rfl
      cases skip with
      | true =>
          have text := seen rfl node rfl
          rw [walk, all, texts_cons, text, unset text]
          rfl
      | false =>
          rw [walk, texts_cons]
          cases sets : node.sets spans with
          | none =>
              have text := Inline.sets_eq_none.mp sets
              dsimp only
              rw [all, text, unset text]
              rfl
          | some spans' =>
              have role := isSpan_of_sets sets
              dsimp only
              rw [ih spans' (fun _ => head role) later, if_pos role, lastSpans, lastSpans,
                List.foldl_cons, sets]
              rfl

/-- A cell keeps its text. It has the spans of its last roles and no role is left in the
text exactly when no two roles are neighbours. -/
theorem parseCellItem_iff (first : Block κ) (rest : List (Block κ)) :
    (∃ children, (parseCellItem (first :: rest)).elements =
        { first with children := children } :: rest ∧ texts children = texts first.children) ∧
      (parseCellItem (first :: rest) =
          ⟨(lastSpans first.children (0, 0)).1, (lastSpans first.children (0, 0)).2,
            { first with children := texts first.children } :: rest⟩ ↔
        Apart first.children) := by
  unfold parseCellItem
  dsimp only
  rw [removeSpans_eq_walk]
  refine ⟨⟨_, rfl, texts_walk false first.children (0, 0)⟩, ?_⟩
  constructor
  · intro same
    have children : (walk false first.children (0, 0)).1 = texts first.children :=
      congrArg Block.children (List.cons.inj (congrArg Cell.elements same)).1
    refine ((walk_clean_iff false first.children (0, 0)).mp fun node left => ?_).2
    rw [children, texts, List.mem_filter, Bool.not_eq_true'] at left
    exact left.2
  · intro apart
    rw [walk_of_apart (0, 0) Bool.noConfusion apart]

end StudyLinux.FlatTable
