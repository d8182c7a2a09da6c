import Mathlib.Algebra.BigOperators.Intervals
import Mathlib.Data.List.ReduceOption

/-!
# Rows of slots

A slot is empty or has an item. Rows grow by empty slots, each row by an amount of its
own and wherever the slots are put: the items and their order stay (`Grows`). What is
made of several growths is a growth by the sum of their amounts.
-/

namespace StudyLinux

section Slots

variable {α β : Type}

/-- Insertion in front of an index, at the end when the row is not that long. -/
def insertSlot (row : List α) (i : Nat) (a : α) : List α := row.take i ++ a :: row.drop i

theorem insertSlot_append (front row : List α) (i : Nat) (a : α) :
    insertSlot (front ++ row) (front.length + i) a = front ++ insertSlot row i a := by
  rw [insertSlot, List.take_length_add_append, List.drop_length_add_append, insertSlot,
    List.append_assoc]

theorem insertSlot_length (row rest : List α) (a : α) :
    insertSlot (row ++ rest) row.length a = row ++ a :: rest := by
  rw [insertSlot, List.take_left, List.drop_left]

theorem length_insertSlot (row : List α) (i : Nat) (a : α) :
    (insertSlot row i a).length = row.length + 1 := by
  rw [insertSlot, List.length_append, List.length_cons, ← Nat.add_assoc, ← List.length_append,
    List.take_append_drop]

theorem reduceOption_insertSlot (row : List (Option α)) (i : Nat) :
    (insertSlot row i none).reduceOption = row.reduceOption := by
  rw [insertSlot, List.reduceOption_append, List.reduceOption_cons_of_none,
    ← List.reduceOption_append, List.take_append_drop]

/-- Row by row, the items stay and the number of slots grows by the amount. -/
structure Grows (amount : Nat → Nat) (before after : List (List (Option α))) : Prop where
  rows : after.length = before.length
  row : ∀ {k : Nat} {row : List (Option α)}, before[k]? = some row →
    ∃ grown, after[k]? = some grown ∧ grown.length = row.length + amount k ∧
      grown.reduceOption = row.reduceOption

variable {amount more : Nat → Nat} {rows before between after : List (List (Option α))}

theorem Grows.refl : Grows (fun _ => 0) rows rows := ⟨rfl, fun at_k => ⟨_, at_k, rfl, rfl⟩⟩

theorem Grows.trans (first : Grows amount before between) (second : Grows more between after) :
    Grows (fun k => amount k + more k) before after := by
  refine ⟨second.rows.trans first.rows, fun {k row} at_k => ?_⟩
  obtain ⟨grown, at_k, slots, items⟩ := first.row at_k
  obtain ⟨grown', at_k, slots', items'⟩ := second.row at_k
  exact ⟨grown', at_k, by rw [slots', slots, Nat.add_assoc], items'.trans items⟩

theorem Grows.congr (grows : Grows amount before after) (same : ∀ k, amount k = more k) :
    Grows more before after := funext same ▸ grows

/-- The items of a row, by its number. -/
theorem Grows.items (grows : Grows amount before after) (k : Nat) :
    (after.getD k []).reduceOption = (before.getD k []).reduceOption := by
  rw [List.getD_eq_getElem?_getD, List.getD_eq_getElem?_getD]
  cases at_k : before[k]? with
  | some row =>
      obtain ⟨grown, at_k, -, items⟩ := grows.row at_k
      rw [at_k]
      exact items
  | none =>
      have past : after[k]? = none := by
        rw [List.getElem?_eq_none_iff, grows.rows]
        exact List.getElem?_eq_none_iff.mp at_k
      rw [past]

/-- One empty slot in one row, or in none. -/
theorem grows_modify (rows : List (List (Option α))) (i x : Nat) :
    Grows (fun k => if k = i then 1 else 0) rows
      (rows.modify i fun row => insertSlot row x none) := by
  refine ⟨List.length_modify .., fun {k row} at_k => ?_⟩
  rw [List.getElem?_modify, at_k, Option.map_eq_map, Option.map_some]
  refine ⟨_, rfl, ?_⟩
  rcases eq_or_ne i k with rfl | other
  · rw [if_pos rfl, if_pos rfl]
    exact ⟨length_insertSlot .., reduceOption_insertSlot ..⟩
  · rw [if_neg other, if_neg other.symm]
    exact ⟨rfl, rfl⟩

/-- One growth for each item of a list. -/
theorem grows_foldl {grow : List (List (Option α)) → β → List (List (Option α))}
    {amount : β → Nat → Nat} (step : ∀ b rows, Grows (amount b) rows (grow rows b))
    (items : List β) (rows : List (List (Option α))) :
    Grows (fun k => (items.map (amount · k)).sum) rows (items.foldl grow rows) := by
  induction items generalizing rows with
  | nil => exact .refl
  | cons b items ih =>
      refine ((step b rows).trans (ih (grow rows b))).congr fun k => ?_
      rw [List.map_cons, List.sum_cons]

/-- The same growth several times. -/
theorem grows_foldl_range {grow : List (List (Option α)) → Nat → List (List (Option α))}
    (step : ∀ c rows, Grows amount rows (grow rows c)) (n : Nat)
    (rows : List (List (Option α))) :
    Grows (fun k => n * amount k) rows ((List.range n).foldl grow rows) := by
  refine (grows_foldl step (List.range n) rows).congr fun k => ?_
  rw [List.map_const', List.sum_replicate, List.length_range, Nat.nsmul_eq_mul]

/-- What leaves a row alone leaves it alone each time. -/
theorem getElem?_foldl {grow : List (List (Option α)) → β → List (List (Option α))} {y : Nat}
    (step : ∀ rows b, (grow rows b)[y]? = rows[y]?) (items : List β)
    (rows : List (List (Option α))) : (items.foldl grow rows)[y]? = rows[y]? := by
  induction items generalizing rows with
  | nil => rfl
  | cons b items ih => exact (ih (grow rows b)).trans (step rows b)

/-- What makes all rows makes each of them. -/
theorem getElem?_of_mapM {γ δ : Type} {make : γ → Option δ} {rows : List γ} {made : List δ}
    (all : rows.mapM make = some made) :
    made.length = rows.length ∧ ∀ k : Nat, (rows[k]?).bind make = made[k]? := by
  induction rows generalizing made with
  | nil =>
      cases all
      exact ⟨rfl, fun k => rfl⟩
  | cons row rows ih =>
      rw [List.mapM_cons] at all
      obtain ⟨first, made_first, all⟩ := Option.bind_eq_some_iff.mp all
      obtain ⟨rest, made_rest, all⟩ := Option.bind_eq_some_iff.mp all
      cases all
      obtain ⟨length, each⟩ := ih made_rest
      refine ⟨congrArg (· + 1) length, fun k => ?_⟩
      cases k with
      | zero => exact made_first
      | succ k => exact each k

/-- Several empty slots behind the front of a row. -/
theorem getElem?_foldl_insertSlot {rows : List (List (Option α))} {y : Nat}
    {front rest : List (Option α)} (here : rows[y]? = some (front ++ rest)) (n : Nat) :
    ((List.range n).foldl
        (fun rows c => rows.modify y fun row => insertSlot row (front.length + c) none) rows)[y]? =
      some (front ++ (List.replicate n none ++ rest)) := by
  induction n with
  | zero => exact here
  | succ n ih =>
      rw [List.range_succ, List.foldl_append, List.foldl_cons, List.foldl_nil,
        List.getElem?_modify, ih, Option.map_eq_map, Option.map_some, if_pos rfl,
        insertSlot_append]
      have behind := insertSlot_length (List.replicate n none) rest (none : Option α)
      rw [List.length_replicate] at behind
      rw [behind, List.replicate_succ', List.append_assoc]
      rfl

end Slots

end StudyLinux
