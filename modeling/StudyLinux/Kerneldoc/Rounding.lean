import Mathlib.Algebra.BigOperators.Intervals
import Mathlib.Algebra.Order.BigOperators.Group.Finset
import StudyLinux.Kerneldoc.FlatTable

/-!
# Which tables are rectangular

A cell takes columns in its own row and in the rows that it spans. The loop makes room
for exactly these (`length_spanRows`), so that a row lacks what the widest row has more.
-/

namespace StudyLinux.FlatTable

open Finset (range)

variable {κ : Type} {rows : List (Row κ)} {y : Nat}

/-! ## Making room -/

/-- The columns of row `k` that a cell of row `y` takes. -/
def Cell.takes (cell : Cell κ) (y k : Nat) : Nat :=
  if k = y then 1 + cell.cspan.toNat
  else if y < k ∧ k ≤ y + cell.rspan.toNat then (cell.cspan + 1).toNat
  else 0

/-- Without the one that it stands in. -/
def Cell.reserves (cell : Cell κ) (y k : Nat) : Nat :=
  if k = y then cell.cspan.toNat
  else if y < k ∧ k ≤ y + cell.rspan.toNat then (cell.cspan + 1).toNat
  else 0

theorem Cell.takes_eq (cell : Cell κ) (y k : Nat) :
    cell.takes y k = cell.reserves y k + if k = y then 1 else 0 := by
  unfold takes reserves
  split
  · exact Nat.add_comm ..
  · rfl

theorem sum_takes (cells : List (Cell κ)) (y k : Nat) :
    (cells.map (·.takes y k)).sum =
      (cells.map (·.reserves y k)).sum + if k = y then cells.length else 0 := by
  simp only [Cell.takes_eq, List.sum_map_add]
  rw [List.map_const', List.sum_replicate, Nat.nsmul_eq_mul, mul_ite, Nat.mul_one, Nat.mul_zero]

theorem sum_below (n m y k : Nat) :
    ((List.range n).map fun r => m * if k = y + r + 1 then 1 else 0).sum =
      if y < k ∧ k ≤ y + n then m else 0 := by
  induction n with
  | zero =>
      rw [if_neg (by omega)]
      rfl
  | succ n ih =>
      rw [List.range_succ, List.map_append, List.sum_append, ih, List.map_singleton,
        List.sum_singleton]
      rcases Nat.lt_trichotomy k (y + n + 1) with below | rfl | above
      · rw [if_neg (by omega : k ≠ y + n + 1), Nat.mul_zero, Nat.add_zero]
        exact if_congr (by omega) rfl rfl
      · rw [if_pos rfl, if_neg (by omega), if_pos (by omega), Nat.mul_one, Nat.zero_add]
      · rw [if_neg (by omega : k ≠ y + n + 1), if_neg (by omega), if_neg (by omega),
          Nat.mul_zero]

/-- A cell makes room for what it takes. -/
theorem grows_spanCell (rows : List (Row κ)) (y x : Nat) (cell : Cell κ) :
    Grows (cell.reserves y) rows (spanCell rows y x cell) := by
  have own := grows_foldl_range
    (fun c (rows : List (Row κ)) => grows_modify rows y (x + c + 1)) cell.cspan.toNat rows
  have below := grows_foldl
    (fun r (rows : List (Row κ)) => grows_foldl_range
      (fun c (rows : List (Row κ)) => grows_modify rows (y + r + 1) (x + c))
      (cell.cspan + 1).toNat rows)
    (List.range cell.rspan.toNat)
  refine (own.trans (below _)).congr fun k => ?_
  rw [sum_below, Cell.reserves]
  rcases eq_or_ne k y with rfl | other
  · rw [if_pos rfl, if_pos rfl, if_neg (by omega), Nat.mul_one, Nat.add_zero]
  · rw [if_neg other, if_neg other, Nat.mul_zero, Nat.zero_add]

/-- And puts the columns of its own row behind itself. -/
theorem getElem?_spanCell {done todo : Row κ} {cell : Cell κ}
    (here : rows[y]? = some (done ++ some cell :: todo)) :
    (spanCell rows y done.length cell)[y]? =
      some ((done ++ [some cell]) ++ (List.replicate cell.cspan.toNat none ++ todo)) := by
  have front : rows[y]? = some ((done ++ [some cell]) ++ todo) := by
    rw [here, List.append_assoc, List.singleton_append]
  have own := getElem?_foldl_insertSlot front cell.cspan.toNat
  rw [List.length_append, List.length_singleton] at own
  unfold spanCell
  refine (getElem?_foldl (fun rows r => getElem?_foldl (fun rows c => ?_) _ rows) _ _).trans ?_
  · exact List.getElem?_modify_ne _ _ (by omega)
  · rw [← own]
    simp only [Nat.add_right_comm, Nat.add_assoc]

theorem room_replicate_append (n : Nat) (todo : Row κ) :
    room (List.replicate n none ++ todo) = n + room todo := by
  unfold room
  rw [List.map_append, List.sum_append, List.map_replicate, List.sum_replicate,
    Nat.nsmul_eq_mul]
  exact congrArg (· + _) (Nat.mul_one n)

/-- The loop over the slots of a row, from one of them on. -/
theorem spanRow_grows {fuel : Nat} {done todo : Row κ} (here : rows[y]? = some (done ++ todo))
    (enough : room todo < fuel) :
    ∃ after, spanRow y fuel done.length rows = some after ∧
      Grows (fun k => (todo.reduceOption.map (·.reserves y k)).sum) rows after := by
  induction fuel generalizing done todo rows with
  | zero => cases enough
  | succ fuel ih =>
      unfold spanRow
      rw [List.getD_eq_getElem?_getD, here, Option.getD_some, List.getElem?_append_right le_rfl,
        Nat.sub_self]
      have next (slot : Option (Cell κ)) : done.length + 1 = (done ++ [slot]).length := by
        rw [List.length_append, List.length_singleton]
      cases todo with
      | nil => exact ⟨rows, rfl, .refl⟩
      | cons slot todo =>
          rw [List.getElem?_cons_zero]
          have size : room (slot :: todo) =
              (slot.elim 1 fun cell => 1 + cell.cspan.toNat) + room todo := rfl
          cases slot with
          | none =>
              dsimp only
              rw [next none, List.reduceOption_cons_of_none]
              have front : rows[y]? = some ((done ++ [none]) ++ todo) := by
                rw [here, List.append_assoc, List.singleton_append]
              refine ih front ?_
              rw [size, Option.elim_none] at enough
              omega
          | some cell =>
              dsimp only
              rw [next (some cell)]
              have fewer : room (List.replicate cell.cspan.toNat none ++ todo) < fuel := by
                rw [size, Option.elim_some] at enough
                rw [room_replicate_append]
                omega
              obtain ⟨after, ended, grows⟩ := ih (getElem?_spanCell here) fewer
              refine ⟨after, ended, ((grows_spanCell rows y done.length cell).trans grows).congr ?_⟩
              intro k
              rw [List.reduceOption_cons_of_some, List.map_cons, List.sum_cons,
                List.reduceOption_append, List.reduceOption_replicate_none, List.nil_append]

/-- The loops over the rows of some numbers. -/
theorem foldlM_spanRow_grows (numbers : List Nat) (rows : List (Row κ)) :
    ∃ after,
      numbers.foldlM (fun rows y => spanRow y (room (rows.getD y []) + 1) 0 rows) rows =
        some after ∧
      Grows
        (fun k =>
          (numbers.map fun y => ((rows.getD y []).reduceOption.map (·.reserves y k)).sum).sum)
        rows after := by
  induction numbers generalizing rows with
  | nil => exact ⟨rows, rfl, .refl⟩
  | cons y numbers ih =>
      have first : ∃ between, spanRow y (room (rows.getD y []) + 1) 0 rows = some between ∧
          Grows (fun k => ((rows.getD y []).reduceOption.map (·.reserves y k)).sum)
            rows between := by
        rw [List.getD_eq_getElem?_getD]
        cases here : rows[y]? with
        | some row =>
            have front : rows[y]? = some ([] ++ row) := here
            exact spanRow_grows front (Nat.lt_succ_self _)
        | none =>
            refine ⟨rows, ?_, .refl⟩
            unfold spanRow
            rw [List.getD_eq_getElem?_getD, here]
            rfl
      obtain ⟨between, made, grows⟩ := first
      obtain ⟨after, ended, later⟩ := ih between
      refine ⟨after, ?_, (grows.trans later).congr fun k => ?_⟩
      · rw [List.foldlM_cons, made]
        exact ended
      · simp only [grows.items, List.map_cons, List.sum_cons]

/-- The columns of row `k` that cells take. -/
def covers (cells : List (List (Cell κ))) (k : Nat) : Nat :=
  ∑ y ∈ range cells.length, ((cells.getD y []).map (·.takes y k)).sum

/-- A parsed row in slots. -/
abbrev slots (cells : List (Cell κ)) : Row κ := cells.map some

theorem reduceOption_slots (cells : List (Cell κ)) : (slots cells).reduceOption = cells := by
  rw [List.reduceOption, List.filterMap_map, Function.id_comp, List.filterMap_some]

theorem reduceOption_getD_slots (parsed : List (List (Cell κ))) (y : Nat) :
    ((parsed.map slots).getD y []).reduceOption = parsed.getD y [] := by
  rw [List.getD_eq_getElem?_getD, List.getD_eq_getElem?_getD, List.getElem?_map]
  cases parsed[y]? with
  | none => rfl
  | some cells => exact reduceOption_slots cells

/-- The loop ends, and the rows have as many slots as the cells take columns. -/
theorem spanRows_covers (parsed : List (List (Cell κ))) :
    ∃ spanned, spanRows (parsed.map slots) = some spanned ∧ spanned.length = parsed.length ∧
      ∀ {k : Nat}, k < parsed.length →
        (spanned.getD k []).length = covers parsed k ∧
          (spanned.getD k []).reduceOption = parsed.getD k [] := by
  obtain ⟨spanned, ended, grows⟩ :=
    foldlM_spanRow_grows (List.range (parsed.map slots).length) (parsed.map slots)
  refine ⟨spanned, ended, grows.rows.trans (List.length_map ..), fun {k} inside => ⟨?_, ?_⟩⟩
  · have here : (parsed.map slots)[k]? = some (slots (parsed.getD k [])) := by
      rw [List.getElem?_map, List.getElem?_eq_getElem inside, List.getD_eq_getElem _ _ inside,
        Option.map_some]
    obtain ⟨grown, at_k, slots, -⟩ := grows.row here
    simp only [reduceOption_getD_slots, List.length_map] at slots
    have count : ∑ y ∈ range parsed.length, (if k = y then (parsed.getD y []).length else 0) =
        (parsed.getD k []).length := by
      rw [Finset.sum_ite_eq, if_pos (Finset.mem_range.mpr inside)]
    rw [List.getD_eq_getElem?_getD, at_k, Option.getD_some, slots, covers]
    simp only [sum_takes]
    rw [Finset.sum_add_distrib, count, Nat.add_comm]
    rfl
  · rw [grows.items, reduceOption_getD_slots]

/-! ## Rounding off -/

theorem length_le_maxCols {row : Row κ} (member : row ∈ rows) : row.length ≤ maxCols rows := by
  have widest (cols : Nat) (rows : List (Row κ)) :
      cols ≤ rows.foldl (fun cols row => max cols row.length) cols ∧
        ∀ row ∈ rows, row.length ≤ rows.foldl (fun cols row => max cols row.length) cols := by
    induction rows generalizing cols with
    | nil => exact ⟨le_rfl, fun row member => nomatch member⟩
    | cons first rows ih =>
        obtain ⟨kept, below⟩ := ih (max cols first.length)
        refine ⟨(le_max_left ..).trans kept, fun row member => ?_⟩
        rcases List.mem_cons.mp member with rfl | later
        · exact (le_max_right ..).trans kept
        · exact below row later
  exact (widest 0 rows).2 row member

/-- The columns that a row gets too many in a row below, because its last cell is widened
and spans both. -/
def overhang (fillCells : Bool) (cols : Nat) (row : Row κ) (y k : Nat) : Nat :=
  if fillCells then
    0
  else
    match row.getLast? with
    | some (some cell) => if y < k ∧ k ≤ y + cell.rspan.toNat then cols - row.length else 0
    | _ => 0

theorem takes_blank (span : Int) (y k : Nat) :
    (⟨span, 0, []⟩ : Cell κ).takes y k = if k = y then 1 + span.toNat else 0 := by
  unfold Cell.takes
  refine if_congr Iff.rfl rfl (if_neg ?_)
  dsimp only
  omega

theorem takes_widen {cell : Cell κ} (span : 0 ≤ cell.cspan) (x y k : Nat) :
    { cell with cspan := cell.cspan + x }.takes y k =
      cell.takes y k +
        ((if k = y then x else 0) + if y < k ∧ k ≤ y + cell.rspan.toNat then x else 0) := by
  unfold Cell.takes
  dsimp only
  split
  · rw [if_neg (by omega)]
    omega
  · split
    · omega
    · rfl

/-- A row is filled up to the width of the table. -/
theorem sum_takes_fillRow {fillCells : Bool} {cols : Nat} {row filled : Row κ}
    (done : fillRow fillCells cols row = some filled)
    (spans : ∀ cell ∈ row.reduceOption, 0 ≤ cell.cspan) (y k : Nat) :
    (filled.reduceOption.map (·.takes y k)).sum =
      (row.reduceOption.map (·.takes y k)).sum +
        ((if k = y then cols - row.length else 0) + overhang fillCells cols row y k) := by
  unfold fillRow at done
  unfold overhang
  dsimp only at done
  split at done
  case isTrue full =>
    cases done
    have nothing : ∀ last : Option (Option (Cell κ)), (match last with
        | some (some cell) => if y < k ∧ k ≤ y + cell.rspan.toNat then 0 else 0
        | _ => 0) = 0 := by
      intro last
      rcases last with _ | _ | cell
      · rfl
      · rfl
      · exact ite_self 0
    rw [full, ite_self, nothing, ite_self]
    rfl
  case isFalse short =>
    cases fillCells with
    | true =>
        cases done
        rw [List.reduceOption_append, List.map_append, List.sum_append, if_pos rfl,
          Nat.add_zero, ← List.map_replicate, reduceOption_slots, List.map_replicate,
          List.sum_replicate, Nat.nsmul_eq_mul, takes_blank, mul_ite, Nat.mul_zero]
        exact congrArg _ (if_congr Iff.rfl (Nat.mul_one _) rfl)
    | false =>
        rw [if_neg Bool.false_ne_true] at done ⊢
        split at done
        case h_1 => cases done
        case h_2 last =>
            cases done
            rw [List.reduceOption_append, List.map_append, List.sum_append, last, Nat.add_zero,
              List.reduceOption_singleton, Option.toList_some, List.map_singleton,
              List.sum_singleton, takes_blank]
            exact congrArg _ (if_congr Iff.rfl (by omega) rfl)
        case h_3 cell last =>
            cases done
            have parts : row = row.dropLast ++ [some cell] :=
              (List.dropLast_append_getLast? _ last).symm
            have cells : row.reduceOption = row.dropLast.reduceOption ++ [cell] := by
              conv_lhs => rw [parts, List.reduceOption_append]
              rfl
            have span : 0 ≤ cell.cspan :=
              spans cell (cells ▸ List.mem_append_right _ (List.mem_singleton_self _))
            rw [last, List.reduceOption_append, cells, List.map_append, List.map_append,
              List.sum_append, List.sum_append, List.reduceOption_singleton,
              Option.toList_some, List.map_singleton, List.map_singleton, List.sum_singleton,
              List.sum_singleton, takes_widen span, Nat.add_assoc]

/-! ## The table -/

/-- The columns of row `k` that an entry of row `y` takes. -/
def Entry.takes (entry : Entry κ) (y k : Nat) : Nat :=
  if k = y then 1 + (entry.morecols.getD 0).toNat
  else if y < k ∧ k ≤ y + (entry.morerows.getD 0).toNat then
    (entry.morecols.getD 0 + 1).toNat
  else 0

/-- The columns that are taken in row `k`. -/
def Table.covers (table : Table κ) (k : Nat) : Nat :=
  ∑ y ∈ range table.rows.length, ((table.rows.getD y []).map (·.takes y k)).sum

theorem entry_takes (cell : Cell κ) (y k : Nat) : cell.entry.takes y k = cell.takes y k := by
  have getD (span : Int) : (if span = 0 then none else some span).getD 0 = span := by
    split
    · exact Eq.symm ‹_›
    · rfl
  unfold Entry.takes Cell.takes Cell.entry
  dsimp only
  rw [getD, getD]

theorem rows_buildTableNode {directive : Directive} {cols : Nat} {table : Table κ}
    (built : buildTableNode directive cols rows = .ok table) :
    table.rows = rows.map buildTableRowNode := by
  unfold buildTableNode at built
  cases widths : directive.getColumnWidths cols with
  | error failure =>
      rw [widths] at built
      cases built
  | ok colwidths =>
      rw [widths] at built
      cases built
      unfold Table.rows
      dsimp only
      split
      · rename_i headless
        rw [headless, List.drop_zero]
        rfl
      · rw [Option.getD_some, ← List.map_append, List.take_append_drop]

/-- What `run` has made of the parsed rows. -/
theorem run_ok {directive : Directive} {body : List (BodyNode κ)} {table : Table κ}
    (built : run directive body = .ok table) :
    ∃ parsed spanned filled,
      parseFlatTableNode directive body = .ok parsed ∧
      spanRows (parsed.map slots) = some spanned ∧
      fillRows directive.fillCells spanned = some filled ∧
      table.rows = filled.map buildTableRowNode := by
  unfold run at built
  cases read : parseFlatTableNode directive body with
  | error failure =>
      rw [read] at built
      cases built
  | ok parsed =>
      rw [read] at built
      change (roundOffTableDefinition directive.fillCells (parsed.map slots) >>= fun made =>
        buildTableNode directive made.1 made.2) = .ok table at built
      unfold roundOffTableDefinition at built
      cases spans : spanRows (parsed.map slots) with
      | none =>
          rw [spans] at built
          cases built
      | some spanned =>
          rw [spans] at built
          dsimp only at built
          cases fills : fillRows directive.fillCells spanned with
          | none =>
              rw [fills] at built
              cases built
          | some filled =>
              rw [fills] at built
              exact ⟨parsed, spanned, filled, rfl, spans, fills, rows_buildTableNode built⟩

theorem covers_map_buildTableRowNode (table : Table κ) (filled : List (Row κ))
    (made : table.rows = filled.map buildTableRowNode) (k : Nat) :
    table.covers k =
      ∑ y ∈ range filled.length, ((filled.getD y []).reduceOption.map (·.takes y k)).sum := by
  unfold Table.covers
  rw [made, List.length_map]
  refine Finset.sum_congr rfl fun y _ => ?_
  rw [List.getD_eq_getElem?_getD, List.getElem?_map, List.getD_eq_getElem?_getD]
  cases filled[y]? with
  | none => rfl
  | some row =>
      rw [Option.map_some, Option.getD_some, Option.getD_some, buildTableRowNode, List.map_map]
      exact congrArg List.sum (List.map_congr_left fun cell _ => entry_takes cell y k)

variable {directive : Directive} {body : List (BodyNode κ)} {table : Table κ}
  {parsed : List (List (Cell κ))}

/-- A row of the table has the columns of the widest row, and what hangs over from the
rows above. -/
theorem covers_eq (read : parseFlatTableNode directive body = .ok parsed)
    (spans : ∀ cells ∈ parsed, ∀ cell ∈ cells, 0 ≤ cell.cspan)
    (built : run directive body = .ok table) :
    ∃ spanned, spanRows (parsed.map slots) = some spanned ∧
      table.rows.length = spanned.length ∧
      ∀ k < table.rows.length,
        table.covers k = maxCols spanned + ∑ y ∈ range spanned.length,
          overhang directive.fillCells (maxCols spanned) (spanned.getD y []) y k := by
  obtain ⟨parsed', spanned, filled, read', ended, fills, made⟩ := run_ok built
  cases read.symm.trans read'
  obtain ⟨spanned', ended', count, each⟩ := spanRows_covers parsed
  cases ended.symm.trans ended'
  obtain ⟨same, row⟩ := getElem?_of_mapM fills
  have rows : table.rows.length = spanned.length := by rw [made, List.length_map, same]
  refine ⟨spanned, ended, rows, fun k inside => ?_⟩
  have inside : k < spanned.length := rows ▸ inside
  have one (y : Nat) (member : y ∈ range spanned.length) :
      ((filled.getD y []).reduceOption.map (·.takes y k)).sum =
        ((parsed.getD y []).map (·.takes y k)).sum +
          ((if k = y then maxCols spanned - (spanned.getD y []).length else 0) +
            overhang directive.fillCells (maxCols spanned) (spanned.getD y []) y k) := by
    have below := Finset.mem_range.mp member
    obtain ⟨-, cells⟩ := each (count ▸ below)
    have here := row y
    rw [List.getElem?_eq_getElem below, Option.bind_some] at here
    have inFilled : y < filled.length := same ▸ below
    rw [List.getElem?_eq_getElem inFilled] at here
    rw [List.getD_eq_getElem _ _ below] at cells ⊢
    rw [List.getD_eq_getElem _ _ inFilled, ← cells]
    refine sum_takes_fillRow here (fun cell listed => ?_) y k
    rw [cells] at listed
    have inParsed : y < parsed.length := count ▸ below
    rw [List.getD_eq_getElem _ _ inParsed] at listed
    exact spans _ (List.getElem_mem inParsed) cell listed
  have slots := (each (count ▸ inside)).1
  have most : (spanned.getD k []).length ≤ maxCols spanned := by
    rw [List.getD_eq_getElem _ _ inside]
    exact length_le_maxCols (List.getElem_mem inside)
  have lacking : ∑ y ∈ range spanned.length,
      (if k = y then maxCols spanned - (spanned.getD y []).length else 0) =
        maxCols spanned - (spanned.getD k []).length := by
    rw [Finset.sum_ite_eq, if_pos (Finset.mem_range.mpr inside)]
  rw [covers_map_buildTableRowNode table filled made, same, Finset.sum_congr rfl one,
    Finset.sum_add_distrib, Finset.sum_add_distrib, lacking, count, ← covers, ← slots,
    ← Nat.add_assoc, Nat.add_sub_cancel' most]

/-- A row hangs over when it is short, and its last slot has a cell that spans the row
below: that cell is widened, in all the rows that it spans. -/
structure HangsOver (cols : Nat) (row : Row κ) : Prop where
  short : row.length < cols
  last : ∃ cell : Cell κ, row.getLast? = some (some cell) ∧ 0 < cell.rspan

theorem overhang_pos {fillCells : Bool} {cols : Nat} {row : Row κ} (autospan : fillCells = false)
    (hangs : HangsOver cols row) : 0 < overhang fillCells cols row y (y + 1) := by
  obtain ⟨cell, last, span⟩ := hangs.last
  unfold overhang
  rw [autospan, if_neg Bool.false_ne_true, last]
  dsimp only
  rw [if_pos (by omega)]
  exact Nat.sub_pos_of_lt hangs.short

theorem overhang_eq_zero {fillCells : Bool} {cols k : Nat} {row : Row κ}
    (flush : k ≤ y ∨ fillCells ∨ ¬HangsOver cols row) : overhang fillCells cols row y k = 0 := by
  unfold overhang
  split
  · rfl
  · split
    · rename_i autospan _ cell last
      split
      · rename_i reached
        rcases flush with above | filled | flush
        · omega
        · exact absurd filled autospan
        · by_contra short
          exact flush ⟨by omega, cell, last, by omega⟩
      · rfl
    · rfl

/-- The loops end for every table that is read. If it is built, all rows have equally many
columns exactly when missing cells are filled in, or no row above the last one hangs over. -/
theorem rectangular_iff (read : parseFlatTableNode directive body = .ok parsed) :
    ∃ spanned, spanRows (parsed.map slots) = some spanned ∧
      ((∀ cells ∈ parsed, ∀ cell ∈ cells, 0 ≤ cell.cspan) →
        ∀ table, run directive body = .ok table →
          ((∃ cols, ∀ k < table.rows.length, table.covers k = cols) ↔
            directive.fillCells ∨
              ∀ y, y + 1 < spanned.length → ¬HangsOver (maxCols spanned) (spanned.getD y []))) := by
  obtain ⟨spanned, ended, -⟩ := spanRows_covers parsed
  refine ⟨spanned, ended, fun spans table built => ?_⟩
  obtain ⟨spanned', ended', rows, covers⟩ := covers_eq read spans built
  cases ended.symm.trans ended'
  rw [rows] at covers ⊢
  constructor
  · rintro ⟨cols, rectangular⟩
    by_contra contrary
    rw [not_or] at contrary
    obtain ⟨autospan, contrary⟩ := contrary
    push Not at contrary
    obtain ⟨y, above, hangs⟩ := contrary
    -- the first row has no row above it
    have first := covers 0 (by omega)
    rw [Finset.sum_eq_zero fun y _ => overhang_eq_zero (.inl (Nat.zero_le y)), Nat.add_zero,
      rectangular 0 (by omega)] at first
    have next := covers (y + 1) above
    rw [rectangular (y + 1) above] at next
    have positive := overhang_pos (y := y) (Bool.eq_false_iff.mpr autospan) hangs
    have most := Finset.single_le_sum
      (f := fun i => overhang directive.fillCells (maxCols spanned) (spanned.getD i []) i (y + 1))
      (fun i _ => Nat.zero_le _) (Finset.mem_range.mpr (by omega : y < spanned.length))
    omega
  · intro flush
    refine ⟨maxCols spanned, fun k inside => ?_⟩
    rw [covers k inside, Finset.sum_eq_zero, Nat.add_zero]
    intro y member
    rcases Nat.lt_or_ge y k with above | below
    · exact overhang_eq_zero (.inr (flush.imp_right fun flush => flush y (by omega)))
    · exact overhang_eq_zero (.inl below)

/-- A first row with one cell that spans the second row, which has two more. -/
def autospanBody : List (BodyNode Char) :=
  [.bulletList
    [[.bulletList [[⟨'p', [.other 'a', .rowSpan 1]⟩]]],
      [.bulletList [[⟨'p', [.other 'b']⟩], [⟨'p', [.other 'c']⟩]]]]]

/-- The directive without options. -/
def plainDirective : Directive where
  name := "flat-table"
  headerRows := 0
  stubColumns := 0
  fillCells := false
  getColumnWidths cols := .ok (List.replicate cols 10)

/-- The cell takes all three columns of the second row, next to its two cells. -/
theorem not_rectangular_autospanBody :
    ∃ table, run plainDirective autospanBody = .ok table ∧
      ¬∃ cols, ∀ k < table.rows.length, table.covers k = cols := by
  let parsed : List (List (Cell Char)) :=
    [[⟨0, 1, [⟨'p', [.other 'a']⟩]⟩],
      [⟨0, 0, [⟨'p', [.other 'b']⟩]⟩, ⟨0, 0, [⟨'p', [.other 'c']⟩]⟩]]
  refine ⟨_, rfl, fun rectangular => ?_⟩
  have read : parseFlatTableNode plainDirective autospanBody = .ok parsed := rfl
  obtain ⟨spanned, made, columns⟩ := rectangular_iff read
  cases made
  rcases (columns (by decide) _ rfl).mp rectangular with filled | flush
  · cases filled
  · exact flush 0 (by decide) ⟨by decide, _, rfl, by decide⟩

end StudyLinux.FlatTable
