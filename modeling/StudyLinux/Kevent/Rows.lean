import StudyLinux.Kevent.Pertask

/-!
# Rows of events of any width

A header with a value that is too wide ends behind column 61, and the columns cut
from it start too early. What the cut brings into a row then stands in front of
the payload and holds neither a comma nor an equals sign, so the row still has the
columns behind its first name (`splitOn_csvRow`).
-/

namespace StudyLinux

/-- The trace of a list of events. -/
def linesOf (events : Cpu → List SwitchEvent) : Traces :=
  fun cpu => (events cpu).map SwitchEvent.line

/-- What a header does not have behind its first sixteen columns. -/
def separators : List Char := [',', '=']

namespace SwitchEvent

/-- The row that `make_it_csv` makes of the line of an event. -/
def csvRow (e : SwitchEvent) : Text :=
  timestampOf e.line ++ ',' :: switchdataOf e.line

/-- The rows of one CPU, in the order of its events. -/
theorem csv_eq_map_csvRow (events : List SwitchEvent) :
    (makeItCsv (getOnlySwitchField (events.map line))).csv = events.map csvRow := by
  rw [getOnlySwitchField_lines, makeItCsv]
  simp only [List.map_map]
  refine (paste_map_map ',' events _ _).trans (List.map_congr_left fun e _ => ?_)
  rw [csvRow, Function.comp_apply, Function.comp_apply]

theorem csvsOf_linesOf (events : Cpu → List SwitchEvent) (cpu : Cpu) :
    csvsOf (linesOf events) cpu = (events cpu).map csvRow :=
  csv_eq_map_csvRow (events cpu)

variable (e : SwitchEvent)

/-! ## The part of the header that may be cut off -/

/-- Behind the name the header has digits, flags and its own punctuation only. -/
theorem not_mem_drop_header {c : Char} (separator : c ∈ separators) : c ∉ e.header.drop 16 := by
  have behind : e.header.drop 16 = '-' :: (List.rightpad 5 ' ' (decimal e.pid) ++ " [".toList ++
      zeroPadded 3 e.cpu ++ "] ".toList ++ e.flags) ++ ' ' :: (e.stamp ++
        (": ".toList ++ eventName ++ ":".toList)) := by
    rw [header, origin, List.append_assoc, List.drop_left' e.length_leftpad_comm]
  have notDigit : ∀ c ∈ separators, ¬ c.isDigit := by decide
  have notFlag : ∀ c ∈ separators, ¬ isFlagChar c := by decide
  have notFixed : ∀ c ∈ separators, ¬ (c.isDigit ∨ c = '.') := by decide
  have notText : ∀ c ∈ separators, c ∉ '-' :: ' ' :: (" [".toList ++ "] ".toList ++
      (": ".toList ++ eventName ++ ":".toList)) := by decide
  have pid : c ∉ decimal e.pid := not_mem_decimal (notDigit c separator) e.pid
  have cpu : c ∉ zeroPadded 3 e.cpu := fun member =>
    notDigit c separator (isDigit_of_mem_zeroPadded member)
  have flags : c ∉ e.flags := fun member => notFlag c separator (e.flags_chars c member)
  have time : c ∉ fixedPoint 6 e.time := fun member =>
    notFixed c separator (mem_fixedPoint member)
  have own := notText c separator
  simp only [List.mem_cons, List.mem_append, not_or] at own
  obtain ⟨dash, blank, ⟨opening, closing⟩, ⟨colon, name⟩, stop⟩ := own
  rw [behind, stamp_eq, List.rightpad]
  simp only [List.mem_cons, List.mem_append, List.mem_replicate, not_or, not_and]
  exact ⟨⟨dash, ⟨⟨⟨⟨pid, fun _ => blank⟩, opening⟩, cpu⟩, closing⟩, flags⟩, blank,
    ⟨fun _ => blank, time⟩, ⟨colon, name⟩, stop⟩

/-- What `cut -c'62-'` brings from the header. -/
def overhang : Text := e.header.drop 61

theorem not_mem_overhang {c : Char} (separator : c ∈ separators) : c ∉ e.overhang := by
  have inside : e.overhang = (e.header.drop 16).drop 45 := by rw [overhang, List.drop_drop]
  rw [inside]
  exact fun member => e.not_mem_drop_header separator (List.mem_of_mem_drop member)

/-- The time columns lie in the header. -/
theorem comma_not_mem_timeColumns : ',' ∉ cutColumns 34 46 e.line := by
  have filled := e.le_length_header
  have inside : cutColumns 34 46 e.line = ((e.header.drop 16).take 30).drop 17 := by
    rw [cutColumns, line, List.take_append_of_le_length (by omega), List.drop_take, List.drop_take,
      List.drop_drop]
  rw [inside]
  intro member
  exact e.not_mem_drop_header (by decide) (List.mem_of_mem_take (List.mem_of_mem_drop member))

theorem cutFrom_line : cutFrom 62 e.line = e.overhang ++ e.payload := by
  rw [cutFrom, line, overhang, List.drop_append_of_le_length e.le_length_header]

end SwitchEvent

/-! ## The sed program behind the overhang -/

/-- No marker starts in a text without an equals sign and goes on behind a blank. -/
theorem sedAll_append_blank {program : List (Text × Text)}
    (marked : ∀ command ∈ program, '=' ∈ command.1)
    (apart : ∀ command ∈ program, ' ' ∉ command.1 ∨ command.1.head? = some '=')
    {front : Text} (plain : '=' ∉ front) (rest : Text) :
    ∃ rest', sedAll program (front ++ ' ' :: rest) = front ++ ' ' :: rest' ∧
      sedAll program (' ' :: rest) = ' ' :: rest' := by
  induction program generalizing rest with
  | nil => exact ⟨rest, rfl, rfl⟩
  | cons command program ih =>
      obtain ⟨pat, rep⟩ := command
      have sign : '=' ∈ pat := marked _ List.mem_cons_self
      have nonempty : pat ≠ [] := List.ne_nil_of_mem sign
      have pass : sedSubst pat rep (' ' :: rest) = ' ' :: sedSubst pat rep rest := by
        refine sedSubst_pass fun front => ?_
        obtain ⟨c, tail, rfl⟩ := List.exists_cons_of_ne_nil nonempty
        obtain rfl := (List.cons_prefix_cons.mp front).1
        rcases apart _ List.mem_cons_self with solid | first
        · exact solid List.mem_cons_self
        · exact absurd first (by simp)
      have cut : sedSubst pat rep (front ++ ' ' :: rest) =
          front ++ ' ' :: sedSubst pat rep rest := by
        rw [sedSubst_append nonempty, pass,
          sedSubst_eq_self nonempty (not_infix_of_not_mem sign plain)]
        intro u v split left right ends starts
        rcases apart _ List.mem_cons_self with solid | first
        · obtain ⟨c, tail, rfl⟩ := List.exists_cons_of_ne_nil right
          obtain rfl := (List.cons_prefix_cons.mp starts).1
          exact solid (by rw [show pat = u ++ ' ' :: tail from split]; simp)
        · obtain ⟨c, tail, rfl⟩ := List.exists_cons_of_ne_nil left
          rw [show pat = c :: tail ++ v from split, List.cons_append, List.head?_cons] at first
          obtain rfl := Option.some.inj first
          exact plain (ends.subset List.mem_cons_self)
      obtain ⟨rest', both⟩ := ih (fun later member => marked later (List.mem_cons_of_mem _ member))
        (fun later member => apart later (List.mem_cons_of_mem _ member)) (sedSubst pat rep rest)
      refine ⟨rest', ?_⟩
      rw [sedAll_cons, sedAll_cons, pass, cut]
      exact both

namespace SwitchEvent

variable (e : SwitchEvent)

/-- The overhang passes the sed program unchanged. -/
theorem sedMarkers_cutFrom :
    sedMarkers (cutFrom 62 e.line) = e.overhang ++ sedMarkers e.payload := by
  have marked : ∀ command ∈ markers, '=' ∈ command.1 := by decide
  have apart : ∀ command ∈ markers, ' ' ∉ command.1 ∨ command.1.head? = some '=' := by decide
  obtain ⟨rest', whole, behind⟩ := sedAll_append_blank marked apart
    (e.not_mem_overhang (by decide)) e.payload.tail
  have shape : e.payload = ' ' :: e.payload.tail := rfl
  rw [cutFrom_line, sedMarkers, sedMarkers, shape, whole, behind]

/-! ## Columns -/

/-- The first cell behind the time: the overhang and the previous name. -/
def firstCell : Text := trDelete deleted e.overhang ++ e.prev.name.cell

theorem switchdataOf_line :
    switchdataOf e.line = [','].intercalate [e.firstCell, decimal e.prev.pid,
      decimalInt e.prevPrio, e.prevState, e.next.name.cell, decimal e.next.pid,
      decimalInt e.nextPrio] := by
  rw [switchdataOf_eq, sedMarkers_cutFrom, trDelete_append, trDelete_sedMarkers_payload, firstCell]
  simp [List.intercalate]

theorem comma_not_mem_timestampOf : ',' ∉ timestampOf e.line := fun member =>
  e.comma_not_mem_timeColumns (mem_trDelete.mp member).1

/-- The columns of a row: only the two name cells may be more than one. -/
theorem splitOn_csvRow :
    e.csvRow.splitOn ',' =
      timestampOf e.line :: (e.firstCell.splitOn ',' ++
        decimal e.prev.pid :: decimalInt e.prevPrio :: e.prevState ::
          (e.next.name.cell.splitOn ',' ++ [decimal e.next.pid, decimalInt e.nextPrio])) := by
  have shape : e.csvRow = timestampOf e.line ++ ',' :: (e.firstCell ++ ',' ::
      (decimal e.prev.pid ++ ',' :: (decimalInt e.prevPrio ++ ',' :: (e.prevState ++ ',' ::
        (e.next.name.cell ++ ',' :: (decimal e.next.pid ++ ',' :: decimalInt e.nextPrio)))))) := by
    rw [csvRow, switchdataOf_line]
    simp [List.intercalate]
  have single {part : Text} (solid : ',' ∉ part) : part.splitOn ',' = [part] :=
    splitOn_eq_singleton_iff.mpr solid
  have state : ',' ∉ e.prevState := fun member => absurd (e.state_chars _ member) (by decide)
  rw [shape]
  simp only [splitOn_append_cons, single e.comma_not_mem_timestampOf,
    single (FixedEvent.comma_not_mem_decimal _), single (FixedEvent.comma_not_mem_decimalInt _),
    single state, List.cons_append, List.nil_append]

/-- A row never has fewer than the eight columns. -/
theorem le_length_splitOn_csvRow : 8 ≤ (e.csvRow.splitOn ',').length := by
  have first := List.length_pos_iff.mpr (List.splitOn_ne_nil ',' e.firstCell)
  have second := List.length_pos_iff.mpr (List.splitOn_ne_nil ',' e.next.name.cell)
  rw [splitOn_csvRow]
  simp only [List.length_cons, List.length_append, List.length_nil]
  omega

end SwitchEvent

/-- The row of an event whose header keeps to its columns. -/
theorem FixedEvent.csvRow_eq (e : FixedEvent) : e.csvRow = e.row := by
  rw [SwitchEvent.csvRow, e.timestampOf_line, e.switchdataOf_line, e.row_eq_append]

end StudyLinux
