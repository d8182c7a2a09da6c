import StudyLinux.Ftrace.Layout
import StudyLinux.Ftrace.Payload
import StudyLinux.Text.Grep

/-!
# Trace lines to csv rows

`get_only_switch_field` and `make_it_csv` of kevent_parser.sh. The columns of a
row are cut out by position and by one sed program; nothing is quoted. On events
whose header keeps to its columns every row is computed (`csv_eq_map_row`), and
it has the eight columns of the documented line format exactly when neither name
holds a comma or a marker (`splitOn_row_iff`).
-/

namespace StudyLinux

/-! ## The stages -/

/-- `cat $1 | grep "sched_switch:"`. -/
def getOnlySwitchField (trace : File) : File := grep "sched_switch:".toList trace

/-- `cut -c'34-46' | tr -d ' '`. -/
def timestampOf (line : Text) : Text := trDelete [' '] (cutColumns 34 46 line)

/-- `s/^ //g`. -/
def dropLeadingBlank : Text → Text
  | ' ' :: line => line
  | line => line

/-- The characters of `tr -d '[\[\]\/\ ]'`. -/
def deleted : List Char := ['[', ']', '/', ' ']

/-- `cut -c'62-' | sed '…' | sed 's/ ,/,/g;s/^ //g' | tr -d '[\[\]\/\ ]'`. -/
def switchdataOf (line : Text) : Text :=
  trDelete deleted
    (dropLeadingBlank (sedSubst [' ', ','] [','] (sedMarkers (cutFrom 62 line))))

/-- The three files that `make_it_csv` writes beside its argument. -/
structure CsvFiles where
  timestamp : File
  switchdata : File
  csv : File

/-- `make_it_csv`. -/
def makeItCsv (onlySwitch : File) : CsvFiles :=
  let timestamp := onlySwitch.map timestampOf
  let switchdata := onlySwitch.map switchdataOf
  ⟨timestamp, switchdata, paste ',' [timestamp, switchdata]⟩

/-! ## Deletion after substitution -/

/-- A substitution is invisible to a deletion that does not tell its two sides
apart. -/
theorem trDelete_sedSubst {set : List Char} {pat rep : Text} (nonempty : pat ≠ [])
    (alike : trDelete set rep = trDelete set pat) (line : Text) :
    trDelete set (sedSubst pat rep line) = trDelete set line := by
  induction line using sedSubst_induction nonempty with
  | nil => rfl
  | pass c rest front ih =>
      rw [sedSubst_pass front]
      exact (trDelete_append set [c] _).trans
        ((congrArg _ ih).trans (trDelete_append set [c] rest).symm)
  | cross rest ih => rw [sedSubst_occurrence nonempty, trDelete_append, trDelete_append, alike, ih]

theorem trDelete_dropLeadingBlank (line : Text) :
    trDelete deleted (dropLeadingBlank line) = trDelete deleted line := by
  unfold dropLeadingBlank
  split
  · exact (trDelete_cons_of_mem (by decide) _).symm
  · rfl

/-- The blank-comma rewriting and the leading blank leave no trace. -/
theorem switchdataOf_eq (line : Text) :
    switchdataOf line = trDelete deleted (sedMarkers (cutFrom 62 line)) := by
  rw [switchdataOf, trDelete_dropLeadingBlank, trDelete_sedSubst (by decide) (by decide)]

/-! ## Rows -/

/-- A name without blanks, brackets and slashes. -/
def Comm.printed (name : Comm) : Text := trDelete deleted name.text

/-- What `make_it_csv` makes of a name. -/
def Comm.cell (name : Comm) : Text := trDelete deleted (sedMarkers name.text)

theorem trDelete_decimal (n : Nat) : trDelete deleted (decimal n) = decimal n := by
  have kept : ∀ c ∈ deleted, ¬ c.isDigit := by decide
  exact trDelete_eq_self fun c member listed => kept c listed (isDigit_of_mem_decimal member)

theorem trDelete_decimalInt (n : Int) : trDelete deleted (decimalInt n) = decimalInt n := by
  have kept : ∀ c ∈ deleted, ¬ (c.isDigit ∨ c = '-') := by decide
  exact trDelete_eq_self fun c member listed => kept c listed (mem_decimalInt member)

theorem SwitchEvent.trDelete_prevState (e : SwitchEvent) :
    trDelete deleted e.prevState = e.prevState := by
  have kept : ∀ c ∈ deleted, ¬ isStateChar c := by decide
  exact trDelete_eq_self fun c member listed => kept c listed (e.state_chars c member)

/-- The marked payload without the four characters: names and values between commas. -/
theorem SwitchEvent.trDelete_sedMarkers_payload (e : SwitchEvent) :
    trDelete deleted (sedMarkers e.payload) = [','].intercalate
      [e.prev.name.cell, decimal e.prev.pid, decimalInt e.prevPrio, e.prevState,
        e.next.name.cell, decimal e.next.pid, decimalInt e.nextPrio] := by
  have blank (line : Text) : trDelete deleted (' ' :: line) = trDelete deleted line :=
    trDelete_cons_of_mem (by decide) line
  have comma (line : Text) : trDelete deleted (',' :: line) = ',' :: trDelete deleted line :=
    trDelete_cons_of_not_mem (by decide) line
  rw [sedMarkers_payload]
  simp only [blankChunks_cons, blankChunks_nil, List.cons_append, blank, comma, trDelete_append,
    trDelete_decimal, trDelete_decimalInt, trDelete_prevState, trDelete_nil]
  simp [Comm.cell, List.intercalate]

/-- Every line of events is a sched_switch line. -/
theorem SwitchEvent.getOnlySwitchField_lines (events : List SwitchEvent) :
    getOnlySwitchField (events.map line) = events.map line :=
  grep_lines (by decide) List.infix_rfl events

namespace FixedEvent

/-- The cells behind the timestamp. -/
def cells (e : FixedEvent) : List Text :=
  [e.prev.name.cell, decimal e.prev.pid, decimalInt e.prevPrio, e.prevState, e.next.name.cell,
    decimal e.next.pid, decimalInt e.nextPrio]

/-- The row of an event. -/
def row (e : FixedEvent) : Text := [','].intercalate (fixedPoint 6 e.time :: e.cells)

/-- The columns the line format promises: timestamp, then name, pid, priority
and state of the previous task, then name, pid and priority of the next. -/
def columns (e : FixedEvent) : List Text :=
  [fixedPoint 6 e.time, e.prev.name.printed, decimal e.prev.pid, decimalInt e.prevPrio,
    e.prevState, e.next.name.printed, decimal e.next.pid, decimalInt e.nextPrio]

variable (e : FixedEvent)

theorem timestampOf_line : timestampOf e.line = fixedPoint 6 e.time := by
  have kept : ∀ c ∈ [' '], ¬ (c.isDigit ∨ c = '.') := by decide
  have noBlank : ∀ c ∈ fixedPoint 6 e.time, c ∉ [' '] := fun c member listed =>
    kept c listed (mem_fixedPoint member)
  rw [timestampOf, cutColumns_stamp, trDelete_cons_of_mem (by decide), SwitchEvent.stamp_eq,
    trDelete_append, trDelete_replicate (by decide), List.nil_append, trDelete_eq_self noBlank]

theorem switchdataOf_line : switchdataOf e.line = [','].intercalate e.cells := by
  rw [switchdataOf_eq, cutFrom_line, SwitchEvent.trDelete_sedMarkers_payload, cells]

theorem row_eq_append : e.row = fixedPoint 6 e.time ++ ',' :: [','].intercalate e.cells := by
  simp [row, cells, List.intercalate]

theorem getOnlySwitchField_lines (events : List FixedEvent) :
    getOnlySwitchField (events.map fun e => e.line) = events.map fun e => e.line := by
  have lines := SwitchEvent.getOnlySwitchField_lines (events.map toSwitchEvent)
  rwa [List.map_map] at lines

/-- The rows of one CPU, in the order of its events. -/
theorem csv_eq_map_row (events : List FixedEvent) :
    (makeItCsv (getOnlySwitchField (events.map fun e => e.line))).csv = events.map row := by
  rw [getOnlySwitchField_lines, makeItCsv]
  simp only [List.map_map]
  refine (paste_map_map ',' events _ _).trans (List.map_congr_left fun e _ => ?_)
  rw [Function.comp_apply, Function.comp_apply, timestampOf_line, switchdataOf_line, row_eq_append]

end FixedEvent

/-! ## Names that keep to their column -/

/-- A name that neither holds a comma nor any of the texts the sed program
rewrites. -/
def Comm.Clean (name : Comm) : Prop :=
  ',' ∉ name.text ∧ ∀ command ∈ markers, ¬ command.1 <:+: name.text

instance (name : Comm) : Decidable name.Clean := inferInstanceAs (Decidable (_ ∧ _))

theorem sedAll_eq_self {program : List (Text × Text)} {line : Text}
    (nonempty : ∀ command ∈ program, command.1 ≠ [])
    (free : ∀ command ∈ program, ¬ command.1 <:+: line) : sedAll program line = line := by
  induction program with
  | nil => rfl
  | cons command program ih =>
      rw [sedAll_cons, sedSubst_eq_self (nonempty command List.mem_cons_self)
        (free command List.mem_cons_self),
        ih (fun later member => nonempty later (List.mem_cons_of_mem _ member))
          fun later member => free later (List.mem_cons_of_mem _ member)]

/-- Every marker that occurs costs the text an `=`. -/
theorem count_sedAll_le {program : List (Text × Text)} {x : Char}
    (lossy : ∀ command ∈ program, x ∈ command.1 ∧ x ∉ command.2) (line : Text) :
    (sedAll program line).count x ≤ line.count x := by
  induction program generalizing line with
  | nil => exact le_rfl
  | cons command program ih =>
      obtain ⟨lost, gone⟩ := lossy command List.mem_cons_self
      rw [sedAll_cons]
      exact (ih (fun later member => lossy later (List.mem_cons_of_mem _ member)) _).trans
        (count_sedSubst_le (List.ne_nil_of_mem lost) gone line)

theorem sedAll_eq_self_of_count {program : List (Text × Text)} {x : Char}
    (lossy : ∀ command ∈ program, x ∈ command.1 ∧ x ∉ command.2) {line : Text}
    (same : (sedAll program line).count x = line.count x) :
    ∀ command ∈ program, ¬ command.1 <:+: line := by
  induction program with
  | nil => exact fun _ member => absurd member List.not_mem_nil
  | cons command program ih =>
      have lossyRest := fun later member => lossy later (List.mem_cons_of_mem command member)
      obtain ⟨lost, gone⟩ := lossy command List.mem_cons_self
      have here : ¬ command.1 <:+: line := fun occurs => by
        have less := count_sedSubst_lt lost gone occurs
        have rest := count_sedAll_le lossyRest (sedSubst command.1 command.2 line)
        rw [sedAll_cons] at same
        omega
      rw [sedAll_cons, sedSubst_eq_self (List.ne_nil_of_mem lost) here] at same
      intro later member
      rcases List.mem_cons.mp member with rfl | inRest
      · exact here
      · exact ih lossyRest same later inRest

namespace Comm

variable {name : Comm}

theorem Clean.cell_eq (clean : name.Clean) : name.cell = name.printed := by
  rw [cell, sedMarkers, sedAll_eq_self (by decide) clean.2, printed]

theorem Clean.comma_not_mem_printed (clean : name.Clean) : ',' ∉ name.printed := fun member =>
  clean.1 (mem_trDelete.mp member).1

/-- A cell that is one column with the printed name comes from a clean name. -/
theorem clean_iff : name.Clean ↔ ',' ∉ name.cell ∧ name.cell = name.printed := by
  constructor
  · intro clean
    exact ⟨clean.cell_eq ▸ clean.comma_not_mem_printed, clean.cell_eq⟩
  · intro column
    rcases column with ⟨noComma, same⟩
    have equals : (sedMarkers name.text).count '=' = name.text.count '=' :=
      calc (sedMarkers name.text).count '='
          = name.cell.count '=' := (count_trDelete (by decide) _).symm
        _ = name.printed.count '=' := congrArg (List.count '=') same
        _ = name.text.count '=' := count_trDelete (by decide) _
    have lossy : ∀ command ∈ markers, '=' ∈ command.1 ∧ '=' ∉ command.2 := by decide
    have free := sedAll_eq_self_of_count lossy equals
    refine ⟨fun member => noComma ?_, free⟩
    rw [same]
    exact mem_trDelete.mpr ⟨member, by decide⟩

end Comm

namespace FixedEvent

variable (e : FixedEvent)

theorem comma_not_mem_fixedPoint (k ticks : Nat) : ',' ∉ fixedPoint k ticks := fun member =>
  absurd (mem_fixedPoint member) (by decide)

theorem comma_not_mem_decimal (n : Nat) : ',' ∉ decimal n :=
  not_mem_decimal (by decide) n

theorem comma_not_mem_decimalInt (n : Int) : ',' ∉ decimalInt n :=
  not_mem_decimalInt (by decide) n

theorem comma_not_mem_prevState : ',' ∉ e.prevState := fun member =>
  absurd (e.state_chars _ member) (by decide)

/-- The columns of a row: only the two name cells may be more than one. -/
theorem splitOn_row :
    e.row.splitOn ',' =
      fixedPoint 6 e.time :: (e.prev.name.cell.splitOn ',' ++
        decimal e.prev.pid :: decimalInt e.prevPrio :: e.prevState ::
          (e.next.name.cell.splitOn ',' ++ [decimal e.next.pid, decimalInt e.nextPrio])) := by
  have shape : e.row = fixedPoint 6 e.time ++ ',' :: (e.prev.name.cell ++ ',' ::
      (decimal e.prev.pid ++ ',' :: (decimalInt e.prevPrio ++ ',' :: (e.prevState ++ ',' ::
        (e.next.name.cell ++ ',' :: (decimal e.next.pid ++ ',' :: decimalInt e.nextPrio)))))) := by
    simp [row, cells, List.intercalate]
  have single {part : Text} (solid : ',' ∉ part) : part.splitOn ',' = [part] :=
    splitOn_eq_singleton_iff.mpr solid
  rw [shape]
  simp only [splitOn_append_cons, single (comma_not_mem_fixedPoint _ _),
    single (comma_not_mem_decimal _), single (comma_not_mem_decimalInt _),
    single e.comma_not_mem_prevState, List.cons_append, List.nil_append]

/-- A row has the promised columns exactly when both names are clean. -/
theorem splitOn_row_iff :
    e.row.splitOn ',' = e.columns ↔ e.prev.name.Clean ∧ e.next.name.Clean := by
  rw [splitOn_row, columns]
  constructor
  · intro same
    have width := congrArg List.length same
    simp only [List.length_cons, List.length_append, length_splitOn, List.length_nil] at width
    have prevSolid : ',' ∉ e.prev.name.cell := List.count_eq_zero.mp (by omega)
    have nextSolid : ',' ∉ e.next.name.cell := List.count_eq_zero.mp (by omega)
    rw [splitOn_eq_singleton_iff.mpr prevSolid, splitOn_eq_singleton_iff.mpr nextSolid] at same
    simp only [List.cons_append, List.nil_append, List.cons.injEq, true_and, and_true] at same
    exact ⟨Comm.clean_iff.mpr ⟨prevSolid, same.1⟩, Comm.clean_iff.mpr ⟨nextSolid, same.2⟩⟩
  · intro clean
    rcases clean with ⟨prevClean, nextClean⟩
    obtain ⟨prevSolid, prevSame⟩ := Comm.clean_iff.mp prevClean
    obtain ⟨nextSolid, nextSame⟩ := Comm.clean_iff.mp nextClean
    rw [splitOn_eq_singleton_iff.mpr prevSolid, splitOn_eq_singleton_iff.mpr nextSolid, prevSame,
      nextSame]
    rfl

/-- The task `a,b` in place of a plain one: nine columns. -/
def commaEvent : FixedEvent :=
  switchEvent ⟨⟨"a,b".toList, by decide, by decide⟩, 7⟩ ⟨⟨"sh".toList, by decide, by decide⟩, 8⟩ 12

/-- `make_it_csv` writes, for each event, one row with its eight columns exactly
when every name is clean. -/
theorem makeItCsv_columns_iff (events : List FixedEvent) :
    (makeItCsv (getOnlySwitchField (events.map fun e => e.line))).csv.map
        (fun row => row.splitOn ',') = events.map columns ↔
      ∀ e ∈ events, e.prev.name.Clean ∧ e.next.name.Clean := by
  rw [csv_eq_map_row, List.map_map, List.map_inj_left]
  exact forall₂_congr fun e _ => splitOn_row_iff e

/-- The row of a task named `a,b` does not have the promised columns. -/
theorem makeItCsv_columns_fail :
    ¬ ∀ events : List FixedEvent,
      (makeItCsv (getOnlySwitchField (events.map fun e => e.line))).csv.map
        (fun row => row.splitOn ',') = events.map columns := by
  intro all
  have same := all [commaEvent]
  rw [csv_eq_map_row, List.map_cons, List.map_cons, List.map_cons, List.cons.injEq,
    splitOn_row_iff] at same
  exact absurd same.1.1 (by decide)

end FixedEvent

end StudyLinux
