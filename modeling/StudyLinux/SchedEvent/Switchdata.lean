import StudyLinux.Kevent.Rows
import StudyLinux.SchedEvent.Columns

/-!
# The payload columns of sched_event_parser.sh

The script runs the sed program of kevent_parser.sh on the same columns of a line, but
it splits the result at commas and deletes blanks in the names, where the other script
deletes four characters and leaves the split to its readers. Deleting commutes with
splitting, so the two agree on the first eight fields up to these characters, for all
names (`firstEight_eq_columns`).
-/

namespace StudyLinux

/-! ## The stages -/

/-- `cut -c'62-' | sed '…' | sed 's/ ,/,/g'`, for one line. -/
def formatted2Of (line : Text) : Text := sedSubst [' ', ','] [','] (sedMarkers (cutFrom 62 line))

/-- `sched_switch.formatted2`. -/
def formatted2 (schedSwitch : File) : File := schedSwitch.map formatted2Of

/-- `cut -d',' -fk` of `sched_switch.formatted2`. -/
def payloadColumn (k : Nat) (schedSwitch : File) : File :=
  (formatted2 schedSwitch).map (cutField ',' k)

/-- `sed 's/ //g'`. -/
def withoutBlanks (column : File) : File := column.map (sedSubst [' '] [])

def columnCurrname (schedSwitch : File) : File := withoutBlanks (payloadColumn 1 schedSwitch)

def columnCurrpid (schedSwitch : File) : File := payloadColumn 2 schedSwitch

def columnCurrprio (schedSwitch : File) : File := payloadColumn 3 schedSwitch

def columnCurrstate (schedSwitch : File) : File := payloadColumn 4 schedSwitch

def columnNextname (schedSwitch : File) : File := withoutBlanks (payloadColumn 5 schedSwitch)

def columnNextpid (schedSwitch : File) : File := payloadColumn 6 schedSwitch

def columnNextprio (schedSwitch : File) : File := payloadColumn 7 schedSwitch

/-- The columns in the order of the csv of the other script. -/
def csvColumns (schedSwitch : File) : List File :=
  [columnTimestamp schedSwitch, columnCurrname schedSwitch, columnCurrpid schedSwitch,
    columnCurrprio schedSwitch, columnCurrstate schedSwitch, columnNextname schedSwitch,
    columnNextpid schedSwitch, columnNextprio schedSwitch]

/-- What the eight columns hold of one line. -/
def eightCuts : List (Text → Text) :=
  [fun line => trSqueeze ' ' (cutColumns 34 46 line),
    fun line => sedSubst [' '] [] (cutField ',' 1 (formatted2Of line)),
    fun line => cutField ',' 2 (formatted2Of line),
    fun line => cutField ',' 3 (formatted2Of line),
    fun line => cutField ',' 4 (formatted2Of line),
    fun line => sedSubst [' '] [] (cutField ',' 5 (formatted2Of line)),
    fun line => cutField ',' 6 (formatted2Of line),
    fun line => cutField ',' 7 (formatted2Of line)]

/-- The first eight fields of a csv row, without the four characters. -/
def firstEight (row : Text) : List Text := ((row.splitOn ',').take 8).map (trDelete deleted)

/-- Line `k` of every column, without the four characters. -/
def columnsAt (columns : List File) (k : Nat) : Option (List Text) :=
  columns.mapM fun column => column[k]?.map (trDelete deleted)

/-! ## One line -/

namespace SwitchEvent

variable (e : SwitchEvent)

theorem trDelete_formatted2Of : trDelete deleted (formatted2Of e.line) = switchdataOf e.line := by
  rw [switchdataOf_eq, formatted2Of, trDelete_sedSubst (by decide) (by decide)]

/-- The fields of a csv row behind the time are those of `sched_switch.formatted2`. -/
theorem splitOn_csvRow_eq :
    e.csvRow.splitOn ',' =
      timestampOf e.line :: ((formatted2Of e.line).splitOn ',').map (trDelete deleted) := by
  have kept : ',' ∉ deleted := by decide
  rw [csvRow, splitOn_append_cons, splitOn_eq_singleton_iff.mpr e.comma_not_mem_timestampOf,
    ← trDelete_formatted2Of, splitOn_trDelete kept, List.singleton_append]

/-- The two scripts cut the same eight fields out of a line. -/
theorem firstEight_csvRow :
    firstEight e.csvRow = eightCuts.map fun cut => trDelete deleted (cut e.line) := by
  have blank : ' ' ∈ deleted := by decide
  have inside : ∀ c ∈ [' '], c ∈ deleted := by decide
  have twice (text : Text) : trDelete deleted (trDelete deleted text) = trDelete deleted text :=
    trDelete_trDelete (fun _ listed => listed) text
  have time : trDelete deleted (timestampOf e.line) =
      trDelete deleted (trSqueeze ' ' (cutColumns 34 46 e.line)) := by
    rw [timestampOf, trDelete_trDelete inside, trDelete_trSqueeze blank]
  have name (text : Text) : trDelete deleted (sedSubst [' '] [] text) = trDelete deleted text :=
    trDelete_sedSubst (by decide) (by decide) text
  have eight := e.le_length_splitOn_csvRow
  rw [splitOn_csvRow_eq, List.length_cons, List.length_map] at eight
  have seven : ((formatted2Of e.line).splitOn ',').take 7 =
      (List.range 7).map fun k => cutField ',' (k + 1) (formatted2Of e.line) :=
    take_splitOn (by omega) (by omega)
  rw [firstEight, splitOn_csvRow_eq, List.take_succ_cons, ← List.map_take, seven]
  simp only [eightCuts, List.map_cons, List.map_nil, List.map_map, Function.comp_def, twice, time,
    name]
  rfl

end SwitchEvent

/-! ## The files -/

theorem csvColumns_eq (schedSwitch : File) :
    csvColumns schedSwitch = eightCuts.map fun cut => schedSwitch.map cut := by
  simp only [csvColumns, eightCuts, columnTimestamp, columnCurrname, columnCurrpid, columnCurrprio,
    columnCurrstate, columnNextname, columnNextpid, columnNextprio, withoutBlanks, payloadColumn,
    formatted2, List.map_map, List.map_cons, List.map_nil, Function.comp_def]

/-- Line `k` of columns that are computed line by line. -/
theorem columnsAt_map (cuts : List (Text → Text)) (nonempty : cuts ≠ []) (lines : File) (k : Nat) :
    columnsAt (cuts.map fun cut => lines.map cut) k =
      lines[k]?.map fun line => cuts.map fun cut => trDelete deleted (cut line) := by
  unfold columnsAt
  rw [List.mapM_map]
  simp only [Function.comp_def, List.getElem?_map, Option.map_map]
  cases lines[k]? with
  | none =>
      obtain ⟨cut, cuts, rfl⟩ := List.exists_cons_of_ne_nil nonempty
      rw [List.mapM_cons]
      rfl
  | some line => exact List.mapM_pure

/-- For every list of events and every `k`: row `k` of the csv of kevent_parser.sh and
line `k` of the eight columns of sched_event_parser.sh agree, up to the deleted
characters, and one exists when the other does. -/
theorem firstEight_eq_columns (events : List SwitchEvent) (k : Nat) :
    (makeItCsv (getOnlySwitchField (events.map SwitchEvent.line))).csv[k]?.map firstEight =
      columnsAt (csvColumns (schedSwitch (events.map SwitchEvent.line))) k := by
  have some : eightCuts ≠ [] := List.cons_ne_nil _ _
  rw [SwitchEvent.csv_eq_map_csvRow, SwitchEvent.schedSwitch_lines, csvColumns_eq,
    columnsAt_map eightCuts some, List.getElem?_map, List.getElem?_map, Option.map_map,
    Option.map_map]
  refine congrArg (fun f => events[k]?.map f) (funext fun e => ?_)
  exact e.firstEight_csvRow

end StudyLinux
