import StudyLinux.Ftrace.Layout
import StudyLinux.Text.Grep

/-!
# The header columns of sched_event_parser.sh

Three header columns are cut at fixed positions, the event name is the second
field between colons. Runs of blanks are squeezed, so a column is compared by its
words. On headers that keep to their columns cpu and time are always right; the
task column stops one short of the pid's last column, and a colon in a task name
moves the event name (`sameColumns_iff`).
-/

namespace StudyLinux

/-! ## The stages -/

/-- `grep sched_switch`. -/
def schedSwitch (input : File) : File := grep "sched_switch".toList input

/-- `cut -c'-21' | tr -s " "`. -/
def columnCurrentTaskpid (schedSwitch : File) : File :=
  schedSwitch.map fun line => trSqueeze ' ' (cutColumns 1 21 line)

/-- `cut -c'24-28' | tr -s " "`. -/
def columnCpu (schedSwitch : File) : File :=
  schedSwitch.map fun line => trSqueeze ' ' (cutColumns 24 28 line)

/-- `cut -c'34-46' | tr -s " "`. -/
def columnTimestamp (schedSwitch : File) : File :=
  schedSwitch.map fun line => trSqueeze ' ' (cutColumns 34 46 line)

/-- `cut -d':' -f2 | tr -s " "`. -/
def columnEventname (schedSwitch : File) : File :=
  schedSwitch.map fun line => trSqueeze ' ' (cutField ':' 2 line)

/-- The character that `tr -s " "` squeezes. -/
def isSpace (c : Char) : Bool := c == ' '

/-- The words of a line between blanks. -/
def blankWords (line : Text) : List Text := wordsBy isSpace line

/-- A column holds, line by line, the given texts, up to the number of blanks
between words and blanks at the ends of a line. -/
def SameColumn (column : File) (texts : List Text) : Prop :=
  column.map blankWords = texts.map blankWords

/-- The four columns hold what the headers say. -/
def SameColumns (events : List FixedEvent) : Prop :=
  let lines := schedSwitch (events.map fun e => e.line)
  SameColumn (columnCurrentTaskpid lines)
      (events.map fun e => e.comm.text ++ '-' :: decimal e.pid) ∧
    SameColumn (columnCpu lines) (events.map fun e => '[' :: zeroPadded 3 e.cpu ++ [']']) ∧
    SameColumn (columnTimestamp lines) (events.map fun e => fixedPoint 6 e.time) ∧
    SameColumn (columnEventname lines) (events.map fun _ => SwitchEvent.eventName)

/-- Every line of events is selected. -/
theorem SwitchEvent.schedSwitch_lines (events : List SwitchEvent) :
    schedSwitch (events.map line) = events.map line :=
  grep_lines (by decide) (by decide) events

/-! ## The task column -/

namespace FixedEvent

variable (e : FixedEvent)

theorem take_rightpad_pid (short : e.pid < 10 ^ 4) :
    (List.rightpad 5 ' ' (decimal e.pid)).take 4 =
      decimal e.pid ++ List.replicate (4 - (decimal e.pid).length) ' ' := by
  have width : (decimal e.pid).length ≤ 4 := (length_decimal_le (by decide)).mpr short
  rw [List.rightpad, List.take_append, List.take_of_length_le width, List.take_replicate]
  congr 2
  omega

/-- The task column is right exactly when the pid leaves its last column free. -/
theorem blankWords_task_iff :
    blankWords (trSqueeze ' ' (cutColumns 1 21 e.line)) =
      blankWords (e.comm.text ++ '-' :: decimal e.pid) ↔ e.pid < 10 ^ 4 := by
  have blank : isSpace ' ' := rfl
  rw [blankWords, blankWords, wordsBy_trSqueeze blank, cutColumns_task, List.leftpad,
    List.append_assoc, wordsBy_replicate_append blank]
  constructor
  · intro same
    by_contra long
    have four : 4 < (decimal e.pid).length := by
      by_contra narrow
      exact long ((length_decimal_le (by decide)).mp (not_lt.mp narrow))
    have solid : ∀ c ∈ decimal e.pid, !isSpace c := fun c member => by
      have digit := isDigit_of_mem_decimal member
      rw [Bool.not_eq_true', isSpace, beq_eq_false_iff_ne]
      intro same
      subst same
      exact absurd digit (by decide)
    have flat := congrArg (fun ws => ws.flatten.length) same
    simp only [flatten_wordsBy, List.filter_append, List.length_append] at flat
    rw [List.filter_cons_of_pos (by decide), List.filter_cons_of_pos (by decide), List.rightpad,
      List.take_append_of_le_length four.le, List.filter_eq_self.mpr solid,
      List.filter_eq_self.mpr fun c member => solid c (List.mem_of_mem_take member),
      List.length_cons, List.length_cons, List.length_take] at flat
    omega
  · intro short
    rw [take_rightpad_pid e short, ← List.cons_append, ← List.append_assoc,
      wordsBy_append_replicate blank]

theorem blankWords_cpu :
    blankWords (trSqueeze ' ' (cutColumns 24 28 e.line)) =
      blankWords ('[' :: zeroPadded 3 e.cpu ++ [']']) := by
  rw [blankWords, wordsBy_trSqueeze rfl, cutColumns_cpu]
  rfl

theorem blankWords_timestamp :
    blankWords (trSqueeze ' ' (cutColumns 34 46 e.line)) = blankWords (fixedPoint 6 e.time) := by
  rw [blankWords, wordsBy_trSqueeze rfl, cutColumns_stamp, wordsBy_cons rfl, SwitchEvent.stamp_eq,
    wordsBy_replicate_append rfl]
  rfl

/-! ## The event name -/

/-- The header between the name and the colon behind the time. -/
def middle : Text :=
  '-' :: (List.rightpad 5 ' ' (decimal e.pid) ++ " [".toList ++ zeroPadded 3 e.cpu ++
    "] ".toList ++ e.flags ++ ' ' :: e.stamp)

theorem line_eq_middle :
    e.line = List.leftpad 16 ' ' e.comm.text ++ (e.middle ++ ':' ::
      (' ' :: SwitchEvent.eventName ++ ':' :: e.payload)) := by
  rw [SwitchEvent.line, SwitchEvent.header, SwitchEvent.origin, middle,
    show ": ".toList = [':', ' '] by decide, show ":".toList = [':'] by decide]
  simp only [List.append_assoc, List.cons_append, List.nil_append]

theorem colon_not_mem_middle : ':' ∉ e.middle := by
  have pid : ':' ∉ decimal e.pid := not_mem_decimal (by decide) e.pid
  have cpu : ':' ∉ zeroPadded 3 e.cpu := fun member =>
    absurd (isDigit_of_mem_zeroPadded member) (by decide)
  have flags : ':' ∉ e.flags := fun member => absurd (e.flags_chars _ member) (by decide)
  have stamp : ':' ∉ fixedPoint 6 e.time := fun member => absurd (mem_fixedPoint member) (by decide)
  rw [middle, SwitchEvent.stamp_eq, List.rightpad]
  simp [pid, cpu, flags, stamp]

end FixedEvent

/-- A name that does not move the event name: either it has no colon, or the text
between its first two colons is the event name itself. -/
def Comm.KeepsEventname (name : Comm) : Prop :=
  ':' ∉ name.text ∨
    2 ≤ name.text.count ':' ∧ blankWords (cutField ':' 2 name.text) = [SwitchEvent.eventName]

instance (name : Comm) : Decidable name.KeepsEventname := inferInstanceAs (Decidable (_ ∨ _))

/-- The second field, when the text in front of the first colon is known. -/
theorem cutField_two {a b c : Text} (first : ':' ∉ a) (second : ':' ∉ b) :
    cutField ':' 2 (a ++ ':' :: (b ++ ':' :: c)) = b := by
  rw [cutField, if_pos (by simp), splitOn_append_cons, splitOn_append_cons,
    splitOn_eq_singleton_iff.mpr first, splitOn_eq_singleton_iff.mpr second]
  rfl

namespace FixedEvent

variable (e : FixedEvent)

theorem colon_not_mem_padded {a : Text} (solid : ':' ∉ a) :
    ':' ∉ List.replicate (16 - e.comm.text.length) ' ' ++ a := by
  rw [List.mem_append, not_or]
  exact ⟨by simp, solid⟩

/-- Two colons in the name: the field is the part of it between them. -/
theorem cutField_line_of_two {a b c : Text} (name : e.comm.text = a ++ ':' :: (b ++ ':' :: c))
    (first : ':' ∉ a) (second : ':' ∉ b) : cutField ':' 2 e.line = b := by
  have padded := e.colon_not_mem_padded first
  rw [line_eq_middle, List.leftpad]
  generalize List.replicate (16 - e.comm.text.length) ' ' = pad at *
  rw [name, ← List.append_assoc pad, List.append_assoc, List.cons_append, List.append_assoc b,
    List.cons_append]
  exact cutField_two padded second

/-- One colon: the field goes on with the pid. -/
theorem cutField_line_of_one {a rest : Text} (name : e.comm.text = a ++ ':' :: rest)
    (first : ':' ∉ a) (last : ':' ∉ rest) : cutField ':' 2 e.line = rest ++ e.middle := by
  have padded := e.colon_not_mem_padded first
  have solid : ':' ∉ rest ++ e.middle := by
    rw [List.mem_append, not_or]
    exact ⟨last, e.colon_not_mem_middle⟩
  rw [line_eq_middle, List.leftpad]
  generalize List.replicate (16 - e.comm.text.length) ' ' = pad at *
  rw [name, ← List.append_assoc pad, List.append_assoc, List.cons_append, ← List.append_assoc rest]
  exact cutField_two padded solid

/-- No colon: the field is the event name. -/
theorem cutField_line_of_none (none : ':' ∉ e.comm.text) :
    cutField ':' 2 e.line = ' ' :: SwitchEvent.eventName := by
  rw [line_eq_middle, List.leftpad, ← List.append_assoc]
  refine cutField_two ?_ (by decide)
  rw [List.mem_append, not_or]
  exact ⟨e.colon_not_mem_padded none, e.colon_not_mem_middle⟩

/-- A field that goes on with the pid has a dash, the event name has none. -/
theorem blankWords_append_middle_ne (rest : Text) :
    blankWords (rest ++ e.middle) ≠ [SwitchEvent.eventName] := by
  intro same
  have flat := congrArg List.flatten same
  rw [blankWords, flatten_wordsBy] at flat
  have dash : '-' ∈ e.middle := List.mem_cons_self
  have there : '-' ∈ (rest ++ e.middle).filter fun c => !isSpace c :=
    List.mem_filter.mpr ⟨List.mem_append_right rest dash, rfl⟩
  rw [flat] at there
  exact absurd there (by decide)

/-- The event name is the second field exactly when the task name keeps it there. -/
theorem blankWords_eventname_iff :
    blankWords (trSqueeze ' ' (cutField ':' 2 e.line)) = blankWords SwitchEvent.eventName ↔
      e.comm.KeepsEventname := by
  have word : blankWords SwitchEvent.eventName = [SwitchEvent.eventName] := by decide
  have squeezed : blankWords (trSqueeze ' ' (cutField ':' 2 e.line)) =
      blankWords (cutField ':' 2 e.line) := wordsBy_trSqueeze rfl _
  rw [squeezed, word, Comm.KeepsEventname]
  by_cases colon : ':' ∈ e.comm.text
  · obtain ⟨a, rest, split, aSolid⟩ := List.eq_append_cons_of_mem colon
    rw [or_iff_right (not_not.mpr colon)]
    by_cases again : ':' ∈ rest
    · obtain ⟨b, c, rfl, bSolid⟩ := List.eq_append_cons_of_mem again
      have two : 2 ≤ (a ++ ':' :: (b ++ ':' :: c)).count ':' := by
        rw [List.count_append, List.count_cons_self, List.count_append, List.count_cons_self]
        omega
      rw [e.cutField_line_of_two split aSolid bSolid, split, cutField_two aSolid bSolid]
      exact (and_iff_right two).symm
    · have once : (a ++ ':' :: rest).count ':' = 1 := by
        rw [List.count_append, List.count_cons_self, List.count_eq_zero.mpr aSolid,
          List.count_eq_zero.mpr again]
      rw [e.cutField_line_of_one split aSolid again, split, once]
      exact iff_of_false (e.blankWords_append_middle_ne rest) fun keeps =>
        absurd keeps.1 (by decide)
  · rw [e.cutField_line_of_none colon]
    exact iff_of_true (by decide) (Or.inl colon)

/-! ## The four columns -/

theorem schedSwitch_lines (events : List FixedEvent) :
    schedSwitch (events.map fun e => e.line) = events.map fun e => e.line := by
  have selected := SwitchEvent.schedSwitch_lines (events.map toSwitchEvent)
  rwa [List.map_map] at selected

/-- A column computed line by line, against a text for each event. -/
theorem sameColumn_map_iff {events : List FixedEvent} {cut : Text → Text}
    {text : FixedEvent → Text} :
    SameColumn ((events.map fun e => e.line).map cut) (events.map text) ↔
      ∀ e ∈ events, blankWords (cut e.line) = blankWords (text e) := by
  rw [SameColumn, List.map_map, List.map_map, List.map_map, List.map_inj_left]
  rfl

/-- The columns hold what the headers say exactly when every pid has at most four
digits and every task name keeps the event name in its field. -/
theorem sameColumns_iff (events : List FixedEvent) :
    SameColumns events ↔ ∀ e ∈ events, e.pid < 10 ^ 4 ∧ e.comm.KeepsEventname := by
  rw [SameColumns, schedSwitch_lines]
  simp only [columnCurrentTaskpid, columnCpu, columnTimestamp, columnEventname, sameColumn_map_iff,
    blankWords_task_iff, blankWords_cpu, blankWords_timestamp, blankWords_eventname_iff]
  constructor
  · rintro ⟨task, -, -, name⟩ e member
    exact ⟨task e member, name e member⟩
  · intro both
    exact ⟨fun e member => (both e member).1, fun _ _ => trivial, fun _ _ => trivial,
      fun e member => (both e member).2⟩

def bash : Comm := ⟨"bash".toList, by decide, by decide⟩

/-- A shell with the pid 12345. -/
def longPidEvent : FixedEvent where
  toSwitchEvent :=
    { (switchEvent ⟨bash, 12345⟩ ⟨bash, 7⟩ 12).toSwitchEvent with
      comm := bash
      pid := 12345 }
  fits := by decide

/-- The last digit of a five-digit pid is cut off. -/
theorem sameColumns_fail : ¬ ∀ events : List FixedEvent, SameColumns events := by
  intro all
  have task := (all [longPidEvent]).1
  rw [schedSwitch_lines] at task
  have short := (blankWords_task_iff _).mp (sameColumn_map_iff.mp task _ List.mem_cons_self)
  exact absurd short (by decide)

end FixedEvent

end StudyLinux
