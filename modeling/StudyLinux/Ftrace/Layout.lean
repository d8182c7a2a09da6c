import StudyLinux.Ftrace.Event
import StudyLinux.Text.Grep

/-!
# Columns of the fixed-width layout

When no value is too wide, every part of the header stands in the columns both
scripts cut: the task in 1 to 22, the cpu in 24 to 28, the time behind the blank
in column 34, the payload from column 62 on. A header with a wider value is
longer, and column 62 is then no longer where the payload starts
(`cutFrom_line_iff`).
-/

namespace StudyLinux

namespace SwitchEvent

/-- The header never ends in front of column 61. -/
theorem le_length_header (e : SwitchEvent) : 61 ≤ e.header.length := by
  rw [length_header, length_origin, length_stamp, zeroPadded, List.length_leftpad]
  omega

/-- Column 62 is where the payload starts exactly when no value is too wide. -/
theorem cutFrom_line_iff (e : SwitchEvent) : cutFrom 62 e.line = e.payload ↔ e.FixedWidth := by
  rw [← length_header_eq_iff]
  constructor
  · intro same
    have filled := e.le_length_header
    have lengths := congrArg List.length same
    rw [cutFrom, line, List.length_drop, List.length_append] at lengths
    omega
  · intro width
    exact cutFrom_append (by rw [width])

theorem eventName_infix_line (e : SwitchEvent) : "sched_switch:".toList <:+: e.line := by
  have name : "sched_switch:".toList = eventName ++ ":".toList := by decide
  refine ⟨e.origin ++ ' ' :: (e.stamp ++ ": ".toList), e.payload, ?_⟩
  rw [line, header, name]
  simp only [List.append_assoc, List.cons_append]

/-- A part of the event name and its colon selects every line of events. -/
theorem grep_lines {pat : Text} (literal : ∀ c ∈ pat, IsLiteral c)
    (part : pat <:+: "sched_switch:".toList) (events : List SwitchEvent) :
    grep pat (events.map line) = events.map line := by
  refine grep_eq_self fun text member => ?_
  obtain ⟨e, -, rfl⟩ := List.mem_map.mp member
  exact (matchesLine_iff literal).mpr (part.trans e.eventName_infix_line)

end SwitchEvent

namespace FixedEvent

variable (e : FixedEvent)

theorem length_rightpad_pid : (List.rightpad 5 ' ' (decimal e.pid)).length = 5 := by
  have narrow := ((SwitchEvent.width_le_iff _).mp e.fits).1
  rw [List.length_rightpad]
  exact max_eq_left narrow

theorem length_zeroPadded_cpu : (zeroPadded 3 e.cpu).length = 3 :=
  length_zeroPadded (by decide) e.fits.cpu

/-- The task column loses the last column of the pid. -/
theorem cutColumns_task :
    cutColumns 1 21 e.line =
      List.leftpad 16 ' ' e.comm.text ++ '-' :: (List.rightpad 5 ' ' (decimal e.pid)).take 4 := by
  have shape : e.line = [] ++ (List.leftpad 16 ' ' e.comm.text ++
      '-' :: (List.rightpad 5 ' ' (decimal e.pid)).take 4) ++
      ((List.rightpad 5 ' ' (decimal e.pid)).drop 4 ++ (" [".toList ++ zeroPadded 3 e.cpu ++
        "] ".toList ++ e.flags ++ ' ' :: (e.stamp ++ (": ".toList ++ SwitchEvent.eventName ++
          ":".toList)) ++ e.payload)) := by
    rw [SwitchEvent.line, SwitchEvent.header, SwitchEvent.origin]
    conv_lhs => rw [← List.take_append_drop 4 (List.rightpad 5 ' ' (decimal e.pid))]
    simp only [List.append_assoc, List.cons_append, List.nil_append]
  have name := e.length_leftpad_comm
  have pid := e.length_rightpad_pid
  rw [shape]
  refine cutColumns_append rfl ?_
  simp only [List.length_append, List.length_cons, List.length_take, List.length_nil, name, pid]
  rfl

theorem cutColumns_cpu : cutColumns 24 28 e.line = '[' :: zeroPadded 3 e.cpu ++ [']'] := by
  have shape : e.line = (List.leftpad 16 ' ' e.comm.text ++ '-' ::
      (List.rightpad 5 ' ' (decimal e.pid) ++ [' '])) ++ ('[' :: zeroPadded 3 e.cpu ++ [']']) ++
        (' ' :: (e.flags ++ ' ' :: (e.stamp ++ (": ".toList ++ SwitchEvent.eventName ++
          ":".toList)) ++ e.payload)) := by
    rw [SwitchEvent.line, SwitchEvent.header, SwitchEvent.origin,
      show " [".toList = [' ', '['] by decide, show "] ".toList = [']', ' '] by decide]
    simp only [List.append_assoc, List.cons_append, List.nil_append]
  have name := e.length_leftpad_comm
  have pid := e.length_rightpad_pid
  have cpu := e.length_zeroPadded_cpu
  rw [shape]
  refine cutColumns_append ?_ ?_ <;>
    simp only [List.length_append, List.length_cons, List.length_nil, name, pid, cpu]

theorem cutColumns_stamp : cutColumns 34 46 e.line = ' ' :: e.stamp := by
  have shape : e.line = e.origin ++ ' ' :: e.stamp ++
      (": ".toList ++ SwitchEvent.eventName ++ ":".toList ++ e.payload) := by
    rw [SwitchEvent.line, SwitchEvent.header]
    simp only [List.append_assoc, List.cons_append]
  have start := e.fits.length_origin
  have width := e.fits.length_stamp
  rw [shape]
  exact cutColumns_append (by omega) (by rw [List.length_cons]; omega)

theorem cutFrom_line : cutFrom 62 e.line = e.payload := (SwitchEvent.cutFrom_line_iff _).mpr e.fits

end FixedEvent

end StudyLinux
