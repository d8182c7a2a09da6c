import StudyLinux.Kevent.Rows
import StudyLinux.Kevent.Tasklist

/-!
# Times of minimum-width headers

The kernel prints the header with minimum widths, the scripts cut it at fixed
columns. `ExactTimes` says what the later stages rely on, for traces of any
events: timestamps to the microsecond, payloads from their blank on, exact
differences, and per-task files in time order. It holds of the traces in which no
value is too wide (`exactTimes_iff`), and of no others.
-/

namespace StudyLinux

/-! ## Traces of any events -/

/-- The events whose rows an entry's pattern selects, in the order of the files. -/
def selected (p : Patterns) (events : Cpu → List SwitchEvent) (entry : Text) : List SwitchEvent :=
  fileList.flatMap fun cpu => (events cpu).filter fun e =>
    p.selects (entryPattern entry) e.csvRow

/-- `sorted` lists the rows that `grep_info_with_name_n_pid` collects for an entry, in
time order. -/
structure TimeOrdered (p : Patterns) (events : Cpu → List SwitchEvent) (entry : Text)
    (sorted : List SwitchEvent) : Prop where
  perm : sorted.Perm (selected p events entry)
  ordered : sorted.Pairwise fun e f => e.time ≤ f.time
  rows : entryRows p (csvsOf (linesOf events)) entry = sorted.map SwitchEvent.csvRow

/-- The times that the stages read are those of the events. -/
structure ExactTimes (events : Cpu → List SwitchEvent) : Prop where
  timestamp : ∀ cpu, (makeItCsv (getOnlySwitchField (linesOf events cpu))).timestamp =
    (events cpu).map fun e => fixedPoint 6 e.time
  payload : ∀ cpu, ∀ e ∈ events cpu, cutFrom 62 e.line = e.payload
  difference : ∀ cpu, ∀ e ∈ events cpu, ∀ cpu', ∀ f ∈ events cpu',
    (leadingNumber (bcDifference (timestampOf f.line) (timestampOf e.line))).value =
      ((f.time : ℚ) - e.time) / 10 ^ 6
  order : ∀ p entry, ∃ sorted, TimeOrdered p events entry sorted

/-! ## Traces that keep to the columns -/

/-- The events behind fixed-width events. -/
def plainEvents (fixed : Cpu → List FixedEvent) (cpu : Cpu) : List SwitchEvent :=
  (fixed cpu).map fun e => e.toSwitchEvent

/-- Events that fit are the events of the fixed-width layout. -/
theorem exists_fixedEvents {events : Cpu → List SwitchEvent}
    (fits : ∀ cpu, ∀ e ∈ events cpu, e.FixedWidth) :
    ∃ fixed : Cpu → List FixedEvent, events = plainEvents fixed := by
  refine ⟨fun cpu => (events cpu).pmap FixedEvent.mk (fits cpu), funext fun cpu => ?_⟩
  rw [plainEvents, List.map_pmap]
  exact (List.pmap_eq_self.mpr fun e member => rfl).symm

section Fixed

variable (fixed : Cpu → List FixedEvent)

theorem linesOf_plainEvents : linesOf (plainEvents fixed) = tracesOf fixed := by
  funext cpu
  rw [linesOf, plainEvents, List.map_map]
  rfl

theorem timestamp_plainEvents (cpu : Cpu) :
    (makeItCsv (getOnlySwitchField (linesOf (plainEvents fixed) cpu))).timestamp =
      (plainEvents fixed cpu).map fun e => fixedPoint 6 e.time := by
  rw [linesOf_plainEvents, tracesOf, FixedEvent.getOnlySwitchField_lines, plainEvents, List.map_map]
  exact (List.map_map).trans (List.map_congr_left fun e _ => FixedEvent.timestampOf_line e)

/-- The printed difference of two extracted times is their difference. -/
theorem bcDifference_lines (e f : FixedEvent) :
    (leadingNumber (bcDifference (timestampOf f.line) (timestampOf e.line))).value =
      ((f.time : ℚ) - e.time) / 10 ^ 6 := by
  rw [e.timestampOf_line, f.timestampOf_line, bcDifference, bcNumber_fixedPoint (by decide),
    bcNumber_fixedPoint (by decide)]
  simp only [fixedPoint_ne_nil, if_false]
  rw [leadingNumber_print (show 0 < max 6 6 by decide), Dec.value_sub, Dec.value, Dec.value,
    ← sub_div, Int.cast_natCast, Int.cast_natCast]

theorem selected_plainEvents (p : Patterns) (entry : Text) :
    selected p (plainEvents fixed) entry =
      (matching p fixed entry).map fun e => e.toSwitchEvent := by
  rw [selected, matching, List.map_flatMap]
  refine congrArg (fun rows => fileList.flatMap rows) (funext fun cpu => ?_)
  rw [plainEvents, List.filter_map]
  refine congrArg _ (List.filter_congr fun e _ => ?_)
  rw [Function.comp_apply, e.csvRow_eq]

/-- `sort -n` leaves the rows of the matching events in time order. -/
theorem timeOrdered_plainEvents (p : Patterns) (entry : Text) :
    TimeOrdered p (plainEvents fixed) entry
      ((matchingSorted p fixed entry).map fun e => e.toSwitchEvent) := by
  refine ⟨?_, ?_, ?_⟩
  · rw [selected_plainEvents]
    exact (sortBy_perm _ _).map _
  · rw [List.pairwise_map]
    exact matchingSorted_pairwise p fixed entry
  · rw [linesOf_plainEvents, entryRows_eq, List.map_map]
    exact List.map_congr_left fun e _ => e.csvRow_eq.symm

end Fixed

/-! ## Exactness -/

/-- CPU 0 switches after more than a day of uptime: six digits of seconds. -/
def lateEvents : Cpu → List SwitchEvent
  | .cpu0 => [{ (switchEvent taskA taskB 0).toSwitchEvent with time := 10 ^ 11 }]
  | _ => []

/-- The times are exact, for every task, when and only when no pid, cpu or time of
the traces is too wide for its columns. -/
theorem exactTimes_iff (events : Cpu → List SwitchEvent) :
    ExactTimes events ↔ ∀ cpu, ∀ e ∈ events cpu, e.FixedWidth := by
  constructor
  · intro exact cpu e member
    exact e.cutFrom_line_iff.mp (exact.payload cpu e member)
  · intro fits
    obtain ⟨fixed, rfl⟩ := exists_fixedEvents fits
    refine ⟨timestamp_plainEvents fixed, ?_, ?_,
      fun p entry => ⟨_, timeOrdered_plainEvents fixed p entry⟩⟩
    · intro cpu e member
      exact e.cutFrom_line_iff.mpr (fits cpu e member)
    · intro cpu e member cpu' f member'
      obtain ⟨e, -, rfl⟩ := List.mem_map.mp member
      obtain ⟨f, -, rfl⟩ := List.mem_map.mp member'
      exact bcDifference_lines e f

/-- After 100000 seconds of uptime the payload no longer starts in column 62. -/
theorem exactTimes_fail : ¬ ∀ events : Cpu → List SwitchEvent, ExactTimes events := by
  intro all
  have payload := (all lateEvents).payload .cpu0 _ List.mem_cons_self
  exact absurd (SwitchEvent.cutFrom_line_iff _ |>.mp payload) (by decide)

end StudyLinux
