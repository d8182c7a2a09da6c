import StudyLinux.Text.Decimal

/-!
# sched_switch events and their trace lines

The event records and the text ftrace prints for them. The header is printed
with minimum widths (`%16s-%-5d [%03d] ffff %5lu.%06lu: `): a value that is too
wide pushes everything behind it to the right. `SwitchEvent.FixedWidth` says that
nothing is too wide; then the header ends in column 61 and each of its parts
stands in the columns the scripts cut.
-/

namespace StudyLinux

/-! ## Records -/

/-- A task name as the kernel keeps it: up to fifteen bytes, without a newline
or a NUL, otherwise whatever the program asked for. -/
structure Comm where
  text : Text
  short : text.length ≤ 15
  line : ∀ c ∈ text, c ≠ '\n' ∧ c ≠ Char.ofNat 0
  deriving DecidableEq

/-- A task is a name and a pid; threads that rename themselves count as new. -/
structure Task where
  name : Comm
  pid : Nat
  deriving DecidableEq

/-- The characters of a task state such as `R`, `R+` or `S|K`. -/
def isStateChar (c : Char) : Bool := c.isAlphanum || c == '|' || c == '+'

/-- The characters of the four irq, resched, softirq and preempt flags. -/
def isFlagChar (c : Char) : Bool := c.isAlphanum || c == '.'

/-- A sched_switch event. `comm`, `pid` and `cpu` are those of the header; the
time is in microseconds. -/
structure SwitchEvent where
  comm : Comm
  pid : Nat
  cpu : Nat
  flags : Text
  time : Nat
  prev : Task
  prevPrio : Int
  prevState : Text
  next : Task
  nextPrio : Int
  flags_length : flags.length = 4
  flags_chars : ∀ c ∈ flags, isFlagChar c
  state_chars : ∀ c ∈ prevState, isStateChar c

/-- Text in chunks, each behind a blank. -/
def blankChunks (chunks : List Text) : Text := chunks.flatMap (' ' :: ·)

@[simp] theorem blankChunks_nil : blankChunks [] = [] := rfl

@[simp] theorem blankChunks_cons (chunk : Text) (chunks : List Text) :
    blankChunks (chunk :: chunks) = ' ' :: (chunk ++ blankChunks chunks) := rfl

namespace SwitchEvent

/-! ## The line -/

/-- `sssss.uuuuuu`, the seconds padded to five columns. -/
def stamp (e : SwitchEvent) : Text :=
  List.leftpad 5 ' ' (decimal (e.time / 10 ^ 6)) ++ '.' :: zeroPadded 6 (e.time % 10 ^ 6)

/-- What stands in front of the time: task, cpu and flags. -/
def origin (e : SwitchEvent) : Text :=
  List.leftpad 16 ' ' e.comm.text ++ '-' :: (List.rightpad 5 ' ' (decimal e.pid) ++
    " [".toList ++ zeroPadded 3 e.cpu ++ "] ".toList ++ e.flags)

/-- The event name as the header ends in it. -/
def eventName : Text := "sched_switch".toList

/-- The payload, from the blank in front of `prev_comm=` on. -/
def payload (e : SwitchEvent) : Text :=
  blankChunks
    ["prev_comm=".toList ++ e.prev.name.text, "prev_pid=".toList ++ decimal e.prev.pid,
      "prev_prio=".toList ++ decimalInt e.prevPrio, "prev_state=".toList ++ e.prevState,
      "==>".toList, "next_comm=".toList ++ e.next.name.text,
      "next_pid=".toList ++ decimal e.next.pid, "next_prio=".toList ++ decimalInt e.nextPrio]

/-- The header with the event name and its colon. -/
def header (e : SwitchEvent) : Text :=
  e.origin ++ ' ' :: (e.stamp ++ (": ".toList ++ eventName ++ ":".toList))

/-- The trace line. -/
def line (e : SwitchEvent) : Text := e.header ++ e.payload

/-! ## Widths -/

/-- No value is wider than its columns. -/
structure FixedWidth (e : SwitchEvent) : Prop where
  pid : e.pid < 10 ^ 5
  cpu : e.cpu < 10 ^ 3
  time : e.time < 10 ^ 11

instance (e : SwitchEvent) : Decidable e.FixedWidth :=
  decidable_of_iff (e.pid < 10 ^ 5 ∧ e.cpu < 10 ^ 3 ∧ e.time < 10 ^ 11)
    ⟨fun ⟨pid, cpu, time⟩ => ⟨pid, cpu, time⟩, fun ⟨pid, cpu, time⟩ => ⟨pid, cpu, time⟩⟩

/-- The time without its padding. -/
theorem stamp_eq (e : SwitchEvent) :
    e.stamp = List.replicate (5 - (decimal (e.time / 10 ^ 6)).length) ' ' ++
      fixedPoint 6 e.time := by
  rw [stamp, List.leftpad, List.append_assoc, fixedPoint]

/-- A name is never wider than its columns. -/
theorem length_leftpad_comm (e : SwitchEvent) :
    (List.leftpad 16 ' ' e.comm.text).length = 16 := by
  have short := e.comm.short
  rw [List.length_leftpad]
  exact max_eq_left (by omega)

theorem length_origin (e : SwitchEvent) :
    e.origin.length =
      17 + max 5 (decimal e.pid).length + 2 + (zeroPadded 3 e.cpu).length + 2 + 4 := by
  simp only [origin, List.length_append, List.length_cons, e.length_leftpad_comm,
    List.length_rightpad,
    e.flags_length, String.length_toList]
  simp only [show " [".length = 2 by decide, show "] ".length = 2 by decide]
  omega

theorem length_stamp (e : SwitchEvent) :
    e.stamp.length = max 5 (decimal (e.time / 10 ^ 6)).length + 7 := by
  rw [stamp, List.length_append, List.length_leftpad, List.length_cons,
    length_zeroPadded (by decide) (Nat.mod_lt _ (Nat.pow_pos (by decide)))]

theorem length_header (e : SwitchEvent) :
    e.header.length = e.origin.length + e.stamp.length + 16 := by
  have closing : (": ".toList ++ eventName ++ ":".toList).length = 15 := by decide
  rw [header, List.length_append, List.length_cons, List.length_append, closing]
  rfl

/-- The widths of the three values that may be too wide. -/
theorem width_le_iff (e : SwitchEvent) :
    e.FixedWidth ↔ (decimal e.pid).length ≤ 5 ∧ (decimal e.cpu).length ≤ 3 ∧
      (decimal (e.time / 10 ^ 6)).length ≤ 5 := by
  rw [length_decimal_le (by decide), length_decimal_le (by decide), length_decimal_le (by decide),
    Nat.div_lt_iff_lt_mul (Nat.pow_pos (by decide)), ← pow_add]
  exact ⟨fun ⟨pid, cpu, time⟩ => ⟨pid, cpu, time⟩, fun ⟨pid, cpu, time⟩ => ⟨pid, cpu, time⟩⟩

/-- The header fills 61 columns exactly when nothing is too wide. -/
theorem length_header_eq_iff (e : SwitchEvent) : e.header.length = 61 ↔ e.FixedWidth := by
  rw [width_le_iff, length_header, length_origin, length_stamp, zeroPadded, List.length_leftpad]
  omega

theorem FixedWidth.length_origin {e : SwitchEvent} (fits : e.FixedWidth) :
    e.origin.length = 33 := by
  have narrow := (width_le_iff e).mp fits
  rw [SwitchEvent.length_origin, zeroPadded, List.length_leftpad]
  omega

theorem FixedWidth.length_stamp {e : SwitchEvent} (fits : e.FixedWidth) : e.stamp.length = 12 := by
  have narrow := (width_le_iff e).mp fits
  rw [SwitchEvent.length_stamp]
  omega

end SwitchEvent

/-- An event whose line follows the fixed-width layout that the scripts assume. -/
structure FixedEvent extends SwitchEvent where
  fits : toSwitchEvent.FixedWidth

/-! ## Single events -/

/-- A name of one character. -/
def plainComm (c : Char) (line : c ≠ '\n' ∧ c ≠ Char.ofNat 0) : Comm :=
  ⟨[c], by simp, by simpa using line⟩

/-- A switch on CPU 0, full seconds after boot, below the 100000 that fit. -/
def switchEvent (prev next : Task) (seconds : Nat) : FixedEvent where
  comm := plainComm 's' (by decide)
  pid := 1
  cpu := 0
  flags := ['d', '.', '.', '3']
  time := seconds % 10 ^ 5 * 10 ^ 6
  prev := prev
  prevPrio := 120
  prevState := ['S']
  next := next
  nextPrio := 120
  flags_length := rfl
  flags_chars := by decide
  state_chars := by decide
  fits := ⟨show 1 < 10 ^ 5 by decide, show 0 < 10 ^ 3 by decide,
    show seconds % 10 ^ 5 * 10 ^ 6 < 10 ^ 11 by omega⟩

end StudyLinux
