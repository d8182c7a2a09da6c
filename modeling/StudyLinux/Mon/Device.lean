import StudyLinux.Text.Filter

/-!
# The device of mon.sh

mon.sh of the leak tracer works on a few files of a device and sends signals to the
process hudhmi. `Device` has the files the script names, with contents of any
type, and the log of what the script did to the process; what the process does is
an argument of each function. A function that may exit returns the status and the
device as it stands then.
-/

namespace StudyLinux

namespace Mon

/-! ## Files and events -/

/-- The files mon.sh names. Those of the first line are under /ccos/apps/hmi/hudhmi,
`newHudhmi`, `newStartSh` and `newLib` are in the directory it is run in. -/
inductive Path
  | hudhmi | hudhmiOrg | startSh | startShOrg | leaksOut
  | newHudhmi | newStartSh | newLib
  | lib
  | rwStatus | rwSmaps
  | logData (suffix : Text)
  deriving DecidableEq

/-- What the script does to the process. -/
inductive Event
  | stop
  | restart
  | kill (signal pid : Nat)
  deriving DecidableEq

/-- The files, and the log of this invocation. -/
structure Device (α : Type) where
  files : Path → Option α
  log : List Event

/-- A function that returns, or exits with a status. -/
abbrev Outcome (α : Type) := Except (Nat × Device α)

namespace Device

variable {α : Type} (d : Device α)

/-- The files change, the log stays. -/
def write (path : Path) (content : Option α) : Device α :=
  { d with files := Function.update d.files path content }

/-- `cp`. Without a source nothing happens. -/
def cp (source target : Path) : Device α := d.write target ((d.files source).or (d.files target))

/-- `mv`. -/
def mv (source target : Path) : Device α := (d.cp source target).write source none

def record (events : List Event) : Device α := { d with log := d.log ++ events }

/-- `kill -n $signal $pid`. Without a pid it is a usage error. -/
def kill (signal : Nat) (pid : Option Nat) : Device α :=
  d.record (pid.toList.map (.kill signal))

@[simp] theorem write_files_self (path : Path) (content : Option α) :
    (d.write path content).files path = content := by
  simp [write]

theorem write_files_of_ne {path other : Path} (content : Option α) (apart : other ≠ path) :
    (d.write path content).files other = d.files other := by
  simp [write, apart]

@[simp] theorem kill_files (signal : Nat) (pid : Option Nat) :
    (d.kill signal pid).files = d.files := rfl

end Device

/-! ## Functions of the script -/

/-- What the process does from the start signals on: the pid that the second `pidof`
finds, and what it writes to leaks.out in the three seconds it is given. -/
structure Reaction (α : Type) where
  pid : Option Nat
  report : Option α

variable {α : Type}

/-- The files that `clean_prev_files` removes. -/
def isPrevFile : Path → Bool
  | .rwStatus | .rwSmaps | .logData _ | .leaksOut => true
  | _ => false

/-- `clean_prev_files`. -/
def cleanPrevFiles (d : Device α) : Device α :=
  { d with files := fun path => if isPrevFile path then none else d.files path }

/-- `start_and_report_leak`: signal 12 starts the tracing, 30 asks for a report. -/
def startAndReportLeak (pid : Option Nat) (d : Device α) : Device α := (d.kill 12 pid).kill 30 pid

/-- What the process writes while the script sleeps. -/
def reported (report : Option α) (d : Device α) : Device α :=
  d.write .leaksOut (report.or (d.files .leaksOut))

/-- `test_monitoring_work_or_not`. `exit -1` is the status 255. -/
def testMonitoringWorkOrNot (d : Device α) : Outcome α Unit :=
  if (d.files .leaksOut).isNone then .error (255, d) else .ok ()

end Mon

end StudyLinux
