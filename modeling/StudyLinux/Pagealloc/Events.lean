import Mathlib.Data.Char
import Mathlib.Data.List.Lex
import StudyLinux.Store.Accumulate
import StudyLinux.Text.Backtrack

/-!
# trace-pagealloc-postprocess.pl

The script reads trace lines and counts the events of each process. Events that come in a
row of their own are also counted as one refill or drain. A report may be asked for at
any time, and comes at the end.
-/

namespace StudyLinux.Pagealloc

/-! ## Reading a line -/

/-- `\s`. -/
def isSpace (c : Char) : Bool :=
  c == ' ' || c == '\t' || c == '\n' || c == '\r' || c == '\x0b' || c == '\x0c'

/-- `[a-zA-Z0-9-]`. -/
def isProcess (c : Char) : Bool := c.isAlphanum || c == '-'

/-- `[a-zA-Z_]`. -/
def isTracepoint (c : Char) : Bool := c.isAlpha || c == '_'

def literal (text : String) : List Piece := text.toList.map fun c => .one false (· == c)

/-- `$regex_traceevent`. The groups of the CPU and the time are not used. -/
def regexTraceevent : List Piece :=
  [.many false isSpace, .many true isProcess, .many false isSpace, .one false (· == '['),
    .many false Char.isDigit, .one false (· == ']'), .many false isSpace,
    .many false fun c => c.isDigit || c == '.', .one false (· == ':'), .many false isSpace,
    .many true isTracepoint, .one false (· == ':'), .many false isSpace,
    .many true (· != '\n')]

/-- A text where a condition is asked for. -/
def isTrue (text : Text) : Bool := text != [] && text != ['0']

/-- A text of `[-0-9]*` where a number is asked for. -/
def number : Text → Int
  | '-' :: text => -(Nat.ofDigitChars 10 (text.takeWhile Char.isDigit) 0)
  | text => Nat.ofDigitChars 10 (text.takeWhile Char.isDigit) 0

/-- What a line counts as. -/
inductive Event where
  | mmPageAlloc
  | mmPageFree
  | mmPageFreeBatched
  | mmPagePcpuDrain
  | mmPageAllocZoneLocked
  | mmPageAllocExtfrag (fragmenting severe changeOwnership : Bool)
  | unknown
deriving DecidableEq

/-- The event of a tracepoint, unless its details cannot be read. -/
def eventOf (fragdetails : List Piece) (tracepoint details : Text) : Option Event :=
  if tracepoint = "mm_page_alloc".toList then some .mmPageAlloc
  else if tracepoint = "mm_page_free".toList then some .mmPageFree
  else if tracepoint = "mm_page_free_batched".toList then some .mmPageFreeBatched
  else if tracepoint = "mm_page_pcpu_drain".toList then some .mmPagePcpuDrain
  else if tracepoint = "mm_page_alloc_zone_locked".toList then some .mmPageAllocZoneLocked
  else if tracepoint = "mm_page_alloc_extfrag".toList then
    (findFirst fragdetails details).map fun groups =>
      let fallbackOrder := groups.getD 3 []
      let fragmenting := groups.getD 7 []
      let changeOwnership := groups.getD 8 []
      .mmPageAllocExtfrag (isTrue fragmenting) (decide (number fallbackOrder ≤ 3))
        (isTrue changeOwnership)
  else some .unknown

/-- The process and the event of a line. Lines that are no trace events are passed over,
those with details that cannot be read with a warning. -/
def readLine (fragdetails : List Piece) (traceevent : Text) : Option (Text × Event) :=
  match findFirst regexTraceevent traceevent with
  | some [processPid, tracepoint, details] =>
      (eventOf fragdetails tracepoint details).map (processPid, ·)
  | _ => none

/-! ## Counting -/

/-- The keys of `%perprocesspid`. -/
inductive Key where
  | mmPageAlloc
  | mmPageFree
  | mmPageFreeBatched
  | mmPagePcpuDrain
  | mmPageAllocZoneLocked
  | mmPageAllocExtfrag
  | eventUnknown
  | statePcpuPagesDrained
  | statePcpuPagesRefilled
  | highPcpuDrains
  | highPcpuRefills
  | highExtFrag
  | highExtFragmentSevere
  | highExtFragmentModerate
  | highExtFragmentChanged
deriving DecidableEq

/-- The counters of a process. One that is not there is 0. -/
abbrev Stats := Key → Nat

/-- The counters that an event adds to. -/
def Event.keys : Event → List Key
  | mmPageAlloc => [.mmPageAlloc]
  | mmPageFree => [.mmPageFree]
  | mmPageFreeBatched => [.mmPageFreeBatched]
  | mmPagePcpuDrain => [.mmPagePcpuDrain, .statePcpuPagesDrained]
  | mmPageAllocZoneLocked => [.mmPageAllocZoneLocked, .statePcpuPagesRefilled]
  | mmPageAllocExtfrag fragmenting severe changeOwnership =>
      [.mmPageAllocExtfrag] ++
        (if fragmenting then
          [.highExtFrag, if severe then .highExtFragmentSevere else .highExtFragmentModerate]
        else []) ++
        if changeOwnership then [.highExtFragmentChanged] else []
  | unknown => [.eventUnknown]

def count (stats : Stats) (key : Key) : Stats := Function.update stats key (stats key + 1)

/-- Catch a full drain or refill, which the next event of another kind shows. -/
def catchFull (state high : Key) (goesOn : Bool) (stats : Stats) : Stats :=
  if stats state ≠ 0 ∧ !goesOn then Function.update (count stats high) state 0 else stats

/-- What the loop of `process_events` does with the counters of the process. -/
def countEvent (stats : Option Stats) (event : Event) : Stats :=
  let counted := event.keys.foldl count (stats.getD fun _ => 0)
  let drained := catchFull .statePcpuPagesDrained .highPcpuDrains
    (event == .mmPagePcpuDrain) counted
  catchFull .statePcpuPagesRefilled .highPcpuRefills (event == .mmPageAllocZoneLocked) drained

/-! ## Reporting -/

/-- The columns of a report. -/
def reported : List Key :=
  [.mmPageAlloc, .mmPageAllocZoneLocked, .mmPageFree, .mmPageFreeBatched, .mmPagePcpuDrain,
    .highPcpuDrains, .highPcpuRefills, .mmPageAllocExtfrag, .highExtFrag,
    .highExtFragmentChanged, .highExtFragmentSevere, .highExtFragmentModerate, .eventUnknown]

def columns (stats : Stats) : List Nat := reported.map stats

/-- The final aggregates in `dump_stats`. -/
def finish (stats : Stats) : Stats :=
  catchFull .statePcpuPagesRefilled .highPcpuRefills false
    (catchFull .statePcpuPagesDrained .highPcpuDrains false stats)

/-- The name without `-([0-9])*$`, and a name for what has none. -/
def processName (processPid : Text) : Text :=
  let name :=
    match processPid.reverse.dropWhile Char.isDigit with
    | '-' :: front => front.reverse
    | _ => processPid
  if name = [] then "NO_PROCESS_NAME".toList else name

/-- Only what is reported is added up. -/
def addUp (sum : Option Stats) (stats : Stats) : Stats := fun key =>
  (sum.getD fun _ => 0) key + if key ∈ reported then stats key else 0

def aggregatePerprocesspid (perprocesspid : Dir Text Stats) : Dir Text Stats :=
  perprocesspid.entries.foldl
    (fun perprocess (processPid, stats) =>
      let process := processName processPid
      perprocess.put process (addUp (perprocess.get process) stats))
    .empty

/-- A line is read, or a report has been asked for. -/
inductive Action where
  | line (traceevent : Text)
  | report

/-- The counters, and the rows of the reports. -/
structure Session where
  perprocesspid : Dir Text Stats
  reports : List (Dir Text (List Nat))

/-- `dump_stats` goes on with the counters it has finished, when these are the ones of the
processes. -/
def step (fragdetails : List Piece) (ignorePid : Bool) (s : Session) : Action → Session
  | .line traceevent =>
      match readLine fragdetails traceevent with
      | some (processPid, event) =>
          { s with
            perprocesspid :=
              s.perprocesspid.put processPid (countEvent (s.perprocesspid.get processPid) event) }
      | none => s
  | .report =>
      if ignorePid then
        let finished := (aggregatePerprocesspid s.perprocesspid).mapValues finish
        { s with reports := s.reports ++ [finished.mapValues columns] }
      else
        let finished := s.perprocesspid.mapValues finish
        ⟨finished, s.reports ++ [finished.mapValues columns]⟩

def process (fragdetails : List Piece) (ignorePid : Bool) (actions : List Action) : Session :=
  actions.foldl (step fragdetails ignorePid) ⟨.empty, []⟩

/-- The report at the end. -/
def lastReport (fragdetails : List Piece) (ignorePid : Bool) (actions : List Action) :
    Dir Text (List Nat) :=
  (process fragdetails ignorePid (actions ++ [.report])).reports.getLastD .empty

end StudyLinux.Pagealloc
