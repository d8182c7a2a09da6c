import Mathlib.Algebra.BigOperators.Intervals
import Mathlib.Data.List.Lex
import Mathlib.Data.List.ReduceOption
import Mathlib.Data.Rat.Defs
import Mathlib.Logic.Function.Basic
import StudyLinux.Pagealloc.Events

/-!
# trace-vmscan-postprocess.pl

The script counts the reclaim events of each process and takes the time from the begin to
the end of a direct reclaim, and from the first wakeup of kswapd to its sleep. A report
may be asked for at any time, and comes at the end. Lines are given as they have been
read, times are in microseconds.
-/

namespace StudyLinux.Vmscan

/-! ## Lines -/

/-- What a line counts as. The orders are `none` where the details cannot be read. -/
inductive Event where
  | directReclaimBegin (order : Option Nat)
  | directReclaimEnd
  | kswapdWake (order : Nat)
  | kswapdSleep
  | wakeupKswapd (order : Option Nat)
  | lruIsolate (nrScanned : Nat) (file : Bool)
  | lruShrinkInactive (nrReclaimed : Nat) (file : Bool)
  | writepage (file sync : Bool)
  | unknown
deriving DecidableEq

/-- A line: the two parts of the task, the time, and the event unless it is passed over. -/
structure Line where
  process : Text
  pid : Text
  timestamp : Nat
  event : Option Event

/-! ## Counting -/

/-- The keys of `%perprocesspid` that are numbers. -/
inductive Key where
  | directReclaimBegin
  | directReclaimEnd
  | kswapdWake
  | kswapdSleep
  | wakeupKswapd
  | highKswapdRewakeup
  | highNrScanned
  | highNrFileScanned
  | highNrAnonScanned
  | highNrReclaimed
  | highNrFileReclaimed
  | highNrAnonReclaimed
  | writepageFileSync
  | writepageAnonSync
  | writepageFileAsync
  | writepageAnonAsync
  | eventUnknown
deriving DecidableEq

/-- Those that are arrays of numbers, one for each order. -/
inductive OrderKey where
  | directReclaimBegin
  | wakeupKswapd
  | kswapdWake
  | highKswapdRewakeup
deriving DecidableEq

/-- `"$order-$latency"`. -/
structure Latency where
  order : Option Nat
  latency : Int
deriving DecidableEq

/-- An array; an item that is not defined is `none`. -/
abbrev Latencies := List (Option Latency)

/-- `$array[$index] = $item`. The array gets as long as it has to be. -/
def setAt (array : Latencies) (index : Nat) (item : Latency) : Latencies :=
  if index < array.length then array.set index (some item)
  else array ++ List.replicate (index - array.length) none ++ [some item]

/-- The hash of a process. A number that is not there is 0. -/
structure Stats where
  counter : Key → Nat
  perOrder : OrderKey → Nat → Nat
  stateDirectBegin : Option Nat
  stateDirectOrder : Option Nat
  stateKswapdBegin : Nat
  stateKswapdOrder : Option Nat
  highDirectReclaimLatency : Latencies
  highKswapdLatency : Latencies

namespace Stats

def empty : Stats where
  counter _ := 0
  perOrder _ _ := 0
  stateDirectBegin := none
  stateDirectOrder := none
  stateKswapdBegin := 0
  stateKswapdOrder := none
  highDirectReclaimLatency := []
  highKswapdLatency := []

def add (stats : Stats) (key : Key) (n : Nat) : Stats :=
  { stats with counter := Function.update stats.counter key (stats.counter key + n) }

def addOrder (stats : Stats) (key : OrderKey) (order : Nat) : Stats :=
  { stats with
    perOrder := Function.update stats.perOrder key
      (Function.update (stats.perOrder key) order (stats.perOrder key order + 1)) }

end Stats

/-- `mm_vmscan_direct_reclaim_begin`. -/
def directReclaimBegin (stats : Stats) (timestamp : Nat) (order : Option Nat) : Stats :=
  let stats := { stats.add .directReclaimBegin 1 with stateDirectBegin := some timestamp }
  match order with
  | none => stats
  | some order =>
      { stats.addOrder .directReclaimBegin order with stateDirectOrder := some order }

/-- `mm_vmscan_direct_reclaim_end`. The begin stays where it is. -/
def directReclaimEnd (stats : Stats) (timestamp : Nat) : Stats :=
  let index := stats.counter .directReclaimEnd
  let stats := stats.add .directReclaimEnd 1
  match stats.stateDirectBegin with
  | none => stats
  | some begun =>
      let latency := (timestamp : Int) - begun
      { stats with
        highDirectReclaimLatency :=
          setAt stats.highDirectReclaimLatency index ⟨stats.stateDirectOrder, latency⟩ }

/-- `mm_vmscan_kswapd_wake`. A begin at 0 is taken for none. -/
def kswapdWake (stats : Stats) (timestamp order : Nat) : Stats :=
  let stats := { stats with stateKswapdOrder := some order }
  if stats.stateKswapdBegin = 0 then
    { (stats.add .kswapdWake 1).addOrder .kswapdWake order with stateKswapdBegin := timestamp }
  else (stats.add .highKswapdRewakeup 1).addOrder .highKswapdRewakeup order

/-- `mm_vmscan_kswapd_sleep`. Without a begin the latency is the whole time. -/
def kswapdSleep (stats : Stats) (timestamp : Nat) : Stats :=
  let index := stats.counter .kswapdSleep
  let stats := stats.add .kswapdSleep 1
  let latency := (timestamp : Int) - stats.stateKswapdBegin
  { stats with
    highKswapdLatency := setAt stats.highKswapdLatency index ⟨stats.stateKswapdOrder, latency⟩
    stateKswapdBegin := 0 }

/-- `mm_vmscan_wakeup_kswapd`. -/
def wakeupKswapd (stats : Stats) (order : Option Nat) : Stats :=
  let stats := stats.add .wakeupKswapd 1
  match order with
  | none => stats
  | some order => stats.addOrder .wakeupKswapd order

/-- The branches of `process_events`. -/
def countEvent (stats : Option Stats) (timed : Nat × Event) : Stats :=
  let stats := stats.getD .empty
  match timed.2 with
  | .directReclaimBegin order => directReclaimBegin stats timed.1 order
  | .directReclaimEnd => directReclaimEnd stats timed.1
  | .kswapdWake order => kswapdWake stats timed.1 order
  | .kswapdSleep => kswapdSleep stats timed.1
  | .wakeupKswapd order => wakeupKswapd stats order
  | .lruIsolate nrScanned file =>
      (stats.add .highNrScanned nrScanned).add
        (if file then .highNrFileScanned else .highNrAnonScanned) nrScanned
  | .lruShrinkInactive nrReclaimed file =>
      (stats.add .highNrReclaimed nrReclaimed).add
        (if file then .highNrFileReclaimed else .highNrAnonReclaimed) nrReclaimed
  | .writepage file sync =>
      stats.add
        (if sync then if file then .writepageFileSync else .writepageAnonSync
        else if file then .writepageFileAsync else .writepageAnonAsync) 1
  | .unknown => stats.add .eventUnknown 1

/-! ## Reporting -/

/-- What `split` finds behind the first `-`. The sign of a negative number is a separator,
too, and there is nothing in front of it. -/
def Latency.read (item : Latency) : Nat := item.latency.toNat

/-- The items that the loop over the latencies comes to, up to the first index that
neither array has. -/
def latencyRows (direct kswapd : Latencies) : List (Option Latency × Option Latency) :=
  ((List.range (max direct.length kswapd.length)).map fun index =>
    (direct[index]?.join, kswapd[index]?.join)).takeWhile fun row =>
      row.1.isSome || row.2.isSome

/-- What one round of the loop adds to `$total_direct_latency`. -/
def addedDirect : Option Latency × Option Latency → Nat
  | (some item, _) => item.read
  | (none, _) => 0

/-- What it adds to `$total_kswapd_latency`. -/
def addedKswapd : Option Latency × Option Latency → Nat
  | (some _, _) => 0
  | (none, some item) => item.read
  | (none, none) => 0

def directLatency (stats : Stats) : Nat :=
  ((latencyRows stats.highDirectReclaimLatency stats.highKswapdLatency).map addedDirect).sum

def kswapdLatency (stats : Stats) : Nat :=
  ((latencyRows stats.highDirectReclaimLatency stats.highKswapdLatency).map addedKswapd).sum

/-- What is passed to `printf` behind the name, for direct reclaim. The sums of the writes
and the time stalled, which follow, have no directive. -/
def directArguments : List Key :=
  [.directReclaimBegin, .wakeupKswapd, .highNrScanned, .highNrFileScanned, .highNrAnonScanned,
    .highNrReclaimed, .highNrFileReclaimed, .highNrAnonReclaimed]

/-- `"%8d %10d   %8u %8u  %8u %8u %8.3f"`: the columns Direct Rclms, Wokeup Kswapd, Pages
Scanned, Pages Rclmed, Pages Sync-IO, Pages ASync-IO and Time Stalled. -/
def directColumns (stats : Stats) : List Nat := (directArguments.take 7).map stats.counter

/-- The same for kswapd. -/
def kswapdArguments : List Key :=
  [.kswapdWake, .highKswapdRewakeup, .highNrScanned, .highNrFileScanned, .highNrAnonScanned,
    .highNrReclaimed, .highNrFileReclaimed, .highNrAnonReclaimed]

/-- `"%8d %10d   %8u %8u  %8i %8u"`: Wakeups, Re-wakeup, Pages Scanned, Pages Rclmed, Pages
Sync-IO and Pages ASync-IO. -/
def kswapdColumns (stats : Stats) : List Nat := (kswapdArguments.take 6).map stats.counter

/-- `$order=$count` for the orders below 20 that have a count. -/
def ordersOf (stats : Stats) (key : OrderKey) : List (Nat × Nat) :=
  ((List.range 20).map fun order => (order, stats.perOrder key order)).filter (·.2 ≠ 0)

/-- The sums of the summary. They are never set back. -/
structure Totals where
  direct : Key → Nat
  kswapd : Key → Nat
  directLatency : ℚ
  kswapdLatency : ℚ

def Totals.zero : Totals where
  direct _ := 0
  kswapd _ := 0
  directLatency := 0
  kswapdLatency := 0

/-- What is printed. -/
structure Report where
  direct : List (Text × List Nat × List (Nat × Nat) × List (Nat × Nat))
  kswapd : List (Text × List Nat × List (Nat × Nat) × List (Nat × Nat))
  summary : Totals

/-- The processes with a direct reclaim, and those that kswapd has been woken up in. -/
def directOnes (stats : Dir Text Stats) : List (Text × Stats) :=
  stats.entries.filter fun entry => entry.2.counter .directReclaimBegin ≠ 0

def kswapdOnes (stats : Dir Text Stats) : List (Text × Stats) :=
  stats.entries.filter fun entry => entry.2.counter .kswapdWake ≠ 0

/-- `dump_stats`. The latencies are added up in milliseconds and divided by 1000 then. -/
def dumpStats (stats : Dir Text Stats) (totals : Totals) : Report where
  direct := (directOnes stats).map fun (process, s) =>
    (process, directColumns s, ordersOf s .directReclaimBegin, ordersOf s .wakeupKswapd)
  kswapd := (kswapdOnes stats).map fun (process, s) =>
    (process, kswapdColumns s, ordersOf s .kswapdWake, ordersOf s .highKswapdRewakeup)
  summary := {
    direct := fun key =>
      totals.direct key + ((directOnes stats).map fun entry => entry.2.counter key).sum
    kswapd := fun key =>
      totals.kswapd key + ((kswapdOnes stats).map fun entry => entry.2.counter key).sum
    directLatency := (totals.directLatency +
      ((stats.entries.map fun entry => directLatency entry.2).sum : ℕ) / 1000) / 1000
    kswapdLatency := (totals.kswapdLatency +
      ((stats.entries.map fun entry => kswapdLatency entry.2).sum : ℕ) / 1000) / 1000 }

/-! ## Aggregation -/

/-- The name without `-([0-9])*$`, and a name for what has none, as the script for the page
allocator has it. -/
def processName (processPid : Text) : Text := Pagealloc.processName processPid

/-- The keys that are added up. -/
def aggregatedKeys : List Key :=
  [.directReclaimBegin, .kswapdWake, .wakeupKswapd, .highKswapdRewakeup, .highNrScanned,
    .highNrFileScanned, .highNrAnonScanned, .highNrReclaimed, .highNrFileReclaimed,
    .highNrAnonReclaimed, .writepageFileSync, .writepageAnonSync, .writepageFileAsync,
    .writepageAnonAsync]

def aggregatedOrderKeys : List OrderKey := [.directReclaimBegin, .wakeupKswapd, .kswapdWake]

/-- The items of an array up to the first one that is not defined. -/
def definedItems (array : Latencies) : List Latency :=
  (array.takeWhile Option.isSome).reduceOption

/-- The loop that copies the items of one array to another, from `$wr_index` on. -/
def copyLatencies (target : Latencies) (wrIndex : Nat) : List Latency → Latencies
  | [] => target
  | item :: items => copyLatencies (setAt target wrIndex item) (wrIndex + 1) items

/-- One process more for a name. Both loops leave their `$wr_index` in
MM_VMSCAN_DIRECT_RECLAIM_END, and nobody sets MM_VMSCAN_KSWAPD_SLEEP. -/
def addUp (sum : Option Stats) (stats : Stats) : Stats :=
  let sum := sum.getD .empty
  let direct := definedItems stats.highDirectReclaimLatency
  let wrIndex := sum.counter .directReclaimEnd
  let highDirectReclaimLatency := copyLatencies sum.highDirectReclaimLatency wrIndex direct
  let kswapd := definedItems stats.highKswapdLatency
  let wrIndex := sum.counter .kswapdSleep
  let highKswapdLatency := copyLatencies sum.highKswapdLatency wrIndex kswapd
  { sum with
    counter := fun key =>
      if key = .directReclaimEnd then wrIndex + kswapd.length
      else sum.counter key + if key ∈ aggregatedKeys then stats.counter key else 0
    perOrder := fun key order =>
      sum.perOrder key order +
        if key ∈ aggregatedOrderKeys ∧ order < 20 then stats.perOrder key order else 0
    highDirectReclaimLatency
    highKswapdLatency }

/-- `aggregate_perprocesspid`, the processes in the order that `keys` lists them. -/
def aggregatePerprocesspid (listed : List (Text × Stats)) : Dir Text Stats :=
  listed.foldl
    (fun perprocess (processPid, stats) =>
      let process := processName processPid
      perprocess.put process (addUp (perprocess.get process) stats))
    .empty

/-! ## The loop -/

/-- A line is read, or a report has been asked for. -/
inductive Action where
  | line (line : Line)
  | report

/-- The hashes, the sums and what has been printed. -/
structure Session where
  perprocesspid : Dir Text Stats
  lastProcmap : Dir Text Text
  totals : Totals
  reports : List Report

def Session.initial : Session := ⟨.empty, .empty, .zero, []⟩

/-- The name of a line: the last one of its pid, where it has none. -/
def nameOf (lastProcmap : Dir Text Text) (line : Line) : Text :=
  if line.process = [] then (lastProcmap.get line.pid).getD [] else line.process

/-- `"$process-$pid"`. -/
def processPid (lastProcmap : Dir Text Text) (line : Line) : Text :=
  nameOf lastProcmap line ++ '-' :: line.pid

/-- `list` has the processes of a hash in the order that `keys` lists them. -/
def step (ignorePid : Bool) (list : Dir Text Stats → List (Text × Stats)) (s : Session) :
    Action → Session
  | .line line =>
      let name := nameOf s.lastProcmap line
      let processPid := processPid s.lastProcmap line
      { s with
        lastProcmap := s.lastProcmap.put line.pid name
        perprocesspid :=
          match line.event with
          | none => s.perprocesspid
          | some event =>
              s.perprocesspid.put processPid
                (countEvent (s.perprocesspid.get processPid) (line.timestamp, event)) }
  | .report =>
      let stats :=
        if ignorePid then aggregatePerprocesspid (list s.perprocesspid) else s.perprocesspid
      let report := dumpStats stats s.totals
      { s with
        totals := report.summary
        reports := s.reports ++ [report] }

def process (ignorePid : Bool) (list : Dir Text Stats → List (Text × Stats))
    (actions : List Action) : Session :=
  actions.foldl (step ignorePid list) .initial

end StudyLinux.Vmscan
