import Mathlib.Data.List.Dedup
import StudyLinux.Vmscan.Latency

/-!
# Reports on processes

What a report says of a process is about the events of that process alone. A line without
a name belongs to the process that its pid has been given last. The sums of the summary
are those of all reports so far (`totals_process`).
-/

namespace StudyLinux.Vmscan

/-! ## The history of a process -/

/-- The name that a line gives to a pid. -/
def named (pid : Text) : Action → Option Text
  | .line line => if line.pid = pid ∧ line.process ≠ [] then some line.process else none
  | .report => none

/-- The last name of a pid. -/
def lastName (pid : Text) (front : List Action) : Text :=
  ((front.filterMap (named pid)).getLast?).getD []

/-- The process of a line, and what is counted there. -/
def eventAt (front : List Action) : Action → Option (Text × (Nat × Event))
  | .line line => line.event.map fun event =>
      ((if line.process = [] then lastName line.pid front else line.process) ++ '-' :: line.pid,
        line.timestamp, event)
  | .report => none

/-- The events of a process. -/
def history (actions : List Action) (processPid : Text) : History :=
  ((made eventAt actions).filter fun timed => timed.1 = processPid).map Prod.snd

/-- The processes that have events, each once. -/
def processes (actions : List Action) : List Text := ((made eventAt actions).map Prod.fst).dedup

/-- What is in front of each report. -/
def reportFronts (actions : List Action) : List (List Action) :=
  made (fun front action =>
    match action with
    | .line _ => none
    | .report => some front) actions

theorem mem_processes {actions : List Action} {processPid : Text} :
    processPid ∈ processes actions ↔ history actions processPid ≠ [] := by
  rw [processes, List.mem_dedup, history, ne_eq, List.map_eq_nil_iff, List.filter_eq_nil_iff]
  simp

theorem lastName_concat (pid : Text) (front : List Action) (action : Action) :
    lastName pid (front ++ [action]) = (named pid action).getD (lastName pid front) := by
  rw [lastName, List.filterMap_append, List.getLast?_append]
  cases found : named pid action with
  | none =>
      rw [List.filterMap_cons_none found]
      rfl
  | some name =>
      rw [List.filterMap_cons_some found]
      rfl

variable {ignorePid : Bool} {list : Dir Text Stats → List (Text × Stats)}

theorem process_concat (actions : List Action) (action : Action) :
    process ignorePid list (actions ++ [action]) =
      step ignorePid list (process ignorePid list actions) action := by
  rw [process, List.foldl_append]
  rfl

/-- The names that the script keeps. -/
theorem getD_lastProcmap (actions : List Action) (pid : Text) :
    ((process ignorePid list actions).lastProcmap.get pid).getD [] = lastName pid actions := by
  induction actions using List.reverseRecOn generalizing pid with
  | nil => rfl
  | append_singleton actions action ih =>
      rw [process_concat, lastName_concat]
      cases action with
      | report => exact ih pid
      | line line =>
          rw [step, named, nameOf]
          dsimp only
          rcases eq_or_ne pid line.pid with rfl | other
          · rw [Dir.get_put_self, Option.getD_some, ih]
            by_cases unnamed : line.process = []
            · rw [if_pos unnamed, if_neg fun given => given.2 unnamed]
              rfl
            · rw [if_neg unnamed, if_pos ⟨rfl, unnamed⟩]
              rfl
          · rw [Dir.get_put_of_ne _ _ other, ih, if_neg fun given => other given.1.symm]
            rfl

theorem perprocesspid_process (actions : List Action) :
    (process ignorePid list actions).perprocesspid =
      touches countEvent id .empty
        ((made eventAt actions).map fun timed => Touch.one timed.1 timed.2) := by
  induction actions using List.reverseRecOn with
  | nil => rfl
  | append_singleton actions action ih =>
      rw [process_concat, made_concat, List.map_append, touches_append, ← ih]
      cases action with
      | report => rfl
      | line line =>
          rw [step, eventAt, processPid, nameOf, getD_lastProcmap]
          dsimp only
          cases line.event with
          | none => rfl
          | some event => rfl

/-! ## The hash of a process -/

/-- What the events of a process make of an empty hash. -/
def statsOf (own : History) : Stats :=
  own.foldl (fun stats timed => countEvent (some stats) timed) .empty

theorem statsOf_concat (own : History) (timed : Nat × Event) :
    statsOf (own ++ [timed]) = countEvent (some (statsOf own)) timed := List.foldl_concat ..

theorem account_statsOf (own : History) : Account own (statsOf own) := by
  induction own using List.reverseRecOn with
  | nil => exact account_nil
  | append_singleton own timed ih =>
      rw [statsOf_concat]
      exact account_concat ih timed

/-- The hashes, but for their order. -/
theorem perm_entries (actions : List Action) :
    (process ignorePid list actions).perprocesspid.entries.Perm
      ((processes actions).map fun processPid =>
        (processPid, statsOf (history actions processPid))) := by
  rw [perprocesspid_process]
  exact perm_entries_touches Prod.fst Prod.snd (fun _ => rfl) (made eventAt actions)

/-- The hash of a process that has events. -/
theorem mem_entries {actions : List Action} {processPid : Text} {stats : Stats} :
    (processPid, stats) ∈ (process ignorePid list actions).perprocesspid.entries ↔
      processPid ∈ processes actions ∧ stats = statsOf (history actions processPid) := by
  rw [(perm_entries actions).mem_iff, List.mem_map]
  constructor
  · rintro ⟨_, member, same⟩
    cases same
    exact ⟨member, rfl⟩
  · rintro ⟨member, rfl⟩
    exact ⟨processPid, member, rfl⟩

/-! ## Rows -/

/-- The orders that are printed behind a row. -/
def orderTallies (key : OrderKey) (own : History) : List (Nat × Nat) :=
  ((List.range 20).map fun order => (order, orderTally key order own)).filter (·.2 ≠ 0)

theorem ordersOf_statsOf (own : History) (key : OrderKey) :
    ordersOf (statsOf own) key = orderTallies key own := by
  rw [ordersOf, orderTallies]
  refine congrArg (List.filter _) (List.map_congr_left fun order _ => ?_)
  rw [(account_statsOf own).ordered]

/-- The report at the end. -/
def lastReport (ignorePid : Bool) (list : Dir Text Stats → List (Text × Stats))
    (actions : List Action) : Report :=
  (process ignorePid list (actions ++ [.report])).reports.getLastD ⟨[], [], .zero⟩

/-- The hashes that a report is made from. -/
def shown (ignorePid : Bool) (list : Dir Text Stats → List (Text × Stats))
    (front : List Action) : Dir Text Stats :=
  let perprocesspid := (process ignorePid list front).perprocesspid
  if ignorePid then aggregatePerprocesspid (list perprocesspid) else perprocesspid

theorem lastReport_eq (actions : List Action) :
    lastReport ignorePid list actions =
      dumpStats (shown ignorePid list actions) (process ignorePid list actions).totals := by
  rw [lastReport, process_concat]
  exact List.getLastD_concat

theorem mem_amounts {key : Key} {front : History} {timed : Nat × Event}
    (counted : amount key front timed ≠ 0) : ∃ n, (key, n) ∈ amounts front timed := by
  obtain ⟨n, member, -⟩ := List.exists_mem_ne_zero_of_sum_ne_zero counted
  obtain ⟨added, listed, rfl⟩ := List.mem_map.mp member
  obtain ⟨inside, same⟩ := List.mem_filter.mp listed
  exact ⟨added.2, decide_eq_true_iff.mp same ▸ inside⟩

/-- A counter that events of a kind add to, at least the first of them. -/
theorem tally_ne_zero_iff {key : Key} {p : Event → Prop}
    (kind : ∀ front timestamp event n, (key, n) ∈ amounts front (timestamp, event) → p event)
    (first : ∀ front timestamp event, p event →
      amount key front (timestamp, event) ≠ 0 ∨ ∃ timed ∈ front, p timed.2) (own : History) :
    tally key own ≠ 0 ↔ ∃ timed ∈ own, p timed.2 := by
  induction own using List.reverseRecOn with
  | nil => exact ⟨fun none => absurd rfl none, nofun⟩
  | append_singleton own timed ih =>
      have apart : tally key (own ++ [timed]) ≠ 0 ↔
          tally key own ≠ 0 ∨ amount key own timed ≠ 0 := by
        rw [tally_concat]
        omega
      rw [apart, ih]
      constructor
      · rintro (⟨earlier, member, here⟩ | counted)
        · exact ⟨earlier, List.mem_append_left _ member, here⟩
        · obtain ⟨n, member⟩ := mem_amounts counted
          exact ⟨timed, List.mem_append_right _ List.mem_cons_self, kind _ _ _ n member⟩
      · rintro ⟨earlier, member, here⟩
        rcases List.mem_append.mp member with inside | last
        · exact .inl ⟨earlier, inside, here⟩
        · obtain rfl := List.mem_singleton.mp last
          exact (first own _ _ here).symm

/-- A direct reclaim has begun, which is what a row is for. -/
theorem tally_directReclaimBegin (own : History) :
    tally .directReclaimBegin own ≠ 0 ↔
      ∃ timed ∈ own, ∃ order, timed.2 = .directReclaimBegin order := by
  refine tally_ne_zero_iff (p := fun event => ∃ order, event = .directReclaimBegin order) ?_ ?_ own
  · intro front timestamp event n member
    cases event with
    | directReclaimBegin order => exact ⟨order, rfl⟩
    | _ =>
        unfold amounts at member
        grind
  · rintro front timestamp _ ⟨order, rfl⟩
    rw [amount_singleton rfl, if_pos rfl]
    exact .inl Nat.one_ne_zero

/-- Whoever is awake has been woken up. -/
theorem exists_wake {own : History} (awake : awakeSince own ≠ 0) :
    ∃ timed ∈ own, ∃ order, timed.2 = .kswapdWake order := by
  induction own using List.reverseRecOn with
  | nil => exact absurd rfl awake
  | append_singleton own timed ih =>
      obtain ⟨timestamp, event⟩ := timed
      cases event with
      | kswapdWake order =>
          exact ⟨_, List.mem_append_right _ List.mem_cons_self, order, rfl⟩
      | kswapdSleep => exact absurd (awakeSince_concat_sleep own timestamp) awake
      | _ =>
          have before : awakeSince own ≠ 0 := by
            rw [awakeSince_concat own rfl] at awake
            exact fun asleep => awake (if_pos asleep)
          obtain ⟨earlier, member, here⟩ := ih before
          exact ⟨earlier, List.mem_append_left _ member, here⟩

/-- Kswapd has been woken up. The first wakeup finds it asleep. -/
theorem tally_kswapdWake (own : History) :
    tally .kswapdWake own ≠ 0 ↔ ∃ timed ∈ own, ∃ order, timed.2 = .kswapdWake order := by
  refine tally_ne_zero_iff (p := fun event => ∃ order, event = .kswapdWake order) ?_ ?_ own
  · intro front timestamp event n member
    cases event with
    | kswapdWake order => exact ⟨order, rfl⟩
    | _ =>
        unfold amounts at member
        grind
  · rintro front timestamp _ ⟨order, rfl⟩
    by_cases asleep : awakeSince front = 0
    · rw [amount_singleton rfl, if_pos asleep, if_pos rfl]
      exact .inl Nat.one_ne_zero
    · exact .inr (exists_wake asleep)

/-- A table has a row for each process with a count of a key. -/
theorem mem_rows {actions : List Action} {processPid : Text} {columns : List Nat}
    {orders others : List (Nat × Nat)} (key : Key) (arguments : List Key)
    (first second : OrderKey) :
    (processPid, columns, orders, others) ∈
        (((process ignorePid list actions).perprocesspid.entries.filter
            fun entry => entry.2.counter key ≠ 0).map
          fun (processPid, stats) => (processPid, arguments.map stats.counter,
            ordersOf stats first, ordersOf stats second)) ↔
      tally key (history actions processPid) ≠ 0 ∧
        columns = arguments.map (tally · (history actions processPid)) ∧
        orders = orderTallies first (history actions processPid) ∧
        others = orderTallies second (history actions processPid) := by
  have counted (own : History) : (statsOf own).counter = (tally · own) :=
    funext (account_statsOf own).counted
  rw [List.mem_map]
  constructor
  · rintro ⟨⟨_, stats⟩, member, same⟩
    cases same
    obtain ⟨stored, listed⟩ := List.mem_filter.mp member
    obtain ⟨-, rfl⟩ := mem_entries.mp stored
    rw [decide_eq_true_iff, counted] at listed
    rw [counted, ordersOf_statsOf, ordersOf_statsOf]
    exact ⟨listed, rfl, rfl, rfl⟩
  · rintro ⟨listed, rfl, rfl, rfl⟩
    have spoken : processPid ∈ processes actions := by
      refine mem_processes.mpr fun silent => ?_
      rw [silent] at listed
      exact listed rfl
    refine ⟨(processPid, statsOf (history actions processPid)), List.mem_filter.mpr ⟨?_, ?_⟩, ?_⟩
    · exact mem_entries.mpr ⟨spoken, rfl⟩
    · rw [decide_eq_true_iff, counted]
      exact listed
    · dsimp only
      rw [counted, ordersOf_statsOf, ordersOf_statsOf]

/-- The rows of a report. The counts of file and anonymous pages have no heading, so what
is printed below Pages Rclmed and behind it is not what the heading says, and the time
stalled is not printed. -/
theorem rows_lastReport (actions : List Action) (processPid : Text) (columns : List Nat)
    (orders others : List (Nat × Nat)) :
    let own := history actions processPid
    let report := lastReport false list actions
    ((processPid, columns, orders, others) ∈ report.direct ↔
        (∃ timed ∈ own, ∃ order, timed.2 = .directReclaimBegin order) ∧
          columns = [tally .directReclaimBegin own, tally .wakeupKswapd own,
            tally .highNrScanned own, tally .highNrFileScanned own, tally .highNrAnonScanned own,
            tally .highNrReclaimed own, tally .highNrFileReclaimed own] ∧
          orders = orderTallies .directReclaimBegin own ∧
          others = orderTallies .wakeupKswapd own) ∧
      ((processPid, columns, orders, others) ∈ report.kswapd ↔
        (∃ timed ∈ own, ∃ order, timed.2 = .kswapdWake order) ∧
          columns = [tally .kswapdWake own, tally .highKswapdRewakeup own,
            tally .highNrScanned own, tally .highNrFileScanned own, tally .highNrAnonScanned own,
            tally .highNrReclaimed own] ∧
          orders = orderTallies .kswapdWake own ∧
          others = orderTallies .highKswapdRewakeup own) := by
  intro own report
  have rows : report = dumpStats (process false list actions).perprocesspid
      (process false list actions).totals := lastReport_eq actions
  rw [rows, ← tally_directReclaimBegin, ← tally_kswapdWake]
  exact ⟨mem_rows _ (directArguments.take 7) _ _, mem_rows _ (kswapdArguments.take 6) _ _⟩

/-! ## Sums over the reports -/

/-- The time stalled that a process adds to a report. -/
def stalledTime (own : History) : Nat :=
  if early own ≤ (awakes own).length then ((stalls own).map fun time => (time.getD 0).toNat).sum
  else 0

/-- The time that kswapd has been awake. -/
def awakeTime (own : History) : Nat :=
  (((awakes own).take (early own)).map Int.toNat).sum +
    (((awakes own).drop (stalls own).length).map Int.toNat).sum

/-- Times are added in milliseconds, and the sum is divided by 1000 in each report. -/
def inSeconds (total : ℚ) (time : Nat) : ℚ := (total + time / 1000) / 1000

/-- The sum of a number over the processes, with those left out that have no row. -/
theorem sum_ones (actions : List Action) (key counted : Key) :
    (((process ignorePid list actions).perprocesspid.entries.filter
        fun entry => entry.2.counter key ≠ 0).map fun entry => entry.2.counter counted).sum =
      (((processes actions).filter fun processPid => tally key (history actions processPid) ≠ 0).map
        fun processPid => tally counted (history actions processPid)).sum := by
  have same (own : History) (key : Key) : (statsOf own).counter key = tally key own :=
    (account_statsOf own).counted key
  rw [(((perm_entries actions).filter fun entry => entry.2.counter key ≠ 0).map
    fun entry => entry.2.counter counted).sum_eq, List.filter_map, List.map_map]
  simp only [Function.comp_def, same]

theorem sum_entries (actions : List Action) {f : Stats → Nat} {time : History → Nat}
    (same : ∀ own, f (statsOf own) = time own) :
    ((process ignorePid list actions).perprocesspid.entries.map fun entry => f entry.2).sum =
      ((processes actions).map fun processPid => time (history actions processPid)).sum := by
  rw [((perm_entries actions).map fun entry => f entry.2).sum_eq, List.map_map]
  simp only [Function.comp_def, same]

theorem reportFronts_concat (actions : List Action) :
    (∀ line, reportFronts (actions ++ [.line line]) = reportFronts actions) ∧
      reportFronts (actions ++ [.report]) = reportFronts actions ++ [actions] := by
  constructor
  · intro line
    rw [reportFronts, made_concat, Option.toList_none, List.append_nil, ← reportFronts]
  · rw [reportFronts, made_concat, Option.toList_some, ← reportFronts]

/-- Every report takes the sums of the times, which are in seconds, for milliseconds. -/
theorem latencies_process (actions : List Action) :
    let times (time : Stats → Nat) (front : List Action) :=
      ((shown ignorePid list front).entries.map fun entry => time entry.2).sum
    (process ignorePid list actions).totals.directLatency =
        ((reportFronts actions).map (times directLatency)).foldl inSeconds 0 ∧
      (process ignorePid list actions).totals.kswapdLatency =
        ((reportFronts actions).map (times kswapdLatency)).foldl inSeconds 0 := by
  dsimp only
  induction actions using List.reverseRecOn with
  | nil => exact ⟨rfl, rfl⟩
  | append_singleton actions action ih =>
      obtain ⟨lines, reports⟩ := reportFronts_concat actions
      rw [process_concat]
      cases action with
      | line line =>
          rw [lines]
          exact ih
      | report =>
          rw [reports, List.map_append, List.map_append, List.foldl_append, List.foldl_append,
            ← ih.1, ← ih.2]
          exact ⟨rfl, rfl⟩

/-- Every report adds all there has been so far to the sums of the one before it. -/
theorem totals_process (actions : List Action) :
    let totals := (process false list actions).totals
    let begun (front : List Action) (key : Key) :=
      (processes front).filter fun processPid => tally key (history front processPid) ≠ 0
    (∀ key,
        totals.direct key = ((reportFronts actions).map fun front =>
          ((begun front .directReclaimBegin).map fun processPid =>
            tally key (history front processPid)).sum).sum ∧
        totals.kswapd key = ((reportFronts actions).map fun front =>
          ((begun front .kswapdWake).map fun processPid =>
            tally key (history front processPid)).sum).sum) ∧
      totals.directLatency = ((reportFronts actions).map fun front =>
        ((processes front).map fun processPid =>
          stalledTime (history front processPid)).sum).foldl inSeconds 0 ∧
      totals.kswapdLatency = ((reportFronts actions).map fun front =>
        ((processes front).map fun processPid =>
          awakeTime (history front processPid)).sum).foldl inSeconds 0 := by
  dsimp only
  have stalled (own : History) : directLatency (statsOf own) = stalledTime own :=
    directLatency_eq (account_statsOf own)
  have awake (own : History) : kswapdLatency (statsOf own) = awakeTime own :=
    kswapdLatency_eq (account_statsOf own)
  obtain ⟨direct, kswapd⟩ := @latencies_process false list actions
  refine ⟨fun key => ?_, direct.trans ?_, kswapd.trans ?_⟩
  · clear direct kswapd
    induction actions using List.reverseRecOn with
    | nil => exact ⟨rfl, rfl⟩
    | append_singleton actions action ih =>
        obtain ⟨lines, reports⟩ := reportFronts_concat actions
        rw [process_concat]
        cases action with
        | line line =>
            rw [lines]
            exact ih
        | report =>
            rw [reports, List.map_append, List.map_append, List.sum_append, List.sum_append,
              ← ih.1, ← ih.2, List.map_singleton, List.map_singleton, List.sum_singleton,
              List.sum_singleton, ← sum_ones, ← sum_ones]
            exact ⟨rfl, rfl⟩
  · refine congrArg (List.foldl _ _) (List.map_congr_left fun front _ => ?_)
    exact sum_entries front stalled
  · refine congrArg (List.foldl _ _) (List.map_congr_left fun front _ => ?_)
    exact sum_entries front awake

end StudyLinux.Vmscan
