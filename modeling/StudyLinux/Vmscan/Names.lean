import Mathlib.Tactic.Linarith
import StudyLinux.Order.Overlay
import StudyLinux.Vmscan.Report

/-!
# Reports on names

With `--ignore-pid` the latencies of the processes of a name go to one array. Each process
is written from the start of it, over what the processes before it have left there
(`highLatency_accountOf`), and a time that has been written over is in no sum.
-/

namespace StudyLinux.Vmscan

/-! ## Arrays -/

/-- Behind what has been written the array is as it was. -/
theorem copyLatencies_eq (front under items : List Latency) :
    copyLatencies ((front ++ under).map some) front.length items =
      (front ++ items ++ under.drop items.length).map some := by
  induction items generalizing front under with
  | nil => rw [copyLatencies, List.append_nil, List.length_nil, List.drop_zero]
  | cons item items ih =>
      have set : setAt ((front ++ under).map some) front.length item =
          ((front ++ [item]) ++ under.drop 1).map some := by
        cases under with
        | nil =>
            rw [setAt, List.append_nil, List.length_map, if_neg (Nat.lt_irrefl _), Nat.sub_self,
              List.drop_nil, List.append_nil, List.map_append]
            rw [List.replicate_zero, List.append_nil, List.map_singleton]
        | cons first under =>
            rw [setAt, List.length_map, List.length_append, List.length_cons, if_pos (by omega),
              ← List.map_set, List.set_append_right _ _ (Nat.le_refl _), Nat.sub_self,
              List.set_cons_zero, List.append_assoc]
            rfl
      have long : front.length + 1 = (front ++ [item]).length := by
        rw [List.length_append, List.length_singleton]
      rw [copyLatencies, set, long, ih, List.drop_drop, List.length_cons, Nat.add_comm 1,
        List.append_assoc front, List.singleton_append]

theorem copyLatencies_zero (under items : List Latency) :
    copyLatencies (under.map some) 0 items = (items ++ under.drop items.length).map some :=
  copyLatencies_eq [] under items

/-- The processes of a name, one after the other. -/
def addedUp (processes : List Stats) : Stats :=
  processes.foldl (fun sum stats => addUp (some sum) stats) .empty

theorem addedUp_concat (processes : List Stats) (stats : Stats) :
    addedUp (processes ++ [stats]) = addUp (some (addedUp processes)) stats := List.foldl_concat ..

theorem highKswapdLatency_addedUp (processes : List Stats) :
    (addedUp processes).counter .kswapdSleep = 0 ∧
      (addedUp processes).highKswapdLatency =
        (overlay (processes.map fun stats => definedItems stats.highKswapdLatency)).map some := by
  induction processes using List.reverseRecOn with
  | nil => exact ⟨rfl, rfl⟩
  | append_singleton processes stats ih =>
      obtain ⟨unset, array⟩ := ih
      rw [addedUp_concat, List.map_append, List.map_singleton, overlay_concat, addUp]
      dsimp only [Option.getD_some]
      rw [unset, array]
      exact ⟨rfl, copyLatencies_zero _ _⟩

/-- When there are latencies of one kind only, the index that both loops keep does no harm
to the direct ones. -/
theorem highDirectReclaimLatency_addedUp {processes : List Stats}
    (apart : (∀ stats ∈ processes, definedItems stats.highKswapdLatency = []) ∨
      ∀ stats ∈ processes, definedItems stats.highDirectReclaimLatency = []) :
    (addedUp processes).highDirectReclaimLatency =
      (overlay (processes.map fun stats =>
        definedItems stats.highDirectReclaimLatency)).map some := by
  rcases apart with asleep | noDirect
  · -- the index is 0 each time
    have both : (addedUp processes).counter .directReclaimEnd = 0 ∧
        (addedUp processes).highDirectReclaimLatency =
          (overlay (processes.map fun stats =>
            definedItems stats.highDirectReclaimLatency)).map some := by
      induction processes using List.reverseRecOn with
      | nil => exact ⟨rfl, rfl⟩
      | append_singleton processes stats ih =>
          obtain ⟨unset, array⟩ := ih fun earlier member =>
            asleep earlier (List.mem_append_left _ member)
          obtain ⟨noSleep, -⟩ := highKswapdLatency_addedUp processes
          have empty := asleep stats (List.mem_append_right _ List.mem_cons_self)
          rw [addedUp_concat, List.map_append, List.map_singleton, overlay_concat, addUp]
          dsimp only [Option.getD_some]
          rw [unset, array, noSleep, empty]
          exact ⟨rfl, copyLatencies_zero _ _⟩
    exact both.2
  · induction processes using List.reverseRecOn with
    | nil => rfl
    | append_singleton processes stats ih =>
        have array := ih fun earlier member => noDirect earlier (List.mem_append_left _ member)
        have empty := noDirect stats (List.mem_append_right _ List.mem_cons_self)
        rw [addedUp_concat, List.map_append, List.map_singleton, overlay_concat, addUp]
        dsimp only [Option.getD_some]
        rw [array, empty]
        rfl

/-- Arrays without holes are gone through to the end of the longer one. -/
theorem latencyRows_of_defined (direct kswapd : List Latency) :
    latencyRows (direct.map some) (kswapd.map some) =
      (List.range (max direct.length kswapd.length)).map fun index =>
        (direct[index]?, kswapd[index]?) := by
  have item (items : List Latency) (index : Nat) :
      (items.map some)[index]?.join = items[index]? := by
    rw [List.getElem?_map]
    cases items[index]? <;> rfl
  unfold latencyRows
  simp only [item, List.length_map]
  refine takeWhile_map_range (Nat.le_refl _) (fun index bound => ?_) ?_
  · rw [Bool.or_eq_true, Option.isSome_iff_ne_none, Option.isSome_iff_ne_none, ne_eq, ne_eq,
      List.getElem?_eq_none_iff, List.getElem?_eq_none_iff]
    omega
  · rw [List.getElem?_eq_none (le_max_left ..), List.getElem?_eq_none (le_max_right ..)]
    rfl

/-- The sums of two arrays without holes, of which one is empty. -/
theorem latency_of_defined {stats : Stats} {direct kswapd : List Latency}
    (hasDirect : stats.highDirectReclaimLatency = direct.map some)
    (hasKswapd : stats.highKswapdLatency = kswapd.map some) (apart : kswapd = [] ∨ direct = []) :
    directLatency stats = (direct.map Latency.read).sum ∧
      kswapdLatency stats = (kswapd.map Latency.read).sum := by
  unfold directLatency kswapdLatency
  rw [hasDirect, hasKswapd, latencyRows_of_defined, List.map_map, List.map_map]
  constructor
  · have long : (direct.map Latency.read).length ≤ max direct.length kswapd.length := by
      rw [List.length_map]
      exact le_max_left ..
    rw [← sum_range_getElem? _ long]
    refine congrArg List.sum (List.map_congr_left fun index _ => ?_)
    rw [Function.comp_apply, List.getElem?_map]
    cases direct[index]? <;> rfl
  · have long : (kswapd.map Latency.read).length ≤ max direct.length kswapd.length := by
      rw [List.length_map]
      exact le_max_right ..
    rw [← sum_range_getElem? _ long]
    refine congrArg List.sum (List.map_congr_left fun index _ => ?_)
    rw [Function.comp_apply, List.getElem?_map]
    rcases apart with rfl | rfl
    · cases direct[index]? <;> rfl
    · cases kswapd[index]? <;> rfl

/-- The times that are defined. -/
theorem Holds.definedItems {array : Latencies} {times : List (Option Int)}
    (holds : Holds array times) :
    (Vmscan.definedItems array).map Latency.latency =
      (times.takeWhile Option.isSome).reduceOption := by
  obtain ⟨short, item⟩ := holds
  unfold Vmscan.definedItems
  induction array generalizing times with
  | nil =>
      cases times with
      | nil => rfl
      | cons time times =>
          have unset : none = time := item 0
          rw [← unset]
          rfl
  | cons a array ih =>
      cases times with
      | nil => exact absurd short (Nat.not_succ_le_zero _)
      | cons time times =>
          have first : a.map Latency.latency = time := item 0
          have later := ih (Nat.le_of_succ_le_succ short) fun i => item (i + 1)
          cases a with
          | none =>
              rw [← first]
              rfl
          | some a =>
              rw [← first, Option.map_some, List.takeWhile_cons_of_pos rfl,
                List.takeWhile_cons_of_pos rfl, List.reduceOption_cons_of_some,
                List.reduceOption_cons_of_some, List.map_cons, later]

/-! ## Times -/

theorem definedTimes_map_some (times : List Int) :
    ((times.map some).takeWhile Option.isSome).reduceOption = times := by
  have defined : ∀ time ∈ times.map some, time.isSome := by
    intro time member
    obtain ⟨_, -, rfl⟩ := List.mem_map.mp member
    rfl
  rw [List.takeWhile_eq_self_iff.mpr defined, List.reduceOption, List.filterMap_map]
  exact List.filterMap_some

/-- The times that a process has for direct reclaims, if it has one for the first. -/
def stallTimes (own : History) : List Nat :=
  ((stalls own).takeWhile Option.isSome).reduceOption.map Int.toNat

def awakeTimes (own : History) : List Nat := (awakes own).map Int.toNat

theorem map_read_definedItems (own : History) :
    (definedItems (statsOf own).highDirectReclaimLatency).map Latency.read = stallTimes own ∧
      (definedItems (statsOf own).highKswapdLatency).map Latency.read = awakeTimes own := by
  have account := account_statsOf own
  constructor
  · rw [stallTimes, ← account.direct.definedItems, List.map_map]
    rfl
  · rw [awakeTimes, ← definedTimes_map_some (awakes own), ← account.kswapd.definedItems,
      List.map_map]
    rfl

/-- Where a process does not do both, its own report adds up the same times. -/
theorem time_eq_sum {own : History} (apart : awakes own = [] ∨ stalls own = []) :
    stalledTime own = (stallTimes own).sum ∧ awakeTime own = (awakeTimes own).sum := by
  unfold stalledTime awakeTime stallTimes awakeTimes
  constructor
  · obtain ⟨times, shape⟩ := stalls_eq own
    rcases Nat.eq_zero_or_pos (early own) with first | late
    · rw [first, List.replicate_zero, List.nil_append] at shape
      rw [first, if_pos (Nat.zero_le _), shape, definedTimes_map_some, List.map_map]
      rfl
    · obtain ⟨n, before⟩ := Nat.exists_eq_add_of_lt late
      rw [before, Nat.zero_add, List.replicate_succ] at shape
      rcases apart with asleep | none
      · rw [asleep, List.length_nil, if_neg (by omega), shape]
        rfl
      · rw [none] at shape
        cases shape
  · rcases apart with asleep | none
    · rw [asleep, List.take_nil, List.drop_nil]
      rfl
    · rw [early, none, List.takeWhile_nil, List.length_nil, List.take_zero, List.drop_zero]
      exact Nat.zero_add _

/-! ## Names -/

/-- The processes of a name, in the order that they are listed in. -/
def ofName (list : Dir Text Stats → List (Text × Stats)) (front : List Action) (name : Text) :
    List Text :=
  ((list (process true list front).perprocesspid).map Prod.fst).filter fun processPid =>
    processName processPid = name

/-- No two processes of a name do both, reclaim directly and put kswapd to sleep. -/
def Apart (front : List Action) : Prop :=
  ∀ p ∈ processes front, ∀ q ∈ processes front, processName p = processName q →
    awakes (history front p) = [] ∨ stalls (history front q) = []

section Reports

variable {list : Dir Text Stats → List (Text × Stats)} {front : List Action}

/-- What is listed are the hashes of the processes. -/
theorem stats_of_listed (lists : ∀ stats, (list stats).Perm stats.entries) {entry : Text × Stats}
    (listed : entry ∈ list (process true list front).perprocesspid) :
    entry.1 ∈ processes front ∧ entry.2 = statsOf (history front entry.1) :=
  mem_entries.mp ((lists _).mem_iff.mp listed)

theorem mem_ofName (lists : ∀ stats, (list stats).Perm stats.entries) {name processPid : Text}
    (member : processPid ∈ ofName list front name) :
    processPid ∈ processes front ∧ processName processPid = name := by
  obtain ⟨listed, same⟩ := List.mem_filter.mp member
  obtain ⟨entry, inside, rfl⟩ := List.mem_map.mp listed
  exact ⟨(stats_of_listed lists inside).1, decide_eq_true_iff.mp same⟩

theorem filter_listed (lists : ∀ stats, (list stats).Perm stats.entries) (name : Text) :
    ((list (process true list front).perprocesspid).filter
        fun entry => processName entry.1 = name).map Prod.snd =
      (ofName list front name).map fun processPid => statsOf (history front processPid) := by
  rw [ofName, List.filter_map, List.map_map]
  refine List.map_congr_left fun entry member => ?_
  exact (stats_of_listed lists (List.mem_filter.mp member).1).2

/-- The names of the processes, each once. -/
def names (list : Dir Text Stats → List (Text × Stats)) (front : List Action) : List Text :=
  ((list (process true list front).perprocesspid).map fun entry => processName entry.1).dedup

/-- The hashes of the names, but for their order. -/
theorem perm_entries_shown (lists : ∀ stats, (list stats).Perm stats.entries) :
    (shown true list front).entries.Perm
      ((names list front).map fun name =>
        (name, addedUp ((ofName list front name).map fun processPid =>
          statsOf (history front processPid)))) := by
  have touched : shown true list front = touches addUp id .empty
      ((list (process true list front).perprocesspid).map fun entry =>
        Touch.one (processName entry.1) entry.2) := by
    rw [touches, List.foldl_map]
    rfl
  rw [touched]
  refine (perm_entries_touches (fun entry : Text × Stats => processName entry.1) Prod.snd
    (fun _ => rfl) _).trans (List.Perm.of_eq (List.map_congr_left fun name _ => ?_))
  rw [← filter_listed lists]
  rfl

/-- A kind of time: what a report on names adds up, and what has been written over, is what
a report on processes adds up. -/
theorem sum_shown (lists : ∀ stats, (list stats).Perm stats.entries) {time : Stats → Nat}
    {own : Text → List Nat}
    (single : ∀ p ∈ processes front, time (statsOf (history front p)) = (own p).sum)
    (together : ∀ name,
      time (addedUp ((ofName list front name).map fun p => statsOf (history front p))) =
        (overlay ((ofName list front name).map own)).sum) :
    ((shown true list front).entries.map fun entry => time entry.2).sum +
        ((names list front).map fun name => (covered ((ofName list front name).map own)).sum).sum =
      ((shown false list front).entries.map fun entry => time entry.2).sum := by
  let listed := list (process true list front).perprocesspid
  have sameTable : (shown false list front).entries =
      (process true list front).perprocesspid.entries := by
    rw [shown, if_neg Bool.false_ne_true, perprocesspid_process, perprocesspid_process]
  have distinct : (names list front).Nodup := List.nodup_dedup _
  have named : ∀ p ∈ listed.map Prod.fst, processName p ∈ names list front := by
    intro p member
    obtain ⟨entry, inside, rfl⟩ := List.mem_map.mp member
    exact List.mem_dedup.mpr (List.mem_map.mpr ⟨entry, inside, rfl⟩)
  have byName (name : Text) :
      (overlay ((ofName list front name).map own)).sum +
          (covered ((ofName list front name).map own)).sum =
        ((ofName list front name).map fun p => (own p).sum).sum := by
    rw [sum_overlay_add_covered, List.map_map]
    rfl
  calc
    _ = ((names list front).map fun name =>
          (overlay ((ofName list front name).map own)).sum).sum +
        ((names list front).map fun name =>
          (covered ((ofName list front name).map own)).sum).sum := by
      rw [((perm_entries_shown lists).map fun entry => time entry.2).sum_eq, List.map_map]
      simp only [Function.comp_def, together]
    _ = ((names list front).map fun name =>
          ((ofName list front name).map fun p => (own p).sum).sum).sum := by
      rw [← List.sum_map_add]
      simp only [byName]
    _ = ((listed.map Prod.fst).map fun p => (own p).sum).sum :=
      sum_by_key processName (fun p => (own p).sum) distinct named
    _ = (listed.map fun entry => time entry.2).sum := by
      rw [List.map_map]
      refine congrArg List.sum (List.map_congr_left fun entry member => ?_)
      obtain ⟨spoken, same⟩ := stats_of_listed lists member
      rw [same, single _ spoken]
      rfl
    _ = _ := by rw [((lists _).map fun entry => time entry.2).sum_eq, sameTable]

/-- A process of a name either has no sleeps, or none of them has ends. -/
theorem kind_ofName (apart : Apart front) (lists : ∀ stats, (list stats).Perm stats.entries)
    (name : Text) :
    (∀ p ∈ ofName list front name, awakes (history front p) = []) ∨
      ∀ p ∈ ofName list front name, stalls (history front p) = [] := by
  by_cases asleep : ∀ p ∈ ofName list front name, awakes (history front p) = []
  · exact .inl asleep
  · push Not at asleep
    obtain ⟨p, member, awake⟩ := asleep
    obtain ⟨spoken, same⟩ := mem_ofName lists member
    refine .inr fun q other => ?_
    obtain ⟨spoken', same'⟩ := mem_ofName lists other
    exact (apart p spoken q spoken' (same.trans same'.symm)).resolve_left awake

/-- The times of a name are those of its processes, laid over each other. -/
theorem latency_addedUp (apart : Apart front)
    (lists : ∀ stats, (list stats).Perm stats.entries) (name : Text) :
    let sum := addedUp ((ofName list front name).map fun p => statsOf (history front p))
    directLatency sum =
        (overlay ((ofName list front name).map fun p => stallTimes (history front p))).sum ∧
      kswapdLatency sum =
        (overlay ((ofName list front name).map fun p => awakeTimes (history front p))).sum := by
  intro sum
  let members := ofName list front name
  let tables := members.map fun p => statsOf (history front p)
  have ofTables {f : Stats → Latencies} {own : Text → List Nat}
      (same : ∀ p, (definedItems (f (statsOf (history front p)))).map Latency.read = own p) :
      (overlay (tables.map fun stats => definedItems (f stats))).map Latency.read =
        overlay (members.map own) := by
    rw [← overlay_map, List.map_map, List.map_map]
    simp only [Function.comp_def, same]
  have empty {f : Stats → Latencies} {own : Text → List Nat}
      (same : ∀ p, (definedItems (f (statsOf (history front p)))).map Latency.read = own p)
      (none : ∀ p ∈ members, own p = []) : ∀ stats ∈ tables, definedItems (f stats) = [] := by
    intro stats member
    obtain ⟨p, inside, rfl⟩ := List.mem_map.mp member
    exact List.map_eq_nil_iff.mp ((same p).trans (none p inside))
  have direct (p : Text) := (map_read_definedItems (history front p)).1
  have kswapd (p : Text) := (map_read_definedItems (history front p)).2
  have kinds : (∀ stats ∈ tables, definedItems stats.highKswapdLatency = []) ∨
      ∀ stats ∈ tables, definedItems stats.highDirectReclaimLatency = [] := by
    rcases kind_ofName apart lists name with asleep | noEnd
    · refine .inl (empty kswapd fun p member => ?_)
      rw [awakeTimes, asleep p member]
      rfl
    · refine .inr (empty direct fun p member => ?_)
      rw [stallTimes, noEnd p member]
      rfl
  have oneKind : overlay (tables.map fun stats => definedItems stats.highKswapdLatency) = [] ∨
      overlay (tables.map fun stats => definedItems stats.highDirectReclaimLatency) = [] := by
    refine kinds.imp (fun none => overlay_eq_nil fun items member => ?_)
      fun none => overlay_eq_nil fun items member => ?_
    all_goals
      obtain ⟨stats, inside, rfl⟩ := List.mem_map.mp member
      exact none stats inside
  obtain ⟨directSum, kswapdSum⟩ := latency_of_defined (highDirectReclaimLatency_addedUp kinds)
    (highKswapdLatency_addedUp tables).2 oneKind
  exact ⟨directSum.trans (congrArg List.sum (ofTables direct)),
    kswapdSum.trans (congrArg List.sum (ofTables kswapd))⟩

/-- What is lost in one of the reports is missing in the sums of all later ones. -/
theorem foldl_inSeconds_iff {α : Type} {f g lost : α → Nat} {fronts : List α}
    (apart : ∀ front ∈ fronts, f front + lost front = g front) :
    (fronts.map f).foldl inSeconds 0 ≤ (fronts.map g).foldl inSeconds 0 ∧
      ((fronts.map f).foldl inSeconds 0 = (fronts.map g).foldl inSeconds 0 ↔
        ∀ front ∈ fronts, lost front = 0) := by
  induction fronts using List.reverseRecOn with
  | nil => exact ⟨le_refl _, fun _ => nofun, fun _ => rfl⟩
  | append_singleton fronts last ih =>
      obtain ⟨le, same⟩ := ih fun front member => apart front (List.mem_append_left _ member)
      have parts := apart last (List.mem_append_right _ List.mem_cons_self)
      have more : (g last : ℚ) = f last + lost last := by exact_mod_cast parts.symm
      have nonneg : (0 : ℚ) ≤ lost last := Nat.cast_nonneg _
      have none : (lost last : ℚ) = 0 ↔ lost last = 0 := Nat.cast_eq_zero
      rw [List.map_append, List.map_append, List.foldl_append, List.foldl_append]
      simp only [List.map_cons, List.map_nil, List.foldl_cons, List.foldl_nil, List.mem_append,
        List.mem_singleton, or_imp, forall_and, forall_eq]
      rw [← same, ← none]
      generalize (fronts.map f).foldl inSeconds 0 = a at le
      generalize (fronts.map g).foldl inSeconds 0 = b at le
      unfold inSeconds
      refine ⟨by linarith, fun equal => ⟨by linarith, by linarith⟩, fun ⟨one, other⟩ => ?_⟩
      rw [one, more, other, add_zero]

/-- Nothing of a kind is written over in front of a report. -/
theorem sum_covered_eq_zero (own : Text → List Nat) :
    ((names list front).map fun name => (covered ((ofName list front name).map own)).sum).sum = 0 ↔
      ∀ name, ∀ time ∈ covered ((ofName list front name).map own), time = 0 := by
  have nothing (numbers : List Nat) : numbers.sum = 0 ↔ ∀ n ∈ numbers, n = 0 :=
    List.sum_eq_zero_iff_forall_eq_nat
  rw [nothing, List.forall_mem_map]
  constructor
  · intro zero name time member
    by_cases named : name ∈ names list front
    · exact (nothing _).mp (zero name named) time member
    · -- a name that no process has
      have nobody : ofName list front name = [] := by
        refine List.filter_eq_nil_iff.mpr fun p listed same => named ?_
        obtain ⟨entry, inside, rfl⟩ := List.mem_map.mp listed
        exact List.mem_dedup.mpr
          (List.mem_map.mpr ⟨entry, inside, decide_eq_true_iff.mp same⟩)
      rw [nobody] at member
      cases member
  · intro zero name _
    exact (nothing _).mpr (zero name)

/-- A kind of time in all reports. -/
theorem latency_lt_iff (lists : ∀ stats, (list stats).Perm stats.entries)
    {fronts : List (List Action)} {time : Stats → Nat} {times : History → List Nat}
    (single : ∀ front ∈ fronts, ∀ p ∈ processes front,
      time (statsOf (history front p)) = (times (history front p)).sum)
    (together : ∀ front ∈ fronts, ∀ name,
      time (addedUp ((ofName list front name).map fun p => statsOf (history front p))) =
        (overlay ((ofName list front name).map fun p => times (history front p))).sum) :
    let total (ignorePid : Bool) := (fronts.map fun front =>
      ((shown ignorePid list front).entries.map fun entry => time entry.2).sum).foldl inSeconds 0
    total true ≤ total false ∧
      (total true < total false ↔ ∃ front ∈ fronts, ∃ name,
        ∃ time ∈ covered ((ofName list front name).map fun p => times (history front p)),
          time ≠ 0) := by
  intro total
  obtain ⟨le, same⟩ := foldl_inSeconds_iff fun front member =>
    sum_shown lists (single front member) (together front member)
  refine ⟨le, ?_⟩
  rw [lt_iff_le_and_ne, and_iff_right le, ne_eq]
  refine (not_congr same).trans ?_
  simp only [sum_covered_eq_zero]
  push Not
  exact Iff.rfl

/-- The times that are missing when processes are reported by name are those that have been
written over, whatever order the processes of a name are listed in. -/
theorem latency_ignorePid (lists : ∀ stats, (list stats).Perm stats.entries)
    (actions : List Action) (apart : ∀ front ∈ reportFronts actions, Apart front) :
    let byName := (process true list actions).totals
    let byProcess := (process false list actions).totals
    let lost (times : History → List Nat) := ∃ front ∈ reportFronts actions, ∃ name,
      ∃ time ∈ covered ((ofName list front name).map fun p => times (history front p)), time ≠ 0
    (byName.directLatency ≤ byProcess.directLatency ∧
        (byName.directLatency < byProcess.directLatency ↔ lost stallTimes)) ∧
      (byName.kswapdLatency ≤ byProcess.kswapdLatency ∧
        (byName.kswapdLatency < byProcess.kswapdLatency ↔ lost awakeTimes)) := by
  dsimp only
  have single (front : List Action) (member : front ∈ reportFronts actions) (p : Text)
      (spoken : p ∈ processes front) :=
    time_eq_sum (apart front member p spoken p spoken rfl)
  obtain ⟨direct, kswapd⟩ := @latencies_process true list actions
  obtain ⟨direct', kswapd'⟩ := @latencies_process false list actions
  rw [direct, direct', kswapd, kswapd']
  constructor
  · exact latency_lt_iff lists
      (fun front member p spoken =>
        (directLatency_eq (account_statsOf _)).trans (single front member p spoken).1)
      fun front member name => (latency_addedUp (apart front member) lists name).1
  · exact latency_lt_iff lists
      (fun front member p spoken =>
        (kswapdLatency_eq (account_statsOf _)).trans (single front member p spoken).2)
      fun front member name => (latency_addedUp (apart front member) lists name).2

end Reports

/-- Two compilers that reclaim one after the other. -/
def twoCompilers : List Action :=
  let line (pid : Char) (timestamp : Nat) (event : Event) : Action :=
    .line ⟨"cc1".toList, [pid], timestamp, some event⟩
  [line '7' 1000 (.directReclaimBegin (some 0)), line '7' 3000 .directReclaimEnd,
    line '8' 4000 (.directReclaimBegin (some 0)), line '8' 9000 .directReclaimEnd, .report]

/-- The time of the first one is lost. -/
theorem latency_twoCompilers :
    (process true Dir.entries twoCompilers).totals.directLatency <
      (process false Dir.entries twoCompilers).totals.directLatency := by
  have apart : ∀ front ∈ reportFronts twoCompilers, Apart front := by
    unfold Apart
    decide
  refine (latency_ignorePid (fun _ => List.Perm.refl _) twoCompilers apart).1.2.mpr ?_
  exact ⟨twoCompilers.take 4, List.mem_singleton.mpr rfl, "cc1".toList, 2000, by decide, by decide⟩

end StudyLinux.Vmscan
