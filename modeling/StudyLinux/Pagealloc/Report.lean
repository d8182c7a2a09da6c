import Mathlib.Algebra.BigOperators.Intervals
import Mathlib.Data.List.Dedup
import StudyLinux.Order.Blocks
import StudyLinux.Pagealloc.Events

/-!
# What a report counts

The report on a process is about the history of that process alone: its own events, and
the reports in between. A drain is a maximal block of drain events in it, and a refill one
of allocations under the lock (`columns_lastReport`).
-/

namespace StudyLinux.Pagealloc

/-! ## The history of a process -/

/-- What an action touches. -/
def touchOf (fragdetails : List Piece) (ignorePid : Bool) : Action → Option (Touch Text Event)
  | .line traceevent => (readLine fragdetails traceevent).map fun read => .one read.1 read.2
  | .report => if ignorePid then none else some .all

/-- The events of a process and the reports that have finished its counters. -/
def history (fragdetails : List Piece) (ignorePid : Bool) (actions : List Action)
    (processPid : Text) : List (Option Event) :=
  reaching processPid (actions.filterMap (touchOf fragdetails ignorePid))

variable {fragdetails : List Piece} {ignorePid : Bool}

theorem perprocesspid_step (s : Session) (action : Action) :
    (step fragdetails ignorePid s action).perprocesspid =
      touches (fun account event => countEvent account event) finish s.perprocesspid
        (touchOf fragdetails ignorePid action).toList := by
  cases action with
  | line traceevent =>
      rw [step, touchOf]
      cases readLine fragdetails traceevent with
      | none => rfl
      | some read => rfl
  | report =>
      rw [step, touchOf]
      cases ignorePid with
      | true => rfl
      | false => rfl

theorem perprocesspid_foldl (s : Session) (actions : List Action) :
    (actions.foldl (step fragdetails ignorePid) s).perprocesspid =
      touches (fun account event => countEvent account event) finish s.perprocesspid
        (actions.filterMap (touchOf fragdetails ignorePid)) := by
  induction actions generalizing s with
  | nil => rfl
  | cons action actions ih =>
      rw [List.foldl_cons, ih, perprocesspid_step, touches, touches, touches, ← List.foldl_append]
      refine congrArg (List.foldl _ _) ?_
      rw [List.filterMap_cons]
      cases touchOf fragdetails ignorePid action with
      | none => rfl
      | some t => rfl

/-! ## Counters of a history -/

/-- The counters that no state goes into. -/
def plainKeys : List Key :=
  [.mmPageAlloc, .mmPageAllocZoneLocked, .mmPageFree, .mmPageFreeBatched, .mmPagePcpuDrain,
    .mmPageAllocExtfrag, .highExtFrag, .highExtFragmentChanged, .highExtFragmentSevere,
    .highExtFragmentModerate, .eventUnknown]

/-- Some event of a history adds to a counter. -/
def addsTo (key : Key) (a : Option Event) : Bool := a.any (key ∈ ·.keys)

/-- Full blocks of an event are counted, and one that goes on is remembered. -/
structure Caught (state high : Key) (event : Event) (own : List (Option Event)) (stats : Stats) :
    Prop where
  full : stats high = closedBlocks (· == some event) own
  pending : stats state ≠ 0 ↔ endsInBlock (· == some event) own = true

/-- What the counters of a process say of its history. -/
structure Account (own : List (Option Event)) (stats : Stats) : Prop where
  plain : ∀ key ∈ plainKeys, stats key = own.countP (addsTo key)
  drains : Caught .statePcpuPagesDrained .highPcpuDrains .mmPagePcpuDrain own stats
  refills : Caught .statePcpuPagesRefilled .highPcpuRefills .mmPageAllocZoneLocked own stats

theorem foldl_count (keys : List Key) (stats : Stats) (key : Key) :
    keys.foldl count stats key = stats key + keys.count key := by
  induction keys generalizing stats with
  | nil => rfl
  | cons first keys ih =>
      rw [List.foldl_cons, ih, count]
      rcases eq_or_ne key first with rfl | other
      · rw [Function.update_self, List.count_cons_self, Nat.add_right_comm, Nat.add_assoc]
      · rw [Function.update_of_ne other, List.count_cons_of_ne other.symm]

theorem catchFull_of_ne {state high key : Key} (stats : Stats) (goesOn : Bool)
    (noState : key ≠ state) (notHigh : key ≠ high) :
    catchFull state high goesOn stats key = stats key := by
  unfold catchFull
  split
  · rw [Function.update_of_ne noState, count, Function.update_of_ne notHigh]
  · rfl

theorem catchFull_of_skip {state high : Key} {goesOn : Bool} {stats : Stats}
    (skip : stats state = 0 ∨ goesOn = true) : catchFull state high goesOn stats = stats := by
  refine if_neg fun ⟨pending, ends⟩ => ?_
  rcases skip with zero | rfl
  · exact pending zero
  · cases ends

theorem catchFull_of_pending {state high : Key} {stats : Stats} (pending : stats state ≠ 0) :
    catchFull state high false stats = Function.update (count stats high) state 0 :=
  if_pos ⟨pending, rfl⟩

/-- A block is closed by what is not in it. -/
theorem caught_catchFull {state high : Key} (other : high ≠ state) {event : Event}
    {own : List (Option Event)} {stats counted : Stats} {a : Option Event}
    (before : Caught state high event own stats) (full : counted high = stats high)
    (pending : counted state = stats state + (a == some event).toNat) :
    Caught state high event (own ++ [a]) (catchFull state high (a == some event) counted) := by
  have closed := closedBlocks_concat (p := (· == some event)) own a
  have ends := endsInBlock_concat (p := (· == some event)) own a
  rw [← before.full, ← full] at closed
  cases goesOn : a == some event with
  | true =>
      rw [goesOn] at closed ends pending
      rw [catchFull_of_skip (.inr rfl)]
      exact ⟨closed.symm, iff_of_true (pending ▸ Nat.succ_ne_zero _) ends⟩
  | false =>
      rw [goesOn] at closed ends pending
      rw [Bool.toNat_false, Nat.add_zero] at pending
      rw [Bool.not_false, Bool.true_and] at closed
      have still := before.pending
      rw [← pending] at still
      cases inside : endsInBlock (· == some event) own with
      | true =>
          rw [catchFull_of_pending (still.mpr inside)]
          refine ⟨?_, iff_of_false (fun state => state (Function.update_self ..)) ?_⟩
          · rw [Function.update_of_ne other, count, Function.update_self, closed, inside]
            rfl
          · rw [ends]
            exact Bool.false_ne_true
      | false =>
          have zero : counted state = 0 :=
            of_not_not fun pending => Bool.false_ne_true (inside.symm.trans (still.mp pending))
          rw [catchFull_of_skip (.inl zero)]
          rw [inside] at closed
          exact ⟨closed.symm, iff_of_false (not_not.mpr zero) (ends ▸ Bool.false_ne_true)⟩

/-- The counters before any action. -/
theorem account_nil : Account [] fun _ => 0 where
  plain _ _ := rfl
  drains := ⟨rfl, iff_of_false (not_not.mpr rfl) Bool.false_ne_true⟩
  refills := ⟨rfl, iff_of_false (not_not.mpr rfl) Bool.false_ne_true⟩

theorem count_keys (event : Event) (key : Key) :
    event.keys.count key = (addsTo key (some event)).toNat := by
  have nodup : event.keys.Nodup := by
    cases event with
    | mmPageAllocExtfrag fragmenting severe changeOwnership =>
        cases fragmenting <;> cases severe <;> cases changeOwnership <;> decide
    | _ => decide
  rw [nodup.count, addsTo, Option.any_some]
  split
  · rw [decide_eq_true ‹_›, Bool.toNat_true]
  · rw [decide_eq_false ‹_›, Bool.toNat_false]

theorem addsTo_state (a : Option Event) :
    addsTo .statePcpuPagesDrained a = (a == some .mmPagePcpuDrain) ∧
      addsTo .statePcpuPagesRefilled a = (a == some .mmPageAllocZoneLocked) ∧
      addsTo .highPcpuDrains a = false ∧ addsTo .highPcpuRefills a = false := by
  rcases a with _ | event
  · decide
  · cases event with
    | mmPageAllocExtfrag fragmenting severe changeOwnership =>
        cases fragmenting <;> cases severe <;> cases changeOwnership <;> decide
    | _ => decide

theorem Caught.congr {state high : Key} {event : Event} {own : List (Option Event)}
    {stats stats' : Stats} (caught : Caught state high event own stats)
    (same : stats' high = stats high) (sameState : stats' state = stats state) :
    Caught state high event own stats' :=
  ⟨same.trans caught.full, sameState ▸ caught.pending⟩

/-- The counters after an event of the process, or after a report. -/
theorem account_concat {own : List (Option Event)} {stats counted : Stats} {a : Option Event}
    (account : Account own stats)
    (counts : ∀ key, counted key = stats key + (addsTo key a).toNat) :
    Account (own ++ [a])
      (catchFull .statePcpuPagesRefilled .highPcpuRefills (a == some .mmPageAllocZoneLocked)
        (catchFull .statePcpuPagesDrained .highPcpuDrains (a == some .mmPagePcpuDrain)
          counted)) := by
  obtain ⟨drained, refilled, drains, refills⟩ := addsTo_state a
  have noDrain : counted .highPcpuDrains = stats .highPcpuDrains := by
    rw [counts, drains, Bool.toNat_false, Nat.add_zero]
  have ofDrain := counts .statePcpuPagesDrained
  rw [drained] at ofDrain
  have drain := caught_catchFull (by decide) account.drains noDrain ofDrain
  refine ⟨fun key member => ?_, ?_, ?_⟩
  · have noState : key ≠ .statePcpuPagesDrained ∧ key ≠ .highPcpuDrains ∧
        key ≠ .statePcpuPagesRefilled ∧ key ≠ .highPcpuRefills := by
      revert key
      decide
    obtain ⟨one, two, three, four⟩ := noState
    rw [catchFull_of_ne _ _ three four, catchFull_of_ne _ _ one two, counts,
      account.plain key member, List.countP_append, List.countP_singleton]
    cases addsTo key a <;> rfl
  · exact drain.congr (catchFull_of_ne _ _ (by decide) (by decide))
      (catchFull_of_ne _ _ (by decide) (by decide))
  · refine caught_catchFull (by decide) account.refills ?_ ?_
    · rw [catchFull_of_ne _ _ (by decide) (by decide), counts, refills, Bool.toNat_false,
        Nat.add_zero]
    · rw [catchFull_of_ne _ _ (by decide) (by decide), counts, refilled]

/-- What a history makes of the account of a process. -/
def accountOf (own : List (Option Event)) : Option Stats :=
  own.foldl (stepOwn (fun account event => countEvent account event) finish) none

/-- A process has an account as soon as it has an event. -/
theorem account_accountOf (own : List (Option Event)) :
    Account own ((accountOf own).getD fun _ => 0) ∧
      (accountOf own = none ↔ ∀ a ∈ own, a = none) := by
  induction own using List.reverseRecOn with
  | nil => exact ⟨account_nil, iff_of_true rfl nofun⟩
  | append_singleton own a ih =>
      obtain ⟨account, opened⟩ := ih
      have last : accountOf (own ++ [a]) =
          stepOwn (fun account event => countEvent account event) finish (accountOf own) a := by
        rw [accountOf, List.foldl_append]
        rfl
      rw [last]
      cases a with
      | some event =>
          refine ⟨account_concat account fun key => ?_, iff_of_false nofun fun all => ?_⟩
          · rw [foldl_count, count_keys]
          · exact nomatch all _ (List.mem_append_right _ (List.mem_singleton_self _))
      | none =>
          have finished : (((accountOf own).map finish).getD fun _ => 0) =
              finish ((accountOf own).getD fun _ => 0) := by
            cases accountOf own with
            | none =>
                rw [finish, catchFull_of_skip (.inl rfl), catchFull_of_skip (.inl rfl)]
                rfl
            | some stats => rfl
          refine ⟨?_, ?_⟩
          · rw [stepOwn, finished]
            exact account_concat account fun key => rfl
          · rw [stepOwn, Option.map_eq_none_iff, opened, List.forall_mem_append,
              List.forall_mem_singleton, and_iff_left rfl]

/-! ## The report on processes -/

/-- The events that come in blocks, by the counter of their blocks. -/
def blockEvent : Key → Option Event
  | .highPcpuDrains => some .mmPagePcpuDrain
  | .highPcpuRefills => some .mmPageAllocZoneLocked
  | _ => none

/-- What a history comes to in a column: blocks, or single events. -/
def tally (key : Key) (own : List (Option Event)) : Nat :=
  match blockEvent key with
  | some event => blocks (· == some event) own
  | none => own.countP (addsTo key)

/-- The history ends within a block of a column. -/
def unfinished (key : Key) (own : List (Option Event)) : Bool :=
  match blockEvent key with
  | some event => endsInBlock (· == some event) own
  | none => false

/-- A report ends every block and adds nothing. -/
theorem tally_concat_none (key : Key) (own : List (Option Event)) :
    tally key (own ++ [none]) = tally key own ∧ unfinished key (own ++ [none]) = false := by
  unfold tally unfinished
  cases blockEvent key with
  | none => exact ⟨(List.countP_append ..).trans (Nat.add_zero _), rfl⟩
  | some event => exact ⟨blocks_concat own none, endsInBlock_concat own none⟩

/-- A counter has its column, but for a block that has not ended. -/
theorem Account.add_unfinished {own : List (Option Event)} {stats : Stats}
    (account : Account own stats) {key : Key} (member : key ∈ reported) :
    stats key + (unfinished key own).toNat = tally key own := by
  have kinds : key ∈ plainKeys ∨ key = .highPcpuDrains ∨ key = .highPcpuRefills := by
    revert key
    decide
  rcases kinds with single | rfl | rfl
  · have noBlock : blockEvent key = none := by
      revert key
      decide
    rw [unfinished, tally, noBlock]
    exact account.plain key single
  · exact account.drains.full ▸ closedBlocks_add own
  · exact account.refills.full ▸ closedBlocks_add own

theorem get_perprocesspid (actions : List Action) (processPid : Text) :
    (process fragdetails ignorePid actions).perprocesspid.get processPid =
      accountOf (history fragdetails ignorePid actions processPid) := by
  rw [process, perprocesspid_foldl, get_touches]
  rfl

theorem lastReport_eq (actions : List Action) :
    lastReport fragdetails ignorePid actions =
      if ignorePid then
        ((aggregatePerprocesspid (process fragdetails true actions).perprocesspid).mapValues
          finish).mapValues columns
      else
        ((process fragdetails false actions).perprocesspid.mapValues finish).mapValues columns := by
  rw [lastReport, process, List.foldl_append, List.foldl_cons, List.foldl_nil, ← process]
  cases ignorePid with
  | true => exact List.getLastD_concat
  | false => exact List.getLastD_concat

/-- The report on a process, wherever the reports before it have been asked for. -/
theorem get_lastReport (actions : List Action) (processPid : Text) :
    let own := history fragdetails false actions processPid
    (lastReport fragdetails false actions).get processPid =
      if ∀ a ∈ own, a = none then none else some (reported.map fun key => tally key own) := by
  intro own
  rw [lastReport_eq, if_neg Bool.false_ne_true, Dir.get_mapValues, Dir.get_mapValues,
    get_perprocesspid]
  obtain ⟨account, opened⟩ := account_accountOf own
  change ((accountOf own).map finish).map columns = _
  split
  · rename_i silent
    rw [opened.mpr silent]
    rfl
  · rename_i seen
    cases here : accountOf own with
    | none => exact absurd (opened.mp here) seen
    | some stats =>
        rw [here] at account
        have finished : Account (own ++ [none]) (finish stats) :=
          account_concat account fun key => rfl
        rw [Option.map_some, Option.map_some, columns]
        refine congrArg some (List.map_congr_left fun key member => ?_)
        obtain ⟨same, ended⟩ := tally_concat_none key own
        rw [← same, ← finished.add_unfinished member, ended, Bool.toNat_false, Nat.add_zero]

/-! ## The report on names -/

theorem foldl_addUp (entries : List (Text × Stats)) (sum : Option Stats) :
    (entries.map fun entry => some entry.2).foldl (stepOwn addUp id) sum =
      if entries = [] then
        sum
      else
        some fun key => (sum.getD fun _ => 0) key +
          if key ∈ reported then (entries.map (·.2 key)).sum else 0 := by
  induction entries generalizing sum with
  | nil => rfl
  | cons entry entries ih =>
      rw [List.map_cons, List.foldl_cons, ih, if_neg (List.cons_ne_nil _ _)]
      split
      · rename_i empty
        subst empty
        rw [stepOwn]
        refine congrArg some (funext fun key => ?_)
        rw [List.map_singleton, List.sum_singleton]
        rfl
      · refine congrArg some (funext fun key => ?_)
        rw [List.map_cons, List.sum_cons]
        change (addUp sum entry.2) key + _ = _
        rw [addUp, Nat.add_assoc]
        split
        · rfl
        · rfl

/-- Aggregated counters are sums over the processes of a name. -/
theorem get_aggregatePerprocesspid (perprocesspid : Dir Text Stats) (name : Text) :
    (aggregatePerprocesspid perprocesspid).get name =
      let entries := perprocesspid.entries.filter fun entry => processName entry.1 = name
      if entries = [] then none
      else some fun key => if key ∈ reported then (entries.map (·.2 key)).sum else 0 := by
  have touched : aggregatePerprocesspid perprocesspid =
      touches addUp id .empty
        (perprocesspid.entries.map fun entry => .one (processName entry.1) entry.2) := by
    rw [touches, List.foldl_map]
    rfl
  rw [touched, get_touches,
    reaching_map_one (fun entry : Text × Stats => processName entry.1) Prod.snd
      (fun _ => decide_eq_true_iff), foldl_addUp]
  dsimp only
  split
  · rfl
  · refine congrArg some (funext fun key => ?_)
    exact Nat.zero_add _

/-- Nothing is left to finish in aggregated counters. -/
theorem finish_aggregated {stats : Stats} (unfinished : ∀ key, key ∉ reported → stats key = 0) :
    finish stats = stats := by
  rw [finish, catchFull_of_skip (.inl (unfinished _ (by decide))),
    catchFull_of_skip (.inl (unfinished _ (by decide)))]

/-- The processes that have events, each once. -/
def processes (fragdetails : List Piece) (actions : List Action) : List Text :=
  ((actions.filterMap fun
    | .line traceevent => readLine fragdetails traceevent
    | .report => none).map Prod.fst).dedup

theorem mem_processes {actions : List Action} {processPid : Text} :
    processPid ∈ processes fragdetails actions ↔
      ∃ event, some event ∈ history fragdetails ignorePid actions processPid := by
  rw [processes, List.mem_dedup, List.mem_map, Prod.exists]
  constructor
  · rintro ⟨_, event, member, rfl⟩
    obtain ⟨action, listed, read⟩ := List.mem_filterMap.mp member
    refine ⟨event, some_mem_reaching.mpr (List.mem_filterMap.mpr ⟨action, listed, ?_⟩)⟩
    cases action with
    | line traceevent =>
        have read : readLine fragdetails traceevent = some (_, event) := read
        rw [touchOf, read]
        rfl
    | report => cases read
  · rintro ⟨event, member⟩
    obtain ⟨action, listed, touched⟩ := List.mem_filterMap.mp (some_mem_reaching.mp member)
    refine ⟨processPid, event, List.mem_filterMap.mpr ⟨action, listed, ?_⟩, rfl⟩
    cases action with
    | line traceevent =>
        obtain ⟨read, same, touch⟩ := Option.map_eq_some_iff.mp touched
        cases touch
        exact same
    | report =>
        rw [touchOf] at touched
        split at touched <;> cases touched

theorem countP_eq_sum {α : Type} (p : α → Bool) (list : List α) :
    list.countP p = (list.map fun a => (p a).toNat).sum := by
  induction list with
  | nil => rfl
  | cons a list ih =>
      rw [List.countP_cons, ih, List.map_cons, List.sum_cons, Nat.add_comm]
      cases p a <;> rfl

/-- The processes of a name are those that have counters. -/
theorem perm_members (actions : List Action) (name : Text) :
    (((process fragdetails ignorePid actions).perprocesspid.entries.filter
        fun entry => processName entry.1 = name).map Prod.fst).Perm
      ((processes fragdetails actions).filter fun processPid => processName processPid = name) := by
  let d := (process fragdetails ignorePid actions).perprocesspid
  have names : (d.entries.filter fun entry => processName entry.1 = name).map Prod.fst =
      d.names.filter fun processPid => processName processPid = name := by
    rw [Dir.names, List.filter_map]
    rfl
  change ((d.entries.filter fun entry => processName entry.1 = name).map Prod.fst).Perm _
  rw [names]
  refine List.Perm.filter _ ?_
  have distinct : (processes fragdetails actions).Nodup := List.nodup_dedup _
  refine (List.perm_ext_iff_of_nodup d.nodup_names distinct).mpr fun processPid => ?_
  obtain ⟨-, opened⟩ := account_accountOf (history fragdetails ignorePid actions processPid)
  have listed : processPid ∈ processes fragdetails actions ↔
      ∃ event, some event ∈ history fragdetails ignorePid actions processPid := mem_processes
  rw [Dir.mem_names, get_perprocesspid, listed, ← Option.ne_none_iff_isSome, ne_eq, opened]
  constructor
  · intro spoken
    push Not at spoken
    obtain ⟨a, member, spoken⟩ := spoken
    obtain ⟨event, rfl⟩ := Option.ne_none_iff_exists'.mp spoken
    exact ⟨event, member⟩
  · rintro ⟨event, member⟩ silent
    cases silent _ member

/-- Aggregated columns: what the histories of the processes of a name come to, but for one
block for each process that is in the middle of one. -/
theorem get_lastReport_ignorePid (actions : List Action) (name : Text) :
    let members := (processes fragdetails actions).filter fun processPid =>
      processName processPid = name
    let own := history fragdetails true actions
    (members = [] → (lastReport fragdetails true actions).get name = none) ∧
      (members ≠ [] →
        ∃ counters : Stats,
          (lastReport fragdetails true actions).get name = some (columns counters) ∧
            ∀ key ∈ reported,
              counters key + members.countP (fun processPid => unfinished key (own processPid)) =
                (members.map fun processPid => tally key (own processPid)).sum) := by
  intro members own
  let entries := (process fragdetails true actions).perprocesspid.entries.filter
    fun entry => processName entry.1 = name
  have perm : (entries.map Prod.fst).Perm members := perm_members actions name
  have empty : entries = [] ↔ members = [] := by
    rw [← List.length_eq_zero_iff, ← List.length_eq_zero_iff, ← perm.length_eq, List.length_map]
  rw [lastReport_eq, if_pos rfl, Dir.get_mapValues, Dir.get_mapValues, get_aggregatePerprocesspid]
  dsimp only
  refine ⟨fun nobody => by rw [if_pos (empty.mpr nobody)]; rfl, fun somebody => ?_⟩
  rw [if_neg (mt empty.mp somebody), Option.map_some,
    finish_aggregated fun key other => if_neg other]
  refine ⟨_, rfl, fun key member => ?_⟩
  have each : ∀ entry ∈ entries,
      entry.2 key + (unfinished key (own entry.1)).toNat = tally key (own entry.1) := by
    rintro ⟨processPid, stats⟩ listed
    have stored := (Dir.get_eq_some_iff _).mpr (List.mem_filter.mp listed).1
    rw [get_perprocesspid] at stored
    obtain ⟨account, -⟩ := account_accountOf (own processPid)
    rw [stored] at account
    exact account.add_unfinished member
  have byEntry (f : Text → Nat) :
      (members.map f).sum = (entries.map fun entry => f entry.1).sum := by
    rw [← (perm.map f).sum_eq, List.map_map]
    rfl
  rw [if_pos member, countP_eq_sum, byEntry, byEntry, ← List.sum_map_add, List.map_congr_left each]

end StudyLinux.Pagealloc
