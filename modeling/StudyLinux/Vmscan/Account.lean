import Mathlib.Algebra.BigOperators.Intervals
import Mathlib.Data.List.DropRight
import StudyLinux.Order.Fronts
import StudyLinux.Vmscan.Events

/-!
# What is kept of a process

The history of a process are its events with their times. The counters are sums over it,
an end of a direct reclaim has the time from the last begin in front of it, if there is
one, and a sleep of kswapd the time from the first wakeup since the last sleep.
-/

namespace StudyLinux.Vmscan

abbrev History := List (Nat × Event)

/-! ## Times -/

def beginTime : Nat × Event → Option Nat
  | (timestamp, .directReclaimBegin _) => some timestamp
  | _ => none

/-- The last begin. -/
def lastBegin (own : History) : Option Nat := (own.filterMap beginTime).getLast?

/-- What an end takes, unless there is no begin. -/
def stall (front : History) : Nat × Event → Option (Option Int)
  | (timestamp, .directReclaimEnd) =>
      some ((lastBegin front).map fun begun => (timestamp : Int) - begun)
  | _ => none

def stalls (own : History) : List (Option Int) := made stall own

def wakeTime : Nat × Event → Option Nat
  | (timestamp, .kswapdWake _) => some timestamp
  | _ => none

def isSleep (timed : Nat × Event) : Bool := timed.2 = .kswapdSleep

/-- The first wakeup since the last sleep. None is at 0. -/
def awakeSince (own : History) : Nat :=
  (((own.rtakeWhile fun timed => !isSleep timed).filterMap wakeTime).find? (· ≠ 0)).getD 0

/-- What a sleep ends. -/
def awake (front : History) : Nat × Event → Option Int
  | (timestamp, .kswapdSleep) => some ((timestamp : Int) - awakeSince front)
  | _ => none

def awakes (own : History) : List Int := made awake own

/-! ## Numbers -/

/-- What an event adds to the counters. -/
def amounts (front : History) (timed : Nat × Event) : List (Key × Nat) :=
  match timed.2 with
  | .directReclaimBegin _ => [(.directReclaimBegin, 1)]
  | .directReclaimEnd => [(.directReclaimEnd, 1)]
  | .kswapdWake _ => [(if awakeSince front = 0 then .kswapdWake else .highKswapdRewakeup, 1)]
  | .kswapdSleep => [(.kswapdSleep, 1)]
  | .wakeupKswapd _ => [(.wakeupKswapd, 1)]
  | .lruIsolate nrScanned file =>
      [(.highNrScanned, nrScanned),
        (if file then .highNrFileScanned else .highNrAnonScanned, nrScanned)]
  | .lruShrinkInactive nrReclaimed file =>
      [(.highNrReclaimed, nrReclaimed),
        (if file then .highNrFileReclaimed else .highNrAnonReclaimed, nrReclaimed)]
  | .writepage file sync =>
      [(if sync then if file then .writepageFileSync else .writepageAnonSync
        else if file then .writepageFileAsync else .writepageAnonAsync, 1)]
  | .unknown => [(.eventUnknown, 1)]

def amount (key : Key) (front : History) (timed : Nat × Event) : Nat :=
  (((amounts front timed).filter fun added => added.1 = key).map Prod.snd).sum

/-- The order that an event counts. -/
def orderOf (front : History) (timed : Nat × Event) : Option (OrderKey × Nat) :=
  match timed.2 with
  | .directReclaimBegin order => order.map fun order => (.directReclaimBegin, order)
  | .kswapdWake order =>
      some (if awakeSince front = 0 then .kswapdWake else .highKswapdRewakeup, order)
  | .wakeupKswapd order => order.map fun order => (.wakeupKswapd, order)
  | _ => none

/-- How often an order is counted. -/
def orderTally (key : OrderKey) (order : Nat) (own : History) : Nat :=
  (made orderOf own).count (key, order)

/-- What a history comes to. -/
def tally (key : Key) (own : History) : Nat :=
  (made (fun front timed => some (amount key front timed)) own).sum

theorem tally_concat (key : Key) (own : History) (timed : Nat × Event) :
    tally key (own ++ [timed]) = tally key own + amount key own timed := by
  rw [tally, made_concat, List.sum_append]
  exact congrArg (tally key own + ·) (Nat.add_zero _)

theorem orderTally_concat (key : OrderKey) (order : Nat) (own : History) (timed : Nat × Event) :
    orderTally key order (own ++ [timed]) =
      orderTally key order own + (orderOf own timed).toList.count (key, order) := by
  rw [orderTally, made_concat, List.count_append]
  rfl

theorem stalls_concat (own : History) (timed : Nat × Event) :
    stalls (own ++ [timed]) = stalls own ++ (stall own timed).toList := made_concat own timed

theorem awakes_concat (own : History) (timed : Nat × Event) :
    awakes (own ++ [timed]) = awakes own ++ (awake own timed).toList := made_concat own timed

theorem lastBegin_concat (own : History) (timed : Nat × Event) :
    lastBegin (own ++ [timed]) = (beginTime timed).or (lastBegin own) := by
  rw [lastBegin, List.filterMap_append, List.getLast?_append]
  cases found : beginTime timed with
  | none =>
      rw [List.filterMap_cons_none found]
      rfl
  | some timestamp =>
      rw [List.filterMap_cons_some found]
      rfl

theorem awakeSince_concat_sleep (own : History) (timestamp : Nat) :
    awakeSince (own ++ [(timestamp, .kswapdSleep)]) = 0 := by
  have sleep : ¬ (!isSleep (timestamp, .kswapdSleep)) = true := by simp [isSleep]
  rw [awakeSince, List.rtakeWhile_concat_neg (fun timed => !isSleep timed) own _ sleep]
  rfl

theorem awakeSince_concat {timed : Nat × Event} (own : History) (others : isSleep timed = false) :
    awakeSince (own ++ [timed]) =
      if awakeSince own = 0 then (wakeTime timed).getD 0 else awakeSince own := by
  unfold awakeSince
  rw [List.rtakeWhile_concat_pos _ _ _ (by rw [others]; rfl), List.filterMap_append,
    List.find?_append]
  cases earlier : ((own.rtakeWhile fun timed => !isSleep timed).filterMap wakeTime).find?
      (· ≠ 0) with
  | some first =>
      have nonzero : first ≠ 0 := by simpa using List.find?_some earlier
      rw [Option.some_or, Option.getD_some, if_neg nonzero]
  | none =>
      rw [Option.none_or, Option.getD_none, if_pos rfl]
      cases found : wakeTime timed with
      | none =>
          rw [List.filterMap_cons_none found]
          rfl
      | some timestamp =>
          rw [List.filterMap_cons_some found, List.filterMap_nil, List.find?_singleton]
          by_cases zero : timestamp = 0
          · subst zero
            rfl
          · rw [if_pos (by simpa using zero)]

/-! ## Arrays -/

theorem length_setAt (array : Latencies) (index : Nat) (item : Latency) :
    (setAt array index item).length = max array.length (index + 1) := by
  unfold setAt
  split
  · rw [List.length_set]
    omega
  · rw [List.length_append, List.length_append, List.length_replicate, List.length_singleton]
    omega

/-- The item is where it is set, and nothing else changes. -/
theorem join_getElem?_setAt (array : Latencies) (index : Nat) (item : Latency) (i : Nat) :
    (setAt array index item)[i]?.join = if i = index then some item else array[i]?.join := by
  unfold setAt
  split
  · rename_i inside
    rw [List.getElem?_set]
    split
    · rename_i same
      rw [if_pos same.symm]
      rfl
    · rename_i other
      rw [if_neg fun same => other same.symm]
  · rename_i outside
    rcases Nat.lt_or_ge i array.length with front | behind
    · rw [List.append_assoc, List.getElem?_append_left front, if_neg (by omega)]
    · have missing : array[i]? = none := List.getElem?_eq_none behind
      rw [List.append_assoc, List.getElem?_append_right behind, missing]
      split
      · rename_i same
        subst same
        rw [List.getElem?_append_right (by rw [List.length_replicate]), List.length_replicate,
          Nat.sub_self]
        rfl
      · rename_i other
        rcases Nat.lt_or_ge i index with hole | past
        · rw [List.getElem?_append_left (by rw [List.length_replicate]; omega),
            List.getElem?_replicate_of_lt (by omega)]
          rfl
        · have short : (List.replicate (index - array.length) (none : Option Latency) ++
              [some item]).length ≤ i - array.length := by
            rw [List.length_append, List.length_replicate, List.length_singleton]
            omega
          exact congrArg Option.join (List.getElem?_eq_none short)

/-! ## The hash of a process -/

/-- An array has the times. It may be shorter when the last ones are not defined. -/
structure Holds (array : Latencies) (times : List (Option Int)) : Prop where
  short : array.length ≤ times.length
  item : ∀ i : Nat, (array[i]?.join).map Latency.latency = times[i]?.join

/-- What the hash says of the history. -/
structure Account (own : History) (stats : Stats) : Prop where
  counted : ∀ key, stats.counter key = tally key own
  ordered : ∀ key order, stats.perOrder key order = orderTally key order own
  begun : stats.stateDirectBegin = lastBegin own
  since : stats.stateKswapdBegin = awakeSince own
  ends : tally .directReclaimEnd own = (stalls own).length
  sleeps : tally .kswapdSleep own = (awakes own).length
  direct : Holds stats.highDirectReclaimLatency (stalls own)
  kswapd : Holds stats.highKswapdLatency ((awakes own).map some)

theorem holds_nil : Holds [] [] := ⟨Nat.le_refl 0, fun _ => rfl⟩

theorem Holds.concat_none {array : Latencies} {times : List (Option Int)}
    (holds : Holds array times) : Holds array (times ++ [none]) := by
  refine ⟨?_, fun i => (holds.item i).trans ?_⟩
  · rw [List.length_append]
    exact Nat.le_add_right_of_le holds.short
  · rcases Nat.lt_trichotomy i times.length with front | rfl | behind
    · rw [List.getElem?_append_left front]
    · rw [List.getElem?_concat_length, List.getElem?_eq_none (Nat.le_refl _)]
      rfl
    · have past : (times ++ [none]).length ≤ i := by
        rw [List.length_append, List.length_singleton]
        exact behind
      rw [List.getElem?_eq_none past, List.getElem?_eq_none behind.le]

theorem Holds.concat_some {array : Latencies} {times : List (Option Int)}
    (holds : Holds array times) (item : Latency) :
    Holds (setAt array times.length item) (times ++ [some item.latency]) := by
  refine ⟨?_, fun i => ?_⟩
  · rw [length_setAt, List.length_append, List.length_singleton]
    exact max_le (Nat.le_add_right_of_le holds.short) (Nat.le_refl _)
  · rw [join_getElem?_setAt]
    rcases Nat.lt_trichotomy i times.length with front | rfl | behind
    · rw [if_neg front.ne, holds.item, List.getElem?_append_left front]
    · rw [if_pos rfl, List.getElem?_concat_length]
      rfl
    · have past : (times ++ [some item.latency]).length ≤ i := by
        rw [List.length_append, List.length_singleton]
        exact behind
      rw [if_neg behind.ne', holds.item, List.getElem?_eq_none past,
        List.getElem?_eq_none behind.le]

theorem counter_add (stats : Stats) (key other : Key) (n : Nat) :
    (stats.add key n).counter other =
      stats.counter other + if key = other then n else 0 := by
  rw [Stats.add]
  rcases eq_or_ne other key with rfl | ne
  · rw [if_pos rfl]
    exact Function.update_self ..
  · rw [if_neg ne.symm]
    exact Function.update_of_ne ne ..

theorem amount_singleton {front : History} {timed : Nat × Event} {key : Key} {n : Nat}
    (single : amounts front timed = [(key, n)]) (other : Key) :
    amount other front timed = if key = other then n else 0 := by
  unfold amount
  rw [single]
  by_cases here : key = other <;> simp [here]

theorem amount_pair {front : History} {timed : Nat × Event} {key key' : Key} {n : Nat}
    (pair : amounts front timed = [(key, n), (key', n)]) (other : Key) :
    amount other front timed =
      (if key = other then n else 0) + if key' = other then n else 0 := by
  unfold amount
  rw [pair]
  by_cases one : key = other <;> by_cases two : key' = other <;> simp [one, two]

/-- What an event adds. -/
theorem counter_countEvent {own : History} {stats : Stats}
    (since : stats.stateKswapdBegin = awakeSince own) (timed : Nat × Event) (key : Key) :
    (countEvent (some stats) timed).counter key = stats.counter key + amount key own timed := by
  obtain ⟨timestamp, event⟩ := timed
  cases event with
  | directReclaimBegin order =>
      rw [amount_singleton rfl]
      cases order <;> exact counter_add stats _ key 1
  | directReclaimEnd =>
      rw [amount_singleton rfl, ← counter_add]
      unfold countEvent directReclaimEnd
      dsimp only [Option.getD_some]
      cases (stats.add .directReclaimEnd 1).stateDirectBegin <;> rfl
  | kswapdWake order =>
      rw [amount_singleton rfl, ← counter_add, ← since]
      unfold countEvent kswapdWake
      dsimp only [Option.getD_some]
      by_cases asleep : stats.stateKswapdBegin = 0
      · rw [if_pos asleep, if_pos asleep]
        rfl
      · rw [if_neg asleep, if_neg asleep]
        rfl
  | kswapdSleep =>
      rw [amount_singleton rfl]
      exact counter_add stats _ key 1
  | wakeupKswapd order =>
      rw [amount_singleton rfl]
      cases order <;> exact counter_add stats _ key 1
  | lruIsolate nrScanned file =>
      rw [amount_pair rfl, ← Nat.add_assoc, ← counter_add]
      exact counter_add ..
  | lruShrinkInactive nrReclaimed file =>
      rw [amount_pair rfl, ← Nat.add_assoc, ← counter_add]
      exact counter_add ..
  | writepage file sync =>
      rw [amount_singleton rfl]
      exact counter_add ..
  | unknown =>
      rw [amount_singleton rfl]
      exact counter_add stats _ key 1

theorem perOrder_addOrder (stats : Stats) (key other : OrderKey) (order order' : Nat) :
    (stats.addOrder key order).perOrder other order' =
      stats.perOrder other order' + [(key, order)].count (other, order') := by
  rw [Stats.addOrder, List.count_singleton]
  dsimp only
  rcases eq_or_ne other key with rfl | ne
  · rw [Function.update_self]
    rcases eq_or_ne order' order with rfl | ne
    · rw [Function.update_self, if_pos (beq_self_eq_true _)]
    · rw [Function.update_of_ne ne, if_neg fun same => ne (Prod.mk.inj (beq_iff_eq.mp same)).2.symm]
      rfl
  · rw [Function.update_of_ne ne, if_neg fun same => ne (Prod.mk.inj (beq_iff_eq.mp same)).1.symm]
    rfl

/-- The order that an event counts is counted. -/
theorem perOrder_countEvent {own : History} {stats : Stats}
    (since : stats.stateKswapdBegin = awakeSince own) (timed : Nat × Event) (key : OrderKey)
    (order : Nat) :
    (countEvent (some stats) timed).perOrder key order =
      stats.perOrder key order + (orderOf own timed).toList.count (key, order) := by
  obtain ⟨timestamp, event⟩ := timed
  cases event with
  | directReclaimBegin read =>
      cases read with
      | none => rfl
      | some read => exact perOrder_addOrder ..
  | directReclaimEnd =>
      unfold countEvent directReclaimEnd
      dsimp only [Option.getD_some]
      cases (stats.add .directReclaimEnd 1).stateDirectBegin <;> rfl
  | kswapdWake read =>
      unfold countEvent kswapdWake orderOf
      dsimp only [Option.getD_some]
      rw [← since]
      by_cases asleep : stats.stateKswapdBegin = 0
      · rw [if_pos asleep, if_pos asleep]
        exact perOrder_addOrder ..
      · rw [if_neg asleep, if_neg asleep]
        exact perOrder_addOrder ..
  | wakeupKswapd read =>
      cases read with
      | none => rfl
      | some read => exact perOrder_addOrder ..
  | _ => rfl

theorem account_nil : Account [] .empty where
  counted _ := rfl
  ordered _ _ := rfl
  begun := rfl
  since := rfl
  ends := rfl
  sleeps := rfl
  direct := holds_nil
  kswapd := holds_nil

/-- An event that is no sleep leaves the times of kswapd as they are. -/
theorem awake_eq_none {timed : Nat × Event} (own : History) (others : isSleep timed = false) :
    awake own timed = none := by
  obtain ⟨timestamp, event⟩ := timed
  cases event with
  | kswapdSleep => exact absurd others (by simp [isSleep])
  | _ => rfl

/-- An event that ends nothing. -/
theorem account_concat_of_none {own : History} {stats stats' : Stats} {timed : Nat × Event}
    (account : Account own stats)
    (counted : ∀ key, stats'.counter key = stats.counter key + amount key own timed)
    (ordered : ∀ key order, stats'.perOrder key order =
      stats.perOrder key order + (orderOf own timed).toList.count (key, order))
    (noEnd : stall own timed = none) (noSleep : isSleep timed = false)
    (begun : stats'.stateDirectBegin = (beginTime timed).or stats.stateDirectBegin)
    (since : stats'.stateKswapdBegin =
      if stats.stateKswapdBegin = 0 then (wakeTime timed).getD 0 else stats.stateKswapdBegin)
    (direct : stats'.highDirectReclaimLatency = stats.highDirectReclaimLatency)
    (kswapd : stats'.highKswapdLatency = stats.highKswapdLatency)
    (ends : amount .directReclaimEnd own timed = 0) (sleeps : amount .kswapdSleep own timed = 0) :
    Account (own ++ [timed]) stats' := by
  have sameStalls : stalls (own ++ [timed]) = stalls own := by
    rw [stalls_concat, noEnd, Option.toList_none, List.append_nil]
  have sameAwakes : awakes (own ++ [timed]) = awakes own := by
    rw [awakes_concat, awake_eq_none own noSleep, Option.toList_none, List.append_nil]
  constructor
  · intro key
    rw [counted, account.counted, tally_concat]
  · intro key order
    rw [ordered, account.ordered, orderTally_concat]
  · rw [begun, account.begun, lastBegin_concat]
  · rw [since, account.since, awakeSince_concat own noSleep]
  · rw [tally_concat, ends, sameStalls, Nat.add_zero, account.ends]
  · rw [tally_concat, sleeps, sameAwakes, Nat.add_zero, account.sleeps]
  · rw [direct, sameStalls]
    exact account.direct
  · rw [kswapd, sameAwakes]
    exact account.kswapd

theorem ite_zero_self (n : Nat) : n = if n = 0 then 0 else n := by
  split
  · assumption
  · rfl

/-- An end has the time from the last begin. -/
theorem account_concat_end {own : History} {stats : Stats} (account : Account own stats)
    (timestamp : Nat) :
    Account (own ++ [(timestamp, .directReclaimEnd)])
      (countEvent (some stats) (timestamp, .directReclaimEnd)) := by
  have counted (key : Key) :=
    counter_countEvent account.since (timestamp, .directReclaimEnd) key
  have ordered (key : OrderKey) (order : Nat) :=
    perOrder_countEvent account.since (timestamp, .directReclaimEnd) key order
  have noSleep : isSleep (timestamp, .directReclaimEnd) = false := by simp [isSleep]
  have sameAwakes : awakes (own ++ [(timestamp, .directReclaimEnd)]) = awakes own := by
    rw [awakes_concat, awake_eq_none own noSleep, Option.toList_none, List.append_nil]
  have longer : stalls (own ++ [(timestamp, .directReclaimEnd)]) =
      stalls own ++ [(lastBegin own).map fun begun => (timestamp : Int) - begun] :=
    stalls_concat own _
  have index : stats.counter .directReclaimEnd = (stalls own).length :=
    (account.counted _).trans account.ends
  have one : amount .directReclaimEnd own (timestamp, .directReclaimEnd) = 1 := by
    rw [amount_singleton rfl, if_pos rfl]
  have zero : amount .kswapdSleep own (timestamp, .directReclaimEnd) = 0 := by
    rw [amount_singleton rfl, if_neg (by simp)]
  have kept : (countEvent (some stats) (timestamp, .directReclaimEnd)).stateDirectBegin =
        stats.stateDirectBegin ∧
      (countEvent (some stats) (timestamp, .directReclaimEnd)).stateKswapdBegin =
        stats.stateKswapdBegin ∧
      (countEvent (some stats) (timestamp, .directReclaimEnd)).highKswapdLatency =
        stats.highKswapdLatency := by
    obtain ⟨counter, perOrder, begun, order, since, kswapdOrder, direct, kswapd⟩ := stats
    cases begun <;> exact ⟨rfl, rfl, rfl⟩
  obtain ⟨begun, since, kswapd⟩ := kept
  constructor
  · intro key
    rw [counted, account.counted, tally_concat]
  · intro key order
    rw [ordered, account.ordered, orderTally_concat]
  · rw [begun, account.begun, lastBegin_concat]
    rfl
  · rw [since, account.since, awakeSince_concat own noSleep]
    exact ite_zero_self _
  · rw [tally_concat, one, longer, List.length_append, account.ends]
    rfl
  · rw [tally_concat, zero, sameAwakes, Nat.add_zero, account.sleeps]
  · rw [longer, ← account.begun]
    have direct := account.direct
    clear begun since kswapd counted ordered
    obtain ⟨counter, perOrder, begun, order, since, kswapdOrder, array, kswapd⟩ := stats
    cases begun with
    | none => exact direct.concat_none
    | some begun =>
        have set := direct.concat_some ⟨order, (timestamp : Int) - begun⟩
        rw [← index] at set
        exact set
  · rw [kswapd, sameAwakes]
    exact account.kswapd

/-- A sleep has the time since the wakeup. -/
theorem account_concat_sleep {own : History} {stats : Stats} (account : Account own stats)
    (timestamp : Nat) :
    Account (own ++ [(timestamp, .kswapdSleep)])
      (countEvent (some stats) (timestamp, .kswapdSleep)) := by
  have counted (key : Key) := counter_countEvent account.since (timestamp, .kswapdSleep) key
  have ordered (key : OrderKey) (order : Nat) :=
    perOrder_countEvent account.since (timestamp, .kswapdSleep) key order
  have sameStalls : stalls (own ++ [(timestamp, .kswapdSleep)]) = stalls own :=
    (stalls_concat own _).trans (List.append_nil _)
  have longer : awakes (own ++ [(timestamp, .kswapdSleep)]) =
      awakes own ++ [(timestamp : Int) - awakeSince own] := awakes_concat own _
  have index : stats.counter .kswapdSleep = ((awakes own).map some).length := by
    rw [List.length_map]
    exact (account.counted _).trans account.sleeps
  have one : amount .kswapdSleep own (timestamp, .kswapdSleep) = 1 := by
    rw [amount_singleton rfl, if_pos rfl]
  have zero : amount .directReclaimEnd own (timestamp, .kswapdSleep) = 0 := by
    rw [amount_singleton rfl, if_neg (by simp)]
  constructor
  · intro key
    rw [counted, account.counted, tally_concat]
  · intro key order
    rw [ordered, account.ordered, orderTally_concat]
  · rw [lastBegin_concat]
    exact account.begun
  · rw [awakeSince_concat_sleep]
    rfl
  · rw [tally_concat, zero, sameStalls, Nat.add_zero, account.ends]
  · rw [tally_concat, one, longer, List.length_append, account.sleeps]
    rfl
  · rw [sameStalls]
    exact account.direct
  · have set := account.kswapd.concat_some ⟨stats.stateKswapdOrder,
      (timestamp : Int) - stats.stateKswapdBegin⟩
    rw [← index] at set
    rw [longer, List.map_append, ← account.since]
    exact set

/-- The hash after one event more. -/
theorem account_concat {own : History} {stats : Stats} (account : Account own stats)
    (timed : Nat × Event) : Account (own ++ [timed]) (countEvent (some stats) timed) := by
  have counted (key : Key) := counter_countEvent account.since timed key
  have ordered (key : OrderKey) (order : Nat) :=
    perOrder_countEvent account.since timed key order
  have asleep := ite_zero_self stats.stateKswapdBegin
  obtain ⟨timestamp, event⟩ := timed
  cases event with
  | directReclaimEnd => exact account_concat_end account timestamp
  | kswapdSleep => exact account_concat_sleep account timestamp
  | directReclaimBegin order =>
      cases order <;>
        exact account_concat_of_none account counted ordered rfl rfl rfl asleep rfl rfl rfl rfl
  | kswapdWake order =>
      have ends : amount .directReclaimEnd own (timestamp, .kswapdWake order) = 0 := by
        rw [amount_singleton rfl]
        split <;> simp
      have sleeps : amount .kswapdSleep own (timestamp, .kswapdWake order) = 0 := by
        rw [amount_singleton rfl]
        split <;> simp
      refine account_concat_of_none account counted ordered rfl rfl ?_ ?_ ?_ ?_ ends sleeps
      all_goals
        unfold countEvent kswapdWake
        dsimp only [Option.getD_some]
        split <;> rfl
  | wakeupKswapd order =>
      cases order <;>
        exact account_concat_of_none account counted ordered rfl rfl rfl asleep rfl rfl rfl rfl
  | lruIsolate nrScanned file =>
      cases file <;>
        exact account_concat_of_none account counted ordered rfl rfl rfl asleep rfl rfl rfl rfl
  | lruShrinkInactive nrReclaimed file =>
      cases file <;>
        exact account_concat_of_none account counted ordered rfl rfl rfl asleep rfl rfl rfl rfl
  | writepage file sync =>
      cases file <;> cases sync <;>
        exact account_concat_of_none account counted ordered rfl rfl rfl asleep rfl rfl rfl rfl
  | unknown =>
      exact account_concat_of_none account counted ordered rfl rfl rfl asleep rfl rfl rfl rfl

end StudyLinux.Vmscan
