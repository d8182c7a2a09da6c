import StudyLinux.Vmscan.Account

/-!
# Time stalled and time awake

The loop over the latencies of a process adds up two arrays by one index. It stops where
neither has an item, and where both have one it leaves out the one of kswapd
(`directLatency_eq`, `kswapdLatency_eq`).
-/

namespace StudyLinux.Vmscan

/-! ## Sums by index -/

/-- A loop that stops at the first index that it does not take. -/
theorem takeWhile_map_range {α : Type} {f : Nat → α} {p : α → Bool} {m n : Nat} (inside : m ≤ n)
    (front : ∀ i < m, p (f i) = true) (stops : p (f m) = false) :
    ((List.range n).map f).takeWhile p = (List.range m).map f := by
  obtain ⟨rest, rfl⟩ := Nat.exists_eq_add_of_le inside
  rw [List.range_add, List.map_append, List.takeWhile_append_of_pos]
  · rw [List.map_map]
    cases rest with
    | zero => rw [List.range_zero, List.map_nil, List.takeWhile_nil, List.append_nil]
    | succ rest =>
        rw [List.range_succ_eq_map, List.map_cons, List.takeWhile_cons_of_neg, List.append_nil]
        rw [Function.comp_apply, Nat.add_zero, stops]
        exact Bool.false_ne_true
  · intro a member
    obtain ⟨i, bound, rfl⟩ := List.mem_map.mp member
    exact front i (List.mem_range.mp bound)

/-- The numbers of a list, but for those from `a` to `n`. -/
theorem sum_range_apart (numbers : List Nat) {a n m : Nat} (le : a ≤ n)
    (long : numbers.length ≤ m) :
    ((List.range m).map fun i => if a ≤ i ∧ i < n then 0 else (numbers[i]?).getD 0).sum =
      (numbers.take a).sum + (numbers.drop n).sum := by
  induction numbers generalizing a n m with
  | nil =>
      have zero (i : Nat) : (if a ≤ i ∧ i < n then 0 else (([] : List Nat)[i]?).getD 0) = 0 := by
        rw [List.getElem?_nil, Option.getD_none, ite_self]
      rw [List.take_nil, List.drop_nil, funext zero]
      exact List.sum_eq_zero_iff_forall_eq_nat.mpr fun x member =>
        (List.mem_map.mp member).choose_spec.2.symm
  | cons number numbers ih =>
      rw [List.length_cons] at long
      obtain ⟨m, rfl⟩ : ∃ m', m = m' + 1 := ⟨m - 1, by omega⟩
      rw [List.range_succ_eq_map, List.map_cons, List.sum_cons, List.map_map]
      cases n with
      | zero =>
          obtain rfl : a = 0 := Nat.le_zero.mp le
          have later := ih (Nat.le_refl 0) (Nat.le_of_succ_le_succ long)
          rw [List.take_zero, List.drop_zero, List.sum_nil, Nat.zero_add] at later ⊢
          rw [if_neg (by omega), List.getElem?_cons_zero, Option.getD_some, List.sum_cons, ← later]
          rfl
      | succ n =>
          cases a with
          | zero =>
              have later := ih (Nat.zero_le n) (Nat.le_of_succ_le_succ long)
              rw [List.take_zero] at later ⊢
              rw [if_pos (by omega), Nat.zero_add, List.drop_succ_cons, ← later]
              refine congrArg List.sum (List.map_congr_left fun i _ => ?_)
              rw [Function.comp_apply, List.getElem?_cons_succ]
              simp only [Nat.zero_le, true_and, Nat.succ_lt_succ_iff]
          | succ a =>
              have later := ih (Nat.le_of_succ_le_succ le) (Nat.le_of_succ_le_succ long)
              rw [if_neg (by omega), List.getElem?_cons_zero, Option.getD_some,
                List.take_succ_cons, List.drop_succ_cons, List.sum_cons, Nat.add_assoc, ← later]
              refine congrArg (number + ·) (congrArg List.sum (List.map_congr_left fun i _ => ?_))
              rw [Function.comp_apply, List.getElem?_cons_succ]
              simp only [Nat.succ_le_succ_iff, Nat.succ_lt_succ_iff]

theorem sum_range_getElem? (numbers : List Nat) {m : Nat} (long : numbers.length ≤ m) :
    ((List.range m).map fun i => (numbers[i]?).getD 0).sum = numbers.sum := by
  have whole := sum_range_apart numbers (Nat.le_refl 0) long
  rw [List.take_zero, List.drop_zero, List.sum_nil, Nat.zero_add] at whole
  rw [← whole]
  refine congrArg List.sum (List.map_congr_left fun i _ => ?_)
  rw [if_neg (by omega)]

/-! ## Latencies -/

/-- The ends in front of the first begin. -/
def early (own : History) : Nat := ((stalls own).takeWhile Option.isNone).length

theorem early_le (own : History) : early own ≤ (stalls own).length :=
  (List.takeWhile_prefix _).length_le

/-- Once there is a begin, every end has a time. -/
theorem exists_stalls_eq (own : History) :
    ∃ n times, stalls own = List.replicate n none ++ times.map some ∧
      (lastBegin own = none → times = []) := by
  induction own using List.reverseRecOn with
  | nil => exact ⟨0, [], rfl, fun _ => rfl⟩
  | append_singleton own timed ih =>
      obtain ⟨n, times, shape, unbegun⟩ := ih
      obtain ⟨timestamp, event⟩ := timed
      rw [stalls_concat, lastBegin_concat, shape]
      cases event with
      | directReclaimBegin order => exact ⟨n, times, List.append_nil _, nofun⟩
      | directReclaimEnd =>
          cases begun : lastBegin own with
          | none =>
              obtain rfl := unbegun begun
              refine ⟨n + 1, [], ?_, fun _ => rfl⟩
              rw [stall, begun, List.map_nil, List.append_nil, List.append_nil,
                List.replicate_succ']
              rfl
          | some time =>
              refine ⟨n, times ++ [(timestamp : Int) - time], ?_, nofun⟩
              rw [stall, begun, List.map_append, ← List.append_assoc]
              rfl
      | _ => exact ⟨n, times, List.append_nil _, unbegun⟩

theorem stalls_eq (own : History) :
    ∃ times : List Int, stalls own = List.replicate (early own) none ++ times.map some := by
  obtain ⟨n, times, shape, -⟩ := exists_stalls_eq own
  have fronts : early own = n := by
    rw [early, shape, List.takeWhile_append_of_pos fun a member => by
      rw [List.eq_of_mem_replicate member]
      rfl]
    cases times with
    | nil => rw [List.map_nil, List.takeWhile_nil, List.append_nil, List.length_replicate]
    | cons time times =>
        rw [List.map_cons, List.takeWhile_cons_of_neg (by simp), List.append_nil,
          List.length_replicate]
  exact ⟨times, fronts ▸ shape⟩

/-- Where the ends have times. -/
theorem isSome_stalls (own : History) (i : Nat) :
    ((stalls own)[i]?.join).isSome ↔ early own ≤ i ∧ i < (stalls own).length := by
  obtain ⟨times, shape⟩ := stalls_eq own
  rw [shape, List.length_append, List.length_replicate, List.length_map]
  generalize early own = n
  rcases Nat.lt_or_ge i n with front | behind
  · rw [List.getElem?_append_left (by rwa [List.length_replicate]),
      List.getElem?_replicate_of_lt front]
    simp [front]
  · rw [List.getElem?_append_right (by rwa [List.length_replicate]), List.length_replicate,
      List.getElem?_map]
    rcases Nat.lt_or_ge (i - n) times.length with inside | outside
    · rw [List.getElem?_eq_getElem inside]
      simp only [Option.map_some, Option.join_some, Option.isSome_some, true_iff]
      omega
    · rw [List.getElem?_eq_none outside]
      simp only [Option.map_none, Option.join_none, Option.isSome_none, Bool.false_eq_true,
        false_iff]
      omega

theorem isSome_awakes (own : History) (i : Nat) :
    ((((awakes own).map some)[i]?).join).isSome ↔ i < (awakes own).length := by
  rw [List.getElem?_map]
  rcases Nat.lt_or_ge i (awakes own).length with inside | outside
  · rw [List.getElem?_eq_getElem inside]
    simp [inside]
  · rw [List.getElem?_eq_none outside]
    simp [outside]

/-- The index that the loop stops at. -/
def stop (own : History) : Nat :=
  if early own ≤ (awakes own).length then max (stalls own).length (awakes own).length
  else (awakes own).length

theorem isSome_row {own : History} {stats : Stats} (account : Account own stats) (i : Nat) :
    ((stats.highDirectReclaimLatency[i]?.join).isSome ↔
        early own ≤ i ∧ i < (stalls own).length) ∧
      ((stats.highKswapdLatency[i]?.join).isSome ↔ i < (awakes own).length) := by
  rw [← isSome_stalls, ← isSome_awakes, ← account.direct.item, ← account.kswapd.item,
    Option.isSome_map, Option.isSome_map]
  exact ⟨Iff.rfl, Iff.rfl⟩

theorem latencyRows_eq {own : History} {stats : Stats} (account : Account own stats) :
    latencyRows stats.highDirectReclaimLatency stats.highKswapdLatency =
      (List.range (stop own)).map fun index =>
        (stats.highDirectReclaimLatency[index]?.join, stats.highKswapdLatency[index]?.join) := by
  have taken (i : Nat) : ((stats.highDirectReclaimLatency[i]?.join).isSome ||
      (stats.highKswapdLatency[i]?.join).isSome) = true ↔
        (early own ≤ i ∧ i < (stalls own).length) ∨ i < (awakes own).length := by
    rw [Bool.or_eq_true, (isSome_row account i).1, (isSome_row account i).2]
  have front : ∀ i < stop own, ((stats.highDirectReclaimLatency[i]?.join).isSome ||
      (stats.highKswapdLatency[i]?.join).isSome) = true := by
    intro i bound
    rw [taken]
    unfold stop at bound
    split at bound <;> omega
  refine takeWhile_map_range ?_ front ?_
  · rcases Nat.eq_zero_or_pos (stop own) with zero | positive
    · omega
    · -- the last index that is taken is within one of the arrays
      have last := front (stop own - 1) (by omega)
      by_contra longer
      rw [List.getElem?_eq_none (by omega), List.getElem?_eq_none (by omega)] at last
      exact Bool.false_ne_true last
  · rw [Bool.eq_false_iff, ne_eq, taken]
    unfold stop
    have few := early_le own
    split <;> omega

/-- The direct reclaims that have ended, but nothing at all when more ends come in front
of the first begin than kswapd has slept. -/
theorem directLatency_eq {own : History} {stats : Stats} (account : Account own stats) :
    directLatency stats =
      if early own ≤ (awakes own).length then
        ((stalls own).map fun time => (time.getD 0).toNat).sum
      else 0 := by
  have read (i : Nat) : addedDirect (stats.highDirectReclaimLatency[i]?.join,
      stats.highKswapdLatency[i]?.join) =
        (((stalls own).map fun time => (time.getD 0).toNat)[i]?).getD 0 := by
    rw [List.getElem?_map]
    have same := account.direct.item i
    cases here : stats.highDirectReclaimLatency[i]?.join with
    | none =>
        rw [here] at same
        rcases listed : (stalls own)[i]? with _ | _ | time <;> rw [listed] at same
        · rfl
        · rfl
        · cases same
    | some item =>
        rw [here] at same
        rcases listed : (stalls own)[i]? with _ | _ | time <;> rw [listed] at same
        · cases same
        · cases same
        · cases same
          rfl
  rw [directLatency, latencyRows_eq account, List.map_map]
  refine (congrArg List.sum (List.map_congr_left fun i _ => read i)).trans ?_
  split
  · rename_i enough
    refine sum_range_getElem? _ ?_
    rw [List.length_map, stop, if_pos enough]
    exact le_max_left ..
  · rename_i few
    refine List.sum_eq_zero_iff_forall_eq_nat.mpr fun x member => ?_
    obtain ⟨i, bound, rfl⟩ := List.mem_map.mp member
    rw [List.mem_range, stop, if_neg few] at bound
    have unset : ¬ ((stalls own)[i]?.join).isSome := by
      rw [isSome_stalls]
      omega
    rw [List.getElem?_map]
    rcases listed : (stalls own)[i]? with _ | _ | time <;> rw [listed] at unset
    · rfl
    · rfl
    · exact absurd rfl unset

/-- The sleeps of kswapd, but for those that have the index of an end with a time. -/
theorem kswapdLatency_eq {own : History} {stats : Stats} (account : Account own stats) :
    kswapdLatency stats =
      (((awakes own).take (early own)).map Int.toNat).sum +
        (((awakes own).drop (stalls own).length).map Int.toNat).sum := by
  have read (i : Nat) : addedKswapd (stats.highDirectReclaimLatency[i]?.join,
      stats.highKswapdLatency[i]?.join) =
      if early own ≤ i ∧ i < (stalls own).length then 0
      else (((awakes own).map Int.toNat)[i]?).getD 0 := by
    have filled := (isSome_row account i).1
    have same := account.kswapd.item i
    rw [List.getElem?_map] at same
    rw [List.getElem?_map]
    cases direct : stats.highDirectReclaimLatency[i]?.join with
    | some item =>
        rw [direct] at filled
        rw [if_pos (filled.mp rfl)]
        rfl
    | none =>
        rw [direct] at filled
        rw [if_neg fun between => Bool.false_ne_true (filled.mpr between)]
        cases here : stats.highKswapdLatency[i]?.join with
        | none =>
            rw [here] at same
            rcases listed : (awakes own)[i]? with _ | time <;> rw [listed] at same
            · rfl
            · cases same
        | some item =>
            rw [here] at same
            rcases listed : (awakes own)[i]? with _ | time <;> rw [listed] at same
            · cases same
            · cases same
              rfl
  rw [kswapdLatency, latencyRows_eq account, List.map_map]
  refine (congrArg List.sum (List.map_congr_left fun i _ => read i)).trans ?_
  rw [sum_range_apart _ (early_le own), ← List.map_take, ← List.map_drop]
  rw [List.length_map, stop]
  split
  · exact le_max_right ..
  · exact Nat.le_refl _

end StudyLinux.Vmscan
