import Mathlib.Data.List.Perm.Basic
import Mathlib.Data.List.Sort
import Mathlib.Data.Prod.Lex
import Mathlib.Logic.Function.Basic
import StudyLinux.Order.Pairs

/-!
# Schedules of tasks on processors

A schedule is one order of the switches of several processors: a switch takes the
task that runs on its processor off it and puts a task on it that runs nowhere.
The switches that involve one task alternate between taking it off and putting it
on (`times_eq_flatMap_runs`), whatever processors it migrates between; and the runs
found on each processor separately, from consecutive switches, are the runs found
along the schedule (`intervals_perm_runs`).
-/

namespace StudyLinux

variable {C T : Type} [DecidableEq C] [DecidableEq T]

/-- One switch of a processor from a task to another. -/
structure Switch (T : Type) where
  prev : T
  next : T
  time : Nat
  deriving DecidableEq

/-- A schedule, from the tasks that run before it to those that run after it. -/
inductive Schedule : (C → T) → List (C × Switch T) → (C → T) → Prop
  | nil (run) : Schedule run [] run
  | cons {run c s rest final} (leaves : run c = s.prev) (enters : ∀ c', run c' ≠ s.next)
      (later : Schedule (Function.update run c s.next) rest final) :
      Schedule run ((c, s) :: rest) final

/-- The switches of one processor, in order. -/
def onCpu (c : C) (order : List (C × Switch T)) : List (Switch T) :=
  (order.filter fun step => step.1 = c).map Prod.snd

omit [DecidableEq T] in
@[simp] theorem onCpu_nil (c : C) : onCpu c ([] : List (C × Switch T)) = [] := rfl

omit [DecidableEq T] in
@[simp] theorem onCpu_cons_self (c : C) (s : Switch T) (rest : List (C × Switch T)) :
    onCpu c ((c, s) :: rest) = s :: onCpu c rest := by
  simp [onCpu]

omit [DecidableEq T] in
theorem onCpu_cons_of_ne {c c' : C} (other : c' ≠ c) (s : Switch T) (rest : List (C × Switch T)) :
    onCpu c' ((c, s) :: rest) = onCpu c' rest := by
  simp [onCpu, Ne.symm other]

/-- The switch takes the task off its processor or puts it on. -/
def Switch.Involves (x : T) (s : Switch T) : Prop := s.prev = x ∨ s.next = x

instance (x : T) : DecidablePred (Switch.Involves x) := fun _ =>
  inferInstanceAs (Decidable (_ ∨ _))

/-- The times of the switches that involve a task. -/
def times (x : T) (switches : List (Switch T)) : List Nat :=
  (switches.filter fun s => s.Involves x).map Switch.time

theorem times_cons_of_involves {x : T} {s : Switch T} (involved : s.Involves x)
    (rest : List (Switch T)) : times x (s :: rest) = s.time :: times x rest := by
  rw [times, List.filter_cons_of_pos (by simpa using involved), List.map_cons, times]

theorem times_cons_of_not_involves {x : T} {s : Switch T} (apart : ¬ s.Involves x)
    (rest : List (Switch T)) : times x (s :: rest) = times x rest := by
  rw [times, List.filter_cons_of_neg (by simpa using apart), times]

/-- The runs of a task along a schedule, given the start of a run that is open. A run
whose start is unknown is dropped. -/
def runs (x : T) : Option Nat → List (C × Switch T) → List (Nat × Nat)
  | _, [] => []
  | opened, (_, s) :: rest =>
      if s.prev = x then (opened.map fun start => (start, s.time)).toList ++ runs x none rest
      else if s.next = x then runs x (some s.time) rest
      else runs x opened rest

/-- The start of the run that is open behind a schedule. -/
def leftOpen (x : T) : Option Nat → List (C × Switch T) → Option Nat
  | opened, [] => opened
  | opened, (_, s) :: rest =>
      if s.prev = x then leftOpen x none rest
      else if s.next = x then leftOpen x (some s.time) rest
      else leftOpen x opened rest

/-- The runs of a task on one processor: two consecutive switches, of which the first
puts the task on. -/
def intervals (x : T) : List (Switch T) → List (Nat × Nat)
  | s :: t :: rest =>
      if s.next = x then (s.time, t.time) :: intervals x (t :: rest) else intervals x (t :: rest)
  | _ => []

/-- Without a switch of the task there are no runs. -/
theorem intervals_eq_nil {x : T} {switches : List (Switch T)}
    (unseen : ∀ s ∈ switches, ¬ s.Involves x) : intervals x switches = [] := by
  fun_induction intervals x switches with
  | case1 s t rest on ih => exact (unseen s List.mem_cons_self (Or.inr on)).elim
  | case2 s t rest off ih =>
      exact ih fun later member => unseen later (List.mem_cons_of_mem s member)
  | case3 switches short => rfl

/-! ## Steps -/

section Steps

variable {run final : C → T} {order : List (C × Switch T)}

omit [DecidableEq T] in
/-- A switch keeps every task on one processor at most. -/
theorem injective_update {c : C} {t : T} (injective : Function.Injective run)
    (fresh : ∀ c', run c' ≠ t) : Function.Injective (Function.update run c t) := by
  intro a b same
  by_cases aIs : a = c
  · by_cases bIs : b = c
    · rw [aIs, bIs]
    · rw [aIs, Function.update_self, Function.update_of_ne bIs] at same
      exact (fresh b same.symm).elim
  · by_cases bIs : b = c
    · rw [bIs, Function.update_self, Function.update_of_ne aIs] at same
      exact (fresh a same).elim
    · rw [Function.update_of_ne aIs, Function.update_of_ne bIs] at same
      exact injective same

omit [DecidableEq T] in
/-- The task that leaves runs nowhere afterwards. -/
theorem not_running_of_leaves {c : C} {s : Switch T} (injective : Function.Injective run)
    (leaves : run c = s.prev) (enters : ∀ c', run c' ≠ s.next) (c' : C) :
    Function.update run c s.next c' ≠ s.prev := by
  by_cases own : c' = c
  · rw [own, Function.update_self]
    exact fun same => enters c (leaves.trans same.symm)
  · rw [Function.update_of_ne own]
    exact fun same => own (injective (same.trans leaves.symm))

omit [DecidableEq T] in
/-- A task that a switch does not involve runs afterwards where it ran before. -/
theorem update_eq_iff {c : C} {s : Switch T} {x : T} (leaves : run c = s.prev)
    (offElsewhere : s.prev ≠ x)
    (onElsewhere : s.next ≠ x) (c' : C) : Function.update run c s.next c' = x ↔ run c' = x := by
  by_cases own : c' = c
  · rw [own, Function.update_self, leaves]
    exact iff_of_false onElsewhere offElsewhere
  · rw [Function.update_of_ne own]

end Steps

/-! ## Alternation -/

section Alternation

variable {run final : C → T} {order : List (C × Switch T)} {x : T}

/-- The switches that involve a task are, two by two, its runs; an open run is at
the end. The invariant is that a start is known exactly while the task runs. -/
theorem times_eq_flatMap_runs (schedule : Schedule run order final)
    (injective : Function.Injective run) {opened : Option Nat}
    (known : opened.isSome ↔ ∃ c, run c = x) :
    opened.toList ++ times x (order.map Prod.snd) =
        (runs x opened order).flatMap (fun i => [i.1, i.2]) ++ (leftOpen x opened order).toList ∧
      ((leftOpen x opened order).isSome ↔ ∃ c, final c = x) := by
  induction schedule generalizing opened with
  | nil run => exact ⟨by simp [times, runs, leftOpen], known⟩
  | @cons run c s rest final leaves enters later ih =>
      have injective' := injective_update (c := c) injective enters
      by_cases off : s.prev = x
      · have running : ∃ c, run c = x := ⟨c, leaves.trans off⟩
        obtain ⟨start, rfl⟩ := Option.isSome_iff_exists.mp (known.mpr running)
        have gone : (none : Option Nat).isSome ↔ ∃ c', Function.update run c s.next c' = x :=
          iff_of_false (by simp) fun ⟨c', same⟩ =>
            not_running_of_leaves injective leaves enters c' (same.trans off.symm)
        obtain ⟨split, open'⟩ := ih injective' gone
        rw [Option.toList_none, List.nil_append] at split
        refine ⟨?_, by rw [leftOpen, if_pos off]; exact open'⟩
        rw [runs, if_pos off, leftOpen, if_pos off, List.map_cons,
          times_cons_of_involves (Or.inl off), split]
        rfl
      · by_cases on : s.next = x
        · have idle : ¬ ∃ c, run c = x := fun ⟨c', same⟩ => enters c' (same.trans on.symm)
          obtain rfl : opened = none :=
            Option.not_isSome_iff_eq_none.mp fun some => idle (known.mp some)
          have placed : (some s.time).isSome ↔ ∃ c', Function.update run c s.next c' = x :=
            iff_of_true rfl ⟨c, (Function.update_self c s.next run).trans on⟩
          obtain ⟨split, open'⟩ := ih injective' placed
          refine ⟨?_, by rw [leftOpen, if_neg off, if_pos on]; exact open'⟩
          rw [runs, if_neg off, if_pos on, leftOpen, if_neg off, if_pos on, ← split, List.map_cons,
            times_cons_of_involves (Or.inr on)]
          rfl
        · have same : opened.isSome ↔ ∃ c', Function.update run c s.next c' = x :=
            known.trans (exists_congr fun c' => (update_eq_iff leaves off on c').symm)
          obtain ⟨split, open'⟩ := ih injective' same
          refine ⟨?_, by rw [leftOpen, if_neg off, if_neg on]; exact open'⟩
          rw [runs, if_neg off, if_neg on, leftOpen, if_neg off, if_neg on, ← split, List.map_cons,
            times_cons_of_not_involves (not_or.mpr ⟨off, on⟩)]

/-- The runs of a task that does not run at first. -/
theorem times_eq_of_idle (schedule : Schedule run order final)
    (injective : Function.Injective run) (idle : ∀ c, run c ≠ x) :
    times x (order.map Prod.snd) =
        (runs x none order).flatMap (fun i => [i.1, i.2]) ++ (leftOpen x none order).toList ∧
      ((leftOpen x none order).isSome ↔ ∃ c, final c = x) := by
  have known : (none : Option Nat).isSome ↔ ∃ c, run c = x :=
    iff_of_false (by simp) fun ⟨c, same⟩ => idle c same
  exact times_eq_flatMap_runs schedule injective known

/-- The run that is open at first is one more. -/
theorem length_runs_some (schedule : Schedule run order final) (injective : Function.Injective run)
    (running : ∃ c, run c = x) (seen : times x (order.map Prod.snd) ≠ []) (start : Nat) :
    (runs x (some start) order).length = (runs x none order).length + 1 := by
  induction schedule with
  | nil run => exact absurd rfl seen
  | @cons run c s rest final leaves enters later ih =>
      by_cases off : s.prev = x
      · rw [runs, if_pos off, runs, if_pos off]
        simp
      · obtain ⟨c', same⟩ := running
        have on : s.next ≠ x := fun on => enters c' (same.trans on.symm)
        rw [List.map_cons, times_cons_of_not_involves (not_or.mpr ⟨off, on⟩)] at seen
        rw [runs, if_neg off, if_neg on, runs, if_neg off, if_neg on]
        exact ih (injective_update injective enters)
          ⟨c', (update_eq_iff leaves off on c').mpr same⟩ seen

/-- How many switches involve a task: two for each run, one for a run that is open at
first and one for a run that is open at the end. -/
theorem length_times (schedule : Schedule run order final) (injective : Function.Injective run)
    (seen : times x (order.map Prod.snd) ≠ []) (starts ends : Bool)
    (startsIff : starts ↔ ∃ c, run c = x) (endsIff : ends ↔ ∃ c, final c = x) :
    (times x (order.map Prod.snd)).length =
      starts.toNat + 2 * (runs x none order).length + ends.toNat := by
  have pairs (list : List (Nat × Nat)) :
      (list.flatMap fun i => [i.1, i.2]).length = 2 * list.length := by
    induction list with
    | nil => rfl
    | cons i list ih =>
        rw [List.flatMap_cons, List.length_append, ih, List.length_cons]
        simp
        omega
  have tail (opened : Option Nat) (same : opened.isSome ↔ ∃ c, final c = x) :
      opened.toList.length = ends.toNat := by
    have isEnd : opened.isSome = ends := Bool.eq_iff_iff.mpr (same.trans endsIff.symm)
    rw [← isEnd]
    cases opened <;> rfl
  cases starts with
  | false =>
      have idle : ∀ c, run c ≠ x := fun c same => by
        have := startsIff.mpr ⟨c, same⟩
        cases this
      obtain ⟨split, open'⟩ := times_eq_of_idle schedule injective idle
      rw [split, List.length_append, pairs, tail _ open']
      simp
  | true =>
      have running := startsIff.mp rfl
      have known : (some 0).isSome ↔ ∃ c, run c = x := iff_of_true rfl running
      obtain ⟨split, open'⟩ := times_eq_flatMap_runs schedule injective known
      have count := congrArg List.length split
      rw [List.length_append, List.length_append, pairs, tail _ open',
        length_runs_some schedule injective running seen] at count
      simp at count ⊢
      omega

end Alternation

/-! ## Kinds of switches -/

section Kinds

variable {run final : C → T} {order : List (C × Switch T)} {x : T}

/-- The switches that involve a task. -/
def own (x : T) (switches : List (Switch T)) : List (Switch T) :=
  switches.filter fun s => s.Involves x

end Kinds

/-! ## Processor by processor -/

section Processors

variable {run final : C → T} {order : List (C × Switch T)} {x : T}

omit [DecidableEq C] in
/-- Lists of parts, of which one is longer in front. -/
theorem flatMap_perm_of_one {β : Type} {cpus : List C} (distinct : cpus.Nodup) {c : C}
    (member : c ∈ cpus) {longer shorter : C → List β} {extra : List β}
    (here : longer c = extra ++ shorter c) (elsewhere : ∀ c', c' ≠ c → longer c' = shorter c') :
    (cpus.flatMap longer).Perm (extra ++ cpus.flatMap shorter) := by
  obtain ⟨before, after, rfl⟩ := List.append_of_mem member
  obtain ⟨-, restDistinct, apart⟩ := List.nodup_append.mp distinct
  have inFront : before.flatMap longer = before.flatMap shorter := by
    refine List.flatMap_congr fun c' inBefore => elsewhere c' ?_
    exact apart c' inBefore c List.mem_cons_self
  have behind : after.flatMap longer = after.flatMap shorter := by
    refine List.flatMap_congr fun c' inAfter => elsewhere c' ?_
    intro same
    subst same
    exact (List.nodup_cons.mp restDistinct).1 inAfter
  rw [List.flatMap_append, List.flatMap_append, List.flatMap_cons, List.flatMap_cons, inFront,
    behind, here, List.append_assoc]
  exact List.perm_append_comm_assoc _ _ _

omit [DecidableEq T] in
/-- The switches of all processors are those of the schedule. -/
theorem onCpu_perm {cpus : List C} (distinct : cpus.Nodup) (all : ∀ c, c ∈ cpus)
    (order : List (C × Switch T)) :
    (cpus.flatMap fun c => onCpu c order).Perm (order.map Prod.snd) := by
  induction order with
  | nil => simp
  | cons step rest ih =>
      obtain ⟨c, s⟩ := step
      have split : (cpus.flatMap fun c' => onCpu c' ((c, s) :: rest)).Perm
          ([s] ++ cpus.flatMap fun c' => onCpu c' rest) :=
        flatMap_perm_of_one distinct (all c) (onCpu_cons_self c s rest)
          fun c' other => onCpu_cons_of_ne other s rest
      exact split.trans (ih.cons s)

/-- The switch that the processor made last, in front of its further ones. -/
def withLast (last : C → Option (Switch T)) (order : List (C × Switch T)) (c : C) :
    List (Switch T) := (last c).toList ++ onCpu c order

section WithLast

variable {last : C → Option (Switch T)} {c : C} {s : Switch T} {rest : List (C × Switch T)}

omit [DecidableEq T] in
/-- The last switch of a processor put on the task that runs there. -/
theorem placed_update (placed : ∀ c, ∀ t ∈ last c, t.next = run c) (c' : C) :
    ∀ t ∈ Function.update last c (some s) c', t.next = Function.update run c s.next c' := by
  intro t member
  by_cases own : c' = c
  · subst own
    rw [Function.update_self] at member ⊢
    rw [Option.mem_some_iff.mp member]
  · rw [Function.update_of_ne own] at member ⊢
    exact placed c' t member

/-- A switch closes the interval of its processor, if there is one. -/
theorem intervals_withLast_self (placed : ∀ t ∈ last c, t.next = run c) :
    intervals x (withLast last ((c, s) :: rest) c) =
      (if run c = x then (last c).map fun t => (t.time, s.time) else none).toList ++
        intervals x (withLast (Function.update last c (some s)) rest c) := by
  rw [withLast, withLast, onCpu_cons_self, Function.update_self]
  cases before : last c with
  | none => simp
  | some t =>
      have put := placed t before
      by_cases on : run c = x
      · simp [intervals, put, on]
      · simp [intervals, put, on]

theorem intervals_withLast_of_ne {c' : C} (other : c' ≠ c) :
    intervals x (withLast last ((c, s) :: rest) c') =
      intervals x (withLast (Function.update last c (some s)) rest c') := by
  rw [withLast, withLast, onCpu_cons_of_ne other, Function.update_of_ne other]

end WithLast

/-- Runs found on each processor separately are the runs along the schedule. The
invariant is that the last switch of a processor put on the task that runs there. -/
theorem intervals_perm_runs (schedule : Schedule run order final)
    (injective : Function.Injective run) {cpus : List C} (distinct : cpus.Nodup)
    (all : ∀ c, c ∈ cpus) {last : C → Option (Switch T)}
    (placed : ∀ c, ∀ s ∈ last c, s.next = run c) {opened : Option Nat}
    (running : ∀ c, run c = x → opened = (last c).map Switch.time)
    (idle : (∀ c, run c ≠ x) → opened = none) :
    (cpus.flatMap fun c => intervals x (withLast last order c)).Perm (runs x opened order) := by
  induction schedule generalizing last opened with
  | nil run =>
      have none : ∀ c, intervals x (withLast last [] c) = [] := fun c => by
        rw [withLast, onCpu_nil, List.append_nil]
        cases last c <;> rfl
      simp [none, runs]
  | @cons run c s rest final leaves enters later ih =>
      have injective' := injective_update (c := c) injective enters
      have placed' := placed_update (c := c) (s := s) placed
      refine (flatMap_perm_of_one distinct (all c) (intervals_withLast_self (placed c))
        fun c' other => intervals_withLast_of_ne other).trans ?_
      by_cases off : s.prev = x
      · have onC : run c = x := leaves.trans off
        have gone : ∀ c', Function.update run c s.next c' ≠ x := fun c' =>
          off ▸ not_running_of_leaves injective leaves enters c'
        rw [runs, if_pos off, if_pos onC, running c onC, Option.map_map]
        exact (ih injective' placed' (fun c' same => (gone c' same).elim)
          fun _ => rfl).append_left _
      · have offC : run c ≠ x := fun same => off (leaves.symm.trans same)
        rw [runs, if_neg off, if_neg offC, Option.toList_none, List.nil_append]
        by_cases on : s.next = x
        · rw [if_pos on]
          refine ih injective' placed' (fun c' same => ?_) fun never => ?_
          · have own : c' = c := by
              by_contra other
              rw [Function.update_of_ne other] at same
              exact enters c' (same.trans on.symm)
            rw [own, Function.update_self]
            rfl
          · exact (never c ((Function.update_self c s.next run).trans on)).elim
        · rw [if_neg on]
          refine ih injective' placed' (fun c' same => ?_) fun never => ?_
          · have still := (update_eq_iff leaves off on c').mp same
            have other : c' ≠ c := fun own => offC (own ▸ still)
            rw [Function.update_of_ne other]
            exact running c' still
          · exact idle fun c' same => never c' ((update_eq_iff leaves off on c').mpr same)

/-- The runs are found on each processor separately. -/
theorem flatMap_intervals_perm (schedule : Schedule run order final)
    (injective : Function.Injective run) {cpus : List C} (distinct : cpus.Nodup)
    (all : ∀ c, c ∈ cpus) :
    (cpus.flatMap fun c => intervals x (onCpu c order)).Perm (runs x none order) := by
  have placed : ∀ c, ∀ s ∈ (fun _ => none : C → Option (Switch T)) c, s.next = run c :=
    fun _ _ member => by cases member
  exact intervals_perm_runs schedule injective distinct all placed (fun _ _ => rfl) fun _ => rfl

/-! ## First and last switches -/

omit [DecidableEq T] in
/-- The first switch of a processor takes off what ran there at first. -/
theorem run_eq_of_head (schedule : Schedule run order final) {c : C} {s : Switch T}
    (first : s ∈ (onCpu c order).head?) : run c = s.prev := by
  induction schedule with
  | nil run => cases first
  | @cons run c' t rest final leaves enters later ih =>
      by_cases own : c = c'
      · subst own
        rw [onCpu_cons_self] at first
        rw [leaves, Option.some.inj first]
      · rw [onCpu_cons_of_ne own] at first
        rw [← ih first, Function.update_of_ne own]

omit [DecidableEq T] in
/-- The last switch of a processor puts on what runs there at the end; without a
switch the task stays. -/
theorem final_eq_of_getLast (schedule : Schedule run order final) (c : C) :
    (∀ s ∈ (onCpu c order).getLast?, final c = s.next) ∧
      (onCpu c order = [] → final c = run c) := by
  induction schedule with
  | nil run => exact ⟨fun s member => (nomatch member), fun _ => rfl⟩
  | @cons run c' t rest final leaves enters later ih =>
      by_cases own : c = c'
      · subst own
        rw [onCpu_cons_self]
        refine ⟨fun s last => ?_, fun none => (nomatch none)⟩
        cases more : onCpu c rest with
        | nil =>
            rw [more] at last
            obtain rfl : t = s := by simpa using last
            rw [ih.2 more, Function.update_self]
        | cons next others =>
            rw [more, List.getLast?_cons_cons, ← more] at last
            exact ih.1 s last
      · rw [onCpu_cons_of_ne own]
        exact ⟨ih.1, fun none => (ih.2 none).trans (Function.update_of_ne own _ _)⟩

/-- A task on a processor without switches is involved in none at all. -/
theorem times_eq_nil_of_stays (schedule : Schedule run order final)
    (injective : Function.Injective run) {c : C} (running : run c = x)
    (still : onCpu c order = []) : times x (order.map Prod.snd) = [] := by
  induction schedule with
  | nil run => rfl
  | @cons run c' s rest final leaves enters later ih =>
      have other : c ≠ c' := by
        intro same
        subst same
        rw [onCpu_cons_self] at still
        cases still
      have off : s.prev ≠ x := fun off => other (injective (running.trans (leaves.trans off).symm))
      have on : s.next ≠ x := fun on => enters c (running.trans on.symm)
      rw [onCpu_cons_of_ne other] at still
      rw [List.map_cons, times_cons_of_not_involves (not_or.mpr ⟨off, on⟩)]
      exact ih (injective_update injective enters)
        ((Function.update_of_ne other s.next run).trans running) still

end Processors

/-! ## Time order -/

section Times

variable {order : List (C × Switch T)} {x : T}

omit [DecidableEq C] in
/-- The times of a task follow the schedule. -/
theorem times_pairwise (ordered : order.Pairwise fun a b => a.2.time ≤ b.2.time) :
    (times x (order.map Prod.snd)).Pairwise (· ≤ ·) := by
  have switches : (order.map Prod.snd).Pairwise fun s t => s.time ≤ t.time :=
    List.pairwise_map.mpr ordered
  exact List.pairwise_map.mpr (switches.filter _)

/-- Runs whose ends are in time order are in order of start and end. -/
theorem runs_pairwise {list : List (Nat × Nat)}
    (ordered : (list.flatMap fun i => [i.1, i.2]).Pairwise (· ≤ ·)) :
    list.Pairwise fun i j => toLex i ≤ toLex j := by
  refine (List.pairwise_flatMap.mp ordered).2.imp fun {i j} below => ?_
  have starts := below i.1 (by simp) j.1 (by simp)
  have ends := below i.2 (by simp) j.2 (by simp)
  rcases lt_or_eq_of_le starts with less | same
  · exact (Prod.Lex.toLex_lt_toLex.mpr (Or.inl less)).le
  · exact Prod.Lex.toLex_le_toLex.mpr (Or.inr ⟨same, ends⟩)

end Times

end StudyLinux
