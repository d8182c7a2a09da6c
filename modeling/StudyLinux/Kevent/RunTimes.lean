import StudyLinux.Kevent.Tasklist
import StudyLinux.Sched.Schedule

/-!
# Run times of tasks

What the elapsed files are for: the run times of a task, from the switch that puts
it on a CPU to the switch that takes it off. The parser merges the rows of all CPUs
and takes their times two by two. On traces of one schedule this gives the run
times exactly when the task neither runs at the start nor at the end of the trace,
and no row of other tasks reads like one of its own (`elapsedOf_iff`).
-/

namespace StudyLinux

/-! ## Traces of a schedule -/

/-- An event as a switch of its CPU. -/
def FixedEvent.switch (e : FixedEvent) : Switch Task := ⟨e.prev, e.next, e.time⟩

/-- The switches of one CPU. -/
def switchesOf (events : Cpu → List FixedEvent) (cpu : Cpu) : List (Switch Task) :=
  (events cpu).map FixedEvent.switch

/-- The traces are those of one schedule in time order: on each CPU the next task of an
event is the previous task of the following one, and no task runs on two CPUs. -/
def Consistent (events : Cpu → List FixedEvent) : Prop :=
  ∃ (start : Cpu → Task) (order : List (Cpu × Switch Task)) (final : Cpu → Task),
    Function.Injective start ∧ Schedule start order final ∧
      (order.Pairwise fun a b => a.2.time ≤ b.2.time) ∧
        ∀ cpu, onCpu cpu order = switchesOf events cpu

/-- The traces are those of this schedule, in time order. -/
structure ScheduledAs (events : Cpu → List FixedEvent) (start : Cpu → Task)
    (order : List (Cpu × Switch Task)) (final : Cpu → Task) : Prop where
  injective : Function.Injective start
  schedule : Schedule start order final
  ordered : order.Pairwise fun a b => a.2.time ≤ b.2.time
  projections : ∀ cpu, onCpu cpu order = switchesOf events cpu

theorem consistent_iff {events : Cpu → List FixedEvent} :
    Consistent events ↔ ∃ start order final, ScheduledAs events start order final := by
  constructor
  · intro consistent
    obtain ⟨start, order, final, injective, schedule, ordered, projections⟩ := consistent
    exact ⟨start, order, final, ⟨injective, schedule, ordered, projections⟩⟩
  · intro scheduled
    obtain ⟨start, order, final, witness⟩ := scheduled
    exact ⟨start, order, final, witness.injective, witness.schedule, witness.ordered,
      witness.projections⟩

/-- Separators and characters that are special in a pattern. -/
def specialChars : List Char :=
  [' ', '\t', ',', '=', '/', '.', '*', '?', '[', ']', '\\', '^', '$']

/-- A name without separators and pattern characters. -/
def Comm.Plain (name : Comm) : Prop := ∀ c ∈ name.text, c ∉ specialChars

instance (name : Comm) : Decidable name.Plain := inferInstanceAs (Decidable (∀ c ∈ name.text, _))

/-- Every name of the events is plain. -/
def PlainNames (events : Cpu → List FixedEvent) : Prop :=
  ∀ cpu, ∀ e ∈ events cpu, e.prev.name.Plain ∧ e.next.name.Plain

/-- The run times of a task whose start and end are both in the traces, in time
order, as `bc` prints them. -/
def runTimes (events : Cpu → List FixedEvent) (x : Task) : List Text :=
  (sortBy toLex (fileList.flatMap fun cpu => intervals x (switchesOf events cpu))).map
    fun i => (Dec.mk (i.2 - i.1) 6).print

/-- The task's file name, `<name>.<pid>`. -/
def Task.file (x : Task) : Text := taskFile x.name.text (decimal x.pid)

/-- The lines of `output/pertask/elapsed/<name>`. -/
def elapsedOf (o : Output) (name : Text) : File := (o.elapsed.bind fun d => d.get name).getD []

/-- The text `,<name>,<pid>,` occurs in the row of an event. -/
def Task.Mentioned (x : Task) (e : FixedEvent) : Prop :=
  taskPattern x.name.text (decimal x.pid) <:+: e.row

instance (x : Task) : DecidablePred x.Mentioned :=
  fun _ => inferInstanceAs (Decidable (_ <:+: _))

/-- The events, of all CPUs, that mention the task. -/
def mentioning (events : Cpu → List FixedEvent) (x : Task) : List FixedEvent :=
  fileList.flatMap fun cpu => (events cpu).filter fun e => x.Mentioned e

/-- These events in the order in which `sort -n` puts their rows. -/
def mentioningSorted (events : Cpu → List FixedEvent) (x : Task) : List FixedEvent :=
  sortBy (fun e => numericKey e.row) (mentioning events x)

/-- When tracing starts, the task runs on no CPU that switches. -/
def StartsOff (events : Cpu → List FixedEvent) (x : Task) : Prop :=
  ∀ cpu, ∀ e ∈ (events cpu).head?, e.prev ≠ x

/-- When tracing ends, the task runs on no CPU that switched. -/
def EndsOff (events : Cpu → List FixedEvent) (x : Task) : Prop :=
  ∀ cpu, ∀ e ∈ (events cpu).getLast?, e.next ≠ x

/-- No row of other tasks reads like a row of the task. -/
def OwnRowsOnly (events : Cpu → List FixedEvent) (x : Task) : Prop :=
  ∀ cpu, ∀ e ∈ events cpu, x.Mentioned e → e.switch.Involves x

/-! ## Plain names -/

namespace Comm

variable {name : Comm}

theorem Plain.clean (plain : name.Plain) : name.Clean := by
  have keyed : ∀ command ∈ markers, '=' ∈ command.1 := by decide
  refine ⟨fun comma => plain ',' comma (by decide), fun command member inside => ?_⟩
  exact plain '=' (inside.subset (keyed command member)) (by decide)

theorem Plain.printed_eq (plain : name.Plain) : name.printed = name.text := by
  have special : ∀ c ∈ deleted, c ∈ specialChars := by decide
  exact trDelete_eq_self fun c member listed => plain c member (special c listed)

theorem Plain.literal (plain : name.Plain) : ∀ c ∈ name.text, IsLiteral c := by
  have special : ∀ c ∈ regexChars, c = '\n' ∨ c ∈ specialChars := by decide
  intro c member listed
  rcases special c listed with rfl | inSpecial
  · exact (name.line '\n' member).1 rfl
  · exact plain c member inSpecial

/-- The shell takes a plain name as it is. -/
theorem Plain.noGlob (plain : name.Plain) : ∀ c ∈ name.text, isGlob c = false := by
  intro c member
  rw [Bool.eq_false_iff]
  intro glob
  simp only [isGlob, Bool.or_eq_true, decide_eq_true_eq] at glob
  rcases glob with ((rfl | rfl) | rfl) | rfl <;> exact plain _ member (by decide)

theorem Plain.solid (plain : name.Plain) : ∀ c ∈ name.text, isBlank c = false := by
  intro c member
  rw [← Bool.not_eq_true, isBlank_iff]
  intro blank
  rcases blank with (rfl | rfl) | rfl
  · exact plain ' ' member (by decide)
  · exact plain '\t' member (by decide)
  · exact (name.line '\n' member).1 rfl

end Comm

theorem PlainNames.clean {events : Cpu → List FixedEvent} (plain : PlainNames events) :
    CleanNames events := fun cpu e member =>
  ⟨⟨(plain cpu e member).1.clean, (plain cpu e member).2.clean⟩,
    (plain cpu e member).1.printed_eq.symm ▸ (plain cpu e member).1.noGlob⟩

/-- The entry of a task, `<name>,<pid>`. -/
def Task.entry (x : Task) : Text := x.name.text ++ ',' :: decimal x.pid

theorem leaving_eq {e : FixedEvent} (plain : e.prev.name.Plain) : leaving e = e.prev.entry := by
  rw [leaving, plain.printed_eq, Task.entry]

theorem words_entry {x : Task} (plain : x.name.Plain) : words x.entry = [x.entry] := by
  refine wordsBy_eq_singleton (fun c member => ?_) (by simp [Task.entry])
  rw [Task.entry, List.mem_append, List.mem_cons] at member
  rcases member with name | rfl | pid
  · exact plain.solid c name
  · rfl
  · exact isBlank_eq_false_of_isDigit (isDigit_of_mem_decimal pid)

theorem arrayField_task {x : Task} (plain : x.name.Plain) :
    arrayField 0 x.entry = x.name.text ∧ arrayField 1 x.entry = decimal x.pid :=
  arrayField_entry plain.clean.1 (FixedEvent.comma_not_mem_decimal x.pid)

theorem entryFile_entry {x : Task} (plain : x.name.Plain) : entryFile x.entry = x.file := by
  rw [entryFile, (arrayField_task plain).1, (arrayField_task plain).2, Task.file]

/-- A task is known by its file name. -/
theorem Task.file_inj {x y : Task} (same : x.file = y.file) : x = y := by
  have noDot : ∀ n, '.' ∉ decimal n := not_mem_decimal (by decide)
  obtain ⟨name, pid⟩ := taskFile_inj (noDot x.pid) (noDot y.pid) same
  obtain ⟨⟨nameX, _, _⟩, pidX⟩ := x
  obtain ⟨⟨nameY, _, _⟩, pidY⟩ := y
  obtain rfl : nameX = nameY := name
  obtain rfl : pidX = pidY := decimal_injective pid
  rfl

/-! ## Rows that mention a task -/

/-- A row of the task mentions it. -/
theorem mentioned_of_involves {x : Task} {e : FixedEvent} (prevPlain : e.prev.name.Plain)
    (nextPlain : e.next.name.Plain) (own : e.switch.Involves x) : x.Mentioned e := by
  have shape : e.row = fixedPoint 6 e.time ++ taskPattern e.prev.name.text (decimal e.prev.pid) ++
      (decimalInt e.prevPrio ++ ',' :: (e.prevState ++ (taskPattern e.next.name.text
        (decimal e.next.pid) ++ decimalInt e.nextPrio))) := by
    simp [FixedEvent.row, FixedEvent.cells, prevPlain.clean.cell_eq, nextPlain.clean.cell_eq,
      prevPlain.printed_eq, nextPlain.printed_eq, taskPattern, List.intercalate]
  rcases own with prev | next
  · have same : e.prev = x := prev
    subst same
    rw [Task.Mentioned, shape]
    exact ⟨_, _, rfl⟩
  · have same : e.next = x := next
    subst same
    rw [Task.Mentioned, shape]
    refine ⟨fixedPoint 6 e.time ++ taskPattern e.prev.name.text (decimal e.prev.pid) ++
      (decimalInt e.prevPrio ++ ',' :: e.prevState), decimalInt e.nextPrio, ?_⟩
    simp only [List.append_assoc, List.cons_append]

/-! ## Times two by two -/

theorem durations_flatMap (list : List (Nat × Nat)) :
    durations (list.flatMap fun i => [i.1, i.2]) =
      list.map fun i => (Dec.mk (i.2 - i.1) 6).print := by
  induction list with
  | nil => rfl
  | cons i list ih => rw [List.map_cons, ← ih]; rfl

section Run

variable {events : Cpu → List FixedEvent} {x : Task}

theorem mem_mentioning {e : FixedEvent} :
    e ∈ mentioning events x ↔ (∃ cpu, e ∈ events cpu) ∧ x.Mentioned e := by
  simp only [mentioning, List.mem_flatMap, List.mem_filter, mem_fileList, true_and,
    exists_and_right, decide_eq_true_eq]

/-- `grep` selects the rows that mention a task with a plain name. -/
theorem matching_eq (p : Patterns) (xPlain : x.name.Plain) :
    matching p events x.entry = mentioning events x := by
  obtain ⟨name, pid⟩ := arrayField_task xPlain
  refine List.flatMap_congr fun cpu _ => List.filter_congr fun e _ => ?_
  rw [entryPattern, name, pid, Bool.eq_iff_iff, decide_eq_true_eq]
  exact p.selects_taskPattern_iff xPlain.literal

theorem matchingSorted_eq (p : Patterns) (xPlain : x.name.Plain) :
    matchingSorted p events x.entry = mentioningSorted events x := by
  rw [matchingSorted, matching_eq p xPlain, mentioningSorted]

/-- Only its own rows mention the task exactly when every event that does involves it. -/
theorem ownRowsOnly_iff :
    OwnRowsOnly events x ↔ ∀ e ∈ mentioning events x, e.switch.Involves x := by
  constructor
  · intro ownRows e member
    obtain ⟨⟨cpu, inTrace⟩, mentioned⟩ := mem_mentioning.mp member
    exact ownRows cpu e inTrace mentioned
  · intro all cpu e inTrace mentioned
    exact all e (mem_mentioning.mpr ⟨⟨cpu, inTrace⟩, mentioned⟩)

/-- A task without switches starts and ends off the CPUs. -/
theorem startsOff_of_unseen (unseen : ∀ cpu, ∀ e ∈ events cpu, ¬ e.switch.Involves x) :
    StartsOff events x := fun cpu e member left =>
  unseen cpu e (List.mem_of_mem_head? member) (Or.inl left)

theorem endsOff_of_unseen (unseen : ∀ cpu, ∀ e ∈ events cpu, ¬ e.switch.Involves x) :
    EndsOff events x := fun cpu e member put =>
  unseen cpu e (List.mem_of_mem_getLast? member) (Or.inr put)

/-- The events that involve the task mention it, CPU by CPU. -/
theorem filter_mentioning (plain : PlainNames events) :
    (mentioning events x).filter (fun e => e.switch.Involves x) =
      fileList.flatMap fun cpu => (events cpu).filter fun e => e.switch.Involves x := by
  rw [mentioning, List.filter_flatMap]
  refine List.flatMap_congr fun cpu _ => ?_
  rw [List.filter_filter]
  refine List.filter_congr fun e member => ?_
  by_cases own : e.switch.Involves x
  · have mentioned := mentioned_of_involves (plain cpu e member).1 (plain cpu e member).2 own
    rw [decide_eq_true mentioned, Bool.and_true]
  · rw [decide_eq_false own, Bool.false_and]

/-- Their times are the times of the task along the schedule. -/
theorem map_time_filter_perm {order : List (Cpu × Switch Task)}
    (projections : ∀ cpu, onCpu cpu order = switchesOf events cpu) :
    ((fileList.flatMap fun cpu => (events cpu).filter fun e => e.switch.Involves x).map
      fun e => e.time).Perm (times x (order.map Prod.snd)) := by
  have merged := onCpu_perm (by decide) mem_fileList order
  have perCpu : (fileList.flatMap fun cpu => (events cpu).filter fun e => e.switch.Involves x).map
      (fun e => e.time) = times x (fileList.flatMap fun cpu => onCpu cpu order) := by
    rw [times, List.filter_flatMap, List.map_flatMap, List.map_flatMap]
    refine List.flatMap_congr fun cpu _ => ?_
    rw [projections, switchesOf, List.filter_map, List.map_map]
    rfl
  rw [perCpu, times, times]
  exact (merged.filter _).map _

/-- A task of the traces has a switch in the schedule. -/
theorem times_ne_nil {order : List (Cpu × Switch Task)}
    (projections : ∀ cpu, onCpu cpu order = switchesOf events cpu) {cpu : Cpu} {e : FixedEvent}
    (member : e ∈ events cpu) (involved : e.switch.Involves x) :
    times x (order.map Prod.snd) ≠ [] := by
  intro none
  have counted := (map_time_filter_perm (x := x) projections).length_eq
  rw [none, List.length_map, List.length_nil, List.length_eq_zero_iff] at counted
  have there : e ∈ fileList.flatMap fun cpu => (events cpu).filter fun e => e.switch.Involves x :=
    List.mem_flatMap.mpr ⟨cpu, mem_fileList cpu, List.mem_filter.mpr
      ⟨member, decide_eq_true involved⟩⟩
  rw [counted] at there
  cases there

theorem exists_bool_iff (p : Prop) : ∃ b : Bool, b ↔ p := by
  by_cases holds : p
  · exact ⟨true, iff_of_true rfl holds⟩
  · exact ⟨false, iff_of_false (by simp) holds⟩

section Scheduled

variable {start final : Cpu → Task} {order : List (Cpu × Switch Task)}
  (schedule : Schedule start order final) (injective : Function.Injective start)
  (projections : ∀ cpu, onCpu cpu order = switchesOf events cpu)
  (seen : times x (order.map Prod.snd) ≠ [])

include schedule injective projections

include seen in
/-- No CPU starts with the task exactly when the task does not run at first. -/
theorem startsOff_iff : StartsOff events x ↔ ∀ cpu, start cpu ≠ x := by
  constructor
  · intro off cpu running
    cases switches : events cpu with
    | nil =>
        have still : onCpu cpu order = [] := by rw [projections, switchesOf, switches]; rfl
        exact seen (times_eq_nil_of_stays schedule injective running still)
    | cons e rest =>
        have first : e.switch ∈ (onCpu cpu order).head? := by
          rw [projections, switchesOf, switches]
          rfl
        refine off cpu e (by rw [switches]; rfl) ?_
        exact (run_eq_of_head schedule first).symm.trans running
  · intro idle cpu e member left
    have first : e.switch ∈ (onCpu cpu order).head? := by
      rw [projections, switchesOf, List.head?_map, Option.mem_def.mp member]
      rfl
    exact idle cpu ((run_eq_of_head schedule first).trans left)

include seen in
/-- No CPU ends with the task exactly when the task does not run at the end. -/
theorem endsOff_iff :
    EndsOff events x ↔ ∀ cpu, final cpu ≠ x := by
  constructor
  · intro off cpu running
    obtain ⟨last, stays⟩ := final_eq_of_getLast schedule cpu
    rcases List.eq_nil_or_concat (events cpu) with none | ⟨front, e, split⟩
    · have still : onCpu cpu order = [] := by rw [projections, switchesOf, none]; rfl
      exact seen (times_eq_nil_of_stays schedule injective ((stays still).symm.trans running) still)
    · have member : e ∈ (events cpu).getLast? := by rw [split]; simp
      have lastSwitch : e.switch ∈ (onCpu cpu order).getLast? := by
        rw [projections, switchesOf, List.getLast?_map, Option.mem_def.mp member]
        rfl
      exact off cpu e member ((last _ lastSwitch).symm.trans running)
  · intro idleAfter cpu e member put
    have lastSwitch : e.switch ∈ (onCpu cpu order).getLast? := by
      rw [projections, switchesOf, List.getLast?_map, Option.mem_def.mp member]
      rfl
    exact idleAfter cpu (((final_eq_of_getLast schedule cpu).1 _ lastSwitch).trans put)

include seen in
/-- A task has an odd number of switches exactly when it runs at one end of the traces
and not at the other. -/
theorem odd_times_iff :
    (times x (order.map Prod.snd)).length % 2 = 1 ↔ ¬ (StartsOff events x ↔ EndsOff events x) := by
  obtain ⟨starts, startsIff⟩ := exists_bool_iff (∃ c, start c = x)
  obtain ⟨ends, endsIff⟩ := exists_bool_iff (∃ c, final c = x)
  rw [length_times schedule injective seen starts ends startsIff endsIff,
    startsOff_iff schedule injective projections seen,
    endsOff_iff schedule injective projections seen, ← not_exists, ← not_exists, ← startsIff,
    ← endsIff]
  cases starts with
  | false => cases ends <;> simp
  | true =>
      cases ends with
      | false => simp
      | true =>
          simp
          omega

/-- The run times are those along the schedule. -/
theorem runTimes_eq (ordered : order.Pairwise fun a b => a.2.time ≤ b.2.time)
    (idle : ∀ cpu, start cpu ≠ x) :
    runTimes events x = (runs x none order).map fun i => (Dec.mk (i.2 - i.1) 6).print := by
  have found : (fileList.flatMap fun cpu => intervals x (switchesOf events cpu)).Perm
      (runs x none order) := by
    have perm := flatMap_intervals_perm (x := x) schedule injective (by decide) mem_fileList
    simpa only [projections] using perm
  have inOrder : (runs x none order).Pairwise fun i j => toLex i ≤ toLex j := by
    have split := (times_eq_of_idle schedule injective idle).1
    have sorted := times_pairwise (x := x) ordered
    rw [split] at sorted
    exact runs_pairwise (List.pairwise_append.mp sorted).1
  rw [runTimes, sortBy_eq_of_perm (Separates.of_injective toLex.injective _) found.symm inOrder]

/-- As many run times as runs. -/
theorem length_runTimes : (runTimes events x).length = (runs x none order).length := by
  have perm := flatMap_intervals_perm (x := x) schedule injective (by decide) mem_fileList
  simp only [projections] at perm
  rw [runTimes, List.length_map, (sortBy_perm _ _).length_eq, perm.length_eq]

end Scheduled

/-! ## The elapsed file -/

/-- The lines computed for a task: the times of the events that mention it, two by two. -/
theorem elapsedLines_entryRows (p : Patterns) (xPlain : x.name.Plain) :
    elapsedLines (entryRows p (csvsOf (tracesOf events)) x.entry) =
      durations ((mentioningSorted events x).map fun e => e.time) := by
  rw [entryRows_eq, elapsedLines_rows, matchingSorted_eq p xPlain]

/-- Rows that mention the task, in any arrangement by time, have the times of the task
along the schedule when all of them are its own. -/
theorem map_time_eq_times {order : List (Cpu × Switch Task)}
    (projections : ∀ cpu, onCpu cpu order = switchesOf events cpu)
    (ordered : order.Pairwise fun a b => a.2.time ≤ b.2.time) (plain : PlainNames events)
    (ownRows : OwnRowsOnly events x) {rows : List FixedEvent}
    (perm : rows.Perm (mentioning events x))
    (sorted : rows.Pairwise fun e f => e.time ≤ f.time) :
    rows.map (fun e => e.time) = times x (order.map Prod.snd) := by
  have allOwn : (mentioning events x).filter (fun e => e.switch.Involves x) =
      mentioning events x :=
    List.filter_eq_self.mpr fun f matched =>
      decide_eq_true (ownRowsOnly_iff.mp ownRows f matched)
  have ownTimes := map_time_filter_perm (x := x) projections
  rw [← filter_mentioning plain, allOwn] at ownTimes
  refine ((perm.map _).trans ownTimes).eq_of_pairwise (fun _ _ _ _ => le_antisymm) ?_
    (times_pairwise ordered)
  exact List.pairwise_map.mpr sorted

/-- Without a switch of the task every condition speaks about rows of other tasks. -/
theorem durations_eq_runTimes_of_unseen
    (unseen : ∀ cpu, ∀ e ∈ events cpu, ¬ e.switch.Involves x) :
    durations ((mentioningSorted events x).map fun e => e.time) = runTimes events x ↔
      StartsOff events x ∧ EndsOff events x ∧ OwnRowsOnly events x := by
  have noRuns : runTimes events x = [] := by
    have none : (fileList.flatMap fun cpu => intervals x (switchesOf events cpu)) = [] := by
      refine List.flatMap_eq_nil_iff.mpr fun cpu _ => intervals_eq_nil fun s member => ?_
      obtain ⟨e, inTrace, rfl⟩ := List.mem_map.mp member
      exact unseen cpu e inTrace
    rw [runTimes, none]
    rfl
  have allOwn : (∀ e ∈ mentioning events x, e.switch.Involves x) ↔
      (mentioning events x).length = 0 := by
    rw [List.length_eq_zero_iff, List.eq_nil_iff_forall_not_mem]
    refine forall₂_congr fun e matched => iff_of_false (fun involved => ?_) not_false
    obtain ⟨⟨cpu, inTrace⟩, -⟩ := mem_mentioning.mp matched
    exact unseen cpu e inTrace involved
  rw [noRuns, ← List.length_eq_zero_iff, length_durations, List.length_map, mentioningSorted,
    (sortBy_perm _ _).length_eq, ownRowsOnly_iff, allOwn,
    and_iff_right (startsOff_of_unseen unseen), and_iff_right (endsOff_of_unseen unseen)]
  omega

section Scheduled

variable {start final : Cpu → Task} {order : List (Cpu × Switch Task)}
  (scheduled : ScheduledAs events start order final) (plain : PlainNames events)

include scheduled plain

/-- As many lines as run times leave room for neither a half run nor a foreign row. -/
theorem off_of_length_eq (seen : times x (order.map Prod.snd) ≠ [])
    (lines : (durations ((mentioningSorted events x).map fun e => e.time)).length =
      (runTimes events x).length) :
    StartsOff events x ∧ EndsOff events x ∧ OwnRowsOnly events x := by
  obtain ⟨injective, schedule, -, projections⟩ := scheduled
  obtain ⟨starts, startsIff⟩ := exists_bool_iff (∃ c, start c = x)
  obtain ⟨ends, endsIff⟩ := exists_bool_iff (∃ c, final c = x)
  have count := length_times schedule injective seen starts ends startsIff endsIff
  have ownCount := (map_time_filter_perm (x := x) projections).length_eq
  have parts := List.length_eq_length_filter_add (l := mentioning events x)
    (fun e => decide (e.switch.Involves x))
  rw [← filter_mentioning plain, List.length_map] at ownCount
  rw [length_durations, List.length_map, mentioningSorted, (sortBy_perm _ _).length_eq,
    length_runTimes schedule injective projections] at lines
  have foreign :
      ((mentioning events x).filter fun e => !decide (e.switch.Involves x)) = [] := by
    rw [← List.length_eq_zero_iff]
    omega
  have neither : starts.toNat = 0 ∧ ends.toNat = 0 := by omega
  rw [startsOff_iff schedule injective projections seen,
    endsOff_iff schedule injective projections seen, ownRowsOnly_iff, ← not_exists,
    ← not_exists, ← startsIff, ← endsIff]
  refine ⟨fun on => ?_, fun on => ?_, fun e matched => ?_⟩
  · rw [on] at neither
    exact absurd neither.1 (by decide)
  · rw [on] at neither
    exact absurd neither.2 (by decide)
  · simpa using List.filter_eq_nil_iff.mp foreign e matched

/-- The lines of a task that starts and ends off the CPUs are its run times. -/
theorem durations_eq_runTimes_of_off (idle : ∀ cpu, start cpu ≠ x)
    (idleAfter : ∀ cpu, final cpu ≠ x) (ownRows : OwnRowsOnly events x) :
    durations ((mentioningSorted events x).map fun e => e.time) = runTimes events x := by
  obtain ⟨injective, schedule, ordered, projections⟩ := scheduled
  have sortedTimes : (mentioningSorted events x).map (fun e => e.time) =
      times x (order.map Prod.snd) :=
    map_time_eq_times projections ordered plain ownRows (sortBy_perm _ _)
      (sortBy_row_pairwise _)
  obtain ⟨split, open'⟩ := times_eq_of_idle schedule injective idle
  have closed : leftOpen x none order = none := by
    rw [← Option.not_isSome_iff_eq_none, open']
    intro busy
    rcases busy with ⟨c, running⟩
    exact idleAfter c running
  rw [sortedTimes, split, closed, Option.toList_none, List.append_nil, durations_flatMap,
    runTimes_eq schedule injective projections ordered idle]

end Scheduled

/-- The lines are the run times exactly when the task starts and ends off the CPUs and
only its own rows mention it. -/
theorem durations_eq_runTimes_iff (consistent : Consistent events) (plain : PlainNames events) :
    durations ((mentioningSorted events x).map fun e => e.time) = runTimes events x ↔
      StartsOff events x ∧ EndsOff events x ∧ OwnRowsOnly events x := by
  by_cases unseen : ∀ cpu, ∀ e ∈ events cpu, ¬ e.switch.Involves x
  · exact durations_eq_runTimes_of_unseen unseen
  simp only [not_forall, not_not] at unseen
  obtain ⟨cpu, e, member, involved⟩ := unseen
  obtain ⟨start, order, final, scheduled⟩ := consistent_iff.mp consistent
  have seen := times_ne_nil scheduled.projections member involved
  constructor
  · intro same
    exact off_of_length_eq scheduled plain seen (congrArg List.length same)
  · intro conditions
    obtain ⟨startsOff, endsOff, ownRows⟩ := conditions
    rw [startsOff_iff scheduled.schedule scheduled.injective scheduled.projections seen]
      at startsOff
    rw [endsOff_iff scheduled.schedule scheduled.injective scheduled.projections seen] at endsOff
    exact durations_eq_runTimes_of_off scheduled plain startsOff endsOff ownRows

end Run

/-! ## The run -/

section Processed

variable {env : Env} {events : Cpu → List FixedEvent} {x : Task}

/-- The entries of a fresh run are the tasks that leave a CPU. -/
theorem mem_entries_new (plain : PlainNames events) {entry : Text} :
    entry ∈ entries env (tracesOf events) .new ↔
      ∃ cpu, ∃ e ∈ events cpu, entry = e.prev.entry := by
  rw [mem_entries_tracesOf plain.clean]
  constructor
  · intro found
    rcases found with stale | ⟨cpu, e, member, word⟩
    · exact absurd stale List.not_mem_nil
    · have ePlain := (plain cpu e member).1
      rw [leaving_eq ePlain, words_entry ePlain] at word
      exact ⟨cpu, e, member, List.mem_singleton.mp word⟩
  · intro found
    rcases found with ⟨cpu, e, member, rfl⟩
    have ePlain := (plain cpu e member).1
    refine Or.inr ⟨cpu, e, member, ?_⟩
    rw [leaving_eq ePlain, words_entry ePlain]
    exact List.mem_singleton_self _

theorem isEntry_new (plain : PlainNames events) :
    ∀ entry ∈ entries env (tracesOf events) .new, IsEntry entry := by
  intro entry listed
  rcases (mem_entries_tracesOf plain.clean).mp listed with stale | ⟨cpu, e, member, inLine⟩
  · exact absurd stale List.not_mem_nil
  · exact plain.clean.isEntry member inLine

/-- A processed task leaves a CPU in the traces, and its lines are those of its rows. -/
theorem elapsedOf_eq (plain : PlainNames events)
    (chosen : x.file ∈ processed env (withElapsed env (tracesOf events) .new)) :
    (∃ cpu, ∃ e ∈ events cpu, e.prev = x) ∧
      elapsedOf (doAllStage env (tracesOf events) .new).1 x.file =
        durations ((mentioningSorted events x).map fun e => e.time) := by
  have isEntry : ∀ entry ∈ entries env (tracesOf events) .new, IsEntry entry := isEntry_new plain
  rcases exists_entry_of_processed isEntry chosen with isElapsed | ⟨entry, listed, same⟩
  · have dot : '.' ∈ elapsedName := by rw [← isElapsed]; simp [Task.file, taskFile]
    exact absurd dot (by decide)
  · obtain ⟨cpu, e, member, rfl⟩ := (mem_entries_new plain).mp listed
    have ePlain := (plain cpu e member).1
    rw [entryFile_entry ePlain] at same
    obtain rfl := Task.file_inj same
    refine ⟨⟨cpu, e, member, rfl⟩, ?_⟩
    have stored := get_splitStages_of_mem isEntry listed
    rw [entryFile_entry ePlain] at stored
    obtain ⟨d, made, get⟩ := get_doAllStage_elapsed isEntry
    rw [elapsedOf, made, Option.bind_some, get, stored, Option.getD_some,
      elapsedLines_entryRows _ ePlain]
    by_cases lines : durations ((mentioningSorted events e.prev).map fun e => e.time) = []
    · rw [if_neg fun both => both.2 lines, lines]
      rfl
    · rw [if_pos ⟨chosen, lines⟩]
      rfl

/-- The elapsed file of a processed task holds its run times exactly when the task
starts and ends off the CPUs and only its own rows mention it. -/
theorem elapsedOf_iff (consistent : Consistent events) (plain : PlainNames events)
    (chosen : x.file ∈ processed env (withElapsed env (tracesOf events) .new)) :
    elapsedOf (doAllStage env (tracesOf events) .new).1 x.file = runTimes events x ↔
      StartsOff events x ∧ EndsOff events x ∧ OwnRowsOnly events x := by
  rw [(elapsedOf_eq plain chosen).2]
  exact durations_eq_runTimes_iff consistent plain

end Processed

/-! ## A task that runs when tracing starts -/

/-- CPU 0 goes from `b` to `a` and back. -/
def roundTrip : Cpu → List FixedEvent
  | .cpu0 =>
      [switchEvent taskB taskA 1, switchEvent taskA taskB 3]
  | _ => []

/-- The task that runs on each CPU when tracing starts. -/
def roundTripStart : Cpu → Task
  | .cpu0 => taskB
  | .cpu1 => ⟨plainComm 'i' (by decide), 1⟩
  | .cpu2 => ⟨plainComm 'i' (by decide), 2⟩
  | .cpu3 => ⟨plainComm 'i' (by decide), 3⟩

/-- The switches of the round trip in their order. -/
def roundTripOrder : List (Cpu × Switch Task) :=
  [(.cpu0, ⟨taskB, taskA, 1000000⟩), (.cpu0, ⟨taskA, taskB, 3000000⟩)]

theorem scheduledAs_roundTrip :
    ScheduledAs roundTrip roundTripStart roundTripOrder
      (Function.update (Function.update roundTripStart .cpu0 taskA) .cpu0 taskB) where
  injective := by
    intro c c' same
    cases c <;> cases c' <;> first | rfl | exact absurd same (by decide)
  schedule := by
    refine .cons rfl (fun c => ?_) (.cons rfl (fun c => ?_) (.nil _))
    · cases c <;> decide
    · cases c <;> decide
  ordered := by simp [roundTripOrder]
  projections := by
    intro cpu
    cases cpu <;> rfl

theorem consistent_roundTrip : Consistent roundTrip :=
  consistent_iff.mpr ⟨_, _, _, scheduledAs_roundTrip⟩

theorem plainNames_roundTrip : PlainNames roundTrip := by
  intro cpu e member
  cases cpu with
  | cpu0 =>
      rcases List.mem_cons.mp member with rfl | second
      · decide
      · obtain rfl := List.mem_singleton.mp second
        decide
  | _ => exact absurd member List.not_mem_nil

/-- Both tasks are processed. -/
theorem processed_roundTrip (env : Env) {x : Task} (known : x = taskA ∨ x = taskB) :
    x.file ∈ processed env (withElapsed env (tracesOf roundTrip) .new) := by
  have few : ∀ entry ∈ entries env (tracesOf roundTrip) .new,
      entry ∈ [taskB.entry, taskA.entry] := by
    intro entry listed
    obtain ⟨cpu, e, member, rfl⟩ := (mem_entries_new plainNames_roundTrip).mp listed
    cases cpu with
    | cpu0 =>
        rcases List.mem_cons.mp member with rfl | second
        · exact List.mem_cons_self
        · obtain rfl := List.mem_singleton.mp second
          exact List.mem_cons_of_mem _ List.mem_cons_self
    | _ => exact absurd member List.not_mem_nil
  have listed : x.entry ∈ entries env (tracesOf roundTrip) .new := by
    refine (mem_entries_new plainNames_roundTrip).mpr ⟨.cpu0, ?_⟩
    rcases known with rfl | rfl
    · exact ⟨_, List.mem_cons_of_mem _ List.mem_cons_self, rfl⟩
    · exact ⟨_, List.mem_cons_self, rfl⟩
  have early := rank_le_of_subset env (csvsOf (tracesOf roundTrip)) few x.entry
  have xPlain : x.name.Plain := by
    rcases known with rfl | rfl <;> decide
  have visible : IsVisible x.file := by
    rcases known with rfl | rfl <;> decide
  rw [← entryFile_entry xPlain] at visible ⊢
  exact (mem_processed (isEntry_new plainNames_roundTrip) listed).mpr
    ⟨visible, early.trans_lt (by decide)⟩

/-- The run of `a` begins and ends inside the trace. -/
theorem inside_taskA :
    StartsOff roundTrip taskA ∧ EndsOff roundTrip taskA ∧ OwnRowsOnly roundTrip taskA := by
  refine ⟨fun cpu e first => ?_, fun cpu e last => ?_, fun cpu e member _ => ?_⟩
  · cases cpu with
    | cpu0 =>
        obtain rfl := Option.some.inj first
        decide
    | _ => cases first
  · cases cpu with
    | cpu0 =>
        obtain rfl := Option.some.inj last
        decide
    | _ => cases last
  · cases cpu with
    | cpu0 =>
        rcases List.mem_cons.mp member with rfl | second
        · exact Or.inr rfl
        · obtain rfl := List.mem_singleton.mp second
          exact Or.inl rfl
    | _ => exact absurd member List.not_mem_nil

theorem elapsedOf_taskA :
    elapsedOf (doAllStage (.small false) (tracesOf roundTrip) .new).1 taskA.file =
      runTimes roundTrip taskA :=
  (elapsedOf_iff consistent_roundTrip plainNames_roundTrip
    (processed_roundTrip _ (Or.inl rfl))).mpr inside_taskA

/-- The task `b` runs when tracing starts: the time between its switch-off and its
next switch-on is taken for a run. -/
theorem elapsedOf_fail :
    ¬ ∀ (env : Env) (events : Cpu → List FixedEvent) (x : Task), Consistent events →
      PlainNames events → x.file ∈ processed env (withElapsed env (tracesOf events) .new) →
      elapsedOf (doAllStage env (tracesOf events) .new).1 x.file = runTimes events x := by
  intro all
  let env : Env := .small false
  have chosen := processed_roundTrip env (Or.inr rfl)
  have same := all env roundTrip taskB consistent_roundTrip plainNames_roundTrip chosen
  rw [(elapsedOf_eq plainNames_roundTrip chosen).2] at same
  have conditions :=
    (durations_eq_runTimes_iff consistent_roundTrip plainNames_roundTrip).mp same
  exact conditions.1 .cpu0 _ rfl rfl

end StudyLinux
