import StudyLinux.Kevent.Pairs

/-!
# What check_n_fix_data reports

The check counts lines: it reports a file with an odd number of them, among the first
twenty of the listing. What it stands for is that the pairs of times are the runs of
the task. A task that runs at both ends of the traces has an even number of switches
and wrong pairs, and files behind the twentieth are not looked at; `reported_iff` says
exactly when the report is right.
-/

namespace StudyLinux

/-- The output directory when `check_n_fix_data` looks. -/
def splitOf (env : Env) (o : Output) (events : Cpu → List FixedEvent) (tasks : List ListedTask) :
    Output :=
  splitEventIntoPertask env (o.listing (csvsOf (tracesOf events)) tasks)

/-- The directory in which `get_cpuusage_for_pertask` lists the files. -/
def listedOf (env : Env) (o : Output) (events : Cpu → List FixedEvent) (tasks : List ListedTask) :
    Output :=
  { splitOf env o events tasks with elapsed := some .empty }

/-- How many rows of other tasks mention the task. -/
def foreignRows (events : Cpu → List FixedEvent) (x : Task) : Nat :=
  (mentioning events x).countP fun e => ¬ e.switch.Involves x

/-- The check reports the file. -/
def Reported (env : Env) (o : Output) (name : Text) : Prop :=
  name ++ " is odd".toList ∈ checkNFixData env o

theorem reported_iff_odd {env : Env} {o : Output} {name : Text} :
    Reported env o name ↔ name ∈ firstNames 20 (pertaskEntries env o) ∧
      ((o.pertask.get name).getD []).length % 2 = 1 := by
  rw [Reported, checkNFixData, List.mem_filterMap]
  constructor
  · intro found
    obtain ⟨seen, inNames, report⟩ := found
    split_ifs at report with odd
    · obtain rfl := List.append_cancel_right (Option.some.inj report)
      exact ⟨inNames, by omega⟩
  · intro both
    obtain ⟨inNames, odd⟩ := both
    exact ⟨name, inNames, if_pos (by omega)⟩

section Check

variable {events : Cpu → List FixedEvent} {x : Task}

/-- The rows of a task's file: its switches, and rows of other tasks. -/
theorem length_mentioning (plain : PlainNames events)
    {order : List (Cpu × Switch Task)}
    (projections : ∀ cpu, onCpu cpu order = switchesOf events cpu) :
    (mentioning events x).length =
      (times x (order.map Prod.snd)).length + foreignRows events x := by
  have own := (map_time_filter_perm (x := x) projections).length_eq
  rw [← filter_mentioning plain, List.length_map] at own
  rw [← own, foreignRows, List.countP_eq_length_filter]
  refine (List.length_eq_length_filter_add fun e => decide (e.switch.Involves x)).trans ?_
  simp only [decide_not]

/-- The number of rows is odd when the task runs at one end of the traces only, or when
rows of other tasks make up for it. -/
theorem odd_mentioning_iff (consistent : Consistent events) (plain : PlainNames events) :
    (mentioning events x).length % 2 = 1 ↔
      ((StartsOff events x ↔ EndsOff events x) ↔ foreignRows events x % 2 = 1) := by
  obtain ⟨start, order, final, witness⟩ := consistent_iff.mp consistent
  have odd : (times x (order.map Prod.snd)).length % 2 = 1 ↔
      ¬ (StartsOff events x ↔ EndsOff events x) := by
    by_cases unseen : ∀ cpu, ∀ e ∈ events cpu, ¬ e.switch.Involves x
    · have none : times x (order.map Prod.snd) = [] := by
        have perm := map_time_filter_perm (x := x) witness.projections
        have empty : (fileList.flatMap fun cpu =>
            (events cpu).filter fun e => e.switch.Involves x) = [] :=
          List.flatMap_eq_nil_iff.mpr fun cpu _ =>
            List.filter_eq_nil_iff.mpr fun e member => by simpa using unseen cpu e member
        rw [empty] at perm
        exact List.nil_perm.mp perm
      simp [none, startsOff_of_unseen unseen, endsOff_of_unseen unseen]
    · simp only [not_forall, not_not] at unseen
      obtain ⟨cpu, e, member, involved⟩ := unseen
      exact odd_times_iff witness.schedule witness.injective witness.projections
        (times_ne_nil witness.projections member involved)
  rw [length_mentioning plain witness.projections]
  by_cases same : StartsOff events x ↔ EndsOff events x
  · simp only [same, not_true_eq_false, iff_false, true_iff] at odd ⊢
    omega
  · simp only [same, not_false_eq_true, iff_true, false_iff] at odd ⊢
    omega

/-- A task that starts and ends off the CPUs has an even number of own rows. -/
theorem not_odd_mentioning (consistent : Consistent events) (plain : PlainNames events)
    (starts : StartsOff events x) (ends : EndsOff events x)
    (ownRows : OwnRowsOnly events x) : (mentioning events x).length % 2 ≠ 1 := by
  have none : foreignRows events x = 0 := by
    refine List.countP_eq_zero.mpr fun e matched => ?_
    simpa using ownRowsOnly_iff.mp ownRows e matched
  rw [ne_eq, odd_mentioning_iff consistent plain, none]
  simp [starts, ends]

end Check

section Report

variable {env : Env} {o : Output} {events : Cpu → List FixedEvent} {tasks : List ListedTask}
  {x : Task}

theorem get_splitOf (env : Env) (o : Output) (events : Cpu → List FixedEvent)
    (xPlain : x.name.Plain) (plainList : PlainList tasks)
    (listed : x.entry ∈ tasks.map ListedTask.line) :
    (splitOf env o events tasks).pertask.get x.file =
      some ((mentioningSorted events x).map FixedEvent.row) := by
  rw [splitOf, get_listing_entry env o _ xPlain plainList listed, entryRows_eq,
    matchingSorted_eq _ xPlain]

theorem solid_listedOf {shown : Entry}
    (member : shown ∈ pertaskEntries env (listedOf env o events tasks)) :
    shown.name ≠ [] ∧ ∀ c ∈ shown.name, isBlank c = false :=
  solid_with_elapsed (fun _ => solid_listing) member

theorem nodup_listedOf :
    ((pertaskEntries env (listedOf env o events tasks)).map Entry.name).Nodup := by
  refine nodup_with_elapsed fun named => ?_
  obtain ⟨entry, -, same⟩ := exists_entry_of_mem_listing named
  exact elapsedName_ne_entryFile entry same

/-- The listing entry of a task's file. -/
def fileEntry (o : Output) (name : Text) : Entry := ⟨name, fileSize ((o.pertask.get name).getD [])⟩

/-- A file is reported when it is early in the listing and its number of rows is odd. -/
theorem reported_iff_rows (consistent : Consistent events) (plain : PlainNames events)
    (xPlain : x.name.Plain) (plainList : PlainList tasks)
    (listed : x.entry ∈ tasks.map ListedTask.line)
    (visible : IsVisible x.file) :
    Reported env (splitOf env o events tasks) x.file ↔
      inFront (fileEntries (splitOf env o events tasks).pertask)
          (fileEntry (splitOf env o events tasks) x.file) < 20 ∧
        ((StartsOff events x ↔ EndsOff events x) ↔ foreignRows events x % 2 = 1) := by
  have stored := get_splitOf env o events xPlain plainList listed
  have rows : ((splitOf env o events tasks).pertask.get x.file).getD [] =
      (mentioningSorted events x).map FixedEvent.row := by rw [stored, Option.getD_some]
  have inDir : fileEntry (splitOf env o events tasks) x.file ∈
      fileEntries (splitOf env o events tasks).pertask := by
    rw [fileEntry, rows]
    exact List.mem_map.mpr ⟨_, (Dir.get_eq_some_iff _).mp stored, rfl⟩
  have listing : pertaskEntries env (splitOf env o events tasks) =
      fileEntries (splitOf env o events tasks).pertask := List.append_nil _
  rw [reported_iff_odd, listing, rows, List.length_map, mentioningSorted,
    (sortBy_perm _ _).length_eq, odd_mentioning_iff consistent plain]
  refine and_congr_left fun _ => ?_
  have solid (entry : Entry) (member : entry ∈ fileEntries (splitOf env o events tasks).pertask) :
      entry.name ≠ [] ∧ ∀ c ∈ entry.name, isBlank c = false :=
    solid_listing (name_mem_names member)
  exact (mem_firstNames solid (nodup_fileEntries _) inDir).trans (and_iff_right visible)

/-- The pairs of a task's file are its runs. -/
theorem elapsedLines_splitOf_iff (consistent : Consistent events) (plain : PlainNames events)
    (xPlain : x.name.Plain) (plainList : PlainList tasks)
    (listed : x.entry ∈ tasks.map ListedTask.line) :
    elapsedLines (((splitOf env o events tasks).pertask.get x.file).getD []) = runTimes events x ↔
      StartsOff events x ∧ EndsOff events x ∧ OwnRowsOnly events x := by
  rw [get_splitOf env o events xPlain plainList listed, Option.getD_some, elapsedLines_rows]
  exact durations_eq_runTimes_iff consistent plain

/-- For a file that the next stage processes, the report is right exactly when there is
nothing to report, or the file is among the first twenty of the listing and its number
of rows is odd: the task runs at one end of the traces only, or rows of other tasks
make up for it. -/
theorem reported_iff (env : Env) (o : Output) (tasks : List ListedTask)
    (consistent : Consistent events) (plain : PlainNames events) (xPlain : x.name.Plain)
    (plainList : PlainList tasks) (listed : x.entry ∈ tasks.map ListedTask.line)
    (chosen : x.file ∈ processed env (listedOf env o events tasks)) :
    (Reported env (splitOf env o events tasks) x.file ↔
      elapsedLines (((splitOf env o events tasks).pertask.get x.file).getD []) ≠
        runTimes events x) ↔
    (StartsOff events x ∧ EndsOff events x ∧ OwnRowsOnly events x) ∨
      (inFront (fileEntries (splitOf env o events tasks).pertask)
          (fileEntry (splitOf env o events tasks) x.file) < 20 ∧
        ((StartsOff events x ↔ EndsOff events x) ↔ foreignRows events x % 2 = 1)) := by
  have visible : IsVisible x.file :=
    (exists_of_mem_firstNames (fun _ => solid_listedOf) chosen).choose_spec.2.2
  rw [reported_iff_rows consistent plain xPlain plainList listed visible, ne_eq,
    elapsedLines_splitOf_iff consistent plain xPlain plainList listed]
  by_cases good : StartsOff events x ∧ EndsOff events x ∧ OwnRowsOnly events x
  · have even := not_odd_mentioning consistent plain good.1 good.2.1 good.2.2
    rw [ne_eq, odd_mentioning_iff consistent plain] at even
    exact iff_of_true (iff_of_false (fun report => even report.2) (not_not.mpr good)) (Or.inl good)
  · simp [good]

/-! ## A task that runs at both ends -/

/-- No more files than entries. -/
theorem length_fileEntries_le (env : Env) (o : Output) (events : Cpu → List FixedEvent)
    (tasks : List ListedTask) :
    (fileEntries (splitOf env o events tasks).pertask).length ≤
      (taskEntries env tasks).length := by
  have inside : (splitOf env o events tasks).pertask.names ⊆
      (taskEntries env tasks).map entryFile := by
    intro f named
    obtain ⟨entry, inList, rfl⟩ := exists_entry_of_mem_listing named
    exact List.mem_map_of_mem inList
  have bound := (List.subperm_of_subset (Dir.nodup_names _) inside).length_le
  rw [List.length_map] at bound
  rw [fileEntries, List.length_map]
  rwa [Dir.names, List.length_map] at bound

/-- Few listed tasks are all processed. -/
theorem processed_of_few (env : Env) (o : Output) (events : Cpu → List FixedEvent)
    (xPlain : x.name.Plain) (visible : IsVisible x.file) (plainList : PlainList tasks)
    (listed : x.entry ∈ tasks.map ListedTask.line)
    (few : (taskEntries env tasks).length < 39) :
    x.file ∈ processed env (listedOf env o events tasks) := by
  have stored := get_splitOf env o events xPlain plainList listed
  have member : fileEntry (splitOf env o events tasks) x.file ∈
      pertaskEntries env (listedOf env o events tasks) := by
    refine List.mem_append_left _ (List.mem_map.mpr ⟨_, (Dir.get_eq_some_iff _).mp stored, ?_⟩)
    rw [fileEntry, stored]
    rfl
  refine (mem_firstNames (fun _ => solid_listedOf) nodup_listedOf member).mpr ⟨visible, ?_⟩
  have files := length_fileEntries_le env o events tasks
  have size : (pertaskEntries env (listedOf env o events tasks)).length =
      (fileEntries (splitOf env o events tasks).pertask).length + 1 := List.length_append
  have front := inFront_le (pertaskEntries env (listedOf env o events tasks))
    (fileEntry (splitOf env o events tasks) x.file)
  rw [total]
  omega

theorem few_roundTripTasks (env : Env) : (taskEntries env roundTripTasks).length < 39 := by
  rw [taskEntries_of_oneWord env (by decide), List.length_map]
  decide

/-- The task `a` starts and ends off the CPUs: it is not reported, and need not be. -/
theorem reported_taskA :
    Reported (.small false) (splitOf (.small false) .new roundTrip roundTripTasks) taskA.file ↔
      elapsedLines (((splitOf (.small false) .new roundTrip roundTripTasks).pertask.get
        taskA.file).getD []) ≠ runTimes roundTrip taskA := by
  have listed : taskA.entry ∈ roundTripTasks.map ListedTask.line :=
    List.mem_cons_of_mem _ List.mem_cons_self
  have chosen := processed_of_few (.small false) .new roundTrip (by decide) (by decide)
    plainList_roundTripTasks listed (few_roundTripTasks _)
  exact (reported_iff _ .new roundTripTasks consistent_roundTrip plainNames_roundTrip (by decide)
    plainList_roundTripTasks listed chosen).mpr (Or.inl inside_taskA)

/-- The task `b` runs at both ends of the trace: its two rows are not reported. -/
theorem reported_fail :
    ¬ ∀ (env : Env) (o : Output) (events : Cpu → List FixedEvent) (tasks : List ListedTask)
      (x : Task), Consistent events → PlainNames events → x.name.Plain → PlainList tasks →
      x.entry ∈ tasks.map ListedTask.line → x.file ∈ processed env (listedOf env o events tasks) →
      (Reported env (splitOf env o events tasks) x.file ↔
        elapsedLines (((splitOf env o events tasks).pertask.get x.file).getD []) ≠
          runTimes events x) := by
  intro all
  let env : Env := .small false
  have plainList := plainList_roundTripTasks
  have listed : taskB.entry ∈ roundTripTasks.map ListedTask.line := List.mem_cons_self
  have xPlain : taskB.name.Plain := by decide
  have chosen := processed_of_few env .new roundTrip xPlain (by decide) plainList listed
    (few_roundTripTasks env)
  have right := all env .new roundTrip roundTripTasks taskB consistent_roundTrip
    plainNames_roundTrip xPlain plainList listed chosen
  have starts : ¬ StartsOff roundTrip taskB := fun off => off .cpu0 _ rfl rfl
  have ends : ¬ EndsOff roundTrip taskB := fun off => off .cpu0 _ rfl rfl
  rw [reported_iff_rows consistent_roundTrip plainNames_roundTrip xPlain plainList listed
    (by decide), ne_eq, elapsedLines_splitOf_iff consistent_roundTrip plainNames_roundTrip xPlain
    plainList listed] at right
  have foreign : foreignRows roundTrip taskB = 0 := by decide
  have odd := (right.mpr fun good => starts good.1).2
  simp [starts, ends, foreign] at odd

end Report

end StudyLinux
