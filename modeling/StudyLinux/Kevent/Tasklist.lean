import StudyLinux.Kevent.Elapsed

/-!
# Entries of the task list

The list names, for each event, the task that leaves the CPU, as `name,pid`
(`mem_entries_tracesOf`). When the names keep to their column and have no pattern
characters, every entry of it is a name and a number that the shell takes as it is,
whatever the earlier runs were (`isEntry_of_mem_entries`).
-/

namespace StudyLinux

/-! ## The entry of an event -/

/-- The entry of the task that an event switches out. -/
def leaving (e : FixedEvent) : Text := e.prev.name.printed ++ ',' :: decimal e.prev.pid

/-- Columns two and three of a row. -/
theorem cutFields_row {e : FixedEvent} (clean : e.prev.name.Clean) :
    cutFields ',' [2, 3] e.row = leaving e := by
  have comma : ',' ∈ e.row := by rw [e.row_eq_append]; simp
  rw [cutFields, if_pos comma, e.splitOn_row, clean.cell_eq,
    splitOn_eq_singleton_iff.mpr clean.comma_not_mem_printed]
  simp [leaving, List.intercalate]

theorem mem_taskLines {trace : File} {line : Text} :
    line ∈ taskLines trace ↔ ∃ row ∈ csvOf trace, cutFields ',' [2, 3] row = line := by
  rw [taskLines, mem_uniq, sortLines, mem_sortBy, List.mem_map]

/-- Every name of the events keeps to its column, and what is printed of the tasks that
leave a CPU has no pattern characters. -/
def CleanNames (events : Cpu → List FixedEvent) : Prop :=
  ∀ cpu, ∀ e ∈ events cpu, (e.prev.name.Clean ∧ e.next.name.Clean) ∧
    ∀ c ∈ e.prev.name.printed, isGlob c = false

/-- The words that the events add to the list. -/
theorem mem_words_taskLines {events : Cpu → List FixedEvent} (clean : CleanNames events)
    {word : Text} :
    word ∈ (fileList.flatMap fun cpu => taskLines (tracesOf events cpu)).flatMap words ↔
      ∃ cpu, ∃ e ∈ events cpu, word ∈ words (leaving e) := by
  simp only [List.mem_flatMap, mem_taskLines, csvOf_tracesOf, List.mem_map]
  constructor
  · intro listed
    rcases listed with ⟨line, ⟨cpu, -, row, ⟨e, member, rfl⟩, rfl⟩, inLine⟩
    rw [cutFields_row (clean cpu e member).1.1] at inLine
    exact ⟨cpu, e, member, inLine⟩
  · intro leaves
    rcases leaves with ⟨cpu, e, member, inLine⟩
    exact ⟨leaving e, ⟨cpu, mem_fileList cpu, e.row, ⟨e, member, rfl⟩,
      cutFields_row (clean cpu e member).1.1⟩, inLine⟩

/-! ## Entries are a name and a pid -/

/-- The fields of an entry that is one word. -/
theorem arrayField_entry {name pid : Text} (nameSolid : ',' ∉ name) (pidSolid : ',' ∉ pid) :
    arrayField 0 (name ++ ',' :: pid) = name ∧ arrayField 1 (name ++ ',' :: pid) = pid := by
  rw [arrayField, arrayField, splitOn_append_cons, splitOn_eq_singleton_iff.mpr nameSolid,
    splitOn_eq_singleton_iff.mpr pidSolid]
  exact ⟨rfl, rfl⟩

/-- A piece of `name,pid` is a name and a number, or has no second field. -/
theorem isNumbered_of_infix {name word : Text} {pid : Nat} (solid : ',' ∉ name)
    (inside : word <:+: name ++ ',' :: decimal pid) : IsNumbered word := by
  obtain ⟨before, after, shape⟩ := inside
  by_cases comma : ',' ∈ word
  · obtain ⟨u, v, rfl, uSolid⟩ := List.eq_append_cons_of_mem comma
    have pidSolid := FixedEvent.comma_not_mem_decimal pid
    have cut : (before ++ u) ++ ',' :: (v ++ after) = name ++ ',' :: decimal pid := by
      rw [← shape]
      simp only [List.append_assoc, List.cons_append]
    have digits : v ++ after = decimal pid :=
      ((List.append_cons_inj_of_notMem solid pidSolid).mp cut.symm).2.2.symm
    have vSolid : ',' ∉ v := fun member =>
      pidSolid (digits ▸ List.mem_append_left after member)
    rw [IsNumbered, (arrayField_entry uSolid vSolid).2]
    exact fun c member => isDigit_of_mem_decimal (digits ▸ List.mem_append_left after member)
  · rw [IsNumbered, arrayField, splitOn_eq_singleton_iff.mpr comma]
    exact fun c member => absurd member List.not_mem_nil

/-- The characters of an entry are those of the name, digits and the comma. -/
theorem plain_leaving {e : FixedEvent} (plain : ∀ c ∈ e.prev.name.printed, isGlob c = false) :
    ∀ c ∈ leaving e, isGlob c = false := by
  intro c member
  rw [leaving, List.mem_append, List.mem_cons] at member
  rcases member with name | rfl | pid
  · exact plain c name
  · decide
  · exact (plain_of_isDigit (isDigit_of_mem_decimal pid)).1

theorem CleanNames.isEntry {events : Cpu → List FixedEvent} (clean : CleanNames events) {cpu : Cpu}
    {e : FixedEvent} (member : e ∈ events cpu) {word : Text} (inLine : word ∈ words (leaving e)) :
    IsEntry word where
  numbered := isNumbered_of_infix (clean cpu e member).1.1.comma_not_mem_printed
    (infix_of_mem_wordsBy inLine)
  plain c inWord := plain_leaving (clean cpu e member).2 c
    ((infix_of_mem_wordsBy inLine).subset inWord)

/-- Words that are entries are looked for as they are. -/
theorem listedEntries_of_isEntry (env : Env) {tasklist : File}
    (isEntry : ∀ word ∈ tasklist.flatMap words, IsEntry word) :
    listedEntries env tasklist = tasklist.flatMap words :=
  listedEntries_eq fun word member => expandHere_of_plain (isEntry word member).plain

/-- The entries of a run: those of the list it finds, and those of its events. -/
theorem mem_entries_tracesOf {env : Env} {events : Cpu → List FixedEvent}
    (clean : CleanNames events) {o : Output} {entry : Text} :
    entry ∈ entries env (tracesOf events) o ↔
      entry ∈ listedEntries env o.tasklist ∨
        ∃ cpu, ∃ e ∈ events cpu, entry ∈ words (leaving e) := by
  have isEntry : ∀ word ∈ (fileList.flatMap fun cpu =>
      taskLines (tracesOf events cpu)).flatMap words, IsEntry word := by
    intro word listed
    obtain ⟨cpu, e, member, inLine⟩ := (mem_words_taskLines clean).mp listed
    exact clean.isEntry member inLine
  rw [entries, listedEntries_append, List.mem_append, listedEntries_of_isEntry env isEntry,
    mem_words_taskLines clean]

/-! ## The pattern of an entry -/

theorem isLiteral_of_mem_decimal {n : Nat} {c : Char} (member : c ∈ decimal n) : IsLiteral c := by
  have noDigit : ∀ c ∈ regexChars, ¬ c.isDigit := by decide
  exact fun special => noDigit c special (isDigit_of_mem_decimal member)

/-- Only the name can have a character that `grep` reads as its own. -/
theorem literal_taskPattern {name : Text} (literal : ∀ c ∈ name, IsLiteral c) (pid : Nat) :
    ∀ c ∈ taskPattern name (decimal pid), IsLiteral c := by
  have comma : IsLiteral ',' := by decide
  simp only [taskPattern, List.mem_cons, List.mem_append, List.not_mem_nil, or_false]
  intro c member
  rcases member with rfl | inName | rfl | inPid | rfl
  · exact comma
  · exact literal c inName
  · exact comma
  · exact isLiteral_of_mem_decimal inPid
  · exact comma

/-- The pattern begins and ends with a comma. -/
theorem ends_taskPattern (name pid : Text) :
    (taskPattern name pid).head? = some ',' ∧ (taskPattern name pid).getLast? = some ',' := by
  have shape : taskPattern name pid = (',' :: (name ++ ',' :: pid)) ++ [','] := by
    simp [taskPattern]
  exact ⟨rfl, by rw [shape, List.getLast?_concat]⟩

/-- A name without repetitions, sets and escapes is found wherever its text is. -/
theorem Patterns.selects_taskPattern (p : Patterns) {name row : Text}
    (plain : ∀ c ∈ name, c ≠ '*' ∧ c ≠ '[' ∧ c ≠ '\\') {pid : Nat}
    (inside : taskPattern name (decimal pid) <:+: row) :
    p.selects (taskPattern name (decimal pid)) row := by
  obtain ⟨first, last⟩ := ends_taskPattern name (decimal pid)
  refine p.selects_of_infix (fun c member => ?_) (by rw [first]; decide) (by rw [last]; decide)
    inside
  simp only [taskPattern, List.mem_cons, List.mem_append, List.not_mem_nil, or_false] at member
  rcases member with rfl | inName | rfl | inPid | rfl
  · decide
  · exact plain c inName
  · decide
  · exact (isLiteral_of_mem_decimal inPid).noRepetition
  · decide

theorem Patterns.selects_taskPattern_iff (p : Patterns) {name row : Text}
    (literal : ∀ c ∈ name, IsLiteral c) {pid : Nat} :
    p.selects (taskPattern name (decimal pid)) row ↔ taskPattern name (decimal pid) <:+: row := by
  constructor
  · exact p.infix_of_selects (literal_taskPattern literal pid)
  · exact p.selects_taskPattern fun c member => (literal c member).noRepetition

/-! ## Earlier runs -/

/-- The directory that a history of runs leaves. -/
def leftBy (env : Env) (history : List (Cpu → List FixedEvent)) : Output :=
  history.foldl (fun o events => (doAllStage env (tracesOf events) o).1) .new

theorem foldl_getCpuusageForTask_tasklist (env : Env) (names : List Text) (o : Output) :
    (names.foldl (getCpuusageForTask env) o).tasklist = o.tasklist := by
  induction names generalizing o with
  | nil => rfl
  | cons name names ih => rw [List.foldl_cons, ih]; rfl

/-- A run leaves the list it worked on. -/
theorem doAllStage_tasklist (env : Env) (traces : Traces) (o : Output) :
    (doAllStage env traces o).1.tasklist =
      o.tasklist ++ fileList.flatMap fun cpu => taskLines (traces cpu) := by
  rw [doAllStage, ← splitStages_tasklist env]
  have merged (o : Output) : (mergeCpuusageOfPertask env o).tasklist = o.tasklist := rfl
  rw [merged, getCpuusageForPertask_splitStages, foldl_getCpuusageForTask_tasklist]
  rfl

/-- The entries of a run are the words of the list it leaves. -/
theorem entries_eq (env : Env) (traces : Traces) (o : Output) :
    entries env traces o = listedEntries env (doAllStage env traces o).1.tasklist := by
  rw [doAllStage_tasklist, entries]

/-- After runs whose names keep to their column, every word of the list is an entry. -/
theorem isEntry_of_mem_entries {env : Env} {history : List (Cpu → List FixedEvent)}
    (clean : ∀ events ∈ history, CleanNames events) :
    ∀ word ∈ (leftBy env history).tasklist.flatMap words, IsEntry word := by
  induction history using List.reverseRecOn with
  | nil => exact fun _ member => absurd member List.not_mem_nil
  | append_singleton history events ih =>
      intro word member
      have last := clean events (by simp)
      rw [leftBy, List.foldl_append, List.foldl_cons, List.foldl_nil, doAllStage_tasklist,
        List.flatMap_append, List.mem_append] at member
      rcases member with stale | new
      · exact ih (fun earlier inHistory => clean earlier (List.mem_append_left _ inHistory)) word
          stale
      · obtain ⟨cpu, e, inTrace, inLine⟩ := (mem_words_taskLines last).mp new
        exact last.isEntry inTrace inLine

/-- So is every entry that a further run looks for. -/
theorem isEntry_of_mem_entries_leftBy {env : Env} {history : List (Cpu → List FixedEvent)}
    (clean : ∀ events ∈ history, CleanNames events) {events : Cpu → List FixedEvent}
    (cleanNow : CleanNames events) :
    ∀ entry ∈ entries env (tracesOf events) (leftBy env history), IsEntry entry := by
  intro entry member
  rcases (mem_entries_tracesOf cleanNow).mp member with stale | ⟨cpu, e, inTrace, inLine⟩
  · rw [listedEntries_of_isEntry env (isEntry_of_mem_entries clean)] at stale
    exact isEntry_of_mem_entries clean entry stale
  · exact cleanNow.isEntry inTrace inLine

/-! ## Small traces -/

/-- The tasks `a` and `b`. -/
def taskA : Task := ⟨plainComm 'a' (by decide), 7⟩

def taskB : Task := ⟨plainComm 'b' (by decide), 8⟩

end StudyLinux
