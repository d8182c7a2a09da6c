import StudyLinux.Kevent.Rows
import StudyLinux.Kevent.Tasklist

/-!
# One file for each listed task

`split_event_into_pertask` looks for the text `,<name>,<pid>,` as a basic regular
expression anywhere in a row. The file of a listed task holds the rows of the task,
sorted by time, exactly when the search that was written to it last hits the rows that
have name and pid in the columns of the previous or of the next task (`exactRows_iff`).
For a name without pattern characters the search means name and pid in any two adjacent
columns that a further one follows (`taskPattern_infix_iff`). The redirect to
`output/pertask/<name>.<pid>` expands that word too: the order of the list and repeated
lines make no difference as long as it matches no other task's file (`sameFiles_iff`).
-/

namespace StudyLinux

/-! ## Lists of tasks -/

/-- A line of `output/tasklist`: a name that keeps to its column and a decimal pid. The
csv files have no slash. -/
structure ListedTask where
  name : Text
  pid : Nat
  column : ∀ c ∈ name, c ≠ ',' ∧ c ≠ '/'
  deriving DecidableEq

namespace ListedTask

/-- `<name>,<pid>`. -/
def line (x : ListedTask) : Text := x.name ++ ',' :: decimal x.pid

/-- `<name>.<pid>`. -/
def file (x : ListedTask) : Text := taskFile x.name (decimal x.pid)

/-- The name is one word. -/
def OneWord (x : ListedTask) : Prop := ∀ c ∈ x.name, isBlank c = false

instance : DecidablePred OneWord := fun x => inferInstanceAs (Decidable (∀ c ∈ x.name, _))

/-- Name and pid stand in the columns of the previous task or in those of the next. -/
def InRow (x : ListedTask) (row : Text) : Prop :=
  arrayField 1 row = x.name ∧ arrayField 2 row = decimal x.pid ∨
    arrayField 5 row = x.name ∧ arrayField 6 row = decimal x.pid

instance (x : ListedTask) : DecidablePred x.InRow := fun _ => inferInstanceAs (Decidable (_ ∨ _))

/-- `grep ",$1,$2,"` selects the row. -/
def Selects (p : Patterns) (x : ListedTask) (row : Text) : Prop :=
  p.selects (taskPattern x.name (decimal x.pid)) row

instance (p : Patterns) (x : ListedTask) : DecidablePred (x.Selects p) :=
  fun _ => inferInstanceAs (Decidable (_ = true))

theorem comma_not_mem (x : ListedTask) : ',' ∉ x.name := fun member => (x.column _ member).1 rfl

end ListedTask

/-- The directory with these csv files and this task list. -/
def Output.listing (o : Output) (csv : Cpu → File) (tasks : List ListedTask) : Output :=
  { o with
    csv := csv
    tasklist := tasks.map ListedTask.line }

/-- The entries that the loop over the list runs over. -/
def taskEntries (env : Env) (tasks : List ListedTask) : List Text :=
  listedEntries env (tasks.map ListedTask.line)

variable {env : Env} {csv : Cpu → File} {tasks : List ListedTask} {x : ListedTask}

theorem arrayField_line (x : ListedTask) :
    arrayField 0 x.line = x.name ∧ arrayField 1 x.line = decimal x.pid :=
  arrayField_entry x.comma_not_mem (FixedEvent.comma_not_mem_decimal x.pid)

theorem entryFile_line (x : ListedTask) : entryFile x.line = x.file := by
  rw [entryFile, (arrayField_line x).1, (arrayField_line x).2, ListedTask.file]

theorem entryPattern_line (x : ListedTask) :
    entryPattern x.line = taskPattern x.name (decimal x.pid) := by
  rw [entryPattern, (arrayField_line x).1, (arrayField_line x).2]

theorem isNumbered_line (x : ListedTask) : IsNumbered x.line :=
  isNumbered_of_infix x.comma_not_mem (List.infix_refl _)

/-- A word of a line is a piece of the name, or a name and the pid; a name of the working
directory has no pid. -/
theorem isNumbered_of_mem_taskEntries {entry : Text} (listed : entry ∈ taskEntries env tasks) :
    IsNumbered entry := by
  rcases mem_of_mem_listedEntries listed with inList | here
  · obtain ⟨line, member, word⟩ := List.mem_flatMap.mp inList
    obtain ⟨x, -, rfl⟩ := List.mem_map.mp member
    exact isNumbered_of_infix x.comma_not_mem (infix_of_mem_wordsBy word)
  · exact isNumbered_of_mem_workingDir here

theorem taskEntries_append (front back : List ListedTask) :
    taskEntries env (front ++ back) = taskEntries env front ++ taskEntries env back := by
  rw [taskEntries, List.map_append, listedEntries_append, taskEntries, taskEntries]

/-- The entries depend on which tasks are listed. -/
theorem mem_taskEntries_congr {tasks' : List ListedTask} (same : ∀ x, x ∈ tasks ↔ x ∈ tasks')
    {entry : Text} : entry ∈ taskEntries env tasks ↔ entry ∈ taskEntries env tasks' := by
  apply mem_listedEntries_congr
  simp only [List.mem_flatMap, List.mem_map, same, implies_true]

/-! ## Names of one word -/

/-- The line of such a name is one word. -/
theorem words_line (solid : x.OneWord) : words x.line = [x.line] := by
  refine wordsBy_eq_singleton (fun c member => ?_) (by simp [ListedTask.line])
  rw [ListedTask.line, List.mem_append, List.mem_cons] at member
  rcases member with name | rfl | pid
  · exact solid c name
  · rfl
  · exact isBlank_eq_false_of_isDigit (isDigit_of_mem_decimal pid)

/-- As a word it matches nothing in the working directory, where no name has a comma. -/
theorem expandHere_line (env : Env) (x : ListedTask) : env.expandHere x.line = [x.line] := by
  refine Patterns.expand_of_no_match fun name here found => ?_
  have plain : ∀ c ∈ ',' :: decimal x.pid, isGlob c = false ∧ c ≠ ']' :=
    List.forall_mem_cons.mpr ⟨by decide, fun c member =>
      plain_of_isDigit (isDigit_of_mem_decimal member)⟩
  have comma : ',' ∈ name :=
    (env.suffix_of_matchesName plain found).subset List.mem_cons_self
  exact (env.workingDir.plain name here ',' comma).2 rfl

theorem taskEntries_singleton (env : Env) (solid : x.OneWord) : taskEntries env [x] = [x.line] := by
  have line : [x.line].flatMap words = [x.line] := by rw [List.flatMap_singleton, words_line solid]
  rw [taskEntries, List.map_singleton, listedEntries_eq, line]
  rw [line]
  intro word member
  exact List.mem_singleton.mp member ▸ expandHere_line env x

/-- A list of such names is looked for line by line. -/
theorem taskEntries_of_oneWord (env : Env) (solid : ∀ x ∈ tasks, x.OneWord) :
    taskEntries env tasks = tasks.map ListedTask.line := by
  induction tasks with
  | nil => rfl
  | cons x tasks ih =>
      rw [List.forall_mem_cons] at solid
      rw [← List.singleton_append, taskEntries_append, taskEntries_singleton env solid.1,
        ih solid.2, List.singleton_append, List.singleton_append, List.map_cons]

theorem line_mem_taskEntries (env : Env) (solid : x.OneWord) (listed : x ∈ tasks) :
    x.line ∈ taskEntries env tasks := by
  obtain ⟨front, back, rfl⟩ := List.append_of_mem listed
  rw [← List.singleton_append, taskEntries_append, taskEntries_append,
    taskEntries_singleton env solid]
  simp

/-! ## What the stage leaves -/

/-- The files are the rows of the entries that were written to them last. -/
theorem splitEventIntoPertask_listing (env : Env) (o : Output) (csv : Cpu → File)
    (tasks : List ListedTask) :
    (splitEventIntoPertask env (o.listing csv tasks)).pertask =
      (writers env.toPatterns (taskEntries env tasks)).mapValues (entryRows env.toPatterns csv) :=
  foldl_getCpuusageForProcess_eq fun _ => isNumbered_of_mem_taskEntries

/-- Every per-task file is the file of an entry. -/
theorem exists_entry_of_mem_listing {o : Output} {f : Text}
    (named : f ∈ (splitEventIntoPertask env (o.listing csv tasks)).pertask.names) :
    ∃ entry ∈ taskEntries env tasks, f = entryFile entry := by
  rw [splitEventIntoPertask_listing, Dir.names_mapValues] at named
  obtain ⟨writer, stored⟩ := Option.isSome_iff_exists.mp ((Dir.mem_names _).mp named)
  exact (mem_of_get_writers stored).2

/-- The names of per-task files are words. -/
theorem solid_listing {o : Output} {f : Text}
    (named : f ∈ (splitEventIntoPertask env (o.listing csv tasks)).pertask.names) :
    f ≠ [] ∧ ∀ c ∈ f, isBlank c = false := by
  obtain ⟨entry, listed, rfl⟩ := exists_entry_of_mem_listing named
  exact solid_entryFile (solid_of_mem_listedEntries listed)

/-- A task whose file is there has a name of one word. -/
theorem oneWord_of_get_writers {writer : Text}
    (stored : (writers env.toPatterns (taskEntries env tasks)).get x.file = some writer) :
    x.OneWord := by
  obtain ⟨-, entry, listed, file⟩ := mem_of_get_writers stored
  intro c member
  refine (solid_entryFile (solid_of_mem_listedEntries listed)).2 c ?_
  rw [← file, ListedTask.file, taskFile]
  exact List.mem_append_left _ member

/-- The file of a listed task that is alone was written by an entry with its pattern. -/
theorem Alone.exists_writer (alone : Alone env.toPatterns (taskEntries env tasks) x.file)
    (solid : x.OneWord) (listed : x ∈ tasks) :
    ∃ writer, (writers env.toPatterns (taskEntries env tasks)).get x.file = some writer ∧
      entryPattern writer = entryPattern x.line := by
  rcases alone.get_writers with ⟨writer, inList, file, stored⟩ | ⟨foreign, -⟩
  · refine ⟨writer, stored, ?_⟩
    obtain ⟨name, pid⟩ := taskFile_inj (dot_not_mem_pid (isNumbered_of_mem_taskEntries inList))
      (dot_not_mem_pid (isNumbered_line x)) (file.trans (entryFile_line x).symm)
    rw [entryPattern, entryPattern, name, pid]
  · exact absurd (entryFile_line x) (foreign x.line (line_mem_taskEntries env solid listed))

/-- Such a file has the rows that the search for the task selects. -/
theorem get_listing (o : Output) (csv : Cpu → File) (listed : x ∈ tasks) (solid : x.OneWord)
    (alone : Alone env.toPatterns (taskEntries env tasks) x.file) :
    (splitEventIntoPertask env (o.listing csv tasks)).pertask.get x.file =
      some (entryRows env.toPatterns csv x.line) := by
  obtain ⟨writer, stored, same⟩ := alone.exists_writer solid listed
  rw [splitEventIntoPertask_listing, Dir.get_mapValues, stored, Option.map_some, entryRows, same,
    entryRows]

/-- No listed name has a pattern character of the shell. -/
def PlainList (tasks : List ListedTask) : Prop := ∀ x ∈ tasks, ∀ c ∈ x.name, isGlob c = false

instance : DecidablePred PlainList := fun tasks => inferInstanceAs (Decidable (∀ x ∈ tasks, _))

theorem PlainList.line (plain : PlainList tasks) (listed : x ∈ tasks) :
    ∀ c ∈ x.line, isGlob c = false := by
  intro c member
  rw [ListedTask.line, List.mem_append, List.mem_cons] at member
  rcases member with name | rfl | pid
  · exact plain x listed c name
  · decide
  · exact (plain_of_isDigit (isDigit_of_mem_decimal pid)).1

/-- Then every entry is taken as it is. -/
theorem PlainList.isEntry (plain : PlainList tasks) {entry : Text}
    (listed : entry ∈ taskEntries env tasks) : IsEntry entry := by
  have plainWord : ∀ word ∈ (tasks.map ListedTask.line).flatMap words,
      ∀ c ∈ word, isGlob c = false := by
    intro word inList c member
    obtain ⟨line, inTasks, isWord⟩ := List.mem_flatMap.mp inList
    obtain ⟨x, inX, rfl⟩ := List.mem_map.mp inTasks
    exact plain.line inX c ((infix_of_mem_wordsBy isWord).subset member)
  refine ⟨isNumbered_of_mem_taskEntries listed, plainWord entry ?_⟩
  rwa [taskEntries, listedEntries_eq fun word member => expandHere_of_plain (plainWord word member)]
    at listed

theorem PlainList.noClash (plain : PlainList tasks) :
    NoClash env.toPatterns (taskEntries env tasks) :=
  noClash_of_isEntry _ fun _ => plain.isEntry

/-! ## Order and repetition of the list -/

/-- All lists of these tasks, in any order and with any repetitions, leave the same files
and no temporary one. -/
def SameFiles (env : Env) (csv : Cpu → File) (tasks : List ListedTask) : Prop :=
  ∀ (o o' : Output) (list list' : List ListedTask), (∀ x, x ∈ list ↔ x ∈ tasks) →
    (∀ x, x ∈ list' ↔ x ∈ tasks) →
    (splitEventIntoPertask env (o.listing csv list)).pertask =
        (splitEventIntoPertask env (o'.listing csv list')).pertask ∧
      ∀ name pid,
        (splitEventIntoPertask env (o.listing csv list)).pertask.get (taskTmp name pid) = none

theorem sameFiles_of_noClash (csv : Cpu → File)
    (noClash : NoClash env.toPatterns (taskEntries env tasks)) : SameFiles env csv tasks := by
  intro o o' list list' same same'
  refine ⟨?_, fun name pid => ?_⟩
  · refine foldl_getCpuusageForProcess_congr (fun _ => isNumbered_of_mem_taskEntries)
      (fun entry member other inList => ?_) fun entry => ?_
    · exact noClash entry ((mem_taskEntries_congr same).mp member) other
        ((mem_taskEntries_congr same).mp inList)
    · exact mem_taskEntries_congr fun x => (same x).trans (same' x).symm
  · rw [← Option.not_isSome_iff_eq_none, ← Dir.mem_names]
    intro named
    obtain ⟨entry, listed, same⟩ := exists_entry_of_mem_listing named
    exact entryFile_ne_taskTmp (isNumbered_of_mem_taskEntries listed) name pid same.symm

/-- What the first line of a list makes is there at the end. -/
theorem isSome_get_writers_cons {p : Patterns} {entry : Text} (rest : List Text) :
    ((writers p (entry :: rest)).get (entryFile entry)).isSome := by
  induction rest using List.reverseRecOn with
  | nil =>
      rw [writers_singleton]
      exact Option.isSome_of_eq_some (Dir.get_put_self _ _ _)
  | append_singleton rest last ih =>
      rw [← List.cons_append, writers_append_singleton]
      rcases writeEntry_cases (writers p (entry :: rest)) last with
        ⟨still, -⟩ | ⟨target, -, written⟩
      · rw [still]
        exact ih
      · rw [written]
        by_cases own : entryFile entry = target
        · exact own ▸ Option.isSome_of_eq_some (Dir.get_put_self _ _ _)
        · rwa [Dir.get_put_of_ne _ _ own]

/-- A word that matches what is there makes no new file. -/
theorem get_writers_eq_none {p : Patterns} {entry : Text} {f : Text}
    (matched : p.matchesName f (entryFile entry)) (other : entryFile entry ≠ f)
    (rest : List Text) : (writers p (entry :: rest)).get f = none := by
  induction rest using List.reverseRecOn with
  | nil =>
      rw [writers_singleton]
      exact Dir.get_put_of_ne _ _ other.symm
  | append_singleton rest last ih =>
      rw [← List.cons_append, writers_append_singleton]
      have there := (Dir.mem_names _).mpr (@isSome_get_writers_cons p entry rest)
      rcases writeEntry_cases (writers p (entry :: rest)) last with
        ⟨still, -⟩ | ⟨target, goes, written⟩
      · rw [still, ih]
      · rw [written, Dir.get_put_of_ne, ih]
        rintro rfl
        rcases Patterns.eq_or_mem_of_redirect goes with ⟨own, none⟩ | ⟨member, -⟩
        · exact none _ there (own ▸ matched)
        · rw [Dir.mem_names, ih] at member
          cases member

/-- Two tasks of which one, as a word, matches the file of the other: whichever is listed
first makes the difference. -/
theorem not_sameFiles {y : ListedTask} (env : Env) (csv : Cpu → File) (solid : x.OneWord)
    (solidY : y.OneWord) (listed : x ∈ tasks) (listedY : y ∈ tasks)
    (matched : env.matchesName x.file y.file) (other : y.file ≠ x.file) :
    ¬ SameFiles env csv tasks := by
  intro sameFiles
  have first (z : ListedTask) (member : z ∈ tasks) (w : ListedTask) :
      w ∈ z :: tasks ↔ w ∈ tasks := by
    rw [List.mem_cons]
    exact or_iff_right_of_imp (· ▸ member)
  have front {z : ListedTask} (word : z.OneWord) :
      taskEntries env (z :: tasks) = z.line :: taskEntries env tasks := by
    rw [← List.singleton_append, taskEntries_append, taskEntries_singleton env word]
    rfl
  have same := (sameFiles .new .new _ _ (first x listed) (first y listedY)).1
  rw [splitEventIntoPertask_listing, splitEventIntoPertask_listing, front solid, front solidY]
    at same
  have present := @isSome_get_writers_cons env.toPatterns x.line (taskEntries env tasks)
  rw [entryFile_line] at present
  have absent : (writers env.toPatterns (y.line :: taskEntries env tasks)).get x.file = none := by
    apply get_writers_eq_none <;> rw [entryFile_line]
    · exact matched
    · exact other
  have both := congrArg (fun d => (d.get x.file).isSome) same
  simp only [Dir.get_mapValues, Option.isSome_map, present, absent] at both
  cases both

/-- The order and the repetitions of the list make no difference when no entry, as a word,
matches the file of another one; for names of one word only then. -/
theorem sameFiles_iff (env : Env) (csv : Cpu → File) (tasks : List ListedTask) :
    (NoClash env.toPatterns (taskEntries env tasks) → SameFiles env csv tasks) ∧
      ((∀ x ∈ tasks, x.OneWord) → (SameFiles env csv tasks ↔
        ∀ x ∈ tasks, ∀ y ∈ tasks, env.matchesName x.file y.file → y.file = x.file)) := by
  refine ⟨sameFiles_of_noClash csv, fun solid => ⟨fun sameFiles x listed y listedY matched => ?_,
    fun apart => sameFiles_of_noClash csv ?_⟩⟩
  · by_contra other
    exact not_sameFiles env csv (solid x listed) (solid y listedY) listed listedY matched other
      sameFiles
  · rw [taskEntries_of_oneWord env solid]
    intro entry member other inList
    obtain ⟨x, listed, rfl⟩ := List.mem_map.mp member
    obtain ⟨y, listedY, rfl⟩ := List.mem_map.mp inList
    rw [entryFile_line, entryFile_line]
    exact apart x listed y listedY

/-! ## A name with a star -/

/-- Two threads leave their CPUs: `cab` at 1 s and `c*` at 2 s, both of pid 9. -/
def starredThreads : Cpu → List SwitchEvent
  | .cpu0 => [(switchEvent ⟨⟨"cab".toList, by decide, by decide⟩, 9⟩ taskB 1).toSwitchEvent]
  | .cpu1 => [(switchEvent ⟨⟨"c*".toList, by decide, by decide⟩, 9⟩ taskB 2).toSwitchEvent]
  | _ => []

/-- The entries of the two threads. -/
def cabTask : ListedTask := ⟨"cab".toList, 9, by decide⟩

def starTask : ListedTask := ⟨"c*".toList, 9, by decide⟩

/-- The entry of a third thread, which `c*` does not match. -/
def dotTask : ListedTask := ⟨"a.c".toList, 9, by decide⟩

/-- Two lists of `c*` and `a.c`, one of which repeats `c*` and starts with `a.c`. -/
theorem sameFiles_repeated :
    let once := splitEventIntoPertask (.small false)
      (Output.new.listing (csvsOf (linesOf starredThreads)) [starTask, dotTask])
    (splitEventIntoPertask (.small false) (once.listing (csvsOf (linesOf starredThreads))
      [dotTask, starTask, starTask])).pertask = once.pertask := by
  intro once
  have solid : ∀ x ∈ [starTask, dotTask], x.OneWord := by decide
  have sameFiles := ((sameFiles_iff (.small false) (csvsOf (linesOf starredThreads))
    [starTask, dotTask]).2 solid).mpr (by decide)
  refine (sameFiles once .new _ _ (fun x => ?_) fun x => Iff.rfl).1
  simp only [List.mem_cons, List.not_mem_nil, or_false]
  constructor
  · rintro (dot | star | star)
    · exact Or.inr dot
    · exact Or.inl star
    · exact Or.inl star
  · rintro (star | dot)
    · exact Or.inr (Or.inl star)
    · exact Or.inl dot

/-- When `cab` is listed first, the redirect of `c*` goes to `cab.9`. -/
theorem sameFiles_fail :
    ¬ ∀ (env : Env) (csv : Cpu → File) (tasks : List ListedTask), SameFiles env csv tasks := by
  intro all
  have listed : starTask ∈ [cabTask, starTask] := List.mem_cons_of_mem _ List.mem_cons_self
  apply not_sameFiles (.small false) (csvsOf (linesOf starredThreads)) _ _ listed
    List.mem_cons_self _ _ (all _ _ [cabTask, starTask])
  all_goals decide

/-! ## What the search selects -/

/-- The joined columns of two parts of a row. -/
theorem intercalate_append {sep : Text} {front back : List Text} (left : front ≠ [])
    (right : back ≠ []) :
    sep.intercalate (front ++ back) = sep.intercalate front ++ (sep ++ sep.intercalate back) := by
  induction front with
  | nil => exact absurd rfl left
  | cons first front ih =>
      rw [List.cons_append, List.intercalate_cons_of_ne_nil (by simp [right])]
      by_cases more : front = []
      · subst more
        simp [List.intercalate]
      · rw [ih more, List.intercalate_cons_of_ne_nil more]
        simp only [List.append_assoc]

/-- The text of the search stands in a row exactly when name and pid are two adjacent
columns between further ones. -/
theorem taskPattern_infix_iff {name pid row : Text} (nameSolid : ',' ∉ name)
    (pidSolid : ',' ∉ pid) :
    taskPattern name pid <:+: row ↔
      ∃ front back, front ≠ [] ∧ back ≠ [] ∧ row.splitOn ',' = front ++ name :: pid :: back := by
  constructor
  · intro inside
    obtain ⟨before, after, rfl⟩ := inside
    refine ⟨before.splitOn ',', after.splitOn ',', List.splitOn_ne_nil _ _, List.splitOn_ne_nil _ _,
      ?_⟩
    have shape : before ++ taskPattern name pid ++ after =
        before ++ ',' :: (name ++ ',' :: (pid ++ ',' :: after)) := by
      simp [taskPattern]
    rw [shape, splitOn_append_cons, splitOn_append_cons, splitOn_append_cons,
      splitOn_eq_singleton_iff.mpr nameSolid, splitOn_eq_singleton_iff.mpr pidSolid]
    rfl
  · intro columns
    obtain ⟨front, back, left, right, split⟩ := columns
    have joined : row = [','].intercalate front ++ taskPattern name pid ++
        [','].intercalate back := by
      have whole : [','].intercalate (row.splitOn ',') = row := List.intercalate_splitOn ','
      rw [← whole, split, intercalate_append left (by simp),
        List.intercalate_cons_of_ne_nil (by simp), List.intercalate_cons_of_ne_nil right]
      simp [taskPattern]
    rw [joined]
    exact List.infix_append _ _ _

/-- Two columns in front of the last one are adjacent columns between further ones. -/
theorem columns_of_arrayField {row name pid : Text} {k : Nat} (first : 0 < k)
    (inside : k + 2 < (row.splitOn ',').length) (atName : arrayField k row = name)
    (atPid : arrayField (k + 1) row = pid) :
    ∃ front back, front ≠ [] ∧ back ≠ [] ∧ row.splitOn ',' = front ++ name :: pid :: back := by
  have nameThere : k < (row.splitOn ',').length := by omega
  have pidThere : k + 1 < (row.splitOn ',').length := by omega
  refine ⟨(row.splitOn ',').take k, (row.splitOn ',').drop (k + 2), ?_, ?_, ?_⟩
  · rw [← List.length_pos_iff, List.length_take]
    omega
  · rw [← List.length_pos_iff, List.length_drop]
    omega
  · rw [arrayField, List.getD_eq_getElem?_getD, List.getElem?_eq_getElem nameThere,
      Option.getD_some] at atName
    rw [arrayField, List.getD_eq_getElem?_getD, List.getElem?_eq_getElem pidThere,
      Option.getD_some] at atPid
    rw [← atName, ← atPid, List.getElem_cons_drop pidThere, List.getElem_cons_drop nameThere,
      List.take_append_drop]

/-- A name with a character that starts a repetition, a set or an escape. -/
def ListedTask.Special (x : ListedTask) : Prop := ∃ c ∈ x.name, c = '*' ∨ c = '[' ∨ c = '\\'

instance : DecidablePred ListedTask.Special := fun x =>
  List.decidableBEx (fun c => c = '*' ∨ c = '[' ∨ c = '\\') x.name

/-- A name without them is found in each of its rows. -/
theorem selects_of_inRow (p : Patterns) (plain : ¬ x.Special) {row : Text}
    (wide : 8 ≤ (row.splitOn ',').length) (own : x.InRow row) : x.Selects p row := by
  apply p.selects_taskPattern
  · intro c member
    refine ⟨?_, ?_, ?_⟩ <;> rintro rfl <;> exact plain ⟨_, member, by decide⟩
  · rw [taskPattern_infix_iff x.comma_not_mem (FixedEvent.comma_not_mem_decimal x.pid)]
    rcases own with ⟨name, pid⟩ | ⟨name, pid⟩
    · exact columns_of_arrayField (by decide) (by omega) name pid
    · exact columns_of_arrayField (by decide) (by omega) name pid

/-- The time in the first column of a row. -/
def rowTime (row : Text) : ℚ := (leadingNumber (arrayField 0 row)).value

theorem leadingNumber_row (row : Text) : leadingNumber row = leadingNumber (arrayField 0 row) := by
  by_cases comma : ',' ∈ row
  · obtain ⟨first, rest, rfl, solid⟩ := List.eq_append_cons_of_mem comma
    rw [leadingNumber_append_comma, arrayField, splitOn_append_cons,
      splitOn_eq_singleton_iff.mpr solid]
    rfl
  · rw [arrayField, splitOn_eq_singleton_iff.mpr comma]
    rfl

/-- The file of a task holds exactly the rows of the task, each once, in time order. -/
def ExactRows (env : Env) (o : Output) (csv : Cpu → File) (tasks : List ListedTask)
    (x : ListedTask) : Prop :=
  ∃ rows, (splitEventIntoPertask env (o.listing csv tasks)).pertask.get x.file = some rows ∧
    rows.Perm ((fileList.flatMap csv).filter fun row => x.InRow row) ∧
    rows.Pairwise fun a b => rowTime a ≤ rowTime b

/-- `sort -n` puts rows in the order of their times. -/
theorem entryRows_pairwise (p : Patterns) (csv : Cpu → File) (entry : Text) :
    (entryRows p csv entry).Pairwise fun a b => rowTime a ≤ rowTime b := by
  refine (sortBy_pairwise numericKey _).imp fun {a b} le => ?_
  rw [numericKey, numericKey, leadingNumber_row a, leadingNumber_row b] at le
  exact (Prod.Lex.toLex_le_toLex'.mp le).1

theorem entryRows_perm (p : Patterns) (csv : Cpu → File) (entry : Text) :
    (entryRows p csv entry).Perm
      ((fileList.flatMap csv).filter (p.selects (entryPattern entry))) := by
  rw [List.filter_flatMap]
  exact sortBy_perm _ _

/-- Two selections from one list agree exactly when they agree on its items. -/
theorem filter_perm_filter_iff {α : Type} {p q : α → Bool} {list : List α} :
    (list.filter p).Perm (list.filter q) ↔ ∀ a ∈ list, p a ↔ q a := by
  constructor
  · intro perm a member
    have both := perm.mem_iff (a := a)
    simpa [member] using both
  · intro agree
    rw [List.filter_congr fun a member => Bool.eq_iff_iff.mpr (agree a member)]

/-- The file of a task is exact when the entry that was written to it last selects the
rows of the task. -/
theorem exactRows_of_writer (o : Output) (csv : Cpu → File) {writer : Text}
    (stored : (writers env.toPatterns (taskEntries env tasks)).get x.file = some writer) :
    ExactRows env o csv tasks x ↔
      ∀ cpu, ∀ row ∈ csv cpu, env.selects (entryPattern writer) row ↔ x.InRow row := by
  have agree : (∀ cpu, ∀ row ∈ csv cpu, env.selects (entryPattern writer) row ↔ x.InRow row) ↔
      (entryRows env.toPatterns csv writer).Perm
        ((fileList.flatMap csv).filter fun row => x.InRow row) := by
    rw [((entryRows_perm env.toPatterns csv writer).congr_left _), filter_perm_filter_iff]
    simp only [List.mem_flatMap, mem_fileList, true_and, decide_eq_true_eq]
    constructor
    · rintro all row ⟨cpu, inCsv⟩
      exact all cpu row inCsv
    · intro all cpu row inCsv
      exact all row ⟨cpu, inCsv⟩
  rw [ExactRows, splitEventIntoPertask_listing, Dir.get_mapValues, stored, Option.map_some, agree]
  constructor
  · rintro ⟨rows, same, perm, -⟩
    exact Option.some.inj same ▸ perm
  · intro perm
    exact ⟨_, rfl, perm, entryRows_pairwise env.toPatterns csv _⟩

theorem not_exactRows_of_no_writer (o : Output) (csv : Cpu → File)
    (absent : (writers env.toPatterns (taskEntries env tasks)).get x.file = none) :
    ¬ ExactRows env o csv tasks x := by
  rintro ⟨rows, stored, -⟩
  rw [splitEventIntoPertask_listing, Dir.get_mapValues, absent] at stored
  cases stored

/-- The file of a task that is alone is exact when its name is one word and the search for
the task agrees with the columns on every row. -/
theorem exactRows_iff_selects (o : Output) (csv : Cpu → File) (listed : x ∈ tasks)
    (alone : Alone env.toPatterns (taskEntries env tasks) x.file) :
    ExactRows env o csv tasks x ↔ x.OneWord ∧
      ∀ cpu, ∀ row ∈ csv cpu, x.Selects env.toPatterns row ↔ x.InRow row := by
  by_cases solid : x.OneWord
  · obtain ⟨writer, stored, same⟩ := alone.exists_writer solid listed
    rw [exactRows_of_writer o csv stored, same, entryPattern_line, and_iff_right solid]
    rfl
  · refine iff_of_false (not_exactRows_of_no_writer o csv ?_) fun both => solid both.1
    rw [Option.eq_none_iff_forall_ne_some]
    exact fun writer stored => solid (oneWord_of_get_writers stored)

/-- On the csv files of any events: the file of a listed task is exact when and only when
the entry that was written to it last selects the rows of the task and no others. If no
word of another entry matches the file, nor the file's word another one, that is: the name
is one word, the search selects no row of other tasks, and, if the name has a star, a
bracket or a backslash, misses none of its own. -/
theorem exactRows_iff (env : Env) (o : Output) (events : Cpu → List SwitchEvent)
    (tasks : List ListedTask) (x : ListedTask) (listed : x ∈ tasks) :
    (ExactRows env o (csvsOf (linesOf events)) tasks x ↔
      ∃ writer, (writers env.toPatterns (taskEntries env tasks)).get x.file = some writer ∧
        ∀ cpu, ∀ e ∈ events cpu, env.selects (entryPattern writer) e.csvRow ↔ x.InRow e.csvRow) ∧
    (Alone env.toPatterns (taskEntries env tasks) x.file →
      (ExactRows env o (csvsOf (linesOf events)) tasks x ↔ x.OneWord ∧
        (∀ cpu, ∀ e ∈ events cpu, ¬ x.InRow e.csvRow → ¬ x.Selects env.toPatterns e.csvRow) ∧
        (x.Special →
          ∀ cpu, ∀ e ∈ events cpu, x.InRow e.csvRow → x.Selects env.toPatterns e.csvRow))) := by
  refine ⟨?_, fun alone => ?_⟩
  · cases stored : (writers env.toPatterns (taskEntries env tasks)).get x.file with
    | none =>
        refine iff_of_false (not_exactRows_of_no_writer o _ stored) ?_
        rintro ⟨writer, there, -⟩
        cases there
    | some writer =>
        rw [exactRows_of_writer o _ stored]
        simp only [SwitchEvent.csvsOf_linesOf, List.forall_mem_map, Option.some.injEq,
          exists_eq_left']
  · rw [exactRows_iff_selects o _ listed alone]
    simp only [SwitchEvent.csvsOf_linesOf, List.forall_mem_map]
    refine and_congr_right fun _ => ⟨fun agree => ⟨fun cpu e member => ?_,
      fun _ cpu e member => ?_⟩, fun conditions cpu e member => ?_⟩
    · exact mt (agree cpu e member).mp
    · exact (agree cpu e member).mpr
    · obtain ⟨noForeign, noMissed⟩ := conditions
      refine ⟨fun selected => by_contra fun foreign => noForeign cpu e member foreign selected, ?_⟩
      by_cases special : x.Special
      · exact noMissed special cpu e member
      · exact selects_of_inRow env.toPatterns special e.le_length_splitOn_csvRow

/-! ## A name with a dot -/

/-- A thread named `a.c` that is renamed to `axc` before its second run. -/
def renamedThread : Cpu → List SwitchEvent
  | .cpu0 =>
      [(switchEvent ⟨⟨"a.c".toList, by decide, by decide⟩, 9⟩ taskB 1).toSwitchEvent,
        (switchEvent ⟨⟨"axc".toList, by decide, by decide⟩, 9⟩ taskB 3).toSwitchEvent]
  | _ => []

/-- The entry of the second name. -/
def renamedTask : ListedTask := ⟨"axc".toList, 9, by decide⟩

theorem plainList_renamed : PlainList [dotTask, renamedTask] := by decide

/-- The file of a task whose name has no pattern character. -/
theorem exactRows_plainName :
    ExactRows (.small false) .new (csvsOf (linesOf renamedThread)) [dotTask, renamedTask]
      renamedTask := by
  have listed : renamedTask ∈ [dotTask, renamedTask] :=
    List.mem_cons_of_mem _ List.mem_cons_self
  have word := line_mem_taskEntries (.small false) (by decide : renamedTask.OneWord) listed
  have alone := plainList_renamed.noClash.alone word
  rw [entryFile_line] at alone
  refine ((exactRows_iff (.small false) .new renamedThread _ _ listed).2 alone).mpr
    ⟨by decide, fun cpu e member => ?_, fun special => absurd special (by decide)⟩
  cases cpu with
  | cpu0 =>
      rcases List.mem_cons.mp member with rfl | second
      · rw [FixedEvent.csvRow_eq]
        decide
      · obtain rfl := List.mem_singleton.mp second
        rw [FixedEvent.csvRow_eq]
        decide
  | _ => exact absurd member List.not_mem_nil

/-- The dot of `a.c` stands for any character: the file of `a.c` also gets the row of
`axc`. -/
theorem exactRows_fail :
    ¬ ∀ (env : Env) (o : Output) (events : Cpu → List SwitchEvent) (tasks : List ListedTask)
      (x : ListedTask), x ∈ tasks → ExactRows env o (csvsOf (linesOf events)) tasks x := by
  intro all
  have listed : dotTask ∈ [dotTask, renamedTask] := List.mem_cons_self
  have exact := all (.small false) .new renamedThread _ dotTask listed
  have word := line_mem_taskEntries (.small false) (by decide : dotTask.OneWord) listed
  have alone := plainList_renamed.noClash.alone word
  rw [entryFile_line] at alone
  obtain ⟨-, agree⟩ := (exactRows_iff_selects _ _ listed alone).mp exact
  have second := agree .cpu0 (switchEvent ⟨⟨"axc".toList, by decide, by decide⟩, 9⟩ taskB 3).csvRow
    (by
      rw [SwitchEvent.csvsOf_linesOf]
      exact List.mem_cons_of_mem _ List.mem_cons_self)
  rw [FixedEvent.csvRow_eq] at second
  exact absurd (second.mp (by decide)) (by decide)

end StudyLinux
