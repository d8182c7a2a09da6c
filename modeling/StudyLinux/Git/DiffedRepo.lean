import StudyLinux.System.Shell

/-!
# The loop over the directories of a directory

sh.sh enters each directory that `ls -d */` lists, asks git for a diff there and goes up
again. The names are split into words, and the step up comes behind a failed step down
too. `script_iff` says when every directory gets its own diff.
-/

namespace StudyLinux

namespace Git

/-! ## The script -/

/-- What `ls -d */` prints of the directories. -/
def lsOutput (entries : List Text) : Text := entries.flatMap fun entry => entry ++ ['/', '\n']

/-- Where an iteration starts, where it runs `git diff`, and what it echoes. -/
structure Iteration where
  started : DirPath
  diffed : DirPath
  echoed : Option Text

section Script

variable (sh : Shell) (gitDiff : DirPath → Text)

/-- `git diff` prints something in a directory. -/
def changed (dir : DirPath) : Bool := commandOutput (gitDiff dir) ≠ []

/-- One iteration, and the place it leaves the script at. -/
def iteration (place : Place) (i : Text) : Iteration × Place :=
  let inside := sh.cd place (sh.shellWords place.cwd i)
  let val := commandOutput (gitDiff inside.cwd)
  let echoed := if val ≠ [] then some (sh.echo (sh.shellWords inside.cwd i)) else none
  (⟨place.cwd, inside.cwd, echoed⟩, sh.cd inside [['.', '.']])

/-- The iterations for the words of the list. -/
def iterations : Place → List Text → List Iteration
  | _, [] => []
  | place, i :: rest =>
      (iteration sh gitDiff place i).1 :: iterations (iteration sh gitDiff place i).2 rest

/-- The script, in a directory with the listed ones. -/
def script (place : Place) (entries : List Text) : List Iteration :=
  iterations sh gitDiff place (sh.shellWords place.cwd (commandOutput (lsOutput entries)))

/-! ## Names and words -/

/-- The words that a listed directory is turned into. -/
def entryWords (cwd : DirPath) (entry : Text) : List Text := sh.shellWords cwd (entry ++ ['/'])

/-- A listed directory that the unquoted uses of its name lead to: the name is one word,
`cd` enters the directory with it, and `echo` prints it as it is if there is a diff. -/
def Reached (start : DirPath) (entry : Text) : Prop :=
  ∃ word, entryWords sh start entry = [word] ∧
    (sh.cd ⟨start, none⟩ (sh.shellWords start word)).cwd = start ++ [entry] ∧
    (changed gitDiff (start ++ [entry]) →
      sh.echo (sh.shellWords (start ++ [entry]) word) = entry ++ ['/', '\n'])

variable {sh gitDiff}

theorem words_lsOutput (entries : List Text) :
    words (lsOutput entries) = entries.flatMap fun entry => words (entry ++ ['/']) := by
  unfold lsOutput words
  induction entries with
  | nil => exact wordsBy_nil
  | cons entry entries ih =>
      rw [List.flatMap_cons, List.flatMap_cons, ← ih, ← wordsBy_append_cons (c := '\n') (by decide),
        List.append_assoc, List.append_assoc]
      rfl

theorem shellWords_lsOutput (cwd : DirPath) (entries : List Text) :
    sh.shellWords cwd (commandOutput (lsOutput entries)) =
      entries.flatMap (entryWords sh cwd) := by
  unfold Shell.shellWords
  rw [words_commandOutput, words_lsOutput, List.flatMap_assoc]
  rfl

theorem entryWords_ne_nil (cwd : DirPath) (entry : Text) : entryWords sh cwd entry ≠ [] := by
  obtain ⟨front, last, split⟩ := sh.shellWords_slash cwd entry
  unfold entryWords
  rw [split]
  exact List.append_ne_nil_of_right_ne_nil _ (List.cons_ne_nil _ _)

theorem length_iterations (place : Place) (list : List Text) :
    (iterations sh gitDiff place list).length = list.length := by
  induction list generalizing place with
  | nil => rfl
  | cons i rest ih => rw [iterations, List.length_cons, ih, List.length_cons]

/-- Names that are a word or more each are one word each when there are as many words. -/
theorem eq_singleton_of_length {α β : Type} {f : α → List β} {list : List α}
    (full : ∀ a, f a ≠ []) (same : (list.flatMap f).length = list.length) :
    ∀ a ∈ list, ∃ b, f a = [b] := by
  have least (list : List α) : list.length ≤ (list.flatMap f).length := by
    induction list with
    | nil => exact Nat.zero_le _
    | cons a list ih =>
        have first := List.length_pos_iff.mpr (full a)
        rw [List.flatMap_cons, List.length_append, List.length_cons]
        omega
  induction list with
  | nil => exact fun a mem => absurd mem List.not_mem_nil
  | cons a list ih =>
      rw [List.flatMap_cons, List.length_append, List.length_cons] at same
      have first := List.length_pos_iff.mpr (full a)
      have rest := least list
      refine List.forall_mem_cons.mpr ⟨List.length_eq_one_iff.mp ?_, ih ?_⟩
      · omega
      · omega

/-! ## Each directory in its place -/

/-- Each listed directory gets one iteration, which starts where the script does and runs
`git diff` in the directory. Echoed are the names of the directories that can be entered
and have a diff. -/
def EachInPlace (sh : Shell) (gitDiff : DirPath → Text) (start : DirPath) (entries : List Text)
    (done : List Iteration) : Prop :=
  (done.map fun it => (it.started, it.diffed)) = (entries.map fun e => (start, start ++ [e])) ∧
  done.filterMap Iteration.echoed =
    (entries.filter fun e => sh.enterable (start ++ [e]) && changed gitDiff (start ++ [e])).map
      fun e => e ++ ['/', '\n']

/-- A word of a listed directory is not the operand of `cd -`. -/
theorem cd_entryWord {start : DirPath} {entry word : Text}
    (one : entryWords sh start entry = [word]) (oldpwd : Option DirPath) :
    (sh.cd ⟨start, oldpwd⟩ (sh.shellWords start word)).cwd =
      (sh.cd ⟨start, none⟩ (sh.shellWords start word)).cwd := by
  obtain ⟨front, last, split⟩ := sh.shellWords_slash start entry
  have same : [] ++ [word] = front ++ [last ++ ['/']] := one.symm.trans split
  obtain rfl := List.singleton_inj.mp (List.append_inj' same rfl).2
  obtain ⟨front', last', split'⟩ := sh.shellWords_slash start last
  refine Shell.cd_cwd_congr (fun dash => ?_) start _ _
  have dashed : front' ++ [last' ++ ['/']] = [] ++ [['-']] := split'.symm.trans dash
  have final : last' ++ ['/'] = [] ++ ['-'] :=
    List.singleton_inj.mp (List.append_inj' dashed rfl).2
  cases (List.append_inj' final rfl).2

/-- An iteration in a directory that it has entered. -/
theorem iteration_of_entered (gitDiff : DirPath → Text) {place : Place} {word entry : Text}
    (entered : (sh.cd place (sh.shellWords place.cwd word)).cwd = place.cwd ++ [entry]) :
    sh.enterable (place.cwd ++ [entry]) ∧
      (iteration sh gitDiff place word).1 = ⟨place.cwd, place.cwd ++ [entry],
        if changed gitDiff (place.cwd ++ [entry]) then
          some (sh.echo (sh.shellWords (place.cwd ++ [entry]) word)) else none⟩ ∧
      (iteration sh gitDiff place word).2.cwd = place.cwd := by
  have inside : sh.enterable (place.cwd ++ [entry]) := by
    rcases sh.cd_cwd place (sh.shellWords place.cwd word) with stays | inside
    · rw [entered] at stays
      exact absurd stays (by simp)
    · rwa [entered] at inside
  refine ⟨inside, ?_, ?_⟩
  · unfold iteration changed
    dsimp only
    rw [entered]
    simp only [decide_eq_true_iff]
  · unfold iteration
    dsimp only
    generalize sh.cd place (sh.shellWords place.cwd word) = at_entry at entered ⊢
    obtain ⟨cwd, oldpwd⟩ := at_entry
    obtain rfl : cwd = place.cwd ++ [entry] := entered
    exact Shell.cd_up inside oldpwd

theorem eachInPlace_cons_iff {start : DirPath} {entry : Text} {entries : List Text}
    {printed : Text} {rest : List Iteration} (inside : sh.enterable (start ++ [entry])) :
    EachInPlace sh gitDiff start (entry :: entries)
      (⟨start, start ++ [entry], if changed gitDiff (start ++ [entry]) then some printed else none⟩
        :: rest) ↔
      (changed gitDiff (start ++ [entry]) → printed = entry ++ ['/', '\n']) ∧
        EachInPlace sh gitDiff start entries rest := by
  unfold EachInPlace
  rw [List.map_cons, List.map_cons, List.cons_inj_right, List.filter_cons, inside, Bool.true_and]
  by_cases differs : changed gitDiff (start ++ [entry])
  · rw [if_pos differs, if_pos differs, List.filterMap_cons, List.map_cons, List.cons_eq_cons]
    constructor
    · exact fun both => ⟨fun _ => both.2.1, both.1, both.2.2⟩
    · exact fun both => ⟨both.2.1, both.1 differs, both.2.2⟩
  · rw [if_neg differs, if_neg differs, List.filterMap_cons]
    exact (and_iff_right fun now => absurd now differs).symm

theorem reached_iff {start : DirPath} {entry word : Text}
    (one : entryWords sh start entry = [word]) :
    Reached sh gitDiff start entry ↔
      (sh.cd ⟨start, none⟩ (sh.shellWords start word)).cwd = start ++ [entry] ∧
        (changed gitDiff (start ++ [entry]) →
          sh.echo (sh.shellWords (start ++ [entry]) word) = entry ++ ['/', '\n']) := by
  constructor
  · intro reached
    rcases reached with ⟨other, same, reached⟩
    obtain rfl := List.singleton_inj.mp (one.symm.trans same)
    exact reached
  · exact fun reached => ⟨word, one, reached⟩

/-- With a word for each name every iteration is in its place exactly when the words
lead to the directories. -/
theorem iterations_iff {start : DirPath} {entries : List Text}
    (single : ∀ entry ∈ entries, ∃ word, entryWords sh start entry = [word]) (place : Place)
    (here : place.cwd = start) :
    EachInPlace sh gitDiff start entries
        (iterations sh gitDiff place (entries.flatMap (entryWords sh start))) ↔
      ∀ entry ∈ entries, Reached sh gitDiff start entry := by
  induction entries generalizing place with
  | nil => exact iff_of_true ⟨rfl, rfl⟩ fun entry mem => absurd mem List.not_mem_nil
  | cons entry entries ih =>
      subst here
      obtain ⟨⟨word, one⟩, later⟩ := List.forall_mem_cons.mp single
      rw [List.flatMap_cons, one, List.singleton_append, iterations, List.forall_mem_cons,
        reached_iff one, ← cd_entryWord one place.oldpwd]
      by_cases entered :
          (sh.cd place (sh.shellWords place.cwd word)).cwd = place.cwd ++ [entry]
      · obtain ⟨inside, made, back⟩ := iteration_of_entered gitDiff entered
        rw [made, eachInPlace_cons_iff inside, ih later _ back, and_assoc, and_iff_right entered]
      · refine iff_of_false (fun each => entered ?_) fun both => entered both.1.1
        exact congrArg Prod.snd (List.cons_eq_cons.mp each.1).1

/-- Every directory has an iteration of its own that runs `git diff` in it and starts where
the script does, and the directories with a diff are the ones that are echoed, exactly
when the unquoted uses of each listed name lead to its directory. -/
theorem script_iff (sh : Shell) (gitDiff : DirPath → Text) (place : Place) (entries : List Text) :
    EachInPlace sh gitDiff place.cwd entries (script sh gitDiff place entries) ↔
      ∀ entry ∈ entries, Reached sh gitDiff place.cwd entry := by
  unfold script
  rw [shellWords_lsOutput]
  by_cases single : ∀ entry ∈ entries, ∃ word, entryWords sh place.cwd entry = [word]
  · exact iterations_iff single place rfl
  · refine iff_of_false (fun each => single ?_) fun reached => single fun entry mem => ?_
    · have lengths := congrArg List.length each.1
      rw [List.length_map, length_iterations, List.length_map] at lengths
      exact eq_singleton_of_length (entryWords_ne_nil place.cwd) lengths
    · obtain ⟨word, one, -⟩ := reached entry mem
      exact ⟨word, one⟩

/-- A plain name leads to its directory when the directory can be entered. -/
theorem reached_iff_of_plain {entry : Text} (plain : Shell.PlainName entry) (start : DirPath) :
    Reached sh gitDiff start entry ↔ sh.enterable (start ++ [entry]) := by
  have echoed : sh.echo (sh.shellWords (start ++ [entry]) (entry ++ ['/'])) =
      entry ++ ['/', '\n'] := by
    rw [plain.shellWords, sh.echo_word plain.head_slash.1, List.append_assoc]
    rfl
  rw [reached_iff (plain.shellWords start), plain.shellWords, Shell.cd_of_path plain.head_slash.1,
    Shell.goTo_cwd, plain.resolve, and_iff_left fun _ => echoed]
  by_cases inside : sh.enterable (start ++ [entry])
  · exact iff_of_true (if_pos inside) inside
  · rw [if_neg inside]
    exact iff_of_false (by simp) inside

/-- With plain names it is the failed steps down that matter, and they alone. -/
theorem script_iff_of_plain (place : Place) {entries : List Text}
    (plain : ∀ entry ∈ entries, Shell.PlainName entry) :
    EachInPlace sh gitDiff place.cwd entries (script sh gitDiff place entries) ↔
      ∀ entry ∈ entries, sh.enterable (place.cwd ++ [entry]) := by
  unfold script
  rw [shellWords_lsOutput, iterations_iff (fun entry mem => ⟨_, (plain entry mem).shellWords _⟩)
    place rfl]
  exact forall₂_congr fun entry mem => reached_iff_of_plain (plain entry mem) place.cwd

end Script

/-! ## A directory that cannot be entered -/

/-- A machine where nobody may enter `/w/a`. -/
def lockedShell : Shell where
  expand _ word := [word]
  expand_ne_nil _ word := List.cons_ne_nil word []
  expand_plain _ _ _ := rfl
  expand_slash _ word name mem := ⟨word, List.mem_singleton.mp mem⟩
  enterable path := !(["w".toList, "a".toList].isPrefixOf path)
  enterable_of_child {path name} inside := by
    rw [Bool.not_eq_true'] at inside ⊢
    rw [← Bool.not_eq_true, List.isPrefixOf_iff_prefix] at inside ⊢
    exact fun front => inside (front.trans (List.prefix_append _ _))
  home := []
  echo args := [' '].intercalate args ++ ['\n']
  echo_word _ := congrArg (· ++ ['\n']) (List.intercalate_singleton ..)

/-- `git diff` runs in `/w` for `a`, and `b` is looked for in `/`. -/
theorem script_fail :
    ¬ ∀ sh gitDiff place entries,
      EachInPlace sh gitDiff place.cwd entries (script sh gitDiff place entries) := by
  intro all
  have plain : ∀ entry ∈ ["a".toList, "b".toList], Shell.PlainName entry := by
    refine List.forall_mem_cons.mpr ⟨?_, List.forall_mem_cons.mpr ⟨?_, by simp⟩⟩
    · exact ⟨by decide, by decide, by decide, by decide, by decide⟩
    · exact ⟨by decide, by decide, by decide, by decide, by decide⟩
  have each := all lockedShell (fun _ => []) ⟨["w".toList], none⟩ ["a".toList, "b".toList]
  have inside := (script_iff_of_plain _ plain).mp each "a".toList List.mem_cons_self
  exact absurd inside (by decide)

end Git

end StudyLinux
