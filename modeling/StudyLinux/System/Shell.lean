import Mathlib.Data.List.DropRight
import StudyLinux.Text.Filter

/-!
# Words and working directories of a shell

A value that is used without quotes is split at blanks, and every word of it is expanded
to the names it matches. `Shell` has what a script meets on its machine, `cd` changes the
place it is at. A `cd` that fails stays where it is, and `cd ..` behind it goes up
nevertheless.
-/

namespace StudyLinux

/-- The names of the directories from the root on. -/
abbrev DirPath := List Text

/-! ## Words -/

/-- The output of a command in backquotes. Newlines at its end are left out. -/
def commandOutput (output : Text) : Text := output.rdropWhile (· = '\n')

theorem words_commandOutput (output : Text) : words (commandOutput output) = words output := by
  unfold commandOutput
  induction output using List.reverseRecOn with
  | nil => rfl
  | append_singleton output c ih =>
      rw [List.rdropWhile_concat]
      split
      · rename_i newline
        rw [ih, of_decide_eq_true newline]
        exact (wordsBy_append_replicate (c := '\n') (by decide) output 1).symm
      · rfl

/-- The last word of a value ends as the value does. -/
theorem words_append_solid {tail : Text} (solid : ∀ c ∈ tail, isBlank c = false) (full : tail ≠ [])
    (text : Text) : ∃ front last, words (text ++ tail) = front ++ [last ++ tail] := by
  unfold words
  induction text using List.reverseRecOn generalizing tail with
  | nil => exact ⟨[], [], wordsBy_eq_singleton solid full⟩
  | append_singleton text c ih =>
      rw [List.append_assoc, List.singleton_append]
      by_cases blank : isBlank c
      · refine ⟨words text, [], ?_⟩
        rw [wordsBy_append_cons blank, wordsBy_eq_singleton solid full]
        rfl
      · have longer : ∀ d ∈ c :: tail, isBlank d = false :=
          List.forall_mem_cons.mpr ⟨Bool.eq_false_iff.mpr blank, solid⟩
        obtain ⟨front, last, split⟩ := ih longer (List.cons_ne_nil c tail)
        exact ⟨front, last ++ [c], by rw [split, List.append_assoc, List.singleton_append]⟩

/-! ## The machine -/

/-- A character that makes a word a pattern. -/
def isGlob (c : Char) : Bool := c = '*' || c = '?' || c = '[' || c = '\\'

/-- What a script meets: the names that a word matches in a directory, the directories
that can be entered, HOME, and what `echo` prints. -/
structure Shell where
  expand : DirPath → Text → List Text
  /-- A pattern without a match stands for itself. -/
  expand_ne_nil : ∀ cwd word, expand cwd word ≠ []
  expand_plain : ∀ cwd {word}, (∀ c ∈ word, isGlob c = false) → expand cwd word = [word]
  /-- A pattern with a slash at its end matches directories only. -/
  expand_slash : ∀ cwd word, ∀ name ∈ expand cwd (word ++ ['/']), ∃ front, name = front ++ ['/']
  enterable : DirPath → Bool
  /-- A directory is entered through the one it is in. -/
  enterable_of_child : ∀ {path name}, enterable (path ++ [name]) → enterable path
  home : DirPath
  echo : List Text → Text
  echo_word : ∀ {word}, word.head? ≠ some '-' → echo [word] = word ++ ['\n']

/-- The working directory, and the one before it. -/
structure Place where
  cwd : DirPath
  oldpwd : Option DirPath

namespace Shell

variable (sh : Shell)

/-- The words that a value without quotes stands for. -/
def shellWords (cwd : DirPath) (text : Text) : List Text := (words text).flatMap (sh.expand cwd)

/-- Where a path leads to. -/
def resolve (cwd : DirPath) (path : Text) : DirPath :=
  (path.splitOn '/').foldl
    (fun dir name =>
      if name = [] ∨ name = ['.'] then dir
      else if name = ['.', '.'] then dir.dropLast
      else dir ++ [name])
    (if path.head? = some '/' then [] else cwd)

/-- Into a directory, if it can be entered. -/
def goTo (place : Place) (path : DirPath) : Place :=
  if sh.enterable path then ⟨path, some place.cwd⟩ else place

/-- The options of `cd`, behind which there is no operand. -/
def isOption (word : Text) : Bool :=
  word = ['-', '-'] || word.tail.all fun c => c = 'L' || c = 'P' || c = 'e' || c = '@'

/-- `cd`. With more than one operand it fails, with none it goes home. -/
def cd (place : Place) (args : List Text) : Place :=
  match args with
  | [] => sh.goTo place sh.home
  | [word] =>
      if word = ['-'] then
        match place.oldpwd with
        | some path => sh.goTo place path
        | none => place
      else if word.head? = some '-' then
        if isOption word then sh.goTo place sh.home else place
      else sh.goTo place (resolve place.cwd word)
  | _ => place

variable {sh}

theorem solid_slash : ∀ c ∈ ['/'], isBlank c = false := by decide

/-- The last word of a value with a slash at its end has one too. -/
theorem shellWords_slash (cwd : DirPath) (text : Text) :
    ∃ front last, sh.shellWords cwd (text ++ ['/']) = front ++ [last ++ ['/']] := by
  obtain ⟨front, last, split⟩ := words_append_solid solid_slash (List.cons_ne_nil _ _) text
  obtain ⟨before, final, names⟩ : ∃ before final,
      sh.expand cwd (last ++ ['/']) = before ++ [final] := by
    rcases List.eq_nil_or_concat (sh.expand cwd (last ++ ['/'])) with none | ⟨before, final, names⟩
    · exact absurd none (sh.expand_ne_nil _ _)
    · exact ⟨before, final, by rw [names, List.concat_eq_append]⟩
  have mem : final ∈ sh.expand cwd (last ++ ['/']) := by
    rw [names]
    exact List.mem_append_right _ (List.mem_singleton_self _)
  obtain ⟨name, rfl⟩ := sh.expand_slash cwd last final mem
  refine ⟨front.flatMap (sh.expand cwd) ++ before, name, ?_⟩
  rw [shellWords, split, List.flatMap_append, List.flatMap_singleton, names, List.append_assoc]

theorem goTo_cwd (place : Place) (path : DirPath) :
    (sh.goTo place path).cwd = if sh.enterable path then path else place.cwd := by
  unfold goTo
  split
  · rfl
  · rfl

/-- `cd` goes nowhere or into a directory that can be entered. -/
theorem cd_cwd (place : Place) (args : List Text) :
    (sh.cd place args).cwd = place.cwd ∨ sh.enterable (sh.cd place args).cwd := by
  have goes (path : DirPath) :
      (sh.goTo place path).cwd = place.cwd ∨ sh.enterable (sh.goTo place path).cwd := by
    rw [goTo_cwd]
    split
    · exact .inr ‹_›
    · exact .inl rfl
  unfold cd
  split
  · exact goes _
  · split
    · split
      · exact goes _
      · exact .inl rfl
    · split
      · split
        · exact goes _
        · exact .inl rfl
      · exact goes _
  · exact .inl rfl

/-- Only `cd -` asks where the shell has been before. -/
theorem cd_cwd_congr {args : List Text} (other : args ≠ [['-']]) (cwd : DirPath)
    (oldpwd oldpwd' : Option DirPath) :
    (sh.cd ⟨cwd, oldpwd⟩ args).cwd = (sh.cd ⟨cwd, oldpwd'⟩ args).cwd := by
  unfold cd
  split
  · rw [goTo_cwd, goTo_cwd]
  · rename_i word
    have named : word ≠ ['-'] := fun same => other (congrArg (fun word => [word]) same)
    rw [if_neg named, if_neg named]
    split
    · split
      · rw [goTo_cwd, goTo_cwd]
      · rfl
    · rw [goTo_cwd, goTo_cwd]
  · rfl

theorem cd_of_path {word : Text} (path : word.head? ≠ some '-') (place : Place) :
    sh.cd place [word] = sh.goTo place (resolve place.cwd word) := by
  have other : word ≠ ['-'] := by
    intro dash
    subst dash
    exact path rfl
  unfold cd
  dsimp only
  rw [if_neg other, if_neg path]

/-- Out of a directory that can be entered. -/
theorem cd_up {path : DirPath} {name : Text} (inside : sh.enterable (path ++ [name]))
    (oldpwd : Option DirPath) :
    (sh.cd ⟨path ++ [name], oldpwd⟩ [['.', '.']]).cwd = path := by
  have up : resolve (path ++ [name]) ['.', '.'] = path := by
    have parent : resolve (path ++ [name]) ['.', '.'] = (path ++ [name]).dropLast := rfl
    rw [parent, List.dropLast_concat]
  rw [cd_of_path (by decide), goTo_cwd, up, if_pos (sh.enterable_of_child inside)]

/-- A name that the shell takes as it is. -/
structure PlainName (name : Text) : Prop where
  full : name ≠ []
  not_dot : name ≠ ['.']
  not_dots : name ≠ ['.', '.']
  no_dash : name.head? ≠ some '-'
  plain : ∀ c ∈ name, c ≠ '/' ∧ isBlank c = false ∧ isGlob c = false

theorem PlainName.head_slash {name : Text} (plain : PlainName name) :
    (name ++ ['/']).head? ≠ some '-' ∧ (name ++ ['/']).head? ≠ some '/' := by
  obtain ⟨c, rest, rfl⟩ := List.exists_cons_of_ne_nil plain.full
  refine ⟨plain.no_dash, fun slash => ?_⟩
  exact (plain.plain c List.mem_cons_self).1 (Option.some.inj slash)

theorem PlainName.resolve {name : Text} (plain : PlainName name) (cwd : DirPath) :
    resolve cwd (name ++ ['/']) = cwd ++ [name] := by
  have solid : '/' ∉ name := fun mem => (plain.plain _ mem).1 rfl
  unfold Shell.resolve
  rw [splitOn_append_cons, splitOn_eq_singleton_iff.mpr solid, if_neg plain.head_slash.2]
  have step : ¬ (name = [] ∨ name = ['.']) := not_or.mpr ⟨plain.full, plain.not_dot⟩
  rw [List.splitOn_nil, List.singleton_append, List.foldl_cons, if_neg step,
    if_neg plain.not_dots, List.foldl_cons, if_pos (.inl rfl), List.foldl_nil]

theorem PlainName.shellWords {name : Text} (plain : PlainName name) (cwd : DirPath) :
    sh.shellWords cwd (name ++ ['/']) = [name ++ ['/']] := by
  have solid : ∀ c ∈ name ++ ['/'], isBlank c = false ∧ isGlob c = false := by
    intro c mem
    rcases List.mem_append.mp mem with inside | slash
    · exact (plain.plain c inside).2
    · rw [List.mem_singleton.mp slash]
      decide
  have one : words (name ++ ['/']) = [name ++ ['/']] :=
    wordsBy_eq_singleton (fun c mem => (solid c mem).1) (by simp)
  unfold Shell.shellWords
  rw [one, List.flatMap_singleton, sh.expand_plain cwd fun c mem => (solid c mem).2]

end Shell

end StudyLinux
