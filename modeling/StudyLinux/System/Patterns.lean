import StudyLinux.System.Shell
import StudyLinux.Text.Grep

/-!
# Pattern characters

What a script gets when a text that it found somewhere else is a pattern for `grep`, or
a word that the shell expands to the names of a directory. Both are parameters, of which
only what their documentation promises is used. A word stands for the names it matches,
and for itself without any; behind `>` it has to stand for one name.
-/

namespace StudyLinux

/-- `grep` selects a line by a pattern, and a word matches a name. -/
structure Patterns where
  selects : Text → Text → Bool
  /-- Without repetitions, sets, escapes and anchors a pattern selects what it occurs in. -/
  selects_of_infix : ∀ {pat line}, (∀ c ∈ pat, c ≠ '*' ∧ c ≠ '[' ∧ c ≠ '\\') →
    pat.head? ≠ some '^' → pat.getLast? ≠ some '$' → pat <:+: line → selects pat line
  /-- A pattern of literal characters selects nothing else. -/
  infix_of_selects : ∀ {pat line}, (∀ c ∈ pat, IsLiteral c) → selects pat line → pat <:+: line
  matchesName : Text → Text → Bool
  matchesName_iff_eq : ∀ {word name}, (∀ c ∈ word, isGlob c = false) →
    (matchesName word name ↔ name = word)
  /-- Without sets and escapes a word matches itself. -/
  matchesName_self : ∀ {word}, (∀ c ∈ word, c ≠ '[' ∧ c ≠ '\\') → matchesName word word
  /-- What is plain at the end of a word is at the end of the names it matches. -/
  suffix_of_matchesName : ∀ {front tail name}, (∀ c ∈ tail, isGlob c = false ∧ c ≠ ']') →
    matchesName (front ++ tail) name → tail <:+ name

/-- The item of a list of one. -/
def single {α : Type} : List α → Option α
  | [a] => some a
  | _ => none

theorem single_congr {α : Type} {list list' : List α} (perm : list.Perm list') :
    single list = single list' := by
  rcases list with _ | ⟨a, _ | ⟨b, rest⟩⟩
  · rw [List.nil_perm.mp perm]
  · rw [List.singleton_perm.mp perm]
  · rcases list' with _ | ⟨c, _ | ⟨d, rest'⟩⟩
    · rfl
    · cases List.perm_singleton.mp perm
    · rfl

theorem mem_of_single {α : Type} {list : List α} {a : α} (one : single list = some a) :
    a ∈ list := by
  rcases list with _ | ⟨b, _ | ⟨c, rest⟩⟩
  · cases one
  · obtain rfl := Option.some.inj one
    exact List.mem_cons_self
  · cases one

/-- Words that stand for themselves are left as they are. -/
theorem flatMap_of_itself {α : Type} {f : α → List α} {list : List α}
    (itself : ∀ a ∈ list, f a = [a]) : list.flatMap f = list :=
  (List.flatMap_congr itself).trans (List.flatMap_singleton' list)

theorem length_le_length_flatMap {α β : Type} {f : α → List β} {list : List α}
    (some : ∀ a ∈ list, f a ≠ []) : list.length ≤ (list.flatMap f).length := by
  induction list with
  | nil => exact Nat.zero_le _
  | cons a list ih =>
      rw [List.forall_mem_cons] at some
      have first := List.length_pos_iff.mpr some.1
      have rest := ih some.2
      rw [List.flatMap_cons, List.length_append, List.length_cons]
      omega

/-- Words that stand for something each, and together for no more than there are, stand for
one name each. -/
theorem length_eq_one_of_flatMap_le {α β : Type} {f : α → List β} {list : List α}
    (some : ∀ a ∈ list, f a ≠ []) (few : (list.flatMap f).length ≤ list.length) :
    ∀ a ∈ list, (f a).length = 1 := by
  induction list with
  | nil => exact fun a member => absurd member List.not_mem_nil
  | cons a list ih =>
      rw [List.forall_mem_cons] at some
      have first := List.length_pos_iff.mpr some.1
      have rest := length_le_length_flatMap some.2
      rw [List.flatMap_cons, List.length_append, List.length_cons] at few
      exact List.forall_mem_cons.mpr ⟨by omega, ih some.2 (by omega)⟩

namespace Patterns

variable (p : Patterns)

/-- The names of a directory that a word stands for: those it matches, or itself. -/
def expand (names : List Text) (word : Text) : List Text :=
  if names.filter (p.matchesName word) = [] then [word] else names.filter (p.matchesName word)

/-- The name that `> word` opens. A word that stands for several names is an error. -/
def redirect (names : List Text) (word : Text) : Option Text := single (p.expand names word)

variable {p} {names names' : List Text} {word : Text}

theorem expand_of_no_match (none : ∀ name ∈ names, ¬ p.matchesName word name) :
    p.expand names word = [word] := if_pos (List.filter_eq_nil_iff.mpr none)

theorem expand_of_match {name : Text} (member : name ∈ names)
    (found : p.matchesName word name) :
    p.expand names word = names.filter (p.matchesName word) :=
  if_neg (List.ne_nil_of_mem (List.mem_filter.mpr ⟨member, found⟩))

/-- A word that matches no name but itself stands for itself. -/
theorem expand_of_only (distinct : names.Nodup)
    (only : ∀ name ∈ names, p.matchesName word name → name = word) :
    p.expand names word = [word] := by
  by_cases found : ∃ name ∈ names, p.matchesName word name
  · obtain ⟨name, member, own⟩ := found
    obtain rfl := only name member own
    rw [expand_of_match member own]
    have one : ∀ other ∈ names.filter (p.matchesName name), other = name := fun other both =>
      only other (List.mem_filter.mp both).1 (List.mem_filter.mp both).2
    refine List.perm_singleton.mp ((List.perm_ext_iff_of_nodup (distinct.filter _)
      (List.nodup_singleton _)).mpr fun other => ?_)
    rw [List.mem_singleton]
    constructor
    · exact one other
    · rintro rfl
      exact List.mem_filter.mpr ⟨member, own⟩
  · apply expand_of_no_match
    exact fun name member own => found ⟨name, member, own⟩

/-- A word without pattern characters stands for itself. -/
theorem expand_of_plain (distinct : names.Nodup) (plain : ∀ c ∈ word, isGlob c = false) :
    p.expand names word = [word] :=
  expand_of_only distinct fun _ _ => (p.matchesName_iff_eq plain).mp

/-- A word stands for itself or for names that are there. -/
theorem mem_expand {name : Text} (member : name ∈ p.expand names word) :
    name = word ∨ name ∈ names := by
  unfold expand at member
  split_ifs at member
  · exact Or.inl (List.mem_singleton.mp member)
  · exact Or.inr (List.mem_filter.mp member).1

theorem expand_ne_nil (p : Patterns) (names : List Text) (word : Text) :
    p.expand names word ≠ [] := by
  unfold expand
  split_ifs with none
  · exact List.cons_ne_nil _ _
  · exact none

/-- The name of a file without sets and escapes stands for that file, too. -/
theorem self_mem_expand (member : word ∈ names) (plain : ∀ c ∈ word, c ≠ '[' ∧ c ≠ '\\') :
    word ∈ p.expand names word := by
  have own := p.matchesName_self plain
  rw [expand_of_match member own]
  exact List.mem_filter.mpr ⟨member, own⟩

theorem redirect_of_only (distinct : names.Nodup)
    (only : ∀ name ∈ names, p.matchesName word name → name = word) :
    p.redirect names word = some word := by
  rw [redirect, expand_of_only distinct only]
  rfl

/-- Names that the word does not match make no difference. -/
theorem redirect_congr (distinct : names.Nodup) (distinct' : names'.Nodup)
    (same : ∀ name, p.matchesName word name → (name ∈ names ↔ name ∈ names')) :
    p.redirect names word = p.redirect names' word := by
  have perm : (names.filter (p.matchesName word)).Perm (names'.filter (p.matchesName word)) := by
    refine (List.perm_ext_iff_of_nodup (distinct.filter _) (distinct'.filter _)).mpr fun name => ?_
    rw [List.mem_filter, List.mem_filter]
    exact and_congr_left (same name)
  have expanded : (p.expand names word).Perm (p.expand names' word) := by
    have empty : names.filter (p.matchesName word) = [] ↔
        names'.filter (p.matchesName word) = [] := by
      rw [← List.length_eq_zero_iff, perm.length_eq, List.length_eq_zero_iff]
    unfold expand
    by_cases none : names.filter (p.matchesName word) = []
    · rw [if_pos none, if_pos (empty.mp none)]
    · rw [if_neg none, if_neg (mt empty.mpr none)]
      exact perm
  exact single_congr expanded

/-- A redirect goes to the word itself, or to a name that is there. -/
theorem eq_or_mem_of_redirect {target : Text} (goes : p.redirect names word = some target) :
    (target = word ∧ ∀ name ∈ names, ¬ p.matchesName word name) ∨
      target ∈ names ∧ p.matchesName word target := by
  have member := mem_of_single goes
  unfold expand at member
  split_ifs at member with none
  · exact Or.inl ⟨List.mem_singleton.mp member, List.filter_eq_nil_iff.mp none⟩
  · exact Or.inr (List.mem_filter.mp member)

/-! ## Simple patterns -/

/-- Some rest of the name is accepted. -/
def matchesRest (accepts : Text → Bool) : Text → Bool
  | [] => accepts []
  | c :: name => accepts (c :: name) || matchesRest accepts name

/-- The first character of the name is `c`, or any for `?`, and its rest is accepted. -/
def matchesFirst (c : Char) (accepts : Text → Bool) : Text → Bool
  | [] => false
  | d :: name => (c == '?' || c == d) && accepts name

/-- A word with `*` and `?` against a name. -/
def matchesWord : Text → Text → Bool
  | [] => List.isEmpty
  | c :: word =>
      if c = '*' then matchesRest (matchesWord word) else matchesFirst c (matchesWord word)

theorem matchesFirst_iff {c : Char} {accepts : Text → Bool} {name : Text} :
    matchesFirst c accepts name ↔
      ∃ d rest, name = d :: rest ∧ (c = '?' ∨ c = d) ∧ accepts rest := by
  cases name with
  | nil => simp [matchesFirst]
  | cons d name => simp [matchesFirst]

theorem matchesRest_iff {accepts : Text → Bool} {name : Text} :
    matchesRest accepts name ↔ ∃ rest, rest <:+ name ∧ accepts rest := by
  induction name with
  | nil => simp [matchesRest]
  | cons c name ih =>
      rw [matchesRest, Bool.or_eq_true, ih]
      constructor
      · intro found
        rcases found with here | ⟨rest, behind, accepted⟩
        · exact ⟨_, List.suffix_rfl, here⟩
        · exact ⟨rest, behind.trans (List.suffix_cons c name), accepted⟩
      · rintro ⟨rest, behind, accepted⟩
        rcases List.suffix_cons_iff.mp behind with rfl | later
        · exact Or.inl accepted
        · exact Or.inr ⟨rest, later, accepted⟩

theorem matchesWord_iff_eq {name : Text} (plain : ∀ c ∈ word, isGlob c = false) :
    matchesWord word name ↔ name = word := by
  induction word generalizing name with
  | nil => simp [matchesWord]
  | cons c word ih =>
      obtain ⟨here, later⟩ := List.forall_mem_cons.mp plain
      have noStar : c ≠ '*' := by
        rintro rfl
        exact absurd here (by decide)
      have noMark : c ≠ '?' := by
        rintro rfl
        exact absurd here (by decide)
      rw [matchesWord, if_neg noStar, matchesFirst_iff]
      constructor
      · rintro ⟨d, rest, rfl, same | rfl, behind⟩
        · exact absurd same noMark
        · rw [(ih later).mp behind]
      · rintro rfl
        exact ⟨c, word, rfl, Or.inr rfl, (ih later).mpr rfl⟩

theorem matchesWord_self (word : Text) : matchesWord word word := by
  induction word with
  | nil => rfl
  | cons c word ih =>
      by_cases star : c = '*'
      · rw [matchesWord, if_pos star]
        exact matchesRest_iff.mpr ⟨word, List.suffix_cons c word, ih⟩
      · rw [matchesWord, if_neg star]
        exact matchesFirst_iff.mpr ⟨c, word, rfl, Or.inr rfl, ih⟩

theorem suffix_of_matchesWord {front tail name : Text} (plain : ∀ c ∈ tail, isGlob c = false)
    (found : matchesWord (front ++ tail) name) : tail <:+ name := by
  induction front generalizing name with
  | nil => exact (matchesWord_iff_eq plain).mp found ▸ List.suffix_rfl
  | cons c front ih =>
      rw [List.cons_append] at found
      by_cases star : c = '*'
      · subst star
        rw [matchesWord, if_pos rfl] at found
        obtain ⟨rest, behind, accepted⟩ := matchesRest_iff.mp found
        exact (ih accepted).trans behind
      · rw [matchesWord, if_neg star] at found
        obtain ⟨d, rest, rfl, -, behind⟩ := matchesFirst_iff.mp found
        exact (ih behind).trans (List.suffix_cons d rest)

/-- Tools that know `.` and `*` in lines, `*` and `?` in names. A hidden name is matched by
a word with a dot in front only. -/
def simple : Patterns where
  selects := matchesLine
  selects_of_infix plain _ _ inside :=
    matchesLine_of_infix (fun star => (plain _ star).1 rfl) inside
  infix_of_selects literal found := (matchesLine_iff literal).mp found
  matchesName word name :=
    (word.head? == some '.' || name.head? != some '.') && matchesWord word name
  matchesName_iff_eq plain := by
    rename_i word name
    rw [Bool.and_eq_true, matchesWord_iff_eq plain]
    refine and_iff_right_of_imp ?_
    rintro rfl
    by_cases hidden : name.head? = some '.'
    · simp [hidden]
    · simp [hidden]
  matchesName_self := by
    rintro word -
    rw [Bool.and_eq_true, and_iff_left (matchesWord_self word)]
    by_cases hidden : word.head? = some '.'
    · simp [hidden]
    · simp [hidden]
  suffix_of_matchesName plain found :=
    suffix_of_matchesWord (fun c member => (plain c member).1) (Bool.and_eq_true_iff.mp found).2

end Patterns

end StudyLinux
