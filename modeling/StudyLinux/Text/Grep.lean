import StudyLinux.Text.Filter

/-!
# Selecting lines by a basic regular expression

`grep` for patterns that the scripts spell out: literal characters, `.`, and a `*`
behind one of them. A pattern of literal characters selects the lines that contain it
(`matchesLine_iff`). Patterns that are made from names found in a trace are not read
here, but by a parameter (`Patterns`).
-/

namespace StudyLinux

/-- A pattern character against a character of the line. -/
def matchesChar (p c : Char) : Bool := p == '.' || p == c

/-- A starred character in front of the rest of a pattern. -/
def matchesStar (p : Char) (rest : Text → Bool) : Text → Bool
  | [] => rest []
  | c :: line => rest (c :: line) || (matchesChar p c && matchesStar p rest line)

/-- The pattern matches at the start of the line. -/
def matchesHere : Text → Text → Bool
  | [], _ => true
  | p :: '*' :: pat, line => matchesStar p (matchesHere pat) line
  | _ :: _, [] => false
  | p :: pat, c :: line => matchesChar p c && matchesHere pat line

/-- The pattern matches somewhere in the line. -/
def matchesLine (pat : Text) : Text → Bool
  | [] => matchesHere pat []
  | c :: line => matchesHere pat (c :: line) || matchesLine pat line

/-- `grep pat`. -/
def grep (pat : Text) (file : File) : File := file.filter (matchesLine pat)

/-- The characters that a basic regular expression does not take as they are, at least
in some places. -/
def regexChars : List Char := ['.', '*', '[', '\\', '^', '$', '\n']

/-- A character that stands for itself in a pattern. -/
def IsLiteral (c : Char) : Prop := c ∉ regexChars

instance : DecidablePred IsLiteral := fun c => inferInstanceAs (Decidable (c ∉ regexChars))

theorem IsLiteral.ne_dot {c : Char} (literal : IsLiteral c) : c ≠ '.' := by
  rintro rfl
  exact absurd literal (by decide)

theorem IsLiteral.noRepetition {c : Char} (literal : IsLiteral c) :
    c ≠ '*' ∧ c ≠ '[' ∧ c ≠ '\\' := by
  refine ⟨?_, ?_, ?_⟩ <;> rintro rfl <;> exact absurd literal (by decide)

variable {pat : Text}

theorem matchesHere_iff (literal : ∀ c ∈ pat, IsLiteral c) {line : Text} :
    matchesHere pat line ↔ pat <+: line := by
  induction pat generalizing line with
  | nil => simp [matchesHere]
  | cons p pat ih =>
      have plain := literal p List.mem_cons_self
      have rest := fun c member => literal c (List.mem_cons_of_mem p member)
      have noStar : ∀ tail, pat ≠ '*' :: tail := by
        rintro tail rfl
        exact (rest '*' List.mem_cons_self).noRepetition.1 rfl
      cases line with
      | nil => rw [matchesHere.eq_3 _ _ noStar]; simp
      | cons c line =>
          rw [matchesHere.eq_4 _ _ _ _ noStar, Bool.and_eq_true, ih rest, List.cons_prefix_cons]
          simp [matchesChar, plain.ne_dot]

/-- A literal pattern is searched for as a text. -/
theorem matchesLine_iff (literal : ∀ c ∈ pat, IsLiteral c) {line : Text} :
    matchesLine pat line ↔ pat <:+: line := by
  induction line with
  | nil => rw [matchesLine, matchesHere_iff literal, List.prefix_nil, List.infix_nil]
  | cons c line ih =>
      rw [matchesLine, Bool.or_eq_true, matchesHere_iff literal, ih, List.infix_cons_iff]

theorem matchesHere_append (noStar : '*' ∉ pat) (rest : Text) : matchesHere pat (pat ++ rest) := by
  induction pat with
  | nil => cases rest <;> rfl
  | cons p pat ih =>
      have noStarBehind : ∀ tail, pat ≠ '*' :: tail := by
        intro tail same
        exact noStar (same ▸ by simp)
      rw [List.cons_append, matchesHere.eq_4 _ _ _ _ noStarBehind, Bool.and_eq_true]
      exact ⟨by simp [matchesChar], ih fun star => noStar (List.mem_cons_of_mem p star)⟩

/-- Without a star a pattern matches itself, and every line that contains it. -/
theorem matchesLine_of_infix (noStar : '*' ∉ pat) {line : Text} (inside : pat <:+: line) :
    matchesLine pat line := by
  induction line with
  | nil =>
      obtain rfl := List.infix_nil.mp inside
      rfl
  | cons c line ih =>
      rw [matchesLine, Bool.or_eq_true]
      rcases List.infix_cons_iff.mp inside with ⟨rest, split⟩ | later
      · exact Or.inl (split ▸ matchesHere_append noStar rest)
      · exact Or.inr (ih later)

/-- Lines that all match are all selected. -/
theorem grep_eq_self {file : File} (all : ∀ line ∈ file, matchesLine pat line) :
    grep pat file = file := List.filter_eq_self.mpr all

end StudyLinux
