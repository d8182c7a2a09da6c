import StudyLinux.Text.Filter

/-!
# Global substitution of a fixed text

`sedSubst pat rep` is `sed 's/pat/rep/g'` for a pattern without special
characters: occurrences are taken from the left and do not overlap. One
induction principle (`sedSubst_induction`) follows the scan; everything else is
derived from it. `sedSubst_append` cuts a line at a place no occurrence
straddles, and `count_sedSubst_lt` measures what an occurrence costs.
-/

namespace StudyLinux

/-- The scan of the substitution. The number counts the characters of the last
occurrence that are still to be skipped. -/
def substFrom (pat rep : Text) : Nat → Text → Text
  | _, [] => []
  | skip + 1, _ :: rest => substFrom pat rep skip rest
  | 0, c :: rest =>
      if pat.isPrefixOf (c :: rest) then rep ++ substFrom pat rep (pat.length - 1) rest
      else c :: substFrom pat rep 0 rest

/-- `sed 's/pat/rep/g'`. -/
def sedSubst (pat rep line : Text) : Text := substFrom pat rep 0 line

variable {pat rep : Text}

theorem substFrom_eq_drop (skip : Nat) (line : Text) :
    substFrom pat rep skip line = sedSubst pat rep (line.drop skip) := by
  induction line generalizing skip with
  | nil => cases skip <;> rfl
  | cons c rest ih =>
      cases skip with
      | zero => rfl
      | succ skip => simpa [substFrom] using ih skip

@[simp] theorem sedSubst_nil : sedSubst pat rep [] = [] := rfl

/-- An occurrence at the front is replaced and the scan goes on behind it. -/
theorem sedSubst_occurrence (nonempty : pat ≠ []) (rest : Text) :
    sedSubst pat rep (pat ++ rest) = rep ++ sedSubst pat rep rest := by
  obtain ⟨c, tail, rfl⟩ := List.exists_cons_of_ne_nil nonempty
  rw [sedSubst, List.cons_append, substFrom, if_pos, substFrom_eq_drop]
  · simp
  · rw [List.isPrefixOf_iff_prefix]
    exact ⟨rest, by simp⟩

/-- Where no occurrence starts, one character is kept. -/
theorem sedSubst_pass {c : Char} {rest : Text}
    (free : ¬ pat <+: c :: rest) :
    sedSubst pat rep (c :: rest) = c :: sedSubst pat rep rest := by
  rw [sedSubst, substFrom, if_neg (by rwa [List.isPrefixOf_iff_prefix])]
  rfl

/-- The scan either passes one character or crosses one whole occurrence. -/
theorem sedSubst_induction {motive : Text → Prop} (nonempty : pat ≠ [])
    (nil : motive [])
    (pass : ∀ c rest, ¬ pat <+: c :: rest → motive rest → motive (c :: rest))
    (cross : ∀ rest, motive rest → motive (pat ++ rest)) (line : Text) : motive line := by
  induction size : line.length using Nat.strong_induction_on generalizing line with
  | _ n ih =>
      subst size
      by_cases front : pat <+: line
      · obtain ⟨rest, rfl⟩ := front
        refine cross rest (ih rest.length ?_ rest rfl)
        have := List.length_pos_iff.mpr nonempty
        simp only [List.length_append]
        omega
      · cases line with
        | nil => exact nil
        | cons c rest => exact pass c rest front (ih rest.length (by simp) rest rfl)

/-! ## Where a line may be cut -/

/-- A line can be cut wherever no occurrence has a part on either side. -/
theorem sedSubst_append (nonempty : pat ≠ []) {a b : Text}
    (apart : ∀ u v, pat = u ++ v → u ≠ [] → v ≠ [] → u <:+ a → ¬ v <+: b) :
    sedSubst pat rep (a ++ b) = sedSubst pat rep a ++ sedSubst pat rep b := by
  induction a using sedSubst_induction nonempty with
  | nil => rfl
  | pass c rest free ih =>
      have free' : ¬ pat <+: c :: (rest ++ b) := by
        intro front
        rw [← List.cons_append] at front
        rcases List.prefix_or_prefix_of_prefix front (List.prefix_append (c :: rest) b) with
          inside | ⟨v, split⟩
        · exact free inside
        · rw [← split, List.prefix_append_right_inj] at front
          by_cases ended : v = []
          · exact free (by simp [← split, ended])
          · exact apart _ v split.symm (by simp) ended List.suffix_rfl front
      rw [List.cons_append, sedSubst_pass free', sedSubst_pass free,
        ih fun u v split left right ends => apart u v split left right
          (ends.trans (List.suffix_cons c rest)), List.cons_append]
  | cross rest ih =>
      rw [List.append_assoc, sedSubst_occurrence nonempty, sedSubst_occurrence nonempty,
        ih fun u v split left right ends => apart u v split left right
          (ends.trans (List.suffix_append pat rest)), List.append_assoc]

/-- A line can be cut in front of a character that the pattern does not have. -/
theorem sedSubst_append_cons (nonempty : pat ≠ []) {sep : Char} (foreign : sep ∉ pat)
    (a b : Text) :
    sedSubst pat rep (a ++ sep :: b) = sedSubst pat rep a ++ sep :: sedSubst pat rep b := by
  rw [sedSubst_append nonempty, sedSubst_pass]
  · intro front
    obtain ⟨c, tail, rfl⟩ := List.exists_cons_of_ne_nil nonempty
    exact foreign (by simp [(List.cons_prefix_cons.mp front).1])
  · intro u v split _ right _ front
    obtain ⟨c, tail, rfl⟩ := List.exists_cons_of_ne_nil right
    exact foreign (by simp [split, (List.cons_prefix_cons.mp front).1])

/-- A character that the pattern does not have stays in front. -/
theorem sedSubst_cons (nonempty : pat ≠ []) {sep : Char} (foreign : sep ∉ pat) (line : Text) :
    sedSubst pat rep (sep :: line) = sep :: sedSubst pat rep line :=
  sedSubst_append_cons nonempty foreign [] line

/-- Without an occurrence nothing changes. -/
theorem sedSubst_eq_self (nonempty : pat ≠ []) {line : Text} (free : ¬ pat <:+: line) :
    sedSubst pat rep line = line := by
  induction line using sedSubst_induction nonempty with
  | nil => rfl
  | pass c rest front ih =>
      rw [sedSubst_pass front,
        ih fun inside => free (inside.trans (List.suffix_cons c rest).isInfix)]
  | cross rest ih => exact (free (List.prefix_append pat rest).isInfix).elim

/-- A part that lacks a character of the pattern holds no occurrence. -/
theorem not_infix_of_not_mem {c : Char} (wanted : c ∈ pat) {line : Text} (absent : c ∉ line) :
    ¬ pat <:+: line := fun inside => absent (inside.subset wanted)

/-- A part in which no occurrence can start is passed unchanged. -/
theorem sedSubst_skip {first : Char} {tail : Text} (shape : pat = first :: tail) {a : Text}
    (absent : first ∉ a) (b : Text) :
    sedSubst pat rep (a ++ b) = a ++ sedSubst pat rep b := by
  have nonempty : pat ≠ [] := by simp [shape]
  rw [sedSubst_append nonempty, sedSubst_eq_self nonempty]
  · exact not_infix_of_not_mem (c := first) (by simp [shape]) absent
  · intro u v split left _ ends _
    obtain ⟨c, rest, rfl⟩ := List.exists_cons_of_ne_nil left
    rw [shape, List.cons_append, List.cons.injEq] at split
    exact absent (ends.subset (by simp [split.1]))

/-! ## Characters of the result -/

/-- A pattern of one character acts on each character by itself. -/
theorem sedSubst_singleton (c : Char) (rep line : Text) :
    sedSubst [c] rep line = line.flatMap fun d => if d = c then rep else [d] := by
  induction line with
  | nil => rfl
  | cons d line ih =>
      rw [List.flatMap_cons, ← ih]
      by_cases same : d = c
      · subst same
        rw [if_pos rfl]
        exact sedSubst_occurrence (List.cons_ne_nil d []) line
      · rw [if_neg same]
        exact sedSubst_pass fun front => same (List.cons_prefix_cons.mp front).1.symm

/-- Every character of the pattern is replaced. -/
theorem not_mem_sedSubst_singleton {c : Char} {rep : Text} (gone : c ∉ rep) (line : Text) :
    c ∉ sedSubst [c] rep line := by
  rw [sedSubst_singleton, List.mem_flatMap]
  rintro ⟨d, -, member⟩
  split at member
  · exact gone member
  · rename_i other
    exact other (List.mem_singleton.mp member).symm

/-! ## What a substitution costs -/

variable {x : Char}

/-- A character that the replacement lacks never becomes more frequent. -/
theorem count_sedSubst_le (nonempty : pat ≠ []) (gone : x ∉ rep) (line : Text) :
    (sedSubst pat rep line).count x ≤ line.count x := by
  induction line using sedSubst_induction nonempty with
  | nil => simp
  | pass c rest front ih =>
      rw [sedSubst_pass front, List.count_cons, List.count_cons]
      omega
  | cross rest ih =>
      rw [sedSubst_occurrence nonempty, List.count_append, List.count_append,
        List.count_eq_zero.mpr gone]
      omega

/-- If the pattern has a character that the replacement lacks, an occurrence
makes that character less frequent. -/
theorem count_sedSubst_lt (lost : x ∈ pat) (gone : x ∉ rep) {line : Text}
    (occurs : pat <:+: line) : (sedSubst pat rep line).count x < line.count x := by
  have nonempty : pat ≠ [] := List.ne_nil_of_mem lost
  induction line using sedSubst_induction nonempty with
  | nil => exact (nonempty (List.infix_nil.mp occurs)).elim
  | pass c rest front ih =>
      rcases List.infix_cons_iff.mp occurs with here | later
      · exact (front here).elim
      · have := ih later
        rw [sedSubst_pass front, List.count_cons, List.count_cons]
        omega
  | cross rest ih =>
      have here := List.count_pos_iff.mpr lost
      have rest_le : (sedSubst pat rep rest).count x ≤ rest.count x :=
        count_sedSubst_le nonempty gone rest
      rw [sedSubst_occurrence nonempty, List.count_append, List.count_append,
        List.count_eq_zero.mpr gone]
      omega

end StudyLinux
