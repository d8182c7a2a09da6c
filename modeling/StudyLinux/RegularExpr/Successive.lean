import StudyLinux.RegularExpr.MatchRegex

/-!
# The matches of the whole subject

`match_regex` matches the rest behind the last match as if it were a text of its own, so
that '^' holds where the rest starts. The whole subject may have no start of a line there.
`matchRegex_successive_iff` says when the printed matches are the successive ones of the
whole subject.
-/

namespace StudyLinux

namespace RegularExpr

open Regex

/-- The successive matches from `p` on: each is the leftmost longest one behind the last. -/
inductive Successive (s : Subject Char) (r : Regex Char) : Nat → List (Nat × Nat) → Prop
  | last {p : Nat} : NoMatch s r p → Successive s r p []
  | next {p i j : Nat} {spans : List (Nat × Nat)} :
    LeftmostLongest s r p i j → Successive s r j spans → Successive s r p ((i, j) :: spans)

/-- The spans of the printed lines that start with `$&`. -/
def wholeSpans (shown : List Shown) : List (Nat × Nat) :=
  (shown.filter fun line => line.index = 0).map fun line => (line.start, line.finish)

/-- A match in front of the rest behind `p` is no longer than one that the whole subject
has at `p`. -/
def InPlace (r : Regex Char) (toMatch : Text) (p : Nat) : Prop :=
  ∀ j, Matches (subject false (toMatch.drop p)) r 0 j →
    ∃ j', j ≤ j' ∧ Matches (subject false toMatch) r p (p + j')

variable {regexec : Regexec} {r : Regex Char} {toMatch : Text} {p i j : Nat}

/-! ## The rest and the whole -/

theorem subject_ends_drop (inside : p ≤ toMatch.length) (k : Nat) :
    (subject false (toMatch.drop p)).ends k = (subject false toMatch).ends (p + k) := by
  have lengths : (k == (toMatch.drop p).length) = (p + k == toMatch.length) := by
    rw [List.length_drop, Bool.eq_iff_iff, beq_iff_eq, beq_iff_eq]
    omega
  unfold subject
  dsimp only
  rw [lengths, List.getElem?_drop]

theorem subject_starts_drop {k : Nat} (behind : 0 < k) :
    (subject false (toMatch.drop p)).starts k = (subject false toMatch).starts (p + k) := by
  unfold subject
  dsimp only
  rw [if_neg behind.ne', if_neg (Nat.add_pos_right p behind).ne', List.getElem?_drop,
    Nat.add_sub_assoc behind]

/-- Behind its first place the rest is like the whole. -/
theorem simulates_whole (inside : p ≤ toMatch.length) :
    Simulates (fun k k' => 0 < k ∧ k' = p + k) (subject false (toMatch.drop p))
      (subject false toMatch) where
  next := by
    rintro k _ a ⟨behind, rfl⟩ found
    refine ⟨?_, k.succ_pos, rfl⟩
    rw [← List.getElem?_drop]
    exact found
  starts := by
    rintro k _ ⟨behind, rfl⟩ here
    rw [← subject_starts_drop behind]
    exact here
  ends := by
    rintro k _ ⟨behind, rfl⟩ here
    rw [← subject_ends_drop inside]
    exact here

/-- The rest allows what the whole allows. -/
theorem simulates_rest (inside : p ≤ toMatch.length) :
    Simulates (fun k k' => k = p + k') (subject false toMatch)
      (subject false (toMatch.drop p)) where
  next := by
    rintro _ k a rfl found
    refine ⟨?_, rfl⟩
    rw [← List.getElem?_drop] at found
    exact found
  starts := by
    rintro _ k rfl here
    rcases k.eq_zero_or_pos with rfl | behind
    · rfl
    · rw [subject_starts_drop behind]
      exact here
  ends := by
    rintro _ k rfl here
    rw [subject_ends_drop inside]
    exact here

theorem matches_whole (inside : p ≤ toMatch.length) (behind : 0 < i)
    (span : Matches (subject false (toMatch.drop p)) r i j) :
    Matches (subject false toMatch) r (p + i) (p + j) := by
  obtain ⟨_, ⟨-, rfl⟩, there⟩ := span.simulate (simulates_whole inside) ⟨behind, rfl⟩
  exact there

theorem matches_rest (inside : p ≤ toMatch.length)
    (span : Matches (subject false toMatch) r (p + i) (p + j)) :
    Matches (subject false (toMatch.drop p)) r i j := by
  obtain ⟨k, same, there⟩ := span.simulate (simulates_rest inside) rfl
  rw [Nat.add_left_cancel same]
  exact there

/-- A place in the rest is one in the whole. -/
theorem le_length_drop_iff (inside : p ≤ toMatch.length) :
    i ≤ (subject false (toMatch.drop p)).text.length ↔
      p + i ≤ (subject false toMatch).text.length := by
  change i ≤ (toMatch.drop p).length ↔ p + i ≤ toMatch.length
  rw [List.length_drop]
  omega

theorem noMatch_whole (inside : p ≤ toMatch.length)
    (none : NoMatch (subject false (toMatch.drop p)) r 0) :
    NoMatch (subject false toMatch) r p := by
  intro i' j' behind upto span
  obtain ⟨i, rfl⟩ := Nat.exists_eq_add_of_le behind
  obtain ⟨j, rfl⟩ := Nat.exists_eq_add_of_le (behind.trans span.le)
  exact none i j i.zero_le ((le_length_drop_iff inside).mpr upto) (matches_rest inside span)

/-- In place, the match of the rest is the match of the whole. -/
theorem InPlace.leftmostLongest (inPlace : InPlace r toMatch p) (inside : p ≤ toMatch.length)
    (found : LeftmostLongest (subject false (toMatch.drop p)) r 0 i j) :
    LeftmostLongest (subject false toMatch) r p (p + i) (p + j) where
  behind := Nat.le_add_right p i
  inside := (le_length_drop_iff inside).mp found.inside
  span := by
    rcases i.eq_zero_or_pos with rfl | behind
    · obtain ⟨j', longer, there⟩ := inPlace j found.span
      rw [longer.antisymm (found.longest (matches_rest inside there))]
      exact there
    · exact matches_whole inside behind found.span
  leftmost := by
    intro i' j' behind upto span
    obtain ⟨k, rfl⟩ := Nat.exists_eq_add_of_le behind
    obtain ⟨j', rfl⟩ := Nat.exists_eq_add_of_le (behind.trans span.le)
    have there := (le_length_drop_iff inside).mpr upto
    exact Nat.add_le_add_left (found.leftmost k.zero_le there (matches_rest inside span)) p
  longest := by
    intro j' span
    obtain ⟨j', rfl⟩ := Nat.exists_eq_add_of_le ((Nat.le_add_right p i).trans span.le)
    exact Nat.add_le_add_left (found.longest (matches_rest inside span)) p

theorem inPlace_of_leftmostLongest
    (found : LeftmostLongest (subject false (toMatch.drop p)) r 0 i j)
    (there : LeftmostLongest (subject false toMatch) r p (p + i) (p + j)) :
    InPlace r toMatch p := by
  intro k span
  obtain rfl : i = 0 := Nat.le_zero.mp (found.leftmost le_rfl (Nat.zero_le _) span)
  exact ⟨j, found.longest span, there.span⟩

/-- An expression without '^' is in place wherever it is. -/
theorem inPlace_of_not_asksStart (silent : r.asksStart = false) (inside : p ≤ toMatch.length) :
    InPlace r toMatch p := by
  intro j span
  have sim : Simulates (fun k k' => k' = p + k)
      { subject false (toMatch.drop p) with starts := fun _ => false } (subject false toMatch) := by
    refine ⟨?_, fun _ here => (by cases here), ?_⟩
    · rintro k _ a rfl found
      refine ⟨?_, rfl⟩
      rw [← List.getElem?_drop]
      exact found
    · rintro k _ rfl here
      rw [← subject_ends_drop inside]
      exact here
  obtain ⟨_, rfl, there⟩ := (span.of_not_asksStart silent _).simulate sim rfl
  exact ⟨j, le_rfl, there⟩

/-! ## The printed spans -/

theorem showMatches_index {m : List Regmatch} {index : Nat} {line : Shown}
    (shown : line ∈ showMatches toMatch p index m) : index ≤ line.index := by
  obtain ⟨k, a, b, -, -, rfl⟩ := mem_showMatches_iff.mp shown
  exact Nat.le_add_right index k

theorem showMatches_text {m : List Regmatch} {index : Nat} {line : Shown}
    (shown : line ∈ showMatches toMatch p index m) :
    line.text = slice toMatch line.start line.finish := by
  obtain ⟨k, a, b, -, -, rfl⟩ := mem_showMatches_iff.mp shown
  change slice (toMatch.drop p) a b = slice toMatch (p + a) (p + b)
  rw [Nat.add_comm p a, Nat.add_comm p b, slice_drop]

/-- A round prints one whole match. -/
theorem wholeSpans_round (c : Captures) (rest : List Shown) :
    wholeSpans (showMatches toMatch p 0 (pmatch nMatches i j c) ++ rest) =
      (p + i, p + j) :: wholeSpans rest := by
  have groups (m : List Regmatch) : wholeSpans (showMatches toMatch p 1 m) = [] := by
    refine List.map_eq_nil_iff.mpr (List.filter_eq_nil_iff.mpr fun line shown => ?_)
    have numbered := showMatches_index shown
    rw [decide_eq_true_iff]
    omega
  obtain ⟨m, entries⟩ : ∃ m, pmatch nMatches i j c = some (i, j) :: m := ⟨_, rfl⟩
  have first : wholeSpans (showMatches toMatch p 0 (some (i, j) :: m)) = [(i + p, j + p)] := by
    have head : wholeSpans (showMatches toMatch p 0 (some (i, j) :: m)) =
      (i + p, j + p) :: wholeSpans (showMatches toMatch p 1 m) := rfl
    rw [head, groups]
  rw [entries, Nat.add_comm p i, Nat.add_comm p j, wholeSpans, List.filter_append, List.map_append]
  exact congrArg (· ++ wholeSpans rest) first

theorem matchRegex_text {fuel : Nat} {shown : List Shown}
    (ended : matchRegex regexec r toMatch fuel = some shown) :
    ∀ line ∈ shown, line.text = slice toMatch line.start line.finish := by
  refine runLoop_induction (fun _ shown => ∀ line ∈ shown,
    line.text = slice toMatch line.start line.finish) (fun _ _ absent => by cases absent) ?_ ended
  intro p q outputs rest step later line mem
  rcases List.mem_append.mp mem with now | behind
  · obtain ⟨m, -, same⟩ := Option.map_eq_some_iff.mp step
    cases same
    exact showMatches_text now
  · exact later line behind

/-- What holds at the place of a match and wherever the loop comes from its end. -/
theorem forall_restart_iff {q : Nat} (next : MatchEnd r toMatch p q) {holds : Nat → Prop} :
    (∀ k, Relation.ReflTransGen (MatchEnd r toMatch) p k → holds k) ↔
      holds p ∧ ∀ k, Relation.ReflTransGen (MatchEnd r toMatch) q k → holds k := by
  constructor
  · exact fun all => ⟨all p .refl, fun k way => all k (.head next way)⟩
  · intro both k way
    rcases both with ⟨here, later⟩
    rcases way.cases_head with rfl | ⟨q', next', way⟩
    · exact here
    · obtain ⟨i, j, found, rfl⟩ := next
      obtain ⟨i', j', found', rfl⟩ := next'
      obtain ⟨-, rfl⟩ := found.unique found'
      exact later k way

theorem successive_cons_iff {s : Subject Char} {spans : List (Nat × Nat)} :
    Successive s r p ((i, j) :: spans) ↔ LeftmostLongest s r p i j ∧ Successive s r j spans := by
  constructor
  · intro matched
    rcases matched with _ | ⟨first, rest⟩
    exact ⟨first, rest⟩
  · exact fun both => .next both.1 both.2

/-- The spans that the loop prints from `p` on are the successive matches from there
exactly when all the places it matches from are in place. -/
theorem runLoop_successive_iff (posix : Posix regexec) {fuel : Nat} {shown : List Shown}
    (ended : runLoop (matchRound regexec r toMatch) fuel p = some shown)
    (inside : p ≤ toMatch.length) :
    Successive (subject false toMatch) r p (wholeSpans shown) ↔
      ∀ q, Relation.ReflTransGen (MatchEnd r toMatch) p q → InPlace r toMatch q := by
  revert inside
  refine runLoop_induction (fun p shown => p ≤ toMatch.length →
    (Successive (subject false toMatch) r p (wholeSpans shown) ↔
      ∀ q, Relation.ReflTransGen (MatchEnd r toMatch) p q → InPlace r toMatch q)) ?last ?next ended
  case last =>
    intro p last inside
    have none := posix.matchRound_eq_none_iff.mp last
    refine iff_of_true (.last (noMatch_whole inside none)) fun q way => ?_
    rcases way.cases_head with rfl | ⟨q', ⟨i, j, found, -⟩, -⟩
    · exact fun j span => absurd span (none 0 j le_rfl (Nat.zero_le _))
    · exact absurd none found.not_noMatch
  case next =>
    intro p q outputs rest step ih inside
    obtain ⟨i, j, c, found, -, -, rfl, rfl⟩ := posix.matchRound_eq_some step
    have next : MatchEnd r toMatch p (p + j) := ⟨i, j, found, rfl⟩
    rw [wholeSpans_round, successive_cons_iff, forall_restart_iff next,
      ih (next.le_length inside)]
    refine and_congr_left fun _ => ⟨inPlace_of_leftmostLongest found, fun inPlace => ?_⟩
    exact inPlace.leftmostLongest inside found

/-- The printed whole matches are the successive ones of the whole subject, with their
texts, exactly when all the places that the loop matches from are in place. -/
theorem matchRegex_successive_iff (posix : Posix regexec) {fuel : Nat} {shown : List Shown}
    (ended : matchRegex regexec r toMatch fuel = some shown) :
    (Successive (subject false toMatch) r 0 (wholeSpans shown) ∧
      ∀ line ∈ shown, line.index = 0 → line.text = slice toMatch line.start line.finish) ↔
      ∀ p, Restart r toMatch p → InPlace r toMatch p := by
  rw [and_iff_left fun line mem _ => matchRegex_text ended line mem]
  exact runLoop_successive_iff posix ended (Nat.zero_le _)

/-- `a` in "aba": each match stands where the whole subject has one. -/
theorem matchRegex_successive_iff_a :
    Successive (subject false "aba".toList) (.one (· == 'a')) 0 [(0, 1), (2, 3)] := by
  have ended : matchRegex posixRegexec (.one (· == 'a')) "aba".toList 3 =
      some [⟨0, 0, 1, "a".toList⟩, ⟨0, 2, 3, "a".toList⟩] := by decide
  exact ((matchRegex_successive_iff posix_posixRegexec ended).mpr fun p restart =>
    inPlace_of_not_asksStart rfl restart.le_length).1

/-- `^a` in "aa": the second 'a' does not start a line. -/
theorem matchRegex_successive_fail :
    ¬ ∀ regexec, Posix regexec → ∀ r toMatch fuel shown,
      matchRegex regexec r toMatch fuel = some shown →
        Successive (subject false toMatch) r 0 (wholeSpans shown) ∧
          ∀ line ∈ shown, line.index = 0 → line.text = slice toMatch line.start line.finish := by
  intro all
  have ended : matchRegex posixRegexec (.cat .lineStart (.one (· == 'a'))) "aa".toList 3 =
      some [⟨0, 0, 1, "a".toList⟩, ⟨0, 1, 2, "a".toList⟩] := by decide
  obtain ⟨successive, -⟩ := all _ posix_posixRegexec _ _ _ _ ended
  have spans : wholeSpans [⟨0, 0, 1, "a".toList⟩, ⟨0, 1, 2, "a".toList⟩] = [(0, 1), (1, 2)] := by
    decide
  rw [spans, successive_cons_iff, successive_cons_iff] at successive
  cases successive.2.1.span with
  | cat start _ => cases start with
    | lineStart here => exact absurd here (by decide)

end RegularExpr

end StudyLinux
