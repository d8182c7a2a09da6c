import StudyLinux.RegularExpr.MatchRegex

/-!
# The groups of a match

The inner loop of `match_regex` stops at the first entry with -1, which a group has that
did not take part. `matchRegex_groups_iff` says when every group that did is printed.
-/

namespace StudyLinux

namespace RegularExpr

open Regex

/-- No group that took part stands behind one that did not. -/
def Gapless (m : List Regmatch) : Prop := ∀ k l, k < l → TookPart m l → TookPart m k

variable {regexec : Regexec} {r : Regex Char} {toMatch : Text} {p : Nat}

/-- Whatever is printed is a piece of the subject. -/
theorem printed_inside (posix : Posix regexec) (restart : Restart r toMatch p)
    {shown : List Shown} {q : Nat} (step : matchRound regexec r toMatch p = some (shown, q))
    {line : Shown} (printed : line ∈ shown) :
    p ≤ line.start ∧ line.start ≤ line.finish ∧ line.finish ≤ toMatch.length := by
  obtain ⟨i, j, c, found, took, -, rfl, -⟩ := posix.matchRound_eq_some step
  obtain ⟨k, a, b, set, -, rfl⟩ := mem_showMatches_iff.mp printed
  have upto : j ≤ (toMatch.drop p).length := found.span.le_length found.inside
  have ordered : a ≤ b ∧ b ≤ j := by
    obtain ⟨l, -, entry⟩ := List.mem_map.mp (List.mem_of_getElem? set)
    split at entry
    · cases entry
      exact ⟨found.span.le, le_rfl⟩
    · rcases took.inside entry with before | ⟨-, within⟩
      · cases before
      · exact within
  have front := restart.le_length
  rw [List.length_drop] at upto
  change p ≤ p + a ∧ p + a ≤ p + b ∧ p + b ≤ toMatch.length
  omega

/-- The groups of one match. -/
theorem showMatches_groups_iff (toMatch : Text) (p : Nat) (m : List Regmatch) :
    (∀ k a b, m[k]? = some (some (a, b)) →
      groupLine toMatch p k a b ∈ showMatches toMatch p 0 m) ↔ Gapless m := by
  constructor
  · intro all k l front part
    rcases part with ⟨a, b, set⟩
    obtain ⟨l', a', b', -, before, same⟩ := mem_showMatches_iff.mp (all l a b set)
    obtain rfl : l = 0 + l' := congrArg Shown.index same
    exact before k (by omega)
  · intro gapless k a b set
    refine mem_showMatches_iff.mpr ⟨k, a, b, set, fun l front => gapless l k front ⟨a, b, set⟩, ?_⟩
    rw [Nat.zero_add]

/-- Every group that took part in a match is printed, whatever the round, exactly when no
match has one behind a group that did not. -/
theorem matchRegex_groups_iff (posix : Posix regexec) (r : Regex Char) (toMatch : Text) :
    (∀ p shown q m, Visits (matchRound regexec r toMatch) 0 p →
      matchRound regexec r toMatch p = some (shown, q) →
      regexec r (toMatch.drop p) nMatches false = some m →
      ∀ k a b, m[k]? = some (some (a, b)) → groupLine toMatch p k a b ∈ shown) ↔
      ∀ p m, Restart r toMatch p → regexec r (toMatch.drop p) nMatches false = some m →
        Gapless m := by
  have printed {p : Nat} {m : List Regmatch}
      (reported : regexec r (toMatch.drop p) nMatches false = some m) :
      matchRound regexec r toMatch p = some (showMatches toMatch p 0 m, p + rmEo m) := by
    rw [matchRound, reported, Option.map_some]
  constructor
  · intro all p m restart reported
    apply (showMatches_groups_iff toMatch p m).mp
    intro k a b set
    exact all p _ _ m (posix.visits_iff.mpr restart) (printed reported) reported k a b set
  · intro gapless p shown q m way step reported
    rw [printed reported] at step
    cases step
    exact (showMatches_groups_iff toMatch p m).mpr (gapless p m (posix.visits_iff.mp way) reported)

/-- `(a)`. -/
def groupA : Regex Char := .group 1 (.one (· == 'a'))

/-- `(a)|(b)`. -/
def groupAOrGroupB : Regex Char := .alt (.group 1 (.one (· == 'a'))) (.group 2 (.one (· == 'b')))

/-- `(a)` in "a". -/
theorem matchRegex_groups_iff_a :
    groupLine "a".toList 0 1 0 1 ∈ [⟨0, 0, 1, "a".toList⟩, ⟨1, 0, 1, "a".toList⟩] := by
  have reported : posixRegexec groupA "a".toList nMatches false =
      some (some (0, 1) :: some (0, 1) :: List.replicate 8 none) := by decide
  have step : matchRound posixRegexec groupA "a".toList 0 =
      some ([⟨0, 0, 1, "a".toList⟩, ⟨1, 0, 1, "a".toList⟩], 1) := by decide
  refine (matchRegex_groups_iff posix_posixRegexec groupA "a".toList).mpr
    (fun p m restart there => ?_) 0 _ _ _ .refl step reported 1 0 1 rfl
  have inside : p ≤ 1 := restart.le_length
  obtain rfl | rfl : p = 0 ∨ p = 1 := by omega
  · obtain rfl := Option.some.inj (reported.symm.trans there)
    intro k l front part
    rcases part with ⟨a, b, set⟩
    rcases l with _ | _ | l
    · exact absurd front k.not_lt_zero
    · obtain rfl : k = 0 := by omega
      exact ⟨0, 1, rfl⟩
    · exact absurd (List.eq_of_mem_replicate (List.mem_of_getElem? set)) (Option.some_ne_none _)
  · have rest : posixRegexec groupA [] nMatches false = none := by decide
    cases rest.symm.trans there

/-- `(a)|(b)` in "b". -/
theorem matchRegex_groups_fail :
    ¬ ∀ regexec, Posix regexec → ∀ r toMatch p shown q m,
      Visits (matchRound regexec r toMatch) 0 p →
      matchRound regexec r toMatch p = some (shown, q) →
      regexec r (toMatch.drop p) nMatches false = some m →
      ∀ k a b, m[k]? = some (some (a, b)) → groupLine toMatch p k a b ∈ shown := by
  intro all
  have reported : posixRegexec groupAOrGroupB "b".toList nMatches false =
      some ([some (0, 1), none, some (0, 1)] ++ List.replicate 7 none) := by decide
  have step : matchRound posixRegexec groupAOrGroupB "b".toList 0 =
      some ([⟨0, 0, 1, "b".toList⟩], 1) := by decide
  exact absurd (all _ posix_posixRegexec _ _ 0 _ _ _ .refl step reported 2 0 1 rfl) (by decide)

end RegularExpr

end StudyLinux
