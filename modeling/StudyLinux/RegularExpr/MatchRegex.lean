import StudyLinux.Regex.Search
import StudyLinux.System.Loop
import StudyLinux.Text.Decimal

/-!
# The matching loop of example.c

`match_regex` looks for a match, prints it with its groups, and goes on behind its end.
regexec is an argument: `Posix` has what the standard promises of it, `posixRegexec` is
one that keeps the promise. Behind an empty match at its own place the loop starts where
it started before: `matchRegex_ends_iff` says that this is all that can keep it going.
-/

namespace StudyLinux

namespace RegularExpr

open Regex

/-! ## regexec -/

/-- A text as an expression compiled with REG_NEWLINE sees it. REG_NOTBOL says that the
text is not where a line starts. -/
def subject (notbol : Bool) (text : Text) : Subject Char where
  text := text
  starts i := if i = 0 then !notbol else text[i - 1]? == some '\n'
  ends i := i == text.length || text[i]? == some '\n'

/-- An entry of a vector of matches, rm_so and rm_eo. An entry with -1 is `none`. -/
abbrev Regmatch := Option (Nat × Nat)

/-- The vector of a match from `i` to `j`. -/
def pmatch (nmatch i j : Nat) (c : Captures) : List Regmatch :=
  (List.range nmatch).map fun k => if k = 0 then some (i, j) else c k

/-- `regexec (r, text, nmatch, pmatch, eflags)`, with `notbol` for the flag of eflags. -/
abbrev Regexec := Regex Char → Text → Nat → Bool → Option (List Regmatch)

/-- The promise of regexec: REG_NOMATCH when nothing matches, and otherwise the leftmost
longest match and what its groups have captured. -/
structure Posix (regexec : Regexec) : Prop where
  unmatched : ∀ r text nmatch notbol,
    regexec r text nmatch notbol = none ↔ NoMatch (subject notbol text) r 0
  reports : ∀ {r text nmatch notbol m}, regexec r text nmatch notbol = some m →
    ∃ i j c, LeftmostLongest (subject notbol text) r 0 i j ∧
      Took (subject notbol text) r i (fun _ => none) j c ∧ m = pmatch nmatch i j c

/-- A regexec that looks at every place. -/
def posixRegexec : Regexec := fun r text nmatch notbol =>
  (search (subject notbol text) r).map fun (i, j, c) => pmatch nmatch i j c

theorem posix_posixRegexec : Posix posixRegexec where
  unmatched r text nmatch notbol := Option.map_eq_none_iff.trans search_eq_none_iff
  reports {r text nmatch notbol m} reported := by
    obtain ⟨⟨i, j, c⟩, found, rfl⟩ := Option.map_eq_some_iff.mp reported
    obtain ⟨longest, took⟩ := search_spec found
    exact ⟨i, j, c, longest, took, rfl⟩

/-! ## The loop -/

/-- A printed match or group. -/
structure Shown where
  index : Nat
  start : Nat
  finish : Nat
  text : Text
  deriving DecidableEq

/-- The line of a match or group. -/
def Shown.line (shown : Shown) : Text :=
  (if shown.index = 0 then "$& is ".toList else '$' :: decimal shown.index ++ " is ".toList) ++
    '\'' :: shown.text ++ "' (bytes ".toList ++ decimal shown.start ++ ':' ::
      decimal shown.finish ++ [')', '\n']

/-- What `%.*s` prints of `to_match + start`. -/
def slice (toMatch : Text) (start finish : Nat) : Text := (toMatch.drop start).take (finish - start)

/-- `n_matches`. -/
def nMatches : Nat := 10

/-- The inner loop, from `m[i]` on. The first entry with -1 is where it stops. -/
def showMatches (toMatch : Text) (p : Nat) : Nat → List Regmatch → List Shown
  | _, [] => []
  | _, none :: _ => []
  | i, some (so, eo) :: m =>
      ⟨i, so + p, eo + p, slice toMatch (so + p) (eo + p)⟩ :: showMatches toMatch p (i + 1) m

/-- `m[0].rm_eo`, which is set in the vector of a match. -/
def rmEo (m : List Regmatch) : Nat := ((m.headD none).map Prod.snd).getD 0

/-- A round of `match_regex`: the rest behind `p` is matched, with 0 for eflags. -/
def matchRound (regexec : Regexec) (r : Regex Char) (toMatch : Text) (p : Nat) :
    Option (List Shown × Nat) :=
  (regexec r (toMatch.drop p) nMatches false).map fun m =>
    (showMatches toMatch p 0 m, p + rmEo m)

/-- `match_regex`, for the rounds that the fuel is enough for: what it prints in front of
"No more matches.". -/
def matchRegex (regexec : Regexec) (r : Regex Char) (toMatch : Text) (fuel : Nat) :
    Option (List Shown) :=
  runLoop (matchRound regexec r toMatch) fuel 0

/-- The output of `match_regex`. -/
def output (shown : List Shown) : Text := shown.flatMap Shown.line ++ "No more matches.\n".toList

/-! ## Where rounds start -/

/-- The end of the leftmost longest match in the rest behind `p`. -/
def MatchEnd (r : Regex Char) (toMatch : Text) (p q : Nat) : Prop :=
  ∃ i j, LeftmostLongest (subject false (toMatch.drop p)) r 0 i j ∧ q = p + j

/-- The places that the loop matches from: the front of the subject, and the end of the
match behind each. -/
def Restart (r : Regex Char) (toMatch : Text) (p : Nat) : Prop :=
  Relation.ReflTransGen (MatchEnd r toMatch) 0 p

variable {regexec : Regexec} {r : Regex Char} {toMatch : Text} {p : Nat}

/-- A round in the words of the standard. -/
theorem Posix.matchRound_eq_some (posix : Posix regexec) {shown : List Shown} {q : Nat}
    (step : matchRound regexec r toMatch p = some (shown, q)) :
    ∃ i j c, LeftmostLongest (subject false (toMatch.drop p)) r 0 i j ∧
      Took (subject false (toMatch.drop p)) r i (fun _ => none) j c ∧
      regexec r (toMatch.drop p) nMatches false = some (pmatch nMatches i j c) ∧
      shown = showMatches toMatch p 0 (pmatch nMatches i j c) ∧ q = p + j := by
  obtain ⟨m, reported, same⟩ := Option.map_eq_some_iff.mp step
  obtain ⟨i, j, c, longest, took, rfl⟩ := posix.reports reported
  cases same
  exact ⟨i, j, c, longest, took, reported, rfl, rfl⟩

theorem Posix.matchRound_eq_none_iff (posix : Posix regexec) :
    matchRound regexec r toMatch p = none ↔ NoMatch (subject false (toMatch.drop p)) r 0 := by
  unfold matchRound
  rw [Option.map_eq_none_iff, posix.unmatched]

/-- Rounds go from one place to the next. -/
theorem Posix.round_iff (posix : Posix regexec) {q : Nat} :
    Round (matchRound regexec r toMatch) p q ↔ MatchEnd r toMatch p q := by
  constructor
  · intro round
    rcases round with ⟨shown, step⟩
    obtain ⟨i, j, c, longest, -, -, -, rfl⟩ := posix.matchRound_eq_some step
    exact ⟨i, j, longest, rfl⟩
  · intro next
    rcases next with ⟨i, j, longest, rfl⟩
    cases step : matchRound regexec r toMatch p with
    | none => exact absurd (posix.matchRound_eq_none_iff.mp step) longest.not_noMatch
    | some made =>
        obtain ⟨shown, q⟩ := made
        obtain ⟨i', j', c, longest', -, -, -, rfl⟩ := posix.matchRound_eq_some step
        obtain ⟨-, rfl⟩ := longest.unique longest'
        exact ⟨shown, step⟩

theorem Posix.visits_iff (posix : Posix regexec) :
    Visits (matchRound regexec r toMatch) 0 p ↔ Restart r toMatch p := by
  have same : Round (matchRound regexec r toMatch) = MatchEnd r toMatch := by
    funext p q
    exact propext posix.round_iff
  unfold Visits Restart
  rw [same]

theorem MatchEnd.le_length {q : Nat} (next : MatchEnd r toMatch p q)
    (inside : p ≤ toMatch.length) : q ≤ toMatch.length := by
  obtain ⟨i, j, longest, rfl⟩ := next
  have upto : j ≤ (toMatch.drop p).length := longest.span.le_length longest.inside
  rw [List.length_drop] at upto
  omega

theorem Restart.le_length (restart : Restart r toMatch p) : p ≤ toMatch.length := by
  induction restart with
  | refl => exact Nat.zero_le _
  | tail _ next ih => exact next.le_length ih

/-! ## What a round prints -/

/-- The entry of a group that took part. -/
def TookPart (m : List Regmatch) (k : Nat) : Prop := ∃ a b, m[k]? = some (some (a, b))

/-- The line of a group with its number, its place in the subject and its text. -/
def groupLine (toMatch : Text) (p k a b : Nat) : Shown :=
  ⟨k, p + a, p + b, slice (toMatch.drop p) a b⟩

theorem slice_drop (a b : Nat) : slice toMatch (a + p) (b + p) = slice (toMatch.drop p) a b := by
  unfold slice
  rw [List.drop_drop, Nat.add_comm p a, Nat.add_sub_add_right]

theorem showMatches_cons (index a b : Nat) (m : List Regmatch) :
    showMatches toMatch p index (some (a, b) :: m) =
      groupLine toMatch p index a b :: showMatches toMatch p (index + 1) m := by
  rw [showMatches, slice_drop, Nat.add_comm a p, Nat.add_comm b p]
  rfl

/-- The printed groups are those in front of the first one that did not take part. -/
theorem mem_showMatches_iff {m : List Regmatch} {index : Nat} {line : Shown} :
    line ∈ showMatches toMatch p index m ↔
      ∃ k a b, m[k]? = some (some (a, b)) ∧ (∀ l < k, TookPart m l) ∧
        line = groupLine toMatch p (index + k) a b := by
  induction m generalizing index with
  | nil => exact iff_of_false List.not_mem_nil fun ⟨k, a, b, set, _⟩ => by cases set
  | cons entry m ih =>
      cases entry with
      | none =>
          apply iff_of_false List.not_mem_nil
          intro printed
          rcases printed with ⟨k, a, b, set, before, -⟩
          cases k with
          | zero => cases set
          | succ k =>
              obtain ⟨a', b', first⟩ := before 0 k.succ_pos
              cases first
      | some span =>
          obtain ⟨a, b⟩ := span
          rw [showMatches_cons, List.mem_cons, ih]
          constructor
          · intro place
            rcases place with rfl | ⟨k, a', b', set, before, rfl⟩
            · exact ⟨0, a, b, rfl, fun l front => absurd front l.not_lt_zero, rfl⟩
            · refine ⟨k + 1, a', b', set, fun l front => ?_, ?_⟩
              · cases l with
                | zero => exact ⟨a, b, rfl⟩
                | succ l => exact before l (Nat.lt_of_succ_lt_succ front)
              · rw [Nat.add_right_comm, Nat.add_assoc]
          · intro place
            rcases place with ⟨k, a', b', set, before, rfl⟩
            cases k with
            | zero =>
                cases set
                exact .inl rfl
            | succ k =>
                have earlier (l : Nat) (front : l < k) : TookPart m l :=
                  before (l + 1) (Nat.succ_lt_succ front)
                refine .inr ⟨k, a', b', set, earlier, ?_⟩
                rw [Nat.add_right_comm, Nat.add_assoc]

/-! ## The end of the loop -/

/-- The rest behind `p` has an empty match in front, and no longer one there. -/
def EmptyMatch (r : Regex Char) (toMatch : Text) (p : Nat) : Prop :=
  LeftmostLongest (subject false (toMatch.drop p)) r 0 0 0

theorem matchEnd_self_iff : MatchEnd r toMatch p p ↔ EmptyMatch r toMatch p := by
  constructor
  · intro self
    rcases self with ⟨i, j, longest, stays⟩
    obtain rfl : j = 0 := by omega
    obtain rfl : i = 0 := Nat.le_zero.mp longest.span.le
    exact longest
  · exact fun empty => ⟨0, 0, empty, rfl⟩

/-- The loop stays at an empty match. -/
theorem Posix.not_ends_of_emptyMatch (posix : Posix regexec) (empty : EmptyMatch r toMatch p) :
    ¬ Ends (matchRound regexec r toMatch) p := by
  refine not_ends_of_trap (fun q => q = p) ?_ rfl
  rintro _ rfl
  exact ⟨_, posix.round_iff.mpr (matchEnd_self_iff.mpr empty), rfl⟩

/-- A round that is not at an empty match goes on. -/
theorem MatchEnd.lt {q : Nat} (next : MatchEnd r toMatch p q) (full : ¬ EmptyMatch r toMatch p) :
    p < q := by
  have upto : p ≤ q := by
    obtain ⟨i, j, -, rfl⟩ := next
    exact Nat.le_add_right p j
  apply upto.lt_of_ne
  intro same
  subst same
  exact full (matchEnd_self_iff.mp next)

/-- The loop ends, with a position that goes on in every round, exactly when no place it
matches from has an empty match in front. -/
theorem matchRegex_ends_iff (posix : Posix regexec) (r : Regex Char) (toMatch : Text) :
    ((∃ fuel shown, matchRegex regexec r toMatch fuel = some shown) ∧
      ∀ p, Visits (matchRound regexec r toMatch) 0 p →
        ∀ shown q, matchRound regexec r toMatch p = some (shown, q) → p < q) ↔
      ∀ p, Restart r toMatch p → ¬ EmptyMatch r toMatch p := by
  constructor
  · intro both p restart empty
    rcases both with ⟨ends, -⟩
    have started : Ends (matchRound regexec r toMatch) 0 := ends
    exact posix.not_ends_of_emptyMatch empty
      ((ends_iff_of_visits (posix.visits_iff.mpr restart)).mp started)
  · intro full
    have goesOn : ∀ p q, Visits (matchRound regexec r toMatch) 0 p →
        Round (matchRound regexec r toMatch) p q → p < q ∧ q ≤ toMatch.length := by
      intro p q way step
      have restart := posix.visits_iff.mp way
      have next := posix.round_iff.mp step
      exact ⟨next.lt (full p restart), next.le_length restart.le_length⟩
    refine ⟨ends_of_measure (fun p => toMatch.length - p) fun p q way step => ?_,
      fun p way shown q step => (goesOn p q way ⟨shown, step⟩).1⟩
    obtain ⟨further, upto⟩ := goesOn p q way step
    omega

/-- An expression that wants a symbol ends on every subject. -/
theorem matchRegex_ends_of_not_nullable (posix : Posix regexec) (full : r.nullable = false)
    (toMatch : Text) : Ends (matchRound regexec r toMatch) 0 := by
  apply ends_of_measure fun p => toMatch.length - p
  intro p q way step
  have next := posix.round_iff.mp step
  have upto := next.le_length (posix.visits_iff.mp way).le_length
  have further : p < q := next.lt fun empty => by
    have may := empty.span.nullable rfl
    rw [full] at may
    cases may
  omega

/-- `a` in "ba". -/
theorem matchRegex_ends_iff_a :
    ∃ fuel shown, matchRegex posixRegexec (.one (· == 'a')) "ba".toList fuel = some shown :=
  ((matchRegex_ends_iff posix_posixRegexec (.one (· == 'a')) "ba".toList).mpr
    fun _ _ empty => by cases empty.span.nullable rfl).1

/-- `a*` in "b". -/
theorem matchRegex_ends_fail :
    ¬ ∀ regexec, Posix regexec → ∀ r toMatch,
      (∃ fuel shown, matchRegex regexec r toMatch fuel = some shown) ∧
        ∀ p, Visits (matchRound regexec r toMatch) 0 p →
          ∀ shown q, matchRound regexec r toMatch p = some (shown, q) → p < q := by
  intro all
  have first : matchRound posixRegexec (.star (.one (· == 'a'))) "b".toList 0 =
      some ([⟨0, 0, 0, []⟩], 0) := by decide
  have stays : ¬ Ends (matchRound posixRegexec (.star (.one (· == 'a'))) "b".toList) 0 := by
    refine not_ends_of_trap (fun p => p = 0) ?_ rfl
    rintro _ rfl
    exact ⟨0, ⟨_, first⟩, rfl⟩
  exact stays (all _ posix_posixRegexec _ _).1

end RegularExpr

end StudyLinux
