import Mathlib.Logic.Function.Basic
import Mathlib.Order.Nat

/-!
# Regular expressions with groups and anchors

An expression is matched at a place of a subject, a text with the positions where its
lines start and end. `Matches` has the spans of an expression, `Took` the spans together
with what the groups have captured. Where the lines start is part of the subject and not
of the text, so one text can be looked at alone or as a part of another:
`Matches.simulate` compares the two.
-/

namespace StudyLinux

/-- Expressions over the symbols `α`. A class of symbols is its test. -/
inductive Regex (α : Type)
  | empty
  | one (symbol : α → Bool)
  | lineStart
  | lineEnd
  | group (number : Nat) (r : Regex α)
  | cat (r q : Regex α)
  | alt (r q : Regex α)
  | star (r : Regex α)

namespace Regex

variable {α : Type}

/-- A text with the positions where its lines start and end. -/
structure Subject (α : Type) where
  text : List α
  starts : Nat → Bool
  ends : Nat → Bool

/-! ## Spans -/

/-- `Matches s r i j`: the symbols from `i` up to `j` are a match of `r`. -/
inductive Matches (s : Subject α) : Regex α → Nat → Nat → Prop
  | empty {i : Nat} : Matches s .empty i i
  | one {symbol : α → Bool} {i : Nat} {a : α} :
    s.text[i]? = some a → symbol a → Matches s (.one symbol) i (i + 1)
  | lineStart {i : Nat} : s.starts i → Matches s .lineStart i i
  | lineEnd {i : Nat} : s.ends i → Matches s .lineEnd i i
  | group {number : Nat} {r : Regex α} {i j : Nat} :
    Matches s r i j → Matches s (.group number r) i j
  | cat {r q : Regex α} {i j k : Nat} :
    Matches s r i j → Matches s q j k → Matches s (.cat r q) i k
  | altLeft {r q : Regex α} {i j : Nat} : Matches s r i j → Matches s (.alt r q) i j
  | altRight {r q : Regex α} {i j : Nat} : Matches s q i j → Matches s (.alt r q) i j
  | starNil {r : Regex α} {i : Nat} : Matches s (.star r) i i
  | starCons {r : Regex α} {i j k : Nat} :
    Matches s r i j → Matches s (.star r) j k → Matches s (.star r) i k

variable {s t : Subject α} {r : Regex α} {i j : Nat}

theorem Matches.le (h : Matches s r i j) : i ≤ j := by
  induction h with
  | empty => exact le_rfl
  | one => exact Nat.le_succ _
  | lineStart => exact le_rfl
  | lineEnd => exact le_rfl
  | group _ ih => exact ih
  | cat _ _ ihr ihq => exact ihr.trans ihq
  | altLeft _ ih => exact ih
  | altRight _ ih => exact ih
  | starNil => exact le_rfl
  | starCons _ _ ihr ihs => exact ihr.trans ihs

/-- A match ends inside the text when it starts there. -/
theorem Matches.le_length (h : Matches s r i j) (inside : i ≤ s.text.length) :
    j ≤ s.text.length := by
  induction h with
  | empty => exact inside
  | one found _ => exact (List.getElem?_eq_some_iff.mp found).choose
  | lineStart => exact inside
  | lineEnd => exact inside
  | group _ ih => exact ih inside
  | cat _ _ ihr ihq => exact ihq (ihr inside)
  | altLeft _ ih => exact ih inside
  | altRight _ ih => exact ih inside
  | starNil => exact inside
  | starCons _ _ ihr ihs => exact ihs (ihr inside)

/-- A correspondence of positions under which the second subject allows what the first
one does. -/
structure Simulates (R : Nat → Nat → Prop) (s t : Subject α) : Prop where
  next : ∀ {i i' a}, R i i' → s.text[i]? = some a → t.text[i']? = some a ∧ R (i + 1) (i' + 1)
  starts : ∀ {i i'}, R i i' → s.starts i → t.starts i'
  ends : ∀ {i i'}, R i i' → s.ends i → t.ends i'

/-- Matches go along with the positions. -/
theorem Matches.simulate {R : Nat → Nat → Prop} (sim : Simulates R s t) (h : Matches s r i j) :
    ∀ {i'}, R i i' → ∃ j', R j j' ∧ Matches t r i' j' := by
  induction h with
  | empty => exact fun related => ⟨_, related, .empty⟩
  | one found accepts =>
      intro i' related
      obtain ⟨same, next⟩ := sim.next related found
      exact ⟨_, next, .one same accepts⟩
  | lineStart here => exact fun related => ⟨_, related, .lineStart (sim.starts related here)⟩
  | lineEnd here => exact fun related => ⟨_, related, .lineEnd (sim.ends related here)⟩
  | group _ ih =>
      intro i' related
      obtain ⟨j', there, inner⟩ := ih related
      exact ⟨j', there, .group inner⟩
  | cat _ _ ihr ihq =>
      intro i' related
      obtain ⟨j', there, left⟩ := ihr related
      obtain ⟨k', end_there, right⟩ := ihq there
      exact ⟨k', end_there, .cat left right⟩
  | altLeft _ ih =>
      intro i' related
      obtain ⟨j', there, inner⟩ := ih related
      exact ⟨j', there, .altLeft inner⟩
  | altRight _ ih =>
      intro i' related
      obtain ⟨j', there, inner⟩ := ih related
      exact ⟨j', there, .altRight inner⟩
  | starNil => exact fun related => ⟨_, related, .starNil⟩
  | starCons _ _ ihr ihs =>
      intro i' related
      obtain ⟨j', there, first⟩ := ihr related
      obtain ⟨k', end_there, rest⟩ := ihs there
      exact ⟨k', end_there, .starCons first rest⟩

/-- Whether an expression asks where lines start. -/
def asksStart : Regex α → Bool
  | .empty | .one _ | .lineEnd => false
  | .lineStart => true
  | .group _ r | .star r => r.asksStart
  | .cat r q | .alt r q => r.asksStart || q.asksStart

/-- An expression that does not ask matches wherever lines start. -/
theorem Matches.of_not_asksStart (h : Matches s r i j) (silent : r.asksStart = false)
    (starts : Nat → Bool) : Matches { s with starts := starts } r i j := by
  induction h with
  | empty => exact .empty
  | one found accepts => exact .one found accepts
  | lineStart => cases silent
  | lineEnd here => exact .lineEnd here
  | group _ ih => exact .group (ih silent)
  | cat _ _ ihr ihq =>
      have both := Bool.or_eq_false_iff.mp silent
      exact .cat (ihr both.1) (ihq both.2)
  | altLeft _ ih => exact .altLeft (ih (Bool.or_eq_false_iff.mp silent).1)
  | altRight _ ih => exact .altRight (ih (Bool.or_eq_false_iff.mp silent).2)
  | starNil => exact .starNil
  | starCons _ _ ihr ihs => exact .starCons (ihr silent) (ihs silent)

/-- Whether an expression may match no symbol, whatever the anchors say. -/
def nullable : Regex α → Bool
  | .empty | .lineStart | .lineEnd | .star _ => true
  | .one _ => false
  | .group _ r => r.nullable
  | .cat r q => r.nullable && q.nullable
  | .alt r q => r.nullable || q.nullable

theorem Matches.nullable (h : Matches s r i j) (same : i = j) : r.nullable := by
  induction h with
  | empty => rfl
  | one => exact absurd same (Nat.succ_ne_self _).symm
  | lineStart => rfl
  | lineEnd => rfl
  | group _ ih => exact ih same
  | cat left right ihr ihq =>
      have stays := le_antisymm left.le (right.le.trans same.ge)
      exact Bool.and_eq_true_iff.mpr ⟨ihr stays, ihq (stays.symm.trans same)⟩
  | altLeft _ ih => exact Bool.or_eq_true_iff.mpr (.inl (ih same))
  | altRight _ ih => exact Bool.or_eq_true_iff.mpr (.inr (ih same))
  | starNil => rfl
  | starCons => rfl

/-! ## Captures -/

/-- The spans that the groups have captured. -/
abbrev Captures := Nat → Option (Nat × Nat)

/-- The groups of an expression. -/
def groups : Regex α → List Nat
  | .empty | .one _ | .lineStart | .lineEnd => []
  | .group number r => number :: r.groups
  | .cat r q | .alt r q => r.groups ++ q.groups
  | .star r => r.groups

/-- Forgets what the groups of an expression have captured. -/
def clear (r : Regex α) (c : Captures) : Captures :=
  fun number => if number ∈ r.groups then none else c number

/-- A match with what the groups have captured before and behind it. A group that is
entered again forgets the groups in it, so a group inside another one took part only
if it did in the last match of the other one. -/
inductive Took (s : Subject α) : Regex α → Nat → Captures → Nat → Captures → Prop
  | empty {i : Nat} {c : Captures} : Took s .empty i c i c
  | one {symbol : α → Bool} {i : Nat} {a : α} {c : Captures} :
    s.text[i]? = some a → symbol a → Took s (.one symbol) i c (i + 1) c
  | lineStart {i : Nat} {c : Captures} : s.starts i → Took s .lineStart i c i c
  | lineEnd {i : Nat} {c : Captures} : s.ends i → Took s .lineEnd i c i c
  | group {number : Nat} {r : Regex α} {i j : Nat} {c c' : Captures} :
    Took s r i (r.clear c) j c' →
    Took s (.group number r) i c j (Function.update c' number (some (i, j)))
  | cat {r q : Regex α} {i j k : Nat} {c c' c'' : Captures} :
    Took s r i c j c' → Took s q j c' k c'' → Took s (.cat r q) i c k c''
  | altLeft {r q : Regex α} {i j : Nat} {c c' : Captures} :
    Took s r i c j c' → Took s (.alt r q) i c j c'
  | altRight {r q : Regex α} {i j : Nat} {c c' : Captures} :
    Took s q i c j c' → Took s (.alt r q) i c j c'
  | starNil {r : Regex α} {i : Nat} {c : Captures} : Took s (.star r) i c i c
  | starCons {r : Regex α} {i j k : Nat} {c c' c'' : Captures} :
    Took s r i c j c' → Took s (.star r) j c' k c'' → Took s (.star r) i c k c''

variable {c c' : Captures}

theorem Took.span (h : Took s r i c j c') : Matches s r i j := by
  induction h with
  | empty => exact .empty
  | one found accepts => exact .one found accepts
  | lineStart here => exact .lineStart here
  | lineEnd here => exact .lineEnd here
  | group _ ih => exact .group ih
  | cat _ _ ihr ihq => exact .cat ihr ihq
  | altLeft _ ih => exact .altLeft ih
  | altRight _ ih => exact .altRight ih
  | starNil => exact .starNil
  | starCons _ _ ihr ihs => exact .starCons ihr ihs

/-- Of two matches in a row, what was captured before both or inside one of them. -/
theorem inside_trans {i j k : Nat} {captured earlier before : Prop} {a b : Nat}
    (first : earlier → before ∨ i ≤ a ∧ a ≤ b ∧ b ≤ j) (ordered : i ≤ j) (further : j ≤ k)
    (second : captured → earlier ∨ j ≤ a ∧ a ≤ b ∧ b ≤ k) (now : captured) :
    before ∨ i ≤ a ∧ a ≤ b ∧ b ≤ k := by
  rcases second now with early | ⟨after, forward, upto⟩
  · rcases first early with first_of_all | ⟨after, forward, upto⟩
    · exact .inl first_of_all
    · exact .inr ⟨after, forward, upto.trans further⟩
  · exact .inr ⟨ordered.trans after, forward, upto⟩

/-- What a group has captured in a match lies inside the match. -/
theorem Took.inside (h : Took s r i c j c') {number a b : Nat}
    (captured : c' number = some (a, b)) :
    c number = some (a, b) ∨ i ≤ a ∧ a ≤ b ∧ b ≤ j := by
  induction h with
  | empty => exact .inl captured
  | one => exact .inl captured
  | lineStart => exact .inl captured
  | lineEnd => exact .inl captured
  | @group own r i j c c' inner ih =>
      by_cases self : number = own
      · rw [self, Function.update_self] at captured
        cases captured
        exact .inr ⟨le_rfl, inner.span.le, le_rfl⟩
      · rw [Function.update_of_ne self] at captured
        rcases ih captured with before | within
        · rw [clear] at before
          split at before
          · cases before
          · exact .inl before
        · exact .inr within
  | cat left right ihr ihq =>
      exact inside_trans ihr left.span.le right.span.le ihq captured
  | altLeft _ ih => exact ih captured
  | altRight _ ih => exact ih captured
  | starNil => exact .inl captured
  | starCons first rest ihr ihs =>
      exact inside_trans ihr first.span.le rest.span.le ihs captured

end Regex

end StudyLinux
