import StudyLinux.System.Loop

/-!
# Characters pushed back

The loop of ungetc.c pushes "^*%" back for every '#', and reads its own characters before
it reads on. It keeps what `fgetc` returns in a char, which cannot hold all bytes and EOF
apart: `ungetc_iff` says when it prints the whole file and ends.
-/

namespace StudyLinux

namespace StdFile

/-! ## The stream -/

abbrev Byte := BitVec 8

def hash : Byte := 35
def percent : Byte := 37
def star : Byte := 42
def caret : Byte := 94

/-- The byte that EOF becomes in a char. -/
def eofByte : Byte := 255

/-- The characters that were pushed back, the last one first, and the rest of the file. -/
structure Stream where
  pushed : List Byte
  rest : List Byte

/-- EOF. -/
def EOF : Int := -1

/-- `fgetc`. -/
def fgetc : Stream → Int × Stream
  | ⟨c :: pushed, rest⟩ => (c.toNat, ⟨pushed, rest⟩)
  | ⟨[], c :: rest⟩ => (c.toNat, ⟨[], rest⟩)
  | ⟨[], []⟩ => (EOF, ⟨[], []⟩)

/-- `ungetc`. -/
def ungetc (c : Byte) (stream : Stream) : Stream := { stream with pushed := c :: stream.pushed }

/-! ## The loop -/

/-- An int that is stored in a char. -/
def toChar (n : Int) : Byte := BitVec.ofInt 8 n

/-- A char as an int again. Whether char is signed is up to the machine. -/
def ofChar (signed : Bool) (c : Byte) : Int := if signed then c.toInt else c.toNat

/-- A round of the loop of `main`. -/
def ungetcRound (signed : Bool) (stream : Stream) : Option (List Byte × Stream) :=
  let (n, stream) := fgetc stream
  let c := toChar n
  if ofChar signed c = EOF then none
  else if ofChar signed c = hash.toNat then
    some ([], ungetc caret (ungetc star (ungetc percent stream)))
  else some ([c], stream)

/-- The content with "^*%" for every '#'. -/
def replaced (content : List Byte) : List Byte :=
  content.flatMap fun c => if c = hash then [caret, star, percent] else [c]

/-! ## One character -/

theorem toChar_toNat (c : Byte) : toChar c.toNat = c := by
  rw [toChar, BitVec.ofInt_natCast, BitVec.ofNat_toNat, BitVec.setWidth_eq]

theorem ofChar_eq_eof_iff {signed : Bool} {c : Byte} :
    ofChar signed c = EOF ↔ signed = true ∧ c = eofByte := by
  cases signed with
  | false =>
      refine iff_of_false ?_ fun both => by cases both.1
      rw [ofChar, if_neg Bool.false_ne_true, EOF]
      omega
  | true =>
      rw [ofChar, if_pos rfl, and_iff_right rfl]
      exact BitVec.toInt_inj (y := eofByte)

theorem ofChar_eq_hash_iff {signed : Bool} {c : Byte} :
    ofChar signed c = hash.toNat ↔ c = hash := by
  cases signed with
  | false =>
      rw [ofChar, if_neg Bool.false_ne_true, Int.ofNat_inj]
      exact BitVec.toNat_inj
  | true =>
      rw [ofChar, if_pos rfl]
      exact BitVec.toInt_inj (y := hash)

/-- A round that has a character to read. -/
theorem ungetcRound_of_char {signed : Bool} {s t : Stream} {c : Byte}
    (next : fgetc s = ((c.toNat : Int), t)) :
    ungetcRound signed s =
      if signed = true ∧ c = eofByte then none
      else if c = hash then some ([], ⟨caret :: star :: percent :: t.pushed, t.rest⟩)
      else some ([c], t) := by
  unfold ungetcRound
  rw [next]
  dsimp only
  rw [toChar_toNat]
  simp only [ofChar_eq_eof_iff, ofChar_eq_hash_iff]
  rfl

/-! ## The end of the loop -/

/-- Where char is unsigned every round goes on, at the end of the file too. -/
theorem exists_round_of_unsigned (s : Stream) : ∃ t, Round (ungetcRound false) s t := by
  have goesOn {c : Byte} {t : Stream} (next : fgetc s = ((c.toNat : Int), t)) :
      ∃ t, Round (ungetcRound false) s t := by
    unfold Round
    rw [ungetcRound_of_char next, if_neg fun both => Bool.false_ne_true both.1]
    split
    · exact ⟨_, _, rfl⟩
    · exact ⟨_, _, rfl⟩
  obtain ⟨pushed, rest⟩ := s
  rcases pushed with _ | ⟨c, pushed⟩
  · rcases rest with _ | ⟨c, rest⟩
    · exact ⟨⟨[], []⟩, [eofByte], rfl⟩
    · exact goesOn rfl
  · exact goesOn rfl

/-- Characters that were pushed back are printed when they are neither '#' nor EOF. -/
theorem endsWith_pushed {pushed rest outputs : List Byte}
    (plain : ∀ c ∈ pushed, c ≠ hash ∧ c ≠ eofByte)
    (later : EndsWith (ungetcRound true) ⟨[], rest⟩ outputs) :
    EndsWith (ungetcRound true) ⟨pushed, rest⟩ (pushed ++ outputs) := by
  induction pushed with
  | nil => exact later
  | cons c pushed ih =>
      obtain ⟨⟨other, inside⟩, tail⟩ := List.forall_mem_cons.mp plain
      have round : ungetcRound true ⟨c :: pushed, rest⟩ = some ([c], ⟨pushed, rest⟩) := by
        rw [ungetcRound_of_char rfl, if_neg fun both => inside both.2, if_neg other]
      have printed := endsWith_of_next round (ih tail)
      exact printed

/-- Where char is signed the first byte 0xFF ends the loop. -/
theorem endsWith_signed (content : List Byte) :
    EndsWith (ungetcRound true) ⟨[], content⟩
      (replaced (content.takeWhile fun c => c ≠ eofByte)) := by
  induction content with
  | nil => exact endsWith_of_last (by decide)
  | cons c content ih =>
      by_cases last : c = eofByte
      · rw [List.takeWhile_cons_of_neg (by simpa using last)]
        apply endsWith_of_last
        rw [ungetcRound_of_char rfl, if_pos ⟨rfl, last⟩]
      · rw [List.takeWhile_cons_of_pos (by simpa using last), replaced, List.flatMap_cons]
        by_cases marked : c = hash
        · have round : ungetcRound true ⟨[], c :: content⟩ =
              some ([], ⟨[caret, star, percent], content⟩) := by
            rw [ungetcRound_of_char rfl, if_neg fun both => last both.2, if_pos marked]
          have later : EndsWith (ungetcRound true) ⟨[caret, star, percent], content⟩
              ([caret, star, percent] ++ replaced (content.takeWhile fun c => c ≠ eofByte)) :=
            endsWith_pushed (by decide) ih
          have printed := endsWith_of_next round later
          rw [if_pos marked]
          exact printed
        · have round : ungetcRound true ⟨[], c :: content⟩ = some ([c], ⟨[], content⟩) := by
            rw [ungetcRound_of_char rfl, if_neg fun both => last both.2, if_neg marked]
          have printed := endsWith_of_next round ih
          rw [if_neg marked]
          exact printed

/-- Nothing behind the first 0xFF is printed. -/
theorem replaced_takeWhile_eq_iff (content : List Byte) :
    replaced (content.takeWhile fun c => c ≠ eofByte) = replaced content ↔ eofByte ∉ content := by
  induction content with
  | nil => exact iff_of_true rfl List.not_mem_nil
  | cons c content ih =>
      by_cases last : c = eofByte
      · rw [List.takeWhile_cons_of_neg (by simpa using last), last]
        refine iff_of_false (fun same => ?_) fun absent => absent List.mem_cons_self
        cases same
      · rw [List.takeWhile_cons_of_pos (by simpa using last), replaced, replaced, List.flatMap_cons,
          List.flatMap_cons, List.append_cancel_left_eq, List.mem_cons, not_or,
          and_iff_right (Ne.symm last)]
        exact ih

/-- The loop prints the file with "^*%" for every '#', and ends, exactly where char is
signed and the file has no byte 0xFF. -/
theorem ungetc_iff (signed : Bool) (content : List Byte) :
    EndsWith (ungetcRound signed) ⟨[], content⟩ (replaced content) ↔
      signed = true ∧ eofByte ∉ content := by
  cases signed with
  | false =>
      refine iff_of_false (fun ended => ?_) fun both => Bool.false_ne_true both.1
      refine not_ends_of_trap (fun _ => True) (fun s _ => ?_) trivial ended.ends
      obtain ⟨t, round⟩ := exists_round_of_unsigned s
      exact ⟨t, round, trivial⟩
  | true =>
      rw [and_iff_right rfl, ← replaced_takeWhile_eq_iff]
      constructor
      · exact fun ended => (endsWith_signed content).unique ended
      · intro same
        rw [← same]
        exact endsWith_signed content

/-- One byte 0xFF, where char is signed. -/
theorem ungetc_fail :
    ¬ ∀ content, EndsWith (ungetcRound true) ⟨[], content⟩ (replaced content) := by
  intro all
  have silent : EndsWith (ungetcRound true) ⟨[], [eofByte]⟩ [] := endsWith_signed [eofByte]
  cases (all [eofByte]).unique silent

end StdFile

end StudyLinux
