import Mathlib.Algebra.Order.Field.Rat
import Mathlib.Data.Prod.Lex
import Mathlib.Data.List.Lex
import Mathlib.Data.Char
import Mathlib.Tactic.FieldSimp
import Mathlib.Tactic.NormNum
import Mathlib.Tactic.Ring
import StudyLinux.Order.SortBy
import StudyLinux.Text.Filter

/-!
# Decimal numerals in text

Numbers as commands read and print them. `Dec` is a decimal numeral, an integer
mantissa and a number of decimals. `leadingNumber` is the key `sort -n`
compares, `bcNumber` what `bc` accepts as one operand, `Dec.print` how `bc`
prints a result. `fixedPoint` is the `%lu.%0ku` text of a count of ticks; both
readers give the count back, and subtraction of two such texts is exact.
-/

namespace StudyLinux

/-! ## Digits -/

/-- `%lu`. -/
def decimal (n : Nat) : Text := Nat.toDigits 10 n

/-- `%d`. -/
def decimalInt : Int → Text
  | .ofNat n => decimal n
  | .negSucc n => '-' :: decimal (n + 1)

theorem isDigit_of_mem_decimal {n : Nat} {c : Char} (member : c ∈ decimal n) : c.isDigit :=
  Nat.isDigit_of_mem_toDigits (by decide) (by decide) member

theorem mem_decimalInt {n : Int} {c : Char} (member : c ∈ decimalInt n) : c.isDigit ∨ c = '-' := by
  cases n with
  | ofNat n => exact Or.inl (isDigit_of_mem_decimal member)
  | negSucc n =>
      rcases List.mem_cons.mp member with sign | digit
      · exact Or.inr sign
      · exact Or.inl (isDigit_of_mem_decimal digit)

/-- A number has digits only. -/
theorem not_mem_decimal {c : Char} (other : ¬ c.isDigit) (n : Nat) : c ∉ decimal n :=
  fun member => other (isDigit_of_mem_decimal member)

theorem not_mem_decimalInt {c : Char} (other : ¬ (c.isDigit ∨ c = '-')) (n : Int) :
    c ∉ decimalInt n := fun member => other (mem_decimalInt member)

@[simp] theorem decimal_ne_nil (n : Nat) : decimal n ≠ [] := Nat.toDigits_ne_nil

theorem decimal_injective {m n : Nat} (same : decimal m = decimal n) : m = n := by
  have := congrArg (fun digits => Nat.ofDigitChars 10 digits 0) same
  simpa [decimal] using this

/-- The width of a number against a field width. -/
theorem length_decimal_le {n width : Nat} (positive : 0 < width) :
    (decimal n).length ≤ width ↔ n < 10 ^ width :=
  Nat.length_toDigits_le_iff (by decide) positive

/-- `%0ku`. -/
def zeroPadded (width n : Nat) : Text := List.leftpad width '0' (decimal n)

theorem isDigit_of_mem_zeroPadded {width n : Nat} {c : Char} (member : c ∈ zeroPadded width n) :
    c.isDigit := by
  rw [zeroPadded, List.leftpad, List.mem_append] at member
  rcases member with pad | digit
  · rw [List.eq_of_mem_replicate pad]; decide
  · exact isDigit_of_mem_decimal digit

theorem length_zeroPadded {width n : Nat} (positive : 0 < width) (fits : n < 10 ^ width) :
    (zeroPadded width n).length = width := by
  rw [zeroPadded, List.length_leftpad]
  exact max_eq_left ((length_decimal_le positive).mpr fits)

/-- Leading zeros do not count. -/
theorem ofDigitChars_zeroPadded (width n init : Nat) (fits : (decimal n).length ≤ width) :
    Nat.ofDigitChars 10 (zeroPadded width n) init = 10 ^ width * init + n := by
  rw [zeroPadded, List.leftpad, Nat.ofDigitChars_append, Nat.ofDigitChars_replicate_zero,
    Nat.ofDigitChars_eq_ofDigitChars_zero, decimal, Nat.ofDigitChars_ten_toDigits,
    ← Nat.mul_assoc, ← Nat.pow_add]
  rw [decimal] at fits
  congr 3
  omega

/-! ## Numerals -/

/-- A decimal numeral: `mantissa / 10 ^ scale`. -/
structure Dec where
  mantissa : Int
  scale : Nat
  deriving DecidableEq, Repr

/-- The number a numeral denotes. -/
def Dec.value (d : Dec) : ℚ := d.mantissa / 10 ^ d.scale

/-- Numerals of one scale compare as their mantissas do. -/
theorem Dec.value_le_value {m n : Int} {scale : Nat} :
    (Dec.mk m scale).value ≤ (Dec.mk n scale).value ↔ m ≤ n := by
  rw [Dec.value, Dec.value, div_le_div_iff_of_pos_right (pow_pos (by norm_num) scale)]
  exact Int.cast_le

/-- Subtraction as `bc` does it: the result has the larger of the two scales. -/
def Dec.sub (a b : Dec) : Dec :=
  ⟨a.mantissa * 10 ^ (max a.scale b.scale - a.scale) -
    b.mantissa * 10 ^ (max a.scale b.scale - b.scale), max a.scale b.scale⟩

theorem Dec.value_rescale (m : Int) {scale larger : Nat} (le : scale ≤ larger) :
    ((m * 10 ^ (larger - scale) : Int) : ℚ) / 10 ^ larger = m / 10 ^ scale := by
  obtain ⟨extra, rfl⟩ := Nat.exists_eq_add_of_le le
  rw [Nat.add_sub_cancel_left, pow_add]
  push_cast
  field_simp

theorem Dec.value_sub (a b : Dec) : (a.sub b).value = a.value - b.value := by
  rw [Dec.value, Dec.sub, Int.cast_sub, sub_div, Dec.value_rescale _ (le_max_left _ _),
    Dec.value_rescale _ (le_max_right _ _)]
  rfl

@[simp] theorem Dec.sub_mk (m n : Int) (scale : Nat) :
    (Dec.mk m scale).sub ⟨n, scale⟩ = ⟨m - n, scale⟩ := by
  simp [Dec.sub]

/-! ## Reading -/

/-- The digits, and the digits behind a point, that a text starts with. -/
def digitsAndDecimals (text : Text) : Text × Text :=
  (text.takeWhile Char.isDigit,
    match text.dropWhile Char.isDigit with
    | '.' :: rest => rest.takeWhile Char.isDigit
    | _ => [])

/-- The numeral of a run of digits and a run of decimals. -/
def ofDigits (whole decimals : Text) : Dec :=
  ⟨Nat.ofDigitChars 10 (whole ++ decimals) 0, decimals.length⟩

/-- The number `sort -n` reads at the start of a line: blanks, a sign, digits,
decimals; zero where there is none. -/
def leadingNumber (line : Text) : Dec :=
  match line.dropWhile (· == ' ') with
  | '-' :: rest =>
      let (whole, decimals) := digitsAndDecimals rest
      ⟨-(ofDigits whole decimals).mantissa, decimals.length⟩
  | body =>
      let (whole, decimals) := digitsAndDecimals body
      ofDigits whole decimals

/-- Without a sign the number is what stands behind the blanks. -/
theorem leadingNumber_of_head {line : Text}
    (unsigned : (line.dropWhile (· == ' ')).head? ≠ some '-') :
    leadingNumber line = ofDigits (digitsAndDecimals (line.dropWhile (· == ' '))).1
      (digitsAndDecimals (line.dropWhile (· == ' '))).2 := by
  unfold leadingNumber
  split
  · rename_i same
    rw [same] at unsigned
    exact absurd rfl unsigned
  · rfl

/-- Without a blank or a sign in front the whole line is read. -/
theorem leadingNumber_of_unsigned {line : Text} (first : ∀ c ∈ line.head?, c.isDigit ∨ c = '.') :
    leadingNumber line = ofDigits (digitsAndDecimals line).1 (digitsAndDecimals line).2 := by
  have noBlank : line.dropWhile (· == ' ') = line := by
    cases line with
    | nil => rfl
    | cons c rest =>
        refine List.dropWhile_cons_of_neg fun blank => ?_
        rw [beq_iff_eq.mp blank] at first
        exact absurd (first ' ' rfl) (by decide)
  have noSign : (line.dropWhile (· == ' ')).head? ≠ some '-' := by
    rw [noBlank]
    exact fun sign => absurd (first '-' sign) (by decide)
  rw [leadingNumber_of_head noSign, noBlank]

theorem leadingNumber_minus (body : Text) :
    leadingNumber ('-' :: body) =
      ⟨-(ofDigits (digitsAndDecimals body).1 (digitsAndDecimals body).2).mantissa,
        (ofDigits (digitsAndDecimals body).1 (digitsAndDecimals body).2).scale⟩ := rfl

section Cut

variable {p : Char → Bool} {stop : Char}

theorem takeWhile_append_cons (stops : p stop = false) (a b : Text) :
    (a ++ stop :: b).takeWhile p = a.takeWhile p := by
  induction a with
  | nil => simp [stops]
  | cons c a ih =>
      rw [List.cons_append, List.takeWhile_cons, List.takeWhile_cons, ih]

theorem dropWhile_append_cons (stops : p stop = false) (a b : Text) :
    (a ++ stop :: b).dropWhile p = a.dropWhile p ++ stop :: b := by
  induction a with
  | nil => simp [stops]
  | cons c a ih =>
      rw [List.cons_append, List.dropWhile_cons, List.dropWhile_cons]
      split
      · exact ih
      · rfl

end Cut

theorem digitsAndDecimals_append_comma (a b : Text) :
    digitsAndDecimals (a ++ ',' :: b) = digitsAndDecimals a := by
  have digit : Char.isDigit ',' = false := by decide
  rw [digitsAndDecimals, digitsAndDecimals, takeWhile_append_cons digit,
    dropWhile_append_cons digit]
  congr 1
  rcases a.dropWhile Char.isDigit with _ | ⟨c, rest⟩
  · rfl
  · by_cases point : c = '.'
    · subst point
      exact takeWhile_append_cons digit rest b
    · rw [List.cons_append]
      split
      · rename_i same
        exact absurd (List.cons.inj same).1 point
      · split
        · rename_i same
          exact absurd (List.cons.inj same).1 point
        · rfl

/-- The number at the start of a row ends at its first comma. -/
theorem leadingNumber_append_comma (a b : Text) :
    leadingNumber (a ++ ',' :: b) = leadingNumber a := by
  have body : (a ++ ',' :: b).dropWhile (· == ' ') = a.dropWhile (· == ' ') ++ ',' :: b :=
    dropWhile_append_cons (by decide) a b
  have read := digitsAndDecimals_append_comma (a.dropWhile (· == ' ')) b
  by_cases sign : (a.dropWhile (· == ' ')).head? = some '-'
  · obtain ⟨rest, signed⟩ := List.head?_eq_some_iff.mp sign
    rw [leadingNumber, leadingNumber, body, signed]
    simp only [List.cons_append, digitsAndDecimals_append_comma]
  · have sign' : ((a ++ ',' :: b).dropWhile (· == ' ')).head? ≠ some '-' := by
      rw [body]
      cases behind : a.dropWhile (· == ' ') with
      | nil => simp
      | cons c rest => rwa [behind] at sign
    rw [leadingNumber_of_head sign, leadingNumber_of_head sign', body, read]

/-- An operand of `bc`: digits, at most one point, nothing else. -/
def bcNumber (text : Text) : Option Dec :=
  let (whole, decimals) := digitsAndDecimals text
  if text = whole ∧ whole ≠ [] ∨ text = whole ++ '.' :: decimals then some (ofDigits whole decimals)
  else none

/-- Digits, a point and decimals are read as such, whatever follows. -/
theorem digitsAndDecimals_append {whole decimals rest : Text}
    (wholeDigits : ∀ c ∈ whole, c.isDigit) (decimalDigits : ∀ c ∈ decimals, c.isDigit)
    (ends : ∀ c ∈ rest.head?, c.isDigit = false) :
    digitsAndDecimals (whole ++ '.' :: (decimals ++ rest)) = (whole, decimals) := by
  have decimalsRead : (decimals ++ rest).takeWhile Char.isDigit = decimals := by
    rw [List.takeWhile_append_of_pos decimalDigits]
    cases rest with
    | nil => simp
    | cons c rest => simp [ends c (by simp)]
  rw [digitsAndDecimals, List.takeWhile_append_of_pos wholeDigits,
    List.dropWhile_append_of_pos wholeDigits]
  simp only [List.takeWhile_cons, List.dropWhile_cons, show Char.isDigit '.' = false by decide,
    Bool.false_eq_true, if_false, List.append_nil, decimalsRead]

/-! ## Printing -/

/-- The digits `bc` prints for a magnitude: no zero in front of the point. -/
def printMagnitude (magnitude scale : Nat) : Text :=
  (if magnitude / 10 ^ scale = 0 then [] else decimal (magnitude / 10 ^ scale)) ++
    (if scale = 0 then [] else '.' :: zeroPadded scale (magnitude % 10 ^ scale))

/-- How `bc` prints a number; zero is printed without decimals. -/
def Dec.print (d : Dec) : Text :=
  if d.mantissa = 0 then ['0']
  else if d.mantissa < 0 then '-' :: printMagnitude d.mantissa.natAbs d.scale
  else printMagnitude d.mantissa.natAbs d.scale

/-- What `bc` prints for a magnitude with decimals, read up to its end. -/
theorem digitsAndDecimals_printMagnitude {magnitude scale : Nat} (positive : 0 < scale) :
    digitsAndDecimals (printMagnitude magnitude scale) =
      (if magnitude / 10 ^ scale = 0 then [] else decimal (magnitude / 10 ^ scale),
        zeroPadded scale (magnitude % 10 ^ scale)) := by
  have whole : ∀ c ∈ (if magnitude / 10 ^ scale = 0 then []
      else decimal (magnitude / 10 ^ scale)), c.isDigit := by
    split
    · exact fun _ member => absurd member List.not_mem_nil
    · exact fun _ => isDigit_of_mem_decimal
  rw [printMagnitude, if_neg (c := scale = 0) positive.ne']
  have decimals : ∀ c ∈ zeroPadded scale (magnitude % 10 ^ scale), c.isDigit :=
    fun _ => isDigit_of_mem_zeroPadded
  have ends : ∀ c ∈ ([] : Text).head?, c.isDigit = false := by simp
  have read := digitsAndDecimals_append whole decimals ends
  rwa [List.append_nil] at read

/-- A missing zero in front of the point changes nothing. -/
theorem ofDigits_printMagnitude {magnitude scale : Nat} (positive : 0 < scale) :
    ofDigits (if magnitude / 10 ^ scale = 0 then [] else decimal (magnitude / 10 ^ scale))
      (zeroPadded scale (magnitude % 10 ^ scale)) = ⟨magnitude, scale⟩ := by
  have below : magnitude % 10 ^ scale < 10 ^ scale := Nat.mod_lt _ (Nat.pow_pos (by decide))
  have digits : (decimal (magnitude % 10 ^ scale)).length ≤ scale :=
    (length_decimal_le positive).mpr below
  rw [ofDigits, Nat.ofDigitChars_append, ofDigitChars_zeroPadded _ _ _ digits,
    length_zeroPadded positive below]
  split
  · rename_i zero
    have small := Nat.div_add_mod magnitude (10 ^ scale)
    rw [zero] at small
    rw [Nat.ofDigitChars_nil, small]
  · rw [decimal, Nat.ofDigitChars_ten_toDigits, Nat.div_add_mod]

/-- A printed number starts with a digit or its point, not with a blank or a sign. -/
theorem leadingNumber_printMagnitude {magnitude scale : Nat} (positive : 0 < scale) :
    leadingNumber (printMagnitude magnitude scale) = ⟨magnitude, scale⟩ := by
  have first : ∀ c ∈ (printMagnitude magnitude scale).head?, c.isDigit ∨ c = '.' := by
    intro c head
    rw [printMagnitude, if_neg (c := scale = 0) positive.ne'] at head
    split at head
    · exact Or.inr (Option.some.inj head).symm
    · rw [List.head?_append_of_ne_nil _ (decimal_ne_nil _)] at head
      exact Or.inl (isDigit_of_mem_decimal (List.mem_of_mem_head? head))
  rw [leadingNumber_of_unsigned first, digitsAndDecimals_printMagnitude positive,
    ofDigits_printMagnitude positive]

/-- `sort -n` reads what `bc` prints. -/
theorem leadingNumber_print {d : Dec} (positive : 0 < d.scale) :
    (leadingNumber d.print).value = d.value := by
  obtain ⟨mantissa, scale⟩ := d
  unfold Dec.print
  split
  · rename_i zero
    rw [show mantissa = 0 from zero, show leadingNumber ['0'] = ⟨0, 0⟩ by decide, Dec.value,
      Dec.value, Int.cast_zero, zero_div, zero_div]
  · split
    · rename_i negative
      have magnitude : (mantissa.natAbs : Int) = -mantissa := Int.ofNat_natAbs_of_nonpos negative.le
      rw [leadingNumber_minus, digitsAndDecimals_printMagnitude positive,
        ofDigits_printMagnitude positive, magnitude, neg_neg]
    · rename_i nonneg
      have magnitude : (mantissa.natAbs : Int) = mantissa :=
        Int.natAbs_of_nonneg (not_lt.mp nonneg)
      rw [leadingNumber_printMagnitude positive, magnitude]

/-! ## Ticks -/

/-- `%lu.%0ku` of a count of ticks, `10 ^ k` to the unit. -/
def fixedPoint (k ticks : Nat) : Text :=
  decimal (ticks / 10 ^ k) ++ '.' :: zeroPadded k (ticks % 10 ^ k)

section FixedPoint

variable {k ticks : Nat}

theorem length_decimal_mod (positive : 0 < k) : (decimal (ticks % 10 ^ k)).length ≤ k :=
  (length_decimal_le positive).mpr (Nat.mod_lt _ (Nat.pow_pos (by decide)))

theorem ofDigits_fixedPoint (positive : 0 < k) :
    ofDigits (decimal (ticks / 10 ^ k)) (zeroPadded k (ticks % 10 ^ k)) = ⟨ticks, k⟩ := by
  rw [ofDigits, Nat.ofDigitChars_append,
    ofDigitChars_zeroPadded _ _ _ (length_decimal_mod positive), decimal,
    Nat.ofDigitChars_ten_toDigits, Nat.div_add_mod,
    length_zeroPadded positive (Nat.mod_lt _ (Nat.pow_pos (by decide)))]

theorem digitsAndDecimals_fixedPoint {rest : Text}
    (ends : ∀ c ∈ rest.head?, c.isDigit = false) :
    digitsAndDecimals (fixedPoint k ticks ++ rest) =
      (decimal (ticks / 10 ^ k), zeroPadded k (ticks % 10 ^ k)) := by
  rw [fixedPoint, List.append_assoc, List.cons_append]
  exact digitsAndDecimals_append (fun _ => isDigit_of_mem_decimal)
    (fun _ => isDigit_of_mem_zeroPadded) ends

/-- `bc` reads a count of ticks back. -/
theorem bcNumber_fixedPoint (positive : 0 < k) :
    bcNumber (fixedPoint k ticks) = some ⟨ticks, k⟩ := by
  have read : digitsAndDecimals (fixedPoint k ticks ++ []) =
      (decimal (ticks / 10 ^ k), zeroPadded k (ticks % 10 ^ k)) :=
    digitsAndDecimals_fixedPoint (by simp)
  rw [List.append_nil] at read
  simp only [bcNumber, read, ofDigits_fixedPoint positive]
  exact if_pos (Or.inr rfl)

/-- `sort -n` reads a count of ticks back when a non-digit follows. -/
theorem leadingNumber_fixedPoint (positive : 0 < k) {rest : Text}
    (ends : ∀ c ∈ rest.head?, c.isDigit = false) :
    leadingNumber (fixedPoint k ticks ++ rest) = ⟨ticks, k⟩ := by
  have first : ∀ c ∈ (fixedPoint k ticks ++ rest).head?, c.isDigit ∨ c = '.' := by
    intro c head
    rw [fixedPoint, List.append_assoc, List.head?_append_of_ne_nil _ (decimal_ne_nil _)] at head
    exact Or.inl (isDigit_of_mem_decimal (List.mem_of_mem_head? head))
  rw [leadingNumber_of_unsigned first, digitsAndDecimals_fixedPoint ends,
    ofDigits_fixedPoint positive]

theorem mem_fixedPoint {c : Char} (member : c ∈ fixedPoint k ticks) : c.isDigit ∨ c = '.' := by
  rw [fixedPoint, List.mem_append, List.mem_cons] at member
  rcases member with whole | point | decimals
  · exact Or.inl (isDigit_of_mem_decimal whole)
  · exact Or.inr point
  · exact Or.inl (isDigit_of_mem_zeroPadded decimals)

end FixedPoint

/-! ## Numeric sort -/

/-- What `sort -n` compares: the leading number, then the whole line. -/
def numericKey (line : Text) : ℚ ×ₗ Text := toLex ((leadingNumber line).value, line)

/-- `sort -n`. -/
def sortNumeric (file : File) : File := sortBy numericKey file

/-- `sort`, in bytewise collation. -/
def sortLines (file : File) : File := sortBy id file

/-- `uniq`: a line that the next one repeats is dropped. -/
def uniq : File → File
  | a :: b :: rest => if a = b then uniq (b :: rest) else a :: uniq (b :: rest)
  | file => file

@[simp] theorem mem_uniq {line : Text} {file : File} : line ∈ uniq file ↔ line ∈ file := by
  fun_induction uniq file with
  | case1 b rest ih => simpa using ih
  | case2 a b rest differ ih => rw [List.mem_cons, List.mem_cons, ih]
  | case3 file short => rfl

/-- What `uniq` leaves of a sorted file increases. -/
theorem uniq_strict {file : File} (sorted : file.Pairwise (· ≤ ·)) :
    (uniq file).Pairwise (· < ·) := by
  fun_induction uniq file with
  | case1 b rest ih => exact ih (List.pairwise_cons.mp sorted).2
  | case2 a b rest differ ih =>
      obtain ⟨above, restSorted⟩ := List.pairwise_cons.mp sorted
      obtain ⟨aboveB, -⟩ := List.pairwise_cons.mp restSorted
      refine List.pairwise_cons.mpr ⟨fun line member => ?_, ih restSorted⟩
      have first : a < b := lt_of_le_of_ne (above b List.mem_cons_self) differ
      rcases List.mem_cons.mp (mem_uniq.mp member) with rfl | later
      · exact first
      · exact first.trans_le (aboveB line later)
  | case3 file short =>
      rcases file with _ | ⟨a, _ | ⟨b, rest⟩⟩
      · exact List.Pairwise.nil
      · exact List.pairwise_singleton _ _
      · exact (short a b rest rfl).elim

/-- `sort | uniq` depends on the lines alone, not on their order or number. -/
theorem uniq_sortLines_congr {file file' : File} (same : ∀ line, line ∈ file ↔ line ∈ file') :
    uniq (sortLines file) = uniq (sortLines file') := by
  have strict (file : File) : (uniq (sortLines file)).Pairwise (· < ·) :=
    uniq_strict (sortBy_pairwise id file)
  have distinct (file : File) : (uniq (sortLines file)).Nodup := (strict file).imp ne_of_lt
  have perm : (uniq (sortLines file)).Perm (uniq (sortLines file')) :=
    (List.perm_ext_iff_of_nodup (distinct _) (distinct _)).mpr fun line => by
      rw [mem_uniq, mem_uniq, sortLines, sortLines, mem_sortBy, mem_sortBy]
      exact same line
  exact perm.eq_of_pairwise (fun a b _ _ below above => (below.asymm above).elim)
    (strict file) (strict file')

end StudyLinux
