import Mathlib.Data.List.Infix
import Mathlib.Data.List.Sort

/-!
# Lines of text and the filters of a pipeline

A text file is the list of its lines; a line is a list of characters, one for
each byte, without the newline. The filters below are the ones shell pipelines
are made of: `cut` by columns and by fields, `tr -d` and `tr -s`, `paste`, and
the word splitting of an unquoted expansion. Each comes with the lemmas that
let later proofs use it without unfolding it.
-/

namespace StudyLinux

/-- One line, without its newline. A character stands for one byte. -/
abbrev Text := List Char

/-- A text file: its newline-terminated lines. -/
abbrev File := List Text

-- Characters are a finite type: a quantifier over the characters of a line is decided
-- along the line, not by running through all characters.
instance (priority := high) decidableForallMem {α : Type} {p : α → Prop} [DecidablePred p]
    (list : List α) : Decidable (∀ a ∈ list, p a) := List.decidableBAll p list

/-! ## Columns -/

/-- `cut -c'first-last'`, columns counted from one. -/
def cutColumns (first last : Nat) (line : Text) : Text :=
  (line.take last).drop (first - 1)

/-- `cut -c'first-'`. -/
def cutFrom (first : Nat) (line : Text) : Text :=
  line.drop (first - 1)

/-- Columns that start where a prefix ends and stop where the next part does. -/
theorem cutColumns_append {before part after : Text} {first last : Nat}
    (start : before.length + 1 = first) (stop : before.length + part.length = last) :
    cutColumns first last (before ++ part ++ after) = part := by
  subst start stop
  rw [cutColumns, List.append_assoc, List.take_append, List.take_of_length_le (by omega)]
  simp

theorem cutFrom_append {before after : Text} {first : Nat}
    (start : before.length + 1 = first) : cutFrom first (before ++ after) = after := by
  subst start
  simp [cutFrom]

/-! ## Deleting and squeezing characters -/

/-- `tr -d set`. -/
def trDelete (set : List Char) (line : Text) : Text :=
  line.filter (fun c => c ∉ set)

@[simp] theorem trDelete_nil (set : List Char) : trDelete set [] = [] := rfl

@[simp] theorem trDelete_append (set : List Char) (a b : Text) :
    trDelete set (a ++ b) = trDelete set a ++ trDelete set b := List.filter_append a b

theorem trDelete_cons_of_mem {set : List Char} {c : Char} (listed : c ∈ set) (line : Text) :
    trDelete set (c :: line) = trDelete set line := by
  simp [trDelete, listed]

theorem trDelete_cons_of_not_mem {set : List Char} {c : Char} (kept : c ∉ set) (line : Text) :
    trDelete set (c :: line) = c :: trDelete set line := by
  simp [trDelete, kept]

theorem mem_trDelete {set : List Char} {c : Char} {line : Text} :
    c ∈ trDelete set line ↔ c ∈ line ∧ c ∉ set := by
  simp [trDelete]

/-- A line without a listed character is left as it is. -/
theorem trDelete_eq_self {set : List Char} {line : Text}
    (clean : ∀ c ∈ line, c ∉ set) : trDelete set line = line := by
  rw [trDelete, List.filter_eq_self]
  exact fun c member => by simpa using clean c member

theorem trDelete_replicate {set : List Char} {c : Char} (listed : c ∈ set) (n : Nat) :
    trDelete set (List.replicate n c) = [] := by
  simp [trDelete, listed]

/-- Deletion keeps every occurrence of a character that is not listed. -/
theorem count_trDelete {set : List Char} {c : Char} (kept : c ∉ set) (line : Text) :
    (trDelete set line).count c = line.count c := by
  rw [trDelete, List.count_filter]
  simpa using kept

/-- `tr -s c`: a run of `c` becomes one `c`. -/
def trSqueeze (c : Char) : Text → Text
  | [] => []
  | x :: rest => if x = c ∧ rest.head? = some c then trSqueeze c rest else x :: trSqueeze c rest

/-- Squeezing characters that are deleted anyway. -/
theorem trDelete_trSqueeze {set : List Char} {c : Char} (listed : c ∈ set) (line : Text) :
    trDelete set (trSqueeze c line) = trDelete set line := by
  induction line with
  | nil => rfl
  | cons x rest ih =>
      rw [trSqueeze]
      split_ifs with run
      · rw [ih, run.1, trDelete_cons_of_mem listed]
      · by_cases gone : x ∈ set
        · rw [trDelete_cons_of_mem gone, trDelete_cons_of_mem gone, ih]
        · rw [trDelete_cons_of_not_mem gone, trDelete_cons_of_not_mem gone, ih]

/-- Deleting twice is deleting once. -/
theorem trDelete_trDelete {first second : List Char} (inside : ∀ c ∈ first, c ∈ second)
    (line : Text) : trDelete second (trDelete first line) = trDelete second line := by
  rw [trDelete, trDelete, List.filter_filter, trDelete]
  refine List.filter_congr fun c _ => ?_
  by_cases gone : c ∈ second
  · simp [gone]
  · have kept : c ∉ first := fun listed => gone (inside c listed)
    simp [gone, kept]

/-! ## Fields -/

/-- `cut -d sep -f k`: a line without the separator is printed whole. -/
def cutField (sep : Char) (k : Nat) (line : Text) : Text :=
  if sep ∈ line then (line.splitOn sep).getD (k - 1) [] else line

/-- `cut -d sep -f k₁,k₂,…`: the fields that exist, joined by the separator. -/
def cutFields (sep : Char) (ks : List Nat) (line : Text) : Text :=
  if sep ∈ line then [sep].intercalate (ks.filterMap fun k => (line.splitOn sep)[k - 1]?) else line

/-- Splitting never loses a field: there is one more than there are separators. -/
theorem length_splitOn (sep : Char) (line : Text) :
    (line.splitOn sep).length = line.count sep + 1 := by
  induction line with
  | nil => rfl
  | cons c rest ih =>
      rw [List.splitOn_cons_eq_if_modifyHead]
      by_cases here : c = sep
      · simp [here, ih]
      · simp [here, ih]

/-- The first part of a split line is what it starts with. -/
theorem prefix_of_splitOnP {sep : Char → Bool} {line first : Text} {others : List Text}
    (split : line.splitOnP sep = first :: others) : first <+: line := by
  induction line generalizing first others with
  | nil =>
      obtain ⟨rfl, -⟩ : first = [] ∧ others = [] := by simpa [eq_comm] using split
      exact List.nil_prefix
  | cons x rest ih =>
      rw [List.splitOnP_cons_eq_if_modifyHead] at split
      split_ifs at split with separates
      · obtain ⟨rfl, -⟩ := List.cons.inj split
        exact List.nil_prefix
      · obtain ⟨start, tail, restSplit⟩ :=
          List.exists_cons_of_ne_nil (List.splitOnP_ne_nil sep rest)
        rw [restSplit, List.modifyHead_cons, List.cons.injEq] at split
        rw [← split.1]
        exact List.cons_prefix_cons.mpr ⟨rfl, ih restSplit⟩

/-- A part of a split line is a piece of the line without a separator. -/
theorem infix_of_mem_splitOnP {sep : Char → Bool} {line part : Text}
    (member : part ∈ line.splitOnP sep) : part <:+: line ∧ ∀ c ∈ part, sep c = false := by
  induction line generalizing part with
  | nil =>
      obtain rfl : part = [] := by simpa using member
      exact ⟨List.infix_rfl, fun c inPart => absurd inPart List.not_mem_nil⟩
  | cons x rest ih =>
      rw [List.splitOnP_cons_eq_if_modifyHead] at member
      split_ifs at member with separates
      · rcases List.mem_cons.mp member with rfl | later
        · exact ⟨List.nil_infix, fun c inPart => absurd inPart List.not_mem_nil⟩
        · exact (ih later).imp_left fun inside => inside.trans (List.suffix_cons x rest).isInfix
      · obtain ⟨first, others, split⟩ := List.exists_cons_of_ne_nil (List.splitOnP_ne_nil sep rest)
        rw [split, List.modifyHead_cons] at member
        rcases List.mem_cons.mp member with rfl | later
        · refine ⟨(List.cons_prefix_cons.mpr ⟨rfl, prefix_of_splitOnP split⟩).isInfix, ?_⟩
          intro c inPart
          rcases List.mem_cons.mp inPart with rfl | inFirst
          · simpa using separates
          · exact (ih (split ▸ List.mem_cons_self)).2 c inFirst
        · exact (ih (split ▸ List.mem_cons_of_mem first later)).imp_left fun inside =>
            inside.trans (List.suffix_cons x rest).isInfix

theorem splitOn_append_cons (sep : Char) (a b : Text) :
    (a ++ sep :: b).splitOn sep = a.splitOn sep ++ b.splitOn sep :=
  List.splitOn_append_cons_self a b

theorem splitOn_eq_singleton_iff {sep : Char} {line : Text} :
    line.splitOn sep = [line] ↔ sep ∉ line := by
  refine ⟨fun single => ?_, List.splitOn_eq_singleton⟩
  have size := length_splitOn sep line
  rw [single] at size
  exact List.count_eq_zero.mp (by simpa using size.symm)

/-- A join is taken apart at its last separator. -/
theorem join_inj {sep : Char} {front behind front' behind' : Text} (solid : sep ∉ behind)
    (solid' : sep ∉ behind') (same : front ++ sep :: behind = front' ++ sep :: behind') :
    front = front' ∧ behind = behind' := by
  have backwards := congrArg (fun text : Text => text.reverse.splitOn sep) same
  simp only [List.reverse_append, List.reverse_cons, List.append_assoc,
    List.cons_append, List.nil_append, splitOn_append_cons] at backwards
  rw [splitOn_eq_singleton_iff.mpr (by simpa using solid : sep ∉ behind.reverse),
    splitOn_eq_singleton_iff.mpr (by simpa using solid' : sep ∉ behind'.reverse),
    List.singleton_append, List.singleton_append, List.cons.injEq, List.reverse_inj] at backwards
  obtain ⟨rfl, -⟩ := backwards
  exact ⟨List.append_cancel_right same, rfl⟩

/-- Deleting other characters commutes with splitting. -/
theorem splitOn_trDelete {set : List Char} {sep : Char} (kept : sep ∉ set) (line : Text) :
    (trDelete set line).splitOn sep = (line.splitOn sep).map (trDelete set) := by
  induction line with
  | nil => rfl
  | cons c rest ih =>
      obtain ⟨first, others, split⟩ := List.exists_cons_of_ne_nil (List.splitOn_ne_nil sep rest)
      by_cases separates : c = sep
      · subst separates
        have close (tail : Text) : (c :: tail).splitOn c = [] :: tail.splitOn c :=
          splitOn_append_cons c [] tail
        rw [trDelete_cons_of_not_mem kept, close, close, ih]
        rfl
      · have extend (tail : Text) :
            (c :: tail).splitOn sep = (tail.splitOn sep).modifyHead (c :: ·) := by
          rw [List.splitOn_cons_eq_if_modifyHead, if_neg (by simpa using separates)]
        rw [extend, split, List.modifyHead_cons, List.map_cons]
        rw [split, List.map_cons] at ih
        by_cases listed : c ∈ set
        · rw [trDelete_cons_of_mem listed, trDelete_cons_of_mem listed, ih]
        · rw [trDelete_cons_of_not_mem listed, trDelete_cons_of_not_mem listed, extend, ih,
            List.modifyHead_cons]

/-- The first fields of a line that has as many. -/
theorem take_splitOn {sep : Char} {line : Text} {n : Nat} (enough : n ≤ (line.splitOn sep).length)
    (more : 1 < (line.splitOn sep).length) :
    (line.splitOn sep).take n = (List.range n).map fun k => cutField sep (k + 1) line := by
  have there : sep ∈ line := by
    rw [← List.one_le_count_iff]
    have size := length_splitOn sep line
    omega
  apply List.ext_getElem
  · simp [enough]
  · intro k inTake inRange
    have bound : k < (line.splitOn sep).length := by
      rw [List.length_take] at inTake
      omega
    simp [cutField, there, bound]

/-! ## Pasting files side by side -/

/-- The row that `paste` builds from line `r` of each file. -/
def pasteRow (sep : Char) (files : List File) (r : Nat) : Text :=
  [sep].intercalate (files.map fun file => file.getD r [])

/-- `paste -d sep`: one row for each line of the longest file. -/
def paste (sep : Char) (files : List File) : File :=
  (List.range ((files.map List.length).foldr max 0)).map (pasteRow sep files)

/-- Two columns computed from one list are pasted row by row. -/
theorem paste_map_map {α : Type} (sep : Char) (items : List α) (left right : α → Text) :
    paste sep [items.map left, items.map right] =
      items.map fun item => left item ++ sep :: right item := by
  apply List.ext_getElem
  · simp [paste]
  · intro r inRange inItems
    have bound : r < items.length := by simpa using inItems
    simp [paste, pasteRow, bound, List.intercalate]

/-! ## Words -/

/-- The maximal parts between separators. -/
def wordsBy (sep : Char → Bool) (line : Text) : List Text :=
  (line.splitOnP sep).filter (fun word => word ≠ [])

/-- The characters at which an unquoted expansion is split. -/
def isBlank (c : Char) : Bool := c == ' ' || c == '\t' || c == '\n'

theorem isBlank_iff {c : Char} : isBlank c ↔ (c = ' ' ∨ c = '\t') ∨ c = '\n' := by
  simp [isBlank]

theorem isBlank_eq_false_of_isDigit {c : Char} (digit : c.isDigit) : isBlank c = false := by
  rw [← Bool.not_eq_true, isBlank_iff]
  intro blank
  rcases blank with (rfl | rfl) | rfl <;> exact absurd digit (by decide)

/-- The words of an unquoted expansion. -/
def words (line : Text) : List Text := wordsBy isBlank line

section Words

variable {sep : Char → Bool}

@[simp] theorem wordsBy_nil : wordsBy sep [] = [] := by simp [wordsBy]

theorem wordsBy_append_cons {c : Char} (separates : sep c) (a b : Text) :
    wordsBy sep (a ++ c :: b) = wordsBy sep a ++ wordsBy sep b := by
  rw [wordsBy, List.splitOnP_append_cons _ _ separates, List.filter_append, wordsBy, wordsBy]

/-- A separator in front is no part of a word. -/
theorem wordsBy_cons {c : Char} (separates : sep c) (line : Text) :
    wordsBy sep (c :: line) = wordsBy sep line := by
  have cut := wordsBy_append_cons separates [] line
  rwa [List.nil_append, wordsBy_nil, List.nil_append] at cut

theorem wordsBy_replicate_append {c : Char} (separates : sep c) (n : Nat) (line : Text) :
    wordsBy sep (List.replicate n c ++ line) = wordsBy sep line := by
  induction n with
  | zero => rfl
  | succ n ih => rw [List.replicate_succ, List.cons_append, wordsBy_cons separates, ih]

theorem wordsBy_append_replicate {c : Char} (separates : sep c) (line : Text) (n : Nat) :
    wordsBy sep (line ++ List.replicate n c) = wordsBy sep line := by
  cases n with
  | zero => simp
  | succ n =>
      have blanks := wordsBy_replicate_append separates n []
      rw [List.append_nil, wordsBy_nil] at blanks
      rw [List.replicate_succ, wordsBy_append_cons separates, blanks, List.append_nil]

/-- A line without separators is one word. -/
theorem wordsBy_eq_singleton {line : Text} (solid : ∀ c ∈ line, sep c = false)
    (inhabited : line ≠ []) : wordsBy sep line = [line] := by
  simp [wordsBy, List.splitOnP_eq_singleton solid, inhabited]

/-- A word has no separator. -/
theorem solid_of_mem_wordsBy {line word : Text} (member : word ∈ wordsBy sep line) :
    word ≠ [] ∧ ∀ c ∈ word, sep c = false := by
  obtain ⟨part, inhabited⟩ := List.mem_filter.mp member
  exact ⟨by simpa using inhabited, (infix_of_mem_splitOnP part).2⟩

theorem infix_of_mem_wordsBy {line word : Text} (member : word ∈ wordsBy sep line) :
    word <:+: line := (infix_of_mem_splitOnP (List.mem_filter.mp member).1).1

/-- Names that are one word each survive word splitting. -/
theorem flatMap_wordsBy {names : List Text}
    (solid : ∀ name ∈ names, name ≠ [] ∧ ∀ c ∈ name, sep c = false) :
    names.flatMap (wordsBy sep) = names := by
  induction names with
  | nil => rfl
  | cons name names ih =>
      obtain ⟨inhabited, noSep⟩ := solid name List.mem_cons_self
      rw [List.flatMap_cons, wordsBy_eq_singleton noSep inhabited,
        ih fun later member => solid later (List.mem_cons_of_mem _ member), List.singleton_append]

/-- The words hold every character that is no separator. -/
theorem flatten_wordsBy (line : Text) :
    (wordsBy sep line).flatten = line.filter (fun c => !sep c) := by
  induction line with
  | nil => simp
  | cons c rest ih =>
      by_cases separates : sep c
      · rw [wordsBy_cons separates, ih, List.filter_cons_of_neg (by simp [separates])]
      · rw [List.filter_cons_of_pos (by simp [separates]), ← ih, wordsBy, wordsBy,
          List.splitOnP_cons_eq_if_modifyHead, if_neg separates]
        obtain ⟨first, others, split⟩ := List.exists_cons_of_ne_nil (List.splitOnP_ne_nil sep rest)
        rw [split]
        by_cases empty : first = [] <;> simp [empty]

/-- Squeezing separators leaves the words. -/
theorem wordsBy_trSqueeze {c : Char} (separates : sep c) (line : Text) :
    wordsBy sep (trSqueeze c line) = wordsBy sep line := by
  have behind : ∀ front, wordsBy sep (front ++ trSqueeze c line) = wordsBy sep (front ++ line) := by
    induction line with
    | nil => exact fun _ => rfl
    | cons x rest ih =>
        intro front
        rw [trSqueeze]
        split_ifs with run
        · obtain ⟨rfl, next⟩ := run
          obtain ⟨tail, rfl⟩ := List.head?_eq_some_iff.mp next
          rw [ih, wordsBy_append_cons separates, wordsBy_append_cons separates,
            wordsBy_cons separates]
        · have moved := ih (front ++ [x])
          rwa [List.append_assoc, List.append_assoc] at moved
  exact behind []

end Words

/-! ## Names of files -/

/-- A name that `ls` shows. -/
def IsVisible (name : Text) : Prop := name.head? ≠ some '.'

instance : DecidablePred IsVisible := fun _ => inferInstanceAs (Decidable (_ ≠ _))

end StudyLinux
