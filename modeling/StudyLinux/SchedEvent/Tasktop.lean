import StudyLinux.Kevent.Stages
import StudyLinux.Order.Counting

/-!
# The task top list of sched_event_parser.sh

Name and pid of the previous task are joined by a `-`, sorted, counted by `uniq -c` and
sorted by the counts. The join keeps pairs apart, since a pid is decimal: its digits are
what stands behind the last `-`. So the list has one line for each pair, with the number
of its events, in the order of these numbers (`tasktop_eq`).
-/

namespace StudyLinux

/-! ## The stages -/

/-- `paste column_currname column_currpid`, and a sed program that makes every tab a `-`. -/
def currNamePid (columnCurrname columnCurrpid : File) : File :=
  (paste '\t' [columnCurrname, columnCurrpid]).map (sedSubst ['\t'] ['-'])

/-- `%7d`, a blank and the line. -/
def countLine (n : Nat) (line : Text) : Text := List.leftpad 7 ' ' (decimal n) ++ ' ' :: line

/-- `uniq -c`. -/
def uniqCount (file : File) : File := (groups file).map fun group => countLine group.1 group.2

/-- What `sort -bnr` compares: the leading number, then the whole line, both downwards. -/
def topKey (line : Text) : (ℚ ×ₗ Text)ᵒᵈ := OrderDual.toDual (numericKey line)

/-- `cat curr_name+pid | sort | uniq -c | sort -bnr`. -/
def tasktop (columnCurrname columnCurrpid : File) : File :=
  sortBy topKey (uniqCount (sortLines (currNamePid columnCurrname columnCurrpid)))

/-! ## Pairs of a name and a pid -/

/-- A name without a tab, and a pid. -/
structure NamePid where
  name : Text
  pid : Nat
  tabFree : '\t' ∉ name

namespace NamePid

/-- `<name>-<pid>`. -/
def joined (x : NamePid) : Text := x.name ++ '-' :: decimal x.pid

/-- The pid is what stands behind the last `-`. -/
theorem joined_injective : Function.Injective joined := by
  intro x y same
  have solid : ∀ n, '-' ∉ decimal n := not_mem_decimal (by decide)
  obtain ⟨names, pids⟩ := join_inj (solid x.pid) (solid y.pid) same
  have pid := decimal_injective pids
  cases x
  cases y
  congr

/-- Pairs in the order of their lines. -/
instance : LinearOrder NamePid := LinearOrder.lift' joined joined_injective

end NamePid

/-- The join of the columns. -/
theorem currNamePid_eq (pairs : List NamePid) :
    currNamePid (pairs.map NamePid.name) (pairs.map fun x => decimal x.pid) =
      pairs.map NamePid.joined := by
  unfold currNamePid
  rw [paste_map_map, List.map_map]
  refine List.map_congr_left fun x _ => ?_
  have tab : sedSubst ['\t'] ['-'] ('\t' :: decimal x.pid) = '-' :: decimal x.pid := by
    have rest : sedSubst ['\t'] ['-'] (decimal x.pid) = decimal x.pid :=
      sedSubst_eq_self (by decide)
        (not_infix_of_not_mem List.mem_cons_self (not_mem_decimal (by decide) x.pid))
    have front : sedSubst ['\t'] ['-'] (['\t'] ++ decimal x.pid) =
        ['-'] ++ sedSubst ['\t'] ['-'] (decimal x.pid) := sedSubst_occurrence (by decide) _
    rwa [rest] at front
  rw [Function.comp_apply, sedSubst_skip rfl x.tabFree, tab, NamePid.joined]

/-! ## The ranking -/

/-- How often pairs occur in a list: every pair once, with its number, in the order of the
numbers, which add up. -/
structure IsRanking (pairs : List NamePid) (ranking : List (Nat × NamePid)) : Prop where
  distinct : (ranking.map Prod.snd).Nodup
  every : ∀ pair, pair ∈ ranking.map Prod.snd ↔ pair ∈ pairs
  counted : ∀ entry ∈ ranking, entry.1 = pairs.count entry.2
  ordered : ranking.Pairwise fun first second => second.1 ≤ first.1
  total : (ranking.map Prod.fst).sum = pairs.length

/-- `sort -n` reads the number of a line of `uniq -c`. -/
theorem leadingNumber_countLine (n : Nat) (line : Text) :
    leadingNumber (countLine n line) = ⟨n, 0⟩ := by
  have digits : ∀ c ∈ decimal n, c.isDigit := fun _ => isDigit_of_mem_decimal
  obtain ⟨c, tail, shape⟩ := List.exists_cons_of_ne_nil (decimal_ne_nil n)
  have digit : c.isDigit := digits c (by rw [shape]; exact List.mem_cons_self)
  have body : (countLine n line).dropWhile (· == ' ') = decimal n ++ ' ' :: line := by
    have notBlank : (c == ' ') = false := by
      rw [beq_eq_false_iff_ne]
      intro same
      rw [same] at digit
      exact absurd digit (by decide)
    unfold countLine
    rw [List.leftpad, List.append_assoc, List.dropWhile_append_of_pos, shape, List.cons_append,
      List.dropWhile_cons, notBlank]
    · rfl
    · intro d member
      rw [List.eq_of_mem_replicate member]
      rfl
  have unsigned : ((countLine n line).dropWhile (· == ' ')).head? ≠ some '-' := by
    rw [body, shape]
    intro same
    obtain rfl := Option.some.inj same
    exact absurd digit (by decide)
  have read : digitsAndDecimals (decimal n ++ ' ' :: line) = (decimal n, []) := by
    have stop : Char.isDigit ' ' = false := by decide
    rw [digitsAndDecimals, List.takeWhile_append_of_pos digits,
      List.dropWhile_append_of_pos digits, List.takeWhile_cons, List.dropWhile_cons, stop]
    simp
  rw [leadingNumber_of_head unsigned, body, read, ofDigits, List.append_nil, decimal,
    Nat.ofDigitChars_ten_toDigits]
  rfl

/-- Lines that `sort -bnr` puts in order have their numbers in order. -/
theorem le_of_topKey_le {first second : Nat × NamePid}
    (before : topKey (countLine first.1 first.2.joined) ≤
      topKey (countLine second.1 second.2.joined)) : second.1 ≤ first.1 := by
  have keys : numericKey (countLine second.1 second.2.joined) ≤
      numericKey (countLine first.1 first.2.joined) := OrderDual.toDual_le_toDual.mp before
  have values := Prod.Lex.monotone_fst _ _ keys
  unfold numericKey at values
  rw [leadingNumber_countLine, leadingNumber_countLine] at values
  exact Int.ofNat_le.mp (Dec.value_le_value.mp values)

/-- The lines of the ranking, in its order. -/
def rankedGroups (pairs : List NamePid) : List (Nat × NamePid) :=
  sortBy (fun entry => topKey (countLine entry.1 entry.2.joined))
    (groups (sortBy NamePid.joined pairs))

theorem sortLines_joined (pairs : List NamePid) :
    sortLines (pairs.map NamePid.joined) = (sortBy NamePid.joined pairs).map NamePid.joined :=
  sortBy_map id NamePid.joined pairs

theorem tasktop_columns (pairs : List NamePid) :
    tasktop (pairs.map NamePid.name) (pairs.map fun x => decimal x.pid) =
      (rankedGroups pairs).map fun entry => countLine entry.1 entry.2.joined := by
  unfold tasktop uniqCount
  rw [currNamePid_eq, sortLines_joined, groups_map NamePid.joined_injective, List.map_map,
    sortBy_map]
  rfl

theorem isRanking_rankedGroups (pairs : List NamePid) : IsRanking pairs (rankedGroups pairs) := by
  have sorted : (sortBy NamePid.joined pairs).Pairwise (· ≤ ·) :=
    sortBy_pairwise NamePid.joined pairs
  have same : (sortBy NamePid.joined pairs).Perm pairs := sortBy_perm NamePid.joined pairs
  have perm : (rankedGroups pairs).Perm (groups (sortBy NamePid.joined pairs)) := sortBy_perm _ _
  constructor
  · have strict := groups_strict sorted
    exact (perm.map Prod.snd).nodup_iff.mpr (strict.imp ne_of_lt)
  · intro pair
    rw [(perm.map Prod.snd).mem_iff, mem_map_snd_groups, mem_sortBy]
  · intro entry member
    have counted := count_of_mem_groups sorted (perm.mem_iff.mp member)
    rw [counted, same.count_eq]
  · have ranked := sortBy_pairwise
      (fun entry : Nat × NamePid => topKey (countLine entry.1 entry.2.joined))
      (groups (sortBy NamePid.joined pairs))
    unfold rankedGroups
    exact ranked.imp fun before => le_of_topKey_le before
  · rw [(perm.map Prod.fst).sum_eq, sum_groups, same.length_eq]

/-- The file `tasktop` is the ranking of the pairs in the columns: the join keeps them
apart, and there is one line for each, with its number. -/
theorem tasktop_eq (pairs : List NamePid) :
    Function.Injective NamePid.joined ∧
      ∃ ranking, IsRanking pairs ranking ∧
        tasktop (pairs.map NamePid.name) (pairs.map fun x => decimal x.pid) =
          ranking.map fun entry => countLine entry.1 entry.2.joined :=
  ⟨NamePid.joined_injective, rankedGroups pairs, isRanking_rankedGroups pairs,
    tasktop_columns pairs⟩

end StudyLinux
