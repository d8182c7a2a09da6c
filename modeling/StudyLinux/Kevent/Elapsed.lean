import StudyLinux.Kevent.Pertask
import StudyLinux.Order.Pairs

/-!
# Elapsed lines of sched_switch rows

The rows of a per-task file are rows of events. `sort -n` puts them in the order of
their times (`matchingSorted_pairwise`), and the lines computed from them are the
differences of consecutive times, two by two (`elapsedLines_rows`); a time without
a partner is printed with a minus sign.
-/

namespace StudyLinux

/-- The four traces of four lists of events. -/
def tracesOf (events : Cpu → List FixedEvent) : Traces :=
  fun cpu => (events cpu).map fun e => e.line

theorem csvOf_tracesOf (events : Cpu → List FixedEvent) (cpu : Cpu) :
    csvOf (tracesOf events cpu) = (events cpu).map FixedEvent.row :=
  FixedEvent.csv_eq_map_row (events cpu)

/-! ## Pairs of times -/

/-- The differences of consecutive times, two by two, as `bc` prints them. -/
def durations : List Nat → List Text
  | [] => []
  | [t] => [(Dec.mk (-t) 6).print]
  | t :: u :: rest => (Dec.mk (u - t) 6).print :: durations rest

theorem length_durations (times : List Nat) :
    (durations times).length = (times.length + 1) / 2 := by
  fun_induction durations times with
  | case1 => rfl
  | case2 t => simp
  | case3 t u rest ih =>
      rw [List.length_cons, ih, List.length_cons, List.length_cons]
      omega

theorem isBlank_fixedPoint {k ticks : Nat} : ∀ c ∈ fixedPoint k ticks, isBlank c = false := by
  intro c member
  rcases mem_fixedPoint member with digit | rfl
  · exact isBlank_eq_false_of_isDigit digit
  · rfl

theorem fixedPoint_ne_nil {k ticks : Nat} : fixedPoint k ticks ≠ [] := by simp [fixedPoint]

theorem words_fixedPoint (k ticks : Nat) : words (fixedPoint k ticks) = [fixedPoint k ticks] :=
  wordsBy_eq_singleton isBlank_fixedPoint fixedPoint_ne_nil

/-- `tr ' ' ','` on a time. -/
theorem map_fixedPoint {k ticks : Nat} :
    (fixedPoint k ticks).map (fun c => if c = ' ' then ',' else c) = fixedPoint k ticks := by
  refine (List.map_congr_left fun c member => if_neg ?_).trans (List.map_id _)
  intro same
  subst same
  exact absurd (isBlank_fixedPoint _ member) (by decide)

theorem elapsedLine_pair (t u : Nat) :
    elapsedLine (fixedPoint 6 t ++ ',' :: fixedPoint 6 u) = (Dec.mk (u - t) 6).print := by
  have split : (fixedPoint 6 t ++ ',' :: fixedPoint 6 u).splitOn ',' =
      [fixedPoint 6 t, fixedPoint 6 u] := by
    rw [splitOn_append_cons, splitOn_eq_singleton_iff.mpr (FixedEvent.comma_not_mem_fixedPoint 6 t),
      splitOn_eq_singleton_iff.mpr (FixedEvent.comma_not_mem_fixedPoint 6 u)]
    rfl
  have fields : arrayField 0 (fixedPoint 6 t ++ ',' :: fixedPoint 6 u) = fixedPoint 6 t ∧
      arrayField 1 (fixedPoint 6 t ++ ',' :: fixedPoint 6 u) = fixedPoint 6 u := by
    rw [arrayField, arrayField, split]
    exact ⟨rfl, rfl⟩
  rw [elapsedLine, fields.1, fields.2, bcDifference, bcNumber_fixedPoint (by decide),
    bcNumber_fixedPoint (by decide)]
  simp only [fixedPoint_ne_nil, if_false, Dec.sub_mk]

theorem elapsedLine_single (t : Nat) : elapsedLine (fixedPoint 6 t) = (Dec.mk (-t) 6).print := by
  have split : (fixedPoint 6 t).splitOn ',' = [fixedPoint 6 t] :=
    splitOn_eq_singleton_iff.mpr (FixedEvent.comma_not_mem_fixedPoint 6 t)
  have fields : arrayField 0 (fixedPoint 6 t) = fixedPoint 6 t ∧
      arrayField 1 (fixedPoint 6 t) = [] := by
    rw [arrayField, arrayField, split]
    exact ⟨rfl, rfl⟩
  rw [elapsedLine, fields.1, fields.2, bcDifference, bcNumber_fixedPoint (by decide)]
  simp [Dec.sub]

/-- One more pair of arguments is one more line, and the words of that line. -/
theorem flatMap_words_xargsN2 (a b : Text) (args : List Text) :
    ((xargsN2 (a :: b :: args)).map fun line =>
        line.map fun c => if c = ' ' then ',' else c).flatMap words =
      words ((a ++ ' ' :: b).map fun c => if c = ' ' then ',' else c) ++
        ((xargsN2 args).map fun line => line.map fun c => if c = ' ' then ',' else c).flatMap
          words := by
  cases args with
  | nil =>
      have none : words [] = [] := by decide
      simp [xargsN2, none]
  | cons c args => rfl

/-- The word of a pair of times. -/
def periodText (p : Nat × Nat) : Text := fixedPoint 6 p.1 ++ ',' :: fixedPoint 6 p.2

/-- The words of a list of times: one for each pair, and the time that is left over. -/
def periodTexts (times : List Nat) : List Text :=
  (pairUp times).map periodText ++ (unpaired times).toList.map (fixedPoint 6)

theorem words_periodText (p : Nat × Nat) : words (periodText p) = [periodText p] := by
  refine wordsBy_eq_singleton (fun c member => ?_) (by simp [periodText])
  rw [periodText, List.mem_append, List.mem_cons] at member
  rcases member with start | rfl | stop
  · exact isBlank_fixedPoint c start
  · rfl
  · exact isBlank_fixedPoint c stop

/-- The loop runs over the pairs of consecutive times. -/
theorem words_xargsN2_times (times : List Nat) :
    ((xargsN2 (times.map (fixedPoint 6))).map fun line =>
      line.map fun c => if c = ' ' then ',' else c).flatMap words = periodTexts times := by
  fun_induction pairUp times with
  | case1 t u rest ih =>
      have line : (fixedPoint 6 t ++ ' ' :: fixedPoint 6 u).map
          (fun c => if c = ' ' then ',' else c) = periodText (t, u) := by
        rw [List.map_append, List.map_cons, map_fixedPoint, map_fixedPoint, if_pos rfl, periodText]
      rw [List.map_cons, List.map_cons, flatMap_words_xargsN2, ih, line, words_periodText]
      rfl
  | case2 times short =>
      rcases times with _ | ⟨t, _ | ⟨u, rest⟩⟩
      · decide
      · simp only [List.map_cons, List.map_nil, xargsN2, map_fixedPoint, List.flatMap_cons,
          words_fixedPoint, List.flatMap_nil, List.append_nil]
        rfl
      · exact (short t u rest rfl).elim

/-- The lines that a list of times gives, pair by pair. -/
theorem map_elapsedLine_times (times : List Nat) :
    (((xargsN2 (times.map (fixedPoint 6))).map fun line =>
      line.map fun c => if c = ' ' then ',' else c).flatMap words).map elapsedLine =
      durations times := by
  rw [words_xargsN2_times, periodTexts]
  fun_induction durations times with
  | case1 => rfl
  | case2 t =>
      have line := elapsedLine_single t
      simpa [pairUp, unpaired] using line
  | case3 t u rest ih =>
      rw [pairUp_cons_cons, unpaired_cons_cons, List.map_cons, List.cons_append, List.map_cons, ih,
        periodText, elapsedLine_pair]

/-- The first field of a row is its time. -/
theorem cutField_row (e : FixedEvent) : cutField ',' 1 e.row = fixedPoint 6 e.time := by
  rw [cutField, if_pos, e.splitOn_row]
  · rfl
  · rw [e.row_eq_append]
    simp

/-- The times of rows of events. -/
theorem cutField_rows (events : List FixedEvent) :
    ((events.map FixedEvent.row).map (cutField ',' 1)).flatMap words =
      (events.map fun e => e.time).map (fixedPoint 6) := by
  rw [List.map_map, List.map_map]
  refine (congrArg _ (List.map_congr_left fun e _ => cutField_row e)).trans ?_
  exact flatMap_wordsBy fun name member => by
    obtain ⟨e, -, rfl⟩ := List.mem_map.mp member
    exact ⟨fixedPoint_ne_nil, isBlank_fixedPoint⟩

/-- The lines computed from rows of events. -/
theorem elapsedLines_rows (events : List FixedEvent) :
    elapsedLines (events.map FixedEvent.row) = durations (events.map fun e => e.time) := by
  rw [elapsedLines, periods, cutField_rows]
  exact map_elapsedLine_times _

/-! ## The rows of a task -/

/-- The events, of all CPUs, whose rows an entry's pattern selects. -/
def matching (p : Patterns) (events : Cpu → List FixedEvent) (entry : Text) : List FixedEvent :=
  fileList.flatMap fun cpu => (events cpu).filter fun e => p.selects (entryPattern entry) e.row

/-- The matching events in the order in which `sort -n` puts their rows. -/
def matchingSorted (p : Patterns) (events : Cpu → List FixedEvent) (entry : Text) :
    List FixedEvent :=
  sortBy (fun e => numericKey e.row) (matching p events entry)

section Rows

variable (p : Patterns) {events : Cpu → List FixedEvent} {entry : Text}

theorem mem_matching {e : FixedEvent} :
    e ∈ matching p events entry ↔
      (∃ cpu, e ∈ events cpu) ∧ p.selects (entryPattern entry) e.row := by
  simp only [matching, List.mem_flatMap, List.mem_filter, mem_fileList, true_and,
    exists_and_right]

/-- The rows of a task are the rows of the matching events, sorted. -/
theorem entryRows_eq (events : Cpu → List FixedEvent) (entry : Text) :
    entryRows p (csvsOf (tracesOf events)) entry =
      (matchingSorted p events entry).map FixedEvent.row := by
  have selected : (fileList.flatMap fun cpu =>
      (csvsOf (tracesOf events) cpu).filter (p.selects (entryPattern entry))) =
      (matching p events entry).map FixedEvent.row := by
    rw [matching, List.map_flatMap]
    refine congrArg (fun rows => fileList.flatMap rows) (funext fun cpu => ?_)
    rw [csvsOf, csvOf_tracesOf, List.filter_map]
    rfl
  rw [entryRows, selected, sortNumeric, sortBy_map, matchingSorted]

/-- A task with rows has lines. -/
theorem elapsedLines_entryRows_ne_nil :
    elapsedLines (entryRows p (csvsOf (tracesOf events)) entry) ≠ [] ↔
      entryRows p (csvsOf (tracesOf events)) entry ≠ [] := by
  rw [entryRows_eq, elapsedLines_rows, ← List.length_pos_iff, ← List.length_pos_iff,
    length_durations, List.length_map, List.length_map]
  omega

/-- `sort -n` reads the time of a row. -/
theorem numericKey_row (e : FixedEvent) :
    numericKey e.row = toLex ((Dec.mk e.time 6).value, e.row) := by
  rw [numericKey, e.row_eq_append, leadingNumber_fixedPoint (by decide)]
  simp

/-- `sort -n` puts rows in the order of their times. -/
theorem sortBy_row_pairwise (list : List FixedEvent) :
    (sortBy (fun e => numericKey e.row) list).Pairwise fun e f => e.time ≤ f.time := by
  refine (sortBy_pairwise _ _).imp fun {e f} le => ?_
  rw [numericKey_row, numericKey_row] at le
  have values := (Prod.Lex.toLex_le_toLex'.mp le).1
  exact_mod_cast Dec.value_le_value.mp values

/-- A per-task file is in time order. -/
theorem matchingSorted_pairwise (events : Cpu → List FixedEvent) (entry : Text) :
    (matchingSorted p events entry).Pairwise fun e f => e.time ≤ f.time := sortBy_row_pairwise _

end Rows

end StudyLinux
