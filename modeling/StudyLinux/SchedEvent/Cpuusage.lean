import StudyLinux.SchedEvent.Switchdata
import StudyLinux.SchedEvent.Tasktop

/-!
# The rows for cpu usage

sched_event_parser.sh joins name and pid of both tasks of an event by a `-` and puts the
time between them. Blanks are deleted in the names, so a row has three words. They are
those of the event exactly when no name holds a comma, a tab or one of the texts that the
sed program rewrites (`forCpuusage_iff`).
-/

namespace StudyLinux

/-! ## The stages -/

/-- `paste column_nextname column_nextpid`, and a sed program that makes every tab a `-`. -/
def nextNamePid (columnNextname columnNextpid : File) : File :=
  (paste '\t' [columnNextname, columnNextpid]).map (sedSubst ['\t'] ['-'])

/-- `paste -d' '` of three columns, and `sed 's/^ //g'`. -/
def pasteForCpuusage (currNamePid columnTimestamp nextNamePid : File) : File :=
  (paste ' ' [currNamePid, columnTimestamp, nextNamePid]).map dropLeadingBlank

/-- `sched_switch.formatted.for_cpuusage`. -/
def forCpuusage (schedSwitch : File) : File :=
  pasteForCpuusage
    (currNamePid (columnCurrname schedSwitch) (columnCurrpid schedSwitch))
    (columnTimestamp schedSwitch)
    (nextNamePid (columnNextname schedSwitch) (columnNextpid schedSwitch))

/-! ## One line -/

/-- `sed 's/ ,/,/g'`. -/
def withoutBlankCommas (text : Text) : Text := sedSubst [' ', ','] [','] text

/-- A blank in front of a text that starts with one is not touched. -/
theorem withoutBlankCommas_append (a b : Text) :
    withoutBlankCommas (a ++ ' ' :: b) = withoutBlankCommas a ++ withoutBlankCommas (' ' :: b) := by
  refine sedSubst_append (by decide) ?_
  intro u v split left right _ front
  obtain ⟨c, u, rfl⟩ := List.exists_cons_of_ne_nil left
  obtain ⟨d, v, rfl⟩ := List.exists_cons_of_ne_nil right
  have second := (List.cons_prefix_cons.mp front).1
  subst second
  cases u with
  | nil => cases split
  | cons e u => cases u <;> cases split

theorem withoutBlankCommas_skip {solid : Text} (noBlank : ' ' ∉ solid) (rest : Text) :
    withoutBlankCommas (solid ++ rest) = solid ++ withoutBlankCommas rest :=
  sedSubst_skip rfl noBlank rest

theorem withoutBlankCommas_comma (rest : Text) :
    withoutBlankCommas (' ' :: ',' :: rest) = ',' :: withoutBlankCommas rest :=
  sedSubst_occurrence (by decide) rest

theorem trDelete_withoutBlankCommas (text : Text) :
    trDelete [' '] (withoutBlankCommas text) = trDelete [' '] text :=
  trDelete_sedSubst (by decide) (by decide) text

namespace FixedEvent

variable (e : FixedEvent)

/-- What becomes of the previous name, and of the next one. -/
def prevPart : Text := withoutBlankCommas (' ' :: sedMarkers e.prev.name.text)

def nextPart : Text := withoutBlankCommas (sedMarkers e.next.name.text)

theorem formatted2Of_line :
    formatted2Of e.line = e.prevPart ++ ',' :: (decimal e.prev.pid ++ ',' ::
      (decimalInt e.prevPrio ++ ',' :: (e.prevState ++ ',' :: (e.nextPart ++ ',' ::
        (decimal e.next.pid ++ ',' :: decimalInt e.nextPrio))))) := by
  have pid (n : Nat) : ' ' ∉ decimal n := not_mem_decimal (by decide) n
  have prio (n : Int) : ' ' ∉ decimalInt n := not_mem_decimalInt (by decide) n
  have state : ' ' ∉ e.prevState := fun member => absurd (e.state_chars _ member) (by decide)
  have last := withoutBlankCommas_skip (prio e.nextPrio) []
  rw [List.append_nil, show withoutBlankCommas [] = [] from rfl, List.append_nil] at last
  have shape : formatted2Of e.line = withoutBlankCommas (sedMarkers e.payload) := by
    rw [formatted2Of, e.cutFrom_line]
    rfl
  rw [shape, SwitchEvent.sedMarkers_payload]
  simp only [blankChunks_cons, blankChunks_nil, List.append_nil]
  rw [← List.cons_append, withoutBlankCommas_append, List.cons_append, withoutBlankCommas_comma,
    withoutBlankCommas_skip (pid _), List.cons_append, withoutBlankCommas_comma,
    withoutBlankCommas_skip (prio _), List.cons_append, withoutBlankCommas_comma,
    withoutBlankCommas_skip state, List.cons_append, withoutBlankCommas_comma,
    withoutBlankCommas_append, List.cons_append, withoutBlankCommas_comma,
    withoutBlankCommas_skip (pid _), withoutBlankCommas_comma, last]
  rfl

/-- The fields between commas: only the two names may be more than one. -/
theorem splitOn_formatted2Of :
    (formatted2Of e.line).splitOn ',' = e.prevPart.splitOn ',' ++ decimal e.prev.pid ::
      decimalInt e.prevPrio :: e.prevState :: (e.nextPart.splitOn ',' ++
        [decimal e.next.pid, decimalInt e.nextPrio]) := by
  have single {part : Text} (solid : ',' ∉ part) : part.splitOn ',' = [part] :=
    splitOn_eq_singleton_iff.mpr solid
  rw [formatted2Of_line]
  simp only [splitOn_append_cons, single (comma_not_mem_decimal _),
    single (comma_not_mem_decimalInt _), single e.comma_not_mem_prevState, List.cons_append,
    List.nil_append]

end FixedEvent

/-! ## Name and pid -/

/-- A name without its blanks, and the pid. -/
def Task.joined (task : Task) : Text := trDelete [' '] task.name.text ++ '-' :: decimal task.pid

/-- A name that the two scripts keep, but for its blanks. -/
def Comm.Readable (name : Comm) : Prop := name.Clean ∧ '\t' ∉ name.text

instance (name : Comm) : Decidable name.Readable := inferInstanceAs (Decidable (_ ∧ _))

/-- A line of `curr_name+pid`, from the two fields. -/
def joinFields (name pid : Text) : Text :=
  sedSubst ['\t'] ['-'] (sedSubst [' '] [] name ++ '\t' :: pid)

theorem sedSubst_blank (text : Text) : sedSubst [' '] [] text = trDelete [' '] text := by
  rw [sedSubst_singleton]
  induction text with
  | nil => rfl
  | cons c text ih =>
      rw [List.flatMap_cons, ih]
      by_cases blank : c = ' '
      · rw [if_pos blank, trDelete_cons_of_mem (by simp [blank])]
        rfl
      · rw [if_neg blank, trDelete_cons_of_not_mem (by simp [blank])]
        rfl

/-- The `-` between the fields. -/
theorem joinFields_eq (name pid : Text) :
    joinFields name pid =
      sedSubst ['\t'] ['-'] (trDelete [' '] name) ++ '-' :: sedSubst ['\t'] ['-'] pid := by
  rw [joinFields, sedSubst_blank]
  simp only [sedSubst_singleton, List.flatMap_append, List.flatMap_cons, if_true]
  rfl

theorem blankWords_joinFields_ne_nil (name pid : Text) : blankWords (joinFields name pid) ≠ [] := by
  intro none
  have flat : (blankWords (joinFields name pid)).flatten = _ := flatten_wordsBy _
  have dash : '-' ∈ (joinFields name pid).filter fun c => !isSpace c := by
    rw [joinFields_eq]
    exact List.mem_filter.mpr ⟨List.mem_append_right _ List.mem_cons_self, rfl⟩
  rw [← flat, none] at dash
  cases dash

/-- The fields of a line hold all its characters but the separators. -/
theorem flatten_splitOn (sep : Char) (line : Text) :
    (line.splitOn sep).flatten = line.filter fun c => !(c == sep) := by
  have parts : (line.splitOnP (· == sep)).flatten = line.filter fun c => !(c == sep) := by
    induction line with
    | nil => rfl
    | cons c line ih =>
        rw [List.splitOnP_cons_eq_if_modifyHead]
        cases separates : c == sep with
        | true => rw [if_pos rfl, List.filter_cons_of_neg (by simp [separates]), ← ih]; rfl
        | false =>
            obtain ⟨first, others, split⟩ :=
              List.exists_cons_of_ne_nil (List.splitOnP_ne_nil (· == sep) line)
            rw [if_neg Bool.false_ne_true, List.filter_cons_of_pos (by simp [separates]), ← ih,
              split]
            rfl
  exact parts

theorem count_flatten_splitOn {c : Char} (sep : Char) (other : c ≠ sep) (line : Text) :
    (line.splitOn sep).flatten.count c = line.count c := by
  rw [flatten_splitOn]
  exact List.count_filter (by simpa using other)

namespace Task

variable {task : Task}

theorem solid_joined (c : Char) (member : c ∈ task.joined) : isSpace c = false := by
  have kept : ∀ n, ' ' ∉ decimal n := not_mem_decimal (by decide)
  rw [isSpace, beq_eq_false_iff_ne]
  rintro rfl
  rcases List.mem_append.mp member with name | pid
  · exact (mem_trDelete.mp name).2 List.mem_cons_self
  · rcases List.mem_cons.mp pid with dash | digit
    · exact absurd dash (by decide)
    · exact kept _ digit

theorem blankWords_joined : blankWords task.joined = [task.joined] :=
  wordsBy_eq_singleton solid_joined (by simp [joined])

theorem count_joined {c : Char} (other : c ≠ ' ' ∧ c ≠ '-' ∧ ¬ c.isDigit) :
    task.joined.count c = task.name.text.count c := by
  obtain ⟨blank, dash, digit⟩ := other
  have pid : (decimal task.pid).count c = 0 := List.count_eq_zero.mpr (not_mem_decimal digit _)
  rw [joined, List.count_append, List.count_cons_of_ne dash.symm, pid,
    count_trDelete (by simpa using blank), Nat.add_zero]

end Task

/-- The first two fields come from the name, if it is more than one field, or are the name
and the pid. -/
theorem first_two {part : Text} {pid : Nat} {rest others : List Text} {first second : Text}
    (fields : part.splitOn ',' ++ decimal pid :: rest = first :: second :: others) :
    (first = part ∧ second = decimal pid ∧ ',' ∉ part) ∨
      (',' ∉ first ∧ ',' ∉ second ∧ ∃ more, part.splitOn ',' = first :: second :: more) := by
  have solid {field : Text} (member : field ∈ part.splitOn ',') : ',' ∉ field := fun comma =>
    absurd ((infix_of_mem_splitOnP member).2 _ comma) (by decide)
  cases split : part.splitOn ',' with
  | nil => exact absurd split (List.splitOn_ne_nil ',' part)
  | cons one more =>
      rw [split] at fields solid
      obtain ⟨rfl, behind⟩ := List.cons_eq_cons.mp fields
      cases more with
      | nil =>
          have free : ',' ∉ part := by
            rw [← List.count_eq_zero]
            have length := length_splitOn ',' part
            rw [split, List.length_singleton] at length
            omega
          rw [splitOn_eq_singleton_iff.mpr free] at split
          have second := (List.cons_eq_cons.mp behind).1
          exact .inl ⟨(List.singleton_inj.mp split).symm, second.symm, free⟩
      | cons two more =>
          obtain ⟨rfl, -⟩ := List.cons_eq_cons.mp behind
          exact .inr ⟨solid List.mem_cons_self, solid (List.mem_cons_of_mem _ List.mem_cons_self),
            more, rfl⟩

theorem count_joinFields_le {c : Char} (other : c ≠ '-') (first second : Text) :
    (joinFields first second).count c ≤ first.count c + second.count c := by
  have dash : c ∉ ['-'] := by simpa using other
  have tab (text : Text) : (sedSubst ['\t'] ['-'] text).count c ≤ text.count c :=
    count_sedSubst_le (by decide) dash text
  have blanks : (trDelete [' '] first).count c ≤ first.count c :=
    List.Sublist.count_le c (List.filter_sublist)
  rw [joinFields_eq, List.count_append, List.count_cons_of_ne other.symm]
  have one := tab (trDelete [' '] first)
  have two := tab second
  omega

/-- A clean name is one field. -/
theorem comma_not_mem_part {part : Text} {name : Comm} (clean : name.Clean)
    (same : trDelete [' '] part = trDelete [' '] (sedMarkers name.text)) : ',' ∉ part := by
  rw [sedMarkers, sedAll_eq_self (by decide) clean.2] at same
  intro comma
  have there : ',' ∈ trDelete [' '] part := mem_trDelete.mpr ⟨comma, by decide⟩
  rw [same] at there
  exact clean.1 (mem_trDelete.mp there).1

/-- The fields of a readable name. -/
theorem joinFields_of_readable {part : Text} {task : Task} {rest others : List Text}
    {first second : Text} (readable : task.name.Readable)
    (same : trDelete [' '] part = trDelete [' '] (sedMarkers task.name.text))
    (fields : part.splitOn ',' ++ decimal task.pid :: rest = first :: second :: others) :
    joinFields first second = task.joined := by
  obtain ⟨clean, noTab⟩ := readable
  have partFree := comma_not_mem_part clean same
  rw [sedMarkers, sedAll_eq_self (by decide) clean.2] at same
  have tabFree : ¬ ['\t'] <:+: trDelete [' '] task.name.text :=
    not_infix_of_not_mem List.mem_cons_self fun tab => noTab (mem_trDelete.mp tab).1
  have pidFree : ¬ ['\t'] <:+: decimal task.pid :=
    not_infix_of_not_mem List.mem_cons_self (not_mem_decimal (by decide) _)
  rcases first_two fields with ⟨rfl, rfl, -⟩ | ⟨-, -, more, split⟩
  · rw [joinFields_eq, same, sedSubst_eq_self (by decide) tabFree,
      sedSubst_eq_self (by decide) pidFree]
    rfl
  · rw [splitOn_eq_singleton_iff.mpr partFree] at split
    cases split

/-- The fields give back the task exactly when the name is one field and keeps its
characters. -/
theorem blankWords_joinFields_iff {part : Text} {task : Task} {rest others : List Text}
    {first second : Text} (same : trDelete [' '] part = trDelete [' '] (sedMarkers task.name.text))
    (fields : part.splitOn ',' ++ decimal task.pid :: rest = first :: second :: others) :
    blankWords (joinFields first second) = [task.joined] ↔ task.name.Readable := by
  constructor
  · intro words
    have flat : (joinFields first second).filter (fun c => !isSpace c) = task.joined := by
      rw [← flatten_wordsBy, show wordsBy isSpace (joinFields first second) = _ from words]
      exact List.append_nil _
    have count {c : Char} (other : c ≠ ' ' ∧ c ≠ '-' ∧ ¬ c.isDigit) :
        task.name.text.count c = (joinFields first second).count c := by
      rw [← Task.count_joined other, ← flat]
      exact List.count_filter (by simpa [isSpace] using other.1)
    have bounded {c : Char} (other : c ≠ '-') := count_joinFields_le other first second
    have noTab : '\t' ∉ task.name.text := by
      rw [← List.count_eq_zero, count (by decide), List.count_eq_zero]
      exact not_mem_sedSubst_singleton (by decide) _
    have noComma : ',' ∉ task.name.text := by
      have none : first.count ',' = 0 ∧ second.count ',' = 0 := by
        rcases first_two fields with ⟨rfl, rfl, free⟩ | ⟨one, two, -⟩
        · exact ⟨List.count_eq_zero.mpr free,
            List.count_eq_zero.mpr (FixedEvent.comma_not_mem_decimal _)⟩
        · exact ⟨List.count_eq_zero.mpr one, List.count_eq_zero.mpr two⟩
      rw [← List.count_eq_zero, count (by decide)]
      have all := bounded (c := ',') (by decide)
      omega
    have equals : (sedMarkers task.name.text).count '=' = part.count '=' := by
      have deleted := congrArg (List.count '=') same
      rw [count_trDelete (by decide), count_trDelete (by decide)] at deleted
      exact deleted.symm
    have inside : first.count '=' + second.count '=' ≤ part.count '=' := by
      rcases first_two fields with ⟨rfl, rfl, -⟩ | ⟨-, -, more, split⟩
      · rw [List.count_eq_zero.mpr (eq_not_mem_decimal task.pid)]
        exact le_rfl
      · rw [← count_flatten_splitOn ',' (by decide) part, split, List.flatten_cons,
          List.flatten_cons, List.count_append, List.count_append]
        omega
    have lossy : ∀ command ∈ markers, '=' ∈ command.1 ∧ '=' ∉ command.2 := by decide
    have fewer : (sedMarkers task.name.text).count '=' ≤ task.name.text.count '=' :=
      count_sedAll_le lossy _
    have kept := count (c := '=') (by decide)
    have all := bounded (c := '=') (by decide)
    have unchanged : (sedAll markers task.name.text).count '=' = task.name.text.count '=' := by
      rw [← sedMarkers]
      omega
    have free := sedAll_eq_self_of_count lossy unchanged
    exact ⟨⟨noComma, free⟩, noTab⟩
  · intro readable
    rw [joinFields_of_readable readable same fields]
    exact Task.blankWords_joined

/-! ## One event -/

namespace FixedEvent

variable (e : FixedEvent)

theorem trDelete_prevPart :
    trDelete [' '] e.prevPart = trDelete [' '] (sedMarkers e.prev.name.text) :=
  (trDelete_withoutBlankCommas _).trans (trDelete_cons_of_mem List.mem_cons_self _)

theorem trDelete_nextPart :
    trDelete [' '] e.nextPart = trDelete [' '] (sedMarkers e.next.name.text) :=
  trDelete_withoutBlankCommas _

/-- The two tasks as the columns have them. -/
def prevJoined : Text :=
  joinFields (cutField ',' 1 (formatted2Of e.line)) (cutField ',' 2 (formatted2Of e.line))

def nextJoined : Text :=
  joinFields (cutField ',' 5 (formatted2Of e.line)) (cutField ',' 6 (formatted2Of e.line))

/-- The fields that are cut are the first ones. -/
theorem exists_fields : ∃ prio state more, (formatted2Of e.line).splitOn ',' =
    cutField ',' 1 (formatted2Of e.line) :: cutField ',' 2 (formatted2Of e.line) ::
      prio :: state :: cutField ',' 5 (formatted2Of e.line) ::
        cutField ',' 6 (formatted2Of e.line) :: more := by
  have first := List.length_pos_iff.mpr (List.splitOn_ne_nil ',' e.prevPart)
  have second := List.length_pos_iff.mpr (List.splitOn_ne_nil ',' e.nextPart)
  have enough : 7 ≤ ((formatted2Of e.line).splitOn ',').length := by
    rw [splitOn_formatted2Of]
    simp only [List.length_append, List.length_cons, List.length_nil]
    omega
  have six : ((formatted2Of e.line).splitOn ',').take 6 =
      (List.range 6).map fun k => cutField ',' (k + 1) (formatted2Of e.line) :=
    take_splitOn (by omega) (by omega)
  have range : List.range 6 = [0, 1, 2, 3, 4, 5] := rfl
  have whole := List.take_append_drop 6 ((formatted2Of e.line).splitOn ',')
  rw [six, range] at whole
  simp only [List.map_cons, List.map_nil, List.cons_append, List.nil_append, Nat.zero_add,
    Nat.reduceAdd] at whole
  exact ⟨_, _, _, whole.symm⟩

theorem blankWords_prevJoined_iff :
    blankWords e.prevJoined = [e.prev.joined] ↔ e.prev.name.Readable := by
  obtain ⟨prio, state, more, fields⟩ := e.exists_fields
  rw [splitOn_formatted2Of] at fields
  exact blankWords_joinFields_iff e.trDelete_prevPart fields

theorem prevJoined_of_readable (readable : e.prev.name.Readable) :
    e.prevJoined = e.prev.joined := by
  obtain ⟨prio, state, more, fields⟩ := e.exists_fields
  rw [splitOn_formatted2Of] at fields
  exact joinFields_of_readable readable e.trDelete_prevPart fields

/-- Behind a clean name the fields of the next task are where they are cut. -/
theorem blankWords_nextJoined_iff (clean : e.prev.name.Clean) :
    blankWords e.nextJoined = [e.next.joined] ↔ e.next.name.Readable := by
  have single := splitOn_eq_singleton_iff.mpr (comma_not_mem_part clean e.trDelete_prevPart)
  obtain ⟨prio, state, more, fields⟩ := e.exists_fields
  rw [splitOn_formatted2Of, single] at fields
  simp only [List.cons_append, List.nil_append, List.cons.injEq] at fields
  obtain ⟨-, -, -, -, fields⟩ := fields
  exact blankWords_joinFields_iff e.trDelete_nextPart fields

/-- The row of an event. -/
def cpuusageRow : Text :=
  dropLeadingBlank (e.prevJoined ++ ' ' ::
    (trSqueeze ' ' (cutColumns 34 46 e.line) ++ ' ' :: e.nextJoined))

theorem blankWords_cpuusageRow :
    blankWords e.cpuusageRow =
      blankWords e.prevJoined ++ fixedPoint 6 e.time :: blankWords e.nextJoined := by
  have front (line : Text) : blankWords (dropLeadingBlank line) = blankWords line := by
    unfold dropLeadingBlank
    split
    · exact (wordsBy_cons rfl _).symm
    · rfl
  have time : blankWords (fixedPoint 6 e.time) = [fixedPoint 6 e.time] := by
    refine wordsBy_eq_singleton (fun c member => ?_) (by simp [fixedPoint])
    rw [isSpace, beq_eq_false_iff_ne]
    rintro rfl
    exact absurd (mem_fixedPoint member) (by decide)
  have cut (a b : Text) : blankWords (a ++ ' ' :: b) = blankWords a ++ blankWords b :=
    wordsBy_append_cons rfl a b
  rw [cpuusageRow, front, cut, cut, e.blankWords_timestamp, time, List.singleton_append]

/-- The words of a row are those of its event exactly when both names are readable. -/
theorem blankWords_cpuusageRow_iff :
    blankWords e.cpuusageRow = [e.prev.joined, fixedPoint 6 e.time, e.next.joined] ↔
      e.prev.name.Readable ∧ e.next.name.Readable := by
  rw [blankWords_cpuusageRow]
  constructor
  · intro words
    have prevSome := blankWords_joinFields_ne_nil (cutField ',' 1 (formatted2Of e.line))
      (cutField ',' 2 (formatted2Of e.line))
    have nextSome := blankWords_joinFields_ne_nil (cutField ',' 5 (formatted2Of e.line))
      (cutField ',' 6 (formatted2Of e.line))
    obtain ⟨p, ps, prevWords⟩ := List.exists_cons_of_ne_nil prevSome
    obtain ⟨n, ns, nextWords⟩ := List.exists_cons_of_ne_nil nextSome
    have prevWords : blankWords e.prevJoined = p :: ps := prevWords
    have nextWords : blankWords e.nextJoined = n :: ns := nextWords
    rw [prevWords, nextWords] at words
    obtain ⟨rfl, behind⟩ := List.cons_eq_cons.mp words
    have lengths := congrArg List.length behind
    cases ps with
    | cons _ _ =>
        simp only [List.append_eq, List.cons_append, List.length_cons, List.length_append,
          List.length_nil] at lengths
        omega
    | nil =>
        have last := (List.cons_eq_cons.mp behind).2
        have prev := e.blankWords_prevJoined_iff.mp prevWords
        exact ⟨prev, (e.blankWords_nextJoined_iff prev.1).mp (nextWords.trans last)⟩
  · rintro ⟨prev, next⟩
    rw [e.blankWords_prevJoined_iff.mpr prev, (e.blankWords_nextJoined_iff prev.1).mpr next]
    rfl

end FixedEvent

/-! ## The file -/

/-- Three columns computed from one list. -/
theorem paste_map_map_map {α : Type} (sep : Char) (items : List α) (one two three : α → Text) :
    paste sep [items.map one, items.map two, items.map three] =
      items.map fun item => one item ++ sep :: (two item ++ sep :: three item) := by
  apply List.ext_getElem
  · simp [paste]
  · intro r inRange inItems
    have bound : r < items.length := by simpa using inItems
    simp [paste, pasteRow, bound, List.intercalate]

theorem currNamePid_lines (events : List FixedEvent) :
    currNamePid (columnCurrname (events.map fun e => e.line))
        (columnCurrpid (events.map fun e => e.line)) = events.map FixedEvent.prevJoined := by
  unfold currNamePid columnCurrname columnCurrpid withoutBlanks payloadColumn formatted2
  simp only [List.map_map]
  rw [paste_map_map, List.map_map]
  refine List.map_congr_left fun e _ => ?_
  rw [FixedEvent.prevJoined, joinFields]
  simp only [Function.comp_apply]

theorem nextNamePid_lines (events : List FixedEvent) :
    nextNamePid (columnNextname (events.map fun e => e.line))
        (columnNextpid (events.map fun e => e.line)) = events.map FixedEvent.nextJoined := by
  unfold nextNamePid columnNextname columnNextpid withoutBlanks payloadColumn formatted2
  simp only [List.map_map]
  rw [paste_map_map, List.map_map]
  refine List.map_congr_left fun e _ => ?_
  rw [FixedEvent.nextJoined, joinFields]
  simp only [Function.comp_apply]

theorem forCpuusage_lines (events : List FixedEvent) :
    forCpuusage (events.map fun e => e.line) = events.map FixedEvent.cpuusageRow := by
  unfold forCpuusage pasteForCpuusage columnTimestamp
  rw [currNamePid_lines, nextNamePid_lines, List.map_map, paste_map_map_map, List.map_map]
  rfl

/-- Word by word the file has the previous task, the time and the next task of every event,
exactly when every name is readable. -/
theorem forCpuusage_iff (events : List FixedEvent) :
    (forCpuusage (events.map fun e => e.line)).map blankWords =
        events.map (fun e => [e.prev.joined, fixedPoint 6 e.time, e.next.joined]) ↔
      ∀ e ∈ events, e.prev.name.Readable ∧ e.next.name.Readable := by
  rw [forCpuusage_lines, List.map_map, List.map_inj_left]
  refine forall₂_congr fun e _ => ?_
  rw [Function.comp_apply]
  exact e.blankWords_cpuusageRow_iff

end StudyLinux
