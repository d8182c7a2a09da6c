import StudyLinux.Ftrace.Event
import StudyLinux.Text.Subst

/-!
# Markers of the payload

Both parsers turn the payload into comma-separated text with one sed program:
each marker (`prev_comm=`, `prev_pid=`, …) is replaced by nothing or by a comma,
everywhere in the line. The payload is a sequence of chunks that start at a
blank; the substitutions act on each chunk separately, so the markers of the
payload itself go and what happens inside the two task names is the same program
run on the name alone (`sedMarkers_payload`).
-/

namespace StudyLinux

/-- `s/prev_comm=//g;s/prev_pid=/,/g;s/prev_prio=/,/g;s/prev_state=/,/g;`
`s/==> next_comm=/,/g;s/next_pid=/,/g;s/next_prio=/,/g`. -/
def markers : List (Text × Text) :=
  [("prev_comm=".toList, []), ("prev_pid=".toList, [',']), ("prev_prio=".toList, [',']),
    ("prev_state=".toList, [',']), ("==> next_comm=".toList, [',']), ("next_pid=".toList, [',']),
    ("next_prio=".toList, [','])]

/-- A sed program of global substitutions. -/
def sedAll (program : List (Text × Text)) (line : Text) : Text :=
  program.foldl (fun line command => sedSubst command.1 command.2 line) line

/-- The marker substitutions of both scripts. -/
def sedMarkers (line : Text) : Text := sedAll markers line

@[simp] theorem sedAll_nil (line : Text) : sedAll [] line = line := rfl

@[simp] theorem sedAll_cons (command : Text × Text) (program : List (Text × Text)) (line : Text) :
    sedAll (command :: program) line = sedAll program (sedSubst command.1 command.2 line) := rfl

theorem sedAll_append (first second : List (Text × Text)) (line : Text) :
    sedAll (first ++ second) line = sedAll second (sedAll first line) := List.foldl_append

/-! ## Chunks -/

/-- A pattern without a blank is substituted in each chunk separately. -/
theorem sedSubst_blankChunks {pat rep : Text} (nonempty : pat ≠ []) (solid : ' ' ∉ pat)
    (chunks : List Text) :
    sedSubst pat rep (blankChunks chunks) = blankChunks (chunks.map (sedSubst pat rep)) := by
  have cut (chunk : Text) (chunks : List Text) :
      sedSubst pat rep (chunk ++ blankChunks chunks) =
        sedSubst pat rep chunk ++ blankChunks (chunks.map (sedSubst pat rep)) := by
    induction chunks generalizing chunk with
    | nil => simp
    | cons next chunks ih =>
        rw [blankChunks_cons, sedSubst_append_cons nonempty solid, ih, List.map_cons,
          blankChunks_cons]
  cases chunks with
  | nil => rfl
  | cons chunk chunks =>
      rw [blankChunks_cons, sedSubst_cons nonempty solid, cut, List.map_cons, blankChunks_cons]

theorem sedAll_blankChunks {program : List (Text × Text)}
    (solid : ∀ command ∈ program, command.1 ≠ [] ∧ ' ' ∉ command.1) (chunks : List Text) :
    sedAll program (blankChunks chunks) = blankChunks (chunks.map (sedAll program)) := by
  induction program generalizing chunks with
  | nil => exact congrArg blankChunks (List.map_id chunks).symm
  | cons command program ih =>
      obtain ⟨nonempty, noBlank⟩ := solid command List.mem_cons_self
      rw [sedAll_cons, sedSubst_blankChunks nonempty noBlank,
        ih fun later member => solid later (List.mem_cons_of_mem _ member), List.map_map]
      rfl

/-! ## A key and its value -/

/-- A pattern whose only `=` is its last character does not reach from a key
that ends in `=` into the value. -/
theorem sedSubst_key {pat rep key : Text} (once : pat.count '=' = 1)
    (closed : pat.getLast? = some '=') (keyClosed : key.getLast? = some '=')
    (foreign : ¬ pat <:+: key) (value : Text) :
    sedSubst pat rep (key ++ value) = key ++ sedSubst pat rep value := by
  have nonempty : pat ≠ [] := by intro same; subst same; cases closed
  rw [sedSubst_append nonempty, sedSubst_eq_self nonempty foreign]
  intro u v split left right ends _
  have rightLast : v.getLast? = some '=' := by
    rw [split, List.getLast?_append_of_ne_nil u right] at closed
    exact closed
  have leftLast : u.getLast? = some '=' := by
    obtain ⟨front, rfl⟩ := ends
    rw [List.getLast?_append_of_ne_nil front left] at keyClosed
    exact keyClosed
  have inLeft := List.count_pos_iff.mpr (List.mem_of_getLast? leftLast)
  have inRight := List.count_pos_iff.mpr (List.mem_of_getLast? rightLast)
  rw [split, List.count_append] at once
  omega

/-- A marker pattern: its only `=` closes it. -/
def IsKey (pat : Text) : Prop := pat.count '=' = 1 ∧ pat.getLast? = some '='

instance (pat : Text) : Decidable (IsKey pat) := inferInstanceAs (Decidable (_ ∧ _))

theorem sedAll_key {program : List (Text × Text)} {key : Text} (keyed : IsKey key)
    (foreign : ∀ command ∈ program, IsKey command.1 ∧ ¬ command.1 <:+: key) (value : Text) :
    sedAll program (key ++ value) = key ++ sedAll program value := by
  induction program generalizing value with
  | nil => rfl
  | cons command program ih =>
      obtain ⟨⟨once, closed⟩, other⟩ := foreign command List.mem_cons_self
      rw [sedAll_cons, sedSubst_key once closed keyed.2 other,
        ih fun later member => foreign later (List.mem_cons_of_mem _ member), sedAll_cons]

/-- Text without `=` holds no marker. -/
theorem sedAll_quiet {program : List (Text × Text)} (marked : ∀ command ∈ program, '=' ∈ command.1)
    {line : Text} (quiet : '=' ∉ line) : sedAll program line = line := by
  induction program with
  | nil => rfl
  | cons command program ih =>
      have here := marked command List.mem_cons_self
      rw [sedAll_cons, sedSubst_eq_self (List.ne_nil_of_mem here) (not_infix_of_not_mem here quiet),
        ih fun later member => marked later (List.mem_cons_of_mem _ member)]

/-- A key of the program in front of a value without markers is replaced. -/
theorem sedAll_marker (before after : List (Text × Text)) {key rep value : Text}
    (keyed : IsKey key) (foreign : ∀ command ∈ before, IsKey command.1 ∧ ¬ command.1 <:+: key)
    (marked : ∀ command ∈ after, '=' ∈ command.1) (repQuiet : '=' ∉ rep) (quiet : '=' ∉ value) :
    sedAll (before ++ (key, rep) :: after) (key ++ value) = rep ++ value := by
  have nonempty : key ≠ [] := by intro same; subst same; cases keyed.2
  have member : '=' ∈ key := List.mem_of_getLast? keyed.2
  have beforeMarked : ∀ command ∈ before, '=' ∈ command.1 := fun command inBefore =>
    List.mem_of_getLast? (foreign command inBefore).1.2
  rw [sedAll_append, sedAll_key keyed foreign, sedAll_quiet beforeMarked quiet, sedAll_cons,
    sedSubst_occurrence nonempty, sedSubst_eq_self nonempty (not_infix_of_not_mem member quiet),
    sedAll_quiet marked]
  rw [List.mem_append, not_or]
  exact ⟨repQuiet, quiet⟩

/-- A comma in front stays in front. -/
theorem sedAll_comma {program : List (Text × Text)}
    (solid : ∀ command ∈ program, command.1 ≠ [] ∧ ',' ∉ command.1) (value : Text) :
    sedAll program (',' :: value) = ',' :: sedAll program value := by
  induction program generalizing value with
  | nil => rfl
  | cons command program ih =>
      obtain ⟨nonempty, noComma⟩ := solid command List.mem_cons_self
      rw [sedAll_cons, sedSubst_cons nonempty noComma,
        ih fun later member => solid later (List.mem_cons_of_mem _ member), sedAll_cons]

/-! ## The arrow -/

/-- The one marker that contains a blank. -/
def arrow : Text := "==> next_comm=".toList

theorem arrow_eq : arrow = "==>".toList ++ ' ' :: "next_comm=".toList := by decide

/-- The arrow straddles a blank only if `next_comm=` follows the blank. -/
theorem sedSubst_arrow_append {rep a rest : Text} (blocked : ¬ "next_comm=".toList <+: rest) :
    sedSubst arrow rep (a ++ ' ' :: rest) =
      sedSubst arrow rep a ++ sedSubst arrow rep (' ' :: rest) := by
  refine sedSubst_append (by decide) ?_
  intro u v split _ right _ front
  obtain ⟨first, tail, rfl⟩ := List.exists_cons_of_ne_nil right
  obtain ⟨rfl, tailFront⟩ := List.cons_prefix_cons.mp front
  have shape : u ++ ' ' :: tail = "==>".toList ++ ' ' :: "next_comm=".toList :=
    split.symm.trans arrow_eq
  have once : ' ' ∉ u ∧ ' ' ∉ tail := by
    have count := congrArg (List.count ' ') shape
    rw [List.count_append, List.count_cons_self,
      show List.count ' ' ("==>".toList ++ ' ' :: "next_comm=".toList) = 1 by decide] at count
    exact ⟨List.count_eq_zero.mp (by omega), List.count_eq_zero.mp (by omega)⟩
  have same := (List.append_cons_inj_of_notMem once.1 once.2).mp shape
  exact blocked (same.2.2 ▸ tailFront)

/-- Text without `=`, then text that the arrow may stand in. -/
theorem sedSubst_arrow_skip {rep a : Text} (quiet : '=' ∉ a) (b : Text) :
    sedSubst arrow rep (a ++ b) = a ++ sedSubst arrow rep b :=
  sedSubst_skip (show arrow = '=' :: "=> next_comm=".toList by decide) quiet b

/-- The arrow of the payload goes; the two names are rewritten on their own. -/
theorem sedSubst_arrow_chunks {before after pid prio state nextPid nextPrio : Text}
    (pidQuiet : '=' ∉ pid) (prioQuiet : '=' ∉ prio) (stateQuiet : '=' ∉ state)
    (nextPidQuiet : '>' ∉ nextPid) (nextPrioQuiet : '>' ∉ nextPrio) :
    sedSubst arrow [','] (blankChunks
        [before, ',' :: pid, ',' :: prio, ',' :: state, "==>".toList, "next_comm=".toList ++ after,
          "next_pid=".toList ++ nextPid, "next_prio=".toList ++ nextPrio]) =
      blankChunks
        [sedSubst arrow [','] before, ',' :: pid, ',' :: prio, ',' :: state,
          ',' :: sedSubst arrow [','] after, "next_pid=".toList ++ nextPid,
          "next_prio=".toList ++ nextPrio] := by
  have tail : sedSubst arrow [','] (blankChunks
      ["next_pid=".toList ++ nextPid, "next_prio=".toList ++ nextPrio]) =
      blankChunks ["next_pid=".toList ++ nextPid, "next_prio=".toList ++ nextPrio] := by
    refine sedSubst_eq_self (by decide) (not_infix_of_not_mem (c := '>') (by decide) ?_)
    simp [nextPidQuiet, nextPrioQuiet]
  have named : sedSubst arrow [','] (after ++ blankChunks
      ["next_pid=".toList ++ nextPid, "next_prio=".toList ++ nextPrio]) =
      sedSubst arrow [','] after ++
        blankChunks ["next_pid=".toList ++ nextPid, "next_prio=".toList ++ nextPrio] := by
    rw [blankChunks_cons, sedSubst_arrow_append, ← blankChunks_cons, tail]
    intro front
    rcases front with ⟨rest, same⟩
    have fifth : some 'c' = some 'p' := congrArg (fun text : Text => text[5]?) same
    exact absurd fifth (by decide)
  let between : Text := ' ' :: ',' :: pid ++ ' ' :: ',' :: prio ++ ' ' :: ',' :: state ++ [' ']
  have betweenQuiet : '=' ∉ between := by simp [between, pidQuiet, prioQuiet, stateQuiet]
  calc sedSubst arrow [','] (blankChunks
        [before, ',' :: pid, ',' :: prio, ',' :: state, "==>".toList, "next_comm=".toList ++ after,
          "next_pid=".toList ++ nextPid, "next_prio=".toList ++ nextPrio])
      = sedSubst arrow [','] ([' '] ++ (before ++ (between ++ (arrow ++ (after ++ blankChunks
          ["next_pid=".toList ++ nextPid, "next_prio=".toList ++ nextPrio]))))) := by
        simp only [blankChunks_cons, between, arrow_eq, List.cons_append, List.append_assoc,
          List.nil_append]
    _ = [' '] ++ (sedSubst arrow [','] before ++ (between ++ ([','] ++
          (sedSubst arrow [','] after ++ blankChunks
            ["next_pid=".toList ++ nextPid, "next_prio=".toList ++ nextPrio])))) := by
        have cut : sedSubst arrow [','] (before ++ (between ++ (arrow ++ (after ++ blankChunks
            ["next_pid=".toList ++ nextPid, "next_prio=".toList ++ nextPrio])))) =
            sedSubst arrow [','] before ++ sedSubst arrow [','] (between ++ (arrow ++ (after ++
              blankChunks ["next_pid=".toList ++ nextPid, "next_prio=".toList ++ nextPrio]))) := by
          refine sedSubst_arrow_append ?_
          intro front
          rcases front with ⟨rest, same⟩
          exact absurd (congrArg List.head? same) (by simp)
        rw [sedSubst_arrow_skip (by decide), cut, sedSubst_arrow_skip betweenQuiet,
          sedSubst_occurrence (by decide), named]
    _ = _ := by
        simp only [blankChunks_cons, between, List.cons_append, List.append_assoc, List.nil_append]

/-! ## The payload -/

theorem eq_not_mem_decimal (n : Nat) : '=' ∉ decimal n :=
  not_mem_decimal (by decide) n

theorem eq_not_mem_decimalInt (n : Int) : '=' ∉ decimalInt n :=
  not_mem_decimalInt (by decide) n

theorem gt_not_mem_decimal (n : Nat) : '>' ∉ decimal n :=
  not_mem_decimal (by decide) n

theorem gt_not_mem_decimalInt (n : Int) : '>' ∉ decimalInt n :=
  not_mem_decimalInt (by decide) n

namespace SwitchEvent

/-- The program on a task name behind the first and the last two markers. -/
theorem sedMarkers_eq (line : Text) :
    sedMarkers line =
      sedAll (markers.drop 5) (sedSubst arrow [','] (sedAll (markers.take 4) line)) := rfl

variable (e : SwitchEvent)

theorem eq_not_mem_prevState : '=' ∉ e.prevState := fun member =>
  absurd (e.state_chars _ member) (by decide)

/-- The first four markers. -/
theorem sedAll_take_payload :
    sedAll (markers.take 4) e.payload = blankChunks
      [sedAll (markers.take 4) e.prev.name.text, ',' :: decimal e.prev.pid,
        ',' :: decimalInt e.prevPrio, ',' :: e.prevState, "==>".toList,
        "next_comm=".toList ++ sedAll (markers.take 4) e.next.name.text,
        "next_pid=".toList ++ decimal e.next.pid,
        "next_prio=".toList ++ decimalInt e.nextPrio] := by
  have marked : ∀ command ∈ markers.take 4, '=' ∈ command.1 := by decide
  have prevName : sedAll (markers.take 4) ("prev_comm=".toList ++ e.prev.name.text) =
      sedAll (markers.take 4) e.prev.name.text := by
    simp only [markers, List.take_succ_cons, sedAll_cons]
    rw [sedSubst_occurrence (by decide), List.nil_append]
  have prevPid : sedAll (markers.take 4) ("prev_pid=".toList ++ decimal e.prev.pid) =
      ',' :: decimal e.prev.pid :=
    sedAll_marker (markers.take 1) ((markers.take 4).drop 2) (by decide)
      (by decide) (by decide) (by decide) (eq_not_mem_decimal _)
  have prevPrio : sedAll (markers.take 4) ("prev_prio=".toList ++ decimalInt e.prevPrio) =
      ',' :: decimalInt e.prevPrio :=
    sedAll_marker (markers.take 2) ((markers.take 4).drop 3) (by decide)
      (by decide) (by decide) (by decide) (eq_not_mem_decimalInt _)
  have prevState : sedAll (markers.take 4) ("prev_state=".toList ++ e.prevState) =
      ',' :: e.prevState :=
    sedAll_marker (markers.take 3) [] (by decide)
      (by decide) (by decide) (by decide) e.eq_not_mem_prevState
  have nextName : sedAll (markers.take 4) ("next_comm=".toList ++ e.next.name.text) =
      "next_comm=".toList ++ sedAll (markers.take 4) e.next.name.text :=
    sedAll_key (by decide) (by decide) _
  have nextPid : sedAll (markers.take 4) ("next_pid=".toList ++ decimal e.next.pid) =
      "next_pid=".toList ++ decimal e.next.pid := by
    rw [sedAll_key (by decide) (by decide), sedAll_quiet marked (eq_not_mem_decimal _)]
  have nextPrio : sedAll (markers.take 4) ("next_prio=".toList ++ decimalInt e.nextPrio) =
      "next_prio=".toList ++ decimalInt e.nextPrio := by
    rw [sedAll_key (by decide) (by decide), sedAll_quiet marked (eq_not_mem_decimalInt _)]
  have sign : sedAll (markers.take 4) "==>".toList = "==>".toList := by decide
  rw [payload, sedAll_blankChunks (by decide)]
  simp only [List.map_cons, List.map_nil, prevName, prevPid, prevPrio, prevState, sign, nextName,
    nextPid, nextPrio]

/-- The arrow, after the first four markers. -/
theorem sedSubst_arrow_payload :
    sedSubst arrow [','] (sedAll (markers.take 4) e.payload) = blankChunks
      [sedSubst arrow [','] (sedAll (markers.take 4) e.prev.name.text), ',' :: decimal e.prev.pid,
        ',' :: decimalInt e.prevPrio, ',' :: e.prevState,
        ',' :: sedSubst arrow [','] (sedAll (markers.take 4) e.next.name.text),
        "next_pid=".toList ++ decimal e.next.pid,
        "next_prio=".toList ++ decimalInt e.nextPrio] := by
  rw [sedAll_take_payload]
  exact sedSubst_arrow_chunks (eq_not_mem_decimal _) (eq_not_mem_decimalInt _)
    e.eq_not_mem_prevState (gt_not_mem_decimal _) (gt_not_mem_decimalInt _)

/-- The program acts on the payload's own markers and on each name by itself. -/
theorem sedMarkers_payload :
    sedMarkers e.payload = blankChunks
      [sedMarkers e.prev.name.text, ',' :: decimal e.prev.pid, ',' :: decimalInt e.prevPrio,
        ',' :: e.prevState, ',' :: sedMarkers e.next.name.text, ',' :: decimal e.next.pid,
        ',' :: decimalInt e.nextPrio] := by
  have marked : ∀ command ∈ markers.drop 5, '=' ∈ command.1 := by decide
  have nextPid : sedAll (markers.drop 5) ("next_pid=".toList ++ decimal e.next.pid) =
      ',' :: decimal e.next.pid :=
    sedAll_marker [] (markers.drop 6) (by decide)
      (by decide) (by decide) (by decide) (eq_not_mem_decimal _)
  have nextPrio : sedAll (markers.drop 5) ("next_prio=".toList ++ decimalInt e.nextPrio) =
      ',' :: decimalInt e.nextPrio :=
    sedAll_marker ((markers.drop 5).take 1) [] (by decide)
      (by decide) (by decide) (by decide) (eq_not_mem_decimalInt _)
  have comma : ∀ value : Text, sedAll (markers.drop 5) (',' :: value) =
      ',' :: sedAll (markers.drop 5) value := sedAll_comma (by decide)
  rw [sedMarkers_eq, sedSubst_arrow_payload, sedAll_blankChunks (by decide)]
  simp only [List.map_cons, List.map_nil, comma, nextPid, nextPrio,
    sedAll_quiet marked (eq_not_mem_decimal _), sedAll_quiet marked (eq_not_mem_decimalInt _),
    sedAll_quiet marked e.eq_not_mem_prevState, ← sedMarkers_eq]

end SwitchEvent

end StudyLinux
