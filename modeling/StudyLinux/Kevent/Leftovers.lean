import StudyLinux.Kevent.Tasklist

/-!
# What a run takes over from earlier ones

`output/tasklist` is appended to and never cleared, so a run also looks for the
tasks of earlier traces. Two runs on the same traces are compared by what they
find: their results agree exactly when each entry that only one of the lists
makes the run look for, and that has rows now, is out of reach of the listing of
the forty largest files (`sameResults_iff`).
-/

namespace StudyLinux

/-- The results of a run: the elapsed files and the summary. -/
def SameResults (a b : Output) : Prop :=
  a.elapsed = b.elapsed ∧ a.totCpuusagePertask = b.totCpuusagePertask

theorem mergeCpuusageOfPertask_totCpuusagePertask (env : Env) (o : Output) :
    (mergeCpuusageOfPertask env o).totCpuusagePertask =
      summaryNames env ((mergeCpuusageOfPertask env o).elapsed.getD .empty) ::
        summaryRows env ((mergeCpuusageOfPertask env o).elapsed.getD .empty) := rfl

/-- The summary is computed from the elapsed files alone. -/
theorem doAllStage_totCpuusagePertask (env : Env) (traces : Traces) (o : Output) :
    (doAllStage env traces o).1.totCpuusagePertask =
      summaryNames env ((doAllStage env traces o).1.elapsed.getD .empty) ::
        summaryRows env ((doAllStage env traces o).1.elapsed.getD .empty) := by
  rw [doAllStage]
  exact mergeCpuusageOfPertask_totCpuusagePertask env _

/-- Every entry of a list that another list lacks, and that has rows and a visible
file, has at least forty entries of the listing in front of it. -/
def ExtraUnprocessed (env : Env) (csv : Cpu → File) (list other : List Text) : Prop :=
  ∀ entry ∈ list, (∀ known ∈ other, entryFile known ≠ entryFile entry) →
    entryRows env.toPatterns csv entry ≠ [] → IsVisible (entryFile entry) →
      total ≤ rank env csv list entry

/-! ## The listing -/

section Listing

variable {env : Env} {csv : Cpu → File} {list other : List Text}

theorem mem_contenders {shown : Entry} :
    shown ∈ contenders env csv list ↔
      (shown = ⟨elapsedName, env.dirSize⟩ ∨
          ∃ entry ∈ list, entryOf env.toPatterns csv entry = shown) ∧
        IsVisible shown.name := by
  rw [contenders, List.mem_filter, List.mem_dedup, List.mem_cons, List.mem_map, decide_eq_true_eq]

theorem entryOf_congr (env : Env) (csv : Cpu → File) {entry entry' : Text} (isEntry : IsEntry entry)
    (isEntry' : IsEntry entry')
    (same : entryFile entry = entryFile entry') :
    entryOf env.toPatterns csv entry = entryOf env.toPatterns csv entry' := by
  rw [entryOf, entryOf, same, entryRows_congr _ isEntry.numbered isEntry'.numbered same]

/-- An entry that both lists have is processed with the one if it is with the other. -/
theorem rank_lt_of_extraUnprocessed (listEntries : ∀ entry ∈ list, IsEntry entry)
    (otherEntries : ∀ entry ∈ other, IsEntry entry)
    (unprocessed : ExtraUnprocessed env csv other list) {entry : Text}
    (inhabited : entryRows env.toPatterns csv entry ≠ [])
    (early : rank env csv list entry < total) :
    rank env csv other entry < total := by
  refine countP_lt_of_crowded ((List.nodup_dedup _).filter _)
    (fun shown : Entry => 0 < shown.size) (fun a b => size_pos_of_listingKey_lt) ?_
    (fileSize_pos.mpr inhabited) early
  intro shown inOther sized alone
  obtain ⟨isElapsed | ⟨extra, listed, rfl⟩, visible⟩ := mem_contenders.mp inOther
  · exact (alone (mem_contenders.mpr ⟨Or.inl isElapsed, visible⟩)).elim
  · refine unprocessed extra listed (fun known inList same => alone ?_) (fileSize_pos.mp sized)
      visible
    exact mem_contenders.mpr ⟨Or.inr ⟨known, inList,
      entryOf_congr env csv (listEntries known inList) (otherEntries extra listed) same⟩, visible⟩

end Listing

/-! ## Two runs on the same traces -/

section Runs

variable {env : Env} {events : Cpu → List FixedEvent} {o₁ o₂ : Output}

/-- A file with lines that one run processes is processed by the other. -/
theorem processed_of_extraUnprocessed
    (entries₁ : ∀ entry ∈ entries env (tracesOf events) o₁, IsEntry entry)
    (entries₂ : ∀ entry ∈ entries env (tracesOf events) o₂, IsEntry entry)
    (unprocessed₁ : ExtraUnprocessed env (csvsOf (tracesOf events))
      (entries env (tracesOf events) o₁) (entries env (tracesOf events) o₂))
    (unprocessed₂ : ExtraUnprocessed env (csvsOf (tracesOf events))
      (entries env (tracesOf events) o₂) (entries env (tracesOf events) o₁))
    {f : Text} (chosen : f ∈ processed env (withElapsed env (tracesOf events) o₁))
    (inhabited :
      elapsedLines (((splitStages env (tracesOf events) o₁).pertask.get f).getD []) ≠ []) :
    f ∈ processed env (withElapsed env (tracesOf events) o₂) ∧
      (splitStages env (tracesOf events) o₁).pertask.get f =
        (splitStages env (tracesOf events) o₂).pertask.get f := by
  have there : f ∈ (splitStages env (tracesOf events) o₁).pertask.names := by
    rw [Dir.mem_names, Option.isSome_iff_ne_none]
    intro missing
    rw [missing] at inhabited
    exact inhabited elapsedLines_nil
  obtain ⟨entry, listed, rfl⟩ := exists_entry_of_mem_names entries₁ there
  have stored := get_splitStages_of_mem entries₁ listed
  obtain ⟨visible, early⟩ := (mem_processed entries₁ listed).mp chosen
  have rows : entryRows env.toPatterns (csvsOf (tracesOf events)) entry ≠ [] := by
    intro none
    rw [stored, none] at inhabited
    exact inhabited elapsedLines_nil
  by_cases shared : ∃ known ∈ entries env (tracesOf events) o₂, entryFile known = entryFile entry
  · obtain ⟨known, knownListed, same⟩ := shared
    have sameEntry := entryOf_congr env (csvsOf (tracesOf events))
      (entries₂ known knownListed) (entries₁ entry listed) same
    have early₂ := rank_lt_of_extraUnprocessed entries₁ entries₂ unprocessed₂ rows early
    rw [rank, ← sameEntry] at early₂
    rw [stored, ← same]
    refine ⟨(mem_processed entries₂ knownListed).mpr ⟨same ▸ visible, early₂⟩, ?_⟩
    rw [get_splitStages_of_mem entries₂ knownListed,
      entryRows_congr _ (entries₂ known knownListed).numbered (entries₁ entry listed).numbered same]
  · have alone : ∀ known ∈ entries env (tracesOf events) o₂, entryFile known ≠ entryFile entry :=
      fun known knownListed same => shared ⟨known, knownListed, same⟩
    exact absurd early (not_lt.mpr (unprocessed₁ entry listed alone rows visible))

/-- If the results agree, no entry of one list alone was processed with rows. -/
theorem extraUnprocessed_of_sameResults
    (entries₁ : ∀ entry ∈ entries env (tracesOf events) o₁, IsEntry entry)
    (entries₂ : ∀ entry ∈ entries env (tracesOf events) o₂, IsEntry entry)
    (same : SameResults (doAllStage env (tracesOf events) o₁).1
      (doAllStage env (tracesOf events) o₂).1) :
    ExtraUnprocessed env (csvsOf (tracesOf events))
      (entries env (tracesOf events) o₁) (entries env (tracesOf events) o₂) := by
  intro entry listed alone rows visible
  by_contra early
  obtain ⟨d₁, made₁, get₁⟩ := get_doAllStage_elapsed entries₁
  obtain ⟨d₂, made₂, get₂⟩ := get_doAllStage_elapsed entries₂
  have sameDir : d₁ = d₂ := Option.some.inj (made₁.symm.trans (same.1.trans made₂))
  have chosen : entryFile entry ∈ processed env (withElapsed env (tracesOf events) o₁) :=
    (mem_processed entries₁ listed).mpr ⟨visible, not_le.mp early⟩
  have stored := get_splitStages_of_mem entries₁ listed
  have absent : (splitStages env (tracesOf events) o₂).pertask.get (entryFile entry) = none := by
    rw [← Option.not_isSome_iff_eq_none, ← Dir.mem_names]
    intro there
    obtain ⟨known, knownListed, file⟩ := exists_entry_of_mem_names entries₂ there
    exact alone known knownListed file.symm
  have lines : elapsedLines (entryRows env.toPatterns (csvsOf (tracesOf events)) entry) ≠ [] :=
    (elapsedLines_entryRows_ne_nil _).mpr rows
  have found := get₁ (entryFile entry)
  rw [stored, Option.getD_some, if_pos ⟨chosen, lines⟩, sameDir, get₂, absent, Option.getD_none,
    elapsedLines_nil, if_neg fun both => both.2 rfl] at found
  cases found

/-- Two leftover directories lead to the same results exactly when every entry that
only one of the runs looks for, and that has rows, is hidden or has forty larger
entries of the listing in front of it. -/
theorem sameResults_iff (entries₁ : ∀ entry ∈ entries env (tracesOf events) o₁, IsEntry entry)
    (entries₂ : ∀ entry ∈ entries env (tracesOf events) o₂, IsEntry entry) :
    SameResults (doAllStage env (tracesOf events) o₁).1 (doAllStage env (tracesOf events) o₂).1 ↔
      ExtraUnprocessed env (csvsOf (tracesOf events))
          (entries env (tracesOf events) o₁) (entries env (tracesOf events) o₂) ∧
        ExtraUnprocessed env (csvsOf (tracesOf events))
          (entries env (tracesOf events) o₂) (entries env (tracesOf events) o₁) := by
  constructor
  · intro same
    exact ⟨extraUnprocessed_of_sameResults entries₁ entries₂ same,
      extraUnprocessed_of_sameResults entries₂ entries₁ ⟨same.1.symm, same.2.symm⟩⟩
  · intro unprocessed
    rcases unprocessed with ⟨unprocessed₁, unprocessed₂⟩
    obtain ⟨d₁, made₁, get₁⟩ := get_doAllStage_elapsed entries₁
    obtain ⟨d₂, made₂, get₂⟩ := get_doAllStage_elapsed entries₂
    have sameDir : d₁ = d₂ := by
      refine Dir.ext_get fun f => ?_
      rw [get₁, get₂]
      split_ifs with chosen₁ chosen₂ chosen₂
      · have shared := processed_of_extraUnprocessed entries₁ entries₂ unprocessed₁ unprocessed₂
          chosen₁.1 chosen₁.2
        rw [shared.2]
      · have shared := processed_of_extraUnprocessed entries₁ entries₂ unprocessed₁ unprocessed₂
          chosen₁.1 chosen₁.2
        exact (chosen₂ ⟨shared.1, shared.2 ▸ chosen₁.2⟩).elim
      · have shared := processed_of_extraUnprocessed entries₂ entries₁ unprocessed₂ unprocessed₁
          chosen₂.1 chosen₂.2
        exact (chosen₁ ⟨shared.1, shared.2 ▸ chosen₂.2⟩).elim
      · rfl
    have sameElapsed : (doAllStage env (tracesOf events) o₁).1.elapsed =
        (doAllStage env (tracesOf events) o₂).1.elapsed := by rw [made₁, made₂, sameDir]
    refine ⟨sameElapsed, ?_⟩
    rw [doAllStage_totCpuusagePertask, doAllStage_totCpuusagePertask, sameElapsed]

end Runs

/-! ## A stale task -/

/-- A trace in which `b` leaves the CPU. -/
def earlierEvents : Cpu → List FixedEvent
  | .cpu0 => [switchEvent taskB taskA 1]
  | _ => []

/-- A trace in which `b` only enters it. -/
def currentEvents : Cpu → List FixedEvent
  | .cpu0 => [switchEvent taskA taskB 2]
  | _ => []

theorem cleanNames_earlierEvents : CleanNames earlierEvents := by
  intro cpu e member
  cases cpu with
  | cpu0 =>
      obtain rfl := List.mem_singleton.mp member
      decide
  | _ => exact absurd member List.not_mem_nil

theorem cleanNames_currentEvents : CleanNames currentEvents := by
  intro cpu e member
  cases cpu with
  | cpu0 =>
      obtain rfl := List.mem_singleton.mp member
      decide
  | _ => exact absurd member List.not_mem_nil

/-- Without history the run looks for `a` only. -/
theorem mem_entries_currentEvents {env : Env} {o : Output} {entry : Text} :
    entry ∈ entries env (tracesOf currentEvents) o ↔
      entry ∈ listedEntries env o.tasklist ∨ entry = "a,7".toList := by
  rw [mem_entries_tracesOf cleanNames_currentEvents]
  refine or_congr_right ⟨?_, ?_⟩
  · intro leaves
    rcases leaves with ⟨cpu, e, member, word⟩
    cases cpu with
    | cpu0 =>
        obtain rfl := List.mem_singleton.mp member
        have list : words (leaving (switchEvent taskA taskB 2)) =
            ["a,7".toList] := by decide
        exact List.mem_singleton.mp (list ▸ word)
    | _ => exact absurd member List.not_mem_nil
  · intro same
    subst same
    exact ⟨.cpu0, _, List.mem_singleton_self _, by decide⟩

theorem mem_leftBy_earlierEvents {env : Env} {entry : Text} :
    entry ∈ listedEntries env (leftBy env [earlierEvents]).tasklist ↔
      entry = "b,8".toList := by
  rw [leftBy, List.foldl_cons, List.foldl_nil, ← entries_eq,
    mem_entries_tracesOf cleanNames_earlierEvents]
  constructor
  · intro found
    rcases found with stale | ⟨cpu, e, member, word⟩
    · exact absurd stale List.not_mem_nil
    · cases cpu with
      | cpu0 =>
          obtain rfl := List.mem_singleton.mp member
          have list : words (leaving (switchEvent taskB taskA 1)) =
              ["b,8".toList] := by decide
          exact List.mem_singleton.mp (list ▸ word)
      | _ => exact absurd member List.not_mem_nil
  · intro same
    subst same
    exact Or.inr ⟨.cpu0, _, List.mem_singleton_self _, by decide⟩

/-- The task `b` has a row in the current traces. -/
theorem entryRows_taskB (p : Patterns) :
    entryRows p (csvsOf (tracesOf currentEvents)) "b,8".toList ≠ [] := by
  have pattern : entryPattern "b,8".toList = taskPattern ['b'] (decimal 8) := by decide
  have found : p.selects (entryPattern "b,8".toList) (switchEvent taskA taskB 2).row := by
    rw [pattern]
    exact p.selects_taskPattern (by decide) (by decide +kernel)
  have member : switchEvent taskA taskB 2 ∈ matching p currentEvents "b,8".toList :=
    (mem_matching p).mpr ⟨⟨.cpu0, List.mem_singleton_self _⟩, found⟩
  rw [entryRows_eq]
  intro none
  have sorted : switchEvent taskA taskB 2 ∈ matchingSorted p currentEvents "b,8".toList :=
    mem_sortBy.mpr member
  rw [List.map_eq_nil_iff.mp none] at sorted
  exact absurd sorted List.not_mem_nil

/-- A second run on traces that a fresh run has seen. -/
theorem sameResults_iff_currentEvents :
    let env : Env := .small false
    let stale := leftBy env [earlierEvents]
    SameResults (doAllStage env (tracesOf currentEvents) stale).1
        (doAllStage env (tracesOf currentEvents) (leftBy env [])).1 ↔
      ExtraUnprocessed env (csvsOf (tracesOf currentEvents))
          (entries env (tracesOf currentEvents) stale)
          (entries env (tracesOf currentEvents) (leftBy env [])) ∧
        ExtraUnprocessed env (csvsOf (tracesOf currentEvents))
          (entries env (tracesOf currentEvents) (leftBy env []))
          (entries env (tracesOf currentEvents) stale) :=
  sameResults_iff
    (isEntry_of_mem_entries_leftBy (by simpa using cleanNames_earlierEvents)
      cleanNames_currentEvents)
    (isEntry_of_mem_entries_leftBy (by simp) cleanNames_currentEvents)

/-- The same traces, with and without an earlier run, give different results. -/
theorem sameResults_fail :
    ¬ ∀ (env : Env) (history₁ history₂ : List (Cpu → List FixedEvent))
        (events : Cpu → List FixedEvent),
      SameResults (doAllStage env (tracesOf events) (leftBy env history₁)).1
        (doAllStage env (tracesOf events) (leftBy env history₂)).1 := by
  intro all
  let env : Env := .small false
  have entries₁ : ∀ entry ∈ entries env (tracesOf currentEvents) (leftBy env [earlierEvents]),
      IsEntry entry := isEntry_of_mem_entries_leftBy (by simpa using cleanNames_earlierEvents)
    cleanNames_currentEvents
  have entries₂ : ∀ entry ∈ entries env (tracesOf currentEvents) (leftBy env []), IsEntry entry :=
    isEntry_of_mem_entries_leftBy (by simp) cleanNames_currentEvents
  have listed : "b,8".toList ∈ entries env (tracesOf currentEvents) (leftBy env [earlierEvents]) :=
    mem_entries_currentEvents.mpr (Or.inl (mem_leftBy_earlierEvents.mpr rfl))
  have alone : ∀ known ∈ entries env (tracesOf currentEvents) (leftBy env []),
      entryFile known ≠ entryFile "b,8".toList := by
    intro known member
    rcases mem_entries_currentEvents.mp member with stale | rfl
    · exact absurd stale List.not_mem_nil
    · decide
  have crowded := extraUnprocessed_of_sameResults entries₁ entries₂
    (all env [earlierEvents] [] currentEvents) _ listed alone (entryRows_taskB _) (by decide)
  have few : ∀ entry ∈ entries env (tracesOf currentEvents) (leftBy env [earlierEvents]),
      entry ∈ ["b,8".toList, "a,7".toList] := by
    intro entry member
    rcases mem_entries_currentEvents.mp member with stale | rfl
    · rw [mem_leftBy_earlierEvents.mp stale]
      simp
    · simp
  have counted := rank_le_of_subset env (csvsOf (tracesOf currentEvents)) few "b,8".toList
  exact absurd (crowded.trans counted) (by decide)

end StudyLinux
