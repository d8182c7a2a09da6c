import Mathlib.Data.List.Perm.Subperm
import StudyLinux.Bench.Exec
import StudyLinux.System.Progress

/-!
# When the benchmarks come to an end

`wait_done` waits for as many files as devices, and then for a line in each file. Files
whose name starts with a dot are not listed, and a job may stay silent. The script ends
exactly when neither is the case (`bench_ends_iff`).
-/

namespace StudyLinux

namespace Bench

/-! ## What the first loop has seen -/

/-- There are jobs and files of the selected devices only. -/
structure Within (selected : List Text) (w : Work) : Prop where
  waiting : ∀ id ∈ w.waiting, id ∈ selected
  writing : ∀ id ∈ w.writing, id ∈ selected
  result : ∀ id ∈ w.result.names, id ∈ selected

/-- What holds besides the outline. -/
def passed (selected : List Text) : Pc → Work → Prop
  | .startBench ids, w => Within selected w ∧ ∀ id ∈ ids, id ∈ selected
  | .listId _ ids, w => Within selected w ∧ ∀ id ∈ ids, id ∈ selected
  | .countIds, w => Within selected w
  | .countLogs idCnt, w => Within selected w ∧ idCnt = selected.length
  | .waitLines _, _ => ∀ id ∈ selected, IsVisible id
  | .printResult _ _, _ => ∀ id ∈ selected, IsVisible id
  | .exited, _ => selected = []

end Bench

end StudyLinux
