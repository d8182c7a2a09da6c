import StudyLinux.Store.Dir
import StudyLinux.System.Patterns
import StudyLinux.Text.Decimal

/-!
# The output directory of kevent_parser.sh

What the stages read and write. A file that does not exist and an empty one are
alike to `cat` and `>>`; where a listing tells them apart, in `output/pertask` and
its subdirectory `elapsed`, the files are entries of a directory. The locale is C.
-/

namespace StudyLinux

/-- The files of `FILELIST`. -/
inductive Cpu
  | cpu0
  | cpu1
  | cpu2
  | cpu3
  deriving DecidableEq, Repr

/-- `FILELIST="cpu0 cpu1 cpu2 cpu3"`. -/
def fileList : List Cpu := [.cpu0, .cpu1, .cpu2, .cpu3]

@[simp] theorem mem_fileList (cpu : Cpu) : cpu ∈ fileList := by
  cases cpu <;> decide

/-- An option of `echo`: `-n`, `-e` and `-E`, also together in one word. -/
def isEchoOption (word : Text) : Bool :=
  word.head? == some '-' && word.tail != [] &&
    word.tail.all fun c => c == 'n' || c == 'e' || c == 'E'

/-- The names in the working directory, in their order. None is empty or an option of
`echo`, or has a blank or a comma. -/
structure WorkingDir where
  names : List Text
  distinct : names.Nodup
  full : ∀ name ∈ names, name ≠ [] ∧ isEchoOption name = false
  plain : ∀ name ∈ names, ∀ c ∈ name, isBlank c = false ∧ c ≠ ','

/-- What the script runs in: `--debug 1`, the size `ls` shows for a directory, the
size of a disk block, the standard input, and where it is started. -/
structure Env extends Patterns where
  debug : Bool
  dirSize : Nat
  blockSize : Nat
  stdin : File
  workingDir : WorkingDir

namespace Env

/-- The names of the working directory that a word stands for. -/
def expandHere (env : Env) (word : Text) : List Text := env.expand env.workingDir.names word

/-- Four traces beside the output directory, on a disk with blocks of 4096 bytes. -/
def small (debug : Bool) : Env where
  toPatterns := .simple
  debug := debug
  dirSize := 4096
  blockSize := 4096
  stdin := []
  workingDir :=
    ⟨["cpu0".toList, "cpu1".toList, "cpu2".toList, "cpu3".toList, "output".toList],
      by decide, by decide, by decide⟩

end Env

/-- `output/`. The file `<cpu>.only_switch.csv` is `csv cpu`, and so on. -/
structure Output where
  onlySwitch : Cpu → File
  timestamp : Cpu → File
  switchdata : Cpu → File
  csv : Cpu → File
  cpuTasklist : Cpu → File
  tasklist : File
  pertask : Dir Text File
  elapsed : Option (Dir Text File)
  totCpuusagePertask : File

/-- A new output directory. -/
def Output.new : Output where
  onlySwitch _ := []
  timestamp _ := []
  switchdata _ := []
  csv _ := []
  cpuTasklist _ := []
  tasklist := []
  pertask := .empty
  elapsed := none
  totCpuusagePertask := []

/-! ## Appending -/

/-- `>> name`. -/
def appendTo (name : Text) (lines : File) (d : Dir Text File) : Dir Text File :=
  d.put name ((d.get name).getD [] ++ lines)

@[simp] theorem get_appendTo_self (name : Text) (lines : File) (d : Dir Text File) :
    (appendTo name lines d).get name = some ((d.get name).getD [] ++ lines) :=
  Dir.get_put_self d name _

theorem get_appendTo_of_ne {name other : Text} (ne : other ≠ name) (lines : File)
    (d : Dir Text File) : (appendTo name lines d).get other = d.get other :=
  Dir.get_put_of_ne d _ ne

/-! ## Listing -/

/-- The bytes of a file. -/
def fileSize (file : File) : Nat := (file.map fun line => line.length + 1).sum

/-- One line of a listing. -/
structure Entry where
  name : Text
  size : Nat
  deriving DecidableEq

/-- The order of `ls -S`: larger files first, then by name. -/
def listingKey (entry : Entry) : ℕᵒᵈ ×ₗ Text := toLex (OrderDual.toDual entry.size, entry.name)

theorem listingKey_injective : Function.Injective listingKey := by
  rintro ⟨name, size⟩ ⟨name', size'⟩ same
  have pair : (OrderDual.toDual size, name) = (OrderDual.toDual size', name') := same
  rw [Prod.mk.injEq, OrderDual.toDual_inj] at pair
  rw [pair.1, pair.2]

/-- `ls -S`. -/
def listSizes (entries : List Entry) : List Text :=
  (sortBy listingKey (entries.filter fun entry => IsVisible entry.name)).map Entry.name

/-- The entries of a directory of files. -/
def fileEntries (d : Dir Text File) : List Entry :=
  d.entries.map fun entry => ⟨entry.1, fileSize entry.2⟩

/-- The name of the subdirectory. -/
def elapsedName : Text := "elapsed".toList

/-- The entries of `output/pertask`. -/
def pertaskEntries (env : Env) (o : Output) : List Entry :=
  fileEntries o.pertask ++ if o.elapsed.isSome then [⟨elapsedName, env.dirSize⟩] else []

end StudyLinux
