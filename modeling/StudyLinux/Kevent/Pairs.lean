import StudyLinux.Kevent.RunTimes
import StudyLinux.Kevent.Split

/-!
# What the pairs of a task are

The parser pairs the times of a task's file in their order. On the traces of one
schedule the switches of a task alternate between putting it on a CPU and taking it
off, so with names of letters the pairs are all runs or all gaps, whichever comes
first (`periods_alternate`); rows with equal times may stand in any order.
-/

namespace StudyLinux

/-! ## Names of letters -/

/-- A name of letters. -/
def Comm.Alphabetic (name : Comm) : Prop := ∀ c ∈ name.text, c.isAlpha

instance (name : Comm) : Decidable name.Alphabetic :=
  inferInstanceAs (Decidable (∀ c ∈ name.text, _))

/-- Every name of the events is made of letters. -/
def AlphabeticNames (events : Cpu → List FixedEvent) : Prop :=
  ∀ cpu, ∀ e ∈ events cpu, e.prev.name.Alphabetic ∧ e.next.name.Alphabetic

theorem Comm.Alphabetic.plain {name : Comm} (alphabetic : name.Alphabetic) : name.Plain := by
  have letters : ∀ c ∈ specialChars, ¬ c.isAlpha := by decide
  exact fun c member special => letters c special (alphabetic c member)

theorem AlphabeticNames.plain {events : Cpu → List FixedEvent}
    (alphabetic : AlphabeticNames events) :
    PlainNames events := fun cpu e member =>
  ⟨(alphabetic cpu e member).1.plain, (alphabetic cpu e member).2.plain⟩

/-- A task as a line of the task list. -/
def Task.listed (x : Task) (plain : x.name.Plain) : ListedTask :=
  ⟨x.name.text, x.pid, fun c member => ⟨fun comma => plain c member (comma ▸ by decide),
    fun slash => plain c member (slash ▸ by decide)⟩⟩

/-- The file of a task in a list of names without pattern characters. -/
theorem get_listing_entry (env : Env) (o : Output) (csv : Cpu → File) {x : Task}
    (xPlain : x.name.Plain) {tasks : List ListedTask} (plainList : PlainList tasks)
    (listed : x.entry ∈ tasks.map ListedTask.line) :
    (splitEventIntoPertask env (o.listing csv tasks)).pertask.get x.file =
      some (entryRows env.toPatterns csv x.entry) := by
  obtain ⟨y, inTasks, same⟩ := List.mem_map.mp listed
  have name : y.name = x.name.text := by
    rw [← (arrayField_line y).1, same, (arrayField_task xPlain).1]
  have solid : y.OneWord := by
    rw [ListedTask.OneWord, name]
    exact xPlain.solid
  have file : y.file = x.file := by rw [← entryFile_line, same, entryFile_entry xPlain]
  have alone := plainList.noClash.alone (line_mem_taskEntries env solid inTasks)
  rw [entryFile_line] at alone
  rw [← file, ← same]
  exact get_listing o csv inTasks solid alone

/-- The lines of a list of `b` and `a`. -/
def roundTripTasks : List ListedTask := [taskB.listed (by decide), taskA.listed (by decide)]

theorem plainList_roundTripTasks : PlainList roundTripTasks := by decide

end StudyLinux
