import StudyLinux.Kevent.Reruns
import StudyLinux.Kevent.Tasklist

/-!
# Invocations of kevent_parser.sh

The option loop and the dispatch on `--mode`. An invocation leads from one state of
`output/` to the next; the directory may not be there yet, and the stages that do not
make it then have no effect. `--mode get_ypt` appends to any file that `--output` names,
so what it makes of the directory is left open here.
-/

namespace StudyLinux

/-! ## Options -/

/-- The variables that the options set. -/
structure Options where
  pid : Text
  opMode : Text
  debug : Text
  input : Text
  output : Text

/-- The values without an option. -/
def Options.initial : Options where
  pid := []
  opMode := "all".toList
  debug := "0".toList
  input := []
  output := []

/-- One case of the option loop; `none` is the case of an unknown option. -/
def setOption (argument value : Text) (options : Options) : Option Options :=
  if argument = "--pid".toList then some { options with pid := value }
  else if argument = "--mode".toList then some { options with opMode := value }
  else if argument = "--debug".toList then some { options with debug := value }
  else if argument = "--input".toList then some { options with input := value }
  else if argument = "--output".toList then some { options with output := value }
  else none

/-- The option loop. An option without a value gets the empty one, since the second
`shift` then has nothing to remove. An unknown option ends the script. -/
def readOptions (options : Options) : List Text → Except Text Options
  | [] => .ok options
  | [argument] =>
      match setOption argument [] options with
      | none => .error ("Unknown option (".toList ++ argument ++ ")".toList)
      | some options => .ok options
  | argument :: value :: rest =>
      match setOption argument value options with
      | none => .error ("Unknown option (".toList ++ argument ++ ")".toList)
      | some options => readOptions options rest

/-! ## Dispatch -/

/-- The branches of the dispatch. -/
inductive OpMode
  | all
  | csv
  | tasklist
  | tasklistUniq
  | splitEvent
  | checkNFix
  | getCpuusage
  | gcu
  | mergeCpuusage
  | getYpt
  deriving DecidableEq

/-- The branch of a value of `--mode`. An unknown value runs all stages. -/
def OpMode.ofText (text : Text) : OpMode :=
  if text = "all".toList then .all
  else if text = "csv".toList then .csv
  else if text = "tasklist".toList then .tasklist
  else if text = "tasklist_uniq".toList then .tasklistUniq
  else if text = "split_event".toList then .splitEvent
  else if text = "check_n_fix".toList then .checkNFix
  else if text = "get_cpuusage".toList then .getCpuusage
  else if text = "gcu".toList then .gcu
  else if text = "merge_cpuusage".toList then .mergeCpuusage
  else if text = "get_ypt".toList then .getYpt
  else .all

/-- Events whose names keep to their column and have no pattern characters. -/
structure CleanEvents where
  events : Cpu → List FixedEvent
  clean : CleanNames events

/-- Their trace files. -/
def CleanEvents.traces (recorded : CleanEvents) : Traces := tracesOf recorded.events

/-- No events. -/
def CleanEvents.none : CleanEvents where
  events _ := []
  clean _ _ member := absurd member List.not_mem_nil

/-- What an invocation finds around `output/`: the events of the traces, the sizes that
listings show, the standard input, the working directory, what `ls -S` prints of a path
that is not the elapsed directory, and what `get_process_detail_evt` makes of `output/`. -/
structure World where
  recorded : CleanEvents
  dirSize : Nat
  blockSize : Nat
  stdin : File
  workingDir : WorkingDir
  otherListing : Text → List Text
  getProcessDetailEvt : Options → Option Output → Option Output

/-- The four trace files. -/
def World.traces (w : World) : Traces := w.recorded.traces

/-- `--debug 1`, in its surroundings. -/
def World.env (p : Patterns) (w : World) (options : Options) : Env where
  toPatterns := p
  debug := options.debug = "1".toList
  dirSize := w.dirSize
  blockSize := w.blockSize
  stdin := w.stdin
  workingDir := w.workingDir

/-- The directory that `do_all_stage` passes to `merge_cpuusage_of_pertask`. -/
def elapsedPath : Text := "output/pertask/elapsed".toList

section Dispatch

variable (p : Patterns)

/-- `` echo `ls -S $1` | tr ' ' ',' `` for a directory that may be another one. -/
def listedAs (w : World) (options : Options) (elapsed : Dir Text File) : Text :=
  let env := w.env p options
  if options.input = elapsedPath then summaryNames env elapsed
  else
    ([' '].intercalate
        (((w.otherListing options.input).flatMap words).flatMap env.expandHere)).map
      fun c => if c = ' ' then ',' else c

/-- The file that `merge_cpuusage_of_pertask $INPUT` writes. The rows are those of the
elapsed files, whatever the argument is. -/
def summaryOf (w : World) (options : Options) (elapsed : Dir Text File) : File :=
  listedAs p w options elapsed :: summaryRows (w.env p options) elapsed

/-- `merge_cpuusage_of_pertask $INPUT`. -/
def mergeInput (w : World) (options : Options) (o : Output) : Output :=
  { o with totCpuusagePertask := summaryOf p w options (o.elapsed.getD .empty) }

/-- The first word of the call `get_cpuusage_for_task $INPUT`. -/
def inputName (w : World) (options : Options) : Text :=
  ((words options.input).flatMap (w.env p options).expandHere).headD []

/-- The dispatch. The stages that make `output/` run in any case. -/
def dispatch (w : World) (options : Options) (o : Option Output) : Option Output :=
  match OpMode.ofText options.opMode with
  | .all => some (doAllStage (w.env p options) w.traces (o.getD .new)).1
  | .csv => some (transToCsv w.traces (o.getD .new))
  | .tasklist => o.map findAllTasknamePercpu
  | .tasklistUniq => o.map getUniqTasklist
  | .splitEvent => some (splitEventIntoPertask (w.env p options) (o.getD .new))
  | .checkNFix => o
  | .getCpuusage => some (getCpuusageForPertask (w.env p options) (o.getD .new))
  | .gcu => o.map fun o => getCpuusageForTask (w.env p options) o (inputName p w options)
  | .mergeCpuusage => o.map (mergeInput p w options)
  | .getYpt => w.getProcessDetailEvt options o

/-- An invocation: what it finds, and its arguments, none of them with pattern
characters. -/
structure Invocation where
  world : World
  arguments : List Text
  plain : ∀ argument ∈ arguments, ∀ c ∈ argument, isGlob c = false

/-- The options of the invocation, unless one of them is unknown. -/
def Invocation.options (i : Invocation) : Except Text Options := readOptions .initial i.arguments

/-- The invocation is not one of `--mode get_ypt`. -/
def Invocation.RunsStages (i : Invocation) : Prop :=
  ∀ options, i.options = .ok options → OpMode.ofText options.opMode ≠ .getYpt

/-- One invocation. With an unknown option nothing is run. -/
def invoke (o : Option Output) (i : Invocation) : Option Output :=
  match i.options with
  | .error _ => o
  | .ok options => dispatch p i.world options o

/-- What invocations leave, one after another, where there was no directory at first. -/
def leftByAll (history : List Invocation) : Option Output := history.foldl (invoke p) none

/-! ## Stage by stage -/

/-- The options of `--mode mode`. -/
def modeOptions (mode : String) (options : Options) : Options :=
  { options with opMode := mode.toList }

/-- The stages, one invocation for each, leave what one run of all stages leaves. -/
theorem dispatch_stages (w : World) (options : Options) (o : Option Output) :
    let stage (mode : String) := dispatch p w (modeOptions mode options)
    dispatch p w { modeOptions "merge_cpuusage" options with input := elapsedPath }
        (stage "get_cpuusage" (stage "check_n_fix" (stage "split_event" (stage "tasklist_uniq"
          (stage "tasklist" (stage "csv" o)))))) =
      dispatch p w (modeOptions "all" options) o := by
  rfl

end Dispatch

end StudyLinux
