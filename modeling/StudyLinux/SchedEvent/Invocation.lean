import Mathlib.Data.List.DropRight
import StudyLinux.SchedEvent.Cpuusage
import StudyLinux.Store.Replay
import StudyLinux.System.Shell

/-!
# Invocations of sched_event_parser.sh

The options name an input, and the results go to a directory that is named after the
last part of its path and made anew. So behind any history of invocations a directory
has the results of the last input with its name, and these are a ranking of the tasks
and one row for each event, in the order of the trace (`results_runs`).
-/

namespace StudyLinux

namespace SchedEvent

/-! ## The options -/

/-- INPUTFILE and OUTPUTFILE. Nobody uses the second one. -/
structure Options where
  inputFile : Text
  outputFile : Text

/-- The values without an option. -/
def Options.initial : Options := ⟨[], "result".toList⟩

/-- One case of the option loop; `none` is the case of an unknown option. -/
def setOption (argument value : Text) (options : Options) : Option Options :=
  if argument = "--input".toList then some { options with inputFile := value }
  else if argument = "--output".toList then some { options with outputFile := value }
  else none

/-- The option loop. An option without a value gets the empty one. -/
def readOptions (options : Options) : List Text → Except Text Options
  | [] => .ok options
  | [argument] =>
      match setOption argument [] options with
      | none => .error ("Unknown option (".toList ++ argument ++ ")".toList)
      | some options => .ok options
  | argument :: value :: rest =>
      match setOption argument value options with
      | none => .error ("Unknown option (".toList ++ argument ++ ")".toList)
      | some options => readOptions options rest

/-- The input, or what is printed in front of `exit 1`. -/
def inputOf (arguments : List Text) : Except Text Text :=
  if arguments = [] then .error "need to argument such as input/ file".toList
  else
    match readOptions .initial arguments with
    | .error message => .error message
    | .ok options =>
        if options.inputFile = [] then .error "need to pass *input file* argument".toList
        else .ok options.inputFile

/-- An input that the shell and the tools take as it is: no word of it is a pattern, or
starts like an option. -/
def PlainInput (inputFile : Text) : Prop :=
  ∀ word ∈ words inputFile, word.head? ≠ some '-' ∧ ∀ c ∈ word, isGlob c = false

instance : DecidablePred PlainInput := fun inputFile =>
  inferInstanceAs (Decidable (∀ word ∈ words inputFile, _))

/-! ## The directory -/

/-- The last part of a path, slashes at its end left out. -/
def lastPart (path : Text) : Text :=
  (path.rdropWhile (· = '/')).rtakeWhile (· ≠ '/')

/-- `basename`. A second operand is a suffix, which is cut off unless it is everything. -/
def basename (operands : List Text) : Text :=
  match operands with
  | [path] => lastPart path
  | [path, suffix] =>
      let base := lastPart path
      if suffix.isSuffixOf base ∧ suffix ≠ base then base.take (base.length - suffix.length)
      else base
  | _ => []

/-- OUTPUTDIR. -/
def outputDir (inputFile : Text) : Text := "output.".toList ++ basename (words inputFile)

/-- `sed 's/: / /g;s/=/ /g;s/ > //g' | tr -s " " | sed 's/^ //g'`. -/
def formatted (schedSwitch : File) : File :=
  schedSwitch.map fun line =>
    let line := sedSubst ": ".toList " ".toList line
    let line := sedSubst "=".toList " ".toList line
    let line := sedSubst " > ".toList [] line
    dropLeadingBlank (trSqueeze ' ' line)

/-- The files of the directory. -/
structure OutputDir where
  schedSwitch : File
  formatted : File
  columnCurrentTaskpid : File
  columnCpu : File
  columnTimestamp : File
  columnEventname : File
  formatted2 : File
  columnCurrname : File
  columnCurrpid : File
  columnCurrprio : File
  columnCurrstate : File
  columnNextname : File
  columnNextpid : File
  columnNextprio : File
  currNamePid : File
  nextNamePid : File
  tasktop : File
  forCpuusage : File

/-- What is made of an input. -/
def parse (input : File) : OutputDir :=
  let events := schedSwitch input
  let currName := columnCurrname events
  let currPid := columnCurrpid events
  let nextName := columnNextname events
  let nextPid := columnNextpid events
  { schedSwitch := events
    formatted := formatted events
    columnCurrentTaskpid := columnCurrentTaskpid events
    columnCpu := columnCpu events
    columnTimestamp := columnTimestamp events
    columnEventname := columnEventname events
    formatted2 := formatted2 events
    columnCurrname := currName
    columnCurrpid := currPid
    columnCurrprio := columnCurrprio events
    columnCurrstate := columnCurrstate events
    columnNextname := nextName
    columnNextpid := nextPid
    columnNextprio := columnNextprio events
    currNamePid := currNamePid currName currPid
    nextNamePid := nextNamePid nextName nextPid
    tasktop := tasktop currName currPid
    forCpuusage := forCpuusage events }

/-- An invocation: its arguments, and what `cat $INPUTFILE` prints when it comes to it. -/
structure Invocation where
  arguments : List Text
  input : File
  plain : ∀ inputFile, inputOf arguments = .ok inputFile → PlainInput inputFile

/-- One invocation, on the directories that are there. -/
def run (dirs : Text → Option OutputDir) (i : Invocation) : Text → Option OutputDir :=
  match inputOf i.arguments with
  | .error _ => dirs
  | .ok inputFile =>
      let dir := outputDir inputFile
      let dirs := Function.update dirs dir none
      Function.update dirs dir (some (parse i.input))

/-! ## Histories -/

/-- What an invocation has for a directory. -/
def Invocation.inputFor (dir : Text) (i : Invocation) : Option File :=
  match inputOf i.arguments with
  | .error _ => none
  | .ok inputFile => if outputDir inputFile = dir then some i.input else none

/-- The last input for a directory. -/
def lastInput (history : List Invocation) (dir : Text) : Option File :=
  (history.filterMap (Invocation.inputFor dir)).getLast?

/-- An invocation is a write, or nothing. -/
def Invocation.writes (i : Invocation) : List (Text × Option OutputDir) :=
  match inputOf i.arguments with
  | .error _ => []
  | .ok inputFile => [(outputDir inputFile, some (parse i.input))]

theorem run_eq_replay (dirs : Text → Option OutputDir) (i : Invocation) :
    run dirs i = replay dirs i.writes := by
  unfold run Invocation.writes
  cases inputOf i.arguments with
  | error message => rfl
  | ok inputFile =>
      dsimp only
      rw [Function.update_idem]
      rfl

theorem foldl_run (history : List Invocation) (dirs : Text → Option OutputDir) :
    history.foldl run dirs = replay dirs (history.flatMap Invocation.writes) := by
  induction history generalizing dirs with
  | nil => rfl
  | cons i history ih =>
      rw [List.foldl_cons, List.flatMap_cons, replay_append, run_eq_replay]
      exact ih _

/-- A directory has the results of its last input. -/
theorem foldl_run_apply (history : List Invocation) (dirs : Text → Option OutputDir) (dir : Text) :
    history.foldl run dirs dir = ((lastInput history dir).map parse).or (dirs dir) := by
  have last : lastWrite (history.flatMap Invocation.writes) dir =
      (history.filterMap fun i => (i.inputFor dir).map parse).getLast? := by
    refine lastWrite_flatMap fun i _ => ?_
    unfold Invocation.writes Invocation.inputFor
    cases inputOf i.arguments with
    | error message => rfl
    | ok inputFile =>
        dsimp only
        by_cases here : outputDir inputFile = dir
        · have content : contentFor dir (outputDir inputFile, some (parse i.input)) =
              some (parse i.input) := if_pos here
          rw [if_pos here, List.filterMap_cons_some content]
          rfl
        · have content : contentFor dir (outputDir inputFile, some (parse i.input)) = none :=
            if_neg here
          rw [if_neg here, List.filterMap_cons_none content]
          rfl
  rw [foldl_run, replay_apply, last, lastInput, ← List.map_filterMap, List.getLast?_map]

/-! ## Traces -/

/-- An event whose names the script keeps. -/
structure ReadableEvent extends FixedEvent where
  prevReadable : prev.name.Readable
  nextReadable : next.name.Readable

/-- The pair that is ranked. -/
def ReadableEvent.current (e : ReadableEvent) : NamePid where
  name := trDelete [' '] e.prev.name.text
  pid := e.prev.pid
  tabFree := fun tab => e.prevReadable.2 (mem_trDelete.mp tab).1

/-- A line of a trace: a switch, or a line that does not have the word. -/
inductive TraceLine
  | switch (e : ReadableEvent)
  | other (text : Text) (quiet : ¬ SwitchEvent.eventName <:+: text)

namespace TraceLine

def text : TraceLine → Text
  | switch e => e.line
  | other text _ => text

def event : TraceLine → Option ReadableEvent
  | switch e => some e
  | other _ _ => none

end TraceLine

/-- The switches of a trace, in its order. -/
def eventsOf (trace : List TraceLine) : List ReadableEvent := trace.filterMap TraceLine.event

theorem schedSwitch_trace (trace : List TraceLine) :
    schedSwitch (trace.map TraceLine.text) = (eventsOf trace).map fun e => e.line := by
  have literal : ∀ c ∈ SwitchEvent.eventName, IsLiteral c := by decide
  unfold schedSwitch grep
  induction trace with
  | nil => rfl
  | cons line trace ih =>
      cases line with
      | switch e =>
          have selected : matchesLine "sched_switch".toList e.line :=
            (matchesLine_iff literal).mpr
              ((show SwitchEvent.eventName <:+: "sched_switch:".toList from
                ⟨[], [':'], rfl⟩).trans e.eventName_infix_line)
          exact (List.filter_cons_of_pos selected).trans (congrArg (e.line :: ·) ih)
      | other text quiet =>
          have passed : ¬ matchesLine "sched_switch".toList text := fun selected =>
            quiet ((matchesLine_iff literal).mp selected)
          exact (List.filter_cons_of_neg passed).trans ih

theorem lines_toFixedEvent (events : List ReadableEvent) :
    (events.map ReadableEvent.toFixedEvent).map (fun e => e.line) = events.map fun e => e.line :=
  List.map_map

theorem currNamePid_events (events : List ReadableEvent) :
    currNamePid (columnCurrname (events.map fun e => e.line))
        (columnCurrpid (events.map fun e => e.line)) =
      currNamePid ((events.map ReadableEvent.current).map NamePid.name)
        ((events.map ReadableEvent.current).map fun x => decimal x.pid) := by
  have lines := currNamePid_lines (events.map ReadableEvent.toFixedEvent)
  rw [lines_toFixedEvent] at lines
  rw [lines, currNamePid_eq, List.map_map, List.map_map]
  refine List.map_congr_left fun e _ => ?_
  rw [Function.comp_apply, e.prevJoined_of_readable e.prevReadable]
  rfl

theorem parse_tasktop (input : File) : (parse input).tasktop =
    tasktop (columnCurrname (schedSwitch input)) (columnCurrpid (schedSwitch input)) := by
  rw [parse]

theorem parse_forCpuusage (input : File) :
    (parse input).forCpuusage = forCpuusage (schedSwitch input) := by
  rw [parse]

/-- The ranking of a trace. -/
theorem tasktop_trace (trace : List TraceLine) :
    (parse (trace.map TraceLine.text)).tasktop =
      (rankedGroups ((eventsOf trace).map ReadableEvent.current)).map fun entry =>
        countLine entry.1 entry.2.joined := by
  rw [← tasktop_columns, parse_tasktop, schedSwitch_trace, tasktop, currNamePid_events, ← tasktop]

/-- The rows of a trace. -/
theorem forCpuusage_trace (trace : List TraceLine) :
    (parse (trace.map TraceLine.text)).forCpuusage.map blankWords =
      (eventsOf trace).map fun e => [e.prev.joined, fixedPoint 6 e.time, e.next.joined] := by
  rw [parse_forCpuusage, schedSwitch_trace, ← lines_toFixedEvent, forCpuusage_lines, List.map_map,
    List.map_map]
  refine List.map_congr_left fun e _ => ?_
  rw [Function.comp_apply, Function.comp_apply]
  exact e.blankWords_cpuusageRow_iff.mpr ⟨e.prevReadable, e.nextReadable⟩

/-- Behind any history each directory has what is made of its last input, whatever was
there before. Of a trace that is the ranking of its tasks, and for every switch the row
whose words are the previous task, the time and the next task. -/
theorem results_runs :
    (∀ (history : List Invocation) (dirs : Text → Option OutputDir) (dir : Text),
      history.foldl run dirs dir = ((lastInput history dir).map parse).or (dirs dir)) ∧
    ∀ trace : List TraceLine,
      let results := parse (trace.map TraceLine.text)
      let events := eventsOf trace
      (∃ ranking, IsRanking (events.map ReadableEvent.current) ranking ∧
        results.tasktop = ranking.map fun entry => countLine entry.1 entry.2.joined) ∧
      results.forCpuusage.map blankWords =
        events.map fun e => [e.prev.joined, fixedPoint 6 e.time, e.next.joined] := by
  refine ⟨foldl_run_apply, fun trace => ⟨?_, forCpuusage_trace trace⟩⟩
  exact ⟨_, isRanking_rankedGroups _, tasktop_trace trace⟩

/-- A task with a blank in its name. -/
def blankTask : Task := ⟨⟨"x y".toList, by decide, by decide⟩, 7⟩

/-- A heading, and two switches of it. -/
def smallTrace : List TraceLine :=
  [.other "# tracer: nop".toList (by decide),
    .switch ⟨switchEvent blankTask ⟨plainComm 'c' (by decide), 8⟩ 1, by decide, by decide⟩,
    .switch ⟨switchEvent ⟨plainComm 'c' (by decide), 8⟩ blankTask 3, by decide, by decide⟩]

/-- Two accepted inputs of one name, with a rejected option in between: the directory has
the rows of the second one. -/
theorem results_runs_small :
    let other : File := ["other".toList]
    let accepted : Invocation :=
      ⟨["--input".toList, "b/trace".toList], smallTrace.map TraceLine.text, by
        rintro _ ⟨⟩
        decide⟩
    let earlier : Invocation := ⟨["--input".toList, "a/trace".toList], other, by
      rintro _ ⟨⟩
      decide⟩
    let rejected : Invocation := ⟨["--debug".toList], other, nofun⟩
    ∃ results, [earlier, rejected, accepted].foldl run (fun _ => none) "output.trace".toList =
        some results ∧
      results.forCpuusage.map blankWords =
        [["xy-7".toList, "1.000000".toList, "c-8".toList],
          ["c-8".toList, "3.000000".toList, "xy-7".toList]] := by
  intro other accepted earlier rejected
  refine ⟨parse (smallTrace.map TraceLine.text), ?_, ?_⟩
  · rw [results_runs.1]
    rfl
  · rw [(results_runs.2 smallTrace).2]
    decide

end SchedEvent

end StudyLinux
