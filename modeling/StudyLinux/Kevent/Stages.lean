import StudyLinux.Kevent.Csv
import StudyLinux.Kevent.Output

/-!
# The stages of kevent_parser.sh

`do_all_stage` and the functions it calls, each as a function from one output
directory to the next, under the script's names. Loops over `$FILELIST`, over the
task list and over a listing are folds. What goes to the terminal only is left
out, except the reports of `check_n_fix_data`.

The split and the summary expand words that may be patterns. The names that
`check_n_fix_data` and `get_cpuusage_for_task` are called with are taken as they are,
which is right for names without pattern characters. No name of the summary is taken
for an option of `echo`: those that the stages make have a dot.
-/

namespace StudyLinux

/-- The four trace files in the working directory. -/
abbrev Traces := Cpu → File

/-! ## From traces to the task list -/

/-- One round of the loop in `trans_to_csv`. -/
def transOneToCsv (traces : Traces) (o : Output) (filename : Cpu) : Output :=
  let onlySwitch := getOnlySwitchField (traces filename)
  let files := makeItCsv onlySwitch
  { o with
    onlySwitch := Function.update o.onlySwitch filename onlySwitch
    timestamp := Function.update o.timestamp filename files.timestamp
    switchdata := Function.update o.switchdata filename files.switchdata
    csv := Function.update o.csv filename files.csv }

/-- `trans_to_csv`. The glob `output/*.tasklist` matches the task lists of the
single CPUs; it does not match `output/tasklist`. -/
def transToCsv (traces : Traces) (o : Output) : Output :=
  fileList.foldl (transOneToCsv traces) { o with cpuTasklist := fun _ => [] }

/-- `find_all_taskname_percpu`. -/
def findAllTasknamePercpu (o : Output) : Output :=
  fileList.foldl
    (fun o filename =>
      { o with
        cpuTasklist := Function.update o.cpuTasklist filename
          (o.cpuTasklist filename ++ (o.csv filename).map (cutFields ',' [2, 3])) }) o

/-- `get_uniq_tasklist`. -/
def getUniqTasklist (o : Output) : Output :=
  fileList.foldl
    (fun o filename =>
      { o with tasklist := o.tasklist ++ uniq (sortLines (o.cpuTasklist filename)) }) o

/-! ## One file for each task -/

/-- The pattern `,$1,$2,`. -/
def taskPattern (name pid : Text) : Text := ',' :: (name ++ ',' :: (pid ++ [',']))

/-- The file name `$1.$2`. -/
def taskFile (name pid : Text) : Text := name ++ '.' :: pid

/-- The file name `$1.$2.tmp`. -/
def taskTmp (name pid : Text) : Text := taskFile name pid ++ ".tmp".toList

/-- A command with a redirect to `output/pertask/<word>`. It does not run when the word
stands for several names. -/
def withRedirect (p : Patterns) (word : Text) (command : Text → Dir Text File → Dir Text File)
    (pertask : Dir Text File) : Dir Text File :=
  match p.redirect pertask.names word with
  | none => pertask
  | some target => command target pertask

/-- `sort -n <files> > target`. The target is emptied before `sort` reads. -/
def sortInto (files : List Text) (target : Text) (pertask : Dir Text File) : Dir Text File :=
  let opened := pertask.put target []
  opened.put target (sortNumeric (files.flatMap fun file => (opened.get file).getD []))

/-- `cat output/$filename.only_switch.csv | grep ",$1,$2,"`. -/
def grepTask (p : Patterns) (csv : Cpu → File) (name pid : Text) (filename : Cpu) : File :=
  (csv filename).filter (p.selects (taskPattern name pid))

/-- `grep_info_with_name_n_pid`. The words behind `>>`, `sort -n`, `>` and `rm` are
expanded, each to what is there at that moment. -/
def grepInfoWithNameNPid (p : Patterns) (csv : Cpu → File) (name pid : Text)
    (pertask : Dir Text File) : Dir Text File :=
  let collected := fileList.foldl
    (fun d filename => withRedirect p (taskTmp name pid)
      (fun target => appendTo target (grepTask p csv name pid filename)) d)
    pertask
  let sorted := withRedirect p (taskFile name pid)
    (sortInto (p.expand collected.names (taskTmp name pid))) collected
  (p.expand sorted.names (taskTmp name pid)).foldl Dir.erase sorted

/-- Element `k` of the array that `IFS=',' read -r -a array` fills. -/
def arrayField (k : Nat) (line : Text) : Text := (line.splitOn ',').getD k []

/-- `get_cpuusage_for_process`. -/
def getCpuusageForProcess (p : Patterns) (csv : Cpu → File) (pertask : Dir Text File)
    (taskinfo : Text) : Dir Text File :=
  grepInfoWithNameNPid p csv (arrayField 0 taskinfo) (arrayField 1 taskinfo) pertask

/-- The values of `$1` in the calls `get_cpuusage_for_process $taskinfo`: the words of the
list are expanded in the head of the loop, and once more in its body. -/
def listedEntries (env : Env) (tasklist : File) : List Text :=
  ((tasklist.flatMap words).flatMap env.expandHere).map fun taskinfo =>
    ((words taskinfo).flatMap env.expandHere).headD []

/-- `split_event_into_pertask`. -/
def splitEventIntoPertask (env : Env) (o : Output) : Output :=
  { o with
    pertask :=
      (listedEntries env o.tasklist).foldl (getCpuusageForProcess env.toPatterns o.csv) .empty
    elapsed := none }

/-! ## Run times -/

/-- The lines of `xargs -n2`, which runs `echo` even without arguments. -/
def xargsN2 : List Text → File
  | [] => [[]]
  | [a] => [a]
  | [a, b] => [a ++ ' ' :: b]
  | a :: b :: rest => (a ++ ' ' :: b) :: xargsN2 rest

/-- `cat file | cut -d',' -f1 | xargs -n2 | tr ' ' ','`, as the words of a loop. -/
def periods (file : File) : List Text :=
  (xargsN2 ((file.map (cutField ',' 1)).flatMap words)).map
    (fun line => line.map fun c => if c = ' ' then ',' else c) |>.flatMap words

/-- `echo "$1 - $2" | bc -l`. Without a minuend the minus is a sign; what is not a
number makes `bc` print nothing on its output. -/
def bcDifference (minuend subtrahend : Text) : Text :=
  match bcNumber subtrahend with
  | none => []
  | some s =>
      if minuend = [] then ((⟨0, 0⟩ : Dec).sub s).print
      else
        match bcNumber minuend with
        | none => []
        | some m => (m.sub s).print

/-- The line that one period adds. -/
def elapsedLine (period : Text) : Text := bcDifference (arrayField 1 period) (arrayField 0 period)

/-- `get_cpuusage_for_task`. A directory under that name has nothing to `cat`. -/
def getCpuusageForTask (env : Env) (o : Output) (filename : Text) : Output :=
  let elapsed := if env.debug then o.elapsed.map fun d => d.erase filename else o.elapsed
  { o with
    elapsed := (periods ((o.pertask.get filename).getD [])).foldl
      (fun elapsed period => elapsed.map (appendTo filename [elapsedLine period])) elapsed }

/-- `total=40`. -/
def total : Nat := 40

/-- The names of `ls -S output/pertask | head -n$total` as the words of a loop. -/
def processed (env : Env) (o : Output) : List Text :=
  ((listSizes (pertaskEntries env o)).take total).flatMap words

/-- `get_cpuusage_for_pertask`. -/
def getCpuusageForPertask (env : Env) (o : Output) : Output :=
  let o := { o with elapsed := some (o.elapsed.getD .empty) }
  (processed env o).foldl (getCpuusageForTask env) o

/-- What `check_n_fix_data` reports; the call of `fix_data` is commented out. -/
def checkNFixData (env : Env) (o : Output) : File :=
  (((listSizes (pertaskEntries env o)).take 20).flatMap words).filterMap fun filename =>
    if ((o.pertask.get filename).getD []).length % 2 ≠ 0 then some (filename ++ " is odd".toList)
    else none

/-! ## The summary -/

/-- `` echo `ls -S $1` | tr ' ' ',' ``, where the words of the listing are expanded. -/
def summaryNames (env : Env) (elapsed : Dir Text File) : Text :=
  ([' '].intercalate
      (((listSizes (fileEntries elapsed)).flatMap words).flatMap env.expandHere)).map
    fun c => if c = ' ' then ',' else c

/-- The blocks that `du` counts. -/
def diskUsage (env : Env) (size : Nat) : Nat := (size + env.blockSize - 1) / env.blockSize

/-- The order of `sort -r -h` on `du -h` lines: by the figure, then by the line, which
has the path behind it; both downwards. -/
def usageKey (env : Env) (entry : Entry) : (ℕ ×ₗ Text)ᵒᵈ :=
  OrderDual.toDual (toLex (diskUsage env entry.size, entry.name))

/-- `find … -type f -exec du -h {} + | sort -r -h | cut -f2` as arguments, without the
directory part that all paths share. -/
def summaryFiles (env : Env) (elapsed : Dir Text File) : List Text :=
  (((sortBy (usageKey env) (fileEntries elapsed)).map Entry.name).flatMap words).flatMap
    (env.expand elapsed.names)

/-- The rows under the names: without a file `paste` copies its standard input. -/
def summaryRows (env : Env) (elapsed : Dir Text File) : File :=
  match summaryFiles env elapsed with
  | [] => env.stdin
  | files => paste '\t' (files.map fun name => (elapsed.get name).getD [])

/-- `merge_cpuusage_of_pertask`. -/
def mergeCpuusageOfPertask (env : Env) (o : Output) : Output :=
  let elapsed := o.elapsed.getD .empty
  { o with totCpuusagePertask := summaryNames env elapsed :: summaryRows env elapsed }

/-! ## The whole run -/

/-- The state in which `check_n_fix_data` looks. -/
def splitStages (env : Env) (traces : Traces) (o : Output) : Output :=
  splitEventIntoPertask env (getUniqTasklist (findAllTasknamePercpu (transToCsv traces o)))

/-- `do_all_stage`: the directory it leaves and what `check_n_fix_data` reports. -/
def doAllStage (env : Env) (traces : Traces) (o : Output) : Output × File :=
  let split := splitStages env traces o
  (mergeCpuusageOfPertask env (getCpuusageForPertask env split), checkNFixData env split)

end StudyLinux
