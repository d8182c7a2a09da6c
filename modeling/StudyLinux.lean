import StudyLinux.Order.SortBy
import StudyLinux.Order.Pairs
import StudyLinux.Order.Counting
import StudyLinux.Store.Dir
import StudyLinux.System.Run
import StudyLinux.Store.Backup
import StudyLinux.Text.Filter
import StudyLinux.Text.Subst
import StudyLinux.Text.Grep
import StudyLinux.Text.Decimal
import StudyLinux.Text.Bytes
import StudyLinux.Ftrace.Event
import StudyLinux.Ftrace.Layout
import StudyLinux.Ftrace.Payload
import StudyLinux.System.Shell
import StudyLinux.System.Patterns
import StudyLinux.Kevent.Csv
import StudyLinux.Kevent.Rows
import StudyLinux.Kevent.Output
import StudyLinux.Kevent.Stages
import StudyLinux.Kevent.Listing
import StudyLinux.Kevent.FixData
import StudyLinux.Kevent.Writers
import StudyLinux.Kevent.Pertask
import StudyLinux.Kevent.Split
import StudyLinux.Kevent.Elapsed
import StudyLinux.Kevent.Tasklist
import StudyLinux.Kevent.Times
import StudyLinux.Kevent.Leftovers
import StudyLinux.Kevent.Reruns
import StudyLinux.Kevent.Detail
import StudyLinux.Kevent.Merge
import StudyLinux.Sched.Schedule
import StudyLinux.Kevent.RunTimes
import StudyLinux.Kevent.Pairs
import StudyLinux.Kevent.Checks
import StudyLinux.Kevent.Selection
import StudyLinux.Kevent.Invocation
import StudyLinux.Kevent.History
import StudyLinux.Kevent.Again
import StudyLinux.Mon.Device
import StudyLinux.Mon.Setup
import StudyLinux.Mon.Start
import StudyLinux.Mon.Phases
import StudyLinux.Store.Replay
import StudyLinux.Mon.Snapshots
import StudyLinux.System.Interleave
import StudyLinux.Bench.Exec
import StudyLinux.Store.Tree
import StudyLinux.Cscope.Find
import StudyLinux.Cscope.Rebuild
import StudyLinux.Regex.Matches
import StudyLinux.Regex.Search
import StudyLinux.System.Loop
import StudyLinux.RegularExpr.MatchRegex
import StudyLinux.RegularExpr.Successive
import StudyLinux.RegularExpr.Groups
import StudyLinux.Libsegv.Handler
import StudyLinux.Json.Object
import StudyLinux.Json.Jansson
import StudyLinux.Json.LibjsonC
import StudyLinux.StdFile.Ungetc
import StudyLinux.Git.DiffedRepo
import StudyLinux.SchedEvent.Columns
import StudyLinux.SchedEvent.Switchdata
import StudyLinux.SchedEvent.Tasktop
import StudyLinux.SchedEvent.Cpuusage
import StudyLinux.SchedEvent.Invocation
import StudyLinux.Store.Slots
import StudyLinux.Kerneldoc.FlatTable
import StudyLinux.Kerneldoc.Rounding
import StudyLinux.Kerneldoc.Roles
import StudyLinux.Text.Backtrack
import StudyLinux.Order.Blocks
import StudyLinux.Store.Accumulate
import StudyLinux.Pagealloc.Events
import StudyLinux.Pagealloc.Report
import StudyLinux.Pagealloc.Lines
import StudyLinux.System.Progress
import StudyLinux.Bench.Finish
import StudyLinux.Order.Fronts
import StudyLinux.Order.Overlay
import StudyLinux.Vmscan.Events
import StudyLinux.Vmscan.Account
import StudyLinux.Vmscan.Latency
import StudyLinux.Vmscan.Report
import StudyLinux.Vmscan.Names
