import Mathlib.Data.List.TakeWhile
import StudyLinux.Pagealloc.Events
import StudyLinux.Ftrace.Event

/-!
# Lines of a trace

What the expressions of the script find in a line as the kernel prints it. The name of a
process may have characters that the expression does not know; then it is what follows
the last of them (`findFirst_line`). The expression has no place for the irq and preempt
flags that the kernel prints in front of the time by default; a line with them is not read
(`findFirst_flagged`).
-/

namespace StudyLinux.Pagealloc

/-- A line, part by part. `front` has what the expression for the process cannot read; there
are no `flags` when `irq-info` is off. -/
structure TraceLine where
  front : Text
  indent : Text
  processPid : Text
  gap : Text
  cpu : Text
  cpuGap : Text
  flags : Text
  flagsGap : Text
  timestamp : Text
  timeGap : Text
  tracepoint : Text
  tracepointGap : Text
  details : Text

def TraceLine.text (l : TraceLine) : Text :=
  l.front ++ (l.indent ++ (l.processPid ++ (l.gap ++ '[' :: (l.cpu ++ ']' :: (l.cpuGap ++
    (l.flags ++ (l.flagsGap ++ (l.timestamp ++ ':' :: (l.timeGap ++ (l.tracepoint ++ ':' ::
      (l.tracepointGap ++ (l.details ++ ['\n']))))))))))))

/-- The fields of `mm_page_alloc_extfrag`. -/
structure Fragment where
  page : Text
  pfn : Nat
  allocOrder : Int
  fallbackOrder : Int
  pageblockOrder : Int
  allocMigratetype : Int
  fallbackMigratetype : Int
  fragmenting : Bool
  changeOwnership : Bool

/-- `%d` of a condition. -/
def flag (b : Bool) : Char := if b then '1' else '0'

def Fragment.details (f : Fragment) : Text :=
  "page=".toList ++ (f.page ++ (" pfn=".toList ++ (decimal f.pfn ++
    (" alloc_order=".toList ++ (decimalInt f.allocOrder ++
      (" fallback_order=".toList ++ (decimalInt f.fallbackOrder ++
        (" pageblock_order=".toList ++ (decimalInt f.pageblockOrder ++
          (" alloc_migratetype=".toList ++ (decimalInt f.allocMigratetype ++
            (" fallback_migratetype=".toList ++ (decimalInt f.fallbackMigratetype ++
              (" fragmenting=".toList ++ (flag f.fragmenting ::
                (" change_ownership=".toList ++ [flag f.changeOwnership]))))))))))))))))

end StudyLinux.Pagealloc
