import Mathlib.Data.List.TakeWhile
import StudyLinux.Text.Decimal

/-!
# The crash handler of libsegv

The handler prints a backtrace and the content of /proc/self/maps, read in pieces of up
to 256 bytes. Each piece is ended with a NUL in the buffer it was read to, and printed
with a newline behind. `printMaps_eq` says what that makes of the content, and
`printMaps_isSome_iff` when the NULs stay in the buffer.
-/

namespace StudyLinux

namespace Libsegv

/-! ## The buffer -/

/-- `sizeof (buf)`. -/
def bufSize : Nat := 256

/-- The cells of `buf`. -/
structure Buf where
  cells : Text
  size : cells.length = bufSize

/-- What one `read` returns that is not at the end of the file. -/
structure Chunk where
  bytes : Text
  positive : 0 < bytes.length
  fits : bytes.length ≤ bufSize

/-- `read (mapfd, buf, sizeof (buf))`. The cells behind the chunk stay. -/
def Buf.read (buf : Buf) (chunk : Chunk) : Buf where
  cells := chunk.bytes ++ buf.cells.drop chunk.bytes.length
  size := by
    rw [List.length_append, List.length_drop, buf.size]
    exact Nat.add_sub_cancel' chunk.fits

/-- `buf[n] = c`. Outside the buffer nothing is known of what follows. -/
def Buf.store (buf : Buf) (n : Nat) (c : Char) : Option Buf :=
  if n < bufSize then some ⟨buf.cells.set n c, by rw [List.length_set, buf.size]⟩ else none

/-- What `%s` prints of the buffer. -/
def Buf.string (buf : Buf) : Text := buf.cells.takeWhile fun c => c ≠ '\x00'

/-! ## The handler -/

/-- The read loop, for the chunks that the kernel hands out. -/
def printMaps : Buf → List Chunk → Option Text
  | _, [] => some []
  | buf, chunk :: chunks => do
      let buf ← (buf.read chunk).store chunk.bytes.length '\x00'
      let rest ← printMaps buf chunks
      return buf.string ++ '\n' :: rest

/-- `signame`, without the NULL at its end. -/
def signame : List String :=
  ["INVALID", "SIGHUP", "SIGINT", "SIGQUIT", "SIGILL", "SIGTRAP", "SIGABRT", "SIGBUS", "SIGFPE",
    "SIGKILL", "SIGUSR1", "SIGSEGV", "SIGUSR2", "SIGPIPE", "SIGALRM", "SIGTERM", "SIGSTKFLT",
    "SIGCHLD", "SIGCONT", "SIGSTOP", "SIGTSTP", "SIGTTIN", "SIGTTOU", "SIGURG", "SIGXCPU",
    "SIGXFSZ", "SIGVTALRM", "SIGPROF", "SIGWINCH", "SIGPOLL", "SIGPWR", "SIGSYS", "Stack Overflow"]

def rule : Text := List.replicate 44 '=' ++ ['\n']

/-- What the handler prints in front of the content, "Memory map:" included. -/
def banner (sig : Fin signame.length) (backtrace : Text) : Text :=
  '\n' :: rule ++ "[Wemake] Catch ".toList ++ (signame.get sig).toList ++ " signal \n".toList ++
    rule ++ "Backtrace:\n".toList ++ backtrace ++ "\nMemory map:\n".toList

/-- `handler`: what it prints to stderr and its exit status. The maps are `none` when the
file cannot be opened. -/
def handler (sig : Fin signame.length) (backtrace : Text) (buf : Buf)
    (maps : Option (List Chunk)) : Option (Text × Nat) :=
  match maps with
  | none => some (banner sig backtrace, 1)
  | some chunks => (printMaps buf chunks).map fun text => (banner sig backtrace ++ text, 1)

/-- `__stack_chk_fail`: what it prints to stdout, and the handler's part. -/
def stackChkFail (backtrace : Text) (buf : Buf) (maps : Option (List Chunk)) :
    Text × Option (Text × Nat) :=
  ("*** stack smashing detected ***:\n".toList, handler ⟨32, by decide⟩ backtrace buf maps)

/-! ## What is printed -/

/-- The content that the chunks are read from. -/
def contentOf (chunks : List Chunk) : Text := chunks.flatMap Chunk.bytes

/-- A chunk as it is printed. -/
def Chunk.line (chunk : Chunk) : Text := chunk.bytes.takeWhile (fun c => c ≠ '\x00') ++ ['\n']

variable {buf : Buf} {chunk : Chunk} {chunks : List Chunk}

/-- A chunk that leaves a cell free is ended in it. -/
theorem store_read (buf : Buf) (short : chunk.bytes.length < bufSize) :
    ∃ buf', (buf.read chunk).store chunk.bytes.length '\x00' = some buf' ∧
      buf'.string ++ ['\n'] = chunk.line := by
  refine ⟨_, if_pos short, congrArg (· ++ ['\n']) ?_⟩
  obtain ⟨cell, later, free⟩ : ∃ cell later, buf.cells.drop chunk.bytes.length = cell :: later := by
    apply List.exists_cons_of_length_pos
    rw [List.length_drop, buf.size]
    exact Nat.sub_pos_of_lt short
  unfold Buf.string Buf.read
  dsimp only
  rw [free, List.set_append_right _ _ le_rfl, Nat.sub_self, List.set_cons_zero,
    takeWhile_append_cons (by decide)]

/-- The terminators stay in the buffer when no chunk fills it, and each chunk gets its
newline then. -/
theorem printMaps_eq (buf : Buf) (chunks : List Chunk) :
    printMaps buf chunks =
      if ∀ chunk ∈ chunks, chunk.bytes.length < bufSize then some (chunks.flatMap Chunk.line)
      else none := by
  induction chunks generalizing buf with
  | nil => rfl
  | cons chunk chunks ih =>
      by_cases short : chunk.bytes.length < bufSize
      · obtain ⟨buf', stored, line⟩ := store_read buf short
        rw [printMaps, stored, Option.bind_eq_bind, Option.bind_some, ih]
        simp only [List.forall_mem_cons, short, true_and, List.flatMap_cons, ← line]
        split
        · rw [List.append_assoc]
          rfl
        · rfl
      · have overrun : (buf.read chunk).store chunk.bytes.length '\x00' = none := if_neg short
        rw [printMaps, overrun, if_neg fun all => short (all chunk List.mem_cons_self)]
        rfl

theorem printMaps_isSome_iff :
    (printMaps buf chunks).isSome ↔ ∀ chunk ∈ chunks, chunk.bytes.length < bufSize := by
  rw [printMaps_eq]
  split
  · exact iff_of_true rfl ‹_›
  · exact iff_of_false (fun some => by cases some) ‹_›

/-- No NUL is printed. -/
theorem Chunk.nul_not_mem_line : '\x00' ∉ chunk.line := by
  intro mem
  rcases List.mem_append.mp mem with inside | newline
  · exact absurd (List.mem_takeWhile_imp inside) (by decide)
  · exact absurd (List.mem_singleton.mp newline) (by decide)

theorem Chunk.length_line (visible : ∀ c ∈ chunk.bytes, c ≠ '\x00') :
    chunk.line.length = chunk.bytes.length + 1 := by
  rw [Chunk.line, List.takeWhile_eq_self_iff.mpr fun c mem => decide_eq_true (visible c mem),
    List.length_append, List.length_singleton]

theorem length_flatMap_line (visible : ∀ chunk ∈ chunks, ∀ c ∈ chunk.bytes, c ≠ '\x00') :
    (chunks.flatMap Chunk.line).length = (contentOf chunks).length + chunks.length := by
  unfold contentOf
  induction chunks with
  | nil => rfl
  | cons chunk chunks ih =>
      have first := chunk.length_line (visible chunk List.mem_cons_self)
      have rest := ih fun other mem => visible other (List.mem_cons_of_mem _ mem)
      rw [List.flatMap_cons, List.flatMap_cons, List.length_append, List.length_append, first, rest,
        List.length_cons]
      omega

/-- The newlines that are added make the difference, or the NULs that are left out. -/
theorem flatMap_line_eq_iff : chunks.flatMap Chunk.line = contentOf chunks ↔ chunks = [] := by
  constructor
  · intro same
    have visible : ∀ chunk ∈ chunks, ∀ c ∈ chunk.bytes, c ≠ '\x00' := by
      rintro chunk mem c inside rfl
      have content : '\x00' ∈ contentOf chunks := List.mem_flatMap.mpr ⟨chunk, mem, inside⟩
      rw [← same] at content
      obtain ⟨other, -, printed⟩ := List.mem_flatMap.mp content
      exact other.nul_not_mem_line printed
    have lengths := length_flatMap_line visible
    rw [same] at lengths
    exact List.length_eq_zero_iff.mp (by omega)
  · intro none
    subst none
    rfl

theorem contentOf_eq_nil_iff : contentOf chunks = [] ↔ chunks = [] := by
  unfold contentOf
  rw [List.flatMap_eq_nil_iff]
  constructor
  · intro silent
    apply List.eq_nil_iff_forall_not_mem.mpr
    intro chunk mem
    exact absurd (silent chunk mem) (List.ne_nil_of_length_pos chunk.positive)
  · intro none chunk mem
    subst none
    cases mem

/-- The terminators stay in the buffer and the text behind "Memory map:" is the content
exactly when the content is empty. -/
theorem handler_prints_maps_iff (sig : Fin signame.length) (backtrace : Text) (buf : Buf)
    (chunks : List Chunk) :
    handler sig backtrace buf (some chunks) = some (banner sig backtrace ++ contentOf chunks, 1) ↔
      contentOf chunks = [] := by
  unfold handler
  dsimp only
  rw [Option.map_eq_some_iff, contentOf_eq_nil_iff]
  constructor
  · intro printed
    rcases printed with ⟨text, printed, same⟩
    obtain rfl := List.append_cancel_left (congrArg Prod.fst same)
    rw [printMaps_eq] at printed
    split at printed
    · exact flatMap_line_eq_iff.mp (Option.some.inj printed)
    · cases printed
  · intro none
    subst none
    exact ⟨[], rfl, rfl⟩

/-! ## Two contents -/

/-- A chunk that fills the buffer. -/
def fullChunk : Chunk where
  bytes := List.replicate bufSize 'a'
  positive := by rw [List.length_replicate]; decide
  fits := List.length_replicate.le

def emptyBuf : Buf := ⟨List.replicate bufSize '\x00', List.length_replicate⟩

/-- 256 bytes at once: the terminator is stored behind the buffer. -/
theorem handler_prints_maps_fail :
    ¬ ∀ sig backtrace buf chunks,
      handler sig backtrace buf (some chunks) =
        some (banner sig backtrace ++ contentOf chunks, 1) := by
  intro all
  have overrun : printMaps emptyBuf [fullChunk] = none := by
    rw [printMaps_eq, if_neg]
    intro short
    exact absurd (short fullChunk List.mem_cons_self) (List.length_replicate.not_lt)
  have printed := all ⟨11, by decide⟩ [] emptyBuf [fullChunk]
  rw [handler, overrun] at printed
  cases printed

end Libsegv

end StudyLinux
