import StudyLinux.Store.Tree
import StudyLinux.Text.Filter

/-!
# Source files below directories

The `find` call of mkcscope.sh: below every starting point, whatever has a name of
a source file, directories included, since the script asks for no type.
-/

namespace StudyLinux

namespace Cscope

/-! ## Names and paths -/

/-- `-name '*.c' -o -name '*.cpp' -o …`. -/
def patterns : List Text :=
  [".c".toList, ".cpp".toList, ".cc".toList, ".h".toList, ".s".toList, ".S".toList]

/-- A name that one of the patterns matches. -/
def isSource (name : Text) : Bool := patterns.any fun ending => ending.isSuffixOf name

/-- A name behind a path; a slash at its end is not doubled. -/
def joinName (path name : Text) : Text :=
  if path.getLast? = some '/' then path ++ name else path ++ '/' :: name

/-- The path that `find` prints for what it reaches from a starting point. -/
def pathOf (start : Text) (names : List Text) : Text := names.foldl joinName start

/-- The name that `-name` looks at: that of the last step, or the last name in the
starting point itself. -/
def lastName (start : Text) (names : List Text) : Text :=
  names.getLast?.getD (((start.splitOn '/').filter (· ≠ [])).getLast?.getD start)

/-! ## The call -/

/-- What stands at a starting point, if anything. -/
abbrev FileTree := Text → Option (Node Text)

/-- `find` on one starting point. -/
def findFrom (tree : FileTree) (start : Text) : File :=
  match tree start with
  | none => []
  | some node => (node.walk.filter fun names => isSource (lastName start names)).map (pathOf start)

/-- `find $@ \( … \) -print`. Without a starting point it starts at `.`. -/
def find (tree : FileTree) (starts : List Text) : File :=
  (if starts = [] then [['.']] else starts).flatMap (findFrom tree)

/-- A path under a starting point that has the name of a source file. -/
def FoundUnder (tree : FileTree) (start path : Text) : Prop :=
  ∃ node names, tree start = some node ∧ node.HasPath names ∧ path = pathOf start names ∧
    isSource (lastName start names)

theorem mem_findFrom_iff {tree : FileTree} {start path : Text} :
    path ∈ findFrom tree start ↔ FoundUnder tree start path := by
  unfold findFrom FoundUnder
  cases tree start with
  | none => simp
  | some node =>
      rw [List.mem_map]
      constructor
      · intro ⟨names, kept, same⟩
        obtain ⟨visited, named⟩ := List.mem_filter.mp kept
        exact ⟨node, names, rfl, (node.mem_walk_iff names).mp visited, same.symm, named⟩
      · intro ⟨node', names, same, visited, printed, named⟩
        cases same
        exact ⟨names, List.mem_filter.mpr ⟨(node.mem_walk_iff names).mpr visited, named⟩,
          printed.symm⟩

/-- What is found under any of the starting points. -/
theorem mem_find_iff {tree : FileTree} {starts : List Text} {path : Text} :
    path ∈ find tree starts ↔
      ∃ start ∈ (if starts = [] then [['.']] else starts), FoundUnder tree start path := by
  rw [find, List.mem_flatMap]
  exact exists_congr fun start => and_congr_right fun _ => mem_findFrom_iff

end Cscope

end StudyLinux
