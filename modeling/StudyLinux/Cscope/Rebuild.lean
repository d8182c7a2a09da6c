import Mathlib.Data.Set.Basic
import StudyLinux.Cscope.Find

/-!
# The list of source files

mkcscope.sh keeps the list cscope.files: request 1 makes it anew, request 2 adds to
it. The arguments pass through two functions that shift them; on the way of request
1 the first directory is shifted away, and without a directory the path `.` is
taken for the mode. `run_eq` says what each invocation writes, and
`cscopeFiles_iff` when nothing is lost by that.
-/

namespace StudyLinux

namespace Cscope

/-! ## The script -/

/-- `mk_cscope_files`, its mode in front of the directories. -/
def mkCscopeFiles (tree : FileTree) (args : List Text) (files : Option File) : Option File :=
  match args with
  | [] => files
  | opMode :: dirs =>
      if opMode = "new".toList then some (find tree dirs)
      else if opMode = "update".toList then some (files.getD [] ++ find tree dirs)
      else files

/-- `read_user_select`: the exit status, and cscope.files behind it. What `cscope`
itself does leaves the list alone. -/
def readUserSelect (tree : FileTree) (args : List Text) (files : Option File) : Nat × Option File :=
  let request := args[0]?.getD []
  let arg := args[1]?.getD []
  if request = [] ∨ request = "1".toList then
    -- `cleanup $input_file`
    let files := none
    if arg = [] then (0, mkCscopeFiles tree [['.']] files)
    else (0, mkCscopeFiles tree ("new".toList :: args.drop 2) files)
  else if request = "2".toList then (0, mkCscopeFiles tree ("update".toList :: args.drop 1) files)
  else if request = "3".toList then (0, files)
  else (255, files)

/-- Request 1 with a directory: the mode takes its place. -/
theorem readUserSelect_rebuild (tree : FileTree) {dir : Text} (nonempty : dir ≠ [])
    (dirs : List Text) (files : Option File) :
    readUserSelect tree (['1'] :: dir :: dirs) files = (0, some (find tree dirs)) := by
  have request : ['1'] = [] ∨ ['1'] = "1".toList := by decide
  unfold readUserSelect
  dsimp only [List.getElem?_cons_zero, List.getElem?_cons_succ, Option.getD_some]
  rw [if_pos request, if_neg nonempty]
  rfl

theorem readUserSelect_add (tree : FileTree) (dirs : List Text) (files : Option File) :
    readUserSelect tree (['2'] :: dirs) files = (0, some (files.getD [] ++ find tree dirs)) := by
  have request : ¬ (['2'] = [] ∨ ['2'] = "1".toList) := by decide
  have add : ['2'] = "2".toList := by decide
  have mode : "update".toList ≠ "new".toList := by decide
  unfold readUserSelect
  dsimp only [List.getElem?_cons_zero, Option.getD_some]
  rw [if_neg request, if_pos add, mkCscopeFiles, if_neg mode, if_pos rfl]
  rfl

/-- The script, its arguments split into words once more by the unquoted `$@`. -/
def mkcscope (tree : FileTree) (argv : List Text) (files : Option File) : Nat × Option File :=
  readUserSelect tree (argv.flatMap words) files

/-! ## Invocations -/

/-- The name of a directory as an argument: without blanks and glob characters, and
nothing that `find` takes for an option or an operator. -/
structure DirName where
  text : Text
  nonempty : text ≠ []
  plain : ∀ c ∈ text, isBlank c = false ∧ c ∉ ['*', '?', '[']
  point : text.head? ∉ ['-', '(', ')', '!', ','].map some

inductive Request
  | rebuild
  | add
  deriving DecidableEq

def Request.word : Request → Text
  | rebuild => ['1']
  | add => ['2']

/-- A request with its directories, and the files there are when it is made. -/
structure Invocation where
  tree : FileTree
  request : Request
  dirs : List DirName

namespace Invocation

/-- The arguments of the script. -/
def argv (inv : Invocation) : List Text := inv.request.word :: inv.dirs.map DirName.text

def run (files : Option File) (inv : Invocation) : Option File :=
  (mkcscope inv.tree inv.argv files).2

/-- The directories an invocation names; none stand for `.`. -/
def named (inv : Invocation) : List Text :=
  if inv.dirs.map DirName.text = [] then [['.']] else inv.dirs.map DirName.text

/-- A source file under one of these directories. -/
def Covers (inv : Invocation) (path : Text) : Prop :=
  ∃ dir ∈ inv.named, FoundUnder inv.tree dir path

/-! ## What an invocation writes -/

/-- The lines that an invocation adds to the list. -/
def written (inv : Invocation) : File :=
  match inv.request, inv.dirs with
  | .rebuild, [] => []
  | .rebuild, _ :: dirs => find inv.tree (dirs.map DirName.text)
  | .add, dirs => find inv.tree (dirs.map DirName.text)

/-- Every argument is one word. -/
theorem flatMap_words_argv (inv : Invocation) : inv.argv.flatMap words = inv.argv := by
  refine flatMap_wordsBy fun arg member => ?_
  rcases List.mem_cons.mp member with rfl | name
  · cases inv.request <;> exact ⟨by decide, by decide⟩
  · obtain ⟨dir, -, rfl⟩ := List.mem_map.mp name
    exact ⟨dir.nonempty, fun c inName => (dir.plain c inName).1⟩

/-- A rebuild replaces the list by what it writes, an addition keeps the list. -/
theorem run_eq (inv : Invocation) (files : Option File) :
    (inv.run files).getD [] =
      match inv.request with
      | .rebuild => inv.written
      | .add => files.getD [] ++ inv.written := by
  rw [run, mkcscope, flatMap_words_argv]
  obtain ⟨tree, request, dirs⟩ := inv
  cases request with
  | rebuild =>
      cases dirs with
      | nil => rfl
      | cons dir dirs =>
          exact congrArg (fun outcome : Nat × Option File => outcome.2.getD [])
            (readUserSelect_rebuild tree dir.nonempty _ files)
  | add =>
      exact congrArg (fun outcome : Nat × Option File => outcome.2.getD [])
        (readUserSelect_add tree _ files)

/-- Directories that are named are searched. -/
theorem covers_iff {inv : Invocation} (some : inv.dirs ≠ []) {path : Text} :
    inv.Covers path ↔ ∃ dir ∈ inv.dirs, FoundUnder inv.tree dir.text path := by
  have names : inv.dirs.map DirName.text ≠ [] := fun none => some (List.map_eq_nil_iff.mp none)
  rw [Covers, named, if_neg names]
  simp only [List.mem_map, exists_exists_and_eq_and]

theorem covers_iff_of_nil {inv : Invocation} (none : inv.dirs = []) {path : Text} :
    inv.Covers path ↔ FoundUnder inv.tree ['.'] path := by
  rw [Covers, named, none, List.map_nil, if_pos rfl]
  simp only [List.mem_singleton, exists_eq_left]

theorem mem_written_add {inv : Invocation} (add : inv.request = .add) {path : Text} :
    path ∈ inv.written ↔ inv.Covers path := by
  obtain ⟨tree, request, dirs⟩ := inv
  cases add
  exact mem_find_iff

end Invocation

/-! ## Runs -/

open Invocation

/-- A rebuild starts anew, an addition is added. -/
def extend (since : List Invocation) (inv : Invocation) : List Invocation :=
  match inv.request with
  | .rebuild => [inv]
  | .add => since ++ [inv]

/-- The last rebuild and the additions after it. -/
def sinceRebuild (invs : List Invocation) : List Invocation := invs.foldl extend []

/-- The list holds what was written from the last rebuild on. -/
theorem foldl_run (invs since : List Invocation) (files : Option File)
    (holds : files.getD [] = since.flatMap written) :
    (invs.foldl run files).getD [] = (invs.foldl extend since).flatMap written := by
  induction invs generalizing since files with
  | nil => exact holds
  | cons inv invs ih =>
      refine ih _ _ ?_
      rw [run_eq, extend]
      cases inv.request with
      | rebuild => exact (List.flatMap_singleton _ _).symm
      | add => rw [List.flatMap_append, List.flatMap_singleton, holds]

/-- A rebuild with additions after it stays one. -/
theorem foldl_extend_shape (invs : List Invocation) {rebuild : Invocation} {adds : List Invocation}
    (isRebuild : rebuild.request = .rebuild) (areAdds : ∀ inv ∈ adds, inv.request = .add) :
    ∃ rebuild' adds', invs.foldl extend (rebuild :: adds) = rebuild' :: adds' ∧
      rebuild'.request = .rebuild ∧ ∀ inv ∈ adds', inv.request = .add := by
  induction invs generalizing rebuild adds with
  | nil => exact ⟨rebuild, adds, rfl, isRebuild, areAdds⟩
  | cons inv invs ih =>
      rw [List.foldl_cons, extend]
      cases request : inv.request with
      | rebuild => exact ih request (fun _ member => absurd member List.not_mem_nil)
      | add =>
          refine ih isRebuild fun other member => ?_
          rcases List.mem_append.mp member with earlier | last
          · exact areAdds other earlier
          · exact List.mem_singleton.mp last ▸ request

/-! ## Lost directories -/

/-- The paths the list should have: the source files under every directory named from
the last rebuild on. -/
def expected (invs : List Invocation) : Set Text :=
  {path | ∃ inv ∈ sinceRebuild invs, inv.Covers path}

/-- What the last rebuild leaves out is found elsewhere, and what it puts in is asked
for: without a directory the additions find everything under `.`, a single directory
has the files of `.` but for those of the additions, and the files of the first of
several are found under the others or by the additions. -/
def NothingLost : List Invocation → Prop
  | [] => True
  | rebuild :: adds =>
      match rebuild.dirs with
      | [] => ∀ path, FoundUnder rebuild.tree ['.'] path → ∃ inv ∈ adds, inv.Covers path
      | [dir] => ∀ path, (¬ ∃ inv ∈ adds, inv.Covers path) →
          (FoundUnder rebuild.tree ['.'] path ↔ FoundUnder rebuild.tree dir.text path)
      | first :: dirs => ∀ path, FoundUnder rebuild.tree first.text path →
          (∃ dir ∈ dirs, FoundUnder rebuild.tree dir.text path) ∨ ∃ inv ∈ adds, inv.Covers path

theorem mem_flatMap_written {adds : List Invocation} (areAdds : ∀ inv ∈ adds, inv.request = .add)
    {path : Text} : path ∈ adds.flatMap written ↔ ∃ inv ∈ adds, inv.Covers path := by
  rw [List.mem_flatMap]
  exact exists_congr fun inv => and_congr_right fun member => mem_written_add (areAdds inv member)

/-- Two sides that differ in what `a` does not cover. -/
theorem or_iff_or_right_iff {a p q : Prop} : (p ∨ a ↔ q ∨ a) ↔ (¬ a → (p ↔ q)) :=
  ⟨fun same apart => by rwa [or_iff_left apart, or_iff_left apart] at same, or_congr_left'⟩

/-- A further case that the others cover. -/
theorem or_iff_or_or_iff {a p q : Prop} : (q ∨ a ↔ (p ∨ q) ∨ a) ↔ (p → q ∨ a) := by
  rw [or_assoc]
  exact ⟨fun same first => same.mpr (Or.inl first),
    fun covered => (or_iff_right_of_imp covered).symm⟩

/-- Rebuild and additions agree with what should be there exactly when nothing is
lost. -/
theorem written_eq_iff {rebuild : Invocation} {adds : List Invocation}
    (isRebuild : rebuild.request = .rebuild) (areAdds : ∀ inv ∈ adds, inv.request = .add) :
    {path | path ∈ (rebuild :: adds).flatMap written} =
        {path | ∃ inv ∈ rebuild :: adds, inv.Covers path} ↔ NothingLost (rebuild :: adds) := by
  have sides : {path | path ∈ (rebuild :: adds).flatMap written} =
      {path | ∃ inv ∈ rebuild :: adds, inv.Covers path} ↔
      ∀ path, (path ∈ rebuild.written ∨ ∃ inv ∈ adds, inv.Covers path) ↔
        (rebuild.Covers path ∨ ∃ inv ∈ adds, inv.Covers path) := by
    rw [Set.ext_iff]
    refine forall_congr' fun path => iff_congr ?_ ?_
    · rw [Set.mem_ofPred_eq, List.flatMap_cons, List.mem_append, mem_flatMap_written areAdds]
    · rw [Set.mem_ofPred_eq, List.exists_mem_cons_iff]
  rw [sides]
  obtain ⟨tree, request, dirs⟩ := rebuild
  cases isRebuild
  rcases dirs with _ | ⟨first, _ | ⟨second, dirs⟩⟩
  · refine forall_congr' fun path => ?_
    have wrote : path ∉ written ⟨tree, .rebuild, []⟩ := List.not_mem_nil
    rw [covers_iff_of_nil rfl]
    tauto
  · refine forall_congr' fun path => ?_
    have wrote : path ∈ written ⟨tree, .rebuild, [first]⟩ ↔ FoundUnder tree ['.'] path :=
      mem_find_iff.trans (by simp)
    rw [wrote, covers_iff (by simp)]
    simp only [List.mem_singleton, exists_eq_left]
    exact or_iff_or_right_iff
  · refine forall_congr' fun path => ?_
    have wrote : path ∈ written ⟨tree, .rebuild, first :: second :: dirs⟩ ↔
        ∃ dir ∈ second :: dirs, FoundUnder tree dir.text path :=
      mem_find_iff.trans (by simp)
    rw [wrote, covers_iff (by simp)]
    exact (iff_congr Iff.rfl (or_congr_left (List.exists_mem_cons_iff _ _ _))).trans
      or_iff_or_or_iff

/-- After a sequence that begins with a rebuild, the list has the source files under
every directory named since the last rebuild exactly when nothing is lost by that
rebuild. -/
theorem cscopeFiles_iff (tree : FileTree) (dirs : List DirName) (invs : List Invocation)
    (files : Option File) :
    {path | path ∈ ((⟨tree, .rebuild, dirs⟩ :: invs).foldl run files).getD []} =
        expected (⟨tree, .rebuild, dirs⟩ :: invs) ↔
      NothingLost (sinceRebuild (⟨tree, .rebuild, dirs⟩ :: invs)) := by
  have holds : (run files ⟨tree, .rebuild, dirs⟩).getD [] =
      [(⟨tree, .rebuild, dirs⟩ : Invocation)].flatMap written :=
    (run_eq _ _).trans (List.flatMap_singleton _ _).symm
  obtain ⟨rebuild, adds, shape, isRebuild, areAdds⟩ :=
    foldl_extend_shape invs (show (⟨tree, .rebuild, dirs⟩ : Invocation).request = .rebuild from rfl)
      (fun _ member => absurd member List.not_mem_nil)
  have since : sinceRebuild (⟨tree, .rebuild, dirs⟩ :: invs) = rebuild :: adds := shape
  rw [List.foldl_cons, foldl_run invs _ _ holds, expected, since, shape]
  exact written_eq_iff isRebuild areAdds

/-! ## Two directories -/

/-- Two directories with a source file each. -/
def twoDirs : FileTree := fun path =>
  if path = ['a'] then some (.dir [("x.c".toList, .file)])
  else if path = ['b'] then some (.dir [("y.c".toList, .file)])
  else none

def dirA : DirName := ⟨['a'], by decide, by decide, by decide⟩

def dirB : DirName := ⟨['b'], by decide, by decide, by decide⟩

/-- A rebuild with two directories has the files of the second only. -/
theorem cscopeFiles_fail :
    ¬ ∀ (tree : FileTree) (dirs : List DirName) (invs : List Invocation) (files : Option File),
      {path | path ∈ ((⟨tree, .rebuild, dirs⟩ :: invs).foldl run files).getD []} =
        expected (⟨tree, .rebuild, dirs⟩ :: invs) := by
  intro all
  have same := all twoDirs [dirA, dirB] [] none
  have wanted : "a/x.c".toList ∈ expected [⟨twoDirs, .rebuild, [dirA, dirB]⟩] :=
    ⟨_, List.mem_cons_self, ['a'], List.mem_cons_self, mem_findFrom_iff.mp (by decide)⟩
  rw [← same] at wanted
  exact absurd wanted (by decide)

end Cscope

end StudyLinux
