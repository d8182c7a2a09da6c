import StudyLinux.Kevent.Listing
import StudyLinux.Store.Accumulate

/-!
# Which entry writes which file

The split loop writes the rows of an entry to the name that `output/pertask/$1.$2`
stands for at that moment. Which names are there depends on the entries alone, so the
loop is run on the entries first: `writers` has the last entry that was redirected to
each name, and the files are the rows of these entries
(`foldl_getCpuusageForProcess_eq`). As long as no entry's word matches the file of
another one, every entry writes its own file (`get_foldl_getCpuusageForProcess`).
-/

namespace StudyLinux

/-! ## Entries -/

/-- An entry `name,pid` whose second field is a number, or missing. -/
def IsNumbered (entry : Text) : Prop := ∀ c ∈ arrayField 1 entry, c.isDigit

/-- The per-task file of an entry. -/
def entryFile (entry : Text) : Text := taskFile (arrayField 0 entry) (arrayField 1 entry)

/-- What `grep` looks for. -/
def entryPattern (entry : Text) : Text := taskPattern (arrayField 0 entry) (arrayField 1 entry)

/-- The rows that an entry's pattern selects, merged over the CPUs. -/
def entryRows (p : Patterns) (csv : Cpu → File) (entry : Text) : File :=
  sortNumeric (fileList.flatMap fun cpu => (csv cpu).filter (p.selects (entryPattern entry)))

theorem dot_not_mem_pid {entry : Text} (numbered : IsNumbered entry) : '.' ∉ arrayField 1 entry :=
  fun member => absurd (numbered _ member) (by decide)

/-- The last dot of a per-task name stands in front of the pid. -/
theorem taskFile_inj {name pid name' pid' : Text} (solid : '.' ∉ pid) (solid' : '.' ∉ pid')
    (same : taskFile name pid = taskFile name' pid') : name = name' ∧ pid = pid' :=
  join_inj solid solid' same

/-- Entries with one file have one set of rows. -/
theorem entryRows_congr (p : Patterns) {csv : Cpu → File} {entry entry' : Text}
    (numbered : IsNumbered entry) (numbered' : IsNumbered entry')
    (same : entryFile entry = entryFile entry') :
    entryRows p csv entry = entryRows p csv entry' := by
  obtain ⟨name, pid⟩ := taskFile_inj (dot_not_mem_pid numbered) (dot_not_mem_pid numbered') same
  rw [entryRows, entryRows, entryPattern, entryPattern, name, pid]

/-! ## Words of the list -/

section Words

variable {env : Env} {tasklist : File} {word name entry : Text}

theorem mem_expandHere (member : name ∈ env.expandHere word) :
    name = word ∨ name ∈ env.workingDir.names := Patterns.mem_expand member

/-- An entry is a word of the list, or a name that one matches in the working directory. -/
theorem mem_of_mem_listedEntries (listed : entry ∈ listedEntries env tasklist) :
    entry ∈ tasklist.flatMap words ∨ entry ∈ env.workingDir.names := by
  obtain ⟨taskinfo, member, rfl⟩ := List.mem_map.mp listed
  obtain ⟨word, inList, expanded⟩ := List.mem_flatMap.mp member
  obtain ⟨line, -, isWord⟩ := List.mem_flatMap.mp inList
  have solid : taskinfo ≠ [] → ∀ c ∈ taskinfo, isBlank c = false := by
    intro _
    rcases mem_expandHere expanded with rfl | here
    · exact (solid_of_mem_wordsBy isWord).2
    · exact fun c inName => (env.workingDir.plain taskinfo here c inName).1
  have either : taskinfo ∈ tasklist.flatMap words ∨ taskinfo ∈ env.workingDir.names := by
    rcases mem_expandHere expanded with rfl | here
    · exact Or.inl inList
    · exact Or.inr here
  by_cases empty : taskinfo = []
  · subst empty
    exact either
  · have one : words taskinfo = [taskinfo] := wordsBy_eq_singleton (solid empty) empty
    rw [one, List.flatMap_singleton]
    rcases again : env.expandHere taskinfo with _ | ⟨first, rest⟩
    · exact absurd again (Patterns.expand_ne_nil _ _ _)
    · rcases mem_expandHere (again ▸ List.mem_cons_self : first ∈ env.expandHere taskinfo) with
        own | here
      · exact own ▸ either
      · exact Or.inr here

theorem solid_of_mem_listedEntries (listed : entry ∈ listedEntries env tasklist) :
    ∀ c ∈ entry, isBlank c = false := by
  rcases mem_of_mem_listedEntries listed with inList | here
  · obtain ⟨line, -, word⟩ := List.mem_flatMap.mp inList
    exact (solid_of_mem_wordsBy word).2
  · exact fun c member => (env.workingDir.plain entry here c member).1

/-- A name of the working directory has no second field. -/
theorem isNumbered_of_mem_workingDir (here : name ∈ env.workingDir.names) : IsNumbered name := by
  have solid : ',' ∉ name := fun comma => (env.workingDir.plain name here _ comma).2 rfl
  rw [IsNumbered, arrayField, splitOn_eq_singleton_iff.mpr solid]
  exact fun c member => absurd member List.not_mem_nil

/-- Words that stand for themselves are the entries. -/
theorem listedEntries_eq
    (itself : ∀ word ∈ tasklist.flatMap words, env.expandHere word = [word]) :
    listedEntries env tasklist = tasklist.flatMap words := by
  unfold listedEntries
  rw [flatMap_of_itself itself]
  refine (List.map_congr_left fun word member => ?_).trans (List.map_id _)
  obtain ⟨line, -, isWord⟩ := List.mem_flatMap.mp member
  obtain ⟨full, solid⟩ := solid_of_mem_wordsBy isWord
  have one : words word = [word] := wordsBy_eq_singleton solid full
  rw [one, List.flatMap_singleton, itself word member]
  rfl

theorem listedEntries_append (front back : File) :
    listedEntries env (front ++ back) = listedEntries env front ++ listedEntries env back := by
  simp only [listedEntries, List.flatMap_append, List.map_append]

/-- The entries depend on which words are in the list. -/
theorem mem_listedEntries_congr {tasklist' : File}
    (same : ∀ word, word ∈ tasklist.flatMap words ↔ word ∈ tasklist'.flatMap words) :
    entry ∈ listedEntries env tasklist ↔ entry ∈ listedEntries env tasklist' := by
  simp only [listedEntries, List.mem_map, List.mem_flatMap (f := env.expandHere), same]

theorem expandHere_of_plain (plain : ∀ c ∈ word, isGlob c = false) :
    env.expandHere word = [word] := Patterns.expand_of_plain env.workingDir.distinct plain

end Words

/-! ## Temporary names -/

/-- The end of a temporary name. -/
def tmpEnd : Text := ".tmp".toList

/-- The name of a temporary file. -/
def IsTmp (f : Text) : Prop := tmpEnd <:+ f

theorem isTmp_taskTmp (name pid : Text) : IsTmp (taskTmp name pid) := List.suffix_append _ _

theorem plain_tmpEnd : ∀ c ∈ tmpEnd, isGlob c = false ∧ c ≠ ']' := by decide

/-- A digit needs no escape in a word. -/
theorem plain_of_isDigit {c : Char} (digit : c.isDigit) : isGlob c = false ∧ c ≠ ']' := by
  constructor
  · rw [Bool.eq_false_iff]
    intro glob
    simp only [isGlob, Bool.or_eq_true, decide_eq_true_eq] at glob
    rcases glob with ((rfl | rfl) | rfl) | rfl <;> exact absurd digit (by decide)
  · rintro rfl
    exact absurd digit (by decide)

theorem plain_pidEnd {pid : Text} (digits : ∀ c ∈ pid, c.isDigit) :
    ∀ c ∈ '.' :: pid, isGlob c = false ∧ c ≠ ']' := by
  refine List.forall_mem_cons.mpr ⟨by decide, fun c member => ?_⟩
  exact plain_of_isDigit (digits c member)

/-- A name that ends in a pid is not temporary. -/
theorem not_isTmp_of_pid {pid f : Text} (digits : ∀ c ∈ pid, c.isDigit)
    (ends : '.' :: pid <:+ f) : ¬ IsTmp f := by
  intro tmp
  obtain ⟨front, rfl⟩ := ends
  obtain ⟨before, same⟩ := tmp
  have last := congrArg List.getLast? same
  rw [List.getLast?_append_of_ne_nil _ (by decide : tmpEnd ≠ []),
    List.getLast?_append_of_ne_nil _ (List.cons_ne_nil '.' pid)] at last
  have member : 'p' ∈ '.' :: pid := List.mem_of_getLast? (last.symm.trans (by decide))
  rcases List.mem_cons.mp member with dot | digit
  · exact absurd dot (by decide)
  · exact absurd (digits _ digit) (by decide)

theorem suffix_taskFile (name pid : Text) : '.' :: pid <:+ taskFile name pid :=
  List.suffix_append _ _

/-- A per-task file is no temporary file. -/
theorem entryFile_ne_taskTmp {entry : Text} (numbered : IsNumbered entry) (name pid : Text) :
    entryFile entry ≠ taskTmp name pid := by
  intro same
  have tmp : IsTmp (entryFile entry) := same ▸ isTmp_taskTmp name pid
  exact not_isTmp_of_pid numbered (suffix_taskFile (arrayField 0 entry) _) tmp

/-! ## One round of the loop -/

/-- Nothing temporary is there, but for `tmp`. -/
def NoTmpBut (tmp : Text) (d : Dir Text File) : Prop := ∀ f ∈ d.names, IsTmp f → f = tmp

/-- Nothing temporary is there. -/
def NoTmp {α : Type} (d : Dir Text α) : Prop := ∀ f ∈ d.names, ¬ IsTmp f

section Round

variable {p : Patterns} {csv : Cpu → File} {name pid : Text} {d : Dir Text File}

theorem NoTmp.get_eq_none {α : Type} {d : Dir Text α} (clean : NoTmp d) {f : Text}
    (tmp : IsTmp f) : d.get f = none := by
  rw [← Option.not_isSome_iff_eq_none, ← Dir.mem_names]
  exact fun there => clean f there tmp

/-- The word of a temporary file stands for that file. -/
theorem expand_taskTmp (others : NoTmpBut (taskTmp name pid) d) :
    p.expand d.names (taskTmp name pid) = [taskTmp name pid] := by
  refine Patterns.expand_of_only d.nodup_names fun f member found => others f member ?_
  exact p.suffix_of_matchesName plain_tmpEnd found

theorem withRedirect_of_eq {word target : Text} (goes : p.redirect d.names word = some target)
    (command : Text → Dir Text File → Dir Text File) :
    withRedirect p word command d = command target d := by
  unfold withRedirect
  rw [goes]

theorem withRedirect_of_none {word : Text} (goes : p.redirect d.names word = none)
    (command : Text → Dir Text File → Dir Text File) : withRedirect p word command d = d := by
  unfold withRedirect
  rw [goes]

theorem withRedirect_taskTmp (others : NoTmpBut (taskTmp name pid) d)
    (command : Text → Dir Text File → Dir Text File) :
    withRedirect p (taskTmp name pid) command d = command (taskTmp name pid) d := by
  refine withRedirect_of_eq ?_ command
  rw [Patterns.redirect, expand_taskTmp others]
  rfl

theorem NoTmpBut.put {tmp f : Text} {file : File} (others : NoTmpBut tmp d)
    (fine : IsTmp f → f = tmp) : NoTmpBut tmp (d.put f file) := by
  intro g member isTmp
  by_cases new : g = f
  · exact new ▸ fine (new ▸ isTmp)
  · rw [Dir.mem_names, Dir.get_put_of_ne _ _ new, ← Dir.mem_names] at member
    exact others g member isTmp

/-- The loop over the CPUs collects the lines in the temporary file. -/
theorem collect_eq (lines : Cpu → File) (cpus : List Cpu)
    (others : NoTmpBut (taskTmp name pid) d) :
    NoTmpBut (taskTmp name pid)
      (cpus.foldl (fun d cpu => withRedirect p (taskTmp name pid)
        (fun target => appendTo target (lines cpu)) d) d) ∧
    ∀ f, (cpus.foldl (fun d cpu => withRedirect p (taskTmp name pid)
        (fun target => appendTo target (lines cpu)) d) d).get f =
      if f = taskTmp name pid ∧ cpus ≠ [] then
        some ((d.get (taskTmp name pid)).getD [] ++ cpus.flatMap lines)
      else d.get f := by
  induction cpus generalizing d with
  | nil => exact ⟨others, fun f => (if_neg fun both => both.2 rfl).symm⟩
  | cons cpu cpus ih =>
      rw [List.foldl_cons, withRedirect_taskTmp others]
      have next : NoTmpBut (taskTmp name pid) (appendTo (taskTmp name pid) (lines cpu) d) :=
        others.put fun _ => rfl
      obtain ⟨still, run⟩ := ih next
      refine ⟨still, fun f => (run f).trans ?_⟩
      by_cases own : f = taskTmp name pid
      · subst own
        rcases cpus with _ | ⟨second, rest⟩
        · simp
        · simp
      · rw [if_neg fun both => own both.1, if_neg fun both => own both.1, get_appendTo_of_ne own]

/-- `sort` reads the file that its output does not replace. -/
theorem sortInto_single {file target : Text} (other : file ≠ target) :
    ∀ f, (sortInto [file] target d).get f =
      if f = target then some (sortNumeric ((d.get file).getD [])) else d.get f := by
  intro f
  unfold sortInto
  dsimp only
  rw [List.flatMap_singleton, Dir.get_put_of_ne _ _ other]
  split_ifs with own
  · rw [own, Dir.get_put_self]
  · rw [Dir.get_put_of_ne _ _ own, Dir.get_put_of_ne _ _ own]

/-- Taking the temporary file away leaves what was there before. -/
theorem erase_of_kept {tmp : Text} {collected : Dir Text File} (missing : d.get tmp = none)
    (kept : ∀ f, f ≠ tmp → collected.get f = d.get f) : collected.erase tmp = d := by
  refine Dir.ext_get fun f => ?_
  by_cases own : f = tmp
  · rw [own, Dir.get_erase_self, missing]
  · rw [Dir.get_erase_of_ne _ own, kept f own]

/-- Behind `sort` that leaves the sorted lines, too. -/
theorem erase_sortInto {tmp target : Text} {collected : Dir Text File}
    (missing : d.get tmp = none) (kept : ∀ f, f ≠ tmp → collected.get f = d.get f)
    (other : tmp ≠ target) :
    (sortInto [tmp] target collected).erase tmp =
      d.put target (sortNumeric ((collected.get tmp).getD [])) := by
  have stillMissing : (d.put target (sortNumeric ((collected.get tmp).getD []))).get tmp = none :=
    (Dir.get_put_of_ne _ _ other).trans missing
  refine erase_of_kept stillMissing fun f apart => ?_
  rw [sortInto_single other]
  by_cases here : f = target
  · rw [if_pos here, here, Dir.get_put_self]
  · rw [if_neg here, Dir.get_put_of_ne _ _ here, kept f apart]

/-- The word of the per-task file matches no temporary name. -/
theorem not_isTmp_of_matchesName {entry f : Text} (numbered : IsNumbered entry)
    (found : p.matchesName (entryFile entry) f) : ¬ IsTmp f :=
  not_isTmp_of_pid numbered (p.suffix_of_matchesName (plain_pidEnd numbered) found)

/-- So it stands for the same names beside a temporary file. -/
theorem redirect_of_kept {entry tmp : Text} {collected : Dir Text File}
    (numbered : IsNumbered entry) (isTmp : IsTmp tmp)
    (kept : ∀ f, f ≠ tmp → collected.get f = d.get f) :
    p.redirect collected.names (entryFile entry) = p.redirect d.names (entryFile entry) := by
  refine Patterns.redirect_congr collected.nodup_names d.nodup_names fun f found => ?_
  have other : f ≠ tmp := fun same => not_isTmp_of_matchesName numbered found (same ▸ isTmp)
  rw [Dir.mem_names, Dir.mem_names, kept f other]

theorem not_isTmp_of_redirect {entry target : Text} (numbered : IsNumbered entry)
    (goes : p.redirect d.names (entryFile entry) = some target) : ¬ IsTmp target := by
  rcases Patterns.eq_or_mem_of_redirect goes with ⟨rfl, -⟩ | ⟨-, found⟩
  · exact not_isTmp_of_pid numbered (suffix_taskFile _ _)
  · exact not_isTmp_of_matchesName numbered found

/-- One round: the rows of the entry go to the name that its word stands for, and nothing
else changes. -/
theorem getCpuusageForProcess_eq {entry : Text} (numbered : IsNumbered entry) (clean : NoTmp d) :
    getCpuusageForProcess p csv d entry =
      withRedirect p (entryFile entry) (fun target d => d.put target (entryRows p csv entry))
        d := by
  let name := arrayField 0 entry
  let pid := arrayField 1 entry
  let tmp := taskTmp name pid
  have others : NoTmpBut tmp d := fun f member isTmp => absurd isTmp (clean f member)
  have missing : d.get tmp = none := clean.get_eq_none (isTmp_taskTmp name pid)
  let collected := fileList.foldl (fun d filename => withRedirect p tmp
    (fun target => appendTo target (grepTask p csv name pid filename)) d) d
  obtain ⟨only, run⟩ : NoTmpBut tmp collected ∧ _ :=
    collect_eq (p := p) (grepTask p csv name pid) fileList others
  have lines : (collected.get tmp).getD [] = fileList.flatMap (grepTask p csv name pid) := by
    rw [run, if_pos ⟨rfl, by decide⟩, missing]
    rfl
  have kept : ∀ f, f ≠ tmp → collected.get f = d.get f := fun f other =>
    (run f).trans (if_neg fun both => other both.1)
  have redirect : p.redirect collected.names (entryFile entry) =
      p.redirect d.names (entryFile entry) :=
    redirect_of_kept numbered (isTmp_taskTmp name pid) kept
  change (p.expand (withRedirect p (entryFile entry) (sortInto (p.expand collected.names tmp))
    collected).names tmp).foldl Dir.erase (withRedirect p (entryFile entry)
      (sortInto (p.expand collected.names tmp)) collected) = _
  rw [expand_taskTmp only]
  cases goes : p.redirect d.names (entryFile entry) with
  | none =>
      rw [withRedirect_of_none (redirect.trans goes), withRedirect_of_none goes,
        expand_taskTmp only]
      exact erase_of_kept missing kept
  | some target =>
      have notTmp := not_isTmp_of_redirect numbered goes
      have other : tmp ≠ target := fun same => notTmp (same ▸ isTmp_taskTmp name pid)
      have sortedOnly : NoTmpBut tmp (sortInto [tmp] target collected) :=
        (only.put fun isTmp => absurd isTmp notTmp).put fun isTmp => absurd isTmp notTmp
      rw [withRedirect_of_eq (redirect.trans goes), withRedirect_of_eq goes,
        expand_taskTmp sortedOnly]
      refine (erase_sortInto missing kept other).trans ?_
      rw [lines]
      rfl

end Round

/-! ## The loop -/

/-- An entry is redirected to a name; several names are an error. -/
def writeEntry (p : Patterns) (d : Dir Text Text) (entry : Text) : Dir Text Text :=
  match p.redirect d.names (entryFile entry) with
  | none => d
  | some target => d.put target entry

/-- The last entry that was redirected to each name. -/
def writers (p : Patterns) (list : List Text) : Dir Text Text := list.foldl (writeEntry p) .empty

section Loop

variable {p : Patterns} {csv : Cpu → File} {list : List Text}

theorem writers_append_singleton (list : List Text) (entry : Text) :
    writers p (list ++ [entry]) = writeEntry p (writers p list) entry := by
  rw [writers, List.foldl_append]
  rfl

/-- The first entry makes its own file. -/
theorem writers_singleton (entry : Text) :
    writers p [entry] = Dir.put .empty (entryFile entry) entry := rfl

/-- What writing an entry does. -/
theorem writeEntry_cases (d : Dir Text Text) (entry : Text) :
    writeEntry p d entry = d ∧ p.redirect d.names (entryFile entry) = none ∨
      ∃ target, p.redirect d.names (entryFile entry) = some target ∧
        writeEntry p d entry = d.put target entry := by
  unfold writeEntry
  cases goes : p.redirect d.names (entryFile entry) with
  | none => exact Or.inl ⟨rfl, rfl⟩
  | some target => exact Or.inr ⟨target, rfl, rfl⟩

/-- The names are files of entries, and what is written comes from the list. -/
theorem mem_of_get_writers {f entry : Text} (found : (writers p list).get f = some entry) :
    entry ∈ list ∧ ∃ own ∈ list, f = entryFile own := by
  induction list using List.reverseRecOn generalizing f entry with
  | nil => cases found
  | append_singleton list last ih =>
      rw [writers_append_singleton] at found
      have old {f entry : Text} (found : (writers p list).get f = some entry) :
          entry ∈ list ++ [last] ∧ ∃ own ∈ list ++ [last], f = entryFile own := by
        obtain ⟨member, own, inList, file⟩ := ih found
        exact ⟨List.mem_append_left _ member, own, List.mem_append_left _ inList, file⟩
      rcases writeEntry_cases (writers p list) last with ⟨still, -⟩ | ⟨target, goes, written⟩
      · exact old (still ▸ found)
      · rw [written] at found
        by_cases here : f = target
        · subst here
          rw [Dir.get_put_self] at found
          obtain rfl := Option.some.inj found
          refine ⟨List.mem_append_right _ (List.mem_singleton_self _), ?_⟩
          rcases Patterns.eq_or_mem_of_redirect goes with ⟨own, -⟩ | ⟨there, -⟩
          · exact ⟨last, List.mem_append_right _ (List.mem_singleton_self _), own⟩
          · obtain ⟨earlier, stored⟩ := Option.isSome_iff_exists.mp ((Dir.mem_names _).mp there)
            exact (old stored).2
        · rw [Dir.get_put_of_ne _ _ here] at found
          exact old found

theorem noTmp_writers (numbered : ∀ entry ∈ list, IsNumbered entry) : NoTmp (writers p list) := by
  intro f named
  obtain ⟨entry, stored⟩ := Option.isSome_iff_exists.mp ((Dir.mem_names _).mp named)
  obtain ⟨-, own, inList, rfl⟩ := mem_of_get_writers stored
  exact not_isTmp_of_pid (numbered own inList) (suffix_taskFile _ _)

/-- The per-task files are the rows of the entries that were written last. -/
theorem foldl_getCpuusageForProcess_eq (numbered : ∀ entry ∈ list, IsNumbered entry) :
    list.foldl (getCpuusageForProcess p csv) .empty =
      (writers p list).mapValues (entryRows p csv) := by
  induction list using List.reverseRecOn with
  | nil => rfl
  | append_singleton list last ih =>
      have before : ∀ entry ∈ list, IsNumbered entry := fun entry member =>
        numbered entry (List.mem_append_left _ member)
      have clean : NoTmp ((writers p list).mapValues (entryRows p csv)) := by
        unfold NoTmp
        rw [Dir.names_mapValues]
        exact noTmp_writers before
      rw [List.foldl_append, List.foldl_cons, List.foldl_nil, ih before,
        getCpuusageForProcess_eq (numbered last (by simp)) clean, writers_append_singleton]
      have names := Dir.names_mapValues (writers p list) (entryRows p csv)
      rcases writeEntry_cases (writers p list) last with ⟨still, goes⟩ | ⟨target, goes, written⟩
      · rw [still, withRedirect_of_none (names ▸ goes)]
      · rw [written, withRedirect_of_eq (names ▸ goes), Dir.mapValues_put]

/-! ## Entries that write their own file -/

/-- No entry but those of a file has a word that matches it, and it matches, as a word, no
other entry's file. -/
def Alone (p : Patterns) (list : List Text) (f : Text) : Prop :=
  ∀ entry ∈ list, p.matchesName (entryFile entry) f ∨ p.matchesName f (entryFile entry) →
    entryFile entry = f

theorem Alone.of_subset {list' : List Text} {f : Text} (alone : Alone p list f)
    (few : ∀ entry ∈ list', entry ∈ list) : Alone p list' f := fun entry member =>
  alone entry (few entry member)

/-- An entry of the file is redirected to it. -/
theorem Alone.redirect_eq {f : Text} (alone : Alone p list f) :
    p.redirect (writers p list).names f = some f := by
  refine Patterns.redirect_of_only (Dir.nodup_names _) fun name named found => ?_
  obtain ⟨writer, stored⟩ := Option.isSome_iff_exists.mp ((Dir.mem_names _).mp named)
  obtain ⟨-, own, inList, rfl⟩ := mem_of_get_writers stored
  exact alone own inList (Or.inr found)

/-- A file that is alone was written by an entry of it, if there is one. -/
theorem Alone.get_writers {f : Text} (alone : Alone p list f) :
    (∃ entry ∈ list, entryFile entry = f ∧ (writers p list).get f = some entry) ∨
      (∀ entry ∈ list, entryFile entry ≠ f) ∧ (writers p list).get f = none := by
  induction list using List.reverseRecOn with
  | nil => exact Or.inr ⟨fun _ member => absurd member List.not_mem_nil, rfl⟩
  | append_singleton list last ih =>
      have before : Alone p list f := alone.of_subset fun entry => List.mem_append_left _
      have lastMember : last ∈ list ++ [last] := List.mem_append_right _ (List.mem_singleton_self _)
      rw [writers_append_singleton]
      by_cases own : entryFile last = f
      · have goes := before.redirect_eq
        rw [← own] at goes
        refine Or.inl ⟨last, lastMember, own, ?_⟩
        rw [writeEntry, goes, ← own]
        exact Dir.get_put_self _ _ _
      · have same : (writeEntry p (writers p list) last).get f = (writers p list).get f := by
          rcases writeEntry_cases (writers p list) last with ⟨still, -⟩ | ⟨target, goes, written⟩
          · rw [still]
          · rw [written, Dir.get_put_of_ne]
            rintro rfl
            rcases Patterns.eq_or_mem_of_redirect goes with ⟨file, -⟩ | ⟨-, found⟩
            · exact own file.symm
            · exact own (alone last lastMember (Or.inl found))
        rw [same]
        rcases ih before with ⟨entry, member, file, stored⟩ | ⟨foreign, absent⟩
        · exact Or.inl ⟨entry, List.mem_append_left _ member, file, stored⟩
        · refine Or.inr ⟨fun entry member => ?_, absent⟩
          rcases List.mem_append.mp member with earlier | isLast
          · exact foreign entry earlier
          · exact List.mem_singleton.mp isLast ▸ own

/-- No entry's word matches the file of another entry. -/
def NoClash (p : Patterns) (list : List Text) : Prop :=
  ∀ entry ∈ list, ∀ other ∈ list, p.matchesName (entryFile entry) (entryFile other) →
    entryFile other = entryFile entry

theorem NoClash.alone (noClash : NoClash p list) {entry : Text} (member : entry ∈ list) :
    Alone p list (entryFile entry) := by
  intro other inList found
  rcases found with matched | matches'
  · exact (noClash other inList entry member matched).symm
  · exact noClash entry member other inList matches'

/-- The per-task files of entries that do not clash: each has the rows of the entries that
it belongs to, and there are no others. -/
theorem get_foldl_getCpuusageForProcess (numbered : ∀ entry ∈ list, IsNumbered entry)
    (noClash : NoClash p list) :
    (∀ entry ∈ list, (list.foldl (getCpuusageForProcess p csv) .empty).get (entryFile entry) =
      some (entryRows p csv entry)) ∧
    ∀ f, (∀ entry ∈ list, entryFile entry ≠ f) →
      (list.foldl (getCpuusageForProcess p csv) .empty).get f = none := by
  rw [foldl_getCpuusageForProcess_eq numbered]
  refine ⟨fun entry member => ?_, fun f foreign => ?_⟩
  · rw [Dir.get_mapValues]
    rcases (noClash.alone member).get_writers with ⟨writer, inList, file, stored⟩ | ⟨foreign, -⟩
    · rw [stored, Option.map_some,
        entryRows_congr p (numbered writer inList) (numbered entry member) file]
    · exact absurd rfl (foreign entry member)
  · rw [Dir.get_mapValues, Option.map_eq_none_iff, ← Option.not_isSome_iff_eq_none]
    intro there
    obtain ⟨writer, stored⟩ := Option.isSome_iff_exists.mp there
    obtain ⟨-, own, inList, file⟩ := mem_of_get_writers stored
    exact foreign own inList file.symm

/-- So they depend on which entries are listed, not on their order. -/
theorem foldl_getCpuusageForProcess_congr {list' : List Text}
    (numbered : ∀ entry ∈ list, IsNumbered entry) (noClash : NoClash p list)
    (same : ∀ entry, entry ∈ list ↔ entry ∈ list') :
    list.foldl (getCpuusageForProcess p csv) .empty =
      list'.foldl (getCpuusageForProcess p csv) .empty := by
  obtain ⟨listed, others⟩ := @get_foldl_getCpuusageForProcess p csv list numbered noClash
  obtain ⟨listed', others'⟩ := @get_foldl_getCpuusageForProcess p csv list'
    (fun entry member => numbered entry ((same entry).mpr member))
    (fun entry member other inList => noClash entry ((same entry).mpr member) other
      ((same other).mpr inList))
  refine Dir.ext_get fun f => ?_
  by_cases known : ∃ entry ∈ list, entryFile entry = f
  · obtain ⟨entry, member, rfl⟩ := known
    rw [listed entry member, listed' entry ((same entry).mp member)]
  · have foreign : ∀ entry ∈ list, entryFile entry ≠ f := fun entry member own =>
      known ⟨entry, member, own⟩
    rw [others f foreign, others' f fun entry member => foreign entry ((same entry).mpr member)]

end Loop

end StudyLinux
