import StudyLinux.Mon.Device
import StudyLinux.Store.Backup

/-!
# Setup and restore

`env_setup` copies hudhmi and start.sh to their .org files and installs the kit,
and may exit after that; `restore` moves the .org files back. The two files with
their copies are two slots: whatever its outcome, a setup installs in both, a
restore recovers both (`slot_runCommand`). So the originals are back after every
restore exactly when the kit is the originals or no two setups in a row stand
before a restore (`restoresOriginals_iff`).
-/

namespace StudyLinux

namespace Mon

variable {α : Type}

/-! ## The two commands -/

/-- What a setup finds: the status of `grep "leaktracer"` in the maps of the process,
and what the process does then. -/
structure SetupEnv (α : Type) where
  grepStatus : Nat
  reaction : Reaction α

/-- The part of `env_setup` in front of its tests. -/
def installKit (d : Device α) : Device α :=
  let d := d.record [.stop]
  let d := d.cp .hudhmi .hudhmiOrg
  let d := d.cp .newHudhmi .hudhmi
  let d := d.cp .startSh .startShOrg
  let d := d.cp .newStartSh .startSh
  let d := d.cp .newLib .lib
  d.record [.restart]

/-- `env_setup`. -/
def envSetup (env : SetupEnv α) (d : Device α) : Outcome α (Device α) := do
  let d := installKit d
  if env.grepStatus = 1 then throw (255, d)
  let d := reported env.reaction.report (startAndReportLeak env.reaction.pid d)
  testMonitoringWorkOrNot d
  return cleanPrevFiles d

/-- `restore`. -/
def restore (d : Device α) : Device α :=
  let d := d.record [.stop]
  let d := d.mv .hudhmiOrg .hudhmi
  let d := d.mv .startShOrg .startSh
  d.record [.restart]

/-- An invocation of the script. -/
inductive Command (α : Type)
  | setup (env : SetupEnv α)
  | restore

/-- The device after a function that may have exited. -/
def deviceOf : Outcome α (Device α) → Device α
  | .ok d => d
  | .error (_, d) => d

/-- One invocation, on the files that the last one left. -/
def runCommand (files : Path → Option α) : Command α → Path → Option α
  | .setup env => (deviceOf (envSetup env ⟨files, []⟩)).files
  | .restore => (restore ⟨files, []⟩).files

/-! ## What the commands do to the files -/

theorem installKit_files (d : Device α) (path : Path) :
    (installKit d).files path =
      match path with
      | .hudhmi => (d.files .newHudhmi).or (d.files .hudhmi)
      | .hudhmiOrg => (d.files .hudhmi).or (d.files .hudhmiOrg)
      | .startSh => (d.files .newStartSh).or (d.files .startSh)
      | .startShOrg => (d.files .startSh).or (d.files .startShOrg)
      | .lib => (d.files .newLib).or (d.files .lib)
      | path => d.files path := by
  cases path <;> simp [installKit, Device.cp, Device.write, Device.record]

theorem restore_files (d : Device α) (path : Path) :
    (restore d).files path =
      match path with
      | .hudhmi => (d.files .hudhmiOrg).or (d.files .hudhmi)
      | .startSh => (d.files .startShOrg).or (d.files .startSh)
      | .hudhmiOrg | .startShOrg => none
      | path => d.files path := by
  cases path <;> simp [restore, Device.mv, Device.cp, Device.write, Device.record]

/-- Behind the copies a setup touches the files of earlier runs only, whether it exits
or not. -/
theorem envSetup_files (env : SetupEnv α) (d : Device α) {path : Path}
    (kept : isPrevFile path = false) :
    (deviceOf (envSetup env d)).files path = (installKit d).files path := by
  have written (report : Option α) (d : Device α) :
      (reported report d).files path = d.files path := by
    refine Device.write_files_of_ne d _ ?_
    intro same
    subst same
    exact absurd kept (by decide)
  rcases env with ⟨status, pid, report⟩
  unfold envSetup testMonitoringWorkOrNot
  by_cases unloaded : status = 1
  · rw [if_pos unloaded]
    rfl
  · rw [if_neg unloaded]
    by_cases silent : ((reported report (startAndReportLeak pid (installKit d))).files
        .leaksOut).isNone
    · simp only [silent, if_true]
      exact written report _
    · simp only [silent]
      have cleaned (d : Device α) : (cleanPrevFiles d).files path = d.files path := by
        rw [cleanPrevFiles]
        exact if_neg (by rw [kept]; decide)
      exact (cleaned _).trans (written report _)

/-! ## The two slots -/

/-- The files that a setup replaces. -/
inductive Component
  | hudhmi
  | startSh

namespace Component

/-- Where it is installed, where its copy is kept, and what a setup puts there. -/
def installedAt : Component → Path
  | hudhmi => .hudhmi
  | startSh => .startSh

def savedAt : Component → Path
  | hudhmi => .hudhmiOrg
  | startSh => .startShOrg

def kitAt : Component → Path
  | hudhmi => .newHudhmi
  | startSh => .newStartSh

/-- The installed file with its copy. -/
def slot (c : Component) (files : Path → Option α) : Slot α :=
  ⟨files c.installedAt, files c.savedAt⟩

end Component

/-- What a command does to a slot. -/
def Command.op : Command α → SlotOp
  | setup _ => .install
  | restore => .recover

/-- A command installs or recovers, in both slots. -/
theorem slot_runCommand (c : Component) (files : Path → Option α) (command : Command α) :
    c.slot (runCommand files command) = (c.slot files).step (files c.kitAt) command.op := by
  cases command with
  | setup env =>
      have kept : isPrevFile c.installedAt = false ∧ isPrevFile c.savedAt = false := by
        cases c <;> decide
      rw [runCommand, Component.slot, envSetup_files env _ kept.1, envSetup_files env _ kept.2,
        installKit_files, installKit_files]
      cases c <;> rfl
  | restore =>
      rw [runCommand, Component.slot, restore_files, restore_files]
      cases c <;> rfl

/-- The kit stays what it is. -/
theorem kit_runCommand (c : Component) (files : Path → Option α) (command : Command α) :
    runCommand files command c.kitAt = files c.kitAt := by
  cases command with
  | setup env =>
      have kept : isPrevFile c.kitAt = false := by cases c <;> decide
      rw [runCommand, envSetup_files env _ kept, installKit_files]
      cases c <;> rfl
  | restore =>
      rw [runCommand, restore_files]
      cases c <;> rfl

/-! ## Runs of commands -/

/-- The originals are installed and there are no copies. -/
def Untouched (files : Path → Option α) (original : Component → α) : Prop :=
  ∀ c : Component, c.slot files = ⟨some (original c), none⟩

/-- After every restore the originals are installed. -/
def RestoresOriginals (files : Path → Option α) (original : Component → α)
    (commands : List (Command α)) : Prop :=
  After runCommand files commands fun command files =>
    command = .restore → ∀ c : Component, files c.installedAt = some (original c)

/-- Two setups in a row, and a restore later. -/
def SetupTwice (commands : List (Command α)) : Prop :=
  ∃ before env env' after, commands = before ++ .setup env :: .setup env' :: after ∧
    .restore ∈ after

theorem op_eq_recover {command : Command α} : command.op = .recover ↔ command = .restore := by
  cases command with
  | setup env => exact iff_of_false (by simp [Command.op]) (by simp)
  | restore => exact iff_of_true rfl rfl

theorem setupTwice_iff {commands : List (Command α)} :
    SetupTwice commands ↔ Slot.InstalledTwice (commands.map Command.op) := by
  constructor
  · intro twice
    rcases twice with ⟨before, env, env', after, rfl, later⟩
    refine ⟨before.map Command.op, after.map Command.op, by simp [Command.op], ?_⟩
    exact List.mem_map.mpr ⟨.restore, later, rfl⟩
  · intro twice
    rcases twice with ⟨before, after, shape, later⟩
    obtain ⟨front, rest, rfl, rfl, two⟩ := List.map_eq_append_iff.mp shape
    obtain ⟨first, rest, rfl, one, two⟩ := List.map_eq_cons_iff.mp two
    obtain ⟨second, rest, rfl, other, rfl⟩ := List.map_eq_cons_iff.mp two
    obtain ⟨last, member, same⟩ := List.mem_map.mp later
    rw [op_eq_recover] at same
    subst same
    cases first with
    | restore => exact absurd one (by simp [Command.op])
    | setup env =>
        cases second with
        | restore => exact absurd other (by simp [Command.op])
        | setup env' => exact ⟨front, env, env', rest, rfl, member⟩

/-- The run of a slot. -/
theorem recovers_slot_iff {files : Path → Option α} {original : α} (c : Component)
    (commands : List (Command α)) :
    Slot.Recovers (files c.kitAt) original (c.slot files) (commands.map Command.op) ↔
      After runCommand files commands fun command files =>
        command = .restore → files c.installedAt = some original := by
  have keeps (others : Path → Option α) (command : Command α)
      (kit : others c.kitAt = files c.kitAt) :
      runCommand others command c.kitAt = files c.kitAt := by
    rw [kit_runCommand, kit]
  have commutes (others : Path → Option α) (command : Command α)
      (kit : others c.kitAt = files c.kitAt) :
      c.slot (runCommand others command) =
        (c.slot others).step (files c.kitAt) command.op := by
    rw [slot_runCommand, kit]
  rw [Slot.Recovers, after_map_iff keeps commutes rfl]
  simp only [op_eq_recover, Component.slot]

/-- The originals are back after every restore exactly when the kit is the originals
or no two setups in a row stand before a restore. -/
theorem restoresOriginals_iff {files : Path → Option α} {original : Component → α}
    (untouched : Untouched files original) (commands : List (Command α)) :
    RestoresOriginals files original commands ↔
      (∀ c : Component, (files c.kitAt).getD (original c) = original c) ∨
        ¬ SetupTwice commands := by
  have single (c : Component) :
      (After runCommand files commands fun command files =>
        command = .restore → files c.installedAt = some (original c)) ↔
      (files c.kitAt).getD (original c) = original c ∨ ¬ SetupTwice commands := by
    rw [← recovers_slot_iff, untouched c, Slot.recovers_iff, setupTwice_iff]
  rw [← forall_or_right]
  refine Iff.trans ⟨fun all c => ?_, fun all before command front isRestore c => ?_⟩
    (forall_congr' single)
  · exact all.imp fun _ _ both isRestore => both isRestore c
  · exact all c before command front isRestore

/-! ## Repeated setup -/

/-- A device before the first setup, with a kit beside it. -/
def freshDevice : Path → Option Text
  | .hudhmi => some "hudhmi".toList
  | .startSh => some "start.sh".toList
  | .newHudhmi => some "kit hudhmi".toList
  | .newStartSh => some "kit start.sh".toList
  | .newLib => some "libleaktracer.so".toList
  | _ => none

def freshOriginal : Component → Text
  | .hudhmi => "hudhmi".toList
  | .startSh => "start.sh".toList

theorem untouched_freshDevice : Untouched freshDevice freshOriginal := by
  intro c
  cases c <;> rfl

/-- A setup that finds the library loaded and gets its report. -/
def goodSetup : SetupEnv Text := ⟨0, ⟨some 7, some "leaks".toList⟩⟩

/-- A setup that does not find the library. -/
def failedSetup : SetupEnv Text := ⟨1, ⟨some 7, none⟩⟩

/-- One setup, one restore. -/
theorem restoresOriginals_freshDevice :
    RestoresOriginals freshDevice freshOriginal [.setup goodSetup, .restore] := by
  refine (restoresOriginals_iff untouched_freshDevice _).mpr (Or.inr ?_)
  intro twice
  rcases twice with ⟨before, env, env', after, shape, -⟩
  rcases before with _ | ⟨first, _ | ⟨second, rest⟩⟩ <;> simp at shape

/-- A setup that fails, is tried again and then undone: the first copies, the only ones
of the originals, are overwritten. -/
theorem restoresOriginals_fail :
    ¬ ∀ (files : Path → Option Text) (original : Component → Text) (commands : List (Command Text)),
      Untouched files original → RestoresOriginals files original commands := by
  intro all
  have restored := all freshDevice freshOriginal
    [.setup failedSetup, .setup goodSetup, .restore] untouched_freshDevice
  have binary :=
    restored [.setup failedSetup, .setup goodSetup] .restore List.prefix_rfl rfl .hudhmi
  exact absurd binary (by decide)

end Mon

end StudyLinux
