import Mathlib.Data.Option.Basic
import StudyLinux.System.Run

/-!
# One backup for many installations

A slot is an installed value and the copy of what it replaced. Installing copies
the installed value over the copy, whatever the copy is; recovering moves the copy
back. The copy is the original after one installation, and the kit after two in a
row: every recovery brings the original back exactly when the kit is the original
or no two installations in a row are followed by a recovery (`recovers_iff`).
-/

namespace StudyLinux

/-- An installed value and the copy of what it replaced. -/
structure Slot (α : Type) where
  installed : Option α
  saved : Option α

/-- What can be done with a slot. -/
inductive SlotOp
  | install
  | recover
  deriving DecidableEq

namespace Slot

variable {α : Type} {kit : Option α} {original : α}

/-- Copying and moving leave their target alone when there is no source. -/
def step (kit : Option α) (s : Slot α) : SlotOp → Slot α
  | .install => ⟨kit.or s.installed, s.installed.or s.saved⟩
  | .recover => ⟨s.saved.or s.installed, none⟩

/-- Every recovery of a run brings the original back. -/
def Recovers (kit : Option α) (original : α) (s : Slot α) (ops : List SlotOp) : Prop :=
  After (step kit) s ops fun op s => op = .recover → s.installed = some original

/-- Two installations in a row, and a recovery later. -/
def InstalledTwice (ops : List SlotOp) : Prop :=
  ∃ before after, ops = before ++ .install :: .install :: after ∧ .recover ∈ after

/-! ## Where the second installation stands -/

theorem installedTwice_recover_cons {ops : List SlotOp} :
    InstalledTwice (.recover :: ops) ↔ InstalledTwice ops := by
  constructor
  · intro ⟨before, after, shape, later⟩
    cases before with
    | nil => exact absurd (List.cons.inj shape).1 (by decide)
    | cons first before => exact ⟨before, after, (List.cons.inj shape).2, later⟩
  · intro ⟨before, after, shape, later⟩
    exact ⟨.recover :: before, after, congrArg _ shape, later⟩

theorem installedTwice_install_recover_cons {ops : List SlotOp} :
    InstalledTwice (.install :: .recover :: ops) ↔ InstalledTwice ops := by
  constructor
  · intro ⟨before, after, shape, later⟩
    cases before with
    | nil => exact absurd (List.cons.inj (List.cons.inj shape).2).1 (by decide)
    | cons first before =>
        exact installedTwice_recover_cons.mp ⟨before, after, (List.cons.inj shape).2, later⟩
  · intro ⟨before, after, shape, later⟩
    exact ⟨.install :: .recover :: before, after, by rw [shape]; rfl, later⟩

theorem installedTwice_install_install_cons {ops : List SlotOp} :
    InstalledTwice (.install :: .install :: ops) ↔ .recover ∈ ops := by
  constructor
  · intro ⟨before, after, shape, later⟩
    have kept : .recover ∈ (SlotOp.install :: .install :: ops) := by
      rw [shape]
      exact List.mem_append_right _ (List.mem_cons_of_mem _ (List.mem_cons_of_mem _ later))
    simpa using kept
  · intro later
    exact ⟨[], ops, rfl, later⟩

/-! ## The states of a slot -/

/-- Whatever is installed or saved is the original. -/
def Intact (original : α) (s : Slot α) : Prop :=
  s.installed = some original ∧ (s.saved = none ∨ s.saved = some original)

/-- A kit that is the original, or missing, does no harm. -/
theorem Intact.step {s : Slot α} (harmless : kit.getD original = original)
    (intact : Intact original s) (op : SlotOp) : Intact original (s.step kit op) := by
  obtain ⟨installed, saved⟩ := intact
  have same : kit.or (some original) = some original := by
    cases kit with
    | none => rfl
    | some content => exact congrArg some harmless
  cases op with
  | install =>
      refine ⟨?_, Or.inr ?_⟩
      · rw [Slot.step, installed, same]
      · rw [Slot.step, installed, Option.some_or]
  | recover =>
      refine ⟨?_, Or.inl rfl⟩
      rcases saved with missing | copied
      · rw [Slot.step, missing, Option.none_or, installed]
      · rw [Slot.step, copied, Option.some_or]

/-- The original is nowhere left: the next recovery installs the kit. -/
theorem recovers_lost {content : α} (other : content ≠ original) (ops : List SlotOp) :
    Recovers (some content) original ⟨some content, some content⟩ ops ↔ .recover ∉ ops := by
  induction ops with
  | nil => exact iff_of_true (after_nil _) List.not_mem_nil
  | cons op ops ih =>
      rw [Recovers, after_cons]
      cases op with
      | install =>
          refine (and_iff_right fun wrong => absurd wrong (by decide)).trans (ih.trans ?_)
          simp
      | recover =>
          refine iff_of_false (fun both => other ?_) (fun none => none List.mem_cons_self)
          exact Option.some.inj (both.1 rfl)

/-- With a kit that is not the original, from the untouched slot and from the slot
whose copy is the original. -/
theorem recovers_iff_not_installedTwice {content : α} (other : content ≠ original)
    (ops : List SlotOp) :
    (Recovers (some content) original ⟨some original, none⟩ ops ↔ ¬ InstalledTwice ops) ∧
      (Recovers (some content) original ⟨some content, some original⟩ ops ↔
        ¬ InstalledTwice (.install :: ops)) := by
  induction ops with
  | nil =>
      have short {op : List SlotOp} (few : op.length ≤ 1) : ¬ InstalledTwice op := by
        intro twice
        rcases twice with ⟨before, after, rfl, -⟩
        simp at few
        omega
      exact ⟨iff_of_true (after_nil _) (short (by simp)),
        iff_of_true (after_nil _) (short (by simp))⟩
  | cons op ops ih =>
      rw [Recovers, Recovers, after_cons, after_cons]
      cases op with
      | install =>
          refine ⟨(and_iff_right fun wrong => absurd wrong (by decide)).trans ih.2,
            (and_iff_right fun wrong => absurd wrong (by decide)).trans ?_⟩
          rw [installedTwice_install_install_cons]
          exact recovers_lost other ops
      | recover =>
          refine ⟨(and_iff_right fun _ => rfl).trans ?_, (and_iff_right fun _ => rfl).trans ?_⟩
          · rw [installedTwice_recover_cons]
            exact ih.1
          · rw [installedTwice_install_recover_cons]
            exact ih.1

/-- Every recovery brings the original back exactly when the kit is harmless or no
two installations in a row are followed by a recovery. -/
theorem recovers_iff (ops : List SlotOp) :
    Recovers kit original ⟨some original, none⟩ ops ↔
      kit.getD original = original ∨ ¬ InstalledTwice ops := by
  by_cases harmless : kit.getD original = original
  · refine iff_of_true ?_ (Or.inl harmless)
    have intact : Intact original ⟨some original, none⟩ := ⟨rfl, Or.inl rfl⟩
    exact (after_of_invariant (fun _ op kept => kept.step harmless op) intact).imp
      fun _ _ kept _ => kept.1
  · rw [or_iff_right harmless]
    cases kit with
    | none => exact absurd rfl harmless
    | some content => exact (recovers_iff_not_installedTwice harmless ops).1

end Slot

end StudyLinux
