import Hyperion.Lib.Run
import Hyperion.Update.Types

/-!
# The A/B system image

`SystemImageController` of `hyperion-update`: two slots, the one that is active and the highest version
that the normal path has staged. The array of slots is only read and written by slot name, so it is a
function here. A `Watched` controller keeps beside it which slots hold an image on trial (staged, and
not committed since) and every version ever staged.
-/

namespace Hyperion.Update
open Lib Function

def defaultBootAttempts : Nat := 3

def other : SystemImageSlotName → SystemImageSlotName
  | .a => .b
  | .b => .a

theorem other_ne (name : SystemImageSlotName) : other name ≠ name := by
  cases name <;> decide

structure SystemImageController where
  slots : SystemImageSlotName → SystemImageSlot
  active : SystemImageSlotName
  highestVersionEver : Version

namespace SystemImageController

def new (initialVersion : Version) : SystemImageController where
  slots
    | .a => ⟨.a, initialVersion, defaultBootAttempts, true⟩
    | .b => ⟨.b, 0, 0, false⟩
  active := .a
  highestVersionEver := initialVersion

variable (c : SystemImageController)

def activeSlot : SystemImageSlot := c.slots c.active

def stageUnchecked (version : Version) : SystemImageSlotName × SystemImageController :=
  let inactive := other c.active
  let slot := { c.slots inactive with
    version := version
    bootAttemptsRemaining := defaultBootAttempts
    committed := false }
  (inactive, { c with slots := Function.update c.slots inactive slot })

def stageToInactiveSlot (version : Version) :
    Except UpdateError SystemImageSlotName × SystemImageController :=
  if version ≤ c.highestVersionEver then
    (.error (.antiRollbackViolation version c.highestVersionEver), c)
  else
    let (name, c) := stageUnchecked { c with highestVersionEver := version } version
    (.ok name, c)

def stageRollbackToInactiveSlot (version : Version) :
    SystemImageSlotName × SystemImageController := c.stageUnchecked version

def attemptBoot (name : SystemImageSlotName) : Except UpdateError Unit × SystemImageController :=
  if (c.slots name).bootAttemptsRemaining = 0 then (.error .bootAttemptsExhausted, c)
  else
    let slot := { c.slots name with bootAttemptsRemaining := (c.slots name).bootAttemptsRemaining - 1 }
    (.ok (), { c with slots := Function.update c.slots name slot })

def commit (name : SystemImageSlotName) : SystemImageController :=
  { c with
    slots := Function.update c.slots name { c.slots name with committed := true }
    active := name }

end SystemImageController

/-! ## Sequences of calls -/

inductive ImageCall
  | stageToInactiveSlot (version : Version)
  | stageRollbackToInactiveSlot (version : Version)
  | attemptBoot (name : SystemImageSlotName)
  | commit (name : SystemImageSlotName)
deriving DecidableEq, Repr

/-- Whether a slot holds an image that was staged and has not been committed since, and how often it has been
tried to boot it. -/
inductive Trial
  | none
  | staged (boots : Nat)
deriving DecidableEq, Repr

def Trial.booted : Trial → Trial
  | .none => .none
  | .staged boots => .staged (boots + 1)

/-- An image is staged, and the boot attempts are not exhausted. -/
def Trial.Bootable : Trial → Prop
  | .none => False
  | .staged boots => boots ≤ defaultBootAttempts

instance : DecidablePred Trial.Bootable
  | .none => inferInstanceAs (Decidable False)
  | .staged _ => inferInstanceAs (Decidable (_ ≤ _))

structure Watched where
  controller : SystemImageController
  trial : SystemImageSlotName → Trial
  staged : List Version

namespace Watched

def new (initialVersion : Version) : Watched := ⟨.new initialVersion, fun _ => .none, []⟩

def stagedInto (w : Watched) (name : SystemImageSlotName) (version : Version)
    (c : SystemImageController) : Watched :=
  ⟨c, Function.update w.trial name (.staged 0), version :: w.staged⟩

def exec (w : Watched) : ImageCall → Watched
  | .stageToInactiveSlot version =>
    match w.controller.stageToInactiveSlot version with
    | (.ok name, c) => w.stagedInto name version c
    | (.error _, c) => { w with controller := c }
  | .stageRollbackToInactiveSlot version =>
    let (name, c) := w.controller.stageRollbackToInactiveSlot version
    w.stagedInto name version c
  | .attemptBoot name =>
    { w with
      controller := (w.controller.attemptBoot name).2
      trial := Function.update w.trial name (w.trial name).booted }
  | .commit name =>
    { w with controller := w.controller.commit name, trial := Function.update w.trial name .none }

end Watched

/-- `commit` names the active slot, or one that holds a staged image whose boot attempts are not exhausted. -/
def CommitsTrial (w : Watched) (call : ImageCall) : Prop :=
  ∀ name, call = .commit name → name = w.controller.active ∨ (w.trial name).Bootable

/-- The explicit rollback path is used for versions that the normal path has already seen. -/
def RollsBackward (w : Watched) (call : ImageCall) : Prop :=
  ∀ version, call = .stageRollbackToInactiveSlot version → version ≤ w.controller.highestVersionEver

def ImageCall.stages : ImageCall → Bool
  | .stageToInactiveSlot _ | .stageRollbackToInactiveSlot _ => true
  | .attemptBoot _ | .commit _ => false

/-- The version of the active slot does not decrease, a slot that becomes active holds a staged image
whose boot attempts are not exhausted, and staging leaves the active slot as it is. -/
structure Forward (w : Watched) (call : ImageCall) : Prop where
  version_le : w.controller.activeSlot.version ≤ (w.exec call).controller.activeSlot.version
  activates : (w.exec call).controller.active ≠ w.controller.active →
    (w.trial (w.exec call).controller.active).Bootable
  staging : call.stages = true → (w.exec call).controller.activeSlot = w.controller.activeSlot

/-- The high-water mark does not decrease and is at least every version ever staged. -/
structure Marked (w : Watched) (call : ImageCall) : Prop where
  mark_le : w.controller.highestVersionEver ≤ (w.exec call).controller.highestVersionEver
  staged_le : ∀ version ∈ (w.exec call).staged, version ≤ (w.exec call).controller.highestVersionEver

/-! ## Single calls -/

section
variable {w : Watched} {version initialVersion : Version} {name : SystemImageSlotName}
  {calls : List ImageCall}

theorem eq_active_or_eq_other (name active : SystemImageSlotName) : name = active ∨ name = other active := by
  cases name <;> cases active <;> decide

theorem exec_stage_of_le (h : version ≤ w.controller.highestVersionEver) :
    w.exec (.stageToInactiveSlot version) = w := by
  simp [Watched.exec, SystemImageController.stageToInactiveSlot, h]

theorem exec_stage_of_lt (h : w.controller.highestVersionEver < version) :
    w.exec (.stageToInactiveSlot version) =
      Watched.exec { w with controller := { w.controller with highestVersionEver := version } }
        (.stageRollbackToInactiveSlot version) := by
  simp [Watched.exec, SystemImageController.stageToInactiveSlot,
    SystemImageController.stageRollbackToInactiveSlot, not_le.mpr h, Watched.stagedInto]

theorem activeSlot_rollback :
    (w.exec (.stageRollbackToInactiveSlot version)).controller.activeSlot = w.controller.activeSlot :=
  update_of_ne (other_ne _).symm _ _

theorem trial_active_rollback : (w.exec (.stageRollbackToInactiveSlot version)).trial w.controller.active =
    w.trial w.controller.active :=
  update_of_ne (other_ne _).symm _ _

theorem version_other_rollback : ((w.exec (.stageRollbackToInactiveSlot version)).controller.slots
    (other w.controller.active)).version = version := by
  simp [Watched.exec, SystemImageController.stageRollbackToInactiveSlot,
    SystemImageController.stageUnchecked, Watched.stagedInto]

theorem version_attemptBoot (at_ : SystemImageSlotName) :
    ((w.exec (.attemptBoot name)).controller.slots at_).version = (w.controller.slots at_).version := by
  by_cases hzero : (w.controller.slots name).bootAttemptsRemaining = 0
  · simp [Watched.exec, SystemImageController.attemptBoot, hzero]
  · rcases eq_or_ne at_ name with rfl | hne
    · simp [Watched.exec, SystemImageController.attemptBoot, hzero]
    · simp [Watched.exec, SystemImageController.attemptBoot, hzero, hne]

theorem active_attemptBoot : (w.exec (.attemptBoot name)).controller.active = w.controller.active ∧
      (w.exec (.attemptBoot name)).controller.highestVersionEver = w.controller.highestVersionEver := by
  by_cases hzero : (w.controller.slots name).bootAttemptsRemaining = 0 <;>
    simp [Watched.exec, SystemImageController.attemptBoot, hzero]

theorem trial_attemptBoot {at_ : SystemImageSlotName} :
    (w.exec (.attemptBoot name)).trial at_ = .none ↔ w.trial at_ = .none := by
  rcases eq_or_ne at_ name with rfl | hne
  · cases htrial : w.trial at_ <;> simp [Watched.exec, Trial.booted, htrial]
  · simp [Watched.exec, hne]

theorem version_commit (at_ : SystemImageSlotName) :
    ((w.exec (.commit name)).controller.slots at_).version = (w.controller.slots at_).version := by
  rcases eq_or_ne at_ name with rfl | hne
  · simp [Watched.exec, SystemImageController.commit]
  · simp [Watched.exec, SystemImageController.commit, hne]

/-! ## The normal path -/

/-- What holds while the rollback path is not used: the active image is not newer than the high-water
mark, and an image on trial lies between the two. -/
structure Ahead (w : Watched) : Prop where
  active_le : w.controller.activeSlot.version ≤ w.controller.highestVersionEver
  trial_active : w.trial w.controller.active = .none
  trial_between : ∀ name, w.trial name ≠ .none →
    w.controller.activeSlot.version ≤ (w.controller.slots name).version ∧
      (w.controller.slots name).version ≤ w.controller.highestVersionEver

theorem ahead_new (initialVersion : Version) : Ahead (.new initialVersion) :=
  ⟨le_rfl, rfl, fun _ h => absurd rfl h⟩

theorem Ahead.stageToInactiveSlot (h : Ahead w) (version : Version) :
    Ahead (w.exec (.stageToInactiveSlot version)) := by
  rcases le_or_gt version w.controller.highestVersionEver with hle | hlt
  · rwa [exec_stage_of_le hle]
  · rw [exec_stage_of_lt hlt]
    refine ⟨?_, ?_, fun name htrial => ?_⟩
    · rw [activeSlot_rollback]
      exact h.active_le.trans hlt.le
    · exact trial_active_rollback.trans h.trial_active
    · rcases eq_active_or_eq_other name w.controller.active with rfl | rfl
      · rw [trial_active_rollback] at htrial
        exact absurd h.trial_active htrial
      · rw [activeSlot_rollback, version_other_rollback]
        exact ⟨h.active_le.trans hlt.le, le_rfl⟩

theorem Ahead.attemptBoot (h : Ahead w) (name : SystemImageSlotName) : Ahead (w.exec (.attemptBoot name)) := by
  obtain ⟨hactive, hmark⟩ := @active_attemptBoot w name
  have hversion : (w.exec (.attemptBoot name)).controller.activeSlot.version =
      w.controller.activeSlot.version := by
    rw [SystemImageController.activeSlot, version_attemptBoot, hactive, SystemImageController.activeSlot]
  refine ⟨?_, ?_, fun at_ htrial => ?_⟩
  · rw [hversion, hmark]
    exact h.active_le
  · rw [hactive]
    exact trial_attemptBoot.mpr h.trial_active
  · rw [hversion, version_attemptBoot, hmark]
    exact h.trial_between at_ fun hnone => htrial (trial_attemptBoot.mpr hnone)

theorem Trial.Bootable.ne_none {t : Trial} (h : t.Bootable) : t ≠ .none := by
  rintro rfl
  exact h

theorem Ahead.commit (h : Ahead w) (hcommits : CommitsTrial w (.commit name)) :
    Ahead (w.exec (.commit name)) ∧
      w.controller.activeSlot.version ≤ (w.exec (.commit name)).controller.activeSlot.version := by
  have hversion : (w.exec (.commit name)).controller.activeSlot.version = (w.controller.slots name).version :=
    version_commit name
  have hbetween : w.controller.activeSlot.version ≤ (w.controller.slots name).version ∧
      (w.controller.slots name).version ≤ w.controller.highestVersionEver := by
    rcases hcommits name rfl with rfl | htrial
    · exact ⟨le_rfl, h.active_le⟩
    · exact h.trial_between name htrial.ne_none
  refine ⟨⟨hversion.trans_le hbetween.2, update_self _ _ _, fun at_ htrial => ?_⟩,
    hbetween.1.trans_eq hversion.symm⟩
  rcases eq_or_ne at_ name with rfl | hne
  · exact absurd (update_self _ _ _) htrial
  · have hat : w.trial at_ ≠ .none := fun hnone => htrial ((update_of_ne hne _ _).trans hnone)
    rcases hcommits name rfl with rfl | htried
    · rw [hversion, version_commit]
      exact h.trial_between at_ hat
    · -- the slot committed was on trial, so the other one was active
      have hactive : at_ = w.controller.active := by
        rcases eq_active_or_eq_other name w.controller.active with rfl | rfl
        · exact absurd h.trial_active htried.ne_none
        · exact (eq_active_or_eq_other at_ w.controller.active).resolve_right hne
      exact absurd (hactive ▸ h.trial_active) hat

/-- The call does not use the rollback path. -/
def ImageCall.IsNormal (call : ImageCall) : Prop := ∀ version, call ≠ .stageRollbackToInactiveSlot version

variable {call : ImageCall}

theorem Ahead.exec (h : Ahead w) (hnormal : call.IsNormal)
    (hcommits : CommitsTrial w call) : Ahead (w.exec call) := by
  cases call with
  | stageToInactiveSlot version => exact h.stageToInactiveSlot version
  | stageRollbackToInactiveSlot version => exact absurd rfl (hnormal version)
  | attemptBoot name => exact h.attemptBoot name
  | commit name => exact (h.commit hcommits).1

theorem Ahead.forward (h : Ahead w) (hnormal : call.IsNormal)
    (hcommits : CommitsTrial w call) : Forward w call := by
  cases call with
  | stageToInactiveSlot version =>
    rcases le_or_gt version w.controller.highestVersionEver with hle | hlt
    · refine ⟨?_, ?_, ?_⟩ <;> rw [exec_stage_of_le hle]
      · exact fun hne => absurd rfl hne
      · exact fun _ => rfl
    · refine ⟨?_, ?_, ?_⟩ <;> rw [exec_stage_of_lt hlt]
      · rw [activeSlot_rollback]
        exact le_rfl
      · exact fun hne => absurd rfl hne
      · exact fun _ => activeSlot_rollback
  | stageRollbackToInactiveSlot version => exact absurd rfl (hnormal version)
  | attemptBoot name =>
    obtain ⟨hactive, -⟩ := @active_attemptBoot w name
    refine ⟨?_, fun hne => absurd hactive hne, fun hstages => Bool.noConfusion hstages⟩
    rw [SystemImageController.activeSlot, SystemImageController.activeSlot, version_attemptBoot, hactive]
  | commit name =>
    refine ⟨(h.commit hcommits).2, fun hne => ?_, fun hstages => Bool.noConfusion hstages⟩
    exact (hcommits name rfl).resolve_left hne

theorem Forward.commitsTrial (h : Forward w call) : CommitsTrial w call := by
  rintro name rfl
  exact or_iff_not_imp_left.mpr h.activates

/-! ## The high-water mark -/

/-- The high-water mark is at least every version ever staged. -/
def MarkBounds (w : Watched) : Prop := ∀ version ∈ w.staged, version ≤ w.controller.highestVersionEver

theorem MarkBounds.marked_iff (h : MarkBounds w) :
    Marked w call ↔ RollsBackward w call := by
  constructor
  · rintro hmarked version rfl
    exact hmarked.staged_le version List.mem_cons_self
  · intro hbackward
    cases call with
    | stageToInactiveSlot version =>
      rcases le_or_gt version w.controller.highestVersionEver with hle | hlt
      · refine ⟨?_, ?_⟩ <;> rw [exec_stage_of_le hle]
        exact h
      · refine ⟨?_, ?_⟩ <;> rw [exec_stage_of_lt hlt]
        · exact hlt.le
        · intro v hv
          rcases List.mem_cons.mp hv with rfl | hv
          · exact le_rfl
          · exact (h v hv).trans hlt.le
    | stageRollbackToInactiveSlot version =>
      refine ⟨le_rfl, fun v hv => ?_⟩
      rcases List.mem_cons.mp hv with rfl | hv
      · exact hbackward _ rfl
      · exact h v hv
    | attemptBoot name =>
      obtain ⟨-, hmark⟩ := @active_attemptBoot w name
      refine ⟨hmark.ge, ?_⟩
      rw [hmark]
      exact h
    | commit name => exact ⟨le_rfl, h⟩

/-! ## Anti-rollback -/

/-- **Anti-rollback of the system image.** Without the rollback path, the active version never
decreases, only staged images with boot attempts left become active and staging never alters the active
slot, exactly if every `commit` names the active slot or an image on trial. With or without it, the
high-water mark is monotone and bounds every version ever staged exactly if the rollback path is only
given versions up to the mark. -/
theorem image_antirollback_iff (initialVersion : Version) (calls : List ImageCall) :
    ((∀ call ∈ calls, call.IsNormal) →
      (Meets Watched.exec Forward (.new initialVersion) calls ↔
        Meets Watched.exec CommitsTrial (.new initialVersion) calls)) ∧
    (Meets Watched.exec Marked (.new initialVersion) calls ↔
      Meets Watched.exec RollsBackward (.new initialVersion) calls) := by
  refine ⟨fun hnormal => ?_, ?_⟩
  · refine (meets_congr ?_ ?_ (ahead_new initialVersion)).symm
    · exact fun w call hcall h hcommits => h.exec (hnormal call hcall) hcommits
    · exact fun w call hcall h => ⟨h.forward (hnormal call hcall), Forward.commitsTrial⟩
  · refine meets_congr ?_ ?_ (show MarkBounds (.new initialVersion) from fun _ h => nomatch h)
    · exact fun w call _ _ hmarked => hmarked.staged_le
    · exact fun w call _ h => h.marked_iff

/-- An update that is staged, booted and committed. -/
theorem image_antirollback_update :
    Meets Watched.exec Forward (.new 1) [.stageToInactiveSlot 2, .attemptBoot .b, .commit .b] ∧
      Meets Watched.exec Marked (.new 1) [.stageToInactiveSlot 2, .attemptBoot .b, .commit .b] := by
  have h := image_antirollback_iff 1 [.stageToInactiveSlot 2, .attemptBoot .b, .commit .b]
  refine ⟨(h.1 ?_).mpr ?_, h.2.mpr ?_⟩
  · simp [ImageCall.IsNormal]
  · refine ⟨(fun _ hno => nomatch hno), (fun _ hno => nomatch hno), ?_, trivial⟩
    rintro name ⟨⟩
    exact .inr (by decide)
  · exact ⟨(fun _ hno => nomatch hno), (fun _ hno => nomatch hno), (fun _ hno => nomatch hno), trivial⟩

/-- `commit` takes any slot: one that was never staged, and the previous one, whose version is lower;
and the rollback path takes a version above the mark without raising it. -/
theorem image_rolls_back :
    ¬ Meets Watched.exec Forward (.new 1) [.commit .b] ∧
      ¬ Meets Watched.exec Forward (.new 1)
        [.stageToInactiveSlot 2, .attemptBoot .b, .commit .b, .commit .a] ∧
      ¬ Meets Watched.exec Marked (.new 1) [.stageRollbackToInactiveSlot 5] := by
  refine ⟨fun h => ?_, fun h => ?_, fun h => ?_⟩
  · exact absurd h.1.version_le (by decide)
  · exact absurd h.2.2.2.1.version_le (by decide)
  · exact absurd (h.1.staged_le 5 List.mem_cons_self) (by decide)

end

end Hyperion.Update
