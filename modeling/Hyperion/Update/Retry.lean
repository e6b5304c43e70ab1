import Hyperion.Update.Rollback
import Hyperion.Update.Signed

/-!
# Updates that were rolled back

With a memory behind the recovery service, a rollback on a breach is remembered: under the boundary of the
caller, with the subject and the version that the update was to, and only if the manifest names objects.
`apply_update` looks for a remembered rollback of the subject to the version, from whatever version. The
memory has a graph of its own here, which nothing but these calls writes.
-/

namespace Hyperion.Update
open Lib Capability Storage Hyperion.Graph Recovery Memory List UpdateSystem

/-- An update that was rolled back on a breach. -/
structure RolledBack where
  boundary : TrustBoundaryId
  subject : UpdateSubject
  fromVersion : Version
  toVersion : Version
deriving DecidableEq

/-- An update system, and the updates that were rolled back in it. -/
structure Learned (F V : Type) where
  system : UpdateSystem F V
  rolledBack : List RolledBack

/-- A call of `apply_update`, or of `apply_update_with_rollout` if it has a target. -/
structure Attempt (K : SignatureScheme) (F : Type) {V : Type} (C : Codec V) where
  call : ApplyCall K F C
  target : Option ImplId

section
variable {K : SignatureScheme} {F V : Type} {C : Codec V}

def Attempt.update (a : Attempt K F C) : RolledBack :=
  ⟨a.call.token.origin, a.call.manifest.subject, a.call.manifest.fromVersion, a.call.manifest.toVersion⟩

/-- A breach under this policy is answered only once the rollback has succeeded. -/
def Attempt.RollsBack (a : Attempt K F C) (result : Except UpdateError Version) : Prop :=
  result = .error .rolloutHealthBreach ∧ a.call.manifest.rolloutPolicy.autoRollbackOnBreach = true

instance (a : Attempt K F C) (result : Except UpdateError Version) : Decidable (a.RollsBack result) :=
  inferInstanceAs (Decidable (_ ∧ _))

def Learned.start (system : UpdateSystem F V) : Learned F V := ⟨system, []⟩

/-- The subject was rolled back from this version to that one. -/
def Attempt.WasRolledBack (w : Learned F V) (a : Attempt K F C) : Prop :=
  ∃ r ∈ w.rolledBack, r.subject = a.update.subject ∧ r.fromVersion = a.update.fromVersion ∧
    r.toVersion = a.update.toVersion

variable (S : Serde F V) (printable : Char → Bool) [F32 F] [Values V] [RecordValues F V]

def Learned.result (w : Learned F V) (a : Attempt K F C) : Except UpdateError Version × UpdateSystem F V :=
  w.system.applyUpdateInner S printable a.call a.target

def Learned.step (w : Learned F V) (a : Attempt K F C) : Learned F V where
  system := (w.result S printable a).2
  rolledBack :=
    if a.RollsBack (w.result S printable a).1 then w.rolledBack ++ [a.update] else w.rolledBack

/-- An update that was rolled back is refused for that and changes nothing, and no other is refused for it. -/
def NotRetried (w : Learned F V) (a : Attempt K F C) : Prop :=
  (a.WasRolledBack w → ∃ reason, w.result S printable a = (.error (.repeatedRecentRollback reason), w.system)) ∧
  ∀ reason, (w.result S printable a).1 = .error (.repeatedRecentRollback reason) → a.WasRolledBack w

def Attempt.memoryCaller (a : Attempt K F C) : Caller := ⟨a.call.monitor, a.call.token, a.call.memory.queryAt⟩

/-- An update gets as far as the memory, and the memory answers. -/
structure Admitted (s : UpdateSystem F V) (a : Attempt K F C) : Prop where
  caller : require ⟨a.call.monitor, a.call.token, a.call.requireAt⟩ .write = .ok ()
  signature : verifySignature printable a.call.manifest a.call.verifyingKey = true
  compatible : (s.orchestrator.compatibilityCheck a.call.manifest a.call.hardwareCompatible).isCompatible = true
  answered : Graph.require a.memoryCaller .read = .ok ()

/-- An update that rolls back on a breach names objects, and the memory takes a record of it; one that was
rolled back is tried again by a boundary for which it was, and gets as far as the memory; and what the
boundary saw rolled back is not tried from another version. -/
structure Careful (w : Learned F V) (a : Attempt K F C) : Prop where
  remembers : a.call.manifest.rolloutPolicy.autoRollbackOnBreach = true → a.call.manifest.touchedObjects ≠ [] ∧
    ∀ g, w.system.memory = some g →
      Takes g (⟨a.call.memory.write, a.call.monitor, a.call.token⟩ : Call C)
  again : a.WasRolledBack w → a.update ∈ w.rolledBack ∧ Admitted printable w.system a
  sameBase : ∀ r ∈ w.rolledBack, r.boundary = a.update.boundary → r.subject = a.update.subject →
    r.toVersion = a.update.toVersion → r.fromVersion = a.update.fromVersion

/-- A memory without procedural records. -/
def Blank (g : KnowledgeGraph F V) : Prop :=
  ∀ (id : NodeId) n, g.index.nodes[id]? = some n → n.objectType ≠ MemoryTier.procedural.asObjectType

end

/-! ## What is refused -/

section
variable {K : SignatureScheme} {F V : Type} {C : Codec V} {S : Serde F V} {printable : Char → Bool}
  {w : Learned F V} {a : Attempt K F C} {g : KnowledgeGraph F V}

theorem subjectKey_injective : Function.Injective (subjectKey printable) := by
  intro x y h
  exact (selfDelimiting_subjectDebug x y [] [] (congrArg (· ++ []) (String.ofList_injective h))).1

variable [F32 F] [Values V] [RecordValues F V]

/-- The memory tells the boundary of a rollback of the subject to the version. -/
def ToldOf (printable : Char → Bool) (g : KnowledgeGraph F V) (boundary : TrustBoundaryId) (subject : UpdateSubject)
    (version : Version) : Prop :=
  ∃ r, Told g boundary (subjectKey printable subject) r ∧
    (Values.get r.cause.detail "to_version").bind Values.asU64 = some version.val

theorem RolloutEffect.ne_repeated {s s' : UpdateSystem F V} {call : ApplyCall K F C}
    {result : Except UpdateError Version} (h : RolloutEffect S printable s call result s') (reason : String) :
    result ≠ .error (.repeatedRecentRollback reason) := by
  cases h with
  | rolledOut => exact nofun
  | stopped herr => rcases herr with rfl | ⟨rfl, -⟩ <;> exact nofun
  | rolledBack => exact nofun
  | notRolledBack _ _ hrollback =>
    cases hrollback with
    | refused herr => rcases herr with rfl | rfl <;> exact nofun
    | failed => exact nofun

theorem result_of_admitted (h : Admitted printable w.system a) (hmemory : w.system.memory = some g)
    (htold : ToldOf printable g a.update.boundary a.update.subject a.update.toVersion) :
    ∃ reason, w.result S printable a = (.error (.repeatedRecentRollback reason), w.system) := by
  obtain ⟨r, htold, hversion⟩ := htold
  obtain ⟨causes, hcauses⟩ : ∃ causes, rollbackCauses w.system.memory a.memoryCaller a.call.memory.order
      (subjectKey printable a.call.manifest.subject) = .ok causes := by
    rw [hmemory]
    simp [rollbackCauses, Memory.query, KnowledgeGraph.query, h.answered, bind, Except.bind, pure, Except.pure]
  have hmem : r ∈ causes.reverse := mem_reverse.mpr ((mem_rollbackCauses (hmemory ▸ hcauses) r).mpr htold)
  have hfound : (causes.reverse.find? fun r => decide ((Values.get r.cause.detail "to_version").bind Values.asU64 =
      some a.call.manifest.toVersion.val)).isSome := by
    rw [List.find?_isSome]
    exact ⟨_, hmem, decide_eq_true hversion⟩
  obtain ⟨previous, hprevious⟩ := Option.isSome_iff_exists.mp hfound
  refine ⟨previous.cause.reason, ?_⟩
  unfold Learned.result applyUpdateInner
  rw [Attempt.memoryCaller] at hcauses
  simp [h.caller, h.signature, h.compatible, hcauses, hprevious]

theorem told_of_result (hmemory : w.system.memory = some g) {reason : String}
    (h : (w.result S printable a).1 = .error (.repeatedRecentRollback reason)) :
    ToldOf printable g a.update.boundary a.update.subject a.update.toVersion := by
  unfold Learned.result applyUpdateInner at h
  split at h
  · next hrequire =>
    rw [require_eq_error hrequire] at h
    exact nomatch h
  · split at h
    · exact nomatch h
    · split at h
      · exact nomatch h
      · split at h
        · exact nomatch h
        · next causes hcauses =>
          split at h
          · next previous hprevious =>
            have hmem := mem_reverse.mp (mem_of_find?_eq_some hprevious)
            have hversion := List.find?_some hprevious
            exact ⟨previous, (mem_rollbackCauses (hmemory ▸ hcauses) previous).mp hmem,
              of_decide_eq_true hversion⟩
          · dsimp only at h
            split at h
            · exact nomatch h
            · exact absurd h ((rollout_effect (Nat.zero_add _) (.refl _) a.target).ne_repeated reason)

/-! ## What is remembered -/

theorem version_breachCause (call : ApplyCall K F C) (index : Nat) (stage : CohortStage) :
    (Values.get (breachCause call index stage).detail "to_version").bind Values.asU64 =
      some call.manifest.toVersion.val := by
  have hget : Values.get (breachCause call index stage).detail "to_version" =
      some (Values.u64 call.manifest.toVersion.val) := Values.get_object _ _ (by simp)
  rw [hget]
  exact Values.asU64_u64 _

omit [F32 F] [Values V] [RecordValues F V] in
theorem RollbackEffect.memory {s s' : UpdateSystem F V} {call : RollbackCall K F C}
    {result : Except UpdateError RollbackReceipt} (h : RollbackEffect S s call result s') :
    s'.memory = s.memory := by
  cases h <;> rfl

/-- Only a rollback on a breach writes to the memory. -/
theorem memory_of_not_rollsBack (h : ¬ a.RollsBack (w.result S printable a).1) :
    (w.result S printable a).2.memory = w.system.memory := by
  generalize hout : w.result S printable a = outcome at h ⊢
  obtain ⟨result, s'⟩ := outcome
  cases applyUpdateInner_effect hout with
  | refused _ hcarries => exact hcarries.memory
  | begun hbegins hrollout =>
    rw [← hbegins.memory]
    cases hrollout with
    | rolledOut _ hcarries hs' => exact hs' ▸ hcarries.memory
    | stopped _ _ hcarries => exact hcarries.memory
    | rolledBack hauto => exact absurd ⟨rfl, hauto⟩ h
    | notRolledBack _ hcarries hrollback => exact hrollback.memory.trans hcarries.memory

theorem memory_of_rollsBack (h : a.RollsBack (w.result S printable a).1)
    (htouched : a.call.manifest.touchedObjects ≠ []) : ∃ point index stage,
      (w.result S printable a).2.memory =
        rememberCause S w.system.memory ⟨a.call.memory.write, a.call.monitor, a.call.token⟩ a.call.memory.ts point
          (subjectKey printable a.call.manifest.subject) (breachCause a.call index stage) a.call.now := by
  obtain ⟨hbreach, hauto⟩ := h
  generalize hout : w.result S printable a = outcome at hbreach ⊢
  obtain ⟨result, s'⟩ := outcome
  cases hbreach
  cases applyUpdateInner_effect hout with
  | refused herr => exact absurd rfl herr
  | begun hbegins hrollout =>
    cases hrollout with
    | stopped herr =>
      rcases herr with herr | ⟨-, hnot⟩
      · cases herr
      · cases hnot.symm.trans hauto
    | @rolledBack _ _ _ _ index stage _ _ hcarries hrollback =>
      have hempty : a.call.manifest.touchedObjects.isEmpty = false := by simpa using htouched
      cases hrollback with
      | @succeeded point _ hpoint _ =>
        refine ⟨point, index, stage, ?_⟩
        rw [← hbegins.memory, ← hcarries.memory]
        simp only [remembered, hempty, Bool.false_eq_true, if_false]
        exact congrArg (Option.elim · _ _) hpoint
    | notRolledBack _ _ hrollback => exact absurd rfl hrollback.of_error.2.2.1

/-! ## Runs -/

/-- The memory tells of the rollbacks that happened, and of no others. -/
def Recalls (printable : Char → Bool) (w : Learned F V) : Prop :=
  ∃ g, w.system.memory = some g ∧ ∀ boundary subject version, ToldOf printable g boundary subject version ↔
    ∃ r ∈ w.rolledBack, r.boundary = boundary ∧ r.subject = subject ∧ r.toVersion = version

theorem Recalls.step (h : Recalls printable w) (hcareful : Careful printable w a) :
    Recalls printable (w.step S printable a) := by
  obtain ⟨g, hmemory, htold⟩ := h
  by_cases hrolls : a.RollsBack (w.result S printable a).1
  · obtain ⟨htouched, htakes⟩ := hcareful.remembers hrolls.2
    obtain ⟨point, index, stage, hafter⟩ := memory_of_rollsBack hrolls htouched
    obtain ⟨g', hg', htold'⟩ := told_rememberCause (S := S) (htakes g hmemory) a.call.memory.ts point
      (subjectKey printable a.call.manifest.subject) (breachCause a.call index stage) a.call.now
    rw [hmemory, hg'] at hafter
    refine ⟨g', hafter, fun boundary subject version => ?_⟩
    simp only [Learned.step, hrolls, if_true, mem_append, mem_singleton, or_and_right, exists_or, exists_eq_left,
      ← htold, ToldOf, htold']
    refine or_congr Iff.rfl ⟨?_, ?_⟩
    · rintro ⟨r, ⟨rfl, hsubject, rfl⟩, hversion⟩
      rw [version_breachCause] at hversion
      exact ⟨rfl, (subjectKey_injective hsubject).symm, Fin.ext (Option.some.inj hversion)⟩
    · rintro ⟨rfl, rfl, rfl⟩
      exact ⟨_, ⟨rfl, rfl, rfl⟩, version_breachCause ..⟩
  · refine ⟨g, (memory_of_not_rollsBack hrolls).trans hmemory, fun boundary subject version => ?_⟩
    simp only [Learned.step, hrolls, if_false]
    exact htold boundary subject version

theorem Recalls.notRetried (h : Recalls printable w) (hcareful : Careful printable w a) :
    NotRetried S printable w a := by
  obtain ⟨g, hmemory, htold⟩ := h
  constructor
  · intro hrolled
    obtain ⟨hmem, hadmitted⟩ := hcareful.again hrolled
    exact result_of_admitted hadmitted hmemory ((htold _ _ _).mpr ⟨_, hmem, rfl, rfl, rfl⟩)
  · intro reason hresult
    obtain ⟨r, hr, hboundary, hsubject, hversion⟩ := (htold _ _ _).mp (told_of_result hmemory hresult)
    exact ⟨r, hr, hsubject, hcareful.sameBase r hr hboundary hsubject hversion, hversion⟩

/-- **An update that was rolled back is not retried**, in every sequence of careful updates with a memory:
it is refused for that and changes nothing, and no other update is. -/
theorem rolled_back_not_retried (S : Serde F V) (printable : Char → Bool) (system : UpdateSystem F V)
    (memory : KnowledgeGraph F V) (hmemory : system.memory = some memory) (hblank : Blank memory)
    (attempts : List (Attempt K F C))
    (hcareful : Meets (Learned.step S printable) (Careful printable) (.start system) attempts) :
    Meets (Learned.step S printable) (NotRetried S printable) (.start system) attempts := by
  refine Meets.of_invariant (fun w a _ (h : Recalls printable w) hcareful => h.step hcareful)
    (fun w a _ h hcareful => h.notRetried hcareful) ⟨memory, hmemory, fun boundary subject version => ?_⟩ hcareful
  constructor
  · rintro ⟨r, ⟨id, n, m, hnode, hrecalled, -⟩, -⟩
    exact absurd hrecalled.objectType (hblank id n hnode)
  · rintro ⟨r, hr, -⟩
    exact absurd hr not_mem_nil

end

/-! ## Updates of a note -/

/-- An update by the keeper whose health is that crash rate. -/
def attemptOf (manifest : UpdateManifest .ledger Int) (crashRate : Int) : Attempt .ledger Int jsonSerde.plain :=
  ⟨sampleApply [manifest] manifest crashRate [], none⟩

def noteStep (w : Learned Int Json) (a : Attempt .ledger Int jsonSerde.plain) : Learned Int Json :=
  w.step jsonRecord (fun _ => true) a

def noteSystem : Learned Int Json := .start ⟨.new, .new, zeroNote, fun _ => none, some .empty⟩

theorem blank_empty : Blank (.empty : KnowledgeGraph Int Json) := fun _ _ hnode => nomatch hnode

def noteUpdate (fromVersion toVersion : Version) : RolledBack := ⟨7, .capability "notes", fromVersion, toVersion⟩

def breachingUpdate : Attempt .ledger Int jsonSerde.plain := attemptOf (sampleManifest 0 1 [0]) 9

def breachedNote : Learned Int Json := noteStep noteSystem breachingUpdate

theorem takes_keeper {g : KnowledgeGraph Int Json}
    (hunused : g.storage.inner.versionPointer[(g.storage.inner.allocate none).1]?.isNone = true)
    (hfresh : g.index.nodes[(g.storage.inner.allocate none).1]?.isNone = true) :
    Takes g (sampleCall .all false) :=
  ⟨by decide +kernel, by decide +kernel, rfl, Option.isNone_iff_eq_none.mp hunused,
    Option.isNone_iff_eq_none.mp hfresh⟩

theorem rolled_back_not_retried_note : ∃ reason,
    breachedNote.result jsonRecord (fun _ => true) breachingUpdate =
      (.error (.repeatedRecentRollback reason), breachedNote.system) := by
  have hrolled : breachedNote.rolledBack = [noteUpdate 0 1] := by decide +kernel
  have hmemory : breachedNote.system.memory.all (fun g =>
      g.storage.inner.versionPointer[(g.storage.inner.allocate none).1]?.isNone &&
        g.index.nodes[(g.storage.inner.allocate none).1]?.isNone) = true := by decide +kernel
  have hcareful : Meets noteStep (Careful fun _ => true) noteSystem [breachingUpdate, breachingUpdate] := by
    refine ⟨⟨fun _ => ⟨by decide, ?_⟩, ?_, ?_⟩, ⟨fun _ => ⟨by decide, ?_⟩, fun _ => ⟨?_, ?_⟩, ?_⟩, trivial⟩
    · rintro g ⟨⟩
      exact takes_keeper (by decide +kernel) (by decide +kernel)
    · rintro ⟨r, hr, -⟩
      exact absurd hr not_mem_nil
    · exact fun r hr => absurd hr not_mem_nil
    · intro g (hg : breachedNote.system.memory = some g)
      rw [hg, Option.all_some, Bool.and_eq_true] at hmemory
      exact takes_keeper hmemory.1 hmemory.2
    · exact hrolled ▸ by decide +kernel
    · exact ⟨by decide +kernel, by decide +kernel, by decide +kernel, by decide +kernel⟩
    · intro r hr _ _ _
      have hone : r = noteUpdate 0 1 := mem_singleton.mp (hrolled.subst (motive := (r ∈ ·)) hr)
      rw [hone]
      rfl
  have hmeets := rolled_back_not_retried jsonRecord (fun _ => true) noteSystem.system .empty rfl blank_empty
    [breachingUpdate, breachingUpdate] hcareful
  exact hmeets.2.1.1 ⟨noteUpdate 0 1, hrolled ▸ mem_singleton_self _, rfl, rfl, rfl⟩

/-- **An update without objects is retried; and after one to version 2 was rolled back from version 0, one
from version 1 is refused.** -/
theorem rolled_back_retried :
    noteSystem.system.memory = some .empty ∧ Blank (.empty : KnowledgeGraph Int Json) ∧
    ¬ Meets noteStep (NotRetried jsonRecord fun _ => true) noteSystem
      [attemptOf (sampleManifest 0 1 []) 9, attemptOf (sampleManifest 0 1 []) 9] ∧
    ¬ Meets noteStep (NotRetried jsonRecord fun _ => true) noteSystem
      [attemptOf (sampleManifest 0 2 [0]) 9, attemptOf (sampleManifest 0 1 [0]) 0,
        attemptOf (sampleManifest 1 2 [0]) 0] := by
  refine ⟨rfl, blank_empty, ?_, ?_⟩
  · let w := noteStep noteSystem (attemptOf (sampleManifest 0 1 []) 9)
    have hrolled : w.rolledBack = [noteUpdate 0 1] := by decide +kernel
    have hresult : (w.result jsonRecord (fun _ => true) (attemptOf (sampleManifest 0 1 []) 9)).1 =
        .error .rolloutHealthBreach := by decide +kernel
    rintro ⟨-, hagain, -⟩
    obtain ⟨reason, hrefused⟩ := hagain.1 ⟨_, hrolled ▸ mem_singleton_self _, rfl, rfl, rfl⟩
    exact nomatch hresult.symm.trans (congrArg Prod.fst hrefused)
  · let w := noteStep (noteStep noteSystem (attemptOf (sampleManifest 0 2 [0]) 9))
      (attemptOf (sampleManifest 0 1 [0]) 0)
    have hrolled : w.rolledBack = [noteUpdate 0 2] := by decide +kernel
    have hresult : (w.result jsonRecord (fun _ => true) (attemptOf (sampleManifest 1 2 [0]) 0)).1 =
        .error (.repeatedRecentRollback "rollout health breach at stage 0 (100% of the fleet)") := by
      decide +kernel
    rintro ⟨-, -, hother, -⟩
    obtain ⟨r, hr, -, hfrom, -⟩ := hother.2 _ hresult
    have hone : r = noteUpdate 0 2 := mem_singleton.mp (hrolled.subst (motive := (r ∈ ·)) hr)
    rw [hone] at hfrom
    exact absurd hfrom (by decide)

end Hyperion.Update
