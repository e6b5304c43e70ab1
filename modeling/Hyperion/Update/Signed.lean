import Hyperion.Update.Orchestrator

/-!
# What is signed and what is applied

The bytes that a signature covers determine the subject, the versions and the touched objects of a
manifest, but say nothing of its rollout policy: whoever hands over a signed manifest chooses the stages,
the thresholds and whether a breach is rolled back.
-/

namespace Hyperion.Update
open Lib Capability Storage Hyperion.Graph Recovery Memory List

structure Covered where
  subject : UpdateSubject
  fromVersion : Version
  toVersion : Version
  touchedObjects : List (Fin (2 ^ 64))
deriving DecidableEq, Repr

/-! ## The encoding -/

section
variable {printable : Char → Bool}

theorem subjectDebug_head (subject : UpdateSubject) (rest : List Char) :
    (subjectDebug printable subject ++ rest).head? = some
      (match subject with
        | .systemImage => 'S'
        | .capability _ => 'C'
        | .model _ => 'M') := by
  cases subject <;> rfl

theorem namedText_append_inj {before after : List Char} {x y : String} {s t : List Char}
    (h : before ++ debugStr printable x ++ after ++ s = before ++ debugStr printable y ++ after ++ t) :
    x = y ∧ s = t := by
  simp only [append_assoc] at h
  obtain ⟨rfl, hrest⟩ := selfDelimiting_debugStr x y _ _ (append_cancel_left h)
  exact ⟨rfl, append_cancel_left hrest⟩

theorem selfDelimiting_subjectDebug : SelfDelimiting (subjectDebug printable) := by
  intro a b s t h
  have hhead := congrArg List.head? h
  rw [subjectDebug_head, subjectDebug_head, Option.some.injEq] at hhead
  cases a <;> cases b
  case systemImage.systemImage => exact ⟨rfl, append_cancel_left h⟩
  case capability.capability x y =>
    obtain ⟨rfl, hst⟩ := namedText_append_inj h
    exact ⟨rfl, hst⟩
  case model.model x y =>
    obtain ⟨rfl, hst⟩ := namedText_append_inj h
    exact ⟨rfl, hst⟩
  all_goals simp at hhead

theorem selfDelimiting_toLeBytes {width bound : Nat} (hbound : bound ≤ 256 ^ width) :
    SelfDelimiting fun n : Fin bound => toLeBytes width n := by
  refine .of_length width (fun n => length_toLeBytes width n) ?_
  intro n m h
  have hmod := mod_eq_of_toLeBytes_eq h
  rw [Nat.mod_eq_of_lt (n.isLt.trans_le hbound), Nat.mod_eq_of_lt (m.isLt.trans_le hbound)] at hmod
  exact Fin.ext hmod

variable {K : SignatureScheme} {F : Type}

def UpdateManifest.covered (m : UpdateManifest K F) : Covered :=
  ⟨m.subject, m.fromVersion, m.toVersion, m.touchedObjects⟩

theorem canonicalBytes_inj {m m' : UpdateManifest K F}
    (h : canonicalBytes printable m = canonicalBytes printable m') : m.covered = m'.covered := by
  have hversion := selfDelimiting_toLeBytes (show 2 ^ 32 ≤ 256 ^ 4 by decide)
  have hobject := selfDelimiting_toLeBytes (show 2 ^ 64 ≤ 256 ^ 8 by decide)
  have hobjects := hobject.flatMap_injective fun n hnil => by
    simpa [length_toLeBytes] using congrArg List.length hnil
  simp only [canonicalBytes, append_assoc] at h
  obtain ⟨hsubject, h⟩ := selfDelimiting_subjectDebug.utf8 _ _ _ _ h
  obtain ⟨hfrom, h⟩ := hversion _ _ _ _ h
  obtain ⟨hto, h⟩ := hversion _ _ _ _ h
  rw [UpdateManifest.covered, UpdateManifest.covered, hsubject, hfrom, hto, hobjects h]

theorem covered_of_verifySignature {key : K.VerifyingKey} {signed : UpdateManifest K F → Prop}
    (hsigns : K.SignsOnly key (canonicalBytes printable) signed)
    {m : UpdateManifest K F} (h : verifySignature printable m key = true) :
    ∃ m', signed m' ∧ m'.covered = m.covered := by
  unfold verifySignature at h
  split at h
  · next signature _ =>
    obtain ⟨m', hsigned, htext⟩ := hsigns _ _ h
    exact ⟨m', hsigned, (canonicalBytes_inj htext).symm⟩
  · cases h

end

/-! ## Accepted manifests -/

section
variable {K : SignatureScheme} {F V : Type} {C : Codec V} (S : Serde F V) [F32 F] [Values V] [RecordValues F V]
  (printable : Char → Bool)

/-- A call is not turned away for its caller or for its signature. -/
def Accepted (s : UpdateSystem F V) (call : ApplyCall K F C) (rolloutTarget : Option ImplId) : Prop :=
  s.applyUpdateInner S printable call rolloutTarget ≠ (.error .unauthorized, s) ∧
    s.applyUpdateInner S printable call rolloutTarget ≠ (.error .signatureInvalid, s)

/-- The fields of two manifests that a rollout reads are the same. -/
def SameRollout (m m' : UpdateManifest K F) : Prop :=
  m.covered = m'.covered ∧ m.rolloutPolicy = m'.rolloutPolicy

variable {S printable}

theorem Accepted.verifySignature {s : UpdateSystem F V} {call : ApplyCall K F C}
    {rolloutTarget : Option ImplId} (h : Accepted S printable s call rolloutTarget) :
    verifySignature printable call.manifest call.verifyingKey = true := by
  by_contra hinvalid
  rw [Bool.not_eq_true] at hinvalid
  cases hcaller : require ⟨call.monitor, call.token, call.requireAt⟩ .write with
  | error err =>
    refine h.1 ?_
    have herr : err = .unauthorized := by
      unfold require at hcaller
      split at hcaller <;> cases hcaller
      rfl
    rw [UpdateSystem.applyUpdateInner, hcaller, herr]
  | ok _ =>
    refine h.2 ?_
    rw [UpdateSystem.applyUpdateInner, hcaller]
    simp [hinvalid]

/-- **What is signed is what is applied, as far as the signature covers it**: an accepted manifest has the
subject, the versions and the objects of a signed one. If the key holder gives policies by a rule from
these, it is a signed manifest altogether exactly if its policy is the one of the rule. The call is
`apply_update` without a rollout target, and `apply_update_with_rollout` with one. -/
theorem accepted_is_signed_iff (key : K.VerifyingKey) (signed : UpdateManifest K F → Prop)
    (hsigns : K.SignsOnly key (canonicalBytes printable) signed)
    (rule : Covered → RolloutPolicy F) (hrule : ∀ m, signed m → m.rolloutPolicy = rule m.covered)
    (s : UpdateSystem F V) (call : ApplyCall K F C) (rolloutTarget : Option ImplId)
    (hkey : call.verifyingKey = key) (haccepted : Accepted S printable s call rolloutTarget) :
    (∃ m, signed m ∧ m.covered = call.manifest.covered) ∧
      ((∃ m, signed m ∧ SameRollout m call.manifest) ↔
        call.manifest.rolloutPolicy = rule call.manifest.covered) := by
  obtain ⟨m, hsigned, hcovered⟩ := covered_of_verifySignature hsigns (hkey ▸ haccepted.verifySignature)
  refine ⟨⟨m, hsigned, hcovered⟩, ?_, ?_⟩
  · rintro ⟨m', hsigned', hcovered', hpolicy⟩
    rw [← hpolicy, hrule m' hsigned', hcovered']
  · intro hpolicy
    exact ⟨m, hsigned, hcovered, by rw [hrule m hsigned, hcovered, hpolicy]⟩

end

/-! ## Samples -/

def signedNotes : UpdateManifest .ledger Int := sampleManifest 0 1 []

def unwatchedNotes : UpdateManifest .ledger Int := { signedNotes with rolloutPolicy := ⟨[], ⟨1, 500⟩, false⟩ }

def emptySystem : UpdateSystem Int Json := ⟨.new, .new, .empty, fun _ => none, none⟩

theorem signsOnly_signedNotes :
    SignatureScheme.ledger.SignsOnly (sampleApply [signedNotes] signedNotes 0 []).verifyingKey
      (canonicalBytes fun _ => true) (· ∈ [signedNotes]) :=
  SignatureScheme.signsOnly_ledger _ _

theorem accepted_of_ok {call : ApplyCall .ledger Int jsonSerde.plain} (version : Version)
    (h : (emptySystem.applyUpdate jsonRecord (fun _ => true) call).1 = .ok version) :
    Accepted jsonRecord (fun _ => true) emptySystem call none := by
  constructor <;> intro hrefused <;> cases h.symm.trans (congrArg Prod.fst hrefused)

theorem accepted_signedNotes :
    Accepted jsonRecord (fun _ => true) emptySystem (sampleApply [signedNotes] signedNotes 0 []) none :=
  accepted_of_ok 1 (by decide +kernel)

theorem accepted_signed_notes :
    (∃ m ∈ [signedNotes], m.covered = signedNotes.covered) ∧
      ((∃ m ∈ [signedNotes], SameRollout m signedNotes) ↔ signedNotes.rolloutPolicy = atOnce) :=
  accepted_is_signed_iff _ (· ∈ [signedNotes]) signsOnly_signedNotes (fun _ => atOnce)
    (fun m hm => by rw [mem_singleton.mp hm]; rfl) emptySystem (sampleApply [signedNotes] signedNotes 0 []) none rfl
    accepted_signedNotes

/-- Only the watched rollout was signed, and the unwatched one is applied. -/
theorem accepted_with_another_policy :
    ∃ call : ApplyCall .ledger Int jsonSerde.plain,
      SignatureScheme.ledger.SignsOnly call.verifyingKey (canonicalBytes fun _ => true) (· ∈ [signedNotes]) ∧
      (emptySystem.applyUpdate jsonRecord (fun _ => true) call).1 = .ok 1 ∧
      Accepted jsonRecord (fun _ => true) emptySystem call none ∧
      ¬ ∃ m ∈ [signedNotes], SameRollout m call.manifest := by
  have hok : (emptySystem.applyUpdate jsonRecord (fun _ => true)
      (sampleApply [signedNotes] unwatchedNotes 0 [])).1 = .ok 1 := by decide +kernel
  refine ⟨sampleApply [signedNotes] unwatchedNotes 0 [], signsOnly_signedNotes, hok, accepted_of_ok 1 hok, ?_⟩
  rintro ⟨m, hm, -, hpolicy⟩
  cases mem_singleton.mp hm
  exact absurd hpolicy (by decide)

end Hyperion.Update
