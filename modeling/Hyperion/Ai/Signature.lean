import Hyperion.Lib.Run
import Hyperion.Ai.Runtime

/-!
# What a model signature pins

`canonicalBytes` writes numbers of a fixed width one after the other, so it can be read back: it pins the
id, the class, and of every variant, in order, the footprint and the precision. The throughput of a variant,
by which `meets_latency_budget` filters, is not written. So a signature pins a model exactly as far as these
fields determine the throughputs.
-/

namespace Hyperion.Ai
open Lib Capability List Option LocalAiRuntime

/-- What the runtime decides by. -/
structure Model (F : Type) where
  modelId : ModelId
  modelClass : ModelClass
  variants : List (QuantizedVariant F)
deriving DecidableEq, Repr

section
variable {F : Type} {K : SignatureScheme}

def ModelDescriptor.model (d : ModelDescriptor F K) : Model F := ⟨d.modelId, d.modelClass, d.variants⟩

def Model.descriptor (model : Model F) (signature : Option K.Signature) : ModelDescriptor F K :=
  ⟨model.modelId, model.modelClass, model.variants, signature⟩

def QuantizedVariant.signedFields (v : QuantizedVariant F) : UInt32 × Precision := (v.footprintMb, v.precision)

def Model.signedFields (model : Model F) : ModelId × ModelClass × List (UInt32 × Precision) :=
  (model.modelId, model.modelClass, model.variants.map QuantizedVariant.signedFields)

/-! ## The bytes -/

theorem ModelClass.asU64_injective : Function.Injective ModelClass.asU64 := by
  intro a b h
  cases a <;> cases b <;> first | rfl | cases h

theorem Precision.asU64_injective : Function.Injective Precision.asU64 := by
  intro a b h
  cases a <;> cases b <;> first | rfl | cases h

def variantText (fields : UInt32 × Precision) : List UInt8 :=
  toLeBytes 8 fields.1.toNat ++ toLeBytes 8 fields.2.asU64

def headText (head : ModelId × ModelClass) : List UInt8 :=
  toLeBytes 8 head.1.toNat ++ toLeBytes 8 head.2.asU64

theorem framed_variantText : Framed (fun _ => True) variantText := by
  have hfootprint := (framed_toLeBytes 8).comap UInt32.toNat fun _ _ => UInt32.toNat_inj.mp
  have hprecision := (framed_toLeBytes 8).comap Precision.asU64 Precision.asU64_injective
  intro a b s t _ _ heq
  refine hfootprint.append hprecision a b s t ⟨?_, ?_⟩ ⟨?_, ?_⟩ heq
  · exact a.1.toNat_lt.trans (by norm_num)
  · cases a.2 <;> decide
  · exact b.1.toNat_lt.trans (by norm_num)
  · cases b.2 <;> decide

theorem framed_headText : Framed (fun _ => True) headText := by
  have hid := (framed_toLeBytes 8).comap UInt64.toNat fun _ _ => UInt64.toNat_inj.mp
  have hclass := (framed_toLeBytes 8).comap ModelClass.asU64 ModelClass.asU64_injective
  intro a b s t _ _ heq
  refine hid.append hclass a b s t ⟨a.1.toNat_lt, ?_⟩ ⟨b.1.toNat_lt, ?_⟩ heq
  · cases a.2 <;> decide
  · cases b.2 <;> decide

theorem canonicalBytes_eq (d : ModelDescriptor F K) : canonicalBytes d =
    headText (d.modelId, d.modelClass) ++ d.model.signedFields.2.2.flatMap variantText := by
  rw [canonicalBytes, headText, Model.signedFields, ModelDescriptor.model, flatMap_map]
  rfl

theorem canonicalBytes_eq_iff (d : ModelDescriptor F K) (e : ModelDescriptor F K) :
    canonicalBytes d = canonicalBytes e ↔ d.model.signedFields = e.model.signedFields := by
  rw [canonicalBytes_eq, canonicalBytes_eq]
  constructor
  · intro heq
    obtain ⟨hhead, hvariants⟩ := framed_headText _ _ _ _ trivial trivial heq
    have hne : ∀ fields, variantText fields ≠ [] := fun fields hnil => by
      have hlength := congrArg List.length hnil
      simp [variantText, length_toLeBytes] at hlength
    have hfields := framed_variantText.flatMap_inj hne (fun _ _ => trivial) (fun _ _ => trivial) hvariants
    obtain ⟨hid, hclass⟩ := Prod.mk.inj hhead
    exact Prod.ext hid (Prod.ext hclass hfields)
  · intro heq
    obtain ⟨hid, hrest⟩ := Prod.mk.inj heq
    obtain ⟨hclass, hfields⟩ := Prod.mk.inj hrest
    rw [heq]
    exact congrArg₂ (fun id cls => headText (id, cls) ++ _) hid hclass

/-! ## Registrations -/

section
variable [Throughput F]

variable {r r' : LocalAiRuntime F K} {id : ModelId} {c : Call F K}

theorem load_registry {around : Around F K} {v : QuantizedVariant F} {answer : Except RuntimeError Unit}
    (h : r.load around id v = some (answer, r')) : r'.registry = r.registry := by
  unfold load at h
  split at h
  · cases h
    rfl
  · split at h <;> cases h <;> rfl

theorem inferWithToken_registry {i : Inference F K}
    {answer : Except RuntimeError InferenceResult} (h : r.inferWithToken i = some (answer, r')) :
    r'.registry = r.registry := by
  unfold inferWithToken at h
  split at h
  · cases h
    rfl
  · split at h
    · cases h
      rfl
    · split at h
      · cases h
      · next hload =>
        cases h
        exact load_registry hload
      · next hload =>
        have hsame := load_registry hload
        cases h
        exact hsame

theorem Call.exec_registry (h : c.exec r = some r') :
    r'.registry = r.registry ∨ ∃ d key, c = .registerModel d key ∧ verify d key = true ∧
      r'.registry = r.registry.insert d := by
  cases c with
  | registerModel d key =>
    rw [Call.exec, LocalAiRuntime.registerModel] at h
    split at h
    · cases h
      exact .inl rfl
    · next hverify =>
      cases h
      exact .inr ⟨d, key, rfl, by simpa using hverify, rfl⟩
  | load around id v =>
    obtain ⟨⟨answer, r₁⟩, hload, heq⟩ := map_eq_some_iff.mp h
    cases heq
    exact .inl (load_registry hload)
  | infer i =>
    obtain ⟨⟨answer, r₁⟩, hinfer, heq⟩ := map_eq_some_iff.mp h
    cases heq
    exact .inl (inferWithToken_registry hinfer)
  | inferCancellable requestId i =>
    obtain ⟨⟨answer, r₁⟩, hcancellable, heq⟩ := map_eq_some_iff.mp h
    cases heq
    obtain ⟨⟨answer', r₂⟩, hinfer, heq'⟩ := map_eq_some_iff.mp hcancellable
    have hsame := inferWithToken_registry hinfer
    cases heq'
    exact .inl hsame
  | pin id =>
    cases h
    exact .inl rfl
  | unpin id =>
    cases h
    exact .inl rfl
  | setPredictedNextUse id value =>
    cases h
    exact .inl rfl
  | setPowerMode mode =>
    cases h
    exact .inl rfl

def LocalAiRuntime.after (totalMb : UInt32) (calls : List (Call F K)) : LocalAiRuntime F K :=
  run Call.apply (.new totalMb) calls

theorem get_after_concat {totalMb : UInt32} {before : List (Call F K)}
    {d : ModelDescriptor F K} (h : (after totalMb (before ++ [c])).registry.get id = some d) :
    (after totalMb before).registry.get id = some d ∨
      ∃ key, c = .registerModel d key ∧ verify d key = true ∧ d.modelId = id := by
  rw [LocalAiRuntime.after, run_append, run_cons, run_nil] at h
  change (Call.apply (LocalAiRuntime.after totalMb before) c).registry.get id = some d at h
  unfold Call.apply at h
  cases hexec : c.exec (after totalMb before) with
  | none => exact .inl (by rwa [hexec] at h)
  | some r' =>
    rw [hexec, getD_some] at h
    rcases Call.exec_registry hexec with hsame | ⟨d', key, rfl, hverify, hinsert⟩
    · exact .inl (hsame ▸ h)
    · rw [hinsert, ModelRegistry.get, ModelRegistry.insert, HashMap.get_insert] at h
      split at h
      · next hid =>
        cases h
        exact .inr ⟨key, rfl, hverify, hid⟩
      · exact .inl h

end

/-! ## What is pinned -/

/-- Of the texts of models, the key verifies none but those of the models that its holder signed. -/
def SignsModels (key : K.VerifyingKey) (signed : Set (Model F)) : Prop :=
  K.SignsOnly key (fun model : Model F => canonicalBytes (model.descriptor none : ModelDescriptor F K)) (· ∈ signed)

/-- Every model that is accepted under the key is one that its holder signed, and what replaces a
registration under the key is one that its holder signed for that id. -/
structure Pinned [Throughput F] (key : K.VerifyingKey) (signed : Set (Model F)) (totalMb : UInt32)
    (calls : List (Call F K)) : Prop where
  accepted : ∀ d : ModelDescriptor F K, .registerModel d key ∈ calls → verify d key = true →
    d.model ∈ signed
  replaced : ∀ before c rest id d, calls = before ++ c :: rest →
    (LocalAiRuntime.after totalMb (before ++ [c])).registry.get id = some d →
    (LocalAiRuntime.after totalMb before).registry.get id = some d ∨
      ∃ key', c = .registerModel d key' ∧ (key' = key → d.modelId = id ∧ d.model ∈ signed)

/-- The descriptor comes with a signature of the model, and agrees with it in the signed fields. -/
def Borrows (key : K.VerifyingKey) (d : ModelDescriptor F K) (model : Model F) : Prop :=
  d.model.signedFields = model.signedFields ∧ ∃ signature, d.signature = some signature ∧
    K.verify (canonicalBytes (model.descriptor none : ModelDescriptor F K)) signature key = true

theorem verify_iff_borrows {key : K.VerifyingKey} {signed : Set (Model F)} (h : SignsModels key signed)
    {d : ModelDescriptor F K} : verify d key = true ↔ ∃ model ∈ signed, Borrows key d model := by
  unfold verify
  cases hsignature : d.signature with
  | none => simp [Borrows, hsignature]
  | some signature =>
    constructor
    · intro hverify
      obtain ⟨model, hmodel, htext⟩ := h d.model signature hverify
      have hbytes : canonicalBytes d = canonicalBytes (model.descriptor none : ModelDescriptor F K) := htext
      refine ⟨model, hmodel, (canonicalBytes_eq_iff d (model.descriptor none)).mp hbytes, signature, hsignature, ?_⟩
      rwa [← hbytes]
    · rintro ⟨model, -, hfields, signature', hsignature', hverify⟩
      cases hsignature.symm.trans hsignature'
      rwa [← (canonicalBytes_eq_iff d (model.descriptor none)).mpr hfields] at hverify

/-- **A signature pins a model as far as the signed fields do.** In a sequence of calls, what is accepted
under the key and what replaces a registration under it is exactly as the holder signed it, if and only if
every descriptor that is presented with the signature of a signed model and agrees with that model in the
signed fields is itself a signed model. -/
theorem signature_pins_model_iff [Throughput F] (key : K.VerifyingKey) (signed : Set (Model F))
    (hsigns : SignsModels key signed) (totalMb : UInt32) (calls : List (Call F K)) :
    Pinned key signed totalMb calls ↔ ∀ d : ModelDescriptor F K, .registerModel d key ∈ calls →
      ∀ model ∈ signed, Borrows key d model → d.model ∈ signed := by
  constructor
  · intro hpinned d hd model hmodel hborrows
    exact hpinned.accepted d hd ((verify_iff_borrows hsigns).mpr ⟨model, hmodel, hborrows⟩)
  · intro hborrowed
    have hmem : ∀ d : ModelDescriptor F K, .registerModel d key ∈ calls → verify d key = true → d.model ∈ signed := by
      intro d hd hverify
      obtain ⟨model, hmodel, hborrows⟩ := (verify_iff_borrows hsigns).mp hverify
      exact hborrowed d hd model hmodel hborrows
    refine ⟨hmem, fun before c rest id d hsplit hget => ?_⟩
    rcases get_after_concat hget with hbefore | ⟨key', rfl, hverify, hid⟩
    · exact .inl hbefore
    · refine .inr ⟨key', rfl, ?_⟩
      rintro rfl
      refine ⟨hid, hmem d ?_ hverify⟩
      rw [hsplit]
      exact mem_append_right _ mem_cons_self

end

/-! ## A faster variant -/

def paced (tokensPerSec : Nat) : Model Rate := ⟨1, .slm, [⟨.fp16, 4, ⟨100 * tokensPerSec⟩⟩]⟩

/-- A key whose holder has signed the model at ten tokens a second. -/
def slowKey : SignatureScheme.ledger.VerifyingKey :=
  [paced 10].map fun model => canonicalBytes (model.descriptor none : ModelDescriptor Rate SignatureScheme.ledger)

theorem signsModels_slowKey : SignsModels slowKey {model | model ∈ [paced 10]} :=
  SignatureScheme.signsOnly_ledger _ _

def pacedCall (tokensPerSec : Nat) : Call Rate SignatureScheme.ledger :=
  .registerModel ((paced tokensPerSec).descriptor (some ())) slowKey

theorem signature_pins_model_slow :
    (LocalAiRuntime.after 10 [pacedCall 10, .pin 1]).registry.get 1 = some ((paced 10).descriptor (some ())) ∧
      Pinned slowKey {model | model ∈ [paced 10]} 10 [pacedCall 10, .pin 1] := by
  refine ⟨rfl, (signature_pins_model_iff slowKey _ signsModels_slowKey 10 _).mpr fun d hd model _ _ => ?_⟩
  rcases mem_cons.mp hd with heq | hd
  · cases heq
    exact mem_singleton.mpr rfl
  · cases mem_singleton.mp hd

/-- A model is signed at ten tokens a second, which is too slow for the contract. The same bytes verify at
a hundred tokens a second; that descriptor replaces the signed one, and is selected. -/
theorem signature_leaves_throughput_open :
    SignsModels slowKey {model | model ∈ [paced 10]} ∧ paced 100 ∉ [paced 10] ∧
      (LocalAiRuntime.after 10 [pacedCall 10]).registry.get 1 = some ((paced 10).descriptor (some ())) ∧
      (LocalAiRuntime.after 10 [pacedCall 10]).selectVariant .inOrder .slm ⟨5000, false⟩ = none ∧
      (LocalAiRuntime.after 10 [pacedCall 10, pacedCall 100]).registry.get 1 =
        some ((paced 100).descriptor (some ())) ∧
      (LocalAiRuntime.after 10 [pacedCall 10, pacedCall 100]).selectVariant .inOrder .slm ⟨5000, false⟩ =
        some (1, ⟨.fp16, 4, ⟨10000⟩⟩) := by
  exact ⟨signsModels_slowKey, by decide, rfl, rfl, rfl, rfl⟩

end Hyperion.Ai
