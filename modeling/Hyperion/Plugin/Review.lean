import Hyperion.Capability.Wire
import Hyperion.Lib.DebugText
import Hyperion.Plugin.Types

/-!
# Review of manifests

The bytes that a signature of a manifest covers, and what `validate_manifest` accepts. The bytes can be
read back, so that the signature pins every field that is written there. It does not pin the others: the
score and the resources of an implementation, the type and the capabilities of a device, all but two
fields of a UI component, and the leaves of a workflow. Paths are written by `to_string_lossy`, which is
a parameter.
-/

namespace Hyperion.Plugin
open Lib Capability List Option

/-! ## The bytes -/

def pushBytes (value : List UInt8) : List UInt8 := toLeBytes 8 value.length ++ value

def pushStr (value : String) : List UInt8 := pushBytes (utf8Bytes value.toList)

/-- The length of a list, before its members. -/
def pushCount (n : Nat) : List UInt8 := pushBytes (toLeBytes 8 n)

def pushStrs (values : List String) : List UInt8 := listText pushCount pushStr values

def SideEffect.code : SideEffect → UInt8
  | .createsSemanticObject => 0
  | .networkEgress => 1
  | .none => 2

def pushContract (contract : SemanticContract) : List UInt8 :=
  pushStrs contract.inputs ++ pushStrs contract.outputs ++
    listText pushCount (fun sideEffect => [sideEffect.code]) contract.sideEffects

def TrustDepth.code : TrustDepth → UInt8
  | .d0 => 0
  | .d1 => 1
  | .d2 => 2
  | .d3 => 3

def Operation.code : Operation → UInt8
  | .read => 0
  | .write => 1
  | .networkEgress => 2
  | .execute => 3

def ImplementationKind.code : ImplementationKind → UInt8
  | .localSmallModel => 0
  | .localLargeModel => 1
  | .cloudApi => 2
  | .nativeBinary => 3

def PrivacyTier.code : PrivacyTier → UInt8
  | .local_ => 0
  | .consentedCloud => 1

def MemoryTierKind.code : MemoryTierKind → UInt8
  | .episodic => 0
  | .semantic => 1
  | .procedural => 2
  | .longTerm => 3

def pushRequest (request : CapabilityGrantRequest) : List UInt8 :=
  request.operation.code :: (pushStr request.scope ++ pushStr request.justification)

section
variable {K : SignatureScheme} {F : Type} (lossy : PathBuf → String)

def pushScript : Option PathBuf → List UInt8
  | some script => 1 :: pushStr (lossy script)
  | none => [0]

def pushNativeBinary : Option NativeBinaryDescriptor → List UInt8
  | some native => 1 :: (pushStr (lossy native.program) ++ pushStrs native.args ++ pushScript lossy native.script)
  | none => [0]

def pushContribution : Contribution F → List UInt8
  | .capability cm => 0 :: (pushStr cm.capabilityId ++ toLeBytes 4 cm.version.toNat ++
      [cm.implementationKind.code] ++ [cm.privacyTier.code] ++ pushContract cm.contract ++
      pushNativeBinary lossy cm.nativeBinary)
  | .agent ac => 1 :: (pushStr ac.specialization ++ pushStrs ac.baselineCapabilities ++
      pushStrs ac.requestableCapabilities)
  | .hardwareSupport hs => 2 :: (pushStr hs.manufacturer ++ pushStr hs.model)
  | .knowledgeProvider kp => 3 :: (pushStr kp.topic ++ pushStr kp.capabilityId)
  | .uiComponent ui => 4 :: (pushStr ui.capabilityRef ++ pushStr ui.panelTemplate)
  | .automationWorkflow wf => 5 :: (pushStr wf.rootPredicate ++ pushStrs wf.triggerKeywords)
  | .memoryProvider mp => 6 :: mp.tier.code :: (pushStr mp.entityKey ++ pushStr mp.capabilityId)
  | .executionEngine ee => 7 :: (pushStr ee.engineId ++ pushNativeBinary lossy (some ee.launcher))

variable (manifest : PluginManifest K F)

def canonicalBytes : List UInt8 :=
  toLeBytes 8 manifest.pluginId ++ pushStr manifest.publisher ++ toLeBytes 4 manifest.sdkVersion.toNat ++
    [manifest.minTrustDepth.code] ++ listText pushCount pushRequest manifest.requestedPermissions ++
    listText pushCount (pushContribution lossy) manifest.contributions

def sign (manifest : PluginManifest K F) (keystore : K.Keystore) : K.Signature :=
  K.sign keystore (canonicalBytes lossy manifest)

def verifySignature (verifyingKey : K.VerifyingKey) : Bool :=
  match manifest.signature with
  | some signature =>
    let unsigned : PluginManifest K F := { manifest with signature := none }
    K.verify (canonicalBytes lossy unsigned) signature verifyingKey
  | none => false

/-! ## The review -/

def contractRequires (contract : SemanticContract) : Operation → Bool
  | .networkEgress => contract.sideEffects.contains .networkEgress
  | .write => contract.sideEffects.contains .createsSemanticObject || contract.sideEffects.contains .networkEgress
  | .read | .execute => true

def justifies (operation : Operation) : Contribution F → Bool
  | .capability cm => contractRequires cm.contract operation
  | .agent _ | .executionEngine _ => operation = .read || operation = .execute
  | .hardwareSupport _ | .knowledgeProvider _ | .uiComponent _ | .automationWorkflow _ | .memoryProvider _ =>
    operation = .read

def checkPermissionOverreach : Except PluginError Unit :=
  manifest.requestedPermissions.forM fun request =>
    if manifest.contributions.any (justifies request.operation) then .ok ()
    else .error (.permissionOverreach request.operation)

def validateManifest (verifyingKey : K.VerifyingKey) : Except PluginError Unit :=
  if !verifySignature lossy manifest verifyingKey then .error .signatureInvalid
  else checkPermissionOverreach manifest

end

/-! ## What is written -/

structure CoveredBinary where
  program : String
  args : List String
  script : Option String
deriving DecidableEq, Repr

inductive CoveredContribution
  | capability (capabilityId : CapabilityId) (version : UInt32) (implementationKind : ImplementationKind)
      (privacyTier : PrivacyTier) (contract : SemanticContract) (nativeBinary : Option CoveredBinary)
  | agent (ac : AgentContribution)
  | hardwareSupport (manufacturer model : String)
  | knowledgeProvider (kp : KnowledgeProviderContribution)
  | uiComponent (capabilityRef panelTemplate : String)
  | automationWorkflow (rootPredicate : String) (triggerKeywords : List String)
  | memoryProvider (mp : MemoryProviderContribution)
  | executionEngine (engineId : String) (launcher : CoveredBinary)
deriving DecidableEq, Repr

/-- What the signature of a manifest covers. -/
structure Covered where
  pluginId : PluginId
  publisher : String
  sdkVersion : UInt32
  minTrustDepth : TrustDepth
  requestedPermissions : List CapabilityGrantRequest
  contributions : List CoveredContribution
deriving DecidableEq, Repr

section
variable {K : SignatureScheme} {F : Type} (lossy : PathBuf → String)

def NativeBinaryDescriptor.covered (native : NativeBinaryDescriptor) : CoveredBinary :=
  ⟨lossy native.program, native.args, native.script.map lossy⟩

def Contribution.covered : Contribution F → CoveredContribution
  | .capability cm => .capability cm.capabilityId cm.version cm.implementationKind cm.privacyTier cm.contract
      (cm.nativeBinary.map (·.covered lossy))
  | .agent ac => .agent ac
  | .hardwareSupport hs => .hardwareSupport hs.manufacturer hs.model
  | .knowledgeProvider kp => .knowledgeProvider kp
  | .uiComponent ui => .uiComponent ui.capabilityRef ui.panelTemplate
  | .automationWorkflow wf => .automationWorkflow wf.rootPredicate wf.triggerKeywords
  | .memoryProvider mp => .memoryProvider mp
  | .executionEngine ee => .executionEngine ee.engineId (ee.launcher.covered lossy)

def PluginManifest.covered (m : PluginManifest K F) : Covered :=
  ⟨m.pluginId, m.publisher, m.sdkVersion, m.minTrustDepth, m.requestedPermissions,
    m.contributions.map (·.covered lossy)⟩

end

/-! ## Reading the bytes back -/

/-- A string that is not longer than memory. -/
def FitsStr (value : String) : Prop := (utf8Bytes value.toList).length < 2 ^ 64

def FitsStrs (values : List String) : Prop := values.length < 2 ^ 64 ∧ ∀ value ∈ values, FitsStr value

theorem framed_pushCount : Framed (· < 2 ^ 64) pushCount := by
  refine .of_length 16 (fun n => by simp [pushCount, pushBytes, length_toLeBytes]) fun n m hn hm h => ?_
  simp only [pushCount, pushBytes, length_toLeBytes] at h
  exact (framed_toLeBytes 8).inj hn hm (append_cancel_left h)

theorem framed_pushStr : Framed FitsStr pushStr :=
  (framed_toLeBytes 8).counted.comap (fun value : String => utf8Bytes value.toList)
    (utf8Bytes_injective.comp fun _ _ => String.toList_inj.mp)

theorem framed_pushStrs : Framed FitsStrs pushStrs := framed_pushCount.list framed_pushStr

theorem framed_version : Framed (fun _ => True) fun version : UInt32 => toLeBytes 4 version.toNat := by
  intro a b s t _ _ h
  obtain ⟨heq, hst⟩ := framed_toLeBytes 4 _ _ s t a.toNat_lt b.toNat_lt h
  exact ⟨UInt32.toNat_inj.mp heq, hst⟩

theorem sideEffectCode_injective : Function.Injective SideEffect.code := by
  intro a b h
  cases a <;> cases b <;> first | rfl | cases h

theorem trustDepthCode_injective : Function.Injective TrustDepth.code := by
  intro a b h
  cases a <;> cases b <;> first | rfl | cases h

theorem operationCode_injective : Function.Injective Operation.code := by
  intro a b h
  cases a <;> cases b <;> first | rfl | cases h

theorem implementationKindCode_injective : Function.Injective ImplementationKind.code := by
  intro a b h
  cases a <;> cases b <;> first | rfl | cases h

theorem privacyTierCode_injective : Function.Injective PrivacyTier.code := by
  intro a b h
  cases a <;> cases b <;> first | rfl | cases h

theorem memoryTierCode_injective : Function.Injective MemoryTierKind.code := by
  intro a b h
  cases a <;> cases b <;> first | rfl | cases h

def SemanticContract.Fits (contract : SemanticContract) : Prop :=
  FitsStrs contract.inputs ∧ FitsStrs contract.outputs ∧ contract.sideEffects.length < 2 ^ 64

theorem framed_pushContract : Framed SemanticContract.Fits pushContract := by
  rintro ⟨inputs, outputs, effects⟩ ⟨inputs', outputs', effects'⟩ s t ⟨hin, hout, heff⟩ ⟨hin', hout', heff'⟩ h
  simp only [pushContract, append_assoc] at h
  obtain ⟨rfl, h₁⟩ := framed_pushStrs _ _ _ _ hin hin' h
  obtain ⟨rfl, h₂⟩ := framed_pushStrs _ _ _ _ hout hout' h₁
  obtain ⟨rfl, rfl⟩ := framed_pushCount.list (Framed.tag sideEffectCode_injective) _ _ _ _
    ⟨heff, fun _ _ => trivial⟩ ⟨heff', fun _ _ => trivial⟩ h₂
  exact ⟨rfl, rfl⟩

def CapabilityGrantRequest.Fits (request : CapabilityGrantRequest) : Prop :=
  FitsStr request.scope ∧ FitsStr request.justification

theorem framed_pushRequest : Framed CapabilityGrantRequest.Fits pushRequest := by
  rintro ⟨op, scope, why⟩ ⟨op', scope', why'⟩ s t ⟨hscope, hwhy⟩ ⟨hscope', hwhy'⟩ h
  simp only [pushRequest, cons_append, append_assoc] at h
  obtain ⟨hop, h₁⟩ := List.cons.inj h
  obtain ⟨rfl, h₂⟩ := framed_pushStr _ _ _ _ hscope hscope' h₁
  obtain ⟨rfl, rfl⟩ := framed_pushStr _ _ _ _ hwhy hwhy' h₂
  exact ⟨by rw [operationCode_injective hop], rfl⟩

theorem framed_two {x y x' y' : String} {code : UInt8} {s t : List UInt8} (h : FitsStr x ∧ FitsStr y)
    (h' : FitsStr x' ∧ FitsStr y')
    (heq : code :: (pushStr x ++ pushStr y) ++ s = code :: (pushStr x' ++ pushStr y') ++ t) :
    x = x' ∧ y = y' ∧ s = t := by
  obtain ⟨hpair, hst⟩ := framed_pushStr.append framed_pushStr (x, y) (x', y') s t h h' (List.cons.inj heq).2
  exact ⟨(Prod.mk.inj hpair).1, (Prod.mk.inj hpair).2, hst⟩

/-! ### Covered values -/

def CoveredBinary.Fits (native : CoveredBinary) : Prop :=
  FitsStr native.program ∧ FitsStrs native.args ∧ ∀ script ∈ native.script, FitsStr script

def CoveredBinary.text (native : CoveredBinary) : List UInt8 :=
  pushStr native.program ++ pushStrs native.args ++ optionText 0 1 pushStr native.script

theorem framed_binary : Framed CoveredBinary.Fits CoveredBinary.text := by
  rintro ⟨program, args, script⟩ ⟨program', args', script'⟩ s t ⟨hprogram, hargs, hscript⟩
    ⟨hprogram', hargs', hscript'⟩ h
  simp only [CoveredBinary.text, append_assoc] at h
  obtain ⟨rfl, h₁⟩ := framed_pushStr _ _ _ _ hprogram hprogram' h
  obtain ⟨rfl, h₂⟩ := framed_pushStrs _ _ _ _ hargs hargs' h₁
  obtain ⟨rfl, rfl⟩ := Framed.option (by decide) framed_pushStr _ _ _ _ hscript hscript' h₂
  exact ⟨rfl, rfl⟩

namespace CoveredContribution

def Fits : CoveredContribution → Prop
  | capability capabilityId _ _ _ contract nativeBinary =>
    FitsStr capabilityId ∧ contract.Fits ∧ ∀ native ∈ nativeBinary, native.Fits
  | agent ac => FitsStr ac.specialization ∧ FitsStrs ac.baselineCapabilities ∧
    FitsStrs ac.requestableCapabilities
  | hardwareSupport manufacturer model => FitsStr manufacturer ∧ FitsStr model
  | knowledgeProvider kp => FitsStr kp.topic ∧ FitsStr kp.capabilityId
  | uiComponent capabilityRef panelTemplate => FitsStr capabilityRef ∧ FitsStr panelTemplate
  | automationWorkflow rootPredicate triggerKeywords => FitsStr rootPredicate ∧ FitsStrs triggerKeywords
  | memoryProvider mp => FitsStr mp.entityKey ∧ FitsStr mp.capabilityId
  | executionEngine engineId launcher => FitsStr engineId ∧ launcher.Fits

def text : CoveredContribution → List UInt8
  | capability capabilityId version implementationKind privacyTier contract nativeBinary =>
    0 :: (pushStr capabilityId ++ toLeBytes 4 version.toNat ++ [implementationKind.code] ++ [privacyTier.code] ++
      pushContract contract ++ optionText 0 1 CoveredBinary.text nativeBinary)
  | agent ac => 1 :: (pushStr ac.specialization ++ pushStrs ac.baselineCapabilities ++
      pushStrs ac.requestableCapabilities)
  | hardwareSupport manufacturer model => 2 :: (pushStr manufacturer ++ pushStr model)
  | knowledgeProvider kp => 3 :: (pushStr kp.topic ++ pushStr kp.capabilityId)
  | uiComponent capabilityRef panelTemplate => 4 :: (pushStr capabilityRef ++ pushStr panelTemplate)
  | automationWorkflow rootPredicate triggerKeywords => 5 :: (pushStr rootPredicate ++ pushStrs triggerKeywords)
  | memoryProvider mp => 6 :: mp.tier.code :: (pushStr mp.entityKey ++ pushStr mp.capabilityId)
  | executionEngine engineId launcher => 7 :: (pushStr engineId ++ optionText 0 1 CoveredBinary.text (some launcher))

theorem framed : Framed Fits text := by
  intro a b s t ha hb h
  cases a <;> cases b
  case capability.capability id version kind tier contract native id' version' kind' tier' contract' native' =>
    obtain ⟨hid, hcontract, hnative⟩ := ha
    obtain ⟨hid', hcontract', hnative'⟩ := hb
    simp only [text, cons_append, append_assoc] at h
    obtain ⟨rfl, h₁⟩ := framed_pushStr _ _ _ _ hid hid' (List.cons.inj h).2
    obtain ⟨rfl, h₂⟩ := framed_version _ _ _ _ trivial trivial h₁
    obtain ⟨hkind, h₃⟩ := List.cons.inj h₂
    obtain ⟨htier, h₄⟩ := List.cons.inj h₃
    obtain rfl := implementationKindCode_injective hkind
    obtain rfl := privacyTierCode_injective htier
    obtain ⟨rfl, h₅⟩ := framed_pushContract _ _ _ _ hcontract hcontract' h₄
    obtain ⟨rfl, rfl⟩ := Framed.option (by decide) framed_binary _ _ _ _ hnative hnative' h₅
    exact ⟨rfl, rfl⟩
  case agent.agent ac ac' =>
    obtain ⟨hname, hbase, hmore⟩ := ha
    obtain ⟨hname', hbase', hmore'⟩ := hb
    obtain ⟨name, base, more⟩ := ac
    obtain ⟨name', base', more'⟩ := ac'
    simp only [text, cons_append, append_assoc] at h
    obtain ⟨rfl, h₁⟩ := framed_pushStr _ _ _ _ hname hname' (List.cons.inj h).2
    obtain ⟨rfl, h₂⟩ := framed_pushStrs _ _ _ _ hbase hbase' h₁
    obtain ⟨rfl, rfl⟩ := framed_pushStrs _ _ _ _ hmore hmore' h₂
    exact ⟨rfl, rfl⟩
  case hardwareSupport.hardwareSupport =>
    obtain ⟨rfl, rfl, rfl⟩ := framed_two ha hb h
    exact ⟨rfl, rfl⟩
  case knowledgeProvider.knowledgeProvider kp kp' =>
    obtain ⟨topic, id⟩ := kp
    obtain ⟨topic', id'⟩ := kp'
    obtain ⟨rfl, rfl, rfl⟩ := framed_two ha hb h
    exact ⟨rfl, rfl⟩
  case uiComponent.uiComponent =>
    obtain ⟨rfl, rfl, rfl⟩ := framed_two ha hb h
    exact ⟨rfl, rfl⟩
  case automationWorkflow.automationWorkflow root keywords root' keywords' =>
    simp only [text, cons_append, append_assoc] at h
    obtain ⟨rfl, h₁⟩ := framed_pushStr _ _ _ _ ha.1 hb.1 (List.cons.inj h).2
    obtain ⟨rfl, rfl⟩ := framed_pushStrs _ _ _ _ ha.2 hb.2 h₁
    exact ⟨rfl, rfl⟩
  case memoryProvider.memoryProvider mp mp' =>
    obtain ⟨tier, key, id⟩ := mp
    obtain ⟨tier', key', id'⟩ := mp'
    obtain ⟨htier, -⟩ := List.cons.inj (List.cons.inj h).2
    obtain rfl := memoryTierCode_injective htier
    obtain ⟨rfl, rfl, rfl⟩ := framed_two ha hb (List.cons.inj h).2
    exact ⟨rfl, rfl⟩
  case executionEngine.executionEngine id launcher id' launcher' =>
    simp only [text, cons_append, append_assoc] at h
    obtain ⟨rfl, h₁⟩ := framed_pushStr _ _ _ _ ha.1 hb.1 (List.cons.inj h).2
    obtain ⟨heq, rfl⟩ := Framed.option (by decide) framed_binary _ _ _ _ (by simpa using ha.2)
      (by simpa using hb.2) h₁
    cases heq
    exact ⟨rfl, rfl⟩
  all_goals exact absurd (List.cons.inj h).1 (by decide)

end CoveredContribution

namespace Covered

structure Fits (c : Covered) : Prop where
  pluginId : c.pluginId < 2 ^ 64
  publisher : FitsStr c.publisher
  permissions : c.requestedPermissions.length < 2 ^ 64 ∧ ∀ request ∈ c.requestedPermissions, request.Fits
  contributions : c.contributions.length < 2 ^ 64 ∧ ∀ contribution ∈ c.contributions, contribution.Fits

def text (c : Covered) : List UInt8 :=
  toLeBytes 8 c.pluginId ++ pushStr c.publisher ++ toLeBytes 4 c.sdkVersion.toNat ++ [c.minTrustDepth.code] ++
    listText pushCount pushRequest c.requestedPermissions ++
    listText pushCount CoveredContribution.text c.contributions

theorem text_inj {c c' : Covered} (hc : c.Fits) (hc' : c'.Fits) (h : c.text = c'.text) : c = c' := by
  obtain ⟨id, publisher, version, depth, permissions, contributions⟩ := c
  obtain ⟨id', publisher', version', depth', permissions', contributions'⟩ := c'
  simp only [text, append_assoc, cons_append, nil_append] at h
  obtain ⟨rfl, h₁⟩ := framed_toLeBytes 8 _ _ _ _ hc.pluginId hc'.pluginId h
  obtain ⟨rfl, h₂⟩ := framed_pushStr _ _ _ _ hc.publisher hc'.publisher h₁
  obtain ⟨rfl, h₃⟩ := framed_version _ _ _ _ trivial trivial h₂
  obtain ⟨hdepth, h₄⟩ := List.cons.inj h₃
  obtain rfl := trustDepthCode_injective hdepth
  obtain ⟨rfl, h₅⟩ := framed_pushCount.list framed_pushRequest _ _ _ _ hc.permissions hc'.permissions h₄
  obtain rfl : contributions = contributions' :=
    (framed_pushCount.list CoveredContribution.framed).inj hc.contributions hc'.contributions h₅
  rfl

end Covered

section
variable {K : SignatureScheme} {F : Type} {lossy : PathBuf → String}

theorem pushNativeBinary_eq (native : Option NativeBinaryDescriptor) : pushNativeBinary lossy native =
      optionText 0 1 CoveredBinary.text (native.map (·.covered lossy)) := by
  cases native with
  | none => rfl
  | some native =>
    obtain ⟨program, args, script⟩ := native
    cases script <;> rfl

theorem pushContribution_eq (c : Contribution F) : pushContribution lossy c = (c.covered lossy).text := by
  cases c with
  | capability | executionEngine =>
    rw [pushContribution, pushNativeBinary_eq]
    rfl
  | _ => rfl

theorem canonicalBytes_eq (m : PluginManifest K F) : canonicalBytes lossy m = (m.covered lossy).text := by
  have hcontributions : listText pushCount (pushContribution lossy) m.contributions =
      listText pushCount CoveredContribution.text (m.contributions.map (·.covered lossy)) := by
    rw [listText, listText, flatMap_map, length_map]
    exact congrArg _ (flatMap_congr fun c _ => pushContribution_eq c)
  rw [canonicalBytes, Covered.text, PluginManifest.covered, hcontributions]

/-- The lengths of a manifest are lengths of values in memory. -/
def PluginManifest.Fits (lossy : PathBuf → String) (m : PluginManifest K F) : Prop := (m.covered lossy).Fits

theorem canonicalBytes_eq_iff {m m' : PluginManifest K F} (hm : m.Fits lossy) (hm' : m'.Fits lossy) :
    canonicalBytes lossy m = canonicalBytes lossy m' ↔ m.covered lossy = m'.covered lossy := by
  rw [canonicalBytes_eq, canonicalBytes_eq]
  exact ⟨Covered.text_inj hm hm', congrArg Covered.text⟩

end

/-! ## What is not written -/

/-- `to_string_lossy` of a path that is UTF-8. -/
def IsLossy (lossy : PathBuf → String) : Prop := ∀ path text, decodeUtf8 path = some text → lossy path = text

/-- A path that is not UTF-8, which `to_string_lossy` does not keep. -/
def rawPath (path : PathBuf) : PathBuf := if (decodeUtf8 path).isSome then [] else path

def NativeBinaryDescriptor.uncovered (native : NativeBinaryDescriptor) : NativeBinaryDescriptor :=
  ⟨rawPath native.program, [], native.script.map rawPath⟩

section
variable {K : SignatureScheme} {F : Type}

/-- The contribution, with the fields that are written left blank. -/
def Contribution.uncovered : Contribution F → Contribution F
  | .capability cm => .capability ⟨"", ⟨[], [], []⟩, .localSmallModel, cm.qualityScore, 0,
      cm.nativeBinary.map (·.uncovered), .local_, cm.resourceProfile⟩
  | .agent _ => .agent ⟨"", [], []⟩
  | .hardwareSupport hs => .hardwareSupport { hs with manufacturer := "", model := "" }
  | .knowledgeProvider _ => .knowledgeProvider ⟨"", ""⟩
  | .uiComponent ui => .uiComponent { ui with capabilityRef := "", panelTemplate := "" }
  | .automationWorkflow wf => .automationWorkflow { wf with triggerKeywords := [], rootPredicate := "" }
  | .memoryProvider _ => .memoryProvider ⟨.episodic, "", ""⟩
  | .executionEngine ee => .executionEngine ⟨"", ee.launcher.uncovered⟩

def PluginManifest.uncovered (m : PluginManifest K F) : List (Contribution F) :=
  m.contributions.map Contribution.uncovered

/-- The same manifest but for the signature. -/
def SameManifest (m m' : PluginManifest K F) : Prop := m = { m' with signature := m.signature }

variable {lossy : PathBuf → String}

section
variable (hlossy : IsLossy lossy)
include hlossy

theorem path_eq {p q : PathBuf} (h : lossy p = lossy q) (hraw : rawPath p = rawPath q) : p = q := by
  unfold rawPath at hraw
  cases hp : decodeUtf8 p with
  | some text =>
    cases hq : decodeUtf8 q with
    | some text' =>
      rw [hlossy p text hp, hlossy q text' hq] at h
      rw [eq_utf8Bytes_of_decodeUtf8 hp, eq_utf8Bytes_of_decodeUtf8 hq, h]
    | none =>
      rw [hp, hq, isSome_some, if_pos rfl, isSome_none, if_neg (by simp)] at hraw
      rw [← hraw] at hq
      exact absurd hq (by decide)
  | none =>
    cases hq : decodeUtf8 q with
    | some text' =>
      rw [hp, hq, isSome_some, if_pos rfl, isSome_none, if_neg (by simp)] at hraw
      rw [hraw] at hp
      exact absurd hp (by decide)
    | none =>
      rw [hp, hq, isSome_none, if_neg (by simp), if_neg (by simp)] at hraw
      exact hraw

theorem native_eq {n n' : NativeBinaryDescriptor}
    (h : n.covered lossy = n'.covered lossy) (hrest : n.uncovered = n'.uncovered) : n = n' := by
  obtain ⟨program, args, script⟩ := n
  obtain ⟨program', args', script'⟩ := n'
  obtain ⟨hprogram, hargs, hscript⟩ := CoveredBinary.mk.inj h
  obtain ⟨hrawProgram, -, hrawScript⟩ := NativeBinaryDescriptor.mk.inj hrest
  dsimp only at hprogram hargs hscript hrawProgram hrawScript
  rw [path_eq hlossy hprogram hrawProgram, hargs]
  cases script with
  | none =>
    cases script' with
    | none => rfl
    | some q => cases hscript
  | some p =>
    cases script' with
    | none => cases hscript
    | some q => rw [path_eq hlossy (some.inj hscript) (some.inj hrawScript)]

theorem option_native_eq {o o' : Option NativeBinaryDescriptor}
    (h : o.map (·.covered lossy) = o'.map (·.covered lossy))
    (hrest : o.map (·.uncovered) = o'.map (·.uncovered)) : o = o' := by
  cases o with
  | none =>
    cases o' with
    | none => rfl
    | some n' => cases h
  | some n =>
    cases o' with
    | none => cases h
    | some n' => rw [native_eq hlossy (some.inj h) (some.inj hrest)]

theorem contribution_eq {c c' : Contribution F}
    (h : c.covered lossy = c'.covered lossy) (hrest : c.uncovered = c'.uncovered) : c = c' := by
  cases c <;> cases c'
  case capability.capability cm cm' =>
    obtain ⟨id, contract, kind, score, version, native, tier, resources⟩ := cm
    obtain ⟨id', contract', kind', score', version', native', tier', resources'⟩ := cm'
    simp only [Contribution.covered, CoveredContribution.capability.injEq] at h
    simp only [Contribution.uncovered, Contribution.capability.injEq, CapabilityManifest.mk.injEq, true_and] at hrest
    obtain ⟨rfl, rfl, rfl, rfl, rfl, hnative⟩ := h
    obtain ⟨rfl, hrawNative, rfl⟩ := hrest
    rw [option_native_eq hlossy hnative hrawNative]
  case executionEngine.executionEngine ee ee' =>
    obtain ⟨id, launcher⟩ := ee
    obtain ⟨id', launcher'⟩ := ee'
    simp only [Contribution.covered, CoveredContribution.executionEngine.injEq] at h
    simp only [Contribution.uncovered, Contribution.executionEngine.injEq,
      ExecutionEngineContribution.mk.injEq, true_and] at hrest
    rw [h.1, native_eq hlossy h.2 hrest]
  case agent.agent => rw [CoveredContribution.agent.inj h]
  case knowledgeProvider.knowledgeProvider => rw [CoveredContribution.knowledgeProvider.inj h]
  case memoryProvider.memoryProvider => rw [CoveredContribution.memoryProvider.inj h]
  case hardwareSupport.hardwareSupport hs hs' =>
    obtain ⟨type, manufacturer, model, entries⟩ := hs
    obtain ⟨type', manufacturer', model', entries'⟩ := hs'
    simp only [Contribution.covered, CoveredContribution.hardwareSupport.injEq] at h
    simp only [Contribution.uncovered, Contribution.hardwareSupport.injEq,
      HardwareSupportContribution.mk.injEq, true_and] at hrest
    rw [h.1, h.2, hrest.1, hrest.2]
  case uiComponent.uiComponent ui ui' =>
    cases ui
    cases ui'
    simp only [Contribution.covered, CoveredContribution.uiComponent.injEq] at h
    simp only [Contribution.uncovered, Contribution.uiComponent.injEq, UiComponentContribution.mk.injEq,
      true_and] at hrest
    simp only [Contribution.uiComponent.injEq, UiComponentContribution.mk.injEq]
    exact ⟨h.1, h.2, hrest⟩
  case automationWorkflow.automationWorkflow wf wf' =>
    obtain ⟨keywords, root, leaves⟩ := wf
    obtain ⟨keywords', root', leaves'⟩ := wf'
    simp only [Contribution.covered, CoveredContribution.automationWorkflow.injEq] at h
    simp only [Contribution.uncovered, Contribution.automationWorkflow.injEq,
      AutomationWorkflowContribution.mk.injEq, true_and] at hrest
    rw [h.1, h.2, hrest]
  all_goals cases h

theorem contributions_eq {cs cs' : List (Contribution F)}
    (h : cs.map (·.covered lossy) = cs'.map (·.covered lossy))
    (hrest : cs.map Contribution.uncovered = cs'.map Contribution.uncovered) : cs = cs' := by
  induction cs generalizing cs' with
  | nil => exact (map_eq_nil_iff.mp h.symm).symm
  | cons c cs ih =>
    cases cs' with
    | nil => cases h
    | cons c' cs' =>
      rw [contribution_eq hlossy (List.cons.inj h).1 (List.cons.inj hrest).1,
        ih (List.cons.inj h).2 (List.cons.inj hrest).2]

theorem sameManifest_iff {m m' : PluginManifest K F}
    (h : m.covered lossy = m'.covered lossy) : SameManifest m m' ↔ m.uncovered = m'.uncovered := by
  constructor
  · intro hsame
    rw [hsame]
    rfl
  · intro hrest
    obtain ⟨id, publisher, signature, version, contributions, permissions, depth⟩ := m
    obtain ⟨id', publisher', signature', version', contributions', permissions', depth'⟩ := m'
    simp only [PluginManifest.covered, Covered.mk.injEq] at h
    obtain ⟨rfl, rfl, rfl, rfl, rfl, hcontributions⟩ := h
    rw [SameManifest, contributions_eq hlossy hcontributions hrest]

end

/-! ## Accepted manifests -/

theorem covered_of_validateManifest {key : K.VerifyingKey} {signed : PluginManifest K F → Prop}
    (hsigns : K.SignsOnly key (canonicalBytes lossy) signed)
    (hsigned : ∀ m, signed m → m.Fits lossy) {m : PluginManifest K F} (hm : m.Fits lossy)
    (h : validateManifest lossy m key = .ok ()) : ∃ m', signed m' ∧ m'.covered lossy = m.covered lossy := by
  unfold validateManifest at h
  split at h
  · cases h
  · next hverify =>
    rw [Bool.not_eq_true', Bool.not_eq_false, verifySignature] at hverify
    split at hverify
    · obtain ⟨m', hm', htext⟩ := hsigns _ _ hverify
      exact ⟨m', hm', ((canonicalBytes_eq_iff hm (hsigned m' hm')).mp htext).symm⟩
    · cases hverify

/-- **What the signature of a plugin pins**: two manifests share their canonical bytes exactly if they agree
in every field that is written there; and then they are the same manifest exactly if they agree in the other
fields. So an accepted manifest agrees in the written fields with one that was signed; and if the key holder
gives the other fields by a rule from these, it is a signed one altogether exactly if its other fields are
those of the rule. -/
theorem signature_pins_covered (hlossy : IsLossy lossy) (key : K.VerifyingKey)
    (signed : PluginManifest K F → Prop)
    (hsigns : K.SignsOnly key (canonicalBytes lossy) signed)
    (hsigned : ∀ m, signed m → m.Fits lossy) (rule : Covered → List (Contribution F))
    (hrule : ∀ m, signed m → m.uncovered = rule (m.covered lossy)) :
    (∀ m m' : PluginManifest K F, m.Fits lossy → m'.Fits lossy →
      (canonicalBytes lossy m = canonicalBytes lossy m' ↔ m.covered lossy = m'.covered lossy) ∧
      (canonicalBytes lossy m = canonicalBytes lossy m' → (SameManifest m m' ↔ m.uncovered = m'.uncovered))) ∧
    ∀ m : PluginManifest K F, m.Fits lossy → validateManifest lossy m key = .ok () →
      (∃ m', signed m' ∧ m'.covered lossy = m.covered lossy) ∧
      ((∃ m', signed m' ∧ SameManifest m' m) ↔ m.uncovered = rule (m.covered lossy)) := by
  refine ⟨fun m m' hm hm' => ?_, fun m hm haccepted => ?_⟩
  · have hiff := canonicalBytes_eq_iff hm hm'
    exact ⟨hiff, fun h => sameManifest_iff hlossy (hiff.mp h)⟩
  · obtain ⟨m', hm', hcovered⟩ := covered_of_validateManifest hsigns hsigned hm haccepted
    refine ⟨⟨m', hm', hcovered⟩, ?_, fun hrest => ⟨m', hm', (sameManifest_iff hlossy hcovered).mpr ?_⟩⟩
    · rintro ⟨m'', hm'', hsame⟩
      have huncovered : m''.uncovered = m.uncovered := by
        rw [hsame]
        rfl
      have hcovered' : m''.covered lossy = m.covered lossy := by
        rw [hsame]
        rfl
      rw [← huncovered, ← hcovered', hrule m'' hm'']
    · rw [hrule m' hm', hcovered, hrest]

end

/-! ## Samples -/

def sampleLossy (path : PathBuf) : String := (decodeUtf8 path).getD "\ufffd"

theorem isLossy_sampleLossy : IsLossy sampleLossy := by
  intro path text h
  rw [sampleLossy, h, getD_some]

/-- A capability, a lamp, a panel and a workflow, with one of the unwritten fields of each left open. -/
def kit (score : ℚ) (lamp : HardwareCapabilityEntry) (contrast : ℚ) (leaf : String) :
    PluginManifest .ledger ℚ where
  pluginId := 0
  publisher := "acme"
  signature := some ()
  sdkVersion := 1
  contributions :=
    [.capability ⟨"sum", ⟨[], [], []⟩, .localSmallModel, score, 1, none, .local_, none⟩,
      .hardwareSupport ⟨.homeAppliance, "acme", "lamp", [lamp]⟩,
      .uiComponent ⟨"sum", "table", .left, (1, 1), 1, none, none, none, [], none, contrast, false, false, "en",
        false, false⟩,
      .automationWorkflow ⟨["move house"], "moving", [⟨leaf, []⟩]⟩]
  requestedPermissions := []
  minTrustDepth := .d0

def dimmer : HardwareCapabilityEntry := ⟨"dim", .actuate, .standard⟩

def signedKit : PluginManifest .ledger ℚ := kit 1 dimmer 7 "book_van"

def kitKey : List (List UInt8) := [signedKit].map (canonicalBytes sampleLossy)

instance (value : String) : Decidable (FitsStr value) := inferInstanceAs (Decidable (_ < _))

instance (values : List String) : Decidable (FitsStrs values) := inferInstanceAs (Decidable (_ ∧ _))

theorem fits_signedKit : signedKit.Fits sampleLossy where
  pluginId := by decide
  publisher := by decide +kernel
  permissions := ⟨by decide, fun request hrequest => absurd hrequest not_mem_nil⟩
  contributions := by
    refine ⟨by decide, fun c hc => ?_⟩
    rcases hc with _ | ⟨_, _ | ⟨_, _ | ⟨_, _ | ⟨_, hc⟩⟩⟩⟩
    · exact ⟨by decide +kernel, ⟨by decide, by decide, by decide⟩, by simp⟩
    · exact ⟨by decide +kernel, by decide +kernel⟩
    · exact ⟨by decide +kernel, by decide +kernel⟩
    · exact ⟨by decide +kernel, by decide +kernel⟩
    · cases hc

/-- A kit with another score is accepted: it agrees with the signed one in the written fields, and is not a
signed one. -/
theorem signature_pins_alteredKit :
    (∃ m ∈ [signedKit], m.covered sampleLossy = (kit 9 dimmer 7 "book_van").covered sampleLossy) ∧
      ¬ ∃ m ∈ [signedKit], SameManifest m (kit 9 dimmer 7 "book_van") := by
  obtain ⟨hcovered, hiff⟩ := (signature_pins_covered isLossy_sampleLossy kitKey (· ∈ [signedKit])
    (SignatureScheme.signsOnly_ledger _ _) (fun m hm => by rw [mem_singleton.mp hm]; exact fits_signedKit)
    (fun _ => signedKit.uncovered) fun m hm => by rw [mem_singleton.mp hm]).2 (kit 9 dimmer 7 "book_van")
      (show (signedKit.covered sampleLossy).Fits from fits_signedKit) (by decide +kernel)
  refine ⟨hcovered, hiff.not.mpr ?_⟩
  simp [PluginManifest.uncovered, Contribution.uncovered, signedKit, kit]

/-- **Manifests that were not signed are accepted**: with another score, another capability of the lamp,
another contrast of the panel, or another step of the workflow. -/
theorem unsigned_kits_accepted :
    (validateManifest sampleLossy (kit 9 dimmer 7 "book_van") kitKey = .ok () ∧
      ¬ SameManifest signedKit (kit 9 dimmer 7 "book_van")) ∧
    (validateManifest sampleLossy (kit 1 ⟨"unlock", .actuate, .cosmetic⟩ 7 "book_van") kitKey = .ok () ∧
      ¬ SameManifest signedKit (kit 1 ⟨"unlock", .actuate, .cosmetic⟩ 7 "book_van")) ∧
    (validateManifest sampleLossy (kit 1 dimmer 1 "book_van") kitKey = .ok () ∧
      ¬ SameManifest signedKit (kit 1 dimmer 1 "book_van")) ∧
    validateManifest sampleLossy (kit 1 dimmer 7 "wire_money") kitKey = .ok () ∧
      ¬ SameManifest signedKit (kit 1 dimmer 7 "wire_money") := by
  refine ⟨⟨by decide +kernel, ?_⟩, ⟨by decide +kernel, ?_⟩, ⟨by decide +kernel, ?_⟩, by decide +kernel, ?_⟩ <;>
    simp [SameManifest, signedKit, kit, dimmer]

end Hyperion.Plugin
