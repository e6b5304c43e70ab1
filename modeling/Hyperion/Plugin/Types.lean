import Hyperion.Lib.Signing
import Hyperion.Sched.Core

/-!
# Plugin manifests

The types of `hyperion-plugin-framework`. `F` is `f32`, of which only that it can be stored is used; a
path is its bytes.
-/

namespace Hyperion.Plugin
open Lib Capability Sched

abbrev PluginId := Nat
abbrev CapabilityId := String
abbrev PathBuf := List UInt8

structure NativeBinaryDescriptor where
  program : PathBuf
  args : List String
  script : Option PathBuf
deriving DecidableEq, Repr

inductive TrustDepth
  | d0
  | d1
  | d2
  | d3
deriving DecidableEq, Repr

/-- The place in the declaration, by which depths are compared. -/
def TrustDepth.rank : TrustDepth → Nat
  | d0 => 0
  | d1 => 1
  | d2 => 2
  | d3 => 3

inductive ImplementationKind
  | localSmallModel
  | localLargeModel
  | cloudApi
  | nativeBinary
deriving DecidableEq, Repr

inductive SideEffect
  | createsSemanticObject
  | networkEgress
  | none
deriving DecidableEq, Repr

inductive Operation
  | read
  | write
  | networkEgress
  | execute
deriving DecidableEq, Repr

structure CapabilityGrantRequest where
  operation : Operation
  scope : String
  justification : String
deriving DecidableEq, Repr

structure SemanticContract where
  inputs : List String
  outputs : List String
  sideEffects : List SideEffect
deriving DecidableEq, Repr

inductive PrivacyTier
  | local_
  | consentedCloud
deriving DecidableEq, Repr

structure CapabilityManifest (F : Type) where
  capabilityId : CapabilityId
  contract : SemanticContract
  implementationKind : ImplementationKind
  qualityScore : F
  version : UInt32
  nativeBinary : Option NativeBinaryDescriptor
  privacyTier : PrivacyTier
  resourceProfile : Option ResourceVector

structure AgentContribution where
  specialization : String
  baselineCapabilities : List String
  requestableCapabilities : List String
deriving DecidableEq, Repr

inductive HardwareDeviceType
  | display
  | mobile
  | vehicle
  | robot
  | wearable
  | homeAppliance
  | peripheral
  | sensor
deriving DecidableEq, Repr

inductive HardwareDirection
  | render
  | sense
  | actuate
deriving DecidableEq, Repr

inductive HardwareSafetyClass
  | cosmetic
  | standard
  | high
deriving DecidableEq, Repr

structure HardwareCapabilityEntry where
  capabilityName : String
  direction : HardwareDirection
  safetyClass : HardwareSafetyClass
deriving DecidableEq, Repr

structure HardwareSupportContribution where
  deviceType : HardwareDeviceType
  manufacturer : String
  model : String
  capabilityManifest : List HardwareCapabilityEntry
deriving DecidableEq, Repr

structure KnowledgeProviderContribution where
  topic : String
  capabilityId : CapabilityId
deriving DecidableEq, Repr

inductive UiRegionAffinity
  | left
  | center
  | right
  | topBar
  | bottomBar
deriving DecidableEq, Repr

structure UiComponentContribution (F : Type) where
  capabilityRef : String
  panelTemplate : String
  regionAffinity : UiRegionAffinity
  minSize : UInt32 × UInt32
  priority : F
  bindsCategory : Option String
  accessibleRole : Option String
  labelTemplate : Option String
  keyboardOperations : List String
  altTextHook : Option String
  contrastRatio : F
  hasMotion : Bool
  reducedMotionAlternative : Bool
  languageTag : String
  emitsAudio : Bool
  hasVisualAlertEquivalent : Bool

structure WorkflowLeaf where
  predicate : String
  dependsOn : List Nat
deriving DecidableEq, Repr

structure AutomationWorkflowContribution where
  triggerKeywords : List String
  rootPredicate : String
  leaves : List WorkflowLeaf
deriving DecidableEq, Repr

inductive MemoryTierKind
  | episodic
  | semantic
  | procedural
  | longTerm
deriving DecidableEq, Repr

structure MemoryProviderContribution where
  tier : MemoryTierKind
  entityKey : String
  capabilityId : CapabilityId
deriving DecidableEq, Repr

structure ExecutionEngineContribution where
  engineId : String
  launcher : NativeBinaryDescriptor
deriving DecidableEq, Repr

inductive Contribution (F : Type)
  | capability (cm : CapabilityManifest F)
  | agent (ac : AgentContribution)
  | hardwareSupport (hs : HardwareSupportContribution)
  | knowledgeProvider (kp : KnowledgeProviderContribution)
  | uiComponent (ui : UiComponentContribution F)
  | automationWorkflow (wf : AutomationWorkflowContribution)
  | memoryProvider (mp : MemoryProviderContribution)
  | executionEngine (ee : ExecutionEngineContribution)

structure PluginManifest (K : SignatureScheme) (F : Type) where
  pluginId : PluginId
  publisher : String
  signature : Option K.Signature
  sdkVersion : UInt32
  contributions : List (Contribution F)
  requestedPermissions : List CapabilityGrantRequest
  minTrustDepth : TrustDepth

inductive InstallState
  | pending
  | active
  | quarantined
deriving DecidableEq, Repr

structure ImplementationDescriptor (F : Type) where
  pluginId : PluginId
  implementationKind : ImplementationKind
  qualityScore : F
  version : UInt32
  nativeBinary : Option NativeBinaryDescriptor
  privacyTier : PrivacyTier
  resourceProfile : Option ResourceVector

structure RegistryEntry (F : Type) where
  capabilityId : CapabilityId
  contract : SemanticContract
  implementations : List (ImplementationDescriptor F)
  owningPlugins : List PluginId
  installState : InstallState

structure PluginHandle where
  pluginId : PluginId
  boundary : TrustBoundaryId
deriving DecidableEq, Repr

inductive PluginError
  | unauthorized
  | signatureInvalid
  | unknownPublisher (publisher : String)
  | permissionOverreach (operation : Operation)
  | insufficientTrustDepth
  | consentDeclined
  | capabilityCollisionIncompatible
  | noSuchPlugin
  | noSuchCapability
  | noRunnableImplementation (capabilityId : CapabilityId)
  | invalidNativeBinary (reason : String)
  | executionFailed (reason : String)
  | capability (fault : Fault)
deriving DecidableEq, Repr

end Hyperion.Plugin
