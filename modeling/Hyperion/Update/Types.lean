import Hyperion.Lib.Signing
import Hyperion.Recovery.Service

/-!
# Types of the update system

`hyperion-update`: manifests, rollout policies, system-image slots and the errors of both tracks.
Versions are `u32`, node ids of a manifest `u64`.
-/

namespace Hyperion.Update
open Lib Recovery Hyperion.Graph

/-- `u32`. -/
abbrev Version := Fin (2 ^ 32)

instance neZeroVersion : NeZero (2 ^ 32) := ⟨by decide⟩

instance neZeroNodeId : NeZero (2 ^ 64) := ⟨by decide⟩

inductive UpdateSubject
  | systemImage
  | capability (id : String)
  | model (id : String)
deriving DecidableEq, Repr, Ord

structure CohortHealth (F : Type) where
  crashRate : F
  latencyP99Ms : Fin (2 ^ 32)

structure HealthThresholds (F : Type) where
  maxCrashRate : F
  maxLatencyP99Ms : Fin (2 ^ 32)
deriving DecidableEq

def CohortHealth.within {F : Type} [F32 F] (health : CohortHealth F) (thresholds : HealthThresholds F) :
    Bool :=
  (F32.partialCmp health.crashRate thresholds.maxCrashRate).any (· != .gt) &&
    decide (health.latencyP99Ms ≤ thresholds.maxLatencyP99Ms)

structure CohortStage where
  percent : UInt8
deriving DecidableEq, Repr

structure RolloutPolicy (F : Type) where
  stages : List CohortStage
  healthThresholds : HealthThresholds F
  autoRollbackOnBreach : Bool
deriving DecidableEq

structure UpdateManifest (K : SignatureScheme) (F : Type) where
  subject : UpdateSubject
  fromVersion : Version
  toVersion : Version
  signature : Option K.Signature
  touchedObjects : List (Fin (2 ^ 64))
  rolloutPolicy : RolloutPolicy F

inductive RolloutState
  | staged
  | canary (stageIndex : Nat)
  | rolledOut
  | rolledBack
deriving DecidableEq, Repr

structure RollbackReceipt where
  subject : UpdateSubject
  rolledBackTo : Version
deriving DecidableEq, Repr

inductive SystemImageSlotName
  | a
  | b
deriving DecidableEq, Repr

structure SystemImageSlot where
  slot : SystemImageSlotName
  version : Version
  bootAttemptsRemaining : Nat
  committed : Bool
deriving DecidableEq, Repr

inductive ModelRouterError
  | unauthorized
deriving DecidableEq, Repr

inductive UpdateError
  | unauthorized
  | signatureInvalid
  | incompatible
  | rolloutHealthBreach
  | noRecoveryPoint
  | bootAttemptsExhausted
  | repeatedRecentRollback (reason : String)
  | recovery (err : RecoveryError)
  | modelRouter (err : ModelRouterError)
  | antiRollbackViolation (attempted highestEver : Version)
deriving DecidableEq, Repr

end Hyperion.Update
