import Hyperion.Ai.Residency

/-!
# The local AI runtime

`LocalAiRuntime` registers signed models, chooses a variant for a request, loads its model and runs the
backend on it. What a call reads from outside is in `Around`: the clock, the values and the order by which
models are evicted, and the order in which the registry is visited. A call that does not return is
`none`.
-/

namespace Hyperion.Ai
open Lib Capability

inductive PowerMode
  | performance
  | balanced
  | batterySaver
  | critical
deriving DecidableEq, Repr

structure InferenceRequest where
  prompt : String
deriving DecidableEq, Repr

structure InferenceResult where
  text : String
  tokensGenerated : Nat
  variantUsed : Precision
deriving DecidableEq, Repr

structure CapabilityContract where
  latencyBudgetMs : Nat
  alwaysOn : Bool
deriving DecidableEq, Repr

inductive RuntimeError
  | unauthorized
  | infeasibleLocally
  | integrityFailure
  | notFound
deriving DecidableEq, Repr

/-- The operations of `f32` that the runtime uses. -/
class Throughput (F : Type) extends Zero F where
  ofU64 : Nat → F
  hundredth : F
  max : F → F → F
  mul : F → F → F
  div : F → F → F
  le : F → F → Bool

structure Around (F : Type) (K : SignatureScheme) where
  clock : Nat → Nat
  eviction : Eviction F
  models : Visit (ModelDescriptor F K)

/-- The arguments of `infer`, with the time at which the token is checked, and the backend at the call's
cancellation token. -/
structure Inference (F : Type) (K : SignatureScheme) where
  around : Around F K
  monitor : CapabilityMonitor
  token : CapabilityToken
  now : Instant
  modelClass : ModelClass
  contract : CapabilityContract
  request : InferenceRequest
  generate : ModelId → InferenceRequest → String

structure LocalAiRuntime (F : Type) (K : SignatureScheme) where
  registry : ModelRegistry F K
  residency : ResidencyManager F
  powerMode : PowerMode
  totalCapacityMb : UInt32
  nextRequestId : UInt64
  inFlight : HashMap UInt64 Unit

namespace LocalAiRuntime

section
variable {F : Type} {K : SignatureScheme}

def new (totalCapacityMb : UInt32) : LocalAiRuntime F K where
  registry := .empty
  residency := .empty
  powerMode := .performance
  totalCapacityMb := totalCapacityMb
  nextRequestId := 1
  inFlight := ∅

variable (r : LocalAiRuntime F K)

def registerModel (descriptor : ModelDescriptor F K)
    (verifyingKey : K.VerifyingKey) : Except RuntimeError Unit × LocalAiRuntime F K :=
  if !verify descriptor verifyingKey then (.error .integrityFailure, r)
  else (.ok (), { r with registry := r.registry.insert descriptor })

variable [Throughput F]

def meetsLatencyBudget (variant : QuantizedVariant F) (contract : CapabilityContract) : Bool :=
  let estimatedMs := Throughput.mul
    (Throughput.div (Throughput.ofU64 100)
      (Throughput.max variant.expectedTokensPerSec Throughput.hundredth))
    (Throughput.ofU64 1000)
  Throughput.le estimatedMs (Throughput.ofU64 contract.latencyBudgetMs)

def selectVariant (models : Visit (ModelDescriptor F K)) (modelClass : ModelClass)
    (contract : CapabilityContract) : Option (ModelId × QuantizedVariant F) :=
  (r.registry.byClass models modelClass).findSome? fun descriptor =>
    (descriptor.variants.find? fun variant =>
      !(r.totalCapacityMb < variant.footprintMb) && meetsLatencyBudget variant contract).map fun variant =>
        (descriptor.modelId, variant)

/-- `downgrade`: the first of the smallest variants of the class, of at most this precision. -/
def downgrade (models : Visit (ModelDescriptor F K)) (modelClass : ModelClass)
    (current : QuantizedVariant F) : QuantizedVariant F :=
  (minBy (fun a b => compare a.footprintMb b.footprintMb)
    (((r.registry.byClass models modelClass).flatMap (·.variants)).filter fun v =>
      v.precision.asU64 ≤ current.precision.asU64)).getD current

def resolve (models : Visit (ModelDescriptor F K)) (modelClass : ModelClass)
    (contract : CapabilityContract) : Option (ModelId × QuantizedVariant F) :=
  match r.selectVariant models modelClass contract, r.powerMode with
  | some (id, v), .batterySaver | some (id, v), .critical => some (id, r.downgrade models modelClass v)
  | some (id, v), _ => some (id, v)
  | none, _ => none

def load (around : Around F K) (modelId : ModelId)
    (variant : QuantizedVariant F) : Option (Except RuntimeError Unit × LocalAiRuntime F K) :=
  if r.residency.isHot modelId then
    some (.ok (), { r with residency := r.residency.touch modelId (around.clock 0) })
  else
    match r.residency.makeRoom around.eviction variant.footprintMb r.totalCapacityMb (around.clock 0) with
    | none => none
    | some (false, residency) => some (.error .infeasibleLocally, { r with residency := residency })
    | some (true, residency) =>
      some (.ok (), { r with
        residency := residency.markHot modelId variant.footprintMb (around.clock 1) })

def inferWithToken (i : Inference F K) :
    Option (Except RuntimeError InferenceResult × LocalAiRuntime F K) :=
  match i.monitor.checkRightsOkResult i.now i.token .exec with
  | .error _ => some (.error .unauthorized, r)
  | .ok () =>
    match r.resolve i.around.models i.modelClass i.contract with
    | none => some (.error .infeasibleLocally, r)
    | some (modelId, variant) =>
      match r.load i.around modelId variant with
      | none => none
      | some (.error err, r) => some (.error err, r)
      | some (.ok (), r) =>
        some (.ok { text := i.generate modelId i.request, tokensGenerated := 0,
                    variantUsed := variant.precision },
          { r with
            residency := r.residency.touch modelId (i.around.clock 2)
            nextRequestId := r.nextRequestId + 1 })

def infer (i : Inference F K) : Option (Except RuntimeError InferenceResult × LocalAiRuntime F K) :=
  r.inferWithToken i

def inferCancellable (requestId : UInt64) (i : Inference F K) :
    Option (Except RuntimeError InferenceResult × LocalAiRuntime F K) :=
  let r := { r with inFlight := r.inFlight.insert requestId () }
  (r.inferWithToken i).map fun (result, r) =>
    (result, { r with inFlight := r.inFlight.erase requestId })

def pin (modelId : ModelId) : LocalAiRuntime F K :=
  { r with residency := r.residency.pin modelId }

def unpin (modelId : ModelId) : LocalAiRuntime F K :=
  { r with residency := r.residency.unpin modelId }

def setPredictedNextUse (modelId : ModelId) (value : F) : LocalAiRuntime F K :=
  { r with residency := r.residency.setPredictedNextUse modelId value }

def setPowerMode (mode : PowerMode) : LocalAiRuntime F K :=
  { r with powerMode := mode }

end

end LocalAiRuntime

inductive Call (F : Type) (K : SignatureScheme)
  | registerModel (descriptor : ModelDescriptor F K) (verifyingKey : K.VerifyingKey)
  | load (around : Around F K) (modelId : ModelId) (variant : QuantizedVariant F)
  | infer (i : Inference F K)
  | inferCancellable (requestId : UInt64) (i : Inference F K)
  | pin (modelId : ModelId)
  | unpin (modelId : ModelId)
  | setPredictedNextUse (modelId : ModelId) (value : F)
  | setPowerMode (mode : PowerMode)

namespace Call

section
variable {F : Type} {K : SignatureScheme} [Throughput F]

/-- The runtime after the call, if it returns. -/
def exec (r : LocalAiRuntime F K) : Call F K → Option (LocalAiRuntime F K)
  | .registerModel descriptor verifyingKey => some (r.registerModel descriptor verifyingKey).2
  | .load around modelId variant => (r.load around modelId variant).map (·.2)
  | .infer i => (r.infer i).map (·.2)
  | .inferCancellable requestId i => (r.inferCancellable requestId i).map (·.2)
  | .pin modelId => some (r.pin modelId)
  | .unpin modelId => some (r.unpin modelId)
  | .setPredictedNextUse modelId value => some (r.setPredictedNextUse modelId value)
  | .setPowerMode mode => some (r.setPowerMode mode)

/-- The call; one that does not return leaves everything as it is. -/
def apply (r : LocalAiRuntime F K) (c : Call F K) : LocalAiRuntime F K := (c.exec r).getD r

end

end Call

structure Rate where
  hundredths : Nat
deriving DecidableEq, Repr

instance : Throughput Rate where
  zero := ⟨0⟩
  ofU64 n := ⟨100 * n⟩
  hundredth := ⟨1⟩
  max a b := ⟨Nat.max a.hundredths b.hundredths⟩
  mul a b := ⟨a.hundredths * b.hundredths / 100⟩
  div a b := ⟨100 * a.hundredths / b.hundredths⟩
  le a b := decide (a.hundredths ≤ b.hundredths)

end Hyperion.Ai
