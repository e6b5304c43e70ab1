import Hyperion.Lib.Signing
import Hyperion.Capability.Wire

/-!
# Model descriptors and their registry

A model is described by its id, its class and its variants, the best one first, and the description is
signed. `canonicalBytes` is what a signature is made over; it covers every field but the throughput of
the variants.
-/

namespace Hyperion.Ai
open Lib Capability

inductive ModelClass
  | slm
  | lrm
  | vision
  | speech
  | coding
  | planning
deriving DecidableEq, Repr

inductive Precision
  | int4
  | int8
  | fp16
deriving DecidableEq, Repr

def ModelClass.asU64 : ModelClass → Nat
  | .slm => 0
  | .lrm => 1
  | .vision => 2
  | .speech => 3
  | .coding => 4
  | .planning => 5

/-- `precision as u64`, which is also the order of precisions. -/
def Precision.asU64 : Precision → Nat
  | .int4 => 0
  | .int8 => 1
  | .fp16 => 2

abbrev ModelId := UInt64

structure QuantizedVariant (F : Type) where
  precision : Precision
  footprintMb : UInt32
  expectedTokensPerSec : F
deriving DecidableEq, Repr

structure ModelDescriptor (F : Type) (K : SignatureScheme) where
  modelId : ModelId
  modelClass : ModelClass
  variants : List (QuantizedVariant F)
  signature : Option K.Signature

section
variable {F : Type} {K : SignatureScheme}

def canonicalBytes (descriptor : ModelDescriptor F K) : List UInt8 :=
  toLeBytes 8 descriptor.modelId.toNat ++ toLeBytes 8 descriptor.modelClass.asU64 ++
    descriptor.variants.flatMap fun variant =>
      toLeBytes 8 variant.footprintMb.toNat ++ toLeBytes 8 variant.precision.asU64

def sign (descriptor : ModelDescriptor F K) (keystore : K.Keystore) : K.Signature :=
  K.sign keystore (canonicalBytes descriptor)

def verify (descriptor : ModelDescriptor F K) (verifyingKey : K.VerifyingKey) : Bool :=
  match descriptor.signature with
  | some signature => K.verify (canonicalBytes descriptor) signature verifyingKey
  | none => false

structure ModelRegistry (F : Type) (K : SignatureScheme) where
  descriptors : HashMap ModelId (ModelDescriptor F K)

namespace ModelRegistry

def empty : ModelRegistry F K := ⟨∅⟩

def insert (r : ModelRegistry F K) (descriptor : ModelDescriptor F K) : ModelRegistry F K :=
  ⟨r.descriptors.insert descriptor.modelId descriptor⟩

def get (r : ModelRegistry F K) (modelId : ModelId) : Option (ModelDescriptor F K) :=
  r.descriptors[modelId]?

def byClass (r : ModelRegistry F K) (visit : Visit (ModelDescriptor F K)) (modelClass : ModelClass) :
    List (ModelDescriptor F K) :=
  (visit.values r.descriptors).filter fun d => d.modelClass = modelClass

end ModelRegistry

end

end Hyperion.Ai
