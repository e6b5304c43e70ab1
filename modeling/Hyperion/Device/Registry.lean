import Hyperion.Graph.Write
import Hyperion.Lib.Json.Text
import Hyperion.Lib.Signing

/-!
# The device registry

A device is registered with a manifest of its capabilities, and paired at a trust tier with a list of
capabilities. `pair` looks up each capability in the manifest; `invoke` only looks at the pairing. Every change
is also written to the device's node in the Knowledge Graph, after it was made.
-/

namespace Hyperion.Device
open Lib Capability Storage Hyperion.Graph

inductive DeviceType
  | display
  | mobile
  | vehicle
  | robot
  | wearable
  | homeAppliance
  | peripheral
  | sensor
deriving DecidableEq, Repr

inductive Direction
  | render
  | sense
  | actuate
deriving DecidableEq, Repr

inductive SafetyClass
  | cosmetic
  | standard
  | high
deriving DecidableEq, Repr

structure CapabilityManifestEntry where
  capabilityName : String
  direction : Direction
  safetyClass : SafetyClass
deriving DecidableEq, Repr

inductive TrustTier
  | view
  | sense
  | actuate
deriving DecidableEq, Repr

def TrustTier.rank : TrustTier → Nat
  | .view => 0
  | .sense => 1
  | .actuate => 2

inductive PresenceState
  | connected
  | degraded
  | disconnected
deriving DecidableEq, Repr

structure SignedManifestFields where
  deviceType : DeviceType
  manufacturer : String
  model : String
  capabilityManifest : List CapabilityManifestEntry
  owner : Nat
deriving DecidableEq, Repr

structure DeviceObject extends SignedManifestFields where
  deviceId : Nat
  presence : PresenceState
  lastHeartbeat : Nat
deriving DecidableEq, Repr

structure PairingRecord where
  deviceId : Nat
  trustTier : TrustTier
  grantedCapabilities : List String
  expiry : Option Nat
deriving DecidableEq, Repr

def PairingRecord.grants (record : PairingRecord) (capabilityName : String) : Bool :=
  record.grantedCapabilities.any (· = capabilityName)

inductive DeviceError
  | unauthorized
  | notFound
  | notPaired
  | insufficientTier
  | capabilityNotDeclared
  | actuationRequiresConfirmation
  | unreachable
  | signatureInvalid
  | graph (err : GraphError)

structure Platform (F V : Type) where
  codec : Codec V
  serde : Serde F V
  scheme : SignatureScheme
  canonicalBytes : SignedManifestFields → List UInt8
  deviceMetadata : DeviceObject → Option PairingRecord → V

/-- A call of the registry: what its graph write reads, and the time of its own check of the token. -/
structure Turn {V : Type} (C : Codec V) extends Call C where
  checkAt : Instant

def Turn.check {V : Type} {C : Codec V} (turn : Turn C) (rights : RightsMask) : Except DeviceError Unit :=
  match turn.monitor.checkRightsOkResult turn.checkAt turn.token rights with
  | .ok () => .ok ()
  | .error _ => .error .unauthorized

structure DeviceRegistry (F V : Type) where
  devices : HashMap Nat DeviceObject
  pairings : HashMap Nat PairingRecord
  nextId : Nat
  graph : KnowledgeGraph F V
  kgNodes : HashMap Nat NodeId

namespace DeviceRegistry
variable {F V : Type}

def new (graph : KnowledgeGraph F V) : DeviceRegistry F V := ⟨∅, ∅, 1, graph, ∅⟩

variable (P : Platform F V) (reg : DeviceRegistry F V)

def register (turn : Turn P.codec) (fields : SignedManifestFields) (now : Nat)
    (signature : P.scheme.Signature) (verifyingKey : P.scheme.VerifyingKey) :
    Except DeviceError Nat × DeviceRegistry F V :=
  match turn.check .write with
  | .error err => (.error err, reg)
  | .ok () =>
    if P.scheme.verify (P.canonicalBytes fields) signature verifyingKey = false then (.error .signatureInvalid, reg)
    else
      let deviceId := reg.nextId
      let reg := { reg with nextId := (reg.nextId + 1) % 2 ^ 64 }
      let device : DeviceObject := { fields with deviceId, presence := .connected, lastHeartbeat := now }
      match reg.graph.putNode P.serde P.codec turn.toCall none "device" none (P.deviceMetadata device none) with
      | (.error err, graph) => (.error (.graph err), { reg with graph })
      | (.ok nodeId, graph) =>
        (.ok deviceId, { reg with
          graph
          kgNodes := reg.kgNodes.insert deviceId nodeId
          devices := reg.devices.insert deviceId device })

def resyncKgNode (call : Call P.codec) (deviceId : Nat) : Except DeviceError Unit × DeviceRegistry F V :=
  match reg.devices[deviceId]? with
  | none => (.ok (), reg)
  | some device =>
    let metadata := P.deviceMetadata device reg.pairings[deviceId]?
    match reg.graph.putNode P.serde P.codec call reg.kgNodes[deviceId]? "device" none metadata with
    | (.error err, graph) => (.error (.graph err), { reg with graph })
    | (.ok nodeId, graph) => (.ok (), { reg with graph, kgNodes := reg.kgNodes.insert deviceId nodeId })

def requiredTierFor : Direction → TrustTier
  | .render => .view
  | .sense => .sense
  | .actuate => .actuate

def checkCapabilities (manifest : List CapabilityManifestEntry) (requestedTier : TrustTier) :
    List String → Except DeviceError Unit
  | [] => .ok ()
  | capability :: capabilities =>
    match manifest.find? (·.capabilityName = capability) with
    | none => .error .capabilityNotDeclared
    | some entry =>
      if requestedTier.rank < (requiredTierFor entry.direction).rank then .error .insufficientTier
      else checkCapabilities manifest requestedTier capabilities

def checkPairing (deviceId : Nat) (requestedTier : TrustTier)
    (capabilities : List String) (confirmed : Bool) : Except DeviceError Unit :=
  if requestedTier = .actuate ∧ confirmed = false then .error .actuationRequiresConfirmation
  else
    match reg.devices[deviceId]? with
    | none => .error .notFound
    | some device => checkCapabilities device.capabilityManifest requestedTier capabilities

def withPairing (record : PairingRecord) : DeviceRegistry F V :=
  { reg with pairings := reg.pairings.insert record.deviceId record }

def pair (turn : Turn P.codec) (deviceId : Nat) (requestedTier : TrustTier)
    (capabilities : List String) (confirmed : Bool) : Except DeviceError PairingRecord × DeviceRegistry F V :=
  match turn.check .write with
  | .error err => (.error err, reg)
  | .ok () =>
    match reg.checkPairing deviceId requestedTier capabilities confirmed with
    | .error err => (.error err, reg)
    | .ok () =>
      let record : PairingRecord := ⟨deviceId, requestedTier, capabilities, none⟩
      let reg := reg.withPairing record
      match reg.resyncKgNode P turn.toCall deviceId with
      | (.error err, reg) => (.error err, reg)
      | (.ok (), reg) => (.ok record, reg)

def revoke (turn : Turn P.codec) (deviceId : Nat) : Except DeviceError Unit × DeviceRegistry F V :=
  match turn.check .write with
  | .error err => (.error err, reg)
  | .ok () => resyncKgNode P { reg with pairings := reg.pairings.erase deviceId } turn.toCall deviceId

variable {P} in
def invoke (turn : Turn P.codec) (deviceId : Nat) (capabilityName : String)
    (args : Json) : Except DeviceError Json :=
  match turn.check .exec with
  | .error err => .error err
  | .ok () =>
    match reg.devices[deviceId]? with
    | none => .error .notFound
    | some device =>
      if device.presence = .disconnected then .error .unreachable
      else if device.capabilityManifest.any (·.capabilityName = capabilityName) = false then
        .error .capabilityNotDeclared
      else
        match reg.pairings[deviceId]? with
        | none => .error .notPaired
        | some pairing =>
          if pairing.grants capabilityName = false then .error .capabilityNotDeclared
          else .ok (.obj [("device_id", .int deviceId), ("capability", .str capabilityName), ("echo", args)])

def heartbeat (turn : Turn P.codec) (deviceId now : Nat) : Except DeviceError Unit × DeviceRegistry F V :=
  match turn.check .write with
  | .error err => (.error err, reg)
  | .ok () =>
    match reg.devices[deviceId]? with
    | none => (.error .notFound, reg)
    | some device =>
      let device := { device with lastHeartbeat := now, presence := .connected }
      resyncKgNode P { reg with devices := reg.devices.insert deviceId device } turn.toCall deviceId

def presenceAfter (elapsed degradedAfterSecs disconnectedAfterSecs : Nat) : PresenceState :=
  if elapsed > disconnectedAfterSecs then .disconnected
  else if elapsed > degradedAfterSecs then .degraded
  else .connected

/-- The loop of `tick`; the write for the `n`-th device reads `readings n`. -/
def tickEach (call : Call P.codec) (readings : Nat → Readings P.codec)
    (now degradedAfterSecs disconnectedAfterSecs : Nat) :
    Nat → List Nat → DeviceRegistry F V → Except DeviceError Unit × DeviceRegistry F V
  | _, [], reg => (.ok (), reg)
  | n, deviceId :: deviceIds, reg =>
    let devices := reg.devices.modify deviceId fun device => { device with
      presence := presenceAfter (now - device.lastHeartbeat) degradedAfterSecs disconnectedAfterSecs }
    match resyncKgNode P { reg with devices } { call with toReadings := readings n } deviceId with
    | (.error err, reg) => (.error err, reg)
    | (.ok (), reg) => tickEach call readings now degradedAfterSecs disconnectedAfterSecs (n + 1) deviceIds reg

def tick (turn : Turn P.codec) (visit : Visit Nat) (readings : Nat → Readings P.codec)
    (now degradedAfterSecs disconnectedAfterSecs : Nat) : Except DeviceError Unit × DeviceRegistry F V :=
  match turn.check .write with
  | .error err => (.error err, reg)
  | .ok () =>
    tickEach P turn.toCall readings now degradedAfterSecs disconnectedAfterSecs 0
      (visit.order (reg.devices.toList.map (·.1))) reg

end DeviceRegistry

end Hyperion.Device
