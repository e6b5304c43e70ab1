import Hyperion.Agent.Runtime
import Mathlib.Data.List.MinMax

/-!
# The federation hub

`FederationHub` of `hyperion-federation`: the devices that have joined with their runtimes and trust
tiers, the resource ledgers they publish, and the anchor leases that say which device an agent runs on.

What a call reads from outside is an argument: the clocks, what the dispatch of a capability gives, the
order in which a map is visited, and whether the explanation store takes the record that goes with a
dispatch. The records themselves and the telemetry of the devices are left out. The runtimes of a hub are
made by `join_device`: they have no memory engine, no plugins and no router.
-/

namespace Hyperion.Federation
open Lib Capability Storage Sched Agent Option

inductive FederationTrustTier
  | ownedPrimary
  | ownedSecondary
  | sharedHousehold
  | cloudRented
deriving DecidableEq, Repr

namespace FederationTrustTier

def trustRank : FederationTrustTier → Nat
  | ownedPrimary => 3
  | ownedSecondary => 2
  | sharedHousehold => 1
  | cloudRented => 0

def isCloud (t : FederationTrustTier) : Bool := t = cloudRented

end FederationTrustTier

inductive PrivacyTier
  | local_
  | consentedCloud
deriving DecidableEq, Repr

structure VirtualResourceLedger where
  deviceId : Nat
  trustTier : FederationTrustTier
  available : ResourceVector
  networkLatencyMs : UInt32
  publishedAt : Nat
  ttlSecs : Nat
deriving DecidableEq, Repr

def VirtualResourceLedger.isLive (l : VirtualResourceLedger) (now : Nat) : Bool :=
  now - l.publishedAt ≤ l.ttlSecs

structure OffloadDescriptor where
  request : ResourceVector
  deadlineMs : Option UInt32
  privacyTier : PrivacyTier
deriving DecidableEq, Repr

structure AnchorLease where
  agentInstance : Nat
  holderDevice : Nat
  generation : Nat
  grantedAt : Nat
  ttlSecs : Nat
deriving DecidableEq, Repr

def AnchorLease.isLive (l : AnchorLease) (now : Nat) : Bool := now - l.grantedAt ≤ l.ttlSecs

inductive MigrationOutcome
  | completed
  | failed
deriving DecidableEq, Repr

structure MigrationReceipt where
  migrationId : Nat
  agentInstance : Nat
  targetDevice : Nat
  outcome : MigrationOutcome
deriving DecidableEq, Repr

inductive FederationError
  | unauthorized
  | noSuchDevice
  | noSuchAgent
  | noFeasiblePlacement
  | leaseConflict
  | noSuchLease
  | notAuthoritative
  | agent (err : AgentError)
  | explainability
deriving DecidableEq, Repr

structure AgentRef where
  deviceId : Nat
  localInstance : Nat
deriving DecidableEq, Repr

structure FederationHub (F V : Type) where
  devices : HashMap Nat (AgentRuntime F V)
  trustTiers : HashMap Nat FederationTrustTier
  ledgers : HashMap Nat VirtualResourceLedger
  leases : HashMap Nat AnchorLease
  agents : HashMap Nat AgentRef
  nextAgentId : Nat
  nextMigrationId : Nat

structure Clocks where
  instant : Instant
  wall : Nat

structure InvokeReadings (V : Type) where
  requireAt : Instant
  prepare : Clocks
  submitAt : Instant
  epochAt : Nat → Instant
  dispatched : Except String V
  record : Clocks

/-- `opened`: the store takes the explanation record before the dispatch; `closed`: and its end after it. -/
structure Explained where
  opened : Bool
  closed : Bool

structure Attempt (V : Type) where
  spawn : Clocks
  invoke : InvokeReadings V
  terminate : Clocks
  explained : Explained

structure OffloadCall (V : Type) where
  caller : Caller
  descriptor : OffloadDescriptor
  capabilityRef : String
  now : Nat
  visit : Visit VirtualResourceLedger
  attempts : Nat → Attempt V

/-- A caller of the hub, when a runtime checks the token again. -/
def at_ (caller : Caller) (clocks : Clocks) : Caller := { caller with now := clocks.instant }

def require (caller : Caller) (rights : RightsMask) : Except FederationError Unit :=
  match caller.monitor.checkRightsOkResult caller.now caller.token rights with
  | .ok () => .ok ()
  | .error _ => .error .unauthorized

/-- `generation + 1` of a `u64`. -/
def nextGeneration (generation : Nat) : Nat := (generation + 1) % 2 ^ 64

namespace FederationHub
variable {F V : Type}

def new : FederationHub F V := ⟨∅, ∅, ∅, ∅, ∅, 1, 1⟩

variable (hub : FederationHub F V)

/-- `device(device_id)?`, and a call on the runtime behind it. -/
def onDevice {α : Type} (deviceId : Nat) (call : AgentRuntime F V → Except AgentError α × AgentRuntime F V) :
    Except FederationError α × FederationHub F V :=
  match hub.devices[deviceId]? with
  | none => (.error .noSuchDevice, hub)
  | some runtime =>
    match call runtime with
    | (.error err, runtime) => (.error (.agent err), { hub with devices := hub.devices.insert deviceId runtime })
    | (.ok value, runtime) => (.ok value, { hub with devices := hub.devices.insert deviceId runtime })

/-! ## Membership -/

def joinDevice (caller : Caller) (deviceId : Nat) (trustTier : FederationTrustTier) :
    Except FederationError Unit × FederationHub F V :=
  match require caller .write with
  | .error err => (.error err, hub)
  | .ok () => (.ok (), { hub with
      devices := hub.devices.insert deviceId .new
      trustTiers := hub.trustTiers.insert deviceId trustTier })

def removeDevice (caller : Caller) (deviceId : Nat) : Except FederationError Unit × FederationHub F V :=
  match require caller .write with
  | .error err => (.error err, hub)
  | .ok () => (.ok (), { hub with
      devices := hub.devices.erase deviceId
      trustTiers := hub.trustTiers.erase deviceId
      ledgers := hub.ledgers.erase deviceId })

def publishLedger (deviceId : Nat) (available : ResourceVector) (networkLatencyMs : UInt32)
    (now ttlSecs : Nat) : Except FederationError Unit × FederationHub F V :=
  match hub.trustTiers[deviceId]? with
  | none => (.error .noSuchDevice, hub)
  | some trustTier => (.ok (), { hub with
      ledgers := hub.ledgers.insert deviceId
        ⟨deviceId, trustTier, available, networkLatencyMs, now, ttlSecs⟩ })

/-! ## Offloading -/

def fits (request available : ResourceVector) : Bool :=
  ResourceDimension.all.all fun d => request.get d ≤ available.get d

def bestCandidate (values : List VirtualResourceLedger) (descriptor : OffloadDescriptor)
    (excluded : List Nat) (now : Nat) : Option VirtualResourceLedger :=
  (((((values.filter fun l => !excluded.contains l.deviceId)
    |>.filter fun l => l.isLive now)
    |>.filter fun l => descriptor.privacyTier = .consentedCloud || !l.trustTier.isCloud)
    |>.filter fun l => fits descriptor.request l.available)
    |>.filter fun l => descriptor.deadlineMs.all fun d => l.networkLatencyMs ≤ d)
    |>.argmin (·.networkLatencyMs.toNat)

def offloadManifest (capabilityRef : String) : AgentManifest := ⟨"offload", [capabilityRef], [], .system⟩

section
variable [F32 F] [Inhabited V]

def invokeOn (hub : FederationHub F V) (caller : Caller) (deviceId instanceId : Nat)
    (capabilityRef : String) (r : InvokeReadings V) :
    Except FederationError (InvokeOutcome V) × FederationHub F V :=
  hub.onDevice deviceId fun runtime =>
    runtime.invoke ⟨caller.monitor, caller.token, r.requireAt, instanceId, capabilityRef,
      r.prepare.wall, r.prepare.instant, none, r.submitAt, r.epochAt, fun _ => ⟨none, none⟩⟩
      r.dispatched r.record.wall r.record.instant

/-- A round of `dispatch_offload` after its candidate has been found: an agent is spawned there, invoked
and terminated. -/
def offloadTo (hub : FederationHub F V) (caller : Caller) (deviceId : Nat) (capabilityRef : String)
    (a : Attempt V) : Except FederationError (InvokeOutcome V) × FederationHub F V :=
  match hub.onDevice deviceId fun runtime =>
      runtime.spawn (at_ caller a.spawn) (offloadManifest capabilityRef) none 0 a.spawn.wall with
  | (.error err, hub) => (.error err, hub)
  | (.ok instanceId, hub) =>
    if !a.explained.opened then (.error .explainability, hub)
    else
      match hub.invokeOn caller deviceId instanceId capabilityRef a.invoke with
      | (.error err, hub) => (.error err, hub)
      | (.ok outcome, hub) =>
        match hub.onDevice deviceId fun runtime =>
            runtime.terminate (at_ caller a.terminate) instanceId "offload_complete" a.terminate.wall with
        | (.error err, hub) => (.error err, hub)
        | (.ok (), hub) => if a.explained.closed then (.ok outcome, hub) else (.error .explainability, hub)

/-- The loop of `dispatch_offload`, for at most so many rounds. Beside the answer, the devices that were
asked to spawn. -/
def offloadLoop (call : OffloadCall V) (values : List VirtualResourceLedger) :
    Nat → (Nat → Attempt V) → List Nat → FederationHub F V →
    Option (Except FederationError V × FederationHub F V × List Nat)
  | 0, _, _, _ => none
  | rounds + 1, attempts, excluded, hub =>
    match bestCandidate values call.descriptor excluded call.now with
    | none => some (.error .noFeasiblePlacement, hub, excluded)
    | some candidate =>
      match hub.offloadTo call.caller candidate.deviceId call.capabilityRef (attempts 0) with
      | (.error err, hub) => some (.error err, hub, excluded ++ [candidate.deviceId])
      | (.ok (.result value), hub) => some (.ok value, hub, excluded ++ [candidate.deviceId])
      | (.ok _, hub) => offloadLoop call values rounds (fun k => attempts (k + 1))
          (excluded ++ [candidate.deviceId]) hub

def dispatchOffload (hub : FederationHub F V) (call : OffloadCall V) (rounds : Nat) :
    Option (Except FederationError V × FederationHub F V × List Nat) :=
  match require call.caller .exec with
  | .error err => some (.error err, hub, [])
  | .ok () => offloadLoop call (call.visit.values hub.ledgers) rounds call.attempts [] hub

end

/-! ## Leases -/

/-- `requester_key <= holder_key`: by trust, and the lower id wins a tie. -/
def Outranked (requesterTier : FederationTrustTier) (requester : Nat) (holderTier : FederationTrustTier)
    (holder : Nat) : Prop :=
  requesterTier.trustRank < holderTier.trustRank ∨
    requesterTier.trustRank = holderTier.trustRank ∧ holder ≤ requester

instance (requesterTier : FederationTrustTier) (requester : Nat) (holderTier : FederationTrustTier)
    (holder : Nat) : Decidable (Outranked requesterTier requester holderTier holder) :=
  inferInstanceAs (Decidable (_ ∨ _))

/-- The generation under which `acquire_lease` grants. -/
def acquiredGeneration (requesterTier : FederationTrustTier) (agentInstance deviceId now : Nat) :
    Except FederationError Nat :=
  match hub.leases[agentInstance]? with
  | none => .ok 0
  | some existing =>
    if existing.holderDevice = deviceId then .ok existing.generation
    else if existing.isLive now then
      let holderTier := hub.trustTiers[existing.holderDevice]?.getD .cloudRented
      if Outranked requesterTier deviceId holderTier existing.holderDevice then .error .leaseConflict
      else .ok (nextGeneration existing.generation)
    else .ok (nextGeneration existing.generation)

def grant (lease : AnchorLease) : FederationHub F V :=
  { hub with leases := hub.leases.insert lease.agentInstance lease }

def acquireLease (caller : Caller) (agentInstance deviceId now ttlSecs : Nat) :
    Except FederationError AnchorLease × FederationHub F V :=
  match require caller .write with
  | .error err => (.error err, hub)
  | .ok () =>
    match hub.trustTiers[deviceId]? with
    | none => (.error .noSuchDevice, hub)
    | some requesterTier =>
      match hub.acquiredGeneration requesterTier agentInstance deviceId now with
      | .error err => (.error err, hub)
      | .ok generation =>
        let lease : AnchorLease := ⟨agentInstance, deviceId, generation, now, ttlSecs⟩
        (.ok lease, hub.grant lease)

def renewLease (caller : Caller) (agentInstance deviceId now : Nat) :
    Except FederationError AnchorLease × FederationHub F V :=
  match require caller .write with
  | .error err => (.error err, hub)
  | .ok () =>
    match hub.leases[agentInstance]? with
    | none => (.error .noSuchLease, hub)
    | some lease =>
      if lease.holderDevice ≠ deviceId then (.error .notAuthoritative, hub)
      else
        let renewed : AnchorLease := { lease with grantedAt := now }
        (.ok renewed, { hub with leases := hub.leases.insert agentInstance renewed })

def releaseLease (caller : Caller) (agentInstance : Nat) : Except FederationError Unit × FederationHub F V :=
  match require caller .write with
  | .error err => (.error err, hub)
  | .ok () => (.ok (), { hub with leases := hub.leases.erase agentInstance })

def leaseOf (agentInstance : Nat) : Option AnchorLease :=
  hub.leases[agentInstance]?

/-! ## Agents -/

structure SpawnCall where
  caller : Caller
  deviceId : Nat
  manifest : AgentManifest
  boundIntent : Option Nat
  now : Nat
  leaseTtlSecs : Nat
  spawn : Clocks

def spawnAgent (call : SpawnCall) : Except FederationError Nat × FederationHub F V :=
  match require call.caller .write with
  | .error err => (.error err, hub)
  | .ok () =>
    match hub.onDevice call.deviceId fun runtime => runtime.spawn (at_ call.caller call.spawn)
        call.manifest call.boundIntent 0 call.spawn.wall with
    | (.error err, hub) => (.error err, hub)
    | (.ok localInstance, hub) =>
      let globalId := hub.nextAgentId
      (.ok globalId, { hub with
        nextAgentId := fetchAdd hub.nextAgentId
        agents := hub.agents.insert globalId ⟨call.deviceId, localInstance⟩ }.grant
          ⟨globalId, call.deviceId, 0, call.now, call.leaseTtlSecs⟩)

def invokeAgent [F32 F] [Inhabited V] (caller : Caller) (globalAgentId : Nat) (capabilityRef : String)
    (readings : InvokeReadings V) (explained : Explained) :
    Except FederationError (InvokeOutcome V) × FederationHub F V :=
  match require caller .exec with
  | .error err => (.error err, hub)
  | .ok () =>
    match hub.agents[globalAgentId]? with
    | none => (.error .noSuchAgent, hub)
    | some agentRef =>
      match hub.devices[agentRef.deviceId]? with
      | none => (.error .noSuchDevice, hub)
      | some _ =>
        if !explained.opened then (.error .explainability, hub)
        else
          match hub.invokeOn caller agentRef.deviceId agentRef.localInstance capabilityRef readings with
          | (.error err, hub) => (.error err, hub)
          | (.ok outcome, hub) =>
            if explained.closed then (.ok outcome, hub) else (.error .explainability, hub)

structure MigrateCall where
  caller : Caller
  globalAgentId : Nat
  targetDeviceId : Nat
  now : Nat
  leaseTtlSecs : Nat
  checkpoint : Clocks
  spawn : Clocks
  terminate : Clocks

/-- `checkpoint` of a runtime, and the checkpoint that it stores. -/
def freeze (runtime : AgentRuntime F V) (caller : Caller) (instanceId clock : Nat) :
    Except AgentError (AgentManifest × Option Nat) × AgentRuntime F V :=
  match runtime.checkpoint caller instanceId clock with
  | (.error err, runtime) => (.error err, runtime)
  | (.ok checkpointId, runtime) =>
    match runtime.getCheckpoint checkpointId with
    | none => (.error .notFound, runtime)
    | some c => (.ok (c.manifest, c.boundIntent), runtime)

variable (call : MigrateCall)

/-- The part of `migrate` that works on the two runtimes; gives the number of the new instance. -/
def transfer (agentRef : AgentRef) : Except FederationError Nat × FederationHub F V :=
  match hub.onDevice agentRef.deviceId fun runtime =>
      freeze runtime (at_ call.caller call.checkpoint) agentRef.localInstance call.checkpoint.wall with
  | (.error err, hub) => (.error err, hub)
  | (.ok (manifest, boundIntent), hub) =>
    match hub.onDevice call.targetDeviceId fun runtime =>
        runtime.spawn (at_ call.caller call.spawn) manifest boundIntent 0 call.spawn.wall with
    | (.error err, hub) => (.error err, hub)
    | (.ok newLocalInstance, hub) =>
      match hub.onDevice agentRef.deviceId fun runtime => runtime.terminate
          (at_ call.caller call.terminate) agentRef.localInstance "migrated" call.terminate.wall with
      | (.error err, hub) => (.error err, hub)
      | (.ok (), hub) => (.ok newLocalInstance, hub)

def migrate : Except FederationError MigrationReceipt × FederationHub F V :=
  match require call.caller .write with
  | .error err => (.error err, hub)
  | .ok () =>
    let migrationId := hub.nextMigrationId
    let hub := { hub with nextMigrationId := fetchAdd hub.nextMigrationId }
    match hub.agents[call.globalAgentId]? with
    | none => (.error .noSuchAgent, hub)
    | some agentRef =>
      match hub.leases[call.globalAgentId]? with
      | none => (.error .noSuchLease, hub)
      | some lease =>
        if lease.holderDevice ≠ agentRef.deviceId then (.error .notAuthoritative, hub)
        else
          match hub.devices[agentRef.deviceId]?, hub.devices[call.targetDeviceId]? with
          | some _, some _ =>
            match hub.transfer call agentRef with
            | (.error err, hub) => (.error err, hub)
            | (.ok newLocalInstance, hub) =>
              (.ok ⟨migrationId, call.globalAgentId, call.targetDeviceId, .completed⟩, { hub with
                agents := hub.agents.insert call.globalAgentId ⟨call.targetDeviceId, newLocalInstance⟩ }.grant
                  ⟨call.globalAgentId, call.targetDeviceId, nextGeneration lease.generation, call.now,
                    call.leaseTtlSecs⟩)
          | _, _ => (.error .noSuchDevice, hub)

end FederationHub

/-! ## Calls -/

open FederationHub in
inductive HubCall (V : Type)
  | joinDevice (caller : Caller) (deviceId : Nat) (trustTier : FederationTrustTier)
  | removeDevice (caller : Caller) (deviceId : Nat)
  | publishLedger (deviceId : Nat) (available : ResourceVector) (networkLatencyMs : UInt32)
      (now ttlSecs : Nat)
  | dispatchOffload (call : OffloadCall V)
  | acquireLease (caller : Caller) (agentInstance deviceId now ttlSecs : Nat)
  | renewLease (caller : Caller) (agentInstance deviceId now : Nat)
  | releaseLease (caller : Caller) (agentInstance : Nat)
  | spawnAgent (call : SpawnCall)
  | invokeAgent (caller : Caller) (globalAgentId : Nat) (capabilityRef : String)
      (readings : InvokeReadings V) (explained : Explained)
  | migrate (call : MigrateCall)

section
variable {F V : Type} [F32 F] [Inhabited V]

/-- The hub after the call. One round more than there are ledgers is enough for an offload. -/
def HubCall.exec (hub : FederationHub F V) : HubCall V → FederationHub F V
  | .joinDevice caller deviceId trustTier => (hub.joinDevice caller deviceId trustTier).2
  | .removeDevice caller deviceId => (hub.removeDevice caller deviceId).2
  | .publishLedger deviceId available networkLatencyMs now ttlSecs =>
    (hub.publishLedger deviceId available networkLatencyMs now ttlSecs).2
  | .dispatchOffload call =>
    match hub.dispatchOffload call (hub.ledgers.size + 1) with
    | none => hub
    | some (_, hub, _) => hub
  | .acquireLease caller agentInstance deviceId now ttlSecs =>
    (hub.acquireLease caller agentInstance deviceId now ttlSecs).2
  | .renewLease caller agentInstance deviceId now => (hub.renewLease caller agentInstance deviceId now).2
  | .releaseLease caller agentInstance => (hub.releaseLease caller agentInstance).2
  | .spawnAgent call => (hub.spawnAgent call).2
  | .invokeAgent caller globalAgentId capabilityRef readings explained =>
    (hub.invokeAgent caller globalAgentId capabilityRef readings explained).2
  | .migrate call => (hub.migrate call).2

end

/-! ## Calls on the runtimes -/

section
variable {F V : Type}

namespace FederationHub

/-- The same devices are members, with the same tiers and ledgers. -/
structure SameDevices (hub hub' : FederationHub F V) : Prop where
  trustTiers : hub'.trustTiers = hub.trustTiers
  ledgers : hub'.ledgers = hub.ledgers
  runtimes : ∀ d : Nat, hub'.devices[d]?.isSome = hub.devices[d]?.isSome

/-- The runtimes of the devices may have changed, and nothing else that leases and offloads depend on. -/
structure OnlyRuntimes (hub hub' : FederationHub F V) : Prop extends SameDevices hub hub' where
  leases : hub'.leases = hub.leases
  agents : hub'.agents = hub.agents
  nextAgentId : hub'.nextAgentId = hub.nextAgentId

namespace OnlyRuntimes
variable {hub hub' hub'' : FederationHub F V}

theorem refl (hub : FederationHub F V) : OnlyRuntimes hub hub := ⟨⟨rfl, rfl, fun _ => rfl⟩, rfl, rfl, rfl⟩

theorem trans (h : OnlyRuntimes hub hub') (h' : OnlyRuntimes hub' hub'') : OnlyRuntimes hub hub'' where
  trustTiers := h'.trustTiers.trans h.trustTiers
  ledgers := h'.ledgers.trans h.ledgers
  leases := h'.leases.trans h.leases
  agents := h'.agents.trans h.agents
  nextAgentId := h'.nextAgentId.trans h.nextAgentId
  runtimes d := (h'.runtimes d).trans (h.runtimes d)

theorem insert {d : Nat} {old : AgentRuntime F V} (hold : hub.devices[d]? = some old)
    (runtime : AgentRuntime F V) : OnlyRuntimes hub { hub with devices := hub.devices.insert d runtime } where
  trustTiers := rfl
  ledgers := rfl
  leases := rfl
  agents := rfl
  nextAgentId := rfl
  runtimes d' := by
    rw [HashMap.get_insert]
    split
    · next h => rw [← h, hold]; rfl
    · rfl

end OnlyRuntimes

variable (hub : FederationHub F V)

theorem onDevice_only {α : Type} (deviceId : Nat)
    (call : AgentRuntime F V → Except AgentError α × AgentRuntime F V) :
    OnlyRuntimes hub (hub.onDevice deviceId call).2 := by
  unfold onDevice
  split
  · exact .refl hub
  · next runtime hdevice =>
    split
    · exact .insert hdevice _
    · exact .insert hdevice _

theorem transfer_only (call : MigrateCall) (agentRef : AgentRef) :
    OnlyRuntimes hub (hub.transfer call agentRef).2 := by
  unfold transfer
  have hfreeze := hub.onDevice_only agentRef.deviceId fun runtime =>
    freeze runtime (at_ call.caller call.checkpoint) agentRef.localInstance call.checkpoint.wall
  split
  · next heq => rw [heq] at hfreeze; exact hfreeze
  · next manifest boundIntent hub₁ heq =>
    rw [heq] at hfreeze
    have hspawn := hub₁.onDevice_only call.targetDeviceId fun runtime =>
      runtime.spawn (at_ call.caller call.spawn) manifest boundIntent 0 call.spawn.wall
    split
    · next heq => rw [heq] at hspawn; exact hfreeze.trans hspawn
    · next newLocalInstance hub₂ heq =>
      rw [heq] at hspawn
      have hterminate := hub₂.onDevice_only agentRef.deviceId fun runtime => runtime.terminate
        (at_ call.caller call.terminate) agentRef.localInstance "migrated" call.terminate.wall
      split
      · next heq => rw [heq] at hterminate; exact (hfreeze.trans hspawn).trans hterminate
      · next heq => rw [heq] at hterminate; exact (hfreeze.trans hspawn).trans hterminate

theorem spawnAgent_cases (call : SpawnCall) :
    (∃ err hub', hub.spawnAgent call = (.error err, hub') ∧ OnlyRuntimes hub hub') ∨
      ∃ localInstance hub₁, hub.devices[call.deviceId]?.isSome = true ∧ OnlyRuntimes hub hub₁ ∧
        hub.spawnAgent call = (.ok hub.nextAgentId, { hub₁ with
          nextAgentId := fetchAdd hub.nextAgentId
          agents := hub.agents.insert hub.nextAgentId ⟨call.deviceId, localInstance⟩ }.grant
            ⟨hub.nextAgentId, call.deviceId, 0, call.now, call.leaseTtlSecs⟩) := by
  unfold spawnAgent
  split
  · exact .inl ⟨_, _, rfl, .refl hub⟩
  · have hspawn := hub.onDevice_only call.deviceId fun runtime =>
      runtime.spawn (at_ call.caller call.spawn) call.manifest call.boundIntent 0 call.spawn.wall
    split
    · next heq => rw [heq] at hspawn; exact .inl ⟨_, _, rfl, hspawn⟩
    · next localInstance hub₁ heq =>
      have hruntime : hub.devices[call.deviceId]?.isSome = true := by
        unfold onDevice at heq
        split at heq
        · cases heq
        · next hdevice => rw [hdevice]; rfl
      rw [heq] at hspawn
      refine .inr ⟨localInstance, hub₁, hruntime, hspawn, ?_⟩
      rw [← hspawn.nextAgentId, ← hspawn.agents]

theorem migrate_cases (call : MigrateCall) :
    (∃ err hub', hub.migrate call = (.error err, hub') ∧ OnlyRuntimes hub hub') ∨
      ∃ agentRef existing newLocalInstance hub₁,
        hub.agents[call.globalAgentId]? = some agentRef ∧ hub.leases[call.globalAgentId]? = some existing ∧
        existing.holderDevice = agentRef.deviceId ∧ hub.devices[call.targetDeviceId]?.isSome = true ∧
        OnlyRuntimes hub hub₁ ∧
        hub.migrate call =
          (.ok ⟨hub.nextMigrationId, call.globalAgentId, call.targetDeviceId, .completed⟩, { hub₁ with
            agents := hub.agents.insert call.globalAgentId ⟨call.targetDeviceId, newLocalInstance⟩ }.grant
              ⟨call.globalAgentId, call.targetDeviceId, nextGeneration existing.generation, call.now,
                call.leaseTtlSecs⟩) := by
  have hcount : OnlyRuntimes hub { hub with nextMigrationId := fetchAdd hub.nextMigrationId } :=
    ⟨⟨rfl, rfl, fun _ => rfl⟩, rfl, rfl, rfl⟩
  unfold migrate
  split
  · exact .inl ⟨_, _, rfl, .refl hub⟩
  · dsimp only
    split
    · exact .inl ⟨_, _, rfl, hcount⟩
    · next agentRef hagent =>
      split
      · exact .inl ⟨_, _, rfl, hcount⟩
      · next existing hexisting =>
        split
        · exact .inl ⟨_, _, rfl, hcount⟩
        · next hholder =>
          split
          · next hsource htarget =>
            have htransfer := hcount.trans (transfer_only _ call agentRef)
            split
            · next heq => rw [heq] at htransfer; exact .inl ⟨_, _, rfl, htransfer⟩
            · next newLocalInstance hub₁ heq =>
              rw [heq] at htransfer
              refine .inr ⟨agentRef, existing, newLocalInstance, hub₁, hagent, hexisting,
                not_not.mp hholder, by rw [htarget]; rfl, htransfer, ?_⟩
              rw [← htransfer.agents]
          · exact .inl ⟨_, _, rfl, hcount⟩

variable [F32 F] [Inhabited V]

theorem invokeOn_only (caller : Caller) (deviceId instanceId : Nat) (capabilityRef : String)
    (r : InvokeReadings V) : OnlyRuntimes hub (hub.invokeOn caller deviceId instanceId capabilityRef r).2 :=
  hub.onDevice_only deviceId _

theorem invokeAgent_only (caller : Caller) (globalAgentId : Nat) (capabilityRef : String)
    (readings : InvokeReadings V) (explained : Explained) :
    OnlyRuntimes hub (hub.invokeAgent caller globalAgentId capabilityRef readings explained).2 := by
  unfold invokeAgent
  split
  · exact .refl hub
  · split
    · exact .refl hub
    · next agentRef _ =>
      have hinvoke := hub.invokeOn_only caller agentRef.deviceId agentRef.localInstance capabilityRef readings
      split
      · exact .refl hub
      · split
        · exact .refl hub
        · split
          · next heq => rw [heq] at hinvoke; exact hinvoke
          · next heq =>
            rw [heq] at hinvoke
            split <;> exact hinvoke

theorem offloadTo_only (caller : Caller) (deviceId : Nat) (capabilityRef : String) (a : Attempt V) :
    OnlyRuntimes hub (hub.offloadTo caller deviceId capabilityRef a).2 := by
  unfold offloadTo
  have hspawn := hub.onDevice_only deviceId fun runtime =>
    runtime.spawn (at_ caller a.spawn) (offloadManifest capabilityRef) none 0 a.spawn.wall
  split
  · next heq => rw [heq] at hspawn; exact hspawn
  · next instanceId hub₁ heq =>
    rw [heq] at hspawn
    have hinvoke := hub₁.invokeOn_only caller deviceId instanceId capabilityRef a.invoke
    split
    · exact hspawn
    · split
      · next heq => rw [heq] at hinvoke; exact hspawn.trans hinvoke
      · next outcome hub₂ heq =>
        rw [heq] at hinvoke
        have hterminate := hub₂.onDevice_only deviceId fun runtime =>
          runtime.terminate (at_ caller a.terminate) instanceId "offload_complete" a.terminate.wall
        split
        · next heq => rw [heq] at hterminate; exact (hspawn.trans hinvoke).trans hterminate
        · next heq =>
          rw [heq] at hterminate
          split <;> exact (hspawn.trans hinvoke).trans hterminate

variable {answer : Except FederationError V × FederationHub F V × List Nat}

theorem offloadLoop_only (call : OffloadCall V) (values : List VirtualResourceLedger) (rounds : Nat)
    (attempts : Nat → Attempt V) (excluded : List Nat) {hub : FederationHub F V}
    (h : offloadLoop call values rounds attempts excluded hub = some answer) :
    OnlyRuntimes hub answer.2.1 := by
  induction rounds generalizing attempts excluded hub with
  | zero => cases h
  | succ rounds ih =>
    rw [offloadLoop] at h
    split at h
    · obtain rfl := some.inj h
      exact .refl hub
    · next candidate _ =>
      have hround := hub.offloadTo_only call.caller candidate.deviceId call.capabilityRef (attempts 0)
      split at h
      · next heq =>
        obtain rfl := some.inj h
        rw [heq] at hround
        exact hround
      · next heq =>
        obtain rfl := some.inj h
        rw [heq] at hround
        exact hround
      · next heq =>
        rw [heq] at hround
        exact hround.trans (ih _ _ h)

theorem dispatchOffload_only (call : OffloadCall V) (rounds : Nat) {hub : FederationHub F V}
    (h : hub.dispatchOffload call rounds = some answer) : OnlyRuntimes hub answer.2.1 := by
  unfold dispatchOffload at h
  split at h
  · obtain rfl := some.inj h
    exact .refl hub
  · exact offloadLoop_only call _ rounds _ _ h

end FederationHub

/-- What a call can do to the members and their ledgers. -/
inductive Changes (hub : FederationHub F V) : HubCall V → FederationHub F V → Prop
  | same {call : HubCall V} {hub' : FederationHub F V} (h : FederationHub.SameDevices hub hub') :
      Changes hub call hub'
  | joined (caller : Caller) (d : Nat) (tier : FederationTrustTier) :
      Changes hub (.joinDevice caller d tier) { hub with
        devices := hub.devices.insert d .new
        trustTiers := hub.trustTiers.insert d tier }
  | removed (caller : Caller) (d : Nat) :
      Changes hub (.removeDevice caller d) { hub with
        devices := hub.devices.erase d
        trustTiers := hub.trustTiers.erase d
        ledgers := hub.ledgers.erase d }
  | published (d : Nat) (available : ResourceVector) (networkLatencyMs : UInt32) (now ttlSecs : Nat)
      {tier : FederationTrustTier} (htier : hub.trustTiers[d]? = some tier) :
      Changes hub (.publishLedger d available networkLatencyMs now ttlSecs) { hub with
        ledgers := hub.ledgers.insert d ⟨d, tier, available, networkLatencyMs, now, ttlSecs⟩ }

open FederationHub in
theorem exec_changes [F32 F] [Inhabited V] (hub : FederationHub F V) (call : HubCall V) :
    Changes hub call (call.exec hub) := by
  have hrefl : SameDevices hub hub := (OnlyRuntimes.refl hub).toSameDevices
  cases call with
  | joinDevice caller deviceId trustTier =>
    rw [HubCall.exec, joinDevice]
    split
    · exact .same hrefl
    · exact .joined caller deviceId trustTier
  | removeDevice caller deviceId =>
    rw [HubCall.exec, removeDevice]
    split
    · exact .same hrefl
    · exact .removed caller deviceId
  | publishLedger deviceId available networkLatencyMs now ttlSecs =>
    rw [HubCall.exec, publishLedger]
    split
    · exact .same hrefl
    · next htier => exact .published deviceId available networkLatencyMs now ttlSecs htier
  | dispatchOffload call =>
    rw [HubCall.exec]
    split
    · exact .same hrefl
    · next heq => exact .same (dispatchOffload_only call _ heq).toSameDevices
  | acquireLease caller agentInstance deviceId now ttlSecs =>
    rw [HubCall.exec, acquireLease]
    split
    · exact .same hrefl
    · split
      · exact .same hrefl
      · split
        · exact .same hrefl
        · exact .same ⟨rfl, rfl, fun _ => rfl⟩
  | renewLease caller agentInstance deviceId now =>
    rw [HubCall.exec, renewLease]
    split
    · exact .same hrefl
    · split
      · exact .same hrefl
      · split
        · exact .same hrefl
        · exact .same ⟨rfl, rfl, fun _ => rfl⟩
  | releaseLease caller agentInstance =>
    rw [HubCall.exec, releaseLease]
    split
    · exact .same hrefl
    · exact .same ⟨rfl, rfl, fun _ => rfl⟩
  | spawnAgent call =>
    rw [HubCall.exec]
    rcases hub.spawnAgent_cases call with ⟨err, hub', heq, honly⟩ | ⟨localInstance, hub₁, -, honly, heq⟩
    · rw [heq]
      exact .same honly.toSameDevices
    · rw [heq]
      exact .same ⟨honly.trustTiers, honly.ledgers, honly.runtimes⟩
  | invokeAgent caller globalAgentId capabilityRef readings explained =>
    exact .same (invokeAgent_only hub caller globalAgentId capabilityRef readings explained).toSameDevices
  | migrate call =>
    rw [HubCall.exec]
    rcases hub.migrate_cases call with
      ⟨err, hub', heq, honly⟩ | ⟨agentRef, existing, newLocalInstance, hub₁, -, -, -, -, honly, heq⟩
    · rw [heq]
      exact .same honly.toSameDevices
    · rw [heq]
      exact .same ⟨honly.trustTiers, honly.ledgers, honly.runtimes⟩

end

end Hyperion.Federation
