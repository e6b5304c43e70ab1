import Hyperion.Sched.Core
import Hyperion.Storage.Engine

/-!
# The agent runtime

`AgentRuntime` of `hyperion-agent-runtime`: instances of agents with their lifecycle state, checkpoints,
and the scheduler that admits invocations. An `invoke` has three phases: `prepareInvoke` under the lock,
the dispatch of the capability without it, and `recordOutcome` under the lock again, after the ticket has
been handed back to the scheduler.

What a call reads from outside is an argument: the clocks, what the plugins declare a capability to need,
what the memory engine remembers of a specialization. What a dispatch does is its result; the records of
the memory engine and of the explanation store are left out. Numbers of instances, checkpoints and tasks
are `u64` and wrap.
-/

namespace Hyperion.Agent
open Lib Capability Storage Sched

inductive TrustTier
  | system
  | verified
  | community
deriving DecidableEq, Repr

structure AgentManifest where
  specialization : String
  baselineCapabilities : List String
  requestableCapabilities : List String
  trustTier : TrustTier
deriving DecidableEq, Repr

inductive LifecycleState
  | spawning
  | bound
  | executing
  | waitingOnCapability
  | suspended
  | checkpointed
  | completed
  | failed
  | terminated
deriving DecidableEq, Repr

def LifecycleState.debug : LifecycleState → String
  | .spawning => "Spawning"
  | .bound => "Bound"
  | .executing => "Executing"
  | .waitingOnCapability => "WaitingOnCapability"
  | .suspended => "Suspended"
  | .checkpointed => "Checkpointed"
  | .completed => "Completed"
  | .failed => "Failed"
  | .terminated => "Terminated"

structure CapabilityGrant where
  capabilityRef : String
  scope : List Nat
  grantedAt : Nat
deriving DecidableEq, Repr

structure QuotaState where
  callsUsedThisWindow : UInt32 := 0
  maxCallsPerWindow : UInt32
  consecutiveFailures : UInt32 := 0
  suspendedAt : Option Nat := none
  timesSuspended : UInt32 := 0
  consecutiveSuccessesSinceResume : UInt32 := 0
deriving DecidableEq, Repr

structure AuditEntry where
  timestamp : Nat
  kind : String
  detail : String
deriving DecidableEq, Repr

structure AgentInstance where
  instanceId : Nat
  manifest : AgentManifest
  state : LifecycleState
  boundIntent : Option Nat
  grants : List CapabilityGrant
  quota : QuotaState
  pendingConsent : Option String
  auditLog : List AuditEntry
deriving DecidableEq, Repr

structure AgentCheckpoint where
  checkpointId : Nat
  instanceId : Nat
  manifest : AgentManifest
  boundIntent : Option Nat
  createdAt : Nat
deriving DecidableEq, Repr

inductive InvokeOutcome (V : Type)
  | result (value : V)
  | denied
  | pendingConsent
  | quotaExceeded
  | failed (reason : String)
deriving DecidableEq, Repr

inductive PreparedInvoke (V : Type)
  | resolved (outcome : InvokeOutcome V)
  | proceed (ticket : Ticket) (boundIntent : Option Nat)
deriving DecidableEq, Repr

inductive AgentError
  | unauthorized
  | notFound
  | invalidState (message : String)
deriving DecidableEq, Repr

def circuitBreakerThreshold : UInt32 := 3
def defaultQuota : UInt32 := 100
def successStreakToDecay : UInt32 := 3

/-- In seconds. -/
def backoffDuration (timesSuspended : UInt32) : Nat := 2 ^ (max 1 (min timesSuspended.toNat 6) - 1)

def fromSecs (secs : Nat) : Duration := secs * 1000000000

/-- `fetch_add(1)` of an `AtomicU64`. -/
def fetchAdd (n : Nat) : Nat := (n + 1) % 2 ^ 64

def debugOption : Option Nat → String
  | none => "None"
  | some n => "Some(" ++ toString n ++ ")"

def AgentInstance.audit (i : AgentInstance) (now : Nat) (kind detail : String) : AgentInstance :=
  { i with auditLog := i.auditLog ++ [⟨now, kind, detail⟩] }

/-! ## The broker -/

inductive GrantDecision
  | granted
  | pendingConsent
  | denied
deriving DecidableEq, Repr

def resolveGrant (i : AgentInstance) (capabilityRef : String) : GrantDecision :=
  if i.manifest.baselineCapabilities.any (· == capabilityRef) then .granted
  else if i.manifest.requestableCapabilities.any (· == capabilityRef) then
    if i.grants.any (·.capabilityRef == capabilityRef) then .granted else .pendingConsent
  else .denied

def require (caller : Caller) (rights : RightsMask) : Except AgentError Unit :=
  match caller.monitor.checkRightsOkResult caller.now caller.token rights with
  | .ok () => .ok ()
  | .error _ => .error .unauthorized

structure AgentRuntime (F V : Type) where
  instances : HashMap Nat AgentInstance
  checkpoints : HashMap Nat AgentCheckpoint
  suspendedSince : HashMap Nat Instant
  nextId : Nat
  scheduler : Scheduler F V
  nextTaskId : Nat

/-- What an `invoke` is called with, and what its first phase reads: the wall clock, the monotonic clock
for the backoff and at the two calls of the scheduler, the resources that the plugins declare for the
capability, and what the scheduler asks of its surroundings. -/
structure InvokeCall (F V : Type) where
  monitor : CapabilityMonitor
  token : CapabilityToken
  requireAt : Instant
  instanceId : Nat
  capabilityRef : String
  clock : Nat
  now : Instant
  resourceProfile : Option ResourceVector
  submitAt : Instant
  epochAt : Nat → Instant
  around : Nat → Surroundings F V

namespace AgentRuntime
variable {F V : Type}

def new : AgentRuntime F V :=
  ⟨∅, ∅, ∅, 1, Scheduler.empty.registerResourceProvider (.new .inferenceTokens defaultQuota 0), 1⟩

variable (rt : AgentRuntime F V)

def store (instanceId : Nat) (i : AgentInstance) : AgentRuntime F V :=
  { rt with instances := rt.instances.insert instanceId i }

def describe (instanceId : Nat) : Option AgentInstance := rt.instances[instanceId]?

def stateOf (instanceId : Nat) : Option LifecycleState :=
  rt.instances[instanceId]?.map (·.state)

/-! ## Spawning -/

/-- `spawn` up to the number of the new instance. -/
def takeId (caller : Caller) : Except AgentError Nat × AgentRuntime F V :=
  match require caller .write with
  | .error err => (.error err, rt)
  | .ok () => (.ok rt.nextId, { rt with nextId := fetchAdd rt.nextId })

/-- The rest of `spawn`; `remembered` is what `remembered_times_suspended` finds. -/
def bind (instanceId : Nat) (manifest : AgentManifest) (boundIntent : Option Nat)
    (remembered : UInt32) (clock : Nat) : AgentRuntime F V :=
  let i : AgentInstance := {
    instanceId, manifest, boundIntent
    state := .bound
    grants := []
    quota := { maxCallsPerWindow := defaultQuota, timesSuspended := remembered }
    pendingConsent := none
    auditLog := [] }
  rt.store instanceId (i.audit clock "bound" ("intent=" ++ debugOption boundIntent))

def spawn (caller : Caller) (manifest : AgentManifest) (boundIntent : Option Nat)
    (remembered : UInt32) (clock : Nat) : Except AgentError Nat × AgentRuntime F V :=
  match rt.takeId caller with
  | (.error err, rt) => (.error err, rt)
  | (.ok instanceId, rt) => (.ok instanceId, rt.bind instanceId manifest boundIntent remembered clock)

/-! ## Invoking -/

/-- The start of `prepare_invoke`: a suspended instance comes back once its backoff is over. -/
def autoResume (call : InvokeCall F V) (i : AgentInstance) :
    Except AgentError (AgentInstance × AgentRuntime F V) :=
  if i.state = .suspended then
    let required := backoffDuration i.quota.timesSuspended
    let elapsed := rt.suspendedSince[call.instanceId]?.map (call.now - ·)
    match elapsed.filter (· < fromSecs required) with
    | some elapsed => .error (.invalidState
        ("still recovering from a recent run of failures -- try again in " ++
          toString (required - elapsed / fromSecs 1) ++ "s"))
    | none =>
      let resumed : AgentInstance :=
        { i with state := .bound, quota := { i.quota with suspendedAt := none } }
      let resumed := resumed.audit call.clock "auto_resumed_after_backoff"
        ("times_suspended=" ++ toString i.quota.timesSuspended)
      .ok (resumed, { rt.store call.instanceId resumed with
        suspendedSince := rt.suspendedSince.erase call.instanceId })
  else .ok (i, rt)

section
variable [F32 F] [Inhabited V]

/-- The end of `prepare_invoke`: the invocation is submitted to the scheduler, and an epoch is run. -/
def admitInvoke (rt : AgentRuntime F V) (call : InvokeCall F V) (i : AgentInstance) :
    Except AgentError (PreparedInvoke V) × AgentRuntime F V :=
  let taskId := rt.nextTaskId
  let rt := { rt with nextTaskId := fetchAdd rt.nextTaskId }
  match rt.scheduler.submitTask call.monitor call.submitAt {
      id := taskId
      ownerIntent := i.boundIntent.getD 0
      ownerAgent := some call.instanceId
      class_ := .interactiveAgent
      deadline := none
      priorityWeight := F32.one
      request := call.resourceProfile.getD { inferenceTokensPerSec := 1 }
      capToken := call.token
      capabilityRef := some call.capabilityRef
      args := default } with
  | (.error _, scheduler) => (.error .unauthorized, { rt with scheduler := scheduler })
  | (.ok ticket, scheduler) =>
    let (reports, scheduler) := scheduler.scheduleEpoch call.epochAt call.around
    if ((reports.find? fun r => r.ticket = ticket).map (·.admitted)).getD false then
      (.ok (.proceed ticket i.boundIntent),
        { rt with scheduler := scheduler }.store call.instanceId { i with
          state := .executing
          quota := { i.quota with callsUsedThisWindow := i.quota.callsUsedThisWindow + 1 } })
    else
      (.ok (.resolved .quotaExceeded),
        { rt with scheduler := (scheduler.cancel ticket).2 }.store call.instanceId
          (i.audit call.clock "quota_exceeded" call.capabilityRef))

def prepareInvoke (rt : AgentRuntime F V) (call : InvokeCall F V) :
    Except AgentError (PreparedInvoke V) × AgentRuntime F V :=
  match rt.instances[call.instanceId]? with
  | none => (.error .notFound, rt)
  | some i =>
    match rt.autoResume call i with
    | .error err => (.error err, rt)
    | .ok (i, rt) =>
      if i.state = .terminated ∨ i.state = .completed ∨ i.state = .failed then
        (.error (.invalidState ("cannot invoke while " ++ i.state.debug)), rt)
      else
        match resolveGrant i call.capabilityRef with
        | .denied =>
          (.ok (.resolved .denied),
            rt.store call.instanceId (i.audit call.clock "denied" call.capabilityRef))
        | .pendingConsent =>
          let waiting : AgentInstance :=
            { i with state := .waitingOnCapability, pendingConsent := some call.capabilityRef }
          (.ok (.resolved .pendingConsent),
            rt.store call.instanceId (waiting.audit call.clock "pending_consent" call.capabilityRef))
        | .granted => rt.admitInvoke call i

end

def recordSuccessAfterResume (i : AgentInstance) (clock : Nat) : AgentInstance :=
  if i.quota.timesSuspended = 0 then i
  else
    let successes := i.quota.consecutiveSuccessesSinceResume + 1
    if successStreakToDecay ≤ successes then
      let decayed : AgentInstance := { i with quota := { i.quota with
        timesSuspended := i.quota.timesSuspended - 1
        consecutiveSuccessesSinceResume := 0 } }
      decayed.audit clock "backoff_decayed" ("times_suspended now " ++ toString decayed.quota.timesSuspended)
    else { i with quota := { i.quota with consecutiveSuccessesSinceResume := successes } }

/-- The third phase hands the ticket back first. -/
def completeTicket (ticket : Ticket) : AgentRuntime F V :=
  { rt with scheduler := (rt.scheduler.complete ticket).2 }

/-- An invocation that failed: the circuit breaker trips at the third failure in a row. -/
def recordFailure (i : AgentInstance) (capabilityRef reason : String) (clock : Nat) : AgentInstance × Bool :=
  let failures := i.quota.consecutiveFailures + 1
  let i : AgentInstance := { i with quota := { i.quota with consecutiveFailures := failures } }
  let i := i.audit clock "capability_failed" (capabilityRef ++ ": " ++ reason)
  if circuitBreakerThreshold ≤ failures then
    let times := i.quota.timesSuspended + 1
    let suspended : AgentInstance := { i with
      state := .suspended
      quota := { i.quota with
        suspendedAt := some clock
        timesSuspended := times
        consecutiveSuccessesSinceResume := 0 } }
    (suspended.audit clock "suspended_runaway" (capabilityRef ++ " (times_suspended=" ++ toString times ++
      ", next backoff " ++ toString (backoffDuration times) ++ "s)"), true)
  else (i, false)

/-- The rest of the third phase, under the lock. -/
def recordOutcome (instanceId : Nat) (capabilityRef : String) (result : Except String V) (clock : Nat)
    (now : Instant) : Except AgentError (InvokeOutcome V) × AgentRuntime F V :=
  match rt.instances[instanceId]? with
  | none => (.error .notFound, rt)
  | some i =>
    match result with
    | .ok value =>
      let i : AgentInstance := { i with quota := { i.quota with consecutiveFailures := 0 } }
      (.ok (.result value),
        rt.store instanceId (recordSuccessAfterResume (i.audit clock "invoked" capabilityRef) clock))
    | .error reason =>
      let (i, tripped) := recordFailure i capabilityRef reason clock
      (.ok (.failed reason), { rt.store instanceId i with
        suspendedSince := if tripped then rt.suspendedSince.insert instanceId now else rt.suspendedSince })

/-- `invoke` when no other call comes between its phases; `dispatched` is what the dispatch of the
capability gives. -/
def invoke [F32 F] [Inhabited V] (call : InvokeCall F V) (dispatched : Except String V) (clock : Nat)
    (now : Instant) : Except AgentError (InvokeOutcome V) × AgentRuntime F V :=
  match require ⟨call.monitor, call.token, call.requireAt⟩ .exec with
  | .error err => (.error err, rt)
  | .ok () =>
    match rt.prepareInvoke call with
    | (.error err, rt) => (.error err, rt)
    | (.ok (.resolved outcome), rt) => (.ok outcome, rt)
    | (.ok (.proceed ticket _), rt) =>
      (rt.completeTicket ticket).recordOutcome call.instanceId call.capabilityRef dispatched clock now

/-! ## The other operations -/

def resolveConsent (caller : Caller) (instanceId : Nat) (approved : Bool)
    (clock : Nat) : Except AgentError Unit × AgentRuntime F V :=
  match require caller .write with
  | .error err => (.error err, rt)
  | .ok () =>
    match rt.instances[instanceId]? with
    | none => (.error .notFound, rt)
    | some i =>
      match i.pendingConsent with
      | none => (.error (.invalidState "no pending consent request"), rt)
      | some capabilityRef =>
        let taken : AgentInstance := { i with pendingConsent := none }
        let granted : AgentInstance := { taken with grants := i.grants ++ [⟨capabilityRef, [], clock⟩] }
        let resolved :=
          if approved then granted.audit clock "consent_granted" capabilityRef
          else taken.audit clock "consent_denied" capabilityRef
        (.ok (), rt.store instanceId { resolved with state := .executing })

def grantCapability (caller : Caller) (instanceId : Nat) (capabilityRef : String)
    (clock : Nat) : Except AgentError Unit × AgentRuntime F V :=
  match require caller .write with
  | .error err => (.error err, rt)
  | .ok () =>
    match rt.instances[instanceId]? with
    | none => (.error .notFound, rt)
    | some i =>
      let granted : AgentInstance := { i with grants := i.grants ++ [⟨capabilityRef, [], clock⟩] }
      (.ok (), rt.store instanceId (granted.audit clock "consent_granted_direct" capabilityRef))

def checkpoint (caller : Caller) (instanceId : Nat) (clock : Nat) :
    Except AgentError Nat × AgentRuntime F V :=
  match require caller .write with
  | .error err => (.error err, rt)
  | .ok () =>
    match rt.instances[instanceId]? with
    | none => (.error .notFound, rt)
    | some i =>
      let checkpointId := rt.nextId
      let saved : AgentInstance := { i with grants := [], state := .checkpointed }
      (.ok checkpointId, { rt with
        nextId := fetchAdd rt.nextId
        instances := rt.instances.insert instanceId (saved.audit clock "checkpointed" (toString checkpointId))
        checkpoints := rt.checkpoints.insert checkpointId
          ⟨checkpointId, instanceId, i.manifest, i.boundIntent, clock⟩ })

def getCheckpoint (checkpointId : Nat) : Option AgentCheckpoint :=
  rt.checkpoints[checkpointId]?

def resume (rt : AgentRuntime F V) (caller : Caller) (checkpointId : Nat) (clock : Nat) :
    Except AgentError Nat × AgentRuntime F V :=
  match require caller .write with
  | .error err => (.error err, rt)
  | .ok () =>
    match rt.checkpoints[checkpointId]? with
    | none => (.error .notFound, rt)
    | some c =>
      match rt.instances[c.instanceId]? with
      | none => (.error .notFound, rt)
      | some i =>
        if i.state ≠ .checkpointed then
          (.error (.invalidState ("cannot resume from " ++ i.state.debug)), rt)
        else
          let resumed : AgentInstance := { i with state := .executing }
          (.ok c.instanceId, rt.store c.instanceId (resumed.audit clock "resumed" (toString checkpointId)))

/-- `terminate` and `mark_completed`: the state is set whatever it was. -/
def finish (caller : Caller) (instanceId : Nat) (state : LifecycleState)
    (kind detail : String) (clock : Nat) : Except AgentError Unit × AgentRuntime F V :=
  match require caller .write with
  | .error err => (.error err, rt)
  | .ok () =>
    match rt.instances[instanceId]? with
    | none => (.error .notFound, rt)
    | some i =>
      let ended : AgentInstance := { i with state := state }
      (.ok (), rt.store instanceId (ended.audit clock kind detail))

def terminate (caller : Caller) (instanceId : Nat) (reason : String)
    (clock : Nat) : Except AgentError Unit × AgentRuntime F V :=
  rt.finish caller instanceId .terminated "terminated" reason clock

def markCompleted (caller : Caller) (instanceId : Nat) (clock : Nat) :
    Except AgentError Unit × AgentRuntime F V :=
  rt.finish caller instanceId .completed "completed" "" clock

end AgentRuntime

end Hyperion.Agent
