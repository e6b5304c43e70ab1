import Hyperion.Memory.Engine

/-!
# Rollback and recovery

`RecoveryService` of `hyperion-recovery`: recovery points with a copy of the nodes they cover, and a
journal of actions, each with the recovery point taken before it. `undo` and `recover_from_crash`
restore the nodes of actions from the copies, `redo` from copies that `undo` took.

The graph is passed along with the service. What a call reads from outside, action by action, is its
`turns`. Of the agent runtime only the three calls of `recover_from_crash` are used, which do nothing to
the graph; they are a parameter.
-/

namespace Hyperion.Recovery
open Lib Capability Storage Hyperion.Graph

abbrev RecoveryPointId := Nat
abbrev ActionId := Nat

inductive Trigger
  | automatic
  | userRequested
  | preRiskyAction
  | preUpdate
  | preAgentRun (agentRunId : Nat)
  | preGoalFork (goalId : Nat)
deriving DecidableEq, Repr

structure RecoveryPoint where
  id : RecoveryPointId
  createdAt : Nat
  trigger : Trigger
  pinned : Bool
deriving DecidableEq, Repr

inductive ActionStatus
  | committed
  | inFlight
  | aborted
  | undone
  | expired
deriving DecidableEq, Repr

structure ActionRecord where
  actionId : ActionId
  agentRunId : Option Nat
  sessionId : Option Nat
  goalId : Option NodeId
  recoveryPointBefore : RecoveryPointId
  objectsTouched : List NodeId
  status : ActionStatus
  createdAt : Nat
  note : String
deriving DecidableEq, Repr

inductive UndoScope
  | singleAction (id : ActionId)
  | agentRun (id : Nat)
  | session (id : Nat)
  | goal (id : NodeId)
  | global (id : RecoveryPointId)
deriving DecidableEq, Repr

inductive UndoReceipt
  | targeted (undoneActions : List ActionId)
  | needsConfirmation (conflictingObjects : List NodeId)
  | nothingToUndo
deriving DecidableEq, Repr

inductive RedoReceipt
  | targeted (redoneActions : List ActionId)
  | needsConfirmation (conflictingObjects : List NodeId)
  | nothingToRedo
deriving DecidableEq, Repr

inductive AgentError
  | unauthorized
  | notFound
deriving DecidableEq, Repr

inductive RecoveryError
  | unauthorized
  | noSuchRecoveryPoint
  | noSuchAction
  | actionNotCommitted
  | graph (err : GraphError)
  | agent (err : AgentError)
  | memory (err : Memory.MemoryError)
deriving DecidableEq, Repr

abbrev Snapshot (F V : Type) := List (NodeId × Option (NodeRecord F V))

structure RecoveryService (F V : Type) where
  points : HashMap RecoveryPointId RecoveryPoint
  snapshots : HashMap RecoveryPointId (Snapshot F V)
  actions : List ActionRecord
  redoSnapshots : HashMap ActionId (Snapshot F V)
  nextPointId : Nat
  nextActionId : Nat

/-- The agent runtime with states `A`, whose instances are described by `I`. -/
structure AgentRuntime (A I : Type) where
  describe : A → Nat → Option I
  terminate : Caller → A → Nat → String → Except AgentError A
  spawn : Caller → A → I → Except AgentError A

/-- What the treatment of one action reads from outside: the clock at each read of the graph, what each
write reads, and the clock at the two calls of the agent runtime. -/
structure Turn {V : Type} (C : Codec V) where
  reads : Nat → Instant
  writes : Nat → Readings C
  terminateAt : Instant
  spawnAt : Instant

def require (caller : Caller) (rights : RightsMask) : Except RecoveryError Unit :=
  match caller.monitor.checkRightsOkResult caller.now caller.token rights with
  | .ok () => .ok ()
  | .error _ => .error .unauthorized

def inScope (record : ActionRecord) : UndoScope → Bool
  | .singleAction id => record.actionId == id
  | .agentRun runId => record.agentRunId == some runId
  | .session sessionId => record.sessionId == some sessionId
  | .goal goalId => record.goalId == some goalId
  | .global pointId => record.recoveryPointBefore == pointId

/-- The loop of `set_status`: the first record of the id gets the status. -/
def setFirst (actionId : ActionId) (status : ActionStatus) : List ActionRecord → Option (List ActionRecord)
  | [] => none
  | a :: rest =>
    if a.actionId = actionId then some ({ a with status := status } :: rest)
    else (setFirst actionId status rest).map (a :: ·)

section
variable {F V : Type} (S : Serde F V) (C : Codec V)

/-- `snapshot_objects`; `reads` are the clock readings of the reads. -/
def snapshotObjects (g : KnowledgeGraph F V) (monitor : CapabilityMonitor) (token : CapabilityToken) :
    (Nat → Instant) → List NodeId → Except RecoveryError (Snapshot F V)
  | _, [] => .ok []
  | reads, id :: ids =>
    match g.get ⟨monitor, token, reads 0⟩ id with
    | .ok record => (snapshotObjects g monitor token (fun i => reads (i + 1)) ids).map ((id, some record) :: ·)
    | .error .notFound => (snapshotObjects g monitor token (fun i => reads (i + 1)) ids).map ((id, none) :: ·)
    | .error err => .error (.graph err)

/-- `apply_snapshot`, over the entries still to be applied. -/
def applySnapshot (call : Call C) (objects : List NodeId) : (Nat → Readings C) → Snapshot F V →
    KnowledgeGraph F V → Except RecoveryError Unit × KnowledgeGraph F V
  | _, [], g => (.ok (), g)
  | writes, (nodeId, state) :: entries, g =>
    if nodeId ∈ objects then
      match state with
      | some record =>
        match g.putNode S C { call with toReadings := writes 0 } (some nodeId) record.objectType
            record.embedding record.metadata with
        | (.error err, g) => (.error (.graph err), g)
        | (.ok _, g) => applySnapshot call objects (fun i => writes (i + 1)) entries g
      | none =>
        match g.deleteNode S C { call with toReadings := writes 0 } nodeId with
        | (.ok (), g) => applySnapshot call objects (fun i => writes (i + 1)) entries g
        | (.error .notFound, g) => applySnapshot call objects (fun i => writes (i + 1)) entries g
        | (.error err, g) => (.error (.graph err), g)
    else applySnapshot call objects (fun i => writes (i + 1)) entries g

namespace RecoveryService

def new : RecoveryService F V := ⟨∅, ∅, [], ∅, 1, 1⟩

variable (svc : RecoveryService F V)

variable (g : KnowledgeGraph F V) (call : Call C)

def recoveryPointCreate (caller : Caller) (reads : Nat → Instant) (trigger : Trigger)
    (objectsAboutToTouch : List NodeId) (now : Nat) :
    Except RecoveryError RecoveryPointId × RecoveryService F V :=
  match require caller .write with
  | .error err => (.error err, svc)
  | .ok () =>
    match snapshotObjects g caller.monitor caller.token reads objectsAboutToTouch with
    | .error err => (.error err, svc)
    | .ok snapshot =>
      let pointId := svc.nextPointId
      (.ok pointId, { svc with
        nextPointId := pointId + 1
        points := svc.points.insert pointId ⟨pointId, now, trigger, false⟩
        snapshots := svc.snapshots.insert pointId snapshot })

def recordActionStartedWithScope (recoveryPointBefore : RecoveryPointId)
    (objectsTouched : List NodeId) (agentRunId sessionId : Option Nat) (goalId : Option NodeId)
    (note : String) (now : Nat) : ActionId × RecoveryService F V :=
  let actionId := svc.nextActionId
  (actionId, { svc with
    nextActionId := actionId + 1
    actions := svc.actions ++ [{
      actionId, agentRunId, sessionId, goalId, recoveryPointBefore, objectsTouched
      status := .inFlight
      createdAt := now
      note }] })

def recordActionStarted (recoveryPointBefore : RecoveryPointId) (objectsTouched : List NodeId)
    (agentRunId : Option Nat) (note : String) (now : Nat) : ActionId × RecoveryService F V :=
  svc.recordActionStartedWithScope recoveryPointBefore objectsTouched agentRunId none none note now

def setStatus (actionId : ActionId) (status : ActionStatus) :
    Except RecoveryError Unit × RecoveryService F V :=
  match setFirst actionId status svc.actions with
  | none => (.error .noSuchAction, svc)
  | some actions => (.ok (), { svc with actions := actions })

def recordActionCommitted (actionId : ActionId) :
    Except RecoveryError Unit × RecoveryService F V := svc.setStatus actionId .committed

def recordActionAborted (actionId : ActionId) :
    Except RecoveryError Unit × RecoveryService F V := svc.setStatus actionId .aborted

def expire (actionId : ActionId) : Except RecoveryError Unit × RecoveryService F V :=
  match svc.actions.find? fun a => a.actionId = actionId with
  | none => (.error .noSuchAction, svc)
  | some record =>
    if record.status ≠ .committed then (.error .actionNotCommitted, svc)
    else svc.setStatus actionId .expired

/-! ## Restoring -/

def restoreObjects (writes : Nat → Readings C) (recoveryPointId : RecoveryPointId) (objects : List NodeId) :
    Except RecoveryError Unit × KnowledgeGraph F V :=
  match svc.snapshots[recoveryPointId]? with
  | none => (.error .noSuchRecoveryPoint, g)
  | some snapshot => applySnapshot S C call objects writes snapshot g

def restoreTo (writes : Nat → Readings C) (recoveryPointId : RecoveryPointId) :
    Except RecoveryError Unit × KnowledgeGraph F V :=
  match require ⟨call.monitor, call.token, call.requireAt⟩ .write with
  | .error err => (.error err, g)
  | .ok () =>
    match svc.snapshots[recoveryPointId]? with
    | none => (.error .noSuchRecoveryPoint, g)
    | some snapshot => svc.restoreObjects S C g call writes recoveryPointId (snapshot.map (·.1))

/-- The part of `recover_from_crash` that hands the agent of an action back to its runtime. -/
def replan {A I : Type} (R : AgentRuntime A I) (monitor : CapabilityMonitor) (token : CapabilityToken)
    (turn : Turn C) (record : ActionRecord) (agents : A) : Except RecoveryError Unit × A :=
  match record.agentRunId with
  | none => (.ok (), agents)
  | some agentRunId =>
    match R.describe agents agentRunId with
    | none => (.ok (), agents)
    | some described =>
      match R.terminate ⟨monitor, token, turn.terminateAt⟩ agents agentRunId "crash_recovery_replan" with
      | .error err => (.error (.agent err), agents)
      | .ok agents =>
        match R.spawn ⟨monitor, token, turn.spawnAt⟩ agents described with
        | .error err => (.error (.agent err), agents)
        | .ok agents => (.ok (), agents)

def recoverEach {A I : Type} (R : AgentRuntime A I) (call : Call C) : (Nat → Turn C) →
    List ActionRecord → RecoveryService F V → KnowledgeGraph F V → A →
    Except RecoveryError (List ActionId) × RecoveryService F V × KnowledgeGraph F V × A
  | _, [], svc, g, agents => (.ok [], svc, g, agents)
  | turns, record :: records, svc, g, agents =>
    match svc.restoreObjects S C g call (turns 0).writes record.recoveryPointBefore
        record.objectsTouched with
    | (.error err, g) => (.error err, svc, g, agents)
    | (.ok (), g) =>
      match replan C R call.monitor call.token (turns 0) record agents with
      | (.error err, agents) => (.error err, svc, g, agents)
      | (.ok (), agents) =>
        match svc.recordActionAborted record.actionId with
        | (.error err, svc) => (.error err, svc, g, agents)
        | (.ok (), svc) =>
          let (result, rest) := recoverEach R call (fun i => turns (i + 1)) records svc g agents
          (result.map (record.actionId :: ·), rest)

def recoverFromCrash {A I : Type} (R : AgentRuntime A I) (svc : RecoveryService F V)
    (g : KnowledgeGraph F V) (agents : A) (call : Call C) (turns : Nat → Turn C) :
    Except RecoveryError (List ActionId) × RecoveryService F V × KnowledgeGraph F V × A :=
  recoverEach S C R call turns (svc.actions.filter fun a => a.status = .inFlight) svc g agents

/-! ## Undo and redo -/

/-- The actions of the status in the scope, in the order of the journal. -/
def selected (status : ActionStatus) (scope : UndoScope) : List ActionRecord :=
  svc.actions.filter fun a => a.status = status ∧ inScope a scope = true

/-- The objects of `chosen` that other actions of a status in `live` touch, unless these are older than
all of `chosen`. -/
def conflicts (live : ActionStatus → Bool) (chosen : List ActionRecord) : List NodeId :=
  let scopeIds := chosen.map (·.actionId)
  let touched := chosen.flatMap (·.objectsTouched)
  let earliest := (chosen.map (·.createdAt)).min?.getD 0
  ((svc.actions.filter fun a => a.actionId ∉ scopeIds ∧ live a.status = true ∧ earliest ≤ a.createdAt).flatMap
    (·.objectsTouched)).filter (· ∈ touched)

def mark (ids : List ActionId) (status : ActionStatus) : RecoveryService F V :=
  { svc with actions := svc.actions.map fun a => if a.actionId ∈ ids then { a with status := status } else a }

def captureEach (g : KnowledgeGraph F V) (monitor : CapabilityMonitor) (token : CapabilityToken) :
    (Nat → Turn C) → List ActionRecord → RecoveryService F V →
    Except RecoveryError Unit × RecoveryService F V
  | _, [], svc => (.ok (), svc)
  | turns, record :: records, svc =>
    match snapshotObjects g monitor token (turns 0).reads record.objectsTouched with
    | .error err => (.error err, svc)
    | .ok snapshot =>
      captureEach g monitor token (fun i => turns (i + 1)) records
        { svc with redoSnapshots := svc.redoSnapshots.insert record.actionId snapshot }

def restoreEach (svc : RecoveryService F V) (call : Call C) : (Nat → Turn C) → List ActionRecord →
    KnowledgeGraph F V → Except RecoveryError Unit × KnowledgeGraph F V
  | _, [], g => (.ok (), g)
  | turns, record :: records, g =>
    match svc.restoreObjects S C g call (turns 0).writes record.recoveryPointBefore
        record.objectsTouched with
    | (.error err, g) => (.error err, g)
    | (.ok (), g) => restoreEach svc call (fun i => turns (i + 1)) records g

/-- Newest first; actions of one time stay in the order of the journal. -/
def newestFirst (actions : List ActionRecord) : List ActionRecord :=
  actions.insertionSort fun a b => b.createdAt ≤ a.createdAt

def undo (turns : Nat → Turn C) (scope : UndoScope) :
    Except RecoveryError UndoReceipt × RecoveryService F V × KnowledgeGraph F V :=
  match require ⟨call.monitor, call.token, call.requireAt⟩ .write with
  | .error err => (.error err, svc, g)
  | .ok () =>
    let chosen := newestFirst (svc.selected .committed scope)
    if chosen.isEmpty then (.ok .nothingToUndo, svc, g)
    else
      let conflicts := svc.conflicts (fun s => s ≠ .aborted ∧ s ≠ .undone) chosen
      if !conflicts.isEmpty then (.ok (.needsConfirmation conflicts), svc, g)
      else
        match captureEach C g call.monitor call.token turns chosen svc with
        | (.error err, svc) => (.error err, svc, g)
        | (.ok (), svc) =>
          match restoreEach S C svc call turns chosen g with
          | (.error err, g) => (.error err, svc, g)
          | (.ok (), g) =>
            let scopeIds := chosen.map (·.actionId)
            (.ok (.targeted scopeIds), svc.mark scopeIds .undone, g)

def reapplyEach (svc : RecoveryService F V) (call : Call C) : (Nat → Turn C) → List ActionRecord →
    KnowledgeGraph F V → Except RecoveryError Unit × KnowledgeGraph F V
  | _, [], g => (.ok (), g)
  | turns, record :: records, g =>
    match svc.redoSnapshots[record.actionId]? with
    | none => (.error .noSuchAction, g)
    | some snapshot =>
      match applySnapshot S C call record.objectsTouched (turns 0).writes snapshot g with
      | (.error err, g) => (.error err, g)
      | (.ok (), g) => reapplyEach svc call (fun i => turns (i + 1)) records g

def oldestFirst (actions : List ActionRecord) : List ActionRecord :=
  actions.insertionSort fun a b => a.createdAt ≤ b.createdAt

def redo (turns : Nat → Turn C) (scope : UndoScope) :
    Except RecoveryError RedoReceipt × RecoveryService F V × KnowledgeGraph F V :=
  match require ⟨call.monitor, call.token, call.requireAt⟩ .write with
  | .error err => (.error err, svc, g)
  | .ok () =>
    let chosen := oldestFirst (svc.selected .undone scope)
    if chosen.isEmpty then (.ok .nothingToRedo, svc, g)
    else
      let conflicts := svc.conflicts (fun s => s = .committed) chosen
      if !conflicts.isEmpty then (.ok (.needsConfirmation conflicts), svc, g)
      else
        match reapplyEach S C svc call turns chosen g with
        | (.error err, g) => (.error err, svc, g)
        | (.ok (), g) =>
          let scopeIds := chosen.map (·.actionId)
          (.ok (.targeted scopeIds), svc.mark scopeIds .committed, g)

/-! ## Retention -/

/-- `pin` and `unpin` as one function of the flag. -/
def setPinned (caller : Caller) (id : RecoveryPointId) (pinned : Bool) :
    Except RecoveryError Unit × RecoveryService F V :=
  match require caller .write with
  | .error err => (.error err, svc)
  | .ok () =>
    match svc.points[id]? with
    | none => (.error .noSuchRecoveryPoint, svc)
    | some point => (.ok (), { svc with points := svc.points.insert id { point with pinned := pinned } })

def pin (caller : Caller) (id : RecoveryPointId) :
    Except RecoveryError Unit × RecoveryService F V := svc.setPinned caller id true

def unpin (caller : Caller) (id : RecoveryPointId) :
    Except RecoveryError Unit × RecoveryService F V := svc.setPinned caller id false

/-- The recovery points that `undo` or `recover_from_crash` may still read. -/
def stillNeeded : List RecoveryPointId :=
  (svc.actions.filter fun a => a.status = .inFlight ∨ a.status = .committed).map (·.recoveryPointBefore)

/-- The recovery points that `compact` evicts. -/
def toEvict (now retentionSecs : Nat) : List RecoveryPointId :=
  ((svc.points.toList.map (·.2)).filter fun p =>
    p.pinned = false ∧ retentionSecs ≤ now - p.createdAt ∧ p.id ∉ svc.stillNeeded).map (·.id)

def compact (now retentionSecs : Nat) : Nat × RecoveryService F V :=
  let evicted := svc.toEvict now retentionSecs
  (evicted.length, { svc with
    points := evicted.foldl (fun m id => m.erase id) svc.points
    snapshots := evicted.foldl (fun m id => m.erase id) svc.snapshots })

end RecoveryService

end

end Hyperion.Recovery
