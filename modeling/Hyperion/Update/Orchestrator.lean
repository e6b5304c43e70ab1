import Hyperion.Capability.Wire
import Hyperion.Graph.Run
import Hyperion.Lib.DebugText
import Hyperion.Recovery.Causes
import Hyperion.Update.Types

/-!
# The update orchestrator

`UpdateOrchestrator` of `hyperion-update`: a signed manifest is checked against the active version, a
recovery point is taken, and the rollout goes through its stages as long as their health is within the
thresholds. A rollback restores the recovery point that the subject has and moves the version pointer.

An `UpdateSystem` is the orchestrator with the recovery service, the graph, the stages of the model router
and the graph of the memory engine, if the recovery service was built with one. `ApplyCall` and
`RollbackCall` are the arguments of a call with what it reads from outside: the clocks, and for each stage
what is done to the graph meanwhile and what `health_for_stage` answers. `printable` are the characters
that a debug text does not escape.
-/

namespace Hyperion.Update
open Lib Capability Storage Hyperion.Graph Recovery Memory

/-! ## Signatures -/

section
variable (printable : Char → Bool)

def subjectDebug : UpdateSubject → List Char
  | .systemImage => "SystemImage".toList
  | .capability id => "Capability \x7b id: ".toList ++ debugStr printable id ++ " \x7d".toList
  | .model id => "Model \x7b id: ".toList ++ debugStr printable id ++ " \x7d".toList

def subjectKey (subject : UpdateSubject) : String := String.ofList (subjectDebug printable subject)

variable {K : SignatureScheme} {F : Type}

def canonicalBytes (m : UpdateManifest K F) : List UInt8 :=
  utf8Bytes (subjectDebug printable m.subject) ++ toLeBytes 4 m.fromVersion ++ toLeBytes 4 m.toVersion ++
    m.touchedObjects.flatMap fun nodeId : Fin (2 ^ 64) => toLeBytes 8 nodeId

def sign (m : UpdateManifest K F) (keystore : K.Keystore) : K.Signature :=
  K.sign keystore (canonicalBytes printable m)

def verifySignature (m : UpdateManifest K F) (key : K.VerifyingKey) : Bool :=
  match m.signature with
  | some signature =>
    let unsigned : UpdateManifest K F := { m with signature := none }
    K.verify (canonicalBytes printable unsigned) signature key
  | none => false

end

/-! ## State -/

abbrev ImplId := Nat

inductive RolloutStage (F : Type)
  | shadow
  | canary (share : F)
  | ga

structure UpdateOrchestrator where
  activeVersions : UpdateSubject → Option Version
  recoveryPoints : UpdateSubject → Option RecoveryPointId
  rolloutStates : UpdateSubject → Option RolloutState

namespace UpdateOrchestrator

def new : UpdateOrchestrator := ⟨fun _ => none, fun _ => none, fun _ => none⟩

variable (o : UpdateOrchestrator)

def activeVersion (subject : UpdateSubject) : Version :=
  (o.activeVersions subject).getD 0

def setRolloutState (subject : UpdateSubject) (state : RolloutState) : UpdateOrchestrator :=
  { o with rolloutStates := Function.update o.rolloutStates subject (some state) }

def setActiveVersion (subject : UpdateSubject) (version : Version) : UpdateOrchestrator :=
  { o with activeVersions := Function.update o.activeVersions subject (some version) }

def setRecoveryPoint (subject : UpdateSubject) (point : RecoveryPointId) : UpdateOrchestrator :=
  { o with recoveryPoints := Function.update o.recoveryPoints subject (some point) }

end UpdateOrchestrator

structure CompatibilityCheckResult where
  schemaCompatible : Bool
  migrationRequired : Bool
  hardwareCompatible : Bool
deriving DecidableEq, Repr

def CompatibilityCheckResult.isCompatible (r : CompatibilityCheckResult) : Bool :=
  r.schemaCompatible && r.hardwareCompatible

structure UpdateSystem (F V : Type) where
  orchestrator : UpdateOrchestrator
  service : RecoveryService F V
  graph : KnowledgeGraph F V
  router : ImplId → Option (RolloutStage F)
  memory : Option (KnowledgeGraph F V)

section
variable {K : SignatureScheme} {F V : Type}

def UpdateOrchestrator.compatibilityCheck (o : UpdateOrchestrator) (m : UpdateManifest K F)
    (hardwareCompatible : Bool) : CompatibilityCheckResult where
  schemaCompatible := m.fromVersion = o.activeVersion m.subject
  migrationRequired := !m.touchedObjects.isEmpty
  hardwareCompatible := hardwareCompatible

def UpdateManifest.nodeIds (m : UpdateManifest K F) : List NodeId := m.touchedObjects.map Fin.val

/-- What a rollback reads: the clock in its own `require`, what restoring reads, and what each of its
writes reads. -/
structure RollbackReadings (C : Codec V) where
  requireAt : Instant
  restore : Readings C
  writes : Nat → Readings C

/-- What happens at a stage: the changes to the graph up to the time its health is known, those that
`health_for_stage` makes among them, what it answers, and the clock when the model router is told. -/
structure StageRun (F : Type) (C : Codec V) where
  changes : List (Graph.Op F C)
  health : CohortHealth F
  routerAt : Instant

/-- What the memory reads: the clock and the order of the node table in a query, and what a record that is
written reads, with its own time. -/
structure MemoryReadings (F : Type) (C : Codec V) where
  queryAt : Instant
  order : TableOrder F V
  write : Readings C
  ts : Nat

structure ApplyCall (K : SignatureScheme) (F : Type) (C : Codec V) where
  monitor : CapabilityMonitor
  token : CapabilityToken
  manifest : UpdateManifest K F
  hardwareCompatible : Bool
  now : Nat
  verifyingKey : K.VerifyingKey
  requireAt : Instant
  memory : MemoryReadings F C
  pointAt : Instant
  reads : Nat → Instant
  stages : Nat → StageRun F C
  rollback : RollbackReadings C
  lastChanges : List (Graph.Op F C)
  finishAt : Instant

structure RollbackCall (K : SignatureScheme) (F : Type) (C : Codec V) where
  monitor : CapabilityMonitor
  token : CapabilityToken
  manifest : UpdateManifest K F
  readings : RollbackReadings C

/-- The rollback that a breach calls. -/
def ApplyCall.toRollback {C : Codec V} (call : ApplyCall K F C) : RollbackCall K F C :=
  ⟨call.monitor, call.token, call.manifest, call.rollback⟩

def require (caller : Caller) (rights : RightsMask) : Except UpdateError Unit :=
  match caller.monitor.checkRightsOkResult caller.now caller.token rights with
  | .ok () => .ok ()
  | .error _ => .error .unauthorized

namespace UpdateSystem

variable (s : UpdateSystem F V)

def setRolloutState (subject : UpdateSubject) (state : RolloutState) : UpdateSystem F V :=
  { s with orchestrator := s.orchestrator.setRolloutState subject state }

/-- `ModelRouter::set_rollout_stage`, if the rollout has a target. -/
def setRolloutStage (caller : Caller) (target : Option ImplId)
    (stage : RolloutStage F) : Except UpdateError Unit × UpdateSystem F V :=
  match target with
  | none => (.ok (), s)
  | some implId =>
    match require caller .write with
    | .error _ => (.error (.modelRouter .unauthorized), s)
    | .ok () =>
      (.ok (), { s with router := Function.update s.router implId ((s.router implId).map fun _ => stage) })

variable {C : Codec V} (S : Serde F V)

/-- `update_rollback`, and `update_rollback_with_cause` up to what it remembers. -/
def updateRollback (call : RollbackCall K F C) : Except UpdateError RollbackReceipt × UpdateSystem F V :=
  let m := call.manifest
  match require ⟨call.monitor, call.token, call.readings.requireAt⟩ .write with
  | .error err => (.error err, s)
  | .ok () =>
    match s.orchestrator.recoveryPoints m.subject with
    | none => (.error .noRecoveryPoint, s)
    | some point =>
      match (if m.touchedObjects.isEmpty then (.ok (), s.graph)
          else s.service.restoreTo S C s.graph ⟨call.readings.restore, call.monitor, call.token⟩
            call.readings.writes point) with
      | (.error err, g) => (.error (.recovery err), { s with graph := g })
      | (.ok (), g) =>
        (.ok ⟨m.subject, m.fromVersion⟩, { s with
          graph := g
          orchestrator := (s.orchestrator.setActiveVersion m.subject m.fromVersion).setRolloutState
            m.subject .rolledBack })

variable [F32 F]

def changed (g : KnowledgeGraph F V) (changes : List (Graph.Op F C)) : KnowledgeGraph F V :=
  changes.foldl (fun g op => (op.exec S g).getD g) g

def atStage (call : ApplyCall K F C) (index : Nat) : UpdateSystem F V :=
  { s.setRolloutState call.manifest.subject (.canary index) with
    graph := changed S s.graph (call.stages index).changes }

variable (printable : Char → Bool) [Values V] [RecordValues F V] (call : ApplyCall K F C)

/-- The memory after the cause of a rollback has been remembered. -/
def remembered (cause : RollbackCause V) : Option (KnowledgeGraph F V) :=
  let m := call.manifest
  if m.touchedObjects.isEmpty then s.memory
  else (s.orchestrator.recoveryPoints m.subject).elim s.memory fun point =>
    rememberCause S s.memory ⟨call.memory.write, call.monitor, call.token⟩ call.memory.ts point
      (subjectKey printable m.subject) cause call.now

/-- `update_rollback_with_cause`: the rollback, and the cause in the memory. -/
def updateRollbackWithCause (cause : RollbackCause V) :
    Except UpdateError RollbackReceipt × UpdateSystem F V :=
  match s.updateRollback S call.toRollback with
  | (.error err, s) => (.error err, s)
  | (.ok receipt, s) => (.ok receipt, { s with memory := s.remembered S printable call cause })

def breachCause (index : Nat) (stage : CohortStage) : RollbackCause V :=
  let health := (call.stages index).health
  let thresholds := call.manifest.rolloutPolicy.healthThresholds
  { reason := "rollout health breach at stage " ++ toString index ++ " (" ++ toString stage.percent ++
      "% of the fleet)"
    detail := Values.object [("stage_index", Values.u64 index), ("to_version", Values.u64 call.manifest.toVersion),
      ("crash_rate", RecordValues.f32 health.crashRate), ("latency_p99_ms", Values.u64 health.latencyP99Ms),
      ("max_crash_rate", RecordValues.f32 thresholds.maxCrashRate),
      ("max_latency_p99_ms", Values.u64 thresholds.maxLatencyP99Ms)] }

/-- What follows a breach at a stage. -/
def breach (rolloutTarget : Option ImplId) (index : Nat) (stage : CohortStage) :
    Except UpdateError Version × UpdateSystem F V :=
  match s.setRolloutStage ⟨call.monitor, call.token, (call.stages index).routerAt⟩ rolloutTarget .shadow with
  | (.error err, s) => (.error err, s)
  | (.ok (), s) =>
    if call.manifest.rolloutPolicy.autoRollbackOnBreach then
      match s.updateRollbackWithCause S printable call (breachCause call index stage) with
      | (.error err, s) => (.error err, s)
      | (.ok _, s) => (.error .rolloutHealthBreach, s)
    else (.error .rolloutHealthBreach, s.setRolloutState call.manifest.subject .rolledBack)

def rolledOut (rolloutTarget : Option ImplId) : Except UpdateError Version × UpdateSystem F V :=
  let s := { s with graph := changed S s.graph call.lastChanges }
  match s.setRolloutStage ⟨call.monitor, call.token, call.finishAt⟩ rolloutTarget .ga with
  | (.error err, s) => (.error err, s)
  | (.ok (), s) =>
    (.ok call.manifest.toVersion, { s with
      orchestrator := (s.orchestrator.setActiveVersion call.manifest.subject
        call.manifest.toVersion).setRolloutState call.manifest.subject .rolledOut })

/-- The loop over the stages from the given index on, and what follows it. -/
def rollout (rolloutTarget : Option ImplId) : List CohortStage → Nat →
    UpdateSystem F V → Except UpdateError Version × UpdateSystem F V
  | [], _, s => s.rolledOut S call rolloutTarget
  | stage :: stages, index, s =>
    let run := call.stages index
    let s := s.atStage S call index
    if !run.health.within call.manifest.rolloutPolicy.healthThresholds then
      s.breach S printable call rolloutTarget index stage
    else
      match s.setRolloutStage ⟨call.monitor, call.token, run.routerAt⟩ rolloutTarget
          (.canary (F32.div (F32.ofNat stage.percent.toNat) (F32.ofNat 100))) with
      | (.error err, s) => (.error err, s)
      | (.ok (), s) => rollout rolloutTarget stages (index + 1) s

def applyUpdateInner (rolloutTarget : Option ImplId) : Except UpdateError Version × UpdateSystem F V :=
  match require ⟨call.monitor, call.token, call.requireAt⟩ .write with
  | .error err => (.error err, s)
  | .ok () =>
    if !verifySignature printable call.manifest call.verifyingKey then (.error .signatureInvalid, s)
    else if !(s.orchestrator.compatibilityCheck call.manifest call.hardwareCompatible).isCompatible then
      (.error .incompatible, s)
    else
      match rollbackCauses s.memory ⟨call.monitor, call.token, call.memory.queryAt⟩ call.memory.order
          (subjectKey printable call.manifest.subject) with
      | .error err => (.error (.recovery err), s)
      | .ok causes =>
        match causes.reverse.find? fun r =>
            (Values.get r.cause.detail "to_version").bind Values.asU64 = some call.manifest.toVersion.val with
        | some previous => (.error (.repeatedRecentRollback previous.cause.reason), s)
        | none =>
          let s := s.setRolloutState call.manifest.subject .staged
          match s.service.recoveryPointCreate s.graph ⟨call.monitor, call.token, call.pointAt⟩ call.reads
              .preUpdate call.manifest.nodeIds call.now with
          | (.error err, service) => (.error (.recovery err), { s with service := service })
          | (.ok point, service) =>
            rollout S printable call rolloutTarget call.manifest.rolloutPolicy.stages 0 { s with
              service := service
              orchestrator := s.orchestrator.setRecoveryPoint call.manifest.subject point }

def applyUpdate : Except UpdateError Version × UpdateSystem F V :=
  s.applyUpdateInner S printable call none

def applyUpdateWithRollout (implId : ImplId) : Except UpdateError Version × UpdateSystem F V :=
  s.applyUpdateInner S printable call (some implId)

end UpdateSystem

end

/-! ## Sample calls -/

instance : Values Json where
  null := .null
  object := .obj
  get
    | .obj fields, key => fields.lookup key
    | _, _ => none
  str := .str
  asStr := JsonRecord.toStr
  u64 := jsonOfNat
  asU64 := natOfJson
  get_object _ _ _ := rfl
  asStr_str _ := rfl
  asU64_u64 := natOfJson_jsonOfNat

namespace JsonMemory

def tierName : MemoryTier → String
  | .episodic => "Episodic"
  | .semantic => "Semantic"
  | .procedural => "Procedural"
  | .longTerm => "LongTerm"

def toTier : Json → Option MemoryTier
  | .str s => allTiers.find? (tierName · == s)
  | _ => none

def ofRecord (r : MemoryRecord Int Json) : Json :=
  .obj [("access_count", jsonOfNat r.accessCount), ("content", r.content), ("created_at", jsonOfNat r.createdAt),
    ("decay_score", .float r.decayScore), ("dormant", .bool r.dormant),
    ("embedding", JsonRecord.ofOption (JsonRecord.ofFloats JsonRecord.ofFloat) r.embedding), ("erased", .bool r.erased),
    ("importance", .float r.importance), ("last_accessed_at", jsonOfNat r.lastAccessedAt),
    ("origin_boundary", jsonOfNat r.originBoundary), ("pinned", .bool r.pinned),
    ("provenance", .arr (r.provenance.map jsonOfNat)), ("tier", .str (tierName r.tier))]

def toRecord (j : Json) : Option (MemoryRecord Int Json) := do
  let accessCount ← (Values.get j "access_count").bind natOfJson
  let content ← Values.get j "content"
  let createdAt ← (Values.get j "created_at").bind natOfJson
  let decayScore ← (Values.get j "decay_score").bind JsonRecord.toFloat
  let dormant ← (Values.get j "dormant").bind JsonRecord.toBool
  let embedding ← (Values.get j "embedding").bind (JsonRecord.toOption JsonRecord.toFloats)
  let erased ← (Values.get j "erased").bind JsonRecord.toBool
  let importance ← (Values.get j "importance").bind JsonRecord.toFloat
  let lastAccessedAt ← (Values.get j "last_accessed_at").bind natOfJson
  let originBoundary ← (Values.get j "origin_boundary").bind natOfJson
  let pinned ← (Values.get j "pinned").bind JsonRecord.toBool
  let provenance ← match Values.get j "provenance" with
    | some (.arr items) => items.mapM natOfJson
    | _ => none
  let tier ← (Values.get j "tier").bind toTier
  some { originBoundary, tier, content, embedding, createdAt, lastAccessedAt, accessCount, importance,
         decayScore, pinned, provenance, erased, dormant }

end JsonMemory

instance : RecordValues Int Json where
  f32 := .float
  ofRecord := JsonMemory.ofRecord
  toRecord := JsonMemory.toRecord
  toRecord_ofRecord boundary ts tier content := by
    have htier : JsonMemory.toTier (.str (JsonMemory.tierName tier)) = some tier := by cases tier <;> decide
    simp [JsonMemory.toRecord, JsonMemory.ofRecord, MemoryRecord.fresh, Values.get, List.lookup,
      natOfJson_jsonOfNat, htier, JsonRecord.toFloat, JsonRecord.toBool, JsonRecord.ofOption,
      JsonRecord.toOption]

def atOnce : RolloutPolicy Int := ⟨[⟨100⟩], ⟨1, 500⟩, true⟩

def sampleManifest (fromVersion toVersion : Version) (touched : List (Fin (2 ^ 64))) :
    UpdateManifest .ledger Int :=
  ⟨.capability "notes", fromVersion, toVersion, some (), touched, atOnce⟩

def sampleApply (signed : List (UpdateManifest .ledger Int)) (manifest : UpdateManifest .ledger Int)
    (crashRate : Int) (changes : List (Graph.Op Int jsonSerde.plain)) :
    ApplyCall .ledger Int jsonSerde.plain :=
  let keeper := sampleCall .all false
  { monitor := keeper.monitor
    token := keeper.token
    manifest := manifest
    hardwareCompatible := true
    now := 0
    verifyingKey := signed.map (canonicalBytes fun _ => true)
    requireAt := 0
    memory := ⟨0, ⟨fun nodes => nodes.toList, fun _ => .refl _⟩, keeper.toReadings, 0⟩
    pointAt := 0
    reads := fun _ => 0
    stages := fun _ => ⟨changes, ⟨crashRate, 100⟩, 0⟩
    rollback := ⟨0, keeper.toReadings, fun _ => keeper.toReadings⟩
    lastChanges := []
    finishAt := 0 }

end Hyperion.Update
