import Hyperion.Storage.Engine
import Hyperion.Graph.Index

/-!
# The write operations of the Knowledge Graph

`KnowledgeGraph` is a storage engine and the index over its log. Every operation first checks the
token, then the owner of what it finds in the index, then stores a record and applies it to the index.
A `Call` is what an operation gets besides its arguments: the monitor, the token, the readings of the
two clocks in the order in which they are made, and how the write to the disk ends. Publishing the
change on the event bus does nothing to the graph and is left out.
-/

namespace Hyperion.Graph
open Lib Capability Storage

/-- What one operation reads from outside: the monotonic clock in `require`, at the tenant gate and in
the storage engine, the wall clock for `created_at` and for the time of this write, the nonces of its
lines, and how its write to the disk ends. -/
structure Readings {V : Type} (C : Codec V) where
  requireAt : Instant
  gateAt : Instant
  storeAt : Instant
  createdAt : Nat
  updatedAt : Nat
  nonce : Nat → C.Nonce
  io : Io

structure Call {V : Type} (C : Codec V) extends Readings C where
  monitor : CapabilityMonitor
  token : CapabilityToken

namespace Call
variable {V : Type} {C : Codec V}

def callerBoundary (call : Call C) : TrustBoundaryId := call.token.origin

def storeCaller (call : Call C) : Caller := ⟨call.monitor, call.token, call.storeAt⟩

/-- The token also carries the right to cross a tenant partition. -/
def granted (call : Call C) : Bool :=
  (call.monitor.checkRightsOkResult call.gateAt call.token .grant).toBool

end Call

/-- `require`, at the clock reading of `caller`. -/
def require (caller : Caller) (rights : RightsMask) : Except GraphError Unit :=
  match caller.monitor.checkRightsOkResult caller.now caller.token rights with
  | .ok () => .ok ()
  | .error _ => .error .unauthorized

theorem require_eq_ok_iff (caller : Caller) (rights : RightsMask) : require caller rights = .ok () ↔
    caller.monitor.isLive caller.now caller.token = true ∧ caller.token.rights.contains rights = true := by
  rw [← CapabilityMonitor.checkRightsOkResult_eq_ok_iff, require]
  cases caller.monitor.checkRightsOkResult caller.now caller.token rights <;> simp

def Call.require {V : Type} {C : Codec V} (call : Call C) (rights : RightsMask) : Except GraphError Unit :=
  Graph.require ⟨call.monitor, call.token, call.requireAt⟩ rights

structure LinkArgs (F : Type) where
  subject : NodeId
  predicate : String
  target : NodeId
  weight : F
  origin : EdgeOrigin
  confidence : Option F
  provenance : String
  observedVersion : Option Nat
deriving DecidableEq, Repr

def LinkArgs.triple {F : Type} (args : LinkArgs F) : Triple :=
  ⟨args.subject, args.predicate, args.target⟩

structure NodeArgs (F V : Type) where
  nodeId : Option NodeId
  objectType : ObjectType
  embedding : Option (List F)
  metadata : V
  deviceOrigin : Nat
  origin : NodeOrigin
  tenantId : TenantId
deriving DecidableEq, Repr

def EdgeRecord.unlinked {F : Type} (e : EdgeRecord F) : EdgeRecord F :=
  { e with tombstone := true, version := e.version + 1 }

def NodeRecord.deleted {F V : Type} (n : NodeRecord F V) (now : Nat) : NodeRecord F V :=
  { n with tombstone := true, updatedAt := now }

/-- The record that `corroborate_node` writes over a node; the count is a `u32` that saturates. -/
def NodeRecord.corroborated {F V : Type} (n : NodeRecord F V) (now : Nat) : NodeRecord F V :=
  { n with corroborationCount := min (n.corroborationCount + 1) (2 ^ 32 - 1), updatedAt := now }

structure KnowledgeGraph (F V : Type) where
  storage : StorageEngine V
  index : GraphIndex F V

namespace KnowledgeGraph

section
variable {F V : Type} (S : Serde F V) (C : Codec V)

def empty : KnowledgeGraph F V := ⟨⟨[], .empty⟩, .empty⟩

def openImpl (file : List UInt8) : Except GraphError (KnowledgeGraph F V) :=
  match StorageEngine.openImpl C file, GraphIndex.rebuild S C file with
  | .ok storage, .ok index => .ok ⟨storage, index⟩
  | .error err, _ => .error (.storage err)
  | _, .error err => .error (.storage err)

variable (g : KnowledgeGraph F V) (call : Call C)

/-- How every write ends: `put_object`, and `index.apply` once the record is stored. -/
def write (id : Option Storage.ObjectId) (expectedVersion : Option VersionId) (record : Record F V) :
    Except GraphError Storage.ObjectId × KnowledgeGraph F V :=
  match g.storage.putObject C call.storeCaller id expectedVersion (S.toValue record) (call.nonce 0)
    call.io with
  | (.error err, storage) => (.error (.storage err), { g with storage := storage })
  | (.ok (assignedId, _), storage) => (.ok assignedId, ⟨storage, g.index.apply assignedId record⟩)

def returning {α β : Type} (f : α → β) (r : Except GraphError α × KnowledgeGraph F V) :
    Except GraphError β × KnowledgeGraph F V :=
  (r.1.map f, r.2)

@[simp] theorem returning_snd {α β : Type} (f : α → β)
    (r : Except GraphError α × KnowledgeGraph F V) : (returning f r).2 = r.2 := rfl

/-! ## Edges -/

/-- The tenant a node counts under: the recorded one, or the default. -/
def tenantOf (id : NodeId) : TenantId :=
  (g.index.nodes[id]?.map (·.tenantId)).getD 0

def existingEdge (t : Triple) : Option (EdgeId × EdgeRecord F) :=
  g.index.edgeIdentity[t]?.bind fun id => g.index.edges[id]?.map fun e => (id, e)

variable {C} in
def linkRecord (args : LinkArgs F) (owner : TrustBoundaryId) (createdAt : Nat)
    (existing : Option (EdgeRecord F)) : EdgeRecord F where
  subject := args.subject
  predicate := args.predicate
  target := args.target
  weight := args.weight
  provenance := args.provenance
  origin := args.origin
  confidence := args.confidence
  owner := owner
  createdAt := createdAt
  lastConfirmedAt := call.updatedAt
  tombstone := false
  version := existing.elim 0 (·.version + 1)

def link (args : LinkArgs F) : Except GraphError LinkOutcome × KnowledgeGraph F V :=
  match call.require .write with
  | .error err => (.error err, g)
  | .ok () =>
    let subjectTenant := g.tenantOf args.subject
    let targetTenant := g.tenantOf args.target
    if subjectTenant ≠ targetTenant ∧ call.granted = false then
      (.error (.crossTenantGrantRequired subjectTenant targetTenant), g)
    else
      match g.existingEdge args.triple with
      | some (id, existing) =>
        if existing.tombstone then
          if existing.owner ≠ call.callerBoundary then (.error .notFound, g)
          else if !args.observedVersion.any (existing.version ≤ ·) then
            (.ok (.suppressedByTombstone id), g)
          else
            let record := linkRecord call args call.callerBoundary existing.createdAt (some existing)
            returning .created
              (g.write S C call (some id) (g.storage.currentVersion id) (.edge record))
        else if existing.owner ≠ call.callerBoundary then (.error .notFound, g)
        else
          let record := linkRecord call args existing.owner existing.createdAt (some existing)
          returning .updated
            (g.write S C call (some id) (g.storage.currentVersion id) (.edge record))
      | none =>
        let record := linkRecord call args call.callerBoundary call.createdAt none
        returning .created (g.write S C call none none (.edge record))

def unlink (edgeId : EdgeId) : Except GraphError Unit × KnowledgeGraph F V :=
  match call.require .write with
  | .error err => (.error err, g)
  | .ok () =>
    match g.index.ownedEdge call.callerBoundary edgeId with
    | none => (.error .notFound, g)
    | some existing =>
      if existing.tombstone then (.ok (), g)
      else
        let record := existing.unlinked
        returning (fun _ => ())
          (g.write S C call (some edgeId) (g.storage.currentVersion edgeId) (.edge record))

/-! ## Nodes -/

variable {C} in
def nodeRecord (args : NodeArgs F V) (existing : Option (NodeRecord F V)) : NodeRecord F V where
  objectType := args.objectType
  embedding := args.embedding
  metadata := args.metadata
  owner := existing.elim call.callerBoundary (·.owner)
  deviceOrigin := args.deviceOrigin
  origin := args.origin
  corroborationCount := existing.elim 0 (·.corroborationCount)
  tenantId := args.tenantId
  createdAt := existing.elim call.createdAt (·.createdAt)
  updatedAt := call.updatedAt
  tombstone := existing.any (·.tombstone)

def putNodeWithProvenance (args : NodeArgs F V) :
    Except GraphError NodeId × KnowledgeGraph F V :=
  match call.require .write with
  | .error err => (.error err, g)
  | .ok () =>
    let expectedVersion := args.nodeId.bind g.storage.currentVersion
    let existing := args.nodeId.bind fun id => g.index.nodes[id]?
    if existing.any fun n => n.owner ≠ call.callerBoundary then (.error .notFound, g)
    else g.write S C call args.nodeId expectedVersion (.node (nodeRecord call args existing))

def putNodeWithDeviceOrigin (nodeId : Option NodeId) (objectType : ObjectType)
    (embedding : Option (List F)) (metadata : V) (deviceOrigin : Nat) :
    Except GraphError NodeId × KnowledgeGraph F V :=
  g.putNodeWithProvenance S C call
    { nodeId, objectType, embedding, metadata, deviceOrigin, origin := .default, tenantId := 0 }

def putNode (nodeId : Option NodeId) (objectType : ObjectType) (embedding : Option (List F))
    (metadata : V) : Except GraphError NodeId × KnowledgeGraph F V :=
  g.putNodeWithDeviceOrigin S C call nodeId objectType embedding metadata 0

def corroborateNode (nodeId : NodeId) : Except GraphError Nat × KnowledgeGraph F V :=
  match call.require .write with
  | .error err => (.error err, g)
  | .ok () =>
    let expectedVersion := g.storage.currentVersion nodeId
    match g.index.visibleNode call.callerBoundary nodeId with
    | none => (.error .notFound, g)
    | some existing =>
      let record := existing.corroborated call.updatedAt
      returning (fun _ => record.corroborationCount)
        (g.write S C call (some nodeId) expectedVersion (.node record))

def deleteNode (nodeId : NodeId) : Except GraphError Unit × KnowledgeGraph F V :=
  match call.require .write with
  | .error err => (.error err, g)
  | .ok () =>
    match g.index.ownedNode call.callerBoundary nodeId with
    | none => (.error .notFound, g)
    | some existing =>
      if existing.tombstone then (.ok (), g)
      else
        let record := existing.deleted call.updatedAt
        returning (fun _ => ())
          (g.write S C call (some nodeId) (g.storage.currentVersion nodeId) (.node record))

def purgeNodeHistory (nodeId : NodeId) : Except GraphError Nat × KnowledgeGraph F V :=
  match call.require .write with
  | .error err => (.error err, g)
  | .ok () =>
    match g.index.ownedNode call.callerBoundary nodeId with
    | none => (.error .notFound, g)
    | some _ =>
      match g.storage.purgeObject C call.storeCaller nodeId call.nonce with
      | (.error err, storage) => (.error (.storage err), { g with storage := storage })
      | (.ok purged, storage) => (.ok purged, ⟨storage, g.index.removeNode nodeId⟩)

/-- What storing a record leads to: its line behind the file, and the views and the index with it. -/
def stored (id : Option Storage.ObjectId) (record : Record F V) : KnowledgeGraph F V where
  storage :=
    { file := g.storage.file ++
        (C.line (call.nonce 0) (g.storage.written call.storeCaller id (S.toValue record)) ++ [newline])
      inner :=
        { (g.storage.inner.allocate id).2.commit
            (g.storage.written call.storeCaller id (S.toValue record)) with
          nextVersionId := g.storage.inner.nextVersionId + 1 } }
  index := g.index.apply (g.storage.inner.allocate id).1 record

/-- What a refused write can leave: an id taken from the counter. -/
def counted (id : Option Storage.ObjectId) : KnowledgeGraph F V :=
  { g with storage := { g.storage with inner := (g.storage.inner.allocate id).2 } }

/-- What a write that fails after `written` bytes leaves. -/
def torn (id : Option Storage.ObjectId) (record : Record F V) (written : Nat) : KnowledgeGraph F V :=
  { g with
    storage :=
      { file := g.storage.file ++ (C.line (call.nonce 0)
          (g.storage.written call.storeCaller id (S.toValue record)) ++ [newline]).take written
        inner := (g.storage.inner.allocate id).2 } }

theorem write_cases (id : Option Storage.ObjectId) (expectedVersion : Option VersionId) (record : Record F V) :
    (g.write S C call id expectedVersion record).2 = g ∨
      (g.write S C call id expectedVersion record).2 = g.counted id ∨
      (∃ written, call.io = .failed written ∧
        (g.write S C call id expectedVersion record).2 = g.torn S C call id record written) ∨
      g.storage.inner.versionPointer[(g.storage.inner.allocate id).1]? = expectedVersion ∧
        (g.write S C call id expectedVersion record).2 = g.stored S C call id record := by
  unfold write
  generalize hput : g.storage.putObject C call.storeCaller id expectedVersion (S.toValue record)
    (call.nonce 0) call.io = p
  cases StorageEngine.putObject_outcome hput with
  | unauthorized => exact .inl rfl
  | conflict => exact .inr (.inl rfl)
  | failed _ _ written hio => exact .inr (.inr (.inl ⟨written, hio, rfl⟩))
  | stored _ hcas => exact .inr (.inr (.inr ⟨hcas, rfl⟩))

variable {g call} {g' : KnowledgeGraph F V} {id : Option Storage.ObjectId} {expectedVersion : Option VersionId}
  {record : Record F V} {P : KnowledgeGraph F V → Prop} {err : GraphError} {args : NodeArgs F V} {nodeId : NodeId}

theorem write_eq_ok {assigned : Storage.ObjectId}
    (h : g.write S C call id expectedVersion record = (.ok assigned, g')) :
    assigned = (g.storage.inner.allocate id).1 ∧ g' = g.stored S C call id record := by
  unfold write at h
  generalize hput : g.storage.putObject C call.storeCaller id expectedVersion (S.toValue record)
    (call.nonce 0) call.io = p at h
  cases StorageEngine.putObject_outcome hput with
  | unauthorized | conflict | failed => exact nomatch h
  | stored =>
    obtain ⟨hassigned, hg⟩ := Prod.mk.inj h
    exact ⟨(Except.ok.inj hassigned).symm, hg.symm⟩

theorem write_eq_stored (g : KnowledgeGraph F V) (record : Record F V)
    (hauth : call.storeCaller.authorize .write = .ok ())
    (hcas : g.storage.inner.versionPointer[(g.storage.inner.allocate id).1]? = expectedVersion)
    (hio : call.io = .completed) : g.write S C call id expectedVersion record =
      (.ok (g.storage.inner.allocate id).1, g.stored S C call id record) := by
  rw [write, hio, g.storage.putObject_eq_stored C id expectedVersion hauth hcas]
  rfl

theorem putNodeWithProvenance_eq_ok {id : NodeId} (h : g.putNodeWithProvenance S C call args = (.ok id, g')) :
    (∀ n, (args.nodeId.bind fun id => g.index.nodes[id]?) = some n → n.owner = call.callerBoundary) ∧
      id = (g.storage.inner.allocate args.nodeId).1 ∧
      g' = g.stored S C call args.nodeId
        (.node (nodeRecord call args (args.nodeId.bind fun id => g.index.nodes[id]?))) := by
  unfold putNodeWithProvenance at h
  split at h
  · exact nomatch h
  · dsimp only at h
    split at h
    · exact nomatch h
    · next howner =>
      obtain ⟨hid, hg⟩ := write_eq_ok S C h
      refine ⟨fun n hn => ?_, hid, hg⟩
      rw [hn] at howner
      simpa using howner

theorem write_error_index
    (h : g.write S C call id expectedVersion record = (.error err, g')) : g'.index = g.index := by
  unfold write at h
  split at h
  · cases h
    rfl
  · cases h

theorem putNodeWithProvenance_error_index
    (h : g.putNodeWithProvenance S C call args = (.error err, g')) : g'.index = g.index := by
  unfold putNodeWithProvenance at h
  split at h
  · cases h
    rfl
  · dsimp only at h
    split at h
    · cases h
      rfl
    · exact write_error_index S C h

theorem deleteNode_error_index
    (h : g.deleteNode S C call nodeId = (.error err, g')) : g'.index = g.index := by
  unfold deleteNode at h
  split at h
  · cases h
    rfl
  · split at h
    · cases h
      rfl
    · split at h
      · cases h
      · next existing _ _ =>
        rcases hwrite : g.write S C call (some nodeId) (g.storage.currentVersion nodeId)
          (.node (existing.deleted call.updatedAt)) with ⟨result, g₁⟩
        dsimp only at h
        rw [hwrite] at h
        cases result with
        | ok _ => cases h
        | error _ =>
          cases h
          exact write_error_index S C hwrite

theorem write_ne_notFound :
    g.write S C call id expectedVersion record ≠ (.error .notFound, g') := by
  unfold write
  split <;> exact fun h => nomatch h

theorem deleteNode_cases {result : Except GraphError Unit} (h : g.deleteNode S C call nodeId = (result, g'))
    (hresult : result = .ok () ∨ result = .error .notFound) :
    (g' = g ∧ ∀ n, g.index.nodes[nodeId]? = some n → n.owner = call.callerBoundary → n.tombstone = true) ∨
    ∃ n, g.index.nodes[nodeId]? = some n ∧ n.owner = call.callerBoundary ∧ n.tombstone = false ∧
      g' = g.stored S C call (some nodeId) (.node (n.deleted call.updatedAt)) := by
  unfold deleteNode at h
  split at h
  · next err hreq =>
    obtain ⟨rfl, -⟩ := Prod.mk.inj h
    rcases hresult with hok | hnot
    · cases hok
    · obtain rfl := Except.error.inj hnot
      unfold Call.require Graph.require at hreq
      split at hreq <;> cases hreq
  · split at h
    · next hnone =>
      obtain ⟨-, rfl⟩ := Prod.mk.inj h
      refine .inl ⟨rfl, fun n hn howner => ?_⟩
      simp [GraphIndex.ownedNode, hn, Option.filter, howner] at hnone
    · next existing hsome =>
      obtain ⟨hexisting, howner⟩ := GraphIndex.ownedNode_eq_some_iff.mp hsome
      split at h
      · next htombstone =>
        obtain ⟨-, rfl⟩ := Prod.mk.inj h
        refine .inl ⟨rfl, fun n hn _ => ?_⟩
        cases hexisting.symm.trans hn
        exact htombstone
      · next htombstone =>
        right
        refine ⟨existing, hexisting, howner, Bool.eq_false_of_not_eq_true htombstone, ?_⟩
        obtain ⟨hres, hg⟩ := Prod.mk.inj h
        cases hwrite : g.write S C call (some nodeId) (g.storage.currentVersion nodeId)
            (.node (existing.deleted call.updatedAt)) with
        | mk outcome after =>
          rw [hwrite] at hres hg
          cases outcome with
          | ok id =>
            obtain rfl : after = g' := hg
            exact (write_eq_ok S C hwrite).2
          | error err =>
            rcases hresult with hok | hnot
            · cases hres.trans hok
            · obtain rfl := Except.error.inj (hres.trans hnot)
              exact absurd hwrite (write_ne_notFound S C)

/-! ## Loops -/

/-- `edge.weight * recency as f32` for an inferred edge; an explicit one does not decay. -/
def effectiveEdgeWeight [F32 F] (edge : EdgeRecord F) (now : Nat) : F :=
  if edge.origin = .explicit then edge.weight
  else F32.mul edge.weight (F32.recency (now - edge.lastConfirmedAt))

def unlinkAll (call : Call C) :
    (Nat → Readings C) → List EdgeId → KnowledgeGraph F V → Except GraphError Unit × KnowledgeGraph F V
  | _, [], g => (.ok (), g)
  | readings, id :: ids, g =>
    match g.unlink S C { call with toReadings := readings 0 } id with
    | (.error err, g) => (.error err, g)
    | (.ok (), g) => unlinkAll call (fun i => readings (i + 1)) ids g

/-- `prune_decayed_edges`, with `order` the order of iteration over the edge table. -/
def pruneDecayedEdges [F32 F] (g : KnowledgeGraph F V) (call : Call C) (threshold : F) (now : Nat)
    (order : List (EdgeId × EdgeRecord F)) (readings : Nat → Readings C) :
    Except GraphError (List EdgeId) × KnowledgeGraph F V :=
  match call.require .write with
  | .error err => (.error err, g)
  | .ok () =>
    let toPrune := (order.filter fun (_, edge) => !edge.tombstone && edge.owner = call.callerBoundary &&
      edge.origin = .inferred &&
      F32.partialCmp (effectiveEdgeWeight edge now) threshold = some .lt).map (·.1)
    returning (fun _ => toPrune) (unlinkAll S C call readings toPrune g)

theorem unlinkAll_induction (call : Call C) {readings : Nat → Readings C}
    (hstep : ∀ n id g, P g → P (g.unlink S C { call with toReadings := readings n } id).2)
    (ids : List EdgeId) {g : KnowledgeGraph F V} (h : P g) : P (unlinkAll S C call readings ids g).2 := by
  induction ids generalizing readings g with
  | nil => exact h
  | cons id ids ih =>
    have hg := hstep 0 id g h
    unfold unlinkAll
    split
    · next hres => rwa [hres] at hg
    · next hres =>
      rw [hres] at hg
      exact ih (fun n => hstep (n + 1)) hg

structure ImportedNode (V : Type) where
  id : Nat
  objectType : ObjectType
  metadata : V

structure ImportedEdge (F : Type) where
  subject : Nat
  predicate : String
  target : Nat
  weight : F
  provenance : String
  origin : EdgeOrigin
  confidence : Option F

structure GraphImport (F V : Type) where
  nodes : List (ImportedNode V)
  edges : List (ImportedEdge F)

structure ImportReport where
  nodesCreated : Nat
  edgesCreated : Nat
  edgesSkippedUnresolved : Nat
deriving DecidableEq, Repr

/-- The loop of `import_json` over the nodes, which fills the translation table. -/
def importNodes (call : Call C) : (Nat → Readings C) → List (ImportedNode V) → HashMap Nat NodeId →
    KnowledgeGraph F V → Except GraphError (HashMap Nat NodeId) × KnowledgeGraph F V
  | _, [], translation, g => (.ok translation, g)
  | readings, node :: nodes, translation, g =>
    match g.putNode S C { call with toReadings := readings 0 } none node.objectType none node.metadata with
    | (.error err, g) => (.error err, g)
    | (.ok realId, g) =>
      importNodes call (fun i => readings (i + 1)) nodes (translation.insert node.id realId) g

/-- The loop of `import_json` over the edges, which counts those created and those skipped. -/
def importEdges (call : Call C) (translation : HashMap Nat NodeId) : (Nat → Readings C) →
    List (ImportedEdge F) → Nat × Nat → KnowledgeGraph F V →
    Except GraphError (Nat × Nat) × KnowledgeGraph F V
  | _, [], counts, g => (.ok counts, g)
  | readings, edge :: edges, (created, skipped), g =>
    match translation[edge.subject]?, translation[edge.target]? with
    | some subject, some target =>
      match g.link S C { call with toReadings := readings 0 }
          { subject, predicate := edge.predicate, target, weight := edge.weight, origin := edge.origin,
            confidence := edge.confidence, provenance := edge.provenance, observedVersion := none } with
      | (.error err, g) => (.error err, g)
      | (.ok _, g) =>
        importEdges call translation (fun i => readings (i + 1)) edges (created + 1, skipped) g
    | _, _ => importEdges call translation readings edges (created, skipped + 1) g

/-- `import_json`, with `parse` the `serde_json::from_str` at `GraphImport`. -/
def importJson (parse : String → Except String (GraphImport F V)) (g : KnowledgeGraph F V)
    (call : Call C) (json : String) (nodeReadings edgeReadings : Nat → Readings C) :
    Except GraphError ImportReport × KnowledgeGraph F V :=
  match parse json with
  | .error message => (.error (.malformed message), g)
  | .ok parsed =>
    match importNodes S C call nodeReadings parsed.nodes ∅ g with
    | (.error err, g) => (.error err, g)
    | (.ok translation, g) =>
      returning (fun (created, skipped) => ⟨parsed.nodes.length, created, skipped⟩)
        (importEdges S C call translation edgeReadings parsed.edges (0, 0) g)

theorem importJson_induction (call : Call C) (hnode : ∀ readings objectType metadata g, P g →
      P (g.putNode S C { call with toReadings := readings } none objectType none metadata).2)
    (hlink : ∀ readings args g, P g → P (g.link S C { call with toReadings := readings } args).2)
    (parse : String → Except String (GraphImport F V)) (json : String)
    (nodeReadings edgeReadings : Nat → Readings C) {g : KnowledgeGraph F V} (h : P g) :
    P (g.importJson S C parse call json nodeReadings edgeReadings).2 := by
  have hnodes : ∀ nodes readings translation (g : KnowledgeGraph F V), P g →
      P (importNodes S C call readings nodes translation g).2 := by
    intro nodes
    induction nodes with
    | nil => exact fun _ _ _ hg => hg
    | cons node nodes ih =>
      intro readings translation g hg
      have hg' := hnode (readings 0) node.objectType node.metadata g hg
      unfold importNodes
      split
      · next hres => rwa [hres] at hg'
      · next hres =>
        rw [hres] at hg'
        exact ih _ _ _ hg'
  have hedges : ∀ edges readings translation counts (g : KnowledgeGraph F V), P g →
      P (importEdges S C call translation readings edges counts g).2 := by
    intro edges
    induction edges with
    | nil => exact fun _ _ _ _ hg => hg
    | cons edge edges ih =>
      intro readings translation counts g hg
      unfold importEdges
      split
      · next subject target _ _ =>
        have hg' := hlink (readings 0)
          { subject, predicate := edge.predicate, target, weight := edge.weight, origin := edge.origin,
            confidence := edge.confidence, provenance := edge.provenance, observedVersion := none } g hg
        split
        · next hres => rwa [hres] at hg'
        · next hres =>
          rw [hres] at hg'
          exact ih _ _ _ _ hg'
      · exact ih _ _ _ _ hg
  unfold importJson
  split
  · exact h
  · next parsed _ =>
    have hg := hnodes parsed.nodes nodeReadings ∅ g h
    split
    · next hres => rwa [hres] at hg
    · next translation _ hres =>
      rw [hres] at hg
      exact hedges _ _ translation _ _ hg

end

end KnowledgeGraph

end Hyperion.Graph
