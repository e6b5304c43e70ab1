import Mathlib.Data.List.Sort
import Hyperion.Graph.Read

/-!
# The memory engine

`hyperion-memory`, as far as what is learned from rollbacks goes through it. A memory is a node of a
graph whose metadata is a record; a query reads back the records that the boundary of the caller wrote.
The id of a record is that of its node and no part of the metadata.
-/

namespace Hyperion.Memory
open Lib Capability Storage Hyperion.Graph

inductive MemoryTier
  | episodic
  | semantic
  | procedural
  | longTerm
deriving DecidableEq, Repr

def MemoryTier.asObjectType : MemoryTier → ObjectType
  | .episodic => "memory_episodic"
  | .semantic => "memory_semantic"
  | .procedural => "memory_procedural"
  | .longTerm => "memory_long_term"

def allTiers : List MemoryTier := [.episodic, .semantic, .procedural, .longTerm]

structure MemoryRecord (F V : Type) where
  originBoundary : TrustBoundaryId
  tier : MemoryTier
  content : V
  embedding : Option (List F)
  createdAt : Nat
  lastAccessedAt : Nat
  accessCount : Nat
  importance : F
  decayScore : F
  pinned : Bool
  provenance : List NodeId
  erased : Bool
  dormant : Bool

structure MemoryFilter where
  tier : Option MemoryTier
  pinnedOnly : Bool
  includeDormant : Bool
  includeErased : Bool
  timeRange : Option (Nat × Nat)

inductive MemoryError
  | graph (err : GraphError)
deriving DecidableEq, Repr

/-- What a record holds when it is written. -/
def MemoryRecord.fresh {F V : Type} [F32 F] (boundary : TrustBoundaryId) (ts : Nat) (tier : MemoryTier) (content : V)
    (embedding : Option (List F)) (importance : F) (pinned : Bool) (provenance : List NodeId) :
    MemoryRecord F V where
  originBoundary := boundary
  tier := tier
  content := content
  embedding := embedding
  createdAt := ts
  lastAccessedAt := ts
  accessCount := 0
  importance := importance
  decayScore := if pinned then F32.one else importance
  pinned := pinned
  provenance := provenance
  erased := false
  dormant := false

/-- `serde_json::Value`; `object` is `json!` at an object. -/
class Values (V : Type) where
  null : V
  object : List (String × V) → V
  get : V → String → Option V
  str : String → V
  asStr : V → Option String
  u64 : Nat → V
  asU64 : V → Option Nat
  get_object : ∀ (fields : List (String × V)) key, (fields.map Prod.fst).Nodup →
    get (object fields) key = fields.lookup key
  asStr_str : ∀ s, asStr (str s) = some s
  asU64_u64 : ∀ n, asU64 (u64 n) = some n

/-- `f32` and `MemoryRecord` as JSON. Records of importance one that name nothing read back as themselves. -/
class RecordValues (F V : Type) [F32 F] where
  f32 : F → V
  ofRecord : MemoryRecord F V → V
  toRecord : V → Option (MemoryRecord F V)
  toRecord_ofRecord : ∀ boundary ts tier (content : V),
    toRecord (ofRecord (.fresh boundary ts tier content none F32.one false [])) =
      some (.fresh boundary ts tier content none F32.one false [])

/-- An order in which the node table is walked. -/
structure TableOrder (F V : Type) where
  list : HashMap NodeId (NodeRecord F V) → List (NodeId × NodeRecord F V)
  perm : ∀ nodes, (list nodes).Perm nodes.toList

section
variable {F V : Type} [F32 F]

theorem mem_rankedHits_iff {i : GraphIndex F V} {q : GraphQuery F} (hlimit : q.limit = 0)
    {candidates : List (NodeId × NodeRecord F V)} {hit : QueryHit F V} :
    hit ∈ i.rankedHits q candidates ↔ (hit.nodeId, hit.node) ∈ candidates ∧
      (i.rankAgainst hit.nodeId hit.node q).wouldBeIncluded = true ∧
      hit.score = (i.rankAgainst hit.nodeId hit.node q).similarity := by
  simp only [GraphIndex.rankedHits, hlimit, lt_irrefl, if_false, List.mem_insertionSort, List.mem_filterMap]
  constructor
  · rintro ⟨⟨id, n⟩, hmem, hsome⟩
    split at hsome
    · next hincluded =>
      cases hsome
      exact ⟨hmem, hincluded, rfl⟩
    · cases hsome
  · rintro ⟨hmem, hincluded, hscore⟩
    refine ⟨_, hmem, ?_⟩
    rw [if_pos hincluded, ← hscore]

variable [RecordValues F V]

def remember {C : Codec V} (S : Serde F V) (g : KnowledgeGraph F V) (call : Call C) (ts : Nat) (tier : MemoryTier)
    (content : V) (embedding : Option (List F)) (importance : F) (pinned : Bool) (provenance : List NodeId) :
    Except MemoryError NodeId × KnowledgeGraph F V :=
  let record := MemoryRecord.fresh call.token.origin ts tier content embedding importance pinned provenance
  let (result, g) := g.putNode S C call none tier.asObjectType embedding (RecordValues.ofRecord record)
  (result.mapError .graph, g)

def query (g : KnowledgeGraph F V) (caller : Caller) (order : TableOrder F V) (filter : MemoryFilter) :
    Except MemoryError (List (MemoryRecord F V)) :=
  match g.query caller (order.list g.index.nodes)
      { typeFilter := some (filter.tier.elim (allTiers.map MemoryTier.asObjectType) fun tier => [tier.asObjectType])
        embeddingQuery := none
        timeRange := filter.timeRange
        edgeConstraint := none
        deviceOriginFilter := none
        limit := 0 } with
  | .error err => .error (.graph err)
  | .ok hits =>
    .ok ((hits.filterMap fun hit => RecordValues.toRecord hit.node.metadata).filter fun r =>
      r.originBoundary == caller.token.origin && (!r.erased || filter.includeErased) &&
        (!r.dormant || filter.includeDormant) && (!filter.pinnedOnly || r.pinned))

/-! ## What is read back -/

/-- The boundary may read the record under the default filter of a tier. -/
structure Recalled (boundary : TrustBoundaryId) (tier : MemoryTier) (n : NodeRecord F V) (r : MemoryRecord F V) :
    Prop where
  seen : n.seenBy boundary = true
  objectType : n.objectType = tier.asObjectType
  record : RecordValues.toRecord n.metadata = some r
  origin : r.originBoundary = boundary
  shown : r.erased = false ∧ r.dormant = false

theorem mem_query {g : KnowledgeGraph F V} {caller : Caller} {order : TableOrder F V} {tier : MemoryTier}
    {records : List (MemoryRecord F V)} (h : query g caller order ⟨some tier, false, false, false, none⟩ = .ok records)
    (r : MemoryRecord F V) : r ∈ records ↔
      ∃ (id : NodeId) (n : NodeRecord F V), g.index.nodes[id]? = some n ∧ Recalled caller.token.origin tier n r := by
  unfold query KnowledgeGraph.query at h
  simp only [bind, Except.bind, pure, Except.pure] at h
  split at h
  · cases h
  · next hits hhits =>
    split at hhits
    · cases hhits
    · cases hhits
      cases h
      simp only [List.mem_filter, List.mem_filterMap, mem_rankedHits_iff, (order.perm _).mem_iff,
        Std.ExtTreeMap.mem_toList_iff_getElem?_eq_some]
      constructor
      · rintro ⟨⟨hit, ⟨⟨hnode, hseen⟩, hincluded, -⟩, hrecord⟩, hshown⟩
        refine ⟨hit.nodeId, hit.node, hnode, hseen, ?_, hrecord, ?_, ?_⟩
        · simpa [GraphIndex.rankAgainst] using hincluded
        · simp_all
        · simp_all
      · rintro ⟨id, n, hnode, hr⟩
        refine ⟨⟨⟨id, n, _⟩, ⟨⟨hnode, hr.seen⟩, ?_, rfl⟩, hr.record⟩, ?_⟩
        · simp [GraphIndex.rankAgainst, hr.objectType]
        · simp [hr.origin, hr.shown]

/-! ## What is written -/

/-- The graph takes a new node of the caller, under a new id. -/
structure Takes {C : Codec V} (g : KnowledgeGraph F V) (call : Call C) : Prop where
  caller : call.require .write = .ok ()
  stored : call.storeCaller.authorize .write = .ok ()
  completes : call.io = .completed
  unused : g.storage.inner.versionPointer[(g.storage.inner.allocate none).1]? = none
  fresh : g.index.nodes[(g.storage.inner.allocate none).1]? = none

/-- The node of a new record. -/
def nodeOf {C : Codec V} (call : Call C) (ts : Nat) (tier : MemoryTier) (content : V) : NodeRecord F V :=
  KnowledgeGraph.nodeRecord call
    { nodeId := none, objectType := tier.asObjectType, embedding := none
      metadata := RecordValues.ofRecord (F := F) (.fresh call.token.origin ts tier content none F32.one false [])
      deviceOrigin := 0, origin := .default, tenantId := 0 } none

theorem remember_nodes {C : Codec V} {S : Serde F V} {g : KnowledgeGraph F V} {call : Call C} (h : Takes g call)
    (ts : Nat) (tier : MemoryTier) (content : V) :
    (remember S g call ts tier content none F32.one false []).2.index.nodes =
      g.index.nodes.insert (g.storage.inner.allocate none).1 (nodeOf call ts tier content) := by
  unfold remember KnowledgeGraph.putNode KnowledgeGraph.putNodeWithDeviceOrigin KnowledgeGraph.putNodeWithProvenance
  simp only [h.caller, Option.bind_none, Option.any_none]
  rw [if_neg (by decide), KnowledgeGraph.write_eq_stored S C g _ h.stored h.unused h.completes]
  rfl

theorem recalled_nodeOf {C : Codec V} (call : Call C) (ts : Nat) (tier : MemoryTier) (content : V) :
    Recalled call.token.origin tier (nodeOf call ts tier content)
      (.fresh call.token.origin ts tier content none (F32.one : F) false []) where
  seen := by simp [NodeRecord.seenBy, nodeOf, KnowledgeGraph.nodeRecord, Call.callerBoundary]
  objectType := rfl
  record := RecordValues.toRecord_ofRecord ..
  origin := rfl
  shown := ⟨rfl, rfl⟩

end

end Hyperion.Memory
