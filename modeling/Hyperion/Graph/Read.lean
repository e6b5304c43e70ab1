import Mathlib.Data.List.Sort
import Hyperion.Lib.Bfs
import Hyperion.Graph.Write

/-!
# The read operations of the Knowledge Graph

Every read checks the token for READ and answers from the index alone, for the boundary of the token.
`query` walks the node table in the order of the hash table, which decides between nodes of equal
score: the order is an argument of it, and `queryResults` are the answers over all orders. `traverse`
collects its answer in hash tables; it is listed here by id.
-/

namespace Hyperion.Graph
open Lib Capability Storage

structure EdgeConstraint where
  predicate : String
  node : NodeId
deriving DecidableEq, Repr

/-- A `limit` of 0 is none. -/
structure GraphQuery (F : Type) where
  typeFilter : Option (List ObjectType)
  embeddingQuery : Option (List F)
  timeRange : Option (Nat × Nat)
  edgeConstraint : Option EdgeConstraint
  deviceOriginFilter : Option Nat
  limit : Nat
deriving DecidableEq, Repr

structure QueryHit (F V : Type) where
  nodeId : NodeId
  node : NodeRecord F V
  score : F
deriving DecidableEq, Repr

structure RankingRationale (F : Type) where
  similarity : F
  typeFilterMatched : Option Bool
  withinTimeRange : Option Bool
  edgeConstraintSatisfied : Option Bool
  deviceOriginMatched : Option Bool
  wouldBeIncluded : Bool
deriving DecidableEq, Repr

structure Subgraph (F V : Type) where
  nodes : List (NodeId × NodeRecord F V × Nat)
  edges : List (EdgeId × EdgeRecord F)
deriving DecidableEq, Repr

structure GraphSnapshot (F V : Type) where
  nodes : List (NodeId × NodeRecord F V)
  edges : List (EdgeId × EdgeRecord F)
deriving DecidableEq, Repr

inductive ProvenanceChain (F : Type)
  | node (nodeId : NodeId) (objectType : ObjectType) (owner : TrustBoundaryId)
      (createdAt updatedAt : Nat) (incidentEdges : List EdgeId)
  | edge (edgeId : EdgeId) (subject : NodeId) (predicate : String) (target : NodeId)
      (origin : EdgeOrigin) (provenance : String) (confidence : Option F) (createdAt : Nat)
      (tombstone : Bool)
deriving DecidableEq, Repr

inductive ExplainRef
  | node (id : NodeId)
  | edge (id : EdgeId)
deriving DecidableEq, Repr

def NodeRecord.seenBy {F V : Type} (boundary : TrustBoundaryId) (n : NodeRecord F V) : Bool :=
  !n.tombstone && n.owner == boundary

def EdgeRecord.seenBy {F : Type} (boundary : TrustBoundaryId) (e : EdgeRecord F) : Bool :=
  !e.tombstone && e.owner == boundary

/-! ## Ranking -/

section
variable {F V : Type} [F32 F]

def F32.isZero (x : F) : Bool := F32.partialCmp x F32.zero == some .eq

def cosineSimilarity (a b : List F) : F :=
  if a.length != b.length || a.isEmpty then F32.zero
  else
    let dot := F32.sum (List.zipWith F32.mul a b)
    let normA := F32.sqrt (F32.sum (a.map fun x => F32.mul x x))
    let normB := F32.sqrt (F32.sum (b.map fun x => F32.mul x x))
    if F32.isZero normA || F32.isZero normB then F32.zero else F32.div dot (F32.mul normA normB)

/-- How `query` orders two hits: by score, the higher first; an incomparable pair counts as equal. -/
def QueryHit.ranksBefore (a b : QueryHit F V) : Bool :=
  (F32.partialCmp b.score a.score).getD .eq != .gt

end

namespace GraphIndex

section
variable {F V : Type}

variable (i : GraphIndex F V)

def satisfiesEdgeConstraint (node : NodeId) (constraint : EdgeConstraint) : Bool :=
  let forwardHit := ((i.outgoing node).filterMap i.activeEdge).any fun e =>
    e.predicate == constraint.predicate && e.target == constraint.node
  let backwardHit := ((i.incoming node).filterMap i.activeEdge).any fun e =>
    e.predicate == constraint.predicate && e.subject == constraint.node
  forwardHit || backwardHit

def rankAgainst [F32 F] (nodeId : NodeId) (node : NodeRecord F V) (query : GraphQuery F) :
    RankingRationale F :=
  let typeFilterMatched := query.typeFilter.map fun types => types.contains node.objectType
  let withinTimeRange := query.timeRange.map fun (lo, hi) =>
    decide (node.createdAt ≥ lo) && decide (node.createdAt ≤ hi)
  let edgeConstraintSatisfied := query.edgeConstraint.map (i.satisfiesEdgeConstraint nodeId)
  let deviceOriginMatched := query.deviceOriginFilter.map fun wanted => node.deviceOrigin == wanted
  { similarity :=
      match query.embeddingQuery, node.embedding with
      | some q, some e => cosineSimilarity q e
      | some _, none => F32.zero
      | none, _ => F32.one
    typeFilterMatched := typeFilterMatched
    withinTimeRange := withinTimeRange
    edgeConstraintSatisfied := edgeConstraintSatisfied
    deviceOriginMatched := deviceOriginMatched
    wouldBeIncluded := typeFilterMatched.getD true && withinTimeRange.getD true &&
      edgeConstraintSatisfied.getD true && deviceOriginMatched.getD true }

/-- The answer of `query`, from the nodes it may consider in the order in which it meets them. -/
def rankedHits [F32 F] (query : GraphQuery F) (candidates : List (NodeId × NodeRecord F V)) :
    List (QueryHit F V) :=
  let hits := candidates.filterMap fun (id, n) =>
    let rationale := i.rankAgainst id n query
    if rationale.wouldBeIncluded then some ⟨id, n, rationale.similarity⟩ else none
  let hits := hits.insertionSort fun a b => a.ranksBefore b = true
  if query.limit > 0 then hits.take query.limit else hits

def visible (boundary : TrustBoundaryId) (deviceOriginFilter : Option Nat) (id : NodeId) : Bool :=
  i.nodes[id]?.any fun n =>
    n.seenBy boundary && deviceOriginFilter.all fun wanted => n.deviceOrigin == wanted

/-- The edge and its far end, unless a traversal passes the edge over. -/
def follow (visible : NodeId → Bool) (edgeTypes : Option (List String)) (far : EdgeRecord F → NodeId)
    (id : EdgeId) : Option (EdgeId × NodeId) :=
  match i.activeEdge id with
  | none => none
  | some edge =>
    if edgeTypes.any fun types => !types.contains edge.predicate then none
    else if !visible (far edge) then none
    else some (id, far edge)

def neighbours (visible : NodeId → Bool) (edgeTypes : Option (List String)) (node : NodeId) :
    List (EdgeId × NodeId) :=
  (i.outgoing node).filterMap (i.follow visible edgeTypes EdgeRecord.target) ++
    (i.incoming node).filterMap (i.follow visible edgeTypes EdgeRecord.subject)

def subgraph (w : Walk NodeId EdgeId) : Subgraph F V where
  nodes := w.depths.toList.filterMap fun (id, depth) => i.nodes[id]?.map fun n => (id, n, depth)
  edges := w.visited.toList.filterMap fun (id, _) => i.edges[id]?.map fun e => (id, e)

/-- The edges that `explain` lists for a node: both adjacency lists, sorted, without repetition. -/
def incidentEdges (id : NodeId) : List EdgeId :=
  ((i.outgoing id ++ i.incoming id).mergeSort fun a b => decide (a ≤ b)).destutter (· ≠ ·)

end

end GraphIndex

/-! ## Reads -/

namespace KnowledgeGraph

section
variable {F V : Type} (g : KnowledgeGraph F V) (caller : Caller)

def get (nodeId : NodeId) : Except GraphError (NodeRecord F V) := do
  require caller .read
  match g.index.visibleNode caller.token.origin nodeId with
  | some node => pure node
  | none => throw .notFound

/-- `get_at_version`; the storage engine reads its own clock. -/
def getAtVersion (S : Serde F V) (storeAt : Instant) (nodeId : NodeId) (version : VersionId) :
    Except GraphError (NodeRecord F V) := do
  require caller .read
  match g.index.ownedNode caller.token.origin nodeId with
  | none => throw .notFound
  | some _ =>
    match g.storage.getObject ⟨caller.monitor, caller.token, storeAt⟩ nodeId (some version) with
    | .error .notFound => throw .notFound
    | .error err => throw (.storage err)
    | .ok payload =>
      match S.fromValue payload with
      | some (.node record) => pure record
      | _ => throw .notFound

/-- `query`, with the node table walked in the given order. -/
def query [F32 F] (order : List (NodeId × NodeRecord F V)) (query : GraphQuery F) :
    Except GraphError (List (QueryHit F V)) := do
  require caller .read
  pure (g.index.rankedHits query (order.filter fun (_, n) => n.seenBy caller.token.origin))

/-- The answers of `query` over the orders in which the hash table may be walked. -/
def queryResults [F32 F] (query : GraphQuery F) : Set (Except GraphError (List (QueryHit F V))) :=
  {result | ∃ order, order.Perm g.index.nodes.toList ∧ g.query caller order query = result}

def explainRanking [F32 F] (nodeId : NodeId) (query : GraphQuery F) :
    Except GraphError (RankingRationale F) := do
  require caller .read
  match g.index.visibleNode caller.token.origin nodeId with
  | some node => pure (g.index.rankAgainst nodeId node query)
  | none => throw .notFound

/-- `dump`; the lists are sorted by id, as the entries of a map are. -/
def dump : Except GraphError (GraphSnapshot F V) := do
  require caller .read
  pure {
    nodes := g.index.nodes.toList.filter fun (_, n) => n.seenBy caller.token.origin
    edges := g.index.edges.toList.filter fun (_, e) => e.seenBy caller.token.origin }

def traverseWithDeviceOriginFilter (start : NodeId) (edgeTypes : Option (List String))
    (maxHops : Nat) (deviceOriginFilter : Option Nat) : Except GraphError (Subgraph F V) := do
  require caller .read
  let visible := g.index.visible caller.token.origin deviceOriginFilter
  if !visible start then throw .notFound
  else pure (g.index.subgraph
    (bfs (g.index.neighbours visible edgeTypes) maxHops 0 [start] (Walk.init start)))

def traverse (start : NodeId) (edgeTypes : Option (List String)) (maxHops : Nat) :
    Except GraphError (Subgraph F V) :=
  g.traverseWithDeviceOriginFilter caller start edgeTypes maxHops none

def explain (target : ExplainRef) : Except GraphError (ProvenanceChain F) := do
  require caller .read
  match target with
  | .node id =>
    match g.index.ownedNode caller.token.origin id with
    | none => throw .notFound
    | some node =>
      pure (.node id node.objectType node.owner node.createdAt node.updatedAt
        (g.index.incidentEdges id))
  | .edge id =>
    match g.index.ownedEdge caller.token.origin id with
    | none => throw .notFound
    | some edge =>
      pure (.edge id edge.subject edge.predicate edge.target edge.origin edge.provenance
        edge.confidence edge.createdAt edge.tombstone)

end

end KnowledgeGraph

/-! ## What the reads see of the edges -/

namespace GraphIndex

section
variable {F V : Type} {i : GraphIndex F V}

variable {id : EdgeId}

theorem mem_incidentEdges {node : NodeId} :
    id ∈ i.incidentEdges node ↔ id ∈ i.outgoing node ∨ id ∈ i.incoming node := by
  have hsorted : ((i.outgoing node ++ i.incoming node).mergeSort fun a b => decide (a ≤ b)).Pairwise
      (· ≤ ·) := List.pairwise_mergeSort' (· ≤ ·) _
  rw [incidentEdges, hsorted.destutter_eq_dedup, List.mem_dedup, List.mem_mergeSort,
    List.mem_append]

theorem visibleNode_eq_filter_seenBy (i : GraphIndex F V) (boundary : TrustBoundaryId) (id : NodeId) :
    i.visibleNode boundary id = i.nodes[id]?.filter (NodeRecord.seenBy boundary) := rfl

theorem follow_eq_some_iff {visible : NodeId → Bool} {edgeTypes : Option (List String)}
    {far : EdgeRecord F → NodeId} {step : EdgeId × NodeId} :
    i.follow visible edgeTypes far id = some step ↔ ∃ e : EdgeRecord F,
      i.activeEdge id = some e ∧ (edgeTypes.any fun types => !types.contains e.predicate) = false ∧
        visible (far e) = true ∧ step = (id, far e) := by
  unfold follow
  cases i.activeEdge id with
  | none => simp
  | some e =>
    simp only [Option.some.injEq, exists_eq_left']
    cases edgeTypes.any fun types => !types.contains e.predicate with
    | true => simp
    | false =>
      cases visible (far e) with
      | true => simp [eq_comm]
      | false => simp

theorem visible_eq_true_iff {boundary : TrustBoundaryId} {deviceOriginFilter : Option Nat}
    {id : NodeId} : i.visible boundary deviceOriginFilter id = true ↔ ∃ n : NodeRecord F V,
      i.visibleNode boundary id = some n ∧
        (deviceOriginFilter.all fun wanted => n.deviceOrigin == wanted) = true := by
  simp only [visible, NodeRecord.seenBy, Option.any_eq_true, Bool.and_eq_true, Bool.not_eq_true', beq_iff_eq,
    visibleNode_eq_some_iff]
  exact exists_congr fun n => by tauto

end

end GraphIndex

end Hyperion.Graph
