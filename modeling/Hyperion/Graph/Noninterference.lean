import Hyperion.Graph.Isolation
import Hyperion.Graph.Read

/-!
# What a boundary reads

A boundary should see its own records and nothing of the others. The adjacency lists hold the edges of
every boundary and the reads pick them up by node, so an edge that another boundary has linked to a
node of this one is seen. Where there is no such edge, two graphs with the same records of a boundary
read the same for it.
-/

namespace Hyperion.Graph
open Lib Capability Storage Option List HashMap Std.ExtTreeMap KnowledgeGraph

namespace GraphIndex

section
variable {F V : Type} {n : NodeRecord F V} {node : NodeId}

structure Agree (boundary : TrustBoundaryId) (i j : GraphIndex F V) : Prop where
  node : ∀ id, i.ownedNode boundary id = j.ownedNode boundary id
  edge : ∀ id, i.ownedEdge boundary id = j.ownedEdge boundary id

/-- No edge of another boundary touches a node of this one, deleted or not. -/
def OwnEdgesOnly (boundary : TrustBoundaryId) (i : GraphIndex F V) : Prop :=
  ∀ (id : EdgeId) (e : EdgeRecord F), i.edges[id]? = some e → e.owner ≠ boundary →
    i.ownedNode boundary e.subject = none ∧ i.ownedNode boundary e.target = none

def withoutForeign (boundary : TrustBoundaryId) (i : GraphIndex F V) : GraphIndex F V where
  nodes := i.nodes.filter fun _ n => n.owner == boundary
  edges := i.edges.filter fun _ e => e.owner == boundary
  forward := i.forward.map fun _ ids => ids.filter fun id => i.edges[id]?.any (·.owner == boundary)
  backward := i.backward.map fun _ ids => ids.filter fun id => i.edges[id]?.any (·.owner == boundary)
  edgeIdentity := i.edgeIdentity.filter fun _ id => i.edges[id]?.any (·.owner == boundary)

/-- What the reads of the boundary depend on: its records, and at its nodes the adjacency lists with
the edges on them. -/
structure SameView (boundary : TrustBoundaryId) (i j : GraphIndex F V) : Prop
    extends Agree boundary i j where
  outgoing : ∀ {node n}, i.ownedNode boundary node = some n →
    (i.outgoing node).Perm (j.outgoing node)
  incoming : ∀ {node n}, i.ownedNode boundary node = some n →
    (i.incoming node).Perm (j.incoming node)
  incident : ∀ {node n}, i.ownedNode boundary node = some n → ∀ {id : EdgeId},
    id ∈ i.outgoing node ∨ id ∈ i.incoming node → i.edges[id]? = j.edges[id]?

variable {boundary : TrustBoundaryId} {i j : GraphIndex F V}

theorem visibleNode_eq_filter (i : GraphIndex F V) (boundary : TrustBoundaryId) (id : NodeId) :
    i.visibleNode boundary id = (i.ownedNode boundary id).filter fun n => !n.tombstone := by
  rw [visibleNode, ownedNode, Option.filter_filter]
  simp only [Bool.and_comm]

theorem ownedNode_of_visibleNode {id : NodeId}
    (h : i.visibleNode boundary id = some n) : i.ownedNode boundary id = some n := by
  obtain ⟨hn, -, howner⟩ := visibleNode_eq_some_iff.mp h
  exact ownedNode_eq_some_iff.mpr ⟨hn, howner⟩

theorem Agree.visibleNode (h : Agree boundary i j) (id : NodeId) :
    i.visibleNode boundary id = j.visibleNode boundary id := by
  rw [visibleNode_eq_filter, visibleNode_eq_filter, h.node]

/-! ## The view -/

theorem mem_postings_iff_owned {lists : HashMap NodeId (List EdgeId)} {field : EdgeRecord F → NodeId}
    (hposts : Posts lists i.edges field)
    (hforeign : ∀ (id : EdgeId) (e : EdgeRecord F), i.edges[id]? = some e → e.owner ≠ boundary →
      i.ownedNode boundary (field e) = none) (hnode : i.ownedNode boundary node = some n) (id : EdgeId) :
    id ∈ postings lists node ↔
      ∃ e : EdgeRecord F, i.ownedEdge boundary id = some e ∧ field e = node := by
  rw [hposts.mem_iff]
  refine exists_congr fun e => ?_
  rw [ownedEdge_eq_some_iff, and_assoc]
  refine and_congr_right fun he => ⟨fun hfield => ⟨?_, hfield⟩, fun hfield => hfield.2⟩
  by_contra howner
  have hnone := hforeign id e he howner
  rw [hfield, hnode] at hnone
  cases hnone

theorem OwnEdgesOnly.mem_outgoing (h : OwnEdgesOnly boundary i) (hadj : i.Adjacent)
    (hnode : i.ownedNode boundary node = some n) (id : EdgeId) : id ∈ i.outgoing node ↔
      ∃ e : EdgeRecord F, i.ownedEdge boundary id = some e ∧ e.subject = node :=
  mem_postings_iff_owned hadj.forward (fun id e he hne => (h id e he hne).1) hnode id

theorem OwnEdgesOnly.mem_incoming (h : OwnEdgesOnly boundary i) (hadj : i.Adjacent)
    (hnode : i.ownedNode boundary node = some n) (id : EdgeId) : id ∈ i.incoming node ↔
      ∃ e : EdgeRecord F, i.ownedEdge boundary id = some e ∧ e.target = node :=
  mem_postings_iff_owned hadj.backward (fun id e he hne => (h id e he hne).2) hnode id

theorem ownEdgesOnly_of_owner
    (h : ∀ (id : EdgeId) (e : EdgeRecord F), i.edges[id]? = some e → e.owner = boundary) :
    OwnEdgesOnly boundary i :=
  fun id e he hforeign => absurd (h id e he) hforeign

theorem Agree.get_node (h : Agree boundary i j) {id : NodeId}
    (hn : i.ownedNode boundary id = some n) : i.nodes[id]? = j.nodes[id]? := by
  rw [(ownedNode_eq_some_iff.mp hn).1, (ownedNode_eq_some_iff.mp ((h.node id).symm.trans hn)).1]

variable {id : EdgeId} {e : EdgeRecord F}

theorem Agree.get_edge (h : Agree boundary i j)
    (he : i.ownedEdge boundary id = some e) : i.edges[id]? = j.edges[id]? := by
  rw [(ownedEdge_eq_some_iff.mp he).1, (ownedEdge_eq_some_iff.mp ((h.edge id).symm.trans he)).1]

theorem Agree.sameView (h : Agree boundary i j) (hi : i.Adjacent) (hj : j.Adjacent)
    (hiOwn : OwnEdgesOnly boundary i) (hjOwn : OwnEdgesOnly boundary j) : SameView boundary i j where
  toAgree := h
  outgoing {node n} hnode := by
    refine (perm_ext_iff_of_nodup (hi.forward.nodup node) (hj.forward.nodup node)).mpr fun id => ?_
    refine (hiOwn.mem_outgoing hi hnode id).trans (Iff.trans ?_
      (hjOwn.mem_outgoing hj ((h.node node).symm.trans hnode) id).symm)
    rw [h.edge]
  incoming {node n} hnode := by
    refine (perm_ext_iff_of_nodup (hi.backward.nodup node) (hj.backward.nodup node)).mpr fun id => ?_
    refine (hiOwn.mem_incoming hi hnode id).trans (Iff.trans ?_
      (hjOwn.mem_incoming hj ((h.node node).symm.trans hnode) id).symm)
    rw [h.edge]
  incident {node n} hnode {id} hid := by
    rcases hid with hout | hin
    · obtain ⟨e, he, -⟩ := (hiOwn.mem_outgoing hi hnode id).mp hout
      exact h.get_edge he
    · obtain ⟨e, he, -⟩ := (hiOwn.mem_incoming hi hnode id).mp hin
      exact h.get_edge he

theorem agree_apply {id : Storage.ObjectId} {record : Record F V} (hfits : OwnerFits i id record)
    (hforeign : record.owner ≠ boundary) : Agree boundary i (i.apply id record) := by
  cases record with
  | node n =>
    refine ⟨fun id' => Option.ext fun n' => ?_, fun _ => rfl⟩
    rw [ownedNode_eq_some_iff, ownedNode_eq_some_iff, apply_node_nodes, get_insert]
    refine and_congr_left fun howner => ?_
    split
    · next heq =>
      subst heq
      refine ⟨fun hn' => absurd ((hfits n' hn').symm.trans howner) hforeign, ?_⟩
      rintro ⟨⟩
      exact absurd howner hforeign
    · exact Iff.rfl
  | edge e =>
    refine ⟨fun _ => rfl, fun id' => Option.ext fun e' => ?_⟩
    rw [ownedEdge_eq_some_iff, ownedEdge_eq_some_iff, apply_edge_edges, get_insert]
    refine and_congr_left fun howner => ?_
    split
    · next heq =>
      subst heq
      refine ⟨fun he' => absurd ((hfits e' he').symm.trans howner) hforeign, ?_⟩
      rintro ⟨⟩
      exact absurd howner hforeign
    · exact Iff.rfl

/-! ## The records of the boundary alone -/

theorem agree_withoutForeign (boundary : TrustBoundaryId) (i : GraphIndex F V) :
    Agree boundary i (i.withoutForeign boundary) where
  node id := by
    ext n
    simp only [ownedNode_eq_some_iff, withoutForeign, get_filter_eq_some_iff, beq_iff_eq]
    tauto
  edge id := by
    ext e
    simp only [ownedEdge_eq_some_iff, withoutForeign, get_filter_eq_some_iff, beq_iff_eq]
    tauto

theorem get_withoutForeign_edges
    (h : (i.withoutForeign boundary).edges[id]? = some e) : i.edges[id]? = some e ∧ e.owner = boundary := by
  obtain ⟨he, howner⟩ := (get_filter_eq_some_iff _ _ _ _).mp h
  exact ⟨he, beq_iff_eq.mp howner⟩

theorem ownEdgesOnly_withoutForeign (boundary : TrustBoundaryId) (i : GraphIndex F V) :
    OwnEdgesOnly boundary (i.withoutForeign boundary) :=
  ownEdgesOnly_of_owner fun _ _ he => (get_withoutForeign_edges he).2

theorem Adjacent.withoutForeign (h : i.Adjacent) (boundary : TrustBoundaryId) :
    (i.withoutForeign boundary).Adjacent where
  forward := h.forward.filter _
  backward := h.backward.filter _
  identity t id := by
    simp only [GraphIndex.withoutForeign, HashMap.get_filter_eq_some_iff, h.identity, Option.any_eq_true,
      beq_iff_eq]
    constructor
    · rintro ⟨⟨e, he, ht⟩, e', he', howner⟩
      cases he.symm.trans he'
      exact ⟨e, ⟨he, howner⟩, ht⟩
    · rintro ⟨e, ⟨he, howner⟩, ht⟩
      exact ⟨⟨e, he, ht⟩, e, he, howner⟩

/-! ## What depends on the view -/

theorem activeEdge_congr (h : i.edges[id]? = j.edges[id]?) :
    i.activeEdge id = j.activeEdge id := by
  rw [activeEdge, activeEdge, h]

theorem perm_filterMap_activeEdge {ids ids' : List EdgeId} (hperm : ids.Perm ids')
    (hsame : ∀ id ∈ ids, i.edges[id]? = j.edges[id]?) :
    (ids.filterMap i.activeEdge).Perm (ids'.filterMap j.activeEdge) := by
  rw [filterMap_congr fun id hid => activeEdge_congr (hsame id hid)]
  exact hperm.filterMap _

theorem SameView.satisfiesEdgeConstraint (h : SameView boundary i j)
    (hnode : i.ownedNode boundary node = some n) (constraint : EdgeConstraint) :
    i.satisfiesEdgeConstraint node constraint = j.satisfiesEdgeConstraint node constraint := by
  have hout := perm_filterMap_activeEdge (h.outgoing hnode) fun id hid => h.incident hnode (.inl hid)
  have hin := perm_filterMap_activeEdge (h.incoming hnode) fun id hid => h.incident hnode (.inr hid)
  unfold GraphIndex.satisfiesEdgeConstraint
  rw [hout.any_eq, hin.any_eq]

theorem SameView.rankAgainst [F32 F] (h : SameView boundary i j)
    (hnode : i.ownedNode boundary node = some n) (query : GraphQuery F) :
    i.rankAgainst node n query = j.rankAgainst node n query := by
  have hconstraint : i.satisfiesEdgeConstraint node = j.satisfiesEdgeConstraint node :=
    funext (h.satisfiesEdgeConstraint hnode)
  unfold GraphIndex.rankAgainst
  rw [hconstraint]

theorem SameView.incidentEdges (h : SameView boundary i j)
    (hnode : i.ownedNode boundary node = some n) : i.incidentEdges node = j.incidentEdges node := by
  have hperm := (h.outgoing hnode).append (h.incoming hnode)
  have hsort : (i.outgoing node ++ i.incoming node).mergeSort (fun a b => decide (a ≤ b)) =
      (j.outgoing node ++ j.incoming node).mergeSort (fun a b => decide (a ≤ b)) := by
    refine List.Perm.eq_of_pairwise' (pairwise_mergeSort' (· ≤ ·) _)
      (pairwise_mergeSort' (· ≤ ·) _) ?_
    exact (mergeSort_perm _ _).trans (hperm.trans (mergeSort_perm _ _).symm)
  rw [GraphIndex.incidentEdges, hsort, GraphIndex.incidentEdges]

theorem Agree.visible (h : Agree boundary i j) (deviceOriginFilter : Option Nat) :
    i.visible boundary deviceOriginFilter = j.visible boundary deviceOriginFilter := by
  funext id
  rw [Bool.eq_iff_iff, visible_eq_true_iff, visible_eq_true_iff, h.visibleNode]

theorem SameView.neighbours (h : SameView boundary i j) (hnode : i.ownedNode boundary node = some n)
    (visible : NodeId → Bool) (edgeTypes : Option (List String)) :
    (i.neighbours visible edgeTypes node).Perm (j.neighbours visible edgeTypes node) := by
  have hfollow : ∀ (far : EdgeRecord F → NodeId) (id : EdgeId),
      id ∈ i.outgoing node ∨ id ∈ i.incoming node →
        i.follow visible edgeTypes far id = j.follow visible edgeTypes far id := by
    intro far id hid
    rw [follow, follow, activeEdge_congr (h.incident hnode hid)]
  unfold GraphIndex.neighbours
  rw [filterMap_congr fun id hid => hfollow EdgeRecord.target id (.inl hid),
    filterMap_congr fun id hid => hfollow EdgeRecord.subject id (.inr hid)]
  exact ((h.outgoing hnode).filterMap _).append ((h.incoming hnode).filterMap _)

theorem visible_of_mem_neighbours {visible : NodeId → Bool} {edgeTypes : Option (List String)}
    {node m : NodeId} (h : (id, m) ∈ i.neighbours visible edgeTypes node) :
    visible m = true ∧ (id ∈ i.outgoing node ∨ id ∈ i.incoming node) := by
  rcases mem_append.mp h with hout | hin
  · obtain ⟨id', hid, hfollow⟩ := mem_filterMap.mp hout
    obtain ⟨e, -, -, hvisible, hstep⟩ := follow_eq_some_iff.mp hfollow
    cases hstep
    exact ⟨hvisible, .inl hid⟩
  · obtain ⟨id', hid, hfollow⟩ := mem_filterMap.mp hin
    obtain ⟨e, -, -, hvisible, hstep⟩ := follow_eq_some_iff.mp hfollow
    cases hstep
    exact ⟨hvisible, .inr hid⟩

theorem SameView.subgraph_bfs (h : SameView boundary i j) {visible : NodeId → Bool}
    (howned : ∀ node, visible node = true → ∃ n, i.ownedNode boundary node = some n) {start : NodeId}
    (hstart : visible start = true) (edgeTypes : Option (List String)) (maxHops : Nat) :
    i.subgraph (bfs (i.neighbours visible edgeTypes) maxHops 0 [start] (Walk.init start)) =
      j.subgraph (bfs (j.neighbours visible edgeTypes) maxHops 0 [start] (Walk.init start)) := by
  have hclosed : ∀ node, visible node = true → ∀ id m, (id, m) ∈ i.neighbours visible edgeTypes node →
      visible m = true := fun node _ id m hm => (visible_of_mem_neighbours hm).1
  have hsame : ∀ node, visible node = true → ∀ step,
      step ∈ i.neighbours visible edgeTypes node ↔ step ∈ j.neighbours visible edgeTypes node := by
    intro node hnode step
    obtain ⟨n, hn⟩ := howned node hnode
    exact (h.neighbours hn _ _).mem_iff
  have hball := fun d => (ball_congr (P := fun node => visible node = true) hstart hclosed hsame d).2
  have hexplored := explored_bfs (i.neighbours visible edgeTypes) start maxHops
  obtain ⟨hdepths, hvisited⟩ :=
    bfs_congr (P := fun node => visible node = true) hstart hclosed hsame maxHops
  unfold subgraph
  rw [← hdepths, ← hvisited]
  congr 1
  · refine filterMap_congr fun ⟨id, depth⟩ hmem => ?_
    have hdepth := mem_toList_iff_getElem?_eq_some.mp hmem
    obtain ⟨-, hat⟩ := (hexplored.depths id depth).mp hdepth
    obtain ⟨n, hn⟩ := howned id (hball depth id hat.1)
    exact congrArg (Option.map fun n => (id, n, depth)) (h.get_node hn)
  · refine filterMap_congr fun ⟨id, _⟩ hmem => ?_
    have hid := mem_toList_iff_getElem?_eq_some.mp hmem
    obtain ⟨d, -, node, m, hat, hstep⟩ := (hexplored.visited id).mp hid
    obtain ⟨n, hn⟩ := howned node (hball d node hat.1)
    have hedge := h.incident hn (visible_of_mem_neighbours hstep).2
    exact congrArg (Option.map fun e => (id, e)) hedge

end

end GraphIndex

/-! ## Reads -/

section
variable {F V : Type} {boundary : TrustBoundaryId}

structure SameReads [F32 F] (caller : Caller) (g g' : KnowledgeGraph F V) : Prop where
  get : ∀ nodeId, g.get caller nodeId = g'.get caller nodeId
  query : ∀ query, g.queryResults caller query = g'.queryResults caller query
  explainRanking : ∀ nodeId query,
    g.explainRanking caller nodeId query = g'.explainRanking caller nodeId query
  traverse : ∀ start edgeTypes maxHops deviceOriginFilter,
    g.traverseWithDeviceOriginFilter caller start edgeTypes maxHops deviceOriginFilter =
      g'.traverseWithDeviceOriginFilter caller start edgeTypes maxHops deviceOriginFilter
  dump : g.dump caller = g'.dump caller
  explain : ∀ target, g.explain caller target = g'.explain caller target

def KnowledgeGraph.withoutForeign (boundary : TrustBoundaryId) (g : KnowledgeGraph F V) :
    KnowledgeGraph F V :=
  { g with index := g.index.withoutForeign boundary }

open GraphIndex
variable {caller : Caller} {g g' : KnowledgeGraph F V}

section
variable (h : SameView caller.token.origin g.index g'.index)
include h

theorem GraphIndex.SameView.get (nodeId : NodeId) : g.get caller nodeId = g'.get caller nodeId := by
  unfold KnowledgeGraph.get
  rw [h.visibleNode]

theorem GraphIndex.SameView.explainRanking [F32 F] (nodeId : NodeId) (query : GraphQuery F) :
    g.explainRanking caller nodeId query = g'.explainRanking caller nodeId query := by
  unfold KnowledgeGraph.explainRanking
  rw [← h.visibleNode]
  cases hnode : g.index.visibleNode caller.token.origin nodeId with
  | none => rfl
  | some n => simp only [h.rankAgainst (ownedNode_of_visibleNode hnode)]

theorem GraphIndex.SameView.dump : g.dump caller = g'.dump caller := by
  have hnodes : g.index.nodes.filter (fun _ n => n.seenBy caller.token.origin) =
      g'.index.nodes.filter fun _ n => n.seenBy caller.token.origin := by
    refine ext_getElem? fun id => ?_
    rw [Std.ExtTreeMap.getElem?_filter', Std.ExtTreeMap.getElem?_filter']
    exact h.visibleNode id
  have hedges : g.index.edges.filter (fun _ e => e.seenBy caller.token.origin) =
      g'.index.edges.filter fun _ e => e.seenBy caller.token.origin := by
    refine ext_getElem? fun id => Option.ext fun e => ?_
    have hedge : g.index.ownedEdge caller.token.origin id = some e ↔
        g'.index.ownedEdge caller.token.origin id = some e := by rw [h.edge]
    rw [ownedEdge_eq_some_iff, ownedEdge_eq_some_iff] at hedge
    simp only [get_filter_eq_some_iff, EdgeRecord.seenBy, Bool.and_eq_true, beq_iff_eq]
    tauto
  have hnodeList := congrArg Std.ExtTreeMap.toList hnodes
  have hedgeList := congrArg Std.ExtTreeMap.toList hedges
  rw [Std.ExtTreeMap.toList_filter, Std.ExtTreeMap.toList_filter] at hnodeList hedgeList
  unfold KnowledgeGraph.dump
  rw [hnodeList, hedgeList]

theorem GraphIndex.SameView.symm : SameView caller.token.origin g'.index g.index where
  node id := (h.node id).symm
  edge id := (h.edge id).symm
  outgoing {node _} hnode := (h.outgoing ((h.node node).trans hnode)).symm
  incoming {node _} hnode := (h.incoming ((h.node node).trans hnode)).symm
  incident {node _} hnode {_} hid := by
    have hnode' := (h.node node).trans hnode
    refine (h.incident hnode' ?_).symm
    rwa [(h.outgoing hnode').mem_iff, (h.incoming hnode').mem_iff]

end

variable {i j : GraphIndex F V}

theorem GraphIndex.SameView.exists_order (h : SameView boundary i j)
    {order : List (NodeId × NodeRecord F V)} (horder : order.Perm i.nodes.toList) :
    ∃ order' : List (NodeId × NodeRecord F V), order'.Perm j.nodes.toList ∧
      (order'.filter fun p => p.2.seenBy boundary) = order.filter fun p => p.2.seenBy boundary := by
  have hseen : (i.nodes.toList.filter fun p => p.2.seenBy boundary).Perm
      (j.nodes.toList.filter fun p => p.2.seenBy boundary) := by
    refine (perm_ext_iff_of_nodup (i.nodes.toList_nodup.filter _)
      (j.nodes.toList_nodup.filter _)).mpr fun ⟨id, n⟩ => ?_
    have hnode : i.visibleNode boundary id = some n ↔ j.visibleNode boundary id = some n := by
      rw [h.visibleNode]
    simpa [mem_toList_iff_getElem?_eq_some, visibleNode_eq_filter_seenBy,
      filter_eq_some_iff] using hnode
  refine ⟨(order.filter fun p => p.2.seenBy boundary) ++
    j.nodes.toList.filter fun p => !p.2.seenBy boundary, ?_, ?_⟩
  · exact (((horder.filter _).trans hseen).append_right _).trans (filter_append_perm _ _)
  · simp [List.filter_append, List.filter_filter]

theorem GraphIndex.SameView.rankedHits [F32 F]
    (h : SameView boundary i j) (query : GraphQuery F) {candidates : List (NodeId × NodeRecord F V)}
    (hnode : ∀ id n, (id, n) ∈ candidates → i.ownedNode boundary id = some n) :
    i.rankedHits query candidates = j.rankedHits query candidates := by
  unfold GraphIndex.rankedHits
  rw [filterMap_congr]
  rintro ⟨id, n⟩ hmem
  simp only [h.rankAgainst (hnode id n hmem)]

section
variable (h : SameView caller.token.origin g.index g'.index)
include h

theorem GraphIndex.SameView.queryResults_subset [F32 F] (query : GraphQuery F) :
    g.queryResults caller query ⊆ g'.queryResults caller query := by
  rintro result ⟨order, horder, rfl⟩
  obtain ⟨order', horder', hfilter⟩ := h.exists_order horder
  refine ⟨order', horder', ?_⟩
  unfold KnowledgeGraph.query
  rw [hfilter, h.rankedHits]
  intro id n hmem
  obtain ⟨hin, hseen⟩ := mem_filter.mp hmem
  have hget := mem_toList_iff_getElem?_eq_some.mp (horder.mem_iff.mp hin)
  refine ownedNode_of_visibleNode ?_
  rw [visibleNode_eq_filter_seenBy, hget]
  exact filter_some_pos hseen

theorem GraphIndex.SameView.query [F32 F] (query : GraphQuery F) :
    g.queryResults caller query = g'.queryResults caller query :=
  (h.queryResults_subset query).antisymm (h.symm.queryResults_subset query)

theorem GraphIndex.SameView.traverse (start : NodeId)
    (edgeTypes : Option (List String)) (maxHops : Nat) (deviceOriginFilter : Option Nat) :
    g.traverseWithDeviceOriginFilter caller start edgeTypes maxHops deviceOriginFilter =
      g'.traverseWithDeviceOriginFilter caller start edgeTypes maxHops deviceOriginFilter := by
  unfold traverseWithDeviceOriginFilter
  simp only [← h.visible]
  cases hstart : g.index.visible caller.token.origin deviceOriginFilter start with
  | false => rfl
  | true =>
    have howned : ∀ node, g.index.visible caller.token.origin deviceOriginFilter node = true →
        ∃ n, g.index.ownedNode caller.token.origin node = some n := by
      intro node hnode
      obtain ⟨n, hn, -⟩ := visible_eq_true_iff.mp hnode
      exact ⟨n, ownedNode_of_visibleNode hn⟩
    simp only [h.subgraph_bfs howned hstart]

theorem GraphIndex.SameView.explain (target : ExplainRef) :
    g.explain caller target = g'.explain caller target := by
  unfold KnowledgeGraph.explain
  cases target with
  | node id =>
    simp only
    rw [← h.node]
    cases hnode : g.index.ownedNode caller.token.origin id with
    | none => rfl
    | some n => simp only [h.incidentEdges hnode]
  | edge id =>
    simp only
    rw [h.edge]

theorem GraphIndex.SameView.sameReads [F32 F] : SameReads caller g g' :=
  ⟨h.get, h.query, h.explainRanking, h.traverse, h.dump, h.explain⟩

end

/-! ## What a foreign edge shows -/

def reader (boundary : TrustBoundaryId) : Caller :=
  let (token, monitor) := CapabilityMonitor.new.mintRoot 1 0 .read boundary none
  ⟨monitor, token, 0⟩

theorem reader_require (boundary : TrustBoundaryId) : require (reader boundary) .read = .ok () := by
  have hlive : (reader boundary).monitor.isLive 0 (reader boundary).token = true :=
    (CapabilityMonitor.isLive_iff _ _ _).mpr
      ⟨⟨_, (get_insert _ _ _ _).trans (if_pos rfl), rfl, rfl, rfl⟩, rfl⟩
  have hrights : RightsMask.read.contains .read = true := by decide
  exact (require_eq_ok_iff _ _).mpr ⟨hlive, hrights⟩

theorem reader_explain {id : NodeId} {n : NodeRecord F V}
    (h : g.index.ownedNode boundary id = some n) : g.explain (reader boundary) (.node id) =
      .ok (.node id n.objectType n.owner n.createdAt n.updatedAt (g.index.incidentEdges id)) := by
  have horigin : (reader boundary).token.origin = boundary := rfl
  unfold explain
  simp only [reader_require, horigin, h]
  rfl

theorem ownEdgesOnly_of_explain (hadj : g.index.Adjacent) (h : ∀ target, g.explain (reader boundary) target =
      (g.withoutForeign boundary).explain (reader boundary) target) : OwnEdgesOnly boundary g.index := by
  intro id e he hforeign
  have hhidden : ∀ node, id ∈ g.index.incidentEdges node → g.index.ownedNode boundary node = none := by
    intro node hid
    cases hnode : g.index.ownedNode boundary node with
    | none => rfl
    | some n =>
      have hnode' : (g.withoutForeign boundary).index.ownedNode boundary node = some n :=
        ((agree_withoutForeign boundary g.index).node node).symm.trans hnode
      have hexplain := h (.node node)
      rw [reader_explain hnode, reader_explain hnode'] at hexplain
      simp only [Except.ok.injEq, ProvenanceChain.node.injEq, true_and] at hexplain
      rw [hexplain, mem_incidentEdges] at hid
      -- the redacted index lists the boundary's own edges alone
      have hadj' := hadj.withoutForeign boundary
      have hown : ∃ e', (g.index.withoutForeign boundary).edges[id]? = some e' := by
        rcases hid with hout | hin
        · obtain ⟨e', he', -⟩ := (hadj'.forward.mem_iff node id).mp hout
          exact ⟨e', he'⟩
        · obtain ⟨e', he', -⟩ := (hadj'.backward.mem_iff node id).mp hin
          exact ⟨e', he'⟩
      obtain ⟨e', he'⟩ := hown
      obtain ⟨hget, howner⟩ := get_withoutForeign_edges he'
      cases he.symm.trans hget
      exact absurd howner hforeign
  constructor
  · exact hhidden _ (mem_incidentEdges.mpr (.inl ((hadj.forward.mem_iff _ _).mpr ⟨e, he, rfl⟩)))
  · exact hhidden _ (mem_incidentEdges.mpr (.inr ((hadj.backward.mem_iff _ _).mpr ⟨e, he, rfl⟩)))

variable {C : Codec V} {S : Serde F V} {reread : V → Option V} {given : Inputs F V}

/-- **Reads depend on the own records alone exactly where no foreign edge touches an own node.** For
two graphs reached without I/O failure over inputs that read back and without a wrap of the id counter,
which hold the same records of a boundary: every caller of the boundary reads the same from both, and
from each the same as if the records of the other boundaries were not there, if and only if neither
holds an edge of another boundary at a node of this one. -/
theorem own_records_determine_reads [F32 F] (L : C.Lawful reread) (hS : S.Lawful reread given)
    {g₁ g₂ : KnowledgeGraph F V} (h₁ : Reached C S (Op.Regular given) g₁)
    (h₂ : Reached C S (Op.Regular given) g₂) {b : TrustBoundaryId}
    (hagree : Agree b g₁.index g₂.index) :
    (∀ caller : Caller, caller.token.origin = b → SameReads caller g₁ g₂ ∧
        SameReads caller g₁ (g₁.withoutForeign b) ∧ SameReads caller g₂ (g₂.withoutForeign b)) ↔
      OwnEdgesOnly b g₁.index ∧ OwnEdgesOnly b g₂.index := by
  obtain ⟨_, hlog₁⟩ := (h₁.sound L hS).logged
  obtain ⟨_, hlog₂⟩ := (h₂.sound L hS).logged
  have hadj₁ := hlog₁.adjacent
  have hadj₂ := hlog₂.adjacent
  constructor
  · intro hreads
    obtain ⟨-, hreads₁, hreads₂⟩ := hreads (reader b) rfl
    exact ⟨ownEdgesOnly_of_explain hadj₁ hreads₁.explain, ownEdgesOnly_of_explain hadj₂ hreads₂.explain⟩
  · rintro ⟨hown₁, hown₂⟩ caller rfl
    refine ⟨(hagree.sameView hadj₁ hadj₂ hown₁ hown₂).sameReads, ?_, ?_⟩
    · exact ((agree_withoutForeign _ _).sameView hadj₁ (hadj₁.withoutForeign _) hown₁
        (ownEdgesOnly_withoutForeign _ _)).sameReads
    · exact ((agree_withoutForeign _ _).sameView hadj₂ (hadj₂.withoutForeign _) hown₂
        (ownEdgesOnly_withoutForeign _ _)).sameReads

end

/-! ## Two nodes, and an edge of the other writer between them -/

section
open GraphIndex

def crossLinkedPair : KnowledgeGraph Int Json :=
  (unlinkedPair.link jsonRecord _ otherWriter (sampleLink 0 1)).2

theorem crossLinkedPair_regular : Reached jsonSerde.plain jsonRecord (Op.Regular shallow) crossLinkedPair :=
  unlinkedPair_regular.tail ⟨.link otherWriter (sampleLink 0 1),
    ⟨rfl, sampleLink_within _ _ _, fun _ => by decide⟩, rfl⟩

theorem linkedPair_edges_owner (id : EdgeId) (e : EdgeRecord Int)
    (h : linkedPair.index.edges[id]? = some e) : e.owner = plainWriter.callerBoundary := by
  change ((∅ : HashMap EdgeId (EdgeRecord Int)).insert 2 _)[id]? = some e at h
  rw [get_insert] at h
  split at h
  · cases h
    rfl
  · simp at h

/-- The linked pair reads the same with a node of the other writer beside it. -/
theorem own_records_determine_reads_pair :
    Reached jsonSerde.plain jsonRecord (Op.Regular shallow) linkedPair ∧
      Reached jsonSerde.plain jsonRecord (Op.Regular shallow) accompaniedPair ∧
      SameReads (reader plainWriter.callerBoundary) linkedPair accompaniedPair := by
  refine ⟨linkedPair_regular, accompaniedPair_regular, ?_⟩
  have hindex : ∃ n, accompaniedPair.index = linkedPair.index.apply 3 (.node n) ∧
      linkedPair.index.nodes[3]? = none ∧ n.owner = otherWriter.callerBoundary := ⟨_, rfl, rfl, rfl⟩
  obtain ⟨n, hindex, hfresh, howner⟩ := hindex
  have hagree : Agree plainWriter.callerBoundary linkedPair.index accompaniedPair.index := by
    rw [hindex]
    refine agree_apply (fun old hold => ?_) ?_
    · cases hfresh.symm.trans hold
    · rw [Record.owner, howner]
      decide
  have hown : OwnEdgesOnly plainWriter.callerBoundary accompaniedPair.index := by
    rw [hindex]
    exact ownEdgesOnly_of_owner linkedPair_edges_owner
  exact ((own_records_determine_reads jsonSerde_lawful jsonRecord_exact.lawful linkedPair_regular
    accompaniedPair_regular hagree).mpr ⟨ownEdgesOnly_of_owner linkedPair_edges_owner, hown⟩ _ rfl).1

/-- The other writer links the two nodes of the plain writer, and the plain writer's reads show it: a
traversal brings back the edge, an edge constraint counts it. -/
theorem foreign_edge_shows_in_reads : ∃ g₁ g₂ : KnowledgeGraph Int Json,
    Reached jsonSerde.plain jsonRecord (Op.Regular shallow) g₁ ∧
      Reached jsonSerde.plain jsonRecord (Op.Regular shallow) g₂ ∧
      Agree plainWriter.callerBoundary g₁.index g₂.index ∧
      (∃ s₁ s₂ e, g₁.traverse (reader plainWriter.callerBoundary) 0 none 1 = .ok s₁ ∧
        g₂.traverse (reader plainWriter.callerBoundary) 0 none 1 = .ok s₂ ∧
        s₁.edges = [] ∧ s₂.edges = [(2, e)] ∧ e.owner = otherWriter.callerBoundary) ∧
      ∃ q r₁ r₂, g₁.explainRanking (reader plainWriter.callerBoundary) 0 q = .ok r₁ ∧
        g₂.explainRanking (reader plainWriter.callerBoundary) 0 q = .ok r₂ ∧
        r₁.wouldBeIncluded = false ∧ r₂.wouldBeIncluded = true := by
  refine ⟨unlinkedPair, crossLinkedPair, unlinkedPair_regular, crossLinkedPair_regular, ?_, ?_, ?_⟩
  · have hindex : ∃ e, crossLinkedPair.index = unlinkedPair.index.apply 2 (.edge e) ∧
        unlinkedPair.index.edges[2]? = none ∧ e.owner = otherWriter.callerBoundary := ⟨_, rfl, rfl, rfl⟩
    obtain ⟨e, hindex, hfresh, howner⟩ := hindex
    rw [hindex]
    refine agree_apply (fun old hold => ?_) ?_
    · cases hfresh.symm.trans hold
    · rw [Record.owner, howner]
      decide
  · exact ⟨_, _, _, rfl, rfl, rfl, rfl, rfl⟩
  · exact ⟨⟨none, none, none, some ⟨"about", 1⟩, none, 0⟩, _, _, rfl, rfl, rfl, rfl⟩

end

end Hyperion.Graph
