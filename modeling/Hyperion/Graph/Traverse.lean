import Hyperion.Graph.Noninterference

/-!
# Traversal

`traverse` is breadth-first search over the adjacency lists of the index. Where the lists are those of
the edge table, its answer can be said without them: the nodes are those at the end of a path of at most
`max_hops` edges, with the length of a shortest one, and the edges are those that such a path may still
follow.

The lists are right as long as an id keeps its edge. The 64-bit counter of ids may wrap, though, to an id
that holds an edge: `purge_node_history` takes the version of an id from the engine and leaves the edge
of that id in the index.
-/

namespace Hyperion.Graph
open Lib Capability Storage List Option

section
variable {F V : Type}

def EdgeRecord.Joins (e : EdgeRecord F) (a b : NodeId) : Prop :=
  e.subject = a ∧ e.target = b ∨ e.target = a ∧ e.subject = b

namespace GraphIndex

section
variable (i : GraphIndex F V) (boundary : TrustBoundaryId) (deviceOrigin : Option Nat)
  (edgeTypes : Option (List String))

def Sees (id : NodeId) : Prop :=
  ∃ n : NodeRecord F V, i.nodes[id]? = some n ∧ n.tombstone = false ∧ n.owner = boundary ∧
    ∀ wanted ∈ deviceOrigin, n.deviceOrigin = wanted

def Allows (id : EdgeId) (e : EdgeRecord F) : Prop :=
  i.activeEdge id = some e ∧ ∀ types ∈ edgeTypes, e.predicate ∈ types

def Leads (a b : NodeId) : Prop :=
  i.Sees boundary deviceOrigin b ∧ ∃ (id : EdgeId) (e : EdgeRecord F), i.Allows edgeTypes id e ∧ e.Joins a b

/-- A path of `k` allowed edges through visible nodes leads from the start to the node. -/
abbrev Path (start : NodeId) (k : Nat) (id : NodeId) : Prop :=
  Hops (i.Leads boundary deviceOrigin edgeTypes) start k id

structure BoundedSearch (start : NodeId) (maxHops : Nat) (sub : Subgraph F V) : Prop where
  nodes : ∀ (id : NodeId) (n : NodeRecord F V) (depth : Nat), (id, n, depth) ∈ sub.nodes ↔
    i.nodes[id]? = some n ∧ depth ≤ maxHops ∧
      IsLeast {k | i.Path boundary deviceOrigin edgeTypes start k id} depth
  nodesOnce : (sub.nodes.map Prod.fst).Nodup
  edges : ∀ (id : EdgeId) (e : EdgeRecord F), (id, e) ∈ sub.edges ↔
    i.Allows edgeTypes id e ∧ i.Sees boundary deviceOrigin e.subject ∧
      i.Sees boundary deviceOrigin e.target ∧
      ∃ depth < maxHops, i.Path boundary deviceOrigin edgeTypes start depth e.subject ∨
        i.Path boundary deviceOrigin edgeTypes start depth e.target
  edgesOnce : (sub.edges.map Prod.fst).Nodup

end

variable {i : GraphIndex F V} {boundary : TrustBoundaryId} {deviceOrigin : Option Nat}
  {edgeTypes : Option (List String)}

theorem visible_iff_sees {id : NodeId} :
    i.visible boundary deviceOrigin id = true ↔ i.Sees boundary deviceOrigin id := by
  rw [visible_eq_true_iff, Sees]
  refine exists_congr fun n => ?_
  rw [visibleNode_eq_some_iff]
  cases deviceOrigin <;> simp [and_assoc]

variable {w : Walk NodeId EdgeId} {id : EdgeId}

theorem follow_eq_some_iff_allows {far : EdgeRecord F → NodeId} {step : EdgeId × NodeId} :
    i.follow (i.visible boundary deviceOrigin) edgeTypes far id = some step ↔
      ∃ e : EdgeRecord F, i.Allows edgeTypes id e ∧ i.Sees boundary deviceOrigin (far e) ∧
        step = (id, far e) := by
  rw [follow_eq_some_iff]
  refine exists_congr fun e => ?_
  rw [visible_iff_sees, Allows]
  cases edgeTypes <;> simp [and_assoc]

theorem Adjacent.mem_neighbours_iff (h : i.Adjacent) {a b : NodeId} :
    (id, b) ∈ i.neighbours (i.visible boundary deviceOrigin) edgeTypes a ↔
      i.Sees boundary deviceOrigin b ∧ ∃ e : EdgeRecord F, i.Allows edgeTypes id e ∧ e.Joins a b := by
  have hforward : ∀ e : EdgeRecord F, i.Allows edgeTypes id e → (id ∈ i.outgoing a ↔ e.subject = a) :=
    fun e he => h.forward.mem_iff_field_eq (activeEdge_eq_some_iff.mp he.1).1
  have hbackward : ∀ e : EdgeRecord F, i.Allows edgeTypes id e → (id ∈ i.incoming a ↔ e.target = a) :=
    fun e he => h.backward.mem_iff_field_eq (activeEdge_eq_some_iff.mp he.1).1
  simp only [neighbours, mem_append, mem_filterMap, follow_eq_some_iff_allows, Prod.mk.injEq]
  constructor
  · rintro (⟨id', hid, e, he, hsees, rfl, rfl⟩ | ⟨id', hid, e, he, hsees, rfl, rfl⟩)
    · exact ⟨hsees, e, he, .inl ⟨(hforward e he).mp hid, rfl⟩⟩
    · exact ⟨hsees, e, he, .inr ⟨(hbackward e he).mp hid, rfl⟩⟩
  · rintro ⟨hsees, e, he, ⟨hsubject, rfl⟩ | ⟨htarget, rfl⟩⟩
    · exact .inl ⟨id, (hforward e he).mpr hsubject, e, he, hsees, rfl, rfl⟩
    · exact .inr ⟨id, (hbackward e he).mpr htarget, e, he, hsees, rfl, rfl⟩

/-! ## What a traversal collects -/

theorem mem_subgraph_nodes {id : NodeId} {n : NodeRecord F V} {depth : Nat} :
    (id, n, depth) ∈ (i.subgraph w).nodes ↔ i.nodes[id]? = some n ∧ w.depths[id]? = some depth := by
  simp only [subgraph, mem_filterMap, Prod.exists, Std.ExtTreeMap.mem_toList_iff_getElem?_eq_some,
    map_eq_some_iff, Prod.mk.injEq]
  constructor
  · rintro ⟨id', depth', hdepth, n', hn, rfl, rfl, rfl⟩
    exact ⟨hn, hdepth⟩
  · rintro ⟨hn, hdepth⟩
    exact ⟨id, depth, hdepth, n, hn, rfl, rfl, rfl⟩

theorem mem_subgraph_edges {e : EdgeRecord F} :
    (id, e) ∈ (i.subgraph w).edges ↔ i.edges[id]? = some e ∧ w.visited[id]? = some () := by
  simp only [subgraph, mem_filterMap, Prod.exists, Std.ExtTreeMap.mem_toList_iff_getElem?_eq_some,
    map_eq_some_iff, Prod.mk.injEq]
  constructor
  · rintro ⟨id', _, hvisited, e', he, rfl, rfl⟩
    exact ⟨he, hvisited⟩
  · rintro ⟨he, hvisited⟩
    exact ⟨id, (), hvisited, e, he, rfl, rfl⟩

theorem nodup_filterMap_toList {K A B : Type} [Ord K] [Std.TransOrd K] [Std.LawfulEqOrd K]
    (m : HashMap K A) {f : K × A → Option (K × B)} (hf : ∀ entry out, f entry = some out → out.1 = entry.1) :
    ((m.toList.filterMap f).map Prod.fst).Nodup := by
  rw [List.Nodup, pairwise_map, pairwise_filterMap]
  refine m.toList_pairwise_ne.imp fun hne out hout out' hout' heq => hne ?_
  exact (hf _ _ hout).symm.trans (heq.trans (hf _ _ hout'))

theorem subgraph_nodes_nodup (w : Walk NodeId EdgeId) : ((i.subgraph w).nodes.map Prod.fst).Nodup :=
  nodup_filterMap_toList _ fun entry out hout => by
    obtain ⟨n, -, rfl⟩ := map_eq_some_iff.mp hout
    rfl

theorem subgraph_edges_nodup (w : Walk NodeId EdgeId) : ((i.subgraph w).edges.map Prod.fst).Nodup :=
  nodup_filterMap_toList _ fun entry out hout => by
    obtain ⟨e, -, rfl⟩ := map_eq_some_iff.mp hout
    rfl

theorem Path.sees {start id : NodeId} {k : Nat} (hstart : i.Sees boundary deviceOrigin start)
    (h : i.Path boundary deviceOrigin edgeTypes start k id) : i.Sees boundary deviceOrigin id := by
  cases h with
  | nil => exact hstart
  | snoc _ hstep => exact hstep.1

theorem Adjacent.boundedSearch (h : i.Adjacent) {start : NodeId} (maxHops : Nat)
    (hstart : i.Sees boundary deviceOrigin start) :
    i.BoundedSearch boundary deviceOrigin edgeTypes start maxHops
      (i.subgraph (bfs (i.neighbours (i.visible boundary deviceOrigin) edgeTypes) maxHops 0 [start]
        (Walk.init start))) := by
  have hexplored := explored_bfs (i.neighbours (i.visible boundary deviceOrigin) edgeTypes) start maxHops
  have hstep : ∀ a b, i.Leads boundary deviceOrigin edgeTypes a b ↔
      ∃ id, (id, b) ∈ i.neighbours (i.visible boundary deviceOrigin) edgeTypes a := by
    intro a b
    simp only [h.mem_neighbours_iff, Leads, exists_and_left]
  refine ⟨fun id n depth => ?_, subgraph_nodes_nodup _, fun id e => ?_, subgraph_edges_nodup _⟩
  · rw [mem_subgraph_nodes, hexplored.depths, atDepth_iff_isLeast hstep]
  · rw [mem_subgraph_edges, hexplored.visited]
    constructor
    · rintro ⟨he, depth, hdepth, a, b, ha, hb⟩
      obtain ⟨hsees, e', hallows, hjoins⟩ := h.mem_neighbours_iff.mp hb
      cases he.symm.trans (activeEdge_eq_some_iff.mp hallows.1).1
      have hpath := ((atDepth_iff_isLeast hstep).mp ha).1
      have hsees' := Path.sees hstart hpath
      rcases hjoins with ⟨rfl, rfl⟩ | ⟨rfl, rfl⟩
      · exact ⟨hallows, hsees', hsees, depth, hdepth, .inl hpath⟩
      · exact ⟨hallows, hsees, hsees', depth, hdepth, .inr hpath⟩
    · -- the edge is followed from its end that is nearer than `maxHops`, at that end's own depth
      have hfollowed : ∀ {a b : NodeId} {k : Nat}, k < maxHops → i.Allows edgeTypes id e → e.Joins a b →
          i.Sees boundary deviceOrigin b → i.Path boundary deviceOrigin edgeTypes start k a →
          i.edges[id]? = some e ∧ ∃ d < maxHops, ∃ n m,
            AtDepth (i.neighbours (i.visible boundary deviceOrigin) edgeTypes) start d n ∧
              (id, m) ∈ i.neighbours (i.visible boundary deviceOrigin) edgeTypes n := by
        intro a b k hk hallows hjoins hsees hpath
        obtain ⟨d, hd, hdepth⟩ := mem_ball_iff.mp (hpath.mem_ball fun n m => (hstep n m).mp)
        exact ⟨(activeEdge_eq_some_iff.mp hallows.1).1, d, lt_of_le_of_lt hd hk, a, b, hdepth,
          h.mem_neighbours_iff.mpr ⟨hsees, e, hallows, hjoins⟩⟩
      rintro ⟨hallows, hsubject, htarget, k, hk, hpath | hpath⟩
      · exact hfollowed hk hallows (.inl ⟨rfl, rfl⟩) htarget hpath
      · exact hfollowed hk hallows (.inr ⟨rfl, rfl⟩) hsubject hpath

end GraphIndex

section
variable {C : Codec V} {S : Serde F V} {reread : V → Option V} {given : Inputs F V}
  {g : KnowledgeGraph F V}

/-- **A traversal is a bounded breadth-first search.** In every graph that runs without I/O failure and
without a wrap of the id counter lead to, over inputs that read back, a traversal from a visible node
answers the visible nodes within `maxHops` hops, each once and with the length of a shortest path to it,
and the allowed edges between visible nodes of which one is nearer than that. -/
theorem traverse_is_bounded_search [F32 F] (L : C.Lawful reread) (hS : S.Lawful reread given)
    (h : Reached C S (Op.Regular given) g) (caller : Caller) (start : NodeId)
    (edgeTypes : Option (List String)) (maxHops : Nat) (deviceOriginFilter : Option Nat)
    (hread : require caller .read = .ok ())
    (hstart : g.index.Sees caller.token.origin deviceOriginFilter start) :
    ∃ sub, g.traverseWithDeviceOriginFilter caller start edgeTypes maxHops deviceOriginFilter = .ok sub ∧
      g.index.BoundedSearch caller.token.origin deviceOriginFilter edgeTypes start maxHops sub := by
  obtain ⟨log, hlog⟩ := (h.sound L hS).logged
  refine ⟨_, ?_, hlog.adjacent.boundedSearch maxHops hstart⟩
  have hvisible := GraphIndex.visible_iff_sees.mpr hstart
  rw [KnowledgeGraph.traverseWithDeviceOriginFilter, hread]
  simp [hvisible, Bind.bind, Except.bind, Pure.pure, Except.pure]

end

/-- A traversal of one hop from the first of the two nodes. -/
theorem traverse_is_bounded_search_pair :
    Reached jsonSerde.plain jsonRecord (Op.Regular shallow) linkedPair ∧
      ∃ sub, linkedPair.traverseWithDeviceOriginFilter (reader plainWriter.callerBoundary) 0 none 1 none =
          .ok sub ∧
        linkedPair.index.BoundedSearch plainWriter.callerBoundary none none 0 1 sub :=
  ⟨linkedPair_regular, traverse_is_bounded_search jsonSerde_lawful jsonRecord_exact.lawful
    linkedPair_regular (reader plainWriter.callerBoundary) 0 none 1 none (reader_require _)
    ⟨_, rfl, rfl, rfl, by simp⟩⟩

/-! ## An id that is taken twice -/

def highNode : KnowledgeGraph Int Json :=
  (sharedId.putNodeWithProvenance jsonRecord _ plainWriter (sampleNode (some (2 ^ 64 - 2)) 0)).2

def highLog : List (WalRecord Json) :=
  [StorageEngine.written ⟨[], .empty⟩ otherWriter.storeCaller none (jsonRecord.toValue
      (.edge (KnowledgeGraph.linkRecord otherWriter (sampleLink 5 6) otherWriter.callerBoundary 0 none))),
    danglingEdge.storage.written plainWriter.storeCaller (some 0) (jsonRecord.toValue
      (.node (KnowledgeGraph.nodeRecord plainWriter (sampleNode (some 0) 0) none))),
    sharedId.storage.written plainWriter.storeCaller (some (2 ^ 64 - 2)) (jsonRecord.toValue
      (.node (KnowledgeGraph.nodeRecord plainWriter (sampleNode (some (2 ^ 64 - 2)) 0) none)))]

def highCounter : KnowledgeGraph Int Json :=
  ⟨⟨highNode.storage.file, .rebuild highLog⟩, .rebuildFrom jsonRecord highLog⟩

def purgedLow : KnowledgeGraph Int Json := (highCounter.purgeNodeHistory _ plainWriter 0).2

def wrappedCounter : KnowledgeGraph Int Json :=
  (purgedLow.putNodeWithProvenance jsonRecord _ plainWriter (sampleNode none 0)).2

def hiddenEdge : KnowledgeGraph Int Json :=
  (wrappedCounter.link jsonRecord _ plainWriter (sampleLink (2 ^ 64 - 2) (2 ^ 64 - 1))).2

theorem danglingEdge_logged :
    Logged jsonRecord jsonReread shallow jsonSerde.plain danglingEdge (highLog.take 1) := by
  have hempty : Logged jsonRecord jsonReread shallow jsonSerde.plain .empty [] := logged_empty
  refine hempty.stored jsonSerde_lawful jsonRecord_exact.lawful otherWriter none
    (sampleLink_within otherWriter 5 6) ⟨?_, ?_⟩
  · exact fun old hold => nomatch hold
  · exact fun id' e' he' => nomatch he'

theorem highNode_logged : Logged jsonRecord jsonReread shallow jsonSerde.plain highNode highLog := by
  have hshared : Logged jsonRecord jsonReread shallow jsonSerde.plain sharedId (highLog.take 2) :=
    danglingEdge_logged.stored jsonSerde_lawful jsonRecord_exact.lawful plainWriter (some 0)
      (sampleNode_within plainWriter (some 0) 0) fun old hold => nomatch hold
  exact hshared.stored jsonSerde_lawful jsonRecord_exact.lawful plainWriter (some (2 ^ 64 - 2))
    (sampleNode_within plainWriter (some (2 ^ 64 - 2)) 0) fun old hold => nomatch hold

theorem hiddenEdge_reached : Reached jsonSerde.plain jsonRecord
    (fun g op => op.Completes g ∧ op.Within shallow) hiddenEdge := by
  have hhigh := (@sharedId_reached (fun g op => op.Completes g ∧ op.Within shallow)
    ⟨rfl, sampleLink_within _ _ _⟩ ⟨rfl, sampleNode_within _ _ _⟩).tail
    ⟨.putNode plainWriter (sampleNode (some (2 ^ 64 - 2)) 0), ⟨rfl, sampleNode_within _ _ _⟩, rfl⟩
  have hopen : Op.exec jsonRecord highNode (.reopen : Op Int jsonSerde.plain) = some highCounter := by
    rw [Op.exec, highNode_logged.openImpl_eq]
    rfl
  have hcounter := hhigh.tail (c := highCounter) ⟨.reopen, ⟨trivial, trivial⟩, hopen⟩
  have hpurged := hcounter.tail (c := purgedLow) ⟨.purgeNodeHistory plainWriter 0, ⟨rfl, trivial⟩, rfl⟩
  have hwrapped := hpurged.tail (c := wrappedCounter)
    ⟨.putNode plainWriter (sampleNode none 0), ⟨rfl, sampleNode_within _ _ _⟩, rfl⟩
  exact hwrapped.tail ⟨.link plainWriter (sampleLink (2 ^ 64 - 2) (2 ^ 64 - 1)),
    ⟨rfl, sampleLink_within _ _ _⟩, rfl⟩

/-- Seven calls: an edge is linked, a node is put under its id and one under the last id but one, the
graph is reopened, the first node is purged, a new node takes the last id, and an edge between the two
nodes takes id 0 again. It is active, and a traversal from its subject finds neither it nor its target. -/
theorem wrapped_counter_hides_edge : ∃ g : KnowledgeGraph Int Json,
    Reached jsonSerde.plain jsonRecord (fun g op => op.Completes g ∧ op.Within shallow) g ∧
      ∃ (caller : Caller) (start far : NodeId) (sub : Subgraph Int Json),
        require caller .read = .ok () ∧ g.index.Sees caller.token.origin none start ∧
        g.traverseWithDeviceOriginFilter caller start none 1 none = .ok sub ∧
        sub.nodes.map Prod.fst = [start] ∧ sub.edges = [] ∧
        g.index.Path caller.token.origin none none start 1 far ∧ far ≠ start ∧
        ¬g.index.BoundedSearch caller.token.origin none none start 1 sub := by
  have hpath : hiddenEdge.index.Path plainWriter.callerBoundary none none (2 ^ 64 - 2) 1 (2 ^ 64 - 1) :=
    .snoc .nil ⟨⟨_, rfl, rfl, rfl, by simp⟩, 0, _, ⟨rfl, by simp⟩, .inl ⟨rfl, rfl⟩⟩
  obtain ⟨sub, hsub, hnodes, hedges⟩ : ∃ sub : Subgraph Int Json,
      hiddenEdge.traverseWithDeviceOriginFilter (reader plainWriter.callerBoundary) (2 ^ 64 - 2) none 1
        none = .ok sub ∧ sub.nodes.map Prod.fst = [2 ^ 64 - 2] ∧ sub.edges = [] := ⟨_, rfl, rfl, rfl⟩
  refine ⟨hiddenEdge, hiddenEdge_reached, reader plainWriter.callerBoundary, 2 ^ 64 - 2, 2 ^ 64 - 1, sub,
    reader_require _, ⟨_, rfl, rfl, rfl, by simp⟩, hsub, hnodes, hedges, hpath, by decide, fun hsearch => ?_⟩
  -- the edge qualifies, its subject being the start
  have hedge : ∃ e : EdgeRecord Int, (0, e) ∈ sub.edges :=
    ⟨_, (hsearch.edges 0 _).mpr ⟨⟨rfl, by simp⟩, ⟨_, rfl, rfl, rfl, by simp⟩, ⟨_, rfl, rfl, rfl, by simp⟩,
      0, Nat.one_pos, .inl .nil⟩⟩
  simp [hedges] at hedge

end

end Hyperion.Graph
