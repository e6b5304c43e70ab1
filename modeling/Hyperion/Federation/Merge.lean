import Hyperion.Federation.KgSync
import Hyperion.Graph.Log

/-!
# What a merge creates

The ids of a graph come from its counter. A merge whose writes go through creates a copy of every node
that its table does not know, under the next ids of the counter, and the table knows them all afterwards.
Its updates and its edges add no node.
-/

namespace Hyperion.Federation
open Lib Capability Storage Hyperion.Graph HashMap List KnowledgeGraph

section
variable {F V : Type} {C : Codec V} {S : Serde F V} {g g' g'' : KnowledgeGraph F V} {call : Call C}
  {b : TrustBoundaryId} {k k' : Nat} {map : HashMap Nat NodeId}

/-- All ids come from the counter, which is above them. -/
structure Minted (g : KnowledgeGraph F V) : Prop where
  nodes : ∀ (id : NodeId) (n : NodeRecord F V), g.index.nodes[id]? = some n → id < g.storage.inner.nextObjectId
  edges : ∀ (id : EdgeId) (e : EdgeRecord F), g.index.edges[id]? = some e → id < g.storage.inner.nextObjectId
  pointers : ∀ (id : Storage.ObjectId) (v : VersionId), g.storage.inner.versionPointer[id]? = some v →
    id < g.storage.inner.nextObjectId

structure WritePasses (call : Call C) : Prop where
  require : call.require .write = .ok ()
  authorize : call.storeCaller.authorize .write = .ok ()
  io : call.io = .completed

def shownIds (g : KnowledgeGraph F V) (boundary : TrustBoundaryId) : Finset NodeId :=
  ((g.index.nodes.toList.filter fun (_, n) => n.seenBy boundary).map (·.1)).toFinset

theorem mem_shownIds {id : NodeId} :
    id ∈ shownIds g b ↔ ∃ n, g.index.nodes[id]? = some n ∧ n.seenBy b = true := by
  simp [shownIds, Std.ExtTreeMap.mem_toList_iff_getElem?_eq_some]

/-- The graph has got `k` nodes of the boundary under the next ids, and has lost none. -/
structure Copied (b : TrustBoundaryId) (k : Nat) (g g' : KnowledgeGraph F V) : Prop where
  minted : Minted g'
  next : g'.storage.inner.nextObjectId = g.storage.inner.nextObjectId + k
  shown : shownIds g' b = shownIds g b ∪
    Finset.Ico g.storage.inner.nextObjectId (g.storage.inner.nextObjectId + k)
  present : ∀ (id : NodeId) (n : NodeRecord F V), g.index.nodes[id]? = some n →
    ∃ n', g'.index.nodes[id]? = some n'

theorem Copied.of_index (h : Minted g') (hindex : g'.index = g.index)
    (hnext : g'.storage.inner.nextObjectId = g.storage.inner.nextObjectId) : Copied b 0 g g' where
  minted := h
  next := hnext
  shown := by simp [shownIds, hindex]
  present := fun _ n hn => ⟨n, hindex ▸ hn⟩

theorem Copied.trans (h : Copied b k g g') (h' : Copied b k' g' g'') : Copied b (k + k') g g'' where
  minted := h'.minted
  next := by rw [h'.next, h.next, Nat.add_assoc]
  shown := by
    rw [h'.shown, h.shown, h.next, Finset.union_assoc,
      Finset.Ico_union_Ico_eq_Ico (Nat.le_add_right _ _) (Nat.le_add_right _ _), Nat.add_assoc]
  present := fun id n hn => by
    obtain ⟨n', hn'⟩ := h.present id n hn
    exact h'.present id n' hn'

/-! ## One write -/

theorem Minted.mono (h : Minted g) (hindex : g'.index = g.index)
    (hpointers : g'.storage.inner.versionPointer = g.storage.inner.versionPointer)
    (hnext : g.storage.inner.nextObjectId ≤ g'.storage.inner.nextObjectId) : Minted g' where
  nodes := fun id n hn => lt_of_lt_of_le (h.nodes id n (hindex ▸ hn)) hnext
  edges := fun id e he => lt_of_lt_of_le (h.edges id e (hindex ▸ he)) hnext
  pointers := fun id v hv => lt_of_lt_of_le (h.pointers id v (hpointers ▸ hv)) hnext

theorem Minted.stored (h : Minted g) {id : Option Storage.ObjectId} {record : Record F V}
    (hwrap : id = none → g.storage.inner.nextObjectId + 1 < 2 ^ 64)
    (hold : ∀ i, id = some i → i < g.storage.inner.nextObjectId) :
    Minted (g.stored S C call id record) := by
  obtain ⟨hnext, hnew⟩ := le_allocate g.storage.inner id hwrap
  have hbelow : (g.storage.inner.allocate id).1 < (g.storage.inner.allocate id).2.nextObjectId := by
    cases id with
    | none => exact hnew rfl
    | some i => exact hold i rfl
  have hinsert : ∀ {α : Type} {m : HashMap Nat α} {a : α} {i : Nat} {v : α},
      (∀ i v, m[i]? = some v → i < g.storage.inner.nextObjectId) →
      (m.insert (g.storage.inner.allocate id).1 a)[i]? = some v →
      i < (g.storage.inner.allocate id).2.nextObjectId := by
    intro α m a i v hm hi
    rw [get_insert] at hi
    split at hi
    · next heq => exact heq ▸ hbelow
    · exact lt_of_lt_of_le (hm i v hi) hnext
  have hkept : ∀ {α : Type} {m : HashMap Nat α} {i : Nat} {v : α},
      (∀ i v, m[i]? = some v → i < g.storage.inner.nextObjectId) → m[i]? = some v →
      i < (g.storage.inner.allocate id).2.nextObjectId :=
    fun hm hi => lt_of_lt_of_le (hm _ _ hi) hnext
  have hpointers : ∀ (i : Storage.ObjectId) (v : VersionId),
      (g.stored S C call id record).storage.inner.versionPointer[i]? = some v →
      i < (g.storage.inner.allocate id).2.nextObjectId := by
    intro i v hi
    rw [get_stored_versionPointer] at hi
    split at hi
    · next heq => exact heq ▸ hbelow
    · exact hkept h.pointers hi
  cases record with
  | node n => exact ⟨fun _ _ => hinsert h.nodes, fun _ _ => hkept h.edges, hpointers⟩
  | edge e => exact ⟨fun _ _ => hkept h.nodes, fun _ _ => hinsert h.edges, hpointers⟩

variable {nodes : List (NodeId × NodeRecord F V)} {id : Option NodeId} {n : NodeRecord F V}

theorem mem_shownIds_stored {x : NodeId} :
    x ∈ shownIds (g.stored S C call id (.node n)) b ↔
      if (g.storage.inner.allocate id).1 = x then n.seenBy b = true else x ∈ shownIds g b := by
  rw [mem_shownIds, get_stored_nodes]
  split
  · simp
  · rw [mem_shownIds]

theorem exists_get_stored_nodes {n m : NodeRecord F V} {x : NodeId} (hn : g.index.nodes[x]? = some n) :
    ∃ n', (g.stored S C call id (.node m)).index.nodes[x]? = some n' := by
  rw [get_stored_nodes]
  split
  · exact ⟨m, rfl⟩
  · exact ⟨n, hn⟩

theorem putNode_new (h : Minted g) (hpass : WritePasses call)
    (hwrap : g.storage.inner.nextObjectId + 1 < 2 ^ 64) (objectType : ObjectType)
    (embedding : Option (List F)) (metadata : V) (deviceOrigin : Nat) :
    ∃ g', g.putNodeWithDeviceOrigin S C call none objectType embedding metadata deviceOrigin =
      (.ok g.storage.inner.nextObjectId, g') ∧ Copied call.callerBoundary 1 g g' := by
  have hfresh : g.storage.inner.versionPointer[g.storage.inner.nextObjectId]? = none := by
    cases hpointer : g.storage.inner.versionPointer[g.storage.inner.nextObjectId]? with
    | none => rfl
    | some v => exact absurd (h.pointers _ v hpointer) (lt_irrefl _)
  refine ⟨g.stored S C call none (.node (nodeRecord call
    ⟨none, objectType, embedding, metadata, deviceOrigin, .default, 0⟩ none)), ?_, ?_⟩
  · rw [putNodeWithDeviceOrigin, putNodeWithProvenance, hpass.require]
    exact g.write_eq_stored S C _ hpass.authorize hfresh hpass.io
  · refine ⟨h.stored (fun _ => hwrap) (fun _ hno => nomatch hno), Nat.mod_eq_of_lt hwrap, ?_, ?_⟩
    · ext x
      rw [Finset.mem_union, mem_shownIds_stored, Finset.mem_Ico, Inner.allocate]
      split
      · next hx =>
        subst hx
        simp [nodeRecord, NodeRecord.seenBy]
      · next hx =>
        refine ⟨Or.inl, fun hor => hor.resolve_right fun hrange => hx ?_⟩
        exact Nat.le_antisymm hrange.1 (Nat.le_of_lt_succ hrange.2)
    · exact fun _ _ hn => exists_get_stored_nodes hn

theorem putNode_old {id : NodeId} {objectType : ObjectType}
    {embedding : Option (List F)} {metadata : V} {deviceOrigin : Nat} {result : Except GraphError NodeId}
    (h : Minted g) (hn : g.index.nodes[id]? = some n)
    (hput : g.putNodeWithDeviceOrigin S C call (some id) objectType embedding metadata deviceOrigin =
      (result, g')) : Copied b 0 g g' := by
  have heffect := putNodeWithProvenance_effect (S := S) g call
    ⟨some id, objectType, embedding, metadata, deviceOrigin, .default, 0⟩
  rw [putNodeWithDeviceOrigin] at hput
  rw [hput] at heffect
  dsimp only at heffect
  cases heffect with
  | unchanged => exact .of_index h rfl rfl
  | counted hwrites => cases hwrites
  | torn hwrites written hio =>
    cases hwrites
    exact .of_index (h.mono rfl rfl le_rfl) rfl rfl
  | wrote hwrites hcas =>
    cases hwrites
    refine ⟨h.stored (fun hno => absurd hno (Option.some_ne_none id)) ?_, rfl, ?_,
      fun _ _ hn => exists_get_stored_nodes hn⟩
    · rintro i ⟨⟩
      exact h.nodes id n hn
    · ext x
      rw [mem_shownIds_stored, Nat.add_zero, Finset.Ico_self, Finset.union_empty, Inner.allocate]
      split
      · next hx =>
        subst hx
        simp [mem_shownIds, hn, nodeRecord, NodeRecord.seenBy]
      · rfl
  | purged hop => cases hop

/-! ## The loop over the nodes -/

def unknown (map : HashMap Nat NodeId) (nodes : List (NodeId × NodeRecord F V)) : Nat :=
  (nodes.filter fun p => map[p.1]?.isNone).length

/-- The copies that the table knows are there. -/
def Resolves (map : HashMap Nat NodeId) (g : KnowledgeGraph F V) : Prop :=
  ∀ (remoteId : Nat) (localId : NodeId), map[remoteId]? = some localId →
    ∃ n, g.index.nodes[localId]? = some n

/-- The nodes have been merged: those that were not known have got copies, and now all are known. -/
structure NodesMerged (b : TrustBoundaryId) (nodes : List (NodeId × NodeRecord F V))
    (map map' : HashMap Nat NodeId) (g g' : KnowledgeGraph F V) : Prop where
  copied : Copied b (unknown map nodes) g g'
  resolves : Resolves map' g'
  known : ∀ id, map'[id]? = none ↔ map[id]? = none ∧ id ∉ nodes.map (·.1)

theorem Resolves.copied (h : Resolves map g) (hcopied : Copied b k g g') :
    Resolves map g' := fun remoteId localId hmap => by
  obtain ⟨n, hn⟩ := h remoteId localId hmap
  exact hcopied.present localId n hn

theorem unknown_insert {id : Nat} (hid : ∀ p ∈ nodes, id ≠ p.1)
    (localId : NodeId) : unknown (map.insert id localId) nodes = unknown map nodes := by
  unfold unknown
  congr 1
  refine filter_congr fun p hp => ?_
  rw [get_insert, if_neg (hid p hp)]

section
variable {nodes : List (NodeId × NodeRecord F V)} {map map' : HashMap Nat NodeId} {remoteId : Nat}
  {localId : NodeId} {record : NodeRecord F V}

theorem unknown_cons_known (hknown : map[remoteId]? = some localId) :
    unknown map ((remoteId, record) :: nodes) = unknown map nodes := by
  rw [unknown, filter_cons_of_neg (by simp [hknown]), unknown]

theorem unknown_cons_new (hnone : map[remoteId]? = none) (hnew : ∀ p ∈ nodes, remoteId ≠ p.1)
    (localId : NodeId) :
    unknown map ((remoteId, record) :: nodes) = 1 + unknown (map.insert remoteId localId) nodes := by
  rw [unknown_insert hnew, unknown, filter_cons_of_pos (by simp [hnone]), length_cons, unknown,
    Nat.add_comm]

theorem NodesMerged.cons_known (hknown : map[remoteId]? = some localId) (hcopied : Copied b 0 g g')
    (hrest : NodesMerged b nodes map map' g' g'') :
    NodesMerged b ((remoteId, record) :: nodes) map map' g g'' where
  copied := by
    rw [unknown_cons_known hknown, ← Nat.zero_add (unknown map nodes)]
    exact hcopied.trans hrest.copied
  resolves := hrest.resolves
  known := fun id => by
    rw [hrest.known, map_cons, mem_cons, not_or]
    refine ⟨fun ⟨hnone, hout⟩ => ⟨hnone, ?_, hout⟩, fun ⟨hnone, _, hout⟩ => ⟨hnone, hout⟩⟩
    rintro rfl
    exact Option.some_ne_none _ (hknown.symm.trans hnone)

theorem NodesMerged.cons_new (hnone : map[remoteId]? = none) (hnew : ∀ p ∈ nodes, remoteId ≠ p.1)
    (hcopied : Copied b 1 g g') (hrest : NodesMerged b nodes (map.insert remoteId localId) map' g' g'') :
    NodesMerged b ((remoteId, record) :: nodes) map map' g g'' where
  copied := by
    rw [unknown_cons_new hnone hnew localId]
    exact hcopied.trans hrest.copied
  resolves := hrest.resolves
  known := fun id => by
    rw [hrest.known, get_insert, map_cons, mem_cons, not_or]
    by_cases hid : remoteId = id
    · simp [hid]
    · simp [hid, Ne.symm hid]

end

theorem Resolves.insert_new (h : Resolves map g) (hcopied : Copied b 1 g g')
    (remoteId : Nat) : Resolves (map.insert remoteId g.storage.inner.nextObjectId) g' := by
  intro id localId hid
  rw [get_insert] at hid
  split at hid
  · obtain rfl := Option.some.inj hid
    have hshown : g.storage.inner.nextObjectId ∈ shownIds g' b := by
      rw [hcopied.shown]
      exact Finset.mem_union_right _ (Finset.mem_Ico.mpr ⟨le_rfl, Nat.lt_succ_self _⟩)
    obtain ⟨n, hn, -⟩ := mem_shownIds.mp hshown
    exact ⟨n, hn⟩
  · exact h.copied hcopied id localId hid

theorem mergeNodes_merged (senderDeviceId : Nat) {readings : Nat → Readings C}
    (hpass : ∀ i, WritePasses { call with toReadings := readings i })
    (report : KgMergeReport) (h : Minted g) (hmap : Resolves map g)
    (hnodup : nodes.Pairwise fun p q => p.1 ≠ q.1)
    (hwrap : g.storage.inner.nextObjectId + nodes.length < 2 ^ 64) : ∃ map' report' g',
      mergeNodes S C call senderDeviceId readings nodes map report g = (map', report', g') ∧
      report'.nodesCreated = report.nodesCreated + unknown map nodes ∧
      NodesMerged call.callerBoundary nodes map map' g g' := by
  induction nodes generalizing readings map report g with
  | nil => exact ⟨map, report, g, rfl, rfl, .of_index h rfl rfl, hmap, by simp⟩
  | cons node nodes ih =>
    obtain ⟨remoteId, record⟩ := node
    obtain ⟨hnew, hnodup⟩ := pairwise_cons.mp hnodup
    rw [length_cons] at hwrap
    have hrest := fun i => hpass (i + 1)
    unfold mergeNodes
    cases hknown : map[remoteId]? with
    | some localId =>
      obtain ⟨n, hn⟩ := hmap remoteId localId hknown
      -- whether the update succeeds or not, no node is added
      have hstep : ∀ (g₁ : KnowledgeGraph F V) (report₁ : KgMergeReport),
          Copied call.callerBoundary 0 g g₁ → report₁.nodesCreated = report.nodesCreated →
          ∃ map' report' g', mergeNodes S C call senderDeviceId (fun i => readings (i + 1)) nodes map
              report₁ g₁ = (map', report', g') ∧
            report'.nodesCreated = report.nodesCreated + unknown map ((remoteId, record) :: nodes) ∧
            NodesMerged call.callerBoundary ((remoteId, record) :: nodes) map map' g g' := by
        intro g₁ report₁ hcopied hsame
        obtain ⟨map', report', g', heq, hcreated, hmerged⟩ := ih hrest report₁ hcopied.minted
          (hmap.copied hcopied) hnodup (by rw [hcopied.next]; omega)
        refine ⟨map', report', g', heq, ?_, .cons_known hknown hcopied hmerged⟩
        rw [hcreated, hsame, unknown_cons_known hknown]
      dsimp only
      split
      · next hput => exact hstep _ _ (putNode_old h hn hput) rfl
      · next hput => exact hstep _ _ (putNode_old h hn hput) rfl
    | none =>
      obtain ⟨g₁, hput, hcopied⟩ := putNode_new (S := S) h (hpass 0) (by omega) record.objectType
        record.embedding record.metadata senderDeviceId
      simp only [hput]
      obtain ⟨map', report', g', heq, hcreated, hmerged⟩ :=
        ih hrest { report with nodesCreated := report.nodesCreated + 1 } hcopied.minted
          (hmap.insert_new hcopied remoteId) hnodup (by rw [hcopied.next]; omega)
      refine ⟨map', report', g', heq, ?_, .cons_new hknown hnew hcopied hmerged⟩
      rw [hcreated, unknown_cons_new hknown hnew, Nat.add_assoc]

/-! ## The loop over the edges -/

/-- The nodes are the same, and at most `k` ids have been taken. -/
structure Kept (k : Nat) (g g' : KnowledgeGraph F V) : Prop where
  minted : Minted g'
  nodes : g'.index.nodes = g.index.nodes
  next_le : g.storage.inner.nextObjectId ≤ g'.storage.inner.nextObjectId
  next_ge : g'.storage.inner.nextObjectId ≤ g.storage.inner.nextObjectId + k

theorem Kept.trans (h : Kept k g g') (h' : Kept k' g' g'') : Kept (k + k') g g'' where
  minted := h'.minted
  nodes := h'.nodes.trans h.nodes
  next_le := h.next_le.trans h'.next_le
  next_ge := by
    have := h.next_ge
    have := h'.next_ge
    omega

theorem allocate_next_le (i : Inner V) (id : Option Storage.ObjectId) :
    (i.allocate id).2.nextObjectId ≤ i.nextObjectId + 1 := by
  cases id with
  | none => exact Nat.mod_le _ _
  | some id => exact Nat.le_succ _

theorem link_kept {args : LinkArgs F} {result : Except GraphError LinkOutcome} (h : Minted g)
    (hwrap : g.storage.inner.nextObjectId + 1 < 2 ^ 64) (hlink : g.link S C call args = (result, g')) :
    Kept 1 g g' := by
  have heffect := link_effect (S := S) g call args
  rw [hlink] at heffect
  dsimp only at heffect
  have hle : ∀ id, g.storage.inner.nextObjectId ≤ (g.storage.inner.allocate id).2.nextObjectId :=
    fun id => (le_allocate _ id fun _ => hwrap).1
  cases heffect with
  | unchanged => exact ⟨h, rfl, le_rfl, Nat.le_succ _⟩
  | counted hwrites => exact ⟨h.mono rfl rfl (hle none), rfl, hle none, allocate_next_le _ none⟩
  | @torn _ id _ hwrites written hio =>
    refine ⟨h.mono rfl ?_ (hle id), rfl, hle id, allocate_next_le _ id⟩
    exact StorageEngine.allocate_versionPointer _ id
  | wrote hwrites hcas =>
    cases hwrites with
    | newEdge =>
      exact ⟨h.stored (fun _ => hwrap) (fun _ hno => nomatch hno), rfl, hle none, allocate_next_le _ none⟩
    | oldEdge _ _ id old hold =>
      refine ⟨h.stored (fun hno => nomatch hno) ?_, rfl, le_rfl, Nat.le_succ _⟩
      rintro i ⟨⟩
      exact h.edges id old (existingEdge_eq_some_iff.mp hold).2
  | purged hop => exact nomatch hop

theorem mergeEdges_kept (call : Call C) (map : HashMap Nat NodeId) (readings : Nat → Readings C)
    {edges : List (EdgeId × EdgeRecord F)} (report : KgMergeReport) (h : Minted g)
    (hwrap : g.storage.inner.nextObjectId + edges.length < 2 ^ 64) :
    ∃ report' g', mergeEdges S C call map readings edges report g = (report', g') ∧
      report'.nodesCreated = report.nodesCreated ∧ Kept edges.length g g' := by
  induction edges generalizing readings report g with
  | nil => exact ⟨report, g, rfl, rfl, h, rfl, le_rfl, le_rfl⟩
  | cons edge edges ih =>
    rw [length_cons] at hwrap
    -- one id at most is taken for the edge, and then the others are linked
    have hstep : ∀ (readings : Nat → Readings C) (report₁ : KgMergeReport) (g₁ : KnowledgeGraph F V),
        Kept 1 g g₁ → report₁.nodesCreated = report.nodesCreated →
        ∃ report' g', mergeEdges S C call map readings edges report₁ g₁ = (report', g') ∧
          report'.nodesCreated = report.nodesCreated ∧ Kept (edge :: edges).length g g' := by
      intro readings report₁ g₁ hkept hsame
      have := hkept.next_ge
      obtain ⟨report', g', heq, hcreated, hrest⟩ :=
        ih readings report₁ hkept.minted (by omega)
      refine ⟨report', g', heq, hcreated.trans hsame, ?_⟩
      rw [length_cons, Nat.add_comm]
      exact hkept.trans hrest
    unfold mergeEdges
    split
    · split
      · next hlink => exact hstep _ _ _ (link_kept h (by omega) hlink) rfl
      · next hlink => exact hstep _ _ _ (link_kept h (by omega) hlink) rfl
    · exact hstep _ _ _ ⟨h, rfl, le_rfl, Nat.le_succ _⟩ rfl

/-! ## A merge -/

theorem unknown_le (map : HashMap Nat NodeId) (nodes : List (NodeId × NodeRecord F V)) :
    unknown map nodes ≤ nodes.length :=
  length_filter_le _ _

theorem mergeSnapshot_merged (senderDeviceId : Nat) {nodeReadings : Nat → Readings C}
    (edgeReadings : Nat → Readings C) (hpass : ∀ i, WritePasses { call with toReadings := nodeReadings i })
    {translation : KgTranslation} {snapshot : GraphSnapshot F V} (h : Minted g)
    (hmap : Resolves translation.remoteToLocal g) (hnodup : snapshot.nodes.Pairwise fun p q => p.1 ≠ q.1)
    (hwrap : g.storage.inner.nextObjectId + (snapshot.nodes.length + snapshot.edges.length) < 2 ^ 64) :
    ∃ report map' mid g', mergeSnapshot S C g call nodeReadings edgeReadings translation snapshot
        senderDeviceId = (report, ⟨map'⟩, g') ∧
      report.nodesCreated = unknown translation.remoteToLocal snapshot.nodes ∧
      NodesMerged call.callerBoundary snapshot.nodes translation.remoteToLocal map' g mid ∧
      Kept snapshot.edges.length mid g' := by
  obtain ⟨map', report, mid, hnodes, hcreated, hmerged⟩ := mergeNodes_merged (S := S)
    senderDeviceId hpass {} h hmap hnodup (by omega)
  have hle := unknown_le translation.remoteToLocal snapshot.nodes
  obtain ⟨report', g', hedges, hsame, hkept⟩ := mergeEdges_kept (S := S) call map' edgeReadings
    report hmerged.copied.minted (show _ + snapshot.edges.length < _ by rw [hmerged.copied.next]; omega)
  refine ⟨report', map', mid, g', ?_, ?_, hmerged, hkept⟩
  · simp only [mergeSnapshot, hnodes, hedges]
  · rw [hsame, hcreated, Nat.zero_add]

end

end Hyperion.Federation
