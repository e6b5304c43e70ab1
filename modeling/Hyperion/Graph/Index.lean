import Hyperion.Lib.LastWins
import Hyperion.Lib.Posting
import Hyperion.Graph.Types

/-!
# The graph index

`GraphIndex` is the view of the log that the graph keeps in memory: the node and edge tables, the
adjacency lists by subject and by target, and the edge of each triple. `apply` adds one record;
`rebuildFrom` applies the records of a log that read back as one.
-/

namespace Hyperion.Graph
open Lib Capability Storage Option HashMap List

structure GraphIndex (F V : Type) where
  nodes : HashMap NodeId (NodeRecord F V)
  edges : HashMap EdgeId (EdgeRecord F)
  forward : HashMap NodeId (List EdgeId)
  backward : HashMap NodeId (List EdgeId)
  edgeIdentity : HashMap Triple EdgeId

namespace GraphIndex

section
variable {F V : Type}

def empty : GraphIndex F V := ⟨∅, ∅, ∅, ∅, ∅⟩

variable (S : Serde F V) (i : GraphIndex F V)

def apply (id : Storage.ObjectId) : Record F V → GraphIndex F V
  | .node node => { i with nodes := i.nodes.insert id node }
  | .edge edge =>
    let isNew := i.edges[id]?.isNone
    { i with
      forward := if isNew then pushPosting i.forward edge.subject id else i.forward
      backward := if isNew then pushPosting i.backward edge.target id else i.backward
      edgeIdentity := i.edgeIdentity.insert edge.triple id
      edges := i.edges.insert id edge }

def removeNode (id : NodeId) : GraphIndex F V :=
  { i with nodes := i.nodes.erase id }

def activeEdge (id : EdgeId) : Option (EdgeRecord F) :=
  i.edges[id]?.filter fun e => !e.tombstone

def ownedEdge (boundary : TrustBoundaryId) (id : EdgeId) : Option (EdgeRecord F) :=
  i.edges[id]?.filter fun e => e.owner == boundary

def ownedNode (boundary : TrustBoundaryId) (id : NodeId) : Option (NodeRecord F V) :=
  i.nodes[id]?.filter fun n => n.owner == boundary

def visibleNode (boundary : TrustBoundaryId) (id : NodeId) : Option (NodeRecord F V) :=
  i.nodes[id]?.filter fun n => !n.tombstone && n.owner == boundary

def outgoing (node : NodeId) : List EdgeId := postings i.forward node

def incoming (node : NodeId) : List EdgeId := postings i.backward node

/-- One turn of the loop of `rebuild_from`: a record that does not read back is passed over. -/
def replayRecord (r : WalRecord V) : GraphIndex F V :=
  match S.fromValue r.metadata with
  | some record => i.apply r.objectId record
  | none => i

def rebuildFrom (records : List (WalRecord V)) : GraphIndex F V :=
  records.foldl (replayRecord S) empty

def rebuild (C : Codec V) (file : List UInt8) : Except StorageError (GraphIndex F V) :=
  (replay C file).map (rebuildFrom S)

end

/-! ## One record -/

section
variable {F V : Type} (i : GraphIndex F V) (id : Storage.ObjectId) (n : NodeRecord F V)
  (e : EdgeRecord F)

@[simp] theorem apply_node_nodes : (i.apply id (.node n)).nodes = i.nodes.insert id n := rfl

@[simp] theorem apply_node_edges : (i.apply id (.node n)).edges = i.edges := rfl

@[simp] theorem apply_edge_nodes : (i.apply id (.edge e)).nodes = i.nodes := rfl

@[simp] theorem apply_edge_edges : (i.apply id (.edge e)).edges = i.edges.insert id e := rfl

theorem activeEdge_eq_some_iff {i : GraphIndex F V} {id : EdgeId} {e : EdgeRecord F} :
    i.activeEdge id = some e ↔ i.edges[id]? = some e ∧ e.tombstone = false := by
  simp [activeEdge, filter_eq_some_iff]

variable {boundary : TrustBoundaryId}

theorem ownedEdge_eq_some_iff {i : GraphIndex F V} {id : EdgeId}
    {e : EdgeRecord F} : i.ownedEdge boundary id = some e ↔ i.edges[id]? = some e ∧ e.owner = boundary := by
  simp [ownedEdge, filter_eq_some_iff]

theorem ownedNode_eq_some_iff {i : GraphIndex F V} {id : NodeId} {n : NodeRecord F V} :
    i.ownedNode boundary id = some n ↔ i.nodes[id]? = some n ∧ n.owner = boundary := by
  simp [ownedNode, filter_eq_some_iff]

theorem visibleNode_eq_some_iff {i : GraphIndex F V} {id : NodeId}
    {n : NodeRecord F V} : i.visibleNode boundary id = some n ↔
      i.nodes[id]? = some n ∧ n.tombstone = false ∧ n.owner = boundary := by
  simp [visibleNode, filter_eq_some_iff]

/-- The adjacency lists and the triples are those of the edge table. -/
structure Adjacent (i : GraphIndex F V) : Prop where
  forward : Posts i.forward i.edges EdgeRecord.subject
  backward : Posts i.backward i.edges EdgeRecord.target
  identity : ∀ (t : Triple) (id : EdgeId), i.edgeIdentity[t]? = some id ↔
    ∃ e : EdgeRecord F, i.edges[id]? = some e ∧ e.triple = t

theorem adjacent_empty : (empty : GraphIndex F V).Adjacent :=
  ⟨posts_empty _, posts_empty _, by simp [empty]⟩

variable {i}

theorem Adjacent.apply_node (h : i.Adjacent) : (i.apply id (.node n)).Adjacent :=
  ⟨h.forward, h.backward, h.identity⟩

variable {id e}

theorem Adjacent.apply_edge (h : i.Adjacent)
    (hsame : ∀ old : EdgeRecord F, i.edges[id]? = some old → old.triple = e.triple)
    (hother : ∀ (id' : EdgeId) (e' : EdgeRecord F), i.edges[id']? = some e' →
      e'.triple = e.triple → id' = id) : (i.apply id (.edge e)).Adjacent := by
  have hidentity : ∀ (t : Triple) (id' : EdgeId), (i.edgeIdentity.insert e.triple id)[t]? = some id' ↔
      ∃ e' : EdgeRecord F, (i.edges.insert id e)[id']? = some e' ∧ e'.triple = t := by
    intro t id'
    rw [get_insert, get_insert]
    by_cases ht : e.triple = t
    · subst ht
      by_cases hid : id = id'
      · simp [hid]
      · simp only [if_true, some.injEq, hid, if_false, false_iff, not_exists, not_and]
        exact fun e' he' htriple => hid (hother id' e' he' htriple).symm
    · rw [if_neg ht, h.identity]
      by_cases hid : id = id'
      · subst hid
        simp only [if_true, some.injEq, exists_eq_left', ht, iff_false, not_exists, not_and]
        exact fun old hold htriple => ht ((hsame old hold).symm.trans htriple)
      · simp [hid]
  cases hold : i.edges[id]? with
  | none =>
    refine ⟨?_, ?_, hidentity⟩
    · simpa [apply, hold] using h.forward.push hold e
    · simpa [apply, hold] using h.backward.push hold e
  | some old =>
    have htriple := hsame old hold
    refine ⟨?_, ?_, hidentity⟩
    · simpa [apply, hold] using h.forward.replace hold (congrArg Triple.subject htriple)
    · simpa [apply, hold] using h.backward.replace hold (congrArg Triple.target htriple)

theorem Adjacent.triple_inj (h : i.Adjacent) {id' : EdgeId} {e' : EdgeRecord F} (he : i.edges[id]? = some e)
    (he' : i.edges[id']? = some e') (ht : e'.triple = e.triple) : id' = id := by
  have hid := (h.identity e.triple id).mpr ⟨e, he, rfl⟩
  have hid' := (h.identity e.triple id').mpr ⟨e', he', ht⟩
  exact some.inj (hid'.symm.trans hid)

end

/-! ## What a log leaves -/

section
variable {F V : Type} (S : Serde F V)

def nodeEntry (r : WalRecord V) : Option (NodeId × NodeRecord F V) :=
  match S.fromValue r.metadata with
  | some (.node n) => some (r.objectId, n)
  | _ => none

def edgeEntry (r : WalRecord V) : Option (EdgeId × EdgeRecord F) :=
  match S.fromValue r.metadata with
  | some (.edge e) => some (r.objectId, e)
  | _ => none

theorem rebuildFrom_concat (log : List (WalRecord V)) (r : WalRecord V) :
    rebuildFrom S (log ++ [r]) = replayRecord S (rebuildFrom S log) r := by
  simp [rebuildFrom]

theorem rebuildFrom_nodes (log : List (WalRecord V)) :
    (rebuildFrom S log).nodes = lastWins Prod.fst Prod.snd (log.filterMap (nodeEntry S)) := by
  induction log using List.reverseRecOn with
  | nil => rfl
  | append_singleton log r ih =>
    rw [rebuildFrom_concat, filterMap_append, replayRecord]
    rcases hr : S.fromValue r.metadata with _ | (n | e)
    · simpa [nodeEntry, hr] using ih
    · simp [nodeEntry, hr, ih, lastWins_concat]
    · simpa [nodeEntry, hr] using ih

theorem rebuildFrom_edges (log : List (WalRecord V)) :
    (rebuildFrom S log).edges = lastWins Prod.fst Prod.snd (log.filterMap (edgeEntry S)) := by
  induction log using List.reverseRecOn with
  | nil => rfl
  | append_singleton log r ih =>
    rw [rebuildFrom_concat, filterMap_append, replayRecord]
    rcases hr : S.fromValue r.metadata with _ | (n | e)
    · simpa [edgeEntry, hr] using ih
    · simpa [edgeEntry, hr] using ih
    · simp [edgeEntry, hr, ih, lastWins_concat]

variable {S}

variable {id id' : Storage.ObjectId} {r : WalRecord V} {n : NodeRecord F V} {e : EdgeRecord F}

theorem nodeEntry_eq_some_iff {id : NodeId} :
    nodeEntry S r = some (id, n) ↔ r.objectId = id ∧ S.fromValue r.metadata = some (.node n) := by
  unfold nodeEntry
  rcases S.fromValue r.metadata with _ | (n' | e') <;> simp

theorem edgeEntry_eq_some_iff {id : EdgeId} :
    edgeEntry S r = some (id, e) ↔ r.objectId = id ∧ S.fromValue r.metadata = some (.edge e) := by
  unfold edgeEntry
  rcases S.fromValue r.metadata with _ | (n' | e') <;> simp

variable {log : List (WalRecord V)}

theorem exists_of_rebuildFrom_nodes {id : NodeId} (h : (rebuildFrom S log).nodes[id]? = some n) :
    ∃ r ∈ log, r.objectId = id ∧ S.fromValue r.metadata = some (.node n) := by
  rw [rebuildFrom_nodes, get_lastWins_eq_some_iff] at h
  obtain ⟨before, ⟨id', n'⟩, after, hlog, rfl, rfl, -⟩ := h
  obtain ⟨r, hr, hentry⟩ := mem_filterMap.mp (hlog ▸ mem_append_right _ mem_cons_self)
  exact ⟨r, hr, nodeEntry_eq_some_iff.mp hentry⟩

theorem exists_of_rebuildFrom_edges {id : EdgeId} (h : (rebuildFrom S log).edges[id]? = some e) :
    ∃ r ∈ log, r.objectId = id ∧ S.fromValue r.metadata = some (.edge e) := by
  rw [rebuildFrom_edges, get_lastWins_eq_some_iff] at h
  obtain ⟨before, ⟨id', e'⟩, after, hlog, rfl, rfl, -⟩ := h
  obtain ⟨r, hr, hentry⟩ := mem_filterMap.mp (hlog ▸ mem_append_right _ mem_cons_self)
  exact ⟨r, hr, edgeEntry_eq_some_iff.mp hentry⟩

theorem rebuildFrom_nodes_isSome (hr : r ∈ log) (hn : S.fromValue r.metadata = some (.node n)) :
    ∃ n', (rebuildFrom S log).nodes[r.objectId]? = some n' := by
  apply ne_none_iff_exists'.mp
  rw [rebuildFrom_nodes, Ne, get_lastWins_eq_none_iff]
  intro hnone
  exact hnone _ (mem_filterMap.mpr ⟨r, hr, nodeEntry_eq_some_iff.mpr ⟨rfl, hn⟩⟩) rfl

theorem rebuildFrom_edges_isSome (hr : r ∈ log) (he : S.fromValue r.metadata = some (.edge e)) :
    ∃ e', (rebuildFrom S log).edges[r.objectId]? = some e' := by
  apply ne_none_iff_exists'.mp
  rw [rebuildFrom_edges, Ne, get_lastWins_eq_none_iff]
  intro hnone
  exact hnone _ (mem_filterMap.mpr ⟨r, hr, edgeEntry_eq_some_iff.mpr ⟨rfl, he⟩⟩) rfl

theorem adjacent_rebuildFrom {i : GraphIndex F V} (hi : i.Adjacent)
    (h : ∀ r ∈ log, ∀ e : EdgeRecord F, S.fromValue r.metadata = some (.edge e) →
      ∃ e' : EdgeRecord F, i.edges[r.objectId]? = some e' ∧ e'.triple = e.triple) :
    (rebuildFrom S log).Adjacent := by
  induction log using List.reverseRecOn with
  | nil => exact adjacent_empty
  | append_singleton log r ih =>
    have hlog : ∀ r' ∈ log, r' ∈ log ++ [r] := fun r' hr' => mem_append_left _ hr'
    have hadj := ih fun r' hr' => h r' (hlog r' hr')
    rw [rebuildFrom_concat, replayRecord]
    rcases hr : S.fromValue r.metadata with _ | (n | e)
    · exact hadj
    · exact hadj.apply_node r.objectId n
    · obtain ⟨e₀, he₀, htriple₀⟩ := h r (by simp) e hr
      have hall : ∀ (id : EdgeId) (e' : EdgeRecord F), (rebuildFrom S log).edges[id]? = some e' →
          ∃ e'' : EdgeRecord F, i.edges[id]? = some e'' ∧ e''.triple = e'.triple := by
        intro id e' he'
        obtain ⟨r', hr', rfl, hread⟩ := exists_of_rebuildFrom_edges he'
        exact h r' (hlog r' hr') e' hread
      refine hadj.apply_edge (fun old hold => ?_) fun id' e' he' htriple => ?_
      · obtain ⟨e'', he'', htriple⟩ := hall _ old hold
        cases he₀.symm.trans he''
        exact htriple.symm.trans htriple₀
      · obtain ⟨e'', he'', htriple'⟩ := hall id' e' he'
        exact hi.triple_inj he₀ he'' (htriple'.trans (htriple.trans htriple₀.symm))

/-! ## A log without one object -/

variable (log)

theorem rebuildFrom_actor (origin : Nat) :
    rebuildFrom S (log.map fun r => { r with actorOrigin := origin }) = rebuildFrom S log := by
  rw [rebuildFrom, foldl_map]
  rfl

theorem get_apply_of_ne (i : GraphIndex F V) (hne : id ≠ id')
    (record : Record F V) : (i.apply id record).nodes[id']? = i.nodes[id']? ∧
      (i.apply id record).edges[id']? = i.edges[id']? := by
  cases record with
  | node n => exact ⟨(get_insert _ _ _ _).trans (if_neg hne), rfl⟩
  | edge e => exact ⟨rfl, (get_insert _ _ _ _).trans (if_neg hne)⟩

theorem get_rebuildFrom_filter (hne : id ≠ id') :
    (rebuildFrom S (log.filter fun r => r.objectId ≠ id)).nodes[id']? =
        (rebuildFrom S log).nodes[id']? ∧
      (rebuildFrom S (log.filter fun r => r.objectId ≠ id)).edges[id']? =
        (rebuildFrom S log).edges[id']? := by
  induction log using List.reverseRecOn with
  | nil => exact ⟨rfl, rfl⟩
  | append_singleton log r ih =>
    rw [filter_append, rebuildFrom_concat, replayRecord]
    by_cases hr : r.objectId = id
    · have hdrop : [r].filter (fun r => r.objectId ≠ id) = [] := by simp [hr]
      rw [hdrop, append_nil]
      cases S.fromValue r.metadata with
      | none => exact ih
      | some record =>
        have happ := (rebuildFrom S log).get_apply_of_ne (hr ▸ hne) record
        exact ⟨ih.1.trans happ.1.symm, ih.2.trans happ.2.symm⟩
    · have hkeep : [r].filter (fun r => r.objectId ≠ id) = [r] := by simp [hr]
      rw [hkeep, rebuildFrom_concat, replayRecord]
      rcases S.fromValue r.metadata with _ | (n | e)
      · exact ih
      · refine ⟨?_, ih.2⟩
        simp only [apply_node_nodes, get_insert, ih.1]
      · refine ⟨ih.1, ?_⟩
        simp only [apply_edge_edges, get_insert, ih.2]

theorem get_rebuildFrom_filter_self (id : Storage.ObjectId) :
    (rebuildFrom S (log.filter fun r => r.objectId ≠ id)).edges[id]? = none := by
  cases h : (rebuildFrom S (log.filter fun r => r.objectId ≠ id)).edges[id]? with
  | none => rfl
  | some e =>
    obtain ⟨r, hr, hid, -⟩ := exists_of_rebuildFrom_edges h
    exact absurd hid (of_decide_eq_true (mem_filter.mp hr).2)

theorem removeNode_apply_self (i : GraphIndex F V) (id : NodeId) (n : NodeRecord F V) :
    (i.apply id (.node n)).removeNode id = i.removeNode id := by
  have hnodes : (i.nodes.insert id n).erase id = i.nodes.erase id := by
    apply Std.ExtTreeMap.ext_getElem?
    intro id'
    rw [get_erase, get_erase, get_insert]
    split <;> rfl
  simp only [removeNode, apply, hnodes]

theorem removeNode_apply_of_ne (i : GraphIndex F V) (hne : id' ≠ id)
    (record : Record F V) : (i.apply id' record).removeNode id = (i.removeNode id).apply id' record := by
  cases record with
  | node n =>
    have hnodes : (i.nodes.insert id' n).erase id = (i.nodes.erase id).insert id' n := by
      apply Std.ExtTreeMap.ext_getElem?
      intro k
      simp only [get_erase, get_insert]
      by_cases hk : id = k
      · subst hk
        simp [hne]
      · simp [hk]
    simp only [removeNode, apply, hnodes]
  | edge e => rfl

theorem rebuildFrom_filter_eq {id : Storage.ObjectId} (h : (rebuildFrom S log).edges[id]? = none) :
    rebuildFrom S (log.filter fun r => r.objectId ≠ id) = (rebuildFrom S log).removeNode id := by
  induction log using List.reverseRecOn with
  | nil =>
    have hnodes : (∅ : HashMap NodeId (NodeRecord F V)).erase id = ∅ := by simp
    simp [rebuildFrom, removeNode, empty, hnodes]
  | append_singleton log r ih =>
    rw [rebuildFrom_concat, replayRecord] at h ⊢
    rw [filter_append]
    by_cases hr : r.objectId = id
    · have hdrop : [r].filter (fun r => r.objectId ≠ id) = [] := by simp [hr]
      rw [hdrop, append_nil]
      rcases hread : S.fromValue r.metadata with _ | (n | e) <;> simp only [hread] at h ⊢
      · exact ih h
      · rw [hr, removeNode_apply_self]
        exact ih h
      · rw [hr, apply_edge_edges, get_insert, if_pos rfl] at h
        cases h
    · have hkeep : [r].filter (fun r => r.objectId ≠ id) = [r] := by simp [hr]
      rw [hkeep, rebuildFrom_concat, replayRecord]
      cases hread : S.fromValue r.metadata with
      | none =>
        simp only [hread] at h
        exact ih h
      | some record =>
        simp only [hread] at h
        rw [((rebuildFrom S log).get_apply_of_ne hr record).2] at h
        rw [ih h, removeNode_apply_of_ne _ hr]

end

end GraphIndex

end Hyperion.Graph
