import Hyperion.Graph.Log

/-!
# The index refines the log

As long as records read back as themselves and `purge_node_history` names no id that is also an edge,
the index in memory is the one that `GraphIndex::rebuild` makes of the log: a write applies to both, and
a purge leaves the log without the node's records and the index without the node.
-/

namespace Hyperion.Graph
open Lib Capability Storage GraphIndex

section
variable {F V : Type} {C : Codec V} {S : Serde F V} {reread : V → Option V} {given : Inputs F V}

/-- A purge names no id that holds an edge. -/
def Op.SparesEdges (g : KnowledgeGraph F V) : Op F C → Prop
  | .purgeNodeHistory _ nodeId => g.index.edges[nodeId]? = none
  | _ => True

/-- No I/O failure, the given inputs, and no purge of an id that holds an edge. -/
def Op.Faithful (given : Inputs F V) (g : KnowledgeGraph F V) (op : Op F C) : Prop :=
  op.Completes g ∧ op.Within given ∧ op.SparesEdges g

variable (C S reread given) in
def Faithful (g : KnowledgeGraph F V) : Prop :=
  ∃ log, Logged S reread given C g log ∧ g.index = .rebuildFrom S log

section
variable {g g' : KnowledgeGraph F V} {op : Op F C} {log : List (WalRecord V)}

theorem Logged.versionPointer_of_mem (h : Logged S reread given C g log) {r : WalRecord V}
    (hr : r ∈ log) : ∃ v, g.storage.inner.versionPointer[r.objectId]? = some v :=
  h.tracks.mirrors.coherent.headed r.newVersion r.toVersion
    ((h.tracks.mirrors.chains _ _).mpr ⟨r, hr, rfl, rfl⟩)

theorem Logged.pointed (h : Logged S reread given C g log) (hindex : g.index = .rebuildFrom S log) :
    Pointed g := by
  intro id n hn
  rw [hindex] at hn
  obtain ⟨r, hr, rfl, -⟩ := exists_of_rebuildFrom_nodes hn
  exact h.versionPointer_of_mem hr

theorem Logged.edges_eq_none (h : Logged S reread given C g log) (hindex : g.index = .rebuildFrom S log)
    {id : Storage.ObjectId} (hid : g.storage.inner.versionPointer[id]? = none) :
    g.index.edges[id]? = none := by
  cases he : g.index.edges[id]? with
  | none => rfl
  | some e =>
    rw [hindex] at he
    obtain ⟨r, hr, rfl, -⟩ := exists_of_rebuildFrom_edges he
    obtain ⟨v, hv⟩ := h.versionPointer_of_mem hr
    cases hid.symm.trans hv

theorem Faithful.reopen (hS : S.Exact reread given) (h : Faithful C S reread given g)
    (hopen : KnowledgeGraph.openImpl S C g.storage.file = .ok g') : Faithful C S reread given g' := by
  obtain ⟨log, hlog, -⟩ := h
  cases hlog.openImpl_eq.symm.trans hopen
  exact ⟨log, hlog.reopen hS.lawful, rfl⟩

variable (L : C.Lawful reread) (hS : S.Exact reread given)
include L hS

theorem Faithful.effect (h : Faithful C S reread given g) (hop : op.Faithful given g)
    (heffect : Effect S g op g') : Faithful C S reread given g' := by
  obtain ⟨hcompletes, hwithin, hspares⟩ := hop
  obtain ⟨log, hlog, hindex⟩ := h
  cases heffect with
  | unchanged => exact ⟨log, hlog, hindex⟩
  | counted => exact ⟨log, hlog.counted none, hindex⟩
  | torn hwrites written hio => cases (hwrites.io hcompletes).symm.trans hio
  | @wrote call id record hwrites hcas =>
    have hrecord := hwrites.within hwithin hlog.within
    have hfits := hwrites.fits hlog.adjacent (hlog.pointed hindex) hcas fun hid => by
      subst hid
      exact hlog.edges_eq_none hindex hcas
    refine ⟨_, hlog.stored L hS.lawful call id hrecord hfits, ?_⟩
    have hread : S.fromValue (g.storage.written call.storeCaller id (S.toValue record)).metadata =
        some record := hS.reads record hrecord
    rw [rebuildFrom_concat, replayRecord, hread, ← hindex]
    rfl
  | @purged call nodeId hpurge n hn howner =>
    subst hpurge
    refine ⟨_, hlog.purged L call nodeId, ?_⟩
    have hnone : (rebuildFrom S log).edges[nodeId]? = none := hindex ▸ hspares
    rw [rebuildFrom_actor, rebuildFrom_filter_eq log hnone, ← hindex]

theorem Reached.faithful [F32 F] (h : Reached C S (Op.Faithful given) g) : Faithful C S reread given g :=
  h.induction ⟨[], logged_empty, rfl⟩ fun hg hok hexec =>
    Op.preserves (fun hok _ n _ => ⟨hok.1.1 n, trivial, trivial⟩)
      (fun hg hok heffect => hg.effect L hS hok heffect) (fun hg _ hopen => hg.reopen hS hopen) hg hok hexec

/-- **The index refines the log.** In every run without I/O failure over inputs that read back, in which
no purge names an id that holds an edge, the index is the one rebuilt from the file, and every edge
stands once in the list of its subject and once in the list of its target. -/
theorem index_refines_wal [F32 F] (h : Reached C S (Op.Faithful given) g) :
    GraphIndex.rebuild S C g.storage.file = .ok g.index ∧
      ∀ (id : EdgeId) (e : EdgeRecord F), g.index.edges[id]? = some e →
        (g.index.outgoing e.subject).count id = 1 ∧ (g.index.incoming e.target).count id = 1 := by
  obtain ⟨log, hlog, hindex⟩ := h.faithful L hS
  constructor
  · rw [rebuild, hlog.tracks.holds.replay_eq, hindex]
    rfl
  · exact fun id e he => ⟨hlog.adjacent.forward.count_eq_one he, hlog.adjacent.backward.count_eq_one he⟩

end

theorem index_refines_wal_pair :
    Reached jsonSerde.plain jsonRecord (Op.Faithful shallow) linkedPair ∧
      GraphIndex.rebuild jsonRecord jsonSerde.plain linkedPair.storage.file = .ok linkedPair.index := by
  have hreached : Reached jsonSerde.plain jsonRecord (Op.Faithful shallow) linkedPair :=
    linkedPair_reached ⟨rfl, sampleNode_within _ _ _, trivial⟩ ⟨rfl, sampleNode_within _ _ _, trivial⟩
      ⟨rfl, sampleLink_within _ _ _, trivial⟩
  exact ⟨hreached, (index_refines_wal jsonSerde_lawful jsonRecord_exact hreached).1⟩

/-! ## A node under the id of an edge -/

def purgedId : KnowledgeGraph Int Json := (sharedId.purgeNodeHistory _ plainWriter 0).2

theorem sharedId_faithful : Faithful jsonSerde.plain jsonRecord jsonReread shallow sharedId :=
  (sharedId_reached ⟨rfl, sampleLink_within _ _ _, trivial⟩
    ⟨rfl, sampleNode_within _ _ _, trivial⟩).faithful jsonSerde_lawful jsonRecord_exact

theorem purgedId_logged : ∃ log, Logged jsonRecord jsonReread shallow jsonSerde.plain purgedId log ∧
    (rebuildFrom jsonRecord log).edges[0]? = none := by
  obtain ⟨log, hlog, -⟩ := sharedId_faithful
  refine ⟨_, hlog.purged jsonSerde_lawful plainWriter 0, ?_⟩
  rw [rebuildFrom_actor]
  exact get_rebuildFrom_filter_self log 0

/-- After the purge the edge is in the index and not in what the file rebuilds. -/
theorem purge_parts_index_from_wal : ∃ g : KnowledgeGraph Int Json,
    Reached jsonSerde.plain jsonRecord (fun g op => op.Completes g ∧ op.Within shallow) g ∧
      (∃ e, g.index.edges[0]? = some e) ∧
      ∃ i, GraphIndex.rebuild jsonRecord jsonSerde.plain g.storage.file = .ok i ∧
        i.edges[0]? = none := by
  obtain ⟨log, hlog, hnone⟩ := purgedId_logged
  refine ⟨purgedId, ?_, ⟨_, rfl⟩, _, ?_, hnone⟩
  · exact (sharedId_reached ⟨rfl, sampleLink_within _ _ _⟩ ⟨rfl, sampleNode_within _ _ _⟩).tail
      ⟨.purgeNodeHistory plainWriter 0, ⟨rfl, trivial⟩, rfl⟩
  · rw [rebuild, hlog.tracks.holds.replay_eq]
    rfl

end

end Hyperion.Graph
