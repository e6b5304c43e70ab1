import Hyperion.Graph.Faithful

/-!
# Owner isolation on writes

Every write checks the owner of what the index has under the id, in the table of the record's own
kind. The log beneath knows one space of ids, and `purge_node_history` removes every record of an id
after a look at the node table alone: a boundary that puts a node under the id of another boundary's
edge can purge the edge from the log.
-/

namespace Hyperion.Graph
open Lib Capability Storage GraphIndex

section
variable {F V : Type} {C : Codec V} {S : Serde F V} {reread : V → Option V} {given : Inputs F V}

def Keeps (b : TrustBoundaryId) (i i' : GraphIndex F V) : Prop :=
  (∀ (id : NodeId) (n : NodeRecord F V), i.nodes[id]? = some n → n.owner = b → i'.nodes[id]? = some n) ∧
    ∀ (id : EdgeId) (e : EdgeRecord F), i.edges[id]? = some e → e.owner = b → i'.edges[id]? = some e

/-- What the index has of the record's kind under the id has its owner. -/
def OwnerFits (i : GraphIndex F V) (id : Storage.ObjectId) : Record F V → Prop
  | .node n => ∀ old : NodeRecord F V, i.nodes[id]? = some old → old.owner = n.owner
  | .edge e => ∀ old : EdgeRecord F, i.edges[id]? = some old → old.owner = e.owner

section
variable {b : TrustBoundaryId} {i i' i'' : GraphIndex F V} {id : Storage.ObjectId}
  {record record' : Record F V}

theorem Keeps.refl (i : GraphIndex F V) : Keeps b i i := ⟨fun _ _ h _ => h, fun _ _ h _ => h⟩

theorem Keeps.trans (h : Keeps b i i') (h' : Keeps b i' i'') : Keeps b i i'' :=
  ⟨fun id n hn hb => h'.1 id n (h.1 id n hn hb) hb, fun id e he hb => h'.2 id e (h.2 id e he hb) hb⟩

theorem keeps_apply (hfits : OwnerFits i id record) (hb : record.owner ≠ b) :
    Keeps b i (i.apply id record) := by
  cases record with
  | node n =>
    refine ⟨fun id' n' hn' howner => ?_, fun _ _ h _ => h⟩
    rw [apply_node_nodes, HashMap.get_insert]
    split
    · next heq =>
      subst heq
      exact absurd ((hfits n' hn').symm.trans howner) hb
    · exact hn'
  | edge e =>
    refine ⟨fun _ _ h _ => h, fun id' e' he' howner => ?_⟩
    rw [apply_edge_edges, HashMap.get_insert]
    split
    · next heq =>
      subst heq
      exact absurd ((hfits e' he').symm.trans howner) hb
    · exact he'

theorem keeps_removeNode {n : NodeRecord F V} (hn : i.nodes[id]? = some n) (hb : n.owner ≠ b) :
    Keeps b i (i.removeNode id) := by
  refine ⟨fun id' n' hn' howner => ?_, fun _ _ h _ => h⟩
  rw [GraphIndex.removeNode, HashMap.get_erase]
  split
  · next heq =>
    subst heq
    cases hn.symm.trans hn'
    exact absurd howner hb
  · exact hn'

theorem GraphIndex.Fits.ownerFits (h : i.Fits id record) : OwnerFits i id record := by
  cases record with
  | node n => exact h
  | edge e => exact fun old hold => (h.1 old hold).2

end

theorem Writes.call_eq {g : KnowledgeGraph F V} {op : Op F C} {call : Call C} {id : Option Storage.ObjectId}
    {record : Record F V} (h : Writes g op call id record) : op.call = some call := by
  cases h <;> rfl

theorem Record.SameIdentity.owner_eq {r r' : Record F V} (h : r.SameIdentity r') : r'.owner = r.owner := by
  cases r <;> cases r' <;> first | exact h.elim | exact h | exact h.2

section
variable {g g' : KnowledgeGraph F V} {log : List (WalRecord V)}

theorem Logged.unique {log' : List (WalRecord V)} (h : Logged S reread given C g log)
    (h' : Logged S reread given C g log') : log = log' :=
  Except.ok.inj (h.tracks.holds.replay_eq.symm.trans h'.tracks.holds.replay_eq)

theorem Logged.ownerFits_rebuildFrom (h : Logged S reread given C g log) {id : Storage.ObjectId}
    {record record' : Record F V} (hfits : OwnerFits g.index id record)
    (hsame : record.SameIdentity record') : OwnerFits (.rebuildFrom S log) id record' := by
  cases record' with
  | node n' =>
    cases record with
    | edge e => exact hsame.elim
    | node n =>
      intro old hold
      obtain ⟨r, hr, rfl, hread⟩ := exists_of_rebuildFrom_nodes hold
      obtain ⟨m, hm, howner⟩ := h.covers r hr _ hread
      exact howner.symm.trans ((hfits m hm).trans hsame.symm)
  | edge e' =>
    cases record with
    | node n => exact hsame.elim
    | edge e =>
      intro old hold
      obtain ⟨r, hr, rfl, hread⟩ := exists_of_rebuildFrom_edges hold
      obtain ⟨m, hm, -, howner⟩ := h.covers r hr _ hread
      exact howner.symm.trans ((hfits m hm).trans hsame.2.symm)

/-- The records of the boundary stay, in the index and in what the log rebuilds. -/
def Isolated (C : Codec V) (S : Serde F V) (reread : V → Option V) (given : Inputs F V)
    (b : TrustBoundaryId) (g g' : KnowledgeGraph F V) : Prop :=
  Keeps b g.index g'.index ∧ ∀ log log', Logged S reread given C g log →
    Logged S reread given C g' log' → Keeps b (.rebuildFrom S log) (.rebuildFrom S log')

/-- A purge names no id that holds an edge of another boundary. -/
def Op.SparesForeignEdges (g : KnowledgeGraph F V) : Op F C → Prop
  | .purgeNodeHistory call nodeId => ∀ e : EdgeRecord F, g.index.edges[nodeId]? = some e →
      e.owner = call.callerBoundary
  | _ => True

/-- An operation of another boundary that purges no foreign edge. -/
def Op.ByOther (given : Inputs F V) (b : TrustBoundaryId) (g : KnowledgeGraph F V) (op : Op F C) : Prop :=
  op.Regular given g ∧ op.SparesForeignEdges g ∧ ∃ call, op.call = some call ∧ call.callerBoundary ≠ b

variable {b : TrustBoundaryId}

theorem Isolated.refl (g : KnowledgeGraph F V) : Isolated C S reread given b g g :=
  ⟨.refl _, fun _ _ h h' => h.unique h' ▸ .refl _⟩

theorem Isolated.trans {g'' : KnowledgeGraph F V} (hmid : Sound C S reread given g')
    (h : Isolated C S reread given b g g') (h' : Isolated C S reread given b g' g'') :
    Isolated C S reread given b g g'' := by
  obtain ⟨mid, hlog⟩ := hmid.logged
  exact ⟨h.1.trans h'.1, fun log log' hl hl' => (h.2 log mid hl hlog).trans (h'.2 mid log' hlog hl')⟩

variable (L : C.Lawful reread) (hS : S.Lawful reread given)
include L hS

variable {op : Op F C}

theorem Sound.isolated_effect (h : Sound C S reread given g) (hop : op.Regular given g)
    (hspares : op.SparesForeignEdges g) (hb : ∀ call, op.call = some call → call.callerBoundary ≠ b)
    (heffect : Effect S g op g') : Isolated C S reread given b g g' := by
  obtain ⟨hcompletes, hwithin, -⟩ := hop
  obtain ⟨log₀, hlog₀⟩ := h.logged
  cases heffect with
  | unchanged => exact .refl g
  | counted =>
    exact ⟨.refl _, fun _ _ hl hl' => (hl.counted none).unique hl' ▸ .refl _⟩
  | torn hwrites written hio => cases (hwrites.io hcompletes).symm.trans hio
  | @wrote call id record hwrites hcas =>
    have hfits := hwrites.fits hlog₀.adjacent h.pointed hcas fun _ => h.counted.next
    have hrecord := hwrites.within hwithin hlog₀.within
    have howner : record.owner ≠ b := hwrites.owner ▸ hb call hwrites.call_eq
    refine ⟨keeps_apply hfits.ownerFits howner, fun log log' hl hl' => ?_⟩
    rw [← (hl.stored L hS call id hrecord hfits).unique hl', rebuildFrom_concat,
      GraphIndex.replayRecord]
    cases hread : S.fromValue (g.storage.written call.storeCaller id (S.toValue record)).metadata with
    | none => exact .refl _
    | some record' =>
      have hsame := (hS.reads record record' hrecord hread).2
      exact keeps_apply (hl.ownerFits_rebuildFrom hfits.ownerFits hsame) (hsame.owner_eq ▸ howner)
  | @purged call nodeId hpurge n hn howner =>
    subst hpurge
    have hne : call.callerBoundary ≠ b := hb call rfl
    refine ⟨keeps_removeNode hn (howner ▸ hne), fun log log' hl hl' => ?_⟩
    rw [← (hl.purged L call nodeId).unique hl', rebuildFrom_actor]
    -- the purged id holds records of the caller only
    constructor
    · intro id n' hn' hb'
      by_cases hid : nodeId = id
      · subst hid
        obtain ⟨r, hr, rfl, hread⟩ := exists_of_rebuildFrom_nodes hn'
        obtain ⟨m, hm, hm'⟩ := hl.covers r hr _ hread
        cases hn.symm.trans hm
        exact absurd (howner.symm.trans (hm'.trans hb')) hne
      · rw [(get_rebuildFrom_filter log hid).1]
        exact hn'
    · intro id e' he' hb'
      by_cases hid : nodeId = id
      · subst hid
        obtain ⟨r, hr, rfl, hread⟩ := exists_of_rebuildFrom_edges he'
        obtain ⟨m, hm, -, hm'⟩ := hl.covers r hr _ hread
        exact absurd ((hspares m hm).symm.trans (hm'.trans hb')) hne
      · rw [(get_rebuildFrom_filter log hid).2]
        exact he'

theorem Sound.isolated_step [F32 F] (h : Sound C S reread given g)
    (hop : op.ByOther given b g) (hexec : op.exec S g = some g') : Isolated C S reread given b g g' := by
  refine (Op.preserves (P := fun g₁ => Sound C S reread given g₁ ∧ Isolated C S reread given b g g₁)
    ?_ ?_ ?_ ⟨h, .refl g⟩ hop hexec).2
  · rintro g₁ call threshold now order readings ⟨hregular, -, call', hcall', hb'⟩ g₂ n edgeId
    cases hcall'
    exact ⟨⟨hregular.1.1 n, trivial, trivial⟩, trivial, _, rfl, hb'⟩
  · rintro g₁ op₁ g₂ ⟨hsound, hisolated⟩ ⟨hregular, hspares₁, call₁, hcall₁, hb₁⟩ heffect
    refine ⟨hsound.effect L hS hregular heffect, hisolated.trans hsound ?_⟩
    refine hsound.isolated_effect L hS hregular hspares₁ (fun call₂ hcall₂ => ?_) heffect
    cases hcall₁.symm.trans hcall₂
    exact hb₁
  · rintro g₁ g₂ - ⟨-, -, call₁, hcall₁, -⟩
    cases hcall₁

/-- **Records of another boundary are isolated from writes.** In every run without I/O failure over
inputs that read back, and without a wrap of the id counter, an operation that purges no id holding
an edge of another boundary leaves every record that its caller does not own as it is, in the index and
in what a reopen rebuilds. -/
theorem foreign_records_isolated [F32 F] (hreached : Reached C S (Op.Regular given) g) {op : Op F C}
    (hop : op.Regular given g) (hspares : op.SparesForeignEdges g) (hexec : op.exec S g = some g')
    {call : Call C} (hcall : op.call = some call) (hb : call.callerBoundary ≠ b) :
    Keeps b g.index g'.index ∧ ∃ r r', KnowledgeGraph.openImpl S C g.storage.file = .ok r ∧
      KnowledgeGraph.openImpl S C g'.storage.file = .ok r' ∧ Keeps b r.index r'.index := by
  have hsound := hreached.sound L hS
  obtain ⟨log, hlog⟩ := hsound.logged
  obtain ⟨log', hlog'⟩ := (hsound.step L hS hop hexec).logged
  obtain ⟨hindex, hrebuilt⟩ := hsound.isolated_step L hS ⟨hop, hspares, call, hcall, hb⟩ hexec
  exact ⟨hindex, _, _, hlog.openImpl_eq, hlog'.openImpl_eq, hrebuilt log log' hlog hlog'⟩

end

/-- A node of another boundary beside the linked pair. -/
def accompaniedPair : KnowledgeGraph Int Json :=
  (linkedPair.putNodeWithProvenance jsonRecord _ otherWriter (sampleNode none 0)).2

theorem accompaniedPair_regular : Reached jsonSerde.plain jsonRecord (Op.Regular shallow) accompaniedPair :=
  linkedPair_regular.tail ⟨.putNode otherWriter (sampleNode none 0),
    ⟨rfl, sampleNode_within _ _ _, fun _ => by decide⟩, rfl⟩

/-- The node is purged. -/
theorem foreign_records_isolated_pair :
    plainWriter.callerBoundary ≠ otherWriter.callerBoundary ∧
      ∃ g', (Op.purgeNodeHistory otherWriter 3).exec jsonRecord accompaniedPair = some g' ∧
        accompaniedPair.index.nodes[3]?.isSome = true ∧ g'.index.nodes[3]?.isSome = false ∧
        Keeps plainWriter.callerBoundary accompaniedPair.index g'.index := by
  have hspares : Op.SparesForeignEdges accompaniedPair (.purgeNodeHistory otherWriter 3) := by
    intro e he
    have hnone : accompaniedPair.index.edges[(3 : EdgeId)]?.isNone = true := by decide +kernel
    rw [he] at hnone
    cases hnone
  have hregular : Op.Regular shallow accompaniedPair (.purgeNodeHistory otherWriter 3) := ⟨rfl, trivial, trivial⟩
  refine ⟨by decide, _, rfl, by decide +kernel, by decide +kernel, ?_⟩
  exact (foreign_records_isolated jsonSerde_lawful jsonRecord_exact.lawful accompaniedPair_regular hregular
    hspares rfl rfl (by decide)).1

/-- The plain writer purges its node under the id of the other writer's edge, and the edge is gone from
what a reopen rebuilds. -/
theorem purge_erases_foreign_edge : ∃ (g g' : KnowledgeGraph Int Json) (op : Op Int jsonSerde.plain),
    Reached jsonSerde.plain jsonRecord (Op.Regular shallow) g ∧ op.Regular shallow g ∧
      op.call = some plainWriter ∧ op.exec jsonRecord g = some g' ∧
      (∃ r e, KnowledgeGraph.openImpl jsonRecord jsonSerde.plain g.storage.file = .ok r ∧
        r.index.edges[0]? = some e ∧ e.owner ≠ plainWriter.callerBoundary) ∧
      ∃ r', KnowledgeGraph.openImpl jsonRecord jsonSerde.plain g'.storage.file = .ok r' ∧
        r'.index.edges[0]? = none := by
  refine ⟨sharedId, purgedId, .purgeNodeHistory plainWriter 0, sharedId_regular, ⟨rfl, trivial, trivial⟩,
    rfl, rfl, ?_, ?_⟩
  · obtain ⟨log, hlog, hindex⟩ := sharedId_faithful
    have hedge : ∃ e : EdgeRecord Int, sharedId.index.edges[0]? = some e ∧
        e.owner ≠ plainWriter.callerBoundary := ⟨_, rfl, by decide⟩
    rw [hindex] at hedge
    obtain ⟨e, he, howner⟩ := hedge
    exact ⟨_, e, hlog.openImpl_eq, he, howner⟩
  · obtain ⟨log, hlog, hnone⟩ := purgedId_logged
    exact ⟨_, hlog.openImpl_eq, hnone⟩

end

end Hyperion.Graph
