import Hyperion.Graph.Run

/-!
# The index beside the log

What holds of the graph and its log in every run, whether or not the records read back as themselves.
The index may know more than the log: a record with a float that is not finite does not read back, and
`purge_node_history` of an id that is also an edge drops the edge from the log only. But whatever record
the log does hold, the index has one of the same kind, owner and triple under its id (`Covers`).
-/

namespace Hyperion.Graph
open Lib Capability Storage HashMap GraphIndex List Option KnowledgeGraph

section
variable {F V : Type}

namespace GraphIndex

/-- The index has a record of the same kind, owner and triple under the id. -/
def Has (i : GraphIndex F V) (id : Storage.ObjectId) : Record F V → Prop
  | .node n => ∃ n' : NodeRecord F V, i.nodes[id]? = some n' ∧ n'.owner = n.owner
  | .edge e => ∃ e' : EdgeRecord F, i.edges[id]? = some e' ∧ e'.triple = e.triple ∧ e'.owner = e.owner

/-- What the index has of the record's kind under the id has its owner and triple, and no other edge
has its triple. -/
def Fits (i : GraphIndex F V) (id : Storage.ObjectId) : Record F V → Prop
  | .node n => ∀ old : NodeRecord F V, i.nodes[id]? = some old → old.owner = n.owner
  | .edge e =>
    (∀ old : EdgeRecord F, i.edges[id]? = some old → old.triple = e.triple ∧ old.owner = e.owner) ∧
      ∀ (id' : EdgeId) (e' : EdgeRecord F), i.edges[id']? = some e' → e'.triple = e.triple → id' = id

def Within (given : Inputs F V) (i : GraphIndex F V) : Prop :=
  (∀ (id : NodeId) (n : NodeRecord F V), i.nodes[id]? = some n → (Record.node n).Within given) ∧
    ∀ (id : EdgeId) (e : EdgeRecord F), i.edges[id]? = some e → (Record.edge e : Record F V).Within given

variable {i : GraphIndex F V} {id id' : Storage.ObjectId} {record record' : Record F V}

theorem Has.apply (h : i.Has id record) (hfits : i.Fits id' record') :
    (i.apply id' record').Has id record := by
  cases record with
  | node n =>
    obtain ⟨old, hold, howner⟩ := h
    cases record' with
    | node n' =>
      by_cases hid : id' = id
      · subst hid
        exact ⟨n', (get_insert _ _ _ _).trans (if_pos rfl), (hfits old hold).symm.trans howner⟩
      · exact ⟨old, (get_insert _ _ _ _).trans ((if_neg hid).trans hold), howner⟩
    | edge e' => exact ⟨old, hold, howner⟩
  | edge e =>
    obtain ⟨old, hold, htriple, howner⟩ := h
    cases record' with
    | node n' => exact ⟨old, hold, htriple, howner⟩
    | edge e' =>
      by_cases hid : id' = id
      · subst hid
        obtain ⟨htriple', howner'⟩ := hfits.1 old hold
        exact ⟨e', (get_insert _ _ _ _).trans (if_pos rfl), htriple'.symm.trans htriple,
          howner'.symm.trans howner⟩
      · exact ⟨old, (get_insert _ _ _ _).trans ((if_neg hid).trans hold), htriple, howner⟩

theorem has_apply_self (h : record.SameIdentity record') : (i.apply id record).Has id record' := by
  cases record with
  | node n =>
    cases record' with
    | node n' => exact ⟨n, (get_insert _ _ _ _).trans (if_pos rfl), h.symm⟩
    | edge e' => exact h.elim
  | edge e =>
    cases record' with
    | node n' => exact h.elim
    | edge e' => exact ⟨e, (get_insert _ _ _ _).trans (if_pos rfl), h.1.symm, h.2.symm⟩

theorem Has.removeNode (h : i.Has id record) (hne : id' ≠ id) : (i.removeNode id').Has id record := by
  cases record with
  | node n =>
    obtain ⟨old, hold, howner⟩ := h
    exact ⟨old, (get_erase _ _ _).trans ((if_neg hne).trans hold), howner⟩
  | edge e => exact h

theorem Adjacent.apply (h : i.Adjacent) (hfits : i.Fits id record) : (i.apply id record).Adjacent := by
  cases record with
  | node n => exact h.apply_node id n
  | edge e => exact h.apply_edge (fun old hold => (hfits.1 old hold).1) hfits.2

theorem Within.apply {given : Inputs F V} (h : i.Within given) (hrecord : record.Within given) :
    (i.apply id record).Within given := by
  cases record with
  | node n =>
    refine ⟨fun id' n' hn' => ?_, h.2⟩
    rw [apply_node_nodes, get_insert] at hn'
    split at hn'
    · cases hn'
      exact hrecord
    · exact h.1 id' n' hn'
  | edge e =>
    refine ⟨h.1, fun id' e' he' => ?_⟩
    rw [apply_edge_edges, get_insert] at he'
    split at he'
    · cases he'
      exact hrecord
    · exact h.2 id' e' he'

end GraphIndex

variable {C : Codec V} (S : Serde F V) (reread : V → Option V) (given : Inputs F V)

/-- Every record that the log holds, the index has. -/
def Covers (i : GraphIndex F V) (log : List (WalRecord V)) : Prop :=
  ∀ r ∈ log, ∀ record, S.fromValue r.metadata = some record → i.Has r.objectId record

/-- The file holds `log`, whose records are over the given inputs and which the index covers. -/
structure Logged (C : Codec V) (g : KnowledgeGraph F V) (log : List (WalRecord V)) : Prop where
  tracks : Tracks C reread g.storage log
  sorted : log.Pairwise fun a b => a.newVersion < b.newVersion
  encoded : ∀ r ∈ log, ∃ record, record.Within given ∧ r.metadata = S.toValue record
  within : g.index.Within given
  adjacent : g.index.Adjacent
  covers : Covers S g.index log

variable {S reread given}

theorem logged_empty : Logged S reread given C .empty [] where
  tracks := tracks_empty
  sorted := .nil
  encoded := by simp
  within := by simp [GraphIndex.Within, KnowledgeGraph.empty, GraphIndex.empty]
  adjacent := adjacent_empty
  covers := by simp [Covers]

section
variable {g : KnowledgeGraph F V} {log : List (WalRecord V)}

theorem Logged.openImpl_eq (h : Logged S reread given C g log) :
    openImpl S C g.storage.file =
      .ok ⟨⟨g.storage.file, .rebuild log⟩, .rebuildFrom S log⟩ := by
  rw [openImpl, h.tracks.openImpl_eq, rebuild, h.tracks.holds.replay_eq]
  rfl

theorem Logged.counted (h : Logged S reread given C g log) (id : Option Storage.ObjectId) :
    Logged S reread given C (g.counted id) log where
  tracks := ⟨h.tracks.holds, h.tracks.mirrors.allocate id⟩
  sorted := h.sorted
  encoded := h.encoded
  within := h.within
  adjacent := h.adjacent
  covers := h.covers

variable (L : C.Lawful reread)
include L

theorem Logged.stored (hS : S.Lawful reread given) (h : Logged S reread given C g log) (call : Call C)
    (id : Option Storage.ObjectId) {record : Record F V} (hrecord : record.Within given)
    (hfits : g.index.Fits (g.storage.inner.allocate id).1 record) :
    Logged S reread given C (g.stored S C call id record)
      (log ++ [g.storage.written call.storeCaller id (S.toValue record)]) where
  tracks := h.tracks.stored L call.storeCaller id (hS.stable record hrecord) (call.nonce 0)
  sorted := by
    refine pairwise_append.mpr ⟨h.sorted, pairwise_singleton _ _, fun r hr r' hr' => ?_⟩
    rw [mem_singleton.mp hr']
    exact h.tracks.mirrors.chains.fresh h.tracks.mirrors.coherent r hr
  encoded r hr := by
    rcases mem_append.mp hr with hr | hr
    · exact h.encoded r hr
    · rw [mem_singleton.mp hr]
      exact ⟨record, hrecord, rfl⟩
  within := h.within.apply hrecord
  adjacent := h.adjacent.apply hfits
  covers r hr record' hread := by
    rcases mem_append.mp hr with hr | hr
    · exact (h.covers r hr record' hread).apply hfits
    · rw [mem_singleton.mp hr] at hread ⊢
      exact has_apply_self (hS.reads record record' hrecord hread).2

theorem Logged.purged (h : Logged S reread given C g log) (call : Call C) (nodeId : NodeId) :
    Logged S reread given C
      ⟨{ file := rewritten C call.nonce (g.storage.inner.survivingRecords call.token.origin nodeId),
         inner := g.storage.inner.purged nodeId }, g.index.removeNode nodeId⟩
      ((log.filter fun r => r.objectId ≠ nodeId).map fun r =>
        { r with actorOrigin := call.token.origin }) := by
  have heq := Inner.survivingRecords_eq h.tracks.mirrors.chains h.sorted call.token.origin nodeId
  have M := h.tracks.mirrors.purged call.token.origin nodeId
  rw [heq] at M ⊢
  constructor
  case tracks => exact ⟨L.holds_rewritten M.stable call.nonce, M⟩
  case sorted => exact pairwise_map.mpr (h.sorted.sublist filter_sublist)
  case encoded =>
    intro r hr
    obtain ⟨r', hr', rfl⟩ := mem_map.mp hr
    exact h.encoded r' (mem_filter.mp hr').1
  case within =>
    refine ⟨fun id n hn => ?_, h.within.2⟩
    rw [removeNode, get_erase] at hn
    split at hn
    · cases hn
    · exact h.within.1 id n hn
  case adjacent => exact ⟨h.adjacent.forward, h.adjacent.backward, h.adjacent.identity⟩
  case covers =>
    intro r hr record hread
    obtain ⟨r', hr', rfl⟩ := mem_map.mp hr
    obtain ⟨hmem, hne⟩ := mem_filter.mp hr'
    exact (h.covers r' hmem record hread).removeNode (Ne.symm (of_decide_eq_true hne))

omit L in
theorem Logged.covers_rebuildFrom (h : Logged S reread given C g log) :
    Covers S (.rebuildFrom S log) log := by
  rintro r hr (n | e) hread
  · obtain ⟨n', hn'⟩ := rebuildFrom_nodes_isSome hr hread
    obtain ⟨r', hr', hid, hread'⟩ := exists_of_rebuildFrom_nodes hn'
    obtain ⟨m, hm, howner⟩ := h.covers r hr _ hread
    obtain ⟨m', hm', howner'⟩ := h.covers r' hr' _ hread'
    rw [hid, hm] at hm'
    cases hm'
    exact ⟨n', hn', howner'.symm.trans howner⟩
  · obtain ⟨e', he'⟩ := rebuildFrom_edges_isSome hr hread
    obtain ⟨r', hr', hid, hread'⟩ := exists_of_rebuildFrom_edges he'
    obtain ⟨m, hm, htriple, howner⟩ := h.covers r hr _ hread
    obtain ⟨m', hm', htriple', howner'⟩ := h.covers r' hr' _ hread'
    rw [hid, hm] at hm'
    cases hm'
    exact ⟨e', he', htriple'.symm.trans htriple, howner'.symm.trans howner⟩

omit L in
theorem Logged.reopen (hS : S.Lawful reread given) (h : Logged S reread given C g log) :
    Logged S reread given C ⟨⟨g.storage.file, .rebuild log⟩, .rebuildFrom S log⟩ log where
  tracks := ⟨h.tracks.holds, mirrors_rebuild h.tracks.mirrors.ordered h.tracks.mirrors.stable⟩
  sorted := h.sorted
  encoded := h.encoded
  within := by
    have hread : ∀ r ∈ log, ∀ record, S.fromValue r.metadata = some record → record.Within given := by
      intro r hr record hrecord
      obtain ⟨written, hwithin, hvalue⟩ := h.encoded r hr
      exact (hS.reads written record hwithin (hvalue ▸ hrecord)).1
    constructor
    · intro id n hn
      obtain ⟨r, hr, -, hrecord⟩ := exists_of_rebuildFrom_nodes hn
      exact hread r hr _ hrecord
    · intro id e he
      obtain ⟨r, hr, -, hrecord⟩ := exists_of_rebuildFrom_edges he
      exact hread r hr _ hrecord
  adjacent := by
    refine adjacent_rebuildFrom h.adjacent fun r hr e hread => ?_
    obtain ⟨e', he', htriple, -⟩ := h.covers r hr _ hread
    exact ⟨e', he', htriple⟩
  covers := h.covers_rebuildFrom

end

/-! ## What operations write fits -/

def Record.owner : Record F V → TrustBoundaryId
  | .node n => n.owner
  | .edge e => e.owner

def Op.Within (given : Inputs F V) : Op F C → Prop
  | .putNode _ args => (∀ xs ∈ args.embedding, ∀ x ∈ xs, given.float x) ∧ given.metadata args.metadata
  | .link _ args => given.float args.weight ∧ ∀ c ∈ args.confidence, given.float c
  | _ => True

section
variable {g : KnowledgeGraph F V} {op : Op F C} {call : Call C} {id : Option Storage.ObjectId}
  {record : Record F V}

theorem Writes.within (h : Writes g op call id record) (hop : op.Within given)
    (hg : g.index.Within given) : record.Within given := by
  cases h with
  | putNode => exact hop
  | corroborateNode call id old hold => exact hg.1 id old hold
  | deleteNode call id old hold => exact hg.1 id old hold
  | newEdge => exact hop
  | oldEdge => exact hop
  | unlink call id old hold => exact hg.2 id old hold

theorem Writes.owner (h : Writes g op call id record) : record.owner = call.callerBoundary := by
  cases h with
  | putNode call args howner =>
    cases hold : args.nodeId.bind fun id => g.index.nodes[id]? with
    | none => rfl
    | some old => exact howner old hold
  | corroborateNode call id old hold howner => exact howner
  | deleteNode call id old hold howner => exact howner
  | newEdge => rfl
  | oldEdge => rfl
  | unlink call id old hold howner => exact howner

theorem existingEdge_eq_some_iff {t : Triple} {edgeId : EdgeId} {e : EdgeRecord F} :
    g.existingEdge t = some (edgeId, e) ↔
      g.index.edgeIdentity[t]? = some edgeId ∧ g.index.edges[edgeId]? = some e := by
  simp only [existingEdge, bind_eq_some_iff, map_eq_some_iff, Prod.mk.injEq]
  constructor
  · rintro ⟨_, hid, _, he, rfl, rfl⟩
    exact ⟨hid, he⟩
  · rintro ⟨hid, he⟩
    exact ⟨_, hid, _, he, rfl, rfl⟩

theorem Writes.fits (h : Writes g op call id record) (hadjacent : g.index.Adjacent) (hpointed : Pointed g)
    (hcas : g.storage.inner.versionPointer[(g.storage.inner.allocate id).1]? =
      id.bind g.storage.currentVersion)
    (hnew : id = none → g.index.edges[g.storage.inner.nextObjectId]? = none) :
    g.index.Fits (g.storage.inner.allocate id).1 record := by
  cases h with
  | putNode call args howner =>
    intro old hold
    cases hid : args.nodeId with
    | none =>
      -- the counter's next id has no version, so no node either
      rw [hid] at hold hcas
      obtain ⟨v, hv⟩ := hpointed _ old hold
      cases hcas.symm.trans hv
    | some nodeId =>
      rw [hid] at hold
      simp only [nodeRecord, bind_some]
      exact (congrArg (Option.elim · _ _) hold).symm
  | corroborateNode call nodeId old hold | deleteNode call nodeId old hold =>
    intro old' hold'
    cases hold.symm.trans hold'
    rfl
  | newEdge call args hnone =>
    have hnext := hnew rfl
    refine ⟨fun old hold => ?_, fun id' e' he' htriple => ?_⟩
    · cases hnext.symm.trans hold
    · have hid := (hadjacent.identity args.triple id').mpr ⟨e', he', htriple⟩
      cases hnone.symm.trans (existingEdge_eq_some_iff.mpr ⟨hid, he'⟩)
  | oldEdge call args edgeId old hold howner =>
    obtain ⟨hid, he⟩ := existingEdge_eq_some_iff.mp hold
    obtain ⟨old', he', htriple⟩ := (hadjacent.identity args.triple edgeId).mp hid
    cases he.symm.trans he'
    refine ⟨fun old' hold' => ?_, fun id' e' he' htriple' => ?_⟩
    · cases he.symm.trans hold'
      exact ⟨htriple, howner⟩
    · exact hadjacent.triple_inj he he' (htriple'.trans htriple.symm)
  | unlink call edgeId old hold howner =>
    refine ⟨fun old' hold' => ?_, fun id' e' he' htriple => hadjacent.triple_inj hold he' htriple⟩
    cases hold.symm.trans hold'
    exact ⟨rfl, rfl⟩

theorem Writes.io (h : Writes g op call id record) (hop : op.Completes g) : call.io = .completed := by
  cases h <;> exact hop

end

/-! ## Runs -/

/-- Edge ids come from the counter, which is above them. -/
def EdgesCounted (g : KnowledgeGraph F V) : Prop :=
  ∀ (id : EdgeId) (e : EdgeRecord F), g.index.edges[id]? = some e →
    id < g.storage.inner.nextObjectId ∧ id + 1 < 2 ^ 64

/-- An operation that takes a new id does not make the 64-bit counter wrap. -/
def Op.NoWrap (g : KnowledgeGraph F V) : Op F C → Prop
  | .putNode _ args => args.nodeId = none → g.storage.inner.nextObjectId + 1 < 2 ^ 64
  | .link _ args => g.existingEdge args.triple = none → g.storage.inner.nextObjectId + 1 < 2 ^ 64
  | _ => True

section
variable {g g' : KnowledgeGraph F V} {op : Op F C} {call : Call C} {id : Option Storage.ObjectId}
  {record : Record F V}

theorem Writes.noWrap (h : Writes g op call id record) (hop : op.NoWrap g) (hid : id = none) :
    g.storage.inner.nextObjectId + 1 < 2 ^ 64 := by
  cases h with
  | putNode => exact hop hid
  | newEdge call args hnone => exact hop hnone
  | _ => cases hid

theorem le_allocate (i : Inner V) (id : Option Storage.ObjectId)
    (h : id = none → i.nextObjectId + 1 < 2 ^ 64) : i.nextObjectId ≤ (i.allocate id).2.nextObjectId ∧
      (id = none → (i.allocate id).1 < (i.allocate id).2.nextObjectId) := by
  cases id with
  | some id => exact ⟨le_refl _, fun hno => nomatch hno⟩
  | none =>
    have hnext : (i.allocate none).2.nextObjectId = i.nextObjectId + 1 := Nat.mod_eq_of_lt (h rfl)
    rw [hnext]
    exact ⟨Nat.le_succ _, fun _ => Nat.lt_succ_self _⟩

theorem EdgesCounted.mono (h : EdgesCounted g) (hedges : g'.index.edges = g.index.edges)
    (hnext : g.storage.inner.nextObjectId ≤ g'.storage.inner.nextObjectId) : EdgesCounted g' := by
  intro id e he
  rw [hedges] at he
  exact ⟨lt_of_lt_of_le (h id e he).1 hnext, (h id e he).2⟩

theorem Writes.edge_below (hwrites : Writes g op call id record) (h : EdgesCounted g)
    (hop : op.NoWrap g) {e : EdgeRecord F} (hrecord : record = .edge e) :
    (g.storage.inner.allocate id).1 < (g.storage.inner.allocate id).2.nextObjectId ∧
      (g.storage.inner.allocate id).1 + 1 < 2 ^ 64 := by
  cases hwrites with
  | putNode => cases hrecord
  | corroborateNode => cases hrecord
  | deleteNode => cases hrecord
  | newEdge call args hnone => exact ⟨(le_allocate _ none fun _ => hop hnone).2 rfl, hop hnone⟩
  | oldEdge call args edgeId old hold => exact h edgeId old (existingEdge_eq_some_iff.mp hold).2
  | unlink call edgeId old hold => exact h edgeId old hold

theorem EdgesCounted.effect (h : EdgesCounted g) (hop : op.NoWrap g) (heffect : Effect S g op g') :
    EdgesCounted g' := by
  cases heffect with
  | unchanged => exact h
  | counted hwrites => exact h.mono rfl (le_allocate _ none (hwrites.noWrap hop)).1
  | torn hwrites written hio => exact h.mono rfl (le_allocate _ _ (hwrites.noWrap hop)).1
  | @wrote call id record hwrites hcas =>
    have hle := (le_allocate g.storage.inner id (hwrites.noWrap hop)).1
    cases record with
    | node n => exact h.mono rfl hle
    | edge e =>
      intro edgeId e' he'
      have hget := (get_insert _ _ _ _).symm.trans he'
      split at hget
      · next heq =>
        subst heq
        exact hwrites.edge_below h hop rfl
      · exact ⟨lt_of_lt_of_le (h edgeId e' hget).1 hle, (h edgeId e' hget).2⟩
  | purged => exact h.mono rfl (le_refl _)

end

/-- The operations of the runs considered: no I/O failure, the given inputs, and no wrap of the
counter. -/
def Op.Regular (given : Inputs F V) (g : KnowledgeGraph F V) (op : Op F C) : Prop :=
  op.Completes g ∧ op.Within given ∧ op.NoWrap g

variable (C S reread given) in
structure Sound (g : KnowledgeGraph F V) : Prop where
  logged : ∃ log, Logged S reread given C g log
  pointed : Pointed g
  counted : EdgesCounted g

section
variable {g g' : KnowledgeGraph F V} {op : Op F C}

theorem sound_empty : Sound C S reread given .empty where
  logged := ⟨[], logged_empty⟩
  pointed := by simp [Pointed, KnowledgeGraph.empty, GraphIndex.empty]
  counted := by simp [EdgesCounted, KnowledgeGraph.empty, GraphIndex.empty]

theorem EdgesCounted.next (h : EdgesCounted g) : g.index.edges[g.storage.inner.nextObjectId]? = none := by
  cases he : g.index.edges[g.storage.inner.nextObjectId]? with
  | none => rfl
  | some e => exact absurd (h _ e he).1 (lt_irrefl _)

theorem Sound.reopen (hS : S.Lawful reread given) (h : Sound C S reread given g)
    (hopen : openImpl S C g.storage.file = .ok g') : Sound C S reread given g' := by
  obtain ⟨log, hlog⟩ := h.logged
  cases hlog.openImpl_eq.symm.trans hopen
  refine ⟨⟨log, hlog.reopen hS⟩, fun id n hn => ?_, fun id e he => ?_⟩
  · obtain ⟨r, hr, rfl, -⟩ := exists_of_rebuildFrom_nodes hn
    apply ne_none_iff_exists'.mp
    rw [Inner.rebuild_versionPointer, Ne, get_lastWins_eq_none_iff]
    exact fun hnone => hnone r hr rfl
  · obtain ⟨r, hr, rfl, hread⟩ := exists_of_rebuildFrom_edges he
    obtain ⟨e', he', -⟩ := hlog.covers r hr _ hread
    have hlt := (h.counted r.objectId e' he').2
    have hnext := (Inner.rebuild_nextObjectId_le log _).mp (le_refl _) r hr
    rw [Nat.mod_eq_of_lt hlt] at hnext
    exact ⟨hnext, hlt⟩

variable (L : C.Lawful reread) (hS : S.Lawful reread given)
include L hS

theorem Sound.effect (h : Sound C S reread given g) (hop : op.Regular given g)
    (heffect : Effect S g op g') : Sound C S reread given g' := by
  obtain ⟨hcompletes, hwithin, hnowrap⟩ := hop
  obtain ⟨log, hlog⟩ := h.logged
  refine ⟨?_, h.pointed.effect heffect, h.counted.effect hnowrap heffect⟩
  cases heffect with
  | unchanged => exact ⟨log, hlog⟩
  | counted => exact ⟨log, hlog.counted none⟩
  | torn hwrites written hio => cases (hwrites.io hcompletes).symm.trans hio
  | wrote hwrites hcas =>
    exact ⟨_, hlog.stored L hS _ _ (hwrites.within hwithin hlog.within)
      (hwrites.fits hlog.adjacent h.pointed hcas fun _ => h.counted.next)⟩
  | purged => exact ⟨_, hlog.purged L _ _⟩

theorem Sound.step [F32 F] (h : Sound C S reread given g) (hop : op.Regular given g)
    (hexec : op.exec S g = some g') : Sound C S reread given g' :=
  Op.preserves (fun hok _ n _ => ⟨hok.1.1 n, trivial, trivial⟩)
    (fun hg hok heffect => hg.effect L hS hok heffect) (fun hg _ hopen => hg.reopen hS hopen) h hop hexec

theorem Reached.sound [F32 F] (h : Reached C S (Op.Regular given) g) : Sound C S reread given g :=
  h.induction sound_empty fun hg hok hexec => hg.step L hS hok hexec

end

theorem sampleNode_within (call : Call jsonSerde.plain) (nodeId : Option NodeId) (tenantId : TenantId) :
    (Op.putNode call (sampleNode nodeId tenantId)).Within shallow :=
  ⟨fun _ _ _ _ => trivial, by simp [shallow, sampleNode, Json.depth, Json.recursionLimit]⟩

theorem sampleLink_within (call : Call jsonSerde.plain) (subject target : NodeId) :
    (Op.link call (sampleLink subject target)).Within shallow :=
  ⟨trivial, fun _ _ => trivial⟩

theorem unlinkedPair_regular : Reached jsonSerde.plain jsonRecord (Op.Regular shallow) unlinkedPair :=
  unlinkedPair_reached ⟨rfl, sampleNode_within _ _ _, fun _ => by decide⟩
    ⟨rfl, sampleNode_within _ _ _, fun _ => by decide⟩

theorem linkedPair_regular : Reached jsonSerde.plain jsonRecord (Op.Regular shallow) linkedPair :=
  unlinkedPair_regular.tail ⟨.link plainWriter (sampleLink 0 1),
    ⟨rfl, sampleLink_within _ _ _, fun _ => by decide⟩, rfl⟩

theorem sharedId_regular : Reached jsonSerde.plain jsonRecord (Op.Regular shallow) sharedId :=
  sharedId_reached ⟨rfl, sampleLink_within _ _ _, fun _ => by decide⟩
    ⟨rfl, sampleNode_within _ _ _, fun h => nomatch h⟩

end

end Hyperion.Graph
