import Hyperion.Graph.Faithful

/-!
# The identity of an edge

An edge is found by its triple: `link` writes over the edge that holds the triple, raises its version and
revives a deleted one only for its owner, who has seen the deletion. What an operation can do to an edge
is said once, by `EdgeChange`; a reopen does nothing to it as long as every record reads back.

A float that is not finite is written as `null`, which does not read back. A reopen passes the record
over and an earlier version of the edge comes back, deleted since or not.
-/

namespace Hyperion.Graph
open Lib Capability Storage GraphIndex Reached

section
variable {F V : Type} {C : Codec V} {S : Serde F V} {reread : V → Option V} {given : Inputs F V}

/-- The call may write over the edge: it names the triple, comes from the owner, and has seen the
deletion if the edge is deleted. -/
structure Relinks (call : Call C) (args : LinkArgs F) (e : EdgeRecord F) : Prop where
  triple : args.triple = e.triple
  owner : call.callerBoundary = e.owner
  seen : e.tombstone = true → ∃ v ∈ args.observedVersion, e.version ≤ v

/-- What an operation can make of an edge. -/
inductive EdgeChange (op : Op F C) (e : EdgeRecord F) : EdgeRecord F → Prop
  | kept : EdgeChange op e e
  | unlinked (hop : ∀ call args, op ≠ .link call args) (hactive : e.tombstone = false) :
      EdgeChange op e e.unlinked
  | linked (call : Call C) (args : LinkArgs F) (hop : op = .link call args) (hrelinks : Relinks call args e) :
      EdgeChange op e (KnowledgeGraph.linkRecord call args call.callerBoundary e.createdAt (some e))

/-- Every edge is still there, and the operation has made of it what it can. -/
def EdgesChange (op : Op F C) (i i' : GraphIndex F V) : Prop :=
  ∀ (id : EdgeId) (e : EdgeRecord F), i.edges[id]? = some e →
    ∃ e', i'.edges[id]? = some e' ∧ EdgeChange op e e'

section
variable {g g' : KnowledgeGraph F V} {op : Op F C} {call : Call C} {id : Option Storage.ObjectId}
  {record : Record F V}

theorem EdgesChange.of_edges_eq {i i' : GraphIndex F V} (h : i'.edges = i.edges) : EdgesChange op i i' :=
  fun id e he => ⟨e, by rw [h, he], .kept⟩

theorem EdgesChange.of_apply {i : GraphIndex F V} {id : EdgeId} {e' : EdgeRecord F}
    (h : ∀ e : EdgeRecord F, i.edges[id]? = some e → EdgeChange op e e') :
    EdgesChange op i (i.apply id (.edge e')) := by
  intro id' e he
  rw [apply_edge_edges, HashMap.get_insert]
  split
  · next heq =>
    subst heq
    exact ⟨e', rfl, h e he⟩
  · exact ⟨e, he, .kept⟩

theorem Writes.edgesChange (h : Writes g op call id record) (hadjacent : g.index.Adjacent)
    (hnew : id = none → g.index.edges[(g.storage.inner.allocate id).1]? = none) :
    EdgesChange op g.index (g.index.apply (g.storage.inner.allocate id).1 record) := by
  cases h with
  | putNode => exact .of_edges_eq rfl
  | corroborateNode => exact .of_edges_eq rfl
  | deleteNode => exact .of_edges_eq rfl
  | newEdge call args => exact .of_apply fun e he => nomatch (hnew rfl).symm.trans he
  | oldEdge call args edgeId old hold howner hseen =>
    obtain ⟨hid, hedge⟩ := existingEdge_eq_some_iff.mp hold
    refine .of_apply fun e he => ?_
    cases hedge.symm.trans he
    obtain ⟨e, he', htriple⟩ := (hadjacent.identity _ _).mp hid
    cases hedge.symm.trans he'
    refine .linked call args rfl ⟨htriple.symm, howner.symm, fun htomb => ?_⟩
    simpa [Option.any_eq_true] using hseen htomb
  | unlink call edgeId old hold howner hactive =>
    refine .of_apply fun e he => ?_
    cases hold.symm.trans he
    exact .unlinked (fun _ _ hop => nomatch hop) hactive

variable {log : List (WalRecord V)}

theorem Logged.edgesChange (h : Logged S reread given C g log) (hindex : g.index = .rebuildFrom S log)
    (heffect : Effect S g op g') : EdgesChange op g.index g'.index := by
  cases heffect with
  | unchanged => exact .of_edges_eq rfl
  | counted => exact .of_edges_eq rfl
  | torn => exact .of_edges_eq rfl
  | purged => exact .of_edges_eq rfl
  | wrote hwrites hcas =>
    refine hwrites.edgesChange h.adjacent fun hid => ?_
    subst hid
    exact h.edges_eq_none hindex hcas

theorem EdgeChange.sweep {call : Call C} {threshold : F} {now : Nat} {order : List (EdgeId × EdgeRecord F)}
    {readings : Nat → Readings C} {call' : Call C} {edgeId : EdgeId} {e e' e'' : EdgeRecord F}
    (h : EdgeChange (.pruneDecayedEdges call threshold now order readings) e e')
    (h' : EdgeChange (.unlink call' edgeId : Op F C) e' e'') :
    EdgeChange (.pruneDecayedEdges call threshold now order readings) e e'' := by
  cases h' with
  | kept => exact h
  | linked call args hop => cases hop
  | unlinked _ hactive =>
    cases h with
    | kept => exact .unlinked (fun _ _ hop => nomatch hop) hactive
    | unlinked => cases hactive
    | linked call args hop => cases hop

end

section
variable {g g' : KnowledgeGraph F V} {op : Op F C} (L : C.Lawful reread) (hS : S.Exact reread given)
include L hS

theorem Faithful.edgesChange [F32 F] (h : Faithful C S reread given g) (hop : op.Faithful given g)
    (hexec : op.exec S g = some g') : EdgesChange op g.index g'.index := by
  obtain ⟨log, hlog, hindex⟩ := h
  cases Op.exec_outcome hexec with
  | effect heffect => exact hlog.edgesChange hindex heffect
  | reopen hopen =>
    cases hlog.openImpl_eq.symm.trans hopen
    exact .of_edges_eq (congrArg edges hindex.symm)
  | @sweep call threshold now order readings _ hunlinks =>
    clear hexec
    suffices hboth : Faithful C S reread given g' ∧ EdgesChange _ g.index g'.index from hboth.2
    induction hunlinks with
    | refl => exact ⟨⟨log, hlog, hindex⟩, .of_edges_eq rfl⟩
    | @tail g₁ g₂ _ hunlink ih =>
      obtain ⟨⟨log₁, hlog₁, hindex₁⟩, hchange⟩ := ih
      obtain ⟨n, edgeId, heffect⟩ := hunlink
      have hunlink : Op.Faithful given g₁ (.unlink { call with toReadings := readings n } edgeId) :=
        ⟨hop.1.1 n, trivial, trivial⟩
      refine ⟨Faithful.effect L hS ⟨log₁, hlog₁, hindex₁⟩ hunlink heffect, fun id e he => ?_⟩
      obtain ⟨e₁, he₁, h₁⟩ := hchange id e he
      obtain ⟨e₂, he₂, h₂⟩ := hlog₁.edgesChange hindex₁ heffect id e₁ he₁
      exact ⟨e₂, he₂, h₁.sweep h₂⟩

end

/-! ## What the ways amount to -/

/-- What becomes of an edge in one operation: its triple and owner stay, every change raises the version,
a deleted edge is revived by a `link` of its owner that has seen the deletion and by nothing else, and a
`link` that may not write over the edge leaves it as it is. -/
structure EdgeStep (op : Op F C) (e e' : EdgeRecord F) : Prop where
  triple : e'.triple = e.triple
  owner : e'.owner = e.owner
  version : e' = e ∨ e.version < e'.version
  revived : e.tombstone = true → e'.tombstone = false → ∃ (call : Call C) (args : LinkArgs F) (v : Nat),
    op = .link call args ∧ args.triple = e.triple ∧ call.callerBoundary = e.owner ∧
      args.observedVersion = some v ∧ e.version ≤ v
  refused : ∀ (call : Call C) (args : LinkArgs F), op = .link call args → ¬Relinks call args e → e' = e

theorem EdgeChange.step {op : Op F C} {e e' : EdgeRecord F} (h : EdgeChange op e e') :
    EdgeStep op e e' := by
  cases h with
  | kept =>
    refine ⟨rfl, rfl, .inl rfl, fun hdeleted hactive => ?_, fun _ _ _ _ => rfl⟩
    cases hdeleted.symm.trans hactive
  | unlinked hop hactive =>
    refine ⟨rfl, rfl, .inr (Nat.lt_succ_self _), fun hdeleted => ?_,
      fun call args heq => absurd heq (hop call args)⟩
    cases hdeleted.symm.trans hactive
  | linked call args hop hrelinks =>
    refine ⟨hrelinks.triple, hrelinks.owner, .inr (Nat.lt_succ_self _), fun hdeleted _ => ?_,
      fun call' args' heq hno => ?_⟩
    · obtain ⟨v, hv, hle⟩ := hrelinks.seen hdeleted
      exact ⟨call, args, v, hop, hrelinks.triple, hrelinks.owner, hv, hle⟩
    · cases hop.symm.trans heq
      exact absurd hrelinks hno

/-- Every edge of the one index keeps its id in the other, which has its triple under no other id, at the
same version or a later one. -/
def SameEdges (i i' : GraphIndex F V) : Prop :=
  ∀ (id : EdgeId) (e : EdgeRecord F), i.edges[id]? = some e →
    (∃ e', i'.edges[id]? = some e' ∧ e'.triple = e.triple ∧ e.version ≤ e'.version) ∧
      ∀ (id' : EdgeId) (e' : EdgeRecord F), i'.edges[id']? = some e' → e'.triple = e.triple → id' = id

section
variable {g₀ g g' : KnowledgeGraph F V} {op : Op F C} (L : C.Lawful reread) (hS : S.Exact reread given)
include L hS

theorem Reached.sameEdges [F32 F] (h₀ : Reached C S (Op.Faithful given) g₀)
    (h : Relation.ReflTransGen (Step C S (Op.Faithful given)) g₀ g) : SameEdges g₀.index g.index := by
  have hkeeps : ∀ (id : EdgeId) (e : EdgeRecord F), g₀.index.edges[id]? = some e →
      ∃ e', g.index.edges[id]? = some e' ∧ e'.triple = e.triple ∧ e.version ≤ e'.version := by
    induction h with
    | refl => exact fun id e he => ⟨e, he, rfl, le_refl _⟩
    | @tail g₁ g₂ h₁ hstep ih =>
      intro id e he
      obtain ⟨op, hop, hexec⟩ := hstep
      obtain ⟨e₁, he₁, htriple₁, hversion₁⟩ := ih id e he
      have hfaithful := faithful L hS (h₀.trans h₁)
      obtain ⟨e₂, he₂, hchange⟩ := hfaithful.edgesChange L hS hop hexec id e₁ he₁
      have hversion₂ : e₁.version ≤ e₂.version :=
        hchange.step.version.elim (fun heq => heq ▸ le_refl _) le_of_lt
      exact ⟨e₂, he₂, hchange.step.triple.trans htriple₁, hversion₁.trans hversion₂⟩
  intro id e he
  obtain ⟨log, hlog, -⟩ := faithful L hS (h₀.trans h)
  obtain ⟨e', he', htriple, hversion⟩ := hkeeps id e he
  refine ⟨⟨e', he', htriple, hversion⟩, fun id' e'' he'' htriple' => ?_⟩
  exact hlog.adjacent.triple_inj he' he'' (htriple'.trans htriple.symm)

/-- **Edges keep their identity and are not revived blindly.** In every run without I/O failure over
inputs that read back, in which no purge names an id that holds an edge: an edge keeps its id and triple
for ever, and no other id holds the triple; every change raises its version; a deleted edge is revived
only by a `link` of its owner that has seen the deletion; every other `link` leaves it as it is. -/
theorem edges_keep_identity [F32 F] (h₀ : Reached C S (Op.Faithful given) g₀)
    (h : Relation.ReflTransGen (Step C S (Op.Faithful given)) g₀ g) (hop : op.Faithful given g)
    (hexec : op.exec S g = some g') :
    SameEdges g₀.index g.index ∧ ∀ (id : EdgeId) (e : EdgeRecord F), g.index.edges[id]? = some e →
      ∃ e', g'.index.edges[id]? = some e' ∧ EdgeStep op e e' := by
  refine ⟨sameEdges L hS h₀ h, fun id e he => ?_⟩
  have hfaithful := faithful L hS (h₀.trans h)
  obtain ⟨e', he', hchange⟩ := hfaithful.edgesChange L hS hop hexec id e he
  exact ⟨e', he', hchange.step⟩

end

/-- A `link` of the linked pair's triple, by its owner. -/
theorem edges_keep_identity_pair :
    Reached jsonSerde.plain jsonRecord (Op.Faithful shallow) linkedPair ∧
      ∀ (id : EdgeId) (e : EdgeRecord Int), linkedPair.index.edges[id]? = some e →
        ∃ e', (linkedPair.link jsonRecord _ plainWriter (sampleLink 0 1)).2.index.edges[id]? = some e' ∧
          EdgeStep (.link plainWriter (sampleLink 0 1)) e e' := by
  have hreached : Reached jsonSerde.plain jsonRecord (Op.Faithful shallow) linkedPair :=
    linkedPair_reached ⟨rfl, sampleNode_within _ _ _, trivial⟩ ⟨rfl, sampleNode_within _ _ _, trivial⟩
      ⟨rfl, sampleLink_within _ _ _, trivial⟩
  have hop : Op.Faithful shallow linkedPair (.link plainWriter (sampleLink 0 1)) :=
    ⟨rfl, sampleLink_within _ _ _, trivial⟩
  exact ⟨hreached, (edges_keep_identity jsonSerde_lawful jsonRecord_exact hreached .refl hop rfl).2⟩

end

/-! ## Floats that are not finite -/

/-- A float with an integral value, or one that is not finite. -/
abbrev LooseFloat := Option Int

instance : F32 LooseFloat where
  zero := some 0
  one := some 1
  mul a b := a.bind fun x => b.map fun y => F32.mul x y
  div a b := a.bind fun x => b.map fun y => F32.div x y
  sum xs := (xs.mapM id).map F32.sum
  sqrt a := a.map F32.sqrt
  partialCmp a b := a.bind fun x => b.bind fun y => F32.partialCmp x y
  recency deltaT := some (F32.recency deltaT)
  ofNat n := some (F32.ofNat n)

namespace LooseRecord

/-- A float that is not finite becomes `null`. -/
def ofFloat : LooseFloat → Json := JsonRecord.ofOption JsonRecord.ofFloat

def ofFinite : Record Int Json → Record LooseFloat Json
  | .node n => .node { n with embedding := n.embedding.map (·.map some) }
  | .edge e => .edge { e with weight := some e.weight, confidence := e.confidence.map some }

end LooseRecord

def looseRecord : Serde LooseFloat Json where
  toValue := JsonRecord.toValue LooseRecord.ofFloat
  fromValue j := (JsonRecord.fromValue j).map LooseRecord.ofFinite

theorem looseRecord_stable (e : EdgeRecord LooseFloat) :
    Stable jsonReread (looseRecord.toValue (.edge e)) := by
  have hfloat : ∀ x, (LooseRecord.ofFloat x).depth = 0 := fun x => by
    cases x <;> simp [LooseRecord.ofFloat, JsonRecord.ofOption, JsonRecord.ofFloat, Json.depth]
  have hdepth := JsonRecord.depth_toValue_le hfloat (.edge e : Record LooseFloat Json)
  exact if_pos (lt_of_le_of_lt (Nat.add_le_add_right hdepth 1) (show 4 < Json.recursionLimit by decide))

def looseLink (weight : LooseFloat) : LinkArgs LooseFloat where
  subject := 0
  predicate := "about"
  target := 1
  weight := weight
  origin := .explicit
  confidence := none
  provenance := "user"
  observedVersion := none

def looseEdge : KnowledgeGraph LooseFloat Json :=
  (KnowledgeGraph.empty.link looseRecord jsonSerde.plain plainWriter (looseLink (some 1))).2

/-- Its weight is replaced by one that is not finite. -/
def nanEdge : KnowledgeGraph LooseFloat Json :=
  (looseEdge.link looseRecord jsonSerde.plain plainWriter (looseLink none)).2

def deletedNanEdge : KnowledgeGraph LooseFloat Json :=
  (nanEdge.unlink looseRecord jsonSerde.plain plainWriter 0).2

def nanLog : List (WalRecord Json) :=
  [StorageEngine.written ⟨[], .empty⟩ plainWriter.storeCaller none (looseRecord.toValue
      (.edge (KnowledgeGraph.linkRecord plainWriter (looseLink (some 1)) 7 0 none))),
    looseEdge.storage.written plainWriter.storeCaller (some 0) (looseRecord.toValue
      (.edge (KnowledgeGraph.linkRecord plainWriter (looseLink none) 7 0
        (some (KnowledgeGraph.linkRecord plainWriter (looseLink (some 1)) 7 0 none))))),
    nanEdge.storage.written plainWriter.storeCaller (some 0) (looseRecord.toValue
      (.edge (KnowledgeGraph.linkRecord plainWriter (looseLink none) 7 0
        (some (KnowledgeGraph.linkRecord plainWriter (looseLink (some 1)) 7 0 none))).unlinked))]

theorem deletedNanEdge_tracks : Tracks jsonSerde.plain jsonReread deletedNanEdge.storage nanLog := by
  have L := jsonSerde_lawful
  have hloose : Tracks jsonSerde.plain jsonReread looseEdge.storage (nanLog.take 1) :=
    tracks_empty.stored L plainWriter.storeCaller none (looseRecord_stable _) ()
  have hnan : Tracks jsonSerde.plain jsonReread nanEdge.storage (nanLog.take 2) :=
    hloose.stored L plainWriter.storeCaller (some 0) (looseRecord_stable _) ()
  exact hnan.stored L plainWriter.storeCaller (some 0) (looseRecord_stable _) ()

def revivedEdge : KnowledgeGraph LooseFloat Json :=
  ⟨⟨deletedNanEdge.storage.file, .rebuild nanLog⟩, .rebuildFrom looseRecord nanLog⟩

theorem deletedNanEdge_reopen :
    Op.exec looseRecord deletedNanEdge (.reopen : Op LooseFloat jsonSerde.plain) = some revivedEdge := by
  rw [Op.exec, KnowledgeGraph.openImpl, deletedNanEdge_tracks.openImpl_eq, GraphIndex.rebuild,
    deletedNanEdge_tracks.holds.replay_eq]
  rfl

/-- An operation on edges, or a reopen, that meets no I/O failure. -/
def Op.OnEdges {F V : Type} {C : Codec V} (g : KnowledgeGraph F V) (op : Op F C) : Prop :=
  op.Completes g ∧ ((∃ call args, op = .link call args) ∨ (∃ call edgeId, op = .unlink call edgeId) ∨
    op = .reopen)

/-- An edge is linked, relinked with a weight that is not finite and unlinked. A reopen brings its first
version back, active, though no `link` has been called. -/
theorem nan_revives_edge : ∃ (g g' : KnowledgeGraph LooseFloat Json) (e e' : EdgeRecord LooseFloat),
    Reached jsonSerde.plain looseRecord Op.OnEdges g ∧
      Op.exec looseRecord g (.reopen : Op LooseFloat jsonSerde.plain) = some g' ∧
      g.index.edges[0]? = some e ∧ e.tombstone = true ∧ e.version = 2 ∧
      g'.index.edges[0]? = some e' ∧ e'.tombstone = false ∧ e'.version = 0 := by
  refine ⟨deletedNanEdge, revivedEdge, _, _, ?_, deletedNanEdge_reopen, rfl, rfl, rfl, rfl, rfl, rfl⟩
  have hlinked : Reached jsonSerde.plain looseRecord Op.OnEdges looseEdge :=
    .single ⟨.link plainWriter (looseLink (some 1)), ⟨rfl, .inl ⟨_, _, rfl⟩⟩, rfl⟩
  have hrelinked := hlinked.tail (c := nanEdge)
    ⟨.link plainWriter (looseLink none), ⟨rfl, .inl ⟨_, _, rfl⟩⟩, rfl⟩
  exact hrelinked.tail ⟨.unlink plainWriter 0, ⟨rfl, .inr (.inl ⟨_, _, rfl⟩)⟩, rfl⟩

end Hyperion.Graph
