import Hyperion.Graph.Run

/-!
# Tenant partitions

`link` compares the tenants of its endpoints when it is called, a node that is not recorded counting
under the default tenant, and asks for the right GRANT if they differ. `put_node*` writes a node under
the tenant it is given, whatever edges the node has. So edges stay inside a partition as long
as no endpoint of an active edge is moved.
-/

namespace Hyperion.Graph
open Lib Capability Storage GraphIndex KnowledgeGraph

section
variable {F V : Type} {C : Codec V}

/-- The token lacks the right to cross a partition. -/
def Call.Ungranted (call : Call C) : Prop := call.token.rights.contains .grant = false

theorem Call.Ungranted.granted {call : Call C} (h : call.Ungranted) : call.granted = false := by
  unfold Call.granted
  cases hcheck : call.monitor.checkRightsOkResult call.gateAt call.token .grant with
  | error err => rfl
  | ok u =>
    have hrights := ((CapabilityMonitor.checkRightsOkResult_eq_ok_iff _ _ _ _).mp hcheck).2
    cases h.symm.trans hrights

/-- The endpoints of every active edge count under one tenant. -/
def TenantsAgree (g : KnowledgeGraph F V) : Prop :=
  ∀ (id : EdgeId) (e : EdgeRecord F), g.index.activeEdge id = some e →
    g.tenantOf e.subject = g.tenantOf e.target

/-- If the node is an endpoint of an active edge, then it counts under the tenant. -/
def EndpointUnder (g : KnowledgeGraph F V) (id : NodeId) (tenantId : TenantId) : Prop :=
  ∀ (edgeId : EdgeId) (e : EdgeRecord F), g.index.activeEdge edgeId = some e →
    e.subject = id ∨ e.target = id → tenantId = g.tenantOf id

section
variable {g g' : KnowledgeGraph F V}

theorem TenantsAgree.congr (h : TenantsAgree g) (hindex : g'.index = g.index) : TenantsAgree g' := by
  unfold TenantsAgree tenantOf
  rw [hindex]
  exact h

variable {n : NodeRecord F V} {id : NodeId}

theorem tenantOf_of_apply_node (hindex : g'.index = g.index.apply id (.node n)) (id' : NodeId) :
    g'.tenantOf id' = if id = id' then n.tenantId else g.tenantOf id' := by
  rw [tenantOf, hindex, apply_node_nodes, HashMap.get_insert]
  split <;> rfl

theorem TenantsAgree.apply_node (h : TenantsAgree g) (hindex : g'.index = g.index.apply id (.node n))
    (hkeeps : EndpointUnder g id n.tenantId) : TenantsAgree g' := by
  intro edgeId e he
  rw [hindex] at he
  have hsame : ∀ id', id' = e.subject ∨ id' = e.target → g'.tenantOf id' = g.tenantOf id' := by
    intro id' hend
    rw [tenantOf_of_apply_node hindex]
    split
    · next heq =>
      subst heq
      exact hkeeps edgeId e he (hend.imp Eq.symm Eq.symm)
    · rfl
  rw [hsame _ (.inl rfl), hsame _ (.inr rfl)]
  exact h edgeId e he

theorem TenantsAgree.apply_edge (h : TenantsAgree g) {id : EdgeId} {e : EdgeRecord F}
    (hindex : g'.index = g.index.apply id (.edge e))
    (hagree : e.tombstone = false → g.tenantOf e.subject = g.tenantOf e.target) : TenantsAgree g' := by
  have htenant : ∀ id', g'.tenantOf id' = g.tenantOf id' := fun id' => by
    rw [tenantOf, hindex]
    rfl
  intro edgeId e' he'
  rw [htenant, htenant]
  rw [hindex, activeEdge_eq_some_iff, apply_edge_edges, HashMap.get_insert] at he'
  obtain ⟨hget, hactive⟩ := he'
  split at hget
  · cases hget
    exact hagree hactive
  · exact h edgeId e' (activeEdge_eq_some_iff.mpr ⟨hget, hactive⟩)

end

/-- One of the calls `put_node*`, `link`, `unlink` and `delete_node`, with a token that lacks GRANT. -/
def Op.Ungranted : Op F C → Prop
  | .putNode call _ | .link call _ | .unlink call _ | .deleteNode call _ => call.Ungranted
  | _ => False

/-- A `put_node*` that goes through and writes an endpoint of an active edge leaves it under the tenant it
counts under. -/
def Op.KeepsTenant (S : Serde F V) (g : KnowledgeGraph F V) : Op F C → Prop
  | .putNode call args => ∀ id, (g.putNodeWithProvenance S C call args).1 = .ok id →
      EndpointUnder g id args.tenantId
  | _ => True

variable {S : Serde F V}

theorem tenantOf_eq {g : KnowledgeGraph F V} {id : NodeId} {n : NodeRecord F V}
    (h : g.index.nodes[id]? = some n) : g.tenantOf id = n.tenantId := by
  rw [tenantOf, h]
  rfl

theorem TenantsAgree.effect {g g' : KnowledgeGraph F V} {op : Op F C} (h : TenantsAgree g)
    (hop : op.Ungranted) (hkeeps : ∀ call args, op = .putNode call args →
      g.storage.inner.versionPointer[(g.storage.inner.allocate args.nodeId).1]? =
        args.nodeId.bind g.storage.currentVersion →
      EndpointUnder g (g.storage.inner.allocate args.nodeId).1 args.tenantId)
    (heffect : Effect S g op g') : TenantsAgree g' := by
  cases heffect with
  | unchanged => exact h
  | counted => exact h.congr rfl
  | torn => exact h.congr rfl
  | wrote hwrites hcas =>
    have hgate : ∀ {call : Call C} {args : LinkArgs F}, call.Ungranted →
        g.tenantOf args.subject = g.tenantOf args.target ∨ call.granted = true →
        g.tenantOf args.subject = g.tenantOf args.target := by
      intro call args hcall hor
      rcases hor with heq | hgranted
      · exact heq
      · cases hcall.granted.symm.trans hgranted
    cases hwrites with
    | putNode call args howner => exact h.apply_node rfl (hkeeps _ args rfl hcas)
    | corroborateNode call id old hold howner hactive => exact hop.elim
    | deleteNode call id old hold howner hactive =>
      exact h.apply_node rfl fun _ _ _ _ => (tenantOf_eq hold).symm
    | newEdge call args _ hor | oldEdge call args _ _ _ _ _ hor => exact h.apply_edge rfl fun _ => hgate hop hor
    | unlink call id old hold howner hactive => exact h.apply_edge rfl fun hno => nomatch hno
  | @purged call nodeId hpurge =>
    subst hpurge
    exact hop.elim

variable (S C) in
/-- An operation with a token that lacks GRANT, `ok` saying which; or an import with such a token. -/
inductive PartitionStep [F32 F] (parse : String → Except String (KnowledgeGraph.GraphImport F V))
    (ok : KnowledgeGraph F V → Op F C → Prop) (g : KnowledgeGraph F V) : KnowledgeGraph F V → Prop
  | op (op : Op F C) (hop : op.Ungranted) (hok : ok g op) {g' : KnowledgeGraph F V}
      (hexec : op.exec S g = some g') : PartitionStep parse ok g g'
  | importJson (call : Call C) (hcall : call.Ungranted) (json : String)
      (nodeReadings edgeReadings : Nat → Readings C) :
      PartitionStep parse ok g (g.importJson S C parse call json nodeReadings edgeReadings).2

section
variable [F32 F] {parse : String → Except String (KnowledgeGraph.GraphImport F V)}
  {g g' : KnowledgeGraph F V}

theorem Op.Ungranted.step {op : Op F C} (hop : op.Ungranted) (hexec : op.exec S g = some g') :
    Effect S g op g' := by
  cases op with
  | putNode call args =>
    cases hexec
    exact putNodeWithProvenance_effect g call args
  | link call args =>
    cases hexec
    exact link_effect g call args
  | unlink call edgeId =>
    cases hexec
    exact unlink_effect g call edgeId
  | deleteNode call nodeId =>
    cases hexec
    exact deleteNode_effect g call nodeId
  | corroborateNode => exact hop.elim
  | purgeNodeHistory => exact hop.elim
  | pruneDecayedEdges => exact hop.elim
  | reopen => exact hop.elim

variable (S C parse) in
def PartitionReached (ok : KnowledgeGraph F V → Op F C → Prop) : KnowledgeGraph F V → Prop :=
  Relation.ReflTransGen (PartitionStep C S parse ok) .empty

omit [F32 F] in
theorem TenantsAgree.importJson (h : TenantsAgree g) (hp : Pointed g) {call : Call C}
    (hcall : call.Ungranted) (json : String) (nodeReadings edgeReadings : Nat → Readings C) :
    TenantsAgree (g.importJson S C parse call json nodeReadings edgeReadings).2 ∧
      Pointed (g.importJson S C parse call json nodeReadings edgeReadings).2 := by
  refine importJson_induction S C (P := fun g => TenantsAgree g ∧ Pointed g) call ?_ ?_
    parse json nodeReadings edgeReadings ⟨h, hp⟩
  · rintro readings objectType metadata g ⟨h, hp⟩
    have heffect := putNodeWithProvenance_effect (S := S) g { call with toReadings := readings }
      ⟨none, objectType, none, metadata, 0, .default, 0⟩
    have hop : Op.Ungranted (.putNode { call with toReadings := readings }
      ⟨none, objectType, none, metadata, 0, .default, 0⟩ : Op F C) := hcall
    refine ⟨h.effect hop (fun call' args heq hcas => ?_) heffect, hp.effect heffect⟩
    cases heq
    intro _ _ _ _
    -- the counter's next id has no version, so no node either
    cases hn : g.index.nodes[(g.storage.inner.allocate none).1]? with
    | none =>
      rw [tenantOf, hn]
      rfl
    | some n =>
      obtain ⟨v, hv⟩ := hp _ n hn
      cases hcas.symm.trans hv
  · rintro readings args g ⟨h, hp⟩
    have heffect := link_effect (S := S) g { call with toReadings := readings } args
    have hop : Op.Ungranted (.link { call with toReadings := readings } args : Op F C) := hcall
    exact ⟨h.effect hop (fun _ _ heq => nomatch heq) heffect, hp.effect heffect⟩

theorem PartitionStep.agree (hstep : PartitionStep C S parse (Op.KeepsTenant S) g g')
    (h : TenantsAgree g ∧ Pointed g) : TenantsAgree g' ∧ Pointed g' := by
  cases hstep with
  | op op hop hok hexec =>
    have heffect := hop.step hexec
    refine ⟨?_, h.2.effect heffect⟩
    cases op with
    | putNode call args =>
      cases hexec
      cases hput : g.putNodeWithProvenance S C call args with
      | mk result g' =>
        cases result with
        | error err => exact h.1.congr (putNodeWithProvenance_error_index S C hput)
        | ok id =>
          obtain ⟨-, rfl, -⟩ := putNodeWithProvenance_eq_ok S C hput
          rw [hput] at heffect
          refine h.1.effect hop (fun _ _ heq _ => ?_) heffect
          cases heq
          exact hok _ (congrArg Prod.fst hput)
    | _ => exact h.1.effect hop (fun _ _ heq => nomatch heq) heffect
  | importJson call hcall json nodeReadings edgeReadings =>
    exact h.1.importJson h.2 hcall json nodeReadings edgeReadings

theorem PartitionReached.agree (h : PartitionReached C S parse (Op.KeepsTenant S) g) :
    TenantsAgree g ∧ Pointed g := by
  induction h with
  | refl =>
    constructor
    · simp [TenantsAgree, KnowledgeGraph.empty, GraphIndex.empty, GraphIndex.activeEdge]
    · simp [Pointed, KnowledgeGraph.empty, GraphIndex.empty]
  | tail _ hstep ih => exact hstep.agree ih

/-- **Edges stay inside a partition.** In every run of `put_node*`, `link`, `unlink`, `delete_node` and
`import_json` with tokens that lack GRANT, in which no `put_node*` moves an endpoint of an active edge to
another tenant, no active edge connects two recorded nodes of different tenants. -/
theorem active_edges_stay_in_partition (h : PartitionReached C S parse (Op.KeepsTenant S) g) {id : EdgeId}
    {e : EdgeRecord F} (he : g.index.activeEdge id = some e) {n m : NodeRecord F V}
    (hn : g.index.nodes[e.subject]? = some n) (hm : g.index.nodes[e.target]? = some m) :
    n.tenantId = m.tenantId := by
  calc n.tenantId = g.tenantOf e.subject := (tenantOf_eq hn).symm
    _ = g.tenantOf e.target := h.agree.1 id e he
    _ = m.tenantId := tenantOf_eq hm

end

/-! ## Moving an endpoint -/

theorem linkedPair_partitionReached {ok : KnowledgeGraph Int Json → Op Int jsonSerde.plain → Prop}
    (parse : String → Except String (KnowledgeGraph.GraphImport Int Json))
    (hnode : ∀ g args, g.index.edges = ∅ → ok g (.putNode plainWriter args))
    (hlink : ∀ g args, ok g (.link plainWriter args)) :
    PartitionReached jsonSerde.plain jsonRecord parse ok linkedPair := by
  refine ((Relation.ReflTransGen.single
    (.op (.putNode plainWriter (sampleNode none 0)) rfl (hnode _ _ rfl) rfl)).tail
    (.op (.putNode plainWriter (sampleNode none 0)) rfl (hnode _ _ rfl) rfl)).tail
    (.op (.link plainWriter (sampleLink 0 1)) rfl (hlink _ _) rfl)

theorem active_edges_stay_in_partition_pair :
    PartitionReached jsonSerde.plain jsonRecord (fun _ => .error "expected value")
        (Op.KeepsTenant jsonRecord) linkedPair ∧
      ∃ e n m, linkedPair.index.activeEdge 2 = some e ∧ linkedPair.index.nodes[e.subject]? = some n ∧
        linkedPair.index.nodes[e.target]? = some m ∧ n.tenantId = m.tenantId := by
  have hreached : PartitionReached jsonSerde.plain jsonRecord (fun _ => .error "expected value")
      (Op.KeepsTenant jsonRecord) linkedPair :=
    linkedPair_partitionReached _
      (fun g args hnone _ _ edgeId e he _ => by simp [GraphIndex.activeEdge, hnone] at he)
      fun _ _ => trivial
  refine ⟨hreached, _, _, _, rfl, rfl, rfl, ?_⟩
  exact active_edges_stay_in_partition hreached (show linkedPair.index.activeEdge 2 = some _ from rfl) rfl rfl

/-- Writing the second node under another tenant takes no GRANT and leaves the edge as it is. -/
theorem retagged_node_crosses_partition : ∃ g : KnowledgeGraph Int Json,
    PartitionReached jsonSerde.plain jsonRecord (fun _ => .error "expected value") (fun _ _ => True) g ∧
      ∃ e n m, g.index.activeEdge 2 = some e ∧ g.index.nodes[e.subject]? = some n ∧
        g.index.nodes[e.target]? = some m ∧ n.tenantId ≠ m.tenantId := by
  refine ⟨_, (linkedPair_partitionReached _ (fun _ _ _ => trivial) fun _ _ => trivial).tail
    (.op (.putNode plainWriter (sampleNode (some 1) 1)) rfl trivial rfl), ?_⟩
  refine ⟨_, _, _, rfl, rfl, rfl, ?_⟩
  decide

end

end Hyperion.Graph
