import Hyperion.Storage.Views
import Hyperion.Graph.JsonRecord

/-!
# Runs of the Knowledge Graph

An `Op` is a call of one of the write operations, or a reopen. `Writes` says once what each of them
writes and under which checks; every invariant of runs is derived from it.
-/

namespace Hyperion.Graph
open Lib Capability Storage GraphIndex HashMap

/-- An operation with its arguments; all the `put_node*` are `put_node_with_provenance` at some of
them. -/
inductive Op (F : Type) {V : Type} (C : Codec V)
  | putNode (call : Call C) (args : NodeArgs F V)
  | corroborateNode (call : Call C) (nodeId : NodeId)
  | link (call : Call C) (args : LinkArgs F)
  | unlink (call : Call C) (edgeId : EdgeId)
  | deleteNode (call : Call C) (nodeId : NodeId)
  | purgeNodeHistory (call : Call C) (nodeId : NodeId)
  | pruneDecayedEdges (call : Call C) (threshold : F) (now : Nat) (order : List (EdgeId × EdgeRecord F))
      (readings : Nat → Readings C)
  | reopen

section
variable {F V : Type} {C : Codec V} (S : Serde F V)

namespace Op

def call : Op F C → Option (Call C)
  | .putNode call _ | .corroborateNode call _ | .link call _ | .unlink call _ | .deleteNode call _
  | .purgeNodeHistory call _ | .pruneDecayedEdges call _ _ _ _ => some call
  | .reopen => none

/-- The graph after the operation; a reopen may fail. -/
def exec [F32 F] (g : KnowledgeGraph F V) : Op F C → Option (KnowledgeGraph F V)
  | .putNode call args => some (g.putNodeWithProvenance S C call args).2
  | .corroborateNode call nodeId => some (g.corroborateNode S C call nodeId).2
  | .link call args => some (g.link S C call args).2
  | .unlink call edgeId => some (g.unlink S C call edgeId).2
  | .deleteNode call nodeId => some (g.deleteNode S C call nodeId).2
  | .purgeNodeHistory call nodeId => some (g.purgeNodeHistory C call nodeId).2
  | .pruneDecayedEdges call threshold now order readings =>
    some (g.pruneDecayedEdges S C call threshold now order readings).2
  | .reopen => (KnowledgeGraph.openImpl S C g.storage.file).toOption

/-- No write to the disk fails, and a sweep meets the edges in some order of the edge table. -/
def Completes (g : KnowledgeGraph F V) : Op F C → Prop
  | .pruneDecayedEdges _ _ _ order readings =>
    (∀ n, (readings n).io = .completed) ∧ order.Perm g.index.edges.toList
  | .reopen => True
  | .putNode call _ | .corroborateNode call _ | .link call _ | .unlink call _ | .deleteNode call _
  | .purgeNodeHistory call _ => call.io = .completed

end Op

/-- What an operation writes in a graph, and where, with the checks it has made. -/
inductive Writes (g : KnowledgeGraph F V) :
    Op F C → Call C → Option Storage.ObjectId → Record F V → Prop
  | putNode (call : Call C) (args : NodeArgs F V)
      (howner : ∀ old ∈ args.nodeId.bind fun id => g.index.nodes[id]?, old.owner = call.callerBoundary) :
      Writes g (.putNode call args) call args.nodeId
        (.node (KnowledgeGraph.nodeRecord call args (args.nodeId.bind fun id => g.index.nodes[id]?)))
  | corroborateNode (call : Call C) (id : NodeId) (old : NodeRecord F V)
      (hold : g.index.nodes[id]? = some old) (howner : old.owner = call.callerBoundary)
      (hactive : old.tombstone = false) :
      Writes g (.corroborateNode call id) call (some id) (.node (old.corroborated call.updatedAt))
  | deleteNode (call : Call C) (id : NodeId) (old : NodeRecord F V)
      (hold : g.index.nodes[id]? = some old) (howner : old.owner = call.callerBoundary)
      (hactive : old.tombstone = false) :
      Writes g (.deleteNode call id) call (some id) (.node (old.deleted call.updatedAt))
  | newEdge (call : Call C) (args : LinkArgs F) (hnone : g.existingEdge args.triple = none)
      (hgate : g.tenantOf args.subject = g.tenantOf args.target ∨ call.granted = true) :
      Writes g (.link call args) call none
        (.edge (KnowledgeGraph.linkRecord call args call.callerBoundary call.createdAt none))
  | oldEdge (call : Call C) (args : LinkArgs F) (id : EdgeId) (old : EdgeRecord F)
      (hold : g.existingEdge args.triple = some (id, old)) (howner : old.owner = call.callerBoundary)
      (hseen : old.tombstone = true → args.observedVersion.any (old.version ≤ ·) = true)
      (hgate : g.tenantOf args.subject = g.tenantOf args.target ∨ call.granted = true) :
      Writes g (.link call args) call (some id)
        (.edge (KnowledgeGraph.linkRecord call args call.callerBoundary old.createdAt (some old)))
  | unlink (call : Call C) (id : EdgeId) (old : EdgeRecord F) (hold : g.index.edges[id]? = some old)
      (howner : old.owner = call.callerBoundary) (hactive : old.tombstone = false) :
      Writes g (.unlink call id) call (some id) (.edge old.unlinked)

/-- What one operation other than a sweep or a reopen can do to a graph. -/
inductive Effect (g : KnowledgeGraph F V) (op : Op F C) : KnowledgeGraph F V → Prop
  | unchanged : Effect g op g
  | counted {call : Call C} {record : Record F V} (hwrites : Writes g op call none record) :
      Effect g op (g.counted none)
  | torn {call : Call C} {id : Option Storage.ObjectId} {record : Record F V}
      (hwrites : Writes g op call id record) (written : Nat) (hio : call.io = .failed written) :
      Effect g op (g.torn S C call id record written)
  | wrote {call : Call C} {id : Option Storage.ObjectId} {record : Record F V}
      (hwrites : Writes g op call id record)
      (hcas : g.storage.inner.versionPointer[(g.storage.inner.allocate id).1]? =
        id.bind g.storage.currentVersion) :
      Effect g op (g.stored S C call id record)
  | purged {call : Call C} {nodeId : NodeId} (hop : op = .purgeNodeHistory call nodeId)
      {n : NodeRecord F V} (hn : g.index.nodes[nodeId]? = some n) (howner : n.owner = call.callerBoundary) :
      Effect g op
        ⟨{ file := rewritten C call.nonce (g.storage.inner.survivingRecords call.token.origin nodeId),
           inner := g.storage.inner.purged nodeId }, g.index.removeNode nodeId⟩

variable {S}

variable {ok : KnowledgeGraph F V → Op F C → Prop} {g g' : KnowledgeGraph F V} {P : KnowledgeGraph F V → Prop}
  {op : Op F C}

theorem Writes.effect {g : KnowledgeGraph F V} {call : Call C}
    {id : Option Storage.ObjectId} {record : Record F V} (h : Writes g op call id record) :
    Effect S g op (g.write S C call id (id.bind g.storage.currentVersion) record).2 := by
  rcases g.write_cases S C call id (id.bind g.storage.currentVersion) record with
    heq | heq | ⟨written, hio, heq⟩ | ⟨hcas, heq⟩ <;> rw [heq]
  · exact .unchanged
  · cases id with
    | none => exact .counted h
    | some id => exact .unchanged
  · exact .torn h written hio
  · exact .wrote h hcas

section
variable (g : KnowledgeGraph F V) (call : Call C)

theorem link_effect (args : LinkArgs F) : Effect S g (.link call args) (g.link S C call args).2 := by
  unfold KnowledgeGraph.link
  cases call.require .write with
  | error err => exact .unchanged
  | ok u =>
    by_cases hgate : g.tenantOf args.subject ≠ g.tenantOf args.target ∧ call.granted = false
    · simp only [if_pos hgate]
      exact .unchanged
    · simp only [if_neg hgate]
      have hgate' : g.tenantOf args.subject = g.tenantOf args.target ∨ call.granted = true := by
        by_cases heq : g.tenantOf args.subject = g.tenantOf args.target
        · exact .inl heq
        · exact .inr (by simpa using not_and.mp hgate heq)
      rcases hex : g.existingEdge args.triple with _ | ⟨id, old⟩
      · exact (Writes.newEdge call args hex hgate').effect
      · by_cases howner : old.owner = call.callerBoundary
        · have hold := fun hseen => (Writes.oldEdge call args id old hex howner hseen hgate').effect (S := S)
          cases htomb : old.tombstone with
          | true =>
            cases hseen : args.observedVersion.any (old.version ≤ ·) with
            | false => simpa [htomb, howner, hseen] using Effect.unchanged
            | true => simpa [htomb, howner, hseen] using hold fun _ => hseen
          | false => simpa [htomb, howner] using hold fun h => nomatch htomb.symm.trans h
        · cases htomb : old.tombstone <;> simpa [htomb, howner] using Effect.unchanged

theorem unlink_effect (edgeId : EdgeId) :
    Effect S g (.unlink call edgeId) (g.unlink S C call edgeId).2 := by
  unfold KnowledgeGraph.unlink
  cases call.require .write with
  | error err => exact .unchanged
  | ok u =>
    rcases hold : g.index.ownedEdge call.callerBoundary edgeId with _ | old
    · exact .unchanged
    · obtain ⟨hold, howner⟩ := ownedEdge_eq_some_iff.mp hold
      cases htomb : old.tombstone with
      | true => simpa [htomb] using Effect.unchanged
      | false =>
        simpa [htomb] using
          (Writes.unlink call edgeId old hold howner htomb).effect (S := S)

theorem putNodeWithProvenance_effect (args : NodeArgs F V) :
    Effect S g (.putNode call args) (g.putNodeWithProvenance S C call args).2 := by
  unfold KnowledgeGraph.putNodeWithProvenance
  cases call.require .write with
  | error err => exact .unchanged
  | ok u =>
    by_cases howner : ∀ old ∈ args.nodeId.bind fun id => g.index.nodes[id]?,
        old.owner = call.callerBoundary
    · have hany : (args.nodeId.bind fun id => g.index.nodes[id]?).any
          (fun n => n.owner ≠ call.callerBoundary) = false := by
        simpa [Option.any_eq_false] using howner
      simp only [hany, Bool.false_eq_true, if_false]
      exact (Writes.putNode call args howner).effect
    · have hany : (args.nodeId.bind fun id => g.index.nodes[id]?).any
          (fun n => n.owner ≠ call.callerBoundary) = true := by
        simpa [Option.any_eq_true] using howner
      simp only [hany, if_true]
      exact .unchanged

theorem corroborateNode_effect (nodeId : NodeId) :
    Effect S g (.corroborateNode call nodeId) (g.corroborateNode S C call nodeId).2 := by
  unfold KnowledgeGraph.corroborateNode
  cases call.require .write with
  | error err => exact .unchanged
  | ok u =>
    rcases hold : g.index.visibleNode call.callerBoundary nodeId with _ | old
    · exact .unchanged
    · obtain ⟨hold, hactive, howner⟩ := visibleNode_eq_some_iff.mp hold
      exact (Writes.corroborateNode call nodeId old hold howner hactive).effect

theorem deleteNode_effect (nodeId : NodeId) :
    Effect S g (.deleteNode call nodeId) (g.deleteNode S C call nodeId).2 := by
  unfold KnowledgeGraph.deleteNode
  cases call.require .write with
  | error err => exact .unchanged
  | ok u =>
    rcases hold : g.index.ownedNode call.callerBoundary nodeId with _ | old
    · exact .unchanged
    · obtain ⟨hold, howner⟩ := ownedNode_eq_some_iff.mp hold
      cases htomb : old.tombstone with
      | true => simpa [htomb] using Effect.unchanged
      | false =>
        simpa [htomb] using (Writes.deleteNode call nodeId old hold howner htomb).effect (S := S)

theorem purgeNodeHistory_effect (nodeId : NodeId) :
    Effect S g (.purgeNodeHistory call nodeId) (g.purgeNodeHistory C call nodeId).2 := by
  unfold KnowledgeGraph.purgeNodeHistory
  cases call.require .write with
  | error err => exact .unchanged
  | ok u =>
    rcases hold : g.index.ownedNode call.callerBoundary nodeId with _ | old
    · exact .unchanged
    · obtain ⟨hold, howner⟩ := ownedNode_eq_some_iff.mp hold
      rcases g.storage.purgeObject_cases C call.storeCaller nodeId call.nonce with ⟨err, heq⟩ | ⟨n, heq⟩
      · simp only [heq]
        exact .unchanged
      · simp only [heq]
        exact .purged rfl hold howner

end

/-! ## Nodes have a version -/

theorem get_stored_nodes (g : KnowledgeGraph F V) (call : Call C) (id : Option Storage.ObjectId)
    (n : NodeRecord F V) (id' : NodeId) : (g.stored S C call id (.node n)).index.nodes[id']? =
      if (g.storage.inner.allocate id).1 = id' then some n else g.index.nodes[id']? :=
  get_insert _ _ _ _

theorem get_stored_versionPointer (g : KnowledgeGraph F V) (call : Call C)
    (id : Option Storage.ObjectId) (record : Record F V) (id' : Storage.ObjectId) :
    (g.stored S C call id record).storage.inner.versionPointer[id']? =
      if (g.storage.inner.allocate id).1 = id' then some g.storage.inner.nextVersionId
      else g.storage.inner.versionPointer[id']? := by
  rw [← StorageEngine.allocate_versionPointer g.storage.inner id]
  exact get_insert _ _ _ _

/-- Every node of the index has a current version in the engine. -/
def Pointed (g : KnowledgeGraph F V) : Prop :=
  ∀ (id : NodeId) (n : NodeRecord F V), g.index.nodes[id]? = some n →
    ∃ v, g.storage.inner.versionPointer[id]? = some v

theorem Pointed.effect (h : Pointed g) (heffect : Effect S g op g') : Pointed g' := by
  cases heffect with
  | unchanged => exact h
  | counted => exact h
  | @torn call id record _ written _ =>
    intro id' n hn
    obtain ⟨v, hv⟩ := h id' n hn
    exact ⟨v, (congrArg (fun m : HashMap _ _ => m[id']?)
      (StorageEngine.allocate_versionPointer g.storage.inner id)).trans hv⟩
  | @wrote call id record _ _ =>
    intro id' n hn
    rw [get_stored_versionPointer]
    split
    · exact ⟨_, rfl⟩
    · next hne =>
      have hold := ((g.index.get_apply_of_ne hne record).1).symm.trans hn
      exact h id' n hold
  | @purged call nodeId _ _ _ _ =>
    intro id' n hn
    rw [GraphIndex.removeNode, get_erase] at hn
    split at hn
    · cases hn
    · next hne =>
      obtain ⟨v, hv⟩ := h id' n hn
      exact ⟨v, (get_erase _ _ _).trans ((if_neg hne).trans hv)⟩

/-! ## Runs -/

variable (S) in
/-- Everything an operation can do: one effect, the effects of the `unlink`s of a sweep, or a reopen. -/
inductive Outcome (g : KnowledgeGraph F V) : Op F C → KnowledgeGraph F V → Prop
  | effect {op : Op F C} {g' : KnowledgeGraph F V} (heffect : Effect S g op g') : Outcome g op g'
  | sweep {call : Call C} {threshold : F} {now : Nat} {order : List (EdgeId × EdgeRecord F)}
      {readings : Nat → Readings C} {g' : KnowledgeGraph F V}
      (hunlinks : Relation.ReflTransGen (fun g g' => ∃ n edgeId,
        Effect S g (.unlink { call with toReadings := readings n } edgeId) g') g g') :
      Outcome g (.pruneDecayedEdges call threshold now order readings) g'
  | reopen {g' : KnowledgeGraph F V} (hopen : KnowledgeGraph.openImpl S C g.storage.file = .ok g') :
      Outcome g .reopen g'

theorem Op.exec_outcome [F32 F] (hexec : op.exec S g = some g') :
    Outcome S g op g' := by
  cases op with
  | putNode call args =>
    cases hexec
    exact .effect (putNodeWithProvenance_effect g call args)
  | corroborateNode call nodeId =>
    cases hexec
    exact .effect (corroborateNode_effect g call nodeId)
  | link call args =>
    cases hexec
    exact .effect (link_effect g call args)
  | unlink call edgeId =>
    cases hexec
    exact .effect (unlink_effect g call edgeId)
  | deleteNode call nodeId =>
    cases hexec
    exact .effect (deleteNode_effect g call nodeId)
  | purgeNodeHistory call nodeId =>
    cases hexec
    exact .effect (purgeNodeHistory_effect g call nodeId)
  | pruneDecayedEdges call threshold now order readings =>
    cases hexec
    unfold KnowledgeGraph.pruneDecayedEdges
    cases call.require .write with
    | error err => exact .sweep .refl
    | ok u =>
      exact .sweep (KnowledgeGraph.unlinkAll_induction S C call
        (fun n edgeId g hg => hg.tail ⟨n, edgeId, unlink_effect g _ edgeId⟩) _ .refl)
  | reopen =>
    unfold Op.exec at hexec
    cases hopen : KnowledgeGraph.openImpl S C g.storage.file with
    | error err => simp [hopen, Except.toOption] at hexec
    | ok g₁ =>
      simp only [hopen, Except.toOption, Option.some.injEq] at hexec
      exact .reopen (hexec ▸ hopen)

theorem Op.preserves [F32 F] (hsweep : ∀ {g call threshold now order readings},
      ok g (.pruneDecayedEdges call threshold now order readings) →
        ∀ g' n edgeId, ok g' (.unlink { call with toReadings := readings n } edgeId))
    (heffect : ∀ {g op g'}, P g → ok g op → Effect S g op g' → P g')
    (hreopen : ∀ {g g'}, P g → ok g .reopen →
      KnowledgeGraph.openImpl S C g.storage.file = .ok g' → P g')
    (hP : P g) (hok : ok g op) (hexec : op.exec S g = some g') : P g' := by
  cases Op.exec_outcome hexec with
  | effect h => exact heffect hP hok h
  | reopen hopen => exact hreopen hP hok hopen
  | sweep hunlinks =>
    clear hexec
    induction hunlinks with
    | refl => exact hP
    | tail _ hunlink ih =>
      obtain ⟨n, edgeId, h⟩ := hunlink
      exact heffect ih (hsweep hok _ n edgeId) h

variable (S C) in
def Step [F32 F] (ok : KnowledgeGraph F V → Op F C → Prop) (g g' : KnowledgeGraph F V) : Prop :=
  ∃ op, ok g op ∧ op.exec S g = some g'

variable (S C) in
/-- The graphs that runs of permitted operations lead to from a path with no file. -/
def Reached [F32 F] (ok : KnowledgeGraph F V → Op F C → Prop) : KnowledgeGraph F V → Prop :=
  Relation.ReflTransGen (Step C S ok) .empty

theorem Reached.induction [F32 F]
    (hempty : P .empty) (hstep : ∀ {g g' op}, P g → ok g op → op.exec S g = some g' → P g')
    {g : KnowledgeGraph F V} (h : Reached C S ok g) : P g := by
  induction h with
  | refl => exact hempty
  | tail _ hs ih =>
    obtain ⟨op, hok, hexec⟩ := hs
    exact hstep ih hok hexec

end

section
variable {ok : KnowledgeGraph Int Json → Op Int jsonSerde.plain → Prop}

theorem unlinkedPair_reached (hfirst : ok .empty (.putNode plainWriter (sampleNode none 0)))
    (hsecond : ok singleNode (.putNode plainWriter (sampleNode none 0))) :
    Reached jsonSerde.plain jsonRecord ok unlinkedPair :=
  (Relation.ReflTransGen.single ⟨_, hfirst, rfl⟩).tail ⟨_, hsecond, rfl⟩

theorem linkedPair_reached (hfirst : ok .empty (.putNode plainWriter (sampleNode none 0)))
    (hsecond : ok singleNode (.putNode plainWriter (sampleNode none 0)))
    (hlink : ok unlinkedPair (.link plainWriter (sampleLink 0 1))) :
    Reached jsonSerde.plain jsonRecord ok linkedPair :=
  (unlinkedPair_reached hfirst hsecond).tail ⟨_, hlink, rfl⟩

theorem sharedId_reached (hlink : ok .empty (.link otherWriter (sampleLink 5 6)))
    (hnode : ok danglingEdge (.putNode plainWriter (sampleNode (some 0) 0))) :
    Reached jsonSerde.plain jsonRecord ok sharedId :=
  (Relation.ReflTransGen.single ⟨_, hlink, rfl⟩).tail ⟨_, hnode, rfl⟩

end

end Hyperion.Graph
