import Hyperion.Privacy.Erasure

/-!
# What a shred destroys

A shred that succeeds takes the object out of the index and its versions out of the log. The recovery
points and redo snapshots of the recovery service are copies of their own, which it does not touch: a
restore from one of them writes the object anew.
-/

namespace Hyperion.Privacy
open Lib Capability Storage Hyperion.Graph Recovery List Std.ExtTreeMap Option GraphIndex KnowledgeGraph

/-! ## Reads -/

section
variable {F V : Type} {S : Serde F V} {g : KnowledgeGraph F V} {x : NodeId}

variable (S g x) in
/-- No read returns the node, whoever the caller is. -/
structure Unreadable [F32 F] : Prop where
  get : ∀ caller record, g.get caller x ≠ .ok record
  getAtVersion : ∀ caller storeAt version record, g.getAtVersion caller S storeAt x version ≠ .ok record
  query : ∀ caller q hits, .ok hits ∈ g.queryResults caller q → ∀ hit ∈ hits, hit.nodeId ≠ x
  traverse : ∀ caller start edgeTypes maxHops (sub : Subgraph F V),
    g.traverse caller start edgeTypes maxHops = .ok sub → ∀ record depth, (x, record, depth) ∉ sub.nodes
  dump : ∀ caller (all : GraphSnapshot F V), g.dump caller = .ok all → ∀ record, (x, record) ∉ all.nodes

theorem mem_rankedHits [F32 F] {q : GraphQuery F} {candidates : List (NodeId × NodeRecord F V)}
    {hit : QueryHit F V} (h : hit ∈ g.index.rankedHits q candidates) :
    (hit.nodeId, hit.node) ∈ candidates := by
  have hsub : hit ∈ candidates.filterMap fun e =>
      if (g.index.rankAgainst e.1 e.2 q).wouldBeIncluded then
        some ⟨e.1, e.2, (g.index.rankAgainst e.1 e.2 q).similarity⟩ else none := by
    unfold rankedHits at h
    dsimp only at h
    split at h
    · exact (mem_insertionSort _).mp (mem_of_mem_take h)
    · exact (mem_insertionSort _).mp h
  obtain ⟨⟨id, n⟩, hmem, hsome⟩ := mem_filterMap.mp hsub
  dsimp only at hsome
  split at hsome
  · cases hsome
    exact hmem
  · cases hsome

theorem unreadable_of_missing [F32 F] (h : g.index.nodes[x]? = none) : Unreadable S g x where
  get caller record hget := by
    have hvisible := get_eq_ok hget
    rw [visibleNode, h] at hvisible
    cases hvisible
  getAtVersion caller storeAt version record hget := by
    have howned : g.index.ownedNode caller.token.origin x = none := by
      rw [ownedNode, h]
      rfl
    simp only [getAtVersion, howned, bind, Except.bind] at hget
    split at hget <;> cases hget
  query caller q hits hmem hit hhit hx := by
    obtain ⟨order, hperm, hquery⟩ := hmem
    simp only [query, bind, Except.bind, pure, Except.pure] at hquery
    split at hquery
    · cases hquery
    · cases hquery
      have hnode := hperm.mem_iff.mp (mem_filter.mp (mem_rankedHits hhit)).1
      rw [mem_toList_iff_getElem?_eq_some, hx, h] at hnode
      cases hnode
  traverse caller start edgeTypes maxHops sub htraverse record depth hmem := by
    simp only [KnowledgeGraph.traverse, KnowledgeGraph.traverseWithDeviceOriginFilter, bind, Except.bind,
      pure, Except.pure] at htraverse
    split at htraverse
    · cases htraverse
    · split at htraverse
      · cases htraverse
      · cases htraverse
        obtain ⟨⟨id, d⟩, -, hsome⟩ := mem_filterMap.mp hmem
        obtain ⟨n, hn, heq⟩ := map_eq_some_iff.mp hsome
        cases heq
        cases h.symm.trans hn
  dump caller all hdump record hmem := by
    simp only [dump, bind, Except.bind, pure, Except.pure] at hdump
    split at hdump
    · cases hdump
    · cases hdump
      have hnode := (mem_filter.mp hmem).1
      rw [mem_toList_iff_getElem?_eq_some, h] at hnode
      cases hnode

end

/-! ## Shredding -/

section
variable {F V : Type} {S : Serde F V} {C : Codec V} {g g' : KnowledgeGraph F V} {call : Call C}
  {id : NodeId}

theorem deleteNode_eq_ok (h : g.deleteNode S C call id = (.ok (), g')) :
    (∃ n, g'.index.nodes[id]? = some n ∧ n.owner = call.callerBoundary) ∧
      ∀ y, id ≠ y → g'.index.nodes[y]? = g.index.nodes[y]? := by
  rcases deleteNode_cases S C h (.inl rfl) with ⟨rfl, -⟩ | ⟨n, -, howner, -, rfl⟩
  · refine ⟨?_, fun _ _ => rfl⟩
    unfold deleteNode at h
    split at h
    · cases h
    · split at h
      · cases h
      · next existing howned => exact ⟨existing, ownedNode_eq_some_iff.mp howned⟩
  · refine ⟨⟨n.deleted call.updatedAt, ?_, howner⟩, fun y hy => ?_⟩
    · rw [get_stored_nodes]
      exact if_pos rfl
    · rw [get_stored_nodes]
      exact if_neg hy

theorem purgeNodeHistory_cases (g : KnowledgeGraph F V) (call : Call C) (id : NodeId) :
    (∃ err, g.purgeNodeHistory C call id = (.error err, g) ∧
      (err = .notFound → g.index.ownedNode call.callerBoundary id = none)) ∨
    ∃ n, g.purgeNodeHistory C call id = (.ok n,
      ⟨{ file := rewritten C call.nonce (g.storage.inner.survivingRecords call.token.origin id),
         inner := g.storage.inner.purged id }, g.index.removeNode id⟩) := by
  unfold purgeNodeHistory
  cases hreq : call.require .write with
  | error err =>
    refine .inl ⟨err, rfl, fun hnot => ?_⟩
    subst hnot
    unfold Call.require Graph.require at hreq
    split at hreq <;> cases hreq
  | ok u =>
    cases howned : g.index.ownedNode call.callerBoundary id with
    | none => exact .inl ⟨.notFound, rfl, fun _ => rfl⟩
    | some n =>
      rcases g.storage.purgeObject_cases C call.storeCaller id call.nonce with ⟨err, heq⟩ | ⟨k, heq⟩
      · exact .inl ⟨.storage err, by simp only [heq], fun hnot => by cases hnot⟩
      · exact .inr ⟨k, by simp only [heq]; rfl⟩

theorem get_removeNode (i : GraphIndex F V) (y : NodeId) :
    (i.removeNode id).nodes[y]? = if id = y then none else i.nodes[y]? :=
  HashMap.get_erase _ _ _

theorem eraseObject_eq_ok {erased : V} {turn : ObjectTurn C}
    (h : eraseObject S C erased .cryptoShred call turn id g = (.ok (), g')) (y : NodeId) :
    g'.index.nodes[y]? = if id = y then none else g.index.nodes[y]? := by
  unfold eraseObject at h
  dsimp only at h
  split at h
  · cases h
  · next mid hdelete =>
    obtain ⟨⟨n, hn, howner⟩, hothers⟩ := deleteNode_eq_ok hdelete
    have hpurged : (mid.index.removeNode id).nodes[y]? = if id = y then none else g.index.nodes[y]? := by
      rw [get_removeNode]
      split
      · rfl
      · next hy => exact hothers y hy
    rcases purgeNodeHistory_cases mid { call with toReadings := turn.purge } id with
      ⟨err, heq, hnot⟩ | ⟨k, heq⟩
    · rw [heq] at h
      cases err with
      | notFound =>
        have howned := ownedNode_eq_some_iff.mpr ⟨hn, howner⟩
        cases (hnot rfl).symm.trans howned
      | _ => cases h
    · rw [heq] at h
      cases h
      exact hpurged

theorem eraseEach_eq_ok {erased : V} {turns : Nat → ObjectTurn C} {ids : List NodeId}
    (h : eraseEach S C erased .cryptoShred call turns ids g = (.ok (), g')) (y : NodeId) :
    g'.index.nodes[y]? = if y ∈ ids then none else g.index.nodes[y]? := by
  induction ids generalizing turns g with
  | nil =>
    cases h
    rw [if_neg not_mem_nil]
  | cons id ids ih =>
    unfold eraseEach at h
    split at h
    · cases h
    · next mid hone =>
      rw [ih h, eraseObject_eq_ok hone]
      by_cases hmem : y ∈ ids
      · rw [if_pos hmem, if_pos (mem_cons_of_mem _ hmem)]
      · by_cases hid : id = y
        · rw [if_neg hmem, if_pos hid, if_pos (hid ▸ mem_cons_self)]
        · rw [if_neg hmem, if_neg hid, if_neg]
          exact fun hcons => (mem_cons.mp hcons).elim (fun heq => hid heq.symm) hmem

end

/-! ## Restoring -/

section
variable {F V A I : Type} {S : Serde F V} {C : Codec V} {R : AgentRuntime A I} {x : NodeId}
  {svc : RecoveryService F V} {g : KnowledgeGraph F V}

def Lacks (x : NodeId) (snapshot : Snapshot F V) : Prop :=
  ∀ entry ∈ snapshot, entry.1 = x → entry.2.isNone = true

/-- No recovery point and no redo snapshot has a copy of the object. -/
def NoCopy (svc : RecoveryService F V) (x : NodeId) : Prop :=
  (∀ entry ∈ svc.snapshots.toList, Lacks x entry.2) ∧ ∀ entry ∈ svc.redoSnapshots.toList, Lacks x entry.2

instance (x : NodeId) (snapshot : Snapshot F V) : Decidable (Lacks x snapshot) :=
  inferInstanceAs (Decidable (∀ entry ∈ snapshot, entry.1 = x → entry.2.isNone = true))

instance (svc : RecoveryService F V) (x : NodeId) : Decidable (NoCopy svc x) :=
  inferInstanceAs (Decidable (_ ∧ _))

theorem NoCopy.snapshot (h : NoCopy svc x) {point : RecoveryPointId}
    {snapshot : Snapshot F V} (hget : svc.snapshots[point]? = some snapshot) : Lacks x snapshot :=
  h.1 _ (mem_toList_iff_getElem?_eq_some.mpr hget)

theorem NoCopy.redoSnapshot (h : NoCopy svc x) {id : ActionId}
    {snapshot : Snapshot F V} (hget : svc.redoSnapshots[id]? = some snapshot) : Lacks x snapshot :=
  h.2 _ (mem_toList_iff_getElem?_eq_some.mpr hget)

theorem RestoresAll.missing {b : TrustBoundaryId} {states : List (Option (NodeRecord F V))}
    {old new : Option (NodeRecord F V)} (h : RestoresAll b states old new) (hold : old = none)
    (hstates : ∀ state ∈ states, state = none) : new = none := by
  induction h with
  | nil => exact hold
  | cons hone _ ih =>
    refine ih ?_ fun state hstate => hstates state (mem_cons_of_mem _ hstate)
    cases hone with
    | put => cases hstates _ mem_cons_self
    | absent => exact hold
    | deleted => cases hold

variable (call : Call C) (objects : List NodeId) (writes : Nat → Readings C) (point : RecoveryPointId)

theorem applySnapshot_missing {snapshot : Snapshot F V} (hsafe : x ∈ objects → Lacks x snapshot)
    (h : g.index.nodes[x]? = none) :
    (applySnapshot S C call objects writes snapshot g).2.index.nodes[x]? = none := by
  obtain ⟨done, hpre, -, hrestores⟩ := applySnapshot_attempts (rfl :
    applySnapshot S C call objects writes snapshot g = (_, _)) x
  refine RestoresAll.missing hrestores h fun state hstate => ?_
  obtain ⟨entry, hentry, rfl⟩ := mem_map.mp (hpre.subset hstate)
  obtain ⟨hmem, hkeep⟩ := mem_filter.mp hentry
  obtain ⟨hobject, hx⟩ := of_decide_eq_true hkeep
  exact isNone_iff_eq_none.mp (hsafe (hx ▸ hobject) entry hmem hx)

theorem restoreObjects_missing (objects : List NodeId)
    (hsafe : ∀ snapshot, svc.snapshots[point]? = some snapshot → x ∈ objects → Lacks x snapshot)
    (h : g.index.nodes[x]? = none) :
    (svc.restoreObjects S C g call writes point objects).2.index.nodes[x]? = none := by
  unfold RecoveryService.restoreObjects
  split
  · exact h
  · next snapshot hsnapshot => exact applySnapshot_missing call objects writes (hsafe snapshot hsnapshot) h

theorem NoCopy.restoreInvariant (records : List ActionRecord) (ok : ActionRecord → ActionStatus → Prop) :
    RestoreInvariant S call records ok fun svc g => NoCopy svc x ∧ g.index.nodes[x]? = none where
  apply svc g writes snapshot a ha hget h := by
    refine ⟨h.1, applySnapshot_missing call _ writes (fun _ => ?_) h.2⟩
    rcases hget with hget | hget
    · exact h.1.snapshot hget
    · exact h.1.redoSnapshot hget
  capture svc g reads snapshot a ha hsnapshot h := by
    have hlacks : Lacks x snapshot := by
      intro entry hentry hx
      rw [snapshotObjects_eq hsnapshot] at hentry
      obtain ⟨id, -, rfl⟩ := mem_map.mp hentry
      cases hx
      simp [visibleNode, h.2]
    refine ⟨⟨h.1.1, fun entry hentry => ?_⟩, h.2⟩
    rw [mem_toList_iff_getElem?_eq_some, HashMap.get_insert] at hentry
    split at hentry
    · cases hentry
      exact hlacks
    · exact h.1.redoSnapshot hentry
  journal _ _ _ _ h := h

/-- The calls that restore; `restore_to_with_cause` does to the graph what `restore_to` does. -/
def IsRestore : Recovery.Op F C → Prop
  | .undo _ _ _ | .redo _ _ _ | .restoreTo _ _ _ | .recoverFromCrash _ _ => True
  | _ => False

/-- The graph does not have the object, and the recovery service has no copy of it. -/
structure Destroyed (w : World F V A) (x : NodeId) : Prop where
  missing : w.graph.index.nodes[x]? = none
  noCopy : NoCopy w.service x

theorem restoreTo_missing (hcopy : NoCopy svc x) (h : g.index.nodes[x]? = none) :
    (svc.restoreTo S C g call writes point).2.index.nodes[x]? = none := by
  unfold RecoveryService.restoreTo
  split
  · exact h
  · split
    · exact h
    · exact restoreObjects_missing call writes _ _ (fun _ hget _ => hcopy.snapshot hget) h

variable {w w' : World F V A}

theorem Destroyed.exec [F32 F] {op : Recovery.Op F C} (h : Destroyed w x)
    (hop : IsRestore op) (hexec : op.exec S R w = some w') : Destroyed w' x := by
  have hnow : NoCopy w.service x ∧ w.graph.index.nodes[x]? = none := ⟨h.noCopy, h.missing⟩
  cases op with
  | undo call turns scope =>
    cases hexec
    obtain ⟨hcopy, hmissing⟩ := RestoreInvariant.undo (fun _ => NoCopy.restoreInvariant (S := S) call _ _) turns hnow
    exact ⟨hmissing, hcopy⟩
  | redo call turns scope =>
    cases hexec
    obtain ⟨hcopy, hmissing⟩ := (NoCopy.restoreInvariant (S := S) call _ _).redo turns hnow
    exact ⟨hmissing, hcopy⟩
  | restoreTo call writes point =>
    cases hexec
    exact ⟨restoreTo_missing call writes point h.noCopy h.missing, h.noCopy⟩
  | recoverFromCrash call turns =>
    cases hexec
    obtain ⟨hcopy, hmissing⟩ := (NoCopy.restoreInvariant (S := S) call _ _).recoverEach (R := R)
      (fun _ ha => ha) turns w.agents hnow
    exact ⟨hmissing, hcopy⟩
  | _ => cases hop

theorem Destroyed.run [F32 F] {ops : List (Recovery.Op F C)} (h : Destroyed w x)
    (hops : ∀ op ∈ ops, IsRestore op) (hrun : runAll S R w ops = some w') : Destroyed w' x :=
  foldlM_invariant (fun op hop _ _ h hexec => Destroyed.exec h (hops op hop) hexec) h hrun

theorem destroyed_erase {erased : V} {call : Call C} {turn : EraseTurn C}
    {objectIds : List NodeId} {now : Nat} {receipt : ErasureReceipt} (hx : x ∈ objectIds)
    (hcopy : NoCopy w.service x)
    (herase : eraseIn S w erased call turn objectIds .cryptoShred now = (.ok receipt, w')) :
    Destroyed w' x := by
  unfold eraseIn at herase
  generalize hout : erase S C erased w.service w.graph call turn objectIds .cryptoShred now = out at herase
  cases erase_outcome hout with
  | refused | unopened => cases herase
  | went hopen hclose hresult =>
    obtain ⟨hok, rfl⟩ := Prod.mk.inj herase
    cases hopen
    obtain rfl := hclose.resolve_right fun ⟨_, hid, _⟩ => nomatch hid
    refine ⟨?_, hcopy⟩
    have heach := eraseEach_eq_ok (Prod.ext (hresult receipt hok) rfl :
      eraseEach S C erased .cryptoShred call turn.objects objectIds w.graph = (.ok (), _)) x
    rw [if_pos hx] at heach
    exact heach

/-- **A shredded object of which no recovery point or redo snapshot has a copy is never read again, however
much is restored afterwards.** -/
theorem shredded_stays_gone [F32 F] {w w₁ w₂ : World F V A} {erased : V} {call : Call C}
    {turn : EraseTurn C} {objectIds : List NodeId} {now : Nat} {receipt : ErasureReceipt}
    (hx : x ∈ objectIds) (hcopy : NoCopy w.service x)
    (herase : eraseIn S w erased call turn objectIds .cryptoShred now = (.ok receipt, w₁))
    {ops : List (Recovery.Op F C)} (hops : ∀ op ∈ ops, IsRestore op) (hrun : runAll S R w₁ ops = some w₂) :
    Unreadable S w₂.graph x :=
  unreadable_of_missing ((destroyed_erase hx hcopy herase).run hops hrun).missing

end

/-! ## A note that is shredded -/

def calmObjects : Nat → ObjectTurn jsonSerde.plain := fun _ => ⟨keeper.toReadings, keeper.toReadings⟩

def calmErase : EraseTurn jsonSerde.plain := ⟨0, fun _ => 0, calmObjects⟩

def erasedJson : Json := .obj [("erased", .bool true), ("mode", .str "SoftDelete")]

def eraseNote (w : World Int Json Unit) (mode : ErasureMode) (now : Nat) :
    Except PrivacyError ErasureReceipt × World Int Json Unit :=
  eraseIn jsonRecord w erasedJson keeper calmErase [0] mode now

def shredReceipt : ErasureReceipt := ⟨[0], .cryptoShred, some 5, none⟩

def readNote (g : KnowledgeGraph Int Json) : Option String :=
  match g.get ⟨keeper.monitor, keeper.token, 0⟩ 0 with
  | .ok record => some (noteText (content record))
  | .error _ => none

theorem not_unreadable {g : KnowledgeGraph Int Json} {text : String} (h : readNote g = some text) :
    ¬ Unreadable jsonRecord g 0 := by
  intro hunreadable
  unfold readNote at h
  split at h
  · next record hget => exact hunreadable.get _ record hget
  · cases h

def restoreFirst : Recovery.Op Int jsonSerde.plain := .restoreTo keeper (fun _ => keeper.toReadings) 1

/-- How the note reads, whether there is a copy of it, what the shred returns, and how the note reads after
the shred and a restore of the first recovery point. -/
def shredView (w : World Int Json Unit) :
    Option String × Bool × Option ErasureReceipt × Option (Option String) :=
  (readNote w.graph, decide (NoCopy w.service 0), (eraseNote w .cryptoShred 5).1.toOption,
    (runAll jsonRecord noAgents (eraseNote w .cryptoShred 5).2 [restoreFirst]).map
      fun w₂ => readNote w₂.graph)

theorem eq_of_toOption {result : Except PrivacyError ErasureReceipt × World Int Json Unit}
    {receipt : ErasureReceipt} (h : result.1.toOption = some receipt) :
    result = (.ok receipt, result.2) := by
  obtain ⟨result, w⟩ := result
  cases result with
  | error err => cases h
  | ok receipt' =>
    cases h
    rfl

/-- Another note is written, and a recovery point has it. -/
def secretAndOther : List (Recovery.Op Int jsonSerde.plain) :=
  [writeNote none "secret", writeNote none "other",
    .recoveryPointCreate ⟨keeper.monitor, keeper.token, 0⟩ (fun _ => 0) .automatic [1] 0]

theorem shredded_stays_gone_note : ∃ w w₁ w₂ : World Int Json Unit,
    runAll jsonRecord noAgents (.empty ()) secretAndOther = some w ∧ w.service.snapshots[1]?.isSome = true ∧
      readNote w.graph = some "secret" ∧ eraseNote w .cryptoShred 5 = (.ok shredReceipt, w₁) ∧
      runAll jsonRecord noAgents w₁ [.undo keeper steady (.global 1), restoreFirst] = some w₂ ∧
      Unreadable jsonRecord w₂.graph 0 := by
  have hrun : (runAll jsonRecord noAgents (.empty ()) secretAndOther).map shredView =
      some (some "secret", true, some shredReceipt, some none) := by
    decide +kernel
  have hpoint : (runAll jsonRecord noAgents (.empty ()) secretAndOther).map (·.service.snapshots[1]?.isSome) =
      some true := by
    decide +kernel
  obtain ⟨w, hw, hview⟩ := map_eq_some_iff.mp hrun
  simp only [shredView, Prod.mk.injEq] at hview
  obtain ⟨hread, hcopy, hreceipt, -⟩ := hview
  rw [hw] at hpoint
  obtain ⟨w₂, hw₂⟩ : ∃ w₂, runAll jsonRecord noAgents (eraseNote w .cryptoShred 5).2
    [.undo keeper steady (.global 1), restoreFirst] = some w₂ := ⟨_, rfl⟩
  have herase := eq_of_toOption hreceipt
  refine ⟨w, _, w₂, hw, some.inj hpoint, hread, herase, hw₂, ?_⟩
  refine shredded_stays_gone (mem_singleton_self _) (of_decide_eq_true hcopy) herase ?_ hw₂
  simp [IsRestore, restoreFirst]

/-- **A recovery point that was taken before the shred brings the note back.** -/
theorem shredded_note_restored : ∃ w w₁ w₂ : World Int Json Unit,
    runAll jsonRecord noAgents (.empty ()) [writeNote none "secret", takePoint 0] = some w ∧
      readNote w.graph = some "secret" ∧ eraseNote w .cryptoShred 5 = (.ok shredReceipt, w₁) ∧
      runAll jsonRecord noAgents w₁ [restoreFirst] = some w₂ ∧ IsRestore restoreFirst ∧
      readNote w₂.graph = some "secret" ∧ ¬ Unreadable jsonRecord w₂.graph 0 := by
  have hrun : (runAll jsonRecord noAgents (.empty ()) [writeNote none "secret", takePoint 0]).map
      shredView = some (some "secret", false, some shredReceipt, some (some "secret")) := by
    decide +kernel
  obtain ⟨w, hw, hview⟩ := map_eq_some_iff.mp hrun
  simp only [shredView, Prod.mk.injEq] at hview
  obtain ⟨hread, -, hreceipt, hrestored⟩ := hview
  obtain ⟨w₂, hw₂, hafter⟩ := map_eq_some_iff.mp hrestored
  exact ⟨w, _, w₂, hw, hread, eq_of_toOption hreceipt, hw₂, trivial, hafter, not_unreadable hafter⟩

end Hyperion.Privacy
