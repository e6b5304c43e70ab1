import Hyperion.Privacy.Shred

/-!
# The end of a grace period

What a sweep over soft deletes achieves. It passes an action over as soon as one of its objects is not
visible, be it that another call deleted the object or that an earlier action of the same sweep had it
shredded; the action then stays as it is, and can be undone.
-/

namespace Hyperion.Privacy
open Lib Capability Storage Hyperion.Graph Recovery GraphIndex Inner List Option KnowledgeGraph RecoveryService

/-! ## The log without an object -/

section
variable {V : Type} (C : Codec V) (x : NodeId)

/-- Every line of the file is the line of a record of another object. -/
inductive Without : List UInt8 → Prop
  | rewritten (nonce : Nat → C.Nonce) (records : List (WalRecord V)) (h : ∀ r ∈ records, r.objectId ≠ x) :
      Without (rewritten C nonce records)
  | append (file : List UInt8) (nonce : C.Nonce) (r : WalRecord V) (h : Without file)
      (hr : r.objectId ≠ x) : Without (file ++ (C.line nonce r ++ [newline]))

end

section
variable {F V : Type} {S : Serde F V} {C : Codec V} {g : KnowledgeGraph F V} {x y : NodeId}
  {call : Call C} {n : NodeRecord F V}

variable (C g x) in
/-- Neither the index nor the engine nor the log has anything of the object. -/
structure Purged : Prop where
  node : g.index.nodes[x]? = none
  versions : ∀ (v : VersionId) record, g.storage.inner.versionChain[v]? = some record →
    record.objectId ≠ x
  log : Without C x g.storage.file

/-! ## Shredding an object -/

/-- The token may write at the readings, and the disk takes the write. -/
structure Completes (call : Call C) (readings : Readings C) : Prop where
  graph : Graph.require ⟨call.monitor, call.token, readings.requireAt⟩ .write = .ok ()
  store : Caller.authorize ⟨call.monitor, call.token, readings.storeAt⟩ .write = .ok ()
  io : readings.io = .completed

variable {origin : TrustBoundaryId} {readings : Readings C} {nonce : Nat → C.Nonce} {turn : ObjectTurn C}

theorem deleteNode_eq_stored
    (hcalm : Completes call readings) (hvisible : g.index.visibleNode call.token.origin x = some n) :
    (g.deleteNode S C { call with toReadings := readings } x).2 =
      g.stored S C { call with toReadings := readings } (some x) (.node (n.deleted readings.updatedAt)) := by
  obtain ⟨hn, htombstone, howner⟩ := visibleNode_eq_some_iff.mp hvisible
  have howned : g.index.ownedNode call.token.origin x = some n :=
    ownedNode_eq_some_iff.mpr ⟨hn, howner⟩
  have hreq : Call.require { call with toReadings := readings } .write = .ok () := hcalm.graph
  have hwrite : g.write S C { call with toReadings := readings } (some x) (g.storage.currentVersion x)
      (.node (n.deleted readings.updatedAt)) = (.ok x, _) :=
    g.write_eq_stored S C _ hcalm.store rfl hcalm.io
  unfold deleteNode
  rw [hreq]
  simp only [Call.callerBoundary, howned, htombstone, Bool.false_eq_true, if_false]
  rw [returning_snd]
  exact congrArg Prod.snd hwrite

theorem knows_stored (call : Call C) (record : Record F V) :
    (g.stored S C call (some x) record).storage.inner.knows x = true := by
  have hcontains : (g.stored S C call (some x) record).storage.inner.metadata.contains x = true := by
    rw [Std.ExtTreeMap.contains_eq_isSome_getElem?]
    exact congrArg Option.isSome ((HashMap.get_insert _ _ _ _).trans (if_pos rfl))
  rw [Inner.knows, hcontains, Bool.true_or]

variable (C g x) in
def purgedGraph (origin : TrustBoundaryId) (nonce : Nat → C.Nonce) : KnowledgeGraph F V :=
  ⟨{ file := rewritten C nonce (g.storage.inner.survivingRecords origin x),
     inner := g.storage.inner.purged x }, g.index.removeNode x⟩

theorem purgeNodeHistory_eq_purged (hcalm : Completes call readings) (hn : g.index.nodes[x]? = some n)
    (howner : n.owner = call.token.origin) (hknows : g.storage.inner.knows x = true) :
    (g.purgeNodeHistory C { call with toReadings := readings } x).2 =
      purgedGraph C g x call.token.origin readings.nonce := by
  have howned : g.index.ownedNode call.token.origin x = some n :=
    ownedNode_eq_some_iff.mpr ⟨hn, howner⟩
  have hreq : Call.require { call with toReadings := readings } .write = .ok () := hcalm.graph
  unfold purgeNodeHistory
  rw [hreq]
  simp only [Call.callerBoundary, howned, StorageEngine.purgeObject, Call.storeCaller, hcalm.store, hknows,
    Bool.not_true, Bool.false_eq_true, if_false, purgedGraph]

theorem Purged.stored (h : Purged C g y) (hxy : x ≠ y) :
    Purged C (g.stored S C call (some x) (.node n)) y where
  node := (get_stored_nodes _ _ _ _ _).trans ((if_neg hxy).trans h.node)
  versions v record hrecord := by
    replace hrecord := (HashMap.get_insert _ _ _ _).symm.trans hrecord
    split at hrecord
    · cases hrecord
      exact hxy
    · exact h.versions v record hrecord
  log := .append _ _ _ h.log hxy

theorem Purged.purgedGraph (h : Purged C g y) :
    Purged C (purgedGraph C g x origin nonce) y where
  node := by
    rw [Privacy.purgedGraph, get_removeNode, h.node, ite_self]
  versions v record hrecord := h.versions v record ((get_purged v record).mp hrecord).1
  log := .rewritten _ _ fun r hr => by
    obtain ⟨v, record, hrecord, -, rfl⟩ := mem_survivingRecords.mp hr
    exact h.versions v record hrecord

theorem purged_purgedGraph :
    Purged C (purgedGraph C g x origin nonce) x where
  node := (get_removeNode _ _).trans (if_pos rfl)
  versions v record hrecord := ((get_purged v record).mp hrecord).2
  log := .rewritten _ _ fun r hr => by
    obtain ⟨v, record, -, hne, rfl⟩ := mem_survivingRecords.mp hr
    exact hne

/-- What shredding some objects leads to: these are purged, the others stay, and what is purged stays so. -/
structure Shreds (C : Codec V) (ids : List NodeId) (g g' : KnowledgeGraph F V) : Prop where
  purged : ∀ x ∈ ids, Purged C g' x
  others : ∀ y, y ∉ ids → g'.index.nodes[y]? = g.index.nodes[y]?
  kept : ∀ y, Purged C g y → Purged C g' y

theorem Shreds.append {ids ids' : List NodeId} {g₁ g₂ : KnowledgeGraph F V} (h : Shreds C ids g g₁)
    (h' : Shreds C ids' g₁ g₂) : Shreds C (ids ++ ids') g g₂ where
  purged x hx := by
    rcases mem_append.mp hx with hx | hx
    · exact h'.kept x (h.purged x hx)
    · exact h'.purged x hx
  others y hy := by
    rw [mem_append, not_or] at hy
    exact (h'.others y hy.2).trans (h.others y hy.1)
  kept y hy := h'.kept y (h.kept y hy)

def shredOne (S : Serde F V) (call : Call C) (turn : ObjectTurn C) (x : NodeId) (g : KnowledgeGraph F V) :
    KnowledgeGraph F V :=
  (KnowledgeGraph.purgeNodeHistory C (g.deleteNode S C { call with toReadings := turn.write } x).2
    { call with toReadings := turn.purge } x).2

theorem shredOne_visible (hdelete : Completes call turn.write)
    (hpurge : Completes call turn.purge) (hvisible : g.index.visibleNode call.token.origin x = some n) :
    Shreds C [x] g (shredOne S call turn x g) := by
  have howner := (visibleNode_eq_some_iff.mp hvisible).2.2
  have hdeleted : (g.stored S C { call with toReadings := turn.write } (some x)
      (.node (n.deleted turn.write.updatedAt))).index.nodes[x]? = some (n.deleted turn.write.updatedAt) :=
    (get_stored_nodes _ _ _ _ _).trans (if_pos rfl)
  have hpurged := purgeNodeHistory_eq_purged hpurge hdeleted howner (knows_stored _ _)
  rw [shredOne, deleteNode_eq_stored hdelete hvisible, hpurged]
  refine ⟨fun z hz => ?_, fun y hy => ?_, fun y hy => ?_⟩
  · cases mem_singleton.mp hz
    exact purged_purgedGraph
  · have hxy : x ≠ y := fun heq => hy (mem_singleton.mpr heq.symm)
    rw [purgedGraph, get_removeNode, if_neg hxy, get_stored_nodes]
    exact if_neg hxy
  · by_cases hxy : x = y
    · exact hxy ▸ purged_purgedGraph
    · exact (hy.stored hxy).purgedGraph

theorem shredOne_missing (hdelete : Completes call turn.write)
    (hpurge : Completes call turn.purge) (h : g.index.nodes[x]? = none) : shredOne S call turn x g = g := by
  have howned : g.index.ownedNode call.token.origin x = none := by
    rw [ownedNode, h]
    rfl
  have hreq : Call.require { call with toReadings := turn.write } .write = .ok () := hdelete.graph
  have hreq' : Call.require { call with toReadings := turn.purge } .write = .ok () := hpurge.graph
  have hskip : (g.deleteNode S C { call with toReadings := turn.write } x).2 = g := by
    unfold deleteNode
    rw [hreq]
    simp only [Call.callerBoundary, howned]
  rw [shredOne, hskip, purgeNodeHistory, hreq']
  simp only [Call.callerBoundary, howned]

theorem shredEach_shreds {turns : Nat → ObjectTurn C} (hdelete : ∀ i, Completes call (turns i).write)
    (hpurge : ∀ i, Completes call (turns i).purge) {ids : List NodeId}
    (hids : ∀ x ∈ ids, (g.index.visibleNode call.token.origin x).isSome = true ∨ Purged C g x) :
    Shreds C ids g (shredEach S C call turns ids g) := by
  induction ids generalizing turns g with
  | nil => exact ⟨fun _ h => absurd h not_mem_nil, fun _ _ => rfl, fun _ h => h⟩
  | cons x ids ih =>
    have hone : Shreds C [x] g (shredOne S call (turns 0) x g) := by
      rcases hids x mem_cons_self with hvisible | hgone
      · obtain ⟨n, hn⟩ := isSome_iff_exists.mp hvisible
        exact shredOne_visible (hdelete 0) (hpurge 0) hn
      · rw [shredOne_missing (hdelete 0) (hpurge 0) hgone.node]
        exact ⟨fun z hz => mem_singleton.mp hz ▸ hgone, fun _ _ => rfl, fun _ h => h⟩
    have hlater : ∀ z ∈ ids, ((shredOne S call (turns 0) x g).index.visibleNode call.token.origin
        z).isSome = true ∨ Purged C (shredOne S call (turns 0) x g) z := by
      intro z hz
      by_cases hzx : z ∈ [x]
      · exact .inr (hone.purged z hzx)
      · refine (hids z (mem_cons_of_mem _ hz)).imp (fun hvisible => ?_) (hone.kept z)
        rw [visibleNode, hone.others z hzx]
        exact hvisible
    exact hone.append (ih (fun i => hdelete (i + 1)) (fun i => hpurge (i + 1)) hlater)

end

/-! ## The actions of a sweep -/

section
variable {F V A : Type} {S : Serde F V} {C : Codec V} {g : KnowledgeGraph F V}
  {svc : RecoveryService F V}

def restatusIf (chosen : ActionRecord → Bool) (status : ActionStatus) (actions : List ActionRecord) :
    List ActionRecord :=
  actions.map fun a => if chosen a then { a with status := status } else a

variable {a : ActionRecord}

theorem setFirst_eq_restatusIf {actions : List ActionRecord} (status : ActionStatus)
    (hids : (actions.map (·.actionId)).Nodup) (ha : a ∈ actions) :
    setFirst a.actionId status actions = some (restatusIf (· = a) status actions) := by
  induction actions with
  | nil => exact absurd ha not_mem_nil
  | cons b actions ih =>
    rw [map_cons, nodup_cons] at hids
    unfold setFirst
    rcases mem_cons.mp ha with rfl | ha
    · have hrest : restatusIf (· = a) status actions = actions := by
        refine (map_congr_left fun c hc => ?_).trans (map_id' actions)
        have hne : c ≠ a := fun heq => hids.1 (heq ▸ mem_map_of_mem hc)
        simp [hne]
      rw [if_pos rfl]
      exact congrArg some (congrArg₂ List.cons (by simp) hrest.symm)
    · have hne : b.actionId ≠ a.actionId := fun heq => hids.1 (heq ▸ mem_map_of_mem ha)
      have hba : b ≠ a := fun heq => hne (congrArg _ heq)
      rw [if_neg hne, ih hids.2 ha]
      simp [restatusIf, hba]

theorem expire_eq_ok (hids : (svc.actions.map (·.actionId)).Nodup)
    (ha : a ∈ svc.actions) (hstatus : a.status = .committed) :
    svc.expire a.actionId = (.ok (), { svc with actions := restatusIf (· = a) .expired svc.actions }) := by
  have hfind : svc.actions.find? (fun b => b.actionId = a.actionId) = some a := by
    cases hfound : svc.actions.find? (fun b => b.actionId = a.actionId) with
    | none => exact absurd (decide_eq_true rfl) (List.find?_eq_none.mp hfound a ha)
    | some b =>
      have hid : b.actionId = a.actionId := by simpa using List.find?_some hfound
      rw [inj_on_of_nodup_map hids (mem_of_find?_eq_some hfound) ha hid]
  rw [expire, hfind]
  simp only [hstatus, ne_eq, not_true_eq_false, if_false, setStatus,
    setFirst_eq_restatusIf _ hids ha]

theorem map_actionId_restatusIf (chosen : ActionRecord → Bool) (status : ActionStatus)
    (actions : List ActionRecord) :
    (restatusIf chosen status actions).map (·.actionId) = actions.map (·.actionId) := by
  rw [restatusIf, List.map_map]
  refine List.map_congr_left fun a _ => ?_
  dsimp only [Function.comp]
  split <;> rfl

theorem allVisible_iff {monitor : CapabilityMonitor} {token : CapabilityToken} {reads : Nat → Instant}
    (hreads : ∀ i, Graph.require ⟨monitor, token, reads i⟩ .read = .ok ()) (ids : List NodeId) :
    allVisible g monitor token reads ids = true ↔
      ∀ x ∈ ids, (g.index.visibleNode token.origin x).isSome = true := by
  induction ids generalizing reads with
  | nil => simp [allVisible]
  | cons x ids ih =>
    have hget : (g.get ⟨monitor, token, reads 0⟩ x).toBool = (g.index.visibleNode token.origin x).isSome := by
      simp only [KnowledgeGraph.get, hreads 0, bind, Except.bind]
      cases g.index.visibleNode token.origin x <;> rfl
    rw [allVisible, Bool.and_eq_true, hget, ih fun i => hreads (i + 1), forall_mem_cons]

variable (C) in
/-- The token may read and write throughout the sweep, and no write fails. -/
structure Calm (call : Call C) (turns : Nat → SweepTurn C) : Prop where
  sweep : require ⟨call.monitor, call.token, call.requireAt⟩ .write = .ok ()
  reads : ∀ n i, Graph.require ⟨call.monitor, call.token, (turns n).reads i⟩ .read = .ok ()
  deletes : ∀ n i, Completes call ((turns n).objects i).write
  purges : ∀ n i, Completes call ((turns n).objects i).purge

/-- The action has lapsed and is one of those that the sweep is for. -/
def due (mine : ActionRecord → Bool) (now gracePeriodSecs : Nat) (a : ActionRecord) : Bool :=
  lapsed now gracePeriodSecs a && mine a

variable (g) in
/-- A sweep over the actions reaches those that are due: their objects are visible, no two of them share
one, and every other action that has lapsed touches an object that is not visible. -/
structure Reaches (boundary : TrustBoundaryId) (mine : ActionRecord → Bool) (now gracePeriodSecs : Nat)
    (records : List ActionRecord) : Prop where
  visible : ∀ a ∈ records, due mine now gracePeriodSecs a = true →
    ∀ x ∈ a.objectsTouched, (g.index.visibleNode boundary x).isSome = true
  disjoint : records.Pairwise fun a b => due mine now gracePeriodSecs a = true →
    due mine now gracePeriodSecs b = true → a.objectsTouched.Disjoint b.objectsTouched
  foreign : ∀ a ∈ records, lapsed now gracePeriodSecs a = true → mine a = false →
    ∃ x ∈ a.objectsTouched, g.index.visibleNode boundary x = none

section
variable {boundary : TrustBoundaryId} {mine : ActionRecord → Bool} {now gracePeriodSecs : Nat}
  {a : ActionRecord} {records : List ActionRecord}

theorem Reaches.tail (h : Reaches g boundary mine now gracePeriodSecs (a :: records)) :
    Reaches g boundary mine now gracePeriodSecs records where
  visible b hb := h.visible b (mem_cons_of_mem _ hb)
  disjoint := (pairwise_cons.mp h.disjoint).2
  foreign b hb := h.foreign b (mem_cons_of_mem _ hb)

theorem Reaches.shreds {g' : KnowledgeGraph F V}
    (h : Reaches g boundary mine now gracePeriodSecs (a :: records))
    (ha : due mine now gracePeriodSecs a = true) (hshreds : Shreds C a.objectsTouched g g') :
    Reaches g' boundary mine now gracePeriodSecs records where
  visible b hb hdue x hx := by
    have hnot : x ∉ a.objectsTouched := fun hxa =>
      (pairwise_cons.mp h.disjoint).1 b hb ha hdue hxa hx
    rw [visibleNode, hshreds.others x hnot]
    exact h.visible b (mem_cons_of_mem _ hb) hdue x hx
  disjoint := (pairwise_cons.mp h.disjoint).2
  foreign b hb hlapsed hmine := by
    obtain ⟨x, hx, hnone⟩ := h.foreign b (mem_cons_of_mem _ hb) hlapsed hmine
    refine ⟨x, hx, ?_⟩
    by_cases hxa : x ∈ a.objectsTouched
    · rw [visibleNode, (hshreds.purged x hxa).node]
      rfl
    · rw [visibleNode, hshreds.others x hxa]
      exact hnone

theorem due_restatus {status : ActionStatus} (hstatus : status ≠ .committed) :
    due mine now gracePeriodSecs { a with status := status } = false := by
  simp [due, lapsed, hstatus]

variable {actions : List ActionRecord}

theorem restatusIf_restatusIf (ha : due mine now gracePeriodSecs a = true) :
    restatusIf (fun b => b ∈ records ∧ due mine now gracePeriodSecs b) .expired
        (restatusIf (· = a) .expired actions) =
      restatusIf (fun b => b ∈ a :: records ∧ due mine now gracePeriodSecs b) .expired actions := by
  rw [restatusIf, restatusIf, List.map_map]
  refine List.map_congr_left fun b _ => ?_
  dsimp only [Function.comp]
  by_cases hb : b = a
  · subst hb
    have hnot : due mine now gracePeriodSecs { b with status := .expired } = false :=
      due_restatus (by decide)
    simp [ha, hnot]
  · simp [hb]

theorem restatusIf_cons_of_not_due (ha : due mine now gracePeriodSecs a = false) :
    restatusIf (fun b => b ∈ a :: records ∧ due mine now gracePeriodSecs b) .expired actions =
      restatusIf (fun b => b ∈ records ∧ due mine now gracePeriodSecs b) .expired actions := by
  refine map_congr_left fun b _ => ?_
  by_cases hb : b = a
  · subst hb
    simp [ha]
  · simp [hb]

end

theorem expireEach_spec {call : Call C} {turns : Nat → SweepTurn C} (hcalm : Calm C call turns)
    {mine : ActionRecord → Bool} {now gracePeriodSecs : Nat} {records : List ActionRecord}
    (hids : (svc.actions.map (·.actionId)).Nodup) (hsub : ∀ a ∈ records, a ∈ svc.actions)
    (hnodup : records.Nodup) (hreach : Reaches g call.token.origin mine now gracePeriodSecs records) :
    (expireEach S C call now gracePeriodSecs turns records svc g).2.1.actions =
        restatusIf (fun a => a ∈ records ∧ due mine now gracePeriodSecs a) .expired svc.actions ∧
      Shreds C ((records.filter (due mine now gracePeriodSecs)).flatMap (·.objectsTouched)) g
        (expireEach S C call now gracePeriodSecs turns records svc g).2.2 := by
  induction records generalizing turns svc g with
  | nil =>
    refine ⟨?_, fun _ h => absurd h not_mem_nil, fun _ _ => rfl, fun _ h => h⟩
    simp [expireEach, restatusIf]
  | cons a records ih =>
    have hcalm' : Calm C call fun i => turns (i + 1) :=
      ⟨hcalm.sweep, fun n => hcalm.reads (n + 1), fun n => hcalm.deletes (n + 1),
        fun n => hcalm.purges (n + 1)⟩
    have hvisible := allVisible_iff (g := g) (hcalm.reads 0) a.objectsTouched
    rw [nodup_cons] at hnodup
    unfold expireEach
    by_cases hdue : due mine now gracePeriodSecs a = true
    · obtain ⟨hlapsed, hmine⟩ := Bool.and_eq_true_iff.mp hdue
      have hall := hvisible.mpr (hreach.visible a mem_cons_self hdue)
      have hstatus : a.status = .committed := (of_decide_eq_true hlapsed).1
      have hexpire := expire_eq_ok hids (hsub a mem_cons_self) hstatus
      have hshreds : Shreds C a.objectsTouched g
          (shredEach S C call (turns 0).objects a.objectsTouched g) :=
        shredEach_shreds (hcalm.deletes 0) (hcalm.purges 0)
          fun x hx => .inl (hreach.visible a mem_cons_self hdue x hx)
      have hlater := @ih _ { svc with actions := restatusIf (· = a) .expired svc.actions } _ hcalm'
        (by rwa [map_actionId_restatusIf]) (fun b hb => ?_) hnodup.2 (hreach.shreds hdue hshreds)
      · rw [if_pos ⟨hlapsed, hall⟩, hexpire]
        refine ⟨hlater.1.trans (restatusIf_restatusIf hdue), ?_⟩
        rw [filter_cons_of_pos hdue, flatMap_cons]
        exact hshreds.append hlater.2
      · have hne : b ≠ a := fun heq => hnodup.1 (heq ▸ hb)
        exact mem_map.mpr ⟨b, hsub b (mem_cons_of_mem _ hb), by simp [hne]⟩
    · rw [Bool.not_eq_true] at hdue
      have hskip : ¬ (lapsed now gracePeriodSecs a = true ∧
          allVisible g call.monitor call.token (turns 0).reads a.objectsTouched = true) := by
        rintro ⟨hlapsed, hall⟩
        have hmine : mine a = false := by simpa [due, hlapsed] using hdue
        obtain ⟨x, hx, hnone⟩ := hreach.foreign a mem_cons_self hlapsed hmine
        have hsome := hvisible.mp hall x hx
        rw [hnone] at hsome
        cases hsome
      rw [if_neg hskip, restatusIf_cons_of_not_due hdue, filter_cons_of_neg (by simp [hdue])]
      exact ih hcalm' hids (fun b hb => hsub b (mem_cons_of_mem _ hb)) hnodup.2 hreach.tail

end

/-! ## Undoing after a sweep -/

section
variable {F V A I : Type} {S : Serde F V} {C : Codec V} {R : AgentRuntime A I} {x : NodeId}
  {svc : RecoveryService F V}

/-- The object is gone, and an expired action on it is not older than any committed one. -/
structure Sealed (g : KnowledgeGraph F V) (svc : RecoveryService F V) (x : NodeId) : Prop where
  missing : g.index.nodes[x]? = none
  ids : (svc.actions.map (·.actionId)).Nodup
  guard : ∃ e ∈ svc.actions, e.status = .expired ∧ x ∈ e.objectsTouched ∧
    ∀ c ∈ svc.actions, c.status = .committed → x ∈ c.objectsTouched → c.createdAt ≤ e.createdAt

theorem restoreInvariant_untouched (call : Call C) {records : List ActionRecord}
    {ok : ActionRecord → ActionStatus → Prop} (hx : ∀ a ∈ records, x ∉ a.objectsTouched) :
    RestoreInvariant S call records ok fun _ g => g.index.nodes[x]? = none where
  apply _ _ writes _ a ha _ h := applySnapshot_missing call _ writes (fun hmem => absurd hmem (hx a ha)) h
  capture _ _ _ _ _ _ _ h := h
  journal _ _ _ _ h := h

variable {g : KnowledgeGraph F V} {scope : UndoScope}

theorem mem_chosen {b : ActionRecord} (hb : b ∈ newestFirst (svc.selected .committed scope)) :
    b ∈ svc.actions ∧ b.status = .committed := by
  have hb := mem_filter.mp ((mem_insertionSort _).mp hb)
  exact ⟨hb.1, (of_decide_eq_true hb.2).1⟩

theorem not_mem_chosen (hids : (svc.actions.map (·.actionId)).Nodup)
    {e : ActionRecord} (he : e ∈ svc.actions) (hexpired : e.status = .expired) (scope : UndoScope) :
    e.actionId ∉ (newestFirst (svc.selected .committed scope)).map (·.actionId) := by
  intro hmem
  obtain ⟨b, hb, hsame⟩ := mem_map.mp hmem
  have heq := inj_on_of_nodup_map hids (mem_chosen hb).1 he hsame
  cases hexpired.symm.trans (heq ▸ (mem_chosen hb).2)

theorem Sealed.conflict (h : Sealed g svc x) {c : ActionRecord}
    (hc : c ∈ newestFirst (svc.selected .committed scope)) (hx : x ∈ c.objectsTouched) :
    x ∈ svc.conflicts (fun s => s ≠ .aborted ∧ s ≠ .undone)
      (newestFirst (svc.selected .committed scope)) := by
  obtain ⟨e, he, hexpired, hxe, hlatest⟩ := h.guard
  have hearliest : ((newestFirst (svc.selected .committed scope)).map
      (·.createdAt)).min?.getD 0 ≤ e.createdAt := by
    have hcreated := hlatest c (mem_chosen hc).1 (mem_chosen hc).2 hx
    cases hmin : ((newestFirst (svc.selected .committed scope)).map
        (·.createdAt)).min? with
    | none => exact Nat.zero_le _
    | some m =>
      exact ((List.min?_eq_some_iff.mp hmin).2 _ (mem_map_of_mem hc)).trans hcreated
  refine mem_filter.mpr ⟨mem_flatMap.mpr ⟨e, mem_filter.mpr ⟨he, ?_⟩, hxe⟩, ?_⟩
  · exact decide_eq_true ⟨not_mem_chosen h.ids he hexpired scope, by simp [hexpired], hearliest⟩
  · exact decide_eq_true (mem_flatMap.mpr ⟨c, hc, hx⟩)

theorem Sealed.restated {g' : KnowledgeGraph F V} {svc' : RecoveryService F V} (h : Sealed g svc x)
    (hrest : Restated (Moves svc .committed scope .undone) svc svc') (hmissing : g'.index.nodes[x]? = none) :
    Sealed g' svc' x := by
  obtain ⟨e, he, hexpired, hxe, hlatest⟩ := h.guard
  obtain ⟨e', he', rfl | ⟨s, ⟨⟨b, hb, hid⟩, -⟩, -⟩⟩ := hrest.actions.exists_mem_after he
  · refine ⟨hmissing, hrest.actions.map_actionId.symm ▸ h.ids, e', he', hexpired, hxe, fun c hc hcommitted hxc => ?_⟩
    obtain ⟨b, hb, rfl | ⟨s, ⟨-, rfl⟩, rfl⟩⟩ := hrest.actions.exists_mem hc
    · exact hlatest c hb hcommitted hxc
    · cases hcommitted
  · exact absurd (mem_map.mpr ⟨b, mem_newestFirst.mpr hb, hid⟩) (not_mem_chosen h.ids he hexpired scope)

theorem Sealed.undo (h : Sealed g svc x) (call : Call C) (turns : Nat → Turn C) (scope : UndoScope) :
    Sealed (svc.undo S C g call turns scope).2.2 (svc.undo S C g call turns scope).2.1 x := by
  refine h.restated (undo_restated S svc g call turns scope) (RestoreInvariant.undo (fun hconflicts =>
    restoreInvariant_untouched call fun c hc hx => ?_) turns h.missing)
  exact absurd (hconflicts ▸ h.conflict (mem_newestFirst.mpr hc) hx) not_mem_nil

def IsUndo : Recovery.Op F C → Prop
  | .undo _ _ _ => True
  | _ => False

theorem Sealed.run [F32 F] {w w' : World F V A} {ops : List (Recovery.Op F C)}
    (h : Sealed w.graph w.service x) (hops : ∀ op ∈ ops, IsUndo op)
    (hrun : runAll S R w ops = some w') : Sealed w'.graph w'.service x := by
  refine foldlM_invariant (fun op hop w _ h hexec => ?_) h hrun
  cases op with
  | undo call turns scope =>
    cases hexec
    exact h.undo call turns scope
  | _ => cases hops _ hop

end

/-! ## The end of the grace period -/

section
variable {F V A I : Type} {S : Serde F V} {C : Codec V} {R : AgentRuntime A I}

def startedBy (w : World F V A) (boundary : TrustBoundaryId) (a : ActionRecord) : Bool :=
  (w.started a.actionId).map (·.runner) = some boundary

/-- The action is a soft delete of the boundary that can still be undone and is old enough. -/
def lapses (w : World F V A) (boundary : TrustBoundaryId) (now gracePeriodSecs : Nat) (a : ActionRecord) :
    Bool :=
  due (startedBy w boundary) now gracePeriodSecs a

/-- In the world, the objects of the boundary's lapsed soft deletes are visible to it, no two of these
share an object, no younger action that can be undone touches one, and the lapsed soft deletes of others
each touch an object that is not visible to the boundary. -/
def Intact (w : World F V A) (boundary : TrustBoundaryId) (now gracePeriodSecs : Nat) : Prop :=
  (∀ a ∈ w.service.actions, lapses w boundary now gracePeriodSecs a = true →
    ∀ x ∈ a.objectsTouched, (w.graph.index.visibleNode boundary x).isSome = true) ∧
  (w.service.actions.Pairwise fun a b => lapses w boundary now gracePeriodSecs a = true →
    lapses w boundary now gracePeriodSecs b = true → ∀ x ∈ a.objectsTouched, x ∉ b.objectsTouched) ∧
  (∀ a ∈ w.service.actions, lapsed now gracePeriodSecs a = true → startedBy w boundary a = false →
    ∃ x ∈ a.objectsTouched, (w.graph.index.visibleNode boundary x).isNone = true) ∧
  ∀ a ∈ w.service.actions, lapses w boundary now gracePeriodSecs a = true →
    ∀ c ∈ w.service.actions, c.status = .committed → lapses w boundary now gracePeriodSecs c = false →
      (∃ x ∈ a.objectsTouched, x ∈ c.objectsTouched) → c.createdAt ≤ a.createdAt

instance (w : World F V A) (boundary : TrustBoundaryId) (now gracePeriodSecs : Nat) :
    Decidable (Intact w boundary now gracePeriodSecs) :=
  inferInstanceAs (Decidable (_ ∧ _ ∧ _ ∧ _))

variable (S C R) in
/-- The boundary's lapsed soft deletes have expired and all other actions are as they were. The objects of
the former can no longer be read, are not in the log and are not restored by any undos; the other objects
are as they were. -/
structure GraceEnded [F32 F] (w w' : World F V A) (boundary : TrustBoundaryId)
    (now gracePeriodSecs : Nat) : Prop where
  actions : w'.service.actions =
    restatusIf (lapses w boundary now gracePeriodSecs) .expired w.service.actions
  gone : ∀ a ∈ w.service.actions, lapses w boundary now gracePeriodSecs a = true →
    ∀ x ∈ a.objectsTouched, Unreadable S w'.graph x ∧ Without C x w'.graph.storage.file
  final : ∀ a ∈ w.service.actions, lapses w boundary now gracePeriodSecs a = true →
    ∀ x ∈ a.objectsTouched, ∀ (ops : List (Recovery.Op F C)) w'', (∀ op ∈ ops, IsUndo op) →
      runAll S R w' ops = some w'' → Unreadable S w''.graph x
  others : ∀ y, (∀ a ∈ w.service.actions, lapses w boundary now gracePeriodSecs a = true →
    y ∉ a.objectsTouched) → w'.graph.index.nodes[y]? = w.graph.index.nodes[y]?

variable {boundary : TrustBoundaryId} {now gracePeriodSecs : Nat}

theorem Intact.reaches {w : World F V A} (h : Intact w boundary now gracePeriodSecs) :
    Reaches w.graph boundary (startedBy w boundary) now gracePeriodSecs w.service.actions where
  visible := h.1
  disjoint := h.2.1.imp fun hab ha hb x hxa hxb => hab ha hb x hxa hxb
  foreign a ha hlapsed hmine := by
    obtain ⟨x, hx, hnone⟩ := h.2.2.1 a ha hlapsed hmine
    exact ⟨x, hx, isNone_iff_eq_none.mp hnone⟩

theorem sealed_of_expired {w w' : World F V A}
    (h : Intact w boundary now gracePeriodSecs) (hjournal : Journal w) (hactions : w'.service.actions =
      restatusIf (lapses w boundary now gracePeriodSecs) .expired w.service.actions) {a : ActionRecord}
    (ha : a ∈ w.service.actions) (hlapses : lapses w boundary now gracePeriodSecs a = true) {x : NodeId}
    (hx : x ∈ a.objectsTouched) (hmissing : w'.graph.index.nodes[x]? = none) :
    Sealed w'.graph w'.service x := by
  refine ⟨hmissing, ?_, { a with status := .expired }, ?_, rfl, hx, fun c hc hcommitted hxc => ?_⟩
  · rw [hactions, map_actionId_restatusIf]
    exact hjournal.ids
  · rw [hactions]
    exact mem_map.mpr ⟨a, ha, if_pos hlapses⟩
  · rw [hactions] at hc
    obtain ⟨b, hb, rfl⟩ := mem_map.mp hc
    cases hlapsesb : lapses w boundary now gracePeriodSecs b with
    | true =>
      rw [hlapsesb] at hcommitted
      cases hcommitted
    | false =>
      rw [hlapsesb] at hcommitted hxc
      exact h.2.2.2 a ha hlapses b hb hcommitted hlapsesb ⟨x, hx, hxc⟩

/-- **In a world that is intact, a sweep at the boundary's request ends its grace periods.** -/
theorem grace_periods_end [F32 F] {w : World F V A} (hhistory : History (C := C) S R w) {call : Call C}
    {turns : Nat → SweepTurn C} {now gracePeriodSecs : Nat} (hcalm : Calm C call turns)
    (hintact : Intact w call.token.origin now gracePeriodSecs) :
    GraceEnded S C R w (sweepIn S w call turns now gracePeriodSecs).2 call.token.origin now
      gracePeriodSecs := by
  have hjournal := hhistory.journal
  obtain ⟨hactions, hshreds⟩ := expireEach_spec (S := S) hcalm hjournal.ids (fun _ ha => ha)
    (.of_map _ hjournal.ids) hintact.reaches
  have hall : restatusIf (fun a => a ∈ w.service.actions ∧
      due (startedBy w call.token.origin) now gracePeriodSecs a) .expired w.service.actions =
      restatusIf (lapses w call.token.origin now gracePeriodSecs) .expired w.service.actions := by
    refine map_congr_left fun a ha => ?_
    simp only [ha, true_and, Bool.decide_eq_true]
    rfl
  have hswept : (sweepIn S w call turns now gracePeriodSecs).2 = { w with
      service := (expireEach S C call now gracePeriodSecs turns w.service.actions w.service w.graph).2.1
      graph := (expireEach S C call now gracePeriodSecs turns w.service.actions w.service w.graph).2.2 } := by
    rw [sweepIn, expireLapsedSoftDeletes, hcalm.sweep]
  generalize (sweepIn S w call turns now gracePeriodSecs).2 = w' at hswept ⊢
  replace hactions : w'.service.actions =
      restatusIf (lapses w call.token.origin now gracePeriodSecs) .expired w.service.actions := by
    rw [hswept]
    exact hactions.trans hall
  replace hshreds : Shreds C ((w.service.actions.filter
      (lapses w call.token.origin now gracePeriodSecs)).flatMap (·.objectsTouched)) w.graph w'.graph := by
    rw [hswept]
    exact hshreds
  have hpurged : ∀ a ∈ w.service.actions, lapses w call.token.origin now gracePeriodSecs a = true →
      ∀ x ∈ a.objectsTouched, Purged C w'.graph x := fun a ha hlapses x hx =>
    hshreds.purged x (mem_flatMap.mpr ⟨a, mem_filter.mpr ⟨ha, hlapses⟩, hx⟩)
  refine ⟨hactions, fun a ha hlapses x hx => ?_, fun a ha hlapses x hx ops w'' hops hrun => ?_,
    fun y hy => hshreds.others y fun hmem => ?_⟩
  · exact ⟨unreadable_of_missing (hpurged a ha hlapses x hx).node, (hpurged a ha hlapses x hx).log⟩
  · have hsealed := sealed_of_expired hintact hjournal hactions ha hlapses hx
      (hpurged a ha hlapses x hx).node
    exact unreadable_of_missing (hsealed.run hops hrun).missing
  · obtain ⟨a, ha, hya⟩ := mem_flatMap.mp hmem
    obtain ⟨ha, hlapses⟩ := mem_filter.mp ha
    exact hy a ha hlapses hya

end

/-! ## Notes whose grace period is over -/

def calmSweep : Nat → SweepTurn jsonSerde.plain := fun _ => ⟨fun _ => 0, calmObjects⟩

theorem calm_calmSweep : Calm jsonSerde.plain keeper calmSweep := by
  have hcompletes : Completes keeper keeper.toReadings := ⟨by decide +kernel, by decide +kernel, rfl⟩
  have hread : Graph.require ⟨keeper.monitor, keeper.token, 0⟩ .read = .ok () := by decide +kernel
  exact ⟨by decide +kernel, fun _ _ => hread, fun _ _ => hcompletes, fun _ _ => hcompletes⟩

variable (w : World Int Json Unit)

def sweepNotes : Except PrivacyError (List ActionId) × World Int Json Unit :=
  sweepIn jsonRecord w keeper calmSweep 100 10

def softDeleteNotes : World Int Json Unit :=
  (eraseIn jsonRecord w erasedJson keeper calmErase [0, 1] .softDelete 5).2

def shredSecond : World Int Json Unit :=
  (eraseIn jsonRecord w erasedJson keeper calmErase [1] .cryptoShred 6).2

def twoNotes : List (Recovery.Op Int jsonSerde.plain) :=
  [writeNote none "secret", writeNote none "other"]

theorem history_twoNotes {w : World Int Json Unit}
    (hrun : runAll jsonRecord noAgents (.empty ()) twoNotes = some w) :
    History (C := jsonSerde.plain) jsonRecord noAgents w := by
  rw [twoNotes, runAll_cons] at hrun
  obtain ⟨w₁, hw₁, hrun⟩ := bind_eq_some_iff.mp hrun
  rw [runAll_cons] at hrun
  obtain ⟨w₂, hw₂, hrun⟩ := bind_eq_some_iff.mp hrun
  cases hrun
  exact .exec _ (.exec _ (.start ()) hw₁) hw₂

/-- The actions and which of them have lapsed, what the sweep returns, the statuses then, and how the first
note reads after the first action is undone. -/
structure SweptNotes where
  before : List (List NodeId × ActionStatus × Bool)
  result : Option (List ActionId)
  after : List ActionStatus
  undone : Option (Option String)
deriving DecidableEq

def sweptNotes : SweptNotes where
  before := w.service.actions.map fun a => (a.objectsTouched, a.status, lapses w 7 100 10 a)
  result := (sweepNotes w).1.toOption
  after := (sweepNotes w).2.service.actions.map (·.status)
  undone := (runAll jsonRecord noAgents (sweepNotes w).2 [.undo keeper steady (.singleAction 1)]).map
    fun w' => readNote w'.graph

theorem grace_periods_end_notes : ∃ w : World Int Json Unit,
    w.service.actions.map (lapses w 7 100 10) = [true] ∧
      GraceEnded jsonRecord jsonSerde.plain noAgents w (sweepNotes w).2 7 100 10 := by
  have hrun : (runAll jsonRecord noAgents (.empty ()) twoNotes).map (fun w =>
      ((softDeleteNotes w).service.actions.map (lapses (softDeleteNotes w) 7 100 10),
        decide (Intact (softDeleteNotes w) 7 100 10))) = some ([true], true) := by
    decide +kernel
  obtain ⟨w, hw, hview⟩ := map_eq_some_iff.mp hrun
  simp only [Prod.mk.injEq] at hview
  exact ⟨softDeleteNotes w, hview.1, grace_periods_end
    (.erase erasedJson keeper calmErase [0, 1] .softDelete 5 (history_twoNotes hw)) calm_calmSweep
    (of_decide_eq_true hview.2)⟩

/-- **A soft delete of two notes of which one was shredded since is passed over by the sweep: it can still be
undone, which brings the other note back.** -/
theorem sweep_passes_over : ∃ w w' : World Int Json Unit,
    History (C := jsonSerde.plain) jsonRecord noAgents w ∧
      w.service.actions.map (fun a => (a.objectsTouched, a.status, lapses w 7 100 10 a)) =
        [([0, 1], .committed, true)] ∧
      (sweepNotes w).1.toOption = some [] ∧
      (sweepNotes w).2.service.actions.map (·.status) = [.committed] ∧
      runAll jsonRecord noAgents (sweepNotes w).2 [.undo keeper steady (.singleAction 1)] = some w' ∧
      readNote w'.graph = some "secret" ∧
      ¬ GraceEnded jsonRecord jsonSerde.plain noAgents w (sweepNotes w).2 7 100 10 := by
  have hrun : (runAll jsonRecord noAgents (.empty ()) twoNotes).map (fun w =>
      sweptNotes (shredSecond (softDeleteNotes w))) =
      some ⟨[([0, 1], .committed, true)], some [], [.committed], some (some "secret")⟩ := by
    decide +kernel
  obtain ⟨w, hw, hview⟩ := map_eq_some_iff.mp hrun
  simp only [sweptNotes, SweptNotes.mk.injEq] at hview
  obtain ⟨hbefore, hnone, hafter, hundone⟩ := hview
  have hhistory : History (C := jsonSerde.plain) jsonRecord noAgents (shredSecond (softDeleteNotes w)) :=
    .erase erasedJson keeper calmErase [1] .cryptoShred 6
      (.erase erasedJson keeper calmErase [0, 1] .softDelete 5 (history_twoNotes hw))
  generalize shredSecond (softDeleteNotes w) = v at hbefore hnone hafter hundone hhistory
  obtain ⟨w', hw', hread⟩ := map_eq_some_iff.mp hundone
  refine ⟨v, w', hhistory, hbefore, hnone, hafter, hw', hread, fun hended => ?_⟩
  obtain ⟨a, ha, hview⟩ := mem_map.mp (hbefore ▸ mem_singleton_self _)
  simp only [Prod.mk.injEq] at hview
  have hgone := hended.final a ha hview.2.2 0 (hview.1 ▸ mem_cons_self)
    [.undo keeper steady (.singleAction 1)] w' (by simp [IsUndo]) hw'
  exact not_unreadable hread hgone

end Hyperion.Privacy
