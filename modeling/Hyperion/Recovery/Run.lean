import Hyperion.Lib.Run
import Hyperion.Graph.Run
import Hyperion.Recovery.Service

/-!
# Histories of the recovery service

A `World` is a graph, the recovery service over it and an agent runtime. Anybody may change the graph
between the calls of the service. Beside them a world keeps for every action what the graph was when
the action was started, which boundary ran it, and whether its recovery point existed then.
-/

namespace Hyperion.Recovery
open Lib Capability Storage Hyperion.Graph List RecoveryService Option

/-- The start of an action: the boundary that runs it, the graph, and whether the recovery point that
the action names has a snapshot. -/
structure Started (F V : Type) where
  runner : TrustBoundaryId
  graph : KnowledgeGraph F V
  anchored : Bool

structure World (F V A : Type) where
  graph : KnowledgeGraph F V
  service : RecoveryService F V
  agents : A
  started : ActionId → Option (Started F V)

inductive Op (F : Type) {V : Type} (C : Codec V)
  | graph (op : Graph.Op F C)
  | recoveryPointCreate (caller : Caller) (reads : Nat → Instant) (trigger : Trigger)
      (objectsAboutToTouch : List NodeId) (now : Nat)
  | recordActionStarted (runner : TrustBoundaryId) (recoveryPointBefore : RecoveryPointId)
      (objectsTouched : List NodeId) (agentRunId sessionId : Option Nat) (goalId : Option NodeId)
      (note : String) (now : Nat)
  | recordActionCommitted (id : ActionId)
  | recordActionAborted (id : ActionId)
  | expire (id : ActionId)
  | undo (call : Call C) (turns : Nat → Turn C) (scope : UndoScope)
  | redo (call : Call C) (turns : Nat → Turn C) (scope : UndoScope)
  | pin (caller : Caller) (id : RecoveryPointId)
  | unpin (caller : Caller) (id : RecoveryPointId)
  | compact (now retentionSecs : Nat)
  | restoreTo (call : Call C) (writes : Nat → Readings C) (id : RecoveryPointId)
  | recoverFromCrash (call : Call C) (turns : Nat → Turn C)

section
variable {F V A I : Type} {C : Codec V} (S : Serde F V) (R : AgentRuntime A I)

def World.empty (agents : A) : World F V A := ⟨.empty, .new, agents, fun _ => none⟩

/-- The world after an operation; only reopening the graph may fail. -/
def Op.exec [F32 F] (w : World F V A) : Op F C → Option (World F V A)
  | .graph op => (op.exec S w.graph).map fun g => { w with graph := g }
  | .recoveryPointCreate caller reads trigger objects now =>
    some { w with service := (w.service.recoveryPointCreate w.graph caller reads trigger objects now).2 }
  | .recordActionStarted runner point objects agentRunId sessionId goalId note now =>
    some { w with
      service := (w.service.recordActionStartedWithScope point objects agentRunId sessionId goalId note
        now).2
      started := Function.update w.started w.service.nextActionId
        (some ⟨runner, w.graph, w.service.snapshots[point]?.isSome⟩) }
  | .recordActionCommitted id => some { w with service := (w.service.recordActionCommitted id).2 }
  | .recordActionAborted id => some { w with service := (w.service.recordActionAborted id).2 }
  | .expire id => some { w with service := (w.service.expire id).2 }
  | .undo call turns scope =>
    let (_, service, g) := w.service.undo S C w.graph call turns scope
    some { w with service := service, graph := g }
  | .redo call turns scope =>
    let (_, service, g) := w.service.redo S C w.graph call turns scope
    some { w with service := service, graph := g }
  | .pin caller id => some { w with service := (w.service.pin caller id).2 }
  | .unpin caller id => some { w with service := (w.service.unpin caller id).2 }
  | .compact now retentionSecs => some { w with service := (w.service.compact now retentionSecs).2 }
  | .restoreTo call writes id =>
    some { w with graph := (w.service.restoreTo S C w.graph call writes id).2 }
  | .recoverFromCrash call turns =>
    let (_, service, g, agents) := w.service.recoverFromCrash S C R w.graph w.agents call turns
    some { w with service := service, graph := g, agents := agents }

def Reached [F32 F] (ok : World F V A → Op F C → Prop) (agents : A) : World F V A → Prop :=
  Relation.ReflTransGen (fun w w' => ∃ op, ok w op ∧ op.exec S R w = some w') (.empty agents)

def runAll [F32 F] (w : World F V A) (ops : List (Op F C)) : Option (World F V A) :=
  ops.foldlM (fun w op => op.exec S R w) w

theorem runAll_cons [F32 F] (w : World F V A) (op : Op F C) (ops : List (Op F C)) :
    runAll S R w (op :: ops) = (op.exec S R w).bind fun mid => runAll S R mid ops := rfl

theorem runAll_append [F32 F] (w : World F V A) (ops ops' : List (Op F C)) :
    runAll S R w (ops ++ ops') = (runAll S R w ops).bind fun mid => runAll S R mid ops' :=
  foldlM_append

variable {g : KnowledgeGraph F V} {ok : World F V A → Op F C → Prop} {w w' : World F V A}
  {as : List ActionRecord} {a : ActionRecord} {caller : Caller} {id : NodeId} {op : Op F C}

theorem Reached.runAll [F32 F] {agents : A}
    {ops : List (Op F C)} (h : Reached S R ok agents w) (hok : ∀ op ∈ ops, ∀ w, ok w op)
    (hrun : runAll S R w ops = some w') : Reached S R ok agents w' :=
  foldlM_invariant (fun op hop w _ h hexec => h.tail ⟨op, hok op hop w, hexec⟩) h hrun

/-- Every operation of the list is allowed when it is its turn. -/
def Allowed [F32 F] (ok : World F V A → Op F C → Prop) (w : World F V A) : List (Op F C) → Prop
  | [] => True
  | op :: ops => ok w op ∧ ∀ w' ∈ op.exec S R w, Allowed ok w' ops

instance decidableAllowed [F32 F] [∀ w op, Decidable (ok w op)] (w : World F V A) :
    ∀ ops, Decidable (Allowed S R ok w ops)
  | [] => inferInstanceAs (Decidable True)
  | _ :: ops =>
    have (w' : World F V A) := decidableAllowed w' ops
    inferInstanceAs (Decidable (_ ∧ ∀ w' ∈ _, _))

theorem Reached.allowed [F32 F] {agents : A} {ops : List (Op F C)} (h : Reached S R ok agents w)
    (hok : Allowed S R ok w ops) (hrun : Recovery.runAll S R w ops = some w') : Reached S R ok agents w' := by
  induction ops generalizing w with
  | nil =>
    cases hrun
    exact h
  | cons op ops ih =>
    rw [runAll_cons] at hrun
    obtain ⟨mid, hmid, hrun⟩ := bind_eq_some_iff.mp hrun
    exact ih (h.tail ⟨op, hok.1, hmid⟩) (hok.2 mid hmid) hrun

theorem mem_newestFirst :
    a ∈ newestFirst as ↔ a ∈ as :=
  mem_insertionSort _

theorem mem_oldestFirst :
    a ∈ oldestFirst as ↔ a ∈ as :=
  mem_insertionSort _

/-! ## Changes of status -/

/-- The journals differ in statuses only, and only as `ok` says. -/
def Restatus (ok : ActionRecord → ActionStatus → Prop) : List ActionRecord → List ActionRecord → Prop :=
  List.Forall₂ fun a a' => a' = a ∨ ∃ s, ok a s ∧ a' = { a with status := s }

section
variable {ok ok' : ActionRecord → ActionStatus → Prop} {as as' as'' : List ActionRecord}

theorem Restatus.refl (as : List ActionRecord) : Restatus ok as as :=
  forall₂_same.mpr fun _ _ => .inl rfl

theorem Restatus.mono (h : Restatus ok as as') (himp : ∀ a s, ok a s → ok' a s) : Restatus ok' as as' :=
  List.Forall₂.imp (fun _ _ hor => hor.imp_right fun ⟨s, hs, heq⟩ => ⟨s, himp _ s hs, heq⟩) h

theorem Restatus.trans (h : Restatus ok as as') (h' : Restatus ok as' as'')
    (hok : ∀ a s t, ok { a with status := s } t → ok a t) : Restatus ok as as'' := by
  induction h generalizing as'' with
  | nil => exact h'
  | cons hab _ ih =>
    cases h' with
    | cons hbc hrest =>
      refine .cons ?_ (ih hrest)
      rcases hab with rfl | ⟨s, hs, rfl⟩
      · exact hbc
      · rcases hbc with rfl | ⟨t, ht, rfl⟩
        · exact .inr ⟨s, hs, rfl⟩
        · exact .inr ⟨t, hok _ s t ht, rfl⟩

theorem Restatus.map_actionId (h : Restatus ok as as') : as'.map (·.actionId) = as.map (·.actionId) := by
  induction h with
  | nil => rfl
  | cons hab _ ih =>
    rcases hab with rfl | ⟨s, -, rfl⟩
    · rw [map_cons, map_cons, ih]
    · rw [map_cons, map_cons, ih]

theorem exists_mem_of_forall₂ {α β : Type} {P : α → β → Prop} {as : List α} {bs : List β} (h : Forall₂ P as bs)
    {b : β} (hb : b ∈ bs) : ∃ a ∈ as, P a b := by
  induction h with
  | nil => exact absurd hb not_mem_nil
  | cons hab _ ih =>
    rcases mem_cons.mp hb with rfl | hb
    · exact ⟨_, mem_cons_self, hab⟩
    · obtain ⟨a, ha, hrest⟩ := ih hb
      exact ⟨a, mem_cons_of_mem _ ha, hrest⟩

theorem Restatus.exists_mem (h : Restatus ok as as') {a' : ActionRecord} (ha' : a' ∈ as') :
    ∃ a ∈ as, a' = a ∨ ∃ s, ok a s ∧ a' = { a with status := s } := exists_mem_of_forall₂ h ha'

theorem Restatus.exists_mem_after (h : Restatus ok as as') {a : ActionRecord} (ha : a ∈ as) :
    ∃ a' ∈ as', a' = a ∨ ∃ s, ok a s ∧ a' = { a with status := s } := exists_mem_of_forall₂ (Forall₂.flip h) ha

theorem restatus_setFirst {id : ActionId} {status : ActionStatus} (h : setFirst id status as = some as') :
    Restatus (fun a s => a.actionId = id ∧ s = status) as as' := by
  induction as generalizing as' with
  | nil => exact nomatch h
  | cons a as ih =>
    unfold setFirst at h
    split at h
    · next hid =>
      obtain rfl := some.inj h
      exact .cons (.inr ⟨status, ⟨hid, rfl⟩, rfl⟩) (Restatus.refl as)
    · obtain ⟨rest, hrest, rfl⟩ := Option.map_eq_some_iff.mp h
      exact .cons (.inl rfl) (ih hrest)

theorem restatus_mark (ids : List ActionId) (status : ActionStatus) (as : List ActionRecord) :
    Restatus (fun a s => a.actionId ∈ ids ∧ s = status) as
      (as.map fun a => if a.actionId ∈ ids then { a with status := status } else a) := by
  induction as with
  | nil => exact .nil
  | cons a as ih =>
    refine .cons ?_ ih
    by_cases hmem : a.actionId ∈ ids
    · exact .inr ⟨status, ⟨hmem, rfl⟩, if_pos hmem⟩
    · exact .inl (if_neg hmem)

end

/-- A service that differs in the statuses of its actions and in what neither points nor snapshots
depend on. -/
structure Restated (ok : ActionRecord → ActionStatus → Prop) (svc svc' : RecoveryService F V) : Prop where
  snapshots : svc'.snapshots = svc.snapshots
  nextPointId : svc'.nextPointId = svc.nextPointId
  nextActionId : svc'.nextActionId = svc.nextActionId
  actions : Restatus ok svc.actions svc'.actions

section
variable {svc svc' svc'' : RecoveryService F V} {ok ok' : ActionRecord → ActionStatus → Prop}

theorem Restated.refl (svc : RecoveryService F V) : Restated ok svc svc := ⟨rfl, rfl, rfl, .refl _⟩

theorem Restated.mono (h : Restated ok svc svc') (himp : ∀ a s, ok a s → ok' a s) : Restated ok' svc svc' :=
  { h with actions := h.actions.mono himp }

theorem Restated.trans (h : Restated ok svc svc') (h' : Restated ok svc' svc'')
    (hok : ∀ a s t, ok { a with status := s } t → ok a t) : Restated ok svc svc'' :=
  ⟨h'.snapshots.trans h.snapshots, h'.nextPointId.trans h.nextPointId,
    h'.nextActionId.trans h.nextActionId, h.actions.trans h'.actions hok⟩

theorem setStatus_restated (svc : RecoveryService F V) (id : ActionId) (status : ActionStatus) :
    Restated (fun a s => a.actionId = id ∧ s = status) svc (svc.setStatus id status).2 := by
  unfold setStatus
  split
  · exact .refl svc
  · next hset => exact ⟨rfl, rfl, rfl, restatus_setFirst hset⟩

theorem expire_restated (svc : RecoveryService F V) (id : ActionId) :
    Restated (fun _ s => s = .expired) svc (svc.expire id).2 := by
  unfold expire
  split
  · exact .refl svc
  · split
    · exact .refl svc
    · exact (setStatus_restated svc id .expired).mono fun _ _ h => h.2

theorem setPinned_restated (svc : RecoveryService F V) (caller : Caller) (id : RecoveryPointId)
    (pinned : Bool) : Restated ok svc (svc.setPinned caller id pinned).2 := by
  unfold setPinned
  split
  · exact .refl svc
  · split
    · exact .refl svc
    · exact ⟨rfl, rfl, rfl, .refl _⟩

end

/-! ## Invariants of restoring -/

/-- `P` survives the steps of which a call that restores the actions consists: to apply a snapshot to the
objects of one, to keep a snapshot of them for a redo, and to give statuses as `ok` says. -/
structure RestoreInvariant (S : Serde F V) (call : Call C) (records : List ActionRecord)
    (ok : ActionRecord → ActionStatus → Prop) (P : RecoveryService F V → KnowledgeGraph F V → Prop) : Prop where
  apply : ∀ svc g (writes : Nat → Readings C) snapshot, ∀ a ∈ records,
    svc.snapshots[a.recoveryPointBefore]? = some snapshot ∨ svc.redoSnapshots[a.actionId]? = some snapshot →
    P svc g → P svc (applySnapshot S C call a.objectsTouched writes snapshot g).2
  capture : ∀ svc g (reads : Nat → Instant) snapshot, ∀ a ∈ records,
    snapshotObjects g call.monitor call.token reads a.objectsTouched = .ok snapshot → P svc g →
    P { svc with redoSnapshots := svc.redoSnapshots.insert a.actionId snapshot } g
  journal : ∀ svc g actions, Restatus ok svc.actions actions → P svc g → P { svc with actions := actions } g

/-- The actions of the status in the scope get another one. -/
def Moves (svc : RecoveryService F V) (status : ActionStatus) (scope : UndoScope) (status' : ActionStatus)
    (a : ActionRecord) (s : ActionStatus) : Prop :=
  (∃ b ∈ svc.selected status scope, b.actionId = a.actionId) ∧ s = status'

namespace RestoreInvariant
variable {S R} {records : List ActionRecord} {call : Call C} {P : RecoveryService F V → KnowledgeGraph F V → Prop}
  {svc : RecoveryService F V} {g : KnowledgeGraph F V} {ok : ActionRecord → ActionStatus → Prop}

section
variable (K : RestoreInvariant S call records ok P) {l : List ActionRecord} (hl : ∀ a ∈ l, a ∈ records)
include K

theorem restoreObjects (writes : Nat → Readings C) {a : ActionRecord} (ha : a ∈ records) (h : P svc g) :
    P svc (svc.restoreObjects S C g call writes a.recoveryPointBefore a.objectsTouched).2 := by
  unfold RecoveryService.restoreObjects
  split
  · exact h
  · next hsnapshot => exact K.apply _ _ _ _ a ha (.inl hsnapshot) h

include hl

theorem restoreEach (turns : Nat → Turn C) (h : P svc g) :
    P svc (svc.restoreEach S C call turns l g).2 := by
  induction l generalizing turns g with
  | nil => exact h
  | cons a l ih =>
    have hone := K.restoreObjects (turns 0).writes (hl a mem_cons_self) h
    unfold restoreEach
    split
    · next hres =>
      rw [hres] at hone
      exact hone
    · next hres =>
      rw [hres] at hone
      exact ih (fun b hb => hl b (mem_cons_of_mem _ hb)) _ hone

theorem reapplyEach (turns : Nat → Turn C) (h : P svc g) :
    P svc (svc.reapplyEach S C call turns l g).2 := by
  induction l generalizing turns g with
  | nil => exact h
  | cons a l ih =>
    unfold reapplyEach
    split
    · exact h
    · next hsnapshot =>
      have hone := K.apply _ _ (turns 0).writes _ a (hl a mem_cons_self) (.inr hsnapshot) h
      split
      · next hres =>
        rw [hres] at hone
        exact hone
      · next hres =>
        rw [hres] at hone
        exact ih (fun b hb => hl b (mem_cons_of_mem _ hb)) _ hone

theorem captureEach (turns : Nat → Turn C) (h : P svc g) :
    P (captureEach C g call.monitor call.token turns l svc).2 g := by
  induction l generalizing turns svc with
  | nil => exact h
  | cons a l ih =>
    unfold captureEach
    split
    · exact h
    · next hsnapshot =>
      exact ih (fun b hb => hl b (mem_cons_of_mem _ hb)) _
        (K.capture _ _ _ _ a (hl a mem_cons_self) hsnapshot h)

end

theorem abort (K : RestoreInvariant S call records (fun _ s => s = .aborted) P) (id : ActionId) (h : P svc g) :
    P (svc.recordActionAborted id).2 g := by
  unfold recordActionAborted RecoveryService.setStatus
  split
  · exact h
  · next hset => exact K.journal _ _ _ ((restatus_setFirst hset).mono fun _ _ hs => hs.2) h

theorem recoverEach (K : RestoreInvariant S call records (fun _ s => s = .aborted) P) {l : List ActionRecord}
    (hl : ∀ a ∈ l, a ∈ records) (turns : Nat → Turn C) (agents : A) (h : P svc g) :
    P (svc.recoverEach S C R call turns l g agents).2.1
      (svc.recoverEach S C R call turns l g agents).2.2.1 := by
  induction l generalizing turns svc g agents with
  | nil => exact h
  | cons a l ih =>
    have hone := K.restoreObjects (turns 0).writes (hl a mem_cons_self) h
    unfold recoverEach
    split
    · next hres =>
      rw [hres] at hone
      exact hone
    · next hres =>
      rw [hres] at hone
      have habort := K.abort a.actionId hone
      split
      · exact hone
      · split
        · next hstatus =>
          rw [hstatus] at habort
          exact habort
        · next hstatus =>
          rw [hstatus] at habort
          exact ih (fun b hb => hl b (mem_cons_of_mem _ hb)) _ _ habort

variable {scope : UndoScope}

theorem mark {status status' : ActionStatus} {l : List ActionRecord} (hl : ∀ a ∈ l, a ∈ svc.selected status scope)
    {svc₁ : RecoveryService F V} (K : RestoreInvariant S call records (Moves svc status scope status') P)
    (h : P svc₁ g) : P (svc₁.mark (l.map (·.actionId)) status') g := by
  refine K.journal _ _ _ ((restatus_mark _ status' svc₁.actions).mono fun a s ⟨hmem, hs⟩ => ⟨?_, hs⟩) h
  obtain ⟨b, hb, hid⟩ := mem_map.mp hmem
  exact ⟨b, hl b hb, hid⟩

theorem undo (K : svc.conflicts (fun s => s ≠ .aborted ∧ s ≠ .undone) (newestFirst (svc.selected .committed scope)) =
      [] → RestoreInvariant S call (svc.selected .committed scope) (Moves svc .committed scope .undone) P)
    (turns : Nat → Turn C) (h : P svc g) :
    P (svc.undo S C g call turns scope).2.1 (svc.undo S C g call turns scope).2.2 := by
  unfold RecoveryService.undo
  split
  · exact h
  · dsimp only
    split
    · exact h
    · split
      · exact h
      · next hconflicts =>
        have K := K (by simpa using hconflicts)
        have hcapture := K.captureEach (fun _ => mem_newestFirst.mp) turns h
        split
        · next hres =>
          rw [hres] at hcapture
          exact hcapture
        · next hres =>
          rw [hres] at hcapture
          have hrestore := K.restoreEach (fun _ => mem_newestFirst.mp) turns hcapture
          split
          · next hgraph =>
            rw [hgraph] at hrestore
            exact hrestore
          · next hgraph =>
            rw [hgraph] at hrestore
            exact K.mark (fun _ => mem_newestFirst.mp) hrestore

theorem redo (K : RestoreInvariant S call (svc.selected .undone scope) (Moves svc .undone scope .committed) P)
    (turns : Nat → Turn C) (h : P svc g) :
    P (svc.redo S C g call turns scope).2.1 (svc.redo S C g call turns scope).2.2 := by
  unfold RecoveryService.redo
  split
  · exact h
  · dsimp only
    split
    · exact h
    · split
      · exact h
      · have hreapply := K.reapplyEach (fun _ => mem_oldestFirst.mp) turns h
        split
        · next hgraph =>
          rw [hgraph] at hreapply
          exact hreapply
        · next hgraph =>
          rw [hgraph] at hreapply
          exact K.mark (fun _ => mem_oldestFirst.mp) hreapply

/-- What restoring does to the service itself. -/
theorem restated (svc : RecoveryService F V) (hok : ∀ a s t, ok { a with status := s } t → ok a t) :
    RestoreInvariant S call records ok fun svc' _ => Restated ok svc svc' where
  apply _ _ _ _ _ _ _ h := h
  capture _ _ _ _ _ _ _ h := { h with }
  journal _ _ _ hstatus h := h.trans ⟨rfl, rfl, rfl, hstatus⟩ hok

end RestoreInvariant

section
variable (svc : RecoveryService F V) (g : KnowledgeGraph F V) (call : Call C) (turns : Nat → Turn C)

include S in
theorem captureEach_restated (records : List ActionRecord) :
    Restated (fun _ _ => False) svc (captureEach C g call.monitor call.token turns records svc).2 :=
  (RestoreInvariant.restated (S := S) svc fun _ _ _ h => h).captureEach (fun _ ha => ha) turns (.refl svc)

theorem undo_restated (scope : UndoScope) :
    Restated (Moves svc .committed scope .undone) svc (svc.undo S C g call turns scope).2.1 :=
  RestoreInvariant.undo (fun _ => .restated svc fun _ _ _ h => h) turns (.refl svc)

theorem redo_restated (scope : UndoScope) :
    Restated (Moves svc .undone scope .committed) svc (svc.redo S C g call turns scope).2.1 :=
  RestoreInvariant.redo (.restated svc fun _ _ _ h => h) turns (.refl svc)

theorem recoverEach_restated (records : List ActionRecord) (agents : A) :
    Restated (fun _ s => s = .aborted) svc (recoverEach S C R call turns records svc g agents).2.1 :=
  RestoreInvariant.recoverEach (.restated svc fun _ _ _ h => h) (fun _ ha => ha) turns agents (.refl svc)

end

/-! ## What the operations do -/

theorem get_eq_ok {n : NodeRecord F V}
    (h : g.get caller id = .ok n) : g.index.visibleNode caller.token.origin id = some n := by
  simp only [KnowledgeGraph.get, bind, Except.bind] at h
  split at h
  · exact nomatch h
  · split at h
    · next hnode =>
      obtain rfl := Except.ok.inj h
      exact hnode
    · exact nomatch h

theorem get_eq_notFound
    (h : g.get caller id = .error .notFound) : g.index.visibleNode caller.token.origin id = none := by
  simp only [KnowledgeGraph.get, bind, Except.bind] at h
  split at h
  · next err hreq =>
    obtain rfl := Except.error.inj h
    unfold Graph.require at hreq
    split at hreq
    · exact nomatch hreq
    · exact nomatch hreq
  · split at h
    · exact nomatch h
    · next hnode => exact hnode

theorem snapshotObjects_eq {monitor : CapabilityMonitor} {token : CapabilityToken}
    {reads : Nat → Instant} {ids : List NodeId} {snapshot : Snapshot F V}
    (h : snapshotObjects g monitor token reads ids = .ok snapshot) :
    snapshot = ids.map fun id => (id, g.index.visibleNode token.origin id) := by
  induction ids generalizing reads snapshot with
  | nil => exact (Except.ok.inj h).symm
  | cons id ids ih =>
    have hrest : ∀ state : Option (NodeRecord F V), g.index.visibleNode token.origin id = state →
        (snapshotObjects g monitor token (fun i => reads (i + 1)) ids).map ((id, state) :: ·) =
          .ok snapshot →
        snapshot = (id :: ids).map fun id => (id, g.index.visibleNode token.origin id) := by
      intro state hstate hmap
      cases htail : snapshotObjects g monitor token (fun i => reads (i + 1)) ids with
      | error err => exact nomatch htail ▸ hmap
      | ok tail =>
        rw [htail] at hmap
        obtain rfl := Except.ok.inj hmap
        rw [map_cons, hstate, ih htail]
    unfold snapshotObjects at h
    split at h
    · next record hget => exact hrest _ (get_eq_ok hget) h
    · next hget => exact hrest _ (get_eq_notFound hget) h
    · exact nomatch h

/-- Which statuses an operation may give to which actions. -/
def Op.Changes (svc : RecoveryService F V) : Op F C → ActionRecord → ActionStatus → Prop
  | .recordActionCommitted id, a, s => a.actionId = id ∧ s = .committed
  | .redo _ _ scope, a, s => Moves svc .undone scope .committed a s
  | .recordActionAborted _, _, s | .recoverFromCrash _ _, _, s => s = .aborted
  | .expire _, _, s => s = .expired
  | .undo _ _ _, _, s => s = .undone
  | _, _, _ => False

/-- Everything an operation can do to the service and to the record of starts. -/
inductive Effect (w : World F V A) : Op F C → World F V A → Prop
  | restated {op : Op F C} {w' : World F V A} (h : Restated (op.Changes w.service) w.service w'.service)
      (hstarted : w'.started = w.started) : Effect w op w'
  | created {caller : Caller} {reads : Nat → Instant} {trigger : Trigger} {objects : List NodeId}
      {now : Nat} : Effect w (.recoveryPointCreate caller reads trigger objects now) { w with
        service := { w.service with
          nextPointId := w.service.nextPointId + 1
          points := w.service.points.insert w.service.nextPointId
            ⟨w.service.nextPointId, now, trigger, false⟩
          snapshots := w.service.snapshots.insert w.service.nextPointId
            (objects.map fun x => (x, w.graph.index.visibleNode caller.token.origin x)) } }
  | started {runner : TrustBoundaryId} {point : RecoveryPointId} {objects : List NodeId}
      {agentRunId sessionId : Option Nat} {goalId : Option NodeId} {note : String} {now : Nat} :
      Effect w (.recordActionStarted runner point objects agentRunId sessionId goalId note now) { w with
        service := { w.service with
          nextActionId := w.service.nextActionId + 1
          actions := w.service.actions ++ [⟨w.service.nextActionId, agentRunId, sessionId, goalId, point,
            objects, .inFlight, now, note⟩] }
        started := Function.update w.started w.service.nextActionId
          (some ⟨runner, w.graph, w.service.snapshots[point]?.isSome⟩) }
  | compacted {now retentionSecs : Nat} : Effect w (.compact now retentionSecs) { w with
      service := (w.service.compact now retentionSecs).2 }

theorem exec_effect [F32 F] (h : op.exec S R w = some w') :
    Effect w op w' := by
  cases op with
  | graph op =>
    obtain ⟨g, -, rfl⟩ := Option.map_eq_some_iff.mp h
    exact .restated (.refl _) rfl
  | recoveryPointCreate caller reads trigger objects now =>
    obtain rfl := some.inj h
    unfold recoveryPointCreate
    split
    · exact .restated (.refl _) rfl
    · split
      · exact .restated (.refl _) rfl
      · next snapshot hsnap =>
        rw [snapshotObjects_eq hsnap]
        exact .created
  | recordActionStarted runner point objects agentRunId sessionId goalId note now =>
    obtain rfl := some.inj h
    exact .started
  | recordActionCommitted id =>
    obtain rfl := some.inj h
    exact .restated (setStatus_restated _ id .committed) rfl
  | recordActionAborted id =>
    obtain rfl := some.inj h
    exact .restated ((setStatus_restated _ id .aborted).mono fun _ _ h => h.2) rfl
  | expire id =>
    obtain rfl := some.inj h
    exact .restated (expire_restated _ id) rfl
  | undo call turns scope =>
    obtain rfl := some.inj h
    exact .restated ((undo_restated S _ _ call turns scope).mono fun _ _ h => h.2) rfl
  | redo call turns scope =>
    obtain rfl := some.inj h
    exact .restated (redo_restated S _ _ call turns scope) rfl
  | pin caller id =>
    obtain rfl := some.inj h
    exact .restated (setPinned_restated _ caller id true) rfl
  | unpin caller id =>
    obtain rfl := some.inj h
    exact .restated (setPinned_restated _ caller id false) rfl
  | compact now retentionSecs =>
    obtain rfl := some.inj h
    exact .compacted
  | restoreTo call writes id =>
    obtain rfl := some.inj h
    exact .restated (.refl _) rfl
  | recoverFromCrash call turns =>
    obtain rfl := some.inj h
    exact .restated (recoverEach_restated S R _ _ call turns _ _) rfl

/-! ## What holds in every history -/

/-- Actions and recovery points have ids of their own, and a snapshot has one state for each object. -/
structure Journal (w : World F V A) : Prop where
  ids : (w.service.actions.map (·.actionId)).Nodup
  bounded : ∀ a ∈ w.service.actions, a.actionId < w.service.nextActionId
  keys : ∀ (k : RecoveryPointId) snapshot, w.service.snapshots[k]? = some snapshot → k < w.service.nextPointId

theorem journal_empty (agents : A) : Journal (World.empty agents : World F V A) where
  ids := .nil
  bounded := fun _ h => absurd h not_mem_nil
  keys := fun k snapshot h => by simp [World.empty, new] at h

theorem snapshots_compact (svc : RecoveryService F V) (now retentionSecs : Nat) (k : RecoveryPointId) :
    (svc.compact now retentionSecs).2.snapshots[k]? =
      if k ∈ svc.toEvict now retentionSecs then none else svc.snapshots[k]? :=
  HashMap.get_eraseAll _ _ _

theorem Journal.effect (h : Journal w) (heffect : Effect w op w') :
    Journal w' := by
  cases heffect with
  | restated hrest _ =>
    have hids := hrest.actions.map_actionId
    refine ⟨hids.symm ▸ h.ids, fun a' ha' => ?_, fun k snapshot hk => ?_⟩
    · have hmem : a'.actionId ∈ w.service.actions.map (·.actionId) :=
        hids ▸ mem_map_of_mem ha'
      obtain ⟨a, ha, hid⟩ := mem_map.mp hmem
      rw [hrest.nextActionId, ← hid]
      exact h.bounded a ha
    · rw [hrest.snapshots] at hk
      rw [hrest.nextPointId]
      exact h.keys k snapshot hk
  | created =>
    refine ⟨h.ids, h.bounded, fun k snapshot hk => ?_⟩
    rw [HashMap.get_insert] at hk
    split at hk
    · next heq => exact heq ▸ Nat.lt_succ_self _
    · exact Nat.lt_succ_of_lt (h.keys k snapshot hk)
  | started =>
    refine ⟨?_, fun a ha => ?_, h.keys⟩
    · rw [map_append, map_singleton]
      refine h.ids.append (nodup_singleton _) (disjoint_singleton.mpr fun hmem => ?_)
      obtain ⟨a, ha, hid⟩ := mem_map.mp hmem
      exact absurd hid (Nat.ne_of_lt (h.bounded a ha))
    · rcases mem_append.mp ha with hold | hnew
      · exact Nat.lt_succ_of_lt (h.bounded a hold)
      · rw [mem_singleton.mp hnew]
        exact Nat.lt_succ_self _
  | compacted =>
    refine ⟨h.ids, h.bounded, fun k snapshot hk => ?_⟩
    rw [snapshots_compact] at hk
    split at hk
    · exact nomatch hk
    · exact h.keys k snapshot hk

theorem Reached.induction [F32 F] {P : World F V A → Prop} {agents : A}
    {w : World F V A} (h : Reached S R ok agents w) (hempty : P (.empty agents))
    (hstep : ∀ w w' (op : Op F C), Journal w → P w → ok w op → Effect w op w' → P w') : Journal w ∧ P w := by
  induction h with
  | refl => exact ⟨journal_empty agents, hempty⟩
  | tail _ hexec ih =>
    obtain ⟨op, hok, hexec⟩ := hexec
    have heffect := exec_effect S R hexec
    exact ⟨ih.1.effect heffect, hstep _ _ op ih.1 ih.2 hok heffect⟩

theorem Journal.eq_of_actionId {w : World F V A} (h : Journal w) {a b : ActionRecord}
    (ha : a ∈ w.service.actions) (hb : b ∈ w.service.actions) (hid : a.actionId = b.actionId) : a = b :=
  inj_on_of_nodup_map h.ids ha hb hid

end

/-! ## Calls for sample histories -/

def keeper : Call jsonSerde.plain := sampleCall .all false

def steady : Nat → Turn jsonSerde.plain := fun _ => ⟨fun _ => 0, fun _ => keeper.toReadings, 0, 0⟩

def noAgents : AgentRuntime Unit Unit where
  describe _ _ := none
  terminate _ agents _ _ := .ok agents
  spawn _ agents _ := .ok agents

def writeNote (nodeId : Option NodeId) (text : String) : Op Int jsonSerde.plain :=
  .graph (.putNode keeper { sampleNode nodeId 0 with metadata := .str text })

def takePoint (now : Nat) : Op Int jsonSerde.plain :=
  .recoveryPointCreate ⟨keeper.monitor, keeper.token, 0⟩ (fun _ => 0) .automatic [0] now

def startAction (point : RecoveryPointId) (now : Nat) : Op Int jsonSerde.plain :=
  .recordActionStarted 7 point [0] none (some 5) none "edit" now

end Hyperion.Recovery
