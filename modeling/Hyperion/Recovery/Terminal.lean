import Hyperion.Recovery.Restore

/-!
# Ended actions

An action that has expired or was aborted has ended. `undo`, `redo` and `recover_from_crash` go by the
status of an action, and none of the statuses they look for is one of these; but `record_action_committed`
sets the status of any action.
-/

namespace Hyperion.Recovery
open Lib Capability Storage Hyperion.Graph List Option RecoveryService

section
variable {F V A I : Type} {C : Codec V} {S : Serde F V} {R : AgentRuntime A I} {w w' : World F V A}
  {id : ActionId} (svc : RecoveryService F V)

/-- The action is in the journal, as `Expired` or `Aborted`. -/
def Ended (id : ActionId) : Prop :=
  ∃ a ∈ svc.actions, a.actionId = id ∧ (a.status = .expired ∨ a.status = .aborted)

/-- The actions whose objects an operation restores or reapplies. -/
def handled : Op F C → List ActionRecord
  | .undo _ _ scope => svc.selected .committed scope
  | .redo _ _ scope => svc.selected .undone scope
  | .recoverFromCrash _ _ => svc.actions.filter fun a => a.status = .inFlight
  | _ => []

/-- `undo`, `redo` or `recover_from_crash`. -/
def Op.restores : Op F C → Bool
  | .undo _ _ _ | .redo _ _ _ | .recoverFromCrash _ _ => true
  | _ => false

/-- The action has still ended after the operation, is not one of those that the operation treats, and
the objects that the operation restores to another state are those of actions that it treats. -/
structure Undisturbed (id : ActionId) (w : World F V A) (op : Op F C) (w' : World F V A) : Prop where
  ended : Ended w'.service id
  untreated : ∀ a ∈ handled w.service op, a.actionId ≠ id
  changes : op.restores = true → ∀ x : NodeId, w'.graph.index.nodes[x]? ≠ w.graph.index.nodes[x]? →
    ∃ a ∈ handled w.service op, x ∈ a.objectsTouched

/-! ## What the loops leave alone -/

variable {g g' : KnowledgeGraph F V} {call : Call C} {x : NodeId} {records : List ActionRecord}
  {ok : ActionRecord → ActionStatus → Prop}

theorem applySnapshot_frame {objects : List NodeId} (hx : x ∉ objects) (writes : Nat → Readings C)
    (snapshot : Snapshot F V) :
    (applySnapshot S C call objects writes snapshot g).2.index.nodes[x]? = g.index.nodes[x]? := by
  obtain ⟨done, hprefix, -, hrestores⟩ := applySnapshot_attempts (rfl :
    applySnapshot S C call objects writes snapshot g = (_, _)) x
  have hnone : entriesFor objects x snapshot = [] := by
    simp only [entriesFor, map_eq_nil_iff, filter_eq_nil_iff, decide_eq_true_eq]
    rintro e - ⟨hmem, rfl⟩
    exact hx hmem
  rw [hnone, prefix_nil] at hprefix
  subst hprefix
  exact hrestores.eq_of_nil

theorem restoreInvariant_frame (hx : ∀ a ∈ records, x ∉ a.objectsTouched) :
    RestoreInvariant S call records ok fun _ g' => g'.index.nodes[x]? = g.index.nodes[x]? where
  apply _ _ writes snapshot a ha _ h := (applySnapshot_frame (hx a ha) writes snapshot).trans h
  capture _ _ _ _ _ _ _ h := h
  journal _ _ _ _ h := h

variable {as as' : List ActionRecord} {status : ActionStatus} {a : ActionRecord} {op : Op F C}

theorem exec_frame [F32 F] (h : op.exec S R w = some w') (hop : op.restores = true)
    (hx : ∀ a ∈ handled w.service op, x ∉ a.objectsTouched) :
    w'.graph.index.nodes[x]? = w.graph.index.nodes[x]? := by
  cases op with
  | undo call turns scope =>
    obtain rfl := some.inj h
    exact RestoreInvariant.undo (fun _ => restoreInvariant_frame hx) turns rfl
  | redo call turns scope =>
    obtain rfl := some.inj h
    exact (restoreInvariant_frame hx).redo turns rfl
  | recoverFromCrash call turns =>
    obtain rfl := some.inj h
    exact (restoreInvariant_frame hx).recoverEach (fun _ ha => ha) turns w.agents rfl
  | _ => cases hop

/-! ## Ended actions stay ended -/

theorem Ended.untreated (hj : Journal w) (h : Ended w.service id) (op : Op F C) :
    ∀ a ∈ handled w.service op, a.actionId ≠ id := by
  obtain ⟨e, he, rfl, hstatus⟩ := h
  intro a ha heq
  have hmem : a ∈ w.service.actions ∧ (a.status = .committed ∨ a.status = .undone ∨ a.status = .inFlight) := by
    cases op <;> simp_all [handled, selected]
  rw [hj.eq_of_actionId hmem.1 he heq] at hmem
  rcases hstatus with hstatus | hstatus <;> simp [hstatus] at hmem

theorem Restatus.ended (h : Restatus ok as as') {e : ActionRecord} (he : e ∈ as)
    (hstatus : e.status = .expired ∨ e.status = .aborted) (hok : ∀ s, ok e s → s = .expired ∨ s = .aborted) :
    ∃ e' ∈ as', e'.actionId = e.actionId ∧ (e'.status = .expired ∨ e'.status = .aborted) := by
  obtain ⟨e', he', rfl | ⟨s, hs, rfl⟩⟩ := h.exists_mem_after he
  · exact ⟨_, he', rfl, hstatus⟩
  · exact ⟨_, he', rfl, hok s hs⟩

theorem Ended.exec [F32 F] (hj : Journal w) (h : Ended w.service id)
    (hexec : op.exec S R w = some w') (hop : op ≠ .recordActionCommitted id) : Ended w'.service id := by
  have huntreated := h.untreated hj op
  obtain ⟨e, he, rfl, hstatus⟩ := h
  cases exec_effect S R hexec with
  | created => exact ⟨e, he, rfl, hstatus⟩
  | started => exact ⟨e, mem_append_left _ he, rfl, hstatus⟩
  | compacted => exact ⟨e, he, rfl, hstatus⟩
  | restated hrest _ =>
    cases op with
    | undo call turns scope =>
      obtain rfl := some.inj hexec
      refine (undo_restated S w.service w.graph call turns scope).actions.ended he hstatus fun s hs => ?_
      obtain ⟨⟨b, hb, hid⟩, -⟩ := hs
      exact absurd hid (huntreated b hb)
    | redo call turns scope =>
      refine hrest.actions.ended he hstatus fun s hs => ?_
      obtain ⟨⟨b, hb, hid⟩, -⟩ := hs
      exact absurd hid (huntreated b hb)
    | recordActionCommitted id =>
      exact hrest.actions.ended he hstatus fun s hs => absurd (congrArg Op.recordActionCommitted hs.1.symm) hop
    | expire id => exact hrest.actions.ended he hstatus fun s hs => .inl hs
    | recordActionAborted | recoverFromCrash => exact hrest.actions.ended he hstatus fun s hs => .inr hs
    | _ => exact hrest.actions.ended he hstatus fun s hs => hs.elim

theorem setFirst_ne_none {as : List ActionRecord} (ha : a ∈ as)
    (hid : a.actionId = id) : setFirst id status as ≠ none := by
  induction as with
  | nil => simp at ha
  | cons b as ih =>
    unfold setFirst
    split
    · simp
    · next hne =>
      have ha : a ∈ as := (mem_cons.mp ha).resolve_left fun heq => hne (heq ▸ hid)
      simpa using ih ha

theorem status_setFirst
    (hids : (as.map (·.actionId)).Nodup) (h : setFirst id status as = some as') (ha : a ∈ as')
    (hid : a.actionId = id) : a.status = status := by
  induction as generalizing as' with
  | nil => cases h
  | cons b as ih =>
    rw [map_cons, nodup_cons] at hids
    unfold setFirst at h
    split at h
    · next hb =>
      obtain rfl := some.inj h
      rcases mem_cons.mp ha with rfl | ha
      · rfl
      · exact absurd (mem_map.mpr ⟨a, ha, hid.trans hb.symm⟩) hids.1
    · next hb =>
      obtain ⟨rest, hrest, rfl⟩ := map_eq_some_iff.mp h
      rcases mem_cons.mp ha with rfl | ha
      · exact absurd hid hb
      · exact ih hids.2 hrest ha

theorem not_ended_recordActionCommitted (hj : Journal w) :
    ¬ Ended (w.service.recordActionCommitted id).2 id := by
  rintro ⟨a, ha, hid, hstatus⟩
  unfold recordActionCommitted setStatus at ha
  split at ha
  · next hnone => exact setFirst_ne_none ha hid hnone
  · next hset =>
    have hcommitted := status_setFirst hj.ids hset ha hid
    simp [hcommitted] at hstatus

theorem Reached.journal [F32 F] {agents : A} (h : Reached S R (fun _ (_ : Op F C) => True) agents w) :
    Journal w :=
  (h.induction S R (P := fun _ => True) trivial fun _ _ _ _ _ _ _ => trivial).1

theorem Ended.runAll [F32 F] {agents : A} {ops : List (Op F C)}
    (hreached : Reached S R (fun _ (_ : Op F C) => True) agents w) (h : Ended w.service id)
    (hrun : runAll S R w ops = some w') (hops : .recordActionCommitted id ∉ ops) : Ended w'.service id := by
  have hrun' : Reached S R (fun _ (_ : Op F C) => True) agents w' ∧ Ended w'.service id := by
    refine foldlM_invariant (fun op hop w _ h hexec => ?_) ⟨hreached, h⟩ hrun
    exact ⟨h.1.tail ⟨op, trivial, hexec⟩, h.2.exec h.1.journal hexec fun heq => hops (heq ▸ hop)⟩
  exact hrun'.2

/-- **An action that has ended stays ended and is the reason for no change, exactly if it is not committed
again.** -/
theorem ended_stays_ended_iff [F32 F] {agents : A} {ops : List (Op F C)}
    (hreached : Reached S R (fun _ (_ : Op F C) => True) agents w) (hrun : runAll S R w ops = some w')
    (hended : Ended w.service id) :
    (∀ before op after w₁ w₂, ops = before ++ op :: after → Recovery.runAll S R w before = some w₁ →
        op.exec S R w₁ = some w₂ → Undisturbed id w₁ op w₂) ↔ .recordActionCommitted id ∉ ops := by
  constructor
  · intro h hmem
    obtain ⟨before, after, rfl⟩ := append_of_mem hmem
    rw [runAll_append] at hrun
    obtain ⟨w₁, hbefore, -⟩ := bind_eq_some_iff.mp hrun
    have hjournal := (hreached.runAll S R (fun _ _ _ => trivial) hbefore).journal
    exact not_ended_recordActionCommitted hjournal (h before _ after w₁ _ rfl hbefore rfl).ended
  · rintro h before op after w₁ w₂ rfl hbefore hexec
    simp only [mem_append, mem_cons, not_or] at h
    have hjournal := (hreached.runAll S R (fun _ _ _ => trivial) hbefore).journal
    have hended₁ := hended.runAll hreached hbefore h.1
    refine ⟨hended₁.exec hjournal hexec (Ne.symm h.2.1), hended₁.untreated hjournal op, fun hop x hx => ?_⟩
    by_contra hnone
    exact hx (exec_frame hexec hop fun a ha hxa => hnone ⟨a, ha, hxa⟩)

end

/-! ## An expired action -/

def expiredEdit : List (Op Int jsonSerde.plain) :=
  [writeNote none "old", takePoint 1, startAction 1 1, writeNote (some 0) "new", .recordActionCommitted 1,
    .expire 1]

def undoEdit : Op Int jsonSerde.plain := .undo keeper steady (.singleAction 1)

def editView (w : World Int Json Unit) : List (ActionId × ActionStatus) × Option String :=
  (w.service.actions.map fun a => (a.actionId, a.status), (shows w.graph 7 0).map noteText)

theorem editView_expired : (runAll jsonRecord noAgents (.empty ()) expiredEdit).map editView =
    some ([(1, .expired)], some "new") := by
  decide +kernel

theorem ended_of_editView {w : World Int Json Unit} {text : Option String}
    (h : editView w = ([(1, .expired)], text)) : Ended w.service 1 := by
  have hmem : (1, ActionStatus.expired) ∈ (editView w).1 := by simp [h]
  obtain ⟨a, ha, hview⟩ := mem_map.mp hmem
  simp only [Prod.mk.injEq] at hview
  exact ⟨a, ha, hview.1, .inl hview.2⟩

theorem ended_stays_ended_iff_undo : ∃ w w', runAll jsonRecord noAgents (.empty ()) expiredEdit = some w ∧
    undoEdit.exec jsonRecord noAgents w = some w' ∧ Undisturbed 1 w undoEdit w' := by
  obtain ⟨w, hw, hview⟩ := map_eq_some_iff.mp editView_expired
  have hreached := Reached.runAll jsonRecord noAgents .refl (fun _ _ _ => trivial) hw
  obtain ⟨w', hexec⟩ : ∃ w', undoEdit.exec jsonRecord noAgents w = some w' := ⟨_, rfl⟩
  have hrun : runAll jsonRecord noAgents w [undoEdit] = some w' := by
    rw [runAll_cons, hexec]
    rfl
  refine ⟨w, w', hw, hexec, ?_⟩
  exact (ended_stays_ended_iff hreached hrun (ended_of_editView hview)).mpr (by simp [undoEdit]) [] _ [] w w'
    rfl rfl hexec

/-- **An expired action that is committed again is undone.** -/
theorem expired_action_undone : ∃ w w', runAll jsonRecord noAgents (.empty ()) expiredEdit = some w ∧
    Ended w.service 1 ∧ (shows w.graph 7 0).map noteText = some "new" ∧
    runAll jsonRecord noAgents w [.recordActionCommitted 1, undoEdit] = some w' ∧
    w'.service.actions.map (·.status) = [.undone] ∧ (shows w'.graph 7 0).map noteText = some "old" := by
  have hrun : (runAll jsonRecord noAgents (.empty ())
      (expiredEdit ++ [.recordActionCommitted 1, undoEdit])).map editView =
        some ([(1, .undone)], some "old") := by
    decide +kernel
  obtain ⟨w, hw, hview⟩ := map_eq_some_iff.mp editView_expired
  rw [runAll_append, hw, bind_some] at hrun
  obtain ⟨w', hw', hview'⟩ := map_eq_some_iff.mp hrun
  refine ⟨w, w', hw, ended_of_editView hview, congrArg Prod.snd hview, hw', ?_, congrArg Prod.snd hview'⟩
  have hstatuses := congrArg (fun v => v.1.map (·.2)) hview'
  simpa [editView, Function.comp_def] using hstatuses

end Hyperion.Recovery
