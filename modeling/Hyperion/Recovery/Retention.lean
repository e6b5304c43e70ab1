import Hyperion.Recovery.Run

/-!
# Which recovery points are kept

`compact` evicts a recovery point when no action in flight or committed names it. `redo` makes an
undone action committed again, and `record_action_committed` does so with an action of any status: if
the recovery point was evicted in the meantime, the action counts as committed and cannot be undone.
-/

namespace Hyperion.Recovery
open Lib Capability Storage Hyperion.Graph List RecoveryService ActionRecord Option

section
variable {F V A I : Type} {C : Codec V} {S : Serde F V} {R : AgentRuntime A I} {w w' : World F V A}
  {svc : RecoveryService F V}

/-- The recovery point of the action existed when the action was recorded. -/
def Anchored (w : World F V A) (a : ActionRecord) : Prop :=
  ∃ st, w.started a.actionId = some st ∧ st.anchored = true

def HasSnapshot (w : World F V A) (a : ActionRecord) : Prop :=
  w.service.snapshots[a.recoveryPointBefore]?.isSome = true

/-- `undo` and `recover_from_crash` may still read the recovery point of the action. -/
def ActionRecord.live (a : ActionRecord) : Prop := a.status = .inFlight ∨ a.status = .committed

def Undoable (w : World F V A) : Prop :=
  ∀ a ∈ w.service.actions, a.live → Anchored w a → HasSnapshot w a

/-- An action that was aborted, undone or expired is made committed only while its snapshot is there. -/
def RevivesKept (w : World F V A) : Op F C → Prop
  | .recordActionCommitted id =>
    ∀ a ∈ w.service.actions, a.actionId = id → ¬ a.live → HasSnapshot w a
  | .redo _ _ scope => ∀ a ∈ w.service.selected .undone scope, HasSnapshot w a
  | _ => True

variable {scope : UndoScope} {a : ActionRecord} {op : Op F C} {α β : Type}

theorem mem_selected {status : ActionStatus} : a ∈ svc.selected status scope ↔
      a ∈ svc.actions ∧ a.status = status ∧ inScope a scope = true := by
  simp [selected]

/-! ## Steps -/

theorem Undoable.restated (hj : Journal w) (h : Undoable w) (hok : RevivesKept w op)
    (hrest : Restated (op.Changes w.service) w.service w'.service) (hstarted : w'.started = w.started) :
    Undoable w' := by
  intro a' ha' hlive hanchored
  rw [Anchored, hstarted] at hanchored
  rw [HasSnapshot, hrest.snapshots]
  obtain ⟨a, ha, rfl | ⟨s, hchange, rfl⟩⟩ := hrest.actions.exists_mem ha'
  · exact h a' ha hlive hanchored
  · by_cases hwas : a.live
    · exact h a ha hwas hanchored
    · cases op with
      | recordActionCommitted id => exact hok a ha hchange.1 hwas
      | redo call turns scope =>
        obtain ⟨⟨b, hb, hid⟩, -⟩ := hchange
        obtain rfl := hj.eq_of_actionId (mem_selected.mp hb).1 ha hid
        exact hok b hb
      | recordActionAborted | recoverFromCrash | expire | undo =>
        exact absurd hlive (by simp [live, show s = _ from hchange])
      | graph | recoveryPointCreate | recordActionStarted | pin | unpin | compact | restoreTo =>
        exact hchange.elim

theorem not_mem_toEvict (ha : a ∈ svc.actions)
    (hlive : a.live) (now retentionSecs : Nat) : a.recoveryPointBefore ∉ svc.toEvict now retentionSecs := by
  intro hmem
  obtain ⟨p, hp, hid⟩ := mem_map.mp hmem
  obtain ⟨-, -, hnot⟩ := of_decide_eq_true (mem_filter.mp hp).2
  refine hnot (hid ▸ mem_map_of_mem (mem_filter.mpr ⟨ha, decide_eq_true hlive⟩))

theorem Undoable.effect (hj : Journal w) (h : Undoable w) (hok : RevivesKept w op)
    (heffect : Effect w op w') : Undoable w' := by
  cases heffect with
  | restated hrest hstarted => exact h.restated hj hok hrest hstarted
  | created =>
    intro a ha hlive hanchored
    rw [HasSnapshot, HashMap.get_insert]
    split
    · rfl
    · exact h a ha hlive hanchored
  | started =>
    intro a ha hlive hanchored
    obtain ⟨st, hst, hset⟩ := hanchored
    rcases mem_append.mp ha with hold | hnew
    · have hkept := (Function.update_of_ne (Nat.ne_of_lt (hj.bounded a hold)) _ _).symm.trans hst
      exact h a hold hlive ⟨st, hkept, hset⟩
    · cases mem_singleton.mp hnew
      simp only [Function.update_self, some.injEq] at hst
      exact (congrArg Started.anchored hst).trans hset
  | compacted =>
    intro a ha hlive hanchored
    have hold : a ∈ w.service.actions := ha
    rw [HasSnapshot, snapshots_compact, if_neg (not_mem_toEvict hold hlive _ _)]
    exact h a hold hlive hanchored

/-! ## Missing recovery points -/

theorem error_ne {err e : RecoveryError} (h : (.error err : Except RecoveryError α) ≠ .error e) :
    (.error err : Except RecoveryError β) ≠ .error e :=
  fun heq => h (congrArg Except.error (Except.error.inj heq))

theorem map_ne_error {r : Except RecoveryError α} {e : RecoveryError} (h : r ≠ .error e)
    (f : α → β) : r.map f ≠ .error e := by
  cases r with
  | error err => exact error_ne h
  | ok x => exact nofun

theorem snapshotObjects_ne {g : KnowledgeGraph F V} {monitor : CapabilityMonitor} {token : CapabilityToken}
    (reads : Nat → Instant) (ids : List NodeId) :
    snapshotObjects g monitor token reads ids ≠ .error .noSuchRecoveryPoint := by
  induction ids generalizing reads with
  | nil => exact nofun
  | cons id ids ih =>
    unfold snapshotObjects
    split
    · exact map_ne_error (ih _) _
    · exact map_ne_error (ih _) _
    · exact nofun

theorem applySnapshot_ne (call : Call C) (objects : List NodeId) (writes : Nat → Readings C)
    (snapshot : Snapshot F V) (g : KnowledgeGraph F V) :
    (applySnapshot S C call objects writes snapshot g).1 ≠ .error .noSuchRecoveryPoint := by
  induction snapshot generalizing writes g with
  | nil => exact nofun
  | cons entry entries ih =>
    unfold applySnapshot
    split
    · split
      · split
        · exact nofun
        · exact ih _ _
      · split
        · exact ih _ _
        · exact ih _ _
        · exact nofun
    · exact ih _ _

theorem restoreObjects_ne {point : RecoveryPointId} (h : svc.snapshots[point]?.isSome = true)
    (g : KnowledgeGraph F V) (call : Call C) (writes : Nat → Readings C) (objects : List NodeId) :
    (svc.restoreObjects S C g call writes point objects).1 ≠ .error .noSuchRecoveryPoint := by
  obtain ⟨snapshot, hsnap⟩ := Option.isSome_iff_exists.mp h
  rw [restoreObjects, hsnap]
  exact applySnapshot_ne call objects writes snapshot g

variable (g : KnowledgeGraph F V) (monitor : CapabilityMonitor) (token : CapabilityToken) (call : Call C)
  (turns : Nat → Turn C) (records : List ActionRecord)

theorem captureEach_ne (svc : RecoveryService F V) :
    (captureEach C g monitor token turns records svc).1 ≠ .error .noSuchRecoveryPoint := by
  induction records generalizing turns svc with
  | nil => exact nofun
  | cons record records ih =>
    unfold captureEach
    split
    · next err herr => exact error_ne (herr ▸ snapshotObjects_ne _ _)
    · exact ih _ _

theorem restoreEach_ne (h : ∀ a ∈ records, svc.snapshots[a.recoveryPointBefore]?.isSome = true) :
    (restoreEach S C svc call turns records g).1 ≠ .error .noSuchRecoveryPoint := by
  induction records generalizing turns g with
  | nil => exact nofun
  | cons record records ih =>
    unfold restoreEach
    have hfirst := restoreObjects_ne (S := S) (h record mem_cons_self) g call (turns 0).writes
      record.objectsTouched
    split
    · next hres =>
      rw [hres] at hfirst
      exact error_ne hfirst
    · exact ih _ _ fun a ha => h a (mem_cons_of_mem _ ha)

theorem undo_ne (h : ∀ a ∈ svc.selected .committed scope, svc.snapshots[a.recoveryPointBefore]?.isSome = true) :
    (svc.undo S C g call turns scope).1 ≠ .error .noSuchRecoveryPoint := by
  unfold undo
  split
  · next err hreq =>
    unfold require at hreq
    split at hreq
    · exact nomatch hreq
    · obtain rfl := Except.error.inj hreq
      exact nofun
  · dsimp only
    split
    · exact nofun
    · split
      · exact nofun
      · have hcapture := captureEach_restated S svc g call turns
          (newestFirst (svc.selected .committed scope))
        have hne := captureEach_ne g call.monitor call.token turns
          (newestFirst (svc.selected .committed scope)) svc
        split
        · next hres =>
          rw [hres] at hne
          exact error_ne hne
        · next svc' hres =>
          rw [hres] at hcapture
          have hrestore := restoreEach_ne (S := S) g call turns (newestFirst (svc.selected .committed scope))
            fun a ha => hcapture.snapshots ▸ h a (mem_newestFirst.mp ha)
          split
          · next hfail =>
            rw [hfail] at hrestore
            exact error_ne hrestore
          · exact nofun

theorem replan_ne (turn : Turn C) (record : ActionRecord) (agents : A) :
    (replan C R monitor token turn record agents).1 ≠ .error .noSuchRecoveryPoint := by
  unfold replan
  split
  · exact nofun
  · split
    · exact nofun
    · split
      · exact nofun
      · split <;> exact nofun

theorem setStatus_ne (svc : RecoveryService F V) (id : ActionId) (status : ActionStatus) :
    (svc.setStatus id status).1 ≠ .error .noSuchRecoveryPoint := by
  unfold setStatus
  split <;> exact nofun

theorem recoverEach_ne (h : ∀ a ∈ records, svc.snapshots[a.recoveryPointBefore]?.isSome = true) (agents : A) :
    (recoverEach S C R call turns records svc g agents).1 ≠ .error .noSuchRecoveryPoint := by
  induction records generalizing turns svc g agents with
  | nil => exact nofun
  | cons record records ih =>
    unfold recoverEach
    have hfirst := restoreObjects_ne (S := S) (h record mem_cons_self) g call (turns 0).writes
      record.objectsTouched
    split
    · next hres =>
      rw [hres] at hfirst
      exact error_ne hfirst
    · have hagents := replan_ne (R := R) call.monitor call.token (turns 0) record agents
      split
      · next hres =>
        rw [hres] at hagents
        exact error_ne hagents
      · have hset := setStatus_ne svc record.actionId .aborted
        have hkept := setStatus_restated svc record.actionId .aborted
        rw [← recordActionAborted] at hset hkept
        split
        · next hres =>
          rw [hres] at hset
          exact error_ne hset
        · next svc' hres =>
          rw [hres] at hkept
          refine map_ne_error (ih _ _ (fun a ha => ?_) _) _
          exact hkept.snapshots ▸ h a (mem_cons_of_mem _ ha)

/-- **If actions are made committed again only while their snapshots are there, every action in flight
or committed whose recovery point existed when it was recorded can be restored: neither `undo` nor
`recover_from_crash` misses a recovery point.** -/
theorem undoable_stays_undoable [F32 F] {agents : A}
    (h : Reached S R (fun w (op : Op F C) => RevivesKept w op) agents w) :
    Undoable w ∧
    (∀ (call : Call C) turns scope, (∀ a ∈ w.service.selected .committed scope, Anchored w a) →
      (w.service.undo S C w.graph call turns scope).1 ≠ .error .noSuchRecoveryPoint) ∧
    ∀ (call : Call C) turns, (∀ a ∈ w.service.actions, a.status = .inFlight → Anchored w a) →
      (w.service.recoverFromCrash S C R w.graph w.agents call turns).1 ≠ .error .noSuchRecoveryPoint := by
  obtain ⟨-, hkept⟩ := h.induction S R (P := Undoable) (fun _ ha => absurd ha not_mem_nil)
    fun _ _ _ hj hu hok heffect => hu.effect hj hok heffect
  refine ⟨hkept, fun call turns scope hscope => ?_, fun call turns hflight => ?_⟩
  · refine undo_ne w.graph call turns fun a ha => ?_
    obtain ⟨hmem, hstatus, -⟩ := mem_selected.mp ha
    exact hkept a hmem (.inr hstatus) (hscope a ha)
  · refine recoverEach_ne w.graph call turns _ (fun a ha => ?_) w.agents
    obtain ⟨hmem, hstatus⟩ := mem_filter.mp ha
    exact hkept a hmem (.inl (of_decide_eq_true hstatus)) (hflight a hmem (of_decide_eq_true hstatus))

end

/-! ## An action that is redone too late -/

def editNote : List (Op Int jsonSerde.plain) :=
  [writeNote none "old", takePoint 1, startAction 1 1, writeNote (some 0) "new"]

instance (w : World Int Json Unit) (op : Op Int jsonSerde.plain) : Decidable (RevivesKept w op) := by
  unfold RevivesKept HasSnapshot ActionRecord.live
  split <;> infer_instance

/-- The action is committed, undone and redone, and then the recovery points that no action needs are evicted. -/
def redoInTime : List (Op Int jsonSerde.plain) :=
  editNote ++ [.recordActionCommitted 1, .undo keeper steady (.singleAction 1),
    .redo keeper steady (.singleAction 1), .compact 10 0]

theorem undoable_stays_undoable_edit : ∃ w,
    runAll jsonRecord noAgents (.empty ()) redoInTime = some w ∧
      w.service.actions.map (·.status) = [.committed] ∧ Undoable w := by
  have hrun : (runAll jsonRecord noAgents (.empty ()) redoInTime).map (·.service.actions.map (·.status)) =
      some [.committed] := by
    decide +kernel
  have hallowed : Allowed jsonRecord noAgents (fun w (op : Op Int jsonSerde.plain) => RevivesKept w op)
      (.empty ()) redoInTime := by
    decide +kernel
  obtain ⟨w, hw, hcommitted⟩ := Option.map_eq_some_iff.mp hrun
  exact ⟨w, hw, hcommitted, (undoable_stays_undoable (Reached.allowed jsonRecord noAgents .refl hallowed hw)).1⟩

/-- The action is committed and undone, the recovery point evicted, and the action redone. -/
def redoTooLate : List (Op Int jsonSerde.plain) :=
  editNote ++ [.recordActionCommitted 1, .undo keeper steady (.singleAction 1), .compact 10 0,
    .redo keeper steady (.singleAction 1)]

/-- The statuses of the actions, whether the first one's recovery point existed at its start and is there
now, and the error that undoing it gives. -/
def firstAction (w : World Int Json Unit) :
    List (ActionId × RecoveryPointId × ActionStatus) × Option Bool × Bool × Option RecoveryError :=
  (w.service.actions.map fun a => (a.actionId, a.recoveryPointBefore, a.status),
    (w.started 1).map (·.anchored), w.service.snapshots[1]?.isSome,
    match (w.service.undo jsonRecord jsonSerde.plain w.graph keeper steady (.singleAction 1)).1 with
    | .error err => some err
    | .ok _ => none)

/-- **After the eviction, the redone action is committed without a snapshot, and cannot be undone.** -/
theorem redone_action_not_undoable : ∃ w,
    Reached jsonRecord noAgents (fun _ (_ : Op Int jsonSerde.plain) => True) () w ∧ ¬ Undoable w ∧
      (w.service.undo jsonRecord jsonSerde.plain w.graph keeper steady (.singleAction 1)).1 =
        .error .noSuchRecoveryPoint := by
  have hrun : (runAll jsonRecord noAgents (.empty ()) redoTooLate).map firstAction =
      some ([(1, 1, .committed)], some true, false, some .noSuchRecoveryPoint) := by
    decide +kernel
  obtain ⟨w, hw, hview⟩ := Option.map_eq_some_iff.mp hrun
  simp only [firstAction, Prod.mk.injEq] at hview
  obtain ⟨hactions, hanchored, hgone, herror⟩ := hview
  refine ⟨w, Reached.runAll jsonRecord noAgents .refl (fun _ _ _ => trivial) hw, fun hundoable => ?_, ?_⟩
  · obtain ⟨a, ha, hview⟩ := mem_map.mp (hactions ▸ mem_singleton_self _)
    simp only [Prod.mk.injEq] at hview
    obtain ⟨hid, hpoint, hstatus⟩ := hview
    obtain ⟨st, hst, hset⟩ := Option.map_eq_some_iff.mp hanchored
    have hsnap := hundoable a ha (.inr hstatus) ⟨st, hid ▸ hst, hset⟩
    rw [HasSnapshot, hpoint, hgone] at hsnap
    exact nomatch hsnap
  · split at herror
    · next herr => rw [herr, some.inj herror]
    · exact nomatch herror

end Hyperion.Recovery
