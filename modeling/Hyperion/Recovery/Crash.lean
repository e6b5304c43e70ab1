import Hyperion.Recovery.Restore

/-!
# Recovery from a crash

`recover_from_crash` restores the actions in flight one by one, in the order in which they were
started, so that an object that several of them touch is left as the last of them found it. After it no
action is in flight, and recovering again does nothing.
-/

namespace Hyperion.Recovery
open Lib Capability Storage Hyperion.Graph Option List

section
variable {F V A I : Type} {C : Codec V} {S : Serde F V} {R : AgentRuntime A I} {w : World F V A}

def captured (svc : RecoveryService F V) (a : ActionRecord) (x : NodeId) :
    Option (Option (NodeRecord F V)) :=
  svc.snapshots[a.recoveryPointBefore]?.bind fun snapshot => snapshot.lookup x

/-- The earliest action in flight that touches the object. -/
def earliestInFlight (svc : RecoveryService F V) (x : NodeId) : Option ActionRecord :=
  svc.actions.find? fun a => a.status = .inFlight ∧ x ∈ a.objectsTouched

/-- The states of the object that a recovery restores, one after the other. -/
def inFlightStates (svc : RecoveryService F V) (x : NodeId) : List (Option (NodeRecord F V)) :=
  (svc.actions.filter fun a => a.status = .inFlight).flatMap (restoredStates svc x)

variable {a : ActionRecord} {svc svc' : RecoveryService F V} {g g' : KnowledgeGraph F V}
  {turns : Nat → Turn C} {ids : List ActionId} {agents agents' : A} {call : Call C}

theorem mem_restoredStates {svc : RecoveryService F V} {x : NodeId}
    {s : Option (NodeRecord F V)} (hx : x ∈ a.objectsTouched) (h : captured svc a x = some s) :
    s ∈ restoredStates svc x a := by
  obtain ⟨snapshot, hsnap, hlookup⟩ := bind_eq_some_iff.mp h
  obtain ⟨before, behind, rfl, -⟩ := lookup_eq_some_iff.mp hlookup
  rw [restoredStates, hsnap]
  refine mem_map.mpr ⟨(x, s), mem_filter.mpr ⟨?_, decide_eq_true ⟨hx, rfl⟩⟩, rfl⟩
  exact mem_append_right _ mem_cons_self

/-! ## No action is left in flight -/

theorem setFirst_other {id : ActionId} {status : ActionStatus} {as as' : List ActionRecord}
    (hids : (as.map (·.actionId)).Nodup) (h : setFirst id status as = some as')
    (ha : a ∈ as') (hstatus : a.status ≠ status) : a ∈ as ∧ a.actionId ≠ id := by
  induction as generalizing as' with
  | nil => exact nomatch h
  | cons b as ih =>
    obtain ⟨hnew, hrest⟩ := nodup_cons.mp hids
    unfold setFirst at h
    split at h
    · next hid =>
      obtain rfl := some.inj h
      rcases mem_cons.mp ha with rfl | ha
      · exact absurd rfl hstatus
      · refine ⟨mem_cons_of_mem _ ha, fun heq => hnew ?_⟩
        exact mem_map.mpr ⟨a, ha, heq.trans hid.symm⟩
    · next hid =>
      obtain ⟨rest, hset, rfl⟩ := map_eq_some_iff.mp h
      rcases mem_cons.mp ha with rfl | ha
      · exact ⟨mem_cons_self, hid⟩
      · obtain ⟨hmem, hne⟩ := ih hrest hset ha
        exact ⟨mem_cons_of_mem _ hmem, hne⟩

theorem recoverEach_inFlight {records : List ActionRecord} (hids : (svc.actions.map (·.actionId)).Nodup)
    (h : svc.recoverEach S C R call turns records g agents = (.ok ids, svc', g', agents'))
    (ha : a ∈ svc'.actions) (hstatus : a.status = .inFlight) :
    a ∈ svc.actions ∧ a ∉ records := by
  induction records generalizing turns svc g agents ids with
  | nil =>
    cases h
    exact ⟨ha, not_mem_nil⟩
  | cons record records ih =>
    obtain ⟨mid, svc₁, agents₁, ids', -, habort, hrest⟩ := recoverEach_cons_eq_ok h
    unfold RecoveryService.recordActionAborted RecoveryService.setStatus at habort
    split at habort
    · exact nomatch habort
    · next actions hset =>
      obtain ⟨-, rfl⟩ := Prod.mk.inj habort
      obtain ⟨hmem, hout⟩ := ih ((restatus_setFirst hset).map_actionId.symm ▸ hids) hrest
      obtain ⟨hold, hne⟩ := setFirst_other hids hset hmem (by simp [hstatus])
      refine ⟨hold, fun hin => ?_⟩
      rcases mem_cons.mp hin with rfl | hin
      · exact hne rfl
      · exact hout hin

theorem recoverFromCrash_again (hids : (svc.actions.map (·.actionId)).Nodup)
    (h : svc.recoverFromCrash S C R g agents call turns = (.ok ids, svc', g', agents')) (call' : Call C)
    (turns' : Nat → Turn C) :
    svc'.recoverFromCrash S C R g' agents' call' turns' = (.ok [], svc', g', agents') := by
  have hnone : svc'.actions.filter (fun a => a.status = .inFlight) = [] := by
    refine filter_eq_nil_iff.mpr fun a ha hstatus => ?_
    have hflight := of_decide_eq_true hstatus
    obtain ⟨hmem, hout⟩ := recoverEach_inFlight hids h ha hflight
    exact hout (mem_filter.mpr ⟨hmem, hstatus⟩)
  rw [RecoveryService.recoverFromCrash, hnone]
  rfl

/-! ## Objects of actions in flight -/

theorem mem_inFlightStates {svc : RecoveryService F V} {x : NodeId}
    {o : Option (NodeRecord F V)} (hearliest : earliestInFlight svc x = some a)
    (hcaptured : captured svc a x = some o) : o ∈ inFlightStates svc x := by
  unfold earliestInFlight at hearliest
  have hfirst := List.find?_some hearliest
  obtain ⟨hstatus, hx⟩ := of_decide_eq_true hfirst
  refine mem_flatMap.mpr ⟨a, ?_, mem_restoredStates hx hcaptured⟩
  exact mem_filter.mpr ⟨mem_of_find?_eq_some hearliest, decide_eq_true hstatus⟩

/-- **A recovery that succeeds leaves an object in the state captured before the earliest action in
flight that touches it if and only if the states that the actions in flight captured, restored in the
order of their starts, give that state. A second recovery does nothing.** -/
theorem crash_rolled_back [F32 F] {ok : World F V A → Op F C → Prop} {agents : A}
    (h : Reached S R ok agents w) {svc' : RecoveryService F V} {g' : KnowledgeGraph F V} {agents' : A}
    {ids : List ActionId} {call : Call C} {turns : Nat → Turn C}
    (hrecover : w.service.recoverFromCrash S C R w.graph w.agents call turns =
      (.ok ids, svc', g', agents')) :
    (∀ x a o, earliestInFlight w.service x = some a → captured w.service a x = some o →
      (shows g' call.callerBoundary x = o.map content ↔
        (standing call.callerBoundary w.graph.index.nodes[x]?).Gives (inFlightStates w.service x)
          (o.map content))) ∧
    ∀ call' turns', svc'.recoverFromCrash S C R g' agents' call' turns' = (.ok [], svc', g', agents') := by
  obtain ⟨hj, -⟩ := h.induction S R (P := fun _ => True) trivial fun _ _ _ _ _ _ _ => trivial
  refine ⟨fun x a o hearliest hcaptured => ?_, recoverFromCrash_again hj.ids hrecover⟩
  have hne := ne_nil_of_mem (mem_inFlightStates hearliest hcaptured)
  exact (recoverEach_restores hrecover x).shown_eq_iff hne _

end

/-! ## Two actions on one note -/

def openEdit (point : RecoveryPointId) (text : String) : List (Op Int jsonSerde.plain) :=
  [takePoint point, startAction point point, writeNote (some 0) text]

def openRecord (point : RecoveryPointId) : ActionRecord :=
  ⟨point, none, some 5, none, point, [0], .inFlight, point, "edit"⟩

/-- The journal, what its first action captured of the note, the states to be restored, whether the note
is there, and what a recovery returns and leaves. -/
structure NoteRecovery where
  actions : List ActionRecord
  captured : Option (Option (String × Bool))
  states : List (Option (String × Bool))
  there : Bool
  recovered : Option (List ActionId × Option String)
deriving DecidableEq

def noteRecovery (w : World Int Json Unit) : NoteRecovery where
  actions := w.service.actions
  captured := (captured w.service (openRecord 1) 0).map (Option.map fun r => noteView (content r))
  states := (inFlightStates w.service 0).map (Option.map fun r => noteView (content r))
  there := isThere (standing 7 w.graph.index.nodes[0]?)
  recovered :=
    match w.service.recoverFromCrash jsonRecord jsonSerde.plain noAgents w.graph w.agents keeper steady with
    | (.ok ids, _, g', _) => some (ids, (shows g' 7 0).map noteText)
    | (.error _, _) => none

theorem of_noteRecovery {w : World Int Json Unit} {actions : List ActionRecord} {text : String}
    {states : List (Option (String × Bool))} {ids : List ActionId} {left : Option String}
    (h : noteRecovery w =
      ⟨openRecord 1 :: actions, some (some (text, true)), states, true, some (ids, left)⟩) :
    ∃ svc' g' agents' r,
      w.service.recoverFromCrash jsonRecord jsonSerde.plain noAgents w.graph w.agents keeper steady =
        (.ok ids, svc', g', agents') ∧
      earliestInFlight w.service 0 = some (openRecord 1) ∧
      captured w.service (openRecord 1) 0 = some (some r) ∧ noteText (content r) = text ∧
      (content r).Plain ∧ (shows g' 7 0).map noteText = left := by
  simp only [noteRecovery, NoteRecovery.mk.injEq] at h
  obtain ⟨hactions, hcaptured, -, -, hrecover⟩ := h
  obtain ⟨state, hstate, hnote⟩ := map_eq_some_iff.mp hcaptured
  obtain ⟨r, rfl, hr⟩ := map_eq_some_iff.mp hnote
  obtain ⟨htext, hplain⟩ := Prod.mk.inj hr
  split at hrecover
  · next ids' svc' g' agents' hres =>
    obtain ⟨rfl, hleft⟩ := Prod.mk.inj (some.inj hrecover)
    refine ⟨svc', g', agents', r, hres, ?_, hstate, htext, plain_of_decide hplain, hleft⟩
    rw [earliestInFlight, hactions]
    rfl
  · exact nomatch hrecover

/-- Another note is edited in the meantime. -/
def openOther : List (Op Int jsonSerde.plain) :=
  [.recoveryPointCreate ⟨keeper.monitor, keeper.token, 0⟩ (fun _ => 0) .automatic [1] 2,
    .recordActionStarted 7 2 [1] none (some 5) none "edit" 2, writeNote (some 1) "changed"]

theorem crash_rolled_back_edit : ∃ w svc' g' agents' r,
    Reached jsonRecord noAgents (fun _ (_ : Op Int jsonSerde.plain) => True) () w ∧
      w.service.recoverFromCrash jsonRecord jsonSerde.plain noAgents w.graph w.agents keeper steady =
        (.ok [1, 2], svc', g', agents') ∧
      shows g' 7 0 = some (content r) ∧ noteText (content r) = "old" := by
  have hrun : (runAll jsonRecord noAgents (.empty ())
      (writeNote none "old" :: writeNote none "other" :: openEdit 1 "new" ++ openOther)).map noteRecovery =
      some ⟨[openRecord 1, { openRecord 2 with objectsTouched := [1] }], some (some ("old", true)),
        [some ("old", true)], true, some ([1, 2], some "old")⟩ := by
    decide +kernel
  obtain ⟨w, hw, hview⟩ := map_eq_some_iff.mp hrun
  obtain ⟨svc', g', agents', r, hrecover, hearliest, hcaptured, htext, hplain, -⟩ := of_noteRecovery hview
  have hreach : Reached jsonRecord noAgents (fun _ (_ : Op Int jsonSerde.plain) => True) () w :=
    Reached.runAll jsonRecord noAgents .refl (fun _ _ _ => trivial) hw
  have hgives : (standing 7 w.graph.index.nodes[0]?).Gives (inFlightStates w.service 0)
      (some (content r)) := by
    obtain ⟨s, hstates, -⟩ := map_eq_singleton_iff.mp (congrArg NoteRecovery.states hview)
    have hmem := mem_inFlightStates hearliest hcaptured
    rw [hstates] at hmem ⊢
    obtain rfl := mem_singleton.mp hmem
    exact gives_single (congrArg NoteRecovery.there hview) hplain
  refine ⟨w, svc', g', agents', r, hreach, hrecover, ?_, htext⟩
  exact ((crash_rolled_back hreach hrecover).1 0 _ _ hearliest hcaptured).mpr hgives

/-- **An object that two actions in flight touch is left as the second of them found it.** -/
theorem overlapping_actions_half_rolled_back : ∃ w svc' g' agents' a o,
    Reached jsonRecord noAgents (fun _ (_ : Op Int jsonSerde.plain) => True) () w ∧
      w.service.recoverFromCrash jsonRecord jsonSerde.plain noAgents w.graph w.agents keeper steady =
        (.ok [1, 2], svc', g', agents') ∧
      earliestInFlight w.service 0 = some a ∧ captured w.service a 0 = some o ∧
      shows g' keeper.callerBoundary 0 ≠ o.map content := by
  have hrun : (runAll jsonRecord noAgents (.empty ())
      (writeNote none "old" :: openEdit 1 "first" ++ openEdit 2 "second")).map noteRecovery =
      some ⟨[openRecord 1, openRecord 2], some (some ("old", true)),
        [some ("old", true), some ("first", true)], true, some ([1, 2], some "first")⟩ := by
    decide +kernel
  obtain ⟨w, hw, hview⟩ := map_eq_some_iff.mp hrun
  obtain ⟨svc', g', agents', r, hrecover, hearliest, hcaptured, htext, -, hleft⟩ := of_noteRecovery hview
  refine ⟨w, svc', g', agents', _, some r,
    Reached.runAll jsonRecord noAgents .refl (fun _ _ _ => trivial) hw, hrecover, hearliest, hcaptured, ?_⟩
  intro hshows
  rw [show shows g' 7 0 = _ from hshows, map_some, map_some, htext] at hleft
  exact absurd hleft (by decide)

end Hyperion.Recovery
