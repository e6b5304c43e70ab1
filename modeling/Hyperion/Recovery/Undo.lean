import Hyperion.Recovery.Restore

/-!
# Undo

`undo` restores the committed actions of a scope, the newest first. An action names a recovery point
that was taken over its objects just before it ran, so the object ends as the last action to be restored
found it. That is the earliest one if the times of the actions tell them apart; and the state can be
given back if the object existed all along, with the default provenance, and is not deleted.
-/

namespace Hyperion.Recovery
open Lib Capability Storage Hyperion.Graph List Option

section
variable {F V A I : Type} {C : Codec V} {S : Serde F V} {R : AgentRuntime A I} {w w' : World F V A}
  {x : NodeId} {a : ActionRecord} {scope : UndoScope}

/-- An action starts with a recovery point that shows its objects as its runner sees them now. -/
def TakesPoint (w : World F V A) : Op F C → Prop
  | .recordActionStarted runner point objects _ _ _ _ _ =>
    w.service.snapshots[point]? = some (objects.map fun x => (x, w.graph.index.visibleNode runner x))
  | _ => True

/-- The snapshot of an action, while it is there, shows its objects as they were at its start. -/
def ShowsStart (w : World F V A) : Prop :=
  ∀ a ∈ w.service.actions, ∃ st, w.started a.actionId = some st ∧
    a.recoveryPointBefore < w.service.nextPointId ∧
    ∀ snapshot, w.service.snapshots[a.recoveryPointBefore]? = some snapshot →
      snapshot = a.objectsTouched.map fun x => (x, st.graph.index.visibleNode st.runner x)

theorem ShowsStart.effect {op : Op F C} (hj : Journal w) (h : ShowsStart w) (hok : TakesPoint w op)
    (heffect : Effect w op w') : ShowsStart w' := by
  cases heffect with
  | restated hrest hstarted =>
    intro a' ha'
    obtain ⟨a, ha, hsame⟩ := hrest.actions.exists_mem ha'
    have hfields : a'.actionId = a.actionId ∧ a'.recoveryPointBefore = a.recoveryPointBefore ∧
        a'.objectsTouched = a.objectsTouched := by
      rcases hsame with rfl | ⟨s, -, rfl⟩ <;> exact ⟨rfl, rfl, rfl⟩
    obtain ⟨hid, hpoint, hobjects⟩ := hfields
    rw [hstarted, hrest.snapshots, hrest.nextPointId, hid, hpoint, hobjects]
    exact h a ha
  | created =>
    intro a ha
    obtain ⟨st, hst, hlt, hsnap⟩ := h a ha
    refine ⟨st, hst, Nat.lt_succ_of_lt hlt, fun snapshot hget => hsnap snapshot ?_⟩
    rwa [HashMap.get_insert, if_neg (Nat.ne_of_gt hlt)] at hget
  | started =>
    intro a ha
    rcases mem_append.mp ha with hold | hnew
    · obtain ⟨st, hst, hrest⟩ := h a hold
      exact ⟨st, (Function.update_of_ne (Nat.ne_of_lt (hj.bounded a hold)) _ _).trans hst, hrest⟩
    · cases mem_singleton.mp hnew
      refine ⟨_, Function.update_self _ _ _, hj.keys _ _ hok, fun snapshot hget => ?_⟩
      exact some.inj (hget.symm.trans hok)
  | compacted =>
    intro a ha
    obtain ⟨st, hst, hlt, hsnap⟩ := h a ha
    refine ⟨st, hst, hlt, fun snapshot hget => hsnap snapshot ?_⟩
    rw [snapshots_compact] at hget
    split at hget
    · exact nomatch hget
    · exact hget

theorem Reached.showsStart [F32 F] {agents : A}
    (h : Reached S R (fun w (op : Op F C) => TakesPoint w op) agents w) : Journal w ∧ ShowsStart w :=
  h.induction S R (P := ShowsStart) (fun _ ha => absurd ha not_mem_nil)
    fun _ _ _ hj hs hok heffect => hs.effect hj hok heffect

/-! ## The order of restoring -/

/-- The earliest committed action of the scope that touches the object. -/
def firstInScope (svc : RecoveryService F V) (scope : UndoScope) (x : NodeId) : Option ActionRecord :=
  (svc.selected .committed scope).find? fun a => x ∈ a.objectsTouched

variable {svc : RecoveryService F V} {g g' : KnowledgeGraph F V} {turns : Nat → Turn C} {call : Call C}

theorem firstInScope_touches (h : firstInScope svc scope x = some a) : x ∈ a.objectsTouched := by
  unfold firstInScope at h
  have hfound := List.find?_some h
  exact of_decide_eq_true hfound

theorem newestFirst_perm (as : List ActionRecord) : (RecoveryService.newestFirst as).Perm as :=
  perm_insertionSort _ _

/-- The actions from the last created to the first; those of one time in the order of the journal. -/
structure Backwards (journal order : List ActionRecord) : Prop where
  sorted : order.Pairwise fun a b => b.createdAt ≤ a.createdAt
  ties : ∀ t, order.filter (·.createdAt = t) = journal.filter (·.createdAt = t)

theorem filter_orderedInsert (t : Nat) (a : ActionRecord) (as : List ActionRecord) :
    (as.orderedInsert (fun a b => b.createdAt ≤ a.createdAt) a).filter (·.createdAt = t) =
      (a :: as).filter (·.createdAt = t) := by
  induction as with
  | nil => rfl
  | cons b as ih =>
    rw [orderedInsert_cons]
    split
    · rfl
    · next hlater =>
      rw [filter_cons, ih]
      simp only [filter_cons, decide_eq_true_eq]
      split
      · next hb => simp [show a.createdAt ≠ t by omega]
      · rfl

theorem backwards_newestFirst (as : List ActionRecord) : Backwards as (RecoveryService.newestFirst as) where
  sorted := by
    have htotal : Std.Total fun a b : ActionRecord => b.createdAt ≤ a.createdAt := ⟨fun a b => Nat.le_total _ _⟩
    have htrans : IsTrans ActionRecord fun a b => b.createdAt ≤ a.createdAt := ⟨fun _ _ _ h h' => h'.trans h⟩
    exact pairwise_insertionSort _ as
  ties t := by
    unfold RecoveryService.newestFirst
    induction as with
    | nil => rfl
    | cons a as ih =>
      rw [insertionSort_cons, filter_orderedInsert, filter_cons, ih, filter_cons]

theorem Backwards.head_le {journal as bs : List ActionRecord} {a b : ActionRecord}
    (h : Backwards journal (a :: as)) (h' : Backwards journal (b :: bs)) : a.createdAt ≤ b.createdAt := by
  have hmem : a ∈ (b :: bs).filter (·.createdAt = a.createdAt) := by
    rw [h'.ties, ← h.ties]
    exact mem_filter.mpr ⟨mem_cons_self, decide_eq_true rfl⟩
  rcases mem_cons.mp (mem_filter.mp hmem).1 with rfl | hmem
  · exact le_rfl
  · exact (pairwise_cons.mp h'.sorted).1 a hmem

theorem Backwards.unique {journal order order' : List ActionRecord} (h : Backwards journal order)
    (h' : Backwards journal order') : order = order' := by
  induction order generalizing journal order' with
  | nil =>
    cases order' with
    | nil => rfl
    | cons b bs => simpa using (h.ties b.createdAt).trans (h'.ties b.createdAt).symm
  | cons a as ih =>
    cases order' with
    | nil => simpa using (h'.ties a.createdAt).trans (h.ties a.createdAt).symm
    | cons b bs =>
      have htime := le_antisymm (h.head_le h') (h'.head_le h)
      have hfilter := (h.ties a.createdAt).trans (h'.ties a.createdAt).symm
      rw [filter_cons, filter_cons, if_pos (decide_eq_true rfl), if_pos (decide_eq_true htime.symm)] at hfilter
      obtain ⟨rfl, -⟩ := List.cons.inj hfilter
      rw [ih ⟨(pairwise_cons.mp h.sorted).2, fun _ => rfl⟩ ⟨(pairwise_cons.mp h'.sorted).2, fun t => ?_⟩]
      have hboth := (h.ties t).trans (h'.ties t).symm
      simp only [filter_cons] at hboth
      split at hboth
      · exact (List.cons.inj hboth).2.symm
      · exact hboth.symm

/-! ## The states restored -/

theorem restoredStates_eq_nil (h : x ∉ a.objectsTouched) : restoredStates svc x a = [] := by
  unfold restoredStates
  split
  · rfl
  · rw [entriesFor, map_eq_nil_iff, filter_eq_nil_iff]
    rintro e - hcond
    obtain ⟨hmem, rfl⟩ := of_decide_eq_true hcond
    exact h hmem

theorem ShowsStart.eq_of_mem_restoredStates (h : ShowsStart w) (ha : a ∈ w.service.actions) {st : Started F V}
    (hst : w.started a.actionId = some st) {state : Option (NodeRecord F V)}
    (hstate : state ∈ restoredStates w.service x a) : state = st.graph.index.visibleNode st.runner x := by
  obtain ⟨st', hst', -, hsnap⟩ := h a ha
  cases hst.symm.trans hst'
  unfold restoredStates at hstate
  split at hstate
  · exact absurd hstate not_mem_nil
  · next hget =>
    obtain rfl := hsnap _ hget
    obtain ⟨e, he, rfl⟩ := mem_map.mp hstate
    obtain ⟨he, hcond⟩ := mem_filter.mp he
    obtain ⟨y, -, rfl⟩ := mem_map.mp he
    obtain ⟨-, rfl⟩ := of_decide_eq_true hcond
    rfl

theorem ShowsStart.restoredStates_ne_nil (h : ShowsStart w) (ha : a ∈ w.service.actions)
    (hx : x ∈ a.objectsTouched) (hsome : w.service.snapshots[a.recoveryPointBefore]?.isSome = true) :
    restoredStates w.service x a ≠ [] := by
  obtain ⟨st, -, -, hsnap⟩ := h a ha
  obtain ⟨snapshot, hget⟩ := isSome_iff_exists.mp hsome
  obtain rfl := hsnap snapshot hget
  rw [restoredStates, hget]
  refine ne_nil_of_mem (a := st.graph.index.visibleNode st.runner x)
    (mem_map.mpr ⟨(x, _), mem_filter.mpr ⟨mem_map.mpr ⟨x, hx, rfl⟩, ?_⟩, rfl⟩)
  exact decide_eq_true ⟨hx, rfl⟩

theorem restoreEach_isSome {records : List ActionRecord}
    (h : svc.restoreEach S C call turns records g = (.ok (), g')) :
    ∀ a ∈ records, svc.snapshots[a.recoveryPointBefore]?.isSome = true := by
  induction records generalizing turns g with
  | nil => exact fun _ ha => absurd ha not_mem_nil
  | cons record records ih =>
    unfold RecoveryService.restoreEach at h
    split at h
    · exact nomatch h
    · next hfirst =>
      intro a ha
      rcases mem_cons.mp ha with rfl | ha
      · unfold RecoveryService.restoreObjects at hfirst
        split at hfirst
        · exact nomatch hfirst
        · next hget => rw [hget, isSome_some]
      · exact ih h a ha

theorem undo_eq_targeted {svc svc' : RecoveryService F V} {ids : List ActionId}
    (h : svc.undo S C g call turns scope = (.ok (.targeted ids), svc', g')) :
    ∃ svc₁ : RecoveryService F V, svc₁.snapshots = svc.snapshots ∧
      svc₁.restoreEach S C call turns (RecoveryService.newestFirst (svc.selected .committed scope)) g =
        (.ok (), g') := by
  unfold RecoveryService.undo at h
  split at h
  · exact nomatch h
  · dsimp only at h
    split at h
    · exact nomatch h
    · split at h
      · exact nomatch h
      · have hcapture := captureEach_restated S svc g call turns
          (RecoveryService.newestFirst (svc.selected .committed scope))
        split at h
        · exact nomatch h
        · next svc₁ hres =>
          rw [hres] at hcapture
          split at h
          · exact nomatch h
          · next hrestore =>
            obtain ⟨-, hpair⟩ := Prod.mk.inj h
            obtain ⟨-, rfl⟩ := Prod.mk.inj hpair
            exact ⟨svc₁, hcapture.snapshots, hrestore⟩

/-- The scope unwinds on the object: the boundary ran the first action on it, and the others were created
later; and if the boundary saw it at the start of the first, it had the default provenance, no action found
it absent, and it is not deleted or another's now. -/
structure Unwinds (w : World F V A) (boundary : TrustBoundaryId) (scope : UndoScope) (x : NodeId)
    (a : ActionRecord) (st : Started F V) : Prop where
  runner : st.runner = boundary
  later : ∀ b ∈ w.service.selected .committed scope, x ∈ b.objectsTouched → b = a ∨ a.createdAt < b.createdAt
  kept : ∀ c, shows st.graph boundary x = some c → c.Plain ∧
    standing boundary w.graph.index.nodes[x]? ≠ .foreign ∧ standing boundary w.graph.index.nodes[x]? ≠ .deleted ∧
    ∀ b ∈ w.service.selected .committed scope, none ∉ restoredStates w.service x b

theorem Unwinds.gives {boundary : TrustBoundaryId} {st : Started F V} (h : Unwinds w boundary scope x a st)
    (hstart : ShowsStart w) (ha : a ∈ w.service.selected .committed scope) (hst : w.started a.actionId = some st)
    (hne : restoredStates w.service x a ≠ []) :
    (standing boundary w.graph.index.nodes[x]?).Gives ((RecoveryService.newestFirst
      (w.service.selected .committed scope)).flatMap (restoredStates w.service x)) (shows st.graph boundary x) := by
  have hperm := newestFirst_perm (w.service.selected .committed scope)
  obtain ⟨pre, post, hsplit⟩ := append_of_mem (hperm.mem_iff.mpr ha)
  have hsorted := (backwards_newestFirst (w.service.selected .committed scope)).sorted
  rw [hsplit] at hsorted
  -- what is undone from the first action on leaves the object as that action found it
  have hsame : ∀ state ∈ (a :: post).flatMap (restoredStates w.service x),
      state = st.graph.index.visibleNode boundary x := by
    intro state hmem
    obtain ⟨b, hb, hstate⟩ := mem_flatMap.mp hmem
    have hba : b = a := by
      rcases mem_cons.mp hb with rfl | hpost
      · rfl
      · by_cases hx : x ∈ b.objectsTouched
        · have hmem := hperm.mem_iff.mp (hsplit ▸ mem_append_right pre hb)
          refine (h.later b hmem hx).resolve_right fun hlater => ?_
          have hle := (pairwise_cons.mp (pairwise_append.mp hsorted).2.1).1 b hpost
          omega
        · rw [restoredStates_eq_nil hx] at hstate
          exact absurd hstate not_mem_nil
    subst hba
    rw [← h.runner]
    exact hstart.eq_of_mem_restoredStates (mem_filter.mp ha).1 hst hstate
  have hlast : ((RecoveryService.newestFirst (w.service.selected .committed scope)).flatMap
      (restoredStates w.service x)).getLast? = some (st.graph.index.visibleNode boundary x) := by
    have hnonempty : (a :: post).flatMap (restoredStates w.service x) ≠ [] :=
      fun hnil => hne (flatMap_eq_nil_iff.mp hnil a mem_cons_self)
    rw [hsplit, flatMap_append, List.getLast?_append_of_ne_nil _ hnonempty, List.getLast?_eq_some_getLast hnonempty,
      hsame _ (getLast_mem hnonempty)]
  cases hshows : shows st.graph boundary x with
  | none => exact Standing.gives_none _ (hlast.trans (congrArg some (map_eq_none_iff.mp hshows)))
  | some c =>
    obtain ⟨hplain, hforeign, hdeleted, hthere⟩ := h.kept c hshows
    obtain ⟨r, hr, rfl⟩ := map_eq_some_iff.mp hshows
    refine ⟨hforeign, hdeleted, fun hmem => ?_, r, hlast.trans (congrArg some hr), hplain.restoredContent_eq⟩
    obtain ⟨b, hb, hnone⟩ := mem_flatMap.mp (Standing.effective_subset _ hmem)
    exact hthere b (hperm.mem_iff.mp hb) hnone

/-- **An `undo` leaves the nodes that its actions do not touch. The others it shows its boundary as they
were when the first of the actions that touch them was started if and only if the states that the actions
captured, restored from the last created action to the first and at one time as the journal has them, give
that content; and this they do if the scope unwinds.** -/
theorem undo_restores_past [F32 F] {agents : A}
    (h : Reached S R (fun w (op : Op F C) => TakesPoint w op) agents w) {call : Call C}
    {turns : Nat → Turn C} {scope : UndoScope} {ids : List ActionId} {svc' : RecoveryService F V}
    {g' : KnowledgeGraph F V}
    (hundo : w.service.undo S C w.graph call turns scope = (.ok (.targeted ids), svc', g')) :
    (∀ x a, firstInScope w.service scope x = some a → ∃ st, w.started a.actionId = some st ∧
      ∀ reader : Caller, reader.token.origin = call.callerBoundary → Graph.require reader .read = .ok () →
        ((g'.get reader x).map content = (st.graph.get reader x).map content ↔
          ∃ order, Backwards (w.service.selected .committed scope) order ∧
            (standing call.callerBoundary w.graph.index.nodes[x]?).Gives
              (order.flatMap (restoredStates w.service x)) (shows st.graph call.callerBoundary x)) ∧
        (Unwinds w call.callerBoundary scope x a st →
          (g'.get reader x).map content = (st.graph.get reader x).map content)) ∧
    ∀ x, (∀ a ∈ w.service.selected .committed scope, x ∉ a.objectsTouched) →
      g'.index.nodes[x]? = w.graph.index.nodes[x]? := by
  obtain ⟨-, hstart⟩ := h.showsStart
  obtain ⟨svc₁, hsnapshots, hrestore⟩ := undo_eq_targeted hundo
  have hall : ∀ x, RestoresAll call.callerBoundary ((RecoveryService.newestFirst
      (w.service.selected .committed scope)).flatMap (restoredStates w.service x))
      w.graph.index.nodes[x]? g'.index.nodes[x]? := fun x => by
    rw [← restoredStates_congr hsnapshots x]
    exact restoreEach_restores hrestore x
  refine ⟨fun x a hfirst => ?_, fun x hout => ?_⟩
  · have hmem : a ∈ w.service.selected .committed scope := mem_of_find?_eq_some hfirst
    have hin := (newestFirst_perm _).mem_iff.mpr hmem
    obtain ⟨st, hst, -⟩ := hstart a (mem_filter.mp hmem).1
    refine ⟨st, hst, fun reader hreader hread => ?_⟩
    have hstates := hstart.restoredStates_ne_nil (mem_filter.mp hmem).1 (firstInScope_touches hfirst)
      (hsnapshots ▸ restoreEach_isSome hrestore a hin)
    have hiff := (hall x).shown_eq_iff (fun hnil => hstates (flatMap_eq_nil_iff.mp hnil a hin))
      (shows st.graph call.callerBoundary x)
    rw [get_content_eq_iff hread, hreader]
    refine ⟨hiff.trans ⟨fun hgives => ⟨_, backwards_newestFirst _, hgives⟩, fun ⟨order, horder, hgives⟩ => ?_⟩,
      fun hunwinds => hiff.mpr (hunwinds.gives hstart hmem hst hstates)⟩
    rwa [horder.unique (backwards_newestFirst _)] at hgives
  · have hnil : (RecoveryService.newestFirst (w.service.selected .committed scope)).flatMap
        (restoredStates w.service x) = [] := flatMap_eq_nil_iff.mpr fun b hb =>
      restoredStates_eq_nil (hout b ((newestFirst_perm _).mem_iff.mp hb))
    exact (hnil ▸ hall x).eq_of_nil

end

/-! ## A deletion, and two edits of one time -/

variable {actions : List ActionRecord} {point now now' : Nat} {left : Option String} {ids : List ActionId}
  {view : UndoneNote}

theorem takesPoint_of_takePoint {w w₁ : World Int Json Unit}
    (hexec : (takePoint now).exec jsonRecord noAgents w = some w₁) (hnext : w.service.nextPointId = point)
    (hgrown : w₁.service.nextPointId = point + 1) : TakesPoint w₁ (startAction point now') := by
  have heffect := exec_effect jsonRecord noAgents hexec
  unfold takePoint at heffect
  cases heffect with
  | restated hrestated _ => exact absurd (hgrown.symm.trans (hrestated.nextPointId.trans hnext)) (by omega)
  | created =>
    subst hnext
    exact (HashMap.get_insert _ _ _ _).trans (if_pos rfl)

/-- In a run of the operations every action takes its point. -/
def Regular (ops : List (Op Int jsonSerde.plain)) : Prop :=
  ∀ w, runAll jsonRecord noAgents (.empty ()) ops = some w →
    Reached jsonRecord noAgents (fun w (op : Op Int jsonSerde.plain) => TakesPoint w op) () w

theorem Regular.action {before rest : List (Op Int jsonSerde.plain)} (hbefore : Regular before)
    (hpoint : (runAll jsonRecord noAgents (.empty ()) before).map (·.service.nextPointId) = some point)
    (hcreated : (runAll jsonRecord noAgents (.empty ()) (before ++ [takePoint now])).map
      (·.service.nextPointId) = some (point + 1))
    (hrest : ∀ op ∈ rest, ∀ w : World Int Json Unit, TakesPoint w op) :
    Regular (before ++ takePoint now :: startAction point now' :: rest) := by
  intro w hrun
  rw [runAll_append] at hrun hcreated
  obtain ⟨w₀, hw₀, hrun⟩ := bind_eq_some_iff.mp hrun
  rw [hw₀] at hpoint hcreated
  rw [runAll_cons] at hrun
  obtain ⟨w₁, hw₁, hrun⟩ := bind_eq_some_iff.mp hrun
  rw [bind_some, runAll_cons, hw₁] at hcreated
  rw [runAll_cons] at hrun
  obtain ⟨w₂, hw₂, hrun⟩ := bind_eq_some_iff.mp hrun
  have htakes : TakesPoint w₁ (startAction point now') :=
    takesPoint_of_takePoint hw₁ (some.inj hpoint) (some.inj hcreated)
  exact Reached.runAll jsonRecord noAgents (((hbefore w₀ hw₀).tail ⟨takePoint now, trivial, hw₁⟩).tail
    ⟨startAction point now', htakes, hw₂⟩) hrest hrun

def oneNote : List (Op Int jsonSerde.plain) := [writeNote none "old"]

theorem regular_oneNote : Regular oneNote := by
  intro w hrun
  refine Reached.runAll jsonRecord noAgents .refl (fun op hop w => ?_) hrun
  cases mem_singleton.mp hop
  trivial

def committing (id : ActionId) (op : Op Int jsonSerde.plain) : List (Op Int jsonSerde.plain) :=
  [op, .recordActionCommitted id]

def oneEdit (text : String) : List (Op Int jsonSerde.plain) :=
  oneNote ++ takePoint 1 :: startAction 1 1 :: committing 1 (writeNote (some 0) text)

def oneDeletion : List (Op Int jsonSerde.plain) :=
  oneNote ++ takePoint 1 :: startAction 1 1 :: committing 1 (.graph (.deleteNode keeper 0))

def twoEdits (time : Nat) : List (Op Int jsonSerde.plain) :=
  oneEdit "first" ++ takePoint 1 :: startAction 2 time :: committing 2 (writeNote (some 0) "second")

theorem regular_oneEdit (text : String) : Regular (oneEdit text) :=
  regular_oneNote.action (by decide +kernel) (by decide +kernel) (by simp [committing, TakesPoint, writeNote])

theorem regular_oneDeletion : Regular oneDeletion :=
  regular_oneNote.action (by decide +kernel) (by decide +kernel) (by simp [committing, TakesPoint])

theorem regular_twoEdits (time : Nat) : Regular (twoEdits time) :=
  (regular_oneEdit "first").action (by decide +kernel) (by decide +kernel)
    (by simp [committing, TakesPoint, writeNote])

def committedRecord (id : ActionId) (createdAt : Nat) : ActionRecord :=
  ⟨id, none, some 5, none, id, [0], .committed, createdAt, "edit"⟩

/-- The committed actions and whether they found the note there, who ran the first and how it found the
note, whether the note is there, and what undoing the session returns and leaves. -/
structure UndoneNote where
  selected : List ActionRecord
  found : List (List Bool)
  runner : Option TrustBoundaryId
  before : Option (Option (String × Bool))
  there : Bool
  undone : Option (List ActionId × Option String)
deriving DecidableEq

def undoneNote (w : World Int Json Unit) : UndoneNote where
  selected := w.service.selected .committed (.session 5)
  found := (w.service.selected .committed (.session 5)).map fun a =>
    (restoredStates w.service 0 a).map (·.isSome)
  runner := (w.started 1).map (·.runner)
  before := (w.started 1).map fun st => (shows st.graph 7 0).map noteView
  there := isThere (standing 7 w.graph.index.nodes[0]?)
  undone :=
    match w.service.undo jsonRecord jsonSerde.plain w.graph keeper steady (.session 5) with
    | (.ok (.targeted ids), _, g') => some (ids, (shows g' 7 0).map noteText)
    | _ => none

theorem of_undoneNote {w : World Int Json Unit} (h : undoneNote w = view)
    (hselected : view.selected = committedRecord 1 1 :: actions) {text : String}
    (hbefore : view.before = some (some (text, true)))
    (hundone : view.undone = some (ids, left)) : ∃ svc' g' st c,
      w.service.undo jsonRecord jsonSerde.plain w.graph keeper steady (.session 5) =
        (.ok (.targeted ids), svc', g') ∧
      firstInScope w.service (.session 5) 0 = some (committedRecord 1 1) ∧
      w.started 1 = some st ∧ shows st.graph 7 0 = some c ∧ noteText c = text ∧ c.Plain ∧
      (shows g' 7 0).map noteText = left := by
  subst h
  obtain ⟨st, hst, hnote⟩ := map_eq_some_iff.mp hbefore
  obtain ⟨c, hc, hview⟩ := map_eq_some_iff.mp hnote
  obtain ⟨htext, hplain⟩ := Prod.mk.inj hview
  have hfirst : firstInScope w.service (.session 5) 0 = some (committedRecord 1 1) := by
    rw [firstInScope, show w.service.selected .committed (.session 5) = _ from hselected]
    rfl
  simp only [undoneNote] at hundone
  split at hundone
  · next ids' svc' g' hres =>
    obtain ⟨rfl, hleft⟩ := Prod.mk.inj (some.inj hundone)
    exact ⟨svc', g', st, c, hres, hfirst, hst, hc, htext, plain_of_decide hplain, hleft⟩
  · exact nomatch hundone

def noteReader : Caller := ⟨keeper.monitor, keeper.token, 0⟩

theorem noteReader_may_read : Graph.require noteReader .read = .ok () := by decide +kernel

theorem undo_restores_past_edits : ∃ w svc' g' st,
    Reached jsonRecord noAgents (fun w (op : Op Int jsonSerde.plain) => TakesPoint w op) () w ∧
      w.service.undo jsonRecord jsonSerde.plain w.graph keeper steady (.session 5) =
        (.ok (.targeted [2, 1]), svc', g') ∧
      w.started 1 = some st ∧ (shows st.graph 7 0).map noteText = some "old" ∧
      (g'.get noteReader 0).map content = (st.graph.get noteReader 0).map content := by
  have hrun : (runAll jsonRecord noAgents (.empty ()) (twoEdits 2)).map undoneNote =
      some ⟨[committedRecord 1 1, committedRecord 2 2], [[true], [true]], some 7, some (some ("old", true)), true,
        some ([2, 1], some "old")⟩ := by
    decide +kernel
  obtain ⟨w, hw, hview⟩ := map_eq_some_iff.mp hrun
  obtain ⟨svc', g', st, c, hundo, hfirst, hst, hc, htext, hplain, -⟩ := of_undoneNote hview rfl rfl rfl
  have hreach := regular_twoEdits 2 w hw
  have hselected : w.service.selected .committed (.session 5) = [committedRecord 1 1, committedRecord 2 2] :=
    congrArg UndoneNote.selected hview
  have hfound : (w.service.selected .committed (.session 5)).map (fun a =>
      (restoredStates w.service 0 a).map (·.isSome)) = [[true], [true]] := congrArg UndoneNote.found hview
  have hrunner : (w.started 1).map (·.runner) = some 7 := congrArg UndoneNote.runner hview
  rw [hst] at hrunner
  obtain ⟨hforeign, hdeleted⟩ := of_isThere (congrArg UndoneNote.there hview)
  obtain ⟨st', hst', hiff⟩ := (undo_restores_past hreach hundo).1 0 _ hfirst
  cases hst.symm.trans hst'
  refine ⟨w, svc', g', st, hreach, hundo, hst, by rw [hc, map_some, htext], ?_⟩
  refine (hiff noteReader rfl noteReader_may_read).2 ⟨some.inj hrunner, fun b hb _ => ?_, fun c' hc' => ?_⟩
  · rw [hselected] at hb
    simp only [mem_cons, not_mem_nil, or_false] at hb
    rcases hb with rfl | rfl
    · exact .inl rfl
    · exact .inr (by decide)
  · obtain rfl := some.inj (hc.symm.trans hc')
    refine ⟨hplain, hforeign, hdeleted, fun b hb hnone => ?_⟩
    have hmem : (restoredStates w.service 0 b).map (·.isSome) ∈ [[true], [true]] :=
      hfound ▸ mem_map_of_mem hb
    have hfalse : false ∈ (restoredStates w.service 0 b).map (·.isSome) := mem_map_of_mem hnone
    rw [show (restoredStates w.service 0 b).map (·.isSome) = [true] by simpa using hmem] at hfalse
    exact absurd hfalse (by decide)

/-- Undoing the session after the operations does not give the note back. -/
def MissesPast (ops : List (Op Int jsonSerde.plain)) : Prop :=
  ∃ w svc' g' ids a st, runAll jsonRecord noAgents (.empty ()) ops = some w ∧
    Reached jsonRecord noAgents (fun w (op : Op Int jsonSerde.plain) => TakesPoint w op) () w ∧
    w.service.undo jsonRecord jsonSerde.plain w.graph keeper steady (.session 5) =
      (.ok (.targeted ids), svc', g') ∧
    firstInScope w.service (.session 5) 0 = some a ∧ w.started a.actionId = some st ∧
    (g'.get noteReader 0).map content ≠ (st.graph.get noteReader 0).map content

theorem missesPast_of_view {ops : List (Op Int jsonSerde.plain)} (hregular : Regular ops)
    (hrun : (runAll jsonRecord noAgents (.empty ()) ops).map undoneNote = some view)
    (hselected : view.selected = committedRecord 1 1 :: actions)
    (hbefore : view.before = some (some ("old", true))) (hundone : view.undone = some (ids, left))
    (hleft : left ≠ some "old") : MissesPast ops := by
  obtain ⟨w, hw, hview⟩ := map_eq_some_iff.mp hrun
  obtain ⟨svc', g', st, c, hundo, hfirst, hst, hc, htext, -, hafter⟩ :=
    of_undoneNote hview hselected hbefore hundone
  refine ⟨w, svc', g', ids, _, st, hw, hregular w hw, hundo, hfirst, hst, fun heq => hleft ?_⟩
  have hsame : shows g' 7 0 = shows st.graph 7 0 := (get_content_eq_iff noteReader_may_read 0).mp heq
  rw [← hafter, hsame, hc, map_some, htext]

/-- **Undoing a deletion leaves the note deleted, and undoing two edits of one time leaves the first.** -/
theorem undo_misses_past : MissesPast oneDeletion ∧ MissesPast (twoEdits 1) := by
  have hdeletion : (runAll jsonRecord noAgents (.empty ()) oneDeletion).map undoneNote =
      some ⟨[committedRecord 1 1], [[true]], some 7, some (some ("old", true)), false, some ([1], none)⟩ := by
    decide +kernel
  have hedits : (runAll jsonRecord noAgents (.empty ()) (twoEdits 1)).map undoneNote =
      some ⟨[committedRecord 1 1, committedRecord 2 1], [[true], [true]], some 7, some (some ("old", true)), true,
        some ([1, 2], some "first")⟩ := by
    decide +kernel
  exact ⟨missesPast_of_view regular_oneDeletion hdeletion rfl rfl rfl (by decide),
    missesPast_of_view (regular_twoEdits 1) hedits rfl rfl rfl (by decide)⟩

end Hyperion.Recovery
