import Hyperion.Privacy.Consent
import Hyperion.Recovery.Restore

/-!
# Erasure

`erase` and `expire_lapsed_soft_deletes` of `hyperion-privacy`. A soft delete writes a placeholder over
each object under an action of the recovery service, which `undo` reverts; a shred deletes each object and
purges its history from the log. The sweep turns soft deletes that are old enough into shreds. It asks for
each action in turn whether its objects are visible, after the objects of the actions before are shredded.
-/

namespace Hyperion.Privacy
open Lib Capability Storage Hyperion.Graph Recovery RecoveryService

inductive ErasureMode
  | softDelete
  | cryptoShred
deriving DecidableEq, Repr

structure ErasureReceipt where
  objectIds : List NodeId
  mode : ErasureMode
  completedAt : Option Nat
  gracePeriodAction : Option ActionId
deriving DecidableEq, Repr

def softDeleteNote : String := "hyperion-privacy erase (soft-delete)"

/-- What the erasure of one object reads from outside: in `put_node` or `delete_node`, and in
`purge_node_history`. -/
structure ObjectTurn {V : Type} (C : Codec V) where
  write : Readings C
  purge : Readings C

/-- What `erase` reads from outside: the clock in `recovery_point_create` and at each object of the
recovery point, and what each object reads. -/
structure EraseTurn {V : Type} (C : Codec V) where
  pointAt : Instant
  reads : Nat → Instant
  objects : Nat → ObjectTurn C

/-- What the sweep reads from outside at one action. -/
structure SweepTurn {V : Type} (C : Codec V) where
  reads : Nat → Instant
  objects : Nat → ObjectTurn C

section
variable {F V : Type} (S : Serde F V) (C : Codec V)

variable (erased : V)

/-- One turn of the loop of `erase`; `erased` is the JSON object of the placeholder. -/
def eraseObject (mode : ErasureMode) (call : Call C) (turn : ObjectTurn C) (id : NodeId)
    (g : KnowledgeGraph F V) : Except PrivacyError Unit × KnowledgeGraph F V :=
  match mode with
  | .softDelete =>
    match g.putNode S C { call with toReadings := turn.write } (some id) "Erased" none erased with
    | (.error err, g) => (.error (.graph err), g)
    | (.ok _, g) => (.ok (), g)
  | .cryptoShred =>
    match g.deleteNode S C { call with toReadings := turn.write } id with
    | (.error err, g) => (.error (.graph err), g)
    | (.ok (), g) =>
      match g.purgeNodeHistory C { call with toReadings := turn.purge } id with
      | (.ok _, g) => (.ok (), g)
      | (.error .notFound, g) => (.ok (), g)
      | (.error err, g) => (.error (.graph err), g)

def eraseEach (mode : ErasureMode) (call : Call C) : (Nat → ObjectTurn C) → List NodeId →
    KnowledgeGraph F V → Except PrivacyError Unit × KnowledgeGraph F V
  | _, [], g => (.ok (), g)
  | turns, id :: ids, g =>
    match eraseObject S C erased mode call (turns 0) id g with
    | (.error err, g) => (.error err, g)
    | (.ok (), g) => eraseEach mode call (fun i => turns (i + 1)) ids g

variable (svc : RecoveryService F V) (g : KnowledgeGraph F V) (call : Call C)

variable {C} in
/-- The recovery point and the action that `erase` opens for a soft delete. -/
def openGracePeriod (turn : EraseTurn C) (objectIds : List NodeId) (now : Nat) :
    ErasureMode → Except PrivacyError (Option ActionId) × RecoveryService F V
  | .softDelete =>
    match svc.recoveryPointCreate g ⟨call.monitor, call.token, turn.pointAt⟩ turn.reads .userRequested
        objectIds now with
    | (.error err, svc) => (.error (.recovery err), svc)
    | (.ok pointId, svc) =>
      let (actionId, svc) := svc.recordActionStarted pointId objectIds none softDeleteNote now
      (.ok (some actionId), svc)
  | .cryptoShred => (.ok none, svc)

def erase (turn : EraseTurn C) (objectIds : List NodeId) (mode : ErasureMode) (now : Nat) :
    Except PrivacyError ErasureReceipt × RecoveryService F V × KnowledgeGraph F V :=
  match require ⟨call.monitor, call.token, call.requireAt⟩ .write with
  | .error err => (.error err, svc, g)
  | .ok () =>
    match openGracePeriod svc g call turn objectIds now mode with
    | (.error err, svc) => (.error err, svc, g)
    | (.ok gracePeriodAction, svc) =>
      match eraseEach S C erased mode call turn.objects objectIds g with
      | (.error err, g) => (.error err, svc, g)
      | (.ok (), g) =>
        let receipt : ErasureReceipt := ⟨objectIds, mode, some now, gracePeriodAction⟩
        match gracePeriodAction with
        | none => (.ok receipt, svc, g)
        | some actionId =>
          match svc.recordActionCommitted actionId with
          | (.error err, svc) => (.error (.recovery err), svc, g)
          | (.ok (), svc) => (.ok receipt, svc, g)

/-! ## The sweep -/

def allVisible (g : KnowledgeGraph F V) (monitor : CapabilityMonitor) (token : CapabilityToken) :
    (Nat → Instant) → List NodeId → Bool
  | _, [] => true
  | reads, id :: ids =>
    (g.get ⟨monitor, token, reads 0⟩ id).toBool &&
      allVisible g monitor token (fun i => reads (i + 1)) ids

/-- The loop of the sweep over the objects of an action; what fails is passed over. -/
def shredEach (call : Call C) : (Nat → ObjectTurn C) → List NodeId → KnowledgeGraph F V →
    KnowledgeGraph F V
  | _, [], g => g
  | turns, id :: ids, g =>
    let g := (g.deleteNode S C { call with toReadings := (turns 0).write } id).2
    let g := (g.purgeNodeHistory C { call with toReadings := (turns 0).purge } id).2
    shredEach call (fun i => turns (i + 1)) ids g

/-- The action is a soft delete that can still be undone and is at least as old as the grace period. -/
def lapsed (now gracePeriodSecs : Nat) (record : ActionRecord) : Bool :=
  record.status = .committed ∧ record.note = softDeleteNote ∧ gracePeriodSecs ≤ now - record.createdAt

/-- The loop of the sweep over the actions. -/
def expireEach (call : Call C) (now gracePeriodSecs : Nat) : (Nat → SweepTurn C) → List ActionRecord →
    RecoveryService F V → KnowledgeGraph F V → List ActionId × RecoveryService F V × KnowledgeGraph F V
  | _, [], svc, g => ([], svc, g)
  | turns, record :: records, svc, g =>
    if lapsed now gracePeriodSecs record ∧
        allVisible g call.monitor call.token (turns 0).reads record.objectsTouched then
      match svc.expire record.actionId with
      | (.error _, svc) => expireEach call now gracePeriodSecs (fun i => turns (i + 1)) records svc g
      | (.ok (), svc) =>
        let g := shredEach S C call (turns 0).objects record.objectsTouched g
        let (ids, rest) := expireEach call now gracePeriodSecs (fun i => turns (i + 1)) records svc g
        (record.actionId :: ids, rest)
    else expireEach call now gracePeriodSecs (fun i => turns (i + 1)) records svc g

def expireLapsedSoftDeletes (turns : Nat → SweepTurn C) (now gracePeriodSecs : Nat) :
    Except PrivacyError (List ActionId) × RecoveryService F V × KnowledgeGraph F V :=
  match require ⟨call.monitor, call.token, call.requireAt⟩ .write with
  | .error err => (.error err, svc, g)
  | .ok () =>
    let (ids, rest) := expireEach S C call now gracePeriodSecs turns svc.actions svc g
    (.ok ids, rest)

end

/-! ## Histories -/

section
variable {F V A I : Type} {C : Codec V} (S : Serde F V) (R : AgentRuntime A I)

/-- `erase` in a world; the action that it starts is one of the caller's boundary. -/
def eraseIn (w : World F V A) (erased : V) (call : Call C) (turn : EraseTurn C) (objectIds : List NodeId)
    (mode : ErasureMode) (now : Nat) : Except PrivacyError ErasureReceipt × World F V A :=
  let (result, service, graph) := erase S C erased w.service w.graph call turn objectIds mode now
  (result, { w with
    service := service
    graph := graph
    started :=
      if service.nextActionId = w.service.nextActionId then w.started
      else Function.update w.started w.service.nextActionId (some ⟨call.token.origin, w.graph, true⟩) })

def sweepIn (w : World F V A) (call : Call C) (turns : Nat → SweepTurn C) (now gracePeriodSecs : Nat) :
    Except PrivacyError (List ActionId) × World F V A :=
  let (result, service, graph) :=
    expireLapsedSoftDeletes S C w.service w.graph call turns now gracePeriodSecs
  (result, { w with service := service, graph := graph })

/-- The worlds that writes of the graph, calls of the recovery service, erasures and sweeps lead to. -/
inductive History [F32 F] : World F V A → Prop
  | start (agents : A) : History (.empty agents)
  | exec {w w' : World F V A} (op : Recovery.Op F C) (h : History w) (hexec : op.exec S R w = some w') :
      History w'
  | erase {w : World F V A} (erased : V) (call : Call C) (turn : EraseTurn C) (objectIds : List NodeId)
      (mode : ErasureMode) (now : Nat) (h : History w) :
      History (eraseIn S w erased call turn objectIds mode now).2
  | sweep {w : World F V A} (call : Call C) (turns : Nat → SweepTurn C) (now gracePeriodSecs : Nat)
      (h : History w) : History (sweepIn S w call turns now gracePeriodSecs).2

variable (C) in
/-- Some operations of the graph and of the recovery service lead from the one world to the other. -/
def Leads [F32 F] : World F V A → World F V A → Prop :=
  Relation.ReflTransGen fun w w' => ∃ op : Recovery.Op F C, op.exec S R w = some w'

theorem recoveryPointCreate_nextActionId (svc : RecoveryService F V) (g : KnowledgeGraph F V)
    (caller : Caller) (reads : Nat → Instant) (trigger : Trigger) (objects : List NodeId) (now : Nat) :
    (svc.recoveryPointCreate g caller reads trigger objects now).2.nextActionId = svc.nextActionId := by
  unfold recoveryPointCreate
  split
  · rfl
  · split <;> rfl

theorem recoveryPointCreate_anchored {svc svc' : RecoveryService F V} {g : KnowledgeGraph F V}
    {caller : Caller} {reads : Nat → Instant} {trigger : Trigger} {objects : List NodeId} {now : Nat}
    {point : RecoveryPointId}
    (h : svc.recoveryPointCreate g caller reads trigger objects now = (.ok point, svc')) :
    svc'.snapshots[point]?.isSome = true := by
  unfold recoveryPointCreate at h
  split at h
  · cases h
  · split at h
    · cases h
    · cases h
      simp

section
variable (erased : V) (svc : RecoveryService F V) (g : KnowledgeGraph F V) (call : Call C) (turn : EraseTurn C)
  (objectIds : List NodeId) (mode : ErasureMode) (now : Nat)

/-- The ways a call of `erase` can end: it is refused, the grace period cannot be opened, or the objects are erased
one after the other and then the grace period may be closed. -/
inductive EraseOutcome : Except PrivacyError ErasureReceipt × RecoveryService F V × KnowledgeGraph F V → Prop
  | refused {err : PrivacyError} : EraseOutcome (.error err, svc, g)
  | unopened {err : PrivacyError} {svc₁ : RecoveryService F V}
      (hopen : openGracePeriod svc g call turn objectIds now mode = (.error err, svc₁)) :
      EraseOutcome (.error err, svc₁, g)
  | went {result : Except PrivacyError ErasureReceipt} {action : Option ActionId} {svc₁ svc₂ : RecoveryService F V}
      (hopen : openGracePeriod svc g call turn objectIds now mode = (.ok action, svc₁))
      (hclose : svc₂ = svc₁ ∨ ∃ id, action = some id ∧ svc₂ = (svc₁.recordActionCommitted id).2)
      (hresult : ∀ receipt, result = .ok receipt →
        (eraseEach S C erased mode call turn.objects objectIds g).1 = .ok ()) :
      EraseOutcome (result, svc₂, (eraseEach S C erased mode call turn.objects objectIds g).2)

variable {S erased svc g call turn objectIds mode now} in
theorem erase_outcome {out} (h : erase S C erased svc g call turn objectIds mode now = out) :
    EraseOutcome S erased svc g call turn objectIds mode now out := by
  subst h
  unfold erase
  cases require ⟨call.monitor, call.token, call.requireAt⟩ .write with
  | error err => exact .refused
  | ok u =>
    rcases hopen : openGracePeriod svc g call turn objectIds now mode with ⟨result, svc₁⟩
    cases result with
    | error err => exact .unopened hopen
    | ok action =>
      rcases heach : eraseEach S C erased mode call turn.objects objectIds g with ⟨result, g'⟩
      obtain rfl : (eraseEach S C erased mode call turn.objects objectIds g).2 = g' := congrArg Prod.snd heach
      cases result with
      | error err => exact .went hopen (.inl rfl) nofun
      | ok u =>
        cases action with
        | none => exact .went hopen (.inl rfl) fun _ _ => congrArg Prod.fst heach
        | some id =>
          rcases hcommit : svc₁.recordActionCommitted id with ⟨result, svc₂⟩
          simp only [hcommit]
          cases result with
          | error | ok =>
            exact .went hopen (.inr ⟨id, rfl, (congrArg Prod.snd hcommit).symm⟩) fun _ _ => congrArg Prod.fst heach

end

section
variable [F32 F] {S R} (call : Call C)

theorem Leads.step {w w' : World F V A} (op : Recovery.Op F C) (h : op.exec S R w = some w') :
    Leads C S R w w' :=
  .single ⟨op, h⟩

theorem eraseObject_leads (erased : V) (mode : ErasureMode) (turn : ObjectTurn C) (id : NodeId)
    (w : World F V A) :
    Leads C S R w { w with graph := (eraseObject S C erased mode call turn id w.graph).2 } := by
  cases mode with
  | softDelete =>
    have hput : Leads C S R w { w with graph := (w.graph.putNode S C
        { call with toReadings := turn.write } (some id) "Erased" none erased).2 } :=
      .step (.graph (.putNode { call with toReadings := turn.write }
        ⟨some id, "Erased", none, erased, 0, .default, 0⟩)) rfl
    unfold eraseObject
    dsimp only
    split <;> next hres =>
      rw [hres] at hput
      exact hput
  | cryptoShred =>
    have hdelete : Leads C S R w { w with graph := (w.graph.deleteNode S C
        { call with toReadings := turn.write } id).2 } :=
      .step (.graph (.deleteNode { call with toReadings := turn.write } id)) rfl
    unfold eraseObject
    dsimp only
    split
    · next hres =>
      rw [hres] at hdelete
      exact hdelete
    · next g hres =>
      rw [hres] at hdelete
      have hpurge : Leads C S R { w with graph := g } { w with graph := (g.purgeNodeHistory C
          { call with toReadings := turn.purge } id).2 } :=
        .step (.graph (.purgeNodeHistory { call with toReadings := turn.purge } id)) rfl
      split <;> next hres =>
        rw [hres] at hpurge
        exact hdelete.trans hpurge

theorem eraseEach_leads (erased : V) (mode : ErasureMode) (turns : Nat → ObjectTurn C)
    (ids : List NodeId) (w : World F V A) :
    Leads C S R w { w with graph := (eraseEach S C erased mode call turns ids w.graph).2 } := by
  induction ids generalizing turns w with
  | nil => exact .refl
  | cons id ids ih =>
    have hone := eraseObject_leads (S := S) (R := R) call erased mode (turns 0) id w
    unfold eraseEach
    split
    · next hres =>
      rw [hres] at hone
      exact hone
    · next g hres =>
      rw [hres] at hone
      exact hone.trans (ih _ { w with graph := g })

variable {w : World F V A}

theorem openGracePeriod_leads {turn : EraseTurn C} {objectIds : List NodeId} {now : Nat} {mode : ErasureMode}
    {result : Except PrivacyError (Option ActionId)} {svc₁ : RecoveryService F V}
    (hopen : openGracePeriod w.service w.graph call turn objectIds now mode = (result, svc₁)) :
    Leads C S R w { w with
      service := svc₁
      started := if svc₁.nextActionId = w.service.nextActionId then w.started
        else Function.update w.started w.service.nextActionId (some ⟨call.token.origin, w.graph, true⟩) } := by
  cases mode with
  | cryptoShred =>
    cases hopen
    simp only [if_true]
    exact .refl
  | softDelete =>
    have hpoint : Leads C S R w { w with service := (w.service.recoveryPointCreate w.graph
        ⟨call.monitor, call.token, turn.pointAt⟩ turn.reads .userRequested objectIds now).2 } :=
      .step (.recoveryPointCreate _ turn.reads .userRequested objectIds now) rfl
    have hnext := recoveryPointCreate_nextActionId w.service w.graph ⟨call.monitor, call.token, turn.pointAt⟩
      turn.reads .userRequested objectIds now
    simp only [openGracePeriod] at hopen
    split at hopen
    · next hcreate =>
      cases hopen
      rw [hcreate] at hpoint hnext
      rw [if_pos hnext]
      exact hpoint
    · next point svc₁ hcreate =>
      cases hopen
      have hanchored := recoveryPointCreate_anchored hcreate
      rw [hcreate] at hpoint hnext
      dsimp only at hnext
      refine hpoint.tail ⟨.recordActionStarted call.token.origin point objectIds none none none softDeleteNote now, ?_⟩
      rw [if_neg (hnext ▸ Nat.succ_ne_self _)]
      simp only [Recovery.Op.exec, hanchored, hnext]
      rfl

theorem erase_leads (erased : V) (turn : EraseTurn C) (objectIds : List NodeId) (mode : ErasureMode)
    (now : Nat) (w : World F V A) : Leads C S R w (eraseIn S w erased call turn objectIds mode now).2 := by
  unfold eraseIn
  generalize hout : erase S C erased w.service w.graph call turn objectIds mode now = out
  cases erase_outcome hout with
  | refused =>
    simp only [if_true]
    exact .refl
  | unopened hopen => exact openGracePeriod_leads call hopen
  | @went _ _ svc₁ svc₂ hopen hclose =>
    have hnext : svc₂.nextActionId = svc₁.nextActionId := by
      rcases hclose with rfl | ⟨id, -, rfl⟩
      · rfl
      · exact (setStatus_restated _ _ _).nextActionId
    have heach := (openGracePeriod_leads (S := S) (R := R) call hopen).trans
      (eraseEach_leads call erased mode turn.objects objectIds _)
    simp only [hnext]
    rcases hclose with rfl | ⟨id, -, rfl⟩
    · exact heach
    · exact heach.tail ⟨.recordActionCommitted id, rfl⟩

theorem shredEach_leads (turns : Nat → ObjectTurn C) (ids : List NodeId) (w : World F V A) :
    Leads C S R w { w with graph := shredEach S C call turns ids w.graph } := by
  induction ids generalizing turns w with
  | nil => exact .refl
  | cons id ids ih =>
    have hdelete : Leads C S R w { w with graph := (w.graph.deleteNode S C
        { call with toReadings := (turns 0).write } id).2 } :=
      .step (.graph (.deleteNode { call with toReadings := (turns 0).write } id)) rfl
    refine (hdelete.tail ⟨.graph (.purgeNodeHistory { call with toReadings := (turns 0).purge } id),
      rfl⟩).trans ?_
    exact ih _ _

theorem expireEach_leads (now gracePeriodSecs : Nat) (turns : Nat → SweepTurn C)
    (records : List ActionRecord) (w : World F V A) : Leads C S R w { w with
      service := (expireEach S C call now gracePeriodSecs turns records w.service w.graph).2.1
      graph := (expireEach S C call now gracePeriodSecs turns records w.service w.graph).2.2 } := by
  induction records generalizing turns w with
  | nil => exact .refl
  | cons record records ih =>
    have hexpire : Leads C S R w { w with service := (w.service.expire record.actionId).2 } :=
      .step (.expire record.actionId) rfl
    unfold expireEach
    split
    · split
      · next hres =>
        rw [hres] at hexpire
        exact hexpire.trans (ih _ { w with service := _ })
      · next hres =>
        rw [hres] at hexpire
        exact (hexpire.trans (shredEach_leads call (turns 0).objects record.objectsTouched
          { w with service := _ })).trans (ih _ _)
    · exact ih _ w

theorem sweep_leads (turns : Nat → SweepTurn C) (now gracePeriodSecs : Nat) (w : World F V A) :
    Leads C S R w (sweepIn S w call turns now gracePeriodSecs).2 := by
  unfold sweepIn expireLapsedSoftDeletes
  cases require ⟨call.monitor, call.token, call.requireAt⟩ .write with
  | error err => exact .refl
  | ok u => exact expireEach_leads call now gracePeriodSecs turns w.service.actions w

theorem History.leads (h : History (C := C) S R w) :
    ∃ agents, Leads C S R (.empty agents) w := by
  induction h with
  | start agents => exact ⟨agents, .refl⟩
  | exec op _ hexec ih =>
    obtain ⟨agents, hleads⟩ := ih
    exact ⟨agents, hleads.tail ⟨op, hexec⟩⟩
  | erase erased call turn objectIds mode now _ ih =>
    obtain ⟨agents, hleads⟩ := ih
    exact ⟨agents, hleads.trans (erase_leads call erased turn objectIds mode now _)⟩
  | sweep call turns now gracePeriodSecs _ ih =>
    obtain ⟨agents, hleads⟩ := ih
    exact ⟨agents, hleads.trans (sweep_leads call turns now gracePeriodSecs _)⟩

theorem History.journal (h : History (C := C) S R w) : Journal w := by
  obtain ⟨agents, hleads⟩ := h.leads
  clear h
  induction hleads with
  | refl => exact journal_empty agents
  | tail _ hexec ih =>
    obtain ⟨op, hexec⟩ := hexec
    exact ih.effect (exec_effect S R hexec)

end

end

end Hyperion.Privacy
