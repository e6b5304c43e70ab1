import Hyperion.Lib.Run
import Hyperion.Recovery.Restore
import Hyperion.Update.Orchestrator

/-!
# The version pointer and the data

A rollback takes the data from the last recovery point of the subject and the version from the manifest
that it is handed. `Tracked` is an update system with what belonged to each version, and with the update
that took the last recovery point. The two agree as long as a rollback is handed the manifest of that
update, and an update starts from data that belongs to the active version.
-/

namespace Hyperion.Update
open Lib Capability Storage Hyperion.Graph Recovery Memory List Option Function RecoveryService
  UpdateSystem UpdateOrchestrator

/-! ## Contents -/

section
variable {F V : Type}

abbrev Contents (F V : Type) := NodeId → Option (Content F V)

/-- Of the tracked objects only `objects` may differ, and none of them is lost. -/
structure Edits (tracked : NodeId → Prop) (objects : List NodeId) (before after : Contents F V) : Prop where
  elsewhere : ∀ x, tracked x → x ∉ objects → after x = before x
  kept : ∀ x, tracked x → x ∈ objects → (before x).isSome = true → (after x).isSome = true

variable {tracked : NodeId → Prop} {objects : List NodeId} {c₁ c₂ c₃ : Contents F V}

theorem Edits.refl (c : Contents F V) : Edits tracked objects c c :=
  ⟨fun _ _ _ => rfl, fun _ _ _ h => h⟩

theorem Edits.congr_left (h : Edits tracked objects c₁ c₂) (heq : ∀ x, tracked x → c₁ x = c₃ x) :
    Edits tracked objects c₃ c₂ :=
  ⟨fun x hx hno => (h.elsewhere x hx hno).trans (heq x hx),
    fun x hx hmem hsome => h.kept x hx hmem (heq x hx ▸ hsome)⟩

/-- A snapshot holds these contents of the objects, with the provenance that restoring gives. -/
structure Captures (tracked : NodeId → Prop) (objects : List NodeId) (contents : Contents F V)
    (snapshot : Snapshot F V) : Prop where
  objects : snapshot.map (·.1) = objects
  content : ∀ e ∈ snapshot, tracked e.1 → e.2.map content = contents e.1
  plain : ∀ e ∈ snapshot, tracked e.1 → ∀ r, e.2 = some r → (Recovery.content r).Plain

variable {snapshot : Snapshot F V}

theorem mem_entriesFor {ids : List NodeId} {x : NodeId}
    {state : Option (NodeRecord F V)} (h : state ∈ entriesFor ids x snapshot) : (x, state) ∈ snapshot := by
  obtain ⟨⟨id, _⟩, hmem, rfl⟩ := mem_map.mp h
  obtain ⟨hin, hid⟩ := mem_filter.mp hmem
  obtain ⟨-, rfl⟩ := of_decide_eq_true hid
  exact hin

theorem entriesFor_ne_nil {x : NodeId} (h : x ∈ snapshot.map (·.1)) :
    entriesFor (snapshot.map (·.1)) x snapshot ≠ [] := by
  obtain ⟨e, hmem, rfl⟩ := mem_map.mp h
  refine ne_nil_of_mem (mem_map.mpr ⟨e, mem_filter.mpr ⟨hmem, ?_⟩, rfl⟩)
  exact decide_eq_true ⟨h, rfl⟩

theorem standing_there {b : TrustBoundaryId} {entry : Option (NodeRecord F V)}
    (h : (shown b entry).isSome = true) : ∃ c, standing b entry = .there c := by
  rw [← shown_standing] at h
  cases hstanding : standing b entry with
  | there c => exact ⟨c, rfl⟩
  | missing | foreign | deleted =>
    rw [hstanding] at h
    cases h

variable {b : TrustBoundaryId} {contents : Contents F V} {snapshot : Snapshot F V} {x : NodeId}
  {states : List (Option (NodeRecord F V))} {old new : Option (NodeRecord F V)}

theorem Captures.kept (h : Captures tracked objects contents snapshot) (hx : tracked x)
    (hstates : ∀ state ∈ states, (x, state) ∈ snapshot) (hsome : (contents x).isSome = true)
    (hold : (shown b old).isSome = true) (hrestores : RestoresAll b states old new) :
    (shown b new).isSome = true := by
  obtain ⟨c, hc⟩ := standing_there hold
  have hnone : none ∉ states := by
    intro hmem
    have hcontent := h.content _ (hstates none hmem) hx
    rw [← hcontent] at hsome
    cases hsome
  rw [← shown_standing, hrestores.standing_eq, hc]
  clear hrestores hold hstates hc
  induction states generalizing c with
  | nil => rfl
  | cons state states ih =>
    rw [mem_cons, not_or] at hnone
    cases state with
    | none => exact absurd rfl hnone.1
    | some r => exact ih (restoredContent r) hnone.2

theorem Captures.restored (h : Captures tracked objects contents snapshot) (hx : tracked x)
    (hstates : ∀ state ∈ states, (x, state) ∈ snapshot) (hne : states ≠ [])
    (hold : (contents x).isSome = true → (shown b old).isSome = true)
    (hrestores : RestoresAll b states old new) : shown b new = contents x := by
  obtain ⟨last, hlast⟩ := isSome_iff_exists.mp (List.getLast?_isSome.mpr hne)
  have hmem := mem_of_getLast? hlast
  have hcontent := h.content _ (hstates last hmem) hx
  rw [hrestores.shown_eq_iff hne, ← hcontent]
  cases last with
  | none => exact Standing.gives_none _ hlast
  | some r =>
    have hsome : (contents x).isSome = true := by rw [← hcontent]; rfl
    obtain ⟨c, hc⟩ := standing_there (hold hsome)
    rw [hc]
    refine ⟨by simp, by simp, fun hnone => ?_, r, hlast, ?_⟩
    · have hcontent' := h.content _ (hstates none hnone) hx
      rw [← hcontent'] at hsome
      cases hsome
    · exact (h.plain _ (hstates _ hmem) hx r rfl).restoredContent_eq

end

/-! ## A rollback -/

section
variable {K : SignatureScheme} {F V : Type} {C : Codec V} {S : Serde F V}

variable {g g' : KnowledgeGraph F V} {result : Except RecoveryError Unit} {svc : RecoveryService F V}
  {writes : Nat → Readings C} {point : RecoveryPointId} {snapshot : Snapshot F V} {call : Graph.Call C}
  {err : UpdateError} {caller : Caller}

theorem restoreTo_attempts (hsnapshot : svc.snapshots[point]? = some snapshot)
    (h : svc.restoreTo S C g call writes point = (result, g')) (x : NodeId) :
    Attempts call.callerBoundary (entriesFor (snapshot.map (·.1)) x snapshot) result g.index.nodes[x]?
      g'.index.nodes[x]? := by
  unfold restoreTo at h
  split at h
  · obtain ⟨rfl, rfl⟩ := Prod.mk.inj h
    exact .failed
  · simp only [hsnapshot, restoreObjects] at h
    exact applySnapshot_attempts h x

theorem restoreTo_contents {tracked : NodeId → Prop} {objects : List NodeId} {contents : Contents F V}
    (hsnapshot : svc.snapshots[point]? = some snapshot)
    (hcaptures : Captures tracked objects contents snapshot)
    (hedits : Edits tracked objects contents (shows g call.callerBoundary))
    (h : svc.restoreTo S C g call writes point = (result, g')) :
    Edits tracked objects contents (shows g' call.callerBoundary) ∧
      (result = .ok () → ∀ x, tracked x → shows g' call.callerBoundary x = contents x) := by
  have hin : ∀ {x state done}, done <+: entriesFor (snapshot.map (·.1)) x snapshot → state ∈ done →
      (x, state) ∈ snapshot := fun hpre hmem => mem_entriesFor (hpre.subset hmem)
  have hother : ∀ x, tracked x → x ∉ objects → shows g' call.callerBoundary x = contents x := by
    intro x hx hno
    obtain ⟨done, hpre, -, hrestores⟩ := restoreTo_attempts hsnapshot h x
    have hnil : done = [] := by
      refine eq_nil_iff_forall_not_mem.mpr fun state hmem => hno ?_
      exact hcaptures.objects ▸ mem_map_of_mem (hin hpre hmem)
    subst hnil
    rw [← hedits.elsewhere x hx hno]
    exact congrArg (shown call.callerBoundary) hrestores.eq_of_nil
  refine ⟨⟨hother, fun x hx hmem hsome => ?_⟩, fun hok x hx => ?_⟩
  · obtain ⟨done, hpre, -, hrestores⟩ := restoreTo_attempts hsnapshot h x
    exact hcaptures.kept hx (fun _ => hin hpre) hsome (hedits.kept x hx hmem hsome) hrestores
  · by_cases hmem : x ∈ objects
    · obtain ⟨done, hpre, hall, hrestores⟩ := restoreTo_attempts hsnapshot h x
      have hne := entriesFor_ne_nil (hcaptures.objects.symm ▸ hmem)
      rw [← hall hok] at hne
      exact hcaptures.restored hx (fun _ => hin hpre) hne (hedits.kept x hx hmem) hrestores
    · exact hother x hx hmem

/-- Everything a rollback can do. -/
inductive RollbackEffect (S : Serde F V) (s : UpdateSystem F V) (call : RollbackCall K F C) :
    Except UpdateError RollbackReceipt → UpdateSystem F V → Prop
  | refused {err : UpdateError} (herr : err = .unauthorized ∨ err = .noRecoveryPoint) :
      RollbackEffect S s call (.error err) s
  | failed {point : RecoveryPointId} {err : RecoveryError} {g : KnowledgeGraph F V}
      (hpoint : s.orchestrator.recoveryPoints call.manifest.subject = some point)
      (hrestore : s.service.restoreTo S C s.graph ⟨call.readings.restore, call.monitor, call.token⟩
        call.readings.writes point = (.error err, g)) :
      RollbackEffect S s call (.error (.recovery err)) { s with graph := g }
  | succeeded {point : RecoveryPointId} {g : KnowledgeGraph F V}
      (hpoint : s.orchestrator.recoveryPoints call.manifest.subject = some point)
      (hrestore : call.manifest.touchedObjects = [] ∧ g = s.graph ∨
        s.service.restoreTo S C s.graph ⟨call.readings.restore, call.monitor, call.token⟩
          call.readings.writes point = (.ok (), g)) :
      RollbackEffect S s call (.ok ⟨call.manifest.subject, call.manifest.fromVersion⟩) { s with
        graph := g
        orchestrator := (s.orchestrator.setActiveVersion call.manifest.subject
          call.manifest.fromVersion).setRolloutState call.manifest.subject .rolledBack }

theorem require_eq_error {rights : RightsMask}
    (h : require caller rights = .error err) : err = .unauthorized := by
  unfold require at h
  split at h
  · cases h
  · cases h
    rfl

theorem updateRollback_effect {s : UpdateSystem F V} {call : RollbackCall K F C} {out}
    (h : s.updateRollback S call = out) : RollbackEffect S s call out.1 out.2 := by
  subst h
  unfold updateRollback
  dsimp only
  split
  · next hrequire => exact .refused (.inl (require_eq_error hrequire))
  · split
    · exact .refused (.inr rfl)
    · next point hpoint =>
      by_cases hempty : call.manifest.touchedObjects.isEmpty = true
      · rw [if_pos hempty]
        exact .succeeded hpoint (.inl ⟨isEmpty_iff.mp hempty, rfl⟩)
      · rw [if_neg hempty]
        rcases hrestore : s.service.restoreTo S C s.graph
          ⟨call.readings.restore, call.monitor, call.token⟩ call.readings.writes point with ⟨result, g⟩
        cases result with
        | error err => exact .failed hpoint hrestore
        | ok _ => exact .succeeded hpoint (.inr hrestore)

/-- The version of the subject, the recovery points, the service and the memory are as before; the graph is
this. -/
structure Carries (s : UpdateSystem F V) (g : KnowledgeGraph F V) (s' : UpdateSystem F V) : Prop where
  activeVersions : s'.orchestrator.activeVersions = s.orchestrator.activeVersions
  recoveryPoints : s'.orchestrator.recoveryPoints = s.orchestrator.recoveryPoints
  service : s'.service = s.service
  graph : s'.graph = g
  memory : s'.memory = s.memory

theorem Carries.refl (s : UpdateSystem F V) : Carries s s.graph s := ⟨rfl, rfl, rfl, rfl, rfl⟩

/-! ## An update -/

theorem Carries.setRolloutStage {s s' : UpdateSystem F V} (h : Carries s g s') (caller : Caller)
    (target : Option ImplId) (stage : RolloutStage F) : Carries s g (s'.setRolloutStage caller target stage).2 ∧
      ∀ err, (s'.setRolloutStage caller target stage).1 = .error err → err = .modelRouter .unauthorized := by
  unfold UpdateSystem.setRolloutStage
  split
  · exact ⟨h, nofun⟩
  · split
    · exact ⟨{ h with }, fun _ herr => (Except.error.inj herr).symm⟩
    · exact ⟨{ h with }, nofun⟩

variable [F32 F]

/-- The graph when the health of the first `n` stages is known. -/
def graphAt (S : Serde F V) (call : ApplyCall K F C) (g : KnowledgeGraph F V) : Nat → KnowledgeGraph F V
  | 0 => g
  | n + 1 => UpdateSystem.changed S (graphAt S call g n) (call.stages n).changes

/-- The graphs on the way through the rollout. -/
def Passes (S : Serde F V) (call : ApplyCall K F C) (g g' : KnowledgeGraph F V) : Prop :=
  (∃ n ≤ call.manifest.rolloutPolicy.stages.length, g' = graphAt S call g n) ∨
    g' = UpdateSystem.changed S (graphAt S call g call.manifest.rolloutPolicy.stages.length) call.lastChanges

variable [Values V] [RecordValues F V]

/-- Everything a rollout can do: it goes through, it stops on its way, or a breach is rolled back. -/
inductive RolloutEffect (S : Serde F V) (printable : Char → Bool) (s : UpdateSystem F V) (call : ApplyCall K F C) :
    Except UpdateError Version → UpdateSystem F V → Prop
  | rolledOut {g : KnowledgeGraph F V} {s₁ s' : UpdateSystem F V} (hpasses : Passes S call s.graph g)
      (hcarries : Carries s g s₁) (hs' : s' = { s₁ with
        orchestrator := (s₁.orchestrator.setActiveVersion call.manifest.subject
          call.manifest.toVersion).setRolloutState call.manifest.subject .rolledOut }) :
      RolloutEffect S printable s call (.ok call.manifest.toVersion) s'
  | stopped {err : UpdateError} {g : KnowledgeGraph F V} {s' : UpdateSystem F V}
      (herr : err = .modelRouter .unauthorized ∨
        err = .rolloutHealthBreach ∧ call.manifest.rolloutPolicy.autoRollbackOnBreach = false)
      (hpasses : Passes S call s.graph g) (hcarries : Carries s g s') :
      RolloutEffect S printable s call (.error err) s'
  | rolledBack {g : KnowledgeGraph F V} {s₁ s' : UpdateSystem F V} {receipt : RollbackReceipt} {index : Nat}
      {stage : CohortStage} (hauto : call.manifest.rolloutPolicy.autoRollbackOnBreach = true)
      (hpasses : Passes S call s.graph g) (hcarries : Carries s g s₁)
      (hrollback : RollbackEffect S s₁ call.toRollback (.ok receipt) s') :
      RolloutEffect S printable s call (.error .rolloutHealthBreach)
        { s' with memory := s'.remembered S printable call (breachCause call index stage) }
  | notRolledBack {g : KnowledgeGraph F V} {s₁ s' : UpdateSystem F V} {err : UpdateError}
      (hpasses : Passes S call s.graph g) (hcarries : Carries s g s₁)
      (hrollback : RollbackEffect S s₁ call.toRollback (.error err) s') :
      RolloutEffect S printable s call (.error err) s'

variable {s₀ s : UpdateSystem F V} {call : ApplyCall K F C} {g : KnowledgeGraph F V}

theorem breach_effect (hpasses : Passes S call s₀.graph g) (hcarries : Carries s₀ g s)
    (target : Option ImplId) (index : Nat) (stage : CohortStage) :
    RolloutEffect S printable s₀ call (s.breach S printable call target index stage).1
      (s.breach S printable call target index stage).2 := by
  have hstage := hcarries.setRolloutStage ⟨call.monitor, call.token, (call.stages index).routerAt⟩ target .shadow
  unfold breach
  generalize s.setRolloutStage _ target .shadow = out at hstage ⊢
  obtain ⟨result, s₁⟩ := out
  obtain ⟨hs₁, herr⟩ := hstage
  cases result with
  | error err => exact .stopped (.inl (herr err rfl)) hpasses hs₁
  | ok _ =>
    by_cases hauto : call.manifest.rolloutPolicy.autoRollbackOnBreach = true
    · simp only [hauto, if_true, updateRollbackWithCause]
      rcases hrollback : s₁.updateRollback S call.toRollback with ⟨_ | receipt, s₂⟩
      · exact .notRolledBack hpasses hs₁ (updateRollback_effect hrollback)
      · exact .rolledBack hauto hpasses hs₁ (updateRollback_effect hrollback)
    · simp only [hauto]
      exact .stopped (.inr ⟨rfl, Bool.eq_false_iff.mpr hauto⟩) hpasses { hs₁ with }

theorem rolledOut_effect
    (hcarries : Carries s₀ (graphAt S call s₀.graph call.manifest.rolloutPolicy.stages.length) s)
    (target : Option ImplId) :
    RolloutEffect S printable s₀ call (s.rolledOut S call target).1 (s.rolledOut S call target).2 := by
  let g := changed S s.graph call.lastChanges
  have hpasses : Passes S call s₀.graph g := .inr (by rw [← hcarries.graph])
  have hchanged : Carries s₀ g { s with graph := g } := { hcarries with graph := rfl }
  have hstage := hchanged.setRolloutStage ⟨call.monitor, call.token, call.finishAt⟩ target .ga
  unfold rolledOut
  dsimp only
  generalize UpdateSystem.setRolloutStage _ _ target .ga = out at hstage ⊢
  obtain ⟨result, s₁⟩ := out
  cases result with
  | error err => exact .stopped (.inl (hstage.2 err rfl)) hpasses hstage.1
  | ok _ => exact .rolledOut hpasses hstage.1 rfl

theorem rollout_effect {stages : List CohortStage} {index : Nat}
    (hindex : index + stages.length = call.manifest.rolloutPolicy.stages.length)
    (hcarries : Carries s₀ (graphAt S call s₀.graph index) s) (target : Option ImplId) :
    RolloutEffect S printable s₀ call (s.rollout S printable call target stages index).1
      (s.rollout S printable call target stages index).2 := by
  induction stages generalizing index s with
  | nil =>
    rw [length_nil, Nat.add_zero] at hindex
    exact rolledOut_effect (hindex ▸ hcarries) target
  | cons stage stages ih =>
    rw [length_cons] at hindex
    have hs₁ : Carries s₀ (graphAt S call s₀.graph (index + 1)) (s.atStage S call index) :=
      { hcarries with graph := congrArg (changed S · (call.stages index).changes) hcarries.graph }
    have hpasses : Passes S call s₀.graph (graphAt S call s₀.graph (index + 1)) :=
      .inl ⟨index + 1, by omega, rfl⟩
    have hstage := hs₁.setRolloutStage ⟨call.monitor, call.token, (call.stages index).routerAt⟩ target
      (.canary (F32.div (F32.ofNat stage.percent.toNat) (F32.ofNat 100)))
    unfold rollout
    dsimp only
    split
    · exact breach_effect hpasses hs₁ target index stage
    · generalize UpdateSystem.setRolloutStage _ _ target _ = out at hstage ⊢
      obtain ⟨result, s₂⟩ := out
      cases result with
      | error err => exact .stopped (.inl (hstage.2 err rfl)) hpasses hstage.1
      | ok _ => exact ih (by omega) hstage.1

/-- The system in which the rollout of an update begins: it has a new recovery point. -/
structure Begins (s : UpdateSystem F V) (call : ApplyCall K F C) (s₁ : UpdateSystem F V) : Prop where
  active : call.manifest.fromVersion = s.orchestrator.activeVersion call.manifest.subject
  activeVersions : s₁.orchestrator.activeVersions = s.orchestrator.activeVersions
  recoveryPoints : s₁.orchestrator.recoveryPoints call.manifest.subject = some s.service.nextPointId
  nextPointId : s₁.service.nextPointId = s.service.nextPointId + 1
  snapshot : s₁.service.snapshots[s.service.nextPointId]? =
    some (call.manifest.nodeIds.map fun x => (x, s.graph.index.visibleNode call.token.origin x))
  graph : s₁.graph = s.graph
  memory : s₁.memory = s.memory

/-- Everything an update can do: it is turned away, or its rollout begins. -/
inductive ApplyEffect (S : Serde F V) (printable : Char → Bool) (s : UpdateSystem F V) (call : ApplyCall K F C) :
    Except UpdateError Version → UpdateSystem F V → Prop
  | refused {err : UpdateError} {s' : UpdateSystem F V} (herr : err ≠ .rolloutHealthBreach)
      (hcarries : Carries s s.graph s') : ApplyEffect S printable s call (.error err) s'
  | begun {result : Except UpdateError Version} {s₁ s' : UpdateSystem F V} (hbegins : Begins s call s₁)
      (hrollout : RolloutEffect S printable s₁ call result s') : ApplyEffect S printable s call result s'

omit [F32 F] [Values V] [RecordValues F V] in
theorem recoveryPointCreate_cases (svc : RecoveryService F V) (g : KnowledgeGraph F V) (caller : Caller)
    (reads : Nat → Instant) (trigger : Trigger) (objects : List NodeId) (now : Nat) :
    (∃ err, svc.recoveryPointCreate g caller reads trigger objects now = (.error err, svc)) ∨
      ∃ svc', svc.recoveryPointCreate g caller reads trigger objects now = (.ok svc.nextPointId, svc') ∧
        svc'.nextPointId = svc.nextPointId + 1 ∧ svc'.snapshots = svc.snapshots.insert svc.nextPointId
          (objects.map fun x => (x, g.index.visibleNode caller.token.origin x)) := by
  unfold recoveryPointCreate
  split
  · next err _ => exact .inl ⟨err, rfl⟩
  · split
    · next err _ => exact .inl ⟨err, rfl⟩
    · next snapshot hsnapshot => exact .inr ⟨_, rfl, rfl, by rw [snapshotObjects_eq hsnapshot]⟩

theorem applyUpdateInner_effect {target : Option ImplId} {out}
    (h : s.applyUpdateInner S printable call target = out) : ApplyEffect S printable s call out.1 out.2 := by
  subst h
  unfold applyUpdateInner
  split
  · next hrequire =>
    rw [require_eq_error hrequire]
    exact .refused UpdateError.noConfusion (.refl s)
  · split
    · exact .refused UpdateError.noConfusion (.refl s)
    · split
      · exact .refused UpdateError.noConfusion (.refl s)
      · next hcompatible =>
        split
        · exact .refused UpdateError.noConfusion (.refl s)
        · split
          · exact .refused UpdateError.noConfusion (.refl s)
          · rcases recoveryPointCreate_cases s.service s.graph ⟨call.monitor, call.token, call.pointAt⟩
              call.reads .preUpdate call.manifest.nodeIds call.now with
              ⟨err, heq⟩ | ⟨svc, heq, hnext, hsnapshots⟩
            · simp only [UpdateSystem.setRolloutState, heq]
              exact .refused UpdateError.noConfusion ⟨rfl, rfl, rfl, rfl, rfl⟩
            · simp only [UpdateSystem.setRolloutState, heq]
              refine .begun ?_ (rollout_effect (Nat.zero_add _) (.refl _) target)
              refine ⟨?_, rfl, update_self .., hnext, ?_, rfl, rfl⟩
              · simp only [CompatibilityCheckResult.isCompatible, UpdateOrchestrator.compatibilityCheck] at hcompatible
                grind
              · simp [hsnapshots]

end

/-! ## What belongs to a version -/

/-- An update system with its past: the contents that the objects had when a version was last active, the
version and the objects of the update that took the last recovery point, and whether the data has been
left as a call that succeeded, or a breach that was rolled back, leaves it. -/
structure Tracked (F V : Type) where
  system : UpdateSystem F V
  belonged : Version → Option (Contents F V)
  latest : Option (Version × List NodeId)
  settled : Bool

inductive UpdateCall (K : SignatureScheme) (F : Type) {V : Type} (C : Codec V)
  | apply (call : ApplyCall K F C) (rolloutTarget : Option ImplId)
  | rollback (call : RollbackCall K F C)

section
variable {K : SignatureScheme} {F V : Type}

/-- The call returns `Ok`, or ends with a breach that was rolled back. -/
def UpdateManifest.settles (m : UpdateManifest K F) : Except UpdateError Version → Bool
  | .ok _ => true
  | .error err => decide (err = .rolloutHealthBreach) && m.rolloutPolicy.autoRollbackOnBreach

variable {C : Codec V} (S : Serde F V) (printable : Char → Bool) (subject : UpdateSubject)
  (b : TrustBoundaryId) (tracked : NodeId → Prop)

/-- Before any update: version 0 is active, and the data belongs to it. -/
def Tracked.start (service : RecoveryService F V) (graph : KnowledgeGraph F V)
    (router : ImplId → Option (RolloutStage F)) (memory : Option (KnowledgeGraph F V)) : Tracked F V :=
  ⟨⟨.new, service, graph, router, memory⟩, fun version => if version = 0 then some (shows graph b) else none,
    none, true⟩

/-- The contents of the tracked objects are those that belonged to the active version. -/
def Agrees (w : Tracked F V) : Prop :=
  ∃ contents, w.belonged (w.system.orchestrator.activeVersion subject) = some contents ∧
    ∀ x, tracked x → shows w.system.graph b x = contents x

variable [F32 F] [Values V] [RecordValues F V]

def Tracked.exec (w : Tracked F V) : UpdateCall K F C → Tracked F V
  | .apply call rolloutTarget =>
    let outcome := w.system.applyUpdateInner S printable call rolloutTarget
    let begun := outcome.2.service.nextPointId ≠ w.system.service.nextPointId
    { system := outcome.2
      belonged := match outcome.1 with
        | .ok version => Function.update w.belonged version (some (shows outcome.2.graph b))
        | .error _ => w.belonged
      latest := if begun then some (call.manifest.fromVersion, call.manifest.nodeIds) else w.latest
      settled := call.manifest.settles outcome.1 || (!decide begun && w.settled) }
  | .rollback call =>
    let outcome := w.system.updateRollback S call
    { w with
      system := outcome.2
      settled := match outcome.1 with
        | .ok _ => true
        | .error (.recovery _) => false
        | .error _ => w.settled }

/-- The call returns `Ok`, or ends with a breach that was rolled back. -/
def Settles (w : Tracked F V) : UpdateCall K F C → Prop
  | .apply call rolloutTarget =>
    call.manifest.settles (w.system.applyUpdateInner S printable call rolloutTarget).1 = true
  | .rollback call => ∃ receipt, (w.system.updateRollback S call).1 = .ok receipt

/-- An update by the boundary from settled data, to another version; what happens meanwhile changes no
tracked object that the manifest does not name, and loses none; those it names have the provenance that
restoring gives. -/
structure OrderlyApply (w : Tracked F V) (call : ApplyCall K F C) : Prop where
  subject : call.manifest.subject = subject
  boundary : call.token.origin = b
  settled : w.settled = true
  moves : call.manifest.fromVersion ≠ call.manifest.toVersion
  plain : ∀ x ∈ call.manifest.nodeIds, tracked x → ∀ c, shows w.system.graph b x = some c → c.Plain
  edits : ∀ g, Passes S call w.system.graph g →
    Edits tracked call.manifest.nodeIds (shows w.system.graph b) (shows g b)

/-- A rollback by the boundary with the manifest of the update that took the last recovery point, or with
one of its base version that also restores. -/
structure OrderlyRollback (w : Tracked F V) (call : RollbackCall K F C) : Prop where
  subject : call.manifest.subject = subject
  boundary : call.token.origin = b
  last : ∀ version objects, w.latest = some (version, objects) →
    call.manifest.fromVersion = version ∧ (call.manifest.touchedObjects = [] → objects = [])

def Orderly (w : Tracked F V) : UpdateCall K F C → Prop
  | .apply call _ => OrderlyApply S subject b tracked w call
  | .rollback call => OrderlyRollback subject b w call

/-- The recovery point of the subject holds these contents, from which the objects may have moved. -/
def PointHolds (s : UpdateSystem F V) (objects : List NodeId) (contents : Contents F V) : Prop :=
  ∃ point snapshot, s.orchestrator.recoveryPoints subject = some point ∧
    s.service.snapshots[point]? = some snapshot ∧ Captures tracked objects contents snapshot ∧
    Edits tracked objects contents (shows s.graph b)

structure Consistent (w : Tracked F V) : Prop where
  agrees : w.settled = true → Agrees subject b tracked w
  unpointed : w.latest = none → w.system.orchestrator.recoveryPoints subject = none
  pointed : ∀ version objects, w.latest = some (version, objects) →
    ∃ contents, w.belonged version = some contents ∧ PointHolds subject b tracked w.system objects contents

end

section
variable {K : SignatureScheme} {F V : Type} {C : Codec V} {S : Serde F V} {printable : Char → Bool}
  {subject : UpdateSubject} {b : TrustBoundaryId} {tracked : NodeId → Prop} {s s' : UpdateSystem F V}
  {objects : List NodeId} {contents : Contents F V} {w : Tracked F V} {call : RollbackCall K F C}
  {result : Except UpdateError RollbackReceipt}

theorem activeVersion_congr {o o' : UpdateOrchestrator} (h : o'.activeVersions = o.activeVersions)
    (subject : UpdateSubject) : o'.activeVersion subject = o.activeVersion subject := by
  rw [activeVersion, h, activeVersion]

theorem activeVersion_setActiveVersion (o : UpdateOrchestrator) (subject : UpdateSubject) (version : Version)
    (state : RolloutState) :
    ((o.setActiveVersion subject version).setRolloutState subject state).activeVersion subject = version := by
  simp [UpdateOrchestrator.activeVersion, UpdateOrchestrator.setActiveVersion, UpdateOrchestrator.setRolloutState]

section
variable (h : PointHolds subject b tracked s objects contents)
include h

theorem PointHolds.congr (hpoints : s'.orchestrator.recoveryPoints = s.orchestrator.recoveryPoints)
    (hservice : s'.service = s.service) (hedits : Edits tracked objects contents (shows s'.graph b)) :
    PointHolds subject b tracked s' objects contents := by
  obtain ⟨point, snapshot, hpoint, hsnapshot, hcaptures, -⟩ := h
  exact ⟨point, snapshot, hpoints ▸ hpoint, hservice ▸ hsnapshot, hcaptures, hedits⟩

theorem PointHolds.carries {g : KnowledgeGraph F V} (hcarries : Carries s g s')
    (hedits : Edits tracked objects contents (shows g b)) :
    PointHolds subject b tracked s' objects contents :=
  h.congr hcarries.recoveryPoints hcarries.service (hcarries.graph ▸ hedits)

theorem PointHolds.rollback (hsubject : call.manifest.subject = subject) (hboundary : call.token.origin = b)
    (heffect : RollbackEffect S s call result s') :
    PointHolds subject b tracked s' objects contents ∧
      ∀ receipt, result = .ok receipt → (call.manifest.touchedObjects = [] → objects = []) →
        s'.orchestrator.activeVersion subject = call.manifest.fromVersion ∧
          ∀ x, tracked x → shows s'.graph b x = contents x := by
  subst hsubject hboundary
  obtain ⟨point, snapshot, hpoint, hsnapshot, hcaptures, hedits⟩ := id h
  cases heffect with
  | refused _ => exact ⟨h, nofun⟩
  | failed hpoint' hrestore =>
    obtain rfl := some.inj (hpoint.symm.trans hpoint')
    exact ⟨h.congr rfl rfl (restoreTo_contents hsnapshot hcaptures hedits hrestore).1, nofun⟩
  | succeeded hpoint' hrestore =>
    obtain rfl := some.inj (hpoint.symm.trans hpoint')
    have hactive := activeVersion_setActiveVersion s.orchestrator call.manifest.subject call.manifest.fromVersion
      .rolledBack
    rcases hrestore with ⟨hempty, rfl⟩ | hrestore
    · exact ⟨h.congr rfl rfl hedits, fun _ _ hobjects =>
        ⟨hactive, fun x hx => hedits.elsewhere x hx (hobjects hempty ▸ not_mem_nil)⟩⟩
    · have hcontents := restoreTo_contents hsnapshot hcaptures hedits hrestore
      exact ⟨h.congr rfl rfl hcontents.1, fun _ _ _ => ⟨hactive, hcontents.2 rfl⟩⟩

end

theorem RollbackEffect.of_error {err : UpdateError} (h : RollbackEffect S s call (.error err) s') :
    s'.orchestrator = s.orchestrator ∧ s'.service = s.service ∧ err ≠ .rolloutHealthBreach ∧
      ((∀ e, err ≠ .recovery e) → s' = s) := by
  cases h with
  | refused herr =>
    refine ⟨rfl, rfl, ?_, fun _ => rfl⟩
    rcases herr with rfl | rfl <;> exact UpdateError.noConfusion
  | failed _ _ => exact ⟨rfl, rfl, UpdateError.noConfusion, fun hne => absurd rfl (hne _)⟩

theorem RollbackEffect.service (h : RollbackEffect S s call result s') : s'.service = s.service := by
  cases h <;> rfl

theorem RollbackEffect.recoveryPoints (h : RollbackEffect S s call result s') :
    s'.orchestrator.recoveryPoints = s.orchestrator.recoveryPoints := by
  cases h <;> rfl

variable [F32 F]

theorem OrderlyApply.pointHolds {call : ApplyCall K F C} (horderly : OrderlyApply S subject b tracked w call)
    (hagrees : ∀ x, tracked x → shows w.system.graph b x = contents x) (hbegins : Begins w.system call s) :
    PointHolds subject b tracked s call.manifest.nodeIds contents := by
  refine ⟨_, _, horderly.subject ▸ hbegins.recoveryPoints, hbegins.snapshot, ⟨?_, ?_, ?_⟩, ?_⟩
  · rw [List.map_map]
    exact List.map_id' _
  · intro e he hx
    obtain ⟨x, hmem, rfl⟩ := mem_map.mp he
    exact horderly.boundary ▸ hagrees x hx
  · intro e he hx r hr
    obtain ⟨x, hmem, rfl⟩ := mem_map.mp he
    refine horderly.plain x hmem hx _ ?_
    rw [shows, ← horderly.boundary]
    exact congrArg (Option.map content) hr
  · rw [hbegins.graph]
    exact (Edits.refl _).congr_left hagrees

variable [Values V] [RecordValues F V]

/-- What the rollout of an orderly update leaves. -/
structure RolledOut (subject : UpdateSubject) (b : TrustBoundaryId) (tracked : NodeId → Prop)
    (m : UpdateManifest K F) (contents : Contents F V) (result : Except UpdateError Version)
    (s' : UpdateSystem F V) : Prop where
  point : PointHolds subject b tracked s' m.nodeIds contents
  ok : ∀ version, result = .ok version →
    version = m.toVersion ∧ s'.orchestrator.activeVersion subject = m.toVersion
  error : ∀ err, result = .error err → m.settles result = true →
    s'.orchestrator.activeVersion subject = m.fromVersion ∧ ∀ x, tracked x → shows s'.graph b x = contents x

theorem RolloutEffect.rolledOutBy {call : ApplyCall K F C} {result : Except UpdateError Version}
    (h : RolloutEffect S printable s call result s') (hsubject : call.manifest.subject = subject)
    (hboundary : call.token.origin = b)
    (hpoint : PointHolds subject b tracked s call.manifest.nodeIds contents)
    (hedits : ∀ g, Passes S call s.graph g → Edits tracked call.manifest.nodeIds contents (shows g b)) :
    RolledOut subject b tracked call.manifest contents result s' ∧ s'.service = s.service := by
  have hempty : call.toRollback.manifest.touchedObjects = [] → call.manifest.nodeIds = [] :=
    fun hnil => congrArg (List.map Fin.val) hnil
  cases h with
  | rolledOut hpasses hcarries hs' =>
    subst hs' hsubject
    refine ⟨⟨hpoint.congr hcarries.recoveryPoints hcarries.service ?_, ?_, fun _ herr => (by cases herr)⟩,
      hcarries.service⟩
    · exact hcarries.graph ▸ hedits _ hpasses
    · rintro _ ⟨⟩
      exact ⟨rfl, activeVersion_setActiveVersion ..⟩
  | stopped herr hpasses hcarries =>
    refine ⟨⟨hpoint.carries hcarries (hedits _ hpasses), fun _ hok => (by cases hok), ?_⟩, hcarries.service⟩
    rintro _ ⟨⟩ hsettles
    simp only [UpdateManifest.settles, Bool.and_eq_true, decide_eq_true_eq] at hsettles
    rcases herr with rfl | ⟨-, hauto⟩
    · cases hsettles.1
    · cases hauto.symm.trans hsettles.2
  | rolledBack _ hpasses hcarries hrollback =>
    have hpoint₁ := hpoint.carries hcarries (hedits _ hpasses)
    obtain ⟨hpoint₂, hback⟩ := hpoint₁.rollback hsubject hboundary hrollback
    exact ⟨⟨hpoint₂, fun _ hok => (by cases hok), fun _ _ _ => hback _ rfl hempty⟩,
      hrollback.service.trans hcarries.service⟩
  | notRolledBack hpasses hcarries hrollback =>
    have hpoint₁ := hpoint.carries hcarries (hedits _ hpasses)
    refine ⟨⟨(hpoint₁.rollback hsubject hboundary hrollback).1, fun _ hok => (by cases hok), ?_⟩,
      hrollback.service.trans hcarries.service⟩
    rintro _ ⟨⟩ hsettles
    simp only [UpdateManifest.settles, Bool.and_eq_true, decide_eq_true_eq] at hsettles
    exact absurd hsettles.1 hrollback.of_error.2.2.1

theorem Consistent.rollback (h : Consistent subject b tracked w)
    (horderly : OrderlyRollback subject b w call) :
    Consistent subject b tracked (w.exec S printable b (.rollback call : UpdateCall K F C)) := by
  simp only [Tracked.exec]
  rcases hout : w.system.updateRollback S call with ⟨result, s'⟩
  have heffect := updateRollback_effect hout
  dsimp only at heffect ⊢
  refine ⟨fun hsettled => ?_, fun hnone => heffect.recoveryPoints ▸ h.unpointed hnone, ?_⟩
  · cases result with
    | ok receipt =>
      cases hlatest : w.latest with
      | none =>
        cases heffect with
        | succeeded hpoint _ =>
          rw [horderly.subject, h.unpointed hlatest] at hpoint
          cases hpoint
      | some last =>
        obtain ⟨version, objects⟩ := last
        obtain ⟨hfrom, hobjects⟩ := horderly.last version objects hlatest
        obtain ⟨contents, hbelonged, hpoint⟩ := h.pointed version objects hlatest
        obtain ⟨hactive, hshows⟩ :=
          (hpoint.rollback horderly.subject horderly.boundary heffect).2 receipt rfl hobjects
        exact ⟨contents, by rw [hactive, hfrom, hbelonged], hshows⟩
    | error err =>
      -- only a failed restore can have left the data between two versions
      have hother : ∀ e, err ≠ .recovery e := by
        rintro e rfl
        cases hsettled
      obtain ⟨-, -, -, hsame⟩ := heffect.of_error
      rw [hsame hother]
      refine h.agrees ?_
      cases err <;> first | exact hsettled | exact absurd rfl (hother _)
  · intro version objects hlatest
    obtain ⟨contents, hbelonged, hpoint⟩ := h.pointed version objects hlatest
    exact ⟨contents, hbelonged, (hpoint.rollback horderly.subject horderly.boundary heffect).1⟩

theorem Consistent.apply {call : ApplyCall K F C} {target : Option ImplId}
    (h : Consistent subject b tracked w) (horderly : OrderlyApply S subject b tracked w call) :
    Consistent subject b tracked (w.exec S printable b (.apply call target)) := by
  simp only [Tracked.exec]
  rcases hout : w.system.applyUpdateInner S printable call target with ⟨result, s'⟩
  dsimp only
  cases applyUpdateInner_effect hout with
  | refused herr hcarries =>
    have hnext : s'.service.nextPointId = w.system.service.nextPointId := by rw [hcarries.service]
    rw [if_neg (not_not.mpr hnext)]
    refine ⟨fun _ => ?_, fun hnone => hcarries.recoveryPoints ▸ h.unpointed hnone, ?_⟩
    · obtain ⟨contents, hbelonged, hshows⟩ := h.agrees horderly.settled
      refine ⟨contents, ?_, hcarries.graph ▸ hshows⟩
      rw [activeVersion_congr hcarries.activeVersions]
      exact hbelonged
    · intro version objects hlatest
      obtain ⟨contents, hbelonged, hpoint⟩ := h.pointed version objects hlatest
      obtain ⟨-, -, -, -, -, hedits⟩ := id hpoint
      exact ⟨contents, hbelonged, hpoint.carries hcarries hedits⟩
  | begun hbegins hrollout =>
    obtain ⟨contents, hbelonged, hshows⟩ := h.agrees horderly.settled
    rw [← horderly.subject, ← hbegins.active] at hbelonged
    obtain ⟨hrolled, hservice⟩ := hrollout.rolledOutBy horderly.subject horderly.boundary
      (horderly.pointHolds hshows hbegins)
      fun g hpasses => (horderly.edits g (hbegins.graph ▸ hpasses)).congr_left hshows
    have hnext : s'.service.nextPointId ≠ w.system.service.nextPointId := by
      rw [hservice, hbegins.nextPointId]
      exact Nat.succ_ne_self _
    rw [if_pos hnext]
    refine ⟨fun hsettled => ?_, fun hnone => (by cases hnone), ?_⟩
    · simp only [hnext, ne_eq, not_false_eq_true, decide_true, Bool.not_true, Bool.false_and,
        Bool.or_false] at hsettled
      cases result with
      | ok version =>
        obtain ⟨rfl, hactive⟩ := hrolled.ok version rfl
        exact ⟨_, by rw [hactive]; exact update_self .., fun _ _ => rfl⟩
      | error err =>
        obtain ⟨hactive, hcontents⟩ := hrolled.error err rfl hsettled
        exact ⟨contents, by rw [hactive]; exact hbelonged, hcontents⟩
    · rintro version objects ⟨⟩
      refine ⟨contents, ?_, hrolled.point⟩
      cases result with
      | ok version =>
        obtain ⟨rfl, -⟩ := hrolled.ok version rfl
        exact (update_of_ne horderly.moves _ _).trans hbelonged
      | error err => exact hbelonged

theorem Consistent.exec {call : UpdateCall K F C} (h : Consistent subject b tracked w)
    (horderly : Orderly S subject b tracked w call) :
    Consistent subject b tracked (w.exec S printable b call) := by
  cases call with
  | apply call target => exact h.apply horderly
  | rollback call => exact h.rollback horderly

omit [F32 F] [Values V] [RecordValues F V] in
theorem consistent_start (service : RecoveryService F V) (graph : KnowledgeGraph F V)
    (router : ImplId → Option (RolloutStage F)) (memory : Option (KnowledgeGraph F V)) :
    Consistent subject b tracked (.start b service graph router memory) :=
  ⟨fun _ => ⟨_, rfl, fun _ _ => rfl⟩, fun _ => rfl, fun _ _ hlatest => (by cases hlatest)⟩

theorem Settles.settled {call : UpdateCall K F C} (h : Settles S printable w call) :
    (w.exec S printable b call).settled = true := by
  cases call with
  | apply call target => exact (Bool.or_eq_true _ _).mpr (.inl h)
  | rollback call =>
    obtain ⟨receipt, hok⟩ := h
    simp only [Tracked.exec, hok]

/-- **The version pointer and the data agree** after every call that returns `Ok` and after every breach
that is rolled back, in runs in which a rollback is handed the manifest of the update that took the last
recovery point, and an update starts from data that the last call left settled. -/
theorem version_and_data_agree (service : RecoveryService F V) (graph : KnowledgeGraph F V)
    (router : ImplId → Option (RolloutStage F)) (memory : Option (KnowledgeGraph F V))
    (calls : List (UpdateCall K F C)) (call : UpdateCall K F C)
    (horderly : Meets (Tracked.exec S printable b) (Orderly S subject b tracked)
      (.start b service graph router memory) (calls ++ [call]))
    (hsettles : Settles S printable (run (Tracked.exec S printable b) (.start b service graph router memory) calls)
      call) :
    Agrees subject b tracked
      (run (Tracked.exec S printable b) (.start b service graph router memory) (calls ++ [call])) := by
  have hconsistent := horderly.invariant (fun _ _ h horderly => Consistent.exec h horderly)
    (consistent_start service graph router memory)
  refine hconsistent.agrees ?_
  rw [run_append]
  exact hsettles.settled

end

/-! ## Notes -/

def putNote (nodeId : Option NodeId) (text : String) : Graph.Op Int jsonSerde.plain :=
  .putNode (sampleCall .all false) { sampleNode nodeId 0 with metadata := .str text }

def zeroNote : KnowledgeGraph Int Json := UpdateSystem.changed jsonRecord .empty [putNote none "zero"]

def firstUpdate : UpdateManifest .ledger Int := sampleManifest 0 1 [0]

def secondUpdate : UpdateManifest .ledger Int := sampleManifest 1 2 [0]

variable (manifest : UpdateManifest .ledger Int)

def updateNote (text : String) : ApplyCall .ledger Int jsonSerde.plain :=
  sampleApply [firstUpdate, secondUpdate] manifest 0 [putNote (some 0) text]

def applyNote (text : String) :
    UpdateCall .ledger Int jsonSerde.plain := .apply (updateNote manifest text) none

def rollbackNote : UpdateCall .ledger Int jsonSerde.plain :=
  let keeper := sampleCall .all false
  .rollback ⟨keeper.monitor, keeper.token, manifest, ⟨0, keeper.toReadings, fun _ => keeper.toReadings⟩⟩

def noteRun (calls : List (UpdateCall .ledger Int jsonSerde.plain)) : Tracked Int Json :=
  run (Tracked.exec jsonRecord (fun _ => true) 7) (.start 7 .new zeroNote (fun _ => none) none) calls

/-- The active version of the note, what belonged to it, and the text that the note has. -/
def noteState (w : Tracked Int Json) : Version × Option (Option String) × Option String :=
  let version := w.system.orchestrator.activeVersion (.capability "notes")
  (version, (w.belonged version).map fun contents => (contents 0).map noteText,
    (shows w.system.graph 7 0).map noteText)

theorem orderlyApply_firstUpdate : OrderlyApply jsonRecord (.capability "notes") 7 (· = 0) (noteRun [])
    (updateNote firstUpdate "one") where
  subject := rfl
  boundary := by decide +kernel
  settled := rfl
  moves := by decide
  plain := by
    rintro x - rfl c hc
    have hview : ((shows (noteRun []).system.graph 7 0).map noteView).map (·.2) = some true := by
      decide +kernel
    rw [hc, map_some, map_some, some.injEq] at hview
    exact plain_of_decide hview
  edits := by
    let call := updateNote firstUpdate "one"
    let g := (noteRun []).system.graph
    have hstages : ∀ n ≤ call.manifest.rolloutPolicy.stages.length,
        (shows (graphAt jsonRecord call g n) 7 0).isSome = true := by decide +kernel
    have hlast : (shows (changed jsonRecord
        (graphAt jsonRecord call g call.manifest.rolloutPolicy.stages.length) call.lastChanges) 7 0).isSome =
        true := by decide +kernel
    intro g' hpasses
    refine ⟨?_, ?_⟩
    · rintro x rfl hno
      exact absurd (mem_singleton_self 0) hno
    · rintro x rfl - -
      rcases hpasses with ⟨n, hn, rfl⟩ | rfl
      · exact hstages n hn
      · exact hlast

/-- An update of the note, and back. -/
theorem version_and_data_agree_note : Agrees (.capability "notes") 7 (· = 0)
    (noteRun ([applyNote firstUpdate "one"] ++ [rollbackNote firstUpdate])) := by
  refine version_and_data_agree .new zeroNote (fun _ => none) none [applyNote firstUpdate "one"]
    (rollbackNote firstUpdate) ⟨?_, ?_, trivial⟩ ?_
  · exact orderlyApply_firstUpdate
  · refine ⟨rfl, by decide +kernel, fun version objects hlatest => ?_⟩
    have hlast : (noteRun [applyNote firstUpdate "one"]).latest = some (0, [0]) := by decide +kernel
    obtain ⟨rfl, rfl⟩ := Prod.mk.inj (some.inj (hlast.symm.trans hlatest))
    exact ⟨rfl, fun hnil => by cases hnil⟩
  · exact ⟨⟨.capability "notes", 0⟩, by decide +kernel⟩

/-- **After two updates, rolling back both leaves the data of version 1 under version 0.** -/
theorem second_rollback_disagrees :
    ∃ calls, ∃ call : UpdateCall .ledger Int jsonSerde.plain,
      Settles jsonRecord (fun _ => true) (noteRun calls) call ∧
      ¬ Agrees (.capability "notes") 7 (· = 0) (noteRun (calls ++ [call])) := by
  refine ⟨[applyNote firstUpdate "one", applyNote secondUpdate "two", rollbackNote secondUpdate],
    rollbackNote firstUpdate, ⟨⟨.capability "notes", 0⟩, by decide +kernel⟩, ?_⟩
  have hstate : noteState (noteRun ([applyNote firstUpdate "one", applyNote secondUpdate "two",
      rollbackNote secondUpdate] ++ [rollbackNote firstUpdate])) = (0, some (some "zero"), some "one") := by
    decide +kernel
  rintro ⟨contents, hbelonged, hshows⟩
  simp only [noteState, hbelonged, hshows 0 rfl, map_some, Prod.mk.injEq, some.injEq] at hstate
  obtain ⟨-, hzero, hone⟩ := hstate
  exact absurd (hzero.symm.trans hone) (by decide)

end Hyperion.Update
