import Hyperion.Agent.Runtime
import Hyperion.Lib.Run
import Hyperion.Sched.Conservation

/-!
# Terminal agents

`Crowd` is a runtime with the calls that are under way: spawns that have a number but no instance yet,
and invocations between their phases. A `Step` is a locked section of an operation, or the start or the
end of a dispatch, so that a list of steps is an interleaving of operations. `ended` are the instances
that have been `Terminated` or `Completed`.

Some steps write a state without looking at the one they find. `Careful` says when they may be taken;
then an instance that has ended stays as it is, and no dispatch starts for it.
-/

namespace Hyperion.Agent
open Lib Capability Storage Sched Option Function List AgentRuntime

def LifecycleState.IsEnd (s : LifecycleState) : Prop := s = .terminated ∨ s = .completed

instance (s : LifecycleState) : Decidable s.IsEnd := inferInstanceAs (Decidable (_ ∨ _))

/-- How far an invocation has come: it has been admitted, its dispatch has started, the dispatch has
returned, or the ticket has been handed back. -/
inductive Phase (V : Type)
  | admitted
  | dispatching
  | dispatched (result : Except String V)
  | released (result : Except String V)
deriving DecidableEq

structure Invocation (V : Type) where
  instanceId : Nat
  capabilityRef : String
  ticket : Ticket
  phase : Phase V
deriving DecidableEq

structure Spawning where
  instanceId : Nat
  manifest : AgentManifest
  boundIntent : Option Nat
deriving DecidableEq, Repr

structure Crowd (F V : Type) where
  runtime : AgentRuntime F V
  spawning : List Spawning
  invoking : List (Invocation V)
  ended : Nat → Bool

/-- Spawns and invocations are named by their place among those under way. -/
inductive Step (F V : Type)
  | takeId (caller : Caller) (manifest : AgentManifest) (boundIntent : Option Nat)
  | bind (spawn : Nat) (remembered : UInt32) (clock : Nat)
  | prepare (call : InvokeCall F V)
  | startDispatch (invocation : Nat)
  | endDispatch (invocation : Nat) (result : Except String V)
  | release (invocation : Nat)
  | record (invocation : Nat) (clock : Nat) (now : Instant)
  | resolveConsent (caller : Caller) (instanceId : Nat) (approved : Bool) (clock : Nat)
  | grantCapability (caller : Caller) (instanceId : Nat) (capabilityRef : String) (clock : Nat)
  | checkpoint (caller : Caller) (instanceId : Nat) (clock : Nat)
  | resume (caller : Caller) (checkpointId : Nat) (clock : Nat)
  | terminate (caller : Caller) (instanceId : Nat) (reason : String) (clock : Nat)
  | markCompleted (caller : Caller) (instanceId : Nat) (clock : Nat)

section
variable {F V : Type} {id : Nat} {i : AgentInstance} {s : LifecycleState}

namespace Crowd

def start : Crowd F V := ⟨.new, [], [], fun _ => false⟩

def withRuntime (c : Crowd F V) (rt : AgentRuntime F V) : Crowd F V :=
  { c with runtime := rt, ended := fun id => c.ended id || (rt.stateOf id).any fun s => decide s.IsEnd }

def advance (c : Crowd F V) (invocation : Nat) (phase : Phase V) : Crowd F V :=
  { c with invoking := c.invoking.modify invocation fun i => { i with phase := phase } }

variable [F32 F] [Inhabited V]

/-- A step that does not apply, because the call is not that far, changes nothing. -/
def exec (c : Crowd F V) : Step F V → Crowd F V
  | .takeId caller manifest boundIntent =>
    match c.runtime.takeId caller with
    | (.error _, rt) => c.withRuntime rt
    | (.ok id, rt) =>
      { c.withRuntime rt with spawning := c.spawning ++ [⟨id, manifest, boundIntent⟩] }
  | .bind spawn remembered clock =>
    match c.spawning[spawn]? with
    | none => c
    | some new =>
      { c.withRuntime (c.runtime.bind new.instanceId new.manifest new.boundIntent remembered clock) with
        spawning := c.spawning.eraseIdx spawn }
  | .prepare call =>
    match require ⟨call.monitor, call.token, call.requireAt⟩ .exec with
    | .error _ => c
    | .ok () =>
      match c.runtime.prepareInvoke call with
      | (.ok (.proceed ticket _), rt) =>
        { c.withRuntime rt with
          invoking := c.invoking ++ [⟨call.instanceId, call.capabilityRef, ticket, .admitted⟩] }
      | (_, rt) => c.withRuntime rt
  | .startDispatch invocation =>
    match c.invoking[invocation]? with
    | some ⟨_, _, _, .admitted⟩ => c.advance invocation .dispatching
    | _ => c
  | .endDispatch invocation result =>
    match c.invoking[invocation]? with
    | some ⟨_, _, _, .dispatching⟩ => c.advance invocation (.dispatched result)
    | _ => c
  | .release invocation =>
    match c.invoking[invocation]? with
    | some ⟨_, _, ticket, .dispatched result⟩ =>
      (c.withRuntime (c.runtime.completeTicket ticket)).advance invocation (.released result)
    | _ => c
  | .record invocation clock now =>
    match c.invoking[invocation]? with
    | some ⟨id, capabilityRef, _, .released result⟩ =>
      { c.withRuntime (c.runtime.recordOutcome id capabilityRef result clock now).2 with
        invoking := c.invoking.eraseIdx invocation }
    | _ => c
  | .resolveConsent caller id approved clock =>
    c.withRuntime (c.runtime.resolveConsent caller id approved clock).2
  | .grantCapability caller id capabilityRef clock =>
    c.withRuntime (c.runtime.grantCapability caller id capabilityRef clock).2
  | .checkpoint caller id clock => c.withRuntime (c.runtime.checkpoint caller id clock).2
  | .resume caller checkpointId clock => c.withRuntime (c.runtime.resume caller checkpointId clock).2
  | .terminate caller id reason clock => c.withRuntime (c.runtime.terminate caller id reason clock).2
  | .markCompleted caller id clock => c.withRuntime (c.runtime.markCompleted caller id clock).2

end Crowd

/-! ## What a step does to the states -/

/-- The state of one instance is set in a way that `P` allows, or none is. -/
inductive Moves (P : Nat → Option LifecycleState → LifecycleState → Prop) (rt rt' : AgentRuntime F V) : Prop
  | still (h : rt'.stateOf = rt.stateOf)
  | moved {id : Nat} {s : LifecycleState} (hP : P id (rt.stateOf id) s)
      (h : rt'.stateOf = Function.update rt.stateOf id (some s))

variable {P Q : Nat → Option LifecycleState → LifecycleState → Prop} {rt rt' rt'' : AgentRuntime F V}

theorem Moves.imp (h : Moves P rt rt') (himp : ∀ id s, P id (rt.stateOf id) s → Q id (rt.stateOf id) s) :
    Moves Q rt rt' := by
  cases h with
  | still h => exact .still h
  | moved hP h => exact .moved (himp _ _ hP) h

theorem stateOf_eq_some (h : rt.stateOf id = some s) : ∃ i, rt.instances[id]? = some i ∧ i.state = s := by
  obtain ⟨i, hi, hs⟩ := map_eq_some_iff.mp h
  exact ⟨i, hi, hs⟩

theorem stateOf_of_instances (h : rt'.instances = rt.instances) : rt'.stateOf = rt.stateOf := by
  funext id
  rw [stateOf, h, stateOf]

theorem stateOf_insert (h : rt'.instances = rt.instances.insert id i) :
    rt'.stateOf = Function.update rt.stateOf id (some i.state) := by
  funext x
  rw [stateOf, h, HashMap.get_insert, update_apply]
  by_cases hx : x = id
  · simp [hx]
  · simp [hx, Ne.symm hx, stateOf]

theorem Moves.stored (h : rt'.instances = rt.instances.insert id i)
    (hP : P id (rt.stateOf id) i.state) : Moves P rt rt' :=
  .moved hP (stateOf_insert h)

theorem Moves.restored {i i' : AgentInstance} (hi : rt.instances[id]? = some i)
    (h : rt'.instances = rt.instances.insert id i') (hstate : i'.state = i.state) : Moves P rt rt' := by
  refine .still ((stateOf_insert h).trans ?_)
  rw [hstate, update_eq_self_iff, stateOf, hi, map_some]

variable (caller : Caller)

variable (instanceId : Nat) (capabilityRef : String)

theorem finish_moves (state : LifecycleState) (kind detail : String) (clock : Nat) :
    Moves (fun id _ s => id = instanceId ∧ s = state) rt
      (rt.finish caller instanceId state kind detail clock).2 := by
  unfold finish
  split
  · exact .still rfl
  · split
    · exact .still rfl
    · exact .stored rfl ⟨rfl, rfl⟩

theorem resume_moves (checkpointId : Nat) (clock : Nat) :
    Moves (fun _ old s => old = some .checkpointed ∧ s = .executing) rt
      (rt.resume caller checkpointId clock).2 := by
  unfold resume
  split
  · exact .still rfl
  · split
    · exact .still rfl
    · split
      · exact .still rfl
      · next i hi =>
        split
        · exact .still rfl
        · next hstate =>
          refine .stored rfl ⟨?_, rfl⟩
          rw [stateOf, hi, map_some, not_not.mp hstate]

theorem checkpoint_moves (clock : Nat) :
    Moves (fun id _ s => id = instanceId ∧ s = .checkpointed) rt
      (rt.checkpoint caller instanceId clock).2 := by
  unfold checkpoint
  split
  · exact .still rfl
  · split
    · exact .still rfl
    · exact .stored rfl ⟨rfl, rfl⟩

theorem grantCapability_moves (clock : Nat) :
    Moves P rt (rt.grantCapability caller instanceId capabilityRef clock).2 := by
  unfold grantCapability
  split
  · exact .still rfl
  · split
    · exact .still rfl
    · next i hi => exact .restored hi rfl rfl

theorem resolveConsent_moves (approved : Bool) (clock : Nat) :
    Moves (fun id _ s => id = instanceId ∧ s = .executing) rt
      (rt.resolveConsent caller instanceId approved clock).2 := by
  unfold resolveConsent
  split
  · exact .still rfl
  · split
    · exact .still rfl
    · split
      · exact .still rfl
      · exact .stored rfl ⟨rfl, rfl⟩

theorem recordSuccessAfterResume_state (i : AgentInstance) (clock : Nat) :
    (recordSuccessAfterResume i clock).state = i.state := by
  unfold recordSuccessAfterResume
  split
  · rfl
  · dsimp only
    split <;> rfl

theorem recordFailure_state (i : AgentInstance) (capabilityRef reason : String) (clock : Nat) :
    (recordFailure i capabilityRef reason clock).1.state =
      if circuitBreakerThreshold ≤ i.quota.consecutiveFailures + 1 then .suspended else i.state := by
  unfold recordFailure
  dsimp only
  split <;> rfl

theorem recordOutcome_moves (result : Except String V) (clock : Nat) (now : Instant) :
    Moves (fun id _ s => id = instanceId ∧ s = .suspended ∧ (∃ reason, result = .error reason) ∧
        ∃ i, rt.instances[id]? = some i ∧ circuitBreakerThreshold ≤ i.quota.consecutiveFailures + 1) rt
      (rt.recordOutcome instanceId capabilityRef result clock now).2 := by
  unfold recordOutcome
  split
  · exact .still rfl
  · next i hi =>
    split
    · exact .restored hi rfl (recordSuccessAfterResume_state _ _)
    · next reason =>
      have hstate := recordFailure_state i capabilityRef reason clock
      by_cases htrips : circuitBreakerThreshold ≤ i.quota.consecutiveFailures + 1
      · rw [if_pos htrips] at hstate
        exact .stored rfl ⟨rfl, hstate, ⟨reason, rfl⟩, i, hi, htrips⟩
      · rw [if_neg htrips] at hstate
        exact .restored hi rfl hstate

/-- The instance has this state now, and the others have theirs. -/
def SetTo (rt : AgentRuntime F V) (id : Nat) (rt' : AgentRuntime F V) (s : LifecycleState) : Prop :=
  rt'.stateOf = Function.update rt.stateOf id (some s)

theorem SetTo.stored (h : rt'.instances = rt.instances.insert id i) (hs : i.state = s) : SetTo rt id rt' s :=
  hs ▸ stateOf_insert h

theorem SetTo.of_get (h : rt.instances[id]? = some i)
    (hsame : rt'.instances = rt.instances) : SetTo rt id rt' i.state := by
  rw [SetTo, stateOf_of_instances hsame, eq_comm, update_eq_self_iff, stateOf, h,
    map_some]

theorem SetTo.trans {s s' : LifecycleState} (h : SetTo rt id rt' s) (h' : SetTo rt' id rt'' s') :
    SetTo rt id rt'' s' := by
  rw [SetTo, h', h, update_idem]

theorem autoResume_cases {call : InvokeCall F V} {i i₁ : AgentInstance} {rt₁ : AgentRuntime F V}
    (h : rt.autoResume call i = .ok (i₁, rt₁)) :
    i₁ = i ∧ rt₁ = rt ∨ i.state = .suspended ∧ i₁.state = .bound ∧
      rt₁.instances = rt.instances.insert call.instanceId i₁ := by
  unfold autoResume at h
  split at h
  · next hsuspended =>
    dsimp only at h
    split at h
    · cases h
    · cases h
      exact .inr ⟨hsuspended, rfl, rfl⟩
  · cases h
    exact .inl ⟨rfl, rfl⟩

variable [F32 F] [Inhabited V]

theorem admitInvoke_setTo (call : InvokeCall F V) (hi : rt.instances[call.instanceId]? = some i) :
    ∃ s, (s = i.state ∨ s = .executing) ∧ SetTo rt call.instanceId (rt.admitInvoke call i).2 s := by
  unfold admitInvoke
  dsimp only
  split
  · exact ⟨_, .inl rfl, .of_get hi rfl⟩
  · split
    · exact ⟨_, .inr rfl, .stored rfl rfl⟩
    · exact ⟨_, .inl rfl, .stored rfl rfl⟩

theorem prepareInvoke_cases (rt : AgentRuntime F V) (call : InvokeCall F V) :
    (rt.prepareInvoke call).2.stateOf = rt.stateOf ∧
      (∀ ticket intent, (rt.prepareInvoke call).1 ≠ .ok (.proceed ticket intent)) ∨
    ∃ i s, rt.instances[call.instanceId]? = some i ∧ ¬ i.state.IsEnd ∧ ¬ s.IsEnd ∧
      SetTo rt call.instanceId (rt.prepareInvoke call).2 s := by
  unfold prepareInvoke
  split
  · exact .inl ⟨rfl, fun _ _ h => by cases h⟩
  · next i hi =>
    split
    · exact .inl ⟨rfl, fun _ _ h => by cases h⟩
    · next i₁ rt₁ hresume =>
      have hfirst : SetTo rt call.instanceId rt₁ i₁.state ∧ rt₁.instances[call.instanceId]? = some i₁ ∧
          (i.state.IsEnd ∨ i₁.state.IsEnd → i₁ = i ∧ rt₁ = rt) := by
        rcases autoResume_cases hresume with ⟨rfl, rfl⟩ | ⟨hsuspended, hbound, hinsert⟩
        · exact ⟨.of_get hi rfl, hi, fun _ => ⟨rfl, rfl⟩⟩
        · refine ⟨.stored hinsert rfl, by rw [hinsert]; simp, fun hend => ?_⟩
          rw [hsuspended, hbound] at hend
          exact absurd hend (by decide)
      obtain ⟨hset, hi₁, hsame⟩ := hfirst
      by_cases hend : i₁.state.IsEnd
      · obtain ⟨rfl, rfl⟩ := hsame (.inr hend)
        rw [if_pos (hend.elim .inl fun h => .inr (.inl h))]
        exact .inl ⟨rfl, fun _ _ h => by cases h⟩
      · have hstart : ¬ i.state.IsEnd := fun h => hend ((hsame (.inl h)).1 ▸ h)
        -- from here on the instance is not at an end, and no branch puts it there
        have hgoes : ∀ {s : LifecycleState} {rt' : AgentRuntime F V}, SetTo rt₁ call.instanceId rt' s →
            ¬ s.IsEnd → ∃ i s, rt.instances[call.instanceId]? = some i ∧ ¬ i.state.IsEnd ∧ ¬ s.IsEnd ∧
              SetTo rt call.instanceId rt' s :=
          fun hset' hs => ⟨i, _, hi, hstart, hs, hset.trans hset'⟩
        right
        split
        · exact hgoes (.of_get hi₁ rfl) hend
        · split
          · exact hgoes (.stored rfl rfl) hend
          · exact hgoes (.stored rfl rfl) (show ¬ LifecycleState.IsEnd .waitingOnCapability by decide)
          · obtain ⟨s, hs, hset'⟩ := admitInvoke_setTo call hi₁
            refine hgoes hset' ?_
            rcases hs with rfl | rfl
            · exact hend
            · decide

/-! ## Runs -/

/-- How a step may set the state of an instance. -/
def Step.MayMove (c : Crowd F V) : Step F V → Nat → Option LifecycleState → LifecycleState → Prop
  | .bind spawn _ _, id, _, s => (∃ new, c.spawning[spawn]? = some new ∧ new.instanceId = id) ∧ s = .bound
  | .prepare call, id, old, s =>
    id = call.instanceId ∧ ¬ s.IsEnd ∧ ∀ s₀, old = some s₀ → ¬ s₀.IsEnd
  | .record invocation _ _, id, _, s =>
    s = .suspended ∧ (∃ capabilityRef ticket reason,
      c.invoking[invocation]? = some ⟨id, capabilityRef, ticket, .released (.error reason)⟩) ∧
      ∃ i, c.runtime.instances[id]? = some i ∧ circuitBreakerThreshold ≤ i.quota.consecutiveFailures + 1
  | .resolveConsent _ instanceId _ _, id, _, s => id = instanceId ∧ s = .executing
  | .checkpoint _ instanceId _, id, _, s => id = instanceId ∧ s = .checkpointed
  | .resume _ _ _, _, old, s => old = some .checkpointed ∧ s = .executing
  | .terminate _ instanceId _ _, id, _, s => id = instanceId ∧ s = .terminated
  | .markCompleted _ instanceId _, id, _, s => id = instanceId ∧ s = .completed
  | _, _, _, _ => False

omit [F32 F] [Inhabited V] in
theorem takeId_instances (rt : AgentRuntime F V) (caller : Caller) : (rt.takeId caller).2.instances = rt.instances := by
  unfold takeId
  split <;> rfl

/-- **Everything a step can do to the states of the instances.** -/
theorem exec_moves (c : Crowd F V) (step : Step F V) :
    Moves (step.MayMove c) c.runtime (c.exec step).runtime := by
  cases step with
  | takeId caller manifest boundIntent =>
    have hsame := stateOf_of_instances (takeId_instances c.runtime caller)
    unfold Crowd.exec
    dsimp only
    split
    all_goals next heq => exact .still (by rw [heq] at hsame; exact hsame)
  | bind spawn remembered clock =>
    unfold Crowd.exec
    dsimp only
    split
    · exact .still rfl
    · next new hnew => exact .stored rfl ⟨⟨new, hnew, rfl⟩, rfl⟩
  | prepare call =>
    have hmoves : Moves ((Step.prepare call).MayMove c) c.runtime (c.runtime.prepareInvoke call).2 := by
      rcases prepareInvoke_cases c.runtime call with ⟨hsame, -⟩ | ⟨i, s, hi, hstart, hs, hset⟩
      · exact .still hsame
      · refine .moved ⟨rfl, hs, ?_⟩ hset
        intro s₀ hs₀
        rw [stateOf, hi, map_some, some.injEq] at hs₀
        exact hs₀ ▸ hstart
    unfold Crowd.exec
    dsimp only
    split
    · exact .still rfl
    · split
      all_goals next heq => rw [heq] at hmoves; exact hmoves
  | startDispatch | endDispatch | release =>
    unfold Crowd.exec
    dsimp only
    split <;> exact .still rfl
  | record invocation clock now =>
    unfold Crowd.exec
    dsimp only
    split
    · next id capabilityRef ticket result hinv =>
      refine (recordOutcome_moves id capabilityRef result clock now).imp ?_
      rintro _ s ⟨rfl, rfl, ⟨reason, rfl⟩, hi⟩
      exact ⟨rfl, ⟨capabilityRef, ticket, reason, hinv⟩, hi⟩
    · exact .still rfl
  | resolveConsent caller id approved clock => exact resolveConsent_moves caller id approved clock
  | grantCapability caller id capabilityRef clock => exact grantCapability_moves caller id capabilityRef clock
  | checkpoint caller id clock => exact checkpoint_moves caller id clock
  | resume caller checkpointId clock => exact resume_moves caller checkpointId clock
  | terminate caller id _ clock | markCompleted caller id clock => exact finish_moves caller id _ _ _ clock

/-- When a step that writes a state without looking may be taken: a spawn under a number that no instance
has; a failure recorded for an instance at an end only below the threshold; consent and checkpoints only
for instances that are not at an end; an end only for an instance whose admitted invocations have all
been dispatched. -/
def Careful (c : Crowd F V) : Step F V → Prop
  | .bind spawn _ _ =>
    ∀ new, c.spawning[spawn]? = some new → c.runtime.instances[new.instanceId]? = none
  | .record invocation _ _ => ∀ id capabilityRef ticket reason i,
      c.invoking[invocation]? = some ⟨id, capabilityRef, ticket, .released (.error reason)⟩ →
      c.runtime.instances[id]? = some i → i.state.IsEnd →
      ¬ circuitBreakerThreshold ≤ i.quota.consecutiveFailures + 1
  | .resolveConsent _ id _ _ | .checkpoint _ id _ => ∀ s, c.runtime.stateOf id = some s → ¬ s.IsEnd
  | .terminate _ id _ _ | .markCompleted _ id _ =>
    ∀ i ∈ c.invoking, i.phase = .admitted → i.instanceId ≠ id
  | _ => True

structure Dead (c : Crowd F V) : Prop where
  ended : ∀ id, c.ended id = true ↔ ∃ s, c.runtime.stateOf id = some s ∧ s.IsEnd
  admitted : ∀ i ∈ c.invoking, i.phase = .admitted → c.ended i.instanceId = false

variable {c : Crowd F V} {step : Step F V}

theorem Careful.keeps (hcareful : Careful c step) (hs : c.runtime.stateOf id = some s) (hend : s.IsEnd) :
    ∃ s', (c.exec step).runtime.stateOf id = some s' ∧ s'.IsEnd := by
  cases exec_moves c step with
  | still h => exact ⟨s, by rw [h, hs], hend⟩
  | moved hmay h =>
    next id₀ s₀ =>
    by_cases hid : id = id₀
    · subst hid
      refine ⟨s₀, by rw [h, update_self], ?_⟩
      obtain ⟨i, hi, rfl⟩ := stateOf_eq_some hs
      cases step with
      | bind =>
        obtain ⟨⟨new, hnew, rfl⟩, -⟩ := hmay
        rw [hcareful new hnew] at hi
        cases hi
      | prepare => exact absurd hend (hmay.2.2 _ hs)
      | record =>
        obtain ⟨-, ⟨_, _, _, hinv⟩, i', hi', htrips⟩ := hmay
        obtain rfl := some.inj (hi.symm.trans hi')
        exact absurd htrips (hcareful _ _ _ _ _ hinv hi hend)
      | resolveConsent | checkpoint =>
        obtain ⟨rfl, -⟩ := hmay
        exact absurd hend (hcareful _ hs)
      | resume =>
        obtain ⟨hold, -⟩ := hmay
        rw [hs, some.injEq] at hold
        exact absurd (hold ▸ hend) (by decide)
      | terminate => exact .inl hmay.2
      | markCompleted => exact .inr hmay.2
      | takeId | startDispatch | endDispatch | release | grantCapability => exact hmay.elim
    · exact ⟨s, by rw [h, update_of_ne hid, hs], hend⟩

theorem Careful.newEnd (hcareful : Careful c step)
    (hs : (c.exec step).runtime.stateOf id = some s) (hend : s.IsEnd) :
    c.runtime.stateOf id = some s ∨ ∀ i ∈ c.invoking, i.phase = .admitted → i.instanceId ≠ id := by
  cases exec_moves c step with
  | still h => exact .inl (by rw [← h, hs])
  | moved hmay h =>
    next id₀ s₀ =>
    by_cases hid : id = id₀
    · subst hid
      rw [h, update_self, some.injEq] at hs
      subst hs
      cases step with
      | terminate | markCompleted =>
        obtain ⟨rfl, -⟩ := hmay
        exact .inr hcareful
      | prepare => exact absurd hend hmay.2.1
      | record => exact absurd (hmay.1 ▸ hend) (by decide)
      | bind | resolveConsent | checkpoint | resume => exact absurd (hmay.2 ▸ hend) (by decide)
      | takeId | startDispatch | endDispatch | release | grantCapability => exact hmay.elim
    · rw [h, update_of_ne hid] at hs
      exact .inl hs

theorem exec_ended (c : Crowd F V) (step : Step F V) :
    (c.exec step).ended = c.ended ∧ (c.exec step).runtime = c.runtime ∨
      (c.exec step).ended = (c.withRuntime (c.exec step).runtime).ended := by
  cases step with
  | takeId | prepare =>
    unfold Crowd.exec
    dsimp only
    repeat' split
    all_goals first | exact .inr rfl | exact .inl ⟨rfl, rfl⟩
  | bind | startDispatch | endDispatch | release | record =>
    unfold Crowd.exec
    dsimp only
    split
    all_goals first | exact .inl ⟨rfl, rfl⟩ | exact .inr rfl
  | resolveConsent | grantCapability | checkpoint | resume | terminate | markCompleted => exact .inr rfl

omit [F32 F] [Inhabited V] in
theorem mem_advance {invocation : Nat} {phase : Phase V} {i : Invocation V}
    (hi : i ∈ (c.advance invocation phase).invoking) (hphase : phase ≠ .admitted)
    (hadmitted : i.phase = .admitted) : i ∈ c.invoking := by
  obtain ⟨k, hk⟩ := mem_iff_getElem?.mp hi
  rw [Crowd.advance, List.getElem?_modify] at hk
  obtain ⟨j, hj, rfl⟩ := map_eq_some_iff.mp hk
  split at hadmitted
  · exact absurd hadmitted hphase
  · next hne =>
    rw [if_neg hne]
    exact mem_of_getElem? hj

theorem mem_invoking {i : Invocation V} (hi : i ∈ (c.exec step).invoking) (hadmitted : i.phase = .admitted) :
    i ∈ c.invoking ∨ ∃ i₀ s, c.runtime.instances[i.instanceId]? = some i₀ ∧ ¬ i₀.state.IsEnd ∧
      ¬ s.IsEnd ∧ (c.exec step).runtime.stateOf i.instanceId = some s := by
  cases step with
  | prepare call =>
    unfold Crowd.exec at hi ⊢
    dsimp only at hi ⊢
    split at hi
    · exact .inl hi
    · split at hi
      · next ticket intent rt heq =>
        rcases mem_append.mp hi with hold | hnew
        · exact .inl hold
        · obtain rfl := mem_singleton.mp hnew
          rcases prepareInvoke_cases c.runtime call with ⟨-, hno⟩ | ⟨i₀, s, hi₀, hstart, hs, hset⟩
          · exact absurd (congrArg Prod.fst heq) (hno ticket intent)
          · refine .inr ⟨i₀, s, hi₀, hstart, hs, ?_⟩
            rw [heq] at hset
            exact (congrFun hset call.instanceId).trans (update_self ..)
      · exact .inl hi
  | startDispatch | endDispatch | release =>
    left
    unfold Crowd.exec at hi
    dsimp only at hi
    split at hi
    · exact mem_advance hi (fun h => by cases h) hadmitted
    · exact hi
  | record =>
    left
    unfold Crowd.exec at hi
    dsimp only at hi
    split at hi
    · exact mem_of_mem_eraseIdx hi
    · exact hi
  | takeId | bind =>
    left
    unfold Crowd.exec at hi
    dsimp only at hi
    split at hi <;> exact hi
  | resolveConsent | grantCapability | checkpoint | resume | terminate | markCompleted => exact .inl hi

theorem Dead.exec (h : Dead c) (hcareful : Careful c step) : Dead (c.exec step) := by
  have hended : ∀ id, (c.exec step).ended id = true ↔
      ∃ s, (c.exec step).runtime.stateOf id = some s ∧ s.IsEnd := by
    intro id
    rcases exec_ended c step with ⟨hended, hruntime⟩ | hended
    · rw [hended, hruntime, h.ended]
    · simp only [hended, Crowd.withRuntime, Bool.or_eq_true, h.ended, Option.any_eq_true,
        decide_eq_true_eq]
      refine ⟨?_, .inr⟩
      rintro (⟨s, hs, hend⟩ | hnow)
      · exact hcareful.keeps hs hend
      · exact hnow
  refine ⟨hended, fun i hi hadmitted => ?_⟩
  rw [Bool.eq_false_iff, ne_eq, hended]
  rintro ⟨s, hs, hend⟩
  rcases mem_invoking hi hadmitted with hold | ⟨i₀, s', -, -, hs', hstate⟩
  · have hbefore := h.admitted i hold hadmitted
    rw [Bool.eq_false_iff, ne_eq, h.ended] at hbefore
    rcases hcareful.newEnd hs hend with hsame | hnone
    · exact hbefore ⟨s, hsame, hend⟩
    · exact hnone i hold hadmitted rfl
  · exact hs' (some.inj (hstate.symm.trans hs) ▸ hend)

omit [F32 F] [Inhabited V] in
theorem dead_start : Dead (Crowd.start : Crowd F V) := by
  refine ⟨fun id => ?_, fun i hi => absurd hi not_mem_nil⟩
  simp [Crowd.start, stateOf, new]

def Starts (c : Crowd F V) (step : Step F V) (id : Nat) : Prop :=
  ∃ invocation i, step = .startDispatch invocation ∧ c.invoking[invocation]? = some i ∧
    i.phase = .admitted ∧ i.instanceId = id

/-- **Instances that have ended stay dead**: in every careful run, an instance that has once been
`Terminated` or `Completed` is in one of these states, and no step starts a dispatch for it. -/
theorem ended_instances_stay_dead (steps : List (Step F V))
    (hcareful : Meets Crowd.exec Careful Crowd.start steps) (id : Nat)
    (hended : (run Crowd.exec Crowd.start steps).ended id = true) :
    (∃ s, (run Crowd.exec Crowd.start steps).runtime.stateOf id = some s ∧ s.IsEnd) ∧
      ∀ step, ¬ Starts (run Crowd.exec Crowd.start steps) step id := by
  have hdead := hcareful.invariant (fun _ _ h => h.exec) dead_start
  refine ⟨(hdead.ended id).mp hended, ?_⟩
  rintro step ⟨invocation, i, -, hi, hadmitted, rfl⟩
  rw [hdead.admitted i (mem_of_getElem? hi) hadmitted] at hended
  cases hended

end

/-! ## One agent -/

def agentHost : Caller :=
  ⟨(CapabilityMonitor.new.mintRoot 1 0 .all 7 none).2, (CapabilityMonitor.new.mintRoot 1 0 .all 7 none).1, 0⟩

def secretary : AgentManifest := ⟨"secretary", ["notes"], ["mail"], .community⟩

def spawned : List (Step ℚ Unit) := [.takeId agentHost secretary none, .bind 0 0 0]

def prepared (capabilityRef : String) : Step ℚ Unit :=
  .prepare ⟨agentHost.monitor, agentHost.token, 0, 1, capabilityRef, 0, 0, none, 0, 0, fun _ => ⟨none, none⟩⟩

def terminated : Step ℚ Unit := .terminate agentHost 1 "done" 0

def failing : List (Step ℚ Unit) :=
  [prepared "notes", .startDispatch 0, .endDispatch 0 (.error "offline"), .release 0, .record 0 0 0]

/-- After its end, the agent is invoked, granted a capability and resumed. -/
def haunted : List (Step ℚ Unit) :=
  spawned ++ [terminated, prepared "notes", .grantCapability agentHost 1 "mail" 0, .resume agentHost 2 0]

theorem ended_instances_stay_dead_secretary :
    (run Crowd.exec .start haunted).ended 1 = true ∧
      ∃ s, (run Crowd.exec .start haunted).runtime.stateOf 1 = some s ∧ s.IsEnd := by
  have hended : (run Crowd.exec .start haunted).ended 1 = true := by decide +kernel
  refine ⟨hended, (ended_instances_stay_dead haunted
    ⟨trivial, fun new hnew => ?_, ?_, trivial, trivial, trivial, trivial⟩ 1 hended).1⟩
  · have hone : new.instanceId = 1 := by
      obtain rfl : (⟨1, secretary, none⟩ : Spawning) = new := some.inj hnew
      rfl
    rw [hone]
    decide +kernel
  · exact fun i hi => absurd hi not_mem_nil

def BackIn (steps : List (Step ℚ Unit)) (s : LifecycleState) : Prop :=
  (run Crowd.exec .start steps).ended 1 = true ∧ (run Crowd.exec .start steps).runtime.stateOf 1 = some s

instance (steps : List (Step ℚ Unit)) (s : LifecycleState) : Decidable (BackIn steps s) :=
  inferInstanceAs (Decidable (_ ∧ _))

/-- **A terminated instance comes back** when its consent request is answered, when it is checkpointed and
resumed, and when a third failure is recorded; and a dispatch that was admitted before still starts. -/
theorem ended_instance_comes_back :
    BackIn (spawned ++ [prepared "mail", terminated, .resolveConsent agentHost 1 false 0]) .executing ∧
      BackIn (spawned ++ [terminated, .checkpoint agentHost 1 0]) .checkpointed ∧
      BackIn (spawned ++ [terminated, .checkpoint agentHost 1 0, .resume agentHost 2 0]) .executing ∧
      BackIn (spawned ++ failing ++ failing ++ prepared "notes" :: terminated :: failing.tail) .suspended ∧
      (run Crowd.exec .start (spawned ++ [prepared "notes", terminated])).ended 1 = true ∧
      Starts (run Crowd.exec .start (spawned ++ [prepared "notes", terminated])) (.startDispatch 0) 1 := by
  refine ⟨by decide +kernel, by decide +kernel, by decide +kernel, by decide +kernel, by decide +kernel,
    0, ⟨1, "notes", 1, .admitted⟩, rfl, ?_, rfl, rfl⟩
  decide +kernel

end Hyperion.Agent
