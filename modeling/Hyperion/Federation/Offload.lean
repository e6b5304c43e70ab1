import Hyperion.Federation.Lease

/-!
# The privacy gate of offloads

`dispatch_offload` leaves out every ledger whose device is rented from a cloud when the work must stay
local. The tier it looks at is the one that the device had when it published the ledger; `join_device`
may change the tier of a device and leaves its ledger as it is. `KeepsTier` excludes that.
-/

namespace Hyperion.Federation
open Lib Capability Storage Sched Agent FederationHub List HashMap Option

section
variable {F V : Type}

/-! ## One dispatch -/

theorem bestCandidate_spec {values : List VirtualResourceLedger} {descriptor : OffloadDescriptor}
    {excluded : List Nat} {now : Nat} {l : VirtualResourceLedger}
    (h : bestCandidate values descriptor excluded now = some l) :
    l ∈ values ∧ l.deviceId ∉ excluded ∧ (descriptor.privacyTier = .local_ → l.trustTier ≠ .cloudRented) := by
  have hmem := argmin_mem h
  simp only [mem_filter, Bool.not_eq_true', contains_eq_mem, decide_eq_false_iff_not,
    Bool.or_eq_true, decide_eq_true_eq, FederationTrustTier.isCloud] at hmem
  obtain ⟨⟨⟨⟨⟨hvalues, hexcluded⟩, -⟩, hprivacy⟩, -⟩, -⟩ := hmem
  refine ⟨hvalues, hexcluded, fun hlocal => ?_⟩
  rcases hprivacy with hcloud | hother
  · rw [hlocal] at hcloud
    cases hcloud
  · exact hother

variable {deviceId d : Nat}

variable (hub : FederationHub F V)

theorem onDevice_other {α : Type} (hne : deviceId ≠ d)
    (call : AgentRuntime F V → Except AgentError α × AgentRuntime F V) :
    (hub.onDevice deviceId call).2.devices[d]? = hub.devices[d]? := by
  unfold onDevice
  split
  · rfl
  · split <;> simp only [get_insert, if_neg hne]

variable [F32 F] [Inhabited V]

theorem offloadTo_other (caller : Caller) (hne : deviceId ≠ d) (capabilityRef : String) (a : Attempt V) :
    (hub.offloadTo caller deviceId capabilityRef a).2.devices[d]? = hub.devices[d]? := by
  unfold offloadTo
  have hspawn := onDevice_other hub hne fun runtime =>
    runtime.spawn (at_ caller a.spawn) (offloadManifest capabilityRef) none 0 a.spawn.wall
  split
  · next heq => rw [heq] at hspawn; exact hspawn
  · next instanceId hub₁ heq =>
    rw [heq] at hspawn
    have hinvoke : (hub₁.invokeOn caller deviceId instanceId capabilityRef a.invoke).2.devices[d]? =
        hub₁.devices[d]? := onDevice_other hub₁ hne _
    split
    · exact hspawn
    · split
      · next heq => rw [heq] at hinvoke; exact hinvoke.trans hspawn
      · next outcome hub₂ heq =>
        rw [heq] at hinvoke
        have hterminate := onDevice_other hub₂ hne fun runtime =>
          runtime.terminate (at_ caller a.terminate) instanceId "offload_complete" a.terminate.wall
        split
        · next heq => rw [heq] at hterminate; exact hterminate.trans (hinvoke.trans hspawn)
        · next heq =>
          rw [heq] at hterminate
          split <;> exact hterminate.trans (hinvoke.trans hspawn)

/-- What is known of the devices that a dispatch has asked. -/
structure Tried (call : OffloadCall V) (values : List VirtualResourceLedger) (hub hub' : FederationHub F V)
    (tried : List Nat) : Prop where
  nodup : tried.Nodup
  ledger : ∀ d ∈ tried, ∃ l ∈ values, l.deviceId = d ∧
    (call.descriptor.privacyTier = .local_ → l.trustTier ≠ .cloudRented)
  others : ∀ d, d ∉ tried → hub'.devices[d]? = hub.devices[d]?

section
variable {call : OffloadCall V} {values : List VirtualResourceLedger} {hub hub' : FederationHub F V}
  {tried : List Nat}

omit [F32 F] [Inhabited V] in
theorem Tried.length_le (h : Tried call values hub hub' tried) : tried.length ≤ values.length := by
  have hsubset : tried ⊆ values.map (·.deviceId) := by
    intro d hd
    obtain ⟨l, hl, hid, -⟩ := h.ledger d hd
    exact mem_map.mpr ⟨l, hl, hid⟩
  calc tried.length ≤ (values.map (·.deviceId)).length := (subperm_of_subset h.nodup hsubset).length_le
    _ = values.length := length_map ..

theorem Tried.next (h : Tried call values hub hub' tried) {candidate : VirtualResourceLedger}
    (hbest : bestCandidate values call.descriptor tried call.now = some candidate) (a : Attempt V) :
    Tried call values hub (hub'.offloadTo call.caller candidate.deviceId call.capabilityRef a).2
      (tried ++ [candidate.deviceId]) := by
  obtain ⟨hvalues, hnew, hprivacy⟩ := bestCandidate_spec hbest
  refine ⟨?_, fun d hd => ?_, fun d hd => ?_⟩
  · refine nodup_append.mpr ⟨h.nodup, nodup_singleton _, ?_⟩
    rintro d hd _ hcandidate rfl
    exact hnew (mem_singleton.mp hcandidate ▸ hd)
  · rcases mem_append.mp hd with hearlier | hnow
    · exact h.ledger d hearlier
    · exact ⟨candidate, hvalues, (mem_singleton.mp hnow).symm, hprivacy⟩
  · rw [mem_append, mem_singleton, not_or] at hd
    rw [offloadTo_other hub' call.caller (Ne.symm hd.2), h.others d hd.1]

/-- **The loop ends**, in at most one round more than there are ledgers that have not been tried. -/
theorem offloadLoop_tries (rounds : Nat) (attempts : Nat → Attempt V) (h : Tried call values hub hub' tried)
    (hrounds : values.length < tried.length + rounds) :
    ∃ answer, offloadLoop call values rounds attempts tried hub' = some answer ∧
      Tried call values hub answer.2.1 answer.2.2 := by
  induction rounds generalizing attempts tried hub' with
  | zero => exact absurd h.length_le (by omega)
  | succ rounds ih =>
    rw [offloadLoop]
    split
    · exact ⟨_, rfl, h⟩
    · next candidate hbest =>
      have hnext := h.next hbest (attempts 0)
      split
      · next heq => rw [heq] at hnext; exact ⟨_, rfl, hnext⟩
      · next heq => rw [heq] at hnext; exact ⟨_, rfl, hnext⟩
      · next heq =>
        rw [heq] at hnext
        refine ih _ hnext ?_
        rw [length_append, length_singleton]
        omega

theorem dispatchOffload_tries (hub : FederationHub F V) (call : OffloadCall V) :
    ∃ answer, hub.dispatchOffload call (hub.ledgers.size + 1) = some answer ∧
      Tried call (call.visit.values hub.ledgers) hub answer.2.1 answer.2.2 := by
  have hnone : Tried call (call.visit.values hub.ledgers) hub hub [] :=
    ⟨nodup_nil, fun d hd => absurd hd not_mem_nil, fun _ _ => rfl⟩
  unfold dispatchOffload
  split
  · exact ⟨_, rfl, hnone⟩
  · refine offloadLoop_tries _ _ hnone ?_
    rw [Visit.length_values, length_nil]
    omega

end

/-! ## Runs -/

/-- The ledger of a device that is rented from a cloud says so. -/
def Current : Prop :=
  ∀ (d : Nat) (l : VirtualResourceLedger), hub.ledgers[d]? = some l →
    l.deviceId = d ∧ (hub.trustTiers[d]? = some .cloudRented → l.trustTier = .cloudRented)

/-- A device joins again as rented from a cloud only if its ledger, if it has one, says so. -/
def KeepsTier : HubCall V → Prop
  | .joinDevice _ d tier => tier = .cloudRented → ∀ l ∈ hub.ledgers[d]?, l.trustTier = .cloudRented
  | _ => True

instance (hub : FederationHub F V) : ∀ call, Decidable (KeepsTier hub call)
  | .joinDevice .. => inferInstanceAs (Decidable (_ → _))
  | .removeDevice .. | .publishLedger .. | .dispatchOffload _ | .acquireLease .. | .renewLease ..
  | .releaseLease .. | .spawnAgent _ | .invokeAgent .. | .migrate _ => .isTrue trivial

theorem Current.exec {hub : FederationHub F V} {call : HubCall V} (h : Current hub)
    (hkeeps : KeepsTier hub call) : Current (call.exec hub) := by
  have hchanges := exec_changes hub call
  generalize call.exec hub = hub' at hchanges ⊢
  intro d l hl
  cases hchanges with
  | same hsame =>
    rw [hsame.ledgers] at hl
    rw [hsame.trustTiers]
    exact h d l hl
  | joined caller d' tier =>
    refine ⟨(h d l hl).1, fun htier => ?_⟩
    rw [get_insert] at htier
    split at htier
    · next hd =>
      subst hd
      exact hkeeps (some.inj htier) l hl
    · exact (h d l hl).2 htier
  | removed caller d' =>
    rw [get_erase] at hl ⊢
    split at hl
    · cases hl
    · next hd =>
      rw [if_neg hd]
      exact h d l hl
  | published d' available networkLatencyMs now ttlSecs htier =>
    rw [get_insert] at hl
    split at hl
    · next hd =>
      obtain rfl := some.inj hl
      exact ⟨hd, fun hcloud => some.inj ((hd ▸ htier).symm.trans hcloud)⟩
    · exact h d l hl

omit [F32 F] [Inhabited V] in
theorem current_new : Current (new : FederationHub F V) := by
  intro d l hl
  simp [new] at hl

/-- **Local offloads stay off the cloud**, in every run in which no device with a ledger joins again as
rented from a cloud. The loop ends, asks at most as many devices as there are ledgers, and leaves the
runtime of every device that is rented from a cloud as it is. -/
theorem local_offload_avoids_cloud (calls : List (HubCall V))
    (hkeeps : Meets HubCall.exec KeepsTier (FederationHub.new : FederationHub F V) calls)
    (call : OffloadCall V) (hlocal : call.descriptor.privacyTier = .local_) :
    ∃ answer, (run HubCall.exec (FederationHub.new : FederationHub F V) calls).dispatchOffload call
        ((run HubCall.exec (FederationHub.new : FederationHub F V) calls).ledgers.size + 1) = some answer ∧
      answer.2.2.length ≤ (run HubCall.exec (FederationHub.new : FederationHub F V) calls).ledgers.size ∧
      ∀ d : Nat, (run HubCall.exec (FederationHub.new : FederationHub F V) calls).trustTiers[d]? =
          some .cloudRented →
        d ∉ answer.2.2 ∧ answer.2.1.devices[d]? =
          (run HubCall.exec (FederationHub.new : FederationHub F V) calls).devices[d]? := by
  have hcurrent := hkeeps.invariant (fun _ _ h => h.exec) current_new
  generalize run HubCall.exec (new : FederationHub F V) calls = hub at hcurrent ⊢
  obtain ⟨answer, hanswer, htried⟩ := dispatchOffload_tries hub call
  refine ⟨answer, hanswer, call.visit.length_values hub.ledgers ▸ htried.length_le, fun d hcloud => ?_⟩
  have hnot : d ∉ answer.2.2 := by
    intro hd
    obtain ⟨l, hl, rfl, hprivacy⟩ := htried.ledger d hd
    obtain ⟨key, hkey⟩ := (call.visit.mem_values hub.ledgers).mp hl
    obtain ⟨rfl, htier⟩ := hcurrent key l hkey
    exact hprivacy hlocal (htier hcloud)
  exact ⟨hnot, htried.others d hnot⟩

end

/-! ## A household -/

def smoothAttempt : Attempt Unit :=
  ⟨⟨0, 0⟩, ⟨0, ⟨0, 0⟩, 0, 0, .ok (), ⟨0, 0⟩⟩, ⟨0, 0⟩, ⟨true, true⟩⟩

def localOffload : OffloadCall Unit :=
  ⟨hubAdmin, ⟨{}, none, .local_⟩, "notes", 0, .inOrder, fun _ => smoothAttempt⟩

def household : List (HubCall Unit) :=
  [.joinDevice hubAdmin 1 .cloudRented, .publishLedger 1 {} 1 0 10,
    .joinDevice hubAdmin 2 .ownedSecondary, .publishLedger 2 {} 2 0 10]

def hubAfter (calls : List (HubCall Unit)) : FederationHub ℚ Unit := run HubCall.exec .new calls

theorem local_offload_avoids_cloud_household :
    (hubAfter household).trustTiers[1]? = some .cloudRented ∧
      ∃ answer, (hubAfter household).dispatchOffload localOffload ((hubAfter household).ledgers.size + 1) =
        some answer ∧ 1 ∉ answer.2.2 := by
  have hcloud : (hubAfter household).trustTiers[1]? = some .cloudRented := by decide +kernel
  obtain ⟨answer, hanswer, -, havoids⟩ :=
    local_offload_avoids_cloud (F := ℚ) household (by decide +kernel) localOffload rfl
  exact ⟨hcloud, answer, hanswer, (havoids 1 hcloud).1⟩

def rejoined : List (HubCall Unit) := household ++ [.joinDevice hubAdmin 2 .cloudRented]

/-- **A stale ledger lets a local offload reach the cloud.** -/
theorem stale_ledger_reaches_cloud :
    localOffload.descriptor.privacyTier = .local_ ∧
      (hubAfter rejoined).trustTiers[2]? = some .cloudRented ∧
      ((hubAfter rejoined).dispatchOffload localOffload 3).map (·.2.2) = some [2] ∧
      ((hubAfter rejoined).dispatchOffload localOffload 3).map (·.1.toOption) = some (some ()) := by
  decide +kernel

end Hyperion.Federation
