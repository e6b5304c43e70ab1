import Hyperion.Federation.Hub
import Hyperion.Lib.Run
import Hyperion.Sched.Conservation

/-!
# Fencing

A lease names the device that an agent is anchored to, and its generation is what an old holder's
messages are told apart by. `Watched` is a hub with all leases that it has granted or renewed.

`release_lease` forgets the generation, `spawn_agent` starts one whatever lease there is under its number,
and `renew_lease` does not ask whether the device is still a member. `Orderly` says when that does no harm.
-/

namespace Hyperion.Federation
open Lib Capability Storage Sched Agent FederationHub HashMap List

/-- A lease that was granted or renewed, and whether its device was a member then. -/
structure Grant where
  lease : AnchorLease
  member : Bool
deriving DecidableEq, Repr

/-- The later lease has a higher generation, or it has the same holder and not a lower one. -/
def AnchorLease.Precedes (earlier later : AnchorLease) : Prop :=
  earlier.agentInstance = later.agentInstance →
    earlier.generation ≤ later.generation ∧
      (earlier.holderDevice ≠ later.holderDevice → earlier.generation < later.generation)

instance (earlier later : AnchorLease) : Decidable (earlier.Precedes later) :=
  inferInstanceAs (Decidable (_ → _))

/-- The generation of the leases of an instance rises whenever the holder changes, and only members have
been given leases. -/
def Fenced (grants : List Grant) : Prop :=
  (grants.Pairwise fun a b => a.lease.Precedes b.lease) ∧ ∀ g ∈ grants, g.member = true

instance (grants : List Grant) : Decidable (Fenced grants) := inferInstanceAs (Decidable (_ ∧ _))

structure Watched (F V : Type) where
  hub : FederationHub F V
  grants : List Grant

section
variable {F V : Type}

def FederationHub.isMember (hub : FederationHub F V) (deviceId : Nat) : Bool :=
  hub.trustTiers[deviceId]?.isSome

/-- The lease that the call grants or renews. -/
def HubCall.granted (hub : FederationHub F V) : HubCall V → Option AnchorLease
  | .acquireLease caller agentInstance deviceId now ttlSecs =>
    (hub.acquireLease caller agentInstance deviceId now ttlSecs).1.toOption
  | .renewLease caller agentInstance deviceId now =>
    (hub.renewLease caller agentInstance deviceId now).1.toOption
  | .spawnAgent call =>
    match hub.spawnAgent call with
    | (.ok globalId, hub) => hub.leaseOf globalId
    | (.error _, _) => none
  | .migrate call =>
    match hub.migrate call with
    | (.ok receipt, hub) => hub.leaseOf receipt.agentInstance
    | (.error _, _) => none
  | _ => none

/-! ## What a call does to the leases -/

/-- Where a lease comes from. The holder of an acquired lease has a trust tier, that of a lease that came
with a spawn or a migration a runtime. -/
inductive Granted (hub : FederationHub F V) (l : AnchorLease) : HubCall V → Prop
  | first {caller : Caller} {now ttlSecs : Nat} (hmember : hub.isMember l.holderDevice = true)
      (hnone : hub.leases[l.agentInstance]? = none) (hzero : l.generation = 0) :
      Granted hub l (.acquireLease caller l.agentInstance l.holderDevice now ttlSecs)
  | refreshed {caller : Caller} {now ttlSecs : Nat} {existing : AnchorLease}
      (hmember : hub.isMember l.holderDevice = true) (hexisting : hub.leases[l.agentInstance]? = some existing)
      (hholder : existing.holderDevice = l.holderDevice) (hsame : l.generation = existing.generation) :
      Granted hub l (.acquireLease caller l.agentInstance l.holderDevice now ttlSecs)
  | taken {caller : Caller} {now ttlSecs : Nat} {existing : AnchorLease}
      (hmember : hub.isMember l.holderDevice = true) (hexisting : hub.leases[l.agentInstance]? = some existing)
      (hother : existing.holderDevice ≠ l.holderDevice)
      (hnext : l.generation = nextGeneration existing.generation) :
      Granted hub l (.acquireLease caller l.agentInstance l.holderDevice now ttlSecs)
  | renewed {caller : Caller} {now : Nat} {existing : AnchorLease}
      (hexisting : hub.leases[l.agentInstance]? = some existing)
      (hholder : existing.holderDevice = l.holderDevice) (hsame : l.generation = existing.generation) :
      Granted hub l (.renewLease caller l.agentInstance l.holderDevice now)
  | spawned {call : SpawnCall} (hdevice : call.deviceId = l.holderDevice)
      (hruntime : hub.devices[l.holderDevice]?.isSome = true) (hid : hub.nextAgentId = l.agentInstance)
      (hzero : l.generation = 0) : Granted hub l (.spawnAgent call)
  | migrated {call : MigrateCall} {existing : AnchorLease}
      (hid : call.globalAgentId = l.agentInstance) (hruntime : hub.devices[l.holderDevice]?.isSome = true)
      (hexisting : hub.leases[l.agentInstance]? = some existing)
      (hnext : l.generation = nextGeneration existing.generation) : Granted hub l (.migrate call)

variable (hub : FederationHub F V)

theorem acquireLease_cases (caller : Caller) (agentInstance deviceId now ttlSecs : Nat) :
    (∃ err, hub.acquireLease caller agentInstance deviceId now ttlSecs = (.error err, hub)) ∨
      ∃ l, hub.acquireLease caller agentInstance deviceId now ttlSecs = (.ok l, hub.grant l) ∧
        Granted hub l (.acquireLease caller agentInstance deviceId now ttlSecs) := by
  unfold acquireLease
  split
  · exact .inl ⟨_, rfl⟩
  · split
    · exact .inl ⟨_, rfl⟩
    · next tier htier =>
      split
      · exact .inl ⟨_, rfl⟩
      · next generation hgeneration =>
        refine .inr ⟨_, rfl, ?_⟩
        have hmember : hub.isMember deviceId = true := by rw [isMember, htier]; rfl
        unfold acquiredGeneration at hgeneration
        split at hgeneration
        · next hnone =>
          exact .first (l := ⟨agentInstance, deviceId, generation, now, ttlSecs⟩) hmember hnone
            (Except.ok.inj hgeneration).symm
        · next existing hexisting =>
          split at hgeneration
          · next hholder =>
            exact .refreshed (l := ⟨agentInstance, deviceId, generation, now, ttlSecs⟩) hmember hexisting
              hholder (Except.ok.inj hgeneration).symm
          · next hother =>
            have hnext : generation = nextGeneration existing.generation := by grind
            exact .taken (l := ⟨agentInstance, deviceId, generation, now, ttlSecs⟩) hmember hexisting
              hother hnext

theorem renewLease_cases (caller : Caller) (agentInstance deviceId now : Nat)
    (hkey : ∀ l, hub.leases[agentInstance]? = some l → l.agentInstance = agentInstance) :
    (∃ err, hub.renewLease caller agentInstance deviceId now = (.error err, hub)) ∨
      ∃ l, hub.renewLease caller agentInstance deviceId now = (.ok l, hub.grant l) ∧
        Granted hub l (.renewLease caller agentInstance deviceId now) := by
  unfold renewLease
  split
  · exact .inl ⟨_, rfl⟩
  · split
    · exact .inl ⟨_, rfl⟩
    · next existing hexisting =>
      obtain rfl := hkey existing hexisting
      split
      · exact .inl ⟨_, rfl⟩
      · next hholder =>
        obtain rfl := not_not.mp hholder
        exact .inr ⟨_, rfl, .renewed (l := { existing with grantedAt := now }) hexisting rfl rfl⟩

variable [F32 F] [Inhabited V]

namespace Watched

def new : Watched F V := ⟨.new, []⟩

def exec (w : Watched F V) (call : HubCall V) : Watched F V where
  hub := call.exec w.hub
  grants := w.grants ++ ((call.granted w.hub).map fun l => ⟨l, w.hub.isMember l.holderDevice⟩).toList

end Watched

theorem exec_cases (call : HubCall V)
    (hkeys : ∀ (id : Nat) (l : AnchorLease), hub.leases[id]? = some l → l.agentInstance = id) :
    (call.granted hub = none ∧
        ∀ (id : Nat) (l : AnchorLease), (call.exec hub).leases[id]? = some l → hub.leases[id]? = some l) ∨
      ∃ l, call.granted hub = some l ∧ Granted hub l call ∧
        (call.exec hub).leases = hub.leases.insert l.agentInstance l := by
  cases call with
  | joinDevice caller deviceId trustTier =>
    refine .inl ⟨rfl, fun id l hl => ?_⟩
    rw [HubCall.exec, joinDevice] at hl
    split at hl <;> exact hl
  | removeDevice caller deviceId =>
    refine .inl ⟨rfl, fun id l hl => ?_⟩
    rw [HubCall.exec, removeDevice] at hl
    split at hl <;> exact hl
  | publishLedger deviceId available networkLatencyMs now ttlSecs =>
    refine .inl ⟨rfl, fun id l hl => ?_⟩
    rw [HubCall.exec, publishLedger] at hl
    split at hl <;> exact hl
  | dispatchOffload call =>
    refine .inl ⟨rfl, fun id l hl => ?_⟩
    rw [HubCall.exec] at hl
    split at hl
    · exact hl
    · next heq => rw [← (dispatchOffload_only call _ heq).leases]; exact hl
  | acquireLease caller agentInstance deviceId now ttlSecs =>
    rw [HubCall.granted, HubCall.exec]
    rcases acquireLease_cases hub caller agentInstance deviceId now ttlSecs with ⟨err, heq⟩ | ⟨l, heq, hl⟩
    · rw [heq]
      exact .inl ⟨rfl, fun _ _ h => h⟩
    · rw [heq]
      exact .inr ⟨l, rfl, hl, rfl⟩
  | renewLease caller agentInstance deviceId now =>
    rw [HubCall.granted, HubCall.exec]
    rcases renewLease_cases hub caller agentInstance deviceId now (hkeys agentInstance) with
      ⟨err, heq⟩ | ⟨l, heq, hl⟩
    · rw [heq]
      exact .inl ⟨rfl, fun _ _ h => h⟩
    · rw [heq]
      exact .inr ⟨l, rfl, hl, rfl⟩
  | releaseLease caller agentInstance =>
    refine .inl ⟨rfl, fun id l hl => ?_⟩
    rw [HubCall.exec, releaseLease] at hl
    split at hl
    · exact hl
    · rw [get_erase] at hl
      split at hl
      · cases hl
      · exact hl
  | spawnAgent call =>
    rw [HubCall.granted, HubCall.exec]
    rcases hub.spawnAgent_cases call with ⟨err, hub', heq, honly⟩ | ⟨localInstance, hub₁, hruntime, honly, heq⟩
    · rw [heq]
      exact .inl ⟨rfl, fun id l h => honly.leases ▸ h⟩
    · rw [heq, ← honly.leases]
      exact .inr ⟨_, by simp [leaseOf, grant], .spawned rfl hruntime rfl rfl, rfl⟩
  | invokeAgent caller globalAgentId capabilityRef readings explained =>
    refine .inl ⟨rfl, fun id l hl => ?_⟩
    rw [← (invokeAgent_only hub caller globalAgentId capabilityRef readings explained).leases]
    exact hl
  | migrate call =>
    rw [HubCall.granted, HubCall.exec]
    rcases hub.migrate_cases call with ⟨err, hub', heq, honly⟩ |
      ⟨agentRef, existing, newLocalInstance, hub₁, -, hexisting, -, hruntime, honly, heq⟩
    · rw [heq]
      exact .inl ⟨rfl, fun id l h => honly.leases ▸ h⟩
    · rw [heq, ← honly.leases]
      exact .inr ⟨_, by simp [leaseOf, grant], .migrated rfl hruntime hexisting rfl, rfl⟩

/-- The members are the devices with a runtime. -/
def SameMembers (hub : FederationHub F V) : Prop :=
  ∀ d : Nat, hub.devices[d]?.isSome = hub.isMember d

theorem SameMembers.exec {hub : FederationHub F V} (h : SameMembers hub) (call : HubCall V) :
    SameMembers (call.exec hub) := by
  intro d
  have hd := h d
  have hchanges := exec_changes hub call
  generalize call.exec hub = hub' at hchanges ⊢
  unfold isMember at hd ⊢
  cases hchanges with
  | same hsame => rw [hsame.runtimes, hsame.trustTiers, hd]
  | joined caller d' tier =>
    rw [get_insert, get_insert]
    split
    · rfl
    · exact hd
  | removed caller d' =>
    rw [get_erase, get_erase]
    split
    · rfl
    · exact hd
  | published => exact hd

/-! ## Orderly calls -/

/-- No other device has had a lease of the instance, and none of a higher generation has been granted. -/
def OnlyHolder (grants : List Grant) (agentInstance deviceId : Nat) : Prop :=
  ∀ g ∈ grants, g.lease.agentInstance = agentInstance →
    g.lease.holderDevice = deviceId ∧ g.lease.generation = 0

instance (grants : List Grant) (agentInstance deviceId : Nat) :
    Decidable (OnlyHolder grants agentInstance deviceId) := inferInstanceAs (Decidable (∀ g ∈ grants, _))

omit [F32 F] [Inhabited V]

/-- When a call keeps the leases fenced: where it starts a generation, no other device has had a lease of
the instance; the device that renews its lease is a member; and generations do not wrap. -/
def Orderly (w : Watched F V) : HubCall V → Prop
  | .acquireLease _ agentInstance deviceId _ _ =>
    (w.hub.leases[agentInstance]? = none → OnlyHolder w.grants agentInstance deviceId) ∧
      ∀ existing ∈ w.hub.leases[agentInstance]?, existing.holderDevice ≠ deviceId →
        existing.generation + 1 < 2 ^ 64
  | .renewLease _ agentInstance deviceId _ =>
    ∀ existing ∈ w.hub.leases[agentInstance]?, existing.holderDevice = deviceId →
      w.hub.isMember deviceId = true
  | .spawnAgent call => OnlyHolder w.grants w.hub.nextAgentId call.deviceId
  | .migrate call => ∀ existing ∈ w.hub.leases[call.globalAgentId]?, existing.generation + 1 < 2 ^ 64
  | _ => True

instance (w : Watched F V) : ∀ call, Decidable (Orderly w call)
  | .acquireLease .. => inferInstanceAs (Decidable (_ ∧ _))
  | .renewLease .. | .migrate .. => inferInstanceAs (Decidable (∀ existing ∈ _, _))
  | .spawnAgent _ => inferInstanceAs (Decidable (OnlyHolder ..))
  | .joinDevice .. | .removeDevice .. | .publishLedger .. | .dispatchOffload _ | .releaseLease ..
  | .invokeAgent .. => .isTrue trivial

/-- What holds in orderly runs: a lease has succeeded all that were granted before. -/
structure Fencing (w : Watched F V) : Prop where
  members : SameMembers w.hub
  keys : ∀ (id : Nat) (l : AnchorLease), w.hub.leases[id]? = some l → l.agentInstance = id
  latest : ∀ (id : Nat) (l : AnchorLease), w.hub.leases[id]? = some l → ∀ g ∈ w.grants, g.lease.Precedes l
  fenced : Fenced w.grants

variable {w : Watched F V} {l : AnchorLease} {call : HubCall V}

theorem OnlyHolder.precedes {grants : List Grant} (h : OnlyHolder grants l.agentInstance l.holderDevice)
    {g : Grant} (hg : g ∈ grants) : g.lease.Precedes l := by
  intro hid
  obtain ⟨hholder, hzero⟩ := h g hg hid
  exact ⟨by omega, fun hne => absurd hholder hne⟩

theorem AnchorLease.Precedes.mono {earlier existing : AnchorLease} (h : earlier.Precedes existing)
    (hid : existing.agentInstance = l.agentInstance)
    (hl : l.generation = existing.generation ∧ l.holderDevice = existing.holderDevice ∨
      existing.generation < l.generation) : earlier.Precedes l := by
  intro heq
  obtain ⟨hle, hlt⟩ := h (heq.trans hid.symm)
  rcases hl with ⟨hgen, hholder⟩ | hgen
  · exact ⟨by omega, fun hne => by rw [hgen]; exact hlt (hholder ▸ hne)⟩
  · exact ⟨by omega, fun _ => by omega⟩

theorem lt_nextGeneration {n : Nat} (h : n + 1 < 2 ^ 64) : n < nextGeneration n := by
  rw [nextGeneration, Nat.mod_eq_of_lt h]
  exact n.lt_succ_self

theorem Fencing.granted (h : Fencing w) (horderly : Orderly w call) (hl : Granted w.hub l call) :
    (∀ g ∈ w.grants, g.lease.Precedes l) ∧ w.hub.isMember l.holderDevice = true := by
  cases hl with
  | first hmember hnone hzero => exact ⟨fun g hg => (horderly.1 hnone).precedes hg, hmember⟩
  | refreshed hmember hexisting hholder hsame =>
    exact ⟨fun g hg => (h.latest _ _ hexisting g hg).mono (h.keys _ _ hexisting)
      (.inl ⟨hsame, hholder.symm⟩), hmember⟩
  | taken hmember hexisting hother hnext =>
    have hlt := lt_nextGeneration (horderly.2 _ hexisting hother)
    exact ⟨fun g hg => (h.latest _ _ hexisting g hg).mono (h.keys _ _ hexisting) (.inr (hnext ▸ hlt)), hmember⟩
  | renewed hexisting hholder hsame =>
    exact ⟨fun g hg => (h.latest _ _ hexisting g hg).mono (h.keys _ _ hexisting)
      (.inl ⟨hsame, hholder.symm⟩), horderly _ hexisting hholder⟩
  | spawned hdevice hruntime hid hzero =>
    have honly : OnlyHolder w.grants l.agentInstance l.holderDevice := hid ▸ hdevice ▸ horderly
    exact ⟨fun g hg => honly.precedes hg, (h.members _).symm.trans hruntime⟩
  | migrated hid hruntime hexisting hnext =>
    have hlt := lt_nextGeneration (horderly _ (hid ▸ hexisting))
    exact ⟨fun g hg => (h.latest _ _ hexisting g hg).mono (h.keys _ _ hexisting) (.inr (hnext ▸ hlt)),
      (h.members _).symm.trans hruntime⟩

variable [F32 F] [Inhabited V]

theorem Fencing.exec (h : Fencing w) (horderly : Orderly w call) : Fencing (w.exec call) := by
  rcases exec_cases w.hub call h.keys with ⟨hnone, hleases⟩ | ⟨l, hsome, hgranted, hleases⟩
  · have hgrants : (w.exec call).grants = w.grants := by simp [Watched.exec, hnone]
    refine ⟨h.members.exec call, fun id l hl => h.keys id l (hleases id l hl), ?_, ?_⟩
    · rw [hgrants]
      exact fun id l hl => h.latest id l (hleases id l hl)
    · rw [hgrants]
      exact h.fenced
  · have hgrants : (w.exec call).grants = w.grants ++ [⟨l, w.hub.isMember l.holderDevice⟩] := by
      simp [Watched.exec, hsome]
    obtain ⟨hprecedes, hmember⟩ := h.granted horderly hgranted
    have hlookup : ∀ (id : Nat) (l' : AnchorLease), (w.exec call).hub.leases[id]? = some l' →
        id = l.agentInstance ∧ l' = l ∨ id ≠ l.agentInstance ∧ w.hub.leases[id]? = some l' := by
      intro id l' hl'
      rw [show (w.exec call).hub.leases = _ from hleases, get_insert] at hl'
      split at hl'
      · next hid => exact .inl ⟨hid.symm, (Option.some.inj hl').symm⟩
      · next hid => exact .inr ⟨Ne.symm hid, hl'⟩
    refine ⟨h.members.exec call, fun id l' hl' => ?_, fun id l' hl' g hg => ?_, ?_⟩
    · rcases hlookup id l' hl' with ⟨rfl, rfl⟩ | ⟨-, hold⟩
      · rfl
      · exact h.keys id l' hold
    · rw [hgrants] at hg
      rcases hlookup id l' hl' with ⟨-, rfl⟩ | ⟨hid, hold⟩
      · rcases mem_append.mp hg with hearlier | hnow
        · exact hprecedes g hearlier
        · obtain rfl := mem_singleton.mp hnow
          exact fun _ => ⟨le_refl _, fun hne => absurd rfl hne⟩
      · rcases mem_append.mp hg with hearlier | hnow
        · exact h.latest id l' hold g hearlier
        · obtain rfl := mem_singleton.mp hnow
          exact fun heq => absurd ((h.keys id l' hold).symm.trans heq.symm) hid
    · rw [hgrants]
      refine ⟨pairwise_append.mpr ⟨h.fenced.1, pairwise_singleton .., ?_⟩, ?_⟩
      · intro g hg g' hg'
        obtain rfl := mem_singleton.mp hg'
        exact hprecedes g hg
      · intro g hg
        rcases mem_append.mp hg with hg | hg
        · exact h.fenced.2 g hg
        · obtain rfl := mem_singleton.mp hg
          exact hmember

omit [F32 F] [Inhabited V] in
theorem fencing_new : Fencing (Watched.new : Watched F V) where
  members d := by simp [Watched.new, isMember, FederationHub.new]
  keys id l hl := by simp [Watched.new, FederationHub.new] at hl
  latest id l hl := by simp [Watched.new, FederationHub.new] at hl
  fenced := ⟨.nil, fun g hg => absurd hg not_mem_nil⟩

/-- **Leases are fenced in every orderly run**: of two leases of an agent the later has a higher
generation if their holders differ, and a device that is not a member is given no lease. -/
theorem leases_fenced (calls : List (HubCall V))
    (horderly : Meets Watched.exec Orderly (Watched.new : Watched F V) calls) :
    Fenced (run Watched.exec (Watched.new : Watched F V) calls).grants :=
  (horderly.invariant (fun _ _ h => h.exec) fencing_new).fenced

end

/-! ## Two devices -/

def hubAdmin : Caller :=
  ⟨(CapabilityMonitor.new.mintRoot 1 0 .all 7 none).2, (CapabilityMonitor.new.mintRoot 1 0 .all 7 none).1, 0⟩

def twoDevices : List (HubCall Unit) :=
  [.joinDevice hubAdmin 1 .ownedPrimary, .joinDevice hubAdmin 2 .ownedSecondary]

def freshHub : Watched ℚ Unit := .new

def expiredLease : List (HubCall Unit) :=
  twoDevices ++ [.acquireLease hubAdmin 9 1 0 5, .acquireLease hubAdmin 9 2 10 5]

theorem leases_fenced_expired :
    (run Watched.exec freshHub expiredLease).grants = [⟨⟨9, 1, 0, 0, 5⟩, true⟩, ⟨⟨9, 2, 1, 10, 5⟩, true⟩] ∧
      Fenced (run Watched.exec freshHub expiredLease).grants :=
  ⟨by decide +kernel, leases_fenced expiredLease (by decide +kernel)⟩

def releasedLease : List (HubCall Unit) :=
  twoDevices ++ [.acquireLease hubAdmin 9 1 0 5, .releaseLease hubAdmin 9, .acquireLease hubAdmin 9 2 1 5]

def overwrittenLease : List (HubCall Unit) :=
  twoDevices ++ [.acquireLease hubAdmin 1 1 0 5,
    .spawnAgent ⟨hubAdmin, 2, ⟨"writer", [], [], .community⟩, none, 1, 5, ⟨0, 0⟩⟩]

def removedHolder : List (HubCall Unit) :=
  twoDevices ++ [.acquireLease hubAdmin 9 1 0 5, .removeDevice hubAdmin 1, .renewLease hubAdmin 9 1 4]

/-- **Leases are not fenced** when a released lease is acquired by another device, or when an agent gets a
number that has a lease; and a removed device goes on renewing. -/
theorem released_lease_not_fenced :
    ¬ Fenced (run Watched.exec freshHub releasedLease).grants ∧
      ¬ Fenced (run Watched.exec freshHub overwrittenLease).grants ∧
      ¬ Fenced (run Watched.exec freshHub removedHolder).grants := by
  decide +kernel

end Hyperion.Federation
