import Hyperion.Device.Registry
import Hyperion.Federation.Merge
import Hyperion.Lib.Run

/-!
# A device acts with confirmed authority

Runs are kept with the grants of the calls of `pair` that returned `Ok`.
-/

namespace Hyperion.Device
open Lib Capability Storage Hyperion.Graph Federation HashMap Option KnowledgeGraph

/-! ## Histories -/

structure Grant where
  tier : TrustTier
  capabilities : List String
  confirmed : Bool
deriving DecidableEq, Repr

/-- A registry, and for each device the grant of the latest `pair` that returned `Ok`, unless a `revoke` did
after it. -/
structure History (F V : Type) where
  registry : DeviceRegistry F V
  granted : HashMap Nat Grant

section
variable {F V : Type} (P : Platform F V)

/-- A call of the registry, or a change of the graph by others. -/
inductive Event
  | register (turn : Turn P.codec) (fields : SignedManifestFields) (now : Nat)
      (signature : P.scheme.Signature) (verifyingKey : P.scheme.VerifyingKey)
  | pair (turn : Turn P.codec) (deviceId : Nat) (requestedTier : TrustTier) (capabilities : List String)
      (confirmed : Bool)
  | revoke (turn : Turn P.codec) (deviceId : Nat)
  | heartbeat (turn : Turn P.codec) (deviceId now : Nat)
  | tick (turn : Turn P.codec) (visit : Visit Nat) (readings : Nat → Readings P.codec)
      (now degradedAfterSecs disconnectedAfterSecs : Nat)
  | elsewhere (graph : KnowledgeGraph F V)

namespace History
variable {P}

def new (graph : KnowledgeGraph F V) : History F V := ⟨.new graph, ∅⟩

def step (h : History F V) : Event P → History F V
  | .register turn fields now signature verifyingKey =>
    { h with registry := (h.registry.register P turn fields now signature verifyingKey).2 }
  | .pair turn deviceId requestedTier capabilities confirmed =>
    match h.registry.pair P turn deviceId requestedTier capabilities confirmed with
    | (.ok _, registry) => ⟨registry, h.granted.insert deviceId ⟨requestedTier, capabilities, confirmed⟩⟩
    | (.error _, registry) => { h with registry }
  | .revoke turn deviceId =>
    match h.registry.revoke P turn deviceId with
    | (.ok _, registry) => ⟨registry, h.granted.erase deviceId⟩
    | (.error _, registry) => { h with registry }
  | .heartbeat turn deviceId now => { h with registry := (h.registry.heartbeat P turn deviceId now).2 }
  | .tick turn visit readings now degradedAfterSecs disconnectedAfterSecs =>
    { h with registry :=
        (h.registry.tick P turn visit readings now degradedAfterSecs disconnectedAfterSecs).2 }
  | .elsewhere graph => { h with registry := { h.registry with graph } }

end History

/-- The grant is for the tier of every entry of its capabilities, and confirmed if one of them acts. -/
def Grant.Covers (grant : Grant) (manifest : List CapabilityManifestEntry) : Prop :=
  ∀ entry ∈ manifest, entry.capabilityName ∈ grant.capabilities →
    (DeviceRegistry.requiredTierFor entry.direction).rank ≤ grant.tier.rank ∧
      (entry.direction = .actuate → grant.confirmed = true)

def DeviceRegistry.manifestOf (reg : DeviceRegistry F V) (deviceId : Nat) :
    Option (List CapabilityManifestEntry) :=
  reg.devices[deviceId]?.map (·.capabilityManifest)

/-- The latest grant for the device is one of the capability, at the tier of all its entries, confirmed if one
of them acts. -/
def Entitled (h : History F V) (deviceId : Nat) (capabilityName : String) : Prop :=
  match h.registry.manifestOf deviceId, h.granted[deviceId]? with
  | some manifest, some grant => capabilityName ∈ grant.capabilities ∧
    ∀ entry ∈ manifest, entry.capabilityName = capabilityName →
      (DeviceRegistry.requiredTierFor entry.direction).rank ≤ grant.tier.rank ∧
        (entry.direction = .actuate → grant.confirmed = true)
  | _, _ => False

instance (h : History F V) (deviceId : Nat) (capabilityName : String) :
    Decidable (Entitled h deviceId capabilityName) := by
  unfold Entitled
  split <;> infer_instance

/-- The first entry of each name requires the highest tier among those of the name. -/
def HighestFirst (manifest : List CapabilityManifestEntry) : Prop :=
  ∀ entry ∈ manifest, ∀ first ∈ manifest.find? (·.capabilityName = entry.capabilityName),
    (DeviceRegistry.requiredTierFor entry.direction).rank ≤ (DeviceRegistry.requiredTierFor first.direction).rank

variable {P} in
/-- The write of the device's node goes through: the token authorizes it, the caller owns the node, and the
disk takes it. -/
def Writable (reg : DeviceRegistry F V) (call : Call P.codec) (deviceId : Nat) : Prop :=
  WritePasses call ∧ ∀ n, (reg.kgNodes[deviceId]?.bind fun id => reg.graph.index.nodes[id]?) = some n →
    n.owner = call.callerBoundary

/-- A manifest names the highest tier first, and a pairing that is not refused is made by a caller who can write
the node of the device. -/
def Orderly (h : History F V) : Event P → Prop
  | .register _ fields _ _ _ => HighestFirst fields.capabilityManifest ∧ h.registry.nextId + 1 < 2 ^ 64
  | .pair turn deviceId requestedTier capabilities confirmed =>
    turn.check .write = .ok () → h.registry.checkPairing deviceId requestedTier capabilities confirmed = .ok () →
      Writable h.registry turn.toCall deviceId
  | _ => True

end

/-! ## What a pairing rests on -/

section
variable {F V : Type} {P : Platform F V}

open DeviceRegistry
variable {h : History F V}

/-- What the pairings rest on has not changed. -/
structure Framed (reg reg' : DeviceRegistry F V) : Prop where
  manifests : reg'.manifestOf = reg.manifestOf
  pairings : reg'.pairings = reg.pairings
  nextId : reg'.nextId = reg.nextId
  nodes : ∀ deviceId : Nat, reg.kgNodes[deviceId]?.isSome → reg'.kgNodes[deviceId]?.isSome

variable (reg : DeviceRegistry F V)

theorem Framed.refl : Framed reg reg := ⟨rfl, rfl, rfl, fun _ h => h⟩

theorem Framed.trans {reg reg' reg'' : DeviceRegistry F V} (h : Framed reg reg') (h' : Framed reg' reg'') :
    Framed reg reg'' :=
  ⟨h'.manifests.trans h.manifests, h'.pairings.trans h.pairings, h'.nextId.trans h.nextId,
    fun id hid => h'.nodes id (h.nodes id hid)⟩

theorem framed_resyncKgNode (call : Call P.codec) (deviceId : Nat) :
    Framed reg (reg.resyncKgNode P call deviceId).2 := by
  unfold resyncKgNode
  split
  · exact .refl reg
  · dsimp only
    split
    · exact ⟨rfl, rfl, rfl, fun _ h => h⟩
    · refine ⟨rfl, rfl, rfl, fun id hid => ?_⟩
      rw [get_insert]
      split
      · rfl
      · exact hid

theorem framed_modify (deviceId : Nat) (f : DeviceObject → DeviceObject)
    (hf : ∀ device, (f device).capabilityManifest = device.capabilityManifest) :
    Framed reg { reg with devices := reg.devices.modify deviceId f } := by
  refine ⟨funext fun id => ?_, rfl, rfl, fun _ h => h⟩
  simp only [manifestOf, get_modify]
  split
  · cases reg.devices[id]? with
    | none => rfl
    | some device => exact congrArg some (hf device)
  · rfl

theorem framed_heartbeat (turn : Turn P.codec) (deviceId now : Nat) :
    Framed reg (reg.heartbeat P turn deviceId now).2 := by
  unfold heartbeat
  split
  · exact .refl reg
  · split
    · exact .refl reg
    · next device hdevice =>
      dsimp only
      refine Framed.trans ?_ (framed_resyncKgNode _ _ _)
      refine ⟨funext fun id => ?_, rfl, rfl, fun _ h => h⟩
      simp only [manifestOf, get_insert]
      split
      · next heq => rw [← heq, hdevice, map_some, map_some]
      · rfl

theorem framed_tickEach (call : Call P.codec) (readings : Nat → Readings P.codec)
    (now degradedAfterSecs disconnectedAfterSecs n : Nat) (deviceIds : List Nat) (reg : DeviceRegistry F V) :
    Framed reg
      (tickEach P call readings now degradedAfterSecs disconnectedAfterSecs n deviceIds reg).2 := by
  induction deviceIds generalizing n reg with
  | nil => exact .refl reg
  | cons deviceId deviceIds ih =>
    rw [tickEach]
    dsimp only
    have hmodify := framed_modify reg deviceId (fun device => { device with
      presence := presenceAfter (now - device.lastHeartbeat) degradedAfterSecs disconnectedAfterSecs })
      fun _ => rfl
    have hresync := hmodify.trans
      (framed_resyncKgNode (P := P) _ { call with toReadings := readings n } deviceId)
    split
    · next hres => exact hres ▸ hresync
    · next hres => exact (hres ▸ hresync).trans (ih _ _)

theorem framed_tick (turn : Turn P.codec) (visit : Visit Nat)
    (readings : Nat → Readings P.codec) (now degradedAfterSecs disconnectedAfterSecs : Nat) :
    Framed reg (reg.tick P turn visit readings now degradedAfterSecs disconnectedAfterSecs).2 := by
  unfold tick
  split
  · exact .refl reg
  · exact framed_tickEach _ _ _ _ _ _ _ _

variable {capabilities : List String} {deviceId : Nat} {tier : TrustTier} {turn : Turn P.codec}
  {confirmed : Bool}

theorem resyncKgNode_ok {reg : DeviceRegistry F V} {call : Call P.codec}
    (h : Writable reg call deviceId) (hnode : reg.kgNodes[deviceId]?.isSome) :
    (reg.resyncKgNode P call deviceId).1 = .ok () := by
  obtain ⟨id, hid⟩ := isSome_iff_exists.mp hnode
  have howner : (reg.graph.index.nodes[id]?).any (fun n => n.owner ≠ call.callerBoundary) = false := by
    have := h.2
    rw [hid] at this
    simpa [any_eq_false] using this
  have hput : ∀ metadata, ∃ graph,
      reg.graph.putNode P.serde P.codec call (some id) "device" none metadata = (.ok id, graph) := by
    intro metadata
    rw [putNode, putNodeWithDeviceOrigin, putNodeWithProvenance,
      h.1.require]
    simp only [bind_some, howner, Bool.false_eq_true, if_false]
    exact ⟨_, reg.graph.write_eq_stored P.serde P.codec _ h.1.authorize rfl h.1.io⟩
  unfold resyncKgNode
  split
  · rfl
  · next device hdevice =>
    obtain ⟨graph, hput⟩ := hput (P.deviceMetadata device reg.pairings[deviceId]?)
    simp only [hid, hput]

/-- Every pairing is the latest grant, and covers the manifest. -/
structure Kept (h : History F V) : Prop where
  known : ∀ (deviceId : Nat) manifest, h.registry.manifestOf deviceId = some manifest →
    deviceId < h.registry.nextId ∧ HighestFirst manifest ∧ h.registry.kgNodes[deviceId]?.isSome
  paired : ∀ (deviceId : Nat) record, h.registry.pairings[deviceId]? = some record →
    ∃ manifest grant, h.registry.manifestOf deviceId = some manifest ∧ h.granted[deviceId]? = some grant ∧
      grant.capabilities = record.grantedCapabilities ∧ grant.Covers manifest

theorem kept_new (graph : KnowledgeGraph F V) : Kept (.new graph) where
  known deviceId manifest hmanifest := by simp [History.new, DeviceRegistry.new, manifestOf] at hmanifest
  paired deviceId record hrecord := by simp [History.new, DeviceRegistry.new] at hrecord

theorem Kept.frame (hkept : Kept h) {registry : DeviceRegistry F V}
    (hframe : Framed h.registry registry) : Kept { h with registry } where
  known deviceId manifest hmanifest := by
    rw [hframe.manifests] at hmanifest
    obtain ⟨hbelow, hfirst, hnode⟩ := hkept.known deviceId manifest hmanifest
    exact ⟨hframe.nextId ▸ hbelow, hfirst, hframe.nodes deviceId hnode⟩
  paired deviceId record hrecord := by
    rw [hframe.pairings] at hrecord
    obtain ⟨manifest, grant, hmanifest, hrest⟩ := hkept.paired deviceId record hrecord
    exact ⟨manifest, grant, by rw [hframe.manifests]; exact hmanifest, hrest⟩

theorem checkCapabilities_ok {manifest : List CapabilityManifestEntry}
    (h : checkCapabilities manifest tier capabilities = .ok ()) :
    ∀ capability ∈ capabilities, ∃ first, manifest.find? (·.capabilityName = capability) = some first ∧
      (requiredTierFor first.direction).rank ≤ tier.rank := by
  induction capabilities with
  | nil => exact fun capability hmem => absurd hmem List.not_mem_nil
  | cons c capabilities ih =>
    rw [checkCapabilities] at h
    split at h
    · cases h
    · next first hfirst =>
      split at h
      · cases h
      · next htier =>
        intro capability hmem
        rcases List.mem_cons.mp hmem with rfl | hmem
        · exact ⟨first, hfirst, Nat.le_of_not_lt htier⟩
        · exact ih h capability hmem

theorem checkPairing_covers {reg : DeviceRegistry F V}
    (h : reg.checkPairing deviceId tier capabilities confirmed = .ok ()) :
    ∃ manifest, reg.manifestOf deviceId = some manifest ∧
      (HighestFirst manifest → Grant.Covers ⟨tier, capabilities, confirmed⟩ manifest) := by
  unfold checkPairing at h
  split at h
  · cases h
  · next hconfirmed =>
    split at h
    · cases h
    · next device hdevice =>
      refine ⟨device.capabilityManifest, by rw [manifestOf, hdevice, map_some], fun hhighest => ?_⟩
      intro entry hentry hname
      obtain ⟨first, hfirst, htier⟩ := checkCapabilities_ok h _ hname
      have hrank := (hhighest entry hentry first hfirst).trans htier
      refine ⟨hrank, fun hactuate => ?_⟩
      have hactuates : tier = .actuate := by
        rw [hactuate] at hrank
        cases tier with
        | actuate => rfl
        | view => exact absurd hrank (by decide)
        | sense => exact absurd hrank (by decide)
      by_contra hno
      exact hconfirmed ⟨hactuates, Bool.eq_false_iff.mpr hno⟩

theorem Kept.register (hkept : Kept h) (turn : Turn P.codec) {fields : SignedManifestFields}
    (now : Nat) (signature : P.scheme.Signature) (verifyingKey : P.scheme.VerifyingKey)
    (hfirst : HighestFirst fields.capabilityManifest) (hroom : h.registry.nextId + 1 < 2 ^ 64) :
    Kept (h.step (.register turn fields now signature verifyingKey)) := by
  have hcounted : Kept { h with registry := { h.registry with
      nextId := (h.registry.nextId + 1) % 2 ^ 64 } } := by
    refine ⟨fun deviceId manifest hmanifest => ?_, hkept.paired⟩
    obtain ⟨hbelow, hrest⟩ := hkept.known deviceId manifest hmanifest
    dsimp only
    rw [Nat.mod_eq_of_lt hroom]
    exact ⟨Nat.lt_succ_of_lt hbelow, hrest⟩
  rw [History.step, DeviceRegistry.register]
  split
  · exact hkept
  · split
    · exact hkept
    · dsimp only
      split
      · exact hcounted.frame ⟨rfl, rfl, rfl, fun _ hid => hid⟩
      · refine ⟨fun deviceId manifest hmanifest => ?_, fun deviceId record hrecord => ?_⟩
        · simp only [manifestOf, get_insert] at hmanifest ⊢
          split at hmanifest
          · next heq =>
            cases hmanifest
            rw [Nat.mod_eq_of_lt hroom, if_pos heq, ← heq]
            exact ⟨Nat.lt_succ_self _, hfirst, rfl⟩
          · next hne =>
            rw [if_neg hne]
            exact hcounted.known deviceId manifest hmanifest
        · obtain ⟨manifest, grant, hmanifest, hrest⟩ := hkept.paired deviceId record hrecord
          refine ⟨manifest, grant, ?_, hrest⟩
          -- the device that is registered is new
          have hne : h.registry.nextId ≠ deviceId := (hkept.known deviceId manifest hmanifest).1.ne'
          simp only [manifestOf, get_insert, if_neg hne]
          exact hmanifest

theorem Kept.pair (hkept : Kept h)
    (horderly : Orderly P h (.pair turn deviceId tier capabilities confirmed)) :
    Kept (h.step (.pair turn deviceId tier capabilities confirmed)) := by
  rw [History.step, DeviceRegistry.pair]
  cases hcheck : turn.check .write with
  | error err => exact hkept
  | ok u =>
    cases hpairing : h.registry.checkPairing deviceId tier capabilities confirmed with
    | error err => exact hkept
    | ok u =>
      obtain ⟨manifest, hmanifest, hcovers⟩ := checkPairing_covers hpairing
      obtain ⟨-, hhighest, hnode⟩ := hkept.known deviceId manifest hmanifest
      have hpaired : Kept ⟨h.registry.withPairing ⟨deviceId, tier, capabilities, none⟩,
          h.granted.insert deviceId ⟨tier, capabilities, confirmed⟩⟩ := by
        refine ⟨hkept.known, fun id record hrecord => ?_⟩
        simp only [withPairing, get_insert] at hrecord ⊢
        split at hrecord
        · next heq =>
          cases hrecord
          rw [if_pos heq, ← heq]
          exact ⟨manifest, _, hmanifest, rfl, rfl, hcovers hhighest⟩
        · next hne =>
          rw [if_neg hne]
          exact hkept.paired id record hrecord
      have hwritable : Writable (h.registry.withPairing ⟨deviceId, tier, capabilities, none⟩) turn.toCall deviceId :=
        horderly hcheck hpairing
      have hresync := resyncKgNode_ok hwritable hnode
      have hframe := hpaired.frame (framed_resyncKgNode (P := P) _ turn.toCall deviceId)
      dsimp only at hresync hframe ⊢
      generalize resyncKgNode P (h.registry.withPairing ⟨deviceId, tier, capabilities, none⟩) turn.toCall
        deviceId = out at hresync hframe ⊢
      obtain ⟨result, registry⟩ := out
      dsimp only at hresync
      subst hresync
      exact hframe

theorem Kept.revoke (hkept : Kept h) (turn : Turn P.codec) (deviceId : Nat) :
    Kept (h.step (.revoke turn deviceId)) := by
  rw [History.step, DeviceRegistry.revoke]
  cases hcheck : turn.check .write with
  | error err => exact hkept
  | ok u =>
    have herased : ∀ granted : HashMap Nat Grant,
        (∀ id : Nat, id ≠ deviceId → granted[id]? = h.granted[id]?) →
        Kept ⟨{ h.registry with pairings := h.registry.pairings.erase deviceId }, granted⟩ := by
      intro granted hgranted
      refine ⟨hkept.known, fun id record hrecord => ?_⟩
      simp only [get_erase] at hrecord
      split at hrecord
      · cases hrecord
      · next hne =>
        rw [hgranted id (Ne.symm hne)]
        exact hkept.paired id record hrecord
    dsimp only
    have hframe := framed_resyncKgNode (P := P)
      { h.registry with pairings := h.registry.pairings.erase deviceId } turn.toCall deviceId
    split
    · next hres =>
      rw [hres] at hframe
      refine (herased (h.granted.erase deviceId) fun id hne => ?_).frame hframe
      rw [get_erase, if_neg (Ne.symm hne)]
    · next hres =>
      rw [hres] at hframe
      exact (herased h.granted fun _ _ => rfl).frame hframe

theorem Kept.step {event : Event P} (hkept : Kept h) (horderly : Orderly P h event) :
    Kept (h.step event) := by
  cases event with
  | register turn fields now signature verifyingKey =>
    exact hkept.register turn now signature verifyingKey horderly.1 horderly.2
  | pair => exact hkept.pair horderly
  | revoke turn deviceId => exact hkept.revoke turn deviceId
  | heartbeat turn deviceId now => exact hkept.frame (framed_heartbeat _ _ _ _)
  | tick => exact hkept.frame (framed_tick _ _ _ _ _ _ _)
  | elsewhere graph => exact hkept.frame ⟨rfl, rfl, rfl, fun _ hid => hid⟩

theorem invoke_eq_ok {reg : DeviceRegistry F V} {capabilityName : String}
    {args echo : Json} (h : reg.invoke turn deviceId capabilityName args = .ok echo) :
    ∃ record, reg.pairings[deviceId]? = some record ∧ capabilityName ∈ record.grantedCapabilities := by
  unfold invoke at h
  split at h
  · cases h
  · split at h
    · cases h
    · split at h
      · cases h
      · split at h
        · cases h
        · split at h
          · cases h
          · next record hrecord =>
            split at h
            · cases h
            · next hgrants =>
              rw [Bool.not_eq_false, PairingRecord.grants, List.any_eq_true] at hgrants
              obtain ⟨c, hc, heq⟩ := hgrants
              exact ⟨record, hrecord, of_decide_eq_true heq ▸ hc⟩

/-- **If manifests name the highest tier of a capability first, and devices are paired by callers who can write
their nodes, a device acts only with the confirmed authority of its latest pairing.** -/
theorem acts_with_confirmed_authority {graph : KnowledgeGraph F V} {events : List (Event P)}
    (h : Meets History.step (Orderly P) (.new graph) events) (turn : Turn P.codec) (args : Json)
    {deviceId : Nat} {capabilityName : String} {echo : Json}
    (hinvoke : (run History.step (.new graph) events).registry.invoke turn deviceId capabilityName args =
      .ok echo) : Entitled (run History.step (.new graph) events) deviceId capabilityName := by
  have hkept : Kept (run History.step (.new graph) events) :=
    Meets.invariant (fun _ _ hkept horderly => hkept.step horderly) (kept_new graph) h
  obtain ⟨record, hrecord, hname⟩ := invoke_eq_ok hinvoke
  obtain ⟨manifest, grant, hmanifest, hgrant, hcapabilities, hcovers⟩ := hkept.paired deviceId record hrecord
  have hmem : capabilityName ∈ grant.capabilities := hcapabilities ▸ hname
  simp only [Entitled, hmanifest, hgrant]
  exact ⟨hmem, fun entry hentry heq => hcovers entry hentry (heq ▸ hmem)⟩

end

/-! ## A lock -/

def samplePlatform : Platform Int Json where
  codec := jsonSerde.plain
  serde := jsonRecord
  scheme := .tagged
  canonicalBytes fields := utf8Bytes fields.model.toList
  deviceMetadata device pairing := .obj [("model", .str device.model), ("paired", .bool pairing.isSome)]

def sampleTurn (second : Bool) : Turn samplePlatform.codec := { sampleCall .all second with checkAt := 0 }

def registerLock (directions : List Direction) : Event samplePlatform :=
  .register (sampleTurn false)
    ⟨.homeAppliance, "maker", "lock", directions.map fun direction => ⟨"unlock", direction, .high⟩, 1⟩ 0
    ((7, utf8Bytes "lock".toList) : Nat × List UInt8) (7 : Nat)

def pairLock (second : Bool) (tier : TrustTier) (confirmed : Bool) : Event samplePlatform :=
  .pair (sampleTurn second) 1 tier ["unlock"] confirmed

def lockAfter (events : List (Event samplePlatform)) : History Int Json := run History.step (.new .empty) events

def unlocks (h : History Int Json) : Bool := (h.registry.invoke (sampleTurn false) 1 "unlock" .null).toBool

theorem acts_with_confirmed_authority_lock :
    Entitled (lockAfter [registerLock [.actuate, .render], pairLock false .actuate true]) 1 "unlock" := by
  have hmeets : Meets History.step (Orderly samplePlatform) (.new .empty)
      [registerLock [.actuate, .render], pairLock false .actuate true] := by
    refine ⟨⟨?_, by decide⟩, fun _ _ => ⟨⟨rfl, rfl, rfl⟩, fun n hn => ?_⟩, trivial⟩
    · unfold HighestFirst
      decide
    · have hnode : ((lockAfter [registerLock [.actuate, .render]]).registry.kgNodes[1]?.bind fun id =>
          (lockAfter [registerLock [.actuate, .render]]).registry.graph.index.nodes[id]?).map (·.owner) =
            some (sampleCall .all false).callerBoundary := by decide +kernel
      have howner := (congrArg (Option.map (·.owner)) hn).symm.trans hnode
      exact some.inj howner
  exact acts_with_confirmed_authority hmeets (sampleTurn false) .null rfl

/-- **A lock that is also listed as a display opens without a confirmation; and it opens for a stranger whose
pairing was refused.** -/
theorem acts_without_authority :
    (unlocks (lockAfter [registerLock [.render, .actuate], pairLock false .view false]) = true ∧
      ¬ Entitled (lockAfter [registerLock [.render, .actuate], pairLock false .view false]) 1 "unlock") ∧
    unlocks (lockAfter [registerLock [.actuate], pairLock true .actuate true]) = true ∧
      ¬ Entitled (lockAfter [registerLock [.actuate], pairLock true .actuate true]) 1 "unlock" := by
  decide +kernel

end Hyperion.Device
