import Hyperion.Capability.History
import Hyperion.Plugin.Types

/-!
# The plugin registry

`install`, `update`, `uninstall` and `quarantine` of `PluginRegistry`, with the monitor that they mint
and revoke tokens in. What the review of a manifest says (`validate_manifest`, with either source of the
key) and what the file system says about a native binary are arguments of a call.

The seven maps of contributions other than capabilities are one map here: each of them has, for a plugin,
the contributions of its kind in the order of the manifest.
-/

namespace Hyperion.Plugin
open Lib Capability

def rightsFor : Operation → RightsMask
  | .read => .read
  | .write | .networkEgress => .write
  | .execute => .exec

/-- `READ | WRITE`. -/
def readWrite : RightsMask := ⟨RightsMask.read.bits ||| RightsMask.write.bits⟩

def grantsEqual (a b : CapabilityGrantRequest) : Bool := a.operation = b.operation && a.scope = b.scope

structure PluginRegistry (K : SignatureScheme) (F : Type) where
  plugins : HashMap PluginId (PluginManifest K F)
  boundaries : HashMap PluginId TrustBoundaryId
  tokens : HashMap PluginId (List CapabilityToken)
  sandboxTokens : HashMap PluginId CapabilityToken
  registry : HashMap CapabilityId (RegistryEntry F)
  contributions : HashMap PluginId (List (Contribution F))
  quarantinedPlugins : HashMap PluginId Unit
  nextPluginId : Nat
  nextBoundaryOrdinal : Nat

def fetchAdd (n : Nat) : Nat := (n + 1) % 2 ^ 64

section
variable {K : SignatureScheme} {F : Type}

def needsSandboxToken (manifest : PluginManifest K F) : Bool :=
  manifest.contributions.any fun
    | .capability cm => cm.implementationKind = .nativeBinary
    | _ => false

/-- `validate_contributions`, given what `validate_native_binary` finds. -/
def validateContributions (validateNativeBinary : Option NativeBinaryDescriptor → Except PluginError Unit)
    (manifest : PluginManifest K F) : Except PluginError Unit :=
  manifest.contributions.forM fun
    | .capability cm =>
      if cm.implementationKind = .nativeBinary then validateNativeBinary cm.nativeBinary else .ok ()
    | .executionEngine ee => validateNativeBinary (some ee.launcher)
    | _ => .ok ()

/-! ## Tokens -/

/-- `cap_derive` from the token of the administrator, without a lifetime of its own. -/
def mint (p : Process) (now : Instant) (admin : CapabilityToken) (rights : RightsMask)
    (boundary : TrustBoundaryId) : Except Fault (CapabilityToken × Process) :=
  match p.monitor.capDerive p.next now now admin rights none boundary with
  | .error fault => .error fault
  | .ok (token, monitor) => .ok (token, ⟨p.next + 1, monitor⟩)

/-- The loop of `install` over the permissions: the tokens it mints, until one is refused. -/
def mintAll (admin : CapabilityToken) (boundary : TrustBoundaryId) :
    (Nat → Instant) → List CapabilityGrantRequest → Process → List CapabilityToken × Option Fault × Process
  | _, [], p => ([], none, p)
  | now, request :: requests, p =>
    match mint p (now 0) admin (rightsFor request.operation) boundary with
    | .error fault => ([], some fault, p)
    | .ok (token, p) =>
      let (tokens, fault, p) := mintAll admin boundary (fun k => now (k + 1)) requests p
      (token :: tokens, fault, p)

/-- The token of the first permission of the old manifest that is the same grant. -/
def reusedToken (held : List (CapabilityGrantRequest × CapabilityToken)) (grant : CapabilityGrantRequest) :
    Option CapabilityToken :=
  (held.find? fun h => grantsEqual h.1 grant).map (·.2)

/-- What the loop of `update` over the permissions has done. -/
structure CarryOver where
  tokens : List CapabilityToken
  minted : List CapabilityToken
  fault : Option Fault
  process : Process

/-- The loop of `update` over the permissions: a token is reused or minted for each. -/
def carryOver (admin : CapabilityToken) (boundary : TrustBoundaryId)
    (held : List (CapabilityGrantRequest × CapabilityToken)) :
    (Nat → Instant) → List CapabilityGrantRequest → Process → CarryOver
  | _, [], p => ⟨[], [], none, p⟩
  | now, grant :: grants, p =>
    match reusedToken held grant with
    | some token =>
      let rest := carryOver admin boundary held (fun k => now (k + 1)) grants p
      { rest with tokens := token :: rest.tokens }
    | none =>
      match mint p (now 0) admin (rightsFor grant.operation) boundary with
      | .error fault => ⟨[], [], some fault, p⟩
      | .ok (token, p) =>
        let rest := carryOver admin boundary held (fun k => now (k + 1)) grants p
        { rest with tokens := token :: rest.tokens, minted := token :: rest.minted }

def revoke (p : Process) (token : CapabilityToken) : Process :=
  match p.monitor.capRevoke token with
  | none => p
  | some (monitor, _) => { p with monitor := monitor }

def revokeAll (p : Process) (tokens : List CapabilityToken) : Process := tokens.foldl revoke p

structure Minted where
  pluginId : PluginId
  sandbox : Bool
  token : CapabilityToken
deriving DecidableEq, Repr

/-- A registry, and the process in which its monitor lives. -/
structure Host (K : SignatureScheme) (F : Type) where
  process : Process
  registry : PluginRegistry K F

namespace PluginRegistry

def new : PluginRegistry K F := ⟨∅, ∅, ∅, ∅, ∅, ∅, ∅, 1, 1⟩

variable (r : PluginRegistry K F)

def nextBoundary : TrustBoundaryId := (1000000 + r.nextBoundaryOrdinal) % 2 ^ 64

/-- Both counters have been drawn from. -/
def counted : PluginRegistry K F := { r with
  nextPluginId := fetchAdd r.nextPluginId
  nextBoundaryOrdinal := fetchAdd r.nextBoundaryOrdinal }

/-! ## Contributions -/

/-- The smallest number from 2 on that gives a free name. One of the first `size + 1` numbers does. -/
def versionVariant (registry : HashMap CapabilityId (RegistryEntry F)) (capabilityId : CapabilityId) :
    CapabilityId :=
  let candidates := (List.range (registry.size + 1)).map fun n => capabilityId ++ "#" ++ toString (n + 2)
  (candidates.find? fun candidate => !registry.contains candidate).getD capabilityId

def descriptorOf (pluginId : PluginId) (cm : CapabilityManifest F) : ImplementationDescriptor F :=
  ⟨pluginId, cm.implementationKind, cm.qualityScore, cm.version, cm.nativeBinary, cm.privacyTier,
    cm.resourceProfile⟩

def registerImplementation (pluginId : PluginId) (cm : CapabilityManifest F) : PluginRegistry K F :=
  let fresh (id : CapabilityId) : RegistryEntry F :=
    ⟨id, cm.contract, [descriptorOf pluginId cm], [pluginId], .active⟩
  match r.registry[cm.capabilityId]? with
  | none => { r with registry := r.registry.insert cm.capabilityId (fresh cm.capabilityId) }
  | some entry =>
    if entry.contract = cm.contract then
      { r with registry := r.registry.insert cm.capabilityId { entry with
          implementations := entry.implementations ++ [descriptorOf pluginId cm]
          owningPlugins := entry.owningPlugins ++ [pluginId] } }
    else
      let versionedId := versionVariant r.registry cm.capabilityId
      { r with registry := r.registry.insert versionedId (fresh versionedId) }

def registerContribution (pluginId : PluginId) (r : PluginRegistry K F) :
    Contribution F → PluginRegistry K F
  | .capability cm => r.registerImplementation pluginId cm
  | contribution => { r with
      contributions := r.contributions.insert pluginId
        (r.contributions[pluginId]?.getD [] ++ [contribution]) }

def registerContributions (pluginId : PluginId) (manifest : PluginManifest K F) : PluginRegistry K F :=
  manifest.contributions.foldl (registerContribution pluginId) r

def without (pluginId : PluginId) (entry : RegistryEntry F) : RegistryEntry F := { entry with
  implementations := entry.implementations.filter fun d => d.pluginId ≠ pluginId
  owningPlugins := entry.owningPlugins.filter (· ≠ pluginId) }

def removeRegistryAndContributions (pluginId : PluginId) : PluginRegistry K F :=
  { r with
    registry := (r.registry.map fun _ entry => without pluginId entry).filter fun _ entry =>
      !entry.implementations.isEmpty
    contributions := r.contributions.erase pluginId }

end PluginRegistry

/-! ## Installing -/

structure InstallCall (K : SignatureScheme) (F : Type) where
  admin : CapabilityToken
  requireAt : Instant
  review : Except PluginError Unit
  manifest : PluginManifest K F
  availableDepth : TrustDepth
  consented : Bool
  validateNativeBinary : Option NativeBinaryDescriptor → Except PluginError Unit
  mintAt : Nat → Instant
  sandboxAt : Instant

namespace Host

def check (host : Host K F) (now : Instant) (admin : CapabilityToken) (rights : RightsMask) :
    Except PluginError Unit :=
  match host.process.monitor.checkRightsOkResult now admin rights with
  | .ok () => .ok ()
  | .error _ => .error .unauthorized

/-- The end of `install_validated`. -/
def enroll (host : Host K F) (pluginId : PluginId) (boundary : TrustBoundaryId)
    (manifest : PluginManifest K F) (tokens : List CapabilityToken) : Host K F :=
  let r := host.registry.registerContributions pluginId manifest
  { host with registry := { r with
      plugins := r.plugins.insert pluginId manifest
      boundaries := r.boundaries.insert pluginId boundary
      tokens := r.tokens.insert pluginId tokens } }

def installValidated (host : Host K F) (call : InstallCall K F) :
    Except PluginError PluginHandle × Host K F × List Minted :=
  if call.availableDepth.rank < call.manifest.minTrustDepth.rank then
    (.error .insufficientTrustDepth, host, [])
  else if !call.consented then (.error .consentDeclined, host, [])
  else
    match validateContributions call.validateNativeBinary call.manifest with
    | .error err => (.error err, host, [])
    | .ok () =>
      let pluginId := host.registry.nextPluginId
      let boundary := host.registry.nextBoundary
      let registry := host.registry.counted
      match mintAll call.admin boundary call.mintAt call.manifest.requestedPermissions host.process with
      | (tokens, some fault, p) =>
        (.error (.capability fault), ⟨p, registry⟩, tokens.map (⟨pluginId, false, ·⟩))
      | (tokens, none, p) =>
        let minted := tokens.map (⟨pluginId, false, ·⟩)
        if needsSandboxToken call.manifest then
          match mint p call.sandboxAt call.admin readWrite boundary with
          | .error fault => (.error (.capability fault), ⟨p, registry⟩, minted)
          | .ok (token, p) =>
            let registry := { registry with sandboxTokens := registry.sandboxTokens.insert pluginId token }
            (.ok ⟨pluginId, boundary⟩, enroll ⟨p, registry⟩ pluginId boundary call.manifest tokens,
              minted ++ [⟨pluginId, true, token⟩])
        else (.ok ⟨pluginId, boundary⟩, enroll ⟨p, registry⟩ pluginId boundary call.manifest tokens, minted)

/-- `install` and `install_with_publisher_registry`. -/
def install (host : Host K F) (call : InstallCall K F) :
    Except PluginError PluginHandle × Host K F × List Minted :=
  match host.check call.requireAt call.admin .grant with
  | .error err => (.error err, host, [])
  | .ok () =>
    match call.review with
    | .error err => (.error err, host, [])
    | .ok () => host.installValidated call

end Host

/-! ## Updating -/

structure UpdateCall (K : SignatureScheme) (F : Type) where
  admin : CapabilityToken
  requireAt : Instant
  pluginId : PluginId
  review : Except PluginError Unit
  newManifest : PluginManifest K F
  availableDepth : TrustDepth
  consentedToNewGrants : Bool
  validateNativeBinary : Option NativeBinaryDescriptor → Except PluginError Unit
  mintAt : Nat → Instant
  sandboxAt : Instant

def newGrants (old new : List CapabilityGrantRequest) : List CapabilityGrantRequest :=
  new.filter fun grant => !old.any fun existing => grantsEqual existing grant

/-- The tokens of the permissions that the new manifest drops. -/
def droppedTokens (held : List (CapabilityGrantRequest × CapabilityToken)) (new : List CapabilityGrantRequest) :
    List CapabilityToken :=
  (held.filter fun h => !new.any fun grant => grantsEqual grant h.1).map (·.2)

namespace Host

variable (host : Host K F)

/-- The end of `update_validated`, once the registry has the new contributions and the sandbox token has
been seen to. -/
def replace (pluginId : PluginId) (manifest : PluginManifest K F)
    (tokens : List CapabilityToken) (sandboxTokens : HashMap PluginId CapabilityToken) : Host K F :=
  { host with registry := { host.registry with
      sandboxTokens := sandboxTokens
      plugins := host.registry.plugins.insert pluginId manifest
      tokens := host.registry.tokens.insert pluginId tokens } }

def updateValidated (call : UpdateCall K F) (oldManifest : PluginManifest K F) (boundary : TrustBoundaryId) :
    Except PluginError (List CapabilityGrantRequest) × Host K F × List Minted :=
  let id := call.pluginId
  let grants := newGrants oldManifest.requestedPermissions call.newManifest.requestedPermissions
  if call.availableDepth.rank < call.newManifest.minTrustDepth.rank then
    (.error .insufficientTrustDepth, host, [])
  else if !grants.isEmpty && !call.consentedToNewGrants then (.error .consentDeclined, host, [])
  else
    match validateContributions call.validateNativeBinary call.newManifest with
    | .error err => (.error err, host, [])
    | .ok () =>
      let held := oldManifest.requestedPermissions.zip (host.registry.tokens[id]?.getD [])
      let carried := carryOver call.admin boundary held call.mintAt
        call.newManifest.requestedPermissions host.process
      let minted := carried.minted.map (⟨id, false, ·⟩)
      match carried.fault with
      | some fault => (.error (.capability fault), ⟨carried.process, host.registry⟩, minted)
      | none =>
        let p := revokeAll carried.process (droppedTokens held call.newManifest.requestedPermissions)
        let r := (host.registry.removeRegistryAndContributions id).registerContributions id call.newManifest
        if needsSandboxToken call.newManifest then
          if r.sandboxTokens.contains id then
            (.ok grants, replace ⟨p, r⟩ id call.newManifest carried.tokens r.sandboxTokens, minted)
          else
            match mint p call.sandboxAt call.admin readWrite boundary with
            | .error fault => (.error (.capability fault), ⟨p, r⟩, minted)
            | .ok (token, p) =>
              (.ok grants, replace ⟨p, r⟩ id call.newManifest carried.tokens (r.sandboxTokens.insert id token),
                minted ++ [⟨id, true, token⟩])
        else
          (.ok grants, replace ⟨p, r⟩ id call.newManifest carried.tokens (r.sandboxTokens.erase id), minted)

/-- `update` and `update_with_publisher_registry`. -/
def update (call : UpdateCall K F) :
    Except PluginError (List CapabilityGrantRequest) × Host K F × List Minted :=
  match host.check call.requireAt call.admin .grant with
  | .error err => (.error err, host, [])
  | .ok () =>
    match host.registry.plugins[call.pluginId]?, host.registry.boundaries[call.pluginId]? with
    | some oldManifest, some boundary =>
      match call.review with
      | .error err => (.error err, host, [])
      | .ok () => host.updateValidated call oldManifest boundary
    | _, _ => (.error .noSuchPlugin, host, [])

/-! ## Uninstalling -/

def uninstall (now : Instant) (admin : CapabilityToken) (pluginId : PluginId) :
    Except PluginError Unit × Host K F :=
  match host.check now admin .revoke with
  | .error err => (.error err, host)
  | .ok () =>
    match host.registry.tokens[pluginId]? with
    | none => (.error .noSuchPlugin, host)
    | some tokens =>
      let r := { host.registry with
        tokens := host.registry.tokens.erase pluginId }.removeRegistryAndContributions pluginId
      (.ok (), ⟨revokeAll host.process tokens, { r with
        plugins := r.plugins.erase pluginId
        boundaries := r.boundaries.erase pluginId
        quarantinedPlugins := r.quarantinedPlugins.erase pluginId }⟩)

def hide (pluginId : PluginId) (entry : RegistryEntry F) : RegistryEntry F :=
  if entry.owningPlugins.contains pluginId then { entry with installState := .quarantined } else entry

def quarantine (pluginId : PluginId) : Except PluginError Unit × Host K F :=
  match host.registry.plugins[pluginId]? with
  | none => (.error .noSuchPlugin, host)
  | some _ =>
    let r := host.registry
    (.ok (), { host with registry := { r with
      registry := r.registry.map fun _ entry => hide pluginId entry
      quarantinedPlugins := r.quarantinedPlugins.insert pluginId () } })

end Host

/-! ## Calls -/

inductive PluginCall (K : SignatureScheme) (F : Type)
  | install (call : InstallCall K F)
  | update (call : UpdateCall K F)
  | uninstall (now : Instant) (admin : CapabilityToken) (pluginId : PluginId)
  | quarantine (pluginId : PluginId)

variable (host : Host K F)

/-- The host after the call, and the tokens that the call minted. -/
def PluginCall.exec : PluginCall K F → Host K F × List Minted
  | .install call => (host.install call).2
  | .update call => (host.update call).2
  | .uninstall now admin pluginId => ((host.uninstall now admin pluginId).2, [])
  | .quarantine pluginId => ((host.quarantine pluginId).2, [])

/-! ## What a call has done -/

namespace PluginRegistry

/-- Only the capabilities and the other contributions may differ. -/
def OnlyContributions (r r' : PluginRegistry K F) : Prop :=
  r' = { r with registry := r'.registry, contributions := r'.contributions }

theorem OnlyContributions.trans {r r' r'' : PluginRegistry K F} (h : OnlyContributions r r')
    (h' : OnlyContributions r' r'') : OnlyContributions r r'' := by
  unfold OnlyContributions at h h' ⊢
  rw [h', h]

variable (r : PluginRegistry K F) (pluginId : PluginId)

theorem registerContribution_only (r : PluginRegistry K F) (c : Contribution F) :
    OnlyContributions r (registerContribution pluginId r c) := by
  cases c with
  | capability cm =>
    rw [registerContribution, registerImplementation]
    split
    · rfl
    · split <;> rfl
  | _ => rfl

theorem registerContributions_only (manifest : PluginManifest K F) :
    OnlyContributions r (r.registerContributions pluginId manifest) := by
  unfold registerContributions
  induction manifest.contributions generalizing r with
  | nil => rfl
  | cons c cs ih => exact (registerContribution_only pluginId r c).trans (ih _)

theorem removeRegistryAndContributions_only :
    OnlyContributions r (r.removeRegistryAndContributions pluginId) := rfl

end PluginRegistry

/-- Nothing that `install` looks at before it acts is against it. -/
structure InstallCall.Proceeds (call : InstallCall K F) (host : Host K F) : Prop where
  check : host.check call.requireAt call.admin .grant = .ok ()
  review : call.review = .ok ()
  depth : call.manifest.minTrustDepth.rank ≤ call.availableDepth.rank
  consent : call.consented = true
  contributions : validateContributions call.validateNativeBinary call.manifest = .ok ()

/-- Nothing is against the `install`, and minting the tokens of its permissions ends so. -/
structure InstallCall.Mints (call : InstallCall K F) (host : Host K F) (tokens : List CapabilityToken)
    (fault : Option Fault) (p : Process) : Prop extends call.Proceeds host where
  mints : mintAll call.admin host.registry.nextBoundary call.mintAt call.manifest.requestedPermissions
    host.process = (tokens, fault, p)

/-- What an `install` can answer and leave behind: it is refused before it does anything; it is refused a
token for a permission, or for the sandbox; or the plugin is enrolled. -/
inductive Installed (host : Host K F) (call : InstallCall K F) :
    Except PluginError PluginHandle × Host K F × List Minted → Prop
  | refused (err : PluginError) (hnot : ¬ call.Proceeds host) : Installed host call (.error err, host, [])
  | faulted {tokens : List CapabilityToken} {fault : Fault} {p : Process}
      (hmint : call.Mints host tokens (some fault) p) :
      Installed host call (.error (.capability fault), ⟨p, host.registry.counted⟩,
        tokens.map (⟨host.registry.nextPluginId, false, ·⟩))
  | sandboxFaulted {tokens : List CapabilityToken} {fault : Fault} {p : Process}
      (hmint : call.Mints host tokens none p) (hneeds : needsSandboxToken call.manifest = true)
      (hfault : mint p call.sandboxAt call.admin readWrite host.registry.nextBoundary = .error fault) :
      Installed host call (.error (.capability fault), ⟨p, host.registry.counted⟩,
        tokens.map (⟨host.registry.nextPluginId, false, ·⟩))
  | sandboxed {tokens : List CapabilityToken} {token : CapabilityToken} {p p' : Process}
      (hmint : call.Mints host tokens none p) (hneeds : needsSandboxToken call.manifest = true)
      (hsandbox : mint p call.sandboxAt call.admin readWrite host.registry.nextBoundary = .ok (token, p')) :
      Installed host call (.ok ⟨host.registry.nextPluginId, host.registry.nextBoundary⟩,
        Host.enroll ⟨p', { host.registry.counted with
          sandboxTokens := host.registry.sandboxTokens.insert host.registry.nextPluginId token }⟩
          host.registry.nextPluginId host.registry.nextBoundary call.manifest tokens,
        tokens.map (⟨host.registry.nextPluginId, false, ·⟩) ++ [⟨host.registry.nextPluginId, true, token⟩])
  | enrolled {tokens : List CapabilityToken} {p : Process} (hmint : call.Mints host tokens none p)
      (hneeds : needsSandboxToken call.manifest = false) :
      Installed host call (.ok ⟨host.registry.nextPluginId, host.registry.nextBoundary⟩,
        Host.enroll ⟨p, host.registry.counted⟩ host.registry.nextPluginId host.registry.nextBoundary
          call.manifest tokens,
        tokens.map (⟨host.registry.nextPluginId, false, ·⟩))

theorem install_cases (call : InstallCall K F) : Installed host call (host.install call) := by
  unfold Host.install
  split
  · next hcheck => exact .refused _ fun h => by cases hcheck.symm.trans h.check
  · next hcheck =>
    split
    · next hreview => exact .refused _ fun h => by cases hreview.symm.trans h.review
    · next hreview =>
      unfold Host.installValidated
      split
      · next hdepth => exact .refused _ fun h => absurd h.depth (not_le.mpr hdepth)
      · next hdepth =>
        split
        · next hconsent => exact .refused _ fun h => by simp [h.consent] at hconsent
        · next hconsent =>
          split
          · next hvalid => exact .refused _ fun h => by cases hvalid.symm.trans h.contributions
          · next hvalid =>
            have hproceeds : call.Proceeds host :=
              ⟨hcheck, hreview, not_lt.mp hdepth, by simpa using hconsent, hvalid⟩
            dsimp only
            split
            · next hmint => exact .faulted ⟨hproceeds, hmint⟩
            · next hmint =>
              split
              · next hneeds =>
                split
                · next hfault => exact .sandboxFaulted ⟨hproceeds, hmint⟩ hneeds hfault
                · next hsandbox => exact .sandboxed ⟨hproceeds, hmint⟩ hneeds hsandbox
              · next hneeds => exact .enrolled ⟨hproceeds, hmint⟩ (Bool.not_eq_true _ ▸ hneeds)

def heldTokens (pluginId : PluginId) (oldManifest : PluginManifest K F) :
    List (CapabilityGrantRequest × CapabilityToken) :=
  oldManifest.requestedPermissions.zip (host.registry.tokens[pluginId]?.getD [])

/-- The host after the contributions of a plugin have been replaced and what it no longer asks for has
been taken back. -/
def Host.changed (call : UpdateCall K F) (oldManifest : PluginManifest K F) (p : Process) : Host K F :=
  ⟨revokeAll p (droppedTokens (heldTokens host call.pluginId oldManifest) call.newManifest.requestedPermissions),
    (host.registry.removeRegistryAndContributions call.pluginId).registerContributions call.pluginId
      call.newManifest⟩

theorem Host.changed_only (call : UpdateCall K F) (oldManifest : PluginManifest K F) (p : Process) :
    PluginRegistry.OnlyContributions host.registry (host.changed call oldManifest p).registry :=
  (PluginRegistry.removeRegistryAndContributions_only _ _).trans
    (PluginRegistry.registerContributions_only _ _ _)

/-- Nothing that `update` looks at before it acts is against it. -/
structure UpdateCall.Proceeds (call : UpdateCall K F) (host : Host K F) (oldManifest : PluginManifest K F) :
    Prop where
  check : host.check call.requireAt call.admin .grant = .ok ()
  plugin : host.registry.plugins[call.pluginId]? = some oldManifest
  boundary : host.registry.boundaries.contains call.pluginId = true
  review : call.review = .ok ()
  depth : call.newManifest.minTrustDepth.rank ≤ call.availableDepth.rank
  consent : newGrants oldManifest.requestedPermissions call.newManifest.requestedPermissions = [] ∨
    call.consentedToNewGrants = true
  contributions : validateContributions call.validateNativeBinary call.newManifest = .ok ()

/-- Nothing is against the `update`, and carrying the tokens of its permissions over ends so. -/
structure UpdateCall.Carries (call : UpdateCall K F) (host : Host K F) (oldManifest : PluginManifest K F)
    (b : TrustBoundaryId) (carried : CarryOver) : Prop extends call.Proceeds host oldManifest where
  carries : carryOver call.admin b (heldTokens host call.pluginId oldManifest) call.mintAt
    call.newManifest.requestedPermissions host.process = carried

/-- What an `update` can answer and leave behind: it is refused before it does anything; it is refused a
token for a permission; it is refused one for the sandbox, after everything else has been replaced; or the
plugin is updated. -/
inductive Updated (host : Host K F) (call : UpdateCall K F) :
    Except PluginError (List CapabilityGrantRequest) × Host K F × List Minted → Prop
  | refused (err : PluginError) (hnot : ∀ oldManifest, ¬ call.Proceeds host oldManifest) :
      Updated host call (.error err, host, [])
  | faulted {oldManifest : PluginManifest K F} {boundary : TrustBoundaryId} {fault : Fault}
      {carried : CarryOver} (hcarried : call.Carries host oldManifest boundary carried)
      (hfault : carried.fault = some fault) :
      Updated host call (.error (.capability fault), ⟨carried.process, host.registry⟩,
        carried.minted.map (⟨call.pluginId, false, ·⟩))
  | sandboxFaulted {oldManifest : PluginManifest K F} {boundary : TrustBoundaryId} {fault : Fault}
      {carried : CarryOver} (hcarried : call.Carries host oldManifest boundary carried)
      (hnone : carried.fault = none) (hneeds : needsSandboxToken call.newManifest = true)
      (habsent : host.registry.sandboxTokens.contains call.pluginId = false)
      (hfault : mint (host.changed call oldManifest carried.process).process call.sandboxAt call.admin
        readWrite boundary = .error fault) :
      Updated host call (.error (.capability fault), host.changed call oldManifest carried.process,
        carried.minted.map (⟨call.pluginId, false, ·⟩))
  | replaced {oldManifest : PluginManifest K F} {boundary : TrustBoundaryId} {carried : CarryOver}
      (grants : List CapabilityGrantRequest) (sandboxTokens : HashMap PluginId CapabilityToken)
      (hcarried : call.Carries host oldManifest boundary carried) (hnone : carried.fault = none)
      (hneeds : needsSandboxToken call.newManifest = true →
        host.registry.sandboxTokens.contains call.pluginId = true)
      (hkept : ∀ (id : PluginId) (t : CapabilityToken), sandboxTokens[id]? = some t →
        host.registry.sandboxTokens[id]? = some t) :
      Updated host call (.ok grants,
        (host.changed call oldManifest carried.process).replace call.pluginId call.newManifest carried.tokens
          sandboxTokens,
        carried.minted.map (⟨call.pluginId, false, ·⟩))
  | sandboxed {oldManifest : PluginManifest K F} {boundary : TrustBoundaryId} {carried : CarryOver}
      {token : CapabilityToken} {p : Process} (grants : List CapabilityGrantRequest)
      (hcarried : call.Carries host oldManifest boundary carried) (hnone : carried.fault = none)
      (hmint : mint (host.changed call oldManifest carried.process).process call.sandboxAt call.admin
        readWrite boundary = .ok (token, p)) :
      Updated host call (.ok grants,
        Host.replace ⟨p, (host.changed call oldManifest carried.process).registry⟩ call.pluginId
          call.newManifest carried.tokens (host.registry.sandboxTokens.insert call.pluginId token),
        carried.minted.map (⟨call.pluginId, false, ·⟩) ++ [⟨call.pluginId, true, token⟩])

theorem updateValidated_cases {host : Host K F} {call : UpdateCall K F} {oldManifest : PluginManifest K F}
    {boundary : TrustBoundaryId} (hcheck : host.check call.requireAt call.admin .grant = .ok ())
    (hplugin : host.registry.plugins[call.pluginId]? = some oldManifest)
    (hboundary : host.registry.boundaries[call.pluginId]? = some boundary) (hreview : call.review = .ok ()) :
    Updated host call (host.updateValidated call oldManifest boundary) := by
  have hsame : ∀ manifest, call.Proceeds host manifest → manifest = oldManifest := fun manifest h =>
    Option.some.inj (h.plugin.symm.trans hplugin)
  unfold Host.updateValidated
  dsimp only
  split
  · next hdepth => exact .refused _ fun _ h => absurd h.depth (not_le.mpr hdepth)
  · next hdepth =>
    split
    · next hconsent =>
      refine .refused _ fun manifest h => ?_
      rw [Bool.and_eq_true, Bool.not_eq_true', Bool.not_eq_true', ← Bool.not_eq_true, List.isEmpty_iff,
        ← hsame manifest h] at hconsent
      exact h.consent.elim hconsent.1 fun htrue => by cases hconsent.2.symm.trans htrue
    · next hconsent =>
      split
      · next hvalid => exact .refused _ fun _ h => by cases hvalid.symm.trans h.contributions
      · next hvalid =>
        have hproceeds : call.Proceeds host oldManifest := by
          refine ⟨hcheck, hplugin, ?_, hreview, not_lt.mp hdepth, ?_, hvalid⟩
          · rw [Std.ExtTreeMap.contains_eq_isSome_getElem?, hboundary]
            rfl
          · rw [Bool.and_eq_true, not_and_or, Bool.not_eq_true', Bool.not_eq_true', Bool.not_eq_false,
              Bool.not_eq_false, List.isEmpty_iff] at hconsent
            exact hconsent
        have hsandbox : (host.changed call oldManifest host.process).registry.sandboxTokens =
            host.registry.sandboxTokens := by
          rw [Host.changed_only]
        unfold Host.changed at hsandbox
        dsimp only at hsandbox
        rw [hsandbox]
        split
        · next hfault => exact .faulted ⟨hproceeds, rfl⟩ hfault
        · next hnone =>
          split
          · next hneeds =>
            split
            · next hcontains => exact .replaced _ _ ⟨hproceeds, rfl⟩ hnone (fun _ => hcontains) fun _ _ h => h
            · next habsent =>
              split
              · next hfault => exact .sandboxFaulted ⟨hproceeds, rfl⟩ hnone hneeds (Bool.not_eq_true _ ▸ habsent) hfault
              · next hmint => exact .sandboxed _ ⟨hproceeds, rfl⟩ hnone hmint
          · next hneeds =>
            exact .replaced _ _ ⟨hproceeds, rfl⟩ hnone (fun h => absurd h hneeds) fun id t h =>
              (HashMap.of_get_erase h).2

theorem update_cases (call : UpdateCall K F) : Updated host call (host.update call) := by
  unfold Host.update
  split
  · next hcheck => exact .refused _ fun _ h => by cases hcheck.symm.trans h.check
  · next hcheck =>
    split
    · next oldManifest boundary hplugin hboundary =>
      split
      · next hreview => exact .refused _ fun _ h => by cases hreview.symm.trans h.review
      · next hreview => exact updateValidated_cases hcheck hplugin hboundary hreview
    · next hmissing =>
      refine .refused _ fun manifest h => ?_
      have hboundary := h.boundary
      rw [Std.ExtTreeMap.contains_eq_isSome_getElem?] at hboundary
      obtain ⟨boundary, hboundary⟩ := Option.isSome_iff_exists.mp hboundary
      exact hmissing manifest boundary h.plugin hboundary

end

end Hyperion.Plugin
