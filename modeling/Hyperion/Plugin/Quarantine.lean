import Hyperion.Plugin.Failure

/-!
# Quarantine

What the accessors of the registry return while plugins are quarantined. Quarantine is written down
twice: in the set of quarantined plugins, by which the listings of contributions go, and on the entry of
each capability of the plugin, which the plugin shares with every other that implements it and which is
written anew when the plugin is updated.
-/

namespace Hyperion.Plugin
open Lib Capability List Std.ExtTreeMap Option HashMap PluginRegistry

section
variable {K : SignatureScheme} {F : Type} {quarantined : List PluginId} {cm : CapabilityManifest F}
  {r : PluginRegistry K F} {registry : HashMap CapabilityId (RegistryEntry F)} {installed : PluginId → Prop}

/-! ## Accessors -/

namespace PluginRegistry

def query (r : PluginRegistry K F) (capabilityId : CapabilityId) : Option (RegistryEntry F) :=
  r.registry[capabilityId]?.filter fun e => e.installState ≠ .quarantined

def capabilityEntries (visit : Visit (RegistryEntry F)) (r : PluginRegistry K F) : List (RegistryEntry F) :=
  ((visit.values r.registry).filter fun e => e.installState ≠ .quarantined).mergeSort
    fun a b => a.capabilityId ≤ b.capabilityId

def nativeImplementation (r : PluginRegistry K F) (capabilityId : CapabilityId) :
    Except PluginError (ImplementationDescriptor F) :=
  match r.query capabilityId with
  | none => .error .noSuchCapability
  | some entry =>
    match entry.implementations.find? fun d => d.nativeBinary.isSome with
    | none => .error (.noRunnableImplementation capabilityId)
    | some descriptor =>
      if !r.sandboxTokens.contains descriptor.pluginId then .error .noSuchPlugin
      else if !r.plugins.contains descriptor.pluginId then .error .noSuchPlugin
      else .ok descriptor

/-- The contributions of one kind of all plugins that are not quarantined. -/
def listing {A : Type} (select : Contribution F → Option A)
    (visit : Visit (PluginId × List (Contribution F))) (r : PluginRegistry K F) : List A :=
  ((visit.entries r.contributions).filter fun e => !r.quarantinedPlugins.contains e.1).flatMap fun e =>
    e.2.filterMap select

def agentContributions := listing (K := K) (F := F) fun
  | .agent ac => some ac
  | _ => none

def hardwareSupportContributions := listing (K := K) (F := F) fun
  | .hardwareSupport hs => some hs
  | _ => none

def knowledgeProviderContributions := listing (K := K) (F := F) fun
  | .knowledgeProvider kp => some kp
  | _ => none

def uiComponentContributions := listing (K := K) (F := F) fun
  | .uiComponent ui => some ui
  | _ => none

def automationWorkflowContributions := listing (K := K) (F := F) fun
  | .automationWorkflow wf => some wf
  | _ => none

def memoryProviderContributions := listing (K := K) (F := F) fun
  | .memoryProvider mp => some mp
  | _ => none

def executionEngineContributions := listing (K := K) (F := F) fun
  | .executionEngine ee => some ee
  | _ => none

def executionEngine (visit : Visit (PluginId × List (Contribution F))) (r : PluginRegistry K F)
    (engineId : String) : Option ExecutionEngineContribution :=
  (executionEngineContributions visit r).find? fun ee => ee.engineId = engineId

def executionEngineIds (visit : Visit (PluginId × List (Contribution F))) (r : PluginRegistry K F) :
    List String :=
  (((executionEngineContributions visit r).map (·.engineId)).mergeSort (· ≤ ·)).dedup

end PluginRegistry

/-! ## What is asked of the accessors -/

/-- The name under which a capability is registered: its own, or a variant. -/
def IsVariant (capabilityId registered : CapabilityId) : Prop :=
  registered = capabilityId ∨ ∃ n : Nat, registered = capabilityId ++ "#" ++ toString n

/-- A host, with the plugins that were quarantined and not uninstalled since. -/
structure Patrol (K : SignatureScheme) (F : Type) where
  host : Host K F
  quarantined : List PluginId

def quarantinedAfter (w : Patrol K F) : PluginCall K F → List PluginId
  | .quarantine pluginId =>
    match (w.host.quarantine pluginId).1 with
    | .ok _ => pluginId :: w.quarantined
    | .error _ => w.quarantined
  | .uninstall now admin pluginId =>
    match (w.host.uninstall now admin pluginId).1 with
    | .ok _ => w.quarantined.filter (· ≠ pluginId)
    | .error _ => w.quarantined
  | .install _ | .update _ => w.quarantined

def Patrol.exec (w : Patrol K F) (call : PluginCall K F) : Patrol K F :=
  ⟨w.host.exec call, quarantinedAfter w call⟩

/-- The quarantined plugins are hidden from every accessor, and what the others contribute is not. -/
structure HidesExactly (r : PluginRegistry K F) (quarantined : List PluginId) : Prop where
  query_hides : ∀ capabilityId entry, r.query capabilityId = some entry →
    ∀ d ∈ entry.implementations, d.pluginId ∉ quarantined
  entries_hide : ∀ visit, ∀ entry ∈ r.capabilityEntries visit,
    ∀ d ∈ entry.implementations, d.pluginId ∉ quarantined
  invoke_hides : ∀ capabilityId d, r.nativeImplementation capabilityId = .ok d → d.pluginId ∉ quarantined
  listing_hides : ∀ {A : Type} (select : Contribution F → Option A) visit, ∀ a ∈ r.listing select visit,
    ∃ (id : PluginId) (manifest : PluginManifest K F), r.plugins[id]? = some manifest ∧ id ∉ quarantined ∧
      ∃ c ∈ manifest.contributions, select c = some a
  capability_shown : ∀ (id : PluginId) (manifest : PluginManifest K F), r.plugins[id]? = some manifest →
    id ∉ quarantined → ∀ cm, .capability cm ∈ manifest.contributions → ∃ capabilityId entry,
      IsVariant cm.capabilityId capabilityId ∧ r.query capabilityId = some entry ∧
      (∀ visit, entry ∈ r.capabilityEntries visit) ∧ entry.contract = cm.contract ∧
      PluginRegistry.descriptorOf id cm ∈ entry.implementations
  contribution_shown : ∀ (id : PluginId) (manifest : PluginManifest K F), r.plugins[id]? = some manifest →
    id ∉ quarantined → ∀ c ∈ manifest.contributions, (∀ cm, c ≠ .capability cm) →
      ∀ {A : Type} (select : Contribution F → Option A) visit, ∀ a ∈ select c, a ∈ r.listing select visit

/-! ## Registering -/

theorem versionVariant_spec (registry : HashMap CapabilityId (RegistryEntry F)) (capabilityId : CapabilityId) :
    registry[versionVariant registry capabilityId]? = none ∧
      IsVariant capabilityId (versionVariant registry capabilityId) := by
  have hvariant : ∀ candidate ∈ (List.range (registry.size + 1)).map fun n =>
      capabilityId ++ "#" ++ toString (n + 2), IsVariant capabilityId candidate := by
    intro candidate hcandidate
    obtain ⟨n, -, rfl⟩ := mem_map.mp hcandidate
    exact .inr ⟨n + 2, rfl⟩
  unfold versionVariant
  dsimp only
  generalize hcandidates : ((List.range (registry.size + 1)).map fun n =>
    capabilityId ++ "#" ++ toString (n + 2)) = candidates at hvariant ⊢
  cases hfind : candidates.find? fun candidate => !registry.contains candidate with
  | some candidate =>
    have hfree := List.find?_some hfind
    rw [Bool.not_eq_true', contains_eq_isSome_getElem?, isSome_eq_false_iff,
      isNone_iff_eq_none] at hfree
    exact ⟨hfree, hvariant candidate (mem_of_find?_eq_some hfind)⟩
  | none =>
    -- More candidates than names in use.
    exfalso
    rw [List.find?_eq_none] at hfind
    have hnodup : candidates.Nodup := by
      rw [← hcandidates]
      refine nodup_range.map fun n m h => ?_
      have hrepr := Nat.repr_inj.mp (String.append_right_inj _ |>.mp h)
      omega
    have hsub : candidates ⊆ registry.keys := fun candidate hcandidate => by
      have hin := hfind candidate hcandidate
      simpa [mem_keys] using hin
    have hle := (hnodup.subperm hsub).length_le
    rw [← hcandidates, length_map, length_range, length_keys] at hle
    omega

/-- What `register_implementation` does to the registry: it makes a new entry, or joins one. -/
inductive Registers (registry : HashMap CapabilityId (RegistryEntry F)) (pluginId : PluginId)
    (cm : CapabilityManifest F) : HashMap CapabilityId (RegistryEntry F) → Prop
  | fresh {capabilityId : CapabilityId} (hnone : registry[capabilityId]? = none)
      (hvariant : IsVariant cm.capabilityId capabilityId) :
      Registers registry pluginId cm (registry.insert capabilityId
        ⟨capabilityId, cm.contract, [PluginRegistry.descriptorOf pluginId cm], [pluginId], .active⟩)
  | joined {entry : RegistryEntry F} (hentry : registry[cm.capabilityId]? = some entry)
      (hcontract : entry.contract = cm.contract) :
      Registers registry pluginId cm (registry.insert cm.capabilityId { entry with
        implementations := entry.implementations ++ [PluginRegistry.descriptorOf pluginId cm]
        owningPlugins := entry.owningPlugins ++ [pluginId] })

theorem registerImplementation_cases (r : PluginRegistry K F) (pluginId : PluginId)
    (cm : CapabilityManifest F) :
    Registers r.registry pluginId cm (r.registerImplementation pluginId cm).registry := by
  unfold registerImplementation
  dsimp only
  split
  · next hnone => exact .fresh hnone (.inl rfl)
  · next entry hentry =>
    split
    · next hcontract => exact .joined hentry hcontract
    · obtain ⟨hnone, hvariant⟩ := versionVariant_spec r.registry cm.capabilityId
      exact .fresh hnone hvariant

/-- The owners of an entry are installed, and it is quarantined as they are. -/
structure EntryOk (installed : PluginId → Prop) (quarantined : List PluginId) (entry : RegistryEntry F) :
    Prop where
  owners : ∀ d ∈ entry.implementations, d.pluginId ∈ entry.owningPlugins
  owned : ∀ id ∈ entry.owningPlugins, installed id ∧ (entry.installState = .quarantined ↔ id ∈ quarantined)

def EntriesOk (installed : PluginId → Prop) (quarantined : List PluginId)
    (registry : HashMap CapabilityId (RegistryEntry F)) : Prop :=
  ∀ (capabilityId : CapabilityId) (entry : RegistryEntry F), registry[capabilityId]? = some entry →
    EntryOk installed quarantined entry

theorem EntriesOk.mono {installed installed' : PluginId → Prop} (h : EntriesOk installed quarantined registry)
    (himp : ∀ id, installed id → installed' id) : EntriesOk installed' quarantined registry := by
  intro capabilityId entry hentry
  obtain ⟨howners, howned⟩ := h capabilityId entry hentry
  exact ⟨howners, fun id hid => ⟨himp id (howned id hid).1, (howned id hid).2⟩⟩

/-- The registry has the implementation of a capability by a plugin. -/
def Provides (registry : HashMap CapabilityId (RegistryEntry F)) (id : PluginId) (cm : CapabilityManifest F) :
    Prop :=
  ∃ (capabilityId : CapabilityId) (entry : RegistryEntry F), IsVariant cm.capabilityId capabilityId ∧
    registry[capabilityId]? = some entry ∧ entry.contract = cm.contract ∧
    PluginRegistry.descriptorOf id cm ∈ entry.implementations

/-- The capability does not join an entry that is quarantined. -/
def JoinsActive (registry : HashMap CapabilityId (RegistryEntry F)) (cm : CapabilityManifest F) : Prop :=
  ∀ entry ∈ registry[cm.capabilityId]?, entry.contract = cm.contract → entry.installState ≠ .quarantined

namespace Registers
variable {registry registry' : HashMap CapabilityId (RegistryEntry F)} {pluginId : PluginId}
  {cm : CapabilityManifest F} {installed : PluginId → Prop} {quarantined : List PluginId}

section
variable (h : Registers registry pluginId cm registry')
include h

theorem entriesOk (hok : EntriesOk installed quarantined registry) (hinstalled : installed pluginId)
    (hfree : pluginId ∉ quarantined) (hjoins : JoinsActive registry cm) :
    EntriesOk installed quarantined registry' := by
  cases h with
  | fresh hnone hvariant =>
    intro id entry hentry
    rw [get_insert] at hentry
    split at hentry
    · cases hentry
      exact ⟨by simp [descriptorOf], by simp [hinstalled, hfree]⟩
    · exact hok id entry hentry
  | @joined old hold hcontract =>
    intro id entry hentry
    rw [get_insert] at hentry
    split at hentry
    · cases hentry
      obtain ⟨howners, howned⟩ := hok _ old hold
      refine ⟨fun d hd => ?_, fun id hid => ?_⟩
      · rcases mem_append.mp hd with hd | hd
        · exact mem_append_left _ (howners d hd)
        · rw [mem_singleton.mp hd]
          exact mem_append_right _ (mem_singleton_self _)
      · rcases mem_append.mp hid with hid | hid
        · exact howned id hid
        · rw [mem_singleton.mp hid]
          exact ⟨hinstalled, iff_of_false (hjoins old hold hcontract) hfree⟩
    · exact hok id entry hentry

variable {cm' : CapabilityManifest F}

theorem keeps {id : PluginId} (hprovides : Provides registry id cm') : Provides registry' id cm' := by
  obtain ⟨capabilityId, entry, hvariant', hentry, hcontract', himpl⟩ := hprovides
  cases h with
  | @fresh new hnone hvariant =>
    refine ⟨capabilityId, entry, hvariant', ?_, hcontract', himpl⟩
    rw [get_insert, if_neg, hentry]
    rintro rfl
    rw [hnone] at hentry
    cases hentry
  | @joined old hold hcontract =>
    by_cases heq : cm.capabilityId = capabilityId
    · subst heq
      rw [hold, some.injEq] at hentry
      subst hentry
      refine ⟨_, _, hvariant', (get_insert ..).trans (if_pos rfl), hcontract', ?_⟩
      exact mem_append_left _ himpl
    · exact ⟨capabilityId, entry, hvariant', (get_insert ..).trans ((if_neg heq).trans hentry),
        hcontract', himpl⟩

theorem provides : Provides registry' pluginId cm := by
  cases h with
  | @fresh new hnone hvariant =>
    exact ⟨new, _, hvariant, (get_insert ..).trans (if_pos rfl), rfl, mem_singleton_self _⟩
  | @joined old hold hcontract =>
    refine ⟨_, _, .inl rfl, (get_insert ..).trans (if_pos rfl), hcontract, ?_⟩
    exact mem_append_right _ (mem_singleton_self _)

theorem joinsActive (hjoins : JoinsActive registry cm') : JoinsActive registry' cm' := by
  intro entry hentry hcontract
  cases h with
  | @fresh new hnone hvariant =>
    rw [get_insert] at hentry
    split at hentry
    · cases hentry
      simp
    · exact hjoins entry hentry hcontract
  | @joined old hold hcontract' =>
    rw [get_insert] at hentry
    split at hentry
    · next heq =>
      cases hentry
      exact hjoins old (heq ▸ hold) hcontract
    · exact hjoins entry hentry hcontract

end

end Registers

def Contribution.isCapability : Contribution F → Bool
  | .capability _ => true
  | _ => false

def PluginManifest.capabilities (manifest : PluginManifest K F) : List (CapabilityManifest F) :=
  manifest.contributions.filterMap fun
    | .capability cm => some cm
    | _ => none

theorem PluginManifest.mem_capabilities {manifest : PluginManifest K F} :
    cm ∈ manifest.capabilities ↔ .capability cm ∈ manifest.contributions := by
  rw [capabilities, mem_filterMap]
  constructor
  · rintro ⟨c, hc, heq⟩
    cases c with
    | capability cm' =>
      cases heq
      exact hc
    | _ => cases heq
  · exact fun h => ⟨_, h, rfl⟩

theorem Contribution.capability_or_other (c : Contribution F) :
    (∃ cm, c = .capability cm) ∨ c.isCapability = false := by
  cases c with
  | capability cm => exact .inl ⟨cm, rfl⟩
  | _ => exact .inr rfl

theorem registerContribution_other {c : Contribution F} (hc : c.isCapability = false) (pluginId : PluginId)
    (r : PluginRegistry K F) : registerContribution pluginId r c = { r with
      contributions := r.contributions.insert pluginId (r.contributions[pluginId]?.getD [] ++ [c]) } := by
  cases c with
  | capability cm => cases hc
  | _ => rfl

theorem registerContribution_capability (pluginId : PluginId) (r : PluginRegistry K F)
    (cm : CapabilityManifest F) :
    (registerContribution pluginId r (.capability cm)).contributions = r.contributions := by
  rw [registerContribution, registerImplementation]
  split
  · rfl
  · split <;> rfl

theorem registerContributions_registry (pluginId : PluginId) (manifest : PluginManifest K F)
    (r : PluginRegistry K F) (hok : EntriesOk installed quarantined r.registry)
    (hcapable : ∀ cm, .capability cm ∈ manifest.contributions →
      installed pluginId ∧ pluginId ∉ quarantined ∧ JoinsActive r.registry cm) :
    EntriesOk installed quarantined (r.registerContributions pluginId manifest).registry ∧
      (∀ id cm, Provides r.registry id cm →
        Provides (r.registerContributions pluginId manifest).registry id cm) ∧
      ∀ cm, .capability cm ∈ manifest.contributions →
        Provides (r.registerContributions pluginId manifest).registry pluginId cm := by
  unfold registerContributions
  generalize manifest.contributions = contributions at hcapable ⊢
  induction contributions generalizing r with
  | nil => exact ⟨hok, fun _ _ h => h, by simp⟩
  | cons c contributions ih =>
    rw [foldl_cons]
    have hrest : ∀ cm, .capability cm ∈ contributions → _ := fun cm hcm =>
      hcapable cm (mem_cons_of_mem _ hcm)
    rcases c.capability_or_other with ⟨cm, rfl⟩ | hc
    · obtain ⟨hinstalled, hfree, hjoins⟩ := hcapable cm mem_cons_self
      have hstep := registerImplementation_cases r pluginId cm
      obtain ⟨hok', hkept, hall⟩ := ih (r.registerImplementation pluginId cm)
        (hstep.entriesOk hok hinstalled hfree hjoins) fun cm' hcm' => by
          obtain ⟨_, _, hjoins'⟩ := hrest cm' hcm'
          exact ⟨hinstalled, hfree, hstep.joinsActive hjoins'⟩
      refine ⟨hok', fun id cm' h => hkept id cm' (hstep.keeps h), fun cm' hcm' => ?_⟩
      rcases mem_cons.mp hcm' with heq | hcm'
      · cases heq
        exact hkept pluginId cm hstep.provides
      · exact hall cm' hcm'
    · have hsame : (registerContribution pluginId r c).registry = r.registry := by
        rw [registerContribution_other hc]
      obtain ⟨hok', hkept, hall⟩ := ih (registerContribution pluginId r c)
        (by rwa [hsame]) (by rwa [hsame])
      rw [hsame] at hkept
      refine ⟨hok', hkept, fun cm' hcm' => hall cm' ((mem_cons.mp hcm').resolve_left ?_)⟩
      rintro rfl
      cases hc

theorem registerContributions_contributions (pluginId : PluginId) (manifest : PluginManifest K F)
    (r : PluginRegistry K F) (id : PluginId) :
    (r.registerContributions pluginId manifest).contributions[id]?.getD [] =
      r.contributions[id]?.getD [] ++
        if pluginId = id then manifest.contributions.filter (!·.isCapability) else [] := by
  unfold registerContributions
  generalize manifest.contributions = contributions
  induction contributions generalizing r with
  | nil => simp
  | cons c contributions ih =>
    rw [foldl_cons, ih]
    rcases c.capability_or_other with ⟨cm, rfl⟩ | hc
    · rw [registerContribution_capability]
      rfl
    · rw [registerContribution_other hc, get_insert, filter_cons, hc]
      split
      · next heq =>
        subst heq
        simp
      · rfl

/-! ## Removing -/

variable {pluginId : PluginId}

theorem get_removed {capabilityId : CapabilityId} {entry : RegistryEntry F} :
    (r.removeRegistryAndContributions pluginId).registry[capabilityId]? = some entry ↔
      ∃ old, r.registry[capabilityId]? = some old ∧ entry = without pluginId old ∧
        entry.implementations ≠ [] := by
  rw [removeRegistryAndContributions, get_filter_eq_some_iff,
    Std.ExtTreeMap.getElem?_map, map_eq_some_iff]
  simp only [Bool.not_eq_true', isEmpty_eq_false_iff]
  constructor
  · rintro ⟨⟨old, hold, rfl⟩, hne⟩
    exact ⟨old, hold, rfl, hne⟩
  · rintro ⟨old, hold, rfl, hne⟩
    exact ⟨⟨old, hold, rfl⟩, hne⟩

theorem entriesOk_removed (pluginId : PluginId) (hok : EntriesOk installed quarantined r.registry) :
    EntriesOk (fun id => installed id ∧ id ≠ pluginId) quarantined
      (r.removeRegistryAndContributions pluginId).registry := by
  intro capabilityId entry hentry
  obtain ⟨old, hold, rfl, -⟩ := get_removed.mp hentry
  obtain ⟨howners, howned⟩ := hok _ old hold
  refine ⟨fun d hd => ?_, fun id hid => ?_⟩
  · obtain ⟨hd, hne⟩ := mem_filter.mp hd
    exact mem_filter.mpr ⟨howners d hd, hne⟩
  · obtain ⟨hid, hne⟩ := mem_filter.mp hid
    exact ⟨⟨(howned id hid).1, of_decide_eq_true hne⟩, (howned id hid).2⟩

theorem provides_removed {pluginId id : PluginId} (hne : id ≠ pluginId) (h : Provides r.registry id cm) :
    Provides (r.removeRegistryAndContributions pluginId).registry id cm := by
  obtain ⟨capabilityId, entry, hvariant, hentry, hcontract, himpl⟩ := h
  have hkept : descriptorOf id cm ∈
      (without pluginId entry).implementations :=
    mem_filter.mpr ⟨himpl, decide_eq_true hne⟩
  exact ⟨capabilityId, _, hvariant, get_removed.mpr ⟨entry, hentry, rfl, ne_nil_of_mem hkept⟩,
    hcontract, hkept⟩

theorem joinsActive_removed (pluginId : PluginId)
    (h : JoinsActive r.registry cm) : JoinsActive (r.removeRegistryAndContributions pluginId).registry cm := by
  intro entry hentry hcontract
  obtain ⟨old, hold, rfl, -⟩ := get_removed.mp hentry
  exact h old hold hcontract

/-! ## Quarantining -/

theorem entriesOk_hidden (hok : EntriesOk installed quarantined registry)
    (hapart : ∀ (capabilityId : CapabilityId) (entry : RegistryEntry F), registry[capabilityId]? = some entry →
      pluginId ∈ entry.owningPlugins → ∀ id ∈ entry.owningPlugins, id = pluginId ∨ id ∈ quarantined) :
    EntriesOk installed (pluginId :: quarantined)
      (registry.map fun _ entry => Host.hide pluginId entry) := by
  intro capabilityId entry hentry
  rw [Std.ExtTreeMap.getElem?_map, map_eq_some_iff] at hentry
  obtain ⟨old, hold, rfl⟩ := hentry
  obtain ⟨howners, howned⟩ := hok _ old hold
  unfold Host.hide
  split
  · next hin =>
    refine ⟨howners, fun id hid => ⟨(howned id hid).1, iff_of_true rfl ?_⟩⟩
    exact mem_cons.mpr (hapart _ old hold (contains_iff_mem.mp hin) id hid)
  · next hout =>
    refine ⟨howners, fun id hid => ⟨(howned id hid).1, ?_⟩⟩
    have hne : id ≠ pluginId := fun heq => hout (contains_iff_mem.mpr (heq ▸ hid))
    rw [mem_cons, or_iff_right hne]
    exact (howned id hid).2

theorem provides_hidden (pluginId : PluginId) {id : PluginId} (h : Provides registry id cm) :
    Provides (registry.map fun _ entry => Host.hide pluginId entry) id cm := by
  obtain ⟨capabilityId, entry, hvariant, hentry, hcontract, himpl⟩ := h
  refine ⟨capabilityId, Host.hide pluginId entry, hvariant, ?_, ?_, ?_⟩
  · rw [Std.ExtTreeMap.getElem?_map, hentry]
    rfl
  · unfold Host.hide
    split <;> exact hcontract
  · unfold Host.hide
    split <;> exact himpl

/-! ## The invariant -/

/-- What the tables of a registry have to do with each other. -/
structure Registered (plugins : HashMap PluginId (PluginManifest K F)) (next : PluginId)
    (marked : HashMap PluginId Unit) (registry : HashMap CapabilityId (RegistryEntry F))
    (contributions : HashMap PluginId (List (Contribution F))) (quarantined : List PluginId) : Prop where
  known : ∀ id : PluginId, marked.contains id = true ↔ id ∈ quarantined
  ids : ∀ (id : PluginId) (manifest : PluginManifest K F), plugins[id]? = some manifest → id < next
  installed : ∀ id ∈ quarantined, ∃ manifest, plugins[id]? = some manifest
  entries : EntriesOk (fun id => ∃ manifest, plugins[id]? = some manifest) quarantined registry
  provides : ∀ (id : PluginId) (manifest : PluginManifest K F), plugins[id]? = some manifest →
    ∀ cm, .capability cm ∈ manifest.contributions → Provides registry id cm
  others : ∀ id : PluginId, contributions[id]?.getD [] =
    ((plugins[id]?.map (·.contributions)).getD []).filter (!·.isCapability)

def PluginRegistry.Registered (r : PluginRegistry K F) (quarantined : List PluginId) : Prop :=
  Plugin.Registered r.plugins r.nextPluginId r.quarantinedPlugins r.registry r.contributions quarantined

section
variable {r : PluginRegistry K F} {quarantined : List PluginId} {pluginId : PluginId}
  {manifest : PluginManifest K F}

variable {capabilityId : CapabilityId} {entry : RegistryEntry F}

theorem query_eq_some :
    r.query capabilityId = some entry ↔
      r.registry[capabilityId]? = some entry ∧ entry.installState ≠ .quarantined := by
  simp [query, filter_eq_some_iff]

theorem mem_capabilityEntries {visit : Visit (RegistryEntry F)} :
    entry ∈ r.capabilityEntries visit ↔
      (∃ capabilityId : CapabilityId, r.registry[capabilityId]? = some entry) ∧
        entry.installState ≠ .quarantined := by
  simp [capabilityEntries, Visit.mem_values]

theorem mem_listing {A : Type} {select : Contribution F → Option A}
    {visit : Visit (PluginId × List (Contribution F))} {a : A} :
    a ∈ r.listing select visit ↔ ∃ id : PluginId, r.quarantinedPlugins.contains id = false ∧
      ∃ c ∈ r.contributions[id]?.getD [], select c = some a := by
  simp only [listing, mem_flatMap, mem_filter, Visit.mem_entries,
    mem_filterMap, Bool.not_eq_true']
  constructor
  · rintro ⟨⟨id, cs⟩, ⟨hcs, hfree⟩, c, hc, hselect⟩
    exact ⟨id, hfree, c, by rwa [hcs], hselect⟩
  · rintro ⟨id, hfree, c, hc, hselect⟩
    cases hcs : r.contributions[id]? with
    | none =>
      rw [hcs] at hc
      cases hc
    | some cs =>
      rw [hcs] at hc
      exact ⟨(id, cs), ⟨hcs, hfree⟩, c, hc, hselect⟩

theorem query_of_native {d : ImplementationDescriptor F} (h : r.nativeImplementation capabilityId = .ok d) :
    ∃ entry, r.query capabilityId = some entry ∧ d ∈ entry.implementations := by
  unfold nativeImplementation at h
  split at h
  · cases h
  · next entry hentry =>
    split at h
    · cases h
    · next descriptor hfind =>
      split at h
      · cases h
      · split at h
        · cases h
        · cases h
          exact ⟨entry, hentry, mem_of_find?_eq_some hfind⟩

namespace PluginRegistry.Registered

theorem visible (R : r.Registered quarantined) {capabilityId : CapabilityId} {entry : RegistryEntry F}
    (hentry : r.registry[capabilityId]? = some entry) (hstate : entry.installState ≠ .quarantined) :
    ∀ d ∈ entry.implementations, d.pluginId ∉ quarantined := by
  intro d hd hin
  obtain ⟨howners, howned⟩ := R.entries capabilityId entry hentry
  exact hstate ((howned _ (howners d hd)).2.mpr hin)

theorem free_iff (R : r.Registered quarantined) {id : PluginId} :
    r.quarantinedPlugins.contains id = false ↔ id ∉ quarantined := by
  rw [← Bool.not_eq_true, R.known]

theorem hidesExactly (R : r.Registered quarantined) : HidesExactly r quarantined where
  query_hides capabilityId entry hentry := by
    obtain ⟨hentry, hstate⟩ := query_eq_some.mp hentry
    exact R.visible hentry hstate
  entries_hide visit entry hentry := by
    obtain ⟨⟨capabilityId, hentry⟩, hstate⟩ := mem_capabilityEntries.mp hentry
    exact R.visible hentry hstate
  invoke_hides capabilityId d hd := by
    obtain ⟨entry, hentry, hd⟩ := query_of_native hd
    obtain ⟨hentry, hstate⟩ := query_eq_some.mp hentry
    exact R.visible hentry hstate d hd
  listing_hides select visit a ha := by
    obtain ⟨id, hfree, c, hc, hselect⟩ := mem_listing.mp ha
    rw [R.others id] at hc
    cases hplugin : r.plugins[id]? with
    | none =>
      rw [hplugin] at hc
      cases hc
    | some manifest =>
      rw [hplugin] at hc
      exact ⟨id, manifest, hplugin, R.free_iff.mp hfree, c, (mem_filter.mp hc).1, hselect⟩
  capability_shown id manifest hplugin hfree cm hcm := by
    obtain ⟨capabilityId, entry, hvariant, hentry, hcontract, himpl⟩ := R.provides id manifest hplugin cm hcm
    obtain ⟨howners, howned⟩ := R.entries capabilityId entry hentry
    have hstate : entry.installState ≠ .quarantined := fun h =>
      hfree ((howned id (howners _ himpl)).2.mp h)
    exact ⟨capabilityId, entry, hvariant, query_eq_some.mpr ⟨hentry, hstate⟩,
      fun visit => mem_capabilityEntries.mpr ⟨⟨capabilityId, hentry⟩, hstate⟩, hcontract, himpl⟩
  contribution_shown id manifest hplugin hfree c hc hother := by
    intro A select visit a ha
    refine mem_listing.mpr ⟨id, R.free_iff.mpr hfree, c, ?_, ha⟩
    rw [R.others id, hplugin]
    refine mem_filter.mpr ⟨hc, ?_⟩
    rcases c.capability_or_other with ⟨cm, rfl⟩ | hcap
    · exact absurd rfl (hother cm)
    · rw [hcap]
      rfl

end PluginRegistry.Registered

namespace Registered
variable {plugins : HashMap PluginId (PluginManifest K F)} {next : PluginId} {marked : HashMap PluginId Unit}

theorem register (hknown : ∀ id : PluginId, marked.contains id = true ↔ id ∈ quarantined)
    (hids : ∀ (id : PluginId) (manifest : PluginManifest K F), plugins[id]? = some manifest → id < next)
    (hinstalled : ∀ id ∈ quarantined, ∃ manifest, plugins[id]? = some manifest)
    (hentries : EntriesOk (fun id => ∃ manifest, plugins[id]? = some manifest) quarantined r.registry)
    (hprovides : ∀ (id : PluginId) (manifest : PluginManifest K F), id ≠ pluginId →
      plugins[id]? = some manifest → ∀ cm, .capability cm ∈ manifest.contributions → Provides r.registry id cm)
    (hothers : ∀ id : PluginId, r.contributions[id]?.getD [] = if pluginId = id then [] else
      ((plugins[id]?.map (·.contributions)).getD []).filter (!·.isCapability))
    (hplugin : plugins[pluginId]? = some manifest)
    (hjoins : ∀ cm ∈ manifest.capabilities, pluginId ∉ quarantined ∧ JoinsActive r.registry cm) :
    Registered plugins next marked (r.registerContributions pluginId manifest).registry
      (r.registerContributions pluginId manifest).contributions quarantined := by
  obtain ⟨hok, hkept, hnew⟩ := registerContributions_registry pluginId manifest r hentries
    fun cm hcm => ⟨⟨manifest, hplugin⟩, hjoins cm (PluginManifest.mem_capabilities.mpr hcm)⟩
  refine ⟨hknown, hids, hinstalled, hok, fun id manifest' hmanifest' cm hcm => ?_, fun id => ?_⟩
  · by_cases heq : id = pluginId
    · subst heq
      rw [hplugin, some.injEq] at hmanifest'
      subst hmanifest'
      exact hnew cm hcm
    · exact hkept id cm (hprovides id manifest' heq hmanifest' cm hcm)
  · rw [registerContributions_contributions, hothers]
    split
    · next heq =>
      rw [← heq, hplugin]
      rfl
    · rw [append_nil]

end Registered

namespace PluginRegistry.Registered

section
variable (R : r.Registered quarantined)
include R

theorem enroll (p : Process) (boundary : TrustBoundaryId)
    (tokens : List CapabilityToken) (sandboxTokens : HashMap PluginId CapabilityToken)
    (hnext : r.nextPluginId + 1 < 2 ^ 64) (hjoins : ∀ cm ∈ manifest.capabilities, JoinsActive r.registry cm) :
    (Host.enroll ⟨p, { r.counted with sandboxTokens := sandboxTokens }⟩ r.nextPluginId boundary
      manifest tokens).registry.Registered quarantined := by
  have hnew : r.plugins[r.nextPluginId]? = none := by
    refine eq_none_iff_forall_ne_some.mpr fun manifest h => ?_
    exact absurd (R.ids _ manifest h) (lt_irrefl _)
  have hfree : r.nextPluginId ∉ quarantined := fun h => by
    obtain ⟨manifest, hmanifest⟩ := R.installed _ h
    rw [hnew] at hmanifest
    cases hmanifest
  have hold : ∀ id : PluginId, id ≠ r.nextPluginId →
      (r.plugins.insert r.nextPluginId manifest)[id]? = r.plugins[id]? := fun id hne =>
    (get_insert ..).trans (if_neg hne.symm)
  have hkept : ∀ (id : PluginId) manifest', r.plugins[id]? = some manifest' →
      (r.plugins.insert r.nextPluginId manifest)[id]? = some manifest' := fun id manifest' h =>
    (hold id (R.ids id manifest' h).ne).trans h
  unfold PluginRegistry.Registered Host.enroll
  dsimp only
  have honly := registerContributions_only { r.counted with sandboxTokens := sandboxTokens }
    r.nextPluginId manifest
  rw [congrArg (·.plugins) honly, congrArg (·.nextPluginId) honly, congrArg (·.quarantinedPlugins) honly]
  refine Plugin.Registered.register R.known (fun id manifest' h => ?_) (fun id hid => ?_) ?_
    (fun id manifest' hne h => R.provides id manifest' ((hold id hne).symm.trans h)) (fun id => ?_)
    ((get_insert ..).trans (if_pos rfl)) fun cm hcm => ⟨hfree, hjoins cm hcm⟩
  · have hcounted : r.counted.nextPluginId = r.nextPluginId + 1 := Nat.mod_eq_of_lt hnext
    rw [hcounted]
    by_cases heq : id = r.nextPluginId
    · exact heq ▸ Nat.lt_succ_self _
    · exact (R.ids id manifest' ((hold id heq).symm.trans h)).trans (Nat.lt_succ_self _)
  · obtain ⟨manifest', h⟩ := R.installed id hid
    exact ⟨manifest', hkept id manifest' h⟩
  · exact R.entries.mono fun id ⟨manifest', h⟩ => ⟨manifest', hkept id manifest' h⟩
  · have hothers := R.others id
    split
    · next heq =>
      subst heq
      rw [hnew] at hothers
      exact hothers
    · next hne =>
      rw [← hold id (Ne.symm hne)] at hothers
      exact hothers

theorem counted (hnext : r.nextPluginId + 1 < 2 ^ 64) : r.counted.Registered quarantined := by
  have hcounted : r.counted.nextPluginId = r.nextPluginId + 1 := Nat.mod_eq_of_lt hnext
  refine ⟨R.known, fun id manifest h => ?_, R.installed, R.entries, R.provides, R.others⟩
  rw [hcounted]
  exact (R.ids id manifest h).trans (Nat.lt_succ_self _)

variable {old : PluginManifest K F}

theorem replace (p : Process) (sandboxTokens : HashMap PluginId CapabilityToken)
    (hplugin : r.plugins[pluginId]? = some old) (tokens : List CapabilityToken)
    (hjoins : ∀ cm ∈ manifest.capabilities, pluginId ∉ quarantined ∧ JoinsActive r.registry cm) :
    (Host.replace ⟨p, (r.removeRegistryAndContributions pluginId).registerContributions pluginId manifest⟩
      pluginId manifest tokens sandboxTokens).registry.Registered quarantined := by
  have hold : ∀ id : PluginId, id ≠ pluginId →
      (r.plugins.insert pluginId manifest)[id]? = r.plugins[id]? := fun id hne =>
    (get_insert ..).trans (if_neg hne.symm)
  have hsome : ∀ id : PluginId, (∃ m, r.plugins[id]? = some m) →
      ∃ m, (r.plugins.insert pluginId manifest)[id]? = some m := fun id ⟨m, h⟩ => by
    by_cases heq : id = pluginId
    · exact ⟨manifest, (get_insert ..).trans (if_pos heq.symm)⟩
    · exact ⟨m, (hold id heq).trans h⟩
  have honly := registerContributions_only (r.removeRegistryAndContributions pluginId) pluginId manifest
  unfold PluginRegistry.Registered Host.replace
  dsimp only
  rw [congrArg (·.plugins) honly, congrArg (·.nextPluginId) honly, congrArg (·.quarantinedPlugins) honly]
  refine Plugin.Registered.register R.known (fun id manifest' h => ?_) (fun id hid => hsome id (R.installed id hid))
    ?_ (fun id manifest' hne h cm hcm => ?_) (fun id => ?_)
    ((get_insert ..).trans (if_pos rfl)) fun cm hcm =>
      ⟨(hjoins cm hcm).1, joinsActive_removed pluginId (hjoins cm hcm).2⟩
  · by_cases heq : id = pluginId
    · exact heq ▸ R.ids pluginId old hplugin
    · exact R.ids id manifest' ((hold id heq).symm.trans h)
  · exact (entriesOk_removed pluginId R.entries).mono fun id h => hsome id h.1
  · exact provides_removed hne (R.provides id manifest' ((hold id hne).symm.trans h) cm hcm)
  · rw [removeRegistryAndContributions, get_erase]
    split
    · rfl
    · next hne =>
      have hothers := R.others id
      rw [← hold id (Ne.symm hne)] at hothers
      exact hothers

theorem uninstall (pluginId : PluginId) :
    Plugin.Registered (r.plugins.erase pluginId) r.nextPluginId (r.quarantinedPlugins.erase pluginId)
      (r.removeRegistryAndContributions pluginId).registry (r.contributions.erase pluginId)
      (quarantined.filter (· ≠ pluginId)) := by
  have hold : ∀ id : PluginId, id ≠ pluginId → (r.plugins.erase pluginId)[id]? = r.plugins[id]? :=
    fun id hne => (get_erase ..).trans (if_neg hne.symm)
  have hne : ∀ (id : PluginId) manifest', (r.plugins.erase pluginId)[id]? = some manifest' →
      id ≠ pluginId := by
    rintro id manifest' h rfl
    rw [get_erase, if_pos rfl] at h
    cases h
  refine ⟨fun id => ?_, fun id m h => R.ids id m ?_, fun id hid => ?_, ?_, fun id m h cm hcm => ?_,
    fun id => ?_⟩
  · rw [contains_eq_isSome_getElem?, get_erase, mem_filter, ← R.known,
      contains_eq_isSome_getElem?]
    split
    · next heq => exact iff_of_false (by simp) fun h => of_decide_eq_true h.2 heq.symm
    · next hneq => exact (and_iff_left (decide_eq_true (Ne.symm hneq))).symm
  · exact (hold id (hne id m h)).symm.trans h
  · obtain ⟨hid, hneq⟩ := mem_filter.mp hid
    obtain ⟨m, hm⟩ := R.installed id hid
    exact ⟨m, (hold id (of_decide_eq_true hneq)).trans hm⟩
  · intro capabilityId entry hentry
    obtain ⟨howners, howned⟩ := entriesOk_removed pluginId R.entries capabilityId entry hentry
    refine ⟨howners, fun id hid => ?_⟩
    obtain ⟨⟨⟨m, hm⟩, hneq⟩, hstate⟩ := howned id hid
    refine ⟨⟨m, (hold id hneq).trans hm⟩, hstate.trans ?_⟩
    rw [mem_filter]
    exact (and_iff_left (decide_eq_true hneq)).symm
  · exact provides_removed (hne id m h) (R.provides id m ((hold id (hne id m h)).symm.trans h) cm hcm)
  · have hothers := R.others id
    rw [get_erase, get_erase]
    split
    · rfl
    · exact hothers

theorem quarantine (hplugin : r.plugins[pluginId]? = some old)
    (hapart : ∀ (capabilityId : CapabilityId) (entry : RegistryEntry F),
      r.registry[capabilityId]? = some entry → pluginId ∈ entry.owningPlugins →
        ∀ id ∈ entry.owningPlugins, id = pluginId ∨ id ∈ quarantined) :
    Plugin.Registered r.plugins r.nextPluginId (r.quarantinedPlugins.insert pluginId ())
      (r.registry.map fun _ entry => Host.hide pluginId entry) r.contributions (pluginId :: quarantined) where
  known id := by
    rw [contains_eq_isSome_getElem?, get_insert, mem_cons, ← R.known,
      contains_eq_isSome_getElem?]
    split
    · next heq => exact iff_of_true rfl (.inl heq.symm)
    · next hne => exact (or_iff_right (Ne.symm hne)).symm
  ids := R.ids
  installed id hid := by
    rcases mem_cons.mp hid with rfl | hid
    · exact ⟨old, hplugin⟩
    · exact R.installed id hid
  entries := entriesOk_hidden R.entries hapart
  provides id m h cm hcm := provides_hidden pluginId (R.provides id m h cm hcm)
  others := R.others

end

end PluginRegistry.Registered

end

/-! ## Runs -/

/-- A capability is registered under an entry that is not quarantined; a quarantined plugin is not updated
to one with capabilities; a plugin is quarantined only if those that share a capability with it are; and
an update is given the sandbox token that it needs. -/
def Apart (w : Patrol K F) : PluginCall K F → Prop
  | .install call => w.host.registry.nextPluginId + 1 < 2 ^ 64 ∧
    ∀ cm ∈ call.manifest.capabilities, JoinsActive w.host.registry.registry cm
  | .update call => call.AffordsSandbox w.host ∧ ∀ cm ∈ call.newManifest.capabilities,
    call.pluginId ∉ w.quarantined ∧ JoinsActive w.host.registry.registry cm
  | .uninstall _ _ _ => True
  | .quarantine pluginId => ∀ e ∈ w.host.registry.registry.toList, pluginId ∈ e.2.owningPlugins →
    ∀ id ∈ e.2.owningPlugins, id = pluginId ∨ id ∈ w.quarantined

instance (registry : HashMap CapabilityId (RegistryEntry F)) (cm : CapabilityManifest F) :
    Decidable (JoinsActive registry cm) :=
  inferInstanceAs (Decidable (∀ entry ∈ _, _ → _))

instance (call : UpdateCall K F) (host : Host K F) : Decidable (call.AffordsSandbox host) :=
  inferInstanceAs (Decidable (_ → _ → _))

instance decidableApart (w : Patrol K F) : ∀ call, Decidable (Apart w call)
  | .install _ => inferInstanceAs (Decidable (_ ∧ ∀ cm ∈ _, _))
  | .update _ => inferInstanceAs (Decidable (_ ∧ ∀ cm ∈ _, _ ∧ _))
  | .uninstall _ _ _ => .isTrue trivial
  | .quarantine _ => inferInstanceAs (Decidable (∀ e ∈ _, _ → ∀ id ∈ _, _))

namespace Patrol
variable {w : Patrol K F}

/-- What every state of a run has. -/
structure Sound (w : Patrol K F) : Prop where
  leaves : w.host.Leaves
  registered : w.host.registry.Registered w.quarantined

theorem registered_install (S : w.Sound) (call : InstallCall K F) (hapart : Apart w (.install call)) :
    (w.host.install call).2.1.registry.Registered w.quarantined := by
  obtain ⟨hnext, hjoins⟩ := hapart
  have hcases := install_cases w.host call
  generalize w.host.install call = out at hcases ⊢
  cases hcases with
  | refused => exact S.registered
  | faulted | sandboxFaulted => exact S.registered.counted hnext
  | sandboxed | enrolled => exact S.registered.enroll _ _ _ _ hnext hjoins

theorem registered_update (S : w.Sound) (call : UpdateCall K F) (hapart : Apart w (.update call)) :
    (w.host.update call).2.1.registry.Registered w.quarantined := by
  obtain ⟨hsandbox, hjoins⟩ := hapart
  have hcases := update_cases w.host call
  generalize w.host.update call = out at hcases ⊢
  cases hcases with
  | refused | faulted => exact S.registered
  | sandboxFaulted hcarried hnone hneeds habsent hfault =>
    obtain ⟨t, p', hok⟩ := S.leaves.exists_sandbox hcarried (hsandbox hneeds habsent)
    rw [hok] at hfault
    cases hfault
  | replaced grants sandboxTokens hcarried | sandboxed grants hcarried =>
    exact S.registered.replace _ _ hcarried.plugin _ hjoins

theorem registered_uninstall (S : w.Sound) (now : Instant) (admin : CapabilityToken) (pluginId : PluginId) :
    (w.host.uninstall now admin pluginId).2.registry.Registered
      (quarantinedAfter w (.uninstall now admin pluginId)) := by
  rw [quarantinedAfter, Host.uninstall]
  split
  · exact S.registered
  · split
    · exact S.registered
    · exact S.registered.uninstall pluginId

theorem registered_quarantine (S : w.Sound) (pluginId : PluginId) (hapart : Apart w (.quarantine pluginId)) :
    (w.host.quarantine pluginId).2.registry.Registered (quarantinedAfter w (.quarantine pluginId)) := by
  rw [quarantinedAfter, Host.quarantine]
  split
  · exact S.registered
  · next hplugin =>
    refine S.registered.quarantine hplugin fun capabilityId entry hentry => ?_
    exact hapart (capabilityId, entry) (mem_toList_iff_getElem?_eq_some.mpr hentry)

theorem Sound.exec (S : w.Sound) (call : PluginCall K F) (hapart : Apart w call) : (w.exec call).Sound := by
  refine ⟨S.leaves.exec call, ?_⟩
  cases call with
  | install call => exact registered_install S call hapart
  | update call => exact registered_update S call hapart
  | uninstall now admin pluginId => exact registered_uninstall S now admin pluginId
  | quarantine pluginId => exact registered_quarantine S pluginId hapart

def start (p : Process) : Patrol K F := ⟨⟨p, .new⟩, []⟩

theorem sound_start {p : Process} (W : p.monitor.graph.WellFormed p.next) :
    (start p : Patrol K F).Sound where
  leaves := ⟨W, by simp [start, Holds, new]⟩
  registered := by
    refine ⟨?_, ?_, ?_, ?_, ?_, ?_⟩ <;> simp [start, new, EntriesOk]

end Patrol

/-- **Quarantine hides exactly one plugin**, in every state of a run of calls that keep quarantined and
visible plugins apart. -/
theorem quarantine_hides_exactly {evs : List Event} {p : Process} (hreached : Reached evs p)
    (calls : List (PluginCall K F)) (hapart : Meets Patrol.exec Apart (Patrol.start p) calls) :
    HidesExactly (run Patrol.exec (Patrol.start p) calls).host.registry
      (run Patrol.exec (Patrol.start p) calls).quarantined := by
  have hinv : (run Patrol.exec (Patrol.start p) calls).Sound :=
    hapart.invariant (fun _ call S h => S.exec call h) (Patrol.sound_start hreached.sound.wf)
  exact hinv.registered.hidesExactly

end

/-! ## Samples -/

def sampleCapability (capabilityId : CapabilityId) : Contribution ℚ :=
  .capability ⟨capabilityId, ⟨[], [], []⟩, .localSmallModel, 1, 1, none, .local_, none⟩

def installCapability (capabilityId : CapabilityId) : PluginCall .tagged ℚ :=
  sampleInstall (adminRoot .all).1 (samplePlugin [] [sampleCapability capabilityId])

/-- One of two plugins with capabilities of their own is quarantined, and updated to an agent. -/
def apartPlugins : List (PluginCall .tagged ℚ) :=
  [installCapability "sum", installCapability "mail", .quarantine 1,
    sampleUpdate (adminRoot .all).1 (samplePlugin [] [.agent ⟨"writer", [], []⟩])]

theorem quarantine_hides_exactly_apart :
    (run Patrol.exec (.start (adminProcess .all)) apartPlugins).quarantined = [1] ∧
      HidesExactly (run Patrol.exec (.start (adminProcess .all)) apartPlugins).host.registry
        (run Patrol.exec (.start (adminProcess .all)) apartPlugins).quarantined :=
  ⟨by decide +kernel,
    quarantine_hides_exactly (reached_adminProcess .all) apartPlugins (by decide +kernel)⟩

/-- One of two plugins that share a capability is quarantined. -/
def sharedCapability : List (PluginCall .tagged ℚ) :=
  [installCapability "sum", installCapability "sum", .quarantine 1]

/-- One of two plugins that share a capability is quarantined and uninstalled. -/
def leftBehind : List (PluginCall .tagged ℚ) :=
  sharedCapability ++ [.uninstall 0 (adminRoot .all).1 1]

/-- A quarantined plugin is updated to the manifest that it has. -/
def updatedPlugin : List (PluginCall .tagged ℚ) :=
  [installCapability "sum", .quarantine 1,
    sampleUpdate (adminRoot .all).1 (samplePlugin [] [sampleCapability "sum"])]

variable {r : PluginRegistry .tagged ℚ} {quarantined : List PluginId}

theorem not_hidesExactly_of_nothing
    (h : ∃ e ∈ r.plugins.toList, e.1 ∉ quarantined ∧ e.2.capabilities.length ≠ 0)
    (hnone : (r.capabilityEntries .inOrder).length = 0) : ¬ HidesExactly r quarantined := by
  intro hhides
  obtain ⟨⟨id, manifest⟩, he, hfree, hsome⟩ := h
  obtain ⟨cm, hcm⟩ := exists_mem_of_length_pos (Nat.pos_of_ne_zero hsome)
  obtain ⟨_, entry, -, -, hlisted, -⟩ := hhides.capability_shown id manifest
    (mem_toList_iff_getElem?_eq_some.mp he) hfree cm (PluginManifest.mem_capabilities.mp hcm)
  have hmem := hlisted .inOrder
  rw [length_eq_zero_iff.mp hnone] at hmem
  cases hmem

theorem not_hidesExactly_of_listed
    (h : ∃ entry ∈ r.capabilityEntries .inOrder, ∃ d ∈ entry.implementations, d.pluginId ∈ quarantined) :
    ¬ HidesExactly r quarantined := by
  intro hhides
  obtain ⟨entry, hentry, d, hd, hin⟩ := h
  exact hhides.entries_hide .inOrder entry hentry d hd hin

/-- **Quarantine hides other plugins, and stops hiding**: those that share a capability with the quarantined
plugin are hidden, also after it was uninstalled, and it is visible again once it has been updated. -/
theorem quarantine_hides_others :
    ¬ HidesExactly (run Patrol.exec (.start (adminProcess .all)) sharedCapability).host.registry
        (run Patrol.exec (.start (adminProcess .all)) sharedCapability).quarantined ∧
      ¬ HidesExactly (run Patrol.exec (.start (adminProcess .all)) leftBehind).host.registry
        (run Patrol.exec (.start (adminProcess .all)) leftBehind).quarantined ∧
      ¬ HidesExactly (run Patrol.exec (.start (adminProcess .all)) updatedPlugin).host.registry
        (run Patrol.exec (.start (adminProcess .all)) updatedPlugin).quarantined :=
  ⟨not_hidesExactly_of_nothing (by decide +kernel) (by decide +kernel),
    not_hidesExactly_of_nothing (by decide +kernel) (by decide +kernel),
    not_hidesExactly_of_listed (by decide +kernel)⟩

end Hyperion.Plugin
