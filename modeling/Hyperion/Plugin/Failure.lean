import Hyperion.Plugin.Rights

/-!
# Calls that fail

What an `install` or an `update` that fails leaves behind. Both mint tokens one after the other, so a call
that is refused a token after it was given others leaves those others live; and `update` asks for a
sandbox token only after it has replaced the contributions and revoked the tokens that it drops.
-/

namespace Hyperion.Plugin
open Lib Capability CapabilityMonitor List Host

/-! ## Failures -/

/-- The first cost is refused, or none is. -/
def AllOrNothing (admin : CapabilityToken) (costs : List (RightsMask × Instant)) : Prop :=
  (∃ cost ∈ costs.head?, affords admin cost = false) ∨ ∀ cost ∈ costs, affords admin cost = true

section
variable {K : SignatureScheme} {F : Type} {host : Host K F} {tokens : List CapabilityToken}

/-- Nothing but the counters has changed, and no token that was minted is live. -/
structure NoTrace (host host' : Host K F) (minted : List Minted) : Prop where
  registry : host'.registry = { host.registry with
    nextPluginId := host'.registry.nextPluginId
    nextBoundaryOrdinal := host'.registry.nextBoundaryOrdinal }
  live : ∀ now t, host'.process.monitor.isLive now t = host.process.monitor.isLive now t
  minted : ∀ m ∈ minted, ∀ now, host'.process.monitor.isLive now m.token = false

def InstallCall.costs (call : InstallCall K F) : List (RightsMask × Instant) :=
  Plugin.costs [] call.mintAt call.manifest.requestedPermissions ++
    if needsSandboxToken call.manifest then [(readWrite, call.sandboxAt)] else []

/-- The administrator is given the sandbox token, if the update needs one that the plugin does not have. -/
def UpdateCall.AffordsSandbox (call : UpdateCall K F) (host : Host K F) : Prop :=
  needsSandboxToken call.newManifest = true → host.registry.sandboxTokens.contains call.pluginId = false →
    affords call.admin (readWrite, call.sandboxAt) = true

/-- The update has nothing to change in front of the sandbox token, as when it has failed there before: it
asks for no token, the contributions are those of the new manifest already, and taking back the tokens that
it drops ends none. -/
structure UpdateCall.Idle (call : UpdateCall K F) (host : Host K F) (old : PluginManifest K F) : Prop where
  costs : call.costs host old = []
  contributions : (host.registry.removeRegistryAndContributions call.pluginId).registerContributions
    call.pluginId call.newManifest = host.registry
  dropped : ∀ now t, (revokeAll host.process (droppedTokens (heldTokens host call.pluginId old)
    call.newManifest.requestedPermissions)).monitor.isLive now t = host.process.monitor.isLive now t

/-- The update fails without a trace, if it fails: the first permission token that it asks for is refused,
or none is; and if none is, it is given the sandbox token that it needs, or has nothing to change. -/
structure UpdateCall.Clean (call : UpdateCall K F) (host : Host K F) (old : PluginManifest K F) : Prop where
  allOrNothing : AllOrNothing call.admin (call.costs host old)
  sandbox : (∀ cost ∈ call.costs host old, affords call.admin cost = true) →
    call.AffordsSandbox host ∨ call.Idle host old

variable {admin : CapabilityToken}

theorem NoTrace.eq_nil {host' : Host K F} {id : PluginId} {now : Instant}
    (h : NoTrace host host' (tokens.map (⟨id, false, ·⟩)))
    (hlive : ∀ t ∈ tokens, host'.process.monitor.isLive now t = true) : tokens = [] := by
  refine eq_nil_iff_forall_not_mem.mpr fun t ht => ?_
  have hdead := h.minted _ (mem_map_of_mem ht) now
  rw [hlive t ht] at hdead
  cases hdead

theorem noTrace_iff (id : PluginId) (r : PluginRegistry K F)
    {boundary : TrustBoundaryId} {now : Nat → Instant}
    {held : List (CapabilityGrantRequest × CapabilityToken)} {requireAt : Instant}
    {grants : List CapabilityGrantRequest} {carried : CarryOver}
    (W : host.process.monitor.graph.WellFormed host.process.next)
    (hcheck : host.check requireAt admin .grant = .ok ())
    (hcarried : carryOver admin boundary held now grants host.process = carried)
    (hr : r = { host.registry with
      nextPluginId := r.nextPluginId
      nextBoundaryOrdinal := r.nextBoundaryOrdinal }) :
    NoTrace host ⟨carried.process, r⟩ (carried.minted.map (⟨id, false, ·⟩)) ↔ carried.minted = [] := by
  obtain ⟨hlive, hgrant⟩ := check_eq_ok hcheck
  subst hcarried
  constructor
  · exact fun h => h.eq_nil fun t => live_of_minted hgrant W hlive
  · intro hnil
    rw [process_of_minted_nil hnil, hnil]
    exact ⟨hr, fun _ _ => rfl, by simp⟩

theorem allOrNothing_append {permissions sandbox : List (RightsMask × Instant)}
    (hsandbox : sandbox.length ≤ 1) (hrefused : ∃ cost ∈ permissions ++ sandbox, affords admin cost = false) :
    AllOrNothing admin (permissions ++ sandbox) ↔
      ∀ cost ∈ permissions.head?, affords admin cost = false := by
  have hnot : ¬ ∀ cost ∈ permissions ++ sandbox, affords admin cost = true := by
    intro hall
    obtain ⟨cost, hcost, hfalse⟩ := hrefused
    rw [hall cost hcost] at hfalse
    cases hfalse
  rw [AllOrNothing, or_iff_left hnot]
  cases permissions with
  | nil =>
    refine iff_of_true ?_ (by simp)
    obtain ⟨cost, hcost, hfalse⟩ := hrefused
    rw [nil_append] at hcost ⊢
    obtain ⟨only, rfl⟩ := length_eq_one_iff.mp (le_antisymm hsandbox (length_pos_of_mem hcost))
    exact ⟨cost, by rw [mem_singleton.mp hcost]; rfl, hfalse⟩
  | cons first rest => simp

section
variable (W : host.process.monitor.graph.WellFormed host.process.next)
include W

section
variable {call : InstallCall K F} {fault : Option Fault} {p : Process} (hmint : call.Mints host tokens fault p)
include hmint

theorem noTrace_refused_iff (hrefused : ∃ cost ∈ call.costs, affords call.admin cost = false) :
    NoTrace host ⟨p, host.registry.counted⟩ (tokens.map (⟨host.registry.nextPluginId, false, ·⟩)) ↔
      AllOrNothing call.admin call.costs := by
  obtain ⟨hlive, hgrant⟩ := check_eq_ok hmint.check
  have hlength : (if needsSandboxToken call.manifest then [(readWrite, call.sandboxAt)] else []).length ≤ 1 := by
    split <;> simp
  have hcarried := (mintAll_eq_carryOver _).1.symm.trans hmint.mints
  rw [Prod.mk.injEq, Prod.mk.injEq] at hcarried
  obtain ⟨rfl, -, rfl⟩ := hcarried
  rw [noTrace_iff _ _ W hmint.check rfl rfl, minted_eq_nil_iff hlive]
  exact (allOrNothing_append hlength hrefused).symm

theorem fault_eq_none_iff_affords : fault = none ↔
    ∀ cost ∈ costs [] call.mintAt call.manifest.requestedPermissions, affords call.admin cost = true := by
  obtain ⟨hlive, hgrant⟩ := check_eq_ok hmint.check
  have hcarried := (mintAll_eq_carryOver _).1.symm.trans hmint.mints
  rw [Prod.mk.injEq, Prod.mk.injEq] at hcarried
  rw [← hcarried.2.1, fault_eq_none_iff hgrant W hlive]

theorem not_affords_sandbox {fault : Fault}
    (hrefused : mint p call.sandboxAt call.admin readWrite host.registry.nextBoundary = .error fault) :
    affords call.admin (readWrite, call.sandboxAt) = false := by
  obtain ⟨hlive, -⟩ := check_eq_ok hmint.check
  have hgrown := hmint.grown W
  exact not_affords_of_mint ((hgrown.live _ call.requireAt (isLive_lt_next W hlive)).trans hlive) hrefused

end

theorem install_eq_ok_iff (call : InstallCall K F) : (∃ handle, (host.install call).1 = .ok handle) ↔
      call.Proceeds host ∧ ∀ cost ∈ call.costs, affords call.admin cost = true := by
  have hcases := install_cases host call
  generalize host.install call = out at hcases ⊢
  cases hcases with
  | refused err hnot => exact iff_of_false (by simp) fun h => hnot h.1
  | faulted hmint =>
    refine iff_of_false (by simp) fun h => ?_
    have hnone := (fault_eq_none_iff_affords W hmint).mpr fun cost hcost =>
      h.2 cost (mem_append_left _ hcost)
    cases hnone
  | sandboxFaulted hmint hneeds hrefused =>
    refine iff_of_false (by simp) fun h => ?_
    have hafford := h.2 (readWrite, call.sandboxAt)
      (mem_append_right _ (by rw [if_pos hneeds]; exact mem_singleton_self _))
    rw [not_affords_sandbox W hmint hrefused] at hafford
    cases hafford
  | sandboxed hmint hneeds hsandbox =>
    refine iff_of_true ⟨_, rfl⟩ ⟨hmint.toProceeds, fun cost hcost => ?_⟩
    rw [InstallCall.costs, if_pos hneeds, mem_append, mem_singleton] at hcost
    rcases hcost with hcost | rfl
    · exact (fault_eq_none_iff_affords W hmint).mp rfl cost hcost
    · exact affords_of_mint hsandbox
  | enrolled hmint hneeds =>
    refine iff_of_true ⟨_, rfl⟩ ⟨hmint.toProceeds, fun cost hcost => ?_⟩
    rw [InstallCall.costs, hneeds, if_neg (by simp), append_nil] at hcost
    exact (fault_eq_none_iff_affords W hmint).mp rfl cost hcost

theorem noTrace_install_iff (call : InstallCall K F) : (∀ err, (host.install call).1 = .error err →
        NoTrace host (host.install call).2.1 (host.install call).2.2) ↔
      (call.Proceeds host → AllOrNothing call.admin call.costs) := by
  have hcases := install_cases host call
  have hthrough := install_eq_ok_iff W call
  generalize host.install call = out at hcases hthrough ⊢
  cases hcases with
  | refused err hnot =>
    exact iff_of_true (fun _ _ => ⟨rfl, fun _ _ => rfl, by simp⟩) fun h => absurd h hnot
  | faulted hmint =>
    have hrefused := (fault_eq_none_iff_affords W hmint).not.mp (by simp)
    push Not at hrefused
    obtain ⟨cost, hcost, hfalse⟩ := hrefused
    rw [forall_prop_of_true hmint.toProceeds, ← noTrace_refused_iff W hmint
      ⟨cost, mem_append_left _ hcost, Bool.not_eq_true _ ▸ hfalse⟩]
    exact ⟨fun h => h _ rfl, fun h _ _ => h⟩
  | sandboxFaulted hmint hneeds hrefused =>
    have hfalse := not_affords_sandbox W hmint hrefused
    rw [forall_prop_of_true hmint.toProceeds, ← noTrace_refused_iff W hmint
      ⟨_, mem_append_right _ (by rw [if_pos hneeds]; exact mem_singleton_self _), hfalse⟩]
    exact ⟨fun h => h _ rfl, fun h _ _ => h⟩
  | sandboxed | enrolled => exact iff_of_true (by simp) fun _ => .inr (hthrough.mp ⟨_, rfl⟩).2

end

theorem forall_proceeds_iff {call : UpdateCall K F} {old : PluginManifest K F}
    (hproceeds : call.Proceeds host old)
    {P : PluginManifest K F → Prop} : (∀ old, call.Proceeds host old → P old) ↔ P old := by
  refine ⟨fun h => h old hproceeds, fun h old' hproceeds' => ?_⟩
  rwa [Option.some.inj (hproceeds'.plugin.symm.trans hproceeds.plugin)]

theorem update_eq_ok_iff (L : host.Leaves) (call : UpdateCall K F) :
    (∃ grants, (host.update call).1 = .ok grants) ↔ ∃ old, call.Proceeds host old ∧
      (∀ cost ∈ call.costs host old, affords call.admin cost = true) ∧ call.AffordsSandbox host := by
  have hcases := update_cases host call
  generalize host.update call = out at hcases ⊢
  cases hcases with
  | refused err hnot => exact iff_of_false (by simp) fun ⟨old, h, _⟩ => hnot old h
  | faulted hcarried hfault =>
    refine iff_of_false (by simp) ?_
    rintro ⟨old, hproceeds, hafford, -⟩
    cases Option.some.inj (hproceeds.plugin.symm.trans hcarried.plugin)
    rw [(hcarried.fault_eq_none_iff L.wf).mpr hafford] at hfault
    cases hfault
  | sandboxFaulted hcarried hnone hneeds habsent hfault =>
    refine iff_of_false (by simp) ?_
    rintro ⟨old, -, -, hsandbox⟩
    obtain ⟨t, p', hok⟩ := L.exists_sandbox hcarried (hsandbox hneeds habsent)
    rw [hok] at hfault
    cases hfault
  | replaced grants sandboxTokens hcarried hnone hneeds =>
    refine iff_of_true ⟨_, rfl⟩ ⟨_, hcarried.toProceeds, (hcarried.fault_eq_none_iff L.wf).mp hnone, ?_⟩
    intro hneeded habsent
    cases habsent.symm.trans (hneeds hneeded)
  | sandboxed grants hcarried hnone hmint =>
    exact iff_of_true ⟨_, rfl⟩ ⟨_, hcarried.toProceeds, (hcarried.fault_eq_none_iff L.wf).mp hnone, fun _ _ =>
      affords_of_mint hmint⟩

theorem noTrace_changed_iff (L : host.Leaves) {call : UpdateCall K F} {old : PluginManifest K F}
    {boundary : TrustBoundaryId} {carried : CarryOver} (hcarried : call.Carries host old boundary carried)
    (hafford : ∀ cost ∈ call.costs host old, affords call.admin cost = true) :
    NoTrace host (host.changed call old carried.process) (carried.minted.map (⟨call.pluginId, false, ·⟩)) ↔
      call.Idle host old := by
  obtain ⟨hlive, -⟩ := check_eq_ok hcarried.check
  constructor
  · intro h
    have hnil := h.eq_nil fun t => L.live_changed hcarried
    obtain ⟨-, rfl⟩ := hcarried
    have hprocess := process_of_minted_nil hnil
    have hregistry := h.registry
    have hlives := h.live
    rw [hprocess] at hregistry hlives
    refine ⟨?_, hregistry.trans ?_, hlives⟩
    · cases hcosts : call.costs host old with
      | nil => rfl
      | cons cost rest =>
        have hrefused := (minted_eq_nil_iff hlive).mp hnil cost (by rw [UpdateCall.costs] at hcosts; rw [hcosts]; rfl)
        rw [hafford cost (hcosts ▸ mem_cons_self)] at hrefused
        cases hrefused
    · rw [changed_only]
  · intro h
    have hnil : carried.minted = [] := by
      rw [← hcarried.carries, minted_eq_nil_iff hlive, show costs _ _ _ = [] from h.costs]
      simp
    obtain ⟨-, rfl⟩ := hcarried
    rw [process_of_minted_nil hnil, hnil]
    exact ⟨h.contributions.trans (by rw [changed_only]), h.dropped, by simp⟩

theorem noTrace_update_iff (L : host.Leaves) (call : UpdateCall K F) :
    (∀ err, (host.update call).1 = .error err →
        NoTrace host (host.update call).2.1 (host.update call).2.2) ↔
      ∀ old, call.Proceeds host old → call.Clean host old := by
  have hcases := update_cases host call
  have hthrough := update_eq_ok_iff L call
  generalize host.update call = out at hcases hthrough ⊢
  cases hcases with
  | refused err hnot =>
    exact iff_of_true (fun _ _ => ⟨rfl, fun _ _ => rfl, by simp⟩) fun old h => absurd h (hnot old)
  | faulted hcarried hfault =>
    obtain ⟨hlive, -⟩ := check_eq_ok hcarried.check
    have htrace := noTrace_iff call.pluginId host.registry L.wf hcarried.check hcarried.carries rfl
    have hrefused := (hcarried.fault_eq_none_iff L.wf).not.mp (by rw [hfault]; simp)
    have hclean (h : AllOrNothing call.admin (call.costs host _)) : call.Clean host _ :=
      ⟨h, fun hafford => absurd hafford hrefused⟩
    push Not at hrefused
    obtain ⟨cost, hcost, hfalse⟩ := hrefused
    have hiff : AllOrNothing call.admin (_ ++ []) ↔ _ := allOrNothing_append (by simp)
      ⟨cost, mem_append_left _ hcost, (Bool.not_eq_true _).mp hfalse⟩
    rw [append_nil, UpdateCall.costs, ← minted_eq_nil_iff hlive, hcarried.carries] at hiff
    rw [forall_proceeds_iff hcarried.toProceeds]
    exact ⟨fun h => hclean (hiff.mpr (htrace.mp (h _ rfl))), fun h _ _ => htrace.mpr (hiff.mp h.allOrNothing)⟩
  | sandboxFaulted hcarried hnone hneeds habsent hfault =>
    have hafford := (hcarried.fault_eq_none_iff L.wf).mp hnone
    have htrace := noTrace_changed_iff L hcarried hafford
    rw [forall_proceeds_iff hcarried.toProceeds]
    refine ⟨fun h => ⟨.inr hafford, fun _ => .inr (htrace.mp (h _ rfl))⟩, fun h _ _ => htrace.mpr ?_⟩
    obtain hsandbox | hidle := h.sandbox hafford
    · obtain ⟨t, p', hok⟩ := L.exists_sandbox hcarried (hsandbox hneeds habsent)
      rw [hok] at hfault
      cases hfault
    · exact hidle
  | replaced | sandboxed =>
    obtain ⟨old, hproceeds, hafford, hsandbox⟩ := hthrough.mp ⟨_, rfl⟩
    exact iff_of_true (by simp) ((forall_proceeds_iff hproceeds).mpr ⟨.inr hafford, fun _ => .inl hsandbox⟩)

/-- **No plugin ever holds a right to delegate**, and nothing is derived from what it holds, for a
permission or for its sandbox. -/
theorem plugins_hold_leaves {evs : List Event} {p : Process} (hreached : Reached evs p)
    (calls : List (PluginCall K F)) {host : Host K F} (hhost : host = run Host.exec ⟨p, .new⟩ calls)
    (t : CapabilityToken) (hholds : host.registry.Holds t) :
    t.rights.contains .grant = false ∧ ∃ k, LeafAt host.process.monitor.graph t k := by
  subst hhost
  exact (leaves_run hreached calls).leaf t hholds

/-- **When a failed install or update leaves no trace**, in every registry that is reached: exactly when
the first token that it asks for is refused, or none; and an update that is refused nothing but its sandbox
token, exactly when it had nothing to change. -/
theorem failed_calls_leave_no_trace {evs : List Event} {p : Process} (hreached : Reached evs p)
    (calls : List (PluginCall K F)) {host : Host K F} (hhost : host = run Host.exec ⟨p, .new⟩ calls) :
    (∀ call : InstallCall K F,
      (∀ err, (host.install call).1 = .error err →
        NoTrace host (host.install call).2.1 (host.install call).2.2) ↔
      (call.Proceeds host → AllOrNothing call.admin call.costs)) ∧
    ∀ call : UpdateCall K F,
      (∀ err, (host.update call).1 = .error err →
        NoTrace host (host.update call).2.1 (host.update call).2.2) ↔
      ∀ old, call.Proceeds host old → call.Clean host old := by
  subst hhost
  have L := leaves_run hreached calls
  exact ⟨noTrace_install_iff L.wf, noTrace_update_iff L⟩

end

/-! ## Samples -/

/-- A plugin with a native binary comes and goes, and one with two permissions is installed. The registry
keeps the sandbox token of the first. -/
def mixedHost : Host .tagged ℚ :=
  run Host.exec ⟨adminProcess .all, .new⟩ (sandboxedPlugin ++ tidyPlugin.take 1)

theorem plugins_hold_leaves_mixed :
    (∃ t ∈ mixedHost.registry.sandboxTokens[1]?, t.rights.contains .grant = false) ∧
      ∃ ts ∈ mixedHost.registry.tokens[2]?, ∀ t ∈ ts, t.rights.contains .grant = false := by
  have hleaf := plugins_hold_leaves (reached_adminProcess .all) _ (rfl : mixedHost = _)
  obtain ⟨t, ht⟩ := Option.isSome_iff_exists.mp
    (show mixedHost.registry.sandboxTokens[1]?.isSome by decide +kernel)
  obtain ⟨ts, hts⟩ := Option.isSome_iff_exists.mp (show mixedHost.registry.tokens[2]?.isSome by decide +kernel)
  exact ⟨⟨t, ht, (hleaf t (.inr ⟨1, ht⟩)).1⟩, ts, hts, fun t ht => (hleaf t (.inl ⟨2, ts, hts, ht⟩)).1⟩

def deniedInstall : InstallCall .tagged ℚ :=
  ⟨(adminRoot noExec).1, 0, .ok (), samplePlugin [runTools, readNotes] [], .d3, true, fun _ => .ok (),
    fun _ => 0, 0⟩

theorem failed_calls_leave_no_trace_denied :
    (Host.install ⟨adminProcess noExec, .new⟩ deniedInstall).1.toOption = none ∧
      NoTrace ⟨adminProcess noExec, .new⟩ (Host.install ⟨adminProcess noExec, .new⟩ deniedInstall).2.1
        (Host.install ⟨adminProcess noExec, .new⟩ deniedInstall).2.2 := by
  refine ⟨by decide +kernel, ?_⟩
  refine ((failed_calls_leave_no_trace (reached_adminProcess noExec) [] rfl).1 deniedInstall).mpr
    (fun _ => .inl ?_) (.capability .cannotEscalate) ?_
  · exact ⟨(.exec, 0), rfl, by decide⟩
  · decide +kernel

/-- The same permissions in the other order: the install is given the first and refused the second. -/
def halfInstall : InstallCall .tagged ℚ :=
  { deniedInstall with manifest := samplePlugin [readNotes, runTools] [] }

def noWrite : RightsMask := ⟨0b110001⟩

def readerHost : Host .tagged ℚ :=
  run Host.exec ⟨adminProcess noWrite, .new⟩ [sampleInstall (adminRoot noWrite).1 (samplePlugin [readNotes] [])]

/-- The reader is updated to a native binary without permissions, by an administrator that cannot give it a
sandbox. -/
def halfUpdate : UpdateCall .tagged ℚ :=
  ⟨(adminRoot noWrite).1, 0, 1, .ok (), samplePlugin [] [.capability
      ⟨"count", ⟨[], [], []⟩, .nativeBinary, 1, 1, some ⟨[], [], none⟩, .local_, none⟩], .d3, true,
    fun _ => .ok (), fun _ => 0, 0⟩

def readerToken : CapabilityToken :=
  { (adminRoot noExec).1 with
    tokenId := 2
    rights := .read
    origin := 1000001 }

theorem not_noTrace {host host' : Host .tagged ℚ} {minted : List Minted} {t : CapabilityToken}
    (h : host'.process.monitor.isLive 0 t ≠ host.process.monitor.isLive 0 t) : ¬ NoTrace host host' minted :=
  fun htrace => h (htrace.live 0 t)

/-- **A failed call leaves traces**: an install that was given one of two tokens leaves it live, and an
update that was refused a sandbox has revoked the token of the plugin. -/
theorem failed_calls_leave_traces :
    ((Host.install ⟨adminProcess noExec, .new⟩ halfInstall).1.toOption = none ∧
      ¬ NoTrace ⟨adminProcess noExec, .new⟩ (Host.install ⟨adminProcess noExec, .new⟩ halfInstall).2.1
        (Host.install ⟨adminProcess noExec, .new⟩ halfInstall).2.2) ∧
    (readerHost.update halfUpdate).1.toOption = none ∧
      ¬ NoTrace readerHost (readerHost.update halfUpdate).2.1 (readerHost.update halfUpdate).2.2 := by
  refine ⟨⟨by decide +kernel, not_noTrace (t := readerToken) (by decide +kernel)⟩,
    by decide +kernel, not_noTrace (t := readerToken) (by decide +kernel)⟩

end Hyperion.Plugin
