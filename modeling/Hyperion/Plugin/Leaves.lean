import Hyperion.Lib.Run
import Hyperion.Plugin.Tokens

/-!
# What plugins hold

A call asks for tokens one after the other, and is given what the token of the administrator covers while
that has not expired. In every registry that is reached, what it holds for a permission or for a sandbox is
a leaf: nothing is derived from it, and it does not carry `GRANT`.
-/

namespace Hyperion.Plugin
open Lib Capability CapabilityMonitor List Host

/-! ## What is to be minted -/

/-- What the loop over the permissions has to mint, with the readings of the clock. -/
def costs (held : List (CapabilityGrantRequest × CapabilityToken)) :
    (Nat → Instant) → List CapabilityGrantRequest → List (RightsMask × Instant)
  | _, [] => []
  | now, grant :: grants =>
    let rest := costs held (fun k => now (k + 1)) grants
    if (reusedToken held grant).isSome then rest else (rightsFor grant.operation, now 0) :: rest

/-- A live token of an administrator is given what it covers while it has not expired. -/
def affords (admin : CapabilityToken) (cost : RightsMask × Instant) : Bool :=
  admin.rights.contains cost.1 && !admin.isExpired cost.2

section
variable {p p' : Process} {admin t : CapabilityToken} {boundary : TrustBoundaryId} {start : Instant}
  {held : List (CapabilityGrantRequest × CapabilityToken)} {grants : List CapabilityGrantRequest}
  {now : Nat → Instant}

variable {cost : RightsMask × Instant}

theorem exists_mint_of_affords (boundary : TrustBoundaryId) (hlive : p.monitor.isLive start admin = true)
    (h : affords admin cost = true) :
    ∃ t p', mint p cost.2 admin cost.1 boundary = .ok (t, p') := by
  rw [affords, Bool.and_eq_true, Bool.not_eq_true'] at h
  exact exists_mint boundary (live_at_other_time hlive h.2) h.1

theorem not_affords_of_mint {fault : Fault} (hlive : p.monitor.isLive start admin = true)
    (h : mint p cost.2 admin cost.1 boundary = .error fault) :
    affords admin cost = false := by
  by_contra hafford
  obtain ⟨t, p', hok⟩ := exists_mint_of_affords boundary hlive (Bool.not_eq_false _ ▸ hafford)
  rw [hok] at h
  cases h

theorem affords_of_mint (h : mint p cost.2 admin cost.1 boundary = .ok (t, p')) :
    affords admin cost = true := by
  obtain ⟨hlive, -, -, -, -, m', -, hd⟩ := mint_eq_ok h
  obtain ⟨-, hcovers, -⟩ := (capDerive_eq_ok_iff ..).mp hd
  rw [affords, hcovers, ((isLive_iff ..).mp hlive).2]
  rfl

theorem fault_eq_none_iff (hgrant : admin.rights.contains .grant = true) (W : p.monitor.graph.WellFormed p.next)
    (hlive : p.monitor.isLive start admin = true) :
    (carryOver admin boundary held now grants p).fault = none ↔
      ∀ cost ∈ costs held now grants, affords admin cost = true := by
  induction grants generalizing now p with
  | nil => simp [carryOver, costs]
  | cons grant grants ih =>
    rw [carryOver, costs]
    split
    · next hreused =>
      rw [hreused]
      exact ih W hlive
    · next hreused =>
      rw [hreused, Option.isSome_none, if_neg (by simp), forall_mem_cons]
      split
      · next fault hmint =>
        refine iff_of_false (by simp) fun h => ?_
        cases (not_affords_of_mint hlive hmint).symm.trans h.1
      · next t p₁ hmint =>
        have hfirst := mint_grown W hgrant (rightsFor_not_grant _) hmint
        have hlive₁ := (hfirst.live admin start (isLive_lt_next W hlive)).trans hlive
        rw [ih hfirst.wf hlive₁]
        exact (and_iff_right (affords_of_mint hmint)).symm

theorem mem_costs (h : cost ∈ costs held now grants) : ∃ g ∈ grants, reusedToken held g = none ∧
    cost.1 = rightsFor g.operation ∧ ∃ k < grants.length, cost.2 = now k := by
  induction grants generalizing now with
  | nil => cases h
  | cons grant grants ih =>
    rw [costs] at h
    have hcases : cost ∈ costs held (fun k => now (k + 1)) grants ∨
        reusedToken held grant = none ∧ cost = (rightsFor grant.operation, now 0) := by
      split at h
      · exact .inl h
      · next hnone =>
        exact (mem_cons.mp h).symm.imp_right fun heq => ⟨Option.not_isSome_iff_eq_none.mp hnone, heq⟩
    rcases hcases with hrest | ⟨hnone, rfl⟩
    · obtain ⟨g, hg, hnone, hrights, k, hk, hat⟩ := ih hrest
      exact ⟨g, mem_cons_of_mem _ hg, hnone, hrights, k + 1, Nat.succ_lt_succ hk, hat⟩
    · exact ⟨grant, mem_cons_self, hnone, rfl, 0, Nat.succ_pos _, rfl⟩

theorem minted_eq_nil_iff (hlive : p.monitor.isLive start admin = true) :
    (carryOver admin boundary held now grants p).minted = [] ↔
      ∀ cost ∈ (costs held now grants).head?, affords admin cost = false := by
  induction grants generalizing now p with
  | nil => simp [carryOver, costs]
  | cons grant grants ih =>
    rw [carryOver, costs]
    split
    · next hreused =>
      rw [hreused]
      exact ih hlive
    · next hreused =>
      rw [hreused, Option.isSome_none, if_neg (by simp)]
      split
      · next fault hmint =>
        refine iff_of_true rfl ?_
        rintro cost hcost
        cases hcost
        exact not_affords_of_mint hlive hmint
      · next t p₁ hmint =>
        refine iff_of_false (by simp) fun h => ?_
        have hrefused := h _ rfl
        rw [affords_of_mint hmint] at hrefused
        cases hrefused

theorem process_of_minted_nil (h : (carryOver admin boundary held now grants p).minted = []) :
    (carryOver admin boundary held now grants p).process = p := by
  induction grants generalizing now p with
  | nil => rfl
  | cons grant grants ih =>
    rw [carryOver] at h ⊢
    split at h
    · exact ih h
    · split at h
      · rfl
      · cases h

theorem expiry_of_minted (h : t ∈ (carryOver admin boundary held now grants p).minted) :
    t.expiry = admin.expiry := by
  induction grants generalizing now p with
  | nil => cases h
  | cons grant grants ih =>
    rw [carryOver] at h
    split at h
    · exact ih h
    · split at h
      · cases h
      · next hmint =>
        rcases mem_cons.mp h with rfl | h
        · exact (mint_eq_ok hmint).2.2.2.2.1
        · exact ih h

theorem live_of_minted (hgrant : admin.rights.contains .grant = true) (W : p.monitor.graph.WellFormed p.next)
    (hlive : p.monitor.isLive start admin = true)
    (h : t ∈ (carryOver admin boundary held now grants p).minted) :
    (carryOver admin boundary held now grants p).process.monitor.isLive start t = true := by
  have hgrown : Grown p (carryOver admin boundary held now grants p).process
      (carryOver admin boundary held now grants p).minted := carryOver_grown hgrant W
  refine ((hgrown.leaf t h).isLive_iff (hgrown.fresh t h).1 start).mpr ⟨rfl, ?_⟩
  have hexpired := ((isLive_iff ..).mp hlive).2
  rwa [CapabilityToken.isExpired, expiry_of_minted h]

end

/-! ## Calls -/

section
variable {K : SignatureScheme} {F : Type} {host : Host K F} {tokens : List CapabilityToken}

def UpdateCall.costs (call : UpdateCall K F) (host : Host K F) (old : PluginManifest K F) :
    List (RightsMask × Instant) :=
  Plugin.costs (heldTokens host call.pluginId old) call.mintAt call.newManifest.requestedPermissions

theorem Host.check_eq_ok {admin : CapabilityToken} {now : Instant} {rights : RightsMask}
    (h : host.check now admin rights = .ok ()) :
    host.process.monitor.isLive now admin = true ∧ admin.rights.contains rights = true := by
  unfold Host.check at h
  split at h
  · next hok => exact (checkRightsOkResult_eq_ok_iff ..).mp hok
  · cases h

section
variable (W : host.process.monitor.graph.WellFormed host.process.next)
include W

theorem InstallCall.Mints.grown {call : InstallCall K F} {fault : Option Fault} {p : Process}
    (h : call.Mints host tokens fault p) : Grown host.process p tokens := by
  have hgrown := mintAll_grown host.registry.nextBoundary (check_eq_ok h.check).2
    call.manifest.requestedPermissions call.mintAt W
  rwa [h.mints] at hgrown

variable {call : UpdateCall K F} {old : PluginManifest K F} {boundary : TrustBoundaryId} {carried : CarryOver}
  (h : call.Carries host old boundary carried)
include h

theorem UpdateCall.Carries.grown : Grown host.process carried.process carried.minted :=
  h.carries ▸ carryOver_grown (check_eq_ok h.check).2 W

theorem UpdateCall.Carries.fault_eq_none_iff :
    carried.fault = none ↔ ∀ cost ∈ call.costs host old, affords call.admin cost = true := by
  obtain ⟨hlive, hgrant⟩ := check_eq_ok h.check
  rw [← h.carries]
  exact Plugin.fault_eq_none_iff hgrant W hlive

end

/-! ## Every registry that is reached -/

/-- The tokens that are held are leaves and do not carry `GRANT`. -/
structure Leaves (p : Process) (held : CapabilityToken → Prop) : Prop where
  wf : p.monitor.graph.WellFormed p.next
  leaf : ∀ t, held t → t.rights.contains .grant = false ∧ ∃ k, LeafAt p.monitor.graph t k

namespace Leaves
variable {p p' : Process} {held held' : CapabilityToken → Prop} {ts new : List CapabilityToken}

theorem mono (L : Leaves p held) (hsub : ∀ t, held' t → held t) : Leaves p held' :=
  ⟨L.wf, fun t ht => L.leaf t (hsub t ht)⟩

theorem grow (L : Leaves p held) (hgrown : Grown p p' new) : Leaves p' fun t => held t ∨ t ∈ new where
  wf := hgrown.wf
  leaf t ht := by
    rcases ht with ht | ht
    · obtain ⟨hno, k, hk⟩ := L.leaf t ht
      exact ⟨hno, k, hgrown.keeps t k hk hno⟩
    · exact ⟨(hgrown.fresh t ht).2.1, 0, hgrown.leaf t ht⟩

theorem revokeAll (L : Leaves p held) (hts : ∀ t ∈ ts, held t) : Leaves (Plugin.revokeAll p ts) held := by
  obtain ⟨hwf, hkept, -⟩ := revokeAll_leaves ts L.wf fun t ht => (L.leaf t (hts t ht)).2
  refine ⟨hwf, fun t ht => ?_⟩
  obtain ⟨hno, hk⟩ := L.leaf t ht
  exact ⟨hno, hkept t hk⟩

end Leaves

/-- The registry holds the token, for a permission of a plugin or for its sandbox. -/
def PluginRegistry.Holds (r : PluginRegistry K F) (t : CapabilityToken) : Prop :=
  (∃ id : PluginId, ∃ ts ∈ r.tokens[id]?, t ∈ ts) ∨ ∃ id : PluginId, t ∈ r.sandboxTokens[id]?

theorem PluginRegistry.Holds.of_insert {r r' : PluginRegistry K F} {id : PluginId} {t : CapabilityToken}
    (h : r'.Holds t) (htokens : r'.tokens = r.tokens.insert id tokens) :
    r.Holds t ∨ t ∈ tokens ∨ ∃ id : PluginId, t ∈ r'.sandboxTokens[id]? := by
  obtain ⟨id', ts, hts, ht⟩ | hsandbox := h
  · rw [htokens, HashMap.get_insert] at hts
    split at hts
    · cases hts
      exact .inr (.inl ht)
    · exact .inl (.inl ⟨id', ts, hts, ht⟩)
  · exact .inr (.inr hsandbox)

theorem holds_of_held {id : PluginId} {old : PluginManifest K F} {o : CapabilityGrantRequest}
    {t : CapabilityToken} (hh : (o, t) ∈ heldTokens host id old) : host.registry.Holds t := by
  have hmem : t ∈ host.registry.tokens[id]?.getD [] := (of_mem_zip hh).2
  cases hts : host.registry.tokens[id]? with
  | none =>
    rw [hts] at hmem
    cases hmem
  | some ts =>
    rw [hts] at hmem
    exact .inl ⟨id, ts, hts, hmem⟩

def Host.Leaves (host : Host K F) : Prop := Plugin.Leaves host.process host.registry.Holds

namespace Host.Leaves

section
variable (L : host.Leaves)
include L

variable {p : Process} {new : List CapabilityToken}

theorem grow (hgrown : Grown host.process p new) {r : PluginRegistry K F}
    (hr : ∀ t, r.Holds t → host.registry.Holds t ∨ t ∈ new) : Host.Leaves ⟨p, r⟩ :=
  (Plugin.Leaves.grow L hgrown).mono hr

theorem enroll (hgrown : Grown host.process p new) (htokens : ∀ t ∈ tokens, t ∈ new) (r : PluginRegistry K F)
    (hr : r.tokens = host.registry.tokens)
    (hsandbox : ∀ (id : PluginId) t, r.sandboxTokens[id]? = some t →
      host.registry.sandboxTokens[id]? = some t ∨ t ∈ new)
    (id : PluginId) (boundary : TrustBoundaryId) (manifest : PluginManifest K F) :
    (Host.enroll ⟨p, r⟩ id boundary manifest tokens).Leaves := by
  unfold Host.enroll
  rw [PluginRegistry.registerContributions_only]
  refine L.grow hgrown fun t ht => ?_
  obtain hold | ht | ⟨id', ht⟩ := ht.of_insert (r := host.registry) (congrArg (·.insert id tokens) hr)
  · exact .inl hold
  · exact .inr (htokens t ht)
  · exact (hsandbox id' t ht).imp_left fun h => .inr ⟨id', h⟩

theorem install (call : InstallCall K F) : (host.install call).2.1.Leaves := by
  have hcases := install_cases host call
  generalize host.install call = out at hcases ⊢
  cases hcases with
  | refused => exact L
  | faulted hmint | sandboxFaulted hmint => exact L.grow (hmint.grown L.wf) fun _ h => .inl h
  | sandboxed hmint hneeds hsandbox =>
    have hgrown := hmint.grown L.wf
    have hlast := mint_grown hgrown.wf (check_eq_ok hmint.check).2 readWrite_not_grant hsandbox
    refine L.enroll (hgrown.trans hlast) (fun t ht => mem_append_left _ ht) _ ?_
      (HashMap.forall_insert (.inr ?_) fun _ _ h => .inl h) _ _ _
    · rfl
    · exact mem_append_right _ (mem_singleton_self _)
  | enrolled hmint =>
    refine L.enroll (hmint.grown L.wf) (fun t ht => ht) _ ?_ ?_ _ _ _
    · rfl
    · exact fun _ _ h => .inl h

theorem dropped (id : PluginId) (old : PluginManifest K F) (hgrown : Grown host.process p new)
    (grants : List CapabilityGrantRequest) :
    ∀ t ∈ droppedTokens (heldTokens host id old) grants,
      t.rights.contains .grant = false ∧ ∃ k, LeafAt p.monitor.graph t k := by
  intro t ht
  obtain ⟨o, ho, -⟩ := mem_droppedTokens.mp ht
  exact (Plugin.Leaves.grow L hgrown).leaf t (.inl (holds_of_held ho))

section
variable {call : UpdateCall K F} {old : PluginManifest K F} {boundary : TrustBoundaryId} {carried : CarryOver}
  (hcarried : call.Carries host old boundary carried)
include hcarried

theorem changed : Plugin.Leaves (host.changed call old carried.process).process
    fun t => host.registry.Holds t ∨ t ∈ carried.minted := by
  refine (Plugin.Leaves.grow L (hcarried.grown L.wf)).revokeAll fun t ht => ?_
  obtain ⟨o, ho, -⟩ := mem_droppedTokens.mp ht
  exact .inl (holds_of_held ho)

theorem replace (hnone : carried.fault = none) {p : Process} {new : List CapabilityToken}
    (hgrown : Grown (host.changed call old carried.process).process p new)
    {sandboxTokens : HashMap PluginId CapabilityToken}
    (hsandbox : ∀ (id : PluginId) t, sandboxTokens[id]? = some t →
      host.registry.sandboxTokens[id]? = some t ∨ t ∈ new) :
    (Host.replace ⟨p, (host.changed call old carried.process).registry⟩ call.pluginId call.newManifest
      carried.tokens sandboxTokens).Leaves := by
  refine ((L.changed hcarried).grow hgrown).mono fun t ht => ?_
  rw [Host.replace, changed_only] at ht
  obtain hold | ht | ⟨id, ht⟩ := ht.of_insert (r := host.registry) rfl
  · exact .inl (.inl hold)
  · obtain ⟨-, rfl⟩ := hcarried
    obtain hminted | ⟨g, -, hreused⟩ := (mem_carryOver_tokens hnone).mp ht
    · exact .inl (.inr hminted)
    · obtain ⟨o, ho, -⟩ := reusedToken_eq_some hreused
      exact .inl (.inl (holds_of_held ho))
  · exact (hsandbox id t ht).imp_left fun h => .inl (.inr ⟨id, h⟩)

theorem exists_sandbox (hafford : affords call.admin (readWrite, call.sandboxAt) = true) :
    ∃ t p', mint (host.changed call old carried.process).process call.sandboxAt call.admin readWrite boundary =
      .ok (t, p') := by
  obtain ⟨hlive, hgrant⟩ := check_eq_ok hcarried.check
  have hgrown := hcarried.grown L.wf
  have hlive' := (hgrown.live _ call.requireAt (isLive_lt_next L.wf hlive)).trans hlive
  have hdropped := L.dropped call.pluginId old hgrown call.newManifest.requestedPermissions
  have hlast := (isLive_revokeAll hgrown.wf hdropped hlive' hgrant call.requireAt).trans hlive'
  exact exists_mint_of_affords boundary hlast hafford

/-- A token that was minted stays live when those that the update drops are taken back. -/
theorem live_changed {t : CapabilityToken} (ht : t ∈ carried.minted) :
    (host.changed call old carried.process).process.monitor.isLive call.requireAt t = true := by
  obtain ⟨hlive, hgrant⟩ := check_eq_ok hcarried.check
  have hgrown := hcarried.grown L.wf
  obtain ⟨-, -, hsame⟩ := revokeAll_leaves _ hgrown.wf fun t ht => (L.dropped _ _ hgrown _ t ht).2
  refine (isLive_congr (hsame _ fun hin => ?_) _).trans ?_
  · obtain ⟨u, hu, heq⟩ := mem_map.mp hin
    obtain ⟨o, ho, -⟩ := mem_droppedTokens.mp hu
    obtain ⟨-, k, hk⟩ := L.leaf u (holds_of_held ho)
    exact absurd (hgrown.fresh t ht).2.2 (not_le.mpr (heq ▸ LeafAt.lt_next L.wf hk))
  · obtain ⟨-, rfl⟩ := hcarried
    exact live_of_minted hgrant L.wf hlive ht

end

theorem update (call : UpdateCall K F) : (host.update call).2.1.Leaves := by
  have hcases := update_cases host call
  generalize host.update call = out at hcases ⊢
  cases hcases with
  | refused => exact L
  | faulted hcarried => exact L.grow (hcarried.grown L.wf) fun _ h => .inl h
  | sandboxFaulted hcarried =>
    refine (L.changed hcarried).mono fun t ht => .inl ?_
    rw [changed_only] at ht
    exact ht
  | replaced grants sandboxTokens hcarried hnone hneeds hkept =>
    exact L.replace hcarried hnone (.refl (L.changed hcarried).wf) fun id t h => .inl (hkept id t h)
  | sandboxed grants hcarried hnone hmint =>
    have hlast := mint_grown (L.changed hcarried).wf (check_eq_ok hcarried.check).2 readWrite_not_grant hmint
    exact L.replace hcarried hnone hlast
      (HashMap.forall_insert (.inr (mem_singleton_self _)) fun _ _ h => .inl h)

theorem uninstall (now : Instant) (admin : CapabilityToken) (pluginId : PluginId) :
    (host.uninstall now admin pluginId).2.Leaves := by
  unfold Host.uninstall
  split
  · exact L
  · split
    · exact L
    · next ts hts =>
      refine (Plugin.Leaves.revokeAll L fun t ht => .inl ⟨pluginId, ts, hts, ht⟩).mono fun t ht => ?_
      refine ht.imp_left fun ⟨id, ts', hts', ht⟩ => ⟨id, ts', ?_, ht⟩
      exact (HashMap.of_get_erase hts').2

theorem quarantine (pluginId : PluginId) : (host.quarantine pluginId).2.Leaves := by
  unfold Host.quarantine
  split
  · exact L
  · exact L

theorem exec (call : PluginCall K F) : (call.exec host).1.Leaves := by
  cases call with
  | install call => exact L.install call
  | update call => exact L.update call
  | uninstall now admin pluginId => exact L.uninstall now admin pluginId
  | quarantine pluginId => exact L.quarantine pluginId

end

end Host.Leaves

def Host.exec (host : Host K F) (call : PluginCall K F) : Host K F := (call.exec host).1

theorem Host.leaves_new {p : Process} (W : p.monitor.graph.WellFormed p.next) :
    (⟨p, .new⟩ : Host K F).Leaves :=
  ⟨W, by simp [PluginRegistry.Holds, PluginRegistry.new]⟩

theorem leaves_run {evs : List Event} {p : Process} (hreached : Reached evs p) (calls : List (PluginCall K F)) :
    (run Host.exec (⟨p, .new⟩ : Host K F) calls).Leaves :=
  run_invariant (fun _ call L => L.exec call) (Host.leaves_new hreached.sound.wf)

end

end Hyperion.Plugin
