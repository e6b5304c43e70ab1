import Hyperion.Lib.Run
import Hyperion.Workspace.Compiler

/-!
# The template cache is invisible

Every cached template was built for an earlier call of its key, and calls of one shape are served alike.
-/

namespace Hyperion.Workspace
open Lib List Option Function Compiler

/-! ## Shapes -/

/-- What the layout of a panel keeps of its contract. -/
structure Slot (F : Type) where
  capabilityRef : String
  regionAffinity : RegionAffinity
  minSize : Nat × Nat
  priority : F
  interactive : Bool
deriving DecidableEq, Repr

section
variable {F : Type} {call : Call F} {calls : List (Call F)} {contracts : List (CapabilityUiContract F)}

def slot (tier : ComplexityTier) (contract : CapabilityUiContract F) : Slot F :=
  ⟨contract.capabilityRef, contract.regionAffinity, contract.resolveVariant tier, contract.priority,
    !contract.keyboardOperations.isEmpty⟩

/-- The slots of the contracts in order, if their layout passes the linter. -/
def Call.shape (fl : Floats F) (call : Call F) : Option (List (Slot F)) :=
  if (contractLayout fl call.contracts call.tier call.targetSizeMultiplier).lintResult.passed then
    some (call.contracts.map (slot call.tier))
  else none

variable {a c : Call F} {α β γ : Type}

theorem map_mapIdx (f : Nat → α → β) (g : β → γ) (l : List α) :
    (l.mapIdx f).map g = l.mapIdx fun i x => g (f i x) := by
  rw [List.mapIdx_eq_zipIdx_map, List.mapIdx_eq_zipIdx_map, List.map_map]
  rfl

theorem mapIdx_congr_of_map {f g : Nat → α → β} {s t : α → γ} {l l' : List α}
    (h : l.map s = l'.map t) (hfg : ∀ i < l'.length, ∀ x ∈ l, ∀ y ∈ l', s x = t y → f i x = g i y) :
    l.mapIdx f = l'.mapIdx g := by
  induction l generalizing l' f g with
  | nil =>
    rw [map_nil, eq_comm, map_eq_nil_iff] at h
    rw [h]
    rfl
  | cons x l ih =>
    cases l' with
    | nil => cases h
    | cons y l' =>
      rw [map_cons, map_cons, List.cons.injEq] at h
      rw [mapIdx_cons, mapIdx_cons, hfg 0 (Nat.succ_pos _) x mem_cons_self y
        mem_cons_self h.1]
      refine congrArg _ (ih h.2 fun i hi u hu v hv => ?_)
      exact hfg (i + 1) (Nat.succ_lt_succ hi) u (mem_cons_of_mem _ hu) v (mem_cons_of_mem _ hv)

/-! ## Panels -/

theorem refreshPanelNode_congr {panel : Panel F} {node : AccessibilityNode F}
    (hid : node.nodeId = panel.accessibilityNode.nodeId) (hfound : (contractOf contracts panel).isSome) :
    refreshPanelNode contracts { panel with accessibilityNode := node } = refreshPanelNode contracts panel := by
  have hsame : contractOf contracts { panel with accessibilityNode := node } = contractOf contracts panel := rfl
  obtain ⟨contract, hcontract⟩ := isSome_iff_exists.mp hfound
  simp only [refreshPanelNode, hsame, hcontract, hid]

theorem bindPanel_congr {entries : List (String × Nat)} {panel : Panel F} {node : AccessibilityNode F}
    (hid : node.nodeId = panel.accessibilityNode.nodeId) (hfound : (contractOf contracts panel).isSome) :
    bindPanel contracts entries { panel with accessibilityNode := node } = bindPanel contracts entries panel := by
  have hsame : contractOf contracts { panel with accessibilityNode := node } = contractOf contracts panel := rfl
  simp only [bindPanel, hsame]
  split
  · exact @refreshPanelNode_congr F contracts { panel with renderState := _ } node hid hfound
  · exact @refreshPanelNode_congr F contracts { panel with bindings := _, renderState := _ } node hid hfound

theorem newPanel_of_slot {tier tier' : ComplexityTier} {contract contract' : CapabilityUiContract F}
    (h : slot tier contract = slot tier' contract') (i : Nat) : newPanel tier i contract =
      { newPanel tier' i contract' with accessibilityNode := deriveNode (i + 1) (i + 1) contract false } := by
  simp only [slot, Slot.mk.injEq] at h
  obtain ⟨href, hregion, hsize, hpriority, -⟩ := h
  simp only [newPanel, href, hregion, hsize, hpriority]

theorem contractOf_newPanel {tier : ComplexityTier} {contract : CapabilityUiContract F}
    (h : contract ∈ contracts) (i : Nat) : (contractOf contracts (newPanel tier i contract)).isSome := by
  rw [contractOf, List.find?_isSome]
  exact ⟨contract, h, by simp [newPanel]⟩

theorem nodeId_refreshPanelNode (contracts : List (CapabilityUiContract F)) (panel : Panel F) :
    (refreshPanelNode contracts panel).accessibilityNode.nodeId = panel.accessibilityNode.nodeId := by
  unfold refreshPanelNode
  split
  · rfl
  · rfl

theorem mirrorNode_congr {panels : List (Panel F)} {node node' : AccessibilityNode F}
    (hid : node.nodeId = node'.nodeId)
    (hfound : ∃ panel ∈ panels, panel.accessibilityNode.nodeId = node.nodeId) :
    mirrorNode panels node = mirrorNode panels node' := by
  have hsome : (panels.find? fun panel => panel.accessibilityNode.nodeId == node.nodeId).isSome := by
    rw [List.find?_isSome]
    obtain ⟨panel, hmem, heq⟩ := hfound
    exact ⟨panel, hmem, beq_iff_eq.mpr heq⟩
  obtain ⟨panel, hpanel⟩ := isSome_iff_exists.mp hsome
  have hpanel' := hpanel
  rw [hid] at hpanel'
  rw [mirrorNode, mirrorNode, hpanel, hpanel']
  rfl

/-! ## Calls of one shape -/

variable {fl : Floats F}

theorem layout_of_shape_none (h : call.shape fl = none) :
    call.layout fl = fallbackLayout fl call.targetSizeMultiplier := by
  unfold Call.shape at h
  split at h
  · cases h
  · next hlint => rw [Call.layout, buildLayout, if_neg hlint]

theorem layout_of_shape_some {slots : List (Slot F)} (h : call.shape fl = some slots) :
    call.layout fl = contractLayout fl call.contracts call.tier call.targetSizeMultiplier ∧
      call.contracts.map (slot call.tier) = slots := by
  unfold Call.shape at h
  split at h
  · next hlint =>
    cases h
    exact ⟨by rw [Call.layout, buildLayout, if_pos hlint], rfl⟩
  · cases h

theorem panels_congr (h : a.shape fl = c.shape fl) {g : Panel F → Panel F}
    (hg : ∀ panel node, node.nodeId = panel.accessibilityNode.nodeId → (contractOf c.contracts panel).isSome →
      g { panel with accessibilityNode := node } = g panel) :
    (a.layout fl).panels.map g = (c.layout fl).panels.map g := by
  cases hshape : c.shape fl with
  | none =>
    rw [layout_of_shape_none hshape, layout_of_shape_none (h.trans hshape)]
    rfl
  | some slots =>
    obtain ⟨hlayout, hslots⟩ := layout_of_shape_some hshape
    obtain ⟨hlayout', hslots'⟩ := layout_of_shape_some (h.trans hshape)
    rw [hlayout, hlayout', contractLayout, contractLayout, map_mapIdx, map_mapIdx]
    refine mapIdx_congr_of_map (hslots'.trans hslots.symm) fun i _ x _ y hy hxy => ?_
    rw [newPanel_of_slot hxy i]
    exact hg _ _ rfl (contractOf_newPanel hy i)

theorem bindPanels_congr (h : a.shape fl = c.shape fl) :
    (a.layout fl).panels.map (bindPanel c.contracts c.entries) =
      (c.layout fl).panels.map (bindPanel c.contracts c.entries) :=
  panels_congr h fun _ _ => bindPanel_congr

theorem focusOrder_congr (h : a.shape fl = c.shape fl) :
    (a.layout fl).focusOrder = (c.layout fl).focusOrder := by
  cases hshape : c.shape fl with
  | none =>
    rw [layout_of_shape_none hshape, layout_of_shape_none (h.trans hshape)]
    rfl
  | some slots =>
    obtain ⟨hlayout, hslots⟩ := layout_of_shape_some hshape
    obtain ⟨hlayout', hslots'⟩ := layout_of_shape_some (h.trans hshape)
    have hfocus : ∀ call : Call F,
        (contractLayout fl call.contracts call.tier call.targetSizeMultiplier).focusOrder =
          ((call.contracts.mapIdx fun i contract =>
            (!contract.keyboardOperations.isEmpty, i + 1)).filter (·.1)).map (·.2) := by
      intro call
      simp only [contractLayout, List.mapIdx_eq_zipIdx_map, List.map_map, List.filter_map]
      rfl
    rw [hlayout, hlayout', hfocus, hfocus]
    refine congrArg _ (congrArg _ (mapIdx_congr_of_map (hslots'.trans hslots.symm) fun i _ x _ y _ hxy => ?_))
    simp only [slot, Slot.mk.injEq] at hxy
    rw [hxy.2.2.2.2]

theorem nodes_refresh_congr (h : a.shape fl = c.shape fl) :
    ((a.layout fl).refresh c.contracts).nodes = ((c.layout fl).refresh c.contracts).nodes := by
  have hpanels : (a.layout fl).panels.map (refreshPanelNode c.contracts) =
      (c.layout fl).panels.map (refreshPanelNode c.contracts) :=
    panels_congr h fun _ _ => refreshPanelNode_congr
  rw [Layout.refresh, Layout.refresh, hpanels]
  cases hshape : c.shape fl with
  | none =>
    rw [layout_of_shape_none hshape, layout_of_shape_none (h.trans hshape)]
    rfl
  | some slots =>
    obtain ⟨hlayout, hslots⟩ := layout_of_shape_some hshape
    obtain ⟨hlayout', hslots'⟩ := layout_of_shape_some (h.trans hshape)
    rw [hlayout, hlayout']
    simp only [contractLayout, map_mapIdx]
    refine mapIdx_congr_of_map (hslots'.trans hslots.symm) fun i hi x _ y _ _ => ?_
    refine mirrorNode_congr rfl ⟨_, mem_mapIdx.mpr ⟨i, hi, rfl⟩, ?_⟩
    rw [nodeId_refreshPanelNode]
    rfl

/-! ## Histories -/

variable (fl) (compiler : Compiler F)

def step (call : Call F) : Compiler F := (compiler.compile fl call).1

/-- The panels and the tree of a template, without ids and counters. -/
def CompiledLayoutTemplate.view (template : CompiledLayoutTemplate F) :
    List (Panel F) × List (AccessibilityNode F) × List Nat :=
  (template.layout.panels, template.layout.nodes, template.layout.focusOrder)

/-- What `get_template` returns for the arguments of a call. -/
def Compiler.served (call : Call F) : Option (List (Panel F) × List (AccessibilityNode F) × List Nat) :=
  (compiler.getTemplate call.intentPredicate call.contracts call.tier).map (·.view)

/-- The panels that `compile` returns. -/
def Compiler.panels (call : Call F) : Except WorkspaceError (List (Panel F)) :=
  (compiler.compile fl call).2.map (·.panels)

/-- Calls that share a key have one shape. -/
def Alike (calls : List (Call F)) : Prop :=
  ∀ a ∈ calls, ∀ c ∈ calls, a.allowed = true → c.allowed = true → a.key = c.key → a.shape fl = c.shape fl

/-- Every cached template was built for an earlier call of its key. -/
def CachedFrom (calls : List (Call F)) (compiler : Compiler F) : Prop :=
  ∀ key template, compiler.templateCache key = some template →
    ∃ a ∈ calls, a.allowed = true ∧ a.key = key ∧ template.layout = a.layout fl

variable {fl}

theorem template_cache (call : Call F) :
    (compiler.template fl call).1.templateCache call.key = some (compiler.template fl call).2 ∧
      ∀ key ≠ call.key, (compiler.template fl call).1.templateCache key = compiler.templateCache key := by
  unfold template
  split
  · next template htemplate => exact ⟨(filter_eq_some_iff.mp htemplate).1, fun _ _ => rfl⟩
  · exact ⟨update_self _ _ _, fun key hkey => update_of_ne hkey _ _⟩

theorem template_layout {compiler : Compiler F} (h : CachedFrom fl calls compiler)
    (hallowed : call.allowed = true) : ∃ a ∈ calls ++ [call], a.allowed = true ∧ a.key = call.key ∧
      (compiler.template fl call).2.layout = a.layout fl := by
  unfold template
  split
  · next template htemplate =>
    obtain ⟨a, ha, hrest⟩ := h _ _ (filter_eq_some_iff.mp htemplate).1
    exact ⟨a, mem_append_left _ ha, hrest⟩
  · exact ⟨call, mem_append_right _ mem_cons_self, hallowed, rfl, rfl⟩

theorem cachedFrom_step {compiler : Compiler F} (h : CachedFrom fl calls compiler)
    (call : Call F) : CachedFrom fl (calls ++ [call]) (step fl compiler call) := by
  have hold : ∀ key template, compiler.templateCache key = some template →
      ∃ a ∈ calls ++ [call], a.allowed = true ∧ a.key = key ∧ template.layout = a.layout fl := by
    intro key template htemplate
    obtain ⟨a, ha, hrest⟩ := h key template htemplate
    exact ⟨a, mem_append_left _ ha, hrest⟩
  intro key template htemplate
  cases hallowed : call.allowed with
  | false =>
    simp only [step, compile, hallowed, Bool.not_false, if_true] at htemplate
    exact hold key template htemplate
  | true =>
    simp only [step, compile, hallowed, Bool.not_true, Bool.false_eq_true, if_false] at htemplate
    obtain ⟨hself, hothers⟩ := @template_cache F fl compiler call
    by_cases hkey : key = call.key
    · rw [hkey, update_self, hself] at htemplate
      cases htemplate
      rw [hkey]
      exact template_layout h hallowed
    · rw [update_of_ne hkey, hothers key hkey] at htemplate
      exact hold key template htemplate

theorem cachedFrom_run (calls : List (Call F)) : CachedFrom fl calls (run (step fl) .new calls) := by
  induction calls using List.reverseRecOn with
  | nil => exact fun key template htemplate => by cases htemplate
  | append_singleton calls call ih =>
    rw [run_append]
    exact cachedFrom_step ih call

theorem isSome_step {compiler : Compiler F} {key : WorkspaceIntentKey} (call : Call F)
    (h : (compiler.templateCache key).isSome ∨ call.allowed = true ∧ call.key = key) :
    ((step fl compiler call).templateCache key).isSome := by
  cases hallowed : call.allowed with
  | false =>
    simp only [step, compile, hallowed, Bool.not_false, if_true]
    simpa [hallowed] using h
  | true =>
    simp only [step, compile, hallowed, Bool.not_true, Bool.false_eq_true, if_false]
    obtain ⟨hself, hothers⟩ := @template_cache F fl compiler call
    by_cases hkey : key = call.key
    · rw [hkey, update_self, hself]
      rfl
    · rw [update_of_ne hkey, hothers key hkey]
      exact h.resolve_right fun hcall => hkey hcall.2.symm

theorem isSome_run (hmem : call ∈ calls) (hallowed : call.allowed = true) :
    ((run (step fl) .new calls).templateCache call.key).isSome := by
  induction calls using List.reverseRecOn with
  | nil => cases hmem
  | append_singleton calls last ih =>
    rw [run_append]
    refine isSome_step last ?_
    rcases mem_append.mp hmem with hmem | hmem
    · exact .inl (ih hmem)
    · rw [mem_singleton] at hmem
      exact .inr ⟨hmem ▸ hallowed, hmem ▸ rfl⟩

theorem served_eq (halike : Alike fl (calls ++ [call])) (hallowed : call.allowed = true)
    (hsome : ((run (step fl) .new calls).templateCache call.key).isSome) :
    (run (step fl) .new calls).served call =
      some (((call.layout fl).refresh call.contracts).panels, ((call.layout fl).refresh call.contracts).nodes,
        (call.layout fl).focusOrder) := by
  obtain ⟨template, htemplate⟩ := isSome_iff_exists.mp hsome
  obtain ⟨a, ha, haallowed, hakey, hlayout⟩ := cachedFrom_run calls _ _ htemplate
  have hshape := halike a (mem_append_left _ ha) call (mem_append_right _ mem_cons_self) haallowed hallowed hakey
  have hpanels : ((a.layout fl).refresh call.contracts).panels = ((call.layout fl).refresh call.contracts).panels :=
    panels_congr hshape fun _ _ => refreshPanelNode_congr
  have hget : (run (step fl) .new calls).getTemplate call.intentPredicate call.contracts call.tier =
      some { template with layout := template.layout.refresh call.contracts } := by
    rw [getTemplate, ← Call.key, htemplate, map_some]
  rw [served, hget, map_some, CompiledLayoutTemplate.view]
  dsimp only
  rw [hlayout, hpanels, nodes_refresh_congr hshape]
  exact congrArg (fun order => some (_, _, order)) (focusOrder_congr hshape)

theorem panels_eq (halike : Alike fl (calls ++ [call])) (hallowed : call.allowed = true) :
    (run (step fl) .new calls).panels fl call =
      .ok ((call.layout fl).panels.map (bindPanel call.contracts call.entries)) := by
  have hfrom : CachedFrom fl calls (run (step fl) .new calls) := cachedFrom_run calls
  obtain ⟨a, ha, haallowed, hakey, hlayout⟩ := template_layout hfrom hallowed
  have hshape := halike a ha call (mem_append_right _ mem_cons_self) haallowed hallowed hakey
  simp only [panels, compile, hallowed, Bool.not_true, Bool.false_eq_true, if_false, hlayout,
    bindPanels_congr hshape]
  rfl

/-- **Where the calls made before and a further one have one shape if they share a key, `compile` returns the panels of
a new compiler for it, and `get_template`, before it or after it, returns nothing or the panels and the tree of a new
compiler.** -/
theorem template_cache_invisible (fl : Floats F) (calls : List (Call F)) (call : Call F)
    (halike : Alike fl (calls ++ [call])) (hallowed : call.allowed = true) :
    (run (step fl) .new calls).panels fl call = Compiler.new.panels fl call ∧
    (run (step fl) .new calls).served call =
      (if ∃ a ∈ calls, a.allowed = true ∧ a.key = call.key then (run (step fl) .new [call]).served call else none) ∧
    (run (step fl) .new (calls ++ [call])).served call = (run (step fl) .new [call]).served call := by
  have hsub : ∀ part : List (Call F), part ⊆ calls ++ [call] → Alike fl part :=
    fun part hpart a ha c hc => halike a (hpart ha) c (hpart hc)
  have hcall : call ∈ calls ++ [call] := mem_append_right _ mem_cons_self
  have hone : (run (step fl) .new [call]).served call = _ :=
    served_eq (hsub _ (by simp)) hallowed (isSome_run mem_cons_self hallowed)
  refine ⟨?_, ?_, ?_⟩
  · rw [panels_eq halike hallowed]
    exact (@panels_eq F call [] fl (hsub _ (by simp)) hallowed).symm
  · split
    · next hmade =>
      obtain ⟨a, ha, haallowed, hakey⟩ := hmade
      rw [hone, served_eq halike hallowed (hakey ▸ isSome_run ha haallowed)]
    · next hnone =>
      cases htemplate : (run (step fl) .new calls).templateCache call.key with
      | none => rw [served, getTemplate, ← Call.key, htemplate]; rfl
      | some template =>
        obtain ⟨a, ha, haallowed, hakey, -⟩ := cachedFrom_run calls _ _ htemplate
        exact absurd ⟨a, ha, haallowed, hakey⟩ hnone
  · rw [hone, served_eq (hsub _ (by simp)) hallowed (isSome_run hcall hallowed)]

end

/-! ## Samples -/

section Samples

def ratFloats : Floats ℚ where
  ofU32 := fun n => n
  mul := (· * ·)
  lt := fun x y => decide (x < y)
  contrastMin := 9 / 2
  fallbackContrast := 7
  zero := 0

def sampleContract (capabilityRef : String) : CapabilityUiContract ℚ where
  capabilityRef := capabilityRef
  regionAffinity := .left
  minSize := (60, 60)
  priority := 1
  bindsCategory := none
  variants := fun _ => none
  accessibleRole := none
  labelTemplate := none
  keyboardOperations := ["enter"]
  contrastRatio := 7
  hasMotion := false
  reducedMotionAlternative := true
  languageTag := "en"
  emitsAudio := false
  hasVisualAlertEquivalent := true

def sampleCall (contracts : List (CapabilityUiContract ℚ)) (targetSizeMultiplier : ℚ) : Call ℚ :=
  ⟨true, 1, "write", contracts, [], .pro, targetSizeMultiplier, 0⟩

def mailCall : Call ℚ := sampleCall [sampleContract "mail"] 1

def relabelledCall : Call ℚ := sampleCall [{ sampleContract "mail" with labelTemplate := some "New mail" }] 1

def largerCall : Call ℚ := sampleCall [sampleContract "mail"] (11 / 8)

def stillCall : Call ℚ := sampleCall [{ sampleContract "mail" with keyboardOperations := [] }] 1

def paleCall : Call ℚ := sampleCall [{ sampleContract "mail" with contrastRatio := 1 }] 1

def mailAndMaps : Call ℚ := sampleCall [sampleContract "mail", sampleContract "maps"] 1

def mapsAndMail : Call ℚ := sampleCall [sampleContract "maps", sampleContract "mail"] 1

end Samples

theorem template_cache_invisible_relabelled :
    (run (step ratFloats) .new [mailCall, mapsAndMail]).served relabelledCall =
      (run (step ratFloats) .new [relabelledCall]).served relabelledCall := by
  refine (template_cache_invisible ratFloats [mailCall, mapsAndMail] relabelledCall ?_ rfl).2.1.trans
    (if_pos ⟨mailCall, mem_cons_self, rfl, rfl⟩)
  show ∀ a ∈ [mailCall, mapsAndMail, relabelledCall], ∀ c ∈ [mailCall, mapsAndMail, relabelledCall], a.allowed = true →
    c.allowed = true → a.key = c.key → a.shape ratFloats = c.shape ratFloats
  decide +kernel

def Compiler.lints {F : Type} (fl : Floats F) (compiler : Compiler F) (call : Call F) : Option Bool :=
  (compiler.served call).map fun (_, nodes, focusOrder) =>
    (lintTemplate fl nodes focusOrder call.targetSizeMultiplier).passed

/-- A larger size multiplier, other keys of a panel, another order of the contracts, and a call after one that fell
back. -/
theorem template_cache_visible :
    ((run (step ratFloats) .new [mailCall, largerCall]).lints ratFloats largerCall = some false ∧
      (run (step ratFloats) .new [largerCall]).lints ratFloats largerCall = some true) ∧
    ((run (step ratFloats) .new [stillCall, mailCall]).lints ratFloats mailCall = some false ∧
      (run (step ratFloats) .new [mailCall]).lints ratFloats mailCall = some true) ∧
    (run (step ratFloats) .new [mailAndMaps]).panels ratFloats mapsAndMail ≠
      Compiler.new.panels ratFloats mapsAndMail ∧
    (run (step ratFloats) .new [paleCall]).panels ratFloats mailCall ≠ Compiler.new.panels ratFloats mailCall := by
  decide +kernel

end Hyperion.Workspace
