import Mathlib.Data.List.Sort
import Mathlib.Logic.Function.Basic
import Hyperion.Lib.Text
import Hyperion.Lib.Utf8

/-!
# The workspace compiler

Contracts of capabilities are laid out as panels with an accessibility tree. Templates are cached under a key that
holds the predicate, the set of capabilities and the tier.

Floats are a type with the operations that the code uses.
-/

namespace Hyperion.Workspace
open Lib

structure Floats (F : Type) where
  ofU32 : Nat → F
  mul : F → F → F
  lt : F → F → Bool
  contrastMin : F
  fallbackContrast : F
  zero : F

inductive RegionAffinity
  | left
  | center
  | right
  | topBar
  | bottomBar
deriving DecidableEq, Repr

inductive ComplexityTier
  | beginner
  | pro
  | dev
deriving DecidableEq, Repr

structure CapabilityUiContract (F : Type) where
  capabilityRef : String
  regionAffinity : RegionAffinity
  minSize : Nat × Nat
  priority : F
  bindsCategory : Option String
  /-- The sizes that the variants of the tiers give. -/
  variants : ComplexityTier → Option (Option (Nat × Nat))
  accessibleRole : Option String
  labelTemplate : Option String
  keyboardOperations : List String
  contrastRatio : F
  hasMotion : Bool
  reducedMotionAlternative : Bool
  languageTag : String
  emitsAudio : Bool
  hasVisualAlertEquivalent : Bool

def CapabilityUiContract.resolveVariant {F : Type} (contract : CapabilityUiContract F) (tier : ComplexityTier) :
    Nat × Nat :=
  (contract.variants tier).join.getD contract.minSize

structure AccessibilityNode (F : Type) where
  nodeId : Nat
  panelRef : Nat
  role : String
  accessibleName : String
  description : String
  languageTag : String
  targetSize : Nat × Nat
  isInteractive : Bool
  hasMotion : Bool
  reducedMotionAlternative : Bool
  contrastRatio : F
  actions : List String
  emitsAudio : Bool
  hasVisualAlertEquivalent : Bool
deriving DecidableEq, Repr

inductive RenderState
  | pending
  | ready
  | error
deriving DecidableEq, Repr

structure Panel (F : Type) where
  panelId : Nat
  capabilityRef : String
  regionAffinity : RegionAffinity
  minSize : Nat × Nat
  priority : F
  /-- The targets of the bindings, all of which read. -/
  bindings : List Nat
  accessibilityNode : AccessibilityNode F
  renderState : RenderState
deriving DecidableEq, Repr

/-! ## Accessibility -/

def humanizeCapabilityRef (capabilityRef : String) : String :=
  String.ofList (capabilityRef.toList.map fun c => if c = '.' ∨ c = '_' then ' ' else c)

def deriveNode {F : Type} (nodeId panelRef : Nat) (contract : CapabilityUiContract F) (bindingPresent : Bool) :
    AccessibilityNode F where
  nodeId := nodeId
  panelRef := panelRef
  role := contract.accessibleRole.getD "generic"
  accessibleName := contract.labelTemplate.getD (humanizeCapabilityRef contract.capabilityRef)
  description := contract.capabilityRef
  languageTag := if contract.languageTag.isEmpty then "en" else contract.languageTag
  targetSize := contract.minSize
  isInteractive := bindingPresent || !contract.keyboardOperations.isEmpty
  hasMotion := contract.hasMotion
  reducedMotionAlternative := contract.reducedMotionAlternative
  contrastRatio := contract.contrastRatio
  actions := contract.keyboardOperations
  emitsAudio := contract.emitsAudio
  hasVisualAlertEquivalent := contract.hasVisualAlertEquivalent

inductive Severity
  | error
  | warning
deriving DecidableEq, Repr

structure Violation where
  ruleId : String
  nodeId : Nat
  severity : Severity
deriving DecidableEq, Repr

structure AccessibilityLintResult where
  passed : Bool
  violations : List Violation
deriving DecidableEq, Repr

def targetSizeMinDp : Nat := 44

section
variable {F : Type} (fl : Floats F)

def lintNode (targetSizeMultiplier : F) (node : AccessibilityNode F) : List Violation :=
  let minSize := fl.mul (fl.ofU32 targetSizeMinDp) targetSizeMultiplier
  (if (trim node.accessibleName.toList).isEmpty then [⟨"accessible-name-present", node.nodeId, .error⟩] else []) ++
  (if fl.lt node.contrastRatio fl.contrastMin then [⟨"contrast-ratio", node.nodeId, .error⟩] else []) ++
  (if node.isInteractive && (fl.lt (fl.ofU32 node.targetSize.1) minSize || fl.lt (fl.ofU32 node.targetSize.2) minSize)
    then [⟨"target-size", node.nodeId, .error⟩] else []) ++
  (if node.hasMotion && !node.reducedMotionAlternative then [⟨"motion-alternative", node.nodeId, .warning⟩] else []) ++
  (if (trim node.languageTag.toList).isEmpty then [⟨"language-tag-present", node.nodeId, .error⟩] else []) ++
  (if node.emitsAudio && !node.hasVisualAlertEquivalent
    then [⟨"audio-alert-has-visual-equivalent", node.nodeId, .error⟩] else [])

def lintTemplate (nodes : List (AccessibilityNode F)) (focusOrder : List Nat) (targetSizeMultiplier : F) :
    AccessibilityLintResult :=
  let unreachable := nodes.filter fun node => node.isInteractive && !focusOrder.contains node.nodeId
  let violations := nodes.flatMap (lintNode fl targetSizeMultiplier) ++
    unreachable.map fun node => ⟨"focus-order-valid", node.nodeId, .error⟩
  ⟨!violations.any fun v => v.severity = .error, violations⟩

/-! ## Templates -/

structure Layout (F : Type) where
  panels : List (Panel F)
  nodes : List (AccessibilityNode F)
  focusOrder : List Nat
  lintResult : AccessibilityLintResult
deriving DecidableEq, Repr

def newPanel (tier : ComplexityTier) (i : Nat) (contract : CapabilityUiContract F) : Panel F where
  panelId := i + 1
  capabilityRef := contract.capabilityRef
  regionAffinity := contract.regionAffinity
  minSize := contract.resolveVariant tier
  priority := contract.priority
  bindings := []
  accessibilityNode := deriveNode (i + 1) (i + 1) contract false
  renderState := .pending

def fallbackNode : AccessibilityNode F where
  nodeId := 1
  panelRef := 1
  role := "generic"
  accessibleName := "Raw data viewer"
  description := "A generic fallback view for content that could not be laid out normally"
  languageTag := "en"
  targetSize := (64, 64)
  isInteractive := true
  hasMotion := false
  reducedMotionAlternative := true
  contrastRatio := fl.fallbackContrast
  actions := ["view"]
  emitsAudio := false
  hasVisualAlertEquivalent := true

def fallbackPanel : Panel F where
  panelId := 1
  capabilityRef := "generic.raw_data_viewer"
  regionAffinity := .center
  minSize := (200, 200)
  priority := fl.zero
  bindings := []
  accessibilityNode := fallbackNode fl
  renderState := .pending

def fallbackLayout (targetSizeMultiplier : F) : Layout F where
  panels := [fallbackPanel fl]
  nodes := [fallbackNode fl]
  focusOrder := [1]
  lintResult := lintTemplate fl [fallbackNode fl] [1] targetSizeMultiplier

variable (contracts : List (CapabilityUiContract F))

/-- What the contracts ask for. -/
def contractLayout (tier : ComplexityTier) (targetSizeMultiplier : F) : Layout F :=
  let panels := contracts.mapIdx (newPanel tier)
  let nodes := panels.map (·.accessibilityNode)
  let focusOrder := (nodes.filter (·.isInteractive)).map (·.nodeId)
  ⟨panels, nodes, focusOrder, lintTemplate fl nodes focusOrder targetSizeMultiplier⟩

/-- `build_template`, apart from the ids that it takes. -/
def buildLayout (tier : ComplexityTier) (targetSizeMultiplier : F) : Layout F :=
  let layout := contractLayout fl contracts tier targetSizeMultiplier
  if layout.lintResult.passed then layout else fallbackLayout fl targetSizeMultiplier

/-! ## The cache -/

structure WorkspaceIntentKey where
  intentShapeHash : UInt64
  capabilitySetSig : UInt64
  complexityTier : ComplexityTier
deriving DecidableEq, Repr

def fnv1a64 (bytes : List UInt8) : UInt64 :=
  bytes.foldl (fun hash b => (hash ^^^ b.toUInt64) * 0x100000001b3) 0xcbf29ce484222325

def cacheKey (intentPredicate : String) (contracts : List (CapabilityUiContract F)) (tier : ComplexityTier) :
    WorkspaceIntentKey :=
  let capabilityRefs := (contracts.map (·.capabilityRef)).insertionSort (· ≤ ·)
  ⟨fnv1a64 (utf8Bytes intentPredicate.toList), fnv1a64 (utf8Bytes (",".intercalate capabilityRefs).toList), tier⟩

structure CompiledLayoutTemplate (F : Type) where
  templateId : Nat
  treeId : Nat
  cacheKey : WorkspaceIntentKey
  layout : Layout F
  hitCount : Nat
deriving DecidableEq, Repr

structure Compiler (F : Type) where
  templateCache : WorkspaceIntentKey → Option (CompiledLayoutTemplate F)
  nextId : Nat

def Compiler.new : Compiler F := ⟨fun _ => none, 1⟩

/-- The arguments of `compile`; `allowed` says whether the token carries WRITE, `entries` are the entries of the
context bundle with their categories. -/
structure Call (F : Type) where
  allowed : Bool
  intentId : Nat
  intentPredicate : String
  contracts : List (CapabilityUiContract F)
  entries : List (String × Nat)
  tier : ComplexityTier
  targetSizeMultiplier : F
  createdAt : Nat

def Call.key (call : Call F) : WorkspaceIntentKey := cacheKey call.intentPredicate call.contracts call.tier

def Call.layout (call : Call F) : Layout F := buildLayout fl call.contracts call.tier call.targetSizeMultiplier

def contractOf (panel : Panel F) : Option (CapabilityUiContract F) :=
  contracts.find? fun contract => contract.capabilityRef == panel.capabilityRef

def refreshPanelNode (panel : Panel F) : Panel F :=
  match contractOf contracts panel with
  | none => panel
  | some contract =>
    { panel with accessibilityNode :=
        deriveNode panel.accessibilityNode.nodeId panel.panelId contract (!panel.bindings.isEmpty) }

def bindPanel (entries : List (String × Nat)) (panel : Panel F) : Panel F :=
  let panel :=
    match (contractOf contracts panel).bind (·.bindsCategory) with
    | none => panel
    | some category =>
      { panel with bindings := (entries.filter fun e : String × Nat => e.1 == category).map Prod.snd }
  refreshPanelNode contracts { panel with renderState := if panel.bindings.isEmpty then .pending else .ready }

structure WorkspaceGraph (F : Type) where
  graphId : Nat
  intentId : Nat
  panels : List (Panel F)
  createdAt : Nat
deriving DecidableEq, Repr

inductive WorkspaceError
  | unauthorized
deriving DecidableEq, Repr

/-- The template that a call is served, with the compiler after it. -/
def Compiler.template (compiler : Compiler F) (call : Call F) : Compiler F × CompiledLayoutTemplate F :=
  match (compiler.templateCache call.key).filter (·.layout.lintResult.passed) with
  | some template => (compiler, template)
  | none =>
    let asked := contractLayout fl call.contracts call.tier call.targetSizeMultiplier
    let treeId := if asked.lintResult.passed then compiler.nextId else 0
    let template := ⟨compiler.nextId + 1, treeId, call.key, call.layout fl, 0⟩
    ({ templateCache := Function.update compiler.templateCache call.key (some template)
       nextId := compiler.nextId + 2 }, template)

def Compiler.compile (compiler : Compiler F) (call : Call F) :
    Compiler F × Except WorkspaceError (WorkspaceGraph F) :=
  if !call.allowed then (compiler, .error .unauthorized)
  else
    let (compiler, template) := compiler.template fl call
    let counted := (compiler.templateCache call.key).map fun t => { t with hitCount := t.hitCount + 1 }
    let panels := template.layout.panels.map (bindPanel call.contracts call.entries)
    ({ templateCache := Function.update compiler.templateCache call.key counted
       nextId := compiler.nextId + 1 },
      .ok ⟨compiler.nextId, call.intentId, panels, call.createdAt⟩)

def mirrorNode (panels : List (Panel F)) (node : AccessibilityNode F) : AccessibilityNode F :=
  ((panels.find? fun panel => panel.accessibilityNode.nodeId == node.nodeId).map (·.accessibilityNode)).getD node

/-- The content of a template, refreshed from the contracts. -/
def Layout.refresh (layout : Layout F) (contracts : List (CapabilityUiContract F)) : Layout F :=
  let panels := layout.panels.map (refreshPanelNode contracts)
  { layout with panels := panels, nodes := layout.nodes.map (mirrorNode panels) }

def Compiler.getTemplate (compiler : Compiler F) (intentPredicate : String)
    (contracts : List (CapabilityUiContract F)) (tier : ComplexityTier) : Option (CompiledLayoutTemplate F) :=
  (compiler.templateCache (cacheKey intentPredicate contracts tier)).map fun template =>
    { template with layout := template.layout.refresh contracts }

end

end Hyperion.Workspace
