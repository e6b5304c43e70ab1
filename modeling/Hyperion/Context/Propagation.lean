import Hyperion.Context.Budget
import Hyperion.Graph.JsonRecord
import Hyperion.Graph.Read
import Hyperion.Lib.Text

/-!
# What an exported context bundle carries

`export` asks the policy about the category that an entry had when the bundle was assembled, and takes the
content from the graph as it is now. So a node that was reclassified since is exported by its old category.
The id of the Intent that the bundle was assembled for goes with it, whatever the policy says.
-/

namespace Hyperion.Context
open Lib Hyperion.Graph Capability List

inductive TrustLevel
  | sameBoundary
  | trustedAgent
  | sandboxedCapability
  | remoteDevice
deriving DecidableEq, Repr

/-- The text of `{:?}`. -/
def TrustLevel.debug : TrustLevel → String
  | .sameBoundary => "SameBoundary"
  | .trustedAgent => "TrustedAgent"
  | .sandboxedCapability => "SandboxedCapability"
  | .remoteDevice => "RemoteDevice"

inductive RedactionAction
  | pass
  | summarize
  | redact
deriving DecidableEq, Repr

structure RedactionPolicy where
  fieldRules : HashMap String RedactionAction

def RedactionPolicy.ruleFor (policy : RedactionPolicy) (category : String) : RedactionAction :=
  policy.fieldRules[category]?.getD .redact

inductive Representation (V : Type)
  | byReference (nodeId : NodeId)
  | byValue (nodeId : NodeId) (content : V)
  | redactedPlaceholder (category reason : String)

def Representation.nodeId {V : Type} : Representation V → Option NodeId
  | .byReference nodeId => some nodeId
  | .byValue nodeId _ => some nodeId
  | .redactedPlaceholder _ _ => none

structure EnvelopeEntry (V : Type) where
  category : String
  representation : Representation V

/-- An envelope, up to what is neither about the Intent nor about an entry. -/
structure ContextEnvelope (V : Type) where
  bundleIntentId : String
  entries : List (EnvelopeEntry V)
  perEntryGeneration : HashMap NodeId Nat

section
variable {F V : Type} (values : Values V) (monitor : CapabilityMonitor) (token : CapabilityToken)
  (target : TrustLevel) (policy : RedactionPolicy) (g : KnowledgeGraph F V)

def summarize (metadata : V) : V :=
  match values.asObject metadata with
  | some fields => values.object (fields.take 3)
  | none => metadata

/-- One round of the loop of `export`: the entry pushed, and the generation recorded for its node. -/
def exportEntry (reads : Nat → Instant) (entry : ContextEntry F V) :
    Except GraphError (EnvelopeEntry V × Option Nat) :=
  let rule := policy.ruleFor entry.category
  if rule = .redact then
    .ok (⟨entry.category, .redactedPlaceholder entry.category ("policy:" ++ target.debug)⟩, none)
  else do
    let generation := (← g.get ⟨monitor, token, reads 0⟩ entry.nodeId).updatedAt
    if target = .sameBoundary then
      return (⟨entry.category, .byReference entry.nodeId⟩, some generation)
    else
      let node ← g.get ⟨monitor, token, reads 1⟩ entry.nodeId
      let content := if rule = .summarize then summarize values node.metadata else node.metadata
      return (⟨entry.category, .byValue entry.nodeId content⟩, some generation)

/-- The loop of `export`, up to its `PropagationError::Graph`. -/
def exportEntries : (Nat → Instant) → List (ContextEntry F V) → HashMap NodeId Nat →
    Except GraphError (List (EnvelopeEntry V) × HashMap NodeId Nat)
  | _, [], generations => .ok ([], generations)
  | reads, entry :: rest, generations => do
    let out ← exportEntry values monitor token target policy g reads entry
    let generations := match out.2 with
      | some generation => generations.insert entry.nodeId generation
      | none => generations
    let tail ← exportEntries (fun i => reads (i + 2)) rest generations
    return (out.1 :: tail.1, tail.2)

/-- `export`, for a bundle of the Intent. -/
def exportBundle (reads : Nat → Instant) (intentId : String) (entries : List (ContextEntry F V)) :
    Except GraphError (ContextEnvelope V) := do
  let out ← exportEntries values monitor token target policy g reads entries ∅
  return ⟨intentId, out.1, out.2⟩

/-! ## What an export carries -/

/-- The node that the id of an Intent names. -/
def intentNode (intentId : String) : Option NodeId := parseUnsigned (2 ^ 64) intentId.toList

/-- The entries have the id of the node, with or without content, or its generation. -/
def EntriesCarry (out : List (EnvelopeEntry V) × HashMap NodeId Nat) (id : NodeId) : Prop :=
  (∃ e ∈ out.1, e.representation.nodeId = some id) ∨ out.2[id]? ≠ none

def Carries (out : ContextEnvelope V) (id : NodeId) : Prop :=
  intentNode out.bundleIntentId = some id ∨ EntriesCarry (out.entries, out.perEntryGeneration) id

/-- The object type of the node is mapped to `Redact` or not listed. -/
def Withheld (id : NodeId) : Prop :=
  ∃ node, g.index.nodes[id]? = some node ∧ policy.ruleFor node.objectType = .redact

variable {values monitor token target policy g} {reads : Nat → Instant} {id : NodeId}

theorem exportEntry_eq_ok {entry : ContextEntry F V} {out : EnvelopeEntry V × Option Nat}
    (h : exportEntry values monitor token target policy g reads entry = .ok out) :
    (policy.ruleFor entry.category = .redact ∧ out.1.representation.nodeId = none ∧ out.2 = none) ∨
    (policy.ruleFor entry.category ≠ .redact ∧ out.1.representation.nodeId = some entry.nodeId ∧
      ∃ generation, out.2 = some generation) := by
  unfold exportEntry at h
  dsimp only at h
  split at h
  · next hrule =>
    cases h
    exact .inl ⟨hrule, rfl, rfl⟩
  · next hrule =>
    simp only [bind, Except.bind, pure, Except.pure] at h
    split at h
    · cases h
    · split at h
      · cases h
        exact .inr ⟨hrule, rfl, _, rfl⟩
      · split at h
        · cases h
        · cases h
          exact .inr ⟨hrule, rfl, _, rfl⟩

variable {entries : List (ContextEntry F V)}

theorem entriesCarry_iff {generations : HashMap NodeId Nat} {out : List (EnvelopeEntry V) × HashMap NodeId Nat}
    (h : exportEntries values monitor token target policy g reads entries generations = .ok out) :
    EntriesCarry out id ↔ generations[id]? ≠ none ∨
      ∃ entry ∈ entries, entry.nodeId = id ∧ policy.ruleFor entry.category ≠ .redact := by
  induction entries generalizing reads generations out with
  | nil =>
    cases h
    simp [EntriesCarry]
  | cons entry rest ih =>
    simp only [exportEntries, bind, Except.bind, pure, Except.pure] at h
    split at h
    · cases h
    · next first hfirst =>
      split at h
      · cases h
      · next tail htail =>
        cases h
        have hrest := ih htail
        have hsplit : EntriesCarry (first.1 :: tail.1, tail.2) id ↔
            first.1.representation.nodeId = some id ∨ EntriesCarry tail id := by
          simp [EntriesCarry, or_assoc]
        rw [hsplit, hrest]
        rcases exportEntry_eq_ok hfirst with ⟨hrule, hnone, hgen⟩ | ⟨hrule, hsome, generation, hgen⟩
        · simp [hnone, hgen, hrule]
        · simp only [hsome, hgen, HashMap.get_insert, Option.some.injEq, exists_mem_cons_iff]
          by_cases hid : entry.nodeId = id
          · simp [hid, hrule]
          · simp [hid]

theorem exportEntries_congr {g' : KnowledgeGraph F V}
    (h : ∀ entry ∈ entries, policy.ruleFor entry.category ≠ .redact →
      g'.index.nodes[entry.nodeId]? = g.index.nodes[entry.nodeId]?) (generations : HashMap NodeId Nat) :
    exportEntries values monitor token target policy g' reads entries generations =
      exportEntries values monitor token target policy g reads entries generations := by
  induction entries generalizing reads generations with
  | nil => rfl
  | cons entry rest ih =>
    have hentry : exportEntry values monitor token target policy g' reads entry =
        exportEntry values monitor token target policy g reads entry := by
      unfold exportEntry
      by_cases hrule : policy.ruleFor entry.category = .redact
      · simp [hrule]
      · simp [KnowledgeGraph.get, GraphIndex.visibleNode, h entry mem_cons_self hrule]
    have hrest := @ih (fun i => reads (i + 2)) fun e he => h e (mem_cons_of_mem _ he)
    simp only [exportEntries, hentry, hrest]

/-- The envelope may be sent: neither the Intent nor an entry whose category passes is about a node that has to
be withheld by now. -/
structure Sendable (policy : RedactionPolicy) (g : KnowledgeGraph F V) (intentId : String)
    (bundle : List (ContextEntry F V)) : Prop where
  intent : ∀ id, intentNode intentId = some id → ¬ Withheld policy g id
  entries : ∀ entry ∈ bundle, policy.ruleFor entry.category ≠ .redact → ¬ Withheld policy g entry.nodeId

/-- **An export is fail-closed if and only if neither its Intent nor an entry whose category passes is about a
node that has to be withheld by now. Then the contents of such nodes do not matter.** -/
theorem export_fail_closed_iff {intentId : String} {bundle : List (ContextEntry F V)} {out : ContextEnvelope V}
    (h : exportBundle values monitor token target policy g reads intentId bundle = .ok out) :
    ((∀ id, Carries out id → ¬ Withheld policy g id) ↔ Sendable policy g intentId bundle) ∧
    ((∀ entry ∈ bundle, policy.ruleFor entry.category ≠ .redact → ¬ Withheld policy g entry.nodeId) →
      ∀ g' : KnowledgeGraph F V,
        (∀ id, ¬ Withheld policy g id → g'.index.nodes[id]? = g.index.nodes[id]?) →
        exportBundle values monitor token target policy g' reads intentId bundle = .ok out) := by
  unfold exportBundle at h ⊢
  cases hentries : exportEntries values monitor token target policy g reads bundle ∅ with
  | error err =>
    rw [hentries] at h
    cases h
  | ok entries =>
    rw [hentries] at h
    cases h
    have hcarry : ∀ id, EntriesCarry entries id ↔ _ := fun id => entriesCarry_iff hentries
    refine ⟨⟨fun hclosed => ⟨fun id hid => hclosed id (.inl hid), fun entry hentry hrule => ?_⟩,
      fun hsend id hcarries => ?_⟩, fun hpass g' hsame => ?_⟩
    · exact hclosed _ (.inr ((hcarry _).mpr (.inr ⟨entry, hentry, rfl, hrule⟩)))
    · rcases hcarries with hid | hcarries
      · exact hsend.intent id hid
      · rcases (hcarry id).mp hcarries with hgen | ⟨entry, hentry, rfl, hrule⟩
        · exact absurd Std.ExtTreeMap.getElem?_empty hgen
        · exact hsend.entries entry hentry hrule
    · rw [exportEntries_congr fun entry hentry hrule => hsame _ (hpass entry hentry hrule), hentries]
      rfl

end

/-! ## A node that was reclassified -/

def notePolicy : RedactionPolicy := ⟨(∅ : HashMap String RedactionAction).insert "note" .pass⟩

/-- An export of the note that `singleNode` has. -/
def exportNote (g : KnowledgeGraph Int Json) (intentId : String) : Except GraphError (ContextEnvelope Json) :=
  let reader := sampleCall .read false
  exportBundle jsonValues reader.monitor reader.token .remoteDevice notePolicy g (fun _ => 0) intentId
    [⟨"note", 0, .full, .null, 1, [], 0, 0⟩]

def reclassified : KnowledgeGraph Int Json :=
  (singleNode.putNodeWithProvenance jsonRecord _ plainWriter
    { sampleNode (some 0) 0 with objectType := "medical", metadata := .str "result" }).2

theorem export_fail_closed_iff_note : ∃ out, exportNote singleNode "1" = .ok out ∧ Carries out 0 ∧
    ∀ id, Carries out id → ¬ Withheld notePolicy singleNode id := by
  obtain ⟨out, hout⟩ : ∃ out, exportNote singleNode "1" = .ok out := ⟨_, rfl⟩
  have hcarried : ((exportNote singleNode "1").toOption.map fun out => out.perEntryGeneration[(0 : Nat)]?) =
      some (some 0) := by
    decide +kernel
  have hnote : singleNode.index.nodes[(0 : Nat)]?.map (notePolicy.ruleFor ·.objectType) = some .pass := by
    decide +kernel
  rw [hout] at hcarried
  refine ⟨out, hout, .inr (.inr fun hnone => ?_), (export_fail_closed_iff hout).1.mpr ⟨?_, ?_⟩⟩
  · cases hnone.symm.trans (Option.some.inj hcarried)
  · -- the Intent has no node in this graph
    rintro id hid ⟨node, hnode, -⟩
    cases (show intentNode "1" = some 1 by decide +kernel).symm.trans hid
    have hnone : singleNode.index.nodes[(1 : Nat)]?.isNone = true := by decide +kernel
    rw [hnode] at hnone
    cases hnone
  · rintro entry hentry - ⟨node, hnode, hrule⟩
    cases mem_singleton.mp hentry
    rw [hnode] at hnote
    cases hrule.symm.trans (Option.some.inj hnote)

/-- **The note has become a medical result, which the policy does not list; an export of the old bundle has
the result. And an export for an Intent has its id.** -/
theorem reclassified_node_exported : (Withheld notePolicy reclassified 0 ∧ ∃ out,
    exportNote reclassified "none" = .ok out ∧ Carries out 0 ∧
      out.entries = [⟨"note", .byValue 0 (.str "result")⟩]) ∧
    Withheld ⟨∅⟩ singleNode 0 ∧ ∃ out,
      exportBundle jsonValues plainWriter.monitor plainWriter.token .remoteDevice ⟨∅⟩ singleNode (fun _ => 0) "0"
        [] = .ok out ∧ Carries out 0 := by
  refine ⟨⟨⟨_, rfl, by decide +kernel⟩, _, rfl, .inr (.inl ⟨_, mem_singleton_self _, rfl⟩), rfl⟩,
    ⟨_, rfl, by decide +kernel⟩, _, rfl, .inl (by decide +kernel)⟩

end Hyperion.Context
