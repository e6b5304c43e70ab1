import Mathlib.Data.List.Sort
import Hyperion.Graph.Types
import Hyperion.Lib.Json.Text

/-!
# The budget of a context bundle

`ContextEngine::assemble` takes the scored candidates from the highest score down, and includes each in full,
as a summary or as a reference while the estimated tokens fit. A summary is charged sixty tokens at most,
whatever its size; so every budget bounds what is included exactly if no summary is larger.
-/

namespace Hyperion.Context
open Lib Hyperion.Graph Function

/-- `serde_json::Value`, as the engine uses it. -/
structure Values (V : Type) where
  toString : V → Option String
  asObject : V → Option (List (String × V))
  object : List (String × V) → V
  string : String → V
  null : V
  null_text : toString null = some "null"

/-- The thresholds, and the runtime: the text that a run gives for the metadata of a node, if there is a
runtime and the run is allowed and feasible. -/
structure ContextEngine (F V : Type) where
  values : Values V
  fullThreshold : F
  summaryThreshold : F
  infer : NodeId → V → Option String

structure Budget where
  maxTokens : Nat
  maxEntriesPerCategory : Nat
deriving DecidableEq, Repr

inductive InclusionMode
  | full
  | summary
  | reference
deriving DecidableEq, Repr

structure Candidate (F V : Type) where
  nodeId : NodeId
  score : F
  objectType : String
  metadata : V
  updatedAt : Nat
  sourceSignal : List String

structure ContextEntry (F V : Type) where
  category : String
  nodeId : NodeId
  inclusionMode : InclusionMode
  content : V
  relevanceScore : F
  sourceSignal : List String
  generation : Nat
  capturedAt : Nat

def smallEntryTokens : Nat := 150

namespace ContextEngine
variable {F V : Type} [LinearOrder F] (e : ContextEngine F V)

def estimateTokens (value : V) : Nat := ((e.values.toString value).map fun s => s.utf8ByteSize / 4).getD 0

def truncate (metadata : V) : V :=
  match e.values.asObject metadata with
  | some fields => e.values.object (fields.take 3)
  | none => metadata

def summarize (nodeId : NodeId) (metadata : V) : V :=
  match e.infer nodeId metadata with
  | some text => e.values.string text
  | none => e.truncate metadata

def included (c : Candidate F V) : InclusionMode × V × Nat :=
  let fullTokens := e.estimateTokens c.metadata
  if e.fullThreshold < c.score ∧ fullTokens ≤ smallEntryTokens then (.full, c.metadata, fullTokens)
  else if e.summaryThreshold < c.score then
    let summary := e.summarize c.nodeId c.metadata
    (.summary, summary, min (e.estimateTokens summary) 60)
  else (.reference, e.values.null, 5)

def assembleLoop (budget : Budget) (now : Nat) :
    List (Candidate F V) → (String → Nat) → Nat → List (ContextEntry F V)
  | [], _, _ => []
  | c :: rest, counts, tokensUsed =>
    if budget.maxEntriesPerCategory ≤ counts c.objectType then assembleLoop budget now rest counts tokensUsed
    else
      -- the inclusion mode, the content and what it is charged
      let entry := e.included c
      if budget.maxTokens < tokensUsed + entry.2.2 then []
      else
        ⟨c.objectType, c.nodeId, entry.1, entry.2.1, c.score, c.sourceSignal, c.updatedAt, now⟩ ::
          assembleLoop budget now rest (Function.update counts c.objectType (counts c.objectType + 1))
            (tokensUsed + entry.2.2)

/-- From the highest score down; a stable sort. -/
def sortByScore (scored : List (Candidate F V)) : List (Candidate F V) :=
  scored.insertionSort fun a b => b.score ≤ a.score

/-- The entries of the bundle. -/
def assemble (budget : Budget) (now : Nat) (scored : List (Candidate F V)) : List (ContextEntry F V) :=
  e.assembleLoop budget now (sortByScore scored) (fun _ => 0) 0

def tokens (entries : List (ContextEntry F V)) : Nat := (entries.map fun x => e.estimateTokens x.content).sum

structure Within (budget : Budget) (entries : List (ContextEntry F V)) : Prop where
  category : ∀ category, entries.countP (·.category = category) ≤ budget.maxEntriesPerCategory
  tokens : e.tokens entries ≤ budget.maxTokens

/-! ## The loop -/

variable (budget : Budget) (now : Nat) (scored : List (Candidate F V))

theorem category_assembleLoop (counts : String → Nat) (tokensUsed : Nat) (category : String)
    (h : counts category ≤ budget.maxEntriesPerCategory) :
    counts category + (e.assembleLoop budget now scored counts tokensUsed).countP (·.category = category) ≤
      budget.maxEntriesPerCategory := by
  induction scored generalizing counts tokensUsed with
  | nil => exact h
  | cons c rest ih =>
    unfold assembleLoop
    split
    · exact ih counts tokensUsed h
    · next hroom =>
      dsimp only
      split
      · exact h
      · rw [List.countP_cons]
        by_cases hc : c.objectType = category
        · subst hc
          have hnext := ih (Function.update counts c.objectType (counts c.objectType + 1))
            (tokensUsed + (e.included c).2.2) (by rw [update_self]; omega)
          rw [update_self] at hnext
          simp only [decide_true, if_true]
          omega
        · have hnext := ih (Function.update counts c.objectType (counts c.objectType + 1))
            (tokensUsed + (e.included c).2.2) (by rwa [update_of_ne (Ne.symm hc)])
          rw [update_of_ne (Ne.symm hc)] at hnext
          simpa [hc] using hnext

/-! ## What an entry is charged -/

/-- No summary of the candidate is larger than what it is charged. -/
def ShortSummary (c : Candidate F V) : Prop :=
  (e.included c).1 = .summary → e.estimateTokens (e.summarize c.nodeId c.metadata) ≤ 60

theorem included_cases (c : Candidate F V) :
    e.included c = (.full, c.metadata, e.estimateTokens c.metadata) ∨
    (e.summaryThreshold < c.score ∧ e.included c = (.summary, e.summarize c.nodeId c.metadata,
      min (e.estimateTokens (e.summarize c.nodeId c.metadata)) 60)) ∨
    (¬ e.summaryThreshold < c.score ∧ e.included c = (.reference, e.values.null, 5)) := by
  unfold included
  dsimp only
  split
  · exact .inl rfl
  · split
    · next hscore => exact .inr (.inl ⟨hscore, rfl⟩)
    · next hscore => exact .inr (.inr ⟨hscore, rfl⟩)

variable {e}

theorem ShortSummary.estimateTokens_le {c : Candidate F V} (h : e.ShortSummary c) :
    e.estimateTokens (e.included c).2.1 ≤ (e.included c).2.2 := by
  rcases e.included_cases c with hfull | ⟨-, hsummary⟩ | ⟨-, hreference⟩
  · rw [hfull]
  · have hshort := h (by rw [hsummary])
    rw [hsummary]
    exact le_min (le_refl _) hshort
  · rw [hreference]
    show e.estimateTokens e.values.null ≤ 5
    rw [estimateTokens, e.values.null_text]
    decide

/-- Above the summary threshold nothing is charged more than it is estimated at. -/
theorem le_estimateTokens_included {c : Candidate F V} (h : e.summaryThreshold < c.score) :
    (e.included c).2.2 ≤ e.estimateTokens (e.included c).2.1 := by
  rcases e.included_cases c with hfull | ⟨-, hsummary⟩ | ⟨hscore, -⟩
  · rw [hfull]
  · rw [hsummary]
    exact min_le_left _ _
  · exact absurd h hscore

theorem included_of_not_shortSummary {c : Candidate F V} (h : ¬ e.ShortSummary c) :
    e.summaryThreshold < c.score ∧ (e.included c).2.2 < e.estimateTokens (e.included c).2.1 := by
  obtain ⟨hmode, hlarge⟩ := Classical.not_imp.mp h
  rcases e.included_cases c with hfull | ⟨hscore, hsummary⟩ | ⟨-, hreference⟩
  · rw [hfull] at hmode
    cases hmode
  · refine ⟨hscore, ?_⟩
    rw [hsummary]
    exact (min_le_right _ _).trans_lt (not_le.mp hlarge)
  · rw [hreference] at hmode
    cases hmode

/-! ## The tokens of the bundle -/

theorem tokens_assembleLoop (h : ∀ c ∈ scored, e.ShortSummary c)
    (counts : String → Nat) (tokensUsed : Nat) (hused : tokensUsed ≤ budget.maxTokens) :
    tokensUsed + e.tokens (e.assembleLoop budget now scored counts tokensUsed) ≤ budget.maxTokens := by
  induction scored generalizing counts tokensUsed with
  | nil => exact hused
  | cons c rest ih =>
    have hrest := fun d hd => h d (List.mem_cons_of_mem _ hd)
    unfold assembleLoop
    split
    · exact ih hrest counts tokensUsed hused
    · dsimp only
      split
      · exact hused
      · have hcharged := (h c List.mem_cons_self).estimateTokens_le
        have hnext := ih hrest (Function.update counts c.objectType (counts c.objectType + 1))
          (tokensUsed + (e.included c).2.2) (by omega)
        rw [tokens] at hnext ⊢
        rw [List.map_cons, List.sum_cons]
        dsimp only
        omega

/-- With room in every category, a budget that the charges up to a long summary use up is exceeded. -/
theorem exceeds_assembleLoop (hsorted : scored.Pairwise fun a b => b.score ≤ a.score) {d : Candidate F V}
    (hd : d ∈ scored) (hlong : ¬ e.ShortSummary d) :
    ∃ cost, ∀ counts tokensUsed room, (∀ category, counts category + scored.length ≤ room) →
      cost < e.tokens (e.assembleLoop ⟨tokensUsed + cost, room⟩ now scored counts tokensUsed) := by
  obtain ⟨hscore, hlarge⟩ := included_of_not_shortSummary hlong
  induction scored with
  | nil => cases hd
  | cons c rest ih =>
    -- one entry, and what is left of the budget for the others
    have hstep : ∀ cost counts tokensUsed room, (∀ category, counts category + (c :: rest).length ≤ room) →
        e.tokens (e.assembleLoop ⟨tokensUsed + ((e.included c).2.2 + cost), room⟩ now (c :: rest) counts
          tokensUsed) = e.estimateTokens (e.included c).2.1 +
            e.tokens (e.assembleLoop ⟨tokensUsed + (e.included c).2.2 + cost, room⟩ now rest
              (Function.update counts c.objectType (counts c.objectType + 1))
              (tokensUsed + (e.included c).2.2)) := by
      intro cost counts tokensUsed room hroom
      have hcount := hroom c.objectType
      rw [List.length_cons] at hcount
      rw [assembleLoop, if_neg (by dsimp only; omega)]
      dsimp only
      rw [if_neg (by omega), tokens, List.map_cons, List.sum_cons, tokens, ← Nat.add_assoc]
    rcases List.mem_cons.mp hd with rfl | hrest
    · refine ⟨(e.included d).2.2 + 0, fun counts tokensUsed room hroom => ?_⟩
      rw [hstep 0 counts tokensUsed room hroom]
      omega
    · obtain ⟨cost, hcost⟩ := ih hsorted.of_cons hrest
      have hcharged := le_estimateTokens_included
        (lt_of_lt_of_le hscore (List.rel_of_pairwise_cons hsorted hrest))
      refine ⟨(e.included c).2.2 + cost, fun counts tokensUsed room hroom => ?_⟩
      have hnext := hcost (Function.update counts c.objectType (counts c.objectType + 1))
        (tokensUsed + (e.included c).2.2) room (fun category => by
          have hcount := hroom category
          rw [List.length_cons] at hcount
          by_cases hc : category = c.objectType
          · rw [hc, update_self]
            rw [hc] at hcount
            omega
          · rw [update_of_ne hc]
            omega)
      rw [hstep cost counts tokensUsed room hroom]
      omega

variable (e)

/-- **Every budget bounds the bundle if and only if each candidate that is included as a summary has a summary
of at most sixty tokens.** The number of entries of a category is bounded in any case. -/
theorem budget_bounds_bundle_iff (now : Nat) (scored : List (Candidate F V)) :
    (∀ budget category, (e.assemble budget now scored).countP (·.category = category) ≤
      budget.maxEntriesPerCategory) ∧
    ((∀ budget, e.Within budget (e.assemble budget now scored)) ↔ ∀ c ∈ scored, e.ShortSummary c) := by
  have hcategory : ∀ budget category, (e.assemble budget now scored).countP
      (·.category = category) ≤ budget.maxEntriesPerCategory := fun budget category => by
    have hcount := category_assembleLoop e budget now (sortByScore scored) (fun _ => 0) 0 category (Nat.zero_le _)
    rwa [Nat.zero_add] at hcount
  refine ⟨hcategory, fun hwithin c hc => ?_, fun hshort budget => ⟨hcategory budget, ?_⟩⟩
  · by_contra hlong
    obtain ⟨cost, hcost⟩ := exceeds_assembleLoop now (sortByScore scored)
      (List.pairwise_insertionSort _ scored) ((List.mem_insertionSort _).mpr hc) hlong
    have hexceeds := hcost (fun _ => 0) 0 (sortByScore scored).length fun _ => by rw [Nat.zero_add]
    have hbound := (hwithin ⟨0 + cost, (sortByScore scored).length⟩).tokens
    rw [assemble] at hbound
    dsimp only at hbound
    omega
  · have htokens := tokens_assembleLoop budget now (sortByScore scored)
      (fun c hc => hshort c ((List.mem_insertionSort _).mp hc)) (fun _ => 0) 0 (Nat.zero_le _)
    rwa [Nat.zero_add] at htokens

end ContextEngine

/-! ## A long note -/

def jsonValues : Values Json where
  toString j := some (String.ofList j.render)
  asObject
    | .obj fields => some fields
    | _ => none
  object := .obj
  string := .str
  null := .null
  null_text := rfl

def noteEngine (infer : NodeId → Json → Option String) : ContextEngine Nat Json where
  values := jsonValues
  fullThreshold := 50
  summaryThreshold := 25
  infer := infer

def longNote : Candidate Nat Json :=
  ⟨0, 30, "note", .obj [("text", .str (String.ofList (List.replicate 240 'x')))], 0, []⟩

/-- **A summary of more than sixty tokens is included under a budget of sixty.** -/
theorem large_summary_exceeds_budget :
    ¬ (noteEngine fun _ _ => none).Within ⟨60, 1⟩ ((noteEngine fun _ _ => none).assemble ⟨60, 1⟩ 0 [longNote]) := by
  intro hwithin
  exact absurd hwithin.tokens (by decide +kernel)

end Hyperion.Context
