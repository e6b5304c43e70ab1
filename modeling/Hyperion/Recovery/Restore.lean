import Hyperion.Recovery.Run

/-!
# What restoring does to a node

`apply_snapshot` puts back the type, the embedding and the metadata of a node that it has a copy of, and
deletes a node that did not exist. `put_node` keeps a node deleted that is deleted, and gives it the
default provenance. So after a series of restores a node shows the last state restored only if it was
never deleted on the way, and with the default provenance.
-/

namespace Hyperion.Recovery
open Lib Capability Storage Hyperion.Graph List Option KnowledgeGraph RecoveryService

/-- What a node is, apart from its owner, its times and how often it was corroborated. -/
structure Content (F V : Type) where
  objectType : ObjectType
  embedding : Option (List F)
  metadata : V
  tenantId : TenantId
  origin : NodeOrigin
  deviceOrigin : Nat
deriving DecidableEq

section
variable {F V : Type}

def content (n : NodeRecord F V) : Content F V :=
  ⟨n.objectType, n.embedding, n.metadata, n.tenantId, n.origin, n.deviceOrigin⟩

/-- The provenance that `put_node` gives. -/
structure Content.Plain (c : Content F V) : Prop where
  tenantId : c.tenantId = 0
  origin : c.origin = .default
  deviceOrigin : c.deviceOrigin = 0

/-- What the boundary sees of an entry of the node table. -/
def shown (boundary : TrustBoundaryId) (entry : Option (NodeRecord F V)) : Option (Content F V) :=
  (entry.filter fun n => !n.tombstone && n.owner == boundary).map content

/-- What `get` shows the boundary. -/
def shows (g : KnowledgeGraph F V) (boundary : TrustBoundaryId) (id : NodeId) : Option (Content F V) :=
  (g.index.visibleNode boundary id).map content

theorem get_content (g : KnowledgeGraph F V) (reader : Caller) (id : NodeId) :
    (g.get reader id).map content = (Graph.require reader .read).bind fun _ =>
      match shows g reader.token.origin id with
      | some c => .ok c
      | none => .error .notFound := by
  unfold shows KnowledgeGraph.get
  cases Graph.require reader .read with
  | error err => rfl
  | ok u => cases g.index.visibleNode reader.token.origin id <;> rfl

theorem get_content_eq_iff {g g' : KnowledgeGraph F V} {reader : Caller}
    (hread : Graph.require reader .read = .ok ()) (id : NodeId) :
    (g'.get reader id).map content = (g.get reader id).map content ↔
      shows g' reader.token.origin id = shows g reader.token.origin id := by
  rw [get_content, get_content, hread]
  cases shows g' reader.token.origin id <;> cases shows g reader.token.origin id <;> simp [Except.bind]

/-! ## How a node stands to a boundary -/

/-- What a boundary finds under an id: no node, a node of another boundary, a deleted one, or a node. -/
inductive Standing (F V : Type)
  | missing
  | foreign
  | deleted
  | there (c : Content F V)

/-- The content that restoring a record gives: `put_node` gives the default provenance. -/
def restoredContent (r : NodeRecord F V) : Content F V :=
  ⟨r.objectType, r.embedding, r.metadata, 0, .default, 0⟩

theorem Content.Plain.restoredContent_eq {r : NodeRecord F V} (h : (content r).Plain) :
    restoredContent r = content r := by
  obtain ⟨htenant, horigin, hdevice⟩ := h
  simp only [content] at htenant horigin hdevice
  rw [content, htenant, horigin, hdevice, restoredContent]

namespace Standing

def shown : Standing F V → Option (Content F V)
  | there c => some c
  | _ => none

/-- Restoring a state: a deleted node stays deleted. -/
def restore : Standing F V → Option (NodeRecord F V) → Standing F V
  | there _, none => deleted
  | there _, some r => there (restoredContent r)
  | missing, some r => there (restoredContent r)
  | s, _ => s

variable (s : Standing F V)

/-- The states from the first on that meets or makes a node. -/
def effective (states : List (Option (NodeRecord F V))) : List (Option (NodeRecord F V)) :=
  match s with
  | missing => states.dropWhile (·.isNone)
  | _ => states

/-- When restoring the states in turn shows this: no node, if the id is another's or that of a deleted
node, or if no state or one of them is the absence of the node; a content, if none of this is so and the
last state has that content up to its provenance, which is the default. -/
def Gives (states : List (Option (NodeRecord F V))) : Option (Content F V) → Prop
  | none => s = foreign ∨ s = deleted ∨ s.effective states = [] ∨ none ∈ s.effective states
  | some c => s ≠ foreign ∧ s ≠ deleted ∧ none ∉ s.effective states ∧
    ∃ r, states.getLast? = some (some r) ∧ restoredContent r = c

variable {states : List (Option (NodeRecord F V))}

theorem foldl_foreign (states : List (Option (NodeRecord F V))) : states.foldl restore foreign = foreign := by
  induction states with
  | nil => rfl
  | cons _ _ ih => exact ih

theorem foldl_deleted (states : List (Option (NodeRecord F V))) : states.foldl restore deleted = deleted := by
  induction states with
  | nil => rfl
  | cons _ _ ih => exact ih

theorem foldl_there_of_mem (h : none ∈ states) (c : Content F V) :
    states.foldl restore (there c) = deleted := by
  induction states generalizing c with
  | nil => exact absurd h not_mem_nil
  | cons state states ih =>
    cases state with
    | none => exact foldl_deleted states
    | some r => exact ih ((mem_cons.mp h).resolve_left (some_ne_none r).symm) _

theorem foldl_there {r : NodeRecord F V} (h : none ∉ states) (hlast : states.getLast? = some (some r))
    (c : Content F V) : states.foldl restore (there c) = there (restoredContent r) := by
  obtain ⟨init, rfl⟩ := List.getLast?_eq_some_iff.mp hlast
  rw [foldl_append]
  have hinit : none ∉ init := fun hmem => h (mem_append_left _ hmem)
  clear h hlast
  induction init generalizing c with
  | nil => rfl
  | cons state init ih =>
    rw [mem_cons, not_or] at hinit
    cases state with
    | none => exact absurd rfl hinit.1
    | some r' => exact ih _ hinit.2

theorem foldl_missing (states : List (Option (NodeRecord F V))) :
    states.dropWhile (·.isNone) = [] ∧ states.foldl restore missing = missing ∨
    states.dropWhile (·.isNone) ≠ [] ∧ ∃ c, states.foldl restore missing =
      (states.dropWhile (·.isNone)).foldl restore (there c) := by
  induction states with
  | nil => exact .inl ⟨rfl, rfl⟩
  | cons state states ih =>
    cases state with
    | none => exact ih
    | some r => exact .inr ⟨cons_ne_nil _ _, restoredContent r, rfl⟩

theorem getLast?_dropWhile {α : Type} {p : α → Bool} {l : List α} (h : l.dropWhile p ≠ []) :
    (l.dropWhile p).getLast? = l.getLast? := by
  conv_rhs => rw [← takeWhile_append_dropWhile (p := p) (l := l)]
  rw [List.getLast?_append_of_ne_nil _ h]

theorem shown_foldl_there_iff {live : List (Option (NodeRecord F V))} (hne : live ≠ []) (c : Content F V)
    (target : Option (Content F V)) : (live.foldl restore (there c)).shown = target ↔
      match target with
      | none => none ∈ live
      | some c => none ∉ live ∧ ∃ r, live.getLast? = some (some r) ∧ restoredContent r = c := by
  by_cases hmem : none ∈ live
  · rw [foldl_there_of_mem hmem]
    cases target with
    | none => exact iff_of_true rfl hmem
    | some c => exact iff_of_false (fun h => nomatch h) fun h => h.1 hmem
  · obtain ⟨last, hlast⟩ := isSome_iff_exists.mp (List.getLast?_isSome.mpr hne)
    cases last with
    | none => exact absurd (mem_of_getLast? hlast) hmem
    | some r =>
      rw [foldl_there hmem hlast, hlast]
      cases target with
      | none => exact iff_of_false (fun h => nomatch h) hmem
      | some c => simp [shown, hmem]

/-- **What restoring shows.** -/
theorem shown_foldl_iff (hne : states ≠ []) (target : Option (Content F V)) :
    (states.foldl restore s).shown = target ↔ s.Gives states target := by
  cases s with
  | foreign => cases target <;> simp [foldl_foreign, shown, Gives]
  | deleted => cases target <;> simp [foldl_deleted, shown, Gives]
  | there c =>
    rw [shown_foldl_there_iff hne]
    cases target <;> simp [Gives, effective, hne]
  | missing =>
    rcases foldl_missing states with ⟨hlive, hfold⟩ | ⟨hlive, c, hfold⟩
    · rw [hfold]
      cases target with
      | none => simp [shown, Gives, effective, hlive]
      | some c =>
        refine iff_of_false (fun h => nomatch h) fun ⟨_, _, _, r, hlast, _⟩ => ?_
        exact Bool.false_ne_true (dropWhile_eq_nil_iff.mp hlive _ (mem_of_getLast? hlast))
    · rw [hfold, shown_foldl_there_iff hlive]
      cases target <;> simp [Gives, effective, hlive, getLast?_dropWhile hlive]

theorem gives_none (hlast : states.getLast? = some none) : s.Gives states none := by
  have hmem := mem_of_getLast? hlast
  cases s with
  | missing =>
    by_cases hlive : states.dropWhile (·.isNone) = []
    · exact .inr (.inr (.inl hlive))
    · exact .inr (.inr (.inr (mem_of_getLast? ((getLast?_dropWhile hlive).trans hlast))))
  | foreign => exact .inl rfl
  | deleted => exact .inr (.inl rfl)
  | there c => exact .inr (.inr (.inr hmem))

theorem effective_subset : s.effective states ⊆ states := by
  cases s with
  | missing => exact (dropWhile_suffix _).subset
  | foreign => exact List.Subset.refl _
  | deleted => exact List.Subset.refl _
  | there c => exact List.Subset.refl _

end Standing

/-- How the node of an entry of the node table stands to the boundary. -/
def standing (boundary : TrustBoundaryId) (entry : Option (NodeRecord F V)) : Standing F V :=
  match entry with
  | none => .missing
  | some n =>
    if n.owner ≠ boundary then .foreign
    else if n.tombstone then .deleted
    else .there (content n)

theorem shown_standing (boundary : TrustBoundaryId) (entry : Option (NodeRecord F V)) :
    (standing boundary entry).shown = shown boundary entry := by
  cases entry with
  | none => rfl
  | some n =>
    by_cases howner : n.owner = boundary
    · cases htombstone : n.tombstone <;> simp [standing, shown, Option.filter, Standing.shown, *]
    · simp [standing, shown, Option.filter, Standing.shown, howner]

/-! ## Restoring an entry -/

/-- A state is restored over an entry of the node table. -/
inductive Restores (boundary : TrustBoundaryId) :
    Option (NodeRecord F V) → Option (NodeRecord F V) → Option (NodeRecord F V) → Prop
  | put {r n : NodeRecord F V} {old : Option (NodeRecord F V)}
      (hold : ∀ n₀, old = some n₀ → n₀.owner = boundary) (howner : n.owner = boundary)
      (htombstone : n.tombstone = old.any (·.tombstone)) (hcontent : content n = restoredContent r) :
      Restores boundary (some r) old (some n)
  | absent {old : Option (NodeRecord F V)} (h : shown boundary old = none) : Restores boundary none old old
  | deleted {n n' : NodeRecord F V} (hold : n.owner = boundary) (hlive : n.tombstone = false)
      (howner : n'.owner = boundary) (h : n'.tombstone = true) : Restores boundary none (some n) (some n')

/-- States are restored one after the other. -/
inductive RestoresAll (boundary : TrustBoundaryId) :
    List (Option (NodeRecord F V)) → Option (NodeRecord F V) → Option (NodeRecord F V) → Prop
  | nil {entry : Option (NodeRecord F V)} : RestoresAll boundary [] entry entry
  | cons {state : Option (NodeRecord F V)} {states : List (Option (NodeRecord F V))}
      {old mid new : Option (NodeRecord F V)} (h : Restores boundary state old mid)
      (hrest : RestoresAll boundary states mid new) : RestoresAll boundary (state :: states) old new

variable {b : TrustBoundaryId} {state : Option (NodeRecord F V)}
  {states states' : List (Option (NodeRecord F V))} {old mid new : Option (NodeRecord F V)}

theorem RestoresAll.append (h : RestoresAll b states old mid) (h' : RestoresAll b states' mid new) :
    RestoresAll b (states ++ states') old new := by
  induction h with
  | nil => exact h'
  | cons hstate _ ih => exact .cons hstate (ih h')

theorem RestoresAll.eq_of_nil (h : RestoresAll b ([] : List (Option (NodeRecord F V))) old new) :
    new = old := by
  cases h
  rfl

theorem Restores.standing_eq (h : Restores b state old new) :
    standing b new = (standing b old).restore state := by
  cases h with
  | put hold howner htombstone hcontent =>
    cases old with
    | none => simp [standing, Standing.restore, howner, htombstone, hcontent]
    | some n₀ =>
      have hsame := hold n₀ rfl
      cases hdeleted : n₀.tombstone <;>
        simp [standing, Standing.restore, howner, htombstone, hcontent, hsame, hdeleted]
  | absent hnone =>
    rw [← shown_standing] at hnone
    cases hstanding : standing b old with
    | there c => exact nomatch hstanding ▸ hnone
    | missing => rfl
    | foreign => rfl
    | deleted => rfl
  | deleted hold hlive howner h => simp [standing, Standing.restore, hold, hlive, howner, h]

theorem RestoresAll.standing_eq (h : RestoresAll b states old new) :
    standing b new = states.foldl Standing.restore (standing b old) := by
  induction h with
  | nil => rfl
  | cons hstate _ ih => rw [ih, hstate.standing_eq, foldl_cons]

theorem RestoresAll.shown_eq_iff (h : RestoresAll b states old new) (hne : states ≠ [])
    (target : Option (Content F V)) : shown b new = target ↔ (standing b old).Gives states target := by
  rw [← shown_standing, h.standing_eq, Standing.shown_foldl_iff _ hne]

end

/-! ## Restoring from a snapshot -/

section
variable {F V A I : Type} {C : Codec V} {S : Serde F V} {R : AgentRuntime A I}
  {g g' : KnowledgeGraph F V} {call : Call C} {writes : Nat → Readings C} {records : List ActionRecord}
  {svc svc' : RecoveryService F V}

theorem putNode_restores {id y : NodeId} {r : NodeRecord F V}
    (h : g.putNode S C call (some id) r.objectType r.embedding r.metadata = (.ok y, g')) (x : NodeId) :
    if id = x then Restores call.callerBoundary (some r) g.index.nodes[x]? g'.index.nodes[x]?
    else g'.index.nodes[x]? = g.index.nodes[x]? := by
  obtain ⟨howner, -, rfl⟩ := putNodeWithProvenance_eq_ok S C h
  rw [get_stored_nodes, Inner.allocate]
  split
  · next hid =>
    subst hid
    simp only [bind_some] at howner
    refine .put howner ?_ rfl rfl
    cases hnode : g.index.nodes[id]? with
    | none => simp [nodeRecord, hnode]
    | some n => simp [nodeRecord, hnode, howner n hnode]
  · rfl

theorem deleteNode_restores {id : NodeId} {result : Except GraphError Unit}
    (h : g.deleteNode S C call id = (result, g')) (hresult : result = .ok () ∨ result = .error .notFound)
    (x : NodeId) : if id = x then Restores call.callerBoundary none g.index.nodes[x]? g'.index.nodes[x]?
    else g'.index.nodes[x]? = g.index.nodes[x]? := by
  rcases deleteNode_cases S C h hresult with ⟨rfl, hdeleted⟩ | ⟨n, hn, howner, hlive, rfl⟩
  · split
    · next hid =>
      subst hid
      refine .absent ?_
      cases hnode : g'.index.nodes[id]? with
      | none => rfl
      | some n =>
        by_cases howner : n.owner = call.callerBoundary
        · simp [shown, Option.filter, hdeleted n hnode howner]
        · simp [shown, Option.filter, howner]
    · rfl
  · rw [get_stored_nodes, Inner.allocate]
    split
    · next hid =>
      subst hid
      rw [hn]
      exact .deleted howner hlive howner rfl
    · rfl

/-- The states that a snapshot has for the object, if it is one of those to be restored. -/
def entriesFor (objects : List NodeId) (x : NodeId) (snapshot : Snapshot F V) :
    List (Option (NodeRecord F V)) :=
  (snapshot.filter fun e => e.1 ∈ objects ∧ e.1 = x).map (·.2)

theorem entriesFor_cons (objects : List NodeId) (x : NodeId) (e : NodeId × Option (NodeRecord F V))
    (snapshot : Snapshot F V) : entriesFor objects x (e :: snapshot) =
      if e.1 ∈ objects ∧ e.1 = x then e.2 :: entriesFor objects x snapshot
      else entriesFor objects x snapshot := by
  unfold entriesFor
  rw [filter_cons]
  split
  · next h => rw [if_pos (of_decide_eq_true h), map_cons]
  · next h => rw [if_neg fun heq => h (decide_eq_true heq)]

/-- States are restored one after the other, all of them if the restore succeeds. -/
def Attempts (boundary : TrustBoundaryId) (states : List (Option (NodeRecord F V)))
    (result : Except RecoveryError Unit) (old new : Option (NodeRecord F V)) : Prop :=
  ∃ done, done <+: states ∧ (result = .ok () → done = states) ∧ RestoresAll boundary done old new

variable {states : List (Option (NodeRecord F V))} {result : Except RecoveryError Unit} {turns : Nat → Turn C}
  {snapshot : Snapshot F V} {objects : List NodeId} {b : TrustBoundaryId} {ids : List ActionId}
  {agents agents' : A}

theorem Attempts.failed
    {entry : Option (NodeRecord F V)} {err : RecoveryError} : Attempts b states (.error err) entry entry :=
  ⟨[], nil_prefix, fun hok => (by cases hok), .nil⟩

theorem Attempts.cons {state old mid new : Option (NodeRecord F V)}
    (h : Restores b state old mid) (hrest : Attempts b states result mid new) :
    Attempts b (state :: states) result old new := by
  obtain ⟨done, hprefix, hall, hrestores⟩ := hrest
  exact ⟨state :: done, (prefix_cons_inj state).mpr hprefix, fun hok => by rw [hall hok],
    .cons h hrestores⟩

theorem applySnapshot_attempts
    (h : applySnapshot S C call objects writes snapshot g = (result, g')) (x : NodeId) :
    Attempts call.callerBoundary (entriesFor objects x snapshot) result g.index.nodes[x]?
      g'.index.nodes[x]? := by
  induction snapshot generalizing writes g with
  | nil =>
    cases h
    exact ⟨[], prefix_rfl, fun _ => rfl, .nil⟩
  | cons entry entries ih =>
    obtain ⟨id, state⟩ := entry
    rw [entriesFor_cons]
    -- one entry is restored, and then the others
    have hstep : ∀ (mid : KnowledgeGraph F V) (later : Nat → Readings C), id ∈ objects →
        (if id = x then Restores call.callerBoundary state g.index.nodes[x]? mid.index.nodes[x]?
          else mid.index.nodes[x]? = g.index.nodes[x]?) →
        applySnapshot S C call objects later entries mid = (result, g') →
        Attempts call.callerBoundary
          (if id ∈ objects ∧ id = x then state :: entriesFor objects x entries
            else entriesFor objects x entries) result g.index.nodes[x]? g'.index.nodes[x]? := by
      intro mid later hmem hone hlater
      by_cases hid : id = x
      · rw [if_pos hid] at hone
        rw [if_pos ⟨hmem, hid⟩]
        exact .cons hone (ih hlater)
      · rw [if_neg hid] at hone
        rw [if_neg fun hboth => hid hboth.2, ← hone]
        exact ih hlater
    unfold applySnapshot at h
    split at h
    · next hmem =>
      split at h
      · split at h
        · next hput =>
          obtain ⟨rfl, rfl⟩ := Prod.mk.inj h
          rw [putNodeWithProvenance_error_index S C hput]
          exact .failed
        · next hput => exact hstep _ _ hmem (putNode_restores hput x) h
      · split at h
        · next hdelete => exact hstep _ _ hmem (deleteNode_restores hdelete (.inl rfl) x) h
        · next hdelete => exact hstep _ _ hmem (deleteNode_restores hdelete (.inr rfl) x) h
        · next hdelete =>
          obtain ⟨rfl, rfl⟩ := Prod.mk.inj h
          rw [deleteNode_error_index S C hdelete]
          exact .failed
    · next hmem =>
      rw [if_neg fun hboth => hmem hboth.1]
      exact ih h

theorem applySnapshot_restores
    (h : applySnapshot S C call objects writes snapshot g = (.ok (), g')) (x : NodeId) :
    RestoresAll call.callerBoundary (entriesFor objects x snapshot) g.index.nodes[x]? g'.index.nodes[x]? := by
  obtain ⟨states, -, hall, hrestores⟩ := applySnapshot_attempts h x
  exact hall rfl ▸ hrestores

/-- The states that restoring the action gives to the object. -/
def restoredStates (svc : RecoveryService F V) (x : NodeId) (a : ActionRecord) :
    List (Option (NodeRecord F V)) :=
  match svc.snapshots[a.recoveryPointBefore]? with
  | none => []
  | some snapshot => entriesFor a.objectsTouched x snapshot

theorem restoreObjects_restores {svc : RecoveryService F V} {a : ActionRecord}
    (h : svc.restoreObjects S C g call writes a.recoveryPointBefore a.objectsTouched = (.ok (), g'))
    (x : NodeId) :
    RestoresAll call.callerBoundary (restoredStates svc x a) g.index.nodes[x]? g'.index.nodes[x]? := by
  unfold restoreObjects at h
  split at h
  · exact nomatch h
  · next snapshot hsnap =>
    rw [restoredStates, hsnap]
    exact applySnapshot_restores h x

theorem restoreEach_restores {svc : RecoveryService F V}
    (h : svc.restoreEach S C call turns records g = (.ok (), g'))
    (x : NodeId) : RestoresAll call.callerBoundary (records.flatMap (restoredStates svc x))
      g.index.nodes[x]? g'.index.nodes[x]? := by
  induction records generalizing turns g with
  | nil =>
    cases h
    exact .nil
  | cons record records ih =>
    unfold restoreEach at h
    split at h
    · exact nomatch h
    · next hfirst =>
      rw [flatMap_cons]
      exact (restoreObjects_restores hfirst x).append (ih h)

theorem recoverEach_cons_eq_ok {record : ActionRecord}
    (h : svc.recoverEach S C R call turns (record :: records) g agents = (.ok ids, svc', g', agents')) :
    ∃ mid svc₁ agents₁ ids',
      svc.restoreObjects S C g call (turns 0).writes record.recoveryPointBefore record.objectsTouched =
        (.ok (), mid) ∧
      svc.recordActionAborted record.actionId = (.ok (), svc₁) ∧
      svc₁.recoverEach S C R call (fun i => turns (i + 1)) records mid agents₁ =
        (.ok ids', svc', g', agents') := by
  unfold recoverEach at h
  split at h
  · cases h
  · next mid hrestore =>
    split at h
    · cases h
    · next agents₁ _ =>
      split at h
      · cases h
      · next svc₁ habort =>
        dsimp only at h
        cases hrest : svc₁.recoverEach S C R call (fun i => turns (i + 1)) records mid agents₁ with
        | mk result rest =>
          rw [hrest] at h
          obtain ⟨hresult, rfl⟩ := Prod.mk.inj h
          cases result with
          | error err => cases hresult
          | ok ids' => exact ⟨mid, svc₁, agents₁, ids', hrestore, habort, hrest⟩

theorem restoredStates_congr (h : svc'.snapshots = svc.snapshots)
    (x : NodeId) : restoredStates svc' x = restoredStates svc x := by
  funext a
  unfold restoredStates
  rw [h]

theorem recoverEach_restores
    (h : svc.recoverEach S C R call turns records g agents = (.ok ids, svc', g', agents')) (x : NodeId) :
    RestoresAll call.callerBoundary (records.flatMap (restoredStates svc x))
      g.index.nodes[x]? g'.index.nodes[x]? := by
  induction records generalizing turns svc g agents ids with
  | nil =>
    cases h
    exact .nil
  | cons record records ih =>
    obtain ⟨mid, svc₁, agents₁, ids', hrestore, habort, hrest⟩ := recoverEach_cons_eq_ok h
    have hkept := setStatus_restated svc record.actionId .aborted
    rw [← recordActionAborted, habort] at hkept
    rw [flatMap_cons, ← restoredStates_congr hkept.snapshots x]
    exact ((restoredStates_congr hkept.snapshots x) ▸ restoreObjects_restores hrestore x).append (ih hrest)

end

/-! ## Notes -/

def noteText (c : Content Int Json) : String :=
  match c.metadata with
  | .str text => text
  | _ => ""

def noteView (c : Content Int Json) : String × Bool :=
  (noteText c, c.tenantId = 0 ∧ c.origin = .default ∧ c.deviceOrigin = 0)

def isThere : Standing Int Json → Bool
  | .there _ => true
  | _ => false

variable {s : Standing Int Json}

theorem of_isThere (h : isThere s = true) : s ≠ .foreign ∧ s ≠ .deleted := by
  constructor
  · rintro rfl
    exact nomatch h
  · rintro rfl
    exact nomatch h

theorem gives_single {r : NodeRecord Int Json} (h : isThere s = true)
    (hplain : (content r).Plain) : s.Gives [some r] (some (content r)) := by
  obtain ⟨hforeign, hdeleted⟩ := of_isThere h
  refine ⟨hforeign, hdeleted, fun hmem => ?_, r, rfl, hplain.restoredContent_eq⟩
  exact some_ne_none r (mem_singleton.mp (s.effective_subset hmem)).symm

theorem plain_of_decide {c : Content Int Json}
    (h : decide (c.tenantId = 0 ∧ c.origin = .default ∧ c.deviceOrigin = 0) = true) : c.Plain :=
  have ⟨htenant, horigin, hdevice⟩ := of_decide_eq_true h
  ⟨htenant, horigin, hdevice⟩

end Hyperion.Recovery
