import Hyperion.Federation.Merge

/-!
# Rounds between two devices

The copies that a merge creates are nodes of the receiver, which its own dump shows. The table of the
sender does not know them, so the sender takes them for new nodes in the next round the other way, and
so on. The backlog of a device is the number of nodes that it shows and that its peer has no copy of.
A round empties the backlog of the sender onto that of the receiver: together they never change.
-/

namespace Hyperion.Federation
open Lib Capability Storage Hyperion.Graph List Side Function Option KnowledgeGraph

/-! ## Two backlogs -/

variable (p : Side → Nat) (receivers : List Side) (s : Side)

theorem Side.other_other : s.other.other = s := by
  cases s <;> rfl

theorem Side.other_ne : s.other ≠ s := by
  cases s <;> exact fun h => nomatch h

theorem Side.eq_other {s t : Side} (h : s ≠ t) : s = t.other := by
  cases s <;> cases t <;> first | rfl | exact absurd rfl h

def total (p : Side → Nat) : Nat := p .a + p .b

theorem total_eq : total p = p s + p s.other := by
  cases s
  · rfl
  · exact Nat.add_comm _ _

/-- A round moves the backlog of the sender to the receiver. -/
def moved (p : Side → Nat) (receiver : Side) : Side → Nat := fun s => if s = receiver then total p else 0

theorem total_moved (receiver : Side) : total (moved p receiver) = total p := by
  cases receiver <;> simp [total, moved]

theorem total_foldl_moved : total (receivers.foldl moved p) = total p := by
  induction receivers generalizing p with
  | nil => rfl
  | cons s receivers ih => rw [foldl_cons, ih, total_moved]

theorem foldl_moved_concat (last : Side) : (receivers ++ [last]).foldl moved p = moved p last := by
  funext s
  rw [foldl_append, foldl_cons, foldl_nil, moved, total_foldl_moved, moved]

theorem moved_other (t : Side) : moved p t s.other = if s = t then 0 else total p := by
  by_cases hst : s = t
  · subst hst
    rw [moved, if_neg s.other_ne, if_pos rfl]
  · rw [moved, if_neg hst, if_pos (eq_other (Ne.symm hst)).symm]

/-- How often the direction changes. -/
def turns : List Side → Nat
  | s :: t :: rest => (if s = t then 0 else 1) + turns (t :: rest)
  | _ => 0

/-! ## A round -/

section
variable {F V : Type} {C : Codec V} {S : Serde F V} {b : Side → TrustBoundaryId} {w : Peers F V}
  {r : Round C}

/-- The number of nodes that a device shows and that its peer has no copy of. -/
def backlog (b : Side → TrustBoundaryId) (w : Peers F V) (s : Side) : Nat :=
  ((shownIds (w s).graph (b s)).filter fun id => (w s.other).translation.remoteToLocal[id]?.isNone).card

def nodeCount (b : Side → TrustBoundaryId) (w : Peers F V) : Nat :=
  total fun s => (shownIds (w s).graph (b s)).card

/-- The ids of a device are below its counter, its copies are there, and the ids that it has copies of
are below the counter of its peer. -/
structure Wired (w : Peers F V) : Prop where
  minted : ∀ s, Minted (w s).graph
  resolves : ∀ s, Resolves (w s).translation.remoteToLocal (w s).graph
  keys : ∀ (s : Side) (k : Nat) (v : NodeId), (w s).translation.remoteToLocal[k]? = some v →
    k < (w s.other).graph.storage.inner.nextObjectId

theorem wired_new (hminted : ∀ s, Minted (w s).graph) (hnew : ∀ s, (w s).translation = .new) : Wired w where
  minted := hminted
  resolves := fun s k v hk => by simp [hnew, KgTranslation.new] at hk
  keys := fun s k v hk => by simp [hnew, KgTranslation.new] at hk

/-- The round goes through: every device acts under its boundary, the sender may read, the nodes are
written, and the counter of the receiver does not wrap. -/
structure Round.Passes (b : Side → TrustBoundaryId) (w : Peers F V) (r : Round C) : Prop where
  reads : Graph.require r.sender .read = .ok ()
  sender : r.sender.token.origin = b r.receiver.other
  merger : r.call.callerBoundary = b r.receiver
  writes : ∀ i, WritePasses { r.call with toReadings := r.nodeReadings i }
  noWrap : (w r.receiver).graph.storage.inner.nextObjectId +
    ((w r.receiver.other).graph.index.nodes.size + (w r.receiver.other).graph.index.edges.size) < 2 ^ 64

def snapshotOf (g : KnowledgeGraph F V) (boundary : TrustBoundaryId) : GraphSnapshot F V where
  nodes := g.index.nodes.toList.filter fun (_, n) => n.seenBy boundary
  edges := g.index.edges.toList.filter fun (_, e) => e.seenBy boundary

section
variable (g : KnowledgeGraph F V) (boundary : TrustBoundaryId)

theorem dump_eq {caller : Caller} (hread : Graph.require caller .read = .ok ()) :
    g.dump caller = .ok (snapshotOf g caller.token.origin) := by
  rw [dump, hread]
  rfl

theorem snapshotOf_pairwise : (snapshotOf g boundary).nodes.Pairwise fun p q => p.1 ≠ q.1 :=
  g.index.nodes.toList_pairwise_ne.filter _

theorem snapshotOf_length_le : (snapshotOf g boundary).nodes.length + (snapshotOf g boundary).edges.length ≤
    g.index.nodes.size + g.index.edges.size := by
  rw [← Std.ExtTreeMap.length_toList, ← Std.ExtTreeMap.length_toList]
  exact Nat.add_le_add (length_filter_le _ _) (length_filter_le _ _)

theorem unknown_snapshotOf (map : HashMap Nat NodeId) : unknown map (snapshotOf g boundary).nodes =
    ((shownIds g boundary).filter fun id => map[id]?.isNone).card := by
  have hnodup : ((snapshotOf g boundary).nodes.map (·.1)).Nodup :=
    List.pairwise_map.mpr (snapshotOf_pairwise g boundary)
  have hids : shownIds g boundary = ((snapshotOf g boundary).nodes.map (·.1)).toFinset := rfl
  rw [hids, ← List.toFinset_filter, List.toFinset_card_of_nodup (hnodup.filter _), List.filter_map,
    List.length_map, unknown]
  rfl

end

theorem Round.Passes.exec_eq (hpass : r.Passes b w) (h : Wired w) :
    ∃ report map' mid g' k, r.exec S w = (some report, Function.update w r.receiver ⟨g', ⟨map'⟩⟩) ∧
      report.nodesCreated = backlog b w r.receiver.other ∧
      NodesMerged (b r.receiver) (snapshotOf (w r.receiver.other).graph (b r.receiver.other)).nodes
        (w r.receiver).translation.remoteToLocal map' (w r.receiver).graph mid ∧ Kept k mid g' := by
  obtain ⟨hreads, hsender, hmerger, hwrites, hwrap⟩ := hpass
  have hle := snapshotOf_length_le (w r.receiver.other).graph (b r.receiver.other)
  obtain ⟨report, map', mid, g', hmerge, hcreated, hmerged, hkept⟩ := mergeSnapshot_merged (S := S)
    r.senderDeviceId r.edgeReadings hwrites (h.minted r.receiver) (h.resolves r.receiver)
    (snapshotOf_pairwise (w r.receiver.other).graph (b r.receiver.other)) (by omega)
  refine ⟨report, map', mid, g', _, ?_, ?_, hmerger ▸ hmerged, hkept⟩
  · simp only [Round.exec, dump_eq _ hreads, hsender, hmerge]
  · rw [hcreated, unknown_snapshotOf, backlog, other_other]

/-- The receiver after a merge: its nodes are those it had and `k` copies under the next ids. -/
structure Received (b : Side → TrustBoundaryId) (w : Peers F V) (t : Side) (device : Device F V) : Prop where
  minted : Minted device.graph
  resolves : Resolves device.translation.remoteToLocal device.graph
  next_le : (w t).graph.storage.inner.nextObjectId ≤ device.graph.storage.inner.nextObjectId
  shown : shownIds device.graph (b t) = shownIds (w t).graph (b t) ∪
    Finset.Ico (w t).graph.storage.inner.nextObjectId
      ((w t).graph.storage.inner.nextObjectId + backlog b w t.other)
  known : ∀ id, device.translation.remoteToLocal[id]? = none ↔
    (w t).translation.remoteToLocal[id]? = none ∧ id ∉ shownIds (w t.other).graph (b t.other)

theorem Round.Passes.received (hpass : r.Passes b w) (h : Wired w) :
    ∃ report device, r.exec S w = (some report, Function.update w r.receiver device) ∧
      report.nodesCreated = backlog b w r.receiver.other ∧ Received b w r.receiver device := by
  obtain ⟨report, map', mid, g', k, hexec, hcreated, hmerged, hkept⟩ := hpass.exec_eq (S := S) h
  have hbacklog : unknown (w r.receiver).translation.remoteToLocal
      (snapshotOf (w r.receiver.other).graph (b r.receiver.other)).nodes = backlog b w r.receiver.other := by
    rw [unknown_snapshotOf, backlog, Side.other_other]
  have hcopied := hbacklog ▸ hmerged.copied
  refine ⟨report, ⟨g', ⟨map'⟩⟩, hexec, hcreated, hkept.minted, ?_, ?_, ?_, fun id => ?_⟩
  · intro remoteId localId hid
    rw [hkept.nodes]
    exact hmerged.resolves remoteId localId hid
  · exact (Nat.le_add_right _ _).trans (hcopied.next.symm.le.trans hkept.next_le)
  · rw [← hcopied.shown, shownIds, hkept.nodes, shownIds]
  · rw [hmerged.known]
    simp only [shownIds, List.mem_toFinset]
    rfl

section
variable {t : Side} {device : Device F V}

theorem Wired.received (h : Wired w) (hreceived : Received b w t device) :
    Wired (Function.update w t device) where
  minted := fun s => by
    by_cases hs : s = t
    · subst hs
      simpa using hreceived.minted
    · simpa [hs] using h.minted s
  resolves := fun s => by
    by_cases hs : s = t
    · subst hs
      simpa using hreceived.resolves
    · simpa [hs] using h.resolves s
  keys := fun s k v hk => by
    by_cases hs : s = t
    · subst hs
      rw [update_self] at hk
      rw [update_of_ne s.other_ne]
      cases hold : (w s).translation.remoteToLocal[k]? with
      | some v' => exact h.keys s k v' hold
      | none =>
        have hshown : k ∈ shownIds (w s.other).graph (b s.other) := by
          by_contra hout
          exact some_ne_none v (hk.symm.trans ((hreceived.known k).mpr ⟨hold, hout⟩))
        obtain ⟨n, hn, -⟩ := mem_shownIds.mp hshown
        exact (h.minted s.other).nodes k n hn
    · rw [update_of_ne hs] at hk
      obtain rfl := eq_other hs
      rw [other_other, update_self]
      exact lt_of_lt_of_le (other_other t ▸ h.keys t.other k v hk) hreceived.next_le

theorem Minted.disjoint_Ico {g : KnowledgeGraph F V} (h : Minted g) (boundary : TrustBoundaryId) (k : Nat) :
    Disjoint (shownIds g boundary)
      (Finset.Ico g.storage.inner.nextObjectId (g.storage.inner.nextObjectId + k)) := by
  refine Finset.disjoint_left.mpr fun id hid hrange => ?_
  obtain ⟨n, hn, -⟩ := mem_shownIds.mp hid
  exact absurd (h.nodes id n hn) (Nat.not_lt.mpr (Finset.mem_Ico.mp hrange).1)

theorem Received.card_shown (h : Wired w) (hreceived : Received b w t device) :
    (shownIds device.graph (b t)).card = (shownIds (w t).graph (b t)).card + backlog b w t.other := by
  rw [hreceived.shown, Finset.card_union_of_disjoint ((h.minted t).disjoint_Ico _ _), Nat.card_Ico,
    Nat.add_sub_cancel_left]

theorem Received.backlog_eq (h : Wired w) (hreceived : Received b w t device) :
    backlog b (Function.update w t device) = moved (backlog b w) t := by
  funext s
  by_cases hs : s = t
  · subst hs
    -- the sender has no copies of the new nodes
    have hnew : ((Finset.Ico (w s).graph.storage.inner.nextObjectId
          ((w s).graph.storage.inner.nextObjectId + backlog b w s.other)).filter
        fun id => (w s.other).translation.remoteToLocal[id]?.isNone).card = backlog b w s.other := by
      rw [Finset.filter_true_of_mem, Nat.card_Ico, Nat.add_sub_cancel_left]
      intro id hid
      rw [isNone_iff_eq_none, eq_none_iff_forall_ne_some]
      intro v hv
      have hlt := h.keys s.other id v hv
      rw [other_other] at hlt
      exact absurd hlt (Nat.not_lt.mpr (Finset.mem_Ico.mp hid).1)
    rw [moved, if_pos rfl, total_eq _ s, backlog, update_self, update_of_ne s.other_ne,
      hreceived.shown, Finset.filter_union, Finset.card_union_of_disjoint, hnew, ← backlog]
    exact Finset.disjoint_filter_filter ((h.minted s).disjoint_Ico _ _)
  · rw [moved, if_neg hs]
    obtain rfl := eq_other hs
    rw [backlog, other_other, update_self, update_of_ne t.other_ne,
      Finset.card_eq_zero, Finset.filter_eq_empty_iff]
    intro id hid hnone
    exact ((hreceived.known id).mp (isNone_iff_eq_none.mp hnone)).2 hid

theorem Received.nodeCount_eq (h : Wired w) (hreceived : Received b w t device) :
    nodeCount b (Function.update w t device) = nodeCount b w + backlog b w t.other := by
  rw [nodeCount, nodeCount, total_eq _ t, total_eq _ t, update_self,
    update_of_ne t.other_ne, hreceived.card_shown h]
  omega

end

/-- **A round that goes through creates the backlog of the sender, and moves it to the receiver.** -/
theorem round_moves (hpass : r.Passes b w) (h : Wired w) :
    (r.exec S w).1.map (·.nodesCreated) = some (backlog b w r.receiver.other) ∧
      Wired (r.exec S w).2 ∧ backlog b (r.exec S w).2 = moved (backlog b w) r.receiver ∧
      nodeCount b (r.exec S w).2 = nodeCount b w + backlog b w r.receiver.other := by
  obtain ⟨report, device, hexec, hcreated, hreceived⟩ := hpass.received (S := S) h
  rw [hexec]
  exact ⟨congrArg some hcreated, h.received hreceived, hreceived.backlog_eq h, hreceived.nodeCount_eq h⟩

/-! ## All rounds -/

variable {rounds before after : List (Round C)} {first last : Round C}

def AllPass (S : Serde F V) (b : Side → TrustBoundaryId) (w : Peers F V) : List (Round C) → Prop
  | [] => True
  | r :: rounds => r.Passes b w ∧ AllPass S b (r.exec S w).2 rounds

theorem AllPass.of_append (h : AllPass S b w (before ++ rounds)) :
    AllPass S b w before ∧ AllPass S b (runAll S w before) rounds := by
  induction before generalizing w with
  | nil => exact ⟨trivial, h⟩
  | cons r before ih =>
    obtain ⟨hbefore, hrest⟩ := ih h.2
    exact ⟨⟨h.1, hbefore⟩, hrest⟩

theorem runAll_moves (h : Wired w) (hpass : AllPass S b w rounds) : Wired (runAll S w rounds) ∧
    backlog b (runAll S w rounds) = (rounds.map (·.receiver)).foldl moved (backlog b w) := by
  induction rounds generalizing w with
  | nil => exact ⟨h, rfl⟩
  | cons r rounds ih =>
    obtain ⟨-, hwired, hmoved, -⟩ := round_moves (S := S) hpass.1 h
    have hrest := ih hwired hpass.2
    rw [hmoved] at hrest
    exact hrest

theorem created_after (h : Wired w) (hpass : AllPass S b w (before ++ last :: r :: after)) :
    (r.exec S (runAll S w (before ++ [last]))).1.map (·.nodesCreated) =
      some (if r.receiver = last.receiver then 0 else total (backlog b w)) := by
  rw [append_cons] at hpass
  obtain ⟨hbefore, hrest⟩ := hpass.of_append
  obtain ⟨hwired, hbacklog⟩ := runAll_moves h hbefore
  rw [(round_moves hrest.1 hwired).1, hbacklog, map_append, map_singleton, foldl_moved_concat,
    moved_other]

theorem nodeCount_runAll (h : Wired w) (hpass : AllPass S b w (first :: rounds)) :
    nodeCount b (runAll S w (first :: rounds)) = nodeCount b w + backlog b w first.receiver.other +
      total (backlog b w) * turns ((first :: rounds).map (·.receiver)) := by
  induction rounds generalizing w first with
  | nil => exact (round_moves hpass.1 h).2.2.2
  | cons r rounds ih =>
    obtain ⟨-, hwired, hmoved, hcount⟩ := round_moves (S := S) hpass.1 h
    have hrest := ih hwired hpass.2
    rw [hmoved, total_moved, hcount, moved_other] at hrest
    refine hrest.trans ?_
    simp only [map_cons, turns, Nat.mul_add, eq_comm (a := first.receiver)]
    split
    · rw [Nat.mul_zero, Nat.zero_add, Nat.add_zero]
    · rw [Nat.mul_one, Nat.add_assoc _ (total _)]

/-- **Once each device has merged the other, the rounds create no nodes if and only if there never was a
backlog or the direction does not change any more. Every change of direction adds the whole backlog.** -/
theorem further_rounds_create_nothing_iff (h : Wired w) (hpass : AllPass S b w rounds) :
    ((∀ before r after, rounds = before ++ r :: after → (∀ s, ∃ r' ∈ before, r'.receiver = s) →
        (r.exec S (runAll S w before)).1.map (·.nodesCreated) = some 0) ↔
      (∀ s, backlog b w s = 0) ∨
      ∀ before last r after, rounds = before ++ last :: r :: after →
        (∀ s, ∃ r' ∈ before ++ [last], r'.receiver = s) → r.receiver = last.receiver) ∧
    ∀ first rest, rounds = first :: rest → nodeCount b (runAll S w rounds) = nodeCount b w +
      backlog b w first.receiver.other + total (backlog b w) * turns (rounds.map (·.receiver)) := by
  refine ⟨⟨fun hnothing => ?_, fun hcond before r after hrounds hboth => ?_⟩, ?_⟩
  · by_cases htotal : total (backlog b w) = 0
    · left
      intro s
      rw [total_eq _ s] at htotal
      omega
    · right
      intro before last r after hrounds hboth
      have hzero := hnothing (before ++ [last]) r after (by rw [hrounds, append_cons]) hboth
      rw [created_after h (hrounds ▸ hpass)] at hzero
      by_contra hne
      rw [if_neg hne] at hzero
      exact htotal (some.inj hzero)
  · rcases eq_nil_or_concat before with rfl | ⟨init, last, rfl⟩
    · obtain ⟨r', hr', -⟩ := hboth .a
      exact absurd hr' not_mem_nil
    · rw [concat_eq_append] at hrounds hboth ⊢
      rw [← append_cons] at hrounds
      rw [created_after h (hrounds ▸ hpass)]
      rcases hcond with hzero | hdirection
      · simp [total, hzero]
      · rw [if_pos (hdirection init last r after hrounds hboth)]
  · rintro first rest rfl
    exact nodeCount_runAll h hpass

end

/-! ## One node -/

def syncCall : Side → Call jsonSerde.plain
  | .a => sampleCall .all false
  | .b => sampleCall .all true

def syncBoundary (s : Side) : TrustBoundaryId := (syncCall s).callerBoundary

def strangers : Peers Int Json
  | .a => ⟨singleNode, .new⟩
  | .b => ⟨.empty, .new⟩

def syncRound (receiver : Side) : Round jsonSerde.plain where
  receiver := receiver
  sender := ⟨(syncCall receiver.other).monitor, (syncCall receiver.other).token, 0⟩
  call := syncCall receiver
  nodeReadings := fun _ => (syncCall receiver).toReadings
  edgeReadings := fun _ => (syncCall receiver).toReadings
  senderDeviceId := 1

theorem minted_empty {F V : Type} : Minted (empty : KnowledgeGraph F V) where
  nodes := fun id n hn => by simp [empty, GraphIndex.empty] at hn
  edges := fun id e he => by simp [empty, GraphIndex.empty] at he
  pointers := fun id v hv => by simp [empty, Inner.empty] at hv

theorem syncCall_passes : WritePasses (syncCall s) := by
  cases s <;> exact ⟨by decide +kernel, by decide +kernel, rfl⟩

theorem singleNode_minted : Minted singleNode := by
  have hpass : WritePasses plainWriter := ⟨by decide +kernel, by decide +kernel, rfl⟩
  obtain ⟨g', hput, hcopied⟩ := putNode_new (S := jsonRecord) (minted_empty (F := Int)) hpass (by decide)
    "note" none .null 0
  have hsame : singleNode = g' := congrArg Prod.snd hput
  exact hsame ▸ hcopied.minted

theorem strangers_wired : Wired strangers := by
  refine wired_new (fun s => ?_) fun s => ?_
  · cases s with
    | a => exact singleNode_minted
    | b => exact minted_empty
  · cases s <;> rfl

theorem syncRound_passes {w : Peers Int Json} {receiver : Side}
    (hwrap : (w receiver).graph.storage.inner.nextObjectId +
      ((w receiver.other).graph.index.nodes.size + (w receiver.other).graph.index.edges.size) < 2 ^ 64) :
    (syncRound receiver).Passes syncBoundary w where
  reads := by cases receiver <;> decide +kernel
  sender := rfl
  merger := rfl
  writes := fun _ => syncCall_passes receiver
  noWrap := hwrap

theorem both_merged : ∃ r' ∈ [syncRound .b, syncRound .a], r'.receiver = s := by
  cases s with
  | a => exact ⟨syncRound .a, mem_cons_of_mem _ mem_cons_self, rfl⟩
  | b => exact ⟨syncRound .b, mem_cons_self, rfl⟩

theorem further_rounds_create_nothing_one_way :
    Wired strangers ∧
      AllPass jsonRecord syncBoundary strangers [syncRound .b, syncRound .a, syncRound .a] ∧
      ((syncRound .a).exec jsonRecord (runAll jsonRecord strangers [syncRound .b, syncRound .a])).1.map
        (·.nodesCreated) = some 0 := by
  have hpass : AllPass jsonRecord syncBoundary strangers [syncRound .b, syncRound .a, syncRound .a] :=
    ⟨syncRound_passes (by decide +kernel), syncRound_passes (by decide +kernel),
      syncRound_passes (by decide +kernel), trivial⟩
  refine ⟨strangers_wired, hpass, ?_⟩
  refine (further_rounds_create_nothing_iff strangers_wired hpass).1.mpr (.inr ?_)
    [syncRound .b, syncRound .a] (syncRound .a) [] rfl both_merged
  intro before last r after hrounds hboth
  match before with
  | [] =>
    obtain ⟨rfl, hrest⟩ := List.cons.inj hrounds
    obtain ⟨r', hr', hreceiver⟩ := hboth .a
    cases mem_singleton.mp hr'
    exact nomatch hreceiver
  | [_] =>
    obtain ⟨-, hrest⟩ := List.cons.inj hrounds
    obtain ⟨hlast, hrest⟩ := List.cons.inj hrest
    obtain ⟨hr, -⟩ := List.cons.inj hrest
    rw [← hlast, ← hr]
  | _ :: _ :: before =>
    have hlength := congrArg List.length hrounds
    simp only [length_append, length_cons, length_nil] at hlength
    omega

/-- **The third round between two devices with one node creates a node again.** -/
theorem third_round_creates_again : ∃ before r after,
    [syncRound .b, syncRound .a, syncRound .b] = before ++ r :: after ∧ Wired strangers ∧
      AllPass jsonRecord syncBoundary strangers [syncRound .b, syncRound .a, syncRound .b] ∧
      (∀ s, ∃ r' ∈ before, r'.receiver = s) ∧
      (r.exec jsonRecord (runAll jsonRecord strangers before)).1.map (·.nodesCreated) = some 1 := by
  refine ⟨[syncRound .b, syncRound .a], syncRound .b, [], rfl, strangers_wired, ?_, both_merged, ?_⟩
  · exact ⟨syncRound_passes (by decide +kernel), syncRound_passes (by decide +kernel),
      syncRound_passes (by decide +kernel), trivial⟩
  · decide +kernel

end Hyperion.Federation
