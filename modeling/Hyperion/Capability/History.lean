import Hyperion.Capability.Revocation
import Hyperion.Capability.Wire

/-!
# Histories of a monitor

A history lists what a monitor issued and what it was asked to revoke, newest first. Along every
history the generation recorded for a node counts the revocations made, since the node was created,
of the node or of one on its `parent_of` chain.
-/

namespace Hyperion.Capability
open Lib RevocationGraph CapabilityMonitor

/-- A token returned by `mint_root` (no parent) or `cap_derive`, or a call of `cap_revoke`. -/
inductive Event
  | issued (parent : Option TokenId) (t : CapabilityToken)
  | revoked (target : TokenId) (receipt : RevocationReceipt)

/-- A monitor and the token counter of the process it lives in. -/
structure Process where
  next : TokenId
  monitor : CapabilityMonitor

variable {evs : List Event} {p : Process} {t : CapabilityToken} {m' : CapabilityMonitor}

/-- Runs of one monitor. The tokens handed to `cap_derive` and `cap_revoke` are arbitrary: those the
monitor returned, those rebuilt by `authenticate_wire_token`, and forged ones. Calls that return a
fault, and `authenticate_wire_token`, leave the process as it is. The counter is shared with the
other monitors of the process (`elsewhere`). -/
inductive Reached : List Event → Process → Prop
  | new (next : TokenId) : Reached [] ⟨next, .new⟩
  | elsewhere {evs : List Event} {p : Process} (drawn : Nat) (h : Reached evs p) :
      Reached evs { p with next := p.next + drawn }
  | mintRoot {evs : List Event} {p : Process} {t : CapabilityToken} {m' : CapabilityMonitor}
      (now : Instant) (rights : RightsMask) (origin : TrustBoundaryId) (ttl : Option Duration)
      (h : Reached evs p) (hm : p.monitor.mintRoot p.next now rights origin ttl = (t, m')) :
      Reached (.issued none t :: evs) ⟨p.next + 1, m'⟩
  | capDerive {evs : List Event} {p : Process} {t : CapabilityToken} {m' : CapabilityMonitor}
      (now₁ now₂ : Instant) (parent : CapabilityToken) (rights : RightsMask)
      (ttl : Option Duration) (newOrigin : TrustBoundaryId) (h : Reached evs p)
      (hd : p.monitor.capDerive p.next now₁ now₂ parent rights ttl newOrigin = .ok (t, m')) :
      Reached (.issued (some parent.tokenId) t :: evs) ⟨p.next + 1, m'⟩
  | capRevoke {evs : List Event} {p : Process} {m' : CapabilityMonitor} {receipt : RevocationReceipt}
      (t : CapabilityToken) (h : Reached evs p) (hr : p.monitor.capRevoke t = some (m', receipt)) :
      Reached (.revoked t.tokenId receipt :: evs) ⟨p.next, m'⟩

def Event.isRevoked : Event → Bool
  | .issued _ _ => false
  | .revoked _ _ => true

open Classical in
/-- How many of the events revoke `id` or a node above it. -/
noncomputable def hits (g : RevocationGraph) (id : TokenId) : List Event → Nat
  | [] => 0
  | .issued _ _ :: evs => hits g id evs
  | .revoked target _ :: evs => hits g id evs + if g.Above target id then 1 else 0

/-- `evs` issued `t`, and `later` is what followed. -/
def IssuedBefore (evs later : List Event) (parent : Option TokenId) (t : CapabilityToken) : Prop :=
  ∃ earlier, evs = later ++ .issued parent t :: earlier

variable {g : RevocationGraph} {receipt : RevocationReceipt} {parent : Option TokenId} {id target : TokenId}

theorem issuedBefore_cons {e : Event} {evs later : List Event} : IssuedBefore (e :: evs) later parent t ↔
      (later = [] ∧ e = .issued parent t) ∨
        ∃ later', later = e :: later' ∧ IssuedBefore evs later' parent t := by
  constructor
  · rintro ⟨earlier, h⟩
    cases later with
    | nil => exact .inl ⟨rfl, by simpa using (List.cons.inj h).1⟩
    | cons e' later =>
      obtain ⟨rfl, htail⟩ := List.cons.inj h
      exact .inr ⟨later, rfl, earlier, htail⟩
  · rintro (⟨rfl, rfl⟩ | ⟨later', rfl, earlier, rfl⟩)
    · exact ⟨evs, rfl⟩
    · exact ⟨earlier, rfl⟩

/-! ## Counting the revocations that hit a node -/

theorem hits_revoked_above (h : g.Above target id) (receipt : RevocationReceipt) (evs : List Event) :
    hits g id (.revoked target receipt :: evs) = hits g id evs + 1 := by
  rw [hits, if_pos h]

theorem hits_revoked_not_above (h : ¬ g.Above target id) (receipt : RevocationReceipt) (evs : List Event) :
    hits g id (.revoked target receipt :: evs) = hits g id evs := by
  rw [hits, if_neg h, Nat.add_zero]

theorem hits_congr {g g' : RevocationGraph} {id : TokenId} (h : ∀ a, g'.Above a id ↔ g.Above a id)
    (evs : List Event) : hits g' id evs = hits g id evs := by
  induction evs with
  | nil => rfl
  | cons e evs ih =>
    cases e with
    | issued => exact ih
    | revoked target _ =>
      by_cases ha : g.Above target id
      · rw [hits_revoked_above ha, hits_revoked_above ((h target).mpr ha), ih]
      · rw [hits_revoked_not_above ha, hits_revoked_not_above (mt (h target).mp ha), ih]

theorem hits_eq_zero_iff {id : TokenId} :
    hits g id evs = 0 ↔ ∀ target receipt, .revoked target receipt ∈ evs → ¬ g.Above target id := by
  induction evs with
  | nil => simp [hits]
  | cons e evs ih =>
    cases e with
    | issued => simp [hits, ih]
    | revoked target receipt =>
      by_cases h : g.Above target id
      · rw [hits_revoked_above h]
        simp only [Nat.add_eq_zero_iff, one_ne_zero, and_false, false_iff, not_forall, not_not]
        exact ⟨target, receipt, List.mem_cons_self, h⟩
      · rw [hits_revoked_not_above h, ih]
        constructor
        · intro hall target' receipt' hmem
          rcases List.mem_cons.mp hmem with heq | hmem
          · cases heq
            exact h
          · exact hall target' receipt' hmem
        · exact fun hall target' receipt' hmem => hall target' receipt' (List.mem_cons_of_mem _ hmem)

theorem hits_le (g : RevocationGraph) (id : TokenId) (evs : List Event) :
    hits g id evs ≤ evs.countP Event.isRevoked := by
  induction evs with
  | nil => exact Nat.zero_le _
  | cons e evs ih =>
    cases e with
    | issued => simpa [hits, Event.isRevoked] using ih
    | revoked target receipt =>
      rw [hits, List.countP_cons_of_pos (by rfl)]
      exact Nat.add_le_add ih (by split <;> simp)

/-! ## The invariant -/

/-- What the node of an issued token says, `later` being the events since. -/
structure Recorded (g : RevocationGraph) (later : List Event) (parent : Option TokenId)
    (t : CapabilityToken) (n : RevocationNode) : Prop where
  get : g.nodes[t.tokenId]? = some n
  parent_eq : n.parent = parent
  objectId_eq : n.objectId = t.objectId
  rights_eq : n.rights = t.rights
  generation_eq : t.generation = 0
  liveGeneration_eq : n.liveGeneration = hits g t.tokenId later % 2 ^ 64

structure Sound (evs : List Event) (p : Process) : Prop where
  wf : p.monitor.graph.WellFormed p.next
  recorded : ∀ later parent t, IssuedBefore evs later parent t →
    ∃ n, Recorded p.monitor.graph later parent t n
  issued : ∀ id n, p.monitor.graph.nodes[id]? = some n →
    ∃ later parent t, IssuedBefore evs later parent t ∧ t.tokenId = id

theorem Sound.issue {g' : RevocationGraph} (S : Sound evs p)
    (hwf : g'.WellFormed (p.next + 1)) (hid : t.tokenId = p.next) (hgen : t.generation = 0)
    (hnew : ∃ kids, g'.nodes[p.next]? = some ⟨parent, kids, 0, t.objectId, t.rights⟩)
    (hold : ∀ x ≠ p.next, ∀ n, p.monitor.graph.nodes[x]? = some n →
      ∃ kids, g'.nodes[x]? = some { n with children := kids })
    (hdom : ∀ x ≠ p.next, p.monitor.graph.nodes[x]? = none → g'.nodes[x]? = none)
    (habove : ∀ x ≠ p.next, ∀ a, g'.Above a x ↔ p.monitor.graph.Above a x) (nextObjectId : Nat) :
    Sound (.issued parent t :: evs) ⟨p.next + 1, g', nextObjectId⟩ where
  wf := hwf
  recorded later parent' t' h := by
    rcases issuedBefore_cons.mp h with ⟨rfl, he⟩ | ⟨later, rfl, hbefore⟩
    · obtain ⟨rfl, rfl⟩ := Event.issued.inj he
      obtain ⟨kids, hnew⟩ := hnew
      exact ⟨_, ⟨hid ▸ hnew, rfl, rfl, rfl, hgen, rfl⟩⟩
    · obtain ⟨n, R⟩ := S.recorded later parent' t' hbefore
      have hne : t'.tokenId ≠ p.next := ne_of_lt (S.wf.id_lt _ _ R.get)
      obtain ⟨kids, hn⟩ := hold _ hne n R.get
      refine ⟨_, ⟨hn, R.parent_eq, R.objectId_eq, R.rights_eq, R.generation_eq, ?_⟩⟩
      rw [hits, hits_congr (habove _ hne)]
      exact R.liveGeneration_eq
  issued id n h := by
    by_cases hidn : id = p.next
    · exact ⟨[], parent, t, ⟨evs, rfl⟩, hid.trans hidn.symm⟩
    · cases hg : p.monitor.graph.nodes[id]? with
      | none =>
        rw [hdom id hidn hg] at h
        cases h
      | some m =>
        obtain ⟨later, parent', t', ⟨earlier, rfl⟩, ht'⟩ := S.issued id m hg
        exact ⟨.issued parent t :: later, parent', t', ⟨earlier, rfl⟩, ht'⟩

theorem Sound.mintRoot (S : Sound evs p) (now : Instant) (rights : RightsMask) (origin : TrustBoundaryId)
    (ttl : Option Duration) (hm : p.monitor.mintRoot p.next now rights origin ttl = (t, m')) :
    Sound (.issued none t :: evs) ⟨p.next + 1, m'⟩ := by
  cases hm
  refine S.issue (wellFormed_insertRoot S.wf _ _) rfl rfl ⟨[], ?_⟩ ?_ ?_ ?_ _
  · exact (get_insertRoot _ _ _).trans (if_pos rfl)
  · intro x hx n hn
    exact ⟨n.children, (get_insertRoot _ _ _).trans ((if_neg hx.symm).trans hn)⟩
  · intro x hx hn
    exact (get_insertRoot _ _ _).trans ((if_neg hx.symm).trans hn)
  · intro x _ a
    exact Iff.of_eq (congrFun₂ (above_congr
      (parentOf_insertRoot S.wf _ _)) a x)

theorem Sound.capDerive (S : Sound evs p) {now₁ now₂ : Instant} {parent : CapabilityToken}
    {rights : RightsMask} {ttl : Option Duration} {newOrigin : TrustBoundaryId}
    (hd : p.monitor.capDerive p.next now₁ now₂ parent rights ttl newOrigin = .ok (t, m')) :
    Sound (.issued (some parent.tokenId) t :: evs) ⟨p.next + 1, m'⟩ := by
  obtain ⟨hlive, -, rfl, rfl⟩ := (capDerive_eq_ok_iff ..).mp hd
  obtain ⟨⟨n, hn, -⟩, -⟩ := (isLive_iff ..).mp hlive
  have hp : parent.tokenId ∈ p.monitor.graph.nodes := by
    simp [Std.ExtTreeMap.mem_iff_isSome_getElem?, hn]
  refine S.issue (wellFormed_insertChild S.wf _ _ hp) rfl rfl ⟨[], ?_⟩ ?_ ?_ ?_ _
  · rw [get_insertChild, if_pos rfl]
  · intro x hx n hn
    rw [get_insertChild, if_neg hx.symm, hn]
    split
    · exact ⟨_, rfl⟩
    · exact ⟨n.children, rfl⟩
  · intro x hx hn
    rw [get_insertChild, if_neg hx.symm, hn]
    simp
  · intro x hx a
    exact above_insertChild S.wf _ _ hx

theorem Sound.capRevoke_spec (S : Sound evs p)
    (t : CapabilityToken) : ∃ g', p.monitor.capRevoke t = some ({ p.monitor with graph := g' },
        ⟨t.tokenId, Set.ncard {x | p.monitor.graph.Above t.tokenId x ∧ x ≠ t.tokenId}⟩) ∧
      (∀ x, p.monitor.graph.Above t.tokenId x →
        g'.nodes[x]? = p.monitor.graph.nodes[x]?.map RevocationNode.bump) ∧
      ∀ x, ¬ p.monitor.graph.Above t.tokenId x → g'.nodes[x]? = p.monitor.graph.nodes[x]? := by
  obtain ⟨g', hrev, habove, hnot⟩ := revoke_spec S.wf t.tokenId
  refine ⟨g', ?_, habove, hnot⟩
  rw [capRevoke, hrev]
  rfl

theorem Sound.capRevoke (S : Sound evs p) (hr : p.monitor.capRevoke t = some (m', receipt)) :
    Sound (.revoked t.tokenId receipt :: evs) ⟨p.next, m'⟩ := by
  obtain ⟨g', hrev, habove, hnot⟩ := S.capRevoke_spec t
  cases hrev.symm.trans hr
  obtain ⟨hkids, hpar, hdom⟩ := revoke_links fun x =>
    (em (p.monitor.graph.Above t.tokenId x)).imp (habove x) (hnot x)
  have hchain := above_congr hpar
  refine ⟨S.wf.congr hkids hpar hdom, fun later parent t' h => ?_, fun id n h => ?_⟩
  · obtain ⟨-, he⟩ | ⟨later, rfl, hbefore⟩ := issuedBefore_cons.mp h
    · cases he
    obtain ⟨n, R⟩ := S.recorded later parent t' hbefore
    have hcount : hits g' t'.tokenId = hits p.monitor.graph t'.tokenId :=
      funext (hits_congr fun a => Iff.of_eq (congrFun₂ hchain a _))
    by_cases ha : p.monitor.graph.Above t.tokenId t'.tokenId
    · have hn : g'.nodes[t'.tokenId]? = some n.bump := by rw [habove _ ha, R.get]; rfl
      refine ⟨_, ⟨hn, R.parent_eq, R.objectId_eq, R.rights_eq, R.generation_eq, ?_⟩⟩
      rw [hcount, hits_revoked_above ha, RevocationNode.bump, R.liveGeneration_eq, Nat.mod_add_mod]
    · have hn : g'.nodes[t'.tokenId]? = some n := by rw [hnot _ ha, R.get]
      refine ⟨_, ⟨hn, R.parent_eq, R.objectId_eq, R.rights_eq, R.generation_eq, ?_⟩⟩
      rw [hcount, hits_revoked_not_above ha, R.liveGeneration_eq]
  · cases hg : p.monitor.graph.nodes[id]? with
    | none =>
      rw [(hdom id).mpr hg] at h
      cases h
    | some m =>
      obtain ⟨later, parent', t', ⟨earlier, rfl⟩, ht'⟩ := S.issued id m hg
      exact ⟨_ :: later, parent', t', ⟨earlier, rfl⟩, ht'⟩

/-- **Every run keeps the invariant.** -/
theorem Reached.sound (h : Reached evs p) : Sound evs p := by
  induction h with
  | new next =>
    refine ⟨wellFormed_empty _, ?_, ?_⟩
    · rintro later parent t ⟨earlier, h⟩
      simp at h
    · intro id n h
      simp [CapabilityMonitor.new, RevocationGraph.empty] at h
  | elsewhere drawn _ ih => exact ⟨ih.wf.mono (Nat.le_add_right _ _), ih.recorded, ih.issued⟩
  | mintRoot now rights origin ttl _ hm ih => exact ih.mintRoot now rights origin ttl hm
  | capDerive _ _ _ _ _ _ _ hd ih => exact ih.capDerive hd
  | capRevoke t _ hr ih => exact ih.capRevoke hr

/-! ## Liveness -/

/-- No call of `cap_revoke` in `later` targeted `id` or a node above it. -/
def Untouched (g : RevocationGraph) (id : TokenId) (later : List Event) : Prop :=
  ∀ target receipt, .revoked target receipt ∈ later → ¬ g.Above target id

/-- Since the node `id` was created, neither it nor a node above it was revoked. -/
def NeverRevoked (evs : List Event) (g : RevocationGraph) (id : TokenId) : Prop :=
  ∃ later parent t, IssuedBefore evs later parent t ∧ t.tokenId = id ∧ Untouched g id later

section Run
variable {evs later : List Event} {p : Process} {parent : Option TokenId} {t : CapabilityToken}
  (h : Reached evs p) (hfew : evs.countP Event.isRevoked < 2 ^ 64)
include h hfew

theorem Reached.liveGeneration_eq_hits (ht : IssuedBefore evs later parent t) :
    ∃ n, p.monitor.graph.nodes[t.tokenId]? = some n ∧ n.parent = parent ∧
      n.objectId = t.objectId ∧ n.rights = t.rights ∧ t.generation = 0 ∧
      n.liveGeneration = hits p.monitor.graph t.tokenId later := by
  obtain ⟨n, R⟩ := h.sound.recorded later parent t ht
  obtain ⟨earlier, rfl⟩ := ht
  have hle := hits_le p.monitor.graph t.tokenId later
  have hlater : later.countP Event.isRevoked ≤
      (later ++ .issued parent t :: earlier).countP Event.isRevoked := by
    rw [List.countP_append]
    exact Nat.le_add_right _ _
  refine ⟨n, R.get, R.parent_eq, R.objectId_eq, R.rights_eq, R.generation_eq, ?_⟩
  rw [R.liveGeneration_eq, Nat.mod_eq_of_lt]
  omega

theorem Reached.isLive_iff_untouched (ht : IssuedBefore evs later parent t) (now : Instant) :
    p.monitor.isLive now t = true ↔
      Untouched p.monitor.graph t.tokenId later ∧ t.isExpired now = false := by
  obtain ⟨n, hn, -, hobj, hrights, hgen, hlive⟩ := h.liveGeneration_eq_hits hfew ht
  rw [isLive_iff, Untouched, ← hits_eq_zero_iff]
  constructor
  · rintro ⟨⟨n', hn', -, -, hlive'⟩, hexp⟩
    rw [hn] at hn'
    cases hn'
    exact ⟨by rw [← hlive, hlive', hgen], hexp⟩
  · rintro ⟨hzero, hexp⟩
    exact ⟨⟨n, hn, hobj, hrights, by rw [hlive, hzero, hgen]⟩, hexp⟩

theorem Reached.neverRevoked_iff {id : TokenId} {generation : Nat}
    (hgen : p.monitor.graph.liveGeneration id = some generation) :
    NeverRevoked evs p.monitor.graph id ↔ generation = 0 := by
  obtain ⟨n, hn, rfl⟩ := Option.map_eq_some_iff.mp hgen
  have hcount : ∀ later parent t, IssuedBefore evs later parent t → t.tokenId = id →
      n.liveGeneration = hits p.monitor.graph id later := by
    rintro later parent t ht rfl
    obtain ⟨n', hn', -, -, -, -, hlive⟩ := h.liveGeneration_eq_hits hfew ht
    cases hn.symm.trans hn'
    exact hlive
  constructor
  · rintro ⟨later, parent, t, ht, hid, huntouched⟩
    rw [hcount later parent t ht hid]
    exact hits_eq_zero_iff.mpr huntouched
  · intro hzero
    obtain ⟨later, parent, t, ht, hid⟩ := h.sound.issued id n hn
    refine ⟨later, parent, t, ht, hid, hits_eq_zero_iff.mp ?_⟩
    rw [← hcount later parent t ht hid, hzero]

end Run

theorem Sound.isLive_capRevoke (S : Sound evs p)
    (hr : p.monitor.capRevoke t = some (m', receipt)) {u : CapabilityToken}
    (hu : ¬ p.monitor.graph.Above t.tokenId u.tokenId) (now : Instant) :
    m'.isLive now u = p.monitor.isLive now u := by
  obtain ⟨g', hrev, -, hnot⟩ := S.capRevoke_spec t
  cases hrev.symm.trans hr
  rw [Bool.eq_iff_iff, isLive_iff, isLive_iff, hnot _ hu]

/-- **Revocation is exactly the delegated subtree.** In every run of fewer than 2^64 revocations:
an issued token keeps the parent it was derived from, is live exactly while it is unexpired and no
`cap_revoke` since has targeted it or a node above it, and once touched is refused as a parent;
`cap_revoke` always returns, its receipt counts the strict descendants, and every token that is not
below the target (its ancestors and siblings among them) is as live as before. -/
theorem revocation_is_exactly_the_subtree {evs : List Event} {p : Process} (h : Reached evs p)
    (hfew : evs.countP Event.isRevoked < 2 ^ 64) :
    (∀ later parent t, IssuedBefore evs later parent t →
      p.monitor.parentOf t = parent ∧
      (∀ now, p.monitor.isLive now t = true ↔
        Untouched p.monitor.graph t.tokenId later ∧ t.isExpired now = false) ∧
      (¬ Untouched p.monitor.graph t.tokenId later → ∀ next now₁ now₂ rights ttl newOrigin,
        p.monitor.capDerive next now₁ now₂ t rights ttl newOrigin = .error .revoked)) ∧
    (∀ t, ∃ m', p.monitor.capRevoke t = some (m',
        { revoked := t.tokenId,
          descendantsInvalidated := Set.ncard {x | p.monitor.graph.Above t.tokenId x ∧ x ≠ t.tokenId} }) ∧
      ∀ u now, ¬ p.monitor.graph.Above t.tokenId u.tokenId →
        m'.isLive now u = p.monitor.isLive now u) ∧
    (∀ t a, p.monitor.graph.Above a t ∧ a ≠ t ∨
        p.monitor.graph.parentOf a = p.monitor.graph.parentOf t ∧ a ≠ t →
      ¬ p.monitor.graph.Above t a) := by
  have S := h.sound
  refine ⟨fun later parent t ht => ?_, fun t => ?_, ?_⟩
  · obtain ⟨n, hn, hparent, hobj, hrights, hgen, hlive⟩ := h.liveGeneration_eq_hits hfew ht
    refine ⟨by simp [CapabilityMonitor.parentOf, RevocationGraph.parentOf, hn, hparent],
      h.isLive_iff_untouched hfew ht, fun htouched next now₁ now₂ rights ttl newOrigin => ?_⟩
    have hne : n.liveGeneration ≠ t.generation := by
      rw [hlive, hgen, Ne, hits_eq_zero_iff]
      exact htouched
    have hrec : p.monitor.graph.matchesRecord t.tokenId t.objectId t.rights = true :=
      (matchesRecord_iff ..).mpr ⟨n, hn, hobj, hrights⟩
    have hcheck : p.monitor.checkLive now₁ t = .error .revoked := by
      simp [checkLive, hrec, liveGeneration, hn, hne]
    rw [capDerive, hcheck]
    rfl
  · obtain ⟨g', hr, -⟩ := S.capRevoke_spec t
    exact ⟨_, hr, fun u now hu => S.isLive_capRevoke hr hu now⟩
  · rintro t a (⟨habove, hne⟩ | ⟨hsib, hne⟩)
    · exact S.wf.not_above_ancestor habove hne
    · exact S.wf.not_above_sibling hsib.symm hne.symm

/-! ### A short run

A root token, a child derived from it, and the child revoked. -/

def sampleRoot : CapabilityToken := ⟨1, 0, .read, 0, 7, none⟩

def sampleChild : CapabilityToken := ⟨2, 0, .read, 0, 8, none⟩

def sampleEvents : List Event :=
  [.revoked 2 ⟨2, 0⟩, .issued (some 1) sampleChild, .issued none sampleRoot]

def sampleMonitor : CapabilityMonitor :=
  ⟨⟨(∅ : HashMap TokenId RevocationNode).insert 1 ⟨none, [2], 0, 0, .read⟩
    |>.insert 2 ⟨some 1, [], 1, 0, .read⟩⟩, 1⟩

theorem sample_reached : Reached sampleEvents ⟨3, sampleMonitor⟩ := by
  have hroot : Reached [.issued none sampleRoot] ⟨2, _⟩ :=
    .mintRoot 0 .read 7 none (.new 1) rfl
  have hchild : Reached [.issued (some 1) sampleChild, .issued none sampleRoot] ⟨3, _⟩ :=
    .capDerive 0 0 sampleRoot .read none 8 hroot rfl
  exact .capRevoke sampleChild hchild rfl

/-- There the root is untouched and the child is not. -/
theorem revocation_is_exactly_the_subtree_sample :
    Untouched sampleMonitor.graph 1 [.revoked 2 ⟨2, 0⟩, .issued (some 1) sampleChild] ∧
      ¬ Untouched sampleMonitor.graph 2 [.revoked 2 ⟨2, 0⟩] := by
  obtain ⟨hissued, -, -⟩ := revocation_is_exactly_the_subtree sample_reached (by decide)
  have hroot := (hissued [_, _] none sampleRoot ⟨[], rfl⟩).2.1 0
  have hchild := (hissued [_] (some 1) sampleChild ⟨[_], rfl⟩).2.1 0
  refine ⟨(hroot.mp rfl).1, fun huntouched => ?_⟩
  have hlive : sampleMonitor.isLive 0 sampleChild = true := hchild.mpr ⟨huntouched, rfl⟩
  exact absurd hlive (by decide)

/-! ## Delegation -/

/-- **Every right stems from a root**: a token that a run issues is for an object that the run minted a root token
for, and has no right which that token lacks. -/
theorem rights_stem_from_root (h : Reached evs p) (ht : .issued parent t ∈ evs) :
    ∃ r, Event.issued none r ∈ evs ∧ r.objectId = t.objectId ∧ r.rights.contains t.rights = true := by
  induction h generalizing parent t with
  | new => cases ht
  | elsewhere _ _ ih => exact ih ht
  | mintRoot _ _ _ _ _ _ ih =>
    cases ht with
    | head => exact ⟨_, .head _, rfl, by simp [RightsMask.contains]⟩
    | tail _ ht => exact (ih ht).imp fun _ hr => ⟨.tail _ hr.1, hr.2⟩
  | capDerive _ _ _ _ _ _ hreached hd ih =>
    cases ht with
    | head =>
      obtain ⟨hlive, hcovers, rfl, -⟩ := (capDerive_eq_ok_iff ..).mp hd
      obtain ⟨⟨n, hn, hobject, hrights, -⟩, -⟩ := (isLive_iff ..).mp hlive
      -- The parent's node is that of a token which the run issued.
      obtain ⟨later, _, u, ⟨earlier, hu⟩, hid⟩ := hreached.sound.issued _ _ hn
      obtain ⟨_, R⟩ := hreached.sound.recorded later _ u ⟨earlier, hu⟩
      cases hn.symm.trans (hid ▸ R.get)
      obtain ⟨r, hr, hobj, hall⟩ := ih (hu ▸ List.mem_append_right later (.head _))
      refine ⟨r, .tail _ hr, by rw [hobj, ← R.objectId_eq, hobject], ?_⟩
      rw [← R.rights_eq, hrights] at hall
      simp only [RightsMask.contains, beq_iff_eq] at hall hcovers ⊢
      rw [← hcovers, ← BitVec.and_assoc, hall]
    | tail _ ht => exact (ih ht).imp fun _ hr => ⟨.tail _ hr.1, hr.2⟩
  | capRevoke _ _ _ ih =>
    cases ht with
    | tail _ ht => exact (ih ht).imp fun _ hr => ⟨.tail _ hr.1, hr.2⟩

theorem rights_stem_from_root_sample : ∃ r, Event.issued none r ∈ sampleEvents ∧
    r.objectId = 0 ∧ r.rights.contains .read = true :=
  rights_stem_from_root sample_reached (t := sampleChild) (.tail _ (.head _))

/-! ## Forged generations -/

/-- **What a wire token can still get past a revocation.** For every run and every wire token, an
accepted token names a node that was never touched, unless the claimed generation is the node's
current one and not the 0 that every issued token carries. -/
theorem authenticateWireToken_honours_revocation_iff {evs : List Event} {p : Process}
    (h : Reached evs p) (hfew : evs.countP Event.isRevoked < 2 ^ 64) (now₁ now₂ : Instant)
    (wire : WireToken) :
    ((∃ t, p.monitor.authenticateWireToken now₁ now₂ wire = .ok t) →
      NeverRevoked evs p.monitor.graph wire.tokenId) ↔
    (wire.generation = 0 ∨
      p.monitor.graph.liveGeneration wire.tokenId ≠ some wire.generation ∨
      p.monitor.graph.matchesRecord wire.tokenId wire.objectId wire.rights = false ∨
      (wire.claimed now₁).isExpired now₂ = true) := by
  have haccepted : (∃ t, p.monitor.authenticateWireToken now₁ now₂ wire = .ok t) ↔
      p.monitor.isLive now₂ (wire.claimed now₁) = true := by
    simp only [authenticateWireToken_eq_ok_iff, exists_eq_left]
  have hlive : p.monitor.isLive now₂ (wire.claimed now₁) = true ↔
      p.monitor.graph.matchesRecord wire.tokenId wire.objectId wire.rights = true ∧
        p.monitor.graph.liveGeneration wire.tokenId = some wire.generation ∧
        (wire.claimed now₁).isExpired now₂ = false := by
    simp [isLive, WireToken.claimed, and_assoc]
  rw [haccepted, hlive]
  by_cases hgen : p.monitor.graph.liveGeneration wire.tokenId = some wire.generation
  · rw [h.neverRevoked_iff hfew hgen]
    cases p.monitor.graph.matchesRecord wire.tokenId wire.objectId wire.rights <;>
      cases (wire.claimed now₁).isExpired now₂ <;> simp [hgen]
  · simp [hgen]

/-- The unforged wire form of the root of the short run is accepted. -/
theorem authenticateWireToken_honours_revocation_sample :
    (∃ t, sampleMonitor.authenticateWireToken 0 0 (.fromToken sampleRoot 0) = .ok t) ∧
      NeverRevoked sampleEvents sampleMonitor.graph 1 := by
  have haccepted : ∃ t, sampleMonitor.authenticateWireToken 0 0 (.fromToken sampleRoot 0) = .ok t :=
    ⟨sampleRoot, rfl⟩
  exact ⟨haccepted, (authenticateWireToken_honours_revocation_iff sample_reached (by decide) 0 0
    (.fromToken sampleRoot 0)).mpr (.inl rfl) haccepted⟩

/-- The revoked child of the short run, sent with its generation raised from 0 to 1, is accepted. -/
theorem forged_generation_revives_revoked_token :
    Reached sampleEvents ⟨3, sampleMonitor⟩ ∧ sampleEvents.countP Event.isRevoked < 2 ^ 64 ∧
      (∃ t, sampleMonitor.authenticateWireToken 0 0
        { WireToken.fromToken sampleChild 0 with generation := 1 } = .ok t) ∧
      ¬ NeverRevoked sampleEvents sampleMonitor.graph 2 := by
  refine ⟨sample_reached, by decide, ⟨{ sampleChild with generation := 1 }, rfl⟩, ?_⟩
  have hgen : sampleMonitor.graph.liveGeneration 2 = some 1 := by decide
  rw [sample_reached.neverRevoked_iff (by decide) hgen]
  exact one_ne_zero

end Hyperion.Capability
