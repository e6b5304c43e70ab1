import Hyperion.Capability.Revocation

/-!
# Leaves of the revocation graph

A token from which nothing has been derived. Deriving another token and revoking another leaf leave it
as it is; revoking it raises its generation, and so ends it.
-/

namespace Hyperion.Capability
open Lib CapabilityMonitor RevocationGraph

def LeafAt (g : RevocationGraph) (t : CapabilityToken) (generation : Nat) : Prop :=
  ∃ parent, g.nodes[t.tokenId]? = some ⟨parent, [], generation, t.objectId, t.rights⟩

section
variable {g : RevocationGraph} {m m' : CapabilityMonitor} {next : TokenId} {t u parent : CapabilityToken}
  {k : Nat} {now₁ now₂ : Instant} {rights : RightsMask} {ttl : Option Duration}
  {newOrigin : TrustBoundaryId}

theorem LeafAt.congr {g' : RevocationGraph} (h : LeafAt g t k)
    (hnode : g'.nodes[t.tokenId]? = g.nodes[t.tokenId]?) : LeafAt g' t k := by
  obtain ⟨parent, hn⟩ := h
  exact ⟨parent, hnode.trans hn⟩

theorem isLive_congr (hnode : m'.graph.nodes[t.tokenId]? = m.graph.nodes[t.tokenId]?) (now : Instant) :
    m'.isLive now t = m.isLive now t := by
  rw [Bool.eq_iff_iff, isLive_iff, isLive_iff, hnode]

theorem LeafAt.isLive_iff (h : LeafAt m.graph t k) (hgeneration : t.generation = 0) (now : Instant) :
    m.isLive now t = true ↔ k = 0 ∧ t.isExpired now = false := by
  obtain ⟨parent, hn⟩ := h
  rw [CapabilityMonitor.isLive_iff]
  constructor
  · rintro ⟨⟨n, hn', -, -, hlive⟩, hexpired⟩
    rw [hn, Option.some.injEq] at hn'
    subst hn'
    exact ⟨hlive.trans hgeneration, hexpired⟩
  · rintro ⟨rfl, hexpired⟩
    exact ⟨⟨_, hn, rfl, rfl, hgeneration.symm⟩, hexpired⟩

theorem leafAt_capDerive (hd : m.capDerive next now₁ now₂ parent rights ttl newOrigin = .ok (t, m')) :
    LeafAt m'.graph t 0 := by
  obtain ⟨-, -, rfl, rfl⟩ := (capDerive_eq_ok_iff ..).mp hd
  exact ⟨some parent.tokenId, (get_insertChild ..).trans (if_pos rfl)⟩

theorem wellFormed_capDerive (W : m.graph.WellFormed next)
    (hd : m.capDerive next now₁ now₂ parent rights ttl newOrigin = .ok (t, m')) :
    m'.graph.WellFormed (next + 1) := by
  obtain ⟨hlive, -, rfl, rfl⟩ := (capDerive_eq_ok_iff ..).mp hd
  obtain ⟨⟨n, hn, -⟩, -⟩ := (isLive_iff ..).mp hlive
  refine wellFormed_insertChild W _ _ ?_
  simp [Std.ExtTreeMap.mem_iff_isSome_getElem?, hn]

theorem LeafAt.capDerive (W : m.graph.WellFormed next)
    (hd : m.capDerive next now₁ now₂ parent rights ttl newOrigin = .ok (t, m')) (h : LeafAt m.graph u k)
    (hne : parent.tokenId ≠ u.tokenId) : LeafAt m'.graph u k := by
  obtain ⟨-, -, rfl, rfl⟩ := (capDerive_eq_ok_iff ..).mp hd
  obtain ⟨p, hn⟩ := h
  have hlt : u.tokenId < next := W.id_lt _ _ hn
  exact ⟨p, (get_insertChild ..).trans
    ((if_neg (ne_of_gt hlt)).trans ((if_neg hne).trans hn))⟩

theorem isLive_capDerive (hd : m.capDerive next now₁ now₂ parent rights ttl newOrigin = .ok (t, m'))
    (hne : u.tokenId ≠ next) (now : Instant) : m'.isLive now u = m.isLive now u := by
  obtain ⟨-, -, rfl, rfl⟩ := (capDerive_eq_ok_iff ..).mp hd
  rw [Bool.eq_iff_iff, isLive_iff, isLive_iff,
    get_insertChild, if_neg hne.symm]
  split
  · cases m.graph.nodes[u.tokenId]? <;> simp
  · rfl

theorem LeafAt.above_iff (W : g.WellFormed next) (h : LeafAt g t k) {x : TokenId} :
    g.Above t.tokenId x ↔ x = t.tokenId := by
  obtain ⟨p, hn⟩ := h
  constructor
  · intro habove
    rcases Relation.ReflTransGen.cases_tail habove with hrefl | ⟨c, -, hparent⟩
    · exact hrefl.symm
    · have hchild := W.child_of_parent _ _ hparent
      rw [RevocationGraph.childrenOf, hn] at hchild
      cases hchild
  · rintro rfl
    exact .refl

theorem LeafAt.capRevoke_spec (W : m.graph.WellFormed next) (h : LeafAt m.graph t k) :
    ∃ g' receipt, m.capRevoke t = some ({ m with graph := g' }, receipt) ∧ g'.WellFormed next ∧
      LeafAt g' t ((k + 1) % 2 ^ 64) ∧
      ∀ x : TokenId, x ≠ t.tokenId → g'.nodes[x]? = m.graph.nodes[x]? := by
  obtain ⟨g', hrevoke, habove, hnot⟩ := revoke_spec W t.tokenId
  have hother : ∀ x : TokenId, x ≠ t.tokenId → g'.nodes[x]? = m.graph.nodes[x]? := fun x hx =>
    hnot x fun ha => hx ((h.above_iff W).mp ha)
  obtain ⟨hkids, hpar, hdom⟩ := revoke_links fun x =>
    (em (m.graph.Above t.tokenId x)).imp (habove x) (hnot x)
  obtain ⟨receipt, hcap⟩ : ∃ receipt, m.capRevoke t = some ({ m with graph := g' }, receipt) := by
    rw [CapabilityMonitor.capRevoke, hrevoke]
    exact ⟨_, rfl⟩
  refine ⟨g', receipt, hcap, W.congr hkids hpar hdom, ?_, hother⟩
  obtain ⟨p, hn⟩ := h
  exact ⟨p, by rw [habove _ .refl, hn]; rfl⟩

end

end Hyperion.Capability
