import Hyperion.Capability.History
import Hyperion.Capability.Leaf

/-!
# Tokens that are held

A process mints root tokens without expiry, from which nothing is derived, and revokes those that it no longer
holds. A `Ledger` says that the tokens it holds are exactly those of the minted ones that are live.
-/

namespace Hyperion.Capability
open Lib RevocationGraph List

namespace Process

/-- `mint_root` without a time to live. -/
def mint (p : Process) (rights : RightsMask) (origin : TrustBoundaryId) : CapabilityToken × Process :=
  let (token, monitor) := p.monitor.mintRoot p.next 0 rights origin none
  (token, ⟨p.next + 1, monitor⟩)

def revoke (p : Process) (t : CapabilityToken) : Process :=
  match p.monitor.capRevoke t with
  | none => p
  | some (monitor, _) => { p with monitor }

end Process

/-- The tokens that are held are those of the minted ones that are live. -/
structure Ledger (p : Process) (minted : List CapabilityToken) (held : CapabilityToken → Prop) : Prop where
  wf : p.monitor.graph.WellFormed p.next
  nodup : (minted.map (·.tokenId)).Nodup
  leaf : ∀ t ∈ minted, t.generation = 0 ∧ t.expiry = none ∧ ∃ k, LeafAt p.monitor.graph t k
  live : ∀ t ∈ minted, LeafAt p.monitor.graph t 0 ↔ held t
  minted : ∀ t, held t → t ∈ minted

namespace Ledger
variable {p : Process} {minted : List CapabilityToken} {held held' : CapabilityToken → Prop}
  {t : CapabilityToken}

theorem congr (h : Ledger p minted held) (hheld : ∀ t, held t ↔ held' t) : Ledger p minted held' :=
  ⟨h.wf, h.nodup, h.leaf, fun t ht => (h.live t ht).trans (hheld t), fun t ht => h.minted t ((hheld t).mpr ht)⟩

theorem new (next : TokenId) : Ledger ⟨next, .new⟩ [] fun _ => False :=
  ⟨wellFormed_empty next, nodup_nil, fun _ ht => absurd ht not_mem_nil,
    fun _ ht => absurd ht not_mem_nil, fun _ ht => ht.elim⟩

section
variable (h : Ledger p minted held)
include h

theorem id_lt (ht : t ∈ minted) : t.tokenId < p.next := by
  obtain ⟨-, -, k, parent, hn⟩ := h.leaf t ht
  exact h.wf.id_lt _ _ hn

theorem eq_of_tokenId {u : CapabilityToken} (ht : t ∈ minted) (hu : u ∈ minted)
    (hid : t.tokenId = u.tokenId) : t = u :=
  inj_on_of_nodup_map h.nodup ht hu hid

theorem isLive_iff (now : Instant) (t : CapabilityToken) :
    t ∈ minted ∧ p.monitor.isLive now t = true ↔ held t := by
  constructor
  · rintro ⟨ht, hlive⟩
    obtain ⟨hgeneration, -, k, hleaf⟩ := h.leaf t ht
    obtain ⟨rfl, -⟩ := (hleaf.isLive_iff hgeneration now).mp hlive
    exact (h.live t ht).mp hleaf
  · intro hheld
    have ht := h.minted t hheld
    obtain ⟨hgeneration, hexpiry, -⟩ := h.leaf t ht
    refine ⟨ht, (((h.live t ht).mpr hheld).isLive_iff hgeneration now).mpr ⟨rfl, ?_⟩⟩
    rw [CapabilityToken.isExpired, hexpiry]
    rfl

theorem elsewhere (drawn : Nat) : Ledger ⟨p.next + drawn, p.monitor⟩ minted held :=
  ⟨h.wf.mono (Nat.le_add_right _ _), h.nodup, h.leaf, h.live, h.minted⟩

theorem mint (rights : RightsMask) (origin : TrustBoundaryId) :
    Ledger (p.mint rights origin).2 ((p.mint rights origin).1 :: minted)
      fun t => held t ∨ t = (p.mint rights origin).1 := by
  have hnew : LeafAt (p.mint rights origin).2.monitor.graph (p.mint rights origin).1 0 :=
    ⟨none, (get_insertRoot _ _ _).trans (if_pos rfl)⟩
  have hother : ∀ t ∈ minted, (p.mint rights origin).2.monitor.graph.nodes[t.tokenId]? =
      p.monitor.graph.nodes[t.tokenId]? := fun t ht =>
    (get_insertRoot _ _ _).trans (if_neg (h.id_lt ht).ne')
  have hne : ∀ t ∈ minted, t ≠ (p.mint rights origin).1 := by
    rintro t ht rfl
    exact absurd (h.id_lt ht) (lt_irrefl _)
  refine ⟨wellFormed_insertRoot h.wf _ _, ?_, ?_, ?_, ?_⟩
  · refine nodup_cons.mpr ⟨fun hmem => ?_, h.nodup⟩
    obtain ⟨t, ht, hid⟩ := mem_map.mp hmem
    exact absurd hid (h.id_lt ht).ne
  · intro t ht
    rcases mem_cons.mp ht with rfl | ht
    · exact ⟨rfl, rfl, 0, hnew⟩
    · obtain ⟨hgeneration, hexpiry, k, hleaf⟩ := h.leaf t ht
      exact ⟨hgeneration, hexpiry, k, hleaf.congr (hother t ht)⟩
  · intro t ht
    rcases mem_cons.mp ht with rfl | ht
    · exact ⟨fun _ => .inr rfl, fun _ => hnew⟩
    · refine Iff.trans ⟨fun hleaf => hleaf.congr (hother t ht).symm, fun hleaf => hleaf.congr (hother t ht)⟩
        ((h.live t ht).trans ?_)
      simp [hne t ht]
  · rintro t (ht | rfl)
    · exact mem_cons_of_mem _ (h.minted t ht)
    · exact mem_cons_self

theorem revoke (ht : held t) : Ledger (p.revoke t) minted fun u => held u ∧ u ≠ t := by
  have hmem := h.minted t ht
  obtain ⟨g', receipt, hrevoke, hwf, hleaf, hother⟩ := ((h.live t hmem).mpr ht).capRevoke_spec h.wf
  have hp : p.revoke t = { p with monitor := { p.monitor with graph := g' } } := by
    rw [Process.revoke, hrevoke]
  have hnode : ∀ u ∈ minted, u ≠ t → g'.nodes[u.tokenId]? = p.monitor.graph.nodes[u.tokenId]? :=
    fun u hu hne => hother _ fun hid => hne (h.eq_of_tokenId hu hmem hid)
  rw [hp]
  refine ⟨hwf, h.nodup, fun u hu => ?_, fun u hu => ?_, fun u hu => h.minted u hu.1⟩
  · obtain ⟨hgeneration, hexpiry, k, hu'⟩ := h.leaf u hu
    refine ⟨hgeneration, hexpiry, ?_⟩
    by_cases hne : u = t
    · exact ⟨_, hne ▸ hleaf⟩
    · exact ⟨k, hu'.congr (hnode u hu hne)⟩
  · by_cases hne : u = t
    · subst hne
      refine ⟨fun hzero => ?_, fun hno => absurd rfl hno.2⟩
      obtain ⟨_, hn⟩ := hleaf
      obtain ⟨_, hn'⟩ := hzero
      rw [hn] at hn'
      simp at hn'
    · refine Iff.trans ⟨fun hl => hl.congr (hnode u hu hne).symm, fun hl => hl.congr (hnode u hu hne)⟩
        ((h.live u hu).trans ?_)
      simp [hne]

end

theorem revokeAll {tokens : List CapabilityToken} (hnodup : tokens.Nodup) (h : Ledger p minted held)
    (hheld : ∀ t ∈ tokens, held t) :
    Ledger (tokens.foldl Process.revoke p) minted fun t => held t ∧ t ∉ tokens := by
  induction tokens generalizing p held with
  | nil => exact h.congr fun t => by simp
  | cons t tokens ih =>
    obtain ⟨hnot, hnodup⟩ := nodup_cons.mp hnodup
    refine (ih hnodup (h.revoke (hheld t mem_cons_self)) fun u hu => ?_).congr fun u => ?_
    · exact ⟨hheld u (mem_cons_of_mem _ hu), fun heq => hnot (heq ▸ hu)⟩
    · simp only [mem_cons, not_or, and_assoc]

end Ledger

end Hyperion.Capability
