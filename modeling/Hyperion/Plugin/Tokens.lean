import Hyperion.Capability.Leaf
import Hyperion.Plugin.Registry

/-!
# Tokens of plugins

What the loops over the permissions do to the monitor. Tokens are minted from the token of an
administrator, which carries `GRANT`; those that are minted do not carry it, so nothing is derived from
them and they stay leaves.
-/

namespace Hyperion.Plugin
open Lib Capability List CapabilityMonitor

theorem rightsFor_not_grant (op : Operation) : (rightsFor op).contains .grant = false := by
  cases op <;> decide

theorem readWrite_not_grant : readWrite.contains .grant = false := by decide

structure Grown (p p' : Process) (new : List CapabilityToken) : Prop where
  wf : p'.monitor.graph.WellFormed p'.next
  next_le : p.next ≤ p'.next
  leaf : ∀ t ∈ new, LeafAt p'.monitor.graph t 0
  fresh : ∀ t ∈ new, t.generation = 0 ∧ t.rights.contains .grant = false ∧ p.next ≤ t.tokenId
  nodup : (new.map (·.tokenId)).Nodup
  keeps : ∀ u k, LeafAt p.monitor.graph u k → u.rights.contains .grant = false →
    LeafAt p'.monitor.graph u k
  live : ∀ (u : CapabilityToken) (now : Instant), u.tokenId < p.next →
    p'.monitor.isLive now u = p.monitor.isLive now u

theorem LeafAt.lt_next {p : Process} (W : p.monitor.graph.WellFormed p.next) {t : CapabilityToken} {k : Nat}
    (h : LeafAt p.monitor.graph t k) : t.tokenId < p.next := by
  obtain ⟨_, hn⟩ := h
  exact W.id_lt _ _ hn

namespace Grown
variable {p p₁ p₂ : Process} {a b : List CapabilityToken}

theorem refl (W : p.monitor.graph.WellFormed p.next) : Grown p p [] where
  wf := W
  next_le := le_refl _
  leaf _ ht := absurd ht not_mem_nil
  fresh _ ht := absurd ht not_mem_nil
  nodup := nodup_nil
  keeps _ _ h _ := h
  live _ _ _ := rfl

theorem trans (h : Grown p p₁ a) (h' : Grown p₁ p₂ b) : Grown p p₂ (a ++ b) where
  wf := h'.wf
  next_le := h.next_le.trans h'.next_le
  leaf t ht := by
    rcases mem_append.mp ht with ht | ht
    · exact h'.keeps t 0 (h.leaf t ht) (h.fresh t ht).2.1
    · exact h'.leaf t ht
  fresh t ht := by
    rcases mem_append.mp ht with ht | ht
    · exact h.fresh t ht
    · obtain ⟨hgeneration, hgrant, hle⟩ := h'.fresh t ht
      exact ⟨hgeneration, hgrant, h.next_le.trans hle⟩
  nodup := by
    rw [map_append]
    refine nodup_append.mpr ⟨h.nodup, h'.nodup, ?_⟩
    intro id hid id' hid' heq
    obtain ⟨t, ht, rfl⟩ := mem_map.mp hid
    obtain ⟨t', ht', rfl⟩ := mem_map.mp hid'
    have hlt : t.tokenId < p₁.next := LeafAt.lt_next h.wf (h.leaf t ht)
    have hle : p₁.next ≤ t'.tokenId := (h'.fresh t' ht').2.2
    exact absurd heq (hlt.trans_le hle).ne
  keeps u k hu hgrant := h'.keeps u k (h.keeps u k hu hgrant) hgrant
  live u now hu := (h'.live u now (hu.trans_le h.next_le)).trans (h.live u now hu)

end Grown

section
variable {p p' : Process} {admin t : CapabilityToken} {boundary : TrustBoundaryId}

variable {grant : CapabilityGrantRequest} {rights : RightsMask} {start : Instant}

theorem mint_eq_ok {now : Instant} (h : mint p now admin rights boundary = .ok (t, p')) :
    p.monitor.isLive now admin = true ∧ t.tokenId = p.next ∧ t.rights = rights ∧ t.generation = 0 ∧
      t.expiry = admin.expiry ∧ ∃ m', p' = ⟨p.next + 1, m'⟩ ∧
        p.monitor.capDerive p.next now now admin rights none boundary = .ok (t, m') := by
  unfold mint at h
  split at h
  · cases h
  · next token monitor hd =>
    cases h
    obtain ⟨hlive, -, rfl, -⟩ := (capDerive_eq_ok_iff ..).mp hd
    refine ⟨hlive, rfl, rfl, rfl, ?_, monitor, rfl, hd⟩
    cases admin.expiry <;> rfl

theorem mint_grown (W : p.monitor.graph.WellFormed p.next) (hgrant : admin.rights.contains .grant = true)
    {now : Instant} (hrights : rights.contains .grant = false)
    (h : mint p now admin rights boundary = .ok (t, p')) : Grown p p' [t] := by
  obtain ⟨hlive, hid, hr, hgeneration, -, m', rfl, hd⟩ := mint_eq_ok h
  have hother : ∀ u k, LeafAt p.monitor.graph u k → u.rights.contains .grant = false →
      LeafAt m'.graph u k := by
    intro u k hu hu'
    refine hu.capDerive W hd ?_
    -- The node of the administrator's token records `GRANT`, that of `u` does not.
    intro heq
    obtain ⟨⟨n, hn, -, hn', -⟩, -⟩ := (isLive_iff ..).mp hlive
    obtain ⟨_, hu⟩ := hu
    rw [heq, hu, Option.some.injEq] at hn
    subst hn
    rw [← hn', hu'] at hgrant
    cases hgrant
  refine ⟨wellFormed_capDerive W hd, Nat.le_succ _, ?_, ?_, nodup_singleton _, hother, ?_⟩
  · intro u hu
    obtain rfl := mem_singleton.mp hu
    exact leafAt_capDerive hd
  · intro u hu
    obtain rfl := mem_singleton.mp hu
    exact ⟨hgeneration, hr ▸ hrights, hid.ge⟩
  · intro u now hu
    exact isLive_capDerive hd (ne_of_lt hu) now

theorem exists_mint (boundary : TrustBoundaryId) {now : Instant}
    (hlive : p.monitor.isLive now admin = true) (hcovers : admin.rights.contains rights = true) :
    ∃ t p', mint p now admin rights boundary = .ok (t, p') := by
  have hd := (capDerive_eq_ok_iff p.monitor p.next now now admin rights none boundary _ _).mpr
    ⟨hlive, hcovers, rfl, rfl⟩
  unfold mint
  rw [hd]
  exact ⟨_, _, rfl⟩

theorem isLive_lt_next (W : p.monitor.graph.WellFormed p.next) {now : Instant}
    (h : p.monitor.isLive now t = true) : t.tokenId < p.next := by
  obtain ⟨⟨n, hn, -⟩, -⟩ := (isLive_iff ..).mp h
  exact W.id_lt _ _ hn

theorem live_at_other_time {m : CapabilityMonitor} {now now' : Instant} (h : m.isLive now t = true)
    (hexpired : t.isExpired now' = false) : m.isLive now' t = true := by
  rw [isLive_iff] at h ⊢
  exact ⟨h.1, hexpired⟩

/-! ## The loop of an update -/

def grantKey (r : CapabilityGrantRequest) : Operation × String := (r.operation, r.scope)

theorem grantsEqual_iff {a b : CapabilityGrantRequest} : grantsEqual a b = true ↔ grantKey a = grantKey b := by
  simp [grantsEqual, grantKey]

variable {held : List (CapabilityGrantRequest × CapabilityToken)} {grants : List CapabilityGrantRequest}
  {now : Nat → Instant}

theorem reusedToken_eq_some (h : reusedToken held grant = some t) :
    ∃ o, (o, t) ∈ held ∧ grantKey o = grantKey grant := by
  obtain ⟨⟨o, t'⟩, hfind, rfl⟩ := Option.map_eq_some_iff.mp h
  have hequal := List.find?_some hfind
  exact ⟨o, mem_of_find?_eq_some hfind, grantsEqual_iff.mp hequal⟩

theorem reusedToken_eq_none :
    reusedToken held grant = none ↔ ∀ h ∈ held, grantKey h.1 ≠ grantKey grant := by
  simp only [reusedToken, Option.map_eq_none_iff, List.find?_eq_none, grantsEqual_iff, ne_eq]

theorem carryOver_grown (hgrant : admin.rights.contains .grant = true)
    (W : p.monitor.graph.WellFormed p.next) : Grown p (carryOver admin boundary held now grants p).process
      (carryOver admin boundary held now grants p).minted := by
  induction grants generalizing now p with
  | nil => exact .refl W
  | cons grant grants ih =>
    rw [carryOver]
    split
    · exact ih W
    · split
      · exact .refl W
      · next t p₁ hmint =>
        have hfirst := mint_grown W hgrant (rightsFor_not_grant _) hmint
        exact hfirst.trans (ih hfirst.wf)

theorem carryOver_rights (hheld : ∀ h ∈ held, h.2.rights = rightsFor h.1.operation)
    (h : (carryOver admin boundary held now grants p).fault = none) :
    List.Forall₂ (fun grant t => t.rights = rightsFor grant.operation) grants
      (carryOver admin boundary held now grants p).tokens := by
  induction grants generalizing now p with
  | nil => exact .nil
  | cons grant grants ih =>
    rw [carryOver] at h ⊢
    split at h
    · next t hreused =>
      obtain ⟨o, ho, hkey⟩ := reusedToken_eq_some hreused
      have hop : o.operation = grant.operation := congrArg Prod.fst hkey
      exact .cons (hop ▸ hheld _ ho) (ih h)
    · split at h
      · cases h
      · next hmint => exact .cons (mint_eq_ok hmint).2.2.1 (ih h)

/-! ## The loop of an install -/

variable (tokens : List CapabilityToken) (requests : List CapabilityGrantRequest)

theorem mintAll_eq_carryOver :
    mintAll admin boundary now requests p =
      ((carryOver admin boundary [] now requests p).minted, (carryOver admin boundary [] now requests p).fault,
        (carryOver admin boundary [] now requests p).process) ∧
    (carryOver admin boundary [] now requests p).tokens = (carryOver admin boundary [] now requests p).minted := by
  induction requests generalizing now p with
  | nil => exact ⟨rfl, rfl⟩
  | cons request requests ih =>
    rw [mintAll, carryOver]
    cases mint p (now 0) admin (rightsFor request.operation) boundary with
    | error fault => exact ⟨rfl, rfl⟩
    | ok out =>
      obtain ⟨heq, htokens⟩ := @ih out.2 fun k => now (k + 1)
      dsimp only
      rw [heq]
      exact ⟨rfl, congrArg (out.1 :: ·) htokens⟩

theorem mintAll_grown (boundary : TrustBoundaryId) (hgrant : admin.rights.contains .grant = true)
    (requests : List CapabilityGrantRequest) (now : Nat → Instant) (W : p.monitor.graph.WellFormed p.next) :
    Grown p (mintAll admin boundary now requests p).2.2 (mintAll admin boundary now requests p).1 := by
  rw [(mintAll_eq_carryOver requests).1]
  exact carryOver_grown hgrant W

theorem mintAll_rights (now : Nat → Instant) (h : (mintAll admin boundary now requests p).2.1 = none) :
    List.Forall₂ (fun request t => t.rights = rightsFor request.operation) requests
      (mintAll admin boundary now requests p).1 := by
  obtain ⟨heq, htokens⟩ := @mintAll_eq_carryOver p admin boundary now requests
  rw [heq] at h ⊢
  exact htokens ▸ carryOver_rights (by simp) h

/-! ## The tokens after an update -/

theorem mem_carryOver_tokens (h : (carryOver admin boundary held now grants p).fault = none) :
    t ∈ (carryOver admin boundary held now grants p).tokens ↔
      t ∈ (carryOver admin boundary held now grants p).minted ∨
        ∃ g ∈ grants, reusedToken held g = some t := by
  induction grants generalizing now p with
  | nil => simp [carryOver]
  | cons grant grants ih =>
    rw [carryOver] at h ⊢
    split at h
    · next t' hreused =>
      simp only [mem_cons, ih h, exists_eq_or_imp, hreused, Option.some.injEq]
      rw [eq_comm (a := t'), or_left_comm]
    · next hnone =>
      split at h
      · cases h
      · next t' p₁ hmint =>
        simp only [mem_cons, ih h, exists_eq_or_imp, hnone, reduceCtorEq, false_or, or_assoc]

theorem nodup_carryOver_tokens (hgrant : admin.rights.contains .grant = true)
    (W : p.monitor.graph.WellFormed p.next) (hheld : (held.map (·.2)).Nodup)
    (hold : ∀ h ∈ held, h.2.tokenId < p.next)
    (honce : ((grants.map grantKey).filter (· ∈ held.map fun h => grantKey h.1)).Nodup)
    (h : (carryOver admin boundary held now grants p).fault = none) :
    (carryOver admin boundary held now grants p).tokens.Nodup := by
  induction grants generalizing now p with
  | nil => exact nodup_nil
  | cons grant grants ih =>
    rw [map_cons, filter_cons] at honce
    rw [carryOver] at h ⊢
    split at h
    · next t hreused =>
      obtain ⟨o, ho, hkey⟩ := reusedToken_eq_some hreused
      have hin : grantKey grant ∈ held.map fun h => grantKey h.1 := mem_map.mpr ⟨_, ho, hkey⟩
      rw [if_pos (decide_eq_true hin), nodup_cons] at honce
      refine nodup_cons.mpr ⟨fun hmem => ?_, ih W hold honce.2 h⟩
      rcases (mem_carryOver_tokens h).mp hmem with hminted | ⟨g, hg, hreused'⟩
      · -- A minted token has a new number.
        have hnew := ((carryOver_grown hgrant W).fresh t hminted).2.2
        exact absurd (hold _ ho) (not_lt.mpr hnew)
      · obtain ⟨o', ho', hkey'⟩ := reusedToken_eq_some hreused'
        have hsame : (o', t) = (o, t) := inj_on_of_nodup_map hheld ho' ho rfl
        have hkeys : grantKey g = grantKey grant := by rw [← hkey', ← hkey, Prod.mk.inj hsame |>.1]
        refine honce.1 (mem_filter.mpr ⟨hkeys ▸ mem_map_of_mem hg, decide_eq_true hin⟩)
    · next hnone =>
      have hout : grantKey grant ∉ held.map fun h => grantKey h.1 := by
        intro hin
        obtain ⟨h, hh, hkey⟩ := mem_map.mp hin
        exact reusedToken_eq_none.mp hnone h hh hkey
      rw [if_neg (by simpa using hout)] at honce
      split at h
      · cases h
      · next t p₁ hmint =>
        have hfirst := mint_grown W hgrant (rightsFor_not_grant _) hmint
        have hid : t.tokenId = p.next := (mint_eq_ok hmint).2.1
        have hlt : t.tokenId < p₁.next := LeafAt.lt_next hfirst.wf (hfirst.leaf t mem_cons_self)
        refine nodup_cons.mpr ⟨fun hmem => ?_, ih hfirst.wf
          (fun h hh => (hold h hh).trans_le hfirst.next_le) honce h⟩
        rcases (mem_carryOver_tokens h).mp hmem with hminted | ⟨g, hg, hreused⟩
        · have hnew := ((carryOver_grown hgrant hfirst.wf).fresh t hminted).2.2
          exact absurd hlt (not_lt.mpr hnew)
        · obtain ⟨o, ho, -⟩ := reusedToken_eq_some hreused
          exact absurd (hold _ ho) (not_lt.mpr hid.ge)

theorem reused_iff (honce : ((held.map fun h => grantKey h.1).filter (· ∈ grants.map grantKey)).Nodup) :
    (∃ g ∈ grants, reusedToken held g = some t) ↔
      ∃ o, (o, t) ∈ held ∧ grantKey o ∈ grants.map grantKey := by
  constructor
  · rintro ⟨g, hg, hreused⟩
    obtain ⟨o, ho, hkey⟩ := reusedToken_eq_some hreused
    exact ⟨o, ho, hkey ▸ mem_map_of_mem hg⟩
  · rintro ⟨o, ho, hkey⟩
    obtain ⟨g, hg, hgkey⟩ := mem_map.mp hkey
    refine ⟨g, hg, ?_⟩
    cases hreused : reusedToken held g with
    | none => exact absurd hgkey.symm (reusedToken_eq_none.mp hreused _ ho)
    | some t' =>
      obtain ⟨o', ho', hkey'⟩ := reusedToken_eq_some hreused
      rw [filter_map] at honce
      have hkept : ∀ h ∈ held, grantKey h.1 = grantKey g →
          h ∈ held.filter ((fun k => decide (k ∈ grants.map grantKey)) ∘ fun h => grantKey h.1) := by
        intro h hh hhkey
        have hmem : grantKey h.1 ∈ grants.map grantKey := hhkey ▸ mem_map_of_mem hg
        exact mem_filter.mpr ⟨hh, decide_eq_true hmem⟩
      have hsame := inj_on_of_nodup_map honce (hkept _ ho' hkey') (hkept _ ho hgkey.symm)
        (hkey'.trans hgkey)
      rw [(Prod.mk.inj hsame).2]

theorem mem_droppedTokens : t ∈ droppedTokens held grants ↔
    ∃ o, (o, t) ∈ held ∧ grantKey o ∉ grants.map grantKey := by
  have hkey : ∀ o : CapabilityGrantRequest,
      (grants.any fun grant => grantsEqual grant o) = true ↔ grantKey o ∈ grants.map grantKey := by
    simp [grantsEqual_iff]
  simp only [droppedTokens, mem_map, mem_filter, Bool.not_eq_true', ← Bool.not_eq_true, hkey,
    Prod.exists, exists_eq_right]

/-! ## Revoking -/

theorem revokeAll_spec (W : p.monitor.graph.WellFormed p.next)
    (hleaf : ∀ t ∈ tokens, LeafAt p.monitor.graph t 0) (hnodup : (tokens.map (·.tokenId)).Nodup) :
    (revokeAll p tokens).next = p.next ∧ (revokeAll p tokens).monitor.graph.WellFormed p.next ∧
      (∀ t ∈ tokens, LeafAt (revokeAll p tokens).monitor.graph t 1) ∧
      ∀ x : TokenId, x ∉ tokens.map (·.tokenId) →
        (revokeAll p tokens).monitor.graph.nodes[x]? = p.monitor.graph.nodes[x]? := by
  induction tokens generalizing p with
  | nil => exact ⟨rfl, W, fun _ ht => absurd ht not_mem_nil, fun _ _ => rfl⟩
  | cons token tokens ih =>
    obtain ⟨g', receipt, hcap, W', hdead, hother⟩ := (hleaf token mem_cons_self).capRevoke_spec W
    have hrevoke : revoke p token = { p with monitor := { p.monitor with graph := g' } } := by
      rw [revoke, hcap]
    rw [map_cons, nodup_cons] at hnodup
    have hrest : ∀ t ∈ tokens, LeafAt g' t 0 := fun t ht =>
      (hleaf t (mem_cons_of_mem _ ht)).congr
        (hother _ fun heq => hnodup.1 (heq ▸ mem_map_of_mem ht))
    rw [revokeAll, foldl_cons, hrevoke, ← revokeAll]
    obtain ⟨hnext, hwf, hall, hkept⟩ := ih (p := { p with monitor := { p.monitor with graph := g' } })
      W' hrest hnodup.2
    refine ⟨hnext, hwf, fun t ht => ?_, fun x hx => ?_⟩
    · rcases mem_cons.mp ht with rfl | ht
      · exact hdead.congr (hkept _ hnodup.1)
      · exact hall t ht
    · rw [map_cons, mem_cons, not_or] at hx
      exact (hkept x hx.2).trans (hother x hx.1)

theorem revokeAll_leaves (W : p.monitor.graph.WellFormed p.next)
    (hleaf : ∀ t ∈ tokens, ∃ k, LeafAt p.monitor.graph t k) :
    (revokeAll p tokens).monitor.graph.WellFormed (revokeAll p tokens).next ∧
      (∀ u, (∃ k, LeafAt p.monitor.graph u k) → ∃ k, LeafAt (revokeAll p tokens).monitor.graph u k) ∧
      ∀ x : TokenId, x ∉ tokens.map (·.tokenId) →
        (revokeAll p tokens).monitor.graph.nodes[x]? = p.monitor.graph.nodes[x]? := by
  induction tokens generalizing p with
  | nil => exact ⟨W, fun _ h => h, fun _ _ => rfl⟩
  | cons token tokens ih =>
    obtain ⟨k, hk⟩ := hleaf token mem_cons_self
    obtain ⟨g', receipt, hcap, W', hdead, hother⟩ := hk.capRevoke_spec W
    have hrevoke : revoke p token = { p with monitor := { p.monitor with graph := g' } } := by
      rw [revoke, hcap]
    have hkeeps : ∀ u, (∃ k, LeafAt p.monitor.graph u k) → ∃ k, LeafAt g' u k := by
      rintro u ⟨j, hj⟩
      by_cases heq : u.tokenId = token.tokenId
      · -- Two tokens of one number: the node records what both say.
        obtain ⟨_, hn⟩ := hj
        obtain ⟨_, hn'⟩ := hk
        obtain ⟨parent, hdead⟩ := hdead
        rw [heq, hn', Option.some.injEq] at hn
        injection hn with _ _ _ hobject hrights
        exact ⟨_, parent, by rw [heq, hdead, hobject, hrights]⟩
      · exact ⟨j, hj.congr (hother _ heq)⟩
    rw [revokeAll, foldl_cons, hrevoke, ← revokeAll]
    obtain ⟨hwf, hkept, hsame⟩ := ih (p := { p with monitor := { p.monitor with graph := g' } }) W'
      fun t ht => hkeeps t (hleaf t (mem_cons_of_mem _ ht))
    refine ⟨hwf, fun u hu => hkept u (hkeeps u hu), fun x hx => ?_⟩
    rw [map_cons, mem_cons, not_or] at hx
    exact (hsame x hx.2).trans (hother x hx.1)

theorem isLive_revokeAll {tokens : List CapabilityToken} (W : p.monitor.graph.WellFormed p.next)
    (hleaf : ∀ t ∈ tokens, t.rights.contains .grant = false ∧ ∃ k, LeafAt p.monitor.graph t k)
    (hlive : p.monitor.isLive start admin = true)
    (hgrant : admin.rights.contains .grant = true) (now : Instant) :
    (revokeAll p tokens).monitor.isLive now admin = p.monitor.isLive now admin := by
  obtain ⟨-, -, hsame⟩ := revokeAll_leaves tokens W fun t ht => (hleaf t ht).2
  refine isLive_congr (hsame _ fun hin => ?_) now
  -- The node of the administrator's token records `GRANT`, those of the tokens that are revoked do not.
  obtain ⟨t, ht, heq⟩ := mem_map.mp hin
  obtain ⟨⟨n, hn, -, hrights, -⟩, -⟩ := (isLive_iff ..).mp hlive
  obtain ⟨hno, _, _, hnode⟩ := hleaf t ht
  rw [← heq, hnode, Option.some.injEq] at hn
  subst hn
  rw [← hrights, hno] at hgrant
  cases hgrant

end

end Hyperion.Plugin
