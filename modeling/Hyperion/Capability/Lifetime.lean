import Hyperion.Capability.Wire

/-!
# What the wire does to a deadline

A sender writes the whole milliseconds left at `sent`; the receiver adds them to its own reading at
`received`. The rebuilt deadline is the old one moved by the transit time and moved back by what the
rounding dropped, so it stays in place only while the first does not exceed the second.
-/

namespace Hyperion.Capability
open CapabilityMonitor WireToken

/-- `e` does not come after `e'`; no deadline comes after every deadline. -/
def NotLater (e e' : Option Instant) : Prop :=
  ∀ d', e' = some d' → ∃ d, e = some d ∧ d ≤ d'

theorem NotLater.refl (e : Option Instant) : NotLater e e :=
  fun d h => ⟨d, h, le_refl d⟩

theorem NotLater.trans {a b c : Option Instant} (hab : NotLater a b) (hbc : NotLater b c) :
    NotLater a c := by
  intro d hd
  obtain ⟨d', hd', hle⟩ := hbc d hd
  obtain ⟨d'', hd'', hle'⟩ := hab d' hd'
  exact ⟨d'', hd'', le_trans hle' hle⟩

theorem minExpiry_notLater (e : Option Instant) (requested : Option Instant) :
    NotLater (minExpiry e requested) e := by
  rintro d rfl
  cases requested with
  | none => exact ⟨d, rfl, le_refl d⟩
  | some d' => exact ⟨min d d', rfl, min_le_left d d'⟩

theorem isExpired_iff (t : CapabilityToken) (now : Instant) :
    t.isExpired now = true ↔ ∃ d, t.expiry = some d ∧ d < now := by
  cases he : t.expiry <;> simp [CapabilityToken.isExpired, he]

variable {t u : CapabilityToken}

theorem isExpired_of_notLater (h : NotLater u.expiry t.expiry)
    {now : Instant} (ht : t.isExpired now = true) : u.isExpired now = true := by
  obtain ⟨d, hd, hlt⟩ := (isExpired_iff t now).mp ht
  obtain ⟨d', hd', hle⟩ := h d hd
  exact (isExpired_iff u now).mpr ⟨d', hd', lt_of_le_of_lt hle hlt⟩

/-- The part of a duration that `as_millis() as u64` drops. -/
def droppedByRounding (d : Duration) : Duration := d - asMillis d * millisecond

theorem asMillis_mul_le (d : Duration) : asMillis d * millisecond ≤ d :=
  calc asMillis d * millisecond ≤ d / millisecond * millisecond :=
        Nat.mul_le_mul_right _ (Nat.mod_le _ _)
    _ ≤ d := Nat.div_mul_le_self _ _

/-- The deadline had not passed when the token was sent, and the transit took no longer than what
the rounding dropped. -/
def InTime (e sent received : Instant) : Prop :=
  sent ≤ e ∧ received - sent ≤ droppedByRounding (e - sent)

theorem add_le_iff_within {e sent received left : Nat} (hsr : sent ≤ received) (hleft : left ≤ e - sent) :
    (sent ≤ e ∧ received - sent ≤ (e - sent) - left) ↔ received + left ≤ e := by
  omega

theorem inTime_iff {e sent received : Instant} (h : sent ≤ received) :
    InTime e sent received ↔ received + asMillis (e - sent) * millisecond ≤ e :=
  add_le_iff_within h (asMillis_mul_le (e - sent))

namespace CapabilityMonitor

/-- The record of `t` is in the graph and its generation is current. -/
def Honours (m : CapabilityMonitor) (t : CapabilityToken) : Prop :=
  m.graph.matchesRecord t.tokenId t.objectId t.rights = true ∧
    m.graph.liveGeneration t.tokenId = some t.generation

theorem isLive_iff_honours (m : CapabilityMonitor) (now : Instant) (t : CapabilityToken) :
    m.isLive now t = true ↔ m.Honours t ∧ t.isExpired now = false := by
  simp [isLive, Honours, and_assoc]

end CapabilityMonitor

/-! ## One hop -/

theorem claimed_fromToken (t : CapabilityToken) (sent received : Instant) :
    (fromToken t sent).claimed received =
      { t with expiry := t.expiry.map fun e => received + asMillis (e - sent) * millisecond } := by
  simp [claimed, fromToken, Function.comp_def]

theorem hop_eq_ok_iff (m : CapabilityMonitor) (t u : CapabilityToken) (sent received checked : Instant) :
    m.authenticateWireToken received checked (.fromToken t sent) = .ok u ↔
      u = { t with expiry := t.expiry.map fun e => received + asMillis (e - sent) * millisecond } ∧
        m.Honours t ∧ u.isExpired checked = false := by
  rw [authenticateWireToken_eq_ok_iff, claimed_fromToken,
    isLive_iff_honours]
  constructor
  · rintro ⟨rfl, hhon, hexp⟩
    exact ⟨rfl, hhon, hexp⟩
  · rintro ⟨rfl, hhon, hexp⟩
    exact ⟨rfl, hhon, hexp⟩

theorem hop_notLater {m : CapabilityMonitor} {sent received checked : Instant}
    (hle : sent ≤ received) (h : m.authenticateWireToken received checked (.fromToken t sent) = .ok u)
    (htime : ∀ e, t.expiry = some e → InTime e sent received) : NotLater u.expiry t.expiry := by
  obtain ⟨rfl, -, -⟩ := (hop_eq_ok_iff m t u sent received checked).mp h
  intro e he
  refine ⟨received + asMillis (e - sent) * millisecond, by simp [he], ?_⟩
  exact (inTime_iff hle).mp (htime e he)

theorem isExpired_claimed_iff {t : CapabilityToken} {e : Instant} (he : t.expiry = some e)
    (sent received checked : Instant) :
    ({ t with expiry := t.expiry.map fun e => received + asMillis (e - sent) * millisecond } :
        CapabilityToken).isExpired checked = true ↔
      asMillis (e - sent) * millisecond < checked - received := by
  rw [isExpired_iff]
  simp only [he, Option.map_some, Option.some.injEq, exists_eq_left']
  exact Nat.lt_sub_iff_add_lt'.symm

/-- **One hop.** What is accepted expires no later than what was sent, and nothing that has already
expired is accepted, exactly if the monitor refuses the record, or the time sent has run out between
the receiver's two clock readings, or the hop is in time. -/
theorem hop_keeps_deadline_iff (m : CapabilityMonitor) (t : CapabilityToken)
    {sent received : Instant} (hsr : sent ≤ received) (checked : Instant) :
    (∀ u, m.authenticateWireToken received checked (.fromToken t sent) = .ok u →
        NotLater u.expiry t.expiry ∧ t.isExpired checked = false) ↔
      ∀ e, t.expiry = some e → ¬ m.Honours t ∨
        asMillis (e - sent) * millisecond < checked - received ∨ InTime e sent received := by
  constructor
  · intro hkeeps e he
    by_contra hcon
    simp only [not_or, not_not] at hcon
    obtain ⟨hhon, hleft, htime⟩ := hcon
    have hexp := Bool.eq_false_iff.mpr (mt (isExpired_claimed_iff he sent received checked).mp hleft)
    obtain ⟨hle, -⟩ := hkeeps _ ((hop_eq_ok_iff m t _ sent received checked).mpr ⟨rfl, hhon, hexp⟩)
    obtain ⟨d, hd, hde⟩ := hle e he
    simp only [he, Option.map_some, Option.some.injEq] at hd
    exact htime ((inTime_iff hsr).mpr (hd ▸ hde))
  · intro hcond u hu
    obtain ⟨rfl, hhon, hexp⟩ := (hop_eq_ok_iff m t u sent received checked).mp hu
    have htime : ∀ e, t.expiry = some e → InTime e sent received := by
      intro e he
      rcases hcond e he with hno | hleft | htime
      · exact absurd hhon hno
      · rw [(isExpired_claimed_iff he sent received checked).mpr hleft] at hexp
        cases hexp
      · exact htime
    have hle := hop_notLater hsr hu htime
    refine ⟨hle, Bool.eq_false_iff.mpr fun hold => ?_⟩
    rw [isExpired_of_notLater hle hold] at hexp
    cases hexp

/-! ## Chains -/

/-- The tokens got from `t` by derivations and by hops in time, through any monitors. -/
inductive Travels (t : CapabilityToken) : CapabilityToken → Prop
  | start : Travels t t
  | hop {u v : CapabilityToken} (m : CapabilityMonitor) {sent received checked : Instant}
      (h : Travels t u) (hsr : sent ≤ received) (hrc : received ≤ checked)
      (htime : ∀ e, u.expiry = some e → InTime e sent received)
      (hok : m.authenticateWireToken received checked (.fromToken u sent) = .ok v) : Travels t v
  | capDerive {u v : CapabilityToken} {m m' : CapabilityMonitor} {next : TokenId}
      {now₁ now₂ : Instant} {rights : RightsMask} {ttl : Option Duration}
      {newOrigin : TrustBoundaryId} (h : Travels t u)
      (hd : m.capDerive next now₁ now₂ u rights ttl newOrigin = .ok (v, m')) : Travels t v

theorem Travels.notLater (h : Travels t u) : NotLater u.expiry t.expiry := by
  induction h with
  | start => exact .refl _
  | hop m _ hsr _ htime hok ih => exact (hop_notLater hsr hok htime).trans ih
  | capDerive _ hd ih =>
    obtain ⟨-, -, rfl, -⟩ := (capDerive_eq_ok_iff ..).mp hd
    exact (minExpiry_notLater _ _).trans ih

/-- **Chains of hops in time and derivations.** No token on the chain expires later than the one it
started from, and a hop made after that one has expired is refused; and a single hop keeps the
deadline only if it is in time or its token is refused anyway. -/
theorem deadline_never_grows (m : CapabilityMonitor) (t : CapabilityToken)
    (sent received checked : Instant) (hsr : sent ≤ received) (_hrc : received ≤ checked) :
    (∀ u, Travels t u → NotLater u.expiry t.expiry ∧
      ((∀ e, u.expiry = some e → InTime e sent received) → t.isExpired checked = true →
        ∀ v, m.authenticateWireToken received checked (.fromToken u sent) ≠ .ok v)) ∧
    ((∀ u, m.authenticateWireToken received checked (.fromToken t sent) = .ok u →
        NotLater u.expiry t.expiry ∧ t.isExpired checked = false) ↔
      ∀ e, t.expiry = some e → ¬ m.Honours t ∨
        asMillis (e - sent) * millisecond < checked - received ∨ InTime e sent received) := by
  refine ⟨fun u h => ⟨h.notLater, ?_⟩, hop_keeps_deadline_iff m t hsr checked⟩
  intro htime hexp v hok
  have hu := isExpired_of_notLater h.notLater hexp
  have hkeeps := (hop_keeps_deadline_iff m u hsr checked).mpr fun e he => .inr (.inr (htime e he))
  obtain ⟨-, hfresh⟩ := hkeeps v hok
  rw [hu] at hfresh
  cases hfresh

def mintedMonitor : CapabilityMonitor := ⟨⟨(∅ : Lib.HashMap TokenId RevocationNode).insert 1
  ⟨none, [], 0, 0, .read⟩⟩, 1⟩

/-- A root token minted at 0 with a time to live of 10.5 ms makes a hop of 0.4 ms. -/
theorem deadline_never_grows_sample :
    CapabilityMonitor.new.mintRoot 1 0 .read 7 (some 10500000) =
      (⟨1, 0, .read, 0, 7, some 10500000⟩, mintedMonitor) ∧
    ∃ u, mintedMonitor.authenticateWireToken 400000 400000
        (.fromToken ⟨1, 0, .read, 0, 7, some 10500000⟩ 0) = .ok u ∧
      NotLater u.expiry (some 10500000) := by
  have hok : mintedMonitor.authenticateWireToken 400000 400000
      (.fromToken ⟨1, 0, .read, 0, 7, some 10500000⟩ 0) = .ok ⟨1, 0, .read, 0, 7, some 10400000⟩ := rfl
  refine ⟨rfl, _, hok, ((deadline_never_grows mintedMonitor ⟨1, 0, .read, 0, 7, some 10500000⟩ 0 400000
    400000 (Nat.zero_le _) (Nat.le_refl _)).1 _
    (.hop mintedMonitor .start (Nat.zero_le _) (Nat.le_refl _) ?_ hok)).1⟩
  rintro e ⟨⟩
  exact ⟨Nat.zero_le _, by decide⟩

/-- A root token minted at 0 with a time to live of 10 ms. One nanosecond of transit moves its
deadline one nanosecond on; and sent one nanosecond after it expired, it is accepted. -/
theorem hop_extends_deadline :
    CapabilityMonitor.new.mintRoot 1 0 .read 7 (some 10000000) =
      (⟨1, 0, .read, 0, 7, some 10000000⟩, mintedMonitor) ∧
    mintedMonitor.authenticateWireToken 1 1 (.fromToken ⟨1, 0, .read, 0, 7, some 10000000⟩ 0) =
      .ok ⟨1, 0, .read, 0, 7, some 10000001⟩ ∧
    ¬ NotLater (some 10000001) (some 10000000) ∧
    CapabilityToken.isExpired ⟨1, 0, .read, 0, 7, some 10000000⟩ 10000001 = true ∧
    mintedMonitor.authenticateWireToken 10000001 10000001
      (.fromToken ⟨1, 0, .read, 0, 7, some 10000000⟩ 10000001) =
      .ok ⟨1, 0, .read, 0, 7, some 10000001⟩ := by
  refine ⟨rfl, rfl, fun h => ?_, by decide, rfl⟩
  obtain ⟨d, hd, hle⟩ := h _ rfl
  cases hd
  exact absurd hle (by decide)

end Hyperion.Capability
