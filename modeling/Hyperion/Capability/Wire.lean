import Hyperion.Capability.Monitor
import Hyperion.Lib.Framing

/-!
# Tokens on the wire

`WireToken` carries the claimed fields of a token as plain data, with the time left instead of a
deadline. `authenticateWireToken` turns one back into a token by rebuilding the claim against the
receiver's clock and running `checkLive` on it.
-/

namespace Hyperion.Capability
open Lib

abbrev Signature := List UInt8

structure WireToken where
  tokenId : Nat
  objectId : Nat
  rights : RightsMask
  generation : Nat
  origin : Nat
  expiryMillisRemaining : Option Nat
  signature : Option Signature
deriving DecidableEq, Repr

def millisecond : Nat := 1000000

/-- `d.as_millis() as u64`: whole milliseconds, cut to 64 bits. -/
def asMillis (d : Duration) : Nat := d / millisecond % 2 ^ 64

/-- `WireToken::from(&token)`, with `now` read for the time left (`saturating_duration_since`). -/
def WireToken.fromToken (t : CapabilityToken) (now : Instant) : WireToken where
  tokenId := t.tokenId
  objectId := t.objectId
  rights := t.rights
  generation := t.generation
  origin := t.origin
  expiryMillisRemaining := t.expiry.map fun e => asMillis (e - now)
  signature := none

/-- `n.to_le_bytes()` for an integer of `width` bytes. -/
def toLeBytes (width n : Nat) : List UInt8 :=
  (List.range width).map fun i => UInt8.ofNat (n / 256 ^ i)

theorem length_toLeBytes (width n : Nat) : (toLeBytes width n).length = width := by
  simp [toLeBytes]

theorem mod_eq_of_toLeBytes_eq {width n m : Nat} (h : toLeBytes width n = toLeBytes width m) :
    n % 256 ^ width = m % 256 ^ width := by
  induction width with
  | zero => simp [Nat.mod_one]
  | succ width ih =>
    rw [toLeBytes, toLeBytes, List.range_succ, List.map_append, List.map_append] at h
    obtain ⟨hlow, hhigh⟩ := List.append_inj h (by simp)
    have hbyte : n / 256 ^ width % 256 = m / 256 ^ width % 256 := by
      have hval := congrArg UInt8.toNat (List.cons.inj hhigh).1
      rwa [UInt8.toNat_ofNat', UInt8.toNat_ofNat'] at hval
    rw [Nat.mod_pow_succ, Nat.mod_pow_succ, ih hlow, hbyte]

theorem framed_toLeBytes (width : Nat) : Framed (· < 256 ^ width) (toLeBytes width) := by
  refine .of_length width (length_toLeBytes width) fun n m hn hm h => ?_
  have hmod := mod_eq_of_toLeBytes_eq h
  rwa [Nat.mod_eq_of_lt hn, Nat.mod_eq_of_lt hm] at hmod

/-- The token that `reconstruct_and_check` builds from the claims, at the clock reading `now`. -/
def WireToken.claimed (wire : WireToken) (now : Instant) : CapabilityToken where
  tokenId := wire.tokenId
  objectId := wire.objectId
  rights := wire.rights
  generation := wire.generation
  origin := wire.origin
  expiry := wire.expiryMillisRemaining.map fun ms => now + ms * millisecond

namespace CapabilityMonitor

variable (m : CapabilityMonitor)

/-- `reconstruct_and_check`: `now₁` is read to rebuild the deadline, `now₂` by the expiry check. -/
def reconstructAndCheck (now₁ now₂ : Instant) (wire : WireToken) : Except Fault CapabilityToken := do
  let token := wire.claimed now₁
  m.checkLive now₂ token
  pure token

def authenticateWireToken (now₁ now₂ : Instant) (wire : WireToken) : Except Fault CapabilityToken :=
  m.reconstructAndCheck now₁ now₂ wire

theorem authenticateWireToken_eq_ok_iff (now₁ now₂ : Instant) (wire : WireToken) (t : CapabilityToken) :
    m.authenticateWireToken now₁ now₂ wire = .ok t ↔
      t = wire.claimed now₁ ∧ m.isLive now₂ t = true := by
  rw [authenticateWireToken, reconstructAndCheck, ← checkLive_eq_ok_iff]
  cases hc : m.checkLive now₂ (wire.claimed now₁) with
  | error e =>
    simp only [bind, Except.bind, reduceCtorEq, false_iff, not_and]
    rintro rfl
    simp [hc]
  | ok u =>
    simp only [bind, Except.bind, pure, Except.pure, Except.ok.injEq]
    constructor
    · rintro rfl
      exact ⟨rfl, hc⟩
    · exact fun h => h.1.symm

end CapabilityMonitor

end Hyperion.Capability
