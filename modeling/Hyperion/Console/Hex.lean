import Hyperion.Console.PeerTrust

/-!
# Hex text

The codec of keys and signatures, and of the sealed lines of the write-ahead log. The decoder cuts the text at
every second byte, so a cut may fall inside a character, and its number parser takes a plus sign before a digit.
-/

namespace Hyperion.Console
open Lib List Option

/-- The text of `{b:02x}`. -/
def hexByte (b : UInt8) : List Char := [Nat.digitChar (b.toNat / 16), Nat.digitChar (b.toNat % 16)]

def encodeHex (bytes : List UInt8) : String := String.ofList (bytes.flatMap hexByte)

def IsHex (c : Char) : Prop := '0' ≤ c ∧ c ≤ '9' ∨ 'a' ≤ c ∧ c ≤ 'f' ∨ 'A' ≤ c ∧ c ≤ 'F'

instance : DecidablePred IsHex := fun _ => inferInstanceAs (Decidable (_ ∨ _ ∨ _))

/-- After pairs of hexadecimal digits, or of a plus sign and a digit, the text goes on with a character of two bytes
or with two of one byte; or it ends, and has no plus sign. -/
def Clean (text : List Char) : List Char → Prop
  | [] => '+' ∉ text
  | [c] => c.utf8Size = 2
  | c :: d :: rest => if IsHex d ∧ (IsHex c ∨ c = '+') then Clean text rest
    else c.utf8Size = 2 ∨ c.utf8Size = 1 ∧ d.utf8Size = 1

/-! ## Digits -/

theorem toDigit_spec {c : Char} {n : Nat} (h : toDigit c = some n) :
    n < 16 ∧ Nat.digitChar n = c.toLower ∧ c.utf8Size = 1 ∧ c ≠ '+' := by
  have hle : c ≤ 'f' := by
    unfold toDigit at h
    split_ifs at h with hdigit hlower hupper
    · exact hdigit.2.trans (by decide)
    · exact hlower.2
    · exact hupper.2.trans (by decide)
  have hnat : c.toNat < 103 := Nat.lt_succ_of_le (UInt32.le_iff_toNat_le.mp (Char.le_def.mp hle))
  have hall : ∀ k < 103, ∀ n ∈ toDigit (Char.ofNat k), n < 16 ∧
      Nat.digitChar n = (Char.ofNat k).toLower ∧ (Char.ofNat k).utf8Size = 1 ∧ Char.ofNat k ≠ '+' := by
    decide +kernel
  rw [← Char.ofNat_toNat c] at h ⊢
  exact hall _ hnat n h

theorem isSome_toDigit {c : Char} : (toDigit c).isSome = true ↔ IsHex c := by
  unfold toDigit IsHex
  split_ifs <;> simp_all

theorem IsHex.size {c : Char} (h : IsHex c) : c.utf8Size = 1 := by
  obtain ⟨n, hn⟩ := isSome_iff_exists.mp (isSome_toDigit.mpr h)
  exact (toDigit_spec hn).2.2.1

theorem toDigit_digitChar : ∀ n < 16, toDigit (Nat.digitChar n) = some n := by decide

variable {c d : Char} {hi lo : Nat}

theorem fromStrRadix_digits (hhi : toDigit c = some hi) (hlo : toDigit d = some lo) :
    fromStrRadix c d = some (UInt8.ofNat (16 * hi + lo)) := by
  simp [fromStrRadix, (toDigit_spec hhi).2.2.2, hhi, hlo]

theorem hexByte_digits (hhi : hi < 16) (hlo : lo < 16) :
    hexByte (UInt8.ofNat (16 * hi + lo)) = [Nat.digitChar hi, Nat.digitChar lo] := by
  rw [hexByte, UInt8.toNat_ofNat', Nat.mod_eq_of_lt (by omega), show (16 * hi + lo) / 16 = hi by omega,
    show (16 * hi + lo) % 16 = lo by omega]

theorem isSome_fromStrRadix :
    (fromStrRadix c d).isSome = true ↔ IsHex d ∧ (IsHex c ∨ c = '+') := by
  rw [← isSome_toDigit, ← isSome_toDigit, fromStrRadix]
  by_cases hplus : c = '+'
  · simp [hplus]
  · cases toDigit c <;> cases toDigit d <;> simp [hplus]

/-! ## Texts -/

theorem decodePairs_cons {b : UInt8} (hb : fromStrRadix c d = some b) (rest : List Char) :
    decodePairs (c :: d :: rest) = match decodePairs rest with
      | .bytes bs => .bytes (b :: bs)
      | .invalid => .invalid
      | .panicked => .panicked := by
  obtain ⟨hd, hc⟩ := isSome_fromStrRadix.mp (isSome_of_eq_some hb)
  have hsize : c.utf8Size = 1 := by
    rcases hc with hc | rfl
    · exact hc.size
    · rfl
  rw [decodePairs, if_pos hsize, if_pos hd.size]
  cases decodePairs rest <;> simp [hb]

theorem decodePairs_encodeHex (bs : List UInt8) : decodePairs (bs.flatMap hexByte) = .bytes bs := by
  induction bs with
  | nil => rfl
  | cons b bs ih =>
    have hb := b.toNat_lt
    have hpair := fromStrRadix_digits (toDigit_digitChar (b.toNat / 16) (by omega))
      (toDigit_digitChar (b.toNat % 16) (by omega))
    rw [Nat.div_add_mod, UInt8.ofNat_toNat] at hpair
    rw [flatMap_cons, hexByte, cons_append, cons_append, nil_append, decodePairs_cons hpair, ih]

theorem decodePairs_hex : ∀ {cs : List Char}, (∀ c ∈ cs, IsHex c) → cs.length % 2 = 0 →
    ∃ bs, decodePairs cs = .bytes bs ∧ bs.flatMap hexByte = cs.map Char.toLower
  | [], _, _ => ⟨[], rfl, rfl⟩
  | [_], _, heven => by simp at heven
  | c :: d :: rest, hhex, heven => by
    simp only [forall_mem_cons] at hhex
    obtain ⟨hi, hhi⟩ := isSome_iff_exists.mp (isSome_toDigit.mpr hhex.1)
    obtain ⟨lo, hlo⟩ := isSome_iff_exists.mp (isSome_toDigit.mpr hhex.2.1)
    obtain ⟨bs, hbs, hrest⟩ := decodePairs_hex hhex.2.2 (by simp only [length_cons] at heven; omega)
    obtain ⟨hi16, hihex, -⟩ := toDigit_spec hhi
    obtain ⟨lo16, lohex, -⟩ := toDigit_spec hlo
    refine ⟨_ :: bs, by rw [decodePairs_cons (fromStrRadix_digits hhi hlo), hbs], ?_⟩
    rw [flatMap_cons, hexByte_digits hi16 lo16, hrest, hihex, lohex]
    rfl

theorem decodePairs_chars : ∀ {cs : List Char} {bs : List UInt8}, decodePairs cs = .bytes bs →
    cs.length % 2 = 0 ∧ ∀ c ∈ cs, IsHex c ∨ c = '+'
  | [], _, _ => by simp
  | [c], _, h => by
    rw [decodePairs] at h
    split at h <;> cases h
  | c :: d :: rest, bs, h => by
    cases hb : fromStrRadix c d with
    | none => grind [decodePairs]
    | some b =>
      obtain ⟨hd, hc⟩ := isSome_fromStrRadix.mp (isSome_of_eq_some hb)
      rw [decodePairs_cons hb] at h
      cases hrest : decodePairs rest with
      | bytes bs' =>
        obtain ⟨heven, hall⟩ := decodePairs_chars hrest
        simp only [length_cons, forall_mem_cons]
        exact ⟨by omega, hc, .inl hd, hall⟩
      | _ => simp [hrest] at h

theorem clean_iff (text : List Char) : ∀ cs : List Char,
    (decodePairs cs ≠ .panicked ∧ ∀ bs, decodePairs cs = .bytes bs → '+' ∉ text) ↔ Clean text cs
  | [] => by simp [decodePairs, Clean]
  | [c] => by by_cases h : c.utf8Size = 2 <;> simp [decodePairs, Clean, h]
  | c :: d :: rest => by
    have ih := clean_iff text rest
    simp only [Clean, ← isSome_fromStrRadix]
    cases hb : fromStrRadix c d with
    | none =>
      by_cases hc : c.utf8Size = 1 <;> by_cases hd : d.utf8Size = 1 <;> by_cases hc' : c.utf8Size = 2 <;>
        simp_all [decodePairs]
    | some b =>
      rw [decodePairs_cons hb, isSome_some, if_pos rfl, ← ih]
      cases decodePairs rest <;> simp

theorem utf8ByteSize_of_single {s : String} (h : ∀ c ∈ s.toList, c.utf8Size = 1) :
    s.utf8ByteSize = s.toList.length := by
  have hsum : ∀ cs : List Char, (∀ c ∈ cs, c.utf8Size = 1) → String.utf8Len cs = cs.length := by
    intro cs hcs
    induction cs with
    | nil => rfl
    | cons c cs ih =>
      rw [forall_mem_cons] at hcs
      rw [String.utf8Len_cons, ih hcs.2, hcs.1, length_cons]
  rw [← hsum _ h, ← String.utf8ByteSize_ofList, String.ofList_toList]

theorem decodeHex_hex {s : String} (heven : s.utf8ByteSize % 2 = 0) (hhex : ∀ c ∈ s.toList, IsHex c) :
    ∃ bs, decodeHex s = .bytes bs ∧ encodeHex bs = String.ofList (s.toList.map Char.toLower) := by
  obtain ⟨bs, hbs, hlower⟩ := decodePairs_hex hhex
    (utf8ByteSize_of_single (fun c hc => (hhex c hc).size) ▸ heven)
  exact ⟨bs, by rw [decodeHex, if_pos heven, hbs], by rw [encodeHex, hlower]⟩

theorem decodeHex_encodeHex (bs : List UInt8) : decodeHex (encodeHex bs) = .bytes bs := by
  have hread := decodePairs_encodeHex bs
  obtain ⟨heven, hchars⟩ := decodePairs_chars hread
  rw [decodeHex, utf8ByteSize_of_single, encodeHex, String.toList_ofList, if_pos heven, hread]
  rw [encodeHex, String.toList_ofList]
  exact fun c hc => (hchars c hc).elim IsHex.size fun h => h ▸ rfl

theorem decodeHex_clean_iff (s : String) : (decodeHex s ≠ .panicked ∧ ∀ bs, decodeHex s = .bytes bs →
      s.utf8ByteSize % 2 = 0 ∧ ∀ c ∈ s.toList, IsHex c) ↔
    s.utf8ByteSize % 2 = 1 ∨ Clean s.toList s.toList := by
  rcases Nat.mod_two_eq_zero_or_one s.utf8ByteSize with heven | hodd
  · rw [decodeHex, if_pos heven, or_iff_right (by omega), ← clean_iff]
    refine and_congr_right fun _ => forall_congr' fun bs => imp_congr_right fun hbs => ?_
    have hchars := (decodePairs_chars hbs).2
    constructor
    · rintro ⟨-, hhex⟩ hplus
      exact absurd (hhex _ hplus) (by decide)
    · exact fun hplus => ⟨heven, fun c hc => (hchars c hc).resolve_right fun h => hplus (h ▸ hc)⟩
  · simp [decodeHex, hodd]

/-- The decoder is exact on the text. -/
structure Exact (s : String) : Prop where
  returns : decodeHex s ≠ .panicked
  accepts : (∃ bs, decodeHex s = .bytes bs) ↔ s.utf8ByteSize % 2 = 0 ∧ ∀ c ∈ s.toList, IsHex c
  lower : ∀ bs, decodeHex s = .bytes bs → encodeHex bs = String.ofList (s.toList.map Char.toLower)

/-- **Keys decode exactly if and only if** the text has odd length or is clean; and encoded bytes are read back. -/
theorem decodeHex_exact_iff (s : String) :
    (Exact s ↔ s.utf8ByteSize % 2 = 1 ∨ Clean s.toList s.toList) ∧
      ∀ bs, decodeHex (encodeHex bs) = .bytes bs := by
  refine ⟨?_, decodeHex_encodeHex⟩
  rw [← decodeHex_clean_iff]
  constructor
  · exact fun h => ⟨h.returns, fun bs hbs => h.accepts.mp ⟨bs, hbs⟩⟩
  · rintro ⟨hreturns, haccepts⟩
    refine ⟨hreturns, ⟨fun ⟨bs, hbs⟩ => haccepts bs hbs, fun ⟨heven, hhex⟩ => ?_⟩, fun bs hbs => ?_⟩
    · obtain ⟨bs, hbs, -⟩ := decodeHex_hex heven hhex
      exact ⟨bs, hbs⟩
    · obtain ⟨heven, hhex⟩ := haccepts bs hbs
      obtain ⟨bs', hbs', hlower⟩ := decodeHex_hex heven hhex
      cases hbs.symm.trans hbs'
      exact hlower

/-- **A cut inside a character panics, and a plus sign is taken for a digit.** -/
theorem decodeHex_goes_wrong : decodeHex "aéb" = .panicked ∧ decodeHex "+1" = .bytes [1] ∧ ¬ IsHex '+' := by
  decide +kernel

end Hyperion.Console

/-! ## The write-ahead log -/

namespace Hyperion.Storage
open Console

def toHex : List UInt8 → String := encodeHex

def fromHex : String → Decoded := decodeHex

/-- **Sealed lines are read exactly if and only if** the line has odd length or is clean. -/
theorem fromHex_exact_iff (s : String) :
    ((fromHex s ≠ .panicked ∧ ∀ bs, fromHex s = .bytes bs →
        s.utf8ByteSize % 2 = 0 ∧ ∀ c ∈ s.toList, IsHex c) ↔
      s.utf8ByteSize % 2 = 1 ∨ Clean s.toList s.toList) ∧
    ∀ bs, fromHex (toHex bs) = .bytes bs :=
  ⟨decodeHex_clean_iff s, decodeHex_encodeHex⟩

theorem fromHex_goes_wrong : fromHex "0é0" = .panicked ∧ fromHex "+f" = .bytes [15] ∧ ¬ IsHex '+' := by
  decide +kernel

end Hyperion.Storage
