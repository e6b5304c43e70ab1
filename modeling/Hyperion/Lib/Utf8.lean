import Mathlib

/-!
# UTF-8 bytes of a list of characters

`utf8Bytes` encodes; `decodeUtf8` decodes a whole byte string or fails. A prefix of an encoding that
decodes is the encoding of a prefix.
-/

namespace Hyperion.Lib
open List Option

def decodeUtf8 (bytes : List UInt8) : Option String := String.fromUTF8? bytes.toByteArray

def utf8Bytes (cs : List Char) : List UInt8 := cs.flatMap String.utf8EncodeChar

variable {l : List UInt8} {s : String}

theorem decodeUtf8_eq_some_iff :
    decodeUtf8 l = some s ↔ s.toByteArray = l.toByteArray := by
  unfold decodeUtf8 String.fromUTF8?
  split
  · rw [some.injEq, ← String.toByteArray_inj]
    exact eq_comm
  · next hinvalid =>
    simp only [reduceCtorEq, false_iff]
    intro h
    exact hinvalid (h ▸ s.isValidUTF8)

theorem decodeUtf8_isEmpty (h : decodeUtf8 l = some s) (hne : l ≠ []) :
    s.isEmpty = false := by
  have hsize : s.utf8ByteSize = l.length := by
    rw [← String.size_toByteArray, decodeUtf8_eq_some_iff.mp h]
    simp
  rw [String.isEmpty, hsize, beq_eq_false_iff_ne]
  exact fun hzero => hne (length_eq_zero_iff.mp hzero)

theorem toByteArray_ofList (cs : List Char) :
    (String.ofList cs).toByteArray = (utf8Bytes cs).toByteArray := by
  rw [String.toByteArray_ofList]
  rfl

theorem decodeUtf8_utf8Bytes (cs : List Char) : decodeUtf8 (utf8Bytes cs) = some (String.ofList cs) :=
  decodeUtf8_eq_some_iff.mpr (toByteArray_ofList cs)

theorem utf8Bytes_injective : Function.Injective utf8Bytes := by
  intro cs ds h
  have hread := decodeUtf8_utf8Bytes cs
  rw [h, decodeUtf8_utf8Bytes] at hread
  exact (String.ofList_injective (some.inj hread)).symm

theorem eq_utf8Bytes_of_decodeUtf8 (h : decodeUtf8 l = some s) :
    l = utf8Bytes s.toList := by
  have hs := decodeUtf8_eq_some_iff.mp h
  have hs' := toByteArray_ofList s.toList
  rw [String.ofList_toList, hs] at hs'
  have hdata := congrArg (fun b : ByteArray => b.data.toList) hs'
  simpa using hdata

theorem utf8EncodeChar_append_inj {c c' : Char} {l l' : List UInt8}
    (h : String.utf8EncodeChar c ++ l = String.utf8EncodeChar c' ++ l') : c = c' ∧ l = l' := by
  have hc : c = c' := by
    have hdec := @ByteArray.utf8DecodeChar?_utf8EncodeChar_append l.toByteArray c
    have hdec' := @ByteArray.utf8DecodeChar?_utf8EncodeChar_append l'.toByteArray c'
    rw [← toByteArray_append, h, toByteArray_append, hdec'] at hdec
    exact (some.inj hdec).symm
  subst hc
  exact ⟨rfl, append_cancel_left h⟩

theorem prefix_of_utf8Bytes_append {cs cs' : List Char}
    (h : utf8Bytes cs ++ l = utf8Bytes cs') : cs <+: cs' := by
  induction cs generalizing cs' with
  | nil => exact nil_prefix
  | cons c cs ih =>
    cases cs' with
    | nil =>
      have hnil : String.utf8EncodeChar c = [] := by
        simp only [utf8Bytes, flatMap_cons, flatMap_nil, append_assoc,
          append_eq_nil_iff] at h
        exact h.1
      have hlen := congrArg List.length hnil
      rw [String.length_utf8EncodeChar, length_nil] at hlen
      exact absurd hlen (Nat.ne_of_gt c.utf8Size_pos)
    | cons c' cs' =>
      simp only [utf8Bytes, flatMap_cons, append_assoc] at h
      obtain ⟨rfl, htail⟩ := utf8EncodeChar_append_inj h
      exact (prefix_cons_inj c).mpr (ih htail)

theorem utf8Bytes_append_cases {cs ds : List Char} {s t : List UInt8}
    (h : utf8Bytes cs ++ s = utf8Bytes ds ++ t) :
    ∃ rest, (ds = cs ++ rest ∧ s = utf8Bytes rest ++ t) ∨ (cs = ds ++ rest ∧ t = utf8Bytes rest ++ s) := by
  induction cs generalizing ds with
  | nil => exact ⟨ds, .inl ⟨rfl, h⟩⟩
  | cons c cs ih =>
    cases ds with
    | nil => exact ⟨c :: cs, .inr ⟨rfl, h.symm⟩⟩
    | cons d ds =>
      simp only [utf8Bytes, flatMap_cons, append_assoc] at h
      obtain ⟨rfl, htail⟩ := utf8EncodeChar_append_inj h
      obtain ⟨rest, ⟨rfl, hs⟩ | ⟨rfl, ht⟩⟩ := ih htail
      · exact ⟨rest, .inl ⟨rfl, hs⟩⟩
      · exact ⟨rest, .inr ⟨rfl, ht⟩⟩

theorem decodeUtf8_prefix {p : List UInt8} {cs : List Char} (hp : p <+: utf8Bytes cs)
    (hs : decodeUtf8 p = some s) : s.toList <+: cs ∧ p = utf8Bytes s.toList := by
  obtain ⟨q, hq⟩ := hp
  have hbytes := eq_utf8Bytes_of_decodeUtf8 hs
  rw [hbytes] at hq
  exact ⟨prefix_of_utf8Bytes_append hq, hbytes⟩

theorem le_of_mem_utf8EncodeChar {c : Char} (hc : 32 ≤ c.toNat) :
    ∀ b ∈ String.utf8EncodeChar c, (32 : UInt8) ≤ b := by
  have hval : c.val.toNat = c.toNat := rfl
  have hle : ∀ n, 32 ≤ n % 256 → (32 : UInt8) ≤ UInt8.ofNat n := by
    intro n hn
    rw [UInt8.le_iff_toNat_le, UInt8.toNat_ofNat']
    exact hn
  intro b hb
  unfold String.utf8EncodeChar at hb
  simp only [hval] at hb
  split_ifs at hb <;> simp only [mem_cons, not_mem_nil, or_false] at hb
  · subst hb
    exact hle _ (by omega)
  · rcases hb with rfl | rfl <;> exact hle _ (by omega)
  · rcases hb with rfl | rfl | rfl <;> exact hle _ (by omega)
  · rcases hb with rfl | rfl | rfl | rfl <;> exact hle _ (by omega)

end Hyperion.Lib
