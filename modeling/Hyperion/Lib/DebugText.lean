import Hyperion.Lib.Json.Lexeme
import Hyperion.Lib.Utf8

/-!
# Debug texts

The texts that Rust's `{:?}` writes for numbers and strings. A text is self-delimiting if it can be
told where it ends whatever follows it; a concatenation of such texts determines its parts.
-/

namespace Hyperion.Lib
open Json List

/-- The end of the text of a value is seen from the text itself, whatever follows it. -/
def SelfDelimiting {α β : Type} (text : α → List β) : Prop :=
  ∀ a b s t, text a ++ s = text b ++ t → a = b ∧ s = t

theorem SelfDelimiting.of_length {α β : Type} {text : α → List β} (width : Nat)
    (hlength : ∀ a, (text a).length = width) (hinj : Function.Injective text) : SelfDelimiting text := by
  intro a b s t h
  obtain ⟨htext, hst⟩ := append_inj h ((hlength a).trans (hlength b).symm)
  exact ⟨hinj htext, hst⟩

theorem SelfDelimiting.flatMap_injective {α β : Type} {text : α → List β} (h : SelfDelimiting text)
    (hne : ∀ a, text a ≠ []) : Function.Injective fun l : List α => l.flatMap text := by
  intro l
  induction l with
  | nil =>
    intro m hm
    cases m with
    | nil => rfl
    | cons b m =>
      simp only [flatMap_nil, flatMap_cons] at hm
      exact absurd (append_eq_nil_iff.mp hm.symm).1 (hne b)
  | cons a l ih =>
    intro m hm
    cases m with
    | nil =>
      simp only [flatMap_nil, flatMap_cons] at hm
      exact absurd (append_eq_nil_iff.mp hm).1 (hne a)
    | cons b m =>
      simp only [flatMap_cons] at hm
      obtain ⟨rfl, hrest⟩ := h a b _ _ hm
      rw [ih hrest]

theorem append_cons_inj {α : Type} {a : α} {x y s t : List α} (hx : a ∉ x) (hy : a ∉ y)
    (h : x ++ a :: s = y ++ a :: t) : x = y ∧ s = t := by
  induction x generalizing y with
  | nil =>
    cases y with
    | nil => exact ⟨rfl, (List.cons.inj h).2⟩
    | cons c y => exact absurd ((List.cons.inj h).1 ▸ mem_cons_self) hy
  | cons b x ih =>
    cases y with
    | nil => exact absurd ((List.cons.inj h).1 ▸ mem_cons_self) hx
    | cons c y =>
      obtain ⟨rfl, hrest⟩ := List.cons.inj h
      obtain ⟨rfl, hst⟩ :=
        ih (fun hm => hx (mem_cons_of_mem _ hm)) (fun hm => hy (mem_cons_of_mem _ hm)) hrest
      exact ⟨rfl, hst⟩

/-! ## Numbers -/

theorem renderNat_append_inj {n m : Nat} {s t : List Char} (hs : Stops s) (ht : Stops t)
    (h : renderNat n ++ s = renderNat m ++ t) : n = m ∧ s = t := by
  have hread := parseNat_renderNat n hs
  rw [h, parseNat_renderNat m ht] at hread
  obtain ⟨rfl, rfl⟩ := Prod.mk.inj (Option.some.inj hread)
  exact ⟨rfl, rfl⟩

theorem stops_cons {c : Char} (hc : digitVal c = none) (rest : List Char) : Stops (c :: rest) := by
  rintro c' ⟨⟩
  exact hc

def renderHex (n : Nat) : List Char := (Nat.digits 16 n).reverse.map Nat.digitChar

theorem hexVal_digitChar : ∀ d < 16, hexVal (Nat.digitChar d) = some d := by decide

theorem renderHex_injective : Function.Injective renderHex := by
  intro n m h
  have hread : ∀ k, (renderHex k).reverse.filterMap hexVal = Nat.digits 16 k := by
    intro k
    rw [renderHex, map_reverse, reverse_reverse, filterMap_map]
    have hdigits : ∀ d ∈ Nat.digits 16 k, (hexVal ∘ Nat.digitChar) d = some d :=
      fun d hd => hexVal_digitChar d (Nat.digits_lt_base (by decide) hd)
    rw [filterMap_congr hdigits, filterMap_some]
  have hdigits := hread n
  rw [h, hread m] at hdigits
  exact (Nat.digits.injective 16 hdigits).symm

theorem brace_notMem_renderHex (n : Nat) : '}' ∉ renderHex n := by
  intro hmem
  obtain ⟨d, hd, hbrace⟩ := mem_map.mp hmem
  have hlt : d < 16 := Nat.digits_lt_base (by decide) (mem_reverse.mp hd)
  have hval := hexVal_digitChar d hlt
  rw [hbrace] at hval
  exact nomatch hval

/-! ## Strings -/

/-- The letter after a backslash, for the characters that have one. -/
def shortEscape (c : Char) : Option Char :=
  if c = Char.ofNat 0 then some '0'
  else if c = '\t' then some 't'
  else if c = '\r' then some 'r'
  else if c = '\n' then some 'n'
  else if c = '"' then some '"'
  else if c = '\\' then some '\\'
  else none

/-- The character that a letter after a backslash stands for. -/
def longEscape (l : Char) : Option Char :=
  if l = '0' then some (Char.ofNat 0)
  else if l = 't' then some '\t'
  else if l = 'r' then some '\r'
  else if l = 'n' then some '\n'
  else if l = '"' then some '"'
  else if l = '\\' then some '\\'
  else none

theorem longEscape_shortEscape {c l : Char} (h : shortEscape c = some l) : longEscape l = some c := by
  unfold shortEscape at h
  split_ifs at h with h0 h1 h2 h3 h4 h5 <;> cases h <;> subst c <;> rfl

section
variable (printable : Char → Bool)

/-- `char::escape_debug` inside a string; `printable` are the characters that stand for themselves. -/
def escapeDebug (c : Char) : List Char :=
  match shortEscape c with
  | some l => ['\\', l]
  | none =>
    if printable c then [c] else '\\' :: 'u' :: '{' :: (renderHex c.toNat ++ ['}'])

def debugStr (s : String) : List Char := '"' :: (s.toList.flatMap (escapeDebug printable) ++ ['"'])

inductive Escaped (c : Char) : List Char → Prop
  | short {l : Char} (h : longEscape l = some c) : Escaped c ['\\', l]
  | plain (hslash : c ≠ '\\') (hquote : c ≠ '"') : Escaped c [c]
  | hex : Escaped c ('\\' :: 'u' :: '{' :: (renderHex c.toNat ++ ['}']))

theorem escaped_escapeDebug (c : Char) : Escaped c (escapeDebug printable c) := by
  unfold escapeDebug
  split
  · next l hl => exact .short (longEscape_shortEscape hl)
  · next hnone =>
    split
    · refine .plain ?_ ?_
      · rintro rfl
        exact nomatch hnone
      · rintro rfl
        exact nomatch hnone
    · exact .hex

variable {printable}

theorem Escaped.ne_quote {c : Char} {x s t : List Char} (h : Escaped c x) : x ++ s ≠ '"' :: t := by
  cases h with
  | plain _ hquote => exact fun heq => hquote (List.cons.inj heq).1
  | short | hex => exact fun heq => nomatch (List.cons.inj heq).1

theorem Escaped.append_inj {c d : Char} {x y s t : List Char} (hx : Escaped c x) (hy : Escaped d y)
    (h : x ++ s = y ++ t) : c = d ∧ s = t := by
  have hu : longEscape 'u' = none := rfl
  cases hx with
  | short hl =>
    cases hy with
    | short hl' =>
      obtain ⟨-, hrest⟩ := List.cons.inj h
      obtain ⟨rfl, hst⟩ := List.cons.inj hrest
      exact ⟨Option.some.inj (hl.symm.trans hl'), hst⟩
    | plain hslash _ => exact absurd (List.cons.inj h).1.symm hslash
    | hex =>
      obtain ⟨rfl, -⟩ := List.cons.inj (List.cons.inj h).2
      exact nomatch hu.symm.trans hl
  | plain hslash _ =>
    cases hy with
    | short _ => exact absurd (List.cons.inj h).1 hslash
    | plain _ _ => exact List.cons.inj h
    | hex => exact absurd (List.cons.inj h).1 hslash
  | hex =>
    cases hy with
    | short hl' =>
      obtain ⟨rfl, -⟩ := List.cons.inj (List.cons.inj h).2
      exact nomatch hu.symm.trans hl'
    | plain hslash _ => exact absurd (List.cons.inj h).1.symm hslash
    | hex =>
      simp only [cons_append, append_assoc, List.cons.injEq, true_and] at h
      obtain ⟨hhex, hst⟩ := append_cons_inj (brace_notMem_renderHex _) (brace_notMem_renderHex _) h
      exact ⟨Char.toNat_inj.mp (renderHex_injective hhex), hst⟩

theorem flatMap_escapeDebug_inj {cs ds s t : List Char}
    (h : cs.flatMap (escapeDebug printable) ++ '"' :: s = ds.flatMap (escapeDebug printable) ++ '"' :: t) :
    cs = ds ∧ s = t := by
  induction cs generalizing ds with
  | nil =>
    cases ds with
    | nil => exact ⟨rfl, (List.cons.inj h).2⟩
    | cons d ds =>
      rw [flatMap_cons, append_assoc] at h
      exact absurd h.symm (escaped_escapeDebug printable d).ne_quote
  | cons c cs ih =>
    cases ds with
    | nil =>
      rw [flatMap_cons, append_assoc] at h
      exact absurd h (escaped_escapeDebug printable c).ne_quote
    | cons d ds =>
      rw [flatMap_cons, flatMap_cons, append_assoc, append_assoc] at h
      obtain ⟨rfl, hrest⟩ :=
        (escaped_escapeDebug printable c).append_inj (escaped_escapeDebug printable d) h
      obtain ⟨rfl, hst⟩ := ih hrest
      exact ⟨rfl, hst⟩

theorem selfDelimiting_debugStr : SelfDelimiting (debugStr printable) := by
  intro a b s t h
  rw [debugStr, debugStr, cons_append, cons_append, append_assoc, append_assoc] at h
  obtain ⟨hchars, hst⟩ := flatMap_escapeDebug_inj (List.cons.inj h).2
  exact ⟨String.toList_inj.mp hchars, hst⟩

end

/-! ## Bytes -/

theorem SelfDelimiting.utf8 {α : Type} {text : α → List Char} (h : SelfDelimiting text) :
    SelfDelimiting fun a => utf8Bytes (text a) := by
  intro a b s t hbytes
  obtain ⟨rest, ⟨htext, hs⟩ | ⟨htext, ht⟩⟩ := utf8Bytes_append_cases hbytes
  · obtain ⟨rfl, rfl⟩ := h b a [] rest (by rw [append_nil, htext])
    exact ⟨rfl, hs⟩
  · obtain ⟨rfl, rfl⟩ := h a b [] rest (by rw [append_nil, htext])
    exact ⟨rfl, ht.symm⟩

end Hyperion.Lib
