import Mathlib

/-!
# Numbers and strings of JSON text

The compact forms a printer writes, and the readers of both. A reader reads back what was printed, and more
text behind what it took changes nothing (`_append`).
-/

namespace Hyperion.Lib.Json
open List Option

variable {cs rest : List Char}

/-! ## Numbers -/

def renderNat (n : Nat) : List Char :=
  if n = 0 then ['0'] else (Nat.digits 10 n).reverse.map Nat.digitChar

def renderInt (n : Int) : List Char :=
  if n < 0 then '-' :: renderNat n.natAbs else renderNat n.natAbs

def digitVal (c : Char) : Option Nat :=
  if '0' ≤ c ∧ c ≤ '9' then some (c.toNat - 48) else none

def parseDigits : Nat → List Char → Nat × List Char
  | acc, [] => (acc, [])
  | acc, c :: cs =>
    match digitVal c with
    | some d => parseDigits (acc * 10 + d) cs
    | none => (acc, c :: cs)

def parseNat : List Char → Option (Nat × List Char)
  | [] => none
  | c :: cs => (digitVal c).map fun d => parseDigits d cs

def parseInt : List Char → Option (Int × List Char)
  | [] => none
  | c :: cs =>
    if c = '-' then (parseNat cs).map fun (n, rest) => (-(n : Int), rest)
    else (parseNat (c :: cs)).map fun (n, rest) => ((n : Int), rest)

/-- The text does not go on with the digits before it. -/
def Stops (rest : List Char) : Prop := ∀ c, rest.head? = some c → digitVal c = none

theorem digitVal_digitChar : ∀ d < 10, digitVal (Nat.digitChar d) = some d := by decide

theorem digitVal_minus : digitVal '-' = none := by decide

theorem parseDigits_map_append {rest : List Char} (hrest : Stops rest) (ds : List Nat)
    (hds : ∀ d ∈ ds, d < 10) (acc : Nat) :
    parseDigits acc (ds.map Nat.digitChar ++ rest) = (ds.foldl (fun n d => n * 10 + d) acc, rest) := by
  induction ds generalizing acc with
  | nil =>
    cases rest with
    | nil => rfl
    | cons c cs => simp [parseDigits, hrest c rfl]
  | cons d ds ih =>
    simp only [map_cons, cons_append, parseDigits,
      digitVal_digitChar d (hds d mem_cons_self), foldl_cons]
    exact ih (fun d' hd' => hds d' (mem_cons_of_mem _ hd')) _

theorem foldl_reverse_eq_ofDigits (ds : List Nat) :
    ds.reverse.foldl (fun n d => n * 10 + d) 0 = Nat.ofDigits 10 ds := by
  induction ds with
  | nil => rfl
  | cons d ds ih =>
    rw [reverse_cons, foldl_append, ih, Nat.ofDigits_cons]
    simp [Nat.mul_comm, Nat.add_comm]

theorem parseNat_renderNat (n : Nat) {rest : List Char} (hrest : Stops rest) :
    parseNat (renderNat n ++ rest) = some (n, rest) := by
  unfold renderNat
  split
  · next hzero =>
    subst hzero
    simpa [parseNat, digitVal] using parseDigits_map_append hrest [] (by simp) 0
  · next hne =>
    have hds : ∀ d ∈ (Nat.digits 10 n).reverse, d < 10 := fun d hd =>
      Nat.digits_lt_base (by decide) (mem_reverse.mp hd)
    have hval : (Nat.digits 10 n).reverse.foldl (fun n d => n * 10 + d) 0 = n := by
      rw [foldl_reverse_eq_ofDigits, Nat.ofDigits_digits]
    cases hcase : (Nat.digits 10 n).reverse with
    | nil =>
      rw [reverse_eq_nil_iff, Nat.digits_eq_nil_iff_eq_zero] at hcase
      exact absurd hcase hne
    | cons d ds =>
      rw [hcase] at hds hval
      have hd := digitVal_digitChar d (hds d mem_cons_self)
      simp only [map_cons, cons_append, parseNat, hd, map_some]
      rw [parseDigits_map_append hrest ds fun d' hd' => hds d' (mem_cons_of_mem _ hd')]
      simpa using hval

theorem renderNat_head (n : Nat) : ∃ c cs, renderNat n = c :: cs ∧ digitVal c ≠ none := by
  unfold renderNat
  split
  · exact ⟨_, _, rfl, by decide⟩
  · next hne =>
    cases hcase : (Nat.digits 10 n).reverse with
    | nil =>
      rw [reverse_eq_nil_iff, Nat.digits_eq_nil_iff_eq_zero] at hcase
      exact absurd hcase hne
    | cons d ds =>
      have hlt : d < 10 := Nat.digits_lt_base (by decide) (mem_reverse.mp (by rw [hcase]; simp))
      exact ⟨_, _, rfl, by rw [digitVal_digitChar d hlt]; exact some_ne_none d⟩

theorem renderInt_head (n : Int) : ∃ c cs, renderInt n = c :: cs ∧ (c = '-' ∨ digitVal c ≠ none) := by
  unfold renderInt
  split
  · exact ⟨_, _, rfl, .inl rfl⟩
  · obtain ⟨c, cs, hcs, hc⟩ := renderNat_head n.natAbs
    exact ⟨c, cs, hcs, .inr hc⟩

theorem parseInt_renderInt (n : Int) {rest : List Char} (hrest : Stops rest) :
    parseInt (renderInt n ++ rest) = some (n, rest) := by
  unfold renderInt
  split
  · next hneg =>
    simp only [cons_append, parseInt, if_true, parseNat_renderNat _ hrest, map_some,
      some.injEq, Prod.mk.injEq, and_true]
    omega
  · next hpos =>
    obtain ⟨c, cs, hcs, hdigit⟩ := renderNat_head n.natAbs
    have hne : c ≠ '-' := by
      rintro rfl
      exact hdigit digitVal_minus
    have hparse := parseNat_renderNat n.natAbs hrest
    rw [hcs] at hparse ⊢
    rw [cons_append] at hparse ⊢
    simp only [parseInt, if_neg hne, hparse, map_some, some.injEq, Prod.mk.injEq,
      and_true]
    omega

theorem parseDigits_append {acc : Nat} {n : Nat} (h : parseDigits acc cs = (n, rest)) (hne : rest ≠ [])
    (more : List Char) : parseDigits acc (cs ++ more) = (n, rest ++ more) := by
  induction cs generalizing acc with
  | nil =>
    cases h
    exact absurd rfl hne
  | cons c cs ih =>
    simp only [cons_append, parseDigits] at h ⊢
    cases hd : digitVal c with
    | some d =>
      simp only [hd] at h ⊢
      exact ih h
    | none =>
      simp only [hd] at h ⊢
      cases h
      rfl

theorem parseNat_append {n : Nat} (h : parseNat cs = some (n, rest))
    (hne : rest ≠ []) (more : List Char) : parseNat (cs ++ more) = some (n, rest ++ more) := by
  cases cs with
  | nil => cases h
  | cons c cs =>
    rw [parseNat, map_eq_some_iff] at h
    obtain ⟨d, hd, hdigits⟩ := h
    rw [cons_append, parseNat, hd, map_some, parseDigits_append hdigits hne]

theorem parseInt_append {n : Int} (h : parseInt cs = some (n, rest))
    (hne : rest ≠ []) (more : List Char) : parseInt (cs ++ more) = some (n, rest ++ more) := by
  cases cs with
  | nil => cases h
  | cons c cs =>
    rw [cons_append, parseInt]
    rw [parseInt] at h
    split at h
    · next hminus =>
      obtain ⟨⟨k, r⟩, hk, hkr⟩ := map_eq_some_iff.mp h
      cases hkr
      rw [if_pos hminus, parseNat_append hk hne]
      rfl
    · next hplus =>
      obtain ⟨⟨k, r⟩, hk, hkr⟩ := map_eq_some_iff.mp h
      cases hkr
      rw [if_neg hplus, ← cons_append, parseNat_append hk hne]
      rfl

/-! ## Strings -/

def hexDigit (n : Nat) : Char := Nat.digitChar n

/-- A character as it stands in a string: quotes, backslashes and control characters escaped. -/
def escape (c : Char) : List Char :=
  if c = '"' then ['\\', '"']
  else if c = '\\' then ['\\', '\\']
  else if c.toNat < 32 then
    if c = '\n' then ['\\', 'n']
    else if c = '\r' then ['\\', 'r']
    else if c = '\t' then ['\\', 't']
    else if c.toNat = 8 then ['\\', 'b']
    else if c.toNat = 12 then ['\\', 'f']
    else ['\\', 'u', '0', '0', hexDigit (c.toNat / 16), hexDigit (c.toNat % 16)]
  else [c]

def hexVal (c : Char) : Option Nat :=
  if '0' ≤ c ∧ c ≤ '9' then some (c.toNat - 48)
  else if 'a' ≤ c ∧ c ≤ 'f' then some (c.toNat - 87)
  else none

def unescape (c : Char) : Option Char :=
  if c = '"' then some '"'
  else if c = '\\' then some '\\'
  else if c = 'n' then some '\n'
  else if c = 'r' then some '\r'
  else if c = 't' then some '\t'
  else if c = 'b' then some (Char.ofNat 8)
  else if c = 'f' then some (Char.ofNat 12)
  else none

def parseChar : List Char → Option (Char × List Char)
  | '\\' :: 'u' :: '0' :: '0' :: a :: b :: rest => do
    let high ← hexVal a
    let low ← hexVal b
    some (Char.ofNat (high * 16 + low), rest)
  | '\\' :: c :: rest => (unescape c).map fun c' => (c', rest)
  | c :: rest => if c = '\\' ∨ c.toNat < 32 then none else some (c, rest)
  | [] => none

/-- Reads a string up to its closing quote; the fuel bounds the number of characters. -/
def parseString : Nat → List Char → Option (List Char × List Char)
  | 0, _ => none
  | fuel + 1, cs =>
    if cs.head? = some '"' then some ([], cs.tail)
    else do
      let (c, rest) ← parseChar cs
      let (s, rest) ← parseString fuel rest
      some (c :: s, rest)

def renderString (s : List Char) : List Char := '"' :: (s.flatMap escape ++ ['"'])

variable {c : Char}

theorem parseChar_backslash (hc : c ≠ 'u') (rest : List Char) :
    parseChar ('\\' :: c :: rest) = (unescape c).map fun c' => (c', rest) := by
  rw [parseChar]
  exact fun _ _ _ h => absurd h hc

theorem parseChar_plain (hc : c ≠ '\\') (hcontrol : ¬ c.toNat < 32) (rest : List Char) :
    parseChar (c :: rest) = some (c, rest) := by
  rw [parseChar, if_neg (not_or.mpr ⟨hc, hcontrol⟩)]
  · exact fun _ _ _ h => absurd h hc
  · exact fun _ _ h => absurd h hc

theorem parseChar_escape_control : ∀ n < 32, ∀ rest : List Char,
    parseChar (escape (Char.ofNat n) ++ rest) = some (Char.ofNat n, rest) := by
  intro n hn rest
  interval_cases n <;> rfl

theorem parseChar_escape (c : Char) (rest : List Char) : parseChar (escape c ++ rest) = some (c, rest) := by
  by_cases hcontrol : c.toNat < 32
  · have h := parseChar_escape_control c.toNat hcontrol rest
    rwa [Char.ofNat_toNat] at h
  · by_cases hquote : c = '"'
    · subst hquote
      rfl
    · by_cases hslash : c = '\\'
      · subst hslash
        rfl
      · have hplain : escape c = [c] := by simp [escape, hquote, hslash, hcontrol]
        rw [hplain, singleton_append, parseChar_plain hslash hcontrol]

theorem escape_ne_quote (c : Char) (rest : List Char) : (escape c ++ rest).head? ≠ some '"' := by
  unfold escape
  split_ifs <;> simp_all

theorem parseString_renderString (s : List Char) {fuel : Nat} (hfuel : s.length < fuel) (rest : List Char) :
    parseString fuel (s.flatMap escape ++ '"' :: rest) = some (s, rest) := by
  induction s generalizing fuel with
  | nil =>
    obtain ⟨fuel, rfl⟩ := Nat.exists_eq_succ_of_ne_zero (Nat.ne_of_gt hfuel)
    simp [parseString]
  | cons c s ih =>
    obtain ⟨fuel, rfl⟩ := Nat.exists_eq_succ_of_ne_zero (Nat.ne_of_gt (Nat.lt_of_le_of_lt (Nat.zero_le _) hfuel))
    rw [flatMap_cons, append_assoc, parseString, if_neg (escape_ne_quote c _),
      parseChar_escape]
    simp [ih (Nat.lt_of_succ_lt_succ hfuel)]

theorem parseChar_append (h : parseChar cs = some (c, rest))
    (more : List Char) : parseChar (cs ++ more) = some (c, rest ++ more) := by
  unfold parseChar at h
  split at h
  · next a b tail =>
    simp only [cons_append, parseChar]
    simp only [bind_eq_bind, bind_eq_some_iff] at h ⊢
    obtain ⟨high, hhigh, low, hlow, heq⟩ := h
    cases heq
    exact ⟨high, hhigh, low, hlow, rfl⟩
  · next e tail _ =>
    obtain ⟨c', hc', heq⟩ := map_eq_some_iff.mp h
    cases heq
    have hne : e ≠ 'u' := by
      rintro rfl
      exact absurd hc' (by simp [unescape])
    rw [cons_append, cons_append, parseChar_backslash hne, hc']
    rfl
  · split at h
    · cases h
    · next hplain =>
      cases h
      obtain ⟨hslash, hcontrol⟩ := not_or.mp hplain
      rw [cons_append, parseChar_plain hslash hcontrol]
  · cases h

theorem parseString_append {fuel : Nat} {cs s rest : List Char}
    (h : parseString fuel cs = some (s, rest)) {fuel' : Nat} (hfuel : fuel ≤ fuel')
    (more : List Char) : parseString fuel' (cs ++ more) = some (s, rest ++ more) := by
  induction fuel generalizing cs s rest fuel' with
  | zero => cases h
  | succ fuel ih =>
    obtain ⟨fuel', rfl⟩ := Nat.exists_eq_succ_of_ne_zero (Nat.ne_of_gt (Nat.lt_of_lt_of_le (Nat.succ_pos _) hfuel))
    have hfuel := Nat.le_of_succ_le_succ hfuel
    cases cs with
    | nil => simp [parseString, parseChar] at h
    | cons c cs =>
      rw [parseString] at h ⊢
      split at h
      · next hquote =>
        cases h
        rw [if_pos (by simpa using hquote)]
        rfl
      · next hquote =>
        rw [if_neg (by simpa using hquote)]
        simp only [bind_eq_bind, bind_eq_some_iff] at h ⊢
        obtain ⟨⟨c', r⟩, hc, ⟨s', r'⟩, hs, heq⟩ := h
        cases heq
        exact ⟨(c', r ++ more), parseChar_append hc more, (s', r' ++ more), ih hs hfuel, rfl⟩

end Hyperion.Lib.Json
