import Mathlib.Data.List.Infix
import Mathlib.Data.List.TakeWhile

/-!
# Texts as lists of characters

Operations of a string library: trimming, splitting at a separator, lines, letter case, decimal numbers.
-/

namespace Hyperion.Lib
open List UInt32

variable {cs : List Char}

theorem forall_mem_of_all {P : Char → Prop} [DecidablePred P]
    (h : cs.all fun c => decide (P c)) : ∀ c ∈ cs, P c :=
  fun c hc => of_decide_eq_true (all_eq_true.mp h c hc)

/-! ## White space -/

/-- The Unicode property `White_Space`. -/
def isWhitespace (c : Char) : Bool :=
  let n := c.toNat
  (9 ≤ n && n ≤ 13) || n == 32 || n == 0x85 || n == 0xA0 || n == 0x1680 || (0x2000 ≤ n && n ≤ 0x200A) ||
    n == 0x2028 || n == 0x2029 || n == 0x202F || n == 0x205F || n == 0x3000

def trimStart (cs : List Char) : List Char := cs.dropWhile isWhitespace

def trim (cs : List Char) : List Char := (trimStart (trimStart cs).reverse).reverse

def Trimmed (cs : List Char) : Prop :=
  (∀ c, cs.head? = some c → isWhitespace c = false) ∧ ∀ c, cs.getLast? = some c → isWhitespace c = false

theorem trimStart_append {pad cs : List Char} (hpad : ∀ c ∈ pad, isWhitespace c = true)
    (hcs : ∀ c, cs.head? = some c → isWhitespace c = false) : trimStart (pad ++ cs) = cs := by
  rw [trimStart, dropWhile_append_of_pos hpad]
  cases cs with
  | nil => rfl
  | cons c cs => rw [dropWhile_cons, if_neg (by simp [hcs c rfl])]

theorem trim_padded {before cs after : List Char} (hbefore : ∀ c ∈ before, isWhitespace c = true)
    (hafter : ∀ c ∈ after, isWhitespace c = true) (hcs : Trimmed cs) : trim (before ++ cs ++ after) = cs := by
  cases hempty : cs with
  | nil =>
    have hall : ∀ c ∈ before ++ after, isWhitespace c = true := fun c hc =>
      (mem_append.mp hc).elim (hbefore c) (hafter c)
    have hnil : trimStart (before ++ after ++ []) = [] := trimStart_append hall (by simp)
    rw [append_nil] at hnil
    rw [append_nil, trim, hnil]
    rfl
  | cons c rest =>
    rw [← hempty, trim, append_assoc, trimStart_append hbefore, reverse_append, trimStart_append,
      reverse_reverse]
    · exact fun d hd => hafter d (mem_reverse.mp hd)
    · rw [List.head?_reverse]
      exact hcs.2
    · rw [hempty, cons_append]
      exact fun d hd => hcs.1 d (by rw [hempty]; exact hd)

theorem trim_of_trimmed (h : Trimmed cs) : trim cs = cs := by
  have hnone : ∀ c ∈ ([] : List Char), isWhitespace c = true := fun _ hc => absurd hc not_mem_nil
  have hpadded := trim_padded hnone hnone h
  rwa [nil_append, append_nil] at hpadded

theorem prefix_trim {core : List Char} (h : Trimmed core) (hne : core ≠ []) (rest : List Char) :
    core <+: trim (core ++ rest) := by
  have hstart : trimStart (core ++ rest) = core ++ rest := by
    have hnone : ∀ c ∈ ([] : List Char), isWhitespace c = true := fun _ hc => absurd hc not_mem_nil
    rw [← nil_append (core ++ rest)]
    refine trimStart_append hnone fun c hc => h.1 c ?_
    rwa [List.head?_append_of_ne_nil _ hne] at hc
  have hend : ∀ c, core.reverse.head? = some c → isWhitespace c = false := by
    rw [List.head?_reverse]
    exact h.2
  rw [trim, hstart, reverse_append, trimStart, dropWhile_append]
  split
  · have hcore : core.reverse.dropWhile isWhitespace = core.reverse := by
      have hnone : ∀ c ∈ ([] : List Char), isWhitespace c = true := fun _ hc => absurd hc not_mem_nil
      exact trimStart_append hnone hend
    rw [hcore, reverse_reverse]
  · rw [reverse_append, reverse_reverse]
    exact prefix_append _ _

theorem trimmed_of_forall (h : ∀ c ∈ cs, isWhitespace c = false) : Trimmed cs :=
  ⟨fun c hc => h c (mem_of_head? hc), fun c hc => h c (mem_of_getLast? hc)⟩

/-! ## Splitting -/

/-- The text before and after the first occurrence of the separator. -/
def splitOnce (sep : Char) : List Char → Option (List Char × List Char)
  | [] => none
  | c :: cs => if c = sep then some ([], cs) else (splitOnce sep cs).map fun (a, b) => (c :: a, b)

variable {sep : Char} {a : List Char} {l : List Char}

theorem splitOnce_append (h : sep ∉ a) (b : List Char) :
    splitOnce sep (a ++ sep :: b) = some (a, b) := by
  induction a with
  | nil => simp [splitOnce]
  | cons c a ih =>
    rw [mem_cons, not_or] at h
    rw [cons_append, splitOnce, if_neg (Ne.symm h.1), ih h.2]
    rfl

theorem splitOnce_eq_none (h : sep ∉ cs) : splitOnce sep cs = none := by
  induction cs with
  | nil => rfl
  | cons c cs ih =>
    rw [mem_cons, not_or] at h
    rw [splitOnce, if_neg (Ne.symm h.1), ih h.2]
    rfl

theorem takeWhile_ne_append (h : sep ∉ a) (b : List Char) :
    (a ++ b).takeWhile (· ≠ sep) = a ++ b.takeWhile (· ≠ sep) := by
  refine takeWhile_append_of_pos fun c hc => decide_eq_true ?_
  rintro rfl
  exact h hc

theorem splitOnce_elim_fst (sep : Char) (cs : List Char) :
    (splitOnce sep cs).elim cs (·.1) = cs.takeWhile (· ≠ sep) := by
  by_cases hmem : sep ∈ cs
  · obtain ⟨a, b, rfl, ha⟩ := eq_append_cons_of_mem hmem
    rw [splitOnce_append ha, takeWhile_ne_append ha]
    simp
  · have hwhole := takeWhile_ne_append hmem []
    rw [append_nil, takeWhile_nil, append_nil] at hwhole
    rw [splitOnce_eq_none hmem, hwhole]
    rfl

def stripStart (start cs : List Char) : Option (List Char) :=
  if start.isPrefixOf cs then some (cs.drop start.length) else none

theorem stripStart_append (start cs : List Char) : stripStart start (start ++ cs) = some cs := by
  simp [stripStart]

theorem stripStart_eq_some {start cs rest : List Char} (h : stripStart start cs = some rest) :
    cs = start ++ rest := by
  unfold stripStart at h
  split at h
  · next hpre =>
    cases h
    obtain ⟨t, rfl⟩ := isPrefixOf_iff_prefix.mp hpre
    simp
  · cases h

/-! ## Lines -/

def textLines : List Char → List (List Char)
  | [] => []
  | c :: cs =>
    if c = '\n' then [] :: textLines cs
    else if c = '\r' ∧ cs.head? = some '\n' then textLines cs
    else
      match textLines cs with
      | [] => [[c]]
      | l :: ls => (c :: l) :: ls

def IsTextLine (l : List Char) : Prop := ∀ c ∈ l, c ≠ '\n' ∧ c ≠ '\r'

theorem textLines_line (h : IsTextLine l) (hne : l ≠ []) : textLines l = [l] := by
  induction l with
  | nil => exact absurd rfl hne
  | cons c l ih =>
    obtain ⟨hnl, hcr⟩ := h c mem_cons_self
    rw [textLines, if_neg hnl, if_neg fun hc => hcr hc.1]
    cases l with
    | nil => rfl
    | cons d l => rw [ih (fun x hx => h x (mem_cons_of_mem _ hx)) (cons_ne_nil d l)]

theorem textLines_crlf_append (h : IsTextLine l) (rest : List Char) :
    textLines (l ++ '\r' :: '\n' :: rest) = l :: textLines rest := by
  induction l with
  | nil => simp [textLines]
  | cons c l ih =>
    obtain ⟨hnl, hcr⟩ := h c mem_cons_self
    rw [cons_append, textLines, if_neg hnl, if_neg (fun hc => hcr hc.1),
      ih fun x hx => h x (mem_cons_of_mem _ hx)]

theorem textLines_crlf {first : List Char} {rest : List (List Char)} (hfirst : IsTextLine first)
    (hrest : ∀ l ∈ rest, IsTextLine l ∧ l ≠ []) (hne : first ≠ []) :
    textLines (first ++ rest.flatMap fun l => '\r' :: '\n' :: l) = first :: rest := by
  induction rest generalizing first with
  | nil =>
    rw [flatMap_nil, append_nil]
    exact textLines_line hfirst hne
  | cons l rest ih =>
    obtain ⟨hl, hlne⟩ := hrest l mem_cons_self
    rw [flatMap_cons, cons_append, cons_append, textLines_crlf_append hfirst,
      ih hl (fun x hx => hrest x (mem_cons_of_mem _ hx)) hlne]

/-! ## Letters and digits -/

def toAsciiLower (c : Char) : Char := if 'A' ≤ c ∧ c ≤ 'Z' then Char.ofNat (c.toNat + 32) else c

def toAsciiLowercase (cs : List Char) : List Char := cs.map toAsciiLower

def eqIgnoreAsciiCase (a b : List Char) : Bool := toAsciiLowercase a = toAsciiLowercase b

/-- Neither a small nor a capital letter of ASCII. -/
def IsCaseless (c : Char) : Prop := ¬ ('A' ≤ c ∧ c ≤ 'Z') ∧ ¬ ('a' ≤ c ∧ c ≤ 'z')

instance (c : Char) : Decidable (IsCaseless c) := inferInstanceAs (Decidable (_ ∧ _))

theorem toNat_toAsciiLower (c : Char) :
    (toAsciiLower c).toNat = if 65 ≤ c.toNat ∧ c.toNat ≤ 90 then c.toNat + 32 else c.toNat := by
  have hiff : ('A' ≤ c ∧ c ≤ 'Z') ↔ 65 ≤ c.toNat ∧ c.toNat ≤ 90 :=
    and_congr le_iff_toNat_le le_iff_toNat_le
  unfold toAsciiLower
  by_cases hupper : 'A' ≤ c ∧ c ≤ 'Z'
  · have hrange := hiff.mp hupper
    have hvalid : (c.toNat + 32).isValidChar := .inl (by omega)
    rw [if_pos hupper, if_pos hrange, Char.ofNat, dif_pos hvalid]
    rfl
  · rw [if_neg hupper, if_neg fun h => hupper (hiff.mpr h)]

theorem isCaseless_iff {c : Char} : IsCaseless c ↔
    ¬ (65 ≤ c.toNat ∧ c.toNat ≤ 90) ∧ ¬ (97 ≤ c.toNat ∧ c.toNat ≤ 122) :=
  and_congr (not_congr (and_congr le_iff_toNat_le le_iff_toNat_le))
    (not_congr (and_congr le_iff_toNat_le le_iff_toNat_le))

theorem toAsciiLower_eq_iff {c d : Char} (hd : IsCaseless d) : toAsciiLower c = d ↔ c = d := by
  have hval := toNat_toAsciiLower c
  rw [isCaseless_iff] at hd
  rw [← Char.toNat_inj, ← Char.toNat_inj, hval]
  split
  · omega
  · exact Iff.rfl

theorem mem_toAsciiLowercase {d : Char} (hd : IsCaseless d) : d ∈ toAsciiLowercase cs ↔ d ∈ cs := by
  simp only [toAsciiLowercase, mem_map, toAsciiLower_eq_iff hd, exists_eq_right]

theorem toAsciiLowercase_eq_iff {cs ds : List Char} (hds : ∀ d ∈ ds, IsCaseless d) :
    toAsciiLowercase cs = ds ↔ cs = ds := by
  induction ds generalizing cs with
  | nil => exact map_eq_nil_iff
  | cons d ds ih =>
    cases cs with
    | nil => simp [toAsciiLowercase]
    | cons c cs =>
      have htail := @ih cs fun x hx => hds x (mem_cons_of_mem _ hx)
      rw [toAsciiLowercase, map_cons, List.cons.injEq, List.cons.injEq,
        toAsciiLower_eq_iff (hds d mem_cons_self)]
      exact and_congr_right fun _ => htail

theorem isCaseless_of_isWhitespace {c : Char} (h : isWhitespace c = true) : IsCaseless c := by
  rw [isCaseless_iff]
  simp only [isWhitespace, Bool.or_eq_true, Bool.and_eq_true, decide_eq_true_eq, beq_iff_eq] at h
  omega

/-- The value of a hexadecimal digit. -/
def toDigit (c : Char) : Option Nat :=
  if '0' ≤ c ∧ c ≤ '9' then some (c.toNat - 48)
  else if 'a' ≤ c ∧ c ≤ 'f' then some (c.toNat - 87)
  else if 'A' ≤ c ∧ c ≤ 'F' then some (c.toNat - 55)
  else none

/-- `parse` of an unsigned number below the bound: digits, after a plus sign or not. -/
def parseUnsigned (bound : Nat) (cs : List Char) : Option Nat :=
  let digits := match cs with
    | '+' :: rest => rest
    | _ => cs
  if digits ≠ [] ∧ digits.all Char.isDigit then
    let n := digits.foldl (fun n c => 10 * n + (c.toNat - 48)) 0
    if n < bound then some n else none
  else none

/-! ## Sequences -/

section
variable {α : Type} [DecidableEq α]

/-- The position of the first occurrence of a sequence that is not empty. -/
def findSubslice (needle : List α) : List α → Option Nat
  | [] => none
  | a :: haystack =>
    if needle.isPrefixOf (a :: haystack) then some 0 else (findSubslice needle haystack).map (· + 1)

variable {needle haystack : List α}

theorem findSubslice_le {n : Nat} (h : findSubslice needle haystack = some n) :
    n + needle.length ≤ haystack.length := by
  induction haystack generalizing n with
  | nil => cases h
  | cons a haystack ih =>
    rw [findSubslice] at h
    split at h
    · next hpre =>
      cases h
      rw [Nat.zero_add]
      exact (List.isPrefixOf_iff_prefix.mp hpre).length_le
    · obtain ⟨m, hm, rfl⟩ := Option.map_eq_some_iff.mp h
      rw [length_cons, Nat.add_right_comm]
      exact Nat.succ_le_succ (ih hm)

theorem findSubslice_append {n : Nat} (h : findSubslice needle haystack = some n)
    (more : List α) : findSubslice needle (haystack ++ more) = some n := by
  induction haystack generalizing n with
  | nil => cases h
  | cons a haystack ih =>
    have hle := findSubslice_le h
    rw [findSubslice] at h
    rw [cons_append, findSubslice]
    simp only [List.isPrefixOf_iff_prefix] at h ⊢
    split at h
    · next hpre =>
      have hmore : needle <+: a :: (haystack ++ more) := hpre.trans (prefix_append (a :: haystack) more)
      rw [if_pos hmore]
      exact h
    · next hno =>
      obtain ⟨m, hm, rfl⟩ := Option.map_eq_some_iff.mp h
      rw [if_neg, ih hm]
      · rfl
      · intro hpre
        have hlength : needle.length ≤ (a :: haystack).length := le_trans (Nat.le_add_left _ _) hle
        exact hno (prefix_of_prefix_length_le hpre (prefix_append (a :: haystack) more) hlength)

end

end Hyperion.Lib
