import Mathlib
import Hyperion.Lib.Text

/-!
# Canonical URLs

The URL splitter of the semantic networking layer, and the host that a URL names by RFC 3986.
-/

namespace Hyperion.Netstack
open Lib List

abbrev Url := List Char

/-! ## The splitter -/

def trackingParams : List (List Char) :=
  ["utm_source", "utm_medium", "utm_campaign", "utm_term", "utm_content", "fbclid", "gclid", "igshid",
    "ref"].map String.toList

structure ParsedUrl where
  scheme : List Char
  host : List Char
  port : Option Nat
  path : List Char
  queryParams : List (List Char × List Char)
deriving DecidableEq, Repr

/-- The text before and after the first `://`; without one, the scheme is `http`. -/
def splitScheme (raw : Url) : List Char × List Char :=
  match findSubslice "://".toList raw with
  | some i => (raw.take i, raw.drop (i + 3))
  | none => ("http".toList, raw)

def ParamLE (a b : List Char × List Char) : Prop := a.1 < b.1 ∨ a.1 = b.1 ∧ a.2 ≤ b.2

instance : DecidableRel ParamLE := fun _ _ => inferInstanceAs (Decidable (_ ∨ _))

def queryParam (pair : List Char) : Option (List Char × List Char) :=
  let (k, v) := (splitOnce '=' pair).getD (pair, [])
  if trackingParams.contains k then none else some (k, v)

section
variable (lower : List Char → List Char)

/-- `lower` is `str::to_lowercase`. -/
def parse (raw : Url) : ParsedUrl :=
  let (scheme, rest) := splitScheme raw
  let scheme := lower scheme
  let authority := rest.takeWhile (· ≠ '/')
  let pathAndQuery := (rest.dropWhile (· ≠ '/')).takeWhile (· ≠ '#')
  let (path, query) := (splitOnce '?' pathAndQuery).getD (pathAndQuery, [])
  let path := if path = [] then ['/'] else path
  let (host, port) :=
    match splitOnce ':' authority with
    | some (h, p) => (lower h, parseUnsigned (2 ^ 16) p)
    | none => (lower authority, none)
  let port := port.filter fun p =>
    !((scheme == "http".toList && p == 80) || (scheme == "https".toList && p == 443))
  let queryParams := ((query.splitOn '&').filter (· ≠ [])).filterMap queryParam
  ⟨scheme, host, port, path, queryParams.insertionSort ParamLE⟩

def portSuffix (port : Option Nat) : List Char := port.elim [] fun p => ':' :: Nat.toDigits 10 p

def querySuffix (params : List (List Char × List Char)) : List Char :=
  if params = [] then []
  else '?' :: List.intercalate ['&'] (params.map fun (k, v) => if v = [] then k else k ++ '=' :: v)

def render (parsed : ParsedUrl) : Url :=
  parsed.scheme ++ "://".toList ++ parsed.host ++ portSuffix parsed.port ++ parsed.path ++
    querySuffix parsed.queryParams

structure CanonicalUrl where
  rawUrl : Url
  canonicalForm : Url
  redirectChain : List Url
  domain : List Char
deriving DecidableEq, Repr

def canonicalize (rawUrl : Url) : CanonicalUrl :=
  let parsed := parse lower rawUrl
  ⟨rawUrl, render parsed, [], parsed.host⟩

end

def isLocalIpv4 : List Nat → Bool
  | [a, b, _, _] =>
    a == 127 || a == 10 || (a == 172 && 16 ≤ b && b ≤ 31) || (a == 192 && b == 168) || (a == 169 && b == 254)
  | _ => false

def isPrivateOrLocal (host : List Char) : Bool :=
  if host = "localhost".toList ∨ ".localhost".toList.isSuffixOf host ∨ host = "0.0.0.0".toList then true
  else if host = "::1".toList ∨ "fe80:".toList.isPrefixOf host ∨ "fc00:".toList.isPrefixOf host ∨
      "fd00:".toList.isPrefixOf host then true
  else
    let octets := host.splitOn '.'
    if octets.length = 4 then (octets.mapM (parseUnsigned (2 ^ 8))).any isLocalIpv4 else false

/-! ## What a URL names -/

def isScheme : List Char → Bool
  | [] => false
  | c :: rest => c.isAlpha && rest.all fun d => d.isAlphanum || d == '+' || d == '-' || d == '.'

def rfcAuthority (rest : List Char) : List Char := rest.takeWhile fun c => !(['/', '?', '#'].contains c)

/-- The authority without userinfo: what follows the last `@`. -/
def withoutUserinfo (authority : List Char) : List Char := (authority.reverse.takeWhile (· ≠ '@')).reverse

/-- The host of an authority without userinfo: an address in brackets, or all before the port. -/
def withoutPort : List Char → Option (List Char)
  | '[' :: rest => (splitOnce ']' rest).map fun (inner, _) => '[' :: inner ++ [']']
  | authority => some (authority.takeWhile (· ≠ ':'))

def rfcHost (url : Url) : Option (List Char) :=
  match splitOnce ':' url with
  | some (scheme, '/' :: '/' :: rest) =>
    if isScheme scheme then withoutPort (withoutUserinfo (rfcAuthority rest)) else none
  | _ => none

def ipv4Of (host : List Char) : Option (List Nat) :=
  let octets := host.splitOn '.'
  if octets.length = 4 ∧ octets.all (·.all Char.isDigit) then octets.mapM (parseUnsigned 256) else none

/-- A part of an IPv6 literal: one group, or two as an IPv4 address. -/
def ipv6Part (part : List Char) : Option (List Nat) :=
  if '.' ∈ part then
    match ipv4Of part with
    | some [a, b, c, d] => some [256 * a + b, 256 * c + d]
    | _ => none
  else if part ≠ [] ∧ part.length ≤ 4 then
    (part.mapM toDigit).map fun digits => [digits.foldl (fun n d => 16 * n + d) 0]
  else none

def ipv6Parts (text : List Char) : Option (List Nat) :=
  if text = [] then some [] else ((text.splitOn ':').mapM ipv6Part).map List.flatten

def ipv6Of (inner : List Char) : Option (List Nat) := do
  match findSubslice "::".toList inner with
  | some i =>
    let before ← ipv6Parts (inner.take i)
    let after ← ipv6Parts (inner.drop (i + 2))
    if before.length + after.length ≤ 7 then
      some (before ++ List.replicate (8 - before.length - after.length) 0 ++ after)
    else none
  | none =>
    let groups ← ipv6Parts inner
    if groups.length = 8 then some groups else none

/-- `::1`, `fc00::/7`, `fe80::/10`, and the IPv4 addresses that are mapped into IPv6. -/
def isLocalIpv6 : List Nat → Bool
  | [0, 0, 0, 0, 0, 0, 0, 1] => true
  | [0, 0, 0, 0, 0, 0xffff, x, y] => isLocalIpv4 [x / 256, x % 256, y / 256, y % 256]
  | g :: _ => (0xfc00 ≤ g && g ≤ 0xfdff) || (0xfe80 ≤ g && g ≤ 0xfebf)
  | [] => false

/-- The host is an IPv6 literal of a local address. -/
def isLocalLiteral : List Char → Bool
  | '[' :: rest => (ipv6Of rest.dropLast).any isLocalIpv6
  | _ => false

/-- The host is `localhost` or a loopback, private or link-local address literal. -/
def isLocalHost (host : List Char) : Bool :=
  host == "localhost".toList || (ipv4Of host).any isLocalIpv4 || isLocalLiteral host

/-! ## The host that is looked at -/

/-- What is documented of `str::to_lowercase`: it lowers the ASCII letters, and no ASCII character but a letter comes
from another one. -/
structure IsLowercase (lower : List Char → List Char) : Prop where
  ascii : ∀ cs, (∀ c ∈ cs, c.toNat < 128) → lower cs = toAsciiLowercase cs
  caseless : ∀ cs c, c.toNat < 128 → IsCaseless c → c ∈ lower cs → c ∈ cs

theorem isLowercase_toAsciiLowercase : IsLowercase toAsciiLowercase where
  ascii := fun _ _ => rfl
  caseless := fun _ _ _ hc => (mem_toAsciiLowercase hc).mp

def hostPart (raw : Url) : List Char := ((splitScheme raw).2.takeWhile (· ≠ '/')).takeWhile (· ≠ ':')

/-- The scheme is one, and the host contains no userinfo, query, fragment or bracket. -/
structure PlainUrl (raw : Url) : Prop where
  scheme : isScheme (splitScheme raw).1 = true
  host : ∀ c ∈ hostPart raw, c ∉ ['@', '?', '#', '[']

theorem isAlpha_iff {c : Char} : c.isAlpha = true ↔
    (65 ≤ c.toNat ∧ c.toNat ≤ 90) ∨ (97 ≤ c.toNat ∧ c.toNat ≤ 122) := by
  simp only [Char.isAlpha, Char.isUpper, Char.isLower, Bool.or_eq_true, Bool.and_eq_true, decide_eq_true_eq,
    ge_iff_le, UInt32.le_iff_toNat_le]
  exact Iff.rfl

theorem isSchemeChar_iff {c : Char} : (c.isAlphanum || c == '+' || c == '-' || c == '.') = true ↔
    ((65 ≤ c.toNat ∧ c.toNat ≤ 90) ∨ (97 ≤ c.toNat ∧ c.toNat ≤ 122)) ∨ (48 ≤ c.toNat ∧ c.toNat ≤ 57) ∨
      c.toNat = 43 ∨ c.toNat = 45 ∨ c.toNat = 46 := by
  have hdigit : c.isDigit = true ↔ 48 ≤ c.toNat ∧ c.toNat ≤ 57 := by
    simp only [Char.isDigit, Bool.and_eq_true, decide_eq_true_eq, ge_iff_le, UInt32.le_iff_toNat_le]
    exact Iff.rfl
  simp only [Char.isAlphanum, Bool.or_eq_true, beq_iff_eq, isAlpha_iff, hdigit, ← Char.toNat_inj]
  simp only [or_assoc]
  exact Iff.rfl

variable {scheme : List Char}

theorem isScheme_ascii (h : isScheme scheme = true) :
    ∀ c ∈ scheme, c.toNat < 128 ∧ c ≠ ':' := by
  have hlt : ∀ c : Char, (c.isAlphanum || c == '+' || c == '-' || c == '.') = true → c.toNat < 128 ∧ c ≠ ':' := by
    intro c hc
    rw [isSchemeChar_iff] at hc
    rw [ne_eq, ← Char.toNat_inj]
    have hcolon : ':'.toNat = 58 := rfl
    omega
  cases scheme with
  | nil => simp
  | cons c rest =>
    rw [isScheme, Bool.and_eq_true, all_eq_true] at h
    intro d hd
    rcases mem_cons.mp hd with rfl | hd
    · exact hlt d (by rw [isSchemeChar_iff]; exact .inl (isAlpha_iff.mp h.1))
    · exact hlt d (h.2 d hd)

theorem isScheme_toAsciiLowercase (h : isScheme scheme = true) :
    isScheme (toAsciiLowercase scheme) = true := by
  cases scheme with
  | nil => exact h
  | cons c rest =>
    rw [isScheme, Bool.and_eq_true, all_eq_true] at h
    rw [toAsciiLowercase, map_cons, isScheme, Bool.and_eq_true, all_eq_true]
    constructor
    · have halpha := isAlpha_iff.mp h.1
      rw [isAlpha_iff, toNat_toAsciiLower]
      split <;> omega
    · intro d hd
      obtain ⟨e, he, rfl⟩ := mem_map.mp hd
      have hchar := isSchemeChar_iff.mp (h.2 e he)
      rw [isSchemeChar_iff, toNat_toAsciiLower]
      split <;> omega

section
variable {lower : List Char → List Char} {raw : Url}

theorem parse_host (raw : Url) : (parse lower raw).host = lower (hostPart raw) := by
  have hsplit := splitOnce_elim_fst ':' ((splitScheme raw).2.takeWhile (· ≠ '/'))
  rw [hostPart, ← hsplit]
  simp only [parse]
  cases splitOnce ':' ((splitScheme raw).2.takeWhile (· ≠ '/')) with
  | none => rfl
  | some split => rfl

theorem parse_path (raw : Url) : ∃ rest, (parse lower raw).path = '/' :: rest := by
  have hpath : (parse lower raw).path =
      let path := (((splitScheme raw).2.dropWhile (· ≠ '/')).takeWhile (· ≠ '#')).takeWhile (· ≠ '?')
      if path = [] then ['/'] else path := by
    rw [← splitOnce_elim_fst]
    simp only [parse]
    cases splitOnce '?' (((splitScheme raw).2.dropWhile (· ≠ '/')).takeWhile (· ≠ '#')) with
    | none => rfl
    | some split => rfl
  rw [hpath]
  cases hdrop : (splitScheme raw).2.dropWhile (· ≠ '/') with
  | nil => exact ⟨[], rfl⟩
  | cons c cs =>
    have hc : c = '/' := by
      have hne : (splitScheme raw).2.dropWhile (· ≠ '/') ≠ [] := by
        rw [hdrop]
        exact cons_ne_nil c cs
      have hhead := head_dropWhile_not _ hne
      simpa only [hdrop, head_cons, decide_eq_false_iff_not, not_not] using hhead
    rw [hc]
    exact ⟨(cs.takeWhile (· ≠ '#')).takeWhile (· ≠ '?'), by simp⟩

theorem notMem_parse_host (hlower : IsLowercase lower) (hplain : PlainUrl raw) {c : Char}
    (hc : c ∈ ['/', '?', '#', '@', '[', ':']) : c ∉ (parse lower raw).host := by
  rw [parse_host]
  intro hmem
  have hascii : ∀ d ∈ ['/', '?', '#', '@', '[', ':'], d.toNat < 128 ∧ IsCaseless d :=
    forall_mem_of_all (by decide)
  have hraw := hlower.caseless _ c (hascii c hc).1 (hascii c hc).2 hmem
  have hcolon := mem_takeWhile_imp hraw
  have hslash := mem_takeWhile_imp (List.takeWhile_prefix _ |>.subset hraw)
  have hspecial := hplain.host c hraw
  simp only [decide_eq_true_eq] at hcolon hslash
  simp only [mem_cons, not_mem_nil, or_false, not_or] at hc hspecial
  rcases hc with rfl | rfl | rfl | rfl | rfl | rfl
  · exact hslash rfl
  · exact hspecial.2.1 rfl
  · exact hspecial.2.2.1 rfl
  · exact hspecial.1 rfl
  · exact hspecial.2.2.2 rfl
  · exact hcolon rfl

theorem portSuffix_cases (port : Option Nat) :
    portSuffix port = [] ∨ ∃ digits, portSuffix port = ':' :: digits ∧ ∀ c ∈ digits, c.isDigit = true := by
  cases port with
  | none => exact .inl rfl
  | some p => exact .inr ⟨_, rfl, fun c hc => Nat.isDigit_of_mem_toDigits (by decide) (by decide) hc⟩

theorem withoutUserinfo_of_notMem {authority : List Char} (h : '@' ∉ authority) :
    withoutUserinfo authority = authority := by
  have hwhole := takeWhile_ne_append (a := authority.reverse) (fun hmem => h (mem_reverse.mp hmem)) []
  rw [append_nil, takeWhile_nil, append_nil] at hwhole
  rw [withoutUserinfo, hwhole, reverse_reverse]

variable {host : List Char}

theorem withoutPort_append (hbracket : '[' ∉ host) (hcolon : ':' ∉ host) (port : Option Nat) :
    withoutPort (host ++ portSuffix port) = some host := by
  have htake : (host ++ portSuffix port).takeWhile (· ≠ ':') = host := by
    rw [takeWhile_ne_append hcolon]
    rcases portSuffix_cases port with hport | ⟨digits, hport, -⟩
    · simp [hport]
    · simp [hport]
  unfold withoutPort
  split
  · next rest heq =>
    cases host with
    | nil =>
      rcases portSuffix_cases port with hport | ⟨digits, hport, -⟩
      · simp [hport] at heq
      · simp [hport] at heq
    | cons c host =>
      cases heq
      exact absurd mem_cons_self hbracket
  · exact congrArg some htake

/-- **The host that the code looks at is the host that the rendered URL names.** -/
theorem canonicalize_rfcHost (hlower : IsLowercase lower) (hplain : PlainUrl raw) :
    rfcHost (canonicalize lower raw).canonicalForm = some (canonicalize lower raw).domain := by
  have hscheme : (parse lower raw).scheme = toAsciiLowercase (splitScheme raw).1 :=
    hlower.ascii _ fun c hc => (isScheme_ascii hplain.scheme c hc).1
  have hvalid : isScheme (parse lower raw).scheme = true := by
    rw [hscheme]
    exact isScheme_toAsciiLowercase hplain.scheme
  have hcolon : ':' ∉ (parse lower raw).scheme := fun hmem => (isScheme_ascii hvalid _ hmem).2 rfl
  have hhost := @notMem_parse_host lower raw hlower hplain
  have hport : ∀ c ∈ portSuffix (parse lower raw).port, c ≠ '@' ∧ c ≠ '/' ∧ c ≠ '?' ∧ c ≠ '#' := by
    rcases portSuffix_cases (parse lower raw).port with hnone | ⟨digits, hsome, hdigits⟩
    · simp [hnone]
    · intro c hc
      rw [hsome] at hc
      rcases mem_cons.mp hc with rfl | hc
      · decide
      · have hdigit := hdigits c hc
        refine ⟨?_, ?_, ?_, ?_⟩ <;> (rintro rfl; exact absurd hdigit (by decide))
  obtain ⟨rest, hpath⟩ := @parse_path lower raw
  have hauthority : rfcAuthority ((parse lower raw).host ++ portSuffix (parse lower raw).port ++
      '/' :: (rest ++ querySuffix (parse lower raw).queryParams)) =
      (parse lower raw).host ++ portSuffix (parse lower raw).port := by
    rw [rfcAuthority, takeWhile_append_of_pos]
    · simp
    · intro c hc
      rw [Bool.not_eq_true', contains_eq_mem, decide_eq_false_iff_not]
      intro hspecial
      rcases mem_append.mp hc with hc | hc
      · refine hhost ?_ hc
        simp only [mem_cons, not_mem_nil, or_false] at hspecial ⊢
        rcases hspecial with h | h | h <;> simp [h]
      · obtain ⟨-, hslash, hquery, hhash⟩ := hport c hc
        simp [hslash, hquery, hhash] at hspecial
  have huserinfo : '@' ∉ (parse lower raw).host ++ portSuffix (parse lower raw).port := by
    rw [mem_append, not_or]
    exact ⟨hhost (by decide), fun hmem => (hport _ hmem).1 rfl⟩
  have hform : (canonicalize lower raw).canonicalForm = (parse lower raw).scheme ++ ':' :: '/' :: '/' ::
      ((parse lower raw).host ++ portSuffix (parse lower raw).port ++
        '/' :: (rest ++ querySuffix (parse lower raw).queryParams)) := by
    simp only [canonicalize, render, hpath]
    simp
  rw [rfcHost, hform, splitOnce_append hcolon]
  refine (if_pos hvalid).trans ?_
  rw [hauthority, withoutUserinfo_of_notMem huserinfo,
    withoutPort_append (hhost (by decide)) (hhost (by decide))]
  rfl

/-! ## Local hosts -/

theorem not_isLocalHost (hbracket : '[' ∉ host) (h : isPrivateOrLocal host = false) :
    isLocalHost host = false := by
  unfold isPrivateOrLocal at h
  split at h
  · cases h
  · next hname =>
    split at h
    · cases h
    · have hlocalhost : (host == "localhost".toList) = false :=
        beq_eq_false_iff_ne.mpr fun heq => hname (.inl heq)
      have hipv4 : (ipv4Of host).any isLocalIpv4 = false := by
        dsimp only at h
        unfold ipv4Of
        dsimp only
        split
        · next hoctets =>
          rw [if_pos hoctets.1] at h
          exact h
        · rfl
      have hliteral : isLocalLiteral host = false := by
        unfold isLocalLiteral
        split
        · exact absurd mem_cons_self hbracket
        · rfl
      rw [isLocalHost, hlocalhost, hipv4, hliteral]
      rfl

end

end Hyperion.Netstack
