import Hyperion.Console.HttpServer

/-!
# Only local callers reach the agent

The head of a request, as the grammar of HTTP has it: a request line and fields, each on a line of its own that
ends with carriage return and newline.
-/

namespace Hyperion.Console.Http
open Lib List Option
variable {v : List Char}

structure Field where
  name : List Char
  before : List Char
  value : List Char
  after : List Char
deriving DecidableEq, Repr

def Field.line (f : Field) : List Char := f.name ++ ':' :: (f.before ++ f.value ++ f.after)

def IsBlank (cs : List Char) : Prop := ∀ c ∈ cs, c = ' ' ∨ c = '\t'

structure Field.WellFormed (f : Field) : Prop where
  name : f.name ≠ [] ∧ ∀ c ∈ f.name, c ≠ ':' ∧ isWhitespace c = false
  before : IsBlank f.before
  after : IsBlank f.after
  value : IsTextLine f.value ∧ Trimmed f.value

/-- A request line starts with a method, a blank and a target. -/
def IsRequestLine (l : List Char) : Prop :=
  IsTextLine l ∧ ∃ method c rest, l = method ++ ' ' :: c :: rest ∧ method ≠ [] ∧
    (∀ d ∈ method, d ≠ ':' ∧ isWhitespace d = false) ∧ c ≠ ':' ∧ isWhitespace c = false

structure Head where
  requestLine : List Char
  fields : List Field
deriving DecidableEq, Repr

namespace Head

def text (h : Head) : List Char :=
  h.requestLine ++ (h.fields.map Field.line).flatMap fun l => '\r' :: '\n' :: l

structure WellFormed (h : Head) : Prop where
  requestLine : IsRequestLine h.requestLine
  fields : ∀ f ∈ h.fields, f.WellFormed

def valuesOf (h : Head) (name : String) : List (List Char) :=
  (h.fields.filter fun f => eqIgnoreAsciiCase f.name name.toList).map (·.value)

end Head

/-! ## Local requests -/

def IsPort (cs : List Char) : Prop := cs = [] ∨ ∃ digits, cs = ':' :: digits ∧ digits ≠ [] ∧ digits.all Char.isDigit

def LocalAuthority (v : List Char) : Prop :=
  ∃ host port, v = host ++ port ∧ IsPort port ∧
    toAsciiLowercase host ∈ ["127.0.0.1".toList, "localhost".toList, "[::1]".toList]

def LocalOrigin (v : List Char) : Prop :=
  ∃ authority, (v = "http://".toList ++ authority ∨ v = "https://".toList ++ authority) ∧
    LocalAuthority authority

/-- Exactly one `Host`, a local one, and every `Origin` local. -/
def Head.Local (h : Head) : Prop :=
  (∃ v, h.valuesOf "host" = [v] ∧ LocalAuthority v) ∧ ∀ v ∈ h.valuesOf "origin", LocalOrigin v

/-! ## Plain requests -/

/-- A name or a bracketed address with colons, and a port or none. -/
def AuthorityShaped (v : List Char) : Prop :=
  ∃ host port, v = host ++ port ∧ IsPort port ∧
    ((∀ c ∈ host, c ≠ ':' ∧ c ≠ '[' ∧ isWhitespace c = false) ∨
      ∃ inner, host = '[' :: inner ++ [']'] ∧ ':' ∈ inner ∧ ∀ c ∈ inner, c ≠ ']' ∧ isWhitespace c = false)

/-- `Host` is given at most once, it and the first `Origin` name authorities, and further ones are local. -/
structure Head.Plain (h : Head) : Prop where
  oneHost : (h.valuesOf "host").length ≤ 1
  host : ∀ v ∈ h.valuesOf "host", AuthorityShaped v
  origin : ∀ v ∈ (h.valuesOf "origin").head?, ∀ authority,
    v = "http://".toList ++ authority ∨ v = "https://".toList ++ authority → AuthorityShaped authority
  origins : ∀ v ∈ (h.valuesOf "origin").tail, LocalOrigin v

/-- What was received starts with this head. -/
structure Head.Received (h : Head) (lossy : List UInt8 → List Char) (reads : List Read) : Prop where
  wellFormed : h.WellFormed
  text : (headOf (received reads)).map lossy = some h.text

/-! ## What the server sees of a head -/

variable {h : Head} {cs : List Char}

theorem IsBlank.isWhitespace (h : IsBlank cs) : ∀ c ∈ cs, Lib.isWhitespace c = true := by
  intro c hc
  rcases h c hc with rfl | rfl
  · rfl
  · rfl

theorem isTextLine_of_not_whitespace (h : ∀ c ∈ cs, isWhitespace c = false) : IsTextLine cs := by
  intro c hc
  have hws := h c hc
  constructor
  · rintro rfl
    exact absurd hws (by decide)
  · rintro rfl
    exact absurd hws (by decide)

theorem Field.WellFormed.isTextLine {f : Field} (h : f.WellFormed) : IsTextLine f.line := by
  have hblank : ∀ cs, IsBlank cs → IsTextLine cs := by
    intro cs hcs c hc
    rcases hcs c hc with rfl | rfl
    · decide
    · decide
  intro c hc
  simp only [Field.line, mem_append, mem_cons] at hc
  rcases hc with hc | rfl | (hc | hc) | hc
  · exact isTextLine_of_not_whitespace (fun d hd => (h.name.2 d hd).2) c hc
  · decide
  · exact hblank _ h.before c hc
  · exact h.value.1 c hc
  · exact hblank _ h.after c hc

theorem textLines_text (hwf : h.WellFormed) :
    textLines h.text = h.requestLine :: h.fields.map Field.line := by
  refine textLines_crlf hwf.requestLine.1 ?_ ?_
  · intro l hl
    obtain ⟨f, hf, rfl⟩ := mem_map.mp hl
    refine ⟨(hwf.fields f hf).isTextLine, ?_⟩
    simp [Field.line]
  · obtain ⟨-, method, c, rest, heq, hne, -⟩ := hwf.requestLine
    rw [heq]
    simp

theorem headerIn_field {f : Field} (h : f.WellFormed) (name : List Char) :
    headerIn name f.line = if eqIgnoreAsciiCase f.name name then some f.value else none := by
  have hcolon : ':' ∉ f.name := fun hmem => (h.name.2 _ hmem).1 rfl
  rw [headerIn, Field.line, splitOnce_append hcolon]
  dsimp only
  rw [trim_of_trimmed (trimmed_of_forall fun c hc => (h.name.2 c hc).2),
    trim_padded h.before.isWhitespace h.after.isWhitespace h.value.2]

theorem headerIn_requestLine {l name : List Char} (h : IsRequestLine l) (hname : ' ' ∉ name) :
    headerIn name l = none := by
  obtain ⟨-, method, c, rest, rfl, hne, hmethod, hc, hcws⟩ := h
  have hcore : Trimmed (method ++ [' ', c]) := by
    constructor
    · intro d hd
      rw [List.head?_append_of_ne_nil _ hne] at hd
      exact (hmethod d (mem_of_head? hd)).2
    · intro d hd
      rw [List.getLast?_append_of_ne_nil _ (by simp)] at hd
      cases hd
      exact hcws
  have hspace : ∀ more, ' ' ∈ trim (method ++ [' ', c] ++ more) := fun more =>
    (prefix_trim hcore (by simp) more).subset (by simp)
  by_cases hcolon : ':' ∈ rest
  · obtain ⟨pre, post, rfl, hpre⟩ := eq_append_cons_of_mem hcolon
    have hkey : ':' ∉ method ++ [' ', c] ++ pre := by
      simp only [mem_append, mem_cons, not_mem_nil, or_false, not_or]
      exact ⟨⟨fun hmem => (hmethod _ hmem).1 rfl, by decide, Ne.symm hc⟩, hpre⟩
    have hline : method ++ ' ' :: c :: (pre ++ ':' :: post) = (method ++ [' ', c] ++ pre) ++ ':' :: post := by
      simp
    rw [headerIn, hline, splitOnce_append hkey]
    refine if_neg fun heq => hname ?_
    have hblank : IsCaseless ' ' := by decide
    rw [← mem_toAsciiLowercase hblank, ← of_decide_eq_true heq, mem_toAsciiLowercase hblank]
    exact hspace pre
  · have hnone : ':' ∉ method ++ ' ' :: c :: rest := by
      simp only [mem_append, mem_cons, not_or]
      exact ⟨fun hmem => (hmethod _ hmem).1 rfl, by decide, Ne.symm hc, hcolon⟩
    rw [headerIn, splitOnce_eq_none hnone]

theorem headerOf_text (hwf : h.WellFormed) {name : String} (hname : ' ' ∉ name.toList) :
    headerOf name.toList h.text = (h.valuesOf name).head? := by
  rw [headerOf, textLines_text hwf, List.findSome?_cons, headerIn_requestLine hwf.requestLine hname,
    Head.valuesOf]
  have hfields := hwf.fields
  generalize h.fields = fields at hfields ⊢
  induction fields with
  | nil => rfl
  | cons f fields ih =>
    rw [map_cons, List.findSome?_cons, headerIn_field (hfields f mem_cons_self), filter_cons]
    cases eqIgnoreAsciiCase f.name name.toList with
    | true => rfl
    | false => exact ih fun g hg => hfields g (mem_cons_of_mem _ hg)

/-! ## What the server takes for local -/

def loopbackNames : List (List Char) := ["127.0.0.1".toList, "localhost".toList, "::1".toList]

theorem isLoopbackAuthority_name {host port : List Char} (hport : IsPort port)
    (hhost : ∀ c ∈ host, c ≠ ':' ∧ c ≠ '[' ∧ isWhitespace c = false) :
    isLoopbackAuthority (host ++ port) = loopbackNames.contains (toAsciiLowercase host) := by
  have hcolon : ':' ∉ host := fun hmem => (hhost _ hmem).1 rfl
  have hopen : stripStart ['['] (host ++ port) = none := by
    refine if_neg fun hpre => ?_
    obtain ⟨rest, hrest⟩ := isPrefixOf_iff_prefix.mp hpre
    cases host with
    | nil =>
      rcases hport with rfl | ⟨digits, rfl, -⟩
      · cases hrest
      · cases hrest
    | cons c host =>
      cases hrest
      exact (hhost '[' mem_cons_self).2.1 rfl
  have hsplit : (splitOnce ':' (host ++ port)).elim (host ++ port) (·.1) = host := by
    rcases hport with rfl | ⟨digits, rfl, -⟩
    · rw [append_nil, splitOnce_eq_none hcolon]
      rfl
    · rw [splitOnce_append hcolon]
      rfl
  have htrim : trim host = host := trim_of_trimmed (trimmed_of_forall fun c hc => (hhost c hc).2.2)
  simp only [isLoopbackAuthority, hopen, hsplit, any_some, htrim]
  rfl

theorem isLoopbackAuthority_literal {inner : List Char} (port : List Char)
    (hinner : ∀ c ∈ inner, c ≠ ']' ∧ isWhitespace c = false) :
    isLoopbackAuthority ('[' :: inner ++ [']'] ++ port) = loopbackNames.contains (toAsciiLowercase inner) := by
  have hopen : stripStart ['['] ('[' :: inner ++ [']'] ++ port) = some (inner ++ ']' :: port) := by
    rw [append_assoc]
    exact stripStart_append ['['] (inner ++ ']' :: port)
  have hclose : ']' ∉ inner := fun hmem => (hinner _ hmem).1 rfl
  have htrim : trim inner = inner := trim_of_trimmed (trimmed_of_forall fun c hc => (hinner c hc).2)
  simp only [isLoopbackAuthority, hopen, splitOnce_append hclose, map_some, any_some, htrim]
  rfl

theorem name_of_lowercase {host : List Char}
    (h : toAsciiLowercase host = "127.0.0.1".toList ∨ toAsciiLowercase host = "localhost".toList) :
    ∀ c ∈ host, c ≠ ':' ∧ c ≠ '[' ∧ isWhitespace c = false := by
  have hnot : ∀ c, IsCaseless c → c ∉ "127.0.0.1".toList → c ∉ "localhost".toList → c ∉ host := by
    intro c hc hnumber hname hmem
    rw [← mem_toAsciiLowercase hc] at hmem
    rcases h with h | h
    · exact hnumber (h ▸ hmem)
    · exact hname (h ▸ hmem)
  intro c hc
  refine ⟨?_, ?_, ?_⟩
  · rintro rfl
    exact hnot ':' (by decide) (by decide) (by decide) hc
  · rintro rfl
    exact hnot '[' (by decide) (by decide) (by decide) hc
  · refine Bool.eq_false_iff.mpr fun hws => ?_
    have hwhite : ∀ d ∈ "127.0.0.1".toList ++ "localhost".toList, isWhitespace d = false :=
      forall_mem_of_all (by decide)
    refine hnot c (isCaseless_of_isWhitespace hws) ?_ ?_ hc
    · intro hmem
      exact absurd hws (by rw [hwhite c (mem_append_left _ hmem)]; decide)
    · intro hmem
      exact absurd hws (by rw [hwhite c (mem_append_right _ hmem)]; decide)

theorem LocalAuthority.isLoopbackAuthority (h : LocalAuthority v) : Http.isLoopbackAuthority v = true := by
  obtain ⟨host, port, rfl, hport, hhost⟩ := h
  simp only [mem_cons, not_mem_nil, or_false] at hhost
  rcases hhost with hhost | hhost | hhost
  · rw [isLoopbackAuthority_name hport (name_of_lowercase (.inl hhost)), hhost]
    decide
  · rw [isLoopbackAuthority_name hport (name_of_lowercase (.inr hhost)), hhost]
    decide
  · have hliteral : host = '[' :: "::1".toList ++ [']'] :=
      (toAsciiLowercase_eq_iff (forall_mem_of_all (by decide))).mp hhost
    rw [hliteral, isLoopbackAuthority_literal port (forall_mem_of_all (by decide))]
    decide

theorem isLoopbackAuthority_iff (h : AuthorityShaped v) :
    isLoopbackAuthority v = true ↔ LocalAuthority v := by
  refine ⟨fun hlocal => ?_, LocalAuthority.isLoopbackAuthority⟩
  have hcolon : IsCaseless ':' := by decide
  obtain ⟨host, port, rfl, hport, hname | ⟨inner, rfl, hmem, hinner⟩⟩ := h
  · refine ⟨host, port, rfl, hport, ?_⟩
    rw [isLoopbackAuthority_name hport hname, loopbackNames] at hlocal
    simp only [contains_iff_mem, mem_cons, not_mem_nil, or_false] at hlocal
    rcases hlocal with hlocal | hlocal | hlocal
    · rw [hlocal]
      decide
    · rw [hlocal]
      decide
    · have hmem : ':' ∈ host := (mem_toAsciiLowercase hcolon).mp (by rw [hlocal]; decide)
      exact absurd rfl (hname ':' hmem).1
  · refine ⟨'[' :: inner ++ [']'], port, rfl, hport, ?_⟩
    rw [isLoopbackAuthority_literal port hinner, loopbackNames] at hlocal
    simp only [contains_iff_mem, mem_cons, not_mem_nil, or_false] at hlocal
    have hmem' := (mem_toAsciiLowercase hcolon).mpr hmem
    rcases hlocal with hlocal | hlocal | hlocal
    · exact absurd (hlocal ▸ hmem') (by decide)
    · exact absurd (hlocal ▸ hmem') (by decide)
    · have hlower : toAsciiLowercase ('[' :: inner ++ [']']) = '[' :: toAsciiLowercase inner ++ [']'] := by
        simp only [toAsciiLowercase, map_append, map_cons, map_nil]
        rfl
      rw [hlower, hlocal]
      decide

theorem strip_scheme_eq_some {v authority : List Char} :
    (stripStart "http://".toList v).or (stripStart "https://".toList v) = some authority ↔
      v = "http://".toList ++ authority ∨ v = "https://".toList ++ authority := by
  constructor
  · intro h
    rcases or_eq_some_iff.mp h with h | ⟨-, h⟩
    · exact .inl (stripStart_eq_some h)
    · exact .inr (stripStart_eq_some h)
  · rintro (rfl | rfl)
    · rw [stripStart_append, some_or]
    · have hnone : stripStart "http://".toList ("https://".toList ++ authority) = none := rfl
      rw [hnone, stripStart_append, none_or]

theorem isLoopbackOrigin_iff
    (h : ∀ authority, v = "http://".toList ++ authority ∨ v = "https://".toList ++ authority →
      AuthorityShaped authority) : isLoopbackOrigin v = true ↔ LocalOrigin v := by
  simp only [isLoopbackOrigin, Option.any_eq_true, strip_scheme_eq_some]
  exact exists_congr fun authority => and_congr_right fun heq => isLoopbackAuthority_iff (h authority heq)

theorem LocalAuthority.shaped (h : LocalAuthority v) : AuthorityShaped v := by
  obtain ⟨host, port, rfl, hport, hhost⟩ := h
  refine ⟨host, port, rfl, hport, ?_⟩
  simp only [mem_cons, not_mem_nil, or_false] at hhost
  rcases hhost with hhost | hhost | hhost
  · exact .inl (name_of_lowercase (.inl hhost))
  · exact .inl (name_of_lowercase (.inr hhost))
  · have hliteral : host = '[' :: "::1".toList ++ [']'] :=
      (toAsciiLowercase_eq_iff (forall_mem_of_all (by decide))).mp hhost
    exact .inr ⟨"::1".toList, hliteral, by decide, forall_mem_of_all (by decide)⟩

theorem LocalOrigin.shaped (h : LocalOrigin v) (authority : List Char)
    (hv : v = "http://".toList ++ authority ∨ v = "https://".toList ++ authority) : AuthorityShaped authority := by
  obtain ⟨authority', hv', hlocal⟩ := h
  cases (strip_scheme_eq_some.mpr hv).symm.trans (strip_scheme_eq_some.mpr hv')
  exact hlocal.shaped

/-! ## Who is served -/

/-- The server looks at the first `Host` and the first `Origin`. -/
theorem rejectReason_eq_none_iff_first {request : Request} (htext : request.headers = h.text)
    (hwf : h.WellFormed) : rejectReason request = none ↔
      (∀ v ∈ (h.valuesOf "origin").head?, isLoopbackOrigin v = true) ∧
        ∃ v, (h.valuesOf "host").head? = some v ∧ isLoopbackAuthority v = true := by
  rw [rejectReason_eq_none_iff, Request.header, Request.header, htext, headerOf_text hwf (by decide),
    headerOf_text hwf (by decide)]
  rfl

theorem Head.Local.plain (hlocal : h.Local) : h.Plain := by
  obtain ⟨⟨host, hhost, hauthority⟩, horigins⟩ := hlocal
  refine ⟨by rw [hhost]; rfl, fun v hv => ?_, fun v hv => (horigins v (mem_of_head? hv)).shaped,
    fun v hv => horigins v (mem_of_mem_tail hv)⟩
  rw [hhost, mem_singleton] at hv
  exact hv ▸ hauthority.shaped

/-- What passes and is plain is local. -/
theorem Head.Plain.local_of_passes {request : Request} (hplain : h.Plain) (hwf : h.WellFormed)
    (htext : request.headers = h.text) (hpasses : rejectReason request = none) : h.Local := by
  obtain ⟨horigin, host, hhost, hlocal⟩ := (rejectReason_eq_none_iff_first htext hwf).mp hpasses
  obtain ⟨hosts, hhosts⟩ := head?_eq_some_iff.mp hhost
  have hnil : hosts = [] := by
    have hone := hplain.oneHost
    rw [hhosts, length_cons] at hone
    exact length_eq_zero_iff.mp (Nat.le_zero.mp (Nat.le_of_succ_le_succ hone))
  refine ⟨⟨host, by rw [hhosts, hnil], (isLoopbackAuthority_iff (hplain.host host ?_)).mp hlocal⟩, ?_⟩
  · rw [hhosts]
    exact mem_cons_self
  · have hfirst := hplain.origin
    have hothers := hplain.origins
    intro v hv
    cases hvalues : h.valuesOf "origin" with
    | nil =>
      rw [hvalues] at hv
      exact absurd hv not_mem_nil
    | cons first others =>
      rw [hvalues] at hv hfirst hothers horigin
      rcases mem_cons.mp hv with rfl | hv
      · exact (isLoopbackOrigin_iff (hfirst v rfl)).mp (horigin v rfl)
      · exact hothers v hv

theorem Head.Local.passes {request : Request} (hlocal : h.Local) (hwf : h.WellFormed)
    (htext : request.headers = h.text) : rejectReason request = none := by
  obtain ⟨⟨host, hhost, hauthority⟩, horigins⟩ := hlocal
  refine (rejectReason_eq_none_iff_first htext hwf).mpr ⟨fun v hv => ?_, host, by rw [hhost]; rfl,
    hauthority.isLoopbackAuthority⟩
  have horigin := horigins v (mem_of_head? hv)
  exact (isLoopbackOrigin_iff horigin.shaped).mpr horigin

theorem Head.Received.headers {lossy : List UInt8 → List Char} {reads : List Read} {request : Request}
    (h' : h.Received lossy reads) (hread : readRequest lossy reads = some request) : request.headers = h.text :=
  (some.inj (h'.text.symm.trans (readRequest_headers hread))).symm

/-- **However the bytes are split into reads, the handler runs for local requests only if and only if each request
that is read completely and lets its first `Host` and `Origin` pass has a well-formed head that is plain.** Every
local request that is read completely is served. -/
theorem served_only_local_iff (lossy : List UInt8 → List Char) (reads : List Read) :
    ((∀ request, handleConnection lossy reads = .served request → ∃ h : Head, h.Received lossy reads ∧ h.Local) ↔
      ∀ request, readRequest lossy reads = some request → rejectReason request = none →
        ∃ h : Head, h.Received lossy reads ∧ h.Plain) ∧
    ∀ (h : Head) request, h.Received lossy reads → readRequest lossy reads = some request → h.Local →
      handleConnection lossy reads = .served request := by
  refine ⟨⟨fun honly request hread hpasses => ?_, fun hplain request hserved => ?_⟩,
    fun h request hreceived hread hlocal => ?_⟩
  · obtain ⟨h, hreceived, hlocal⟩ := honly request (handleConnection_eq_served.mpr ⟨hread, hpasses⟩)
    exact ⟨h, hreceived, hlocal.plain⟩
  · obtain ⟨hread, hpasses⟩ := handleConnection_eq_served.mp hserved
    obtain ⟨h, hreceived, hplain⟩ := hplain request hread hpasses
    exact ⟨h, hreceived, hplain.local_of_passes hreceived.wellFormed (hreceived.headers hread) hpasses⟩
  · exact handleConnection_eq_served.mpr
      ⟨hread, hlocal.passes hreceived.wellFormed (hreceived.headers hread)⟩

/-! ## Which requests are local, by computation -/

def isPort : List Char → Bool
  | [] => true
  | c :: digits => c == ':' && digits ≠ [] && digits.all Char.isDigit

theorem isPort_iff : isPort cs = true ↔ IsPort cs := by
  cases cs with
  | nil => simp [isPort, IsPort]
  | cons c digits => simp [isPort, IsPort, and_assoc]

def isLocalAuthority (v : List Char) : Bool :=
  ["127.0.0.1".toList, "localhost".toList, "[::1]".toList].any fun name =>
    toAsciiLowercase (v.take name.length) == name && isPort (v.drop name.length)

theorem isLocalAuthority_iff : isLocalAuthority v = true ↔ LocalAuthority v := by
  simp only [isLocalAuthority, List.any_eq_true, Bool.and_eq_true, beq_iff_eq, isPort_iff]
  constructor
  · rintro ⟨name, hmem, hname, hport⟩
    refine ⟨v.take name.length, v.drop name.length, (List.take_append_drop _ v).symm, hport, ?_⟩
    rwa [hname]
  · rintro ⟨host, port, rfl, hport, hmem⟩
    have hlength : (toAsciiLowercase host).length = host.length := length_map _
    refine ⟨_, hmem, ?_, ?_⟩
    · rw [hlength, List.take_left]
    · rwa [hlength, List.drop_left]

instance (v : List Char) : Decidable (LocalAuthority v) := decidable_of_iff _ isLocalAuthority_iff

theorem localOrigin_iff :
    ((stripStart "http://".toList v).or (stripStart "https://".toList v)).any isLocalAuthority = true ↔
      LocalOrigin v := by
  simp only [Option.any_eq_true, strip_scheme_eq_some, isLocalAuthority_iff]
  rfl

instance (v : List Char) : Decidable (LocalOrigin v) := decidable_of_iff _ localOrigin_iff

theorem Head.local_iff :
    ((h.valuesOf "host").length = 1 ∧ ∀ v ∈ h.valuesOf "host", LocalAuthority v) ∧
      (∀ v ∈ h.valuesOf "origin", LocalOrigin v) ↔ h.Local := by
  refine and_congr_left fun _ => ?_
  rw [length_eq_one_iff]
  constructor
  · rintro ⟨⟨v, hv⟩, hlocal⟩
    exact ⟨v, hv, hlocal v (by rw [hv]; exact mem_singleton_self v)⟩
  · rintro ⟨v, hv, hlocal⟩
    refine ⟨⟨v, hv⟩, fun w hw => ?_⟩
    rw [hv, mem_singleton] at hw
    rwa [hw]

instance (h : Head) : Decidable h.Local := decidable_of_iff _ Head.local_iff

/-! ## Strangers -/

section Samples

def field (name value : String) : Field := ⟨name.toList, [' '], value.toList, []⟩

def post (fields : List Field) : Head := ⟨"POST / HTTP/1.1".toList, fields⟩

theorem field_wellFormed {name value : String}
    (hne : name.toList ≠ []) (hname : ∀ c ∈ name.toList, c ≠ ':' ∧ isWhitespace c = false)
    (hvalue : ∀ c ∈ value.toList, isWhitespace c = false) : (field name value).WellFormed where
  name := ⟨hne, hname⟩
  before := by
    intro c hc
    exact .inl (mem_singleton.mp hc)
  after := fun c hc => absurd hc not_mem_nil
  value := ⟨isTextLine_of_not_whitespace hvalue, trimmed_of_forall hvalue⟩

theorem post_wellFormed {fields : List Field} (h : ∀ f ∈ fields, f.WellFormed) : (post fields).WellFormed where
  requestLine := by
    have hline : ∀ c ∈ "POST / HTTP/1.1".toList, c ≠ '\n' ∧ c ≠ '\r' := forall_mem_of_all (by decide)
    exact ⟨hline, "POST".toList, '/', " HTTP/1.1".toList, rfl, by decide, forall_mem_of_all (by decide), by decide,
      by decide⟩
  fields := h

def asciiText (bytes : List UInt8) : List Char := bytes.map fun b => Char.ofNat b.toNat

def asciiBytes (text : List Char) : List UInt8 := text.map fun c => c.toNat.toUInt8

def inTwo (h : Head) : List Read :=
  let bytes := asciiBytes h.text ++ blankLine
  [some (bytes.take 20), some (bytes.drop 20)]

end Samples

def Outcome.isServed : Outcome → Bool
  | .served _ => true
  | _ => false

theorem Outcome.isServed_iff {o : Outcome} : o.isServed = true ↔ ∃ request, o = .served request := by
  cases o <;> simp [Outcome.isServed]

/-- Each head names a host or an origin that is not local, or names two. -/
def strangers : List Head :=
  [post [field "Host" "localhost", field "Host" "evil.example"],
    post [field "Host" "localhost:80@evil.example"],
    post [field "Host" "[::1].evil.example"],
    post [field "Host" "[localhost]"],
    post [field "Host" "localhost", field "Origin" "http://localhost", field "Origin" "http://evil.example"],
    post [field "Host" "localhost", field "Origin" "http://localhost:80@evil.example"]]

theorem strangers_wellFormed : ∀ h ∈ strangers, h.WellFormed := by
  intro h hh
  simp only [strangers, mem_cons, not_mem_nil, or_false] at hh
  rcases hh with rfl | rfl | rfl | rfl | rfl | rfl
  all_goals
    refine post_wellFormed fun f hf => ?_
    simp only [mem_cons, not_mem_nil, or_false] at hf
    rcases hf with rfl | rfl | rfl
    all_goals exact field_wellFormed (by decide) (forall_mem_of_all (by decide)) (forall_mem_of_all (by decide))

/-- The lines of the head end with a newline alone. -/
def bareLines : List Char := "POST / HTTP/1.1\nHost: localhost".toList

theorem text_eq_lines (hwf : h.WellFormed) {first : List Char} {rest : List (List Char)}
    (hlines : textLines h.text = first :: rest) :
    h.text = first ++ rest.flatMap fun l => '\r' :: '\n' :: l := by
  rw [textLines_text hwf] at hlines
  cases hlines
  rfl

theorem bareLines_ne_text (hwf : h.WellFormed) : h.text ≠ bareLines := by
  intro htext
  have hlines : textLines h.text = ["POST / HTTP/1.1".toList, "Host: localhost".toList] := by
    rw [htext]
    decide +kernel
  have hcrlf := text_eq_lines hwf hlines
  rw [htext] at hcrlf
  exact absurd hcrlf (by decide +kernel)

theorem strangers_served :
    (∀ h ∈ strangers, h.WellFormed ∧ ¬ h.Local ∧
      ∃ request, handleConnection asciiText (inTwo h) = .served request) ∧
    (∀ h : Head, h.WellFormed → h.text ≠ bareLines) ∧
      ∃ request, handleConnection asciiText [some (asciiBytes bareLines ++ blankLine)] = .served request := by
  have hserved : ∀ h ∈ strangers, ¬ h.Local ∧ (handleConnection asciiText (inTwo h)).isServed = true := by
    decide +kernel
  refine ⟨fun h hh => ⟨strangers_wellFormed h hh, (hserved h hh).1, Outcome.isServed_iff.mp (hserved h hh).2⟩,
    fun h hwf => bareLines_ne_text hwf, Outcome.isServed_iff.mp ?_⟩
  decide +kernel

end Hyperion.Console.Http
