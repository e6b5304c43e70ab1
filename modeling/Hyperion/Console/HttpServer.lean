import Mathlib
import Hyperion.Lib.Text

/-!
# The local HTTP server

The MCP and A2A servers read one request from a connection, refuse it if it does not come from a local page or
is not addressed to a local name, and else hand it to the agent.
-/

namespace Hyperion.Console.Http
open Lib Option

def maxHeaderBytes : Nat := 64 * 1024

def maxBodyBytes : Nat := 8 * 1024 * 1024

structure Request where
  method : List Char
  path : List Char
  headers : List Char
  body : List Char
deriving DecidableEq, Repr

def headerIn (name line : List Char) : Option (List Char) :=
  match splitOnce ':' line with
  | none => none
  | some (key, value) => if eqIgnoreAsciiCase (trim key) name then some (trim value) else none

def headerOf (name headers : List Char) : Option (List Char) := (textLines headers).findSome? (headerIn name)

def Request.header (request : Request) (name : String) : Option (List Char) :=
  headerOf name.toList request.headers

def isLoopbackAuthority (authority : List Char) : Bool :=
  let host : Option (List Char) :=
    match stripStart ['['] authority with
    | some rest => (splitOnce ']' rest).map (·.1)
    | none => some ((splitOnce ':' authority).elim authority (·.1))
  host.any fun host => ["127.0.0.1".toList, "localhost".toList, "::1".toList].contains (toAsciiLowercase (trim host))

def isLoopbackOrigin (origin : List Char) : Bool :=
  let authority := (stripStart "http://".toList origin).or (stripStart "https://".toList origin)
  authority.any isLoopbackAuthority

def rejectReason (request : Request) : Option String :=
  if (request.header "origin").any fun origin => !isLoopbackOrigin origin then
    some ("this endpoint does not serve cross-site browser requests -- see hyperion-console's http_server " ++
      "for why")
  else if (request.header "host").any isLoopbackAuthority then none
  else some "this endpoint only answers requests addressed to it as a local service"

/-- What one call of `read` gives: bytes, none of them at the end of the stream, or an error. -/
abbrev Read := Option (List UInt8)

def blankLine : List UInt8 := [13, 10, 13, 10]

/-- Reads until the head is complete: where it ends, the bytes so far, and the reads to come. A read that is not
there is one that times out. -/
def readHead (buf : List UInt8) : List Read → Option (Nat × List UInt8 × List Read)
  | [] => (findSubslice blankLine buf).map fun headerEnd => (headerEnd, buf, [])
  | read :: reads =>
    match findSubslice blankLine buf with
    | some headerEnd => some (headerEnd, buf, read :: reads)
    | none =>
      if buf.length > maxHeaderBytes then none
      else
        match read with
        | none => none
        | some [] => none
        | some (b :: bs) => readHead (buf ++ b :: bs) reads

def readBody (wanted : Nat) (buf : List UInt8) : List Read → Option (List UInt8)
  | [] => if buf.length < wanted then none else some buf
  | read :: reads =>
    if buf.length < wanted then
      match read with
      | none => none
      | some [] => some buf
      | some (b :: bs) => readBody wanted (buf ++ b :: bs) reads
    else some buf

def splitWhitespace (cs : List Char) : List (List Char) :=
  (cs.splitOnP isWhitespace).filter (· ≠ [])

section
variable (lossy : List UInt8 → List Char)

/-- `lossy` is `String::from_utf8_lossy`. -/
def readRequest (reads : List Read) : Option Request := do
  let (headerEnd, buf, reads) ← readHead [] reads
  let headers := lossy (buf.take headerEnd)
  let requestLine := (textLines headers).head?.getD []
  let method := (splitWhitespace requestLine)[0]?.getD []
  let rawPath := (splitWhitespace requestLine)[1]?.getD []
  let path := (splitOnce '?' rawPath).elim rawPath (·.1)
  let declaredLength := ((headerOf "content-length".toList headers).bind (parseUnsigned (2 ^ 64))).getD 0
  if declaredLength > maxBodyBytes then none
  else
    let bodyStart := headerEnd + 4
    let buf ← readBody (bodyStart + declaredLength) buf reads
    pure ⟨method, path, headers, lossy ((buf.take (bodyStart + declaredLength)).drop bodyStart)⟩

/-- What becomes of a connection: it is dropped, the request is refused, or the handler runs. -/
inductive Outcome
  | dropped
  | refused (reason : String)
  | served (request : Request)
deriving DecidableEq, Repr

def handleConnection (reads : List Read) : Outcome :=
  match readRequest lossy reads with
  | none => .dropped
  | some request =>
    match rejectReason request with
    | some reason => .refused reason
    | none => .served request

end

/-! ## The bytes that were received -/

def received : List Read → List UInt8
  | some (b :: bs) :: reads => b :: bs ++ received reads
  | _ => []

def headOf (bytes : List UInt8) : Option (List UInt8) :=
  (findSubslice blankLine bytes).map bytes.take

variable {lossy : List UInt8 → List Char} {reads : List Read} {request : Request} {buf : List UInt8}
  {headerEnd : Nat}

theorem headOf_append (hfind : findSubslice blankLine buf = some headerEnd)
    (more : List UInt8) : headOf (buf ++ more) = some (buf.take headerEnd) := by
  have hle := findSubslice_le hfind
  rw [headOf, findSubslice_append hfind, map_some,
    List.take_append_of_le_length (le_trans (Nat.le_add_right _ _) hle)]

theorem readHead_eq_some {buf' : List UInt8}
    {reads' : List Read} (h : readHead buf reads = some (headerEnd, buf', reads')) :
    headOf (buf ++ received reads) = some (buf'.take headerEnd) := by
  induction reads generalizing buf with
  | nil =>
    obtain ⟨e, hfind, heq⟩ := map_eq_some_iff.mp h
    cases heq
    exact headOf_append hfind _
  | cons read reads ih =>
    unfold readHead at h
    split at h
    · next e hfind =>
      cases h
      exact headOf_append hfind _
    · split at h
      · cases h
      · cases read with
        | none => cases h
        | some bytes =>
          cases bytes with
          | nil => cases h
          | cons b bs =>
            have hhead := ih h
            rw [List.append_assoc] at hhead
            exact hhead

theorem readRequest_headers (h : readRequest lossy reads = some request) :
    (headOf (received reads)).map lossy = some request.headers := by
  unfold readRequest at h
  obtain ⟨⟨headerEnd, buf, rest⟩, hhead, h⟩ := bind_eq_some_iff.mp h
  have hreceived := readHead_eq_some hhead
  rw [List.nil_append] at hreceived
  rw [hreceived, map_some]
  dsimp only at h
  split at h
  · cases h
  · obtain ⟨body, -, h⟩ := bind_eq_some_iff.mp h
    cases h
    rfl

theorem handleConnection_eq_served :
    handleConnection lossy reads = .served request ↔
      readRequest lossy reads = some request ∧ rejectReason request = none := by
  unfold handleConnection
  cases readRequest lossy reads with
  | none => simp
  | some r =>
    cases hreason : rejectReason r with
    | none =>
      simp only [hreason, Outcome.served.injEq, some.injEq]
      exact ⟨fun heq => ⟨heq, heq ▸ hreason⟩, fun h => h.1⟩
    | some reason =>
      simp only [hreason, reduceCtorEq, some.injEq, false_iff, not_and]
      rintro rfl
      rw [hreason]
      exact some_ne_none reason

theorem rejectReason_eq_none_iff : rejectReason request = none ↔
    (∀ origin, request.header "origin" = some origin → isLoopbackOrigin origin = true) ∧
      ∃ host, request.header "host" = some host ∧ isLoopbackAuthority host = true := by
  unfold rejectReason
  cases horigin : request.header "origin" with
  | none => cases hhost : request.header "host" <;> simp
  | some origin =>
    cases hlocal : isLoopbackOrigin origin with
    | false => simp [hlocal]
    | true => cases hhost : request.header "host" <;> simp [hlocal]

end Hyperion.Console.Http
