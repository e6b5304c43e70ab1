import Hyperion.Lib.DocFile
import Hyperion.Lib.Signing
import Hyperion.Lib.Text

/-!
# Exchanges with peers, and the store of their keys

The console asks another instance something over A2A or MCP. A peer may claim a key; then its reply must carry
a signature under the key, and the key must be the one that the store has for the peer. The store takes the
first key that it sees, and keeps the keys in a file.
-/

namespace Hyperion.Console
open Lib

/-! ## The store -/

inductive PeerTrustError
  | io
  | corrupt
deriving DecidableEq, Repr

inductive TrustOutcome
  | firstTrust
  | trusted
  | keyMismatch (previouslyTrustedKeyHex : String)
deriving DecidableEq, Repr

/-- The peers, with the hex text of the key that was first seen for each. -/
structure PeerTrustStore where
  trusted : HashMap String String

/-- The entries of a JSON object, whose values have to be strings. -/
def loadTrusted : List (String × Json) → HashMap String String → Option (HashMap String String)
  | [], trusted => some trusted
  | (peerId, .str keyHex) :: entries, trusted => loadTrusted entries (trusted.insert peerId keyHex)
  | _ :: _, _ => none

def trustDocument (trusted : HashMap String String) : Json :=
  .obj (trusted.toList.map fun (peerId, keyHex) => (peerId, .str keyHex))

section
variable (P : DocFormat Json)

def PeerTrustStore.openOrCreate (file : Option (List UInt8)) : Except PeerTrustError PeerTrustStore :=
  match P.contents file with
  | .missing => .ok ⟨∅⟩
  | .unreadable => .error .corrupt
  | .document (.obj entries) =>
    match loadTrusted entries ∅ with
    | some trusted => .ok ⟨trusted⟩
    | none => .error .corrupt
  | .document _ => .error .corrupt

namespace PeerTrustStore

variable (store : PeerTrustStore)

/-- `save`; a directory that cannot be created leaves the file untouched. -/
def save (file : Option (List UInt8)) (how : WriteEnd) : Except PeerTrustError Unit × Option (List UInt8) :=
  match writeFile file (P.print (trustDocument store.trusted)) how with
  | (true, file) => (.ok (), file)
  | (false, file) => (.error .io, file)

def record (peerId keyHex : String) : PeerTrustStore :=
  ⟨store.trusted.insert peerId keyHex⟩

def verifyOrTrust (file : Option (List UInt8)) (peerId observedKeyHex : String)
    (how : WriteEnd) : Except PeerTrustError TrustOutcome × PeerTrustStore × Option (List UInt8) :=
  match store.trusted[peerId]? with
  | none =>
    let store := store.record peerId observedKeyHex
    match store.save P file how with
    | (.error err, file) => (.error err, store, file)
    | (.ok (), file) => (.ok .firstTrust, store, file)
  | some known =>
    if known = observedKeyHex then (.ok .trusted, store, file)
    else (.ok (.keyMismatch known), store, file)

def forget (file : Option (List UInt8)) (peerId : String) (how : WriteEnd) :
    Except PeerTrustError Bool × PeerTrustStore × Option (List UInt8) :=
  let existed := store.trusted[peerId]?.isSome
  let store : PeerTrustStore := ⟨store.trusted.erase peerId⟩
  if existed then
    match store.save P file how with
    | (.error err, file) => (.error err, store, file)
    | (.ok (), file) => (.ok existed, store, file)
  else (.ok existed, store, file)

end PeerTrustStore

end

/-! ## Keys and signatures as texts -/

inductive Decoded
  | bytes (bs : List UInt8)
  | invalid
  | panicked
deriving DecidableEq, Repr

/-- `u8::from_str_radix(_, 16)` on two characters; a plus sign may stand before a single digit. -/
def fromStrRadix (c d : Char) : Option UInt8 :=
  if c = '+' then (toDigit d).map UInt8.ofNat
  else
    match toDigit c, toDigit d with
    | some hi, some lo => some (UInt8.ofNat (16 * hi + lo))
    | _, _ => none

/-- The pairs of bytes in order. A slice that ends inside a character panics. -/
def decodePairs : List Char → Decoded
  | [] => .bytes []
  | [c] => if c.utf8Size = 2 then .invalid else .panicked
  | c :: d :: rest =>
    if c.utf8Size = 1 then
      if d.utf8Size = 1 then
        match fromStrRadix c d with
        | none => .invalid
        | some b =>
          match decodePairs rest with
          | .bytes bs => .bytes (b :: bs)
          | .invalid => .invalid
          | .panicked => .panicked
      else .panicked
    else if c.utf8Size = 2 then .invalid
    else .panicked

def decodeHex (s : String) : Decoded :=
  if s.utf8ByteSize % 2 = 0 then decodePairs s.toList else .invalid

/-! ## Exchanges -/

structure Client where
  scheme : SignatureScheme
  /-- `serde_json::from_str`, with the text of its error. -/
  fromStr : String → Except String Json
  readKey : List UInt8 → Except String scheme.VerifyingKey
  readSignature : List UInt8 → Except String scheme.Signature
  /-- The file of the store. -/
  files : DocFormat Json
  errorText : PeerTrustError → String
  /-- The text of `{:?}`. -/
  debugText : String → String

/-- An exchange that returns no text: with a message, or not at all. -/
inductive Failure
  | refused (message : String)
  | panicked
deriving DecidableEq, Repr

/-- `Value::get` of an object. -/
def member (name : String) : Json → Option Json
  | .obj fields => fields.lookup name
  | _ => none

/-- `Value::get(0)` of an array. -/
def first : Json → Option Json
  | .arr (item :: _) => some item
  | _ => none

def asStr : Json → Option String
  | .str s => some s
  | _ => none

inductive Method
  | sendMessage
  | callTool
  | readResource
deriving DecidableEq, Repr

/-- A call to a peer, what comes back, and how a write of the store would end. What is sent does not enter:
the peer answers at will. -/
structure Exchange where
  method : Method
  host : String
  port : Nat
  /-- The body of the Agent Card, or of the answer to `initialize`. -/
  introduction : Except String String
  response : Except String String
  how : WriteEnd

def Exchange.peerId (e : Exchange) : String := s!"{e.host}:{e.port}"

namespace Client
variable (C : Client)

/-- Decodes and reads a key or a signature that the peer gave as hex text. -/
def readHex {α : Type} (read : List UInt8 → Except String α) (peer what kind : String) (hex : String) :
    Except Failure α :=
  match decodeHex hex with
  | .panicked => .error .panicked
  | .invalid => .error (.refused s!"{peer}'s {what} isn't valid hex")
  | .bytes bs =>
    match read bs with
    | .error e => .error (.refused s!"{peer}'s {what} isn't a valid Ed25519 {kind}: {e}")
    | .ok a => .ok a

/-- The checks of the signature: the responder holds the key that it claims. -/
def prove (peer claimIn text claimedKeyHex : String) (signatureHex : Option String) : Except Failure Unit := do
  let some signatureHex := signatureHex
    | throw (.refused (s!"{peer} claims identity {claimedKeyHex} in its {claimIn} but its reply carried no " ++
        "signature to prove it -- refusing to trust an unproven claim"))
  let verifyingKey ← readHex C.readKey peer "claimed public key" "key" claimedKeyHex
  let signature ← readHex C.readSignature peer "reply signature" "signature" signatureHex
  if C.scheme.verify (utf8Bytes text.toList) signature verifyingKey then pure ()
  else throw (.refused (s!"{peer}'s reply signature does NOT verify against its own claimed public key -- " ++
    "this reply may not really be from the identity it claims. Refusing to show it."))

def firstTrustNote (peer claimedKeyHex : String) : String :=
  s!"\n\n(Trusting {peer}'s identity for the first time: {claimedKeyHex}.)"

def mismatchText (peer known presented : String) : String :=
  s!"WARNING: {peer} just presented a DIFFERENT identity than before!\n  previously trusted: {known}\n  " ++
    s!"just presented: {presented}\nThis could mean the peer was reinstalled, or that something else is " ++
    "impersonating it. Refusing to show its reply. If you're sure this is expected, use \"/trust forget " ++
    s!"{peer}\" and try again."

/-- `verify_and_finalize`, and the same steps at the end of `send_message`. -/
def verifyAndFinalize (peer claimIn text : String) (claimedKeyHex signatureHex : Option String)
    (how : WriteEnd) (store : PeerTrustStore) (file : Option (List UInt8)) :
    Except Failure String × PeerTrustStore × Option (List UInt8) :=
  match claimedKeyHex with
  | none => (.ok text, store, file)
  | some claimedKeyHex =>
    match C.prove peer claimIn text claimedKeyHex signatureHex with
    | .error failure => (.error failure, store, file)
    | .ok () =>
      match store.verifyOrTrust C.files file peer claimedKeyHex how with
      | (.error err, store, file) =>
        (.error (.refused s!"couldn't check {peer}'s trust record: {C.errorText err}"), store, file)
      | (.ok .firstTrust, store, file) => (.ok (text ++ firstTrustNote peer claimedKeyHex), store, file)
      | (.ok .trusted, store, file) => (.ok text, store, file)
      | (.ok (.keyMismatch known), store, file) =>
        (.error (.refused (mismatchText peer known claimedKeyHex)), store, file)

structure Shape where
  claimIn : String
  notJson : String → String → String
  claimedKey : Json → Option String
  text : Json → Option String

def reply (shape : Shape) (response : Except String String) : Except Failure (String × Option String) := do
  let body ← response.mapError .refused
  let value ← (C.fromStr body).mapError fun e => .refused
    s!"the response wasn't valid JSON: {e} (got: {C.debugText body})"
  match member "error" value with
  | some error => throw (.refused s!"the remote server returned a real error: {String.ofList error.render}")
  | none =>
    let signatureHex := (member "result" value).bind (member "signature") |>.bind asStr
    pure ((shape.text value).getD body, signatureHex)

def fetchClaimedKey (shape : Shape) (introduction : Except String String) : Except Failure (Option String) := do
  let body ← introduction.mapError .refused
  let value ← (C.fromStr body).mapError fun e => .refused (shape.notJson e (C.debugText body))
  pure (shape.claimedKey value)

/-- The answer to `initialize` of an MCP server, whose reply has its text under a name of its own. -/
def mcpShape (contents : String) : Shape where
  claimIn := "initialize response"
  notJson e got := s!"the initialize response wasn't valid JSON: {e} (got: {got})"
  claimedKey value := (member "result" value).bind (member "publicKey") |>.bind asStr
  text value := (member "result" value).bind (member contents) |>.bind first |>.bind (member "text")
    |>.bind asStr

def sendMessage : Shape where
  claimIn := "Agent Card"
  notJson e _ := s!"that endpoint's Agent Card wasn't valid JSON: {e}"
  claimedKey value := (member "publicKey" value).bind asStr
  text value := (member "result" value).bind (member "status") |>.bind (member "message")
    |>.bind (member "parts") |>.bind first |>.bind (member "text") |>.bind asStr

def callTool : Shape := mcpShape "content"

def readResource : Shape := mcpShape "contents"

def shapeOf : Method → Shape
  | .sendMessage => sendMessage
  | .callTool => callTool
  | .readResource => readResource

/-- One exchange: `send_message`, `call_tool` or `read_resource`. -/
def exchange (e : Exchange) (store : PeerTrustStore) (file : Option (List UInt8)) :
    Except Failure String × PeerTrustStore × Option (List UInt8) :=
  match C.fetchClaimedKey (shapeOf e.method) e.introduction with
  | .error failure => (.error failure, store, file)
  | .ok claimedKeyHex =>
    match C.reply (shapeOf e.method) e.response with
    | .error failure => (.error failure, store, file)
    | .ok (text, signatureHex) =>
      C.verifyAndFinalize e.peerId (shapeOf e.method).claimIn text claimedKeyHex signatureHex e.how store file

def keyOf (hex : String) : Option C.scheme.VerifyingKey :=
  match decodeHex hex with
  | .bytes bs => (C.readKey bs).toOption
  | _ => none

def claimedHex (e : Exchange) : Option String :=
  match C.fetchClaimedKey (shapeOf e.method) e.introduction with
  | .ok claimed => claimed
  | .error _ => none

def replyText (e : Exchange) : Option String :=
  match C.reply (shapeOf e.method) e.response with
  | .ok (text, _) => some text
  | .error _ => none

theorem readHex_eq_ok {α : Type} {read : List UInt8 → Except String α} {peer what kind hex : String} {a : α}
    (h : readHex read peer what kind hex = .ok a) : ∃ bs, decodeHex hex = .bytes bs ∧ read bs = .ok a := by
  unfold readHex at h
  cases hhex : decodeHex hex with
  | panicked => simp [hhex] at h
  | invalid => simp [hhex] at h
  | bytes bs =>
    cases hread : read bs with
    | error e => simp [hhex, hread] at h
    | ok b =>
      simp only [hhex, hread] at h
      cases h
      exact ⟨bs, rfl, hread⟩

theorem prove_eq_ok {peer claimIn text claimed : String} {signatureHex : Option String}
    (h : C.prove peer claimIn text claimed signatureHex = .ok ()) :
    ∃ key signature, C.keyOf claimed = some key ∧
      C.scheme.verify (utf8Bytes text.toList) signature key = true := by
  unfold prove at h
  cases signatureHex with
  | none => cases h
  | some signatureHex =>
    cases hkey : readHex C.readKey peer "claimed public key" "key" claimed with
    | error failure =>
      simp only [hkey] at h
      cases h
    | ok key =>
      cases hsig : readHex C.readSignature peer "reply signature" "signature" signatureHex with
      | error failure =>
        simp only [hkey, hsig] at h
        cases h
      | ok signature =>
        obtain ⟨bs, hbs, hread⟩ := readHex_eq_ok hkey
        refine ⟨key, signature, ?_, ?_⟩
        · rw [keyOf, hbs]
          simp only [hread, Except.toOption]
        · by_contra hverify
          simp only [hkey, hsig] at h
          simp [bind, Except.bind, hverify] at h

/-- The ways an exchange can end. -/
inductive Ending (e : Exchange) (store : PeerTrustStore) (file : Option (List UInt8)) :
    Except Failure String × PeerTrustStore × Option (List UInt8) → Prop
  | failed (failure : Failure) : Ending e store file (.error failure, store, file)
  | unclaimed {text : String} (hclaim : C.claimedHex e = none) : Ending e store file (.ok text, store, file)
  | unsaved {claimed : String} {failure : Failure} {err : PeerTrustError} {file' : Option (List UInt8)}
      (hclaim : C.claimedHex e = some claimed) (hnew : store.trusted[e.peerId]? = none)
      (hsave : (store.record e.peerId claimed).save C.files file e.how = (.error err, file')) :
      Ending e store file (.error failure, store.record e.peerId claimed, file')
  | firstTrust {claimed text : String} {key : C.scheme.VerifyingKey} {file' : Option (List UInt8)}
      (hclaim : C.claimedHex e = some claimed) (hkey : C.keyOf claimed = some key)
      (hnew : store.trusted[e.peerId]? = none)
      (hsave : (store.record e.peerId claimed).save C.files file e.how = (.ok (), file')) :
      Ending e store file (.ok text, store.record e.peerId claimed, file')
  | trusted {claimed text : String} {key : C.scheme.VerifyingKey} {signature : C.scheme.Signature}
      (hclaim : C.claimedHex e = some claimed) (hkey : C.keyOf claimed = some key)
      (hreply : C.replyText e = some text)
      (hverify : C.scheme.verify (utf8Bytes text.toList) signature key = true)
      (hknown : store.trusted[e.peerId]? = some claimed) : Ending e store file (.ok text, store, file)

theorem exchange_ending (e : Exchange) (store : PeerTrustStore) (file : Option (List UInt8)) :
    C.Ending e store file (C.exchange e store file) := by
  unfold exchange
  cases hfetch : C.fetchClaimedKey (shapeOf e.method) e.introduction with
  | error failure => exact .failed failure
  | ok claim =>
    cases hreply : C.reply (shapeOf e.method) e.response with
    | error failure => exact .failed failure
    | ok answer =>
      obtain ⟨text, signatureHex⟩ := answer
      have hclaimed : C.claimedHex e = claim := by simp only [claimedHex, hfetch]
      have htext : C.replyText e = some text := by simp only [replyText, hreply]
      cases claim with
      | none => exact .unclaimed hclaimed
      | some claimed =>
        cases hprove : C.prove e.peerId (shapeOf e.method).claimIn text claimed signatureHex with
        | error failure =>
          simp only [verifyAndFinalize, hprove]
          exact .failed failure
        | ok u =>
          obtain ⟨key, signature, hkey, hverify⟩ := C.prove_eq_ok hprove
          cases hknown : store.trusted[e.peerId]? with
          | none =>
            cases hsave : (store.record e.peerId claimed).save C.files file e.how with
            | mk result file' =>
              cases result with
              | error err =>
                simp only [verifyAndFinalize, hprove, PeerTrustStore.verifyOrTrust, hknown, hsave]
                exact .unsaved hclaimed hknown hsave
              | ok u =>
                simp only [verifyAndFinalize, hprove, PeerTrustStore.verifyOrTrust, hknown, hsave]
                exact .firstTrust hclaimed hkey hknown hsave
          | some known =>
            by_cases heq : known = claimed
            · simp only [verifyAndFinalize, hprove, PeerTrustStore.verifyOrTrust, hknown, if_pos heq]
              exact .trusted hclaimed hkey htext hverify (heq ▸ hknown)
            · simp only [verifyAndFinalize, hprove, PeerTrustStore.verifyOrTrust, hknown, if_neg heq]
              exact .failed _

end Client

end Hyperion.Console
