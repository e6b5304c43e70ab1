import Hyperion.Capability.Monitor
import Hyperion.Lib.DebugText
import Hyperion.Lib.HashChain

/-!
# The audit ledger

`hyperion-observability`'s `AuditLedger`: entries linked by hashes, with a signed Merkle anchor for
every hundred of them. `append` runs in three sections: it takes a number, pushes the entry under the
lock of the last hash, and anchors the segment that its number closes.

The hash and the signatures are BLAKE3 and Ed25519; both are parameters (`Crypto`). So are the debug
texts of the two records of other crates that a payload may carry, and the characters that `{:?}`
prints as they are (`DebugTexts`). Numbers and times are unbounded.
-/

namespace Hyperion.Audit
open Lib Lib.Json Capability

/-- `hyperion_crypto::Hash`. -/
abbrev Digest := Vector UInt8 32

structure Crypto where
  Keystore : Type
  VerifyingKey : Type
  Signature : Type
  hash : List UInt8 → Digest
  verifyingKey : Keystore → VerifyingKey
  sign : Keystore → List UInt8 → Signature
  verify : List UInt8 → Signature → VerifyingKey → Bool

/-- A signature verifies under the key that it was made with. -/
def Crypto.Sound (c : Crypto) : Prop :=
  ∀ keystore bytes, c.verify bytes (c.sign keystore bytes) (c.verifyingKey keystore) = true

/-- What `{:?}` writes for the records of other crates, and the characters it does not escape. -/
structure DebugTexts (Explanation Rationale : Type) where
  printable : Char → Bool
  explanation : Explanation → List Char
  rationale : Rationale → List Char

/-- The text of a record determines it. -/
structure DebugTexts.Injective {Explanation Rationale : Type} (t : DebugTexts Explanation Rationale) :
    Prop where
  explanation : Function.Injective t.explanation
  rationale : Function.Injective t.rationale

inductive PrincipalRef
  | user (id : Nat)
  | agent (id : Nat)
  | capability (id : Nat)
  | system
deriving DecidableEq, Repr

inductive AuditAction
  | grant
  | revoke
  | explainRecord
  | consentChange
  | adminOverride
  | modelRouting
deriving DecidableEq, Repr

inductive AuditPayload (Explanation Rationale : Type)
  | explanation (record : Explanation)
  | modelRouting (invocationId : Nat) (rationale : Rationale)
  | grant (capabilityRef : String)
  | revoke (capabilityRef reason : String)
  | consentChange (grantId : Nat)
  | note (text : String)
deriving DecidableEq

structure AuditLogEntry (Explanation Rationale : Type) where
  seq : Nat
  prevHash : Digest
  entryHash : Digest
  actor : PrincipalRef
  action : AuditAction
  target : Option String
  payload : AuditPayload Explanation Rationale
  timestamp : Nat
deriving DecidableEq

inductive VerificationReport
  | intact
  | corrupt (atSeq : Nat)
  | empty
deriving DecidableEq, Repr

inductive ObservabilityError
  | unauthorized
deriving DecidableEq, Repr

/-! ## The texts that are hashed -/

/-- The text of a tuple variant with one number. -/
def tupleText (name : String) (n : Nat) : List Char := name.toList ++ ('(' :: (renderNat n ++ [')']))

def PrincipalRef.debug : PrincipalRef → List Char
  | .user id => tupleText "User" id
  | .agent id => tupleText "Agent" id
  | .capability id => tupleText "Capability" id
  | .system => "System".toList

def AuditAction.debug : AuditAction → List Char
  | .grant => "Grant".toList
  | .revoke => "Revoke".toList
  | .explainRecord => "ExplainRecord".toList
  | .consentChange => "ConsentChange".toList
  | .adminOverride => "AdminOverride".toList
  | .modelRouting => "ModelRouting".toList

/-- The eight bytes of `u64::to_le_bytes`. -/
def leBytes (n : Nat) : List UInt8 := (List.range 8).map fun i => UInt8.ofNat (n / 256 ^ i)

section
variable {Explanation Rationale : Type} (t : DebugTexts Explanation Rationale)

def debugTarget : Option String → List Char
  | none => "None".toList
  | some s => "Some(".toList ++ (debugStr t.printable s ++ [')'])

def AuditPayload.debug : AuditPayload Explanation Rationale → List Char
  | .explanation record => "Explanation(".toList ++ (t.explanation record ++ [')'])
  | .modelRouting invocationId rationale =>
    "ModelRouting \x7b invocation_id: ".toList ++ (renderNat invocationId ++ (", rationale: ".toList ++
      (t.rationale rationale ++ " \x7d".toList)))
  | .grant capabilityRef =>
    "Grant \x7b capability_ref: ".toList ++ (debugStr t.printable capabilityRef ++ " \x7d".toList)
  | .revoke capabilityRef reason =>
    "Revoke \x7b capability_ref: ".toList ++ (debugStr t.printable capabilityRef ++
      (", reason: ".toList ++ (debugStr t.printable reason ++ " \x7d".toList)))
  | .consentChange grantId =>
    "ConsentChange \x7b grant_id: ".toList ++ (renderNat grantId ++ " \x7d".toList)
  | .note text => "Note(".toList ++ (debugStr t.printable text ++ [')'])

/-- The bytes that `compute_hash` hashes. -/
def preimage (prevHash : Digest) (seq : Nat) (actor : PrincipalRef) (action : AuditAction)
    (target : Option String) (payload : AuditPayload Explanation Rationale) : List UInt8 :=
  prevHash.toList ++ (leBytes seq ++
    utf8Bytes (actor.debug ++ (action.debug ++ (debugTarget t target ++ payload.debug t))))

variable (c : Crypto)

def computeHash (prevHash : Digest) (seq : Nat) (actor : PrincipalRef) (action : AuditAction)
    (target : Option String) (payload : AuditPayload Explanation Rationale) : Digest :=
  c.hash (preimage t prevHash seq actor action target payload)

def genesisHash : Digest := c.hash []

/-! ## Merkle roots -/

/-- One level up: neighbours hashed together, an odd one carried up. -/
def merkleLevel : List Digest → List Digest
  | [] => []
  | [d] => [d]
  | d :: e :: rest => c.hash (d.toList ++ e.toList) :: merkleLevel rest

theorem length_merkleLevel (leaves : List Digest) :
    (merkleLevel c leaves).length = (leaves.length + 1) / 2 := by
  induction leaves using merkleLevel.induct with
  | case1 => simp [merkleLevel]
  | case2 d => simp [merkleLevel]
  | case3 d e rest ih =>
    simp only [merkleLevel, List.length_cons]
    omega

/-- `merkle_root` of the leaves `d :: rest`. -/
def merkleRoot (d : Digest) : List Digest → Digest
  | [] => d
  | e :: rest => merkleRoot (c.hash (d.toList ++ e.toList)) (merkleLevel c rest)
termination_by rest => rest.length
decreasing_by
  rw [List.length_cons, length_merkleLevel]
  omega

/-! ## The ledger -/

structure Anchor where
  fromSeq : Nat
  toSeq : Nat
  root : Digest
  signature : c.Signature

structure AuditLedger (Explanation Rationale : Type) where
  entries : List (AuditLogEntry Explanation Rationale)
  nextSeq : Nat
  lastHash : Digest
  keystore : Option c.Keystore
  anchors : List (Anchor c)

/-- What a caller passes to `append`. -/
structure AuditRecord (Explanation Rationale : Type) where
  actor : PrincipalRef
  action : AuditAction
  target : Option String
  payload : AuditPayload Explanation Rationale
  now : Nat

def anchorInterval : Nat := 100

end

namespace AuditLedger

section
variable {c : Crypto} {Explanation Rationale : Type} (t : DebugTexts Explanation Rationale)

/-- `AuditLedger::new` and `AuditLedger::new_with_keystore`. -/
def new (keystore : Option c.Keystore) : AuditLedger c Explanation Rationale where
  entries := []
  nextSeq := 1
  lastHash := genesisHash c
  keystore := keystore
  anchors := []

def range (entries : List (AuditLogEntry Explanation Rationale)) (fromSeq toSeq : Nat) :
    List (AuditLogEntry Explanation Rationale) :=
  entries.filter fun e => fromSeq ≤ e.seq ∧ e.seq ≤ toSeq

variable (l : AuditLedger c Explanation Rationale)

def leaves (fromSeq toSeq : Nat) : List Digest :=
  (range l.entries fromSeq toSeq).map AuditLogEntry.entryHash

/-- `anchor_segment`; the assertion of `merkle_root` fails on a segment without entries, and the
caller then records nothing. -/
def anchorSegment (keystore : c.Keystore) (fromSeq toSeq : Nat) : AuditLedger c Explanation Rationale :=
  match l.leaves fromSeq toSeq with
  | [] => l
  | d :: rest =>
    let root := merkleRoot c d rest
    { l with anchors := l.anchors ++ [⟨fromSeq, toSeq, root, c.sign keystore root.toList⟩] }

/-- First section of `append`: `fetch_add` on the counter. -/
def takeSeq : Nat × AuditLedger c Explanation Rationale :=
  (l.nextSeq, { l with nextSeq := l.nextSeq + 1 })

def entryOf (seq : Nat) (r : AuditRecord Explanation Rationale) : AuditLogEntry Explanation Rationale where
  seq := seq
  prevHash := l.lastHash
  entryHash := computeHash t c l.lastHash seq r.actor r.action r.target r.payload
  actor := r.actor
  action := r.action
  target := r.target
  payload := r.payload
  timestamp := r.now

/-- Second section, under the lock of the last hash. -/
def push (seq : Nat) (r : AuditRecord Explanation Rationale) : AuditLedger c Explanation Rationale :=
  { l with entries := l.entries ++ [l.entryOf t seq r], lastHash := (l.entryOf t seq r).entryHash }

/-- Third section. -/
def anchorIfDue (seq : Nat) : AuditLedger c Explanation Rationale :=
  match l.keystore with
  | none => l
  | some keystore =>
    if seq % anchorInterval = 0 then l.anchorSegment keystore (seq - anchorInterval + 1) seq else l

/-- `append`, of one caller at a time. -/
def append (monitor : CapabilityMonitor) (clock : Instant)
    (token : CapabilityToken) (r : AuditRecord Explanation Rationale) :
    Except ObservabilityError (AuditLogEntry Explanation Rationale) ×
      AuditLedger c Explanation Rationale :=
  match monitor.checkRightsOkResult clock token .write with
  | .error _ => (.error .unauthorized, l)
  | .ok () =>
    let (seq, l) := l.takeSeq
    (.ok (l.entryOf t seq r), (l.push t seq r).anchorIfDue seq)

def verifyAnchor (anchor : Anchor c) (verifyingKey : c.VerifyingKey) : Bool :=
  if !c.verify anchor.root.toList anchor.signature verifyingKey then false
  else
    match l.leaves anchor.fromSeq anchor.toSeq with
    | [] => false
    | d :: rest => merkleRoot c d rest == anchor.root

def recomputed (c : Crypto) (e : AuditLogEntry Explanation Rationale) : Digest :=
  computeHash t c e.prevHash e.seq e.actor e.action e.target e.payload

/-- The loop of `verify_chain`. -/
def verifyLoop (c : Crypto) (expectedPrev : Digest) (expectedSeq : Nat) :
    List (AuditLogEntry Explanation Rationale) → VerificationReport
  | [] => .intact
  | entry :: rest =>
    if entry.seq ≠ expectedSeq ∨ entry.prevHash ≠ expectedPrev then .corrupt entry.seq
    else if recomputed t c entry ≠ entry.entryHash then .corrupt entry.seq
    else verifyLoop c entry.entryHash (expectedSeq + 1) rest

/-- `verify_chain` on the stored entries. -/
def verifyChain (c : Crypto) (entries : List (AuditLogEntry Explanation Rationale))
    (fromSeq toSeq : Nat) : VerificationReport :=
  match range entries fromSeq toSeq with
  | [] => .empty
  | first :: rest =>
    verifyLoop t c (if fromSeq = 1 then genesisHash c else first.prevHash) first.seq (first :: rest)

/-! ## What the checks say -/

def links (c : Crypto) : Links (AuditLogEntry Explanation Rationale) Digest where
  seq := AuditLogEntry.seq
  prev := AuditLogEntry.prevHash
  hash := AuditLogEntry.entryHash
  digest := recomputed t c

theorem verifyLoop_eq_intact_iff (prev : Digest) (seq : Nat)
    (entries : List (AuditLogEntry Explanation Rationale)) :
    verifyLoop t c prev seq entries = .intact ↔ (links t c).Chained prev seq entries := by
  induction entries generalizing prev seq with
  | nil => exact ⟨fun _ => trivial, fun _ => rfl⟩
  | cons entry rest ih =>
    rw [verifyLoop, Links.Chained, ← ih]
    simp only [links]
    split_ifs with hlink hhash
    · refine ⟨False.elim, ?_⟩
      rintro ⟨⟨hseq, hprev, -⟩, -⟩
      rcases hlink with h | h
      · exact absurd hseq h
      · exact absurd hprev h
    · exact ⟨False.elim, fun h => absurd h.1.2.2 hhash⟩
    · rw [not_or, not_not, not_not] at hlink
      exact ⟨fun h => ⟨⟨hlink.1, hlink.2, not_not.mp hhash⟩, h⟩, And.right⟩

theorem verifyChain_eq_intact_iff (entries : List (AuditLogEntry Explanation Rationale))
    (fromSeq toSeq : Nat) : verifyChain t c entries fromSeq toSeq = .intact ↔
      range entries fromSeq toSeq ≠ [] ∧ ∃ prev seq,
        (links t c).Chained prev seq (range entries fromSeq toSeq) ∧
          (fromSeq = 1 → prev = genesisHash c) := by
  unfold verifyChain
  split
  · next hnil => simp [hnil]
  · next first rest hcons =>
    rw [hcons, verifyLoop_eq_intact_iff]
    constructor
    · exact fun h => ⟨nofun, _, _, h, fun hone => if_pos hone⟩
    · rintro ⟨-, prev, seq, hchain, hgenesis⟩
      have hprev : (if fromSeq = 1 then genesisHash c else first.prevHash) = prev := by
        split_ifs with hone
        · exact (hgenesis hone).symm
        · exact hchain.1.2.1
      have hseq : first.seq = seq := hchain.1.1
      rw [hprev, hseq]
      exact hchain

theorem verifyAnchor_eq_true_iff {l : AuditLedger c Explanation Rationale} {anchor : Anchor c}
    {key : c.VerifyingKey} : l.verifyAnchor anchor key = true ↔
      c.verify anchor.root.toList anchor.signature key = true ∧
        ∃ d rest, l.leaves anchor.fromSeq anchor.toSeq = d :: rest ∧ merkleRoot c d rest = anchor.root := by
  unfold verifyAnchor
  cases c.verify anchor.root.toList anchor.signature key with
  | false => simp
  | true => cases l.leaves anchor.fromSeq anchor.toSeq <;> simp

end

end AuditLedger

/-! ## Notes of the system -/

def plainTexts : DebugTexts Empty Empty where
  printable c := 32 ≤ c.toNat ∧ c.toNat < 127
  explanation := nofun
  rationale := nofun

theorem plainTexts_injective : plainTexts.Injective := ⟨nofun, nofun⟩

def sampleRecord (text : String) (now : Nat) : AuditRecord Empty Empty where
  actor := .system
  action := .grant
  target := none
  payload := .note text
  now := now

/-- The BLAKE3 digests of the empty input, of a first note `a`, and of the notes `b` and `c` after it. -/
def digestEmpty : Digest := #v[
  175, 19, 73, 185, 245, 249, 161, 166, 160, 64, 77, 234, 54, 220, 201, 73,
  155, 203, 37, 201, 173, 193, 18, 183, 204, 154, 147, 202, 228, 31, 50, 98]

@[inherit_doc digestEmpty] def digestA : Digest := #v[
  3, 214, 215, 17, 243, 119, 17, 236, 80, 77, 191, 255, 129, 77, 23, 47,
  194, 145, 182, 226, 110, 192, 29, 97, 221, 140, 130, 217, 204, 104, 117, 39]

@[inherit_doc digestEmpty] def digestB : Digest := #v[
  4, 43, 252, 12, 21, 179, 168, 26, 219, 35, 48, 192, 181, 230, 0, 94,
  150, 227, 209, 97, 237, 139, 65, 231, 210, 232, 185, 122, 94, 206, 71, 148]

@[inherit_doc digestEmpty] def digestC : Digest := #v[
  154, 27, 60, 170, 94, 208, 102, 241, 117, 156, 196, 178, 246, 97, 141, 216,
  8, 94, 222, 183, 147, 48, 43, 47, 52, 22, 176, 128, 64, 16, 144, 174]

/-- BLAKE3 on the inputs of these notes. Nothing is signed without a keystore. -/
def noteCrypto : Crypto where
  Keystore := Empty
  VerifyingKey := Empty
  Signature := Empty
  hash bytes :=
    if bytes = [] then digestEmpty
    else if bytes = preimage plainTexts digestEmpty 1 .system .grant none (.note "a") then digestA
    else if bytes = preimage plainTexts digestA 2 .system .grant none (.note "b") then digestB
    else if bytes = preimage plainTexts digestA 2 .system .grant none (.note "c") then digestC
    else Vector.replicate 32 0
  verifyingKey := nofun
  sign := nofun
  verify := nofun

theorem noteCrypto_sound : noteCrypto.Sound := nofun

def auditor : CapabilityToken × CapabilityMonitor := CapabilityMonitor.new.mintRoot 1 0 .write 7 none

end Hyperion.Audit
