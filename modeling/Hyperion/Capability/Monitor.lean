import Hyperion.Lib.HashMap

/-!
# The capability monitor

`hyperion-capability`: tokens, the revocation graph and the monitor over it.

Every `Instant::now()` of the source is an argument, one for each reading. `TokenId::next` is a
counter of the process: the functions that draw from it take its value and return the next one.
Ids and clock readings are unbounded; generations wrap at `2 ^ 64` as `wrapping_add` does.
-/

namespace Hyperion.Capability
open Lib

/-! ## Types -/

abbrev ObjectId := Nat
abbrev TrustBoundaryId := Nat
abbrev TokenId := Nat

/-- A reading of the monotonic clock, in nanoseconds. -/
abbrev Instant := Nat

/-- A span of time, in nanoseconds. -/
abbrev Duration := Nat

/-- The bit set of the `bitflags!` declaration; bits without a name are possible in it. -/
structure RightsMask where
  bits : BitVec 32
deriving DecidableEq, Repr

namespace RightsMask

def read : RightsMask := ⟨0b000001⟩
def write : RightsMask := ⟨0b000010⟩
def map : RightsMask := ⟨0b000100⟩
def exec : RightsMask := ⟨0b001000⟩
def grant : RightsMask := ⟨0b010000⟩
def revoke : RightsMask := ⟨0b100000⟩
def all : RightsMask := ⟨0b111111⟩

def contains (self other : RightsMask) : Bool := self.bits &&& other.bits == other.bits

end RightsMask

inductive Fault where
  | noSuchCapability
  | revoked
  | expired
  | insufficientRights
  | cannotEscalate
  | signatureInvalid
deriving DecidableEq, Repr

def minExpiry : Option Instant → Option Instant → Option Instant
  | some a, some b => some (min a b)
  | some a, none => some a
  | none, some b => some b
  | none, none => none

structure CapabilityToken where
  tokenId : TokenId
  objectId : ObjectId
  rights : RightsMask
  generation : Nat
  origin : TrustBoundaryId
  expiry : Option Instant
deriving DecidableEq, Repr

/-- `is_expired`, at the clock reading `now`. -/
def CapabilityToken.isExpired (t : CapabilityToken) (now : Instant) : Bool :=
  t.expiry.any (· < now)

/-! ## The revocation graph -/

structure RevocationNode where
  parent : Option TokenId
  children : List TokenId
  liveGeneration : Nat
  objectId : ObjectId
  rights : RightsMask
deriving DecidableEq, Repr

def RevocationNode.bump (n : RevocationNode) : RevocationNode :=
  { n with liveGeneration := (n.liveGeneration + 1) % 2 ^ 64 }

structure RevocationGraph where
  nodes : HashMap TokenId RevocationNode

structure RevocationReceipt where
  revoked : TokenId
  descendantsInvalidated : Nat
deriving DecidableEq, Repr

namespace RevocationGraph

def empty : RevocationGraph := ⟨∅⟩

variable (g : RevocationGraph)

def insertRoot (id : TokenId) (objectId : ObjectId) (rights : RightsMask) : RevocationGraph :=
  ⟨g.nodes.insert id
    { parent := none, children := [], liveGeneration := 0, objectId := objectId, rights := rights }⟩

def insertChild (parent child : TokenId) (objectId : ObjectId) (rights : RightsMask) : RevocationGraph :=
  let nodes := g.nodes.modify parent fun n => { n with children := n.children ++ [child] }
  ⟨nodes.insert child
    { parent := some parent, children := [], liveGeneration := 0, objectId := objectId,
      rights := rights }⟩

def liveGeneration (id : TokenId) : Option Nat :=
  g.nodes[id]?.map (·.liveGeneration)

def matchesRecord (id : TokenId) (objectId : ObjectId) (rights : RightsMask) : Bool :=
  g.nodes[id]?.any fun n => n.objectId == objectId && n.rights == rights

def parentOf (id : TokenId) : Option TokenId :=
  g.nodes[id]?.bind (·.parent)

/-- The loop of `revoke`: the top of the stack is the head of the list, so `stack.extend(children)`
puts the last child on top. `none` is a loop still running when the fuel is spent. -/
def revokeLoop : Nat → RevocationGraph → List TokenId → Nat → Bool → Option (RevocationGraph × Nat)
  | _, g, [], descendants, _ => some (g, descendants)
  | 0, _, _ :: _, _, _ => none
  | fuel + 1, g, nodeId :: stack, descendants, first =>
    match g.nodes[nodeId]? with
    | none => revokeLoop fuel g stack descendants first
    | some node =>
      revokeLoop fuel ⟨g.nodes.insert nodeId node.bump⟩
        (node.children.reverse ++ stack) (if first then descendants else descendants + 1) false

/-- `revoke`. Each turn of the loop pops one node, so one more turn than there are nodes is enough
for a walk that meets no node twice. -/
def revoke (id : TokenId) : Option (RevocationGraph × RevocationReceipt) :=
  (revokeLoop (g.nodes.size + 1) g [id] 0 true).map fun (g', descendants) =>
    (g', { revoked := id, descendantsInvalidated := descendants })

end RevocationGraph

/-! ## The monitor -/

structure CapabilityMonitor where
  graph : RevocationGraph
  nextObjectId : Nat

namespace CapabilityMonitor

def new : CapabilityMonitor := ⟨.empty, 0⟩

variable (m : CapabilityMonitor)

def newObject : ObjectId × CapabilityMonitor :=
  (m.nextObjectId, { m with nextObjectId := m.nextObjectId + 1 })

/-- `mint_root`, with `next` the value of the process's token counter. -/
def mintRoot (next : TokenId) (now : Instant) (rights : RightsMask)
    (origin : TrustBoundaryId) (ttl : Option Duration) : CapabilityToken × CapabilityMonitor :=
  let (objectId, m) := m.newObject
  ({ tokenId := next, objectId := objectId, rights := rights, generation := 0, origin := origin,
     expiry := ttl.map (now + ·) },
    { m with graph := m.graph.insertRoot next objectId rights })

def isLive (now : Instant) (t : CapabilityToken) : Bool :=
  m.graph.matchesRecord t.tokenId t.objectId t.rights &&
    m.graph.liveGeneration t.tokenId == some t.generation && !t.isExpired now

def checkLive (now : Instant) (t : CapabilityToken) : Except Fault Unit :=
  if !m.graph.matchesRecord t.tokenId t.objectId t.rights then .error .noSuchCapability
  else match m.graph.liveGeneration t.tokenId with
    | none => .error .noSuchCapability
    | some live =>
      if live ≠ t.generation then .error .revoked
      else if t.isExpired now then .error .expired
      else .ok ()

/-- `cap_derive`: `now₁` is read by the liveness check, `now₂` for the requested expiry. -/
def capDerive (next : TokenId) (now₁ now₂ : Instant)
    (parent : CapabilityToken) (rights : RightsMask) (ttl : Option Duration)
    (newOrigin : TrustBoundaryId) : Except Fault (CapabilityToken × CapabilityMonitor) := do
  m.checkLive now₁ parent
  if !parent.rights.contains rights then
    throw .cannotEscalate
  pure ({ tokenId := next, objectId := parent.objectId, rights := rights, generation := 0,
          origin := newOrigin, expiry := minExpiry parent.expiry (ttl.map (now₂ + ·)) },
    { m with graph := m.graph.insertChild parent.tokenId next parent.objectId rights })

variable (now : Instant) (t : CapabilityToken)

def capRevoke : Option (CapabilityMonitor × RevocationReceipt) :=
  (m.graph.revoke t.tokenId).map fun (graph, receipt) => ({ m with graph := graph }, receipt)

def parentOf : Option TokenId :=
  m.graph.parentOf t.tokenId

def checkRightsOkResult (now : Instant) (t : CapabilityToken)
    (required : RightsMask) : Except Fault Unit := do
  m.checkLive now t
  if !t.rights.contains required then
    throw .insufficientRights

/-! ## What the checks say -/

theorem matchesRecord_iff (g : RevocationGraph) (id : TokenId) (objectId : ObjectId)
    (rights : RightsMask) : g.matchesRecord id objectId rights = true ↔
      ∃ n, g.nodes[id]? = some n ∧ n.objectId = objectId ∧ n.rights = rights := by
  simp [RevocationGraph.matchesRecord, Option.any_eq_true]

theorem checkLive_eq_ok_iff : m.checkLive now t = .ok () ↔ m.isLive now t = true := by
  unfold checkLive isLive
  cases hrec : m.graph.matchesRecord t.tokenId t.objectId t.rights with
  | false => simp
  | true =>
    cases hgen : m.graph.liveGeneration t.tokenId with
    | none => simp
    | some live =>
      by_cases hg : live = t.generation
      · cases hexp : t.isExpired now <;> simp [hg]
      · simp [hg]

theorem isLive_iff :
    m.isLive now t = true ↔ (∃ n, m.graph.nodes[t.tokenId]? = some n ∧ n.objectId = t.objectId ∧
      n.rights = t.rights ∧ n.liveGeneration = t.generation) ∧ t.isExpired now = false := by
  simp only [isLive, Bool.and_eq_true, matchesRecord_iff, RevocationGraph.liveGeneration, beq_iff_eq,
    Bool.not_eq_true', Option.map_eq_some_iff]
  constructor
  · rintro ⟨⟨⟨n, hn, ho, hr⟩, n', hn', hg⟩, he⟩
    rw [hn] at hn'
    cases hn'
    exact ⟨⟨n, hn, ho, hr, hg⟩, he⟩
  · rintro ⟨⟨n, hn, ho, hr, hg⟩, he⟩
    exact ⟨⟨⟨n, hn, ho, hr⟩, n, hn, hg⟩, he⟩

theorem capDerive_eq_ok_iff (next : TokenId) (now₁ now₂ : Instant) (parent : CapabilityToken)
    (rights : RightsMask) (ttl : Option Duration) (newOrigin : TrustBoundaryId) (t : CapabilityToken)
    (m' : CapabilityMonitor) : m.capDerive next now₁ now₂ parent rights ttl newOrigin = .ok (t, m') ↔
      m.isLive now₁ parent = true ∧ parent.rights.contains rights = true ∧
      t = { tokenId := next, objectId := parent.objectId, rights := rights, generation := 0,
            origin := newOrigin, expiry := minExpiry parent.expiry (ttl.map (now₂ + ·)) } ∧
      m' = { m with graph := m.graph.insertChild parent.tokenId next parent.objectId rights } := by
  unfold capDerive
  rw [← checkLive_eq_ok_iff]
  cases m.checkLive now₁ parent with
  | error e => simp [bind, Except.bind]
  | ok u =>
    cases parent.rights.contains rights with
    | false => simp [bind, Except.bind, throw, throwThe, MonadExceptOf.throw]
    | true => simp [bind, Except.bind, pure, Except.pure, eq_comm]

theorem checkRightsOkResult_eq_ok_iff (required : RightsMask) :
    m.checkRightsOkResult now t required = .ok () ↔
      m.isLive now t = true ∧ t.rights.contains required = true := by
  unfold checkRightsOkResult
  rw [← checkLive_eq_ok_iff]
  cases m.checkLive now t with
  | error e => simp [bind, Except.bind]
  | ok u =>
    cases t.rights.contains required with
    | false => simp [bind, Except.bind, throw, throwThe, MonadExceptOf.throw]
    | true => simp [bind, Except.bind, pure, Except.pure]

end CapabilityMonitor

end Hyperion.Capability
