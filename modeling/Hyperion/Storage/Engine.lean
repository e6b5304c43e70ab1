import Hyperion.Lib.LastWins
import Hyperion.Storage.Wal

/-!
# The storage engine

`Inner` is what `StorageEngine` keeps in memory: the two materialized views and the two counters.
The engine's file stands beside it; closing an engine leaves only the file. The object counter is a
`u64` that wraps, since callers may name any object id; iteration over a hash map happens in an order
that the caller of the model chooses.
-/

namespace Hyperion.Storage
open Lib Capability

/-- Who calls: the monitor, the token presented, and the clock reading of the rights check. -/
structure Caller where
  monitor : CapabilityMonitor
  token : CapabilityToken
  now : Instant

def Caller.authorize (c : Caller) (required : RightsMask) : Except StorageError Unit :=
  match c.monitor.checkRightsOkResult c.now c.token required with
  | .ok () => .ok ()
  | .error _ => .error .unauthorized

def Caller.root : Caller :=
  let (token, monitor) := CapabilityMonitor.new.mintRoot 1 0 .all 7 none
  ⟨monitor, token, 0⟩

theorem Caller.root_write : Caller.root.authorize .write = .ok () := rfl

theorem Caller.root_read : Caller.root.authorize .read = .ok () := rfl

structure Inner (V : Type) where
  metadata : HashMap ObjectId V
  versionPointer : HashMap ObjectId VersionId
  versionChain : HashMap VersionId (VersionRecord V)
  nextObjectId : Nat
  nextVersionId : Nat

structure StorageEngine (V : Type) where
  file : List UInt8
  inner : Inner V

section
variable {V : Type}

namespace Inner

def empty : Inner V := ⟨∅, ∅, ∅, 0, 0⟩

variable (i : Inner V)

def commit (record : WalRecord V) : Inner V :=
  { i with
    metadata := i.metadata.insert record.objectId record.metadata
    versionPointer := i.versionPointer.insert record.objectId record.newVersion
    versionChain := i.versionChain.insert record.newVersion
      { objectId := record.objectId, parentVersion := record.prevVersion,
        metadata := record.metadata } }

def replayRecord (record : WalRecord V) : Inner V :=
  { i.commit record with
    nextObjectId := max i.nextObjectId ((record.objectId + 1) % 2 ^ 64)
    nextVersionId := max i.nextVersionId (record.newVersion + 1) }

/-- The views and counters that `open_impl` rebuilds from the records of a log. -/
def rebuild (log : List (WalRecord V)) : Inner V := log.foldl replayRecord empty

/-- The object a write goes to: the named one, or a new one from the counter. -/
def allocate : Option ObjectId → ObjectId × Inner V
  | some objectId => (objectId, i)
  | none => (i.nextObjectId, { i with nextObjectId := (i.nextObjectId + 1) % 2 ^ 64 })

/-- The records `compact` writes: the head of every object, in the order of iteration. -/
def headRecords (null : V) (origin : Nat) (order : List (ObjectId × VersionId)) : List (WalRecord V) :=
  order.map fun (objectId, headVersion) =>
    { objectId := objectId, prevVersion := none, newVersion := headVersion,
      metadata := i.metadata[objectId]?.getD null, actorOrigin := origin }

def compacted : Inner V :=
  let heads := i.versionPointer.toList.map (·.2)
  { i with
    versionChain := (i.versionChain.filter fun id _ => heads.contains id).map fun _ record =>
      { record with parentVersion := none } }

/-- The records `purge_object` writes: the versions of every other object, by version. The sort makes
the order of iteration over the chain irrelevant. -/
def survivingRecords (origin : Nat) (objectId : ObjectId) : List (WalRecord V) :=
  let surviving := i.versionChain.toList.filter fun (_, record) => record.objectId != objectId
  let sorted := surviving.mergeSort fun a b => a.1 ≤ b.1
  sorted.map fun (versionId, record) =>
    { objectId := record.objectId, prevVersion := record.parentVersion, newVersion := versionId,
      metadata := record.metadata, actorOrigin := origin }

def purged (objectId : ObjectId) : Inner V :=
  { i with
    metadata := i.metadata.erase objectId
    versionPointer := i.versionPointer.erase objectId
    versionChain := i.versionChain.filter fun _ record => record.objectId != objectId }

def knows (objectId : ObjectId) : Bool :=
  i.metadata.contains objectId || i.versionChain.toList.any fun (_, record) => record.objectId == objectId

end Inner

namespace StorageEngine
variable (C : Codec V)

def openImpl (file : List UInt8) : Except StorageError (StorageEngine V) :=
  (replay C file).map fun records => { file := file, inner := Inner.rebuild records }

variable {C} in
theorem openImpl_of_replay {file : List UInt8} {records : List (WalRecord V)} (h : replay C file = .ok records) :
    openImpl C file = .ok ⟨file, .rebuild records⟩ := by
  rw [openImpl, h]
  rfl

variable (e : StorageEngine V)

def putObject (caller : Caller) (objectId : Option ObjectId)
    (expectedVersion : Option VersionId) (metadata : V) (nonce : C.Nonce) (io : Io) :
    Except StorageError (ObjectId × VersionId) × StorageEngine V :=
  match caller.authorize .write with
  | .error err => (.error err, e)
  | .ok () =>
    let (objectId, inner) := e.inner.allocate objectId
    let current := inner.versionPointer[objectId]?
    if current ≠ expectedVersion then
      (.error (.concurrentWriteConflict objectId expectedVersion current), { e with inner := inner })
    else
      let record : WalRecord V :=
        { objectId := objectId, prevVersion := current, newVersion := inner.nextVersionId,
          metadata := metadata, actorOrigin := caller.token.origin }
      match appendAndFsync C e.file nonce record io with
      | (.error err, file) => (.error err, { file := file, inner := inner })
      | (.ok (), file) =>
        (.ok (objectId, inner.nextVersionId),
          { file := file, inner := { inner.commit record with nextVersionId := inner.nextVersionId + 1 } })

def getObject (caller : Caller) (objectId : ObjectId) (version : Option VersionId) : Except StorageError V :=
  match caller.authorize .read with
  | .error err => .error err
  | .ok () =>
    match version with
    | some v =>
      match e.inner.versionChain[v]? with
      | some record => if record.objectId = objectId then .ok record.metadata else .error .notFound
      | none => .error .notFound
    | none =>
      match e.inner.metadata[objectId]? with
      | some metadata => .ok metadata
      | none => .error .notFound

def currentVersion (objectId : ObjectId) : Option VersionId :=
  e.inner.versionPointer[objectId]?

/-- `compact`, with `order` the order of iteration over the version pointers and `null` the JSON null. -/
def compact (caller : Caller) (null : V) (order : List (ObjectId × VersionId))
    (nonce : Nat → C.Nonce) : Except StorageError Nat × StorageEngine V :=
  match caller.authorize .write with
  | .error err => (.error err, e)
  | .ok () =>
    let records := e.inner.headRecords null caller.token.origin order
    let inner := e.inner.compacted
    (.ok (e.inner.versionChain.size - inner.versionChain.size),
      { file := rewritten C nonce records, inner := inner })

def purgeObject (caller : Caller) (objectId : ObjectId)
    (nonce : Nat → C.Nonce) : Except StorageError Nat × StorageEngine V :=
  match caller.authorize .write with
  | .error err => (.error err, e)
  | .ok () =>
    if !e.inner.knows objectId then (.error .notFound, e)
    else
      let purgedCount :=
        (e.inner.versionChain.toList.filter fun (_, record) => record.objectId == objectId).length
      (.ok purgedCount,
        { file := rewritten C nonce (e.inner.survivingRecords caller.token.origin objectId),
          inner := e.inner.purged objectId })

/-! ## What a call can do -/

def written (caller : Caller) (objectId : Option ObjectId) (metadata : V) : WalRecord V where
  objectId := (e.inner.allocate objectId).1
  prevVersion := e.inner.versionPointer[(e.inner.allocate objectId).1]?
  newVersion := e.inner.nextVersionId
  metadata := metadata
  actorOrigin := caller.token.origin

theorem allocate_versionPointer (i : Inner V) (objectId : Option ObjectId) :
    (i.allocate objectId).2.versionPointer = i.versionPointer := by
  cases objectId <;> rfl

theorem allocate_nextVersionId (i : Inner V) (objectId : Option ObjectId) :
    (i.allocate objectId).2.nextVersionId = i.nextVersionId := by
  cases objectId <;> rfl

theorem authorize_error {caller : Caller} {required : RightsMask} {err : StorageError}
    (h : caller.authorize required = .error err) : err = .unauthorized := by
  unfold Caller.authorize at h
  split at h
  · cases h
  · cases h
    rfl

section
variable (caller : Caller) (objectId : Option ObjectId) (expectedVersion : Option VersionId) (metadata : V)
  (nonce : C.Nonce) (io : Io)

inductive PutOutcome : Except StorageError (ObjectId × VersionId) × StorageEngine V → Prop
  | unauthorized (hauth : caller.authorize .write ≠ .ok ()) : PutOutcome (.error .unauthorized, e)
  | conflict (hauth : caller.authorize .write = .ok ())
      (hcas : e.inner.versionPointer[(e.inner.allocate objectId).1]? ≠ expectedVersion) :
      PutOutcome (.error (.concurrentWriteConflict (e.inner.allocate objectId).1 expectedVersion
            e.inner.versionPointer[(e.inner.allocate objectId).1]?),
          { e with inner := (e.inner.allocate objectId).2 })
  | failed (hauth : caller.authorize .write = .ok ())
      (hcas : e.inner.versionPointer[(e.inner.allocate objectId).1]? = expectedVersion)
      (written : Nat) (hio : io = .failed written) :
      PutOutcome (.error .wal,
          { file := e.file ++
              (C.line nonce (e.written caller objectId metadata) ++ [newline]).take written,
            inner := (e.inner.allocate objectId).2 })
  | stored (hauth : caller.authorize .write = .ok ())
      (hcas : e.inner.versionPointer[(e.inner.allocate objectId).1]? = expectedVersion)
      (hio : io = .completed) :
      PutOutcome (.ok ((e.inner.allocate objectId).1, e.inner.nextVersionId),
          { file := e.file ++ (C.line nonce (e.written caller objectId metadata) ++ [newline]),
            inner := { (e.inner.allocate objectId).2.commit (e.written caller objectId metadata) with
              nextVersionId := e.inner.nextVersionId + 1 } })

variable {C e caller objectId expectedVersion metadata nonce io} in
theorem putObject_outcome {p} (h : e.putObject C caller objectId expectedVersion metadata nonce io = p) :
    PutOutcome C e caller objectId expectedVersion metadata nonce io p := by
  subst h
  unfold putObject
  cases hauth : caller.authorize .write with
  | error err =>
    rw [authorize_error hauth]
    exact .unauthorized (by rw [hauth]; exact fun h => nomatch h)
  | ok u =>
    simp only [allocate_versionPointer, allocate_nextVersionId]
    by_cases hcas : e.inner.versionPointer[(e.inner.allocate objectId).1]? = expectedVersion
    · rw [if_neg (not_not_intro hcas)]
      cases io with
      | completed => exact .stored hauth hcas rfl
      | failed written => exact .failed hauth hcas written rfl
    · rw [if_pos hcas]
      exact .conflict hauth hcas

end

section
variable {caller : Caller} (objectId : Option ObjectId) (expectedVersion : Option VersionId)
  (hauth : caller.authorize .write = .ok ())
  (hcas : e.inner.versionPointer[(e.inner.allocate objectId).1]? = expectedVersion) (metadata : V) (nonce : C.Nonce)
include hauth hcas

theorem putObject_eq_stored : e.putObject C caller objectId expectedVersion metadata nonce .completed =
      (.ok ((e.inner.allocate objectId).1, e.inner.nextVersionId),
        { file := e.file ++ (C.line nonce (e.written caller objectId metadata) ++ [newline]),
          inner := { (e.inner.allocate objectId).2.commit (e.written caller objectId metadata) with
            nextVersionId := e.inner.nextVersionId + 1 } }) := by
  generalize hput : e.putObject C caller objectId expectedVersion metadata nonce .completed = p
  cases putObject_outcome hput with
  | unauthorized hno => exact absurd hauth hno
  | conflict _ hno => exact absurd hcas hno
  | failed _ _ _ hio => cases hio
  | stored => rfl

theorem putObject_eq_failed (written : Nat) :
    e.putObject C caller objectId expectedVersion metadata nonce (.failed written) =
      (.error .wal,
        { file := e.file ++
            (C.line nonce (e.written caller objectId metadata) ++ [newline]).take written,
          inner := (e.inner.allocate objectId).2 }) := by
  generalize hput : e.putObject C caller objectId expectedVersion metadata nonce (.failed written) = p
  cases putObject_outcome hput with
  | unauthorized hno => exact absurd hauth hno
  | conflict _ hno => exact absurd hcas hno
  | failed _ _ _ hio =>
    cases hio
    rfl
  | stored _ _ hio => cases hio

end

theorem compact_cases (caller : Caller) (null : V) (order : List (ObjectId × VersionId))
    (nonce : Nat → C.Nonce) : (∃ err, e.compact C caller null order nonce = (.error err, e)) ∨
      ∃ n, e.compact C caller null order nonce =
        (.ok n, { file := rewritten C nonce (e.inner.headRecords null caller.token.origin order),
                  inner := e.inner.compacted }) := by
  unfold compact
  cases caller.authorize .write with
  | error err => exact .inl ⟨err, rfl⟩
  | ok u => exact .inr ⟨_, rfl⟩

theorem purgeObject_cases (caller : Caller) (objectId : ObjectId) (nonce : Nat → C.Nonce) :
    (∃ err, e.purgeObject C caller objectId nonce = (.error err, e)) ∨
      ∃ n, e.purgeObject C caller objectId nonce =
        (.ok n, { file := rewritten C nonce (e.inner.survivingRecords caller.token.origin objectId),
                  inner := e.inner.purged objectId }) := by
  unfold purgeObject
  cases caller.authorize .write with
  | error err => exact .inl ⟨err, rfl⟩
  | ok u =>
    cases e.inner.knows objectId with
    | false => exact .inl ⟨_, rfl⟩
    | true => exact .inr ⟨_, rfl⟩

end StorageEngine

end

end Hyperion.Storage
