import Hyperion.Storage.Engine

/-!
# The event bus

`hyperion-events`: topics with a sequence number each, and subscriptions with a mailbox each. `publish`
runs in two phases: under the lock of the bus it assigns the number and takes down the matching
mailboxes (`assign`); without the lock it then delivers to one of them after the other (`deliver`).

A mailbox outlives its entry in the registry for as long as somebody holds it, so mailboxes and
registry are kept apart. A `Durable` subscription appends to the log file that belongs to its id.
`serde_json` on events is a parameter (`EventSerde`). Numbers are unbounded.
-/

namespace Hyperion.Events
open Lib Capability Storage

/-! ## Topics and events -/

inductive TopicKind
  | objectChanged
  | agentProgress
  | deviceLifecycle
  | workspaceTrigger
  | custom
deriving DecidableEq, Repr

inductive SubjectId
  | object (id : Nat)
  | objectSubtree (id : Nat)
  | agent (id : Nat)
  | intent (id : Nat)
  | device (id : Nat)
deriving DecidableEq, Repr

def SubjectId.raw : SubjectId → Nat
  | .object id => id
  | .objectSubtree id => id
  | .agent id => id
  | .intent id => id
  | .device id => id

structure Topic where
  kind : TopicKind
  subject : SubjectId
  schemaId : String
deriving DecidableEq, Repr

inductive EventPayload (J : Type)
  | inline (value : J)
  | objectRef (object version : Nat)
deriving DecidableEq, Repr

structure Event (J : Type) where
  topic : Topic
  seq : Nat
  timestamp : Nat
  payload : EventPayload J
  ancestors : List Nat
deriving DecidableEq, Repr

inductive DeliveryClass
  | atMostOnce
  | atLeastOnce
deriving DecidableEq, Repr

inductive BackpressurePolicy
  | coalesce
  | buffer (capacity : Nat)
  | durable
  | block
deriving DecidableEq, Repr

abbrev SubscriptionId := Nat

inductive TopicPattern
  | exact (topic : Topic)
  | subtree (kind : TopicKind) (root : SubjectId)
  | kindScoped (kind : TopicKind)
deriving DecidableEq, Repr

inductive StorageFault
  | noDurableDir
  | io
deriving DecidableEq, Repr

inductive EventFault
  | unauthorized
  | incompatibleDeliveryBackpressure (delivery : DeliveryClass) (backpressure : BackpressurePolicy)
  | noSuchSubscription
  | ackNotApplicable
  | notDurable
  | storageError (fault : StorageFault)
deriving DecidableEq, Repr

section
variable {J : Type}

def TopicPattern.matchesEvent : TopicPattern → Event J → Bool
  | .exact topic, event => event.topic == topic
  | .subtree kind root, event =>
    event.topic.kind == kind &&
      (event.topic.subject.raw == root.raw || event.ancestors.contains root.raw)
  | .kindScoped kind, event => event.topic.kind == kind

def TopicPattern.isKindScoped : TopicPattern → Bool
  | .kindScoped _ => true
  | _ => false

def validCombination : DeliveryClass → BackpressurePolicy → Bool
  | .atMostOnce, .coalesce => true
  | .atLeastOnce, .durable => true
  | _, .buffer _ => true
  | _, .block => true
  | _, _ => false

/-! ## Authorisation -/

def authorizePublish (caller : Caller) (owner : TrustBoundaryId) : Except EventFault Unit :=
  match caller.monitor.checkRightsOkResult caller.now caller.token .write with
  | .error _ => .error .unauthorized
  | .ok () => if caller.token.origin ≠ owner then .error .unauthorized else .ok ()

def authorizeSubscribe (caller : Caller) (owner : TrustBoundaryId) (pattern : TopicPattern) :
    Except EventFault Unit :=
  match caller.monitor.checkRightsOkResult caller.now caller.token .read with
  | .error _ => .error .unauthorized
  | .ok () =>
    if pattern.isKindScoped then
      if caller.token.rights.contains .grant then .ok () else .error .unauthorized
    else if caller.token.origin = owner then .ok ()
    else .error .unauthorized

/-! ## Mailboxes -/

structure SubscriberState (J : Type) where
  pattern : TopicPattern
  delivery : DeliveryClass
  backpressure : BackpressurePolicy
  holder : CapabilityToken
  queue : List (Event J)
  coalesced : Topic → Option (Event J)
  dropped : Nat
  lastAckedSeq : Nat

def blockCapacity : Nat := 64

namespace SubscriberState

def push (st : SubscriberState J) (event : Event J) : SubscriberState J :=
  { st with queue := st.queue ++ [event] }

/-- `deliver` on the state of a mailbox; `none` is a `Block` mailbox without room, where the publisher
waits. The append of a `Durable` mailbox is `appendDurable`. -/
def deliver (st : SubscriberState J) (event : Event J) : Option (SubscriberState J) :=
  match st.backpressure with
  | .coalesce => some { st with coalesced := Function.update st.coalesced event.topic (some event) }
  | .durable => some (st.push event)
  | .buffer capacity =>
    if capacity ≤ st.queue.length then
      some (push { st with queue := st.queue.tail, dropped := st.dropped + 1 } event)
    else some (st.push event)
  | .block => if blockCapacity ≤ st.queue.length then none else some (st.push event)

/-- `take_ready`, where `first` is the topic that the iteration over the slots yields first. -/
def takeReady (st : SubscriberState J) (first : Option Topic) : Option (Event J) × SubscriberState J :=
  match st.backpressure with
  | .coalesce =>
    match first with
    | none => (none, st)
    | some topic => (st.coalesced topic, { st with coalesced := Function.update st.coalesced topic none })
  | _ => (st.queue.head?, { st with queue := st.queue.tail })

end SubscriberState

/-- `serde_json::to_value` and `serde_json::from_value` on events. -/
structure EventSerde (J : Type) where
  toValue : Event J → Option J
  fromValue : J → Option (Event J)

def durableRecord (st : SubscriberState J) (event : Event J) (metadata : J) : WalRecord J where
  objectId := 0
  prevVersion := if event.seq > 1 then some (event.seq - 1) else none
  newVersion := event.seq
  metadata := metadata
  actorOrigin := st.holder.origin

/-- `append_durable`: the log file after it. What fails is only reported on the error stream. -/
def appendDurable (S : EventSerde J) (C : Codec J) (file : List UInt8) (st : SubscriberState J)
    (event : Event J) (nonce : C.Nonce) (io : Io) : List UInt8 :=
  match S.toValue event with
  | none => file
  | some metadata => (appendAndFsync C file nonce (durableRecord st event metadata) io).2

/-! ## The bus -/

structure BusState (J : Type) where
  subscriptions : List SubscriptionId
  mailboxes : SubscriptionId → Option (SubscriberState J)
  nextSeq : Topic → Nat
  nextSubId : Nat
  durableDir : Bool

namespace BusState

def new (durableDir : Bool) : BusState J := ⟨[], fun _ => none, fun _ => 0, 1, durableDir⟩

variable (bus : BusState J)

def matching (event : Event J) : List SubscriptionId :=
  bus.subscriptions.filter fun id =>
    match bus.mailboxes id with
    | none => false
    | some st => st.pattern.matchesEvent event

/-- The first phase of `publish`: the event with the next number of its topic. -/
def assign (topic : Topic) (timestamp : Nat) (payload : EventPayload J)
    (ancestors : List Nat) : Event J × BusState J :=
  let seq := bus.nextSeq topic + 1
  (⟨topic, seq, timestamp, payload, ancestors⟩,
    { bus with nextSeq := Function.update bus.nextSeq topic seq })

/-- `subscribe`; `opened` says whether the log file of a `Durable` subscription could be opened. -/
def subscribe (caller : Caller) (owner : TrustBoundaryId) (pattern : TopicPattern)
    (delivery : DeliveryClass) (backpressure : BackpressurePolicy) (opened : Bool) :
    Except EventFault SubscriptionId × BusState J :=
  if !validCombination delivery backpressure then
    (.error (.incompatibleDeliveryBackpressure delivery backpressure), bus)
  else
    match authorizeSubscribe caller owner pattern with
    | .error e => (.error e, bus)
    | .ok () =>
      let id := bus.nextSubId
      let bus := { bus with nextSubId := id + 1 }
      if backpressure = .durable ∧ bus.durableDir = false then (.error (.storageError .noDurableDir), bus)
      else if backpressure = .durable ∧ opened = false then (.error (.storageError .io), bus)
      else
        let st : SubscriberState J := ⟨pattern, delivery, backpressure, caller.token, [], fun _ => none, 0, 0⟩
        (.ok id, { bus with
          subscriptions := bus.subscriptions ++ [id]
          mailboxes := Function.update bus.mailboxes id (some st) })

def unsubscribe (id : SubscriptionId) : Except EventFault Unit × BusState J :=
  if id ∈ bus.subscriptions then
    (.ok (), { bus with subscriptions := bus.subscriptions.filter (· ≠ id) })
  else (.error .noSuchSubscription, bus)

def mailboxOf (id : SubscriptionId) : Except EventFault (SubscriberState J) :=
  if id ∈ bus.subscriptions then
    match bus.mailboxes id with
    | none => .error .noSuchSubscription
    | some st => .ok st
  else .error .noSuchSubscription

def ack (id : SubscriptionId) (seq : Nat) : Except EventFault Unit × BusState J :=
  match bus.mailboxOf id with
  | .error e => (.error e, bus)
  | .ok st =>
    if st.delivery ≠ .atLeastOnce then (.error .ackNotApplicable, bus)
    else
      let st := if st.lastAckedSeq < seq then { st with lastAckedSeq := seq } else st
      (.ok (), { bus with mailboxes := Function.update bus.mailboxes id (some st) })

/-- `replay_from`, on the log file of the subscription. -/
def replayFrom (S : EventSerde J) (C : Codec J) (bus : BusState J) (file : List UInt8)
    (id : SubscriptionId) (since : Nat) : Except EventFault (List (Event J)) :=
  match bus.mailboxOf id with
  | .error e => .error e
  | .ok st =>
    if st.backpressure ≠ .durable then .error .notDurable
    else
      match replay C file with
      | .error _ => .error (.storageError .io)
      | .ok records =>
        let events := (records.filterMap fun r => S.fromValue r.metadata).filter fun e => since < e.seq
        .ok (events.insertionSort fun a b => a.seq ≤ b.seq)

def droppedCount (id : SubscriptionId) : Except EventFault Nat :=
  (bus.mailboxOf id).map SubscriberState.dropped

end BusState

end

end Hyperion.Events
