import Hyperion.Lib.Run
import Hyperion.Events.Bus

/-!
# Runs of the event bus

Any number of publishers and subscribers use one bus, and the bus is replaced by a new one over the
same directory of log files (`restart`). Beside the bus and the files a `System` keeps what happened:
every event published, with the mailboxes taken down for it, and which of the deliveries are still to
be made, which were made, what was received and what was acknowledged.
-/

namespace Hyperion.Events
open Lib Capability Storage List BusState

/-- An event published, the boundary of the token that published it, and the mailboxes it is for. -/
structure Publication (J : Type) where
  era : Nat
  publisher : TrustBoundaryId
  event : Event J
  recipients : List SubscriptionId

/-- The bus, its log files and what happened so far. Publications are referred to by their index;
`era` counts the restarts. -/
structure System (J : Type) where
  bus : BusState J
  files : SubscriptionId → List UInt8
  era : Nat
  published : List (Publication J)
  pending : List (SubscriptionId × Nat)
  delivered : List (SubscriptionId × Nat)
  received : List (SubscriptionId × Nat × Event J)
  acked : List (SubscriptionId × Nat)

section
variable {J : Type} {s s' : System J} {id : SubscriptionId}

def System.empty (durableDir : Bool) : System J :=
  ⟨.new durableDir, fun _ => [], 0, [], [], [], [], []⟩

inductive Op (C : Codec J)
  | subscribe (caller : Caller) (owner : TrustBoundaryId) (pattern : TopicPattern)
      (delivery : DeliveryClass) (backpressure : BackpressurePolicy) (opened : Bool)
  | publish (caller : Caller) (owner : TrustBoundaryId) (topic : Topic) (timestamp : Nat)
      (payload : EventPayload J) (ancestors : List Nat)
  | deliver (id : SubscriptionId) (n : Nat) (nonce : C.Nonce) (io : Io)
  | receive (id : SubscriptionId) (first : Option Topic)
  | ack (id : SubscriptionId) (n : Nat)
  | unsubscribe (id : SubscriptionId)
  | restart

def BusState.setMailbox (bus : BusState J) (id : SubscriptionId) (st : SubscriberState J) : BusState J :=
  { bus with mailboxes := Function.update bus.mailboxes id (some st) }

namespace System

def publish (s : System J) (caller : Caller) (owner : TrustBoundaryId) (topic : Topic) (timestamp : Nat)
    (payload : EventPayload J) (ancestors : List Nat) : System J :=
  match authorizePublish caller owner with
  | .error _ => s
  | .ok () =>
    let (event, bus) := s.bus.assign topic timestamp payload ancestors
    let recipients := s.bus.matching event
    { s with
      bus := bus
      published := s.published ++ [⟨s.era, caller.token.origin, event, recipients⟩]
      pending := s.pending ++ recipients.map fun id => (id, s.published.length) }

/-- The second phase of `publish` for one mailbox; it cannot run if the mailbox is full. -/
def deliver (S : EventSerde J) (C : Codec J) (s : System J) (id : SubscriptionId) (n : Nat)
    (nonce : C.Nonce) (io : Io) : Option (System J) := do
  guard ((id, n) ∈ s.pending)
  let p ← s.published[n]?
  let st ← s.bus.mailboxes id
  let st' ← st.deliver p.event
  some { s with
    bus := s.bus.setMailbox id st'
    files := if st.backpressure = .durable then
        Function.update s.files id (appendDurable S C (s.files id) st p.event nonce io)
      else s.files
    pending := s.pending.filter (· ≠ (id, n))
    delivered := s.delivered ++ [(id, n)] }

def receive (s : System J) (id : SubscriptionId) (first : Option Topic) : Option (System J) := do
  let st ← s.bus.mailboxes id
  let (event, st') := st.takeReady first
  some { s with
    bus := s.bus.setMailbox id st'
    received := s.received ++ event.toList.map fun e => (id, s.era, e) }

def hasReceived (s : System J) (id : SubscriptionId) (p : Publication J) : Bool :=
  s.received.any fun r =>
    r.1 = id ∧ r.2.1 = p.era ∧ r.2.2.topic = p.event.topic ∧ r.2.2.seq = p.event.seq

def ack (s : System J) (id : SubscriptionId) (n : Nat) : Option (System J) := do
  let p ← s.published[n]?
  guard (s.hasReceived id p = true)
  match s.bus.ack id p.event.seq with
  | (.error _, _) => some s
  | (.ok (), bus) => some { s with bus := bus, acked := s.acked ++ [(id, n)] }

/-- The bus is dropped, which needs that no call is in progress, and a new one is made. -/
def restart (s : System J) : Option (System J) := do
  guard (s.pending = [])
  some { s with bus := .new s.bus.durableDir, era := s.era + 1 }

end System

def Op.exec (S : EventSerde J) {C : Codec J} (s : System J) : Op C → Option (System J)
  | .subscribe caller owner pattern delivery backpressure opened =>
    some { s with bus := (s.bus.subscribe caller owner pattern delivery backpressure opened).2 }
  | .publish caller owner topic timestamp payload ancestors =>
    some (s.publish caller owner topic timestamp payload ancestors)
  | .deliver id n nonce io => s.deliver S C id n nonce io
  | .receive id first => s.receive id first
  | .ack id n => s.ack id n
  | .unsubscribe id => some { s with bus := (s.bus.unsubscribe id).2 }
  | .restart => s.restart

def Reached (S : EventSerde J) {C : Codec J} (durableDir : Bool)
    (ok : System J → Op C → Prop) : System J → Prop :=
  Relation.ReflTransGen (fun s s' => ∃ op, ok s op ∧ op.exec S s = some s') (.empty durableDir)

def runAll (S : EventSerde J) {C : Codec J} (s : System J) (ops : List (Op C)) : Option (System J) :=
  ops.foldlM (fun s op => op.exec S s) s

variable {S : EventSerde J} {st st' : SubscriberState J} {C : Codec J} {event : Event J}
  {owner : TrustBoundaryId} {bus : BusState J} {caller : Caller} {n : Nat}

theorem Reached.runAll {durableDir : Bool} {ok : System J → Op C → Prop}
    {ops : List (Op C)} (h : Reached S durableDir ok s)
    (hok : ∀ op ∈ ops, ∀ s, ok s op) (hrun : runAll S s ops = some s') : Reached S durableDir ok s' :=
  foldlM_invariant (fun op hop s _ h hexec => h.tail ⟨op, hok op hop s, hexec⟩) h hrun

/-! ## What the operations do -/

theorem authorizePublish_eq_ok
    (h : authorizePublish caller owner = .ok ()) : caller.token.origin = owner := by
  unfold authorizePublish at h
  split at h
  · exact nomatch h
  · split at h
    · exact nomatch h
    · next heq => exact not_not.mp heq

theorem authorizeSubscribe_eq_ok {pattern : TopicPattern}
    (h : authorizeSubscribe caller owner pattern = .ok ()) :
    (pattern.isKindScoped = true ∧ caller.token.rights.contains .grant = true) ∨
      (pattern.isKindScoped = false ∧ caller.token.origin = owner) := by
  unfold authorizeSubscribe at h
  split at h
  · exact nomatch h
  · split at h
    · next hkind =>
      split at h
      · next hgrant => exact .inl ⟨hkind, hgrant⟩
      · exact nomatch h
    · next hkind =>
      split at h
      · next horigin => exact .inr ⟨Bool.eq_false_iff.mpr hkind, horigin⟩
      · exact nomatch h

def SubscriberState.fresh (pattern : TopicPattern) (delivery : DeliveryClass)
    (backpressure : BackpressurePolicy) (holder : CapabilityToken) : SubscriberState J :=
  ⟨pattern, delivery, backpressure, holder, [], fun _ => none, 0, 0⟩

/-- A publication put on record: its number is the last of its topic, its deliveries are to be made. -/
def System.record (s : System J) (p : Publication J) : System J :=
  { s with
    bus := { s.bus with nextSeq := Function.update s.bus.nextSeq p.event.topic p.event.seq }
    published := s.published ++ [p]
    pending := s.pending ++ p.recipients.map fun id => (id, s.published.length) }

theorem getElem?_concat_eq_some {α : Type} {l : List α} {a b : α}
    (h : (l ++ [a])[n]? = some b) : l[n]? = some b ∨ n = l.length ∧ b = a := by
  rcases Nat.lt_or_ge n l.length with hlt | hge
  · exact .inl ((List.getElem?_append_left hlt).symm.trans h)
  · rw [List.getElem?_append_right hge] at h
    obtain ⟨hlt, heq⟩ := List.getElem?_eq_some_iff.mp h
    simp only [length_singleton, Nat.lt_one_iff] at hlt
    exact .inr ⟨by omega, by simpa [hlt] using heq.symm⟩

theorem mem_record_pending {s : System J} {p : Publication J} : (id, n) ∈ (s.record p).pending ↔
      (id, n) ∈ s.pending ∨ id ∈ p.recipients ∧ n = s.published.length := by
  simp [System.record, eq_comm]

theorem mem_matching (h : id ∈ bus.matching event) : ∃ st, bus.mailboxes id = some st ∧
      st.pattern.matchesEvent event = true := by
  obtain ⟨-, hmatch⟩ := mem_filter.mp h
  split at hmatch
  · exact nomatch hmatch
  · next st hst => exact ⟨st, hst, hmatch⟩

theorem setMailbox_self (bus : BusState J) (id : SubscriptionId) (st : SubscriberState J) :
    (bus.setMailbox id st).mailboxes id = some st :=
  Function.update_self _ _ _

theorem setMailbox_of_ne (bus : BusState J) {id i : SubscriptionId} (h : i ≠ id)
    (st : SubscriberState J) : (bus.setMailbox id st).mailboxes i = bus.mailboxes i :=
  Function.update_of_ne h _ _

theorem setMailbox_eq_some {id i : SubscriptionId} {st x : SubscriberState J}
    (h : (bus.setMailbox id st).mailboxes i = some x) : i = id ∧ x = st ∨ i ≠ id ∧
      bus.mailboxes i = some x := by
  by_cases hi : i = id
  · subst hi
    rw [setMailbox_self] at h
    exact .inl ⟨rfl, (Option.some.inj h).symm⟩
  · rw [setMailbox_of_ne _ hi] at h
    exact .inr ⟨hi, h⟩

theorem of_guard_eq_some {p : Prop} [Decidable p] {u : Unit} (h : (guard p : Option Unit) = some u) :
    p := by
  unfold guard at h
  split at h
  · assumption
  · exact nomatch h

/-- What an operation does. `aside` is all that leaves the mailboxes and the records as they are. -/
inductive Effect (S : EventSerde J) {C : Codec J} (s : System J) : Op C → System J → Prop
  | aside {op : Op C} (ids : List SubscriptionId) {next : Nat} (hnext : s.bus.nextSubId ≤ next) :
      Effect S s op { s with bus := { s.bus with subscriptions := ids, nextSubId := next } }
  | subscribed {caller : Caller} {owner : TrustBoundaryId} {pattern : TopicPattern}
      {delivery : DeliveryClass} {backpressure : BackpressurePolicy} {opened : Bool}
      (hauth : authorizeSubscribe caller owner pattern = .ok ()) :
      Effect S s (.subscribe caller owner pattern delivery backpressure opened) { s with
        bus := BusState.setMailbox { s.bus with
          nextSubId := s.bus.nextSubId + 1
          subscriptions := s.bus.subscriptions ++ [s.bus.nextSubId] } s.bus.nextSubId
            (.fresh pattern delivery backpressure caller.token) }
  | recorded {caller : Caller} {owner : TrustBoundaryId} {topic : Topic} {timestamp : Nat}
      {payload : EventPayload J} {ancestors : List Nat} (p : Publication J)
      (hauth : authorizePublish caller owner = .ok ()) (hera : p.era = s.era)
      (hpublisher : p.publisher = caller.token.origin)
      (hevent : p.event = ⟨topic, s.bus.nextSeq topic + 1, timestamp, payload, ancestors⟩)
      (hrecipients : p.recipients = s.bus.matching p.event) :
      Effect S s (.publish caller owner topic timestamp payload ancestors) (s.record p)
  | delivered {id : SubscriptionId} {n : Nat} {nonce : C.Nonce} {io : Io} {p : Publication J}
      {st st' : SubscriberState J} (hpending : (id, n) ∈ s.pending) (hp : s.published[n]? = some p)
      (hst : s.bus.mailboxes id = some st) (hdeliver : st.deliver p.event = some st') :
      Effect S s (.deliver id n nonce io) { s with
        bus := s.bus.setMailbox id st'
        files := if st.backpressure = .durable then
            Function.update s.files id (appendDurable S C (s.files id) st p.event nonce io)
          else s.files
        pending := s.pending.filter (· ≠ (id, n))
        delivered := s.delivered ++ [(id, n)] }
  | received {id : SubscriptionId} {first : Option Topic} {st : SubscriberState J}
      (hst : s.bus.mailboxes id = some st) : Effect S s (.receive id first) { s with
        bus := s.bus.setMailbox id (st.takeReady first).2
        received := s.received ++ (st.takeReady first).1.toList.map fun e => (id, s.era, e) }
  | acked {id : SubscriptionId} {n : Nat} {p : Publication J} {st : SubscriberState J}
      (hp : s.published[n]? = some p) (hreceived : s.hasReceived id p = true)
      (hst : s.bus.mailboxes id = some st) : Effect S s (.ack id n) { s with
        bus := s.bus.setMailbox id
          (if st.lastAckedSeq < p.event.seq then { st with lastAckedSeq := p.event.seq } else st)
        acked := s.acked ++ [(id, n)] }
  | restarted (hpending : s.pending = []) :
      Effect S s .restart { s with bus := .new s.bus.durableDir, era := s.era + 1 }

theorem subscribe_effect (s : System J) (caller : Caller)
    (owner : TrustBoundaryId) (pattern : TopicPattern) (delivery : DeliveryClass)
    (backpressure : BackpressurePolicy) (opened : Bool) :
    Effect S s (.subscribe caller owner pattern delivery backpressure opened : Op C) { s with
      bus := (s.bus.subscribe caller owner pattern delivery backpressure opened).2 } := by
  unfold subscribe
  split
  · exact .aside s.bus.subscriptions le_rfl
  · split
    · exact .aside s.bus.subscriptions le_rfl
    · next hauth =>
      dsimp only
      split
      · exact .aside s.bus.subscriptions (Nat.le_succ _)
      · split
        · exact .aside s.bus.subscriptions (Nat.le_succ _)
        · exact .subscribed hauth

theorem ack_effect (h : s.ack id n = some s') :
    Effect S s (.ack id n : Op C) s' := by
  simp only [System.ack, bind, Option.bind_eq_some_iff] at h
  obtain ⟨p, hp, u, hreceived, hack⟩ := h
  have hmem := of_guard_eq_some hreceived
  unfold BusState.ack BusState.mailboxOf at hack
  split at hack
  · cases hack
    exact .aside s.bus.subscriptions le_rfl
  · next bus hok =>
    split at hok
    · exact nomatch hok
    · next st hst =>
      split at hok
      · exact nomatch hok
      · cases hok
        split at hst
        · split at hst
          · exact nomatch hst
          · next hst' =>
            cases hst
            cases hack
            exact .acked hp hmem hst'
        · exact nomatch hst

theorem exec_effect {op : Op C} (h : op.exec S s = some s') :
    Effect S s op s' := by
  cases op with
  | subscribe caller owner pattern delivery backpressure opened =>
    obtain rfl := Option.some.inj h
    exact subscribe_effect s caller owner pattern delivery backpressure opened
  | publish caller owner topic timestamp payload ancestors =>
    obtain rfl := Option.some.inj h
    unfold System.publish
    split
    · exact .aside s.bus.subscriptions le_rfl
    · next hauth => exact .recorded ⟨s.era, caller.token.origin, _, _⟩ hauth rfl rfl rfl rfl
  | deliver id n nonce io =>
    simp only [Op.exec, System.deliver, bind, Option.bind_eq_some_iff] at h
    obtain ⟨u, hpending, p, hp, st, hst, st', hdeliver, hs'⟩ := h
    cases hs'
    exact .delivered (of_guard_eq_some hpending) hp hst hdeliver
  | receive id first =>
    simp only [Op.exec, System.receive, bind, Option.bind_eq_some_iff] at h
    obtain ⟨st, hst, hs'⟩ := h
    cases hs'
    exact .received hst
  | ack id n => exact ack_effect h
  | unsubscribe id =>
    obtain rfl := Option.some.inj h
    unfold unsubscribe
    split
    · exact .aside _ le_rfl
    · exact .aside s.bus.subscriptions le_rfl
  | restart =>
    simp only [Op.exec, System.restart, bind, Option.bind_eq_some_iff] at h
    obtain ⟨u, hpending, hs'⟩ := h
    cases hs'
    exact .restarted (of_guard_eq_some hpending)

/-! ## Mailboxes keep their terms -/

/-- The terms of a subscription, which no operation on its mailbox changes. -/
structure SameTerms (st st' : SubscriberState J) : Prop where
  pattern : st'.pattern = st.pattern
  delivery : st'.delivery = st.delivery
  backpressure : st'.backpressure = st.backpressure
  holder : st'.holder = st.holder

theorem deliver_cases (h : st.deliver event = some st') :
    (st.backpressure = .coalesce ∧
      st' = { st with coalesced := Function.update st.coalesced event.topic (some event) }) ∨
    (st.backpressure ≠ .coalesce ∧ ∃ queue dropped, queue.Sublist st.queue ∧
      st' = { st with queue := queue ++ [event], dropped := dropped }) := by
  unfold SubscriberState.deliver at h
  split at h
  · next hpolicy =>
    cases h
    exact .inl ⟨hpolicy, rfl⟩
  · next hpolicy =>
    cases h
    exact .inr ⟨by simp [hpolicy], _, _, .refl _, rfl⟩
  · next hpolicy =>
    split at h
    · cases h
      exact .inr ⟨by simp [hpolicy], _, _, tail_sublist _, rfl⟩
    · cases h
      exact .inr ⟨by simp [hpolicy], _, _, .refl _, rfl⟩
  · next hpolicy =>
    split at h
    · exact nomatch h
    · cases h
      exact .inr ⟨by simp [hpolicy], _, _, .refl _, rfl⟩

theorem sameTerms_deliver (h : st.deliver event = some st') : SameTerms st st' := by
  rcases deliver_cases h with ⟨-, rfl⟩ | ⟨-, _, _, -, rfl⟩
  · exact ⟨rfl, rfl, rfl, rfl⟩
  · exact ⟨rfl, rfl, rfl, rfl⟩

theorem sameTerms_takeReady (st : SubscriberState J) (first : Option Topic) :
    SameTerms st (st.takeReady first).2 := by
  unfold SubscriberState.takeReady
  split
  · split <;> exact ⟨rfl, rfl, rfl, rfl⟩
  · exact ⟨rfl, rfl, rfl, rfl⟩

theorem sameTerms_ack (st : SubscriberState J) (seq : Nat) :
    SameTerms st (if st.lastAckedSeq < seq then { st with lastAckedSeq := seq } else st) := by
  split <;> exact ⟨rfl, rfl, rfl, rfl⟩

end

end Hyperion.Events
