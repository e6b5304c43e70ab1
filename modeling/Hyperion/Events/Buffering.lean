import Hyperion.Events.System
import Hyperion.Lib.Run

/-!
# Bounded buffering

A mailbox with the policy `Buffer` makes room for a new event by dropping its oldest one, and counts what
it drops. With capacity 0 there is nothing to drop, and yet the event is counted as dropped and queued.
-/

namespace Hyperion.Events
open Lib Capability Storage List

section
variable {J : Type} {id : SubscriptionId} {capacity : Nat}

inductive Exchange (J : Type)
  | deliver (event : Event J)
  | receive

/-- The bus, and what was delivered to the mailbox and received from it. -/
structure Traffic (J : Type) where
  bus : BusState J
  delivered : List (Event J)
  received : List (Event J)

variable {st : SubscriberState J} {t : Traffic J}

def Traffic.step (id : SubscriptionId) (t : Traffic J) (e : Exchange J) : Traffic J :=
  match t.bus.mailboxes id with
  | none => t
  | some st =>
    match e with
    | .deliver event => (st.deliver event).elim t fun st' =>
      { t with bus := t.bus.setMailbox id st', delivered := t.delivered ++ [event] }
    | .receive =>
      { t with bus := t.bus.setMailbox id (st.takeReady none).2
               received := t.received ++ (st.takeReady none).1.toList }

/-- The queue is within its capacity, and what was delivered is what was received and what is queued, in
order, with as many events missing as `dropped_count` says. -/
def Accounted (id : SubscriptionId) (capacity : Nat) (t : Traffic J) : Prop :=
  ∃ st dropped, t.bus.mailboxOf id = .ok st ∧ t.bus.droppedCount id = .ok dropped ∧
    st.queue.length ≤ capacity ∧
    t.delivered.length = t.received.length + dropped + st.queue.length ∧
    (t.received ++ st.queue).Sublist t.delivered

/-- The mailbox is a buffer, and what it counts is right. -/
structure Buffers (id : SubscriptionId) (capacity : Nat) (t : Traffic J) (st : SubscriberState J) : Prop where
  registered : id ∈ t.bus.subscriptions
  mailbox : t.bus.mailboxes id = some st
  policy : st.backpressure = .buffer capacity
  bounded : st.queue.length ≤ capacity
  count : t.delivered.length = t.received.length + st.dropped + st.queue.length
  order : (t.received ++ st.queue).Sublist t.delivered

theorem mailboxOf_of_mem {bus : BusState J} (hid : id ∈ bus.subscriptions)
    (hst : bus.mailboxes id = some st) : bus.mailboxOf id = .ok st := by
  simp [BusState.mailboxOf, hid, hst]

theorem Buffers.accounted (h : Buffers id capacity t st) : Accounted id capacity t := by
  have hbox := mailboxOf_of_mem h.registered h.mailbox
  exact ⟨st, st.dropped, hbox, by rw [BusState.droppedCount, hbox]; rfl, h.bounded, h.count, h.order⟩

theorem Buffers.receive (h : Buffers id capacity t st) :
    ∃ st', Buffers id capacity (t.step id .receive) st' := by
  have htake : st.takeReady none = (st.queue.head?, { st with queue := st.queue.tail }) := by
    simp [SubscriberState.takeReady, h.policy]
  have hstep : t.step id .receive =
      ⟨t.bus.setMailbox id { st with queue := st.queue.tail }, t.delivered,
        t.received ++ st.queue.head?.toList⟩ := by
    simp [Traffic.step, h.mailbox, htake]
  -- What is taken and what stays make up the queue.
  have hqueue : st.queue.head?.toList ++ st.queue.tail = st.queue := by
    cases st.queue <;> rfl
  have hlength := congrArg List.length hqueue
  have hbounded := h.bounded
  have hcount := h.count
  have horder := h.order
  simp only [length_append] at hlength
  rw [hstep]
  refine ⟨_, h.registered, setMailbox_self _ _ _, h.policy, ?_, ?_, ?_⟩
  · show st.queue.tail.length ≤ capacity
    omega
  · show t.delivered.length = (t.received ++ st.queue.head?.toList).length + st.dropped + st.queue.tail.length
    rw [length_append]
    omega
  · show (t.received ++ st.queue.head?.toList ++ st.queue.tail).Sublist t.delivered
    rw [append_assoc, hqueue]
    exact horder

theorem Buffers.deliver_eq (h : Buffers id capacity t st) (event : Event J) :
    ∃ st', (t.step id (.deliver event)).bus = t.bus.setMailbox id st' ∧
      (t.step id (.deliver event)).delivered = t.delivered ++ [event] ∧
      (t.step id (.deliver event)).received = t.received ∧ st'.backpressure = .buffer capacity ∧
      (capacity ≤ st.queue.length ∧ st'.queue = st.queue.tail ++ [event] ∧ st'.dropped = st.dropped + 1 ∨
        st.queue.length < capacity ∧ st'.queue = st.queue ++ [event] ∧ st'.dropped = st.dropped) := by
  unfold Traffic.step SubscriberState.deliver
  simp only [h.mailbox, h.policy]
  split
  · next hfull => exact ⟨_, rfl, rfl, rfl, rfl, .inl ⟨hfull, rfl, rfl⟩⟩
  · next hroom => exact ⟨_, rfl, rfl, rfl, h.policy, .inr ⟨by omega, rfl, rfl⟩⟩

theorem Buffers.deliver (h : Buffers id capacity t st) (event : Event J) :
    (0 < capacity → ∃ st', Buffers id capacity (t.step id (.deliver event)) st') ∧
      (Accounted id capacity (t.step id (.deliver event)) → 0 < capacity) := by
  obtain ⟨st', hbus, hdelivered, hreceived, hpolicy, hqueue⟩ := h.deliver_eq event
  have hregistered : id ∈ (t.step id (.deliver event)).bus.subscriptions := by
    rw [hbus]
    exact h.registered
  have hmailbox : (t.step id (.deliver event)).bus.mailboxes id = some st' := by
    rw [hbus]
    exact setMailbox_self _ _ _
  have hbounded := h.bounded
  have hcount := h.count
  constructor
  · intro hpos
    refine ⟨st', hregistered, hmailbox, hpolicy, ?_, ?_, ?_⟩
    · rcases hqueue with ⟨hfull, hq, -⟩ | ⟨hroom, hq, -⟩
      · simp only [hq, length_append, length_tail, length_singleton]
        omega
      · simp only [hq, length_append, length_singleton]
        omega
    · rw [hdelivered, hreceived]
      rcases hqueue with ⟨hfull, hq, hd⟩ | ⟨hroom, hq, hd⟩
      · simp only [hq, hd, length_append, length_tail, length_singleton]
        omega
      · simp only [hq, hd, length_append, length_singleton]
        omega
    · rw [hdelivered, hreceived]
      have hsub : (t.received ++ st'.queue).Sublist (t.received ++ st.queue ++ [event]) := by
        rcases hqueue with ⟨-, hq, -⟩ | ⟨-, hq, -⟩
        · rw [hq, append_assoc]
          exact ((tail_sublist _).append_right _).append_left _
        · rw [hq, append_assoc]
      exact hsub.trans (h.order.append_right [event])
  · rintro ⟨st₁, dropped, hbox, -, hle, -⟩
    rw [mailboxOf_of_mem hregistered hmailbox] at hbox
    cases hbox
    rcases hqueue with ⟨-, hq, -⟩ | ⟨hroom, -⟩
    · rw [hq, length_append, length_singleton] at hle
      omega
    · omega

theorem Traffic.step_iff (h : ∃ st, Buffers id capacity t st) (e : Exchange J) :
    ((0 < capacity ∨ e = .receive) ↔ Accounted id capacity (t.step id e)) ∧
      (0 < capacity ∨ e = .receive → ∃ st, Buffers id capacity (t.step id e) st) := by
  obtain ⟨st, hst⟩ := h
  cases e with
  | deliver event =>
    obtain ⟨hkeeps, hpos⟩ := hst.deliver event
    refine ⟨⟨fun hroom => ?_, fun haccounted => .inl (hpos haccounted)⟩, fun hroom => ?_⟩
    · obtain ⟨st', hst'⟩ := hkeeps (by simpa using hroom)
      exact hst'.accounted
    · exact hkeeps (by simpa using hroom)
  | receive =>
    obtain ⟨st', hst'⟩ := hst.receive
    exact ⟨iff_of_true (.inr rfl) hst'.accounted, fun _ => ⟨st', hst'⟩⟩

/-- **Every event delivered to a buffer is received, counted as dropped or queued, exactly if there is room
for one or nothing is delivered.** -/
theorem buffer_accounts_iff {bus bus' : BusState J} {caller : Caller} {owner : TrustBoundaryId}
    {pattern : TopicPattern} {delivery : DeliveryClass} {opened : Bool}
    (h : bus.subscribe caller owner pattern delivery (.buffer capacity) opened = (.ok id, bus'))
    (exchanges : List (Exchange J)) :
    Meets (Traffic.step id) (fun t e => Accounted id capacity (t.step id e)) ⟨bus', [], []⟩ exchanges ↔
      0 < capacity ∨ ∀ event, .deliver event ∉ exchanges := by
  have hinit : ∃ st, Buffers id capacity ⟨bus', [], []⟩ st := by
    unfold BusState.subscribe at h
    simp only [reduceCtorEq, false_and, if_false] at h
    split at h
    · cases h
    · split at h
      · cases h
      · cases h
        exact ⟨_, by simp, Function.update_self _ _ _, rfl, Nat.zero_le _, rfl, List.Sublist.refl _⟩
  have hmeets : Meets (Traffic.step id) (fun _ e => 0 < capacity ∨ e = .receive) ⟨bus', [], []⟩ exchanges ↔
      Meets (Traffic.step id) (fun t e => Accounted id capacity (t.step id e)) ⟨bus', [], []⟩ exchanges :=
    meets_congr (fun t e _ (ht : ∃ st, Buffers id capacity t st) => (Traffic.step_iff ht e).2)
      (fun t e _ ht => (Traffic.step_iff ht e).1) hinit
  rw [← hmeets, meets_calls]
  constructor
  · intro hall
    by_cases hpos : 0 < capacity
    · exact .inl hpos
    · exact .inr fun event hmem => by simpa [hpos] using hall _ hmem
  · rintro (hpos | hnone) e hmem
    · exact .inl hpos
    · cases e with
      | deliver event => exact absurd hmem (hnone event)
      | receive => exact .inr rfl

end

/-! ## A buffer of one event, and one without room -/

def note : Event Unit := ⟨⟨.custom, .object 1, ""⟩, 1, 0, .inline (), []⟩

def bufferBus (capacity : Nat) : BusState Unit :=
  ((BusState.new false).subscribe .root 7 (.exact note.topic) .atMostOnce (.buffer capacity) true).2

theorem subscribe_buffer (capacity : Nat) :
    (BusState.new false).subscribe .root 7 (.exact note.topic) .atMostOnce (.buffer capacity) true =
      (.ok 1, bufferBus capacity) := by
  rfl

theorem buffer_accounts_iff_one : Meets (Traffic.step 1) (fun t e => Accounted 1 1 (t.step 1 e))
    ⟨bufferBus 1, [], []⟩ [.deliver note, .deliver note, .receive] :=
  (buffer_accounts_iff (subscribe_buffer 1) _).mpr (.inl Nat.one_pos)

/-- **A buffer of capacity 0 queues the event that it counts as dropped.** -/
theorem buffer_without_room : ∃ t : Traffic Unit, t = Traffic.step 1 ⟨bufferBus 0, [], []⟩ (.deliver note) ∧
    t.delivered = [note] ∧ t.received = [] ∧ t.bus.droppedCount 1 = .ok 1 ∧
    (t.bus.mailboxOf 1).map (·.queue) = .ok [note] ∧ ¬ Accounted 1 0 t := by
  refine ⟨_, rfl, rfl, rfl, rfl, rfl, ?_⟩
  rintro ⟨st, dropped, hbox, -, hle, -⟩
  cases hbox
  exact absurd hle (by decide)

end Hyperion.Events
