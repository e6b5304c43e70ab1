import Hyperion.Events.JsonEvent

/-!
# The order of a topic's events

Numbers are assigned under the lock of the bus and delivered after it is dropped, so of two publishers
the one with the larger number may be the first at a mailbox. If every mailbox is served in the order of
the numbers, its subscriber receives the events of a topic in that order, and the slot of a `Coalesce`
mailbox only moves forward.
-/

namespace Hyperion.Events
open Lib Capability Storage Function List SubscriberState

section
variable {J : Type} {st st' : SubscriberState J} {id : SubscriptionId}

def receivedOf (s : System J) (id : SubscriptionId) (topic : Topic) : List (Event J) :=
  (s.received.filter fun r => r.1 = id ∧ r.2.2.topic = topic).map fun r => r.2.2

def SubscriberState.held (st : SubscriberState J) (topic : Topic) : List (Event J) :=
  match st.backpressure with
  | .coalesce => (st.coalesced topic).toList
  | _ => st.queue.filter fun e => e.topic = topic

/-- What was received, and behind it what is next to be received. -/
def flow (s : System J) (id : SubscriptionId) (st : SubscriberState J) (topic : Topic) :
    List (Event J) := receivedOf s id topic ++ st.held topic

/-- A delivery is made when no other one of its topic to the same mailbox has a smaller number, and no
bus is replaced. -/
def InTurn {C : Codec J} (s : System J) : Op C → Prop
  | .deliver id n _ _ => ∀ m p q, (id, m) ∈ s.pending → m ≠ n → s.published[n]? = some p →
    s.published[m]? = some q → q.event.topic = p.event.topic → p.event.seq < q.event.seq
  | .restart => False
  | _ => True

def NoRestart {C : Codec J} (_ : System J) : Op C → Prop
  | .restart => False
  | _ => True

/-! ## Mailboxes -/

def SlotsOwn (st : SubscriberState J) : Prop := ∀ topic e, st.coalesced topic = some e → e.topic = topic

variable {S : EventSerde J} {C : Codec J} {event : Event J} {topic : Topic} {p : Publication J}
  {s' : System J} {e : Event J}

theorem slotsOwn_deliver (h : SlotsOwn st) (hdeliver : st.deliver event = some st') : SlotsOwn st' := by
  rcases deliver_cases hdeliver with ⟨-, rfl⟩ | ⟨-, _, _, -, rfl⟩
  · intro topic e he
    simp only [update_apply] at he
    split at he
    · next htopic => exact htopic ▸ congrArg Event.topic (Option.some.inj he).symm
    · exact h topic e he
  · exact h

theorem slotsOwn_takeReady {st : SubscriberState J} (h : SlotsOwn st) (first : Option Topic) :
    SlotsOwn (st.takeReady first).2 := by
  unfold takeReady
  split
  · split
    · exact h
    · intro topic e he
      simp only [update_apply] at he
      split at he
      · exact nomatch he
      · exact h topic e he
  · exact h

theorem held_of_queue (st : SubscriberState J) (hpolicy : st.backpressure ≠ .coalesce) (topic : Topic) :
    st.held topic = st.queue.filter fun e => e.topic = topic := by
  unfold held
  split
  · next hcoalesce => exact absurd hcoalesce hpolicy
  · rfl

theorem held_deliver (hdeliver : st.deliver event = some st') (topic : Topic) :
    (st'.held topic).Sublist (st.held topic ++ if event.topic = topic then [event] else []) := by
  rcases deliver_cases hdeliver with ⟨hpolicy, rfl⟩ | ⟨hpolicy, queue, dropped, hqueue, rfl⟩
  · simp only [held, hpolicy]
    by_cases htopic : event.topic = topic
    · subst htopic
      simp
    · simp [update_of_ne (Ne.symm htopic), htopic]
  · rw [held_of_queue st hpolicy, held_of_queue { st with queue := queue ++ [event], dropped := dropped } hpolicy,
      filter_append, filter_singleton]
    refine (hqueue.filter _).append ?_
    by_cases htopic : event.topic = topic <;> simp [htopic]

theorem held_takeReady {st : SubscriberState J} (h : SlotsOwn st) (first : Option Topic) (topic : Topic) :
    ((st.takeReady first).1.toList.filter fun e => e.topic = topic) ++ (st.takeReady first).2.held topic =
      st.held topic := by
  unfold takeReady
  split
  · next hpolicy =>
    split
    · simp [held, hpolicy]
    · next slot =>
      simp only [held, hpolicy]
      by_cases htopic : slot = topic
      · subst htopic
        rw [update_self]
        rcases hslot : st.coalesced slot with _ | e
        · rfl
        · simp [h slot e hslot]
      · rw [update_of_ne (Ne.symm htopic)]
        rcases hslot : st.coalesced slot with _ | e
        · simp
        · simp [h slot e hslot, htopic]
  · next hpolicy =>
    rw [held_of_queue st hpolicy, held_of_queue { st with queue := st.queue.tail } hpolicy]
    cases hq : st.queue with
    | nil => rfl
    | cons e rest =>
      rw [List.head?_cons, Option.toList_some, tail_cons, ← filter_append, singleton_append]

/-! ## The invariant -/

structure Orderly (s : System J) : Prop where
  unused : ∀ id, s.bus.nextSubId ≤ id → s.bus.mailboxes id = none
  known : ∀ r ∈ s.received, ∃ st, s.bus.mailboxes r.1 = some st
  slots : ∀ id st, s.bus.mailboxes id = some st → SlotsOwn st
  addressed : ∀ id n, (id, n) ∈ s.pending → ∃ p, s.published[n]? = some p
  numbered : s.published.Pairwise fun p q => p.event.topic = q.event.topic → p.event.seq < q.event.seq
  counted : ∀ p ∈ s.published, p.event.seq ≤ s.bus.nextSeq p.event.topic
  increasing : ∀ id st, s.bus.mailboxes id = some st → ∀ topic,
    (flow s id st topic).Pairwise fun a b => a.seq < b.seq
  bounded : ∀ id st, s.bus.mailboxes id = some st → ∀ topic, ∀ e ∈ flow s id st topic,
    e.seq ≤ s.bus.nextSeq topic
  ahead : ∀ id st, s.bus.mailboxes id = some st → ∀ n p, (id, n) ∈ s.pending →
    s.published[n]? = some p → ∀ e ∈ flow s id st p.event.topic, e.seq < p.event.seq

theorem orderly_empty (durableDir : Bool) : Orderly (System.empty durableDir : System J) where
  unused _ _ := rfl
  known _ h := nomatch h
  slots _ _ h := nomatch h
  addressed _ _ h := nomatch h
  numbered := .nil
  counted _ h := nomatch h
  increasing _ _ h := nomatch h
  bounded _ _ h := nomatch h
  ahead _ _ h := nomatch h

variable {s : System J}

theorem mem_receivedOf (h : e ∈ receivedOf s id topic) : ∃ r ∈ s.received, r.1 = id ∧ r.2.2 = e := by
  obtain ⟨r, hr, rfl⟩ := mem_map.mp h
  obtain ⟨hmem, hcond⟩ := mem_filter.mp hr
  exact ⟨r, hmem, (of_decide_eq_true hcond).1, rfl⟩

theorem receivedOf_eq_nil (h : Orderly s) (hnone : s.bus.mailboxes id = none)
    (topic : Topic) : receivedOf s id topic = [] := by
  refine eq_nil_iff_forall_not_mem.mpr fun e he => ?_
  obtain ⟨r, hr, rfl, -⟩ := mem_receivedOf he
  obtain ⟨st, hst⟩ := h.known r hr
  exact nomatch hnone.symm.trans hst

/-! ### A mailbox changes -/

theorem Orderly.lt_next (h : Orderly s) (hst : s.bus.mailboxes id = some st) : id < s.bus.nextSubId := by
  by_contra hle
  exact nomatch hst.symm.trans (h.unused id (not_lt.mp hle))

/-- The flow of one mailbox changes, perhaps a new one's, and that of every other one is as it was. -/
theorem Orderly.setMailbox {ids : List SubscriptionId} {next : Nat} {files : SubscriptionId → List UInt8}
    {received : List (SubscriptionId × Nat × Event J)} {pending delivered acked : List (SubscriptionId × Nat)}
    (h : Orderly s) (hnext : s.bus.nextSubId ≤ next) (hid : id < next) (hslots : SlotsOwn st')
    (hids : ∀ r ∈ received, r ∈ s.received ∨ r.1 = id)
    (hother : ∀ i, i ≠ id → ∀ topic, receivedOf { s with received := received } i topic =
      receivedOf s i topic) (hpending : ∀ d ∈ pending, d ∈ s.pending)
    (hflow : ∀ topic, (flow { s with received := received } id st' topic).Pairwise (fun a b => a.seq < b.seq) ∧
      ∀ e ∈ flow { s with received := received } id st' topic, e.seq ≤ s.bus.nextSeq topic ∧
        ∀ n p, (id, n) ∈ pending → s.published[n]? = some p → p.event.topic = topic → e.seq < p.event.seq) :
    Orderly { s with
      bus := BusState.setMailbox { s.bus with subscriptions := ids, nextSubId := next } id st'
      files := files, received := received, pending := pending, delivered := delivered, acked := acked } := by
  have hsame : ∀ i x topic, i ≠ id → flow { s with received := received } i x topic = flow s i x topic := by
    intro i x topic hne
    rw [flow, flow, hother i hne]
  refine ⟨fun i hi => ?_, fun r hr => ?_, fun i x hx => ?_, fun i n hn => h.addressed i n (hpending _ hn),
    h.numbered, h.counted, fun i x hx topic => ?_, fun i x hx topic e he => ?_,
    fun i x hx n p hn hp e he => ?_⟩
  · exact (setMailbox_of_ne _ (hid.trans_le hi).ne' _).trans (h.unused i (hnext.trans hi))
  · by_cases hi : r.1 = id
    · exact ⟨st', hi ▸ setMailbox_self _ _ _⟩
    · obtain ⟨y, hy⟩ := h.known r ((hids r hr).resolve_right hi)
      exact ⟨y, (setMailbox_of_ne _ hi _).trans hy⟩
  · rcases setMailbox_eq_some hx with ⟨rfl, rfl⟩ | ⟨-, hold⟩
    · exact hslots
    · exact h.slots i x hold
  · rcases setMailbox_eq_some hx with ⟨rfl, rfl⟩ | ⟨hne, hold⟩
    · exact (hflow topic).1
    · exact hsame i x topic hne ▸ h.increasing i x hold topic
  · rcases setMailbox_eq_some hx with ⟨rfl, rfl⟩ | ⟨hne, hold⟩
    · exact ((hflow topic).2 e he).1
    · exact h.bounded i x hold topic e (hsame i x topic hne ▸ he)
  · rcases setMailbox_eq_some hx with ⟨rfl, rfl⟩ | ⟨hne, hold⟩
    · exact ((hflow _).2 e he).2 n p hn hp rfl
    · exact h.ahead i x hold n p (hpending _ hn) hp e (hsame i x _ hne ▸ he)

theorem Orderly.flow_spec (h : Orderly s) (hst : s.bus.mailboxes id = some st) (topic : Topic) :
    (flow s id st topic).Pairwise (fun a b => a.seq < b.seq) ∧
      ∀ e ∈ flow s id st topic, e.seq ≤ s.bus.nextSeq topic ∧
        ∀ n p, (id, n) ∈ s.pending → s.published[n]? = some p → p.event.topic = topic →
          e.seq < p.event.seq := by
  refine ⟨h.increasing id st hst topic, fun e he => ⟨h.bounded id st hst topic e he, ?_⟩⟩
  rintro n p hn hp rfl
  exact h.ahead id st hst n p hn hp e he

theorem Orderly.deliver {n : Nat} {nonce : C.Nonce} {io : Io}
    (h : Orderly s) (hturn : InTurn s (.deliver id n nonce io : Op C)) (hpending : (id, n) ∈ s.pending)
    (hp : s.published[n]? = some p) (hst : s.bus.mailboxes id = some st)
    (hdeliver : st.deliver p.event = some st') (files : SubscriptionId → List UInt8)
    (deliveries : List (SubscriptionId × Nat)) : Orderly { s with
      bus := s.bus.setMailbox id st', files := files
      pending := s.pending.filter (· ≠ (id, n)), delivered := deliveries } := by
  refine h.setMailbox le_rfl (h.lt_next hst) (slotsOwn_deliver (h.slots id st hst) hdeliver)
    (fun r hr => .inl hr) (fun _ _ _ => rfl) (fun d hd => (mem_filter.mp hd).1) fun topic => ?_
  -- the flow grows by the event at most
  have hsub : (flow s id st' topic).Sublist (flow s id st topic ++
      if p.event.topic = topic then [p.event] else []) := by
    rw [flow, flow, append_assoc]
    exact (List.Sublist.refl _).append (held_deliver hdeliver topic)
  obtain ⟨hincreasing, hbounds⟩ := h.flow_spec hst topic
  refine ⟨List.Pairwise.sublist hsub (pairwise_append.mpr ⟨hincreasing, ?_, fun a ha b hb => ?_⟩),
    fun e he => ?_⟩
  · split
    · exact pairwise_singleton _ _
    · exact .nil
  · split at hb
    · next htopic =>
      rw [mem_singleton.mp hb]
      exact (hbounds a ha).2 n p hpending hp htopic
    · exact nomatch hb
  · rcases mem_append.mp (hsub.subset he) with hold | hnew
    · obtain ⟨hle, hahead⟩ := hbounds e hold
      exact ⟨hle, fun m q hm => hahead m q (mem_filter.mp hm).1⟩
    · split at hnew
      · next htopic =>
        obtain rfl := mem_singleton.mp hnew
        refine ⟨htopic ▸ h.counted p (mem_of_getElem? hp), fun m q hm hq hsame => ?_⟩
        obtain ⟨hleft, hdistinct⟩ := mem_filter.mp hm
        have hne : m ≠ n := by
          rintro rfl
          exact absurd rfl (of_decide_eq_true hdistinct)
        exact hturn m p q hleft hne hp hq (hsame.trans htopic.symm)
      · exact nomatch hnew

/-! ### The other operations -/

theorem Orderly.receive {st : SubscriberState J} (h : Orderly s) (hst : s.bus.mailboxes id = some st)
    (first : Option Topic) : Orderly { s with
      bus := s.bus.setMailbox id (st.takeReady first).2
      received := s.received ++ (st.takeReady first).1.toList.map fun e => (id, s.era, e) } := by
  refine h.setMailbox le_rfl (h.lt_next hst) (slotsOwn_takeReady (h.slots id st hst) first)
    (fun r hr => ?_) (fun i hi topic => ?_) (fun _ hd => hd) fun topic => ?_
  · rcases mem_append.mp hr with hold | hnew
    · exact .inl hold
    · obtain ⟨e, -, rfl⟩ := mem_map.mp hnew
      exact .inr rfl
  · simp [receivedOf, filter_append, filter_map, comp_def, Ne.symm hi]
  · -- an event moves from the mailbox to what was received, within one flow
    have hmoved : receivedOf { s with received := s.received ++
        (st.takeReady first).1.toList.map (fun e => (id, s.era, e)) } id topic =
        receivedOf s id topic ++ (st.takeReady first).1.toList.filter fun e => e.topic = topic := by
      simp [receivedOf, filter_append, filter_map, comp_def]
    have hflow := h.flow_spec hst topic
    rw [flow, ← held_takeReady (h.slots id st hst) first topic, ← append_assoc, ← hmoved] at hflow
    exact hflow

theorem Orderly.subscribe (h : Orderly s) (ids : List SubscriptionId) (pattern : TopicPattern)
    (delivery : DeliveryClass) (backpressure : BackpressurePolicy) (holder : CapabilityToken) :
    Orderly { s with
      bus := BusState.setMailbox { s.bus with nextSubId := s.bus.nextSubId + 1, subscriptions := ids }
        s.bus.nextSubId (.fresh pattern delivery backpressure holder) } := by
  refine h.setMailbox (Nat.le_succ _) (Nat.lt_succ_self _) (fun _ _ he => nomatch he) (fun r hr => .inl hr)
    (fun _ _ _ => rfl) (fun _ hd => hd) fun topic => ?_
  -- nothing was received under the new id, and its mailbox is empty
  have hnil : flow s s.bus.nextSubId (.fresh pattern delivery backpressure holder : SubscriberState J)
      topic = [] := by
    rw [flow, receivedOf_eq_nil h (h.unused _ le_rfl), nil_append, held]
    split <;> rfl
  exact hnil.symm ▸ ⟨.nil, fun e he => nomatch he⟩

theorem Orderly.record (h : Orderly s)
    (hseq : p.event.seq = s.bus.nextSeq p.event.topic + 1) : Orderly (s.record p) := by
  have hle : ∀ topic, s.bus.nextSeq topic ≤ (s.record p).bus.nextSeq topic := by
    intro topic
    simp only [System.record, update_apply]
    split
    · next htopic =>
      subst htopic
      omega
    · exact le_rfl
  have hown : (s.record p).bus.nextSeq p.event.topic = p.event.seq := update_self _ _ _
  refine { h with addressed := fun id n hn => ?_, numbered := ?_, counted := fun q hq => ?_,
                  bounded := fun i x hx topic e he => (h.bounded i x hx topic e he).trans (hle topic),
                  ahead := fun i x hx n q hn hq e he => ?_ }
  · rcases mem_record_pending.mp hn with hn | ⟨-, rfl⟩
    · obtain ⟨q, hq⟩ := h.addressed id n hn
      exact ⟨q, (List.getElem?_append_left (List.getElem?_eq_some_iff.mp hq).1).trans hq⟩
    · exact ⟨p, List.getElem?_concat_length⟩
  · refine pairwise_append.mpr ⟨h.numbered, pairwise_singleton _ _, fun q hq r hr htopic => ?_⟩
    rw [mem_singleton.mp hr] at htopic ⊢
    have hcount := h.counted q hq
    rw [htopic] at hcount
    omega
  · rcases mem_append.mp hq with hold | hnew
    · exact (h.counted q hold).trans (hle _)
    · rw [mem_singleton.mp hnew, hown]
  · rcases mem_record_pending.mp hn with hn | ⟨-, rfl⟩
    · obtain ⟨q', hq'⟩ := h.addressed i n hn
      rcases getElem?_concat_eq_some hq with hold | ⟨rfl, -⟩
      · exact h.ahead i x hx n q hn hold e he
      · exact absurd (List.getElem?_eq_some_iff.mp hq').1 (Nat.lt_irrefl _)
    · cases List.getElem?_concat_length.symm.trans hq
      have hbound := h.bounded i x hx _ e he
      omega

theorem Orderly.exec {op : Op C} (h : Orderly s)
    (hturn : InTurn s op) (hexec : op.exec S s = some s') : Orderly s' := by
  cases exec_effect hexec with
  | aside ids hnext => exact { h with unused := fun id hid => h.unused id (hnext.trans hid) }
  | subscribed hauth => exact h.subscribe _ _ _ _ _
  | recorded p hauth hera hpublisher hevent hrecipients => exact h.record (by rw [hevent])
  | delivered hpending hp hst hdeliver => exact h.deliver hturn hpending hp hst hdeliver _ _
  | received hst => exact h.receive hst _
  | @acked id n p st hp hreceived hst =>
    have hsame : ∀ topic, flow s id
        (if st.lastAckedSeq < p.event.seq then { st with lastAckedSeq := p.event.seq } else st) topic =
        flow s id st topic := by
      intro topic
      split <;> rfl
    refine h.setMailbox le_rfl (h.lt_next hst) ?_ (fun r hr => .inl hr) (fun _ _ _ => rfl) (fun _ hd => hd)
      fun topic => (hsame topic).symm ▸ h.flow_spec hst topic
    split <;> exact h.slots id st hst
  | restarted hpending => exact hturn.elim

/-! ## Slots only move forward -/

theorem slot_deliver
    (hdeliver : st.deliver event = some st') (topic : Topic) : st'.coalesced topic = st.coalesced topic ∨
      st.backpressure = .coalesce ∧ event.topic = topic ∧ st'.coalesced topic = some event := by
  rcases deliver_cases hdeliver with ⟨hpolicy, rfl⟩ | ⟨-, _, _, -, rfl⟩
  · by_cases htopic : event.topic = topic
    · subst htopic
      exact .inr ⟨hpolicy, rfl, update_self _ _ _⟩
    · exact .inl (update_of_ne (Ne.symm htopic) _ _)
  · exact .inl rfl

theorem slot_takeReady {st : SubscriberState J} {first : Option Topic}
    (h : (st.takeReady first).2.coalesced topic = some e) : st.coalesced topic = some e := by
  unfold takeReady at h
  split at h
  · split at h
    · exact h
    · simp only [update_apply] at h
      split at h
      · exact nomatch h
      · exact h
  · exact h

theorem Orderly.slot_exec {op : Op C} (h : Orderly s) (hturn : InTurn s op) (hexec : op.exec S s = some s')
    (hst : s.bus.mailboxes id = some st) (hst' : s'.bus.mailboxes id = some st') {e e' : Event J}
    (he : st.coalesced topic = some e) (he' : st'.coalesced topic = some e') : e' = e ∨ e.seq < e'.seq := by
  -- the operations that leave the slots of the mailbox alone
  have hsame : st'.coalesced topic = st.coalesced topic → e' = e ∨ e.seq < e'.seq :=
    fun hslot => .inl (Option.some.inj (he'.symm.trans (hslot.trans he)))
  have hkept : s.bus.mailboxes id = some st' → e' = e ∨ e.seq < e'.seq := by
    intro hold
    cases hst.symm.trans hold
    exact hsame rfl
  cases exec_effect hexec with
  | aside ids hnext => exact hkept hst'
  | subscribed hauth =>
    rcases setMailbox_eq_some hst' with ⟨rfl, -⟩ | ⟨-, hold⟩
    · exact absurd (h.lt_next hst) (lt_irrefl _)
    · exact hkept hold
  | recorded p hauth hera hpublisher hevent hrecipients => exact hkept hst'
  | @delivered i n nonce io p x x' hpending hp hx hdeliver =>
    rcases setMailbox_eq_some hst' with ⟨rfl, rfl⟩ | ⟨-, hold⟩
    · cases hx.symm.trans hst
      rcases slot_deliver hdeliver topic with hslot | ⟨hpolicy, rfl, hslot⟩
      · exact hsame hslot
      · cases he'.symm.trans hslot
        refine .inr (h.ahead id st hst n p hpending hp e (mem_append_right _ ?_))
        simp [held, hpolicy, he]
    · exact hkept hold
  | received hx =>
    rcases setMailbox_eq_some hst' with ⟨rfl, rfl⟩ | ⟨-, hold⟩
    · cases hx.symm.trans hst
      exact hsame (he'.trans (slot_takeReady he').symm)
    · exact hkept hold
  | acked hp hreceived hx =>
    rcases setMailbox_eq_some hst' with ⟨rfl, rfl⟩ | ⟨-, hold⟩
    · cases hx.symm.trans hst
      refine hsame ?_
      split <;> rfl
    · exact hkept hold
  | restarted hpending => exact hturn.elim

theorem orderly_of_reached {durableDir : Bool}
    (h : Reached S durableDir (fun s (op : Op C) => InTurn s op) s) : Orderly s := by
  induction h with
  | refl => exact orderly_empty durableDir
  | tail _ hstep ih =>
    obtain ⟨op, hturn, hexec⟩ := hstep
    exact ih.exec hturn hexec

/-- **If every mailbox is served in the order of the numbers, each subscriber receives the events of a
topic in strictly increasing order, and the slot of a `Coalesce` mailbox never moves back.** -/
theorem events_in_order {S : EventSerde J} {C : Codec J} {durableDir : Bool}
    (h : Reached S durableDir (fun s (op : Op C) => InTurn s op) s) :
    (∀ id topic, (receivedOf s id topic).Pairwise fun a b => a.seq < b.seq) ∧
    ∀ (op : Op C) s', InTurn s op → op.exec S s = some s' →
      ∀ id st st' topic e e', s.bus.mailboxes id = some st → s'.bus.mailboxes id = some st' →
        st.coalesced topic = some e → st'.coalesced topic = some e' → e' = e ∨ e.seq < e'.seq := by
  have hord := orderly_of_reached h
  refine ⟨fun id topic => ?_, fun op s' hturn hexec id st st' topic e e' hst hst' he he' =>
    hord.slot_exec hturn hexec hst hst' he he'⟩
  cases hst : s.bus.mailboxes id with
  | none => exact receivedOf_eq_nil hord hst topic ▸ .nil
  | some st => exact (pairwise_append.mp (hord.increasing id st hst topic)).1

end

/-! ## An overtaken publisher -/

def watchAgent (backpressure : BackpressurePolicy) : Op jsonSerde.plain :=
  .subscribe (member 7) 7 (.exact (agentTopic 5)) .atMostOnce backpressure true

def twoPublished (backpressure : BackpressurePolicy) : Option (System Json) := do
  let s ← (watchAgent backpressure).exec jsonEvent (.empty false)
  let s ← (publishAgent 5).exec jsonEvent s
  (publishAgent 5).exec jsonEvent s

def twoEvents (first second : Nat) : Option (System Json) := do
  let s ← twoPublished (.buffer 4)
  let s ← (Op.deliver 1 first () .completed : Op jsonSerde.plain).exec jsonEvent s
  let s ← (Op.deliver 1 second () .completed : Op jsonSerde.plain).exec jsonEvent s
  let s ← (Op.receive 1 none : Op jsonSerde.plain).exec jsonEvent s
  (Op.receive 1 none : Op jsonSerde.plain).exec jsonEvent s

theorem events_in_order_pair : ∃ s, twoEvents 0 1 = some s ∧
    (receivedOf s 1 (agentTopic 5)).map Event.seq = [1, 2] ∧
    (receivedOf s 1 (agentTopic 5)).Pairwise fun a b => a.seq < b.seq := by
  have hreach : ∀ s, twoEvents 0 1 = some s →
      Reached jsonEvent false (fun s (op : Op jsonSerde.plain) => InTurn s op) s := by
    rintro s ⟨⟩
    refine ((((((Relation.ReflTransGen.refl.tail ⟨watchAgent (.buffer 4), trivial, rfl⟩).tail
      ⟨publishAgent 5, trivial, rfl⟩).tail ⟨publishAgent 5, trivial, rfl⟩).tail
      ⟨.deliver 1 0 () .completed, ?_, rfl⟩).tail ⟨.deliver 1 1 () .completed, ?_, rfl⟩).tail
      ⟨.receive 1 none, trivial, rfl⟩).tail ⟨.receive 1 none, trivial, rfl⟩
    · intro m p q hm hne hp hq _
      have hm : m = 1 := by
        rcases mem_cons.mp hm with heq | hm
        · exact absurd (congrArg Prod.snd heq) hne
        · exact congrArg Prod.snd (mem_singleton.mp hm)
      subst hm
      cases hp
      cases hq
      decide
    · intro m p q hm hne
      exact absurd (congrArg Prod.snd (mem_singleton.mp hm)) hne
  exact ⟨_, rfl, rfl, (events_in_order (hreach _ rfl)).1 1 (agentTopic 5)⟩

/-- **The larger number may be delivered first: then the smaller one is received after it, and takes
its place in a slot.** -/
theorem overtaken_event_comes_late :
    (∃ s, Reached jsonEvent false (fun s (op : Op jsonSerde.plain) => NoRestart s op) s ∧
      (receivedOf s 1 (agentTopic 5)).map Event.seq = [2, 1]) ∧
    ∃ s s' st st', Reached jsonEvent false (fun s (op : Op jsonSerde.plain) => NoRestart s op) s ∧
      (Op.deliver 1 0 () .completed : Op jsonSerde.plain).exec jsonEvent s = some s' ∧
      s.bus.mailboxes 1 = some st ∧ s'.bus.mailboxes 1 = some st' ∧ st.backpressure = .coalesce ∧
      (st.coalesced (agentTopic 5)).map Event.seq = some 2 ∧
      (st'.coalesced (agentTopic 5)).map Event.seq = some 1 := by
  have hpublished : ∀ backpressure s, twoPublished backpressure = some s →
      Reached jsonEvent false (fun s (op : Op jsonSerde.plain) => NoRestart s op) s := by
    rintro backpressure s ⟨⟩
    exact ((Relation.ReflTransGen.refl.tail ⟨watchAgent backpressure, trivial, rfl⟩).tail
      ⟨publishAgent 5, trivial, rfl⟩).tail ⟨publishAgent 5, trivial, rfl⟩
  refine ⟨⟨_, ((((hpublished (.buffer 4) _ rfl).tail ⟨.deliver 1 1 () .completed, trivial, rfl⟩).tail
    ⟨.deliver 1 0 () .completed, trivial, rfl⟩).tail ⟨.receive 1 none, trivial, rfl⟩).tail
    ⟨.receive 1 none, trivial, rfl⟩, rfl⟩, ?_⟩
  exact ⟨_, _, _, _, (hpublished .coalesce _ rfl).tail ⟨.deliver 1 1 () .completed, trivial, rfl⟩,
    rfl, rfl, rfl, rfl, rfl, rfl⟩

end Hyperion.Events
