import Hyperion.Events.JsonEvent

/-!
# What a durable subscription can replay

A `Durable` mailbox writes every event it is given to the log of its subscription id before it is
queued. The subscriber acknowledges what it received and later asks for everything after the largest
number it acknowledged. Numbers belong to topics, and start again with every new bus, while
acknowledgements and `replay_from` go by the number alone. So nothing is lost as long as the
subscription is about one topic and all its acknowledgements belong to the bus in use.
-/

namespace Hyperion.Events
open Lib Capability Storage Function List Option BusState JsonEvent

section
variable {J : Type}

def largestAcked (s : System J) (id : SubscriptionId) : Nat :=
  (s.acked.filterMap fun a =>
    if a.1 = id then (s.published[a.2]?).map fun p => p.event.seq else none).foldr max 0

/-- The `n`-th publication was delivered to the mailbox and is later than all that its subscriber
acknowledged. -/
structure Outstanding (s : System J) (id : SubscriptionId) (n : Nat) (p : Publication J) : Prop where
  published : s.published[n]? = some p
  recipient : id ∈ p.recipients
  done : (id, n) ∉ s.pending
  later : ∀ m, (id, m) ∈ s.acked → m < n

/-- An event that `serde_json` writes to a log and reads back as itself. -/
def ReadsBack (S : EventSerde J) (reread : J → Option J) (e : Event J) : Prop :=
  ∃ m, S.toValue e = some m ∧ Stable reread m ∧ S.fromValue m = some e

/-- Whoever subscribes under the id does so durably; events read back, and appends to the log of the id
complete. -/
def Journaled (S : EventSerde J) (reread : J → Option J) (id : SubscriptionId) {C : Codec J}
    (s : System J) : Op C → Prop
  | .subscribe _ _ _ _ backpressure _ => s.bus.nextSubId = id → backpressure = .durable
  | .publish _ _ topic timestamp payload ancestors =>
    ReadsBack S reread (s.bus.assign topic timestamp payload ancestors).1
  | .deliver i _ _ io => i = id → io = .completed
  | _ => True

/-- What the subscription matches is about one topic, and acknowledgements stay with the bus on which
the event was published. -/
def SingleNumbering (id : SubscriptionId) (topic : Topic) {C : Codec J} (s : System J) : Op C → Prop
  | .publish _ _ t timestamp payload ancestors =>
    id ∈ s.bus.matching (s.bus.assign t timestamp payload ancestors).1 → t = topic
  | .ack i n => i = id → ∀ p, s.published[n]? = some p → p.era = s.era
  | .restart => ∀ n, (id, n) ∉ s.acked
  | _ => True

/-! ## Numbers -/

variable {s s' : System J}

/-- On one bus the numbers of a topic increase. -/
structure Numbered (s : System J) : Prop where
  ordered : s.published.Pairwise fun p q => p.era ≤ q.era ∧
    (p.era = q.era → p.event.topic = q.event.topic → p.event.seq < q.event.seq)
  counted : ∀ p ∈ s.published, 0 < p.event.seq ∧ p.era ≤ s.era ∧
    (p.era = s.era → p.event.seq ≤ s.bus.nextSeq p.event.topic)

theorem Numbered.record {p : Publication J} (h : Numbered s) (hera : p.era = s.era)
    (hseq : p.event.seq = s.bus.nextSeq p.event.topic + 1) : Numbered (s.record p) := by
  have hown : (s.record p).bus.nextSeq p.event.topic = p.event.seq := update_self _ _ _
  constructor
  · refine pairwise_append.mpr ⟨h.ordered, pairwise_singleton _ _, fun q hq r hr => ?_⟩
    rw [mem_singleton.mp hr, hera]
    obtain ⟨-, hle, hcount⟩ := h.counted q hq
    refine ⟨hle, fun heq htopic => ?_⟩
    have hcount := hcount heq
    rw [htopic] at hcount
    omega
  · intro q hq
    rcases mem_append.mp hq with hold | hnew
    · obtain ⟨hpos, hle, hcount⟩ := h.counted q hold
      refine ⟨hpos, hle, fun heq => (hcount heq).trans ?_⟩
      by_cases htopic : q.event.topic = p.event.topic
      · rw [htopic, hown]
        omega
      · exact (update_of_ne htopic _ _).ge
    · rw [mem_singleton.mp hnew, hown]
      exact ⟨by omega, hera.le, fun _ => le_rfl⟩

theorem Numbered.exec {S : EventSerde J} {C : Codec J} {op : Op C} (h : Numbered s)
    (hexec : op.exec S s = some s') : Numbered s' := by
  cases exec_effect hexec with
  | recorded p hauth hera hpublisher hevent hrecipients => exact h.record hera (by rw [hevent])
  | restarted hpending =>
    refine ⟨h.ordered, fun p hp => ?_⟩
    obtain ⟨hpos, hle, -⟩ := h.counted p hp
    exact ⟨hpos, Nat.le_succ_of_le hle, fun heq => absurd heq (Nat.ne_of_lt (Nat.lt_succ_of_le hle))⟩
  | _ => exact { h with }

/-- **On one bus the numbers of a topic increase**, whatever calls are made and however they interleave. -/
theorem numbers_increase {S : EventSerde J} {C : Codec J} {durableDir : Bool} {ops : List (Op C)}
    (hrun : runAll S (.empty durableDir) ops = some s) : s.published.Pairwise fun p q =>
      p.era = q.era → p.event.topic = q.event.topic → p.event.seq < q.event.seq := by
  have hnum : Numbered s := foldlM_invariant (fun _ _ _ _ h hexec => h.exec hexec)
    ⟨.nil, fun _ h => absurd h not_mem_nil⟩ hrun
  exact hnum.ordered.imp And.right

theorem Numbered.lt {m n : Nat} {p q : Publication J} (h : Numbered s) (hq : s.published[m]? = some q)
    (hp : s.published[n]? = some p) (hlt : m < n) (hera : q.era = s.era)
    (htopic : q.event.topic = p.event.topic) : q.event.seq < p.event.seq := by
  obtain ⟨hm, rfl⟩ := List.getElem?_eq_some_iff.mp hq
  obtain ⟨hn, rfl⟩ := List.getElem?_eq_some_iff.mp hp
  obtain ⟨hle, hseq⟩ := pairwise_iff_getElem.mp h.ordered m n hm hn hlt
  have hbound := (h.counted _ (getElem_mem hn)).2.1
  exact hseq (le_antisymm hle (hera ▸ hbound)) htopic

/-! ## The log -/

/-- The log of the id holds every event that was delivered to its mailbox. -/
structure Logged (S : EventSerde J) (C : Codec J) (reread : J → Option J) (id : SubscriptionId)
    (s : System J) : Prop where
  terms : ∀ st, s.bus.mailboxes id = some st → st.backpressure = .durable
  readable : ∀ p ∈ s.published, ReadsBack S reread p.event
  file : ∃ log, C.Holds (s.files id) log ∧ ∀ n p, s.published[n]? = some p → id ∈ p.recipients →
    (id, n) ∉ s.pending → ∃ r ∈ log, S.fromValue r.metadata = some p.event

section
variable {S : EventSerde J} {C : Codec J} {reread : J → Option J} {id : SubscriptionId}

theorem logged_empty (durableDir : Bool) : Logged S C reread id (.empty durableDir) :=
  ⟨fun _ h => absurd h.symm (some_ne_none _), fun _ h => absurd h not_mem_nil, [], Codec.holds_nil,
    fun _ _ h => absurd h.symm (some_ne_none _)⟩

variable {st st' : SubscriberState J} {i : SubscriptionId} {p : Publication J}

theorem Logged.setMailbox (h : Logged S C reread id s)
    (hst : s.bus.mailboxes i = some st) (hterms : SameTerms st st') :
    Logged S C reread id { s with bus := s.bus.setMailbox i st' } := by
  refine ⟨fun x hx => ?_, h.readable, h.file⟩
  rcases setMailbox_eq_some hx with ⟨rfl, rfl⟩ | ⟨-, hold⟩
  · exact hterms.backpressure.trans (h.terms st hst)
  · exact h.terms x hold

theorem Logged.record (h : Logged S C reread id s)
    (hreads : ReadsBack S reread p.event) : Logged S C reread id (s.record p) := by
  obtain ⟨log, hholds, hlog⟩ := h.file
  refine ⟨h.terms, fun q hq => ?_, log, hholds, fun n q hn hid hdone => ?_⟩
  · rcases mem_append.mp hq with hold | hnew
    · exact h.readable q hold
    · exact mem_singleton.mp hnew ▸ hreads
  · rcases getElem?_concat_eq_some hn with hold | ⟨rfl, rfl⟩
    · exact hlog n q hold hid fun hn => hdone (mem_record_pending.mpr (.inl hn))
    · exact absurd (mem_record_pending.mpr (.inr ⟨hid, rfl⟩)) hdone

theorem holds_appendDurable {file : List UInt8} {log : List (WalRecord J)} {event : Event J} {m : J}
    (L : C.Lawful reread) (h : C.Holds file log) (hm : S.toValue event = some m) (hstable : Stable reread m)
    (st : SubscriberState J) (nonce : C.Nonce) :
    C.Holds (appendDurable S C file st event nonce .completed) (log ++ [durableRecord st event m]) := by
  rw [appendDurable, hm]
  exact h.concat (L.reads_line hstable nonce)

theorem Logged.deliver {n : Nat} {nonce : C.Nonce} {io : Io}
    (L : C.Lawful reread) (h : Logged S C reread id s)
    (hio : i = id → io = .completed) (hp : s.published[n]? = some p) (hst : s.bus.mailboxes i = some st)
    (hdeliver : st.deliver p.event = some st') (deliveries : List (SubscriptionId × Nat)) :
    Logged S C reread id { s with
      bus := s.bus.setMailbox i st'
      files := if st.backpressure = .durable then
          Function.update s.files i (appendDurable S C (s.files i) st p.event nonce io)
        else s.files
      pending := s.pending.filter (· ≠ (i, n)), delivered := deliveries } := by
  obtain ⟨hterms, -, -⟩ := h.setMailbox hst (sameTerms_deliver hdeliver)
  obtain ⟨log, hholds, hlog⟩ := h.file
  refine ⟨hterms, h.readable, ?_⟩
  -- a delivery that is no longer pending was not before, or is the one made now
  have hleft : ∀ k, (id, k) ∉ s.pending.filter (· ≠ (i, n)) → (id, k) ∉ s.pending ∨ id = i ∧ k = n := by
    intro k hk
    by_cases heq : (id, k) = (i, n)
    · exact .inr (Prod.mk.inj heq)
    · exact .inl fun hmem => hk (mem_filter.mpr ⟨hmem, decide_eq_true heq⟩)
  by_cases hi : i = id
  · subst hi
    obtain ⟨m, hm, hstable, hback⟩ := h.readable p (mem_of_getElem? hp)
    have hfile : (if st.backpressure = .durable then
        Function.update s.files i (appendDurable S C (s.files i) st p.event nonce io) else s.files) i =
        appendDurable S C (s.files i) st p.event nonce .completed := by
      rw [if_pos (h.terms st hst), update_self, hio rfl]
    refine ⟨log ++ [durableRecord st p.event m], ?_, fun k q hq hid hk => ?_⟩
    · dsimp only
      rw [hfile]
      exact holds_appendDurable L hholds hm hstable st nonce
    · rcases hleft k hk with hdone | ⟨-, rfl⟩
      · obtain ⟨r, hr, hread⟩ := hlog k q hq hid hdone
        exact ⟨r, mem_append_left _ hr, hread⟩
      · cases hp.symm.trans hq
        exact ⟨_, mem_append_right _ (mem_singleton_self _), hback⟩
  · have hfile : (if st.backpressure = .durable then
        Function.update s.files i (appendDurable S C (s.files i) st p.event nonce io) else s.files) id =
        s.files id := by
      split
      · exact update_of_ne (Ne.symm hi) _ _
      · rfl
    refine ⟨log, ?_, fun k q hq hid hk => ?_⟩
    · dsimp only
      rw [hfile]
      exact hholds
    · exact hlog k q hq hid ((hleft k hk).resolve_right fun heq => hi heq.1.symm)

theorem Logged.exec {op : Op C} (L : C.Lawful reread) (h : Logged S C reread id s)
    (hok : Journaled S reread id s op) (hexec : op.exec S s = some s') : Logged S C reread id s' := by
  cases exec_effect hexec with
  | aside ids hnext => exact { h with }
  | subscribed hauth =>
    refine { h with terms := fun x hx => ?_ }
    rcases setMailbox_eq_some hx with ⟨heq, rfl⟩ | ⟨-, hold⟩
    · exact hok heq.symm
    · exact h.terms x hold
  | recorded p hauth hera hpublisher hevent hrecipients => exact h.record (hevent ▸ hok)
  | delivered hpending hp hst hdeliver => exact h.deliver L hok hp hst hdeliver _
  | received hst => exact { h.setMailbox hst (sameTerms_takeReady _ _) with }
  | acked hp hreceived hst => exact { h.setMailbox hst (sameTerms_ack _ _) with }
  | restarted hpending => exact { h with terms := fun _ h => absurd h.symm (some_ne_none _) }

end

/-! ## One topic -/

/-- All that reaches the subscriber is about the topic, and what it acknowledged belongs to the bus in
use. -/
structure OneTopic (id : SubscriptionId) (topic : Topic) (s : System J) : Prop where
  addressed : ∀ n, (id, n) ∈ s.pending → ∃ p, s.published[n]? = some p ∧ id ∈ p.recipients
  matched : ∀ p ∈ s.published, id ∈ p.recipients → p.event.topic = topic
  queued : ∀ st, s.bus.mailboxes id = some st → ∀ e ∈ st.queue, e.topic = topic
  received : ∀ r ∈ s.received, r.1 = id → r.2.2.topic = topic
  acked : ∀ n, (id, n) ∈ s.acked → ∃ p, s.published[n]? = some p ∧ p.event.topic = topic ∧ p.era = s.era

section
variable {S : EventSerde J} {C : Codec J} {id : SubscriptionId} {topic : Topic}

theorem oneTopic_empty (durableDir : Bool) : OneTopic id topic (.empty durableDir : System J) :=
  ⟨fun _ h => absurd h not_mem_nil, fun _ h => absurd h not_mem_nil,
    fun _ h => absurd h.symm (some_ne_none _), fun _ h => absurd h not_mem_nil,
    fun _ h => absurd h not_mem_nil⟩

section
variable (h : OneTopic id topic s)
include h

theorem OneTopic.setMailbox (i : SubscriptionId) (st : SubscriberState J)
    (hqueue : i = id → ∀ e ∈ st.queue, e.topic = topic) :
    OneTopic id topic { s with bus := s.bus.setMailbox i st } := by
  refine { h with queued := fun x hx => ?_ }
  rcases setMailbox_eq_some hx with ⟨rfl, rfl⟩ | ⟨-, hold⟩
  · exact hqueue rfl
  · exact h.queued x hold

theorem OneTopic.record {p : Publication J} (htopic : id ∈ p.recipients → p.event.topic = topic) :
    OneTopic id topic (s.record p) := by
  have hkeep : ∀ {n q}, s.published[n]? = some q → (s.record p).published[n]? = some q := fun hq =>
    (List.getElem?_append_left (List.getElem?_eq_some_iff.mp hq).1).trans hq
  refine { h with addressed := fun n hn => ?_, matched := fun q hq => ?_, acked := fun n hn => ?_ }
  · rcases mem_record_pending.mp hn with hn | ⟨hid, rfl⟩
    · obtain ⟨q, hq, hid⟩ := h.addressed n hn
      exact ⟨q, hkeep hq, hid⟩
    · exact ⟨p, List.getElem?_concat_length, hid⟩
  · rcases mem_append.mp hq with hold | hnew
    · exact h.matched q hold
    · exact mem_singleton.mp hnew ▸ htopic
  · obtain ⟨q, hq, hrest⟩ := h.acked n hn
    exact ⟨q, hkeep hq, hrest⟩

theorem OneTopic.exec {op : Op C} (hterms : ∀ st, s.bus.mailboxes id = some st → st.backpressure = .durable)
    (hok : SingleNumbering id topic s op) (hexec : op.exec S s = some s') : OneTopic id topic s' := by
  cases exec_effect hexec with
  | aside ids hnext => exact { h with }
  | subscribed hauth =>
    exact { h.setMailbox s.bus.nextSubId _ (fun _ _ h => absurd h not_mem_nil) with }
  | recorded p hauth hera hpublisher hevent hrecipients =>
    refine h.record fun hid => ?_
    rw [hrecipients, hevent] at hid
    rw [hevent]
    exact hok hid
  | @delivered i n nonce io p st st' hpending hp hst hdeliver =>
    refine { h.setMailbox i st' fun hi => ?_ with
      addressed := fun k hk => h.addressed k (mem_filter.mp hk).1 }
    subst hi
    obtain ⟨q, hq, hid⟩ := h.addressed n hpending
    cases hp.symm.trans hq
    simp only [SubscriberState.deliver, hterms st hst, some.injEq] at hdeliver
    subst hdeliver
    intro e he
    rcases mem_append.mp he with hold | hnew
    · exact h.queued st hst e hold
    · exact mem_singleton.mp hnew ▸ h.matched p (mem_of_getElem? hp) hid
  | @received i first st hst =>
    -- a durable mailbox gives the head of its queue
    have htake : i = id → st.takeReady first = (st.queue.head?, { st with queue := st.queue.tail }) := by
      rintro rfl
      unfold SubscriberState.takeReady
      rw [hterms st hst]
    refine { h.setMailbox i (st.takeReady first).2 fun hi => ?_ with
      received := fun r hr hid => ?_ }
    · rw [htake hi]
      subst hi
      exact fun e he => h.queued st hst e (mem_of_mem_tail he)
    · rcases mem_append.mp hr with hold | hnew
      · exact h.received r hold hid
      · obtain ⟨e, he, rfl⟩ := mem_map.mp hnew
        rw [htake hid] at he
        obtain rfl : i = id := hid
        exact h.queued st hst e (mem_of_mem_head? (mem_toList.mp he))
  | @acked i n p st hp hreceived hst =>
    refine { h.setMailbox i _ fun hi => ?_ with acked := fun k hk => ?_ }
    · subst hi
      split <;> exact h.queued st hst
    · rcases mem_append.mp hk with hold | hnew
      · exact h.acked k hold
      · cases mem_singleton.mp hnew
        obtain ⟨r, hr, hsame⟩ := any_eq_true.mp hreceived
        obtain ⟨hid, -, htopic, -⟩ := of_decide_eq_true hsame
        exact ⟨p, hp, htopic.symm.trans (h.received r hr hid), hok rfl p hp⟩
  | restarted hpending =>
    exact { h with queued := fun _ h => absurd h.symm (some_ne_none _), acked := fun n hn => absurd hn (hok n) }

end

end

/-! ## Replay -/

section
variable {S : EventSerde J} {C : Codec J} {reread : J → Option J} {id : SubscriptionId} {topic : Topic}

variable {bus : BusState J} {st : SubscriberState J} {file : List UInt8}

theorem mailboxOf_eq_ok (h : bus.mailboxOf id = .ok st) :
    bus.mailboxes id = some st := by
  unfold mailboxOf at h
  split at h
  · split at h
    · exact nomatch h
    · next hst => exact hst.trans (congrArg some (Except.ok.inj h))
  · exact nomatch h

theorem replayFrom_eq
    {log : List (WalRecord J)} (hbox : bus.mailboxOf id = .ok st) (hdurable : st.backpressure = .durable)
    (hholds : C.Holds file log) (since : Nat) :
    ∃ events, bus.replayFrom S C file id since = .ok events ∧ ∀ r ∈ log, ∀ e,
      S.fromValue r.metadata = some e → since < e.seq → e ∈ events := by
  unfold replayFrom
  simp only [hbox, hdurable, hholds.replay_eq, ne_eq, not_true_eq_false, if_false, Except.ok.injEq,
    exists_eq_left', mem_insertionSort, mem_filter, mem_filterMap, decide_eq_true_eq]
  exact fun r hr e he hlt => ⟨⟨r, hr, he⟩, hlt⟩

theorem lt_of_mem_replayFrom {since : Nat} {events : List (Event J)}
    (h : bus.replayFrom S C file id since = .ok events) {e : Event J} (he : e ∈ events) : since < e.seq := by
  unfold replayFrom at h
  split at h
  · exact nomatch h
  · split at h
    · exact nomatch h
    · split at h
      · exact nomatch h
      · cases h
        exact of_decide_eq_true (mem_filter.mp ((mem_insertionSort _).mp he)).2

theorem largestAcked_lt {n : Nat} {p : Publication J} (hnum : Numbered s) (hone : OneTopic id topic s)
    (h : Outstanding s id n p) : largestAcked s id < p.event.seq := by
  have hmem := mem_of_getElem? h.published
  have hpos := (hnum.counted p hmem).1
  refine Nat.lt_of_le_of_lt (max_le_of_forall_le _ (p.event.seq - 1) fun x hx => ?_)
    (Nat.sub_one_lt hpos.ne')
  obtain ⟨⟨i, m⟩, hacked, hseq⟩ := mem_filterMap.mp hx
  split at hseq
  · next hi =>
    obtain rfl : i = id := hi
    obtain ⟨q, hq, htopic, hera⟩ := hone.acked m hacked
    rw [hq] at hseq
    obtain rfl := some.inj hseq
    refine Nat.le_sub_one_of_lt (hnum.lt hq h.published (h.later m hacked) hera ?_)
    exact htopic.trans (hone.matched p hmem h.recipient).symm
  · exact nomatch hseq

theorem reached_invariants {durableDir : Bool} (L : C.Lawful reread) (h : Reached S durableDir
      (fun s (op : Op C) => Journaled S reread id s op ∧ SingleNumbering id topic s op) s) :
    Numbered s ∧ Logged S C reread id s ∧ OneTopic id topic s := by
  induction h with
  | refl => exact ⟨⟨.nil, fun _ h => absurd h not_mem_nil⟩, logged_empty durableDir, oneTopic_empty durableDir⟩
  | tail _ hstep ih =>
    obtain ⟨op, ⟨hjournaled, hsingle⟩, hexec⟩ := hstep
    obtain ⟨hnum, hlog, hone⟩ := ih
    exact ⟨hnum.exec hexec, hlog.exec L hjournaled hexec, hone.exec hlog.terms hsingle hexec⟩

/-- **If all that a durable subscription matches is about one topic and it acknowledges on the bus in
use only, then `replay_from` at the largest number acknowledged returns every event published later than
all that was acknowledged.** -/
theorem unacked_events_replayed {durableDir : Bool} (L : C.Lawful reread)
    (h : Reached S durableDir
      (fun s (op : Op C) => Journaled S reread id s op ∧ SingleNumbering id topic s op) s)
    {st : SubscriberState J} (hbox : s.bus.mailboxOf id = .ok st) :
    ∃ events, s.bus.replayFrom S C (s.files id) id (largestAcked s id) = .ok events ∧
      ∀ n p, Outstanding s id n p → p.event ∈ events := by
  obtain ⟨hnum, hlog, hone⟩ := reached_invariants L h
  obtain ⟨log, hholds, hall⟩ := hlog.file
  obtain ⟨events, hreplay, hevents⟩ := replayFrom_eq (S := S) hbox (hlog.terms st (mailboxOf_eq_ok hbox))
    hholds (largestAcked s id)
  refine ⟨events, hreplay, fun n p hout => ?_⟩
  obtain ⟨r, hr, hread⟩ := hall n p hout.published hout.recipient hout.done
  exact hevents r hr p.event hread (largestAcked_lt hnum hone hout)

end

end

/-! ## Two topics, and two buses -/

def journalAs (pattern : TopicPattern) : Op jsonSerde.plain :=
  .subscribe (member 7) 7 pattern .atLeastOnce .durable true

def deliverFirst (n : Nat) : Op jsonSerde.plain := .deliver 1 n () .completed

def receiveFirst : Op jsonSerde.plain := .receive 1 none

theorem journaled_publishAgent (id : SubscriptionId) (s : System Json) (agent : Nat) :
    Journaled jsonEvent jsonReread id s (publishAgent agent) := by
  refine ⟨_, rfl, if_pos ?_, toEvent_ofEvent _⟩
  simp [assign, agentTopic, ofEvent, ofTopic, ofPayload,
    ofSubject, ofKind, jsonOfNat, Json.depth, Json.depthFields, Json.depthField,
    Json.depthItems, Json.recursionLimit]

theorem numbers_increase_two : ∃ s p q, runAll jsonEvent (.empty true) [publishAgent 5, publishAgent 5] = some s ∧
    s.published = [p, q] ∧ p.event.seq < q.event.seq := by
  have hrun : runAll jsonEvent (.empty true) [publishAgent 5, publishAgent 5] = some _ := rfl
  exact ⟨_, _, _, hrun, rfl, (pairwise_cons.mp (numbers_increase hrun)).1 _ mem_cons_self rfl rfl⟩

def oneAcked : Option (System Json) := do
  let s ← (journalAs (.exact (agentTopic 5))).exec jsonEvent (.empty true)
  let s ← (publishAgent 5).exec jsonEvent s
  let s ← (publishAgent 5).exec jsonEvent s
  let s ← (deliverFirst 0).exec jsonEvent s
  let s ← (deliverFirst 1).exec jsonEvent s
  let s ← receiveFirst.exec jsonEvent s
  (Op.ack 1 0 : Op jsonSerde.plain).exec jsonEvent s

theorem unacked_events_replayed_second : ∃ s p, oneAcked = some s ∧ Outstanding s 1 1 p ∧
    ∃ events, s.bus.replayFrom jsonEvent jsonSerde.plain (s.files 1) 1 (largestAcked s 1) = .ok events ∧
      p.event ∈ events := by
  have hreach : ∀ s, oneAcked = some s → Reached jsonEvent true (fun s (op : Op jsonSerde.plain) =>
      Journaled jsonEvent jsonReread 1 s op ∧ SingleNumbering 1 (agentTopic 5) s op) s := by
    rintro s ⟨⟩
    refine ((((((Relation.ReflTransGen.refl.tail
      ⟨journalAs (.exact (agentTopic 5)), ⟨fun _ => rfl, trivial⟩, rfl⟩).tail
      ⟨publishAgent 5, ⟨journaled_publishAgent _ _ _, fun _ => rfl⟩, rfl⟩).tail
      ⟨publishAgent 5, ⟨journaled_publishAgent _ _ _, fun _ => rfl⟩, rfl⟩).tail
      ⟨deliverFirst 0, ⟨fun _ => rfl, trivial⟩, rfl⟩).tail
      ⟨deliverFirst 1, ⟨fun _ => rfl, trivial⟩, rfl⟩).tail
      ⟨receiveFirst, ⟨trivial, trivial⟩, rfl⟩).tail ⟨.ack 1 0, ⟨trivial, ?_⟩, rfl⟩
    rintro - p ⟨⟩
    rfl
  have hout : ∀ s, oneAcked = some s → ∃ p, Outstanding s 1 1 p := by
    rintro s ⟨⟩
    refine ⟨_, rfl, mem_singleton_self _, not_mem_nil, fun m hm => ?_⟩
    cases mem_singleton.mp hm
    exact Nat.zero_lt_one
  obtain ⟨p, hp⟩ := hout _ rfl
  have hbox : ∀ s, oneAcked = some s → ∃ st, s.bus.mailboxOf 1 = .ok st := by
    rintro s ⟨⟩
    exact ⟨_, rfl⟩
  obtain ⟨st, hst⟩ := hbox _ rfl
  obtain ⟨events, hreplay, hevents⟩ := unacked_events_replayed jsonSerde_lawful (hreach _ rfl) hst
  exact ⟨_, p, rfl, hp, events, hreplay, hevents 1 p hp⟩

def Lost (s : System Json) (n : Nat) : Prop :=
  ∃ st p, s.bus.mailboxOf 1 = .ok st ∧ Outstanding s 1 n p ∧ ∀ events,
    s.bus.replayFrom jsonEvent jsonSerde.plain (s.files 1) 1 (largestAcked s 1) = .ok events →
      p.event ∉ events

def twoAcked (pattern : TopicPattern) : List (Op jsonSerde.plain) :=
  [journalAs pattern, publishAgent 5, publishAgent 5, deliverFirst 0, deliverFirst 1, receiveFirst,
    receiveFirst, .ack 1 1]

theorem journaled_twoAcked {pattern : TopicPattern} : ∀ op ∈ twoAcked pattern, ∀ s,
    Journaled jsonEvent jsonReread 1 s op := by
  simp only [twoAcked, forall_mem_cons]
  exact ⟨fun _ _ => rfl, fun _ => journaled_publishAgent _ _ _, fun _ => journaled_publishAgent _ _ _,
    fun _ _ => rfl, fun _ _ => rfl, fun _ => trivial, fun _ => trivial, fun _ => trivial,
    fun _ h => absurd h not_mem_nil⟩

/-- What is to be known of a run: the number and the recipients of each publication, the deliveries to
be made, what was acknowledged, the largest number of it, and whether the subscription exists. -/
structure Summary where
  published : List (Nat × List SubscriptionId)
  pending : List (SubscriptionId × Nat)
  acked : List (SubscriptionId × Nat)
  largest : Nat
  subscribed : Bool
deriving DecidableEq

def summary (s : System Json) : Summary :=
  ⟨s.published.map fun p => (p.event.seq, p.recipients), s.pending, s.acked, largestAcked s 1,
    (s.bus.mailboxOf 1).toBool⟩

/-- Of three events the second is acknowledged, and the third has a smaller number. -/
def thirdBelow : Summary := ⟨[(1, [1]), (2, [1]), (1, [1])], [], [(1, 1)], 2, true⟩

theorem lost_of_summary {s : System Json} (h : summary s = thirdBelow) : Lost s 2 := by
  simp only [summary, thirdBelow, Summary.mk.injEq] at h
  obtain ⟨hpublished, hpending, hacked, hlargest, hbox⟩ := h
  obtain ⟨st, hst⟩ : ∃ st, s.bus.mailboxOf 1 = .ok st := by
    cases hst : s.bus.mailboxOf 1 with
    | error e => exact nomatch hst ▸ hbox
    | ok st => exact ⟨st, rfl⟩
  have hthird := congrArg (fun l => l[2]?) hpublished
  rw [List.getElem?_map] at hthird
  obtain ⟨p, hp, hview⟩ := map_eq_some_iff.mp hthird
  obtain ⟨hseq, hrecipients⟩ := Prod.mk.inj hview
  refine ⟨st, p, hst, ⟨hp, ?_, ?_, ?_⟩, fun events hreplay hmem => ?_⟩
  · rw [hrecipients]
    exact mem_singleton_self 1
  · rw [hpending]
    exact not_mem_nil
  · rw [hacked]
    intro m hm
    cases mem_singleton.mp hm
    exact Nat.one_lt_two
  · have hlt := lt_of_mem_replayFrom hreplay hmem
    omega

def otherTopic : List (Op jsonSerde.plain) :=
  twoAcked (.kindScoped .agentProgress) ++ [publishAgent 6, deliverFirst 2]

/-- An event on the same topic of the next bus, where the subscriber has the same id. -/
def otherBus : List (Op jsonSerde.plain) :=
  twoAcked (.exact (agentTopic 5)) ++
    [.restart, journalAs (.exact (agentTopic 5)), publishAgent 5, deliverFirst 2]

def LosesThird (ops : List (Op jsonSerde.plain)) : Prop :=
  ∃ s, Reached jsonEvent true (fun s (op : Op jsonSerde.plain) => Journaled jsonEvent jsonReread 1 s op) s ∧
    runAll jsonEvent (.empty true) ops = some s ∧ Lost s 2

theorem losesThird_of_summary {ops : List (Op jsonSerde.plain)}
    (hops : ∀ op ∈ ops, ∀ s, Journaled jsonEvent jsonReread 1 s op)
    (hrun : (runAll jsonEvent (.empty true) ops).map summary = some thirdBelow) : LosesThird ops := by
  obtain ⟨s, hs, hsummary⟩ := map_eq_some_iff.mp hrun
  exact ⟨s, Reached.runAll .refl hops hs, hs, lost_of_summary hsummary⟩

/-- **An event of another topic, and one published after a restart, is lost: its number is not above the
one acknowledged.** -/
theorem unacked_event_lost : LosesThird otherTopic ∧ LosesThird otherBus := by
  have hother : ∀ op ∈ otherTopic, ∀ s, Journaled jsonEvent jsonReread 1 s op := by
    simp only [otherTopic, forall_mem_cons, forall_mem_append]
    exact ⟨journaled_twoAcked, fun _ => journaled_publishAgent _ _ _, fun _ _ => rfl,
      fun _ h => absurd h not_mem_nil⟩
  have hbus : ∀ op ∈ otherBus, ∀ s, Journaled jsonEvent jsonReread 1 s op := by
    simp only [otherBus, forall_mem_cons, forall_mem_append]
    exact ⟨journaled_twoAcked, fun _ => trivial, fun _ _ => rfl, fun _ => journaled_publishAgent _ _ _,
      fun _ _ => rfl, fun _ h => absurd h not_mem_nil⟩
  exact ⟨losesThird_of_summary hother (by decide +kernel), losesThird_of_summary hbus (by decide +kernel)⟩

end Hyperion.Events
