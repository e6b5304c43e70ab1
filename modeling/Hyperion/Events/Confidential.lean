import Hyperion.Events.JsonEvent

/-!
# Who an event is delivered to

`subscribe` compares the origin of the token with an owner that the same caller names, and matching
looks at topics and at the ancestors that the publisher names. Nothing ties these names to the subject's
owner. If the callers name it truthfully, events stay within their boundary.
-/

namespace Hyperion.Events
open Lib Capability Storage List

section
variable {J : Type}

def MayReceive (st : SubscriberState J) (publisher : TrustBoundaryId) : Prop :=
  st.holder.origin = publisher ∨
    (st.pattern.isKindScoped = true ∧ st.holder.rights.contains .grant = true)

def TopicPattern.root : TopicPattern → Option Nat
  | .exact topic => some topic.subject.raw
  | .subtree _ root => some root.raw
  | .kindScoped _ => none

/-- Publishers name the owner of the subject, and no bus is replaced. -/
def PublisherOwns (owner : Nat → TrustBoundaryId) {C : Codec J} (_ : System J) : Op C → Prop
  | .publish _ named topic _ _ _ => named = owner topic.subject.raw
  | .restart => False
  | _ => True

/-- Subscribers name the owner of the subject of their pattern, and publishers own the ancestors. -/
def NamesOwner (owner : Nat → TrustBoundaryId) {C : Codec J} (_ : System J) : Op C → Prop
  | .subscribe _ named pattern _ _ _ => ∀ raw, pattern.root = some raw → named = owner raw
  | .publish _ named _ _ _ ancestors => ∀ raw ∈ ancestors, named = owner raw
  | _ => True

variable {id : SubscriptionId} {st st' : SubscriberState J} {b : TrustBoundaryId} {event : Event J}

theorem root_mem_of_matches {pattern : TopicPattern}
    (hmatch : pattern.matchesEvent event = true) (hkind : pattern.isKindScoped = false) :
    ∃ raw, pattern.root = some raw ∧ (raw = event.topic.subject.raw ∨ raw ∈ event.ancestors) := by
  cases pattern with
  | exact topic =>
    have htopic : event.topic = topic := by simpa [TopicPattern.matchesEvent] using hmatch
    exact ⟨_, rfl, .inl (congrArg (fun t => t.subject.raw) htopic.symm)⟩
  | subtree kind root =>
    simp only [TopicPattern.matchesEvent, Bool.and_eq_true, Bool.or_eq_true, beq_iff_eq,
      contains_iff_mem] at hmatch
    refine ⟨_, rfl, ?_⟩
    rcases hmatch.2 with hself | hbelow
    · exact .inl hself.symm
    · exact .inr hbelow
  | kindScoped kind => exact nomatch hkind

/-! ## The invariant -/

theorem SameTerms.mayReceive (h : SameTerms st st') (hmay : MayReceive st b) : MayReceive st' b := by
  rw [MayReceive, h.pattern, h.holder]
  exact hmay

/-- The subscription is one of the owner of its subject, or kind-scoped under `GRANT`. -/
def Entitled (owner : Nat → TrustBoundaryId) (st : SubscriberState J) : Prop :=
  (st.pattern.isKindScoped = true ∧ st.holder.rights.contains .grant = true) ∨
    (st.pattern.isKindScoped = false ∧ ∀ raw, st.pattern.root = some raw → st.holder.origin = owner raw)

structure Confined (owner : Nat → TrustBoundaryId) (s : System J) : Prop where
  unused : ∀ id, s.bus.nextSubId ≤ id → s.bus.mailboxes id = none
  entitled : ∀ id st, s.bus.mailboxes id = some st → Entitled owner st
  recipients : ∀ p ∈ s.published, ∀ id ∈ p.recipients,
    ∃ st, s.bus.mailboxes id = some st ∧ MayReceive st p.publisher
  addressed : ∀ id n, (id, n) ∈ s.pending ∨ (id, n) ∈ s.delivered →
    ∃ p, s.published[n]? = some p ∧ id ∈ p.recipients

variable {owner : Nat → TrustBoundaryId} {s : System J}

theorem confined_empty (durableDir : Bool) : Confined owner (System.empty durableDir : System J) where
  unused _ _ := rfl
  entitled _ _ h := nomatch h
  recipients _ h := nomatch h
  addressed _ _ h := by rcases h with h | h <;> exact nomatch h

theorem Confined.setMailbox {ids : List SubscriptionId} {next : Nat}
    {st' : SubscriberState J} (h : Confined owner s) (hnext : s.bus.nextSubId ≤ next) (hid : id < next)
    (hentitled : Entitled owner st')
    (hterms : ∀ st, s.bus.mailboxes id = some st → SameTerms st st') : Confined owner { s with
      bus := BusState.setMailbox { s.bus with subscriptions := ids, nextSubId := next } id st' } := by
  refine ⟨fun i hi => ?_, fun i x hx => ?_, fun p hp i hi => ?_, h.addressed⟩
  · exact (setMailbox_of_ne _ (hid.trans_le hi).ne' _).trans (h.unused i (hnext.trans hi))
  · rcases setMailbox_eq_some hx with ⟨-, rfl⟩ | ⟨-, hold⟩
    · exact hentitled
    · exact h.entitled i x hold
  · obtain ⟨x, hx, hmay⟩ := h.recipients p hp i hi
    by_cases hi : i = id
    · subst hi
      exact ⟨st', setMailbox_self _ _ _, (hterms x hx).mayReceive hmay⟩
    · exact ⟨x, (setMailbox_of_ne _ hi _).trans hx, hmay⟩

theorem Confined.sameTerms (h : Confined owner s)
    (hst : s.bus.mailboxes id = some st) (hterms : SameTerms st st') :
    Confined owner { s with bus := s.bus.setMailbox id st' } := by
  refine h.setMailbox le_rfl ?_ ?_ fun x hx => ?_
  · by_contra hle
    exact nomatch hst.symm.trans (h.unused id (not_lt.mp hle))
  · rw [Entitled, hterms.pattern, hterms.holder]
    exact h.entitled id st hst
  · cases hst.symm.trans hx
    exact hterms

theorem Confined.addressed_append (h : Confined owner s) {n : Nat}
    (hn : (id, n) ∈ s.pending ∨ (id, n) ∈ s.delivered) (p : Publication J) :
    ∃ q, (s.published ++ [p])[n]? = some q ∧ id ∈ q.recipients := by
  obtain ⟨q, hq, hid⟩ := h.addressed id n hn
  exact ⟨q, (List.getElem?_append_left (List.getElem?_eq_some_iff.mp hq).1).trans hq, hid⟩

theorem Entitled.mayReceive {st : SubscriberState J}
    (h : Entitled owner st) (hmatch : st.pattern.matchesEvent event = true)
    (hsubject : b = owner event.topic.subject.raw) (hancestors : ∀ raw ∈ event.ancestors, b = owner raw) :
    MayReceive st b := by
  rcases h with hgrant | ⟨hkind, horigin⟩
  · exact .inr hgrant
  · obtain ⟨raw, hroot, habout⟩ := root_mem_of_matches hmatch hkind
    refine .inl ((horigin raw hroot).trans ?_)
    rcases habout with rfl | hbelow
    · exact hsubject.symm
    · exact (hancestors raw hbelow).symm

theorem Confined.record (h : Confined owner s) {p : Publication J}
    (hrecipients : p.recipients = s.bus.matching p.event)
    (hsubject : p.publisher = owner p.event.topic.subject.raw)
    (hancestors : ∀ raw ∈ p.event.ancestors, p.publisher = owner raw) : Confined owner (s.record p) := by
  refine ⟨h.unused, h.entitled, fun q hq id hid => ?_, fun id n hn => ?_⟩
  · rcases mem_append.mp hq with hold | hnew
    · exact h.recipients q hold id hid
    · obtain rfl := mem_singleton.mp hnew
      rw [hrecipients] at hid
      obtain ⟨st, hst, hmatch⟩ := mem_matching hid
      exact ⟨st, hst, (h.entitled id st hst).mayReceive hmatch hsubject hancestors⟩
  · rw [mem_record_pending] at hn
    rcases hn with (hn | ⟨hid, rfl⟩) | hn
    · exact h.addressed_append (.inl hn) p
    · exact ⟨p, List.getElem?_concat_length, hid⟩
    · exact h.addressed_append (.inr hn) p

theorem Confined.exec {S : EventSerde J} {C : Codec J} {op : Op C} {s' : System J}
    (h : Confined owner s) (howns : PublisherOwns owner s op) (hnames : NamesOwner owner s op)
    (hexec : op.exec S s = some s') : Confined owner s' := by
  cases exec_effect hexec with
  | aside ids hnext => exact { h with unused := fun id hid => h.unused id (hnext.trans hid) }
  | subscribed hauth =>
    refine h.setMailbox (Nat.le_succ _) (Nat.lt_succ_self _) ?_ fun st hst => ?_
    · rcases authorizeSubscribe_eq_ok hauth with hgrant | ⟨hkind, horigin⟩
      · exact .inl hgrant
      · exact .inr ⟨hkind, fun raw hraw => horigin.trans (hnames raw hraw)⟩
    · exact nomatch hst.symm.trans (h.unused _ le_rfl)
  | recorded p hauth hera hpublisher hevent hrecipients =>
    have horigin := hpublisher.trans (authorizePublish_eq_ok hauth)
    refine h.record hrecipients ?_ ?_
    · rw [hevent]
      exact horigin.trans howns
    · rw [hevent]
      exact fun raw hraw => horigin.trans (hnames raw hraw)
  | @delivered id n nonce io p st st' hpending hp hst hdeliver =>
    refine { h.sameTerms hst (sameTerms_deliver hdeliver) with addressed := fun i m hm => h.addressed i m ?_ }
    rcases hm with hm | hm
    · exact .inl (mem_filter.mp hm).1
    · rcases mem_append.mp hm with hm | hm
      · exact .inr hm
      · cases mem_singleton.mp hm
        exact .inl hpending
  | received hst => exact { h.sameTerms hst (sameTerms_takeReady _ _) with }
  | acked hp hreceived hst => exact { h.sameTerms hst (sameTerms_ack _ _) with }
  | restarted hpending => exact howns.elim

/-- **If publishers own what their events are about and callers name owners truthfully, an event is
only ever delivered within the boundary of its publisher or to kind-scoped subscriptions under
`GRANT`.** -/
theorem events_stay_in_boundary {S : EventSerde J} {C : Codec J} {durableDir : Bool}
    (h : Reached S durableDir (fun s (op : Op C) => PublisherOwns owner s op ∧ NamesOwner owner s op) s)
    {id : SubscriptionId} {n : Nat} (hdelivered : (id, n) ∈ s.delivered) :
    ∃ p st, s.published[n]? = some p ∧ s.bus.mailboxes id = some st ∧ MayReceive st p.publisher := by
  have hconf : Confined owner s := by
    clear hdelivered
    induction h with
    | refl => exact confined_empty durableDir
    | tail _ hstep ih =>
      obtain ⟨op, ⟨howns, hnames⟩, hexec⟩ := hstep
      exact ih.exec howns hnames hexec
  obtain ⟨p, hp, hid⟩ := hconf.addressed id n (.inr hdelivered)
  obtain ⟨st, hst, hmay⟩ := hconf.recipients p (mem_of_getElem? hp) id hid
  exact ⟨p, st, hp, hst, hmay⟩

end

/-! ## A subscriber of another boundary -/

def subscribeAs (boundary : Nat) : Op jsonSerde.plain :=
  .subscribe (member boundary) boundary (.exact (agentTopic 5)) .atMostOnce (.buffer 4) true

/-- It is followed by a call of boundary 7, which owns every subject. -/
def agentRun (boundary : Nat) : Option (System Json) := do
  let s ← (subscribeAs boundary).exec jsonEvent (.empty false)
  let s ← (publishAgent 5).exec jsonEvent s
  (Op.deliver 1 0 () .completed : Op jsonSerde.plain).exec jsonEvent s

theorem events_stay_in_boundary_member : ∃ s, agentRun 7 = some s ∧ (1, 0) ∈ s.delivered ∧
    ∃ p st, s.published[0]? = some p ∧ s.bus.mailboxes 1 = some st ∧ MayReceive st p.publisher := by
  have hreach : ∀ s, agentRun 7 = some s → Reached jsonEvent false (fun s (op : Op jsonSerde.plain) =>
      PublisherOwns (fun _ => 7) s op ∧ NamesOwner (fun _ => 7) s op) s := by
    rintro s ⟨⟩
    exact ((Relation.ReflTransGen.refl.tail ⟨subscribeAs 7, ⟨trivial, fun _ _ => rfl⟩, rfl⟩).tail
      ⟨publishAgent 5, ⟨rfl, nofun⟩, rfl⟩).tail ⟨.deliver 1 0 () .completed, ⟨trivial, trivial⟩, rfl⟩
  exact ⟨_, rfl, mem_singleton_self _,
    events_stay_in_boundary (hreach _ rfl) (mem_singleton_self _)⟩

/-- **A subscriber of any boundary that names itself as the owner receives the event.** -/
theorem stranger_receives_event : ∃ s p st,
    Reached jsonEvent false (fun s (op : Op jsonSerde.plain) => PublisherOwns (fun _ => 7) s op) s ∧
      (1, 0) ∈ s.delivered ∧ s.published[0]? = some p ∧ s.bus.mailboxes 1 = some st ∧
      p.publisher = 7 ∧ st.queue = [p.event] ∧ st.holder.origin = 8 ∧ st.pattern.isKindScoped = false := by
  refine ⟨_, _, _, ((Relation.ReflTransGen.refl.tail ⟨subscribeAs 8, trivial, rfl⟩).tail
    ⟨publishAgent 5, rfl, rfl⟩).tail ⟨.deliver 1 0 () .completed, trivial, rfl⟩,
    mem_singleton_self _, rfl, rfl, rfl, rfl, rfl, rfl⟩

end Hyperion.Events
