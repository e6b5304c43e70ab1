import Hyperion.Audit.Tamper

/-!
# Concurrent appends

Any number of `append` calls run at once, each through its three sections. The counter is advanced
before the lock of the last hash is taken, so entries can be pushed in another order than that of
their numbers. The chain and the anchors come out right exactly if that does not happen.
-/

namespace Hyperion.Audit
open Lib Capability AuditLedger List AuditLogEntry

section
variable {Explanation Rationale : Type} {c : Crypto} {l : AuditLedger c Explanation Rationale}

/-- A ledger and the calls in progress: those that have taken a number, and those that have pushed
their entry and not yet passed the anchoring. -/
structure Calls (c : Crypto) (Explanation Rationale : Type) where
  ledger : AuditLedger c Explanation Rationale
  taken : List (Nat × AuditRecord Explanation Rationale)
  pushed : List Nat

/-- One section of one call. An unauthorised call returns before the first. -/
inductive Step (t : DebugTexts Explanation Rationale)
    (ok : AuditLedger c Explanation Rationale → Nat → Prop) :
    Calls c Explanation Rationale → Calls c Explanation Rationale → Prop
  | call {s : Calls c Explanation Rationale} {monitor : CapabilityMonitor} {clock : Instant}
      {token : CapabilityToken} (r : AuditRecord Explanation Rationale)
      (hauth : monitor.checkRightsOkResult clock token .write = .ok ()) :
      Step t ok s ⟨s.ledger.takeSeq.2, (s.ledger.takeSeq.1, r) :: s.taken, s.pushed⟩
  | push {l : AuditLedger c Explanation Rationale}
      {before after : List (Nat × AuditRecord Explanation Rationale)} {pushed : List Nat} {seq : Nat}
      {r : AuditRecord Explanation Rationale} (hok : ok l seq) :
      Step t ok ⟨l, before ++ (seq, r) :: after, pushed⟩ ⟨l.push t seq r, before ++ after, seq :: pushed⟩
  | anchor {l : AuditLedger c Explanation Rationale}
      {taken : List (Nat × AuditRecord Explanation Rationale)} {before after : List Nat} {seq : Nat} :
      Step t ok ⟨l, taken, before ++ seq :: after⟩ ⟨l.anchorIfDue seq, taken, before ++ after⟩

/-- What the calls on a new ledger reach, where `ok` says when an entry may be pushed. -/
def Reached (t : DebugTexts Explanation Rationale) (keystore : Option c.Keystore)
    (ok : AuditLedger c Explanation Rationale → Nat → Prop) : Calls c Explanation Rationale → Prop :=
  Relation.ReflTransGen (Step t ok) ⟨.new keystore, [], []⟩

def AnyOrder (_ : AuditLedger c Explanation Rationale) (_ : Nat) : Prop := True

/-- The entry pushed has the next number. -/
def InOrder (l : AuditLedger c Explanation Rationale) (seq : Nat) : Prop :=
  seq = l.entries.length + 1

def Returned (s : Calls c Explanation Rationale) : Prop := s.taken = [] ∧ s.pushed = []

variable {t : DebugTexts Explanation Rationale} {keystore : Option c.Keystore}
  {ok : AuditLedger c Explanation Rationale → Nat → Prop} {s : Calls c Explanation Rationale}

/-! ## Numbers -/

theorem numbers_perm (h : Reached t keystore ok s) : 1 ≤ s.ledger.nextSeq ∧
    (s.ledger.entries.map seq ++ s.taken.map Prod.fst).Perm
      (List.range' 1 (s.ledger.nextSeq - 1)) := by
  induction h with
  | refl => exact ⟨le_rfl, .refl _⟩
  | @tail s _ _ hstep ih =>
    cases hstep with
    | call r hauth =>
      obtain ⟨hpos, hperm⟩ := ih
      refine ⟨Nat.le_add_left _ _, ?_⟩
      have hnext : s.ledger.nextSeq + 1 - 1 = s.ledger.nextSeq - 1 + 1 := by omega
      have hlast : 1 + (s.ledger.nextSeq - 1) = s.ledger.nextSeq := by omega
      have hrange : List.range' 1 (s.ledger.nextSeq + 1 - 1) =
          List.range' 1 (s.ledger.nextSeq - 1) ++ [s.ledger.nextSeq] := by
        rw [hnext, range'_1_concat, hlast]
      change (s.ledger.entries.map seq ++ s.ledger.nextSeq :: s.taken.map Prod.fst).Perm
        (List.range' 1 (s.ledger.nextSeq + 1 - 1))
      rw [hrange]
      exact perm_middle.trans
        ((hperm.cons _).trans (perm_append_singleton _ _).symm)
    | @push l before after pushed seq r hok =>
      refine ⟨ih.1, List.Perm.trans ?_ ih.2⟩
      simp only [push, entryOf, map_append, map_cons, map_nil,
        append_assoc, singleton_append]
      exact perm_middle.symm.append_left _
    | @anchor l taken before after seq =>
      obtain ⟨hentries, hnext, -⟩ := anchorIfDue_chain l seq
      rw [hentries, hnext]
      exact ih

/-- **However appends interleave, no number is taken twice**, and once all have returned there is no gap. -/
theorem numbers_once (h : Reached t keystore ok s) :
    (s.ledger.entries.map seq ++ s.taken.map Prod.fst).Nodup ∧
      (Returned s → (s.ledger.entries.map seq).Perm (List.range' 1 s.ledger.entries.length)) := by
  have hperm := (numbers_perm h).2
  refine ⟨hperm.nodup_iff.mpr nodup_range', fun hreturned => ?_⟩
  rw [hreturned.1, map_nil, append_nil] at hperm
  have hlength : s.ledger.entries.length = s.ledger.nextSeq - 1 := by simpa using hperm.length_eq
  rwa [hlength]

theorem reached_inOrder (h : Reached t keystore ok s)
    (horder : s.ledger.entries.map AuditLogEntry.seq = List.range' 1 s.ledger.entries.length) :
    Reached t keystore InOrder s := by
  induction h with
  | refl => exact .refl
  | tail _ hstep ih =>
    cases hstep with
    | call r hauth => exact (ih horder).tail (.call r hauth)
    | @push l before after pushed seq r hok =>
      have hsplit : l.entries.map AuditLogEntry.seq ++ [seq] =
          List.range' 1 l.entries.length ++ [1 + l.entries.length] := by
        rw [← range'_1_concat]
        simpa [AuditLedger.push, entryOf] using horder
      obtain ⟨hprev, hseq⟩ := append_inj' hsplit rfl
      refine (ih hprev).tail (.push ?_)
      exact (List.cons.inj hseq).1.trans (Nat.add_comm _ _)
    | @anchor l taken before after seq =>
      rw [(anchorIfDue_chain l seq).1] at horder
      exact (ih horder).tail .anchor

/-! ## Anchors -/

/-- The anchor covers entries that have been pushed, and is signed with the ledger's key. -/
def Sealed (l : AuditLedger c Explanation Rationale) (a : Anchor c) : Prop :=
  a.toSeq ≤ l.entries.length ∧
    (∃ d rest, l.leaves a.fromSeq a.toSeq = d :: rest ∧ a.root = merkleRoot c d rest) ∧
    ∃ k, l.keystore = some k ∧ a.signature = c.sign k a.root.toList

variable {entries : List (AuditLogEntry Explanation Rationale)} {a : Anchor c}

theorem Sealed.verifyAnchor {k : c.Keystore} (h : Sealed l a) (hsound : c.Sound)
    (hk : l.keystore = some k) : l.verifyAnchor a (c.verifyingKey k) = true := by
  obtain ⟨-, ⟨d, rest, hleaves, hroot⟩, k', hk', hsign⟩ := h
  cases hk.symm.trans hk'
  refine verifyAnchor_eq_true_iff.mpr ⟨?_, d, rest, hleaves, hroot.symm⟩
  rw [hsign]
  exact hsound _ _

theorem Sealed.push (h : Sealed l a) {seq : Nat} (hseq : InOrder l seq)
    (r : AuditRecord Explanation Rationale) : Sealed (l.push t seq r) a := by
  obtain ⟨hto, hleaves, hsign⟩ := h
  have hlater : ¬ (a.fromSeq ≤ seq ∧ seq ≤ a.toSeq) := by
    rw [hseq]
    omega
  have hsame : (l.push t seq r).leaves a.fromSeq a.toSeq = l.leaves a.fromSeq a.toSeq := by
    simp [leaves, AuditLedger.range, AuditLedger.push, filter_append, entryOf, hlater]
  refine ⟨?_, hsame ▸ hleaves, hsign⟩
  simp only [AuditLedger.push, length_append]
  omega

theorem Sealed.anchorIfDue {seq : Nat} (h : ∀ a ∈ l.anchors, Sealed l a) (hseq : seq ≤ l.entries.length) :
    (l.anchorIfDue seq).keystore = l.keystore ∧
      ∀ a ∈ (l.anchorIfDue seq).anchors, Sealed (l.anchorIfDue seq) a := by
  unfold AuditLedger.anchorIfDue
  split
  · exact ⟨rfl, h⟩
  · next k hk =>
    split
    · unfold anchorSegment
      split
      · exact ⟨rfl, h⟩
      · next d rest hleaves =>
        refine ⟨rfl, fun a ha => ?_⟩
        rcases mem_append.mp ha with hold | hnew
        · exact h a hold
        · obtain rfl := mem_singleton.mp hnew
          exact ⟨hseq, ⟨d, rest, hleaves, rfl⟩, k, hk, rfl⟩
    · exact ⟨rfl, h⟩

/-- What holds while all entries are pushed in order. -/
structure Orderly (t : DebugTexts Explanation Rationale) (keystore : Option c.Keystore)
    (s : Calls c Explanation Rationale) : Prop where
  intact : s.ledger.Intact t
  keystore : s.ledger.keystore = keystore
  pushed : ∀ seq ∈ s.pushed, seq ≤ s.ledger.entries.length
  anchors : ∀ a ∈ s.ledger.anchors, Sealed s.ledger a

theorem Orderly.step {s' : Calls c Explanation Rationale} (h : Orderly t keystore s)
    (hstep : Step t InOrder s s') : Orderly t keystore s' := by
  cases hstep with
  | call r hauth => exact ⟨⟨h.intact.chained, h.intact.lastHash⟩, h.keystore, h.pushed, h.anchors⟩
  | @push l before after pushed seq r hok =>
    have hlen : (l.push t seq r).entries.length = l.entries.length + 1 := by
      simp [push]
    refine ⟨?_, h.keystore, fun n hn => ?_, fun a ha => (h.anchors a ha).push hok r⟩
    · rw [hok]
      exact h.intact.push r
    · rw [hlen]
      rcases mem_cons.mp hn with rfl | hn
      · exact hok.le
      · exact Nat.le_succ_of_le (h.pushed n hn)
  | @anchor l taken before after seq =>
    obtain ⟨hentries, -, hlast⟩ := anchorIfDue_chain l seq
    obtain ⟨hkey, hanchors⟩ :=
      Sealed.anchorIfDue h.anchors (h.pushed seq (mem_append_right _ mem_cons_self))
    refine ⟨⟨?_, ?_⟩, hkey.trans h.keystore, fun n hn => ?_, hanchors⟩
    · rw [hentries]
      exact h.intact.chained
    · rw [hlast, hentries]
      exact h.intact.lastHash
    · rw [hentries]
      refine h.pushed n ?_
      rcases mem_append.mp hn with hb | ha
      · exact mem_append_left _ hb
      · exact mem_append_right _ (mem_cons_of_mem _ ha)

theorem orderly_reached (h : Reached t keystore InOrder s) : Orderly t keystore s := by
  induction h with
  | refl => exact ⟨⟨trivial, rfl⟩, rfl, nofun, nofun⟩
  | tail _ hstep ih => exact ih.step hstep

/-! ## The chain -/

theorem range_all {n : Nat} (h : ∀ e ∈ entries, 1 ≤ e.seq ∧ e.seq ≤ n) : range entries 1 n = entries :=
  filter_eq_self.mpr fun e he => decide_eq_true (h e he)

theorem numbers_inOrder (hperm : (entries.map seq).Perm (List.range' 1 entries.length)) {d : Digest} {n : Nat}
    (hchain : (links t c).Chained d n entries) :
    entries.map seq = List.range' 1 entries.length := by
  have hseq : entries.map seq = List.range' n entries.length := hchain.map_seq
  rcases entries.length.eq_zero_or_pos with hzero | hpos
  · rw [hseq, hzero]
    rfl
  · rw [hseq] at hperm
    have hfirst := mem_range'_1.mp (hperm.mem_iff.mpr (mem_range'_1.mpr ⟨le_rfl, by omega⟩))
    have hn := mem_range'_1.mp (hperm.mem_iff.mp (mem_range'_1.mpr ⟨le_rfl, by omega⟩))
    have hone : n = 1 := le_antisymm hfirst.1 hn.1
    rw [hseq, hone]

/-- **Once all calls have returned, the chain is intact and every anchor verifies, if and only if every
entry was pushed when all smaller numbers had been.** -/
theorem concurrent_appends_intact (hsound : c.Sound) (h : Reached t keystore AnyOrder s)
    (hreturned : Returned s) (hne : s.ledger.entries ≠ []) :
    (verifyChain t c s.ledger.entries 1 s.ledger.entries.length = .intact ∧
      ∀ k, keystore = some k → ∀ a ∈ s.ledger.anchors,
        s.ledger.verifyAnchor a (c.verifyingKey k) = true) ↔
      Reached t keystore InOrder s := by
  obtain ⟨hpos, hperm⟩ := numbers_perm h
  rw [hreturned.1, map_nil, append_nil] at hperm
  have hlen : s.ledger.nextSeq - 1 = s.ledger.entries.length := by
    simpa using hperm.length_eq.symm
  rw [hlen] at hperm
  have hall : range s.ledger.entries 1 s.ledger.entries.length = s.ledger.entries := by
    refine range_all fun e he => ?_
    have hmem := mem_range'_1.mp (hperm.mem_iff.mp (mem_map_of_mem he))
    omega
  rw [verifyChain_eq_intact_iff, hall]
  constructor
  · rintro ⟨⟨-, d, n, hchain, -⟩, -⟩
    exact reached_inOrder h (numbers_inOrder hperm hchain)
  · intro horder
    have hinv := orderly_reached horder
    refine ⟨⟨hne, _, _, hinv.intact.chained, fun _ => rfl⟩, fun k hk a ha => ?_⟩
    exact (hinv.anchors a ha).verifyAnchor hsound (hinv.keystore.trans hk)

/-! ## Two calls -/

theorem auditor_authorized : auditor.2.checkRightsOkResult 0 auditor.1 .write = .ok () := rfl

variable (r r' : AuditRecord Explanation Rationale)

def twoTaken : Calls c Explanation Rationale :=
  ⟨(AuditLedger.new none).takeSeq.2.takeSeq.2, [(2, r'), (1, r)], []⟩

theorem twoTaken_reached : Reached t none ok (twoTaken r r' : Calls c Explanation Rationale) :=
  (Relation.ReflTransGen.refl.tail (.call r auditor_authorized)).tail (.call r' auditor_authorized)

/-- Both entries are pushed, in the order of their numbers or the other way, and both calls return. -/
def twoReturned (t : DebugTexts Explanation Rationale) (r r' : AuditRecord Explanation Rationale)
    (inOrder : Bool) : Calls c Explanation Rationale :=
  let l := (twoTaken r r').ledger
  ⟨if inOrder then (l.push t 1 r).push t 2 r' else (l.push t 2 r').push t 1 r, [], []⟩

theorem twoReturned_inOrder
    (hfirst : ok ((twoTaken r r').ledger) 1) (hsecond : ok ((twoTaken r r').ledger.push t 1 r) 2) :
    Reached t none ok (twoReturned t r r' true : Calls c Explanation Rationale) := by
  have hone := (twoTaken_reached r r').tail (@Step.push _ _ _ t ok _ [(2, r')] [] [] 1 r hfirst)
  have htwo := hone.tail (@Step.push _ _ _ t ok _ [] [] [1] 2 r' hsecond)
  exact (htwo.tail (@Step.anchor _ _ _ t ok _ [] [] [1] 2)).tail (@Step.anchor _ _ _ t ok _ [] [] [] 1)

theorem twoReturned_overtaken :
    Reached t none AnyOrder (twoReturned t r r' false : Calls c Explanation Rationale) := by
  have htwo := (twoTaken_reached r r').tail (@Step.push _ _ c t AnyOrder _ [] [(1, r)] [] 2 r' trivial)
  have hone := htwo.tail (@Step.push _ _ _ t AnyOrder _ [] [] [2] 1 r trivial)
  exact (hone.tail (@Step.anchor _ _ _ t AnyOrder _ [] [] [2] 1)).tail
    (@Step.anchor _ _ _ t AnyOrder _ [] [] [] 2)

/-- A third call, once the two have returned. -/
def threeReturned (t : DebugTexts Explanation Rationale) (r r' r'' : AuditRecord Explanation Rationale) :
    Calls c Explanation Rationale :=
  ⟨(twoReturned t r r' true).ledger.takeSeq.2.push t 3 r'', [], []⟩

theorem threeReturned_reached {r'' : AuditRecord Explanation Rationale}
    (h : Reached t none ok (twoReturned t r r' true : Calls c Explanation Rationale))
    (hthird : ok (twoReturned t r r' true).ledger.takeSeq.2 3) :
    Reached t none ok (threeReturned t r r' r'' : Calls c Explanation Rationale) :=
  ((h.tail (.call r'' auditor_authorized)).tail (@Step.push _ _ _ t ok _ [] [] [] 3 r'' hthird)).tail
    (@Step.anchor _ _ _ t ok _ [] [] [] 3)

theorem verifyChain_overtaken :
    verifyChain t c (twoReturned t r r' false : Calls c Explanation Rationale).ledger.entries 1 2 =
      .corrupt 1 := by
  simp [twoReturned, twoTaken, verifyChain, AuditLedger.range, verifyLoop, recomputed, AuditLedger.push,
    entryOf, takeSeq, AuditLedger.new]

end

theorem concurrent_appends_intact_pair : verifyChain plainTexts noteCrypto
    (threeReturned plainTexts (sampleRecord "a" 5) (sampleRecord "b" 6) (sampleRecord "c" 7) :
      Calls noteCrypto Empty Empty).ledger.entries 1 3 = .intact :=
  ((concurrent_appends_intact noteCrypto_sound
    (threeReturned_reached _ _ (twoReturned_inOrder _ _ trivial trivial) trivial) ⟨rfl, rfl⟩ nofun).mpr
      (threeReturned_reached _ _ (twoReturned_inOrder _ _ rfl rfl) rfl)).1

theorem numbers_once_overtaken : ((twoReturned plainTexts (sampleRecord "a" 5) (sampleRecord "b" 6) false :
    Calls noteCrypto Empty Empty).ledger.entries.map seq).Perm [1, 2] :=
  (numbers_once (twoReturned_overtaken _ _)).2 ⟨rfl, rfl⟩

/-- **A call that is overtaken between its first two sections leaves a corrupt chain.** -/
theorem overtaken_append_corrupts : ∃ s : Calls noteCrypto Empty Empty,
    Reached plainTexts none AnyOrder s ∧ Returned s ∧
      s.ledger.entries.map AuditLogEntry.payload =
        [(sampleRecord "b" 6).payload, (sampleRecord "a" 5).payload] ∧
      verifyChain plainTexts noteCrypto s.ledger.entries 1 2 = .corrupt 1 :=
  ⟨twoReturned plainTexts (sampleRecord "a" 5) (sampleRecord "b" 6) false, twoReturned_overtaken _ _,
    ⟨rfl, rfl⟩, rfl, verifyChain_overtaken _ _⟩

end Hyperion.Audit
