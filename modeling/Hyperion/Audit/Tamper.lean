import Hyperion.Audit.Ledger

/-!
# What `verify_chain` notices

A ledger is built by appends, and its stored entries are then replaced by others. If `verify_chain` of
a range still says `Intact`, the entries of the range are the original ones up to some number and have
other hashes from there on, provided that no entry is missing at the two ends of the range and that no
entry has been given another timestamp under its own hash: the hash does not cover the timestamp, and
the range is only compared with its own first number.
-/

namespace Hyperion.Audit
open Lib Lib.Json Capability List AuditLedger

/-! ## The hashed text determines the fields -/

theorem stops_paren (rest : List Char) : Stops (')' :: rest) := stops_cons (by decide) rest

theorem tupleText_append_inj {name : String} {n m : Nat} {s t : List Char}
    (h : tupleText name n ++ s = tupleText name m ++ t) : n = m ∧ s = t := by
  simp only [tupleText, append_assoc, append_cancel_left_eq, cons_append,
    List.cons.injEq, true_and, nil_append] at h
  obtain ⟨hn, hst⟩ := renderNat_append_inj (stops_paren s) (stops_paren t) h
  exact ⟨hn, (List.cons.inj hst).2⟩

theorem principal_debug_head (p : PrincipalRef) (rest : List Char) : (p.debug ++ rest).head? = some
    (match p with
      | .user _ => 'U'
      | .agent _ => 'A'
      | .capability _ => 'C'
      | .system => 'S') := by
  cases p <;> rfl

theorem selfDelimiting_principal : SelfDelimiting PrincipalRef.debug := by
  intro a b s t h
  have hhead := congrArg List.head? h
  rw [principal_debug_head, principal_debug_head, Option.some.injEq] at hhead
  cases a <;> cases b
  case user.user =>
    obtain ⟨rfl, hst⟩ := tupleText_append_inj h
    exact ⟨rfl, hst⟩
  case agent.agent =>
    obtain ⟨rfl, hst⟩ := tupleText_append_inj h
    exact ⟨rfl, hst⟩
  case capability.capability =>
    obtain ⟨rfl, hst⟩ := tupleText_append_inj h
    exact ⟨rfl, hst⟩
  case system.system => exact ⟨rfl, append_cancel_left h⟩
  all_goals simp at hhead

theorem selfDelimiting_action : SelfDelimiting AuditAction.debug := by
  have hhead : ∀ (x : AuditAction) (rest : List Char), (x.debug ++ rest).head? = x.debug.head? := by
    intro x rest
    cases x <;> rfl
  have hinj : ∀ x y : AuditAction, x.debug.head? = y.debug.head? → x = y := by
    intro x y
    cases x <;> cases y <;> decide
  intro a b s t h
  obtain rfl := hinj a b (by rw [← hhead a s, h, hhead])
  exact ⟨rfl, append_cancel_left h⟩

section
variable {Explanation Rationale : Type} {t : DebugTexts Explanation Rationale}
  {e f : AuditLogEntry Explanation Rationale} {stored original : List (AuditLogEntry Explanation Rationale)}

theorem target_debug_head (target : Option String) (rest : List Char) :
    (debugTarget t target ++ rest).head? = some (if target.isNone then 'N' else 'S') := by
  cases target <;> rfl

theorem debugTarget_some_append (x : String) (rest : List Char) : debugTarget t (some x) ++ rest =
    "Some(".toList ++ (debugStr t.printable x ++ (')' :: rest)) :=
  (append_assoc "Some(".toList _ rest).trans
    (congrArg ("Some(".toList ++ ·) (append_assoc _ [')'] rest))

theorem selfDelimiting_target : SelfDelimiting (debugTarget t) := by
  intro a b s s' h
  have hhead := congrArg List.head? h
  rw [target_debug_head, target_debug_head, Option.some.injEq] at hhead
  cases a <;> cases b
  case none.none => exact ⟨rfl, append_cancel_left h⟩
  case some.some x y =>
    have hrest := append_cancel_left
      ((debugTarget_some_append x s).symm.trans (h.trans (debugTarget_some_append y s')))
    obtain ⟨rfl, hst⟩ := selfDelimiting_debugStr x y _ _ hrest
    exact ⟨rfl, (List.cons.inj hst).2⟩
  all_goals simp at hhead

theorem payload_debug_head (p : AuditPayload Explanation Rationale) : (p.debug t).head? = some
    (match p with
      | .explanation _ => 'E'
      | .modelRouting _ _ => 'M'
      | .grant _ => 'G'
      | .revoke _ _ => 'R'
      | .consentChange _ => 'C'
      | .note _ => 'N') := by
  cases p <;> rfl

theorem payload_debug_injective (ht : t.Injective) : Function.Injective (AuditPayload.debug t) := by
  have hstr : ∀ {a b : String} {s s' : List Char}, debugStr t.printable a ++ s =
      debugStr t.printable b ++ s' → a = b ∧ s = s' := fun h => selfDelimiting_debugStr _ _ _ _ h
  have hbrace : Stops " \x7d".toList := stops_cons (by decide) _
  have hcomma : ∀ rest, Stops (", rationale: ".toList ++ rest) := fun rest => stops_cons (by decide) _
  intro a b h
  have hhead := congrArg List.head? h
  rw [payload_debug_head, payload_debug_head, Option.some.injEq] at hhead
  cases a <;> cases b
  case explanation.explanation x y =>
    have hx := append_cancel_right (append_cancel_left h)
    rw [ht.explanation hx]
  case modelRouting.modelRouting n x m y =>
    obtain ⟨rfl, hrest⟩ := renderNat_append_inj (hcomma _) (hcomma _) (append_cancel_left h)
    have hx := append_cancel_right (append_cancel_left hrest)
    rw [ht.rationale hx]
  case grant.grant x y =>
    rw [(hstr (append_cancel_left h)).1]
  case revoke.revoke x x' y y' =>
    obtain ⟨rfl, hrest⟩ := hstr (append_cancel_left h)
    rw [(hstr (append_cancel_left hrest)).1]
  case consentChange.consentChange n m =>
    rw [(renderNat_append_inj hbrace hbrace (append_cancel_left h)).1]
  case note.note x y =>
    rw [(hstr (append_cancel_left h)).1]
  all_goals simp at hhead

theorem length_leBytes (n : Nat) : (leBytes n).length = 8 := by
  rw [leBytes, length_map, length_range]

theorem preimage_inj (ht : t.Injective) (h : preimage t e.prevHash e.seq e.actor e.action e.target e.payload =
      preimage t f.prevHash f.seq f.actor f.action f.target f.payload) :
    e.prevHash = f.prevHash ∧ e.actor = f.actor ∧ e.action = f.action ∧ e.target = f.target ∧
      e.payload = f.payload := by
  have hlen : e.prevHash.toList.length = f.prevHash.toList.length := by
    rw [Vector.length_toList, Vector.length_toList]
  have hle : (leBytes e.seq).length = (leBytes f.seq).length := by
    rw [length_leBytes, length_leBytes]
  obtain ⟨hprev, hrest⟩ := append_inj h hlen
  obtain ⟨-, hbytes⟩ := append_inj hrest hle
  obtain ⟨hactor, hrest⟩ := selfDelimiting_principal _ _ _ _ (utf8Bytes_injective hbytes)
  obtain ⟨haction, hrest⟩ := selfDelimiting_action _ _ _ _ hrest
  obtain ⟨htarget, hpayload⟩ := selfDelimiting_target _ _ _ _ hrest
  exact ⟨Vector.toList_inj.mp hprev, hactor, haction, htarget, payload_debug_injective ht hpayload⟩

variable {c : Crypto}

/-! ## Ledgers built by appends -/

def Built (t : DebugTexts Explanation Rationale) (keystore : Option c.Keystore) :
    AuditLedger c Explanation Rationale → Prop :=
  Relation.ReflTransGen (fun l l' => ∃ monitor clock token r, (l.append t monitor clock token r).2 = l')
    (AuditLedger.new keystore)

/-- The entries are chained from the start, and the next one follows the last hash. -/
structure AuditLedger.Intact (t : DebugTexts Explanation Rationale)
    (l : AuditLedger c Explanation Rationale) : Prop where
  chained : (links t c).Chained (genesisHash c) 1 l.entries
  lastHash : l.lastHash = (links t c).tip (genesisHash c) l.entries

namespace AuditLedger

variable {l : AuditLedger c Explanation Rationale}

variable (l)

@[simp] theorem anchorSegment_entries (k : c.Keystore) (a b : Nat) :
    (l.anchorSegment k a b).entries = l.entries := by
  unfold anchorSegment
  split <;> rfl

@[simp] theorem anchorSegment_nextSeq (k : c.Keystore) (a b : Nat) :
    (l.anchorSegment k a b).nextSeq = l.nextSeq := by
  unfold anchorSegment
  split <;> rfl

@[simp] theorem anchorSegment_lastHash (k : c.Keystore) (a b : Nat) :
    (l.anchorSegment k a b).lastHash = l.lastHash := by
  unfold anchorSegment
  split <;> rfl

theorem anchorIfDue_chain (seq : Nat) :
    (l.anchorIfDue seq).entries = l.entries ∧ (l.anchorIfDue seq).nextSeq = l.nextSeq ∧
      (l.anchorIfDue seq).lastHash = l.lastHash := by
  unfold anchorIfDue
  split
  · exact ⟨rfl, rfl, rfl⟩
  · split
    · simp
    · exact ⟨rfl, rfl, rfl⟩

variable {l}

theorem Intact.push (h : l.Intact t) (r : AuditRecord Explanation Rationale) :
    (l.push t (l.entries.length + 1) r).Intact t where
  chained := by
    refine Links.chained_concat.mpr ⟨h.chained, ?_, h.lastHash, rfl⟩
    exact Nat.add_comm _ _
  lastHash := (Links.tip_concat (L := links t c) _ _ _).symm

end AuditLedger

open AuditLedger

theorem Built.intact {keystore : Option c.Keystore} {l : AuditLedger c Explanation Rationale}
    (h : Built t keystore l) : l.Intact t ∧ l.nextSeq = l.entries.length + 1 := by
  induction h with
  | refl => exact ⟨⟨trivial, rfl⟩, rfl⟩
  | @tail l _ _ hstep ih =>
    obtain ⟨monitor, clock, token, r, rfl⟩ := hstep
    obtain ⟨hintact, hnext⟩ := ih
    unfold append
    split
    · exact ⟨hintact, hnext⟩
    · have htaken : ({ l with nextSeq := l.nextSeq + 1 } : AuditLedger c Explanation Rationale).Intact t :=
        ⟨hintact.chained, hintact.lastHash⟩
      have hpushed := htaken.push r
      obtain ⟨hentries, hseq, hlast⟩ := anchorIfDue_chain
        (({ l with nextSeq := l.nextSeq + 1 } : AuditLedger c Explanation Rationale).push t l.nextSeq r)
        l.nextSeq
      rw [← hnext] at hpushed
      refine ⟨⟨?_, ?_⟩, ?_⟩
      · exact hentries ▸ hpushed.chained
      · rw [takeSeq, hlast, hentries]
        exact hpushed.lastHash
      · rw [takeSeq, hseq, hentries]
        simp [push, hnext]

/-! ## Ranges -/

variable {entries : List (AuditLogEntry Explanation Rationale)}

theorem mem_range {a b : Nat} {e : AuditLogEntry Explanation Rationale} :
    e ∈ range entries a b ↔ e ∈ entries ∧ a ≤ e.seq ∧ e.seq ≤ b := by
  rw [AuditLedger.range, mem_filter, decide_eq_true_eq]

theorem range_chained {d : Digest} {n a : Nat} (h : (links t c).Chained d n entries) (hna : n ≤ a) (b : Nat) :
    ∃ d', (links t c).Chained d' a (range entries a b) := by
  have hrange : range entries a b = (entries.filter fun e => e.seq ≤ b).filter fun e => a ≤ e.seq := by
    rw [filter_filter, AuditLedger.range]
    exact filter_congr fun e _ => Bool.decide_and _ _
  rw [hrange]
  exact (h.filter_le b).filter_ge hna

/-! ## Alterations -/

/-- No two of the entries collide under the hash. -/
def CollisionFree (t : DebugTexts Explanation Rationale) (c : Crypto)
    (entries : List (AuditLogEntry Explanation Rationale)) : Prop :=
  ∀ e ∈ entries, ∀ f ∈ entries, recomputed t c e = recomputed t c f →
    preimage t e.prevHash e.seq e.actor e.action e.target e.payload =
      preimage t f.prevHash f.seq f.actor f.action f.target f.payload

/-- The original entries up to some point, and other hashes than the original ones from there on. -/
def OriginalOrRecomputed (stored original : List (AuditLogEntry Explanation Rationale)) : Prop :=
  ∃ i, stored.take i = original.take i ∧
    List.Forall₂ (fun e f => e.entryHash ≠ f.entryHash) (stored.drop i) (original.drop i)

/-- The range has an entry at each of its two ends. -/
def EndsKept (stored : List (AuditLogEntry Explanation Rationale)) (fromSeq toSeq : Nat) : Prop :=
  (∃ e ∈ stored, e.seq = fromSeq) ∧ ∃ e ∈ stored, e.seq = toSeq

/-- An entry under the original hash has the original timestamp. -/
def TimestampsKept (stored original : List (AuditLogEntry Explanation Rationale)) : Prop :=
  ∀ e ∈ stored, ∀ f ∈ original, e.seq = f.seq → e.entryHash = f.entryHash → e.timestamp = f.timestamp

theorem OriginalOrRecomputed.length_eq
    (h : OriginalOrRecomputed stored original) : stored.length = original.length := by
  obtain ⟨i, htake, hdrop⟩ := h
  have hlen := hdrop.length_eq
  rw [← take_append_drop i stored, ← take_append_drop i original, htake, length_append,
    length_append, hlen]

theorem OriginalOrRecomputed.eq_of_hash {d d' : Digest} {n : Nat} (h : OriginalOrRecomputed stored original)
    (hs : (links t c).Chained d n stored) (ho : (links t c).Chained d' n original) (he : e ∈ stored)
    (hf : f ∈ original) (hseq : e.seq = f.seq) (hhash : e.entryHash = f.entryHash) : e = f := by
  have hlen := h.length_eq
  obtain ⟨i, htake, hdrop⟩ := h
  obtain ⟨j, hj, rfl⟩ := mem_iff_getElem.mp he
  obtain ⟨k, hk, rfl⟩ := mem_iff_getElem.mp hf
  have hnum : ∀ {d : Digest} {es : List (AuditLogEntry Explanation Rationale)},
      (links t c).Chained d n es → ∀ m (hm : m < es.length), es[m].seq = n + m := by
    intro d es hes m hm
    have hget := congrArg (·[m]?) hes.map_seq
    simpa [hm, links] using hget
  have hjk : j = k := by
    rw [hnum hs j hj, hnum ho k hk] at hseq
    omega
  subst hjk
  rcases Nat.lt_or_ge j i with hlt | hge
  · have hget := congrArg (·[j]?) htake
    simpa [List.getElem?_take, hlt, hj, hk] using hget
  · have hdiff := hdrop.get (i := j - i) (by rw [length_drop]; omega) (by rw [length_drop]; omega)
    simp only [get_eq_getElem, getElem_drop, Nat.add_sub_cancel' hge] at hdiff
    exact absurd hhash hdiff

theorem eq_of_hash_of_timestamp (ht : t.Injective) (hfree : CollisionFree t c (stored ++ original))
    (he : e ∈ stored) (hf : f ∈ original) (hre : recomputed t c e = e.entryHash)
    (hrf : recomputed t c f = f.entryHash) (hseq : e.seq = f.seq) (hhash : e.entryHash = f.entryHash)
    (htime : e.timestamp = f.timestamp) : e = f := by
  have hrec : recomputed t c e = recomputed t c f := hre.trans (hhash.trans hrf.symm)
  obtain ⟨hprev, hactor, haction, htarget, hpayload⟩ := preimage_inj ht
    (hfree e (mem_append_left _ he) f (mem_append_right _ hf) hrec)
  cases e
  cases f
  simp only at hseq hprev hhash hactor haction htarget hpayload htime
  rw [hseq, hprev, hhash, hactor, haction, htarget, hpayload, htime]

/-- **An altered range that `verify_chain` calls `Intact` consists of the original entries up to some
point and of other hashes from there on, if and only if no entry is missing at its two ends and none
has another timestamp under the original hash.** -/
theorem tampering_detected {keystore : Option c.Keystore} {l : AuditLedger c Explanation Rationale}
    (hbuilt : Built t keystore l) (ht : t.Injective)
    {stored : List (AuditLogEntry Explanation Rationale)} (hfree : CollisionFree t c (stored ++ l.entries))
    {a b : Nat} (ha : 1 ≤ a) (hab : a ≤ b) (hb : b ≤ l.entries.length)
    (hintact : verifyChain t c stored a b = .intact) :
    OriginalOrRecomputed (range stored a b) (range l.entries a b) ↔
      EndsKept (range stored a b) a b ∧ TimestampsKept (range stored a b) (range l.entries a b) := by
  have hchain := hbuilt.intact.1.chained
  obtain ⟨d, ho⟩ := range_chained hchain ha b
  obtain ⟨hne, prev, first, hs, -⟩ := (verifyChain_eq_intact_iff t stored a b).mp hintact
  have hpos := length_pos_iff.mpr hne
  have hlast : ∃ f ∈ range l.entries a b, f.seq = b := by
    obtain ⟨f, hf, hseq⟩ := hchain.exists_seq (k := b) (ha.trans hab) (by omega)
    exact ⟨f, mem_range.mpr ⟨hf, hab.trans_eq hseq.symm, hseq.le⟩, hseq⟩
  have hlen := ho.length_eq hlast fun f hf => (mem_range.mp hf).2.2
  have hfirst : a ≤ first := by
    obtain ⟨e, he, hseq⟩ := hs.exists_seq (k := first) le_rfl (by omega)
    exact hseq ▸ (mem_range.mp he).2.1
  constructor
  · intro h
    have hslen := h.length_eq
    have heq : first = a := by
      obtain ⟨e, he, hseq⟩ :=
        hs.exists_seq (k := first + (range stored a b).length - 1) (by omega) (by omega)
      have hle : e.seq ≤ b := (mem_range.mp he).2.2
      change e.seq = _ at hseq
      omega
    subst heq
    exact ⟨⟨hs.exists_seq le_rfl (by omega), hs.exists_seq hab (by omega)⟩,
      fun e he f hf hseq hhash => congrArg _ (h.eq_of_hash hs ho he hf hseq hhash)⟩
  · rintro ⟨⟨⟨e, he, hea⟩, hend⟩, htimes⟩
    have heq : first = a := le_antisymm (hea ▸ (hs.seq_mem he).1) hfirst
    subst heq
    have hslen := hs.length_eq hend fun e he => (mem_range.mp he).2.2
    refine hs.agree ho (by omega) fun e he f hf hseq hhash => ?_
    exact eq_of_hash_of_timestamp ht hfree (mem_range.mp he).1 (mem_range.mp hf).1 (hs.digest_eq he)
      (ho.digest_eq hf) hseq hhash (htimes e he f hf hseq hhash)

end

/-! ## Two alterations -/

open AuditLedger

def twoNotes : AuditLedger noteCrypto Empty Empty :=
  let first := (AuditLedger.append plainTexts (.new none) auditor.2 0 auditor.1 (sampleRecord "a" 5)).2
  (first.append plainTexts auditor.2 0 auditor.1 (sampleRecord "b" 6)).2

theorem twoNotes_built : Built plainTexts none twoNotes :=
  .tail (.tail .refl ⟨auditor.2, 0, auditor.1, sampleRecord "a" 5, rfl⟩)
    ⟨auditor.2, 0, auditor.1, sampleRecord "b" 6, rfl⟩

def entryA : AuditLogEntry Empty Empty :=
  ⟨1, digestEmpty, digestA, .system, .grant, none, .note "a", 5⟩

/-- The entry of a note `c` in place of `b`, with its hash computed again. -/
def entryC : AuditLogEntry Empty Empty :=
  ⟨2, digestA, digestC, .system, .grant, none, .note "c", 6⟩

theorem tampering_detected_recomputed :
    verifyChain plainTexts noteCrypto [entryA, entryC] 1 2 = .intact ∧
      OriginalOrRecomputed (range [entryA, entryC] 1 2) (range twoNotes.entries 1 2) := by
  have hintact : verifyChain plainTexts noteCrypto [entryA, entryC] 1 2 = .intact := by decide +kernel
  have hfree : CollisionFree plainTexts noteCrypto ([entryA, entryC] ++ twoNotes.entries) := by
    unfold CollisionFree
    decide +kernel
  refine ⟨hintact, (tampering_detected twoNotes_built plainTexts_injective hfree (by decide)
    (by decide) (by decide +kernel) hintact).mpr ⟨⟨⟨entryA, ?_, rfl⟩, entryC, ?_, rfl⟩, ?_⟩⟩
  · exact mem_cons_self
  · exact mem_cons_of_mem _ mem_cons_self
  · unfold TimestampsKept
    decide +kernel

/-- **Another timestamp is not noticed, and neither is a missing last entry.** -/
theorem tampering_undetected :
    (∃ stored, CollisionFree plainTexts noteCrypto (stored ++ twoNotes.entries) ∧
      verifyChain plainTexts noteCrypto stored 1 1 = .intact ∧
      ¬ OriginalOrRecomputed (range stored 1 1) (range twoNotes.entries 1 1)) ∧
    ∃ stored, CollisionFree plainTexts noteCrypto (stored ++ twoNotes.entries) ∧
      verifyChain plainTexts noteCrypto stored 1 2 = .intact ∧
      ¬ OriginalOrRecomputed (range stored 1 2) (range twoNotes.entries 1 2) := by
  constructor
  · refine ⟨[{ entryA with timestamp := 9 }], ?_, by decide +kernel, fun h => ?_⟩
    · unfold CollisionFree
      decide +kernel
    · have hstored : range [{ entryA with timestamp := 9 }] 1 1 = [{ entryA with timestamp := 9 }] := rfl
      have horiginal : range twoNotes.entries 1 1 = [entryA] := by decide +kernel
      rw [hstored, horiginal] at h
      obtain ⟨i, htake, hdrop⟩ := h
      cases i with
      | zero =>
        cases hdrop with
        | cons hhash _ => exact hhash rfl
      | succ i => exact absurd (congrArg AuditLogEntry.timestamp (List.cons.inj htake).1) (by decide)
  · refine ⟨[entryA], ?_, by decide +kernel, fun h => ?_⟩
    · unfold CollisionFree
      decide +kernel
    · exact absurd h.length_eq (by decide +kernel)

end Hyperion.Audit
