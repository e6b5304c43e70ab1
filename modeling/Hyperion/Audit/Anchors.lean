import Hyperion.Audit.Ledger

/-!
# What an anchor pins

An anchor carries the signed Merkle root of a segment, and the range of the segment unsigned. Leaves and
inner nodes are hashed alike, so the root pins the hashes of a segment only among lists of its length: the
hash of two neighbours passes for both of them.
-/

namespace Hyperion.Audit
open Lib List AuditLedger

section
variable (c : Crypto)

/-- The pairs that are hashed for the next level. -/
def levelPairs : List Digest → List (Digest × Digest)
  | [] => []
  | [_] => []
  | d :: e :: rest => (d, e) :: levelPairs rest

/-- The pairs that are hashed for the root of `d :: rest`. -/
def merklePairs (d : Digest) : List Digest → List (Digest × Digest)
  | [] => []
  | e :: rest => (d, e) :: levelPairs rest ++ merklePairs (c.hash (d.toList ++ e.toList)) (merkleLevel c rest)
termination_by rest => rest.length
decreasing_by
  rw [List.length_cons, length_merkleLevel]
  omega

/-- No pair of the one list collides with another pair of the other. -/
def NoCollision (ps qs : List (Digest × Digest)) : Prop :=
  ∀ p ∈ ps, ∀ q ∈ qs, c.hash (p.1.toList ++ p.2.toList) = c.hash (q.1.toList ++ q.2.toList) → p = q

variable {c}

theorem merkleLevel_inj {leaves leaves' : List Digest} (hlength : leaves.length = leaves'.length)
    (hfree : NoCollision c (levelPairs leaves) (levelPairs leaves'))
    (h : merkleLevel c leaves = merkleLevel c leaves') : leaves = leaves' := by
  induction leaves using levelPairs.induct generalizing leaves' with
  | case1 => exact (length_eq_zero_iff.mp hlength.symm).symm
  | case2 d =>
    obtain ⟨e, rfl⟩ := length_eq_one_iff.mp hlength.symm
    exact h
  | case3 d e rest ih =>
    match leaves', hlength with
    | d' :: e' :: rest', hlength =>
      obtain ⟨hhash, htail⟩ := List.cons.inj h
      cases hfree _ mem_cons_self _ mem_cons_self hhash
      rw [ih (by simpa using hlength)
        (fun p hp q hq => hfree p (mem_cons_of_mem _ hp) q (mem_cons_of_mem _ hq)) htail]

/-- **Lists of one length are told apart by their roots.** -/
theorem merkleRoot_inj {d d' : Digest} {rest rest' : List Digest} (hlength : rest.length = rest'.length)
    (hfree : NoCollision c (merklePairs c d rest) (merklePairs c d' rest'))
    (h : merkleRoot c d rest = merkleRoot c d' rest') : d :: rest = d' :: rest' := by
  induction d, rest using merkleRoot.induct c generalizing d' rest' with
  | case1 d =>
    cases length_eq_zero_iff.mp hlength.symm
    rw [merkleRoot, merkleRoot] at h
    rw [h]
  | case2 d e rest ih =>
    match rest', hlength with
    | e' :: rest', hlength =>
      rw [merkleRoot, merkleRoot] at h
      rw [merklePairs, merklePairs] at hfree
      have hrest : rest.length = rest'.length := Nat.succ.inj hlength
      obtain ⟨hhash, hlevel⟩ := List.cons.inj (ih (by rw [length_merkleLevel, length_merkleLevel, hrest])
        (fun p hp q hq => hfree p (mem_append_right _ hp) q (mem_append_right _ hq)) h)
      have hinner : NoCollision c (levelPairs rest) (levelPairs rest') := fun p hp q hq =>
        hfree p (mem_append_left _ (mem_cons_of_mem _ hp)) q
          (mem_append_left _ (mem_cons_of_mem _ hq))
      cases hfree (d, e) (by simp) (d', e') (by simp) hhash
      rw [merkleLevel_inj hrest hinner hlevel]

end

/-- A segment that was signed: its range, and the hashes of its entries. -/
structure Segment where
  fromSeq : Nat
  toSeq : Nat
  first : Digest
  rest : List Digest

namespace Segment

def leaves (s : Segment) : List Digest := s.first :: s.rest

def root (c : Crypto) (s : Segment) : Digest := merkleRoot c s.first s.rest

end Segment

section
variable {c : Crypto} {Explanation Rationale : Type}

/-- Nothing verifies under the key but the roots of these segments. -/
def SignsOnly (key : c.VerifyingKey) (segments : List Segment) : Prop :=
  ∀ (root : Digest) signature, c.verify root.toList signature key = true → ∃ s ∈ segments, s.root c = root

def storedPairs (c : Crypto) : List Digest → List (Digest × Digest)
  | [] => []
  | d :: rest => merklePairs c d rest

/-- The hash lists with this root. -/
def HasRoot (c : Crypto) (root : Digest) (leaves : List Digest) : Prop :=
  ∃ d rest, leaves = d :: rest ∧ merkleRoot c d rest = root

/-- Another number of hashes has the root of the segment. -/
def Regrouped (c : Crypto) (s : Segment) (leaves : List Digest) : Prop :=
  leaves.length ≠ s.leaves.length ∧ HasRoot c (s.root c) leaves

theorem Segment.hasRoot (c : Crypto) (s : Segment) : HasRoot c (s.root c) s.leaves :=
  ⟨_, _, rfl, rfl⟩

theorem HasRoot.eq_leaves {leaves : List Digest} {s : Segment} (h : HasRoot c (s.root c) leaves)
    (hlength : leaves.length = s.leaves.length)
    (hfree : NoCollision c (storedPairs c leaves) (storedPairs c s.leaves)) : leaves = s.leaves := by
  obtain ⟨d, rest, rfl, hroot⟩ := h
  exact merkleRoot_inj (Nat.succ.inj hlength) hfree hroot

/-- Only the segment itself and a regrouping of it have its root. -/
theorem hasRoot_iff {leaves : List Digest} {s : Segment}
    (hfree : NoCollision c (storedPairs c leaves) (storedPairs c s.leaves)) :
    HasRoot c (s.root c) leaves ↔ leaves = s.leaves ∨ Regrouped c s leaves := by
  constructor
  · intro h
    by_cases hlength : leaves.length = s.leaves.length
    · exact .inl (h.eq_leaves hlength hfree)
    · exact .inr ⟨hlength, h⟩
  · rintro (rfl | h)
    · exact s.hasRoot c
    · exact h.2

/-- The range of the anchor is not that of the segment. -/
def Anchor.Altered (anchor : Anchor c) (s : Segment) : Prop :=
  anchor.fromSeq ≠ s.fromSeq ∨ anchor.toSeq ≠ s.toSeq

/-- **An accepted anchor has the root of a segment that was signed. With a signed root it pins the segment
exactly if the stored entries are not a regrouping of it, and an anchor with an altered range is rejected
exactly if the entries in that range are neither those of the segment nor a regrouping of them.** -/
theorem anchor_pins_segment_iff (l : AuditLedger c Explanation Rationale) (key : c.VerifyingKey)
    (segments : List Segment) (anchor : Anchor c) (hkey : SignsOnly key segments)
    (hfree : ∀ s ∈ segments, NoCollision c (storedPairs c (l.leaves anchor.fromSeq anchor.toSeq))
      (storedPairs c s.leaves)) :
    (l.verifyAnchor anchor key = true → ∃ s ∈ segments, s.root c = anchor.root) ∧
    ∀ s ∈ segments, s.root c = anchor.root → c.verify anchor.root.toList anchor.signature key = true →
      ((l.verifyAnchor anchor key = true → l.leaves anchor.fromSeq anchor.toSeq = s.leaves) ↔
        ¬ Regrouped c s (l.leaves anchor.fromSeq anchor.toSeq)) ∧
      (anchor.Altered s → (l.verifyAnchor anchor key = false ↔
        l.leaves anchor.fromSeq anchor.toSeq ≠ s.leaves ∧
          ¬ Regrouped c s (l.leaves anchor.fromSeq anchor.toSeq))) := by
  refine ⟨fun haccepted => hkey _ _ (verifyAnchor_eq_true_iff.mp haccepted).1, fun s hs hroot hverify => ?_⟩
  -- the signature is good, so what is left of the check is the root of the stored entries
  have haccepted : l.verifyAnchor anchor key = true ↔
      l.leaves anchor.fromSeq anchor.toSeq = s.leaves ∨
        Regrouped c s (l.leaves anchor.fromSeq anchor.toSeq) := by
    rw [verifyAnchor_eq_true_iff, ← hasRoot_iff (hfree s hs), hroot]
    exact and_iff_right hverify
  refine ⟨?_, fun _ => by rw [← Bool.not_eq_true, haccepted, not_or]⟩
  rw [haccepted]
  exact ⟨fun h hregrouped => hregrouped.1 (congrArg List.length (h (.inr hregrouped))),
    fun h => Or.rec id fun hregrouped => absurd hregrouped h⟩

end

/-! ## A segment of two entries -/

def byte (n : UInt8) : Digest := Vector.replicate 32 n

/-- A hash that tells the two neighbours, and signatures that are made for one root. -/
def pairCrypto : Crypto where
  Keystore := Unit
  VerifyingKey := Unit
  Signature := Unit
  hash bytes := if bytes = (byte 1).toList ++ (byte 2).toList then byte 3 else byte 0
  verifyingKey := id
  sign _ _ := ()
  verify bytes _ _ := bytes = (byte 3).toList

def pairSegment : Segment := ⟨1, 2, byte 1, [byte 2]⟩

theorem root_pair : merkleRoot pairCrypto (byte 1) [byte 2] = byte 3 := by
  rw [merkleRoot, merkleLevel, merkleRoot]
  decide

theorem root_pairSegment : pairSegment.root pairCrypto = byte 3 := root_pair

theorem pairs_pair : merklePairs pairCrypto (byte 1) [byte 2] = [(byte 1, byte 2)] := by
  simp [merklePairs, levelPairs, merkleLevel]

theorem signsOnly_pair : SignsOnly (c := pairCrypto) () [pairSegment] := by
  intro root signature hverify
  refine ⟨_, mem_singleton_self _, root_pairSegment.trans ?_⟩
  exact (Vector.toList_inj.mp (of_decide_eq_true hverify)).symm

def storedEntry (seq : Nat) (entryHash : Digest) : AuditLogEntry Empty Empty :=
  ⟨seq, byte 0, entryHash, .system, .grant, none, .note "", 0⟩

def storedLedger (entries : List (AuditLogEntry Empty Empty)) : AuditLedger pairCrypto Empty Empty :=
  ⟨entries, 3, byte 2, some (), []⟩

def pairAnchor (fromSeq toSeq : Nat) : Anchor pairCrypto := ⟨fromSeq, toSeq, byte 3, ()⟩

def pairLedger : AuditLedger pairCrypto Empty Empty :=
  storedLedger [storedEntry 1 (byte 1), storedEntry 2 (byte 2)]

def joinedLedger : AuditLedger pairCrypto Empty Empty := storedLedger [storedEntry 1 (byte 3)]

theorem verifyAnchor_pair {fromSeq toSeq : Nat} (h : pairLedger.leaves fromSeq toSeq = [byte 1, byte 2]) :
    pairLedger.verifyAnchor (pairAnchor fromSeq toSeq) () = true :=
  verifyAnchor_eq_true_iff.mpr ⟨rfl, _, _, h, root_pair⟩

theorem noCollision_pair : NoCollision pairCrypto (storedPairs pairCrypto [byte 1, byte 2])
    (storedPairs pairCrypto pairSegment.leaves) := by
  intro p hp q hq _
  simp only [storedPairs, pairs_pair, mem_singleton, Segment.leaves, pairSegment] at hp hq
  rw [hp, hq]

/-- The anchor of the pair is accepted, and rejected once its range is cut to the first entry. -/
theorem anchor_pins_segment_iff_pair :
    pairLedger.verifyAnchor (pairAnchor 1 2) () = true ∧ pairLedger.leaves 1 2 = pairSegment.leaves ∧
    pairLedger.verifyAnchor (pairAnchor 1 1) () = false := by
  have hpair : pairLedger.leaves 1 2 = [byte 1, byte 2] := by decide
  have hfirst : pairLedger.leaves 1 1 = [byte 1] := by decide
  have haccepted := verifyAnchor_pair hpair
  have hroot : pairSegment.root pairCrypto = byte 3 := root_pairSegment
  refine ⟨haccepted, ((anchor_pins_segment_iff pairLedger () [pairSegment] (pairAnchor 1 2) signsOnly_pair ?_).2
      _ (mem_singleton_self _) hroot rfl).1.mpr ?_ haccepted,
    (((anchor_pins_segment_iff pairLedger () [pairSegment] (pairAnchor 1 1) signsOnly_pair ?_).2
      _ (mem_singleton_self _) hroot rfl).2 (.inr (by decide))).mpr ⟨by decide, ?_⟩⟩
  · intro s hs
    cases mem_singleton.mp hs
    exact noCollision_pair
  · exact fun h => h.1 (by decide)
  · intro s hs p hp
    change p ∈ storedPairs pairCrypto (pairLedger.leaves 1 1) at hp
    rw [hfirst, storedPairs, merklePairs] at hp
    exact absurd hp not_mem_nil
  · rintro ⟨-, d, rest, hleaves, hd⟩
    obtain ⟨rfl, rfl⟩ := List.cons.inj (hfirst.symm.trans hleaves)
    rw [merkleRoot, hroot] at hd
    exact absurd hd (by decide)

/-- **One entry under the hash of two neighbours passes for both, and so do the two under an altered
range.** -/
theorem anchor_accepts_others : SignsOnly (c := pairCrypto) () [pairSegment] ∧
    NoCollision pairCrypto (storedPairs pairCrypto (joinedLedger.leaves 1 2))
      (storedPairs pairCrypto pairSegment.leaves) ∧
    joinedLedger.verifyAnchor (pairAnchor 1 2) () = true ∧
      joinedLedger.leaves 1 2 ≠ pairSegment.leaves ∧
    NoCollision pairCrypto (storedPairs pairCrypto (pairLedger.leaves 0 9))
      (storedPairs pairCrypto pairSegment.leaves) ∧
    pairLedger.verifyAnchor (pairAnchor 0 9) () = true := by
  have hone : joinedLedger.leaves 1 2 = [byte 3] := by decide
  have htwo : pairLedger.leaves 0 9 = [byte 1, byte 2] := by decide
  refine ⟨signsOnly_pair, ?_, ?_, by decide, htwo ▸ noCollision_pair, verifyAnchor_pair htwo⟩
  · rw [hone, storedPairs, merklePairs]
    exact fun p hp => absurd hp not_mem_nil
  · exact verifyAnchor_eq_true_iff.mpr ⟨rfl, _, _, hone, by rw [merkleRoot]; rfl⟩

end Hyperion.Audit
