import Mathlib

/-!
# Chains of numbered entries linked by hashes

An entry names the hash of the one before it, and its own hash can be computed again from what it
holds. If hashes do not collide, an entry of a chain commits to all entries before it.
-/

namespace Hyperion.Lib
open List

/-- What an entry records: its number, the hash of its predecessor and its own hash; and the hash
computed from what it holds. -/
structure Links (E D : Type) where
  seq : E → Nat
  prev : E → D
  hash : E → D
  digest : E → D

namespace Links

section
variable {E D : Type} (L : Links E D)

/-- The entries are numbered from `n` on, the first one follows the hash `d`, every other one its
predecessor, and every hash is the one computed. -/
def Chained : D → Nat → List E → Prop
  | _, _, [] => True
  | d, n, e :: es => (L.seq e = n ∧ L.prev e = d ∧ L.digest e = L.hash e) ∧ Chained (L.hash e) (n + 1) es

/-- The hash that the next entry of a chain from `d` follows. -/
def tip (d : D) (es : List E) : D := (es.getLast?.map L.hash).getD d

variable {L} {d d' : D} {n m : Nat} {es fs : List E}

@[simp] theorem tip_concat (d : D) (es : List E) (e : E) : L.tip d (es ++ [e]) = L.hash e := by
  simp [tip]

variable {e : E}

theorem chained_concat : L.Chained d n (es ++ [e]) ↔ L.Chained d n es ∧
    L.seq e = n + es.length ∧ L.prev e = L.tip d es ∧ L.digest e = L.hash e := by
  induction es generalizing d n with
  | nil => simp [Chained, tip]
  | cons a es ih =>
    have htip : L.tip d (a :: es) = L.tip (L.hash a) es := by
      cases h : es.getLast? <;> simp [tip, List.getLast?_cons, h]
    have hnum : n + 1 + es.length = n + (es.length + 1) := by omega
    rw [cons_append, Chained, Chained, ih, htip, length_cons, hnum]
    exact and_assoc.symm

theorem Chained.map_seq (h : L.Chained d n es) : es.map L.seq = List.range' n es.length := by
  induction es generalizing d n with
  | nil => rfl
  | cons e es ih => rw [map_cons, length_cons, range'_succ, h.1.1, ih h.2]

theorem Chained.seq_mem (h : L.Chained d n es) (he : e ∈ es) :
    n ≤ L.seq e ∧ L.seq e < n + es.length := by
  have hmem : L.seq e ∈ es.map L.seq := mem_map_of_mem he
  rw [h.map_seq] at hmem
  exact mem_range'_1.mp hmem

theorem Chained.digest_eq (h : L.Chained d n es) (he : e ∈ es) : L.digest e = L.hash e := by
  induction es generalizing d n with
  | nil => exact nomatch he
  | cons f es ih =>
    rcases mem_cons.mp he with rfl | he
    · exact h.1.2.2
    · exact ih h.2 he

theorem Chained.exists_seq {k : Nat} (h : L.Chained d n es) (hn : n ≤ k) (hk : k < n + es.length) :
    ∃ e ∈ es, L.seq e = k := by
  refine mem_map.mp ?_
  rw [h.map_seq]
  exact mem_range'_1.mpr ⟨hn, hk⟩

/-! ## Ranges -/

theorem Chained.filter_le (h : L.Chained d n es) (m : Nat) :
    L.Chained d n (es.filter fun e => L.seq e ≤ m) := by
  induction es generalizing d n with
  | nil => exact h
  | cons e es ih =>
    rw [filter_cons]
    split
    · exact ⟨h.1, ih h.2⟩
    · next hgt =>
      -- the numbers grow, so nothing after an entry that is too late is in time
      have hnone : es.filter (fun e => L.seq e ≤ m) = [] := by
        refine filter_eq_nil_iff.mpr fun e' he' => ?_
        have hlate := (h.2.seq_mem he').1
        rw [decide_eq_true_eq] at hgt ⊢
        have hnum := h.1.1
        omega
      rw [hnone]
      trivial

theorem Chained.filter_ge (h : L.Chained d n es) (hnm : n ≤ m) :
    ∃ d', L.Chained d' m (es.filter fun e => m ≤ L.seq e) := by
  induction es generalizing d n with
  | nil => exact ⟨d, trivial⟩
  | cons e es ih =>
    rcases hnm.eq_or_lt with rfl | hlt
    · have hall : (e :: es).filter (fun e => n ≤ L.seq e) = e :: es :=
        filter_eq_self.mpr fun e' he' => decide_eq_true (h.seq_mem he').1
      rw [hall]
      exact ⟨d, h⟩
    · have hdrop : ¬ m ≤ L.seq e := by
        rw [h.1.1]
        omega
      rw [filter_cons_of_neg (by simpa using hdrop)]
      exact ih h.2 hlt

theorem Chained.length_eq (h : L.Chained d n es) (hlast : ∃ e ∈ es, L.seq e = m)
    (hle : ∀ e ∈ es, L.seq e ≤ m) : n + es.length = m + 1 := by
  obtain ⟨e, he, rfl⟩ := hlast
  obtain ⟨hfirst, hlt⟩ := h.seq_mem he
  obtain ⟨e', he', hseq⟩ := h.exists_seq (k := n + es.length - 1) (by omega) (by omega)
  have hle' := hle e' he'
  omega

/-! ## Commitment -/

theorem Chained.agree (hes : L.Chained d n es) (hfs : L.Chained d' n fs) (hlen : es.length = fs.length)
    (hinj : ∀ e ∈ es, ∀ f ∈ fs, L.seq e = L.seq f → L.hash e = L.hash f → e = f) :
    ∃ i, es.take i = fs.take i ∧
      List.Forall₂ (fun e f => L.hash e ≠ L.hash f) (es.drop i) (fs.drop i) := by
  induction es generalizing d d' n fs with
  | nil =>
    obtain rfl := length_eq_zero_iff.mp hlen.symm
    exact ⟨0, rfl, .nil⟩
  | cons e es ih =>
    cases fs with
    | nil => exact nomatch hlen
    | cons f fs =>
      obtain ⟨i, htake, hdrop⟩ := ih hes.2 hfs.2 (Nat.succ.inj hlen)
        fun e' he' f' hf' => hinj e' (mem_cons_of_mem _ he') f' (mem_cons_of_mem _ hf')
      by_cases hhash : L.hash e = L.hash f
      · have hef := hinj e mem_cons_self f mem_cons_self (hes.1.1.trans hfs.1.1.symm) hhash
        exact ⟨i + 1, by rw [take_succ_cons, take_succ_cons, htake, hef], hdrop⟩
      · refine ⟨0, rfl, .cons hhash ?_⟩
        cases i with
        | zero => exact hdrop
        | succ i =>
          -- an entry after these two that both chains have would name both hashes
          cases es with
          | nil =>
            obtain rfl := length_eq_zero_iff.mp (Nat.succ.inj hlen).symm
            exact .nil
          | cons e' es =>
            cases fs with
            | nil => exact nomatch hlen
            | cons f' fs =>
              rw [take_succ_cons, take_succ_cons] at htake
              obtain ⟨rfl, -⟩ := List.cons.inj htake
              exact absurd (hes.2.1.2.1.symm.trans hfs.2.1.2.1) hhash

end

end Links

end Hyperion.Lib
