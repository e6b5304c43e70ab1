import Hyperion.Storage.Views

/-!
# What a reopen finds

Whatever metadata were written, a file is the closed lines of some records, and `replay` reads them back up to the
first whose text is not read (`readBack`). What is behind that line stays hidden until a rewrite.
-/

namespace Hyperion.Storage
open Lib Capability List StorageEngine

section
variable {V : Type} {C : Codec V} {reread : V → Option V} {records : List (WalRecord V)}

def Codec.IsLineOf (C : Codec V) (l : List UInt8) (r : WalRecord V) : Prop := ∃ nonce, l = C.line nonce r

/-- The file is the closed lines of the records. -/
def Codec.Wrote (C : Codec V) (file : List UInt8) (records : List (WalRecord V)) : Prop :=
  ∃ ls, file = unlines ls ∧ List.Forall₂ C.IsLineOf ls records

/-- The records up to the first whose metadata are not read back. -/
def readBack (reread : V → Option V) : List (WalRecord V) → List (WalRecord V)
  | [] => []
  | r :: records =>
    match reread r.metadata with
    | none => []
    | some m => { r with metadata := m } :: readBack reread records

/-- Every record has metadata that are read back, as themselves or as others. -/
def Readable (reread : V → Option V) (records : List (WalRecord V)) : Prop :=
  ∀ r ∈ records, (reread r.metadata).isSome = true

theorem readBack_of_stable (h : ∀ r ∈ records, Stable reread r.metadata) :
    readBack reread records = records := by
  induction records with
  | nil => rfl
  | cons r records ih =>
    have hr : reread r.metadata = some r.metadata := h r mem_cons_self
    rw [readBack, hr, ih fun r' hr' => h r' (mem_cons_of_mem _ hr')]

theorem mem_readBack {r : WalRecord V} (h : r ∈ readBack reread records) :
    ∃ old ∈ records, ∃ m, reread old.metadata = some m ∧ r = { old with metadata := m } := by
  induction records with
  | nil => cases h
  | cons old records ih =>
    rw [readBack] at h
    split at h
    · cases h
    · next m hm =>
      rcases mem_cons.mp h with rfl | h
      · exact ⟨old, mem_cons_self, m, hm, rfl⟩
      · obtain ⟨old', hold', hread⟩ := ih h
        exact ⟨old', mem_cons_of_mem _ hold', hread⟩

theorem pairwise_readBack {R : WalRecord V → WalRecord V → Prop}
    (hR : ∀ a b m m', R a b → R { a with metadata := m } { b with metadata := m' })
    (h : records.Pairwise R) : (readBack reread records).Pairwise R := by
  induction h with
  | nil => exact .nil
  | @cons r records hr _ ih =>
    rw [readBack]
    split
    · exact .nil
    · next m hm =>
      refine .cons (fun b hb => ?_) ih
      obtain ⟨old, hold, m', -, rfl⟩ := mem_readBack hb
      exact hR r old m m' (hr old hold)

theorem Ordered.readBack (h : Ordered records) : Ordered (readBack reread records) :=
  pairwise_readBack (fun _ _ _ _ h => h) h

theorem readBack_append_of_readable (h : Readable reread records) (more : List (WalRecord V)) :
    readBack reread (records ++ more) = readBack reread records ++ readBack reread more := by
  induction records with
  | nil => rfl
  | cons r records ih =>
    obtain ⟨m, hm⟩ := Option.isSome_iff_exists.mp (h r mem_cons_self)
    simp only [cons_append, readBack, hm, ih fun r' hr' => h r' (mem_cons_of_mem _ hr')]

theorem readBack_append_of_not_readable (h : ¬ Readable reread records)
    (more : List (WalRecord V)) : readBack reread (records ++ more) = readBack reread records := by
  induction records with
  | nil => exact absurd (by simp [Readable]) h
  | cons r records ih =>
    simp only [cons_append, readBack]
    split
    · rfl
    · next m hm =>
      rw [ih fun hall => h (forall_mem_cons.mpr ⟨by rw [hm]; rfl, hall⟩)]

/-! ## Files of closed lines -/

theorem Codec.wrote_nil : C.Wrote [] [] := ⟨[], rfl, .nil⟩

theorem Codec.Wrote.concat {file : List UInt8} (h : C.Wrote file records)
    (nonce : C.Nonce) (r : WalRecord V) : C.Wrote (file ++ (C.line nonce r ++ [newline])) (records ++ [r]) := by
  obtain ⟨ls, rfl, hls⟩ := h
  exact ⟨ls ++ [C.line nonce r], (unlines_concat ls _).symm, rel_append hls (.cons ⟨nonce, rfl⟩ .nil)⟩

theorem Codec.wrote_rewritten (nonce : Nat → C.Nonce) (records : List (WalRecord V)) :
    C.Wrote (rewritten C nonce records) records := by
  refine ⟨linesOf C nonce records, rfl, ?_⟩
  induction records generalizing nonce with
  | nil => exact .nil
  | cons r records ih => exact .cons ⟨nonce 0, rfl⟩ (ih _)

section
variable (L : C.Lawful reread) {records : List (WalRecord V)}
include L

variable {file : List UInt8} {ls : List (List UInt8)}

theorem Codec.Lawful.isLine_of_lines (h : List.Forall₂ C.IsLineOf ls records) : ∀ l ∈ ls, IsLine l := by
  induction h with
  | nil => simp
  | cons hr _ ih =>
    obtain ⟨nonce, rfl⟩ := hr
    exact forall_mem_cons.mpr ⟨L.isLine nonce _, ih⟩

theorem Codec.Lawful.replayLines_lines (h : List.Forall₂ C.IsLineOf ls records)
    (rest : List (List UInt8)) : (Readable reread records →
      replayLines C (ls ++ rest) = (replayLines C rest).map (readBack reread records ++ ·)) ∧
    (¬ Readable reread records → replayLines C (ls ++ rest) = .ok (readBack reread records)) := by
  induction h with
  | nil =>
    refine ⟨fun _ => ?_, fun hnot => absurd (by simp [Readable]) hnot⟩
    rw [nil_append]
    cases replayLines C rest <;> rfl
  | @cons l r ls records hr _ ih =>
    obtain ⟨nonce, rfl⟩ := hr
    obtain ⟨s, hs, hparse⟩ := L.reads nonce r
    have hne := decodeUtf8_isEmpty hs (L.nonempty nonce r)
    rw [cons_append, replayLines, hs, readBack]
    simp only [hne, hparse, Bool.false_eq_true, if_false]
    cases hm : reread r.metadata with
    | none =>
      refine ⟨fun hall => ?_, fun _ => rfl⟩
      have hsome := hall r mem_cons_self
      rw [hm] at hsome
      cases hsome
    | some m =>
      have hiff : Readable reread (r :: records) ↔ Readable reread records := by
        rw [Readable, forall_mem_cons, hm]
        exact and_iff_right rfl
      rw [hiff]
      refine ⟨fun hall => ?_, fun hnot => ?_⟩
      · simp only [Option.map_some, ih.1 hall]
        cases replayLines C rest <;> rfl
      · simp only [Option.map_some, ih.2 hnot]
        rfl

theorem Codec.Wrote.replay_append (h : C.Wrote file records) (tail : List UInt8) :
    (Readable reread records → replay C (file ++ tail) = (replay C tail).map (readBack reread records ++ ·)) ∧
      (¬ Readable reread records → replay C (file ++ tail) = .ok (readBack reread records)) := by
  obtain ⟨ls, rfl, hls⟩ := h
  rw [replay, replay, splitLines_unlines_append (L.isLine_of_lines hls)]
  exact L.replayLines_lines hls _

theorem Codec.Wrote.replay_eq (h : C.Wrote file records) :
    replay C file = .ok (readBack reread records) := by
  obtain ⟨hall, hnot⟩ := h.replay_append L []
  rw [append_nil] at hall hnot
  by_cases hread : Readable reread records
  · rw [hall hread]
    simp [replay, splitLines, replayLines, Except.map]
  · exact hnot hread

theorem Codec.Wrote.openImpl_eq (h : C.Wrote file records) :
    openImpl C file = .ok ⟨file, .rebuild (readBack reread records)⟩ :=
  openImpl_of_replay (h.replay_eq L)

end

/-! ## Runs with any metadata -/

/-- The views are coherent, whatever their metadata. -/
abbrev Inner.Sound (i : Inner V) : Prop := ∃ log, Mirrors some i log

/-- The views are coherent, and the file holds lines that read back in order, below the version counter. -/
structure Kept (C : Codec V) (reread : V → Option V) (e : StorageEngine V) (records : List (WalRecord V)) : Prop where
  sound : e.inner.Sound
  wrote : C.Wrote e.file records
  ordered : Ordered (readBack reread records)
  below : ∀ r ∈ readBack reread records, r.newVersion < e.inner.nextVersionId

section
variable {e : StorageEngine V} {records : List (WalRecord V)}

theorem kept_empty : Kept C reread ⟨[], .empty⟩ [] :=
  ⟨⟨[], mirrors_rebuild .nil (by simp)⟩, C.wrote_nil, .nil, by simp [readBack]⟩

theorem kept_rewritten {i : Inner V} {log : List (WalRecord V)} (M : Mirrors some i log) (nonce : Nat → C.Nonce) :
    Kept C reread ⟨rewritten C nonce log, i⟩ log := by
  refine ⟨⟨log, M⟩, C.wrote_rewritten nonce log, M.ordered.readBack, fun r hr => ?_⟩
  obtain ⟨old, hold, m, -, rfl⟩ := mem_readBack hr
  exact M.chains.fresh M.coherent old hold

theorem Kept.allocate (K : Kept C reread e records) (objectId : Option ObjectId) :
    Kept C reread { e with inner := (e.inner.allocate objectId).2 } records := by
  obtain ⟨log, M⟩ := K.sound
  refine ⟨⟨log, M.allocate objectId⟩, K.wrote, K.ordered, ?_⟩
  rw [allocate_nextVersionId]
  exact K.below

theorem Kept.stored (K : Kept C reread e records) (caller : Caller) (objectId : Option ObjectId)
    (metadata : V) (nonce : C.Nonce) : Kept C reread
      { file := e.file ++ (C.line nonce (e.written caller objectId metadata) ++ [newline]),
        inner := { (e.inner.allocate objectId).2.commit (e.written caller objectId metadata) with
          nextVersionId := e.inner.nextVersionId + 1 } }
      (records ++ [e.written caller objectId metadata]) := by
  obtain ⟨log, M⟩ := K.sound
  have hbelow : ∀ r ∈ readBack reread (records ++ [e.written caller objectId metadata]),
      r.newVersion < e.inner.nextVersionId + 1 := by
    intro r hr
    by_cases hread : Readable reread records
    · rw [readBack_append_of_readable hread] at hr
      rcases mem_append.mp hr with hr | hr
      · exact Nat.lt_succ_of_lt (K.below r hr)
      · obtain ⟨old, hold, m, -, rfl⟩ := mem_readBack hr
        cases mem_singleton.mp hold
        exact Nat.lt_succ_self _
    · rw [readBack_append_of_not_readable hread] at hr
      exact Nat.lt_succ_of_lt (K.below r hr)
  refine ⟨⟨_, M.written caller objectId rfl⟩, K.wrote.concat nonce _, ?_, hbelow⟩
  by_cases hread : Readable reread records
  · rw [readBack_append_of_readable hread]
    refine pairwise_append.mpr ⟨K.ordered, pairwise_readBack (fun _ _ _ _ h => h) (pairwise_singleton _ _), ?_⟩
    intro a ha b hb
    obtain ⟨old, hold, m, -, rfl⟩ := mem_readBack hb
    cases mem_singleton.mp hold
    have hlt := K.below a ha
    exact ⟨ne_of_lt hlt, fun _ => hlt⟩
  · rw [readBack_append_of_not_readable hread]
    exact K.ordered

theorem Kept.reopen (K : Kept C reread e records) :
    Kept C reread ⟨e.file, .rebuild (readBack reread records)⟩ records :=
  ⟨⟨_, mirrors_rebuild K.ordered fun _ _ => rfl⟩, K.wrote, K.ordered,
    (Inner.rebuild_nextVersionId_le _ _).mp (le_refl _)⟩

theorem Step.kept (L : C.Lawful reread) {null : V} {e' : StorageEngine V} (h : Step C null (fun _ => True) e e')
    (K : Kept C reread e records) : ∃ records', Kept C reread e' records' := by
  cases h with
  | putObject caller objectId expectedVersion metadata nonce _ =>
    generalize hput : e.putObject C caller objectId expectedVersion metadata nonce .completed = p
    cases putObject_outcome hput with
    | unauthorized => exact ⟨records, K⟩
    | conflict => exact ⟨records, K.allocate objectId⟩
    | failed _ _ written hio => cases hio
    | stored => exact ⟨_, K.stored caller objectId metadata nonce⟩
  | compact caller order nonce horder =>
    obtain ⟨log, M⟩ := K.sound
    rcases e.compact_cases C caller null order nonce with ⟨err, heq⟩ | ⟨n, heq⟩ <;> rw [heq]
    · exact ⟨records, K⟩
    · exact ⟨_, kept_rewritten (M.compacted horder null _) nonce⟩
  | purgeObject caller objectId nonce =>
    obtain ⟨log, M⟩ := K.sound
    rcases e.purgeObject_cases C caller objectId nonce with ⟨err, heq⟩ | ⟨n, heq⟩ <;> rw [heq]
    · exact ⟨records, K⟩
    · exact ⟨_, kept_rewritten (M.purged _ objectId) nonce⟩
  | reopen hopen =>
    cases (K.wrote.openImpl_eq L).symm.trans hopen
    exact ⟨records, K.reopen⟩

theorem Reached.kept (L : C.Lawful reread) {null : V} (h : Reached C null (fun _ => True) e) :
    ∃ records, Kept C reread e records := by
  induction h with
  | refl => exact ⟨[], kept_empty⟩
  | tail _ hstep ih =>
    obtain ⟨records, K⟩ := ih
    exact hstep.kept L K

end

end

end Hyperion.Storage
