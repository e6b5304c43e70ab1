import Hyperion.Storage.CrashCut

/-!
# Writes that fail

A `put_object` that returns an error has drawn an object id if it was to create an object, and an append that failed
has left any number of bytes of its line in the file, behind whatever an earlier one left there.
-/

namespace Hyperion.Storage
open Lib Capability List StorageEngine

section
variable {V : Type} {C : Codec V} {reread : V → Option V}

/-- The same views and counters in memory, and in what a reopen would rebuild. -/
def SameState (C : Codec V) (e e' : StorageEngine V) : Prop :=
  e'.inner = e.inner ∧
    (StorageEngine.openImpl C e'.file).map (·.inner) = (StorageEngine.openImpl C e.file).map (·.inner)

/-- The records of the lines, if all lines are read. -/
def readAll (C : Codec V) : List (List UInt8) → Option (List (WalRecord V))
  | [] => some []
  | bytes :: rest =>
    match decodeUtf8 bytes with
    | none => none
    | some line =>
      if line.isEmpty then readAll C rest
      else match C.parseLine line with
        | none => none
        | some record => (readAll C rest).map (record :: ·)

/-- What reading on through `bytes` makes of the views. -/
def Inner.readOn (C : Codec V) (i : Inner V) (bytes : List UInt8) : Except StorageError (Inner V) :=
  (replay C bytes).map fun records => records.foldl Inner.replayRecord i

/-- If the closed lines of the file are all read, its last, open line reads alike with `bytes` behind it. -/
def Unseen (C : Codec V) (file bytes : List UInt8) : Prop :=
  ∀ closed last records, file = closed ++ last → Terminated closed → newline ∉ last →
    readAll C (splitLines closed) = some records →
    (Inner.rebuild records).readOn C (last ++ bytes) = (Inner.rebuild records).readOn C last

/-- The first `written` bytes of the closed line of a record read as nothing. -/
def Unread (C : Codec V) (reread : V → Option V) (nonce : C.Nonce) (r : WalRecord V) (written : Nat) : Prop :=
  if (C.line nonce r).length ≤ written then reread r.metadata = none
  else (decodeUtf8 ((C.line nonce r).take written)).isSome = true

/-- The caller may not write; or the object is named, and the write conflicts or leaves bytes that are not seen. -/
def CleanFailure (C : Codec V) (e : StorageEngine V) (caller : Caller) (objectId : Option ObjectId)
    (expectedVersion : Option VersionId) (metadata : V) (nonce : C.Nonce) (io : Io) : Prop :=
  caller.authorize .write ≠ .ok () ∨ objectId.isSome = true ∧
    (e.inner.versionPointer[(e.inner.allocate objectId).1]? ≠ expectedVersion ∨ ∀ written, io = .failed written →
      Unseen C e.file ((C.line nonce (e.written caller objectId metadata) ++ [newline]).take written))

/-! ## Bytes behind closed lines -/

theorem splitLines_ne_nil {l : List UInt8} (h : l ≠ []) : splitLines l ≠ [] := by
  induction l with
  | nil => exact absurd rfl h
  | cons b l ih =>
    rw [splitLines]
    split
    · exact cons_ne_nil _ _
    · split
      · next hcr =>
        refine ih fun hnil => ?_
        rw [hnil] at hcr
        cases hcr.2
      · split <;> exact cons_ne_nil _ _

theorem splitLines_closed_append (xs rest : List UInt8) :
    splitLines (xs ++ newline :: rest) = splitLines (xs ++ [newline]) ++ splitLines rest := by
  induction xs with
  | nil => simp [splitLines]
  | cons b xs ih =>
    have hhead : (xs ++ newline :: rest).head? = (xs ++ [newline]).head? := by cases xs <;> rfl
    obtain ⟨l, ls, hls⟩ := exists_cons_of_ne_nil (splitLines_ne_nil (l := xs ++ [newline]) (by simp))
    rw [cons_append, cons_append, splitLines, splitLines, ih, hhead, hls]
    split
    · rfl
    · split <;> rfl

theorem splitLines_append {closed : List UInt8} (h : Terminated closed) (rest : List UInt8) :
    splitLines (closed ++ rest) = splitLines closed ++ splitLines rest := by
  rcases h with rfl | hlast
  · rfl
  · obtain ⟨xs, rfl⟩ := List.getLast?_eq_some_iff.mp hlast
    rw [append_assoc, singleton_append, splitLines_closed_append]

theorem exists_last_line (file : List UInt8) :
    ∃ closed last, file = closed ++ last ∧ Terminated closed ∧ newline ∉ last := by
  induction file using List.reverseRecOn with
  | nil => exact ⟨[], [], rfl, .inl rfl, not_mem_nil⟩
  | append_singleton file b ih =>
    by_cases hb : b = newline
    · exact ⟨file ++ [b], [], (append_nil _).symm, .inr (by rw [getLast?_concat, hb]), not_mem_nil⟩
    · obtain ⟨closed, last, rfl, hclosed, hlast⟩ := ih
      refine ⟨closed, last ++ [b], append_assoc _ _ _, hclosed, fun hmem => ?_⟩
      rcases mem_append.mp hmem with hmem | hmem
      · exact hlast hmem
      · exact hb (mem_singleton.mp hmem).symm

theorem replayLines_cases (ls rest : List (List UInt8)) : replayLines C (ls ++ rest) =
    match readAll C ls with
    | some records => (replayLines C rest).map (records ++ ·)
    | none => replayLines C ls := by
  induction ls with
  | nil =>
    rw [nil_append]
    cases replayLines C rest <;> rfl
  | cons bytes ls ih =>
    rw [cons_append, replayLines, replayLines, readAll]
    cases decodeUtf8 bytes with
    | none => rfl
    | some line =>
      cases hempty : line.isEmpty with
      | true => simpa only [hempty, if_true] using ih
      | false =>
        simp only [hempty, Bool.false_eq_true, if_false]
        cases C.parseLine line with
        | none => rfl
        | some record =>
          rw [ih]
          cases readAll C ls with
          | none => rfl
          | some records => cases replayLines C rest <;> rfl

theorem openImpl_append {closed : List UInt8} (h : Terminated closed) (rest : List UInt8) :
    (openImpl C (closed ++ rest)).map (·.inner) =
      match readAll C (splitLines closed) with
      | some records => (Inner.rebuild records).readOn C rest
      | none => (openImpl C closed).map (·.inner) := by
  simp only [openImpl, Inner.readOn, replay, splitLines_append h, replayLines_cases]
  cases readAll C (splitLines closed) with
  | none => cases replayLines C (splitLines closed) <;> rfl
  | some records => cases replayLines C (splitLines rest) <;> simp [Except.map, Inner.rebuild]

theorem unseen_iff (file bytes : List UInt8) :
    (openImpl C (file ++ bytes)).map (·.inner) = (openImpl C file).map (·.inner) ↔ Unseen C file bytes := by
  constructor
  · rintro h closed last records rfl hclosed - hread
    rwa [append_assoc, openImpl_append hclosed, openImpl_append hclosed, hread] at h
  · intro h
    obtain ⟨closed, last, rfl, hclosed, hlast⟩ := exists_last_line file
    rw [append_assoc, openImpl_append hclosed, openImpl_append hclosed]
    cases hread : readAll C (splitLines closed) with
    | none => rfl
    | some records => exact h closed last records rfl hclosed hlast hread

section
variable (L : C.Lawful reread)
include L

variable {nonce : C.Nonce} {r : WalRecord V} {written : Nat}

theorem Unread.replay_eq (h : Unread C reread nonce r written) :
    replay C ((C.line nonce r ++ [newline]).take written) = .ok [] := by
  unfold Unread at h
  rw [L.replay_take]
  split at h
  · next hle => rw [if_pos hle, readBack, h]
  · next hle => rw [if_neg hle, if_pos h]

theorem Unread.unseen {file : List UInt8} (h : Unread C reread nonce r written) (hclosed : Terminated file) :
    Unseen C file ((C.line nonce r ++ [newline]).take written) := by
  refine (unseen_iff _ _).mp ?_
  have hnone := openImpl_append (C := C) hclosed []
  rw [append_nil] at hnone
  rw [openImpl_append hclosed]
  cases hread : readAll C (splitLines file) with
  | none => rfl
  | some records =>
    rw [hread] at hnone
    show (Inner.rebuild records).readOn C _ = _
    rw [hnone, Inner.readOn, h.replay_eq L]
    rfl

theorem Tracks.unread_of_unseen {e : StorageEngine V} {log : List (WalRecord V)} (T : Tracks C reread e log)
    (hr : r.newVersion = e.inner.nextVersionId)
    (h : Unseen C e.file ((C.line nonce r ++ [newline]).take written)) : Unread C reread nonce r written := by
  replace h := (unseen_iff _ _).mpr h
  have hreplay := T.holds.replay_append ((C.line nonce r ++ [newline]).take written)
  rw [T.openImpl_eq, openImpl, hreplay, L.replay_take] at h
  unfold Unread
  split at h
  · next hle =>
    rw [if_pos hle]
    cases hm : reread r.metadata with
    | none => rfl
    | some m =>
      -- the counter of versions would not have moved past the record
      exfalso
      rw [readBack, hm] at h
      have hinner : Inner.rebuild (log ++ [{ r with metadata := m }]) = Inner.rebuild log := Except.ok.inj h
      have hbelow := (Inner.rebuild_nextVersionId_le (log ++ [{ r with metadata := m }]) _).mp (le_refl _)
        { r with metadata := m } (mem_append_right _ (mem_singleton_self _))
      rw [hinner] at hbelow
      have hle := (Inner.rebuild_nextVersionId_le log _).mpr (T.mirrors.chains.fresh T.mirrors.coherent)
      exact absurd (lt_of_lt_of_le hbelow hle) (by rw [hr]; exact lt_irrefl _)
  · next hle =>
    rw [if_neg hle]
    by_contra hbad
    rw [if_neg hbad] at h
    cases h

end

variable {objectId : Option ObjectId}

theorem isSome_of_allocate_eq {i : Inner V} (h : (i.allocate objectId).2 = i) :
    objectId.isSome = true := by
  cases objectId with
  | some o => rfl
  | none =>
    have hnext : (i.nextObjectId + 1) % 2 ^ 64 = i.nextObjectId := congrArg Inner.nextObjectId h
    omega

theorem allocate_eq_of_isSome (i : Inner V) (h : objectId.isSome = true) :
    (i.allocate objectId).2 = i := by
  cases objectId with
  | some o => rfl
  | none => cases h

/-- **When a failed write leaves no residue**: exactly if the failure is clean. The bytes of a failed append are not
seen behind a closed file if they read as nothing, and in every engine that is reached without a failing append only
then. -/
theorem failed_put_leaves_no_residue (L : C.Lawful reread) {e : StorageEngine V} {caller : Caller}
    {objectId : Option ObjectId} {expectedVersion : Option VersionId} {metadata : V} {nonce : C.Nonce} {io : Io}
    {err : StorageError} (hfail : (e.putObject C caller objectId expectedVersion metadata nonce io).1 = .error err) :
    (SameState C e (e.putObject C caller objectId expectedVersion metadata nonce io).2 ↔
      CleanFailure C e caller objectId expectedVersion metadata nonce io) ∧
    ∀ (r : WalRecord V) (written : Nat),
      (Terminated e.file → Unread C reread nonce r written →
        Unseen C e.file ((C.line nonce r ++ [newline]).take written)) ∧
      ∀ null, Reached C null (Stable reread) e → r.newVersion = e.inner.nextVersionId →
        Unseen C e.file ((C.line nonce r ++ [newline]).take written) → Unread C reread nonce r written := by
  constructor
  · generalize hput : e.putObject C caller objectId expectedVersion metadata nonce io = out at hfail
    cases putObject_outcome hput with
    | unauthorized hauth => exact iff_of_true ⟨rfl, rfl⟩ (.inl hauth)
    | conflict hauth hcas =>
      refine ⟨fun hsame => .inr ⟨isSome_of_allocate_eq hsame.1, .inl hcas⟩, fun hclean => ⟨?_, rfl⟩⟩
      exact allocate_eq_of_isSome _ (hclean.resolve_left (not_not_intro hauth)).1
    | failed hauth hcas written hio =>
      cases hio
      refine ⟨fun hsame => .inr ⟨isSome_of_allocate_eq hsame.1, .inr ?_⟩, fun hclean => ?_⟩
      · rintro _ ⟨⟩
        exact (unseen_iff _ _).mp hsame.2
      · obtain ⟨hnamed, hunseen⟩ := hclean.resolve_left (not_not_intro hauth)
        refine ⟨allocate_eq_of_isSome _ hnamed, (unseen_iff _ _).mpr ?_⟩
        exact hunseen.resolve_left (not_not_intro hcas) written rfl
    | stored => cases hfail
  · refine fun r written => ⟨fun hclosed h => h.unseen L hclosed, fun null hreached hr hunseen => ?_⟩
    obtain ⟨log, T⟩ := hreached.tracks L
    exact T.unread_of_unseen L hr hunseen

end

/-! ## Samples -/

/-- A write to a named object is cut after its first byte. -/
theorem failed_put_leaves_no_residue_brace :
    SameState jsonSerde.plain ⟨[], .empty⟩ (StorageEngine.putObject jsonSerde.plain ⟨[], .empty⟩ .root (some 0) none
      Json.null () (.failed 1)).2 := by
  have hfail := putObject_eq_failed jsonSerde.plain ⟨[], .empty⟩ (some 0) none Caller.root_write rfl
    Json.null () 1
  obtain ⟨hiff, hunseen⟩ := failed_put_leaves_no_residue jsonSerde_lawful (congrArg Prod.fst hfail)
  refine hiff.mpr (.inr ⟨rfl, .inr ?_⟩)
  rintro written ⟨⟩
  refine (hunseen _ _).1 (.inl rfl) ?_
  rw [Unread, if_neg (one_lt_line _)]
  obtain ⟨rest, hrest⟩ := toVec_eq_cons (written ⟨[], .empty⟩ .root (some 0) Json.null)
  show (decodeUtf8 ((jsonSerde.toVec _).take 1)).isSome = true
  rw [hrest]
  show (decodeUtf8 (utf8Bytes ['\x7b'])).isSome = true
  rw [decodeUtf8_utf8Bytes]
  rfl

/-- **A failed write leaves a residue**: a conflicting write has drawn an object id; and a write whose bytes all
arrived before the error is found by the next open. -/
theorem failed_put_leaves_residue :
    ((StorageEngine.putObject jsonSerde.plain ⟨[], .empty⟩ .root none (some 5) Json.null () .completed).1 =
        .error (.concurrentWriteConflict 0 (some 5) none) ∧
      (StorageEngine.putObject jsonSerde.plain ⟨[], .empty⟩ .root none (some 5) Json.null ()
        .completed).2.inner.nextObjectId = 1) ∧
    ∃ written e', (StorageEngine.putObject jsonSerde.plain ⟨[], .empty⟩ .root (some 0) none Json.null ()
        (.failed written)) = (.error .wal, e') ∧ e'.inner.metadata[(0 : Nat)]? = none ∧
      ∃ reopened, StorageEngine.openImpl jsonSerde.plain e'.file = .ok reopened ∧
        reopened.getObject .root 0 none = .ok .null := by
  refine ⟨⟨rfl, rfl⟩, (jsonSerde.toVec (nullRecord 0)).length, _, putObject_eq_failed jsonSerde.plain
    ⟨[], .empty⟩ (some 0) none Caller.root_write rfl Json.null () _, rfl,
    ⟨jsonSerde.toVec (nullRecord 0), .rebuild [nullRecord 0]⟩, ?_, rfl⟩
  have hfile : ([] : List UInt8) ++ (jsonSerde.plain.line () (written ⟨[], .empty⟩ .root (some 0) Json.null)
      ++ [newline]).take (jsonSerde.toVec (nullRecord 0)).length = jsonSerde.toVec (nullRecord 0) := by
    rw [nil_append]
    exact take_left
  have hreplay : replay jsonSerde.plain (jsonSerde.toVec (nullRecord 0)) = .ok [nullRecord 0] :=
    jsonSerde_lawful.replay_line () (nullRecord 0)
  dsimp only
  rw [hfile, openImpl, hreplay]
  rfl

end Hyperion.Storage
