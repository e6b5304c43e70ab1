import Hyperion.Storage.Views

/-!
# Acknowledged writes across crashes

A crash during an append leaves a prefix of its line behind the closed lines of the file. Replay
reads such a file as the log so far, with the cut record if its whole text arrived (`Recoverable`).
The next append would go on right behind the prefix, on the same line; so what was acknowledged is
safe as long as nothing is appended to an unclosed line (`SafeAppend`), and `compact` and
`purge_object`, which rewrite the file, close it again.
-/

namespace Hyperion.Storage
open Lib Capability List HashMap StorageEngine

section
variable {V : Type}

/-- A file that replays as `log`: closed lines, and behind them at most one line that is not. -/
structure Recoverable (C : Codec V) (reread : V → Option V) (file : List UInt8)
    (log : List (WalRecord V)) : Prop where
  lines : ∃ closed tail log₀ extra, file = closed ++ tail ∧ log = log₀ ++ extra ∧
    C.Holds closed log₀ ∧ IsLine tail ∧ replay C tail = .ok extra
  ordered : Ordered log
  stable : ∀ r ∈ log, Stable reread r.metadata

/-- A process that runs an engine over the file, or none after a crash; and for each object the
metadata of its last acknowledged write, unless a later call purged or superseded it. -/
structure World (V : Type) where
  file : List UInt8
  engine : Option (Inner V)
  acked : HashMap ObjectId V

/-- The runs of the engine with crashes. `append file record bytes` says which appends are made:
`bytes` of the line of `record` reach `file`. A record whose whole text is in the file when the
process dies supersedes the object's last write, acknowledged or not. -/
inductive CrashStep (C : Codec V) (null : V)
    (append : List UInt8 → WalRecord V → List UInt8 → Prop) : World V → World V → Prop
  | acknowledged {file : List UInt8} {i : Inner V} {acked : HashMap ObjectId V} (caller : Caller)
      (objectId : Option ObjectId) (expectedVersion : Option VersionId) (metadata : V)
      (nonce : C.Nonce) {o : ObjectId} {v : VersionId} {e : StorageEngine V}
      (hput : StorageEngine.putObject C ⟨file, i⟩ caller objectId expectedVersion metadata nonce
        .completed = (.ok (o, v), e))
      (happend : append file (StorageEngine.written ⟨file, i⟩ caller objectId metadata)
        (C.line nonce (StorageEngine.written ⟨file, i⟩ caller objectId metadata) ++ [newline])) :
      CrashStep C null append ⟨file, some i, acked⟩ ⟨e.file, some e.inner, acked.insert o metadata⟩
  | rejected {file : List UInt8} {i : Inner V} {acked : HashMap ObjectId V} (caller : Caller)
      (objectId : Option ObjectId) (expectedVersion : Option VersionId) (metadata : V)
      (nonce : C.Nonce) {err : StorageError} {e : StorageEngine V}
      (hput : StorageEngine.putObject C ⟨file, i⟩ caller objectId expectedVersion metadata nonce
        .completed = (.error err, e)) :
      CrashStep C null append ⟨file, some i, acked⟩ ⟨e.file, some e.inner, acked⟩
  | crashInAppend {file : List UInt8} {i : Inner V} {acked : HashMap ObjectId V} (caller : Caller)
      (objectId : Option ObjectId) (expectedVersion : Option VersionId) (metadata : V)
      (nonce : C.Nonce) (written : Nat) {e : StorageEngine V}
      (hput : StorageEngine.putObject C ⟨file, i⟩ caller objectId expectedVersion metadata nonce
        (.failed written) = (.error .wal, e))
      (happend : append file (StorageEngine.written ⟨file, i⟩ caller objectId metadata)
        ((C.line nonce (StorageEngine.written ⟨file, i⟩ caller objectId metadata) ++
          [newline]).take written)) :
      CrashStep C null append ⟨file, some i, acked⟩ ⟨e.file, none,
        if (C.line nonce (StorageEngine.written ⟨file, i⟩ caller objectId metadata)).length ≤ written
        then acked.erase (StorageEngine.written ⟨file, i⟩ caller objectId metadata).objectId
        else acked⟩
  | crash {file : List UInt8} {engine : Option (Inner V)} {acked : HashMap ObjectId V} :
      CrashStep C null append ⟨file, engine, acked⟩ ⟨file, none, acked⟩
  | openImpl {file : List UInt8} {engine : Option (Inner V)} {acked : HashMap ObjectId V}
      {e : StorageEngine V} (hopen : StorageEngine.openImpl C file = .ok e) :
      CrashStep C null append ⟨file, engine, acked⟩ ⟨e.file, some e.inner, acked⟩
  | compact {file : List UInt8} {i : Inner V} {acked : HashMap ObjectId V} (caller : Caller)
      (order : List (ObjectId × VersionId)) (nonce : Nat → C.Nonce)
      (horder : order.Perm i.versionPointer.toList) {result : Except StorageError Nat}
      {e : StorageEngine V}
      (hcompact : StorageEngine.compact C ⟨file, i⟩ caller null order nonce = (result, e)) :
      CrashStep C null append ⟨file, some i, acked⟩ ⟨e.file, some e.inner, acked⟩
  | purged {file : List UInt8} {i : Inner V} {acked : HashMap ObjectId V} (caller : Caller)
      (objectId : ObjectId) (nonce : Nat → C.Nonce) {n : Nat} {e : StorageEngine V}
      (hpurge : StorageEngine.purgeObject C ⟨file, i⟩ caller objectId nonce = (.ok n, e)) :
      CrashStep C null append ⟨file, some i, acked⟩ ⟨e.file, some e.inner, acked.erase objectId⟩
  | purgeRefused {file : List UInt8} {i : Inner V} {acked : HashMap ObjectId V} (caller : Caller)
      (objectId : ObjectId) (nonce : Nat → C.Nonce) {err : StorageError} {e : StorageEngine V}
      (hpurge : StorageEngine.purgeObject C ⟨file, i⟩ caller objectId nonce = (.error err, e)) :
      CrashStep C null append ⟨file, some i, acked⟩ ⟨e.file, some e.inner, acked⟩

def Survived (C : Codec V) (null : V) (append : List UInt8 → WalRecord V → List UInt8 → Prop) :
    World V → Prop :=
  Relation.ReflTransGen (CrashStep C null append) ⟨[], none, ∅⟩

/-- An append to a closed file, of a record whose metadata read back from their JSON text, that is
not cut inside a character. -/
def SafeAppend (reread : V → Option V) (file : List UInt8) (record : WalRecord V)
    (bytes : List UInt8) : Prop :=
  Terminated file ∧ Stable reread record.metadata ∧ (decodeUtf8 bytes).isSome = true

/-! ## Files with an unclosed line -/

section
variable {C : Codec V} {reread : V → Option V} {file : List UInt8} {log : List (WalRecord V)}

theorem Recoverable.of_holds (h : C.Holds file log) (hordered : Ordered log)
    (hstable : ∀ r ∈ log, Stable reread r.metadata) : Recoverable C reread file log :=
  ⟨⟨file, [], log, [], by simp, by simp, h, by simp [IsLine], rfl⟩, hordered, hstable⟩

theorem Recoverable.replay_eq (R : Recoverable C reread file log) : replay C file = .ok log := by
  obtain ⟨closed, tail, log₀, extra, rfl, rfl, hclosed, -, htail⟩ := R.lines
  rw [hclosed.replay_append, htail]
  rfl

theorem Recoverable.openImpl_eq (R : Recoverable C reread file log) :
    openImpl C file = .ok ⟨file, .rebuild log⟩ := by
  rw [openImpl, R.replay_eq]
  rfl

theorem Recoverable.holds (R : Recoverable C reread file log) (h : Terminated file) : C.Holds file log := by
  obtain ⟨closed, tail, log₀, extra, rfl, rfl, hclosed, hline, htail⟩ := R.lines
  cases eq_nil_of_terminated h hline
  cases htail
  simpa using hclosed

theorem Codec.Lawful.recoverable_cut (L : C.Lawful reread) (h : C.Holds file log) (hordered : Ordered log)
    (hstable : ∀ r ∈ log, Stable reread r.metadata) {r : WalRecord V}
    (hfresh : ∀ r' ∈ log, r'.newVersion < r.newVersion) (hr : Stable reread r.metadata) (nonce : C.Nonce)
    {written : Nat} (hutf8 : (decodeUtf8 ((C.line nonce r ++ [newline]).take written)).isSome = true) :
    Recoverable C reread (file ++ (C.line nonce r ++ [newline]).take written)
      (if (C.line nonce r).length ≤ written then log ++ [r] else log) := by
  have hreads := L.reads_line hr nonce
  have hordered' : Ordered (log ++ [r]) := hordered.concat hfresh
  have hstable' : ∀ r' ∈ log ++ [r], Stable reread r'.metadata :=
    forall_mem_append.mpr ⟨hstable, forall_mem_singleton.mpr hr⟩
  split
  · next hle =>
    rcases Nat.eq_or_lt_of_le hle with heq | hlt
    · -- the whole text without its newline
      rw [← heq, take_left]
      exact ⟨⟨file, _, log, [r], rfl, rfl, h, hreads.isLine,
        hreads.replay_eq (L.nonempty nonce r)⟩, hordered', hstable'⟩
    · rw [take_of_length_le (by simpa using hlt)]
      exact .of_holds (h.concat hreads) hordered' hstable'
  · next hlt =>
    have hlt : written < (C.line nonce r).length := Nat.lt_of_not_le hlt
    rw [take_append_of_le_length (le_of_lt hlt)] at hutf8 ⊢
    obtain ⟨s, hs⟩ := Option.isSome_iff_exists.mp hutf8
    have hne : (C.line nonce r).take written ≠ C.line nonce r := by
      intro heq
      have hlen := congrArg List.length heq
      rw [length_take] at hlen
      omega
    have htorn := L.replay_torn nonce r (List.take_prefix _ _) hne hs
    exact ⟨⟨file, _, log, [], rfl, by simp, h, hreads.isLine.of_start (List.take_prefix _ _), htorn⟩,
      hordered, hstable⟩

end

/-! ## Runs with crashes -/

/-- The file replays as a log that the views mirror, and its last records are the acknowledged
writes. -/
structure Durable (C : Codec V) (reread : V → Option V) (w : World V) (log : List (WalRecord V)) :
    Prop where
  recoverable : Recoverable C reread w.file log
  mirrors : ∀ i, w.engine = some i → Mirrors reread i log
  acked : ∀ (o : ObjectId) (m : V), w.acked[o]? = some m →
    (Inner.rebuild log).metadata[o]? = some m

section
variable {C : Codec V} {reread : V → Option V} {log : List (WalRecord V)}

theorem rebuild_metadata_concat (r : WalRecord V) (o : ObjectId) :
    (Inner.rebuild (log ++ [r])).metadata[o]? =
      if r.objectId = o then some r.metadata else (Inner.rebuild log).metadata[o]? := by
  rw [Inner.rebuild_metadata, get_lastWins_concat, Inner.rebuild_metadata]

theorem Codec.Lawful.durable_rewritten (L : C.Lawful reread) {i : Inner V} (M : Mirrors reread i log)
    (nonce : Nat → C.Nonce) {acked : HashMap ObjectId V}
    (hacked : ∀ (o : ObjectId) (m : V), acked[o]? = some m → i.metadata[o]? = some m) :
    Durable C reread ⟨rewritten C nonce log, some i, acked⟩ log where
  recoverable := .of_holds (L.holds_rewritten M.stable nonce) M.ordered M.stable
  mirrors := by
    rintro i' ⟨⟩
    exact M
  acked o m hm := M.eq_rebuild.1 ▸ hacked o m hm

section
variable {file : List UInt8} {i : Inner V} {acked : HashMap ObjectId V}

theorem Durable.stored (L : C.Lawful reread) (D : Durable C reread ⟨file, some i, acked⟩ log)
    (hclosed : Terminated file) (caller : Caller) (objectId : Option ObjectId) {metadata : V}
    (hstable : Stable reread metadata) (nonce : C.Nonce) : Durable C reread
      ⟨file ++ (C.line nonce (written ⟨file, i⟩ caller objectId metadata) ++ [newline]),
        some { (i.allocate objectId).2.commit
            (written ⟨file, i⟩ caller objectId metadata) with
          nextVersionId := i.nextVersionId + 1 },
        acked.insert (i.allocate objectId).1 metadata⟩
      (log ++ [written ⟨file, i⟩ caller objectId metadata]) := by
  have T : Tracks C reread ⟨file, i⟩ log := ⟨D.recoverable.holds hclosed, D.mirrors i rfl⟩
  have T' := T.stored L caller objectId hstable nonce
  refine ⟨.of_holds T'.holds T'.mirrors.ordered T'.mirrors.stable, ?_, ?_⟩
  · rintro i' ⟨⟩
    exact T'.mirrors
  · intro o m hm
    rw [rebuild_metadata_concat]
    rw [get_insert] at hm
    split at hm
    · next heq => exact (if_pos heq).trans hm
    · next hne => exact (if_neg hne).trans (D.acked o m hm)

theorem Durable.cut (L : C.Lawful reread) (D : Durable C reread ⟨file, some i, acked⟩ log)
    (hclosed : Terminated file) {r : WalRecord V} (hr : r.newVersion = i.nextVersionId)
    (hstable : Stable reread r.metadata) (nonce : C.Nonce) {written : Nat}
    (hutf8 : (decodeUtf8 ((C.line nonce r ++ [newline]).take written)).isSome = true) : Durable C reread
      ⟨file ++ (C.line nonce r ++ [newline]).take written, none,
        if (C.line nonce r).length ≤ written then acked.erase r.objectId else acked⟩
      (if (C.line nonce r).length ≤ written then log ++ [r] else log) := by
  have M := D.mirrors i rfl
  have hfresh : ∀ r' ∈ log, r'.newVersion < r.newVersion := hr ▸ M.chains.fresh M.coherent
  refine ⟨L.recoverable_cut (D.recoverable.holds hclosed) M.ordered M.stable hfresh hstable nonce
    hutf8, by rintro i' ⟨⟩, ?_⟩
  intro o m hm
  split
  · next hle =>
    rw [if_pos hle, get_erase] at hm
    rw [rebuild_metadata_concat]
    split at hm
    · cases hm
    · next hne => rw [if_neg hne]; exact D.acked o m hm
  · next hgt =>
    rw [if_neg hgt] at hm
    exact D.acked o m hm

end

theorem CrashStep.durable (L : C.Lawful reread) {null : V} {w w' : World V}
    (h : CrashStep C null (SafeAppend reread) w w') (D : Durable C reread w log) :
    ∃ log', Durable C reread w' log' := by
  cases h with
  | @acknowledged _ _ _ caller objectId _ _ nonce _ _ _ hput happend =>
    obtain ⟨hclosed, hstable, -⟩ := happend
    cases putObject_outcome hput with
    | stored => exact ⟨_, D.stored L hclosed caller objectId hstable nonce⟩
  | @rejected _ i _ _ objectId _ _ _ _ _ hput =>
    cases putObject_outcome hput with
    | unauthorized => exact ⟨log, D⟩
    | conflict =>
      refine ⟨log, D.recoverable, ?_, D.acked⟩
      rintro i' ⟨⟩
      exact (D.mirrors i rfl).allocate objectId
    | failed _ _ written hio => cases hio
  | @crashInAppend _ _ _ _ _ _ _ nonce _ _ hput happend =>
    obtain ⟨hclosed, hstable, hutf8⟩ := happend
    cases putObject_outcome hput with
    | failed _ _ written' hio =>
      cases hio
      exact ⟨_, D.cut L hclosed rfl hstable nonce hutf8⟩
  | crash => exact ⟨log, D.recoverable, by rintro i' ⟨⟩, D.acked⟩
  | openImpl hopen =>
    cases D.recoverable.openImpl_eq.symm.trans hopen
    refine ⟨log, D.recoverable, ?_, D.acked⟩
    rintro i' ⟨⟩
    exact mirrors_rebuild D.recoverable.ordered D.recoverable.stable
  | @compact file i _ caller order nonce horder _ _ hcompact =>
    have M := D.mirrors i rfl
    rcases compact_cases C ⟨file, i⟩ caller null order nonce with ⟨err, heq⟩ | ⟨n, heq⟩ <;>
      cases heq.symm.trans hcompact
    · exact ⟨log, D⟩
    · exact ⟨_, L.durable_rewritten (M.compacted horder null _) nonce
        fun o m hm => M.eq_rebuild.1 ▸ D.acked o m hm⟩
  | @purged file i _ caller objectId nonce _ _ hpurge =>
    have M := D.mirrors i rfl
    rcases purgeObject_cases C ⟨file, i⟩ caller objectId nonce with ⟨err, heq⟩ | ⟨n, heq⟩ <;>
      cases heq.symm.trans hpurge
    refine ⟨_, L.durable_rewritten (M.purged _ objectId) nonce fun o m hm => ?_⟩
    rw [get_erase] at hm
    split at hm
    · cases hm
    · next hne =>
      rw [Inner.purged, get_erase, if_neg hne, M.eq_rebuild.1]
      exact D.acked o m hm
  | @purgeRefused file i _ caller objectId nonce _ _ hpurge =>
    rcases purgeObject_cases C ⟨file, i⟩ caller objectId nonce with ⟨err, heq⟩ | ⟨n, heq⟩ <;>
      cases heq.symm.trans hpurge
    exact ⟨log, D⟩

theorem Survived.durable (L : C.Lawful reread) {null : V} {w : World V}
    (h : Survived C null (SafeAppend reread) w) : ∃ log, Durable C reread w log := by
  induction h with
  | refl =>
    refine ⟨[], .of_holds C.holds_nil .nil (by simp), by rintro i ⟨⟩, ?_⟩
    intro o m hm
    simp at hm
  | tail _ hstep ih =>
    obtain ⟨log, D⟩ := ih
    exact hstep.durable L D

/-- **Acknowledged writes survive crashes.** In every run of writes, rewrites, crashes and reopens
whose appends are all safe, the file opens at every moment, and the engine it opens to returns the
metadata of each object's last acknowledged write. -/
theorem acknowledged_writes_survive (L : C.Lawful reread) {null : V} {w : World V}
    (h : Survived C null (SafeAppend reread) w) :
    ∃ e, StorageEngine.openImpl C w.file = .ok e ∧
      ∀ (o : ObjectId) (m : V), w.acked[o]? = some m →
        ∀ caller : Caller, caller.authorize .read = .ok () → e.getObject caller o none = .ok m := by
  obtain ⟨log, D⟩ := h.durable L
  refine ⟨_, D.recoverable.openImpl_eq, fun o m hm caller hauth => ?_⟩
  rw [getObject, hauth]
  simp only [D.acked o m hm]

end

/-! ### Two writes and a crash -/

def nullRecord (n : Nat) : WalRecord Json := ⟨n, none, n, .null, 7⟩

/-- The file of one such write, and of a second one cut after its first byte. -/
def cutFile : List UInt8 := jsonSerde.toVec (nullRecord 0) ++ [newline] ++ [123]

def firstInner : Inner Json :=
  { Inner.empty.commit (nullRecord 0) with nextObjectId := 1, nextVersionId := 1 }

theorem take_one_line (r : WalRecord Json) : (jsonSerde.toVec r ++ [newline]).take 1 = [123] := by
  obtain ⟨rest, hrest⟩ := toVec_eq_cons r
  rw [hrest]
  rfl

theorem one_lt_line (r : WalRecord Json) : ¬ (jsonSerde.toVec r).length ≤ 1 := by
  obtain ⟨rest, hrest⟩ := toVec_eq_cons r
  simp [hrest]

theorem survived_cut {append : List UInt8 → WalRecord Json → List UInt8 → Prop}
    (hfirst : append [] (nullRecord 0) (jsonSerde.toVec (nullRecord 0) ++ [newline]))
    (hsecond : append (jsonSerde.toVec (nullRecord 0) ++ [newline]) (nullRecord 1) [123]) :
    Survived jsonSerde.plain .null append
      ⟨cutFile, none, (∅ : HashMap ObjectId Json).insert 0 .null⟩ := by
  have hopen : CrashStep jsonSerde.plain .null append ⟨[], none, ∅⟩ ⟨[], some .empty, ∅⟩ :=
    .openImpl (e := ⟨[], .empty⟩) rfl
  have hput : CrashStep jsonSerde.plain .null append ⟨[], some .empty, ∅⟩
      ⟨jsonSerde.toVec (nullRecord 0) ++ [newline], some firstInner,
        (∅ : HashMap ObjectId Json).insert 0 .null⟩ := by
    refine .acknowledged (v := 0) (e := ⟨_, _⟩) .root none none Json.null () ?_ hfirst
    rw [putObject_firstWrite, firstWrite_eq]
    rfl
  have hcut : CrashStep jsonSerde.plain .null append
      ⟨jsonSerde.toVec (nullRecord 0) ++ [newline], some firstInner,
        (∅ : HashMap ObjectId Json).insert 0 .null⟩
      ⟨cutFile, none, (∅ : HashMap ObjectId Json).insert 0 .null⟩ := by
    have hfailed := putObject_eq_failed jsonSerde.plain
      ⟨jsonSerde.toVec (nullRecord 0) ++ [newline], firstInner⟩ none none Caller.root_write rfl
      Json.null () 1
    have hwritten : written
        ⟨jsonSerde.toVec (nullRecord 0) ++ [newline], firstInner⟩ .root none Json.null =
          nullRecord 1 := rfl
    rw [hwritten, take_one_line] at hfailed
    have happend : append (jsonSerde.toVec (nullRecord 0) ++ [newline])
        (written ⟨jsonSerde.toVec (nullRecord 0) ++ [newline], firstInner⟩ .root none
          .null)
        ((jsonSerde.toVec (written
          ⟨jsonSerde.toVec (nullRecord 0) ++ [newline], firstInner⟩ .root none .null) ++
            [newline]).take 1) := by
      rw [hwritten, take_one_line]
      exact hsecond
    have hstep := @CrashStep.crashInAppend _ jsonSerde.plain .null append _ _
      ((∅ : HashMap ObjectId Json).insert 0 .null) .root none none .null () 1 _ hfailed happend
    rw [hwritten, if_neg (one_lt_line _)] at hstep
    exact hstep
  exact .tail (.tail (.single hopen) hput) hcut

/-- Both appends are safe, and the first write is there after the crash. -/
theorem acknowledged_writes_survive_cut :
    Survived jsonSerde.plain .null (SafeAppend jsonReread)
      ⟨cutFile, none, (∅ : HashMap ObjectId Json).insert 0 .null⟩ ∧
    ∃ e, StorageEngine.openImpl jsonSerde.plain cutFile = .ok e ∧
      e.getObject .root 0 none = .ok .null := by
  have hline : (decodeUtf8 (jsonSerde.toVec (nullRecord 0) ++ [newline])).isSome = true := by
    have hbytes : jsonSerde.toVec (nullRecord 0) ++ [newline] =
        utf8Bytes (Json.render (.obj (recordFields (nullRecord 0))) ++ ['\n']) := by
      rw [utf8Bytes, flatMap_append]
      rfl
    rw [hbytes, decodeUtf8_utf8Bytes]
    rfl
  have hsurvived : Survived jsonSerde.plain .null (SafeAppend jsonReread)
      ⟨cutFile, none, (∅ : HashMap ObjectId Json).insert 0 .null⟩ := by
    refine survived_cut ⟨.inl rfl, rfl, hline⟩ ⟨.inr List.getLast?_concat, rfl, ?_⟩
    have hbrace : decodeUtf8 [123] = some "\x7b" := decodeUtf8_utf8Bytes ['\x7b']
    rw [hbrace]
    rfl
  obtain ⟨e, hopen, hget⟩ := acknowledged_writes_survive jsonSerde_lawful hsurvived
  exact ⟨hsurvived, e, hopen, hget 0 .null rfl .root Caller.root_read⟩

theorem holds_nullRecord :
    jsonSerde.plain.Holds (jsonSerde.toVec (nullRecord 0) ++ [newline]) [nullRecord 0] :=
  ⟨[jsonSerde.toVec (nullRecord 0)], by simp [unlines],
    .cons (jsonSerde_lawful.reads_line (r := nullRecord 0) rfl ()) .nil⟩

theorem replay_cutFile : replay jsonSerde.plain cutFile = .ok [nullRecord 0] := by
  obtain ⟨rest, hrest⟩ := toVec_eq_cons (nullRecord 1)
  have htorn : replay jsonSerde.plain [123] = .ok [] := by
    refine jsonSerde_lawful.replay_torn () (nullRecord 1) ?_ ?_ (decodeUtf8_utf8Bytes ['\x7b'])
    · exact ⟨34 :: rest, hrest.symm⟩
    · intro heq
      cases heq.trans hrest
  rw [cutFile, holds_nullRecord.replay_append, htorn]
  rfl

theorem replay_cutFile_append : replay jsonSerde.plain
    (cutFile ++ (jsonSerde.toVec (nullRecord 1) ++ [newline])) = .ok [nullRecord 0] := by
  have hfile : cutFile ++ (jsonSerde.toVec (nullRecord 1) ++ [newline]) =
      (jsonSerde.toVec (nullRecord 0) ++ [newline]) ++
        ((123 :: jsonSerde.toVec (nullRecord 1)) ++ newline :: []) := by
    simp [cutFile]
  have hline : IsLine (123 :: jsonSerde.toVec (nullRecord 1)) := by
    refine forall_mem_cons.mpr ⟨by decide, ?_⟩
    exact jsonSerde_lawful.isLine () (nullRecord 1)
  obtain ⟨s, hs, hparse⟩ := fromStr_brace_line (nullRecord 1)
  rw [hfile, holds_nullRecord.replay_append,
    replay_unparsable hline (cons_ne_nil _ _) hs hparse]
  rfl

/-- The engine that opens the cut file has the first write, and acknowledges another one, which goes
on the line that was cut. The next open does not find it. -/
theorem unclosed_line_loses_acknowledged_write : ∃ w : World Json,
    Survived jsonSerde.plain .null (fun _ _ _ => True) w ∧ w.acked[1]? = some .null ∧
      ∃ e, StorageEngine.openImpl jsonSerde.plain w.file = .ok e ∧
        e.getObject .root 1 none = .error .notFound := by
  have hopen : CrashStep jsonSerde.plain .null (fun _ _ _ => True)
      ⟨cutFile, none, (∅ : HashMap ObjectId Json).insert 0 .null⟩
      ⟨cutFile, some (.rebuild [nullRecord 0]), (∅ : HashMap ObjectId Json).insert 0 .null⟩ := by
    refine .openImpl (e := ⟨cutFile, .rebuild [nullRecord 0]⟩) ?_
    rw [openImpl, replay_cutFile]
    rfl
  have hput := putObject_eq_stored jsonSerde.plain
    ⟨cutFile, .rebuild [nullRecord 0]⟩ none none Caller.root_write rfl Json.null ()
  have hstep := @CrashStep.acknowledged _ jsonSerde.plain Json.null (fun _ _ _ => True) _ _
    ((∅ : HashMap ObjectId Json).insert 0 .null) .root none none .null () _ _ _ hput trivial
  refine ⟨_, .tail (.tail (survived_cut trivial trivial) hopen) hstep, rfl,
    ⟨cutFile ++ (jsonSerde.toVec (nullRecord 1) ++ [newline]), .rebuild [nullRecord 0]⟩, ?_, rfl⟩
  have hfile : openImpl jsonSerde.plain
      (cutFile ++ (jsonSerde.toVec (nullRecord 1) ++ [newline])) =
        .ok ⟨cutFile ++ (jsonSerde.toVec (nullRecord 1) ++ [newline]), .rebuild [nullRecord 0]⟩ := by
    rw [openImpl, replay_cutFile_append]
    rfl
  exact hfile

end

end Hyperion.Storage
