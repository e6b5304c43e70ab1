import Hyperion.Storage.Ids
import Hyperion.Storage.Reopen

/-!
# Creating objects

`put_object` without an object id takes the next one from the counter. It conflicts if that id is already in use,
which happens once a caller has created an object under an id that the counter has not reached.
-/

namespace Hyperion.Storage
open Lib Capability Hyperion.Storage.Inner

section
variable {V : Type} {C : Codec V} {reread : V → Option V}

/-- An object that is created by name has an id that the counter has passed, and neither counter wraps. -/
def AllottedPut (i : Inner V) (objectId : Option ObjectId) (_metadata : V) : Prop :=
  (∀ o, objectId = some o → i.versionPointer[o]? = none → o < i.nextObjectId) ∧
    (objectId = none → i.nextObjectId + 1 < 2 ^ 64) ∧ i.nextVersionId + 1 < 2 ^ 64

/-- The counters are `u64` values, the one of objects is above the ids in use, and no object or version in the file is
the last one there is. -/
structure Allotted (C : Codec V) (reread : V → Option V) (e : StorageEngine V) (records : List (WalRecord V)) :
    Prop where
  kept : Kept C reread e records
  counter : e.inner.nextObjectId < 2 ^ 64
  live : ∀ (v : VersionId) (rec : VersionRecord V), e.inner.versionChain[v]? = some rec →
    rec.objectId < e.inner.nextObjectId
  versions : e.inner.nextVersionId < 2 ^ 64
  ids : ∀ r ∈ records, r.objectId + 1 < 2 ^ 64 ∧ r.newVersion + 1 < 2 ^ 64

section
variable {e : StorageEngine V} {records : List (WalRecord V)}

section
variable (A : Allotted C reread e records)
include A

theorem Allotted.pointer_lt {o : ObjectId} {v : VersionId}
    (h : e.inner.versionPointer[o]? = some v) : o < e.inner.nextObjectId := by
  obtain ⟨log, M⟩ := A.kept.sound
  obtain ⟨rec, hrec, rfl, -⟩ := M.coherent.head o v h
  exact A.live v rec hrec

variable {objectId : Option ObjectId} {metadata : V}

theorem Allotted.allocate_lt (hput : AllottedPut e.inner objectId metadata) :
    (e.inner.allocate objectId).1 < (e.inner.allocate objectId).2.nextObjectId ∧
      e.inner.nextObjectId ≤ (e.inner.allocate objectId).2.nextObjectId ∧
      (e.inner.allocate objectId).2.nextObjectId < 2 ^ 64 := by
  refine allocate_fst_lt (fun o ho => ?_) hput.2.1 A.counter
  cases hptr : e.inner.versionPointer[o]? with
  | none => exact hput.1 o ho hptr
  | some v => exact A.pointer_lt hptr

theorem Allotted.conflict (hput : AllottedPut e.inner objectId metadata) :
    Allotted C reread { e with inner := (e.inner.allocate objectId).2 } records := by
  obtain ⟨-, hle, hlt⟩ := A.allocate_lt hput
  refine ⟨A.kept.allocate objectId, hlt, fun v rec hrec => ?_, ?_, A.ids⟩
  · have hrec : e.inner.versionChain[v]? = some rec := by cases objectId <;> exact hrec
    exact lt_of_lt_of_le (A.live v rec hrec) hle
  · rw [StorageEngine.allocate_nextVersionId]
    exact A.versions

theorem Allotted.stored (caller : Caller)
    (hput : AllottedPut e.inner objectId metadata) (nonce : C.Nonce) : Allotted C reread
      { file := e.file ++ (C.line nonce (e.written caller objectId metadata) ++ [newline]),
        inner := { (e.inner.allocate objectId).2.commit (e.written caller objectId metadata) with
          nextVersionId := e.inner.nextVersionId + 1 } }
      (records ++ [e.written caller objectId metadata]) := by
  obtain ⟨hnew, hle, hlt⟩ := A.allocate_lt hput
  refine ⟨A.kept.stored caller objectId metadata nonce, hlt, fun v rec hrec => ?_, hput.2.2, ?_⟩
  · rw [Inner.commit, HashMap.get_insert] at hrec
    split at hrec
    · cases hrec
      exact hnew
    · have hrec : e.inner.versionChain[v]? = some rec := by cases objectId <;> exact hrec
      exact lt_of_lt_of_le (A.live v rec hrec) hle
  · refine List.forall_mem_append.mpr ⟨A.ids, List.forall_mem_singleton.mpr ?_⟩
    exact ⟨lt_of_le_of_lt hnew hlt, hput.2.2⟩

theorem Allotted.rewritten {i : Inner V} {log : List (WalRecord V)}
    (M : Mirrors some i log) (hnext : i.nextObjectId = e.inner.nextObjectId)
    (hversion : i.nextVersionId = e.inner.nextVersionId)
    (hlog : ∀ r ∈ log, ∃ (v : VersionId) (rec : VersionRecord V), e.inner.versionChain[v]? = some rec ∧
      rec.objectId = r.objectId) (nonce : Nat → C.Nonce) :
    Allotted C reread ⟨Storage.rewritten C nonce log, i⟩ log := by
  have hlt : ∀ r ∈ log, r.objectId < e.inner.nextObjectId := by
    intro r hr
    obtain ⟨v, rec, hrec, heq⟩ := hlog r hr
    exact heq ▸ A.live v rec hrec
  refine ⟨kept_rewritten M nonce, hnext ▸ A.counter, fun v rec hrec => ?_, hversion ▸ A.versions, fun r hr => ⟨?_, ?_⟩⟩
  · obtain ⟨r, hr, -, rfl⟩ := (M.chains v rec).mp hrec
    exact hnext ▸ hlt r hr
  · exact lt_of_le_of_lt (hlt r hr) A.counter
  · exact lt_of_le_of_lt (M.chains.fresh M.coherent r hr) (hversion ▸ A.versions)

theorem Allotted.reopen : Allotted C reread ⟨e.file, .rebuild (readBack reread records)⟩ records := by
  refine ⟨A.kept.reopen, rebuild_nextObjectId_lt _, fun v rec hrec => ?_, ?_, A.ids⟩
  · obtain ⟨r, hr, -, rfl⟩ := (chains_rebuild A.kept.ordered v rec).mp hrec
    have hle := (rebuild_nextObjectId_le (readBack reread records) _).mp (le_refl _) r hr
    obtain ⟨old, hold, m, -, rfl⟩ := mem_readBack hr
    rw [Nat.mod_eq_of_lt (A.ids old hold).1] at hle
    exact hle
  · have hle : (rebuild (readBack reread records)).nextVersionId ≤ 2 ^ 64 - 1 := by
      refine (rebuild_nextVersionId_le _ _).mpr fun r hr => ?_
      obtain ⟨old, hold, m, -, rfl⟩ := mem_readBack hr
      exact Nat.lt_sub_of_add_lt (A.ids old hold).2
    exact lt_of_le_of_lt hle (by decide)

end

end

theorem Lived.allotted (L : C.Lawful reread) {null : V} {hist : List (Attempt V)} {e : StorageEngine V}
    (h : Lived C null AllottedPut (fun _ => True) hist e) : ∃ records, Allotted C reread e records := by
  induction h with
  | start =>
    refine ⟨[], kept_empty, Nat.two_pow_pos 64, fun v rec hrec => ?_, Nat.two_pow_pos 64, by simp⟩
    simp [Inner.empty] at hrec
  | stored caller _ _ _ nonce _ hcond hput ih =>
    obtain ⟨records, A⟩ := ih
    cases StorageEngine.putObject_outcome hput with
    | stored => exact ⟨_, A.stored caller hcond nonce⟩
  | conflict _ _ _ _ _ _ hcond hput ih =>
    obtain ⟨records, A⟩ := ih
    cases StorageEngine.putObject_outcome hput with
    | conflict => exact ⟨records, A.conflict hcond⟩
  | @compact hist e caller order nonce _ horder ih =>
    obtain ⟨records, A⟩ := ih
    obtain ⟨log, M⟩ := A.kept.sound
    rcases e.compact_cases C caller null order nonce with ⟨err, heq⟩ | ⟨n, heq⟩ <;> rw [heq]
    · exact ⟨records, A⟩
    · refine ⟨_, A.rewritten (M.compacted horder null _) rfl rfl (fun r hr => ?_) nonce⟩
      obtain ⟨o, v, rec, -, hrec, ho, rfl⟩ := (mem_headRecords M.coherent horder null _).mp hr
      exact ⟨v, rec, hrec, ho⟩
  | @purgeObject hist e caller objectId nonce _ ih =>
    obtain ⟨records, A⟩ := ih
    obtain ⟨log, M⟩ := A.kept.sound
    rcases e.purgeObject_cases C caller objectId nonce with ⟨err, heq⟩ | ⟨n, heq⟩ <;> rw [heq]
    · exact ⟨records, A⟩
    · refine ⟨_, A.rewritten (M.purged _ objectId) rfl rfl (fun r hr => ?_) nonce⟩
      obtain ⟨v, rec, hrec, -, rfl⟩ := mem_survivingRecords.mp hr
      exact ⟨v, rec, hrec, rfl⟩
  | reopen _ _ hopen ih =>
    obtain ⟨records, A⟩ := ih
    cases (A.kept.wrote.openImpl_eq L).symm.trans hopen
    exact ⟨records, A.reopen⟩

/-- **Creating an object never conflicts**, in any history whose writes create objects under new names only where the
counter has passed: the write succeeds under an id that nothing in the engine has, and no object or version in the file
is the last one there is. -/
theorem new_objects_never_conflict (L : C.Lawful reread) {null : V} {hist : List (Attempt V)} {e : StorageEngine V}
    (h : Lived C null AllottedPut (fun _ => True) hist e) :
    (∀ (caller : Caller) (metadata : V) (nonce : C.Nonce), caller.authorize .write = .ok () →
      ∃ o v e', e.putObject C caller none none metadata nonce .completed = (.ok (o, v), e') ∧
        e.inner.versionPointer[o]? = none ∧ e.inner.metadata[o]? = none ∧
        ∀ (v' : VersionId) (rec : VersionRecord V), e.inner.versionChain[v']? = some rec → rec.objectId ≠ o) ∧
    ∃ records, replay C e.file = .ok records ∧ ∀ r ∈ records, r.objectId + 1 < 2 ^ 64 ∧ r.newVersion + 1 < 2 ^ 64 := by
  obtain ⟨records, A⟩ := h.allotted L
  obtain ⟨log, M⟩ := A.kept.sound
  have hfree : e.inner.versionPointer[e.inner.nextObjectId]? = none := by
    refine Option.eq_none_iff_forall_ne_some.mpr fun v hv => ?_
    exact absurd (A.pointer_lt hv) (lt_irrefl _)
  refine ⟨fun caller metadata nonce hauth => ?_, _, A.kept.wrote.replay_eq L, fun r hr => ?_⟩
  · refine ⟨_, _, _, e.putObject_eq_stored C none none hauth hfree metadata nonce, hfree,
      M.coherent.headless _ hfree, fun v' rec hrec => ne_of_lt (A.live v' rec hrec)⟩
  · obtain ⟨old, hold, m, -, rfl⟩ := mem_readBack hr
    exact A.ids old hold

end

/-! ## Samples -/

/-- After a purge and a reopen the purged object is created by name; after another reopen a new object is created. -/
theorem new_objects_never_conflict_named :
    ∃ e e', reopened.putObject jsonSerde.plain .root (some 0) none .null () .completed = (.ok (0, 2), e) ∧
      StorageEngine.openImpl jsonSerde.plain e.file = .ok e' ∧
      ∃ o v e'', e'.putObject jsonSerde.plain .root none none .null () .completed = (.ok (o, v), e'') ∧
        e'.inner.versionPointer[o]? = none := by
  have hput := StorageEngine.putObject_eq_stored jsonSerde.plain reopened (some 0) none Caller.root_write rfl .null ()
  have hreopened := @lived_reopened AllottedPut (fun _ => True) ⟨nofun, fun _ => by decide, by decide⟩
    ⟨nofun, fun _ => by rw [firstWrite_eq]; decide, by rw [firstWrite_eq]; decide⟩ trivial
  have hlived := hreopened.stored .root (some 0) none .null ()
    ⟨fun o ho _ => by cases ho; decide, nofun, by decide⟩ hput
  obtain ⟨records, hreplay, -⟩ := (new_objects_never_conflict jsonSerde_lawful hlived).2
  have hopen := StorageEngine.openImpl_of_replay hreplay
  obtain ⟨o, v, e'', hnew, hfree, -⟩ := (new_objects_never_conflict jsonSerde_lawful
    (hlived.reopen trivial hopen)).1 .root Json.null () Caller.root_write
  exact ⟨_, _, hput, hopen, o, v, e'', hnew, hfree⟩

def namedWrite (o : ObjectId) : StorageEngine Json :=
  (StorageEngine.putObject jsonSerde.plain ⟨[], .empty⟩ .root (some o) none .null () .completed).2

theorem putObject_namedWrite (o : ObjectId) :
    StorageEngine.putObject jsonSerde.plain ⟨[], .empty⟩ .root (some o) none .null () .completed =
      (.ok (o, 0), namedWrite o) := by
  rw [namedWrite, StorageEngine.putObject_eq_stored _ _ (some o) none Caller.root_write (by rfl)]
  rfl

theorem lived_namedWrite (o : ObjectId) : Lived jsonSerde.plain .null (fun _ _ _ => True) (fun _ => True)
    [⟨o, false, some (0, .null)⟩] (namedWrite o) :=
  .stored .root (some o) none Json.null () .start trivial (putObject_namedWrite o)

/-- **An object created by name blocks the next new one**: after `put_object(Some(0), ..)` a new object conflicts; and
after `put_object(Some(u64::MAX), ..)` the file has an id that has no successor. -/
theorem named_id_blocks_new_object :
    (Lived jsonSerde.plain .null (fun _ _ _ => True) (fun _ => True) [⟨0, false, some (0, .null)⟩] (namedWrite 0) ∧
      ((namedWrite 0).putObject jsonSerde.plain .root none none .null () .completed).1 =
        .error (.concurrentWriteConflict 0 none (some 0))) ∧
    Lived jsonSerde.plain .null (fun _ _ _ => True) (fun _ => True) [⟨2 ^ 64 - 1, false, some (0, .null)⟩]
        (namedWrite (2 ^ 64 - 1)) ∧
      ∃ r, replay jsonSerde.plain (namedWrite (2 ^ 64 - 1)).file = .ok [r] ∧ r.objectId + 1 = 2 ^ 64 := by
  refine ⟨⟨lived_namedWrite 0, rfl⟩, lived_namedWrite _, ⟨2 ^ 64 - 1, none, 0, .null, 7⟩, ?_, rfl⟩
  exact (jsonSerde.plain.wrote_nil.concat () ⟨2 ^ 64 - 1, none, 0, Json.null, 7⟩).replay_eq jsonSerde_lawful

end Hyperion.Storage
