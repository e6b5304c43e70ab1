import Hyperion.Storage.Views

/-!
# Identifiers over the lifetime of a file

The two counters live in memory and are recovered, on open, from the largest ids still in the file.
So they go back when the newest record has been purged, and an object id that a caller chose ahead of
the counter is not counted until then. `Lived` keeps the history of a file over every reopen; with
`CarefulPut` and `TopSurvives` at its steps, no identifier is issued twice.
-/

namespace Hyperion.Storage
open Lib Capability Hyperion.Storage.Inner List StorageEngine

section
variable {V : Type}

/-- A write that reached the counters: its object, whether that came from the counter, and, if the
compare-and-swap succeeded, the version returned and the metadata written. -/
structure Attempt (V : Type) where
  objectId : ObjectId
  allocated : Bool
  stored : Option (VersionId × V)

/-- The history of a file, newest first: `put` and `reopen` say which calls are made. -/
inductive Lived (C : Codec V) (null : V) (put : Inner V → Option ObjectId → V → Prop)
    (reopen : Inner V → Prop) : List (Attempt V) → StorageEngine V → Prop
  | start : Lived C null put reopen [] ⟨[], .empty⟩
  | stored {hist : List (Attempt V)} {e e' : StorageEngine V} (caller : Caller)
      (objectId : Option ObjectId) (expectedVersion : Option VersionId) (metadata : V)
      (nonce : C.Nonce) {o : ObjectId} {v : VersionId} (h : Lived C null put reopen hist e)
      (hcond : put e.inner objectId metadata)
      (hput : e.putObject C caller objectId expectedVersion metadata nonce .completed =
        (.ok (o, v), e')) :
      Lived C null put reopen (⟨o, objectId.isNone, some (v, metadata)⟩ :: hist) e'
  | conflict {hist : List (Attempt V)} {e e' : StorageEngine V} (caller : Caller)
      (objectId : Option ObjectId) (expectedVersion : Option VersionId) (metadata : V)
      (nonce : C.Nonce) {o : ObjectId} {found : Option VersionId}
      (h : Lived C null put reopen hist e) (hcond : put e.inner objectId metadata)
      (hput : e.putObject C caller objectId expectedVersion metadata nonce .completed =
        (.error (.concurrentWriteConflict o expectedVersion found), e')) :
      Lived C null put reopen (⟨o, objectId.isNone, none⟩ :: hist) e'
  | compact {hist : List (Attempt V)} {e : StorageEngine V} (caller : Caller)
      (order : List (ObjectId × VersionId)) (nonce : Nat → C.Nonce)
      (h : Lived C null put reopen hist e) (horder : order.Perm e.inner.versionPointer.toList) :
      Lived C null put reopen hist (e.compact C caller null order nonce).2
  | purgeObject {hist : List (Attempt V)} {e : StorageEngine V} (caller : Caller)
      (objectId : ObjectId) (nonce : Nat → C.Nonce) (h : Lived C null put reopen hist e) :
      Lived C null put reopen hist (e.purgeObject C caller objectId nonce).2
  | reopen {hist : List (Attempt V)} {e e' : StorageEngine V} (h : Lived C null put reopen hist e)
      (hcond : reopen e.inner) (hopen : StorageEngine.openImpl C e.file = .ok e') :
      Lived C null put reopen hist e'

/-- The metadata read back from their JSON text; a named object has been allocated before; and neither
counter is about to wrap. -/
def CarefulPut (reread : V → Option V) (i : Inner V) (objectId : Option ObjectId) (metadata : V) : Prop :=
  Stable reread metadata ∧ (∀ o, objectId = some o → o < i.nextObjectId) ∧
    (objectId = none → i.nextObjectId + 1 < 2 ^ 64) ∧ i.nextVersionId + 1 < 2 ^ 64

/-- The newest version and the newest object are still in the chain. -/
def TopSurvives (i : Inner V) : Prop :=
  (∀ n, i.nextVersionId = n + 1 → ∃ rec, i.versionChain[n]? = some rec) ∧
    ∀ n, i.nextObjectId = n + 1 →
      ∃ (v : VersionId) (rec : VersionRecord V), i.versionChain[v]? = some rec ∧ rec.objectId = n

/-- No two writes of the history returned one version. -/
def VersionsDistinct (hist : List (Attempt V)) : Prop :=
  hist.Pairwise fun a b => ∀ v m m', a.stored = some (v, m) → b.stored ≠ some (v, m')

/-- An object id taken from the counter occurs nowhere before. -/
def AllocationsFresh (hist : List (Attempt V)) : Prop :=
  hist.Pairwise fun a b => a.allocated = true → b.objectId ≠ a.objectId

/-! ## The recovered counters -/

theorem le_rebuild_nextVersionId {log : List (WalRecord V)} {r : WalRecord V} (hr : r ∈ log) :
    r.newVersion + 1 ≤ (Inner.rebuild log).nextVersionId :=
  (rebuild_nextVersionId_le log _).mp (le_refl _) r hr

theorem rebuild_nextObjectId_lt (log : List (WalRecord V)) : (Inner.rebuild log).nextObjectId < 2 ^ 64 := by
  have hle := (rebuild_nextObjectId_le log (2 ^ 64 - 1)).mpr fun r _ =>
    Nat.le_sub_one_of_lt (Nat.mod_lt _ (by decide))
  omega

/-! ## The invariant -/

/-- Everything issued is below the counters, and every version in the chain is the write of the
history that returned it. -/
structure Issued (hist : List (Attempt V)) (i : Inner V) : Prop where
  nextObjectId_lt : i.nextObjectId < 2 ^ 64
  nextVersionId_lt : i.nextVersionId < 2 ^ 64
  objects : ∀ a ∈ hist, a.objectId < i.nextObjectId
  versions : ∀ a ∈ hist, ∀ v m, a.stored = some (v, m) → v < i.nextVersionId
  written : ∀ (v : VersionId) (rec : VersionRecord V), i.versionChain[v]? = some rec →
    ∃ a ∈ hist, a.objectId = rec.objectId ∧ a.stored = some (v, rec.metadata)
  distinct : VersionsDistinct hist
  fresh : AllocationsFresh hist

section
variable {C : Codec V} {reread : V → Option V} {hist : List (Attempt V)} {i i' : Inner V}
  {objectId : Option ObjectId}

theorem Issued.of_chain (I : Issued hist i) (hobj : i'.nextObjectId = i.nextObjectId)
    (hver : i'.nextVersionId = i.nextVersionId)
    (hchain : ∀ (v : VersionId) (rec : VersionRecord V), i'.versionChain[v]? = some rec →
      ∃ old : VersionRecord V, i.versionChain[v]? = some old ∧ old.objectId = rec.objectId ∧
        old.metadata = rec.metadata) : Issued hist i' where
  nextObjectId_lt := hobj ▸ I.nextObjectId_lt
  nextVersionId_lt := hver ▸ I.nextVersionId_lt
  objects := hobj ▸ I.objects
  versions := hver ▸ I.versions
  written v rec hrec := by
    obtain ⟨old, hold, ho, hm⟩ := hchain v rec hrec
    obtain ⟨a, ha, hao, hav⟩ := I.written v old hold
    exact ⟨a, ha, hao.trans ho, hm ▸ hav⟩
  distinct := I.distinct
  fresh := I.fresh

theorem Issued.compacted (I : Issued hist i) : Issued hist i.compacted := by
  refine I.of_chain rfl rfl fun v rec hrec => ?_
  obtain ⟨-, old, hold, rfl⟩ := (get_compacted v rec).mp hrec
  exact ⟨old, hold, rfl, rfl⟩

theorem Issued.purged (I : Issued hist i) (objectId : ObjectId) :
    Issued hist (i.purged objectId) :=
  I.of_chain rfl rfl fun v rec hrec => ⟨rec, ((get_purged v rec).mp hrec).1, rfl, rfl⟩

variable {metadata : V}

theorem allocate_fst_lt (hnamed : ∀ o, objectId = some o → o < i.nextObjectId)
    (hwrap : objectId = none → i.nextObjectId + 1 < 2 ^ 64) (hlt : i.nextObjectId < 2 ^ 64) :
    (i.allocate objectId).1 < (i.allocate objectId).2.nextObjectId ∧
      i.nextObjectId ≤ (i.allocate objectId).2.nextObjectId ∧
      (i.allocate objectId).2.nextObjectId < 2 ^ 64 := by
  cases objectId with
  | some o => exact ⟨hnamed o rfl, le_refl _, hlt⟩
  | none =>
    have hmod : (i.nextObjectId + 1) % 2 ^ 64 = i.nextObjectId + 1 := Nat.mod_eq_of_lt (hwrap rfl)
    simp only [Inner.allocate, hmod]
    exact ⟨Nat.lt_succ_self _, Nat.le_succ _, hwrap rfl⟩

/-- An attempt is added, with its version if it stored one. -/
theorem Issued.cons (I : Issued hist i) (hput : CarefulPut reread i objectId metadata)
    {stored : Option (VersionId × V)} (hobj : i'.nextObjectId = (i.allocate objectId).2.nextObjectId)
    (hle : i.nextVersionId ≤ i'.nextVersionId) (hlt : i'.nextVersionId < 2 ^ 64)
    (hstored : ∀ v m, stored = some (v, m) → v = i.nextVersionId ∧ v < i'.nextVersionId)
    (hchain : ∀ (v : VersionId) (rec : VersionRecord V), i'.versionChain[v]? = some rec →
      i.versionChain[v]? = some rec ∨
        (i.allocate objectId).1 = rec.objectId ∧ stored = some (v, rec.metadata)) :
    Issued (⟨(i.allocate objectId).1, objectId.isNone, stored⟩ :: hist) i' := by
  obtain ⟨hfst, hmono, hnext⟩ := allocate_fst_lt hput.2.1 hput.2.2.1 I.nextObjectId_lt
  refine ⟨hobj ▸ hnext, hlt, ?_, ?_, ?_, ?_, ?_⟩
  · intro a ha
    rw [hobj]
    rcases mem_cons.mp ha with rfl | ha
    · exact hfst
    · exact lt_of_lt_of_le (I.objects a ha) hmono
  · intro a ha v m hav
    rcases mem_cons.mp ha with rfl | ha
    · exact (hstored v m hav).2
    · exact lt_of_lt_of_le (I.versions a ha v m hav) hle
  · intro v rec hrec
    rcases hchain v rec hrec with hold | hnew
    · obtain ⟨a, ha, hwritten⟩ := I.written v rec hold
      exact ⟨a, mem_cons_of_mem _ ha, hwritten⟩
    · exact ⟨_, mem_cons_self, hnew⟩
  · refine pairwise_cons.mpr ⟨fun b hb v m m' hav hbv => ?_, I.distinct⟩
    exact absurd (I.versions b hb v m' hbv) ((hstored v m hav).1 ▸ lt_irrefl _)
  · refine pairwise_cons.mpr ⟨fun b hb halloc => ?_, I.fresh⟩
    cases objectId with
    | some o => cases halloc
    | none => exact ne_of_lt (I.objects b hb)

theorem Issued.conflict (I : Issued hist i) (hput : CarefulPut reread i objectId metadata) :
    Issued (⟨(i.allocate objectId).1, objectId.isNone, none⟩ :: hist) (i.allocate objectId).2 := by
  have hver := allocate_nextVersionId i objectId
  refine I.cons hput rfl hver.ge (hver.trans_lt I.nextVersionId_lt) nofun fun v rec hrec => .inl ?_
  cases objectId <;> exact hrec

theorem Issued.stored {file : List UInt8} (I : Issued hist i) (caller : Caller)
    (hput : CarefulPut reread i objectId metadata) : Issued
      (⟨(i.allocate objectId).1, objectId.isNone, some (i.nextVersionId, metadata)⟩ :: hist)
      { (i.allocate objectId).2.commit (StorageEngine.written ⟨file, i⟩ caller objectId metadata) with
        nextVersionId := i.nextVersionId + 1 } := by
  refine I.cons hput rfl (Nat.le_succ _) hput.2.2.2 ?_ fun v rec hrec => ?_
  · rintro v m ⟨⟩
    exact ⟨rfl, Nat.lt_succ_self _⟩
  · rw [Inner.commit, HashMap.get_insert] at hrec
    split at hrec
    · next hv =>
      cases hrec
      exact .inr ⟨rfl, by rw [← hv]; rfl⟩
    · exact .inl (by cases objectId <;> exact hrec)

theorem Issued.reopen (I : Issued hist i) {log : List (WalRecord V)}
    (M : Mirrors reread i log) (htop : TopSurvives i) : Issued hist (.rebuild log) := by
  obtain ⟨hver, hobj⟩ := htop
  have hchain := M.eq_rebuild.2.2
  have hver_le : i.nextVersionId ≤ (Inner.rebuild log).nextVersionId := by
    cases hn : i.nextVersionId with
    | zero => exact Nat.zero_le _
    | succ n =>
      obtain ⟨rec, hrec⟩ := hver n hn
      obtain ⟨r, hr, rfl, -⟩ := (M.chains n rec).mp hrec
      exact le_rebuild_nextVersionId hr
  have hobj_le : i.nextObjectId ≤ (Inner.rebuild log).nextObjectId := by
    cases hn : i.nextObjectId with
    | zero => exact Nat.zero_le _
    | succ n =>
      obtain ⟨v, rec, hrec, rfl⟩ := hobj n hn
      obtain ⟨r, hr, -, rfl⟩ := (M.chains v rec).mp hrec
      have hle := (rebuild_nextObjectId_le log _).mp (le_refl _) r hr
      have hlt : r.objectId + 1 < 2 ^ 64 := by
        have := I.nextObjectId_lt
        rw [hn] at this
        exact this
      rw [Nat.mod_eq_of_lt hlt] at hle
      exact hle
  have hver_ge : (Inner.rebuild log).nextVersionId ≤ i.nextVersionId :=
    (rebuild_nextVersionId_le log _).mpr (M.chains.fresh M.coherent)
  exact ⟨rebuild_nextObjectId_lt log, lt_of_le_of_lt hver_ge I.nextVersionId_lt,
    fun a ha => lt_of_lt_of_le (I.objects a ha) hobj_le,
    fun a ha v m hav => lt_of_lt_of_le (I.versions a ha v m hav) hver_le, hchain ▸ I.written,
    I.distinct, I.fresh⟩

/-! ## Histories -/

theorem Lived.sound (L : C.Lawful reread) {null : V} {e : StorageEngine V}
    (h : Lived C null (CarefulPut reread) TopSurvives hist e) :
    Issued hist e.inner ∧ ∃ log, Tracks C reread e log := by
  induction h with
  | start =>
    refine ⟨⟨Nat.two_pow_pos 64, Nat.two_pow_pos 64, by simp, by simp, ?_, .nil, .nil⟩, [], tracks_empty⟩
    intro v rec hrec
    simp [Inner.empty] at hrec
  | stored caller objectId _ _ nonce _ hcond hput ih =>
    obtain ⟨I, log, T⟩ := ih
    cases putObject_outcome hput with
    | stored => exact ⟨I.stored caller hcond, _, T.stored L caller objectId hcond.1 nonce⟩
  | conflict _ objectId _ _ _ _ hcond hput ih =>
    obtain ⟨I, log, T⟩ := ih
    cases putObject_outcome hput with
    | conflict => exact ⟨I.conflict hcond, log, T.holds, T.mirrors.allocate objectId⟩
  | @compact hist e caller order nonce _ horder ih =>
    obtain ⟨I, log, T⟩ := ih
    refine ⟨?_, Step.tracks L (.compact caller order nonce horder) T⟩
    rcases e.compact_cases C caller null order nonce with ⟨err, heq⟩ | ⟨n, heq⟩ <;> rw [heq]
    · exact I
    · exact I.compacted
  | @purgeObject hist e caller objectId nonce _ ih =>
    obtain ⟨I, log, T⟩ := ih
    refine ⟨?_, (Step.purgeObject caller objectId nonce : Step C null _ e _).tracks L T⟩
    rcases e.purgeObject_cases C caller objectId nonce with ⟨err, heq⟩ | ⟨n, heq⟩ <;> rw [heq]
    · exact I
    · exact I.purged objectId
  | reopen _ htop hopen ih =>
    obtain ⟨I, log, T⟩ := ih
    cases T.openImpl_eq.symm.trans hopen
    exact ⟨I.reopen T.mirrors htop, log, T.holds,
      mirrors_rebuild T.mirrors.ordered T.mirrors.stable⟩

/-- **Identifiers are never recycled.** Over a history of careful writes, rewrites and reopens with
the newest ids still there: the versions returned are `u64` values and no two writes return the same, an
object id from the counter was never used before, and a compare-and-swap succeeds only against the one
write that returned its version. -/
theorem ids_never_recycled (L : C.Lawful reread) {null : V} {e : StorageEngine V}
    (h : Lived C null (CarefulPut reread) TopSurvives hist e) :
    (∀ a ∈ hist, ∀ v m, a.stored = some (v, m) → v < 2 ^ 64) ∧ VersionsDistinct hist ∧ AllocationsFresh hist ∧
      ∀ (caller : Caller) (o : ObjectId) (v : VersionId) (metadata : V) (nonce : C.Nonce) (io : Io)
        (r : ObjectId × VersionId) (e' : StorageEngine V),
        e.putObject C caller (some o) (some v) metadata nonce io = (.ok r, e') →
        ∃ a ∈ hist, a.objectId = o ∧ (∃ m, a.stored = some (v, m) ∧ e.inner.metadata[o]? = some m) ∧
          ∀ b ∈ hist, ∀ m, b.stored = some (v, m) → b = a := by
  obtain ⟨I, log, T⟩ := h.sound L
  refine ⟨fun a ha v m hav => lt_trans (I.versions a ha v m hav) I.nextVersionId_lt, I.distinct, I.fresh, ?_⟩
  intro caller o v metadata nonce io r e' hput
  have hhead : e.inner.versionPointer[o]? = some v := by
    cases putObject_outcome hput with
    | stored _ hcas => exact hcas
  obtain ⟨rec, hrec, ho, hmeta⟩ := T.mirrors.coherent.head o v hhead
  obtain ⟨a, ha, hao, hav⟩ := I.written v rec hrec
  refine ⟨a, ha, hao.trans ho, ⟨_, hav, hmeta⟩, fun b hb m hbv => ?_⟩
  by_contra hne
  have hsymm : Std.Symm fun a b : Attempt V =>
      ∀ v m m', a.stored = some (v, m) → b.stored ≠ some (v, m') :=
    ⟨fun a b hab v m m' hb ha => hab v m' m ha hb⟩
  exact I.distinct.forall hb ha hne v m _ hbv hav

end

theorem lived_firstWrite {put : Inner Json → Option ObjectId → Json → Prop}
    {reopen : Inner Json → Prop} {hist : List (Attempt Json)} (hput : put .empty none .null)
    (h : Lived jsonSerde.plain .null put reopen hist ⟨[], .empty⟩) :
    Lived jsonSerde.plain .null put reopen (⟨0, true, some (0, .null)⟩ :: hist)
      (firstWrite .null) := by
  refine .stored .root none none .null () h hput ?_
  exact putObject_firstWrite .null

theorem lived_secondWrite {put : Inner Json → Option ObjectId → Json → Prop} {reopen : Inner Json → Prop}
    (hfirst : put .empty none .null) (hsecond : put (firstWrite .null).inner none .null) :
    Lived jsonSerde.plain .null put reopen [⟨1, true, some (1, .null)⟩, ⟨0, true, some (0, .null)⟩]
      (secondWrite .null) := by
  refine .stored .root none none Json.null () (lived_firstWrite hfirst .start) hsecond ?_
  rw [secondWrite_eq, firstWrite_eq, putObject_eq_stored _ _ none none Caller.root_write (by rfl)]
  rfl

theorem lived_reopened {put : Inner Json → Option ObjectId → Json → Prop} {reopen : Inner Json → Prop}
    (hfirst : put .empty none .null) (hsecond : put (firstWrite .null).inner none .null)
    (hreopen : reopen ((secondWrite .null).inner.purged 0)) :
    Lived jsonSerde.plain .null put reopen [⟨1, true, some (1, .null)⟩, ⟨0, true, some (0, .null)⟩] reopened := by
  have hpurged := (lived_secondWrite hfirst hsecond : Lived _ _ _ reopen _ _).purgeObject .root 0 fun _ => ()
  rw [purgeObject_secondWrite] at hpurged
  exact .reopen hpurged hreopen openImpl_reopened

theorem topSurvives_purged : TopSurvives ((secondWrite .null).inner.purged 0) := by
  have hchain : ((secondWrite .null).inner.purged 0).versionChain[(1 : Nat)]? = some ⟨1, none, .null⟩ := by
    refine (get_purged 1 _).mpr ⟨?_, Nat.one_ne_zero⟩
    rw [secondWrite_eq]
    exact (HashMap.get_insert _ _ _ _).trans (if_pos rfl)
  have htwo : ∀ n, 2 = n + 1 → n = 1 := by omega
  refine ⟨fun n hn => ?_, fun n hn => ?_⟩ <;> rw [secondWrite_eq] at hn <;> cases htwo n hn
  · exact ⟨_, hchain⟩
  · exact ⟨1, _, hchain, rfl⟩

def thirdWrite : StorageEngine Json where
  file := reopened.file ++ (jsonSerde.toVec ⟨2, none, 2, .null, 7⟩ ++ [newline])
  inner := { reopened.inner.commit ⟨2, none, 2, .null, 7⟩ with nextObjectId := 3, nextVersionId := 3 }

theorem putObject_reopened : reopened.putObject jsonSerde.plain .root none none .null () .completed =
    (.ok (2, 2), thirdWrite) := by
  rw [putObject_eq_stored _ _ none none Caller.root_write rfl]
  rfl

theorem carefulPut_null {i : Inner Json} (ho : i.nextObjectId < 3) (hv : i.nextVersionId < 3) :
    CarefulPut jsonReread i none .null :=
  ⟨stable_null, nofun, fun _ => by omega, by omega⟩

/-- The older of two objects is purged, the file is opened again and a third object is written; then a compare-and-swap
on version 1 of object 1 meets the second write. -/
theorem ids_never_recycled_thirdWrite :
    VersionsDistinct [(⟨2, true, some (2, .null)⟩ : Attempt Json), ⟨1, true, some (1, .null)⟩,
      ⟨0, true, some (0, .null)⟩] ∧
    (∃ r e', thirdWrite.putObject jsonSerde.plain .root (some 1) (some 1) .null () .completed = (.ok r, e')) ∧
    ∃ m, thirdWrite.inner.metadata[(1 : Nat)]? = some m := by
  have hreopened := lived_reopened (carefulPut_null (by decide) (by decide))
    (carefulPut_null (by rw [firstWrite_eq]; decide) (by rw [firstWrite_eq]; decide)) topSurvives_purged
  have hlived : Lived jsonSerde.plain .null (CarefulPut jsonReread) TopSurvives
      [⟨2, true, some (2, .null)⟩, ⟨1, true, some (1, .null)⟩, ⟨0, true, some (0, .null)⟩] thirdWrite := by
    refine hreopened.stored .root none none .null () (carefulPut_null (by decide) (by decide)) ?_
    exact putObject_reopened
  obtain ⟨-, hdistinct, -, hcas⟩ := ids_never_recycled jsonSerde_lawful hlived
  have hswap := thirdWrite.putObject_eq_stored jsonSerde.plain (some 1) (some 1) Caller.root_write (by rfl) .null ()
  obtain ⟨a, -, -, ⟨m, -, hmeta⟩, -⟩ := hcas .root 1 1 .null () .completed _ _ hswap
  exact ⟨hdistinct, ⟨_, _, hswap⟩, m, hmeta⟩

/-- Write, purge, reopen, write: both writes return object 0 and version 0. -/
theorem purge_and_reopen_recycle_ids :
    Lived jsonSerde.plain .null (fun _ _ _ => True) (fun _ => True)
      [⟨0, true, some (0, .null)⟩, ⟨0, true, some (0, .null)⟩] (firstWrite .null) ∧
    ¬ VersionsDistinct [(⟨0, true, some (0, .null)⟩ : Attempt Json), ⟨0, true, some (0, .null)⟩] ∧
    ¬ AllocationsFresh [(⟨0, true, some (0, .null)⟩ : Attempt Json), ⟨0, true, some (0, .null)⟩] := by
  refine ⟨?_, fun h => ?_, fun h => ?_⟩
  · have hwritten : Lived jsonSerde.plain .null (fun _ _ _ => True) (fun _ => True)
        [⟨0, true, some (0, .null)⟩] (firstWrite .null) := lived_firstWrite trivial .start
    have hpurged := hwritten.purgeObject .root 0 fun _ => ()
    have hknows : (firstWrite .null).inner.knows 0 = true := by
      rw [firstWrite_eq]
      rfl
    have hnothing : (firstWrite .null).inner.survivingRecords 7 0 = [] := by
      refine eq_nil_iff_forall_not_mem.mpr fun r hr => ?_
      obtain ⟨v, rec, hrec, hne, -⟩ := mem_survivingRecords.mp hr
      rw [firstWrite_eq, Inner.commit, HashMap.get_insert] at hrec
      split at hrec
      · cases hrec
        exact hne rfl
      · simp [Inner.empty] at hrec
    have hfile : ((firstWrite .null).purgeObject jsonSerde.plain .root 0 fun _ => ()).2.file = [] := by
      rw [purgeObject, Caller.root_write]
      simp only [hknows]
      exact congrArg (rewritten jsonSerde.plain fun _ => ()) hnothing
    refine lived_firstWrite trivial (.reopen hpurged trivial ?_)
    rw [hfile]
    rfl
  · exact (pairwise_cons.mp h).1 _ mem_cons_self 0 .null .null rfl rfl
  · exact (pairwise_cons.mp h).1 _ mem_cons_self rfl rfl

end

end Hyperion.Storage
