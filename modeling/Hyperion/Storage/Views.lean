import Hyperion.Storage.Engine
import Hyperion.Storage.JsonWal

/-!
# The materialized views refine the log

The version chain says everything: the other two views hold, for each object, its largest version
and the metadata of that version (`Coherent`). A log rebuilds coherent views with its own versions as
the chain as long as no version occurs twice and the versions of one object come in increasing order
(`Ordered`); appending, rewriting to the heads and rewriting without one object all write such logs.
-/

namespace Hyperion.Storage
open Lib Capability List Std.ExtTreeMap HashMap Hyperion.Storage.Inner StorageEngine

section
variable {V : Type}

def WalRecord.toVersion (r : WalRecord V) : VersionRecord V :=
  ⟨r.objectId, r.prevVersion, r.metadata⟩

/-- No version occurs twice, and those of one object increase. -/
def Ordered (log : List (WalRecord V)) : Prop :=
  log.Pairwise fun a b =>
    a.newVersion ≠ b.newVersion ∧ (a.objectId = b.objectId → a.newVersion < b.newVersion)

variable {log : List (WalRecord V)}

theorem Ordered.newVersion_ne (h : Ordered log) :
    log.Pairwise fun a b => a.newVersion ≠ b.newVersion :=
  h.imp And.left

theorem Ordered.concat (h : Ordered log) {r : WalRecord V}
    (hr : ∀ r' ∈ log, r'.newVersion < r.newVersion) : Ordered (log ++ [r]) := by
  refine pairwise_append.mpr ⟨h, pairwise_singleton _ _, ?_⟩
  intro r' hr' r'' hr''
  rw [mem_singleton.mp hr'']
  exact ⟨ne_of_lt (hr r' hr'), fun _ => hr r' hr'⟩

namespace Inner
variable {i : Inner V} {log : List (WalRecord V)}

/-- The chain holds exactly the versions of the log. -/
def Chains (i : Inner V) (log : List (WalRecord V)) : Prop :=
  ∀ (v : VersionId) (rec : VersionRecord V), i.versionChain[v]? = some rec ↔
    ∃ r ∈ log, r.newVersion = v ∧ r.toVersion = rec

/-- The two other views and the version counter agree with the chain. -/
structure Coherent (i : Inner V) : Prop where
  head : ∀ (o : ObjectId) (v : VersionId), i.versionPointer[o]? = some v →
    ∃ rec : VersionRecord V, i.versionChain[v]? = some rec ∧ rec.objectId = o ∧
      i.metadata[o]? = some rec.metadata
  top : ∀ (o : ObjectId) (v : VersionId), i.versionPointer[o]? = some v →
    ∀ (v' : VersionId) (rec : VersionRecord V), i.versionChain[v']? = some rec →
      rec.objectId = o → v' ≤ v
  headed : ∀ (v : VersionId) (rec : VersionRecord V), i.versionChain[v]? = some rec →
    ∃ v', i.versionPointer[rec.objectId]? = some v'
  headless : ∀ o : ObjectId, i.versionPointer[o]? = none → i.metadata[o]? = none
  fresh : ∀ (v : VersionId) (rec : VersionRecord V), i.versionChain[v]? = some rec →
    v < i.nextVersionId

/-! ## Coherent views are determined by their chain -/

theorem Coherent.versionPointer_le {i j : Inner V} (hi : i.Coherent) (hj : j.Coherent)
    (h : i.versionChain = j.versionChain) {o : ObjectId} {v : VersionId}
    (hv : i.versionPointer[o]? = some v) : ∃ v', j.versionPointer[o]? = some v' ∧ v ≤ v' := by
  obtain ⟨rec, hrec, rfl, -⟩ := hi.head o v hv
  rw [h] at hrec
  obtain ⟨v', hv'⟩ := hj.headed v rec hrec
  exact ⟨v', hv', hj.top _ v' hv' v rec hrec rfl⟩

theorem Coherent.versionPointer_eq {i j : Inner V} (hi : i.Coherent) (hj : j.Coherent)
    (h : i.versionChain = j.versionChain) : i.versionPointer = j.versionPointer := by
  apply Std.ExtTreeMap.ext_getElem?
  intro o
  cases hv : i.versionPointer[o]? with
  | none =>
    cases hv' : j.versionPointer[o]? with
    | none => rfl
    | some v' =>
      obtain ⟨v, hv'', -⟩ := hj.versionPointer_le hi h.symm hv'
      rw [hv] at hv''
      cases hv''
  | some v =>
    obtain ⟨v', hv', hle⟩ := hi.versionPointer_le hj h hv
    obtain ⟨v'', hv'', hle'⟩ := hj.versionPointer_le hi h.symm hv'
    cases hv.symm.trans hv''
    rw [hv', le_antisymm hle hle']

theorem Coherent.metadata_eq {i j : Inner V} (hi : i.Coherent) (hj : j.Coherent)
    (h : i.versionChain = j.versionChain) : i.metadata = j.metadata := by
  have hptr := hi.versionPointer_eq hj h
  apply Std.ExtTreeMap.ext_getElem?
  intro o
  cases hv : i.versionPointer[o]? with
  | none => rw [hi.headless o hv, hj.headless o (hptr ▸ hv)]
  | some v =>
    obtain ⟨rec, hrec, -, hmeta⟩ := hi.head o v hv
    obtain ⟨rec', hrec', -, hmeta'⟩ := hj.head o v (hptr ▸ hv)
    rw [h, hrec'] at hrec
    cases hrec
    rw [hmeta, hmeta']

theorem Chains.versionChain_eq {i j : Inner V} (hi : i.Chains log)
    (hj : j.Chains log) : i.versionChain = j.versionChain := by
  apply Std.ExtTreeMap.ext_getElem?
  intro v
  apply Option.ext
  intro rec
  exact (hi v rec).trans (hj v rec).symm

/-! ## What a log rebuilds -/

variable (log)

theorem rebuild_concat (r : WalRecord V) : rebuild (log ++ [r]) = (rebuild log).replayRecord r := by
  simp [rebuild]

theorem rebuild_versionChain :
    (rebuild log).versionChain = lastWins (·.newVersion) WalRecord.toVersion log := by
  induction log using List.reverseRecOn with
  | nil => rfl
  | append_singleton log r ih => rw [rebuild_concat, lastWins_concat, ← ih]; rfl

theorem rebuild_versionPointer : (rebuild log).versionPointer = lastWins (·.objectId) (·.newVersion) log := by
  induction log using List.reverseRecOn with
  | nil => rfl
  | append_singleton log r ih => rw [rebuild_concat, lastWins_concat, ← ih]; rfl

theorem rebuild_metadata : (rebuild log).metadata = lastWins (·.objectId) (·.metadata) log := by
  induction log using List.reverseRecOn with
  | nil => rfl
  | append_singleton log r ih => rw [rebuild_concat, lastWins_concat, ← ih]; rfl

theorem rebuild_nextVersionId_le (n : Nat) :
    (rebuild log).nextVersionId ≤ n ↔ ∀ r ∈ log, r.newVersion < n := by
  induction log using List.reverseRecOn with
  | nil => simp [rebuild, empty]
  | append_singleton log r ih =>
    rw [rebuild_concat, replayRecord, max_le_iff, ih]
    simp only [forall_mem_append, forall_mem_singleton]
    exact Iff.rfl

theorem rebuild_nextObjectId_le (n : Nat) :
    (rebuild log).nextObjectId ≤ n ↔ ∀ r ∈ log, (r.objectId + 1) % 2 ^ 64 ≤ n := by
  induction log using List.reverseRecOn with
  | nil => simp [rebuild, empty]
  | append_singleton log r ih =>
    rw [rebuild_concat, replayRecord, max_le_iff, ih]
    simp only [forall_mem_append, forall_mem_singleton]

variable {log}

theorem chains_rebuild (h : Ordered log) : (rebuild log).Chains log := by
  intro v rec
  rw [rebuild_versionChain, get_lastWins_of_pairwise _ _ h.newVersion_ne]

theorem coherent_rebuild (h : Ordered log) : (rebuild log).Coherent where
  head o v hv := by
    rw [rebuild_versionPointer, get_lastWins_eq_some_iff] at hv
    obtain ⟨before, r, after, rfl, rfl, rfl, hafter⟩ := hv
    refine ⟨r.toVersion, (chains_rebuild h _ _).mpr ⟨r, by simp, rfl, rfl⟩, rfl, ?_⟩
    rw [rebuild_metadata, get_lastWins_eq_some_iff]
    exact ⟨before, r, after, rfl, rfl, rfl, hafter⟩
  top o v hv v' rec hrec ho := by
    rw [rebuild_versionPointer, get_lastWins_eq_some_iff] at hv
    obtain ⟨before, r, after, rfl, rfl, rfl, hafter⟩ := hv
    obtain ⟨r', hr', rfl, rfl⟩ := (chains_rebuild h _ _).mp hrec
    -- a record of the same object stands before `r`, is `r`, or would stand after the last one
    rcases mem_append.mp hr' with hbefore | hr'
    · have hrel := (pairwise_append.mp h).2.2 r' hbefore r mem_cons_self
      exact le_of_lt (hrel.2 ho)
    · rcases mem_cons.mp hr' with rfl | hr'
      · exact le_refl _
      · exact absurd ho (hafter r' hr')
  headed v rec hrec := by
    obtain ⟨r, hr, -, rfl⟩ := (chains_rebuild h _ _).mp hrec
    cases hptr : (rebuild log).versionPointer[r.toVersion.objectId]? with
    | some v' => exact ⟨v', rfl⟩
    | none =>
      rw [rebuild_versionPointer, get_lastWins_eq_none_iff] at hptr
      exact absurd rfl (hptr r hr)
  headless o ho := by
    rw [rebuild_versionPointer, get_lastWins_eq_none_iff] at ho
    rw [rebuild_metadata, get_lastWins_eq_none_iff]
    exact ho
  fresh v rec hrec := by
    obtain ⟨r, hr, rfl, -⟩ := (chains_rebuild h _ _).mp hrec
    exact (rebuild_nextVersionId_le log _).mp (le_refl _) r hr

/-! ## Writing one record -/

theorem Coherent.allocate (h : i.Coherent) (objectId : Option ObjectId) :
    (i.allocate objectId).2.Coherent := by
  cases objectId with
  | some o => exact h
  | none => exact ⟨h.head, h.top, h.headed, h.headless, h.fresh⟩

theorem Chains.fresh (hc : i.Chains log) (h : i.Coherent) : ∀ r ∈ log, r.newVersion < i.nextVersionId :=
  fun r hr => h.fresh r.newVersion r.toVersion ((hc _ _).mpr ⟨r, hr, rfl, rfl⟩)

theorem Chains.eq_rebuild (hc : i.Chains log)
    (h : i.Coherent) (ho : Ordered log) : i.metadata = (rebuild log).metadata ∧
      i.versionPointer = (rebuild log).versionPointer ∧
      i.versionChain = (rebuild log).versionChain := by
  have hchain := hc.versionChain_eq (chains_rebuild ho)
  exact ⟨h.metadata_eq (coherent_rebuild ho) hchain,
    h.versionPointer_eq (coherent_rebuild ho) hchain, hchain⟩

theorem Coherent.congr {i j : Inner V} (h : j.Coherent) (hm : i.metadata = j.metadata)
    (hp : i.versionPointer = j.versionPointer) (hc : i.versionChain = j.versionChain)
    (hn : j.nextVersionId ≤ i.nextVersionId) : i.Coherent where
  head := by rw [hm, hp, hc]; exact h.head
  top := by rw [hp, hc]; exact h.top
  headed := by rw [hp, hc]; exact h.headed
  headless := by rw [hm, hp]; exact h.headless
  fresh v rec hrec := lt_of_lt_of_le (h.fresh v rec (hc ▸ hrec)) hn

variable {objectId : ObjectId} {r : WalRecord V}

theorem commit_spec (hc : i.Chains log) (h : i.Coherent) (ho : Ordered log)
    (hr : r.newVersion = i.nextVersionId) : Ordered (log ++ [r]) ∧
      ({ i.commit r with nextVersionId := i.nextVersionId + 1 } : Inner V).Chains (log ++ [r]) ∧
      ({ i.commit r with nextVersionId := i.nextVersionId + 1 } : Inner V).Coherent := by
  have hbelow := hc.fresh h
  have ho' : Ordered (log ++ [r]) := ho.concat (hr ▸ hbelow)
  obtain ⟨hm, hp, hchain⟩ := hc.eq_rebuild h ho
  have hm' : (i.commit r).metadata = (rebuild (log ++ [r])).metadata := by
    rw [rebuild_concat, commit, hm]; rfl
  have hp' : (i.commit r).versionPointer = (rebuild (log ++ [r])).versionPointer := by
    rw [rebuild_concat, commit, hp]; rfl
  have hchain' : (i.commit r).versionChain = (rebuild (log ++ [r])).versionChain := by
    rw [rebuild_concat, commit, hchain]; rfl
  refine ⟨ho', ?_, (coherent_rebuild ho').congr hm' hp' hchain' ?_⟩
  · intro v rec
    rw [← chains_rebuild ho' v rec]
    exact Iff.of_eq (congrArg (fun m : HashMap _ _ => m[v]? = some rec) hchain')
  · refine (rebuild_nextVersionId_le _ _).mpr fun r' hr' => ?_
    rcases mem_append.mp hr' with hr' | hr'
    · exact Nat.lt_succ_of_lt (hbelow r' hr')
    · rw [mem_singleton.mp hr', hr]
      exact Nat.lt_succ_self _

/-! ## Rewriting to the heads -/

section Compact
variable {i : Inner V} (h : i.Coherent)

theorem get_compacted {i : Inner V} (v : VersionId) (rec : VersionRecord V) :
    i.compacted.versionChain[v]? = some rec ↔ (∃ o : ObjectId, i.versionPointer[o]? = some v) ∧
      ∃ old : VersionRecord V, i.versionChain[v]? = some old ∧ rec = { old with parentVersion := none } := by
  have hheads : (i.versionPointer.toList.map (·.2)).contains v = true ↔
      ∃ o : ObjectId, i.versionPointer[o]? = some v := by
    simp [mem_toList_iff_getElem?_eq_some]
  simp only [compacted, Std.ExtTreeMap.getElem?_map, Option.map_eq_some_iff,
    get_filter_eq_some_iff, hheads]
  constructor
  · rintro ⟨old, ⟨hold, hhead⟩, rfl⟩
    exact ⟨hhead, old, hold, rfl⟩
  · rintro ⟨hhead, old, hold, rfl⟩
    exact ⟨old, ⟨hold, hhead⟩, rfl⟩

include h

theorem coherent_compacted : i.compacted.Coherent where
  head o v hv := by
    obtain ⟨rec, hrec, ho, hmeta⟩ := h.head o v hv
    exact ⟨_, (get_compacted v _).mpr ⟨⟨o, hv⟩, rec, hrec, rfl⟩, ho, hmeta⟩
  top o v hv v' rec hrec ho := by
    obtain ⟨-, old, hold, rfl⟩ := (get_compacted v' rec).mp hrec
    exact h.top o v hv v' old hold ho
  headed v rec hrec := by
    obtain ⟨-, old, hold, rfl⟩ := (get_compacted v rec).mp hrec
    exact h.headed v old hold
  headless := h.headless
  fresh v rec hrec := by
    obtain ⟨-, old, hold, -⟩ := (get_compacted v rec).mp hrec
    exact h.fresh v old hold

variable {order : List (ObjectId × VersionId)} (horder : order.Perm i.versionPointer.toList)
  (null : V) (origin : Nat)
include horder

omit h in
theorem mem_order {o : ObjectId} {v : VersionId} : (o, v) ∈ order ↔ i.versionPointer[o]? = some v :=
  horder.mem_iff.trans mem_toList_iff_getElem?_eq_some

theorem mem_headRecords {r : WalRecord V} : r ∈ i.headRecords null origin order ↔
    ∃ o v rec, i.versionPointer[o]? = some v ∧ i.versionChain[v]? = some rec ∧ rec.objectId = o ∧
      r = ⟨o, none, v, rec.metadata, origin⟩ := by
  simp only [headRecords, mem_map, Prod.exists]
  constructor
  · rintro ⟨o, v, hov, rfl⟩
    have hv := (mem_order horder).mp hov
    obtain ⟨rec, hrec, ho, hmeta⟩ := h.head o v hv
    exact ⟨o, v, rec, hv, hrec, ho, by rw [hmeta]; rfl⟩
  · rintro ⟨o, v, rec, hv, hrec, ho, rfl⟩
    refine ⟨o, v, (mem_order horder).mpr hv, ?_⟩
    obtain ⟨rec', hrec', -, hmeta⟩ := h.head o v hv
    cases hrec.symm.trans hrec'
    rw [hmeta]
    rfl

theorem chains_compacted : i.compacted.Chains (i.headRecords null origin order) := by
  intro v rec
  rw [get_compacted]
  constructor
  · rintro ⟨⟨o, hv⟩, old, hold, rfl⟩
    obtain ⟨old', hold', ho, -⟩ := h.head o v hv
    cases hold.symm.trans hold'
    exact ⟨_, (mem_headRecords h horder null origin).mpr ⟨o, v, old, hv, hold, ho, rfl⟩, rfl,
      by rw [← ho]; rfl⟩
  · rintro ⟨r, hr, rfl, rfl⟩
    obtain ⟨o, v, old, hv, hold, rfl, rfl⟩ := (mem_headRecords h horder null origin).mp hr
    exact ⟨⟨_, hv⟩, old, hold, rfl⟩

theorem ordered_headRecords : Ordered (i.headRecords null origin order) := by
  have hdistinct : order.Pairwise fun a b => a.1 ≠ b.1 :=
    (toList_pairwise_ne _).perm horder.symm fun hne => hne.symm
  refine pairwise_map.mpr (hdistinct.imp_of_mem ?_)
  rintro ⟨o, v⟩ ⟨o', v'⟩ hmem hmem' hne
  refine ⟨?_, fun heq => absurd heq hne⟩
  -- one version would belong to two objects
  rintro rfl
  obtain ⟨rec, hrec, ho, -⟩ := h.head o v ((mem_order horder).mp hmem)
  obtain ⟨rec', hrec', ho', -⟩ := h.head o' v ((mem_order horder).mp hmem')
  cases hrec.symm.trans hrec'
  exact hne (ho.symm.trans ho')

end Compact

/-! ## Rewriting without one object -/

theorem get_purged (v : VersionId) (rec : VersionRecord V) :
    (i.purged objectId).versionChain[v]? = some rec ↔
      i.versionChain[v]? = some rec ∧ rec.objectId ≠ objectId := by
  simp [purged]

theorem coherent_purged (h : i.Coherent) (objectId : ObjectId) : (i.purged objectId).Coherent := by
  have hptr : ∀ o : ObjectId, o ≠ objectId →
      (i.purged objectId).versionPointer[o]? = i.versionPointer[o]? := fun o hne => by
    rw [purged, get_erase, if_neg hne.symm]
  have hmeta : ∀ o : ObjectId, o ≠ objectId →
      (i.purged objectId).metadata[o]? = i.metadata[o]? := fun o hne => by
    rw [purged, get_erase, if_neg hne.symm]
  have hptr_self : (i.purged objectId).versionPointer[objectId]? = none := by
    rw [purged, get_erase, if_pos rfl]
  have hne : ∀ (o : ObjectId) (v : VersionId), (i.purged objectId).versionPointer[o]? = some v →
      o ≠ objectId := by
    rintro o v hv rfl
    rw [hptr_self] at hv
    cases hv
  constructor
  case head =>
    intro o v hv
    have ho := hne o v hv
    obtain ⟨rec, hrec, hobj, hmd⟩ := h.head o v (hptr o ho ▸ hv)
    exact ⟨rec, (get_purged v rec).mpr ⟨hrec, hobj ▸ ho⟩, hobj, (hmeta o ho).trans hmd⟩
  case top =>
    intro o v hv v' rec hrec hobj
    exact h.top o v (hptr o (hne o v hv) ▸ hv) v' rec ((get_purged v' rec).mp hrec).1 hobj
  case headed =>
    intro v rec hrec
    obtain ⟨hrec, hobj⟩ := (get_purged v rec).mp hrec
    obtain ⟨v', hv'⟩ := h.headed v rec hrec
    exact ⟨v', (hptr _ hobj).trans hv'⟩
  case headless =>
    intro o ho
    by_cases heq : o = objectId
    · rw [purged, get_erase, if_pos heq.symm]
    · rw [hmeta o heq]
      exact h.headless o (hptr o heq ▸ ho)
  case fresh =>
    intro v rec hrec
    exact h.fresh v rec ((get_purged v rec).mp hrec).1

theorem mem_survivingRecords {origin : Nat} :
    r ∈ i.survivingRecords origin objectId ↔ ∃ v rec, i.versionChain[v]? = some rec ∧
      rec.objectId ≠ objectId ∧ r = ⟨rec.objectId, rec.parentVersion, v, rec.metadata, origin⟩ := by
  simp only [survivingRecords, mem_map, (mergeSort_perm _ _).mem_iff, mem_filter,
    Prod.exists, mem_toList_iff_getElem?_eq_some, bne_iff_ne]
  constructor
  · rintro ⟨v, rec, ⟨hrec, hne⟩, rfl⟩
    exact ⟨v, rec, hrec, hne, rfl⟩
  · rintro ⟨v, rec, hrec, hne, rfl⟩
    exact ⟨v, rec, ⟨hrec, hne⟩, rfl⟩

theorem chains_purged (i : Inner V) (origin : Nat) (objectId : ObjectId) :
    (i.purged objectId).Chains (i.survivingRecords origin objectId) := by
  intro v rec
  rw [get_purged]
  constructor
  · rintro ⟨hrec, hne⟩
    exact ⟨_, mem_survivingRecords.mpr ⟨v, rec, hrec, hne, rfl⟩, rfl, rfl⟩
  · rintro ⟨r, hr, rfl, rfl⟩
    obtain ⟨v, rec, hrec, hne, rfl⟩ := mem_survivingRecords.mp hr
    exact ⟨hrec, hne⟩

theorem pairwise_survivingRecords (i : Inner V) (origin : Nat) (objectId : ObjectId) :
    (i.survivingRecords origin objectId).Pairwise fun a b => a.newVersion < b.newVersion := by
  have hne : (i.versionChain.toList.filter fun p => p.2.objectId != objectId).Pairwise
      fun a b => a.1 ≠ b.1 := (toList_pairwise_ne _).sublist filter_sublist
  have hle := @pairwise_mergeSort _
    (fun (a b : VersionId × VersionRecord V) => decide (a.1 ≤ b.1))
    (fun a b c hab hbc => decide_eq_true (le_trans (of_decide_eq_true hab) (of_decide_eq_true hbc)))
    (fun a b => by simpa using le_total a.1 b.1)
    (i.versionChain.toList.filter fun p => p.2.objectId != objectId)
  refine pairwise_map.mpr ((hle.and (hne.perm (mergeSort_perm _ _).symm fun h => h.symm)).imp ?_)
  rintro a b ⟨hab, hne⟩
  exact lt_of_le_of_ne (of_decide_eq_true hab) hne

theorem survivingRecords_eq (hc : i.Chains log)
    (hsorted : log.Pairwise fun a b => a.newVersion < b.newVersion) (origin : Nat)
    (objectId : ObjectId) : i.survivingRecords origin objectId =
      (log.filter fun r => r.objectId ≠ objectId).map fun r => { r with actorOrigin := origin } := by
  have hleft := pairwise_survivingRecords i origin objectId
  have hright : ((log.filter fun r => r.objectId ≠ objectId).map fun r =>
      ({ r with actorOrigin := origin } : WalRecord V)).Pairwise fun a b => a.newVersion < b.newVersion :=
    pairwise_map.mpr (hsorted.sublist filter_sublist)
  have hnodup : ∀ {l : List (WalRecord V)}, (l.Pairwise fun a b => a.newVersion < b.newVersion) →
      l.Nodup := fun h => h.imp fun hlt heq => absurd (congrArg WalRecord.newVersion heq) (ne_of_lt hlt)
  refine List.Perm.eq_of_pairwise (fun a b _ _ hab hba => absurd hba (lt_asymm hab)) hleft hright
    ((perm_ext_iff_of_nodup (hnodup hleft) (hnodup hright)).mpr fun r => ?_)
  rw [mem_survivingRecords, mem_map]
  constructor
  · rintro ⟨v, rec, hrec, hne, rfl⟩
    obtain ⟨r, hr, rfl, rfl⟩ := (hc v rec).mp hrec
    exact ⟨r, mem_filter.mpr ⟨hr, decide_eq_true hne⟩, rfl⟩
  · rintro ⟨r, hr, rfl⟩
    obtain ⟨hr, hne⟩ := mem_filter.mp hr
    exact ⟨r.newVersion, r.toVersion, (hc _ _).mpr ⟨r, hr, rfl, rfl⟩, of_decide_eq_true hne, rfl⟩

theorem ordered_survivingRecords (i : Inner V) (origin : Nat) (objectId : ObjectId) :
    Ordered (i.survivingRecords origin objectId) :=
  (pairwise_survivingRecords i origin objectId).imp fun hlt => ⟨ne_of_lt hlt, fun _ => hlt⟩

end Inner

/-! ## The log and the views beside it -/

/-- The views in memory are those of an ordered log of readable records. -/
structure Mirrors (reread : V → Option V) (i : Inner V) (log : List (WalRecord V)) : Prop where
  ordered : Ordered log
  chains : i.Chains log
  coherent : i.Coherent
  stable : ∀ r ∈ log, Stable reread r.metadata

section
variable {reread : V → Option V} {i : Inner V} {log : List (WalRecord V)}

theorem mirrors_rebuild (hordered : Ordered log) (hstable : ∀ r ∈ log, Stable reread r.metadata) :
    Mirrors reread (.rebuild log) log :=
  ⟨hordered, chains_rebuild hordered, coherent_rebuild hordered, hstable⟩

section
variable (M : Mirrors reread i log)
include M

theorem Mirrors.eq_rebuild : i.metadata = (Inner.rebuild log).metadata ∧
      i.versionPointer = (Inner.rebuild log).versionPointer ∧
      i.versionChain = (Inner.rebuild log).versionChain :=
  M.chains.eq_rebuild M.coherent M.ordered

theorem Mirrors.stable_version {v : VersionId} {rec : VersionRecord V}
    (h : i.versionChain[v]? = some rec) : Stable reread rec.metadata := by
  obtain ⟨r, hr, -, rfl⟩ := (M.chains v rec).mp h
  exact M.stable r hr

theorem Mirrors.allocate (objectId : Option ObjectId) : Mirrors reread (i.allocate objectId).2 log :=
  ⟨M.ordered, by cases objectId <;> exact M.chains, M.coherent.allocate objectId, M.stable⟩

theorem Mirrors.written {file : List UInt8} (caller : Caller)
    (objectId : Option ObjectId) {metadata : V} (hm : Stable reread metadata) : Mirrors reread
      { (i.allocate objectId).2.commit
          (written ⟨file, i⟩ caller objectId metadata) with
        nextVersionId := i.nextVersionId + 1 }
      (log ++ [written ⟨file, i⟩ caller objectId metadata]) := by
  have hnext := allocate_nextVersionId i objectId
  have M' := M.allocate objectId
  obtain ⟨hordered, hchains, hcoherent⟩ := commit_spec M'.chains M'.coherent M'.ordered
    (r := StorageEngine.written ⟨file, i⟩ caller objectId metadata) hnext.symm
  rw [hnext] at hchains hcoherent
  refine ⟨hordered, hchains, hcoherent, fun r hr => ?_⟩
  rcases mem_append.mp hr with hr | hr
  · exact M.stable r hr
  · rw [mem_singleton.mp hr]
    exact hm

theorem Mirrors.compacted {order : List (ObjectId × VersionId)}
    (horder : order.Perm i.versionPointer.toList) (null : V) (origin : Nat) :
    Mirrors reread i.compacted (i.headRecords null origin order) := by
  refine ⟨ordered_headRecords M.coherent horder null origin,
    chains_compacted M.coherent horder null origin, coherent_compacted M.coherent,
    fun r hr => ?_⟩
  obtain ⟨o, v, rec, -, hrec, -, rfl⟩ := (mem_headRecords M.coherent horder null origin).mp hr
  exact M.stable_version hrec

theorem Mirrors.purged (origin : Nat) (objectId : ObjectId) :
    Mirrors reread (i.purged objectId) (i.survivingRecords origin objectId) := by
  refine ⟨ordered_survivingRecords _ _ _, chains_purged _ _ _,
    coherent_purged M.coherent objectId, fun r hr => ?_⟩
  obtain ⟨v, rec, hrec, -, rfl⟩ := mem_survivingRecords.mp hr
  exact M.stable_version hrec

end

end

/-! ## Runs -/

/-- Calls without I/O failure, `good` saying which metadata are written; `order` is the order in
which `compact` meets the version pointers. -/
inductive Step (C : Codec V) (null : V) (good : V → Prop) (e : StorageEngine V) :
    StorageEngine V → Prop
  | putObject (caller : Caller) (objectId : Option ObjectId) (expectedVersion : Option VersionId)
      (metadata : V) (nonce : C.Nonce) (hgood : good metadata) :
      Step C null good e
        (e.putObject C caller objectId expectedVersion metadata nonce .completed).2
  | compact (caller : Caller) (order : List (ObjectId × VersionId)) (nonce : Nat → C.Nonce)
      (horder : order.Perm e.inner.versionPointer.toList) :
      Step C null good e (e.compact C caller null order nonce).2
  | purgeObject (caller : Caller) (objectId : ObjectId) (nonce : Nat → C.Nonce) :
      Step C null good e (e.purgeObject C caller objectId nonce).2
  | reopen {e' : StorageEngine V} (hopen : StorageEngine.openImpl C e.file = .ok e') :
      Step C null good e e'

def Reached (C : Codec V) (null : V) (good : V → Prop) : StorageEngine V → Prop :=
  Relation.ReflTransGen (Step C null good) ⟨[], .empty⟩

/-- The file holds a log that the views in memory mirror. -/
structure Tracks (C : Codec V) (reread : V → Option V) (e : StorageEngine V)
    (log : List (WalRecord V)) : Prop where
  holds : C.Holds e.file log
  mirrors : Mirrors reread e.inner log

section
variable {C : Codec V} {reread : V → Option V} {e : StorageEngine V} {log : List (WalRecord V)}

theorem tracks_empty : Tracks C reread ⟨[], .empty⟩ [] :=
  ⟨C.holds_nil, mirrors_rebuild .nil (by simp)⟩

theorem Tracks.openImpl_eq (T : Tracks C reread e log) :
    openImpl C e.file = .ok ⟨e.file, .rebuild log⟩ :=
  openImpl_of_replay T.holds.replay_eq

variable (L : C.Lawful reread)
include L

variable {metadata : V}

theorem Tracks.stored (T : Tracks C reread e log) (caller : Caller) (objectId : Option ObjectId)
    (hm : Stable reread metadata) (nonce : C.Nonce) : Tracks C reread
      { file := e.file ++ (C.line nonce (e.written caller objectId metadata) ++ [newline]),
        inner := { (e.inner.allocate objectId).2.commit (e.written caller objectId metadata) with
          nextVersionId := e.inner.nextVersionId + 1 } }
      (log ++ [e.written caller objectId metadata]) :=
  ⟨T.holds.concat (L.reads_line (r := e.written caller objectId metadata) hm nonce),
    T.mirrors.written caller objectId hm⟩

theorem Tracks.putObject (T : Tracks C reread e log) (caller : Caller) (objectId : Option ObjectId)
    (expectedVersion : Option VersionId) (hm : Stable reread metadata)
    (nonce : C.Nonce) : ∃ log', Tracks C reread
      (e.putObject C caller objectId expectedVersion metadata nonce .completed).2 log' := by
  generalize hput : e.putObject C caller objectId expectedVersion metadata nonce .completed = p
  cases putObject_outcome hput with
  | unauthorized => exact ⟨log, T⟩
  | conflict => exact ⟨log, T.holds, T.mirrors.allocate objectId⟩
  | failed _ _ written hio => cases hio
  | stored => exact ⟨_, T.stored L caller objectId hm nonce⟩

theorem Step.tracks {null : V} {e' : StorageEngine V} (h : Step C null (Stable reread) e e')
    (T : Tracks C reread e log) : ∃ log', Tracks C reread e' log' := by
  cases h with
  | putObject caller objectId expectedVersion metadata nonce hgood =>
    exact T.putObject L caller objectId expectedVersion hgood nonce
  | compact caller order nonce horder =>
    rcases e.compact_cases C caller null order nonce with ⟨err, heq⟩ | ⟨n, heq⟩ <;> rw [heq]
    · exact ⟨log, T⟩
    · have M := T.mirrors.compacted horder null caller.token.origin
      exact ⟨_, L.holds_rewritten M.stable nonce, M⟩
  | purgeObject caller objectId nonce =>
    rcases e.purgeObject_cases C caller objectId nonce with ⟨err, heq⟩ | ⟨n, heq⟩ <;> rw [heq]
    · exact ⟨log, T⟩
    · have M := T.mirrors.purged caller.token.origin objectId
      exact ⟨_, L.holds_rewritten M.stable nonce, M⟩
  | reopen hopen =>
    cases T.openImpl_eq.symm.trans hopen
    exact ⟨log, T.holds, mirrors_rebuild T.mirrors.ordered T.mirrors.stable⟩

theorem Reached.tracks {null : V} (h : Reached C null (Stable reread) e) :
    ∃ log, Tracks C reread e log := by
  induction h with
  | refl => exact ⟨[], tracks_empty⟩
  | tail _ hstep ih =>
    obtain ⟨log, T⟩ := ih
    exact hstep.tracks L T

/-- **The materialized views refine the log.** In every run without I/O failure whose metadata read
back from their JSON text, the three maps in memory are those that `open_impl` rebuilds from the
file, and the head of an object is its largest version and carries its metadata. -/
theorem views_refine_wal {null : V} (h : Reached C null (Stable reread) e) :
    (∃ e', StorageEngine.openImpl C e.file = .ok e' ∧ e'.inner.metadata = e.inner.metadata ∧
      e'.inner.versionPointer = e.inner.versionPointer ∧
      e'.inner.versionChain = e.inner.versionChain) ∧
    ∀ (o : ObjectId) (v : VersionId), e.inner.versionPointer[o]? = some v →
      ∃ rec : VersionRecord V, e.inner.versionChain[v]? = some rec ∧ rec.objectId = o ∧
        e.inner.metadata[o]? = some rec.metadata ∧
        ∀ (v' : VersionId) (rec' : VersionRecord V), e.inner.versionChain[v']? = some rec' →
          rec'.objectId = o → v' ≤ v := by
  obtain ⟨log, T⟩ := h.tracks L
  obtain ⟨hm, hp, hc⟩ := T.mirrors.eq_rebuild
  refine ⟨⟨_, T.openImpl_eq, hm.symm, hp.symm, hc.symm⟩, fun o v hv => ?_⟩
  obtain ⟨rec, hrec, ho, hmeta⟩ := T.mirrors.coherent.head o v hv
  exact ⟨rec, hrec, ho, hmeta, T.mirrors.coherent.top o v hv⟩

end

def firstWrite (metadata : Json) : StorageEngine Json :=
  (StorageEngine.putObject jsonSerde.plain ⟨[], .empty⟩ .root none none metadata () .completed).2

theorem firstWrite_eq (metadata : Json) : firstWrite metadata =
    { file := jsonSerde.toVec ⟨0, none, 0, metadata, 7⟩ ++ [newline],
      inner := { Inner.empty.commit ⟨0, none, 0, metadata, 7⟩ with
        nextObjectId := 1, nextVersionId := 1 } } := by
  rw [firstWrite, putObject_eq_stored _ _ none none Caller.root_write (by rfl)]
  rfl

theorem putObject_firstWrite (metadata : Json) :
    putObject jsonSerde.plain ⟨[], .empty⟩ .root none none metadata () .completed =
      (.ok (0, 0), firstWrite metadata) := by
  rw [firstWrite, putObject_eq_stored _ _ none none Caller.root_write (by rfl)]
  rfl

theorem firstWrite_metadata (metadata : Json) :
    (firstWrite metadata).inner.metadata[0]? = some metadata := by
  rw [firstWrite_eq]
  exact (get_insert _ _ _ _).trans (if_pos rfl)

theorem firstWrite_reached {good : Json → Prop} {metadata : Json} (h : good metadata) :
    Reached jsonSerde.plain .null good (firstWrite metadata) :=
  .single (.putObject .root none none metadata () h)

def secondWrite (first : Json) : StorageEngine Json :=
  ((firstWrite first).putObject jsonSerde.plain .root none none .null () .completed).2

theorem secondWrite_eq (first : Json) : secondWrite first =
    { file := (firstWrite first).file ++ (jsonSerde.toVec ⟨1, none, 1, .null, 7⟩ ++ [newline]),
      inner := { (firstWrite first).inner.commit ⟨1, none, 1, .null, 7⟩ with
        nextObjectId := 2, nextVersionId := 2 } } := by
  rw [secondWrite, firstWrite_eq, putObject_eq_stored _ _ none none Caller.root_write (by rfl)]
  rfl

theorem stable_null : Stable jsonReread .null := rfl

/-- Two objects are written, the older one is purged, and the file is opened again. -/
def reopened : StorageEngine Json :=
  let file := ((secondWrite .null).purgeObject jsonSerde.plain .root 0 fun _ => ()).2.file
  ⟨file, .rebuild [⟨1, none, 1, .null, 7⟩]⟩

theorem purgeObject_secondWrite : (secondWrite .null).purgeObject jsonSerde.plain .root 0 (fun _ => ()) =
    (.ok 1, ⟨reopened.file, (secondWrite .null).inner.purged 0⟩) := by
  rw [reopened, secondWrite_eq, firstWrite_eq]
  rfl

theorem openImpl_reopened : openImpl jsonSerde.plain reopened.file = .ok reopened := by
  have hlog : (secondWrite .null).inner.survivingRecords 7 0 = [⟨1, none, 1, .null, 7⟩] := by
    rw [secondWrite_eq, firstWrite_eq, survivingRecords]
    exact congrArg (List.map _) (mergeSort_singleton ((1, ⟨1, none, .null⟩) : VersionId × VersionRecord Json))
  have hfile : reopened.file = rewritten jsonSerde.plain (fun _ => ()) [⟨1, none, 1, .null, 7⟩] := by
    rw [← hlog, reopened, secondWrite_eq, firstWrite_eq]
    rfl
  have hstable : ∀ r ∈ [(⟨1, none, 1, .null, 7⟩ : WalRecord Json)], Stable jsonReread r.metadata :=
    forall_mem_singleton.mpr stable_null
  have hholds := jsonSerde_lawful.holds_rewritten hstable fun _ => ()
  exact openImpl_of_replay (hfile ▸ hholds.replay_eq)

theorem reached_reopened : Reached jsonSerde.plain .null (Stable jsonReread) reopened := by
  have hfirst : Reached jsonSerde.plain .null (Stable jsonReread) (firstWrite .null) := firstWrite_reached stable_null
  have hsecond : Reached jsonSerde.plain .null (Stable jsonReread) (secondWrite .null) :=
    hfirst.tail (@Step.putObject _ jsonSerde.plain .null _ _ .root none none .null () stable_null)
  have hpurged := hsecond.tail (.purgeObject .root 0 fun _ => ())
  rw [purgeObject_secondWrite] at hpurged
  exact hpurged.tail (.reopen openImpl_reopened)

/-- A version is written to the object that is left of `reopened`, and the file is opened again. -/
theorem views_refine_wal_reopened :
    ∃ e e', reopened.putObject jsonSerde.plain .root (some 1) (some 1) .null () .completed = (.ok (1, 2), e) ∧
      openImpl jsonSerde.plain e.file = .ok e' ∧ e'.inner.versionPointer = e.inner.versionPointer := by
  have hput := putObject_eq_stored jsonSerde.plain reopened (some 1) (some 1) Caller.root_write rfl .null ()
  have hstep := @Step.putObject _ jsonSerde.plain .null _ reopened .root (some 1) (some 1) .null () stable_null
  rw [hput] at hstep
  obtain ⟨⟨e', hopen, -, hpointer, -⟩, -⟩ := views_refine_wal jsonSerde_lawful (reached_reopened.tail hstep)
  exact ⟨_, e', hput, hopen, hpointer⟩

/-- A write of metadata nested as deep as the JSON reader's limit is in memory and not in what the
file rebuilds. -/
theorem views_lose_deep_metadata :
    Reached jsonSerde.plain .null (fun _ => True) (firstWrite (nested 126)) ∧
      (firstWrite (nested 126)).inner.metadata[0]? = some (nested 126) ∧
      ∃ e', StorageEngine.openImpl jsonSerde.plain (firstWrite (nested 126)).file = .ok e' ∧
        e'.inner.metadata[0]? = none := by
  refine ⟨firstWrite_reached trivial, firstWrite_metadata _,
    ⟨(firstWrite (nested 126)).file, .empty⟩, ?_, rfl⟩
  have L := jsonSerde_lawful
  obtain ⟨s, hs, hparse⟩ := L.reads () ⟨0, none, 0, nested 126, 7⟩
  rw [jsonReread_nested] at hparse
  have hreplay := replay_unparsable (L.isLine () _) (L.nonempty () _) hs hparse []
  have hfile : replay jsonSerde.plain (firstWrite (nested 126)).file = .ok [] := by
    rw [firstWrite_eq]
    exact hreplay
  rw [openImpl, hfile]
  rfl

end

end Hyperion.Storage
