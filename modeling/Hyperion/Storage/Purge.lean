import Hyperion.Storage.Reopen

/-!
# Purging an object

`purge_object` drops every version of one object from memory and writes the log anew from the versions of the others.
-/

namespace Hyperion.Storage
open Lib Capability HashMap Hyperion.Storage.Inner

section
variable {V : Type} {C : Codec V} {reread : V → Option V}

/-- Nothing of the object is in memory. -/
structure Inner.Forgets (i : Inner V) (o : ObjectId) : Prop where
  metadata : i.metadata[o]? = none
  versionPointer : i.versionPointer[o]? = none
  versionChain : ∀ (v : VersionId) (rec : VersionRecord V), i.versionChain[v]? = some rec → rec.objectId ≠ o

/-- Every other object has the same head, the same metadata and the same versions with the same parents. -/
structure Inner.SameBut (o : ObjectId) (i i' : Inner V) : Prop where
  metadata : ∀ o' ≠ o, i'.metadata[o']? = i.metadata[o']?
  versionPointer : ∀ o' ≠ o, i'.versionPointer[o']? = i.versionPointer[o']?
  versionChain : ∀ (v : VersionId) (rec : VersionRecord V), rec.objectId ≠ o →
    (i'.versionChain[v]? = some rec ↔ i.versionChain[v]? = some rec)

def Inner.SameViews (i i' : Inner V) : Prop :=
  i'.metadata = i.metadata ∧ i'.versionPointer = i.versionPointer ∧ i'.versionChain = i.versionChain

variable (i : Inner V) (o : ObjectId)

theorem Inner.forgets_purged : (i.purged o).Forgets o where
  metadata := (get_erase ..).trans (if_pos rfl)
  versionPointer := (get_erase ..).trans (if_pos rfl)
  versionChain v rec hrec := ((get_purged v rec).mp hrec).2

theorem Inner.sameBut_purged : i.SameBut o (i.purged o) where
  metadata _ hne := (get_erase ..).trans (if_neg hne.symm)
  versionPointer _ hne := (get_erase ..).trans (if_neg hne.symm)
  versionChain v rec hne := (get_purged v rec).trans (and_iff_left hne)

def Inner.versionsOf : Set VersionId :=
  {v | ∃ rec : VersionRecord V, i.versionChain[v]? = some rec ∧ rec.objectId = o}

theorem Inner.ncard_versionsOf :
    (i.versionsOf o).ncard = (i.versionChain.toList.filter fun p => p.2.objectId == o).length := by
  have hnodup : ((i.versionChain.toList.filter fun p => p.2.objectId == o).map Prod.fst).Nodup :=
    List.pairwise_map.mpr ((toList_pairwise_ne _).sublist List.filter_sublist)
  have hset : i.versionsOf o =
      (((i.versionChain.toList.filter fun p => p.2.objectId == o).map Prod.fst).toFinset : Set VersionId) := by
    ext v
    simp [versionsOf, Std.ExtTreeMap.mem_toList_iff_getElem?_eq_some]
  rw [hset, Set.ncard_coe_finset, List.toFinset_card_of_nodup hnodup, List.length_map]

theorem sameViews_rebuild_iff {i : Inner V} {log : List (WalRecord V)} (M : Mirrors some i log) :
    i.SameViews (.rebuild (readBack reread log)) ↔
      ∀ (v : VersionId) (rec : VersionRecord V), i.versionChain[v]? = some rec → Stable reread rec.metadata := by
  constructor
  · rintro ⟨-, -, hchain⟩ v rec hrec
    rw [← hchain] at hrec
    obtain ⟨r, hr, rfl, rfl⟩ := (chains_rebuild M.ordered.readBack v rec).mp hrec
    obtain ⟨old, hold, m, hm, rfl⟩ := mem_readBack hr
    have hsame := (M.chains _ _).mpr ⟨old, hold, rfl, rfl⟩
    rw [← hchain] at hsame
    have hmetadata : old.metadata = m := congrArg VersionRecord.metadata (Option.some.inj (hsame.symm.trans hrec))
    have hstable : reread old.metadata = some old.metadata := hmetadata ▸ hm
    rw [Stable, ← hmetadata]
    exact hstable
  · intro hstable
    have hlog : ∀ r ∈ log, Stable reread r.metadata := fun r hr =>
      hstable r.newVersion r.toVersion ((M.chains _ _).mpr ⟨r, hr, rfl, rfl⟩)
    obtain ⟨hm, hp, hc⟩ := M.eq_rebuild
    rw [readBack_of_stable hlog]
    exact ⟨hm.symm, hp.symm, hc.symm⟩

/-- **A purge is complete and framed**, in every engine that is reached: nothing of the object is left in memory or in
the file, the count is the number of its versions, and all other objects are as they were; a reopen finds them so
exactly if their metadata are read back. -/
theorem purge_is_complete_and_framed (L : C.Lawful reread) {null : V} {e e' : StorageEngine V}
    (h : Reached C null (fun _ => True) e) {caller : Caller} {o : ObjectId} {nonce : Nat → C.Nonce} {n : Nat}
    (hpurge : e.purgeObject C caller o nonce = (.ok n, e')) :
    (e'.inner.Forgets o ∧ ∃ records, C.Wrote e'.file records ∧ ∀ r ∈ records, r.objectId ≠ o) ∧
      n = (e.inner.versionsOf o).ncard ∧
      e.inner.SameBut o e'.inner ∧
      ∃ reopened, StorageEngine.openImpl C e'.file = .ok reopened ∧
        (e'.inner.SameViews reopened.inner ↔
          ∀ (v : VersionId) (rec : VersionRecord V), e.inner.versionChain[v]? = some rec → rec.objectId ≠ o →
            Stable reread rec.metadata) := by
  obtain ⟨_, K⟩ := h.kept L
  obtain ⟨log, M⟩ := K.sound
  have hcount : n = (e.inner.versionChain.toList.filter fun p => p.2.objectId == o).length := by
    unfold StorageEngine.purgeObject at hpurge
    split at hpurge
    · cases hpurge
    · split at hpurge
      · cases hpurge
      · cases hpurge
        rfl
  rcases e.purgeObject_cases C caller o nonce with ⟨err, heq⟩ | ⟨n', heq⟩ <;> cases heq.symm.trans hpurge
  have hwrote := C.wrote_rewritten nonce (e.inner.survivingRecords caller.token.origin o)
  refine ⟨⟨e.inner.forgets_purged o, _, hwrote, fun r hr => ?_⟩, hcount.trans (e.inner.ncard_versionsOf o).symm,
    e.inner.sameBut_purged o, _, hwrote.openImpl_eq L, ?_⟩
  · obtain ⟨v, rec, -, hne, rfl⟩ := mem_survivingRecords.mp hr
    exact hne
  · rw [sameViews_rebuild_iff (M.purged caller.token.origin o)]
    refine forall_congr' fun v => forall_congr' fun rec => ?_
    rw [get_purged, and_imp]

end

/-! ## Samples -/

theorem reached_secondWrite (first : Json) :
    Reached jsonSerde.plain .null (fun _ => True) (secondWrite first) := by
  have hfirst : Reached jsonSerde.plain .null (fun _ => True) (firstWrite first) := firstWrite_reached trivial
  exact hfirst.tail (@Step.putObject _ jsonSerde.plain .null (fun _ => True) _ .root none none .null () trivial)

theorem secondWrite_chain {first : Json} {v : VersionId} {rec : VersionRecord Json}
    (h : (secondWrite first).inner.versionChain[v]? = some rec) : rec = ⟨0, none, first⟩ ∨ rec = ⟨1, none, .null⟩ := by
  rw [secondWrite_eq, firstWrite_eq] at h
  simp only [Inner.commit, get_insert] at h
  split at h
  · cases h
    exact .inr rfl
  · split at h
    · cases h
      exact .inl rfl
    · simp [Inner.empty] at h

theorem purgeObject_second (first : Json) :
    ∃ e', (secondWrite first).purgeObject jsonSerde.plain .root 1 (fun _ => ()) = (.ok 1, e') ∧
      e'.inner = (secondWrite first).inner.purged 1 ∧
      e'.file = rewritten jsonSerde.plain (fun _ => ()) ((secondWrite first).inner.survivingRecords 7 1) := by
  rw [secondWrite_eq, firstWrite_eq]
  exact ⟨_, rfl, rfl, rfl⟩

theorem purge_is_complete_and_framed_null :
    ∃ e' reopened, (secondWrite .null).purgeObject jsonSerde.plain .root 1 (fun _ => ()) = (.ok 1, e') ∧
      StorageEngine.openImpl jsonSerde.plain e'.file = .ok reopened ∧ e'.inner.SameViews reopened.inner := by
  obtain ⟨e', hpurge, -, -⟩ := purgeObject_second .null
  obtain ⟨-, -, -, reopened, hopen, hiff⟩ :=
    purge_is_complete_and_framed jsonSerde_lawful (reached_secondWrite .null) hpurge
  refine ⟨e', reopened, hpurge, hopen, hiff.mpr fun v rec hrec _ => ?_⟩
  rcases secondWrite_chain hrec with rfl | rfl <;> rfl

/-- **A purge and a reopen lose another object**: the first object has metadata nested as deep as the reader's limit,
and after the second is purged a reopen does not find it. -/
theorem purge_then_reopen_loses_others :
    Reached jsonSerde.plain .null (fun _ => True) (secondWrite (nested 126)) ∧
    ∃ e' reopened, (secondWrite (nested 126)).purgeObject jsonSerde.plain .root 1 (fun _ => ()) = (.ok 1, e') ∧
      e'.inner.metadata[(0 : Nat)]? = some (nested 126) ∧
      StorageEngine.openImpl jsonSerde.plain e'.file = .ok reopened ∧
      reopened.inner.metadata[(0 : Nat)]? = none := by
  refine ⟨reached_secondWrite _, ?_⟩
  obtain ⟨e', hpurge, hinner, hfile⟩ := purgeObject_second (nested 126)
  have hhead : e'.inner.metadata[(0 : Nat)]? = some (nested 126) := by
    rw [hinner, secondWrite_eq, firstWrite_eq]
    rfl
  have hwrote := jsonSerde.plain.wrote_rewritten (fun _ => ()) ((secondWrite (nested 126)).inner.survivingRecords 7 1)
  rw [← hfile] at hwrote
  refine ⟨e', _, hpurge, hhead, hwrote.openImpl_eq jsonSerde_lawful, ?_⟩
  dsimp only
  rw [rebuild_metadata, get_lastWins_eq_none_iff]
  intro r hr
  -- what is left of the log is the record that is not read back
  obtain ⟨old, hold, m, hm, -⟩ := mem_readBack hr
  obtain ⟨v, rec, hrec, hne, rfl⟩ := mem_survivingRecords.mp hold
  rcases secondWrite_chain hrec with rfl | rfl
  · rw [jsonReread_nested] at hm
    cases hm
  · exact absurd rfl hne

end Hyperion.Storage
