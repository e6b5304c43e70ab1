import Hyperion.Lib.HashMap

/-!
# Posting lists

A table of records with, for one field of them, the list of the keys of the records that have a given
value there. `Posts` says that the lists are right: a key stands exactly once in the list of its
record's value and in no other list. Adding a record pushes its key on one list; replacing a record
by one with the same value leaves the lists as they are.
-/

namespace Hyperion.Lib
open HashMap List

section
variable {K N R : Type} [Ord K] [Std.TransOrd K] [Std.LawfulEqOrd K] [DecidableEq K]
  [Ord N] [Std.TransOrd N] [Std.LawfulEqOrd N] [DecidableEq N]

/-- The list of a value; a value without one has the empty list. -/
def postings (lists : HashMap N (List K)) (n : N) : List K := lists[n]?.getD []

/-- `lists.entry(n).or_default().push(k)`. -/
def pushPosting (lists : HashMap N (List K)) (n : N) (k : K) : HashMap N (List K) :=
  lists.insert n (postings lists n ++ [k])

/-- The lists are those of the records by the field `field`. -/
structure Posts (lists : HashMap N (List K)) (table : HashMap K R) (field : R → N) : Prop where
  mem_iff : ∀ n k, k ∈ postings lists n ↔ ∃ r, table[k]? = some r ∧ field r = n
  nodup : ∀ n, (postings lists n).Nodup

omit [Ord K] [Std.TransOrd K] [Std.LawfulEqOrd K] [DecidableEq K] in
theorem postings_push (lists : HashMap N (List K)) (n m : N) (k : K) : postings (pushPosting lists n k) m =
      if n = m then postings lists m ++ [k] else postings lists m := by
  rw [postings, pushPosting, get_insert]
  by_cases h : n = m
  · rw [if_pos h, if_pos h, h]
    rfl
  · rw [if_neg h, if_neg h]
    rfl

omit [Std.LawfulEqOrd K] [DecidableEq K] [Std.LawfulEqOrd N] [DecidableEq N] in
theorem posts_empty (field : R → N) : Posts (∅ : HashMap N (List K)) (∅ : HashMap K R) field := by
  constructor <;> simp [postings]

variable {lists : HashMap N (List K)} {table : HashMap K R} {field : R → N}

variable {k : K}

theorem Posts.push (h : Posts lists table field) (hk : table[k]? = none) (r : R) :
    Posts (pushPosting lists (field r) k) (table.insert k r) field := by
  have hmem : ∀ n, k ∉ postings lists n := fun n hkn => by
    obtain ⟨r', hr', -⟩ := (h.mem_iff n k).mp hkn
    cases hk.symm.trans hr'
  constructor
  · intro n k'
    rw [postings_push, get_insert]
    by_cases hkk : k = k'
    · subst hkk
      by_cases hn : field r = n <;> simp [hn, hmem n]
    · by_cases hn : field r = n <;> simp [hn, hkk, Ne.symm hkk, h.mem_iff]
  · intro n
    rw [postings_push]
    split
    · exact nodup_append.mpr ⟨h.nodup n, nodup_singleton k, fun a ha b hb hab => by
        rw [mem_singleton.mp hb] at hab
        exact hmem n (hab ▸ ha)⟩
    · exact h.nodup n

omit [Std.LawfulEqOrd N] [DecidableEq N] in
theorem Posts.replace (h : Posts lists table field) {old r : R} (hk : table[k]? = some old)
    (hfield : field old = field r) : Posts lists (table.insert k r) field := by
  refine ⟨fun n k' => ?_, h.nodup⟩
  rw [get_insert, h.mem_iff]
  by_cases hkk : k = k'
  · subst hkk
    simp [hk, hfield]
  · simp [hkk]

omit [DecidableEq K] [DecidableEq N] in
theorem Posts.filter (h : Posts lists table field) (p : R → Bool) :
    Posts (lists.map fun _ ks => ks.filter fun k => table[k]?.any p) (table.filter fun _ r => p r)
      field := by
  have hpostings : ∀ n, postings (lists.map fun _ ks => ks.filter fun k => table[k]?.any p) n =
      (postings lists n).filter fun k => table[k]?.any p := by
    intro n
    rw [postings, postings, Std.ExtTreeMap.getElem?_map]
    cases lists[n]? <;> rfl
  refine ⟨fun n k => ?_, fun n => ?_⟩
  · rw [hpostings, mem_filter, h.mem_iff, Option.any_eq_true]
    simp only [get_filter_eq_some_iff]
    constructor
    · rintro ⟨⟨r, hr, hn⟩, r', hr', hp⟩
      cases hr.symm.trans hr'
      exact ⟨r, ⟨hr, hp⟩, hn⟩
    · rintro ⟨r, ⟨hr, hp⟩, hn⟩
      exact ⟨⟨r, hr, hn⟩, r, hr, hp⟩
  · rw [hpostings]
    exact (h.nodup n).filter _

omit [Std.LawfulEqOrd K] [DecidableEq K] [Std.LawfulEqOrd N] [DecidableEq N] in
theorem Posts.mem_iff_field_eq (h : Posts lists table field) {r : R} (hk : table[k]? = some r)
    {n : N} : k ∈ postings lists n ↔ field r = n := by
  rw [h.mem_iff]
  constructor
  · rintro ⟨r', hr', hn⟩
    cases hk.symm.trans hr'
    exact hn
  · exact fun hn => ⟨r, hk, hn⟩

omit [Std.LawfulEqOrd K] [Std.LawfulEqOrd N] [DecidableEq N] in
theorem Posts.count_eq_one (h : Posts lists table field) {r : R} (hk : table[k]? = some r) :
    (postings lists (field r)).count k = 1 :=
  count_eq_one_of_mem (h.nodup _) ((h.mem_iff _ _).mpr ⟨r, hk, rfl⟩)

end

end Hyperion.Lib
