import Hyperion.Lib.HashMap

/-!
# Sums over a finite map

`tally w m` adds up the weight `w` of every entry of `m`. An entry under a new key adds its weight, an
entry taken out gives it back.
-/

namespace Hyperion.Lib
open Std.ExtTreeMap List HashMap

section
variable {K V : Type} [Ord K] [Std.TransOrd K]

def tally (w : K → V → Nat) (m : HashMap K V) : Nat := (m.toList.map fun p => w p.1 p.2).sum

variable [Std.LawfulEqOrd K] [DecidableEq K] {w w' : K → V → Nat} {m : HashMap K V} {k : K} {v : V}

theorem tally_insert (w : K → V → Nat) (h : m[k]? = none) (v : V) :
    tally w (m.insert k v) = w k v + tally w m := by
  have hnew : (k, v) ∉ m.toList := by
    rw [mem_toList_iff_getElem?_eq_some, h]
    exact nofun
  have hperm : (m.insert k v).toList.Perm ((k, v) :: m.toList) := by
    refine (perm_ext_iff_of_nodup (toList_nodup _)
      (nodup_cons.mpr ⟨hnew, m.toList_nodup⟩)).mpr fun ⟨a, b⟩ => ?_
    rw [mem_cons, mem_toList_iff_getElem?_eq_some,
      mem_toList_iff_getElem?_eq_some, get_insert]
    by_cases hk : k = a
    · subst hk
      simp [h, eq_comm]
    · simp [hk, Ne.symm hk]
  rw [tally, (hperm.map _).sum_eq, map_cons, sum_cons, tally]

theorem tally_erase (w : K → V → Nat) (h : m[k]? = some v) : tally w m = w k v + tally w (m.erase k) := by
  have hback : (m.erase k).insert k v = m := by
    refine ext_getElem? fun a => ?_
    rw [get_insert, get_erase]
    by_cases hk : k = a
    · subst hk
      rw [if_pos rfl, h]
    · rw [if_neg hk, if_neg hk]
  have hgone : (m.erase k)[k]? = none := (get_erase _ _ _).trans (if_pos rfl)
  rw [← tally_insert w hgone v, hback]

omit [DecidableEq K] in
theorem tally_congr (h : ∀ k v, m[k]? = some v → w k v = w' k v) : tally w m = tally w' m := by
  refine congrArg List.sum (map_congr_left fun ⟨k, v⟩ hmem => ?_)
  exact h k v (mem_toList_iff_getElem?_eq_some.mp hmem)

omit [DecidableEq K] in
theorem tally_le_tally (h : ∀ k v, m[k]? = some v → w k v ≤ w' k v) : tally w m ≤ tally w' m := by
  refine sum_le_sum fun ⟨k, v⟩ hmem => ?_
  exact h k v (mem_toList_iff_getElem?_eq_some.mp hmem)

omit [DecidableEq K] in
theorem tally_eq_zero (h : ∀ k v, m[k]? = some v → w k v = 0) : tally w m = 0 := by
  refine sum_eq_zero fun n hn => ?_
  obtain ⟨⟨k, v⟩, hmem, rfl⟩ := mem_map.mp hn
  exact h k v (mem_toList_iff_getElem?_eq_some.mp hmem)

omit [DecidableEq K] in
@[simp] theorem tally_empty (w : K → V → Nat) : tally w (∅ : HashMap K V) = 0 :=
  tally_eq_zero fun k v h => by simp at h

end

end Hyperion.Lib
