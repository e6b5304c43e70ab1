import Mathlib

/-!
# Finite maps

`HashMap K V` stands for a hash map of a program: two of them are equal when their lookups are.
Where the order in which a program iterates over one matters, it is whatever the table gives: the
order is an argument of the function that iterates, constrained to be a permutation of `toList`.
-/

namespace Hyperion.Lib
open Std.ExtTreeMap

/-- A finite map with extensional equality. -/
abbrev HashMap (K V : Type) [Ord K] := Std.ExtTreeMap K V compare

namespace HashMap

variable {K V : Type} [Ord K] [Std.TransOrd K] [Std.LawfulEqOrd K] [DecidableEq K] (m : HashMap K V)

theorem get_insert (k a : K) (v : V) : (m.insert k v)[a]? = if k = a then some v else m[a]? := by
  simp [Std.ExtTreeMap.getElem?_insert]

theorem get_erase (k a : K) : (m.erase k)[a]? = if k = a then none else m[a]? := by
  simp [Std.ExtTreeMap.getElem?_erase]

variable {m} in
/-- What holds of the new entry and of the old ones holds of all. -/
theorem forall_insert {P : K → V → Prop} {k : K} {v : V} (hnew : P k v) (hold : ∀ a x, m[a]? = some x → P a x)
    (a : K) (x : V) (h : (m.insert k v)[a]? = some x) : P a x := by
  rw [get_insert] at h
  split at h
  · next heq =>
    cases h
    exact heq ▸ hnew
  · exact hold a x h

variable {m} in
theorem of_get_erase {k a : K} {x : V} (h : (m.erase k)[a]? = some x) : k ≠ a ∧ m[a]? = some x := by
  rw [get_erase] at h
  split at h
  · cases h
  · next hne => exact ⟨hne, h⟩

theorem get_modify (k a : K) (f : V → V) : (m.modify k f)[a]? = if k = a then m[a]?.map f else m[a]? := by
  rw [Std.ExtTreeMap.getElem?_modify]
  by_cases h : k = a
  · subst h; simp
  · simp [h]

theorem get_eraseAll (m : HashMap K V) (ks : List K) (a : K) :
    (ks.foldl (fun m k => m.erase k) m)[a]? = if a ∈ ks then none else m[a]? := by
  induction ks generalizing m with
  | nil => simp
  | cons k ks ih =>
    rw [List.foldl_cons, ih, get_erase]
    by_cases ha : a ∈ ks
    · simp [ha]
    · simp [ha, eq_comm]

omit [DecidableEq K] in
theorem get_filter_eq_some_iff (f : K → V → Bool) (k : K) (v : V) :
    (m.filter f)[k]? = some v ↔ m[k]? = some v ∧ f k v = true := by
  rw [Std.ExtTreeMap.getElem?_filter', Option.filter_eq_some_iff]

omit [DecidableEq K] in
theorem toList_pairwise_ne : m.toList.Pairwise fun a b => a.1 ≠ b.1 := by
  refine distinct_keys_toList.imp ?_
  intro a b hne heq
  exact hne (Std.LawfulEqOrd.compare_eq_iff_eq.mpr heq)

omit [DecidableEq K] in
theorem toList_nodup : m.toList.Nodup :=
  m.toList_pairwise_ne.imp fun hne heq => hne (congrArg Prod.fst heq)

end HashMap

/-- An order in which a program may visit the values, or the entries, of a map. -/
structure Visit (V : Type) where
  order : List V → List V
  perm : ∀ values, (order values).Perm values

namespace Visit
variable {K V : Type} [Ord K] [Std.TransOrd K]

def inOrder : Visit V := ⟨id, fun _ => .refl _⟩

def values (visit : Visit V) (m : HashMap K V) : List V := visit.order (m.toList.map Prod.snd)

theorem length_values (visit : Visit V) (m : HashMap K V) : (visit.values m).length = m.size := by
  rw [values, (visit.perm _).length_eq, List.length_map, length_toList]

theorem mem_values [Std.LawfulEqOrd K] (visit : Visit V) (m : HashMap K V) {v : V} :
    v ∈ visit.values m ↔ ∃ k : K, m[k]? = some v := by
  simp only [values, (visit.perm _).mem_iff, List.mem_map, Prod.exists, exists_eq_right,
    mem_toList_iff_getElem?_eq_some]

def entries (visit : Visit (K × V)) (m : HashMap K V) : List (K × V) := visit.order m.toList

theorem mem_entries [Std.LawfulEqOrd K] (visit : Visit (K × V)) (m : HashMap K V) {e : K × V} :
    e ∈ visit.entries m ↔ m[e.1]? = some e.2 := by
  rw [entries, (visit.perm _).mem_iff, mem_toList_iff_getElem?_eq_some]

end Visit

end Hyperion.Lib
