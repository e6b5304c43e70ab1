import Hyperion.Lib.HashMap

/-!
# Maps rebuilt from a log

`lastWins key val log` replays a log into a map, each record overwriting what an earlier one put
under its key. Over a log whose keys are all different the map lists the log.
-/

namespace Hyperion.Lib
open List

section
variable {K V R : Type} [Ord K] [Std.TransOrd K] [Std.LawfulEqOrd K] [DecidableEq K]
  (key : R → K) (val : R → V) (log : List R)

def lastWins : HashMap K V := log.foldl (fun m r => m.insert (key r) (val r)) ∅

omit [Std.LawfulEqOrd K] [DecidableEq K] in
theorem lastWins_concat (r : R) :
    lastWins key val (log ++ [r]) = (lastWins key val log).insert (key r) (val r) := by
  simp [lastWins]

theorem get_lastWins_concat (r : R) (k : K) : (lastWins key val (log ++ [r]))[k]? =
      if key r = k then some (val r) else (lastWins key val log)[k]? := by
  rw [lastWins_concat, HashMap.get_insert]

theorem get_lastWins (k : K) :
    (lastWins key val log)[k]? = (log.reverse.find? fun r => key r = k).map val := by
  induction log using List.reverseRecOn with
  | nil => simp [lastWins]
  | append_singleton log r ih =>
    rw [get_lastWins_concat, ih, reverse_concat, List.find?_cons]
    by_cases h : key r = k <;> simp [h]

theorem get_lastWins_eq_none_iff (k : K) : (lastWins key val log)[k]? = none ↔ ∀ r ∈ log, key r ≠ k := by
  simp [get_lastWins]

theorem get_lastWins_eq_some_iff (k : K) (v : V) : (lastWins key val log)[k]? = some v ↔
      ∃ before r after, log = before ++ r :: after ∧ key r = k ∧ val r = v ∧
        ∀ r' ∈ after, key r' ≠ k := by
  simp only [get_lastWins, Option.map_eq_some_iff, List.find?_eq_some_iff_append]
  constructor
  · rintro ⟨r, ⟨hk, newer, older, hlog, hnewer⟩, hv⟩
    refine ⟨older.reverse, r, newer.reverse, ?_, by simpa using hk, hv, by simpa using hnewer⟩
    rw [← reverse_reverse log, hlog]
    simp
  · rintro ⟨before, r, after, rfl, hk, hv, hafter⟩
    exact ⟨r, ⟨by simpa using hk, after.reverse, before.reverse, by simp, by simpa using hafter⟩, hv⟩

theorem get_lastWins_of_pairwise {log : List R} (h : log.Pairwise fun a b => key a ≠ key b) (k : K)
    (v : V) : (lastWins key val log)[k]? = some v ↔ ∃ r ∈ log, key r = k ∧ val r = v := by
  rw [get_lastWins_eq_some_iff]
  constructor
  · rintro ⟨before, r, after, rfl, hk, hv, -⟩
    exact ⟨r, by simp, hk, hv⟩
  · rintro ⟨r, hr, hk, hv⟩
    obtain ⟨before, after, rfl⟩ := append_of_mem hr
    refine ⟨before, r, after, rfl, hk, hv, fun r' hr' => ?_⟩
    have hrel := (pairwise_cons.mp (pairwise_append.mp h).2.1).1 r' hr'
    exact fun heq => hrel (hk.trans heq.symm)

end

end Hyperion.Lib
