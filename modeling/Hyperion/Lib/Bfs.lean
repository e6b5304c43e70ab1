import Hyperion.Lib.HashMap

/-!
# Breadth-first search by levels

`bfs succ k 0 [start] (Walk.init start)` explores a graph with labelled edges for `k` hops: it records
the hop at which each node is met first and the edges it has followed.
-/

namespace Hyperion.Lib
open List HashMap

section
variable {N E : Type} [Ord N] [Std.TransOrd N] [Std.LawfulEqOrd N] [DecidableEq N]
  [Ord E] [Std.TransOrd E]

structure Walk (N E : Type) [Ord N] [Ord E] where
  depths : HashMap N Nat
  visited : HashMap E Unit
  next : List N

def Walk.init (start : N) : Walk N E := ⟨(∅ : HashMap N Nat).insert start 0, ∅, []⟩

def Walk.visit (hop : Nat) (w : Walk N E) (step : E × N) : Walk N E :=
  match w.depths[step.2]? with
  | some _ => { w with visited := w.visited.insert step.1 () }
  | none =>
    { depths := w.depths.insert step.2 (hop + 1)
      visited := w.visited.insert step.1 ()
      next := w.next ++ [step.2] }

def Walk.level (succ : N → List (E × N)) (hop : Nat) (frontier : List N) (w : Walk N E) : Walk N E :=
  frontier.foldl (fun w n => (succ n).foldl (Walk.visit hop) w) { w with next := [] }

/-- `k` more hops from the frontier of hop `hop`. -/
def bfs (succ : N → List (E × N)) : Nat → Nat → List N → Walk N E → Walk N E
  | 0, _, _, w => w
  | k + 1, hop, frontier, w =>
    if frontier.isEmpty then w
    else
      let w := w.level succ hop frontier
      bfs succ k (hop + 1) w.next w

/-! ## Following a list of edges -/

variable (steps : List (E × N))

variable {hop : Nat} {w : Walk N E}

theorem visitAll_depths_of_some {m : N} {d : Nat}
    (h : w.depths[m]? = some d) : (steps.foldl (Walk.visit hop) w).depths[m]? = some d := by
  induction steps generalizing w with
  | nil => exact h
  | cons step steps ih =>
    rw [foldl_cons]
    refine ih ?_
    unfold Walk.visit
    cases hstep : w.depths[step.2]? with
    | some _ => exact h
    | none =>
      refine (get_insert _ _ _ _).trans ((if_neg ?_).trans h)
      rintro rfl
      cases hstep.symm.trans h

theorem visitAll_depths_of_none {m : N}
    (h : w.depths[m]? = none) : (steps.foldl (Walk.visit hop) w).depths[m]? =
      if m ∈ steps.map Prod.snd then some (hop + 1) else none := by
  induction steps generalizing w with
  | nil => exact h
  | cons step steps ih =>
    rw [foldl_cons, map_cons]
    by_cases hm : step.2 = m
    · subst hm
      rw [if_pos mem_cons_self]
      refine visitAll_depths_of_some steps ?_
      rw [Walk.visit, h]
      exact (get_insert _ _ _ _).trans (if_pos rfl)
    · have hvisit : (w.visit hop step).depths[m]? = none := by
        unfold Walk.visit
        cases w.depths[step.2]? with
        | some _ => exact h
        | none => exact (get_insert _ _ _ _).trans ((if_neg hm).trans h)
      rw [ih hvisit]
      by_cases hmem : m ∈ steps.map Prod.snd
      · rw [if_pos hmem, if_pos (mem_cons_of_mem _ hmem)]
      · rw [if_neg hmem, if_neg]
        exact fun h => hmem ((mem_cons.mp h).resolve_left (Ne.symm hm))

theorem visitAll_next (w : Walk N E) (m : N) : m ∈ (steps.foldl (Walk.visit hop) w).next ↔
      m ∈ w.next ∨ w.depths[m]? = none ∧ m ∈ steps.map Prod.snd := by
  induction steps generalizing w with
  | nil => simp
  | cons step steps ih =>
    rw [foldl_cons, ih, map_cons, mem_cons]
    unfold Walk.visit
    cases hstep : w.depths[step.2]? with
    | some d =>
      have hne : w.depths[m]? = none → m ≠ step.2 := by
        rintro hnone rfl
        cases hstep.symm.trans hnone
      constructor
      · exact Or.imp_right fun ⟨hnone, hmem⟩ => ⟨hnone, .inr hmem⟩
      · exact Or.imp_right fun ⟨hnone, hmem⟩ => ⟨hnone, hmem.resolve_left (hne hnone)⟩
    | none =>
      simp only [mem_append, mem_singleton, get_insert]
      by_cases hm : m = step.2
      · simp [hm, hstep]
      · simp [hm, Ne.symm hm]

omit [Std.LawfulEqOrd N] [DecidableEq N] in
theorem visitAll_visited [Std.LawfulEqOrd E] [DecidableEq E] (w : Walk N E) (e : E) :
    (steps.foldl (Walk.visit hop) w).visited[e]? = some () ↔
      w.visited[e]? = some () ∨ e ∈ steps.map Prod.fst := by
  induction steps generalizing w with
  | nil => simp
  | cons step steps ih =>
    have hvisit : (w.visit hop step).visited = w.visited.insert step.1 () := by
      unfold Walk.visit
      cases w.depths[step.2]? <;> rfl
    rw [foldl_cons, ih, hvisit, get_insert, map_cons, mem_cons]
    by_cases he : step.1 = e
    · simp [he]
    · simp [he, Ne.symm he]

/-! ## Distances -/

section
omit [Ord N] [Std.TransOrd N] [Std.LawfulEqOrd N] [DecidableEq N] [Ord E] [Std.TransOrd E]

/-- The nodes within `d` hops of the start. -/
def ball (succ : N → List (E × N)) (start : N) : Nat → Set N
  | 0 => {start}
  | d + 1 => {m | m ∈ ball succ start d ∨ ∃ n ∈ ball succ start d, ∃ e, (e, m) ∈ succ n}

def AtDepth (succ : N → List (E × N)) (start : N) (d : Nat) (m : N) : Prop :=
  m ∈ ball succ start d ∧ ∀ d' < d, m ∉ ball succ start d'

variable {succ : N → List (E × N)} {start : N}

variable {succ' : N → List (E × N)} {d d' : Nat} {m : N} {P : N → Prop}

theorem ball_mono (h : d ≤ d') : ball succ start d ⊆ ball succ start d' := by
  induction h with
  | refl => exact subset_rfl
  | step _ ih => exact fun m hm => .inl (ih hm)

theorem mem_ball_iff {d : Nat} : m ∈ ball succ start d ↔ ∃ d' ≤ d, AtDepth succ start d' m := by
  classical
  constructor
  · intro hm
    have hex : ∃ d, m ∈ ball succ start d := ⟨d, hm⟩
    exact ⟨Nat.find hex, Nat.find_min' hex hm, Nat.find_spec hex, fun d' hd' => Nat.find_min hex hd'⟩
  · rintro ⟨d', hle, hm, -⟩
    exact ball_mono hle hm

theorem atDepth_zero_iff : AtDepth succ start 0 m ↔ m = start := by
  simp [AtDepth, ball]

theorem atDepth_succ_iff {d : Nat} : AtDepth succ start (d + 1) m ↔
    m ∉ ball succ start d ∧ ∃ n, AtDepth succ start d n ∧ ∃ e, (e, m) ∈ succ n := by
  constructor
  · rintro ⟨hm, hfar⟩
    have hout : m ∉ ball succ start d := hfar d (Nat.lt_succ_self d)
    obtain ⟨n, hn, e, he⟩ := hm.resolve_left hout
    refine ⟨hout, n, ⟨hn, fun d' hd' hn' => ?_⟩, e, he⟩
    -- a predecessor met earlier would have led to `m` earlier
    exact hout (ball_mono (Nat.succ_le_of_lt hd') (.inr ⟨n, hn', e, he⟩))
  · rintro ⟨hout, n, ⟨hn, -⟩, e, he⟩
    exact ⟨.inr ⟨n, hn, e, he⟩, fun d' hd' hm => hout (ball_mono (Nat.le_of_lt_succ hd') hm)⟩

theorem AtDepth.unique (h : AtDepth succ start d m) (h' : AtDepth succ start d' m) : d = d' := by
  rcases lt_trichotomy d d' with hlt | heq | hlt
  · exact absurd h.1 (h'.2 d hlt)
  · exact heq
  · exact absurd h'.1 (h.2 d' hlt)

theorem not_atDepth_of_empty (h : ∀ m, ¬AtDepth succ start d m) (hle : d ≤ d') (m : N) :
    ¬AtDepth succ start d' m := by
  induction hle generalizing m with
  | refl => exact h m
  | step _ ih =>
    intro hm
    obtain ⟨-, n, hn, -⟩ := atDepth_succ_iff.mp hm
    exact ih n hn

/-- `m` is the end of a path of `k` steps from the start. -/
inductive Hops (step : N → N → Prop) (start : N) : Nat → N → Prop
  | nil : Hops step start 0 start
  | snoc {k : Nat} {n m : N} (h : Hops step start k n) (hstep : step n m) : Hops step start (k + 1) m

section
variable {step : N → N → Prop}

variable {m : N}

theorem Hops.mem_ball (hstep : ∀ n m, step n m → ∃ e, (e, m) ∈ succ n) {k : Nat}
    (h : Hops step start k m) : m ∈ ball succ start k := by
  induction h with
  | nil => exact rfl
  | snoc _ hs ih => exact .inr ⟨_, ih, hstep _ _ hs⟩

theorem AtDepth.hops (hstep : ∀ n m e, (e, m) ∈ succ n → step n m) {d : Nat}
    (h : AtDepth succ start d m) : Hops step start d m := by
  induction d generalizing m with
  | zero =>
    cases atDepth_zero_iff.mp h
    exact .nil
  | succ d ih =>
    obtain ⟨-, n, hn, e, he⟩ := atDepth_succ_iff.mp h
    exact (ih hn).snoc (hstep n m e he)

theorem atDepth_iff_isLeast (hstep : ∀ n m, step n m ↔ ∃ e, (e, m) ∈ succ n) {d : Nat} :
    AtDepth succ start d m ↔ IsLeast {k | Hops step start k m} d := by
  have hball : ∀ {k m}, Hops step start k m → m ∈ ball succ start k := fun h =>
    h.mem_ball fun n m => (hstep n m).mp
  have hhops : ∀ {k m}, AtDepth succ start k m → Hops step start k m := fun h =>
    h.hops fun n m e he => (hstep n m).mpr ⟨e, he⟩
  constructor
  · intro h
    exact ⟨hhops h, fun k hk => not_lt.mp fun hlt => h.2 k hlt (hball hk)⟩
  · rintro ⟨hd, hleast⟩
    refine ⟨hball hd, fun d' hd' hm => ?_⟩
    obtain ⟨k, hk, hdepth⟩ := mem_ball_iff.mp hm
    exact absurd (hleast (hhops hdepth)) (not_le.mpr (lt_of_le_of_lt hk hd'))

end

theorem ball_congr (hstart : P start) (hclosed : ∀ n, P n → ∀ e m, (e, m) ∈ succ n → P m)
    (hsame : ∀ n, P n → ∀ step, step ∈ succ n ↔ step ∈ succ' n) (d : Nat) :
    ball succ start d = ball succ' start d ∧ ∀ m ∈ ball succ start d, P m := by
  induction d with
  | zero =>
    refine ⟨rfl, ?_⟩
    rintro m rfl
    exact hstart
  | succ d ih =>
    obtain ⟨heq, hP⟩ := ih
    constructor
    · ext m
      simp only [ball, Set.mem_ofPred_eq, ← heq]
      refine or_congr_right (exists_congr fun n => and_congr_right fun hn => ?_)
      exact exists_congr fun e => hsame n (hP n hn) (e, m)
    · rintro m (hm | ⟨n, hn, e, he⟩)
      · exact hP m hm
      · exact hclosed n (hP n hn) e m he

theorem atDepth_congr (hstart : P start) (hclosed : ∀ n, P n → ∀ e m, (e, m) ∈ succ n → P m)
    (hsame : ∀ n, P n → ∀ step, step ∈ succ n ↔ step ∈ succ' n) (d : Nat) (m : N) :
    AtDepth succ start d m ↔ AtDepth succ' start d m := by
  have hball := fun d => (ball_congr hstart hclosed hsame d).1
  simp only [AtDepth, hball]

end

/-! ## What the search records -/

section
variable [Std.LawfulEqOrd E] [DecidableEq E]

structure Explored (succ : N → List (E × N)) (start : N) (hop : Nat) (w : Walk N E) : Prop where
  depths : ∀ (m : N) (d : Nat), w.depths[m]? = some d ↔ d ≤ hop ∧ AtDepth succ start d m
  visited : ∀ e : E, w.visited[e]? = some () ↔
    ∃ d < hop, ∃ n m, AtDepth succ start d n ∧ (e, m) ∈ succ n

variable {succ : N → List (E × N)} {start : N} {hop : Nat} {w : Walk N E}

omit [Std.LawfulEqOrd E] [DecidableEq E] in
theorem explored_init (succ : N → List (E × N)) (start : N) : Explored succ start 0 (Walk.init start) := by
  constructor
  · intro m d
    rw [Walk.init, get_insert]
    by_cases hm : start = m
    · subst hm
      simp only [if_true, Option.some.injEq, Nat.le_zero]
      constructor
      · rintro rfl
        exact ⟨rfl, atDepth_zero_iff.mpr rfl⟩
      · exact fun h => h.1.symm
    · simp only [hm, if_false, Nat.le_zero]
      constructor
      · intro h
        simp at h
      · rintro ⟨rfl, h⟩
        exact absurd (atDepth_zero_iff.mp h).symm hm
  · intro e
    simp [Walk.init]

omit [Std.LawfulEqOrd N] [DecidableEq N] [Std.LawfulEqOrd E] [DecidableEq E] in
theorem Explored.depths_eq_none_iff (h : Explored succ start hop w) (m : N) :
    w.depths[m]? = none ↔ m ∉ ball succ start hop := by
  rw [mem_ball_iff]
  constructor
  · rintro hnone ⟨d, hle, hd⟩
    cases hnone.symm.trans ((h.depths m d).mpr ⟨hle, hd⟩)
  · intro hout
    cases hd : w.depths[m]? with
    | none => rfl
    | some d => exact absurd ⟨d, (h.depths m d).mp hd⟩ hout

variable {frontier : List N}

theorem Explored.level (h : Explored succ start hop w)
    (hfrontier : ∀ m, m ∈ frontier ↔ AtDepth succ start hop m) :
    Explored succ start (hop + 1) (w.level succ hop frontier) ∧
      ∀ m, m ∈ (w.level succ hop frontier).next ↔ AtDepth succ start (hop + 1) m := by
  have hlevel : w.level succ hop frontier =
      (frontier.flatMap succ).foldl (Walk.visit hop) { w with next := [] } := by
    rw [Walk.level, foldl_flatMap]
  have hsnd : ∀ m, m ∈ (frontier.flatMap succ).map Prod.snd ↔
      ∃ n, AtDepth succ start hop n ∧ ∃ e, (e, m) ∈ succ n := by
    intro m
    simp only [mem_map, mem_flatMap, hfrontier, Prod.exists, exists_eq_right]
    exact ⟨fun ⟨e, n, hn, he⟩ => ⟨n, hn, e, he⟩, fun ⟨n, hn, e, he⟩ => ⟨e, n, hn, he⟩⟩
  have hfst : ∀ e, e ∈ (frontier.flatMap succ).map Prod.fst ↔
      ∃ n m, AtDepth succ start hop n ∧ (e, m) ∈ succ n := by
    intro e
    simp only [mem_map, mem_flatMap, hfrontier, Prod.exists, exists_and_right,
      exists_eq_right]
    exact ⟨fun ⟨m, n, hn, he⟩ => ⟨n, m, hn, he⟩, fun ⟨n, m, hn, he⟩ => ⟨m, n, hn, he⟩⟩
  rw [hlevel]
  refine ⟨⟨fun m d => ?_, fun e => ?_⟩, fun m => ?_⟩
  · cases hm : w.depths[m]? with
    | some d₀ =>
      rw [visitAll_depths_of_some (w := { w with next := [] }) _ hm]
      obtain ⟨hle, hat⟩ := (h.depths m d₀).mp hm
      constructor
      · rintro ⟨⟩
        exact ⟨Nat.le_succ_of_le hle, hat⟩
      · exact fun hd => congrArg some (hat.unique hd.2)
    | none =>
      have hout := (h.depths_eq_none_iff m).mp hm
      rw [visitAll_depths_of_none (w := { w with next := [] }) _ hm]
      constructor
      · intro hd
        split at hd
        · next hex =>
          cases hd
          exact ⟨le_refl _, atDepth_succ_iff.mpr ⟨hout, (hsnd m).mp hex⟩⟩
        · cases hd
      · rintro ⟨hle, hat⟩
        -- a node outside the ball of `hop` hops can only be at the next depth
        have hd : d = hop + 1 := by
          rcases Nat.lt_or_ge d (hop + 1) with hlt | hge
          · exact absurd (mem_ball_iff.mpr ⟨d, Nat.le_of_lt_succ hlt, hat⟩) hout
          · exact le_antisymm hle hge
        subst hd
        exact if_pos ((hsnd m).mpr (atDepth_succ_iff.mp hat).2)
  · rw [visitAll_visited, hfst, h.visited]
    constructor
    · rintro (⟨d, hd, hex⟩ | hex)
      · exact ⟨d, Nat.lt_succ_of_lt hd, hex⟩
      · exact ⟨hop, Nat.lt_succ_self hop, hex⟩
    · rintro ⟨d, hd, hex⟩
      rcases Nat.lt_succ_iff_lt_or_eq.mp hd with hlt | rfl
      · exact .inl ⟨d, hlt, hex⟩
      · exact .inr hex
  · rw [visitAll_next, hsnd, atDepth_succ_iff, h.depths_eq_none_iff]
    simp

theorem Explored.bfs (k : Nat) (h : Explored succ start hop w)
    (hfrontier : ∀ m, m ∈ frontier ↔ AtDepth succ start hop m) :
    Explored succ start (hop + k) (Lib.bfs succ k hop frontier w) := by
  induction k generalizing hop w frontier with
  | zero => exact h
  | succ k ih =>
    unfold Lib.bfs
    split
    · next hempty =>
      have hnone : ∀ m, ¬AtDepth succ start hop m := fun m hm => by
        rw [← hfrontier, isEmpty_iff.mp hempty] at hm
        cases hm
      constructor
      · intro m d
        rw [h.depths]
        constructor
        · exact fun hd => ⟨Nat.le_add_right_of_le hd.1, hd.2⟩
        · rintro ⟨-, hd⟩
          exact ⟨Nat.le_of_not_le fun hle => not_atDepth_of_empty hnone hle m hd, hd⟩
      · intro e
        rw [h.visited]
        constructor
        · rintro ⟨d, hd, hex⟩
          exact ⟨d, Nat.lt_add_right _ hd, hex⟩
        · rintro ⟨d, -, n, m, hn, he⟩
          exact ⟨d, Nat.lt_of_not_le fun hle => not_atDepth_of_empty hnone hle n hn, n, m, hn, he⟩
    · obtain ⟨hnext, hfrontier'⟩ := h.level hfrontier
      rw [Nat.add_comm k 1, ← Nat.add_assoc]
      exact ih hnext hfrontier'

theorem explored_bfs (succ : N → List (E × N)) (start : N) (k : Nat) :
    Explored succ start k (bfs succ k 0 [start] (Walk.init start)) := by
  have hstart : ∀ m, m ∈ [start] ↔ AtDepth succ start 0 m := fun m => by
    rw [mem_singleton, atDepth_zero_iff]
  have h := (explored_init succ start).bfs k hstart
  rwa [Nat.zero_add] at h

theorem bfs_congr {succ' : N → List (E × N)} {P : N → Prop} (hstart : P start)
    (hclosed : ∀ n, P n → ∀ e m, (e, m) ∈ succ n → P m)
    (hsame : ∀ n, P n → ∀ step, step ∈ succ n ↔ step ∈ succ' n) (k : Nat) :
    (bfs succ k 0 [start] (Walk.init start)).depths =
        (bfs succ' k 0 [start] (Walk.init start)).depths ∧
      (bfs succ k 0 [start] (Walk.init start)).visited =
        (bfs succ' k 0 [start] (Walk.init start)).visited := by
  have h := explored_bfs succ start k
  have h' := explored_bfs succ' start k
  have hat := atDepth_congr hstart hclosed hsame
  constructor
  · refine Std.ExtTreeMap.ext_getElem? fun m => Option.ext fun d => ?_
    rw [h.depths, h'.depths, hat]
  · refine Std.ExtTreeMap.ext_getElem? fun e => Option.ext fun ⟨⟩ => ?_
    rw [h.visited, h'.visited]
    refine exists_congr fun d => and_congr_right fun _ => exists_congr fun n => exists_congr fun m => ?_
    rw [← hat]
    refine and_congr_right fun hn => hsame n ?_ (e, m)
    exact (ball_congr hstart hclosed hsame d).2 n hn.1

end

end

end Hyperion.Lib
