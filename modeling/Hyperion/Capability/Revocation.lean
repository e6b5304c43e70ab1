import Hyperion.Lib.Forest
import Hyperion.Capability.Monitor

/-!
# The revocation graph is a forest, and `revoke` bumps exactly a subtree

Child lists mirror parent links, and the id of a child is larger than that of its parent and below the
counter. So the tokens below a token form a finite tree, which one revocation walks to its end.
-/

namespace Hyperion.Capability.RevocationGraph
open Lib RevocationNode
variable {g : RevocationGraph}

/-- `a` is `x` itself or on the chain that `parentOf` leads up from `x`. -/
def Above (g : RevocationGraph) (a x : TokenId) : Prop :=
  Relation.ReflTransGen (fun c p => g.parentOf c = some p) x a

def childrenOf (g : RevocationGraph) (id : TokenId) : List TokenId :=
  (g.nodes[id]?.map (·.children)).getD []

/-- The arena mirrors a forest whose ids grow downwards and stay below the counter. -/
structure WellFormed (g : RevocationGraph) (next : TokenId) : Prop where
  id_lt : ∀ id n, g.nodes[id]? = some n → id < next
  parent_lt : ∀ c p, g.parentOf c = some p → p < c
  child_of_parent : ∀ c p, g.parentOf c = some p → c ∈ g.childrenOf p
  parent_of_child : ∀ p c, c ∈ g.childrenOf p → g.parentOf c = some p
  children_nodup : ∀ p, (g.childrenOf p).Nodup

variable {next : TokenId} {c p : TokenId} {id : TokenId}

theorem mem_nodes_of_parentOf (h : g.parentOf c = some p) :
    ∃ n, g.nodes[c]? = some n ∧ n.parent = some p := by
  cases hc : g.nodes[c]? with
  | none => simp [parentOf, hc] at h
  | some n => exact ⟨n, rfl, by simpa [parentOf, hc] using h⟩

namespace WellFormed

variable {g : RevocationGraph} {next : TokenId} (W : WellFormed g next)
include W

variable {a x : TokenId} {p c : TokenId}

theorem mem_childrenOf : c ∈ g.childrenOf p ↔ g.parentOf c = some p :=
  ⟨W.parent_of_child p c, W.child_of_parent c p⟩

theorem child_gt (h : c ∈ g.childrenOf p) : p < c ∧ c < next := by
  have hp := W.parent_of_child p c h
  obtain ⟨n, hn, -⟩ := mem_nodes_of_parentOf hp
  exact ⟨W.parent_lt c p hp, W.id_lt c n hn⟩

theorem forest : Forest g.childrenOf where
  nodup := W.children_nodup
  parent_unique p q c hp hq := by
    have h := W.parent_of_child p c hp
    rw [W.parent_of_child q c hq] at h
    exact (Option.some.inj h).symm
  wf := by
    refine Subrelation.wf ?_ (measure fun id => next - id).wf
    intro c p hc
    obtain ⟨hpc, hcn⟩ := W.child_gt hc
    exact Nat.sub_lt_sub_left (lt_trans hpc hcn) hpc

theorem below_iff_above : Below g.childrenOf a x ↔ g.Above a x := by
  have hstep : Function.swap (Child g.childrenOf) = fun c p => g.parentOf c = some p := by
    funext c p
    exact propext W.mem_childrenOf
  rw [Above, ← hstep, Relation.reflTransGen_swap]

theorem mem_of_below (ha : a ∈ g.nodes) (h : Below g.childrenOf a x) : x ∈ g.nodes := by
  rcases Relation.ReflTransGen.cases_tail h with rfl | ⟨p, -, hx⟩
  · exact ha
  · obtain ⟨n, hn, -⟩ := mem_nodes_of_parentOf (W.parent_of_child p x hx)
    rw [Std.ExtTreeMap.mem_iff_isSome_getElem?, hn]
    rfl

theorem above_le (h : g.Above a x) : a ≤ x := by
  induction h with
  | refl => exact le_refl _
  | tail _ hstep ih => exact le_trans (le_of_lt (W.parent_lt _ _ hstep)) ih

theorem not_above_ancestor (h : g.Above a x) (hne : a ≠ x) : ¬ g.Above x a :=
  fun h' => hne (le_antisymm (W.above_le h) (W.above_le h'))

theorem not_above_sibling {x y : TokenId} (h : g.parentOf x = g.parentOf y) (hne : x ≠ y) :
    ¬ g.Above x y := by
  intro habove
  rcases Relation.ReflTransGen.cases_head habove with heq | ⟨q, hq, hxq⟩
  · exact hne heq.symm
  · have hqx : q < x := W.parent_lt x q (h.trans hq)
    exact absurd (W.above_le hxq) (not_le_of_gt hqx)

end WellFormed

/-! ## Bumping one node -/

/-- The update of one turn of the revocation loop. -/
def bumpAt (g : RevocationGraph) (id : TokenId) : RevocationGraph :=
  ⟨g.nodes.modify id RevocationNode.bump⟩

theorem get_bumpAt (g : RevocationGraph) (id x : TokenId) :
    (g.bumpAt id).nodes[x]? = if id = x then g.nodes[x]?.map bump else g.nodes[x]? :=
  HashMap.get_modify _ _ _ _

theorem mem_bumpAt (g : RevocationGraph) (id x : TokenId) : x ∈ (g.bumpAt id).nodes ↔ x ∈ g.nodes :=
  Std.ExtTreeMap.mem_modify

@[simp] theorem childrenOf_bumpAt (g : RevocationGraph) (id : TokenId) :
    (g.bumpAt id).childrenOf = g.childrenOf := by
  funext x
  rw [childrenOf, childrenOf, get_bumpAt]
  split
  · cases g.nodes[x]? <;> rfl
  · rfl

theorem insert_bump_eq_bumpAt {n : RevocationNode} (h : g.nodes[id]? = some n) :
    (⟨g.nodes.insert id n.bump⟩ : RevocationGraph) = g.bumpAt id := by
  rw [bumpAt, RevocationGraph.mk.injEq]
  apply Std.ExtTreeMap.ext_getElem?
  intro x
  rw [HashMap.get_insert, HashMap.get_modify]
  by_cases hx : id = x
  · subst hx
    simp [h]
  · simp [hx]

theorem get_foldl_bumpAt {ids : List TokenId} (hnd : ids.Nodup) (g : RevocationGraph) (x : TokenId) :
    (ids.foldl bumpAt g).nodes[x]? =
      if x ∈ ids then g.nodes[x]?.map bump else g.nodes[x]? := by
  induction ids generalizing g with
  | nil => simp
  | cons id ids ih =>
    obtain ⟨hid, hnd⟩ := List.nodup_cons.mp hnd
    rw [List.foldl_cons, ih hnd, get_bumpAt]
    by_cases hx : id = x
    · subst hx
      simp [hid]
    · have hx' : x ≠ id := fun h => hx h.symm
      simp [hx, hx']

/-! ## The loop -/

theorem revokeLoop_eq (fuel : Nat) : ∀ (g : RevocationGraph) (stack popped : List TokenId)
    (descendants : Nat), walk g.childrenOf fuel stack = some popped → (∀ x ∈ popped, x ∈ g.nodes) →
    revokeLoop fuel g stack descendants false =
      some (popped.foldl bumpAt g, descendants + popped.length) := by
  induction fuel with
  | zero =>
    intro g stack popped descendants hw _
    cases stack with
    | nil =>
      cases hw
      simp [revokeLoop]
    | cons id stack => simp [walk] at hw
  | succ fuel ih =>
    intro g stack popped descendants hw hmem
    cases stack with
    | nil =>
      cases hw
      simp [revokeLoop]
    | cons id stack =>
      rw [walk, Option.map_eq_map, Option.map_eq_some_iff] at hw
      obtain ⟨popped, hw, rfl⟩ := hw
      have hid : id ∈ g.nodes := hmem id List.mem_cons_self
      cases hn : g.nodes[id]? with
      | none => simp [Std.ExtTreeMap.mem_iff_isSome_getElem?, hn] at hid
      | some n =>
        have hkids : g.childrenOf id = n.children := by simp [childrenOf, hn]
        have hrest : ∀ x ∈ popped, x ∈ (g.bumpAt id).nodes := by
          intro x hx
          rw [mem_bumpAt]
          exact hmem x (List.mem_cons_of_mem _ hx)
        rw [revokeLoop, hn]
        simp only [insert_bump_eq_bumpAt hn]
        rw [← hkids, ih (g.bumpAt id) _ popped _ (by rw [childrenOf_bumpAt]; exact hw) hrest]
        simp [Nat.add_assoc, Nat.add_comm 1]

theorem revoke_of_not_mem (h : g.nodes[id]? = none) : g.revoke id = some (g, ⟨id, 0⟩) := by
  simp [revoke, revokeLoop, h]

/-- **`revoke` on a well-formed graph.** It returns; it bumps the nodes that have `id` above them;
the receipt counts those strictly below `id`. -/
theorem revoke_spec (W : WellFormed g next) (id : TokenId) :
    ∃ g', g.revoke id = some (g', ⟨id, Set.ncard {x | g.Above id x ∧ x ≠ id}⟩) ∧
      (∀ x, g.Above id x → g'.nodes[x]? = g.nodes[x]?.map bump) ∧
      ∀ x, ¬ g.Above id x → g'.nodes[x]? = g.nodes[x]? := by
  have F := W.forest
  have hcount : Set.ncard {x | g.Above id x ∧ x ≠ id} = (F.preorder id).length - 1 := by
    rw [← F.ncard_strictly_below]
    congr 1
    ext x
    simp only [Set.mem_ofPred_eq, W.below_iff_above]
  cases hn : g.nodes[id]? with
  | none =>
    have hkids : g.childrenOf id = [] := by simp [childrenOf, hn]
    have hpre : F.preorder id = [id] := by
      rw [F.preorder_eq, hkids]
      rfl
    refine ⟨g, ?_, fun x hx => ?_, fun _ _ => rfl⟩
    · rw [revoke_of_not_mem hn, hcount, hpre]
      rfl
    · have hx := F.mem_preorder.mpr (W.below_iff_above.mpr hx)
      rw [hpre, List.mem_singleton] at hx
      rw [hx, hn]
      rfl
  | some n =>
    have hid : id ∈ g.nodes := by simp [Std.ExtTreeMap.mem_iff_isSome_getElem?, hn]
    have hkids : g.childrenOf id = n.children := by simp [childrenOf, hn]
    have hmem : ∀ x ∈ F.preorder id, x ∈ g.nodes :=
      fun x hx => W.mem_of_below hid (F.mem_preorder.mp hx)
    have hlen : (F.preorder id).length ≤ g.nodes.size := by
      rw [← Std.ExtTreeMap.length_keys]
      apply F.length_preorder_le
      intro x hx
      exact Std.ExtTreeMap.mem_keys.mpr (W.mem_of_below hid hx)
    have hpre := F.preorder_eq id
    have htail : ((g.childrenOf id).reverse.flatMap F.preorder).length = (F.preorder id).length - 1 := by
      rw [hpre, List.length_cons, Nat.add_sub_cancel]
    refine ⟨(F.preorder id).foldl bumpAt g, ?_, fun x hx => ?_, fun x hx => ?_⟩
    · have hwalk : walk (g.bumpAt id).childrenOf g.nodes.size ((g.childrenOf id).reverse ++ []) =
          some ((g.childrenOf id).reverse.flatMap F.preorder) := by
        rw [childrenOf_bumpAt, List.append_nil]
        exact walk_eq_preorder F _ _ (by omega)
      have hrest : ∀ x ∈ (g.childrenOf id).reverse.flatMap F.preorder, x ∈ (g.bumpAt id).nodes := by
        intro x hx
        rw [mem_bumpAt]
        exact hmem x (by rw [hpre]; exact List.mem_cons_of_mem _ hx)
      rw [revoke, revokeLoop, hn]
      simp only [insert_bump_eq_bumpAt hn, if_true]
      rw [← hkids, revokeLoop_eq _ _ _ _ _ hwalk hrest, hcount, ← htail, Nat.zero_add,
        Option.map_some]
      conv_rhs => rw [hpre, List.foldl_cons]
    · rw [get_foldl_bumpAt (F.nodup_preorder id),
        if_pos (F.mem_preorder.mpr (W.below_iff_above.mpr hx))]
    · rw [get_foldl_bumpAt (F.nodup_preorder id),
        if_neg fun h => hx (W.below_iff_above.mp (F.mem_preorder.mp h))]

/-! ## New nodes -/

theorem WellFormed.congr {g g' : RevocationGraph} (W : WellFormed g next)
    (hkids : g'.childrenOf = g.childrenOf) (hpar : g'.parentOf = g.parentOf)
    (hdom : ∀ x : TokenId, g'.nodes[x]? = none ↔ g.nodes[x]? = none) : WellFormed g' next where
  id_lt id n h := by
    cases hg : g.nodes[id]? with
    | none => simp [(hdom id).mpr hg] at h
    | some m => exact W.id_lt id m hg
  parent_lt := hpar ▸ W.parent_lt
  child_of_parent := by rw [hkids, hpar]; exact W.child_of_parent
  parent_of_child := by rw [hkids, hpar]; exact W.parent_of_child
  children_nodup := hkids ▸ W.children_nodup

theorem WellFormed.mono {next next' : TokenId} (W : WellFormed g next)
    (h : next ≤ next') : WellFormed g next' :=
  { W with id_lt := fun id n hn => lt_of_lt_of_le (W.id_lt id n hn) h }

theorem wellFormed_empty (next : TokenId) : WellFormed empty next := by
  constructor <;> simp [empty, childrenOf, parentOf]

theorem WellFormed.fresh (W : WellFormed g next) : g.nodes[next]? = none := by
  cases h : g.nodes[next]? with
  | none => rfl
  | some n => exact absurd (W.id_lt next n h) (lt_irrefl _)

theorem WellFormed.parent_ne_next (W : WellFormed g next) (h : g.parentOf c = some p) : p ≠ next := by
  obtain ⟨n, hn, -⟩ := mem_nodes_of_parentOf h
  have hpc := W.parent_lt c p h
  have hcn := W.id_lt c n hn
  exact ne_of_lt (lt_trans hpc hcn)

section Insert
variable {g : RevocationGraph} {next : TokenId} (W : WellFormed g next) (objectId : ObjectId)
  (rights : RightsMask)

theorem get_insertRoot (x : TokenId) : (g.insertRoot next objectId rights).nodes[x]? =
    if next = x then some { parent := none, children := [], liveGeneration := 0,
                            objectId := objectId, rights := rights } else g.nodes[x]? :=
  HashMap.get_insert _ _ _ _

include W in
theorem parentOf_insertRoot : (g.insertRoot next objectId rights).parentOf = g.parentOf := by
  funext c
  rw [parentOf, parentOf, get_insertRoot]
  split
  · next h => subst h; simp [W.fresh]
  · rfl

include W in
theorem childrenOf_insertRoot : (g.insertRoot next objectId rights).childrenOf = g.childrenOf := by
  funext p
  rw [childrenOf, childrenOf, get_insertRoot]
  split
  · next h => subst h; simp [W.fresh]
  · rfl

include W in
theorem wellFormed_insertRoot : WellFormed (g.insertRoot next objectId rights) (next + 1) where
  id_lt id n h := by
    rw [get_insertRoot] at h
    split at h
    · next he => exact he ▸ Nat.lt_succ_self _
    · exact Nat.lt_succ_of_lt (W.id_lt id n h)
  parent_lt := by rw [parentOf_insertRoot W]; exact W.parent_lt
  child_of_parent := by
    rw [parentOf_insertRoot W, childrenOf_insertRoot W]; exact W.child_of_parent
  parent_of_child := by
    rw [parentOf_insertRoot W, childrenOf_insertRoot W]; exact W.parent_of_child
  children_nodup := by rw [childrenOf_insertRoot W]; exact W.children_nodup

variable {parent : TokenId} (hp : parent ∈ g.nodes)

include W hp in
theorem parent_lt_next : parent < next := by
  rw [Std.ExtTreeMap.mem_iff_isSome_getElem?, Option.isSome_iff_exists] at hp
  obtain ⟨n, hn⟩ := hp
  exact W.id_lt parent n hn

theorem get_insertChild (x : TokenId) : (g.insertChild parent next objectId rights).nodes[x]? =
    if next = x then some { parent := some parent, children := [], liveGeneration := 0,
                            objectId := objectId, rights := rights }
    else if parent = x then g.nodes[x]?.map fun n => { n with children := n.children ++ [next] }
    else g.nodes[x]? := by
  rw [insertChild, HashMap.get_insert, HashMap.get_modify]

theorem parentOf_insertChild (c : TokenId) : (g.insertChild parent next objectId rights).parentOf c =
    if next = c then some parent else g.parentOf c := by
  rw [parentOf, parentOf, get_insertChild]
  split
  · rfl
  · split
    · cases g.nodes[c]? <;> rfl
    · rfl

include W hp in
theorem childrenOf_insertChild (p : TokenId) : (g.insertChild parent next objectId rights).childrenOf p =
      if parent = p then g.childrenOf p ++ [next] else g.childrenOf p := by
  have hlt := parent_lt_next W hp
  rw [childrenOf, childrenOf, get_insertChild]
  by_cases hnp : next = p
  · subst hnp
    simp [W.fresh, ne_of_lt hlt]
  · by_cases hpp : parent = p
    · subst hpp
      rw [Std.ExtTreeMap.mem_iff_isSome_getElem?, Option.isSome_iff_exists] at hp
      obtain ⟨n, hn⟩ := hp
      simp [hnp, hn]
    · simp [hnp, hpp]

include W hp in
theorem wellFormed_insertChild : WellFormed (g.insertChild parent next objectId rights) (next + 1) where
  id_lt id n h := by
    rw [get_insertChild] at h
    by_cases hid : next = id
    · exact hid ▸ Nat.lt_succ_self _
    · rw [if_neg hid] at h
      cases hg : g.nodes[id]? with
      | none => simp [hg] at h
      | some m => exact Nat.lt_succ_of_lt (W.id_lt id m hg)
  parent_lt c p h := by
    rw [parentOf_insertChild] at h
    split at h
    · next he =>
      cases h
      exact he ▸ parent_lt_next W hp
    · exact W.parent_lt c p h
  child_of_parent c p h := by
    rw [parentOf_insertChild] at h
    rw [childrenOf_insertChild W objectId rights hp]
    split at h
    · next he =>
      cases h
      simp [he]
    · have := W.child_of_parent c p h
      split
      · exact List.mem_append_left _ this
      · exact this
  parent_of_child p c h := by
    rw [childrenOf_insertChild W objectId rights hp] at h
    rw [parentOf_insertChild]
    have hold : c ∈ g.childrenOf p → (if next = c then some parent else g.parentOf c) = some p := by
      intro hc
      have hlt := (W.child_gt hc).2
      rw [if_neg (ne_of_gt hlt), W.parent_of_child p c hc]
    split at h
    · next he =>
      rcases List.mem_append.mp h with hc | hc
      · exact hold hc
      · rw [List.mem_singleton] at hc
        rw [if_pos hc.symm, he]
    · exact hold h
  children_nodup p := by
    rw [childrenOf_insertChild W objectId rights hp]
    split
    · refine (W.children_nodup p).append (List.nodup_singleton _) ?_
      intro c hc hc'
      rw [List.mem_singleton] at hc'
      exact absurd (W.child_gt hc).2 (hc' ▸ lt_irrefl _)
    · exact W.children_nodup p

include W in
theorem above_insertChild {parent a x : TokenId} (hx : x ≠ next) :
    (g.insertChild parent next objectId rights).Above a x ↔ g.Above a x := by
  -- From a node that is not the new one, both graphs step to the same parent, never to the new one.
  have hstep : ∀ c ≠ next, ∀ p, (g.insertChild parent next objectId rights).parentOf c = some p ↔
      g.parentOf c = some p := by
    intro c hc p
    rw [parentOf_insertChild, if_neg hc.symm]
  constructor
  · intro h
    induction h using Relation.ReflTransGen.head_induction_on with
    | refl => exact .refl
    | head hcp _ ih =>
      have hcp := (hstep _ hx _).mp hcp
      exact .head hcp (ih (W.parent_ne_next hcp))
  · intro h
    induction h using Relation.ReflTransGen.head_induction_on with
    | refl => exact .refl
    | head hcp _ ih => exact .head ((hstep _ hx _).mpr hcp) (ih (W.parent_ne_next hcp))

end Insert

theorem above_congr {g g' : RevocationGraph} (h : g'.parentOf = g.parentOf) : g'.Above = g.Above := by
  funext a x
  rw [Above, Above, h]

theorem revoke_links {g g' : RevocationGraph}
    (h : ∀ x : TokenId, g'.nodes[x]? = g.nodes[x]?.map bump ∨ g'.nodes[x]? = g.nodes[x]?) :
    g'.childrenOf = g.childrenOf ∧ g'.parentOf = g.parentOf ∧
      ∀ x : TokenId, g'.nodes[x]? = none ↔ g.nodes[x]? = none := by
  refine ⟨?_, ?_, fun x => ?_⟩
  · funext x
    rcases h x with h | h <;> simp only [childrenOf, h]
    cases g.nodes[x]? <;> rfl
  · funext x
    rcases h x with h | h <;> simp only [parentOf, h]
    cases g.nodes[x]? <;> rfl
  · rcases h x with h | h <;> simp [h]

end Hyperion.Capability.RevocationGraph
