import Mathlib

/-!
# Forests given by child lists, and the explicit-stack walk over them

A graph is a function `children : K → List K`.
-/

namespace Hyperion.Lib

variable {K : Type*}

def Child (children : K → List K) (p c : K) : Prop := c ∈ children p

/-- Zero or more steps down. -/
abbrev Below (children : K → List K) : K → K → Prop := Relation.ReflTransGen (Child children)

/-- Child lists that form a forest. -/
structure Forest (children : K → List K) : Prop where
  nodup : ∀ p, (children p).Nodup
  parent_unique : ∀ p q c, c ∈ children p → c ∈ children q → p = q
  wf : WellFounded fun c p => c ∈ children p

/-! ## Chains of ancestors -/

namespace Forest

variable {children : K → List K} (F : Forest children)

include F in
theorem not_child_below {p c : K} (hc : c ∈ children p) : ¬ Below children c p := by
  induction p using F.wf.induction generalizing c with
  | _ p ih =>
    intro h
    rcases Relation.ReflTransGen.cases_head h with rfl | ⟨d, hd, hdp⟩
    · exact ih _ hc hc .refl
    · exact ih c hc hd (hdp.tail hc)

include F in
theorem below_or_below {a b x : K} (ha : Below children a x) (hb : Below children b x) :
    Below children a b ∨ Below children b a := by
  induction ha with
  | refl => exact Or.inr hb
  | @tail y z hay hyz ih =>
    rcases Relation.ReflTransGen.cases_tail hb with rfl | ⟨w, hbw, hwz⟩
    · exact Or.inl (hay.tail hyz)
    · have hwy : w = y := F.parent_unique w y z hwz hyz
      subst hwy
      exact ih hbw

/-! ## The nodes below a node, in stack order -/

/-- The nodes below `k`: `k`, then the trees of its children, the last child's first. -/
noncomputable def preorder : K → List K :=
  F.wf.fix fun k below => k :: (children k).reverse.attach.flatMap fun c =>
    below c.1 (List.mem_reverse.mp c.2)

theorem preorder_eq (k : K) : F.preorder k = k :: (children k).reverse.flatMap F.preorder := by
  rw [preorder, WellFounded.fix_eq]
  congr 1
  conv_rhs => rw [← List.attach_map_subtype_val (children k).reverse, List.flatMap_map]

theorem mem_preorder {k x : K} : x ∈ F.preorder k ↔ Below children k x := by
  induction k using F.wf.induction with
  | _ k ih =>
    rw [preorder_eq, List.mem_cons, List.mem_flatMap]
    constructor
    · rintro (rfl | ⟨c, hc, hx⟩)
      · exact .refl
      · have hck : c ∈ children k := List.mem_reverse.mp hc
        exact .head hck ((ih c hck).mp hx)
    · intro h
      rcases Relation.ReflTransGen.cases_head h with rfl | ⟨c, hc, hx⟩
      · exact Or.inl rfl
      · exact Or.inr ⟨c, List.mem_reverse.mpr hc, (ih c hc).mpr hx⟩

theorem disjoint_children {k c d : K} (hc : c ∈ children k) (hd : d ∈ children k) (hne : c ≠ d) :
    List.Disjoint (F.preorder c) (F.preorder d) := by
  intro x hxc hxd
  have hcx := F.mem_preorder.mp hxc
  have hdx := F.mem_preorder.mp hxd
  -- Whichever of the two is above the other, the lower one's parent `k` is below its own child.
  have key : ∀ {a b : K}, a ∈ children k → b ∈ children k → a ≠ b → ¬ Below children a b := by
    intro a b ha hb hab h
    rcases Relation.ReflTransGen.cases_tail h with rfl | ⟨w, haw, hwb⟩
    · exact hab rfl
    · have hwk : w = k := F.parent_unique w k b hwb hb
      subst hwk
      exact F.not_child_below ha haw
  rcases F.below_or_below hcx hdx with h | h
  · exact key hc hd hne h
  · exact key hd hc hne.symm h

theorem nodup_preorder (k : K) : (F.preorder k).Nodup := by
  induction k using F.wf.induction with
  | _ k ih =>
    rw [preorder_eq, List.nodup_cons]
    constructor
    · intro h
      obtain ⟨c, hc, hk⟩ := List.mem_flatMap.mp h
      exact F.not_child_below (List.mem_reverse.mp hc) (F.mem_preorder.mp hk)
    · rw [List.nodup_flatMap]
      refine ⟨fun c hc => ih c (List.mem_reverse.mp hc), ?_⟩
      have hnd : (children k).reverse.Nodup := List.nodup_reverse.mpr (F.nodup k)
      refine List.Pairwise.imp_of_mem ?_ hnd
      intro c d hc hd hne
      exact F.disjoint_children (List.mem_reverse.mp hc) (List.mem_reverse.mp hd) hne

theorem ncard_strictly_below (k : K) :
    Set.ncard {x | Below children k x ∧ x ≠ k} = (F.preorder k).length - 1 := by
  classical
  have hnd := F.nodup_preorder k
  rw [preorder_eq] at hnd ⊢
  obtain ⟨hk, hnd⟩ := List.nodup_cons.mp hnd
  have hset : {x | Below children k x ∧ x ≠ k} =
      (((children k).reverse.flatMap F.preorder).toFinset : Set K) := by
    ext x
    simp only [Set.mem_ofPred_eq, List.coe_toFinset, ← F.mem_preorder]
    rw [preorder_eq, List.mem_cons]
    constructor
    · rintro ⟨rfl | hx, hne⟩
      · exact absurd rfl hne
      · exact hx
    · intro hx
      exact ⟨Or.inr hx, fun hxk => hk (hxk ▸ hx)⟩
  rw [hset, Set.ncard_coe_finset, List.toFinset_card_of_nodup hnd, List.length_cons,
    Nat.add_sub_cancel]

theorem length_preorder_le {k : K} {nodes : List K} (h : ∀ x, Below children k x → x ∈ nodes) :
    (F.preorder k).length ≤ nodes.length :=
  ((F.nodup_preorder k).subperm fun _ hx => h _ (F.mem_preorder.mp hx)).length_le

end Forest

/-! ## The walk -/

/-- Pop a node, list it, push its children (the last child ends up on top). `none` when the fuel
runs out before the stack does. -/
def walk (children : K → List K) : Nat → List K → Option (List K)
  | _, [] => some []
  | 0, _ :: _ => none
  | fuel + 1, k :: stack => (k :: ·) <$> walk children fuel ((children k).reverse ++ stack)

/-- **The walk on a forest** pops exactly the nodes below its stack, each once per stack entry. -/
theorem walk_eq_preorder {children : K → List K} (F : Forest children) (fuel : Nat) (stack : List K)
    (h : (stack.flatMap F.preorder).length ≤ fuel) :
    walk children fuel stack = some (stack.flatMap F.preorder) := by
  induction fuel generalizing stack with
  | zero =>
    cases stack with
    | nil => rfl
    | cons k stack =>
      rw [List.flatMap_cons, F.preorder_eq] at h
      simp at h
  | succ fuel ih =>
    cases stack with
    | nil => rfl
    | cons k stack =>
      have hsplit : (k :: stack).flatMap F.preorder =
          k :: ((children k).reverse ++ stack).flatMap F.preorder := by
        rw [List.flatMap_cons, F.preorder_eq, List.flatMap_append, List.cons_append]
      rw [hsplit, List.length_cons] at h
      rw [walk, ih _ (Nat.le_of_succ_le_succ h), hsplit]
      rfl

end Hyperion.Lib
