import Mathlib.Data.List.Nodup
import Mathlib.Order.WellFounded

/-!
# Preorder walks of a forest

A forest is given by the children of each node, in order, where no walk downwards goes on for ever
(`wf`).  `preorder wf a` lists the tree under `a`, every node before the trees of its children.

* `mem_preorder`: the tree under a node is what can be reached from it;
* `nodup_preorder`, `nodup_flatMap_preorder`: with one parent for each node, a walk meets no node
  twice;
* `preorder_segment`: the tree under a node of the walk is a segment of the walk, and so
  (`mem_segment_iff`) a range of its indices;
* `stackWalk_eq`: walking with a stack lists the same trees, the children from last to first.
-/

namespace Forest

open Relation List

variable {α : Type*} {children : α → List α}

/-- The node `b` is a child of `a`. -/
def IsChild (children : α → List α) (a b : α) : Prop := b ∈ children a

/-- The tree under a node, from its root on. -/
noncomputable def preorder (wf : WellFounded fun b a => IsChild children a b) (a : α) : List α :=
  wf.fix (fun a walk => a :: (children a).attach.flatMap fun b => walk b.1 b.2) a

variable (wf : WellFounded fun b a => IsChild children a b)

theorem preorder_eq (a : α) : preorder wf a = a :: (children a).flatMap (preorder wf) := by
  rw [preorder, wf.fix_eq]
  show a :: (children a).attach.flatMap (fun b => preorder wf b.1) = _
  rw [← flatMap_map, List.attach_map_subtype_val]

theorem self_mem_preorder (a : α) : a ∈ preorder wf a := by
  rw [preorder_eq]
  exact mem_cons_self

theorem reaches_iff {a x : α} :
    ReflTransGen (IsChild children) a x ↔
      x = a ∨ ∃ b ∈ children a, ReflTransGen (IsChild children) b x := by
  rw [ReflTransGen.cases_head_iff]
  exact or_congr eq_comm Iff.rfl

theorem mem_preorder {a x : α} :
    x ∈ preorder wf a ↔ ReflTransGen (IsChild children) a x := by
  induction a using wf.induction with
  | _ a ih =>
    rw [preorder_eq, mem_cons, mem_flatMap, reaches_iff]
    refine or_congr Iff.rfl (exists_congr fun b => ?_)
    exact and_congr_right fun hb => ih b hb

theorem not_reaches_parent (wf : WellFounded fun b a => IsChild children a b) {a b : α} (hb : b ∈ children a) :
    ¬ ReflTransGen (IsChild children) b a := by
  intro h
  have hcycle : TransGen (fun b a => IsChild children a b) a a :=
    TransGen.tail' (reflTransGen_swap.mpr h) hb
  exact wf.transGen.irrefl.irrefl a hcycle

/-! ### One parent for each node -/

section UniqueParents

variable (hparent : ∀ ⦃a b c⦄, IsChild children a c → IsChild children b c → a = b)
  (hchildren : ∀ a, (children a).Nodup)
include hparent

theorem reaches_total {a b x : α} (ha : ReflTransGen (IsChild children) a x)
    (hb : ReflTransGen (IsChild children) b x) :
    ReflTransGen (IsChild children) a b ∨ ReflTransGen (IsChild children) b a := by
  have hunique : Relator.RightUnique (Function.swap (IsChild children)) :=
    fun _ _ _ h h' => hparent h h'
  rcases ReflTransGen.total_of_right_unique hunique (reflTransGen_swap.mpr ha)
    (reflTransGen_swap.mpr hb) with h | h
  · exact .inr (reflTransGen_swap.mp h)
  · exact .inl (reflTransGen_swap.mp h)

theorem reaches_parent {a b x : α} (hb : b ∈ children a)
    (h : ReflTransGen (IsChild children) x b) :
    x = b ∨ ReflTransGen (IsChild children) x a := by
  rcases ReflTransGen.cases_tail h with heq | ⟨c, hxc, hcb⟩
  · exact .inl heq.symm
  · rw [hparent hcb hb] at hxc
    exact .inr hxc

theorem disjoint_siblings {a b c : α} (hb : b ∈ children a) (hc : c ∈ children a) (hne : b ≠ c) :
    List.Disjoint (preorder wf b) (preorder wf c) := by
  have hnone : ∀ {b c}, b ∈ children a → c ∈ children a → b ≠ c →
      ¬ ReflTransGen (IsChild children) b c := by
    intro b c hb hc hne h
    rcases reaches_parent hparent hc h with heq | hup
    · exact hne heq
    · exact not_reaches_parent wf hb hup
  intro x hxb hxc
  rcases reaches_total hparent ((mem_preorder wf).mp hxb) ((mem_preorder wf).mp hxc) with h | h
  · exact hnone hb hc hne h
  · exact hnone hc hb hne.symm h

include hchildren

theorem nodup_preorder (a : α) : (preorder wf a).Nodup := by
  induction a using wf.induction with
  | _ a ih =>
    rw [preorder_eq, nodup_cons]
    constructor
    · intro h
      obtain ⟨b, hb, ha⟩ := mem_flatMap.mp h
      exact not_reaches_parent wf hb ((mem_preorder wf).mp ha)
    · refine nodup_flatMap.mpr ⟨fun b hb => ih b hb, ?_⟩
      refine (hchildren a).imp_of_mem fun hb hc hne => ?_
      exact disjoint_siblings wf hparent hb hc hne

theorem nodup_flatMap_preorder {roots : List α} (hroots : roots.Nodup)
    (hroot : ∀ r ∈ roots, ∀ a, ¬ IsChild children a r) :
    (roots.flatMap (preorder wf)).Nodup := by
  have hnone : ∀ {r s}, s ∈ roots → ReflTransGen (IsChild children) r s → r = s := by
    intro r s hs h
    rcases ReflTransGen.cases_tail h with heq | ⟨c, -, hcs⟩
    · exact heq.symm
    · exact absurd hcs (hroot s hs c)
  refine nodup_flatMap.mpr ⟨fun r _ => nodup_preorder wf hparent hchildren r, ?_⟩
  refine hroots.imp_of_mem fun hr hs hne => ?_
  intro x hxr hxs
  rcases reaches_total hparent ((mem_preorder wf).mp hxr) ((mem_preorder wf).mp hxs) with h | h
  · exact hne (hnone hs h)
  · exact hne (hnone hr h).symm

end UniqueParents

/-! ### Segments -/

theorem preorder_segment {a x : α} (h : ReflTransGen (IsChild children) a x) :
    preorder wf x <:+: preorder wf a := by
  induction h using ReflTransGen.head_induction_on with
  | refl => exact infix_rfl
  | @head a _ hb _ ih =>
    rw [preorder_eq wf a]
    exact (ih.trans (infix_flatMap_of_mem hb _)).trans (suffix_cons _ _).isInfix

section Segments

variable [DecidableEq α] {walk segment : List α} {a x : α}

theorem idxOf_segment {before after : List α} (hwalk : (before ++ (a :: segment ++ after)).Nodup) :
    (before ++ (a :: segment ++ after)).idxOf a = before.length := by
  obtain ⟨-, -, hbefore⟩ := nodup_append'.mp hwalk
  have ha : a ∉ before := fun h => hbefore h (mem_append_left _ mem_cons_self)
  rw [idxOf_append_of_notMem ha, cons_append, idxOf_cons_self, Nat.add_zero]

theorem idxOf_add_segment_lt (hwalk : walk.Nodup) (hwithin : a :: segment <:+: walk) :
    walk.idxOf a + segment.length < walk.length := by
  obtain ⟨before, after, rfl⟩ := hwithin
  rw [List.append_assoc] at hwalk ⊢
  rw [idxOf_segment hwalk, length_append, length_append, length_cons]
  omega

theorem mem_segment_iff (hwalk : walk.Nodup) (hwithin : a :: segment <:+: walk) (hx : x ∈ walk) :
    x ∈ a :: segment ↔
      walk.idxOf a ≤ walk.idxOf x ∧ walk.idxOf x ≤ walk.idxOf a + segment.length := by
  obtain ⟨before, after, rfl⟩ := hwithin
  rw [List.append_assoc] at hwalk hx ⊢
  obtain ⟨-, -, hbefore⟩ := nodup_append'.mp hwalk
  rw [idxOf_segment hwalk]
  by_cases hb : x ∈ before
  · have hlt : (before ++ (a :: segment ++ after)).idxOf x < before.length := by
      rw [idxOf_append_of_mem hb]
      exact idxOf_lt_length_of_mem hb
    have hnot : x ∉ a :: segment := fun h => hbefore hb (mem_append_left _ h)
    exact iff_of_false hnot fun h => absurd h.1 (Nat.not_le.mpr hlt)
  · rw [idxOf_append_of_notMem hb]
    by_cases hs : x ∈ a :: segment
    · have hlt : (a :: segment).idxOf x < (a :: segment).length := idxOf_lt_length_of_mem hs
      rw [length_cons] at hlt
      rw [idxOf_append_of_mem hs]
      exact iff_of_true hs ⟨by omega, by omega⟩
    · rw [idxOf_append_of_notMem hs, length_cons]
      exact iff_of_false hs fun h => by omega

end Segments

/-! ### Walking with a stack -/

/-- The walk that keeps what is still to be visited on a stack, whose top is the head of the
list: a node is taken off and its children are put on, one after the other.  `none` is a walk that
is not done after so many steps. -/
def stackWalk (children : α → List α) : Nat → List α → List α → Option (List α)
  | 0, _, _ => none
  | _ + 1, [], out => some out
  | fuel + 1, current :: stack, out =>
    stackWalk children fuel ((children current).foldl (fun stack child => child :: stack) stack)
      (out ++ [current])

theorem isChild_reverse : IsChild (fun a => (children a).reverse) = IsChild children := by
  funext a b
  exact propext mem_reverse

theorem wf_reverse (wf : WellFounded fun b a => IsChild children a b) :
    WellFounded fun b a => IsChild (fun a => (children a).reverse) a b := by
  rw [isChild_reverse]
  exact wf

theorem stackWalk_eq {fuel : Nat} {stack : List α} (out : List α)
    (hfuel : (stack.flatMap (preorder (wf_reverse wf))).length < fuel) :
    stackWalk children fuel stack out =
      some (out ++ stack.flatMap (preorder (wf_reverse wf))) := by
  induction fuel generalizing stack out with
  | zero => exact absurd hfuel (Nat.not_lt_zero _)
  | succ fuel ih =>
    cases stack with
    | nil => rw [stackWalk, flatMap_nil, append_nil]
    | cons current stack =>
      have hpush : (children current).foldl (fun stack child => child :: stack) stack =
          (children current).reverse ++ stack := foldl_flip_cons_eq_append'
      have hwalk : (current :: stack).flatMap (preorder (wf_reverse wf)) =
          current :: ((children current).reverse ++ stack).flatMap (preorder (wf_reverse wf)) := by
        rw [flatMap_cons, preorder_eq, flatMap_append, cons_append]
      rw [hwalk, length_cons] at hfuel
      rw [stackWalk, hpush, hwalk, ih _ (Nat.lt_of_succ_lt_succ hfuel), List.append_assoc,
        singleton_append]

theorem stackWalk_root (wf : WellFounded fun b a => IsChild children a b) (a : α) : ∃ out, (∀ x, x ∈ out ↔ ReflTransGen (IsChild children) a x) ∧
    ∃ enough, ∀ fuel, enough ≤ fuel → stackWalk children fuel [a] [] = some out := by
  refine ⟨preorder (wf_reverse wf) a, fun x => ?_, (preorder (wf_reverse wf) a).length + 1,
    fun fuel hfuel => ?_⟩
  · rw [mem_preorder, isChild_reverse]
  · have hsingle : [a].flatMap (preorder (wf_reverse wf)) = preorder (wf_reverse wf) a := by
      rw [flatMap_cons, flatMap_nil, append_nil]
    rw [stackWalk_eq wf [] (by rw [hsingle]; exact hfuel), hsingle, nil_append]

end Forest
