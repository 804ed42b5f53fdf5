import Mathlib.Data.List.Nodup
import Voodoo.Cppgc.Heap

/-!
# Persistents

A node of the region is used just when a persistent owns it, and that persistent knows its node; the
free list has the other nodes.  So `Iterate` finds every persistent that refers to an object
(`mem_traced`), whatever has been assigned, moved and cleared before.
-/

namespace Voodoo.Cppgc

open List Option Function

namespace Persistents

/-- The persistents of one kind, which refer to the objects `live`. -/
structure Attached (p : Persistents) (live : List Address) : Prop where
  used : ∀ owner node, (p.handles owner).node = some node ↔
    p.region.nodes[node]? = some (some owner)
  node : ∀ owner target, (p.handles owner).value = some target → (p.handles owner).node ≠ none
  free : ∀ node ∈ p.region.freeList, p.region.nodes[node]? = some none
  freeNodup : p.region.freeList.Nodup
  live : ∀ owner target, (p.handles owner).value = some target → target ∈ live

variable {p : Persistents} {live live' : List Address} {owner source node : Nat} {target : Address}

/-- **`Iterate` traces** the persistents that are not null. -/
theorem mem_traced (h : p.Attached live) :
    (owner, target) ∈ p.traced ↔ (p.handles owner).value = some target := by
  rw [traced, PersistentRegion.owners, mem_filterMap]
  constructor
  · rintro ⟨other, -, hother⟩
    obtain ⟨value, hvalue, heq⟩ := map_eq_some_iff.mp hother
    obtain ⟨rfl, rfl⟩ := Prod.mk.inj heq
    exact hvalue
  · intro hvalue
    obtain ⟨node, hnode⟩ := ne_none_iff_exists'.mp (h.node owner target hvalue)
    have hmem := mem_of_getElem? ((h.used owner node).mp hnode)
    exact ⟨owner, mem_filterMap.mpr ⟨some owner, hmem, rfl⟩, by rw [hvalue]; rfl⟩

theorem Attached.mono (h : p.Attached live) (hlive : ∀ z ∈ live, z ∈ live') : p.Attached live' where
  used := h.used
  node := h.node
  free := h.free
  freeNodup := h.freeNodup
  live owner target hvalue := hlive _ (h.live owner target hvalue)

theorem attached_empty : ({} : Persistents).Attached live where
  used _ _ := iff_of_false (fun h => nomatch h) fun h => nomatch h
  node _ _ h := nomatch h
  free _ h := (not_mem_nil h).elim
  freeNodup := nodup_nil
  live _ _ h := nomatch h

theorem Attached.iterate (h : p.Attached live) : ({ p with region := p.region.iterate } :
    Persistents).Attached live where
  used := h.used
  node := h.node
  free node hnode := by
    obtain ⟨-, hnone⟩ := mem_filter.mp (mem_reverse.mp hnode)
    exact eq_of_beq hnone
  freeNodup := nodup_reverse.mpr (nodup_range.filter _)
  live := h.live

theorem Attached.cleared {q : Persistents} (h : p.Attached live) (hregion : q.region = p.region)
    (hnode : ∀ owner, (q.handles owner).node = (p.handles owner).node)
    (hvalue : ∀ owner target, (q.handles owner).value = some target →
      (p.handles owner).value = some target ∧ target ∈ live') : q.Attached live' where
  used owner node := by
    rw [hnode, hregion]
    exact h.used owner node
  node owner target hq := by
    rw [hnode]
    exact h.node owner target (hvalue owner target hq).1
  free := hregion ▸ h.free
  freeNodup := hregion ▸ h.freeNodup
  live owner target hq := (hvalue owner target hq).2

/-! ### Assignments -/

theorem Attached.lt_length (h : p.Attached live) (hnode : (p.handles owner).node = some node) :
    node < p.region.nodes.length :=
  (List.getElem?_eq_some_iff.mp ((h.used owner node).mp hnode)).1

/-- `Assign` of null, which gives the node back. -/
def release (p : Persistents) (owner : Nat) : Persistents :=
  { region := match (p.handles owner).node with
      | none => p.region
      | some node => p.region.freeNode node
    handles := Function.update p.handles owner {} }

theorem attached_of_update {region : PersistentRegion} (h : p.Attached live)
    (hused : ∀ other node : Nat, other ≠ owner →
      (region.nodes[node]? = some (some other) ↔ p.region.nodes[node]? = some (some other)))
    (hnone : ∀ node : Nat, region.nodes[node]? ≠ some (some owner))
    (hfree : ∀ node ∈ region.freeList, region.nodes[node]? = some none)
    (hnodup : region.freeList.Nodup) :
    ({ region, handles := Function.update p.handles owner {} } : Persistents).Attached live := by
  refine ⟨fun other node => ?_, fun other target hvalue => ?_, hfree, hnodup,
    fun other target hvalue => ?_⟩
  · show (Function.update p.handles owner {} other).node = some node ↔ _
    by_cases hother : other = owner
    · rw [hother, update_self]
      exact iff_of_false (fun h => nomatch h) (hnone node)
    · rw [update_of_ne hother, h.used other node]
      exact (hused other node hother).symm
  · have hvalue : (Function.update p.handles owner {} other).value = some target := hvalue
    show (Function.update p.handles owner {} other).node ≠ none
    by_cases hother : other = owner
    · rw [hother, update_self] at hvalue
      exact nomatch hvalue
    · rw [update_of_ne hother] at hvalue ⊢
      exact h.node other target hvalue
  · have hvalue : (Function.update p.handles owner {} other).value = some target := hvalue
    by_cases hother : other = owner
    · rw [hother, update_self] at hvalue
      exact nomatch hvalue
    · rw [update_of_ne hother] at hvalue
      exact h.live other target hvalue

theorem Attached.release (h : p.Attached live) (owner : Nat) : (p.release owner).Attached live := by
  rw [Persistents.release]
  cases hnode : (p.handles owner).node with
  | none =>
    refine attached_of_update h (fun _ _ _ => Iff.rfl) (fun node hused => ?_) h.free h.freeNodup
    exact nomatch hnode.symm.trans ((h.used owner node).mpr hused)
  | some node =>
    have hself := (h.used owner node).mp hnode
    have hset : (p.region.nodes.set node none)[node]? = some none :=
      getElem?_set_self (h.lt_length hnode)
    refine attached_of_update h (fun other m hother => ?_) (fun m hused => ?_) (fun m hm => ?_) ?_
    · show (p.region.nodes.set node none)[m]? = _ ↔ _
      by_cases hm : node = m
      · subst hm
        rw [hset, hself]
        refine iff_of_false (fun heq => nomatch heq) fun heq => hother ?_
        exact (some.inj (some.inj heq)).symm
      · rw [getElem?_set_ne hm]
    · have hused : (p.region.nodes.set node none)[m]? = some (some owner) := hused
      by_cases hm : node = m
      · subst hm
        exact nomatch hset.symm.trans hused
      · rw [getElem?_set_ne hm] at hused
        exact hm (some.inj (hnode.symm.trans ((h.used owner m).mpr hused)))
    · show (p.region.nodes.set node none)[m]? = some none
      by_cases hne : node = m
      · rw [← hne]
        exact hset
      · rw [getElem?_set_ne hne]
        exact h.free m ((mem_cons.mp hm).resolve_left fun heq => hne heq.symm)
    · refine nodup_cons.mpr ⟨fun hm => ?_, h.freeNodup⟩
      exact nomatch hself.symm.trans (h.free node hm)

/-- What `AllocateNode` does to the nodes. -/
theorem allocateNode_eq (h : p.Attached live) {region : PersistentRegion}
    (heq : p.region.allocateNode owner = (node, region)) :
    (∀ other, p.region.nodes[node]? ≠ some (some other)) ∧
      region.nodes[node]? = some (some owner) ∧
      (∀ m other : Nat, node ≠ m →
        (region.nodes[m]? = some (some other) ↔ p.region.nodes[m]? = some (some other))) ∧
      (∀ m ∈ region.freeList, region.nodes[m]? = some none) ∧ region.freeList.Nodup := by
  rw [PersistentRegion.allocateNode] at heq
  cases hlist : p.region.freeList with
  | cons head rest =>
    rw [hlist] at heq
    obtain ⟨rfl, rfl⟩ := Prod.mk.inj heq
    have hnodup := h.freeNodup
    rw [hlist] at hnodup
    obtain ⟨hhead, hnodup⟩ := nodup_cons.mp hnodup
    have hnone := h.free head (hlist ▸ mem_cons_self)
    have hlt := (List.getElem?_eq_some_iff.mp hnone).1
    refine ⟨fun other hother => (nomatch hnone.symm.trans hother), getElem?_set_self hlt,
      fun m other hm => ?_, fun m hm => ?_, hnodup⟩
    · show (p.region.nodes.set head (some owner))[m]? = _ ↔ _
      rw [getElem?_set_ne hm]
    · show (p.region.nodes.set head (some owner))[m]? = _
      rw [getElem?_set_ne]
      · exact h.free m (hlist ▸ mem_cons_of_mem _ hm)
      · rintro rfl
        exact hhead hm
  | nil =>
    rw [hlist] at heq
    have hslab : ∀ k < 256, (List.replicate 256 (none : Option Nat))[k]? = some none :=
      fun k hk => getElem?_replicate_of_lt hk
    have hlength : (List.replicate 256 (none : Option Nat)).length = 256 := length_replicate
    have hmem : ∀ m ∈ (List.range' p.region.nodes.length 255).reverse,
        p.region.nodes.length ≤ m ∧ m < p.region.nodes.length + 255 :=
      fun m hm => mem_range'_1.mp (mem_reverse.mp hm)
    have hnodup : (List.range' p.region.nodes.length 255).reverse.Nodup :=
      nodup_reverse.mpr (nodup_range' 1 Nat.one_pos)
    dsimp only at heq
    -- neither list is to be computed
    generalize List.replicate 256 (none : Option Nat) = slab at heq hslab hlength
    generalize (List.range' p.region.nodes.length 255).reverse = free at heq hmem hnodup
    obtain ⟨rfl, rfl⟩ := Prod.mk.inj heq
    have hlt : p.region.nodes.length + 255 < (p.region.nodes ++ slab).length := by
      rw [length_append]
      omega
    have hnew : ∀ m, p.region.nodes.length ≤ m → m < p.region.nodes.length + 256 →
        (p.region.nodes ++ slab)[m]? = some none := by
      intro m hle hlt
      rw [getElem?_append_right hle]
      exact hslab _ (by omega)
    have hself : ((p.region.nodes ++ slab).set (p.region.nodes.length + 255) (some owner))[
        p.region.nodes.length + 255]? = some (some owner) := getElem?_set_self hlt
    have hfresh : p.region.nodes[p.region.nodes.length + 255]? = none :=
      getElem?_eq_none (Nat.le_add_right ..)
    refine ⟨fun other hother => (nomatch hfresh.symm.trans hother), hself, fun m other hm => ?_,
      fun m hm => ?_, hnodup⟩
    · show ((p.region.nodes ++ slab).set _ (some owner))[m]? = _ ↔ _
      rw [getElem?_set_ne hm]
      by_cases hlt : m < p.region.nodes.length
      · rw [getElem?_append_left hlt]
      · have hold : p.region.nodes[m]? = none := getElem?_eq_none (Nat.le_of_not_lt hlt)
        rw [hold]
        refine iff_of_false (fun heq => ?_) fun heq => nomatch heq
        have hrange := (List.getElem?_eq_some_iff.mp heq).1
        rw [length_append] at hrange
        rw [hnew m (Nat.le_of_not_lt hlt) (by omega)] at heq
        exact nomatch heq
    · have hrange := hmem m hm
      show ((p.region.nodes ++ slab).set _ (some owner))[m]? = _
      rw [getElem?_set_ne (by omega)]
      exact hnew m hrange.1 (by omega)

/-- A persistent without a node gets one. -/
theorem Attached.attach (h : p.Attached live) {region : PersistentRegion}
    (hnone : (p.handles owner).node = none) (hlive : target ∈ live)
    (heq : p.region.allocateNode owner = (node, region)) :
    ({ region, handles := Function.update p.handles owner ⟨some target, some node⟩ } :
      Persistents).Attached live := by
  obtain ⟨hfresh, hself, hother, hfree, hnodup⟩ := allocateNode_eq h heq
  refine ⟨fun other m => ?_, fun other value hvalue => ?_, hfree, hnodup,
    fun other value hvalue => ?_⟩
  · show (Function.update p.handles owner _ other).node = some m ↔ _
    by_cases hm : node = m
    · subst hm
      rw [hself]
      by_cases howner : other = owner
      · rw [howner, update_self]
        exact iff_of_true rfl rfl
      · rw [update_of_ne howner, h.used other node]
        refine iff_of_false (hfresh other) fun heq => howner ?_
        exact (some.inj (some.inj heq)).symm
    · rw [hother m other hm, ← h.used other m]
      by_cases howner : other = owner
      · rw [howner, update_self, hnone]
        exact iff_of_false (fun heq => hm (some.inj heq)) fun heq => nomatch heq
      · rw [update_of_ne howner]
  · show (Function.update p.handles owner _ other).node ≠ none
    have hvalue : (Function.update p.handles owner _ other).value = some value := hvalue
    by_cases howner : other = owner
    · rw [howner, update_self]
      exact some_ne_none node
    · rw [update_of_ne howner] at hvalue ⊢
      exact h.node other value hvalue
  · have hvalue : (Function.update p.handles owner ⟨some target, some node⟩ other).value =
        some value := hvalue
    by_cases howner : other = owner
    · rw [howner, update_self] at hvalue
      exact some.inj hvalue ▸ hlive
    · rw [update_of_ne howner] at hvalue
      exact h.live other value hvalue

/-- **`Assign`.** -/
theorem Attached.assign (h : p.Attached live) {raw : Option Address} (owner : Nat)
    (hraw : ∀ target, raw = some target → target ∈ live) : (p.assign owner raw).Attached live := by
  have hrelease := h.release owner
  cases raw with
  | none => exact hrelease
  | some target =>
    have hnone : ((p.release owner).handles owner).node = none := by
      show (Function.update p.handles owner {} owner).node = none
      rw [update_self]
    obtain ⟨node, region, heq⟩ : ∃ node region,
        (p.release owner).region.allocateNode owner = (node, region) := ⟨_, _, rfl⟩
    have hattach := hrelease.attach hnone (hraw target rfl) heq
    have hhandles : Function.update (p.release owner).handles owner ⟨some target, some node⟩ =
        Function.update p.handles owner ⟨some target, some node⟩ := update_idem ..
    rw [hhandles] at hattach
    show ({ region := ((p.release owner).region.allocateNode owner).2
            handles := Function.update p.handles owner
              ⟨some target, some ((p.release owner).region.allocateNode owner).1⟩ } :
      Persistents).Attached live
    rw [heq]
    exact hattach

/-- **The move constructor**, of a persistent that has no node yet. -/
theorem Attached.move (h : p.Attached live) (hne : owner ≠ source)
    (hnone : (p.handles owner).node = none) : (p.move owner source).Attached live := by
  have hsource : (p.move owner source).handles source = {} := update_self ..
  have howner : (p.move owner source).handles owner = p.handles source :=
    (update_of_ne hne ..).trans (update_self ..)
  have hother : ∀ other, other ≠ owner → other ≠ source →
      (p.move owner source).handles other = p.handles other :=
    fun other ho hs => (update_of_ne hs ..).trans (update_of_ne ho ..)
  -- what a handle refers to, another one has referred to before
  have hold : ∀ other, ∃ before, (p.move owner source).handles other = {} ∨
      (p.move owner source).handles other = p.handles before := by
    intro other
    by_cases hs : other = source
    · exact ⟨other, .inl (hs ▸ hsource)⟩
    · by_cases ho : other = owner
      · exact ⟨source, .inr (ho ▸ howner)⟩
      · exact ⟨other, .inr (hother other ho hs)⟩
  have hvalue : ∀ other target, ((p.move owner source).handles other).value = some target →
      ((p.move owner source).handles other).node ≠ none ∧ target ∈ live := by
    intro other target hvalue
    obtain ⟨before, hnull | heq⟩ := hold other
    · rw [hnull] at hvalue
      exact nomatch hvalue
    · rw [heq] at hvalue ⊢
      exact ⟨h.node before target hvalue, h.live before target hvalue⟩
  have hregion : (p.move owner source).region.freeList = p.region.freeList ∧
      ∀ m other, (p.move owner source).region.nodes[m]? = some (some other) ↔
        if (p.handles source).node = some m then other = owner
        else p.region.nodes[m]? = some (some other) := by
    rw [Persistents.move]
    cases hnode : (p.handles source).node with
    | none => exact ⟨rfl, fun m other => (by rw [if_neg (fun h => nomatch h)])⟩
    | some node =>
      refine ⟨rfl, fun m other => ?_⟩
      show (p.region.nodes.set node (some owner))[m]? = _ ↔ _
      by_cases hm : node = m
      · subst hm
        rw [if_pos rfl, getElem?_set_self (h.lt_length hnode), some_inj, some_inj,
          eq_comm]
      · rw [if_neg fun heq => hm (some.inj heq), getElem?_set_ne hm]
  refine ⟨fun other m => ?_, fun other target ht => (hvalue other target ht).1, fun m hm => ?_,
    hregion.1 ▸ h.freeNodup, fun other target ht => (hvalue other target ht).2⟩
  · rw [hregion.2]
    by_cases hs : other = source
    · rw [hs, hsource]
      refine iff_of_false (fun h => nomatch h) fun hused => ?_
      split at hused
      · exact hne hused.symm
      · rename_i hnot
        exact hnot ((h.used source m).mpr hused)
    · by_cases ho : other = owner
      · rw [ho, howner]
        by_cases hm : (p.handles source).node = some m
        · rw [if_pos hm]
          exact iff_of_true hm rfl
        · rw [if_neg hm, ← h.used owner m, hnone]
          exact iff_of_false hm fun heq => nomatch heq
      · rw [hother other ho hs, h.used other m]
        by_cases hm : (p.handles source).node = some m
        · rw [if_pos hm]
          refine iff_of_false (fun hused => hs ?_) ho
          rw [(h.used source m).mp hm] at hused
          exact (some.inj (some.inj hused)).symm
        · rw [if_neg hm]
  · rw [hregion.1] at hm
    have hfree := h.free m hm
    rw [Persistents.move]
    cases hnode : (p.handles source).node with
    | none => exact hfree
    | some node =>
      show (p.region.nodes.set node (some owner))[m]? = some none
      rw [getElem?_set_ne]
      · exact hfree
      · rintro rfl
        exact nomatch hfree.symm.trans ((h.used source node).mp hnode)

end Persistents

end Voodoo.Cppgc
