import Voodoo.Cppgc.Marking
import Voodoo.Cppgc.Sweep

/-!
# Collections

A collection of a consistent heap ends.  What it keeps is what the strong persistents reach, and
`Collected` says what becomes of that and of the rest; `Consistent` holds again.  Each action of the
program keeps it, so that it holds in every run.
-/

namespace Voodoo.Cppgc

open Machine Tiles

variable {a : Arch} {s t m : Heap}

/-! ### What a collection does -/

/-- The blocks that are given back to the host from `s` to `t`. -/
def Heap.returnedSince (s t : Heap) : List Nat :=
  t.space.returned.drop s.space.returned.length

/-- **The memory of an object is released**: its block is given back to the host, or the object lies
in a free block of a page. -/
def Heap.Released (a : Arch) (s t : Heap) (z : Address) : Prop :=
  z.block ∈ s.returnedSince t ∨ z.block ∈ t.space.normalPages ∧
    ∃ layout, Formatted a t.space layout ∧ Freed a s.space t.space layout z

/-- The page of an object is in a sandbox, and nothing on it is reached. -/
def Heap.Stranded (s : Heap) (z : Address) : Prop :=
  z.block ∈ s.space.normalPages ∧ z.block ∈ s.space.sandboxed ∧
    ∀ y ∈ s.space.live, y.block = z.block → ¬ s.Reached y

/-- What a collection does, but for the memory it releases. -/
structure Heap.Collected (s t : Heap) : Prop where
  kept : ∀ z, z ∈ t.space.live ↔ z ∈ s.space.live ∧ s.Reached z
  unmarked : ∀ z ∈ t.space.live, (t.space.memory z).marked = false
  headers : ∀ z ∈ t.space.live, t.space.memory z = s.space.memory z
  contents : ∀ z ∈ t.space.live,
    List.Forall₂ (Field.ClearedTo s.Reached) (s.contents z) (t.contents z)
  finalized : ∃ dead, t.space.finalized = s.space.finalized ++ dead ∧ dead.Nodup ∧
    ∀ z, z ∈ dead ↔ z ∈ s.space.live ∧ ¬ s.Reached z
  strong : t.strongPersistents.handles = s.strongPersistents.handles
  weak : ∀ owner, ClearedTo s.Reached (s.weakPersistents.handles owner).value
    (t.weakPersistents.handles owner).value
  returned : (s.returnedSince t).Nodup ∧ ∀ b ∈ s.returnedSince t,
    b ∈ s.space.normalPages ++ s.space.largeObjects ∧
      b ∉ t.space.normalPages ++ t.space.largeObjects

section Marked

variable {layout : Nat → List (Block Use)} {memory memory' : Memory} {lab : LinearAllocationBuffer}
  {p : Nat} {x : Block Use} {z : Address}

theorem SameButMarks.header (h : SameButMarks memory memory') (z : Address) :
    (memory' z).allocatedSize a = (memory z).allocatedSize a ∧
      (memory' z).isFree = (memory z).isFree := by
  rw [h z]
  exact ⟨rfl, rfl⟩

theorem Described.sameButMarks (h : Described a memory lab p x) (hmemory : SameButMarks memory memory') :
    Described a memory' lab p x := by
  obtain ⟨hsize, hfree⟩ := hmemory.header (a := a) ⟨p, x.start⟩
  rw [Described] at h ⊢
  rw [hsize, hfree]
  exact h

theorem Heap.Marked.formatted (hm : s.Marked m) (h : Formatted a s.space layout) :
    Formatted a m.space layout := by
  rw [hm.space]
  exact ⟨⟨h.laid.tile, fun p hp x hx => (h.laid.described p hp x hx).sameButMarks hm.memory,
    h.laid.aligned⟩, h.listed, h.available, h.buffer, h.live, h.liveNodup, h.blocks, h.fresh⟩

end Marked

theorem Heap.Consistent.live_of_reached {z : Address} (h : s.Consistent a) (hz : s.Reached z) :
    z ∈ s.space.live := by
  obtain ⟨r, ⟨owner, hvalue⟩, hpath⟩ := hz
  induction hpath with
  | refl => exact h.strong.live owner r hvalue
  | tail _ hy ih => exact h.successors_live ih hy

theorem ClearedTo.kept {kept : Address → Prop} {target target' : Option Address} {z : Address}
    (h : ClearedTo kept target target') (hz : target' = some z) : target = some z ∧ kept z := by
  cases target with
  | none => exact nomatch (h : target' = none).symm.trans hz
  | some object =>
    rcases h with ⟨hkept, rfl⟩ | ⟨-, rfl⟩
    · obtain rfl := Option.some.inj hz
      exact ⟨rfl, hkept⟩
    · exact nomatch hz

theorem exists_of_mem_right {R : Field → Field → Prop} {fields fields' : List Field} {field : Field}
    (h : List.Forall₂ R fields fields') (hfield : field ∈ fields') : ∃ f ∈ fields, R f field := by
  induction h with
  | nil => exact (List.not_mem_nil hfield).elim
  | cons hR _ ih =>
    rcases List.mem_cons.mp hfield with rfl | hfield
    · exact ⟨_, List.mem_cons_self, hR⟩
    · obtain ⟨f, hf, hR⟩ := ih hfield
      exact ⟨f, List.mem_cons_of_mem _ hf, hR⟩

theorem Heap.Collected.consistent (h : s.Consistent a) (hc : s.Collected t)
    (hformatted : ∃ layout, Formatted a t.space layout)
    (hstrong : t.strongPersistents =
      { s.strongPersistents with region := s.strongPersistents.region.iterate })
    (hregion : t.weakPersistents.region = s.weakPersistents.region.iterate)
    (hnode : ∀ owner, (t.weakPersistents.handles owner).node =
      (s.weakPersistents.handles owner).node) : t.Consistent a where
  formatted := hformatted
  unmarked := hc.unmarked
  closed z hz field hfield target htarget := by
    obtain ⟨before, hbefore, hcleared⟩ := exists_of_mem_right (hc.contents z hz) hfield
    have hreached : s.Reached target := by
      cases before with
      | member target' =>
        rw [(hcleared : field = .member target')] at htarget
        have htarget : target' = some target := htarget
        rw [htarget] at hbefore
        exact ((hc.kept z).mp hz).2.step (mem_successors.mpr hbefore)
      | weakMember target' =>
        obtain ⟨target'', hcleared, rfl⟩ := hcleared
        exact (hcleared.kept htarget).2
    exact (hc.kept target).mpr ⟨h.live_of_reached hreached, hreached⟩
  strong := by
    rw [hstrong]
    refine h.strong.iterate.cleared rfl (fun _ => rfl) fun owner target hvalue => ⟨hvalue, ?_⟩
    have hreached : s.Reached target := .root ⟨owner, hvalue⟩
    exact (hc.kept target).mpr ⟨h.live_of_reached hreached, hreached⟩
  weak := by
    refine h.weak.iterate.cleared hregion hnode fun owner target hvalue => ?_
    obtain ⟨hvalue, hreached⟩ := (hc.weak owner).kept hvalue
    exact ⟨hvalue, (hc.kept target).mpr ⟨h.live_of_reached hreached, hreached⟩⟩

/-- **A collection** of a consistent heap. -/
theorem collectGarbage_eq (h : s.Consistent a) : ∃ t, s.collectGarbage a = some t ∧
    s.Collected t ∧ t.Consistent a ∧
    ∀ z ∈ s.space.live, ¬ s.Reached z → (s.Released a t z ↔ ¬ s.Stranded z) := by
  obtain ⟨layout, hformatted⟩ := h.formatted
  obtain ⟨m, hmark, hm⟩ := mark_eq h
  obtain ⟨space, layout', hsweep, hsandboxed, hclean⟩ := sweep_eq (hm.formatted hformatted)
  obtain ⟨gone, hgone, hgoneNodup, hgoneIff⟩ := hclean.returned
  obtain ⟨dead, hdead, hdeadNodup, hdeadIff⟩ := hclean.finalized
  have hpagesIff := hclean.normalPages
  have hlargeIff := hclean.largeObjects
  have hmarked := hm.marked
  have hlive : m.space.live = s.space.live := by rw [hm.space]
  have hpages : m.space.normalPages = s.space.normalPages := by rw [hm.space]
  have hlarge : m.space.largeObjects = s.space.largeObjects := by rw [hm.space]
  have hreturned : m.space.returned = s.space.returned := by rw [hm.space]
  have hfinalized : m.space.finalized = s.space.finalized := by rw [hm.space]
  have hsand : m.space.sandboxed = s.space.sandboxed := by rw [hm.space]
  rw [hpages, hlarge, hsand] at hgoneIff
  rw [hreturned] at hgone
  rw [hpages, hlive] at hpagesIff
  rw [hlarge] at hlargeIff
  obtain ⟨-, -, hdisjoint⟩ := List.nodup_append.mp hformatted.blocks
  have hnot : ∀ z ∈ s.space.live, (m.space.memory z).marked = false ↔ ¬ s.Reached z := by
    intro z hz
    rw [← hmarked z hz, Bool.not_eq_true]
  have hkept : ∀ z, z ∈ space.live ↔ z ∈ s.space.live ∧ s.Reached z := by
    intro z
    rw [hclean.live, hlive]
    exact and_congr_right fun hz => hmarked z hz
  let t : Heap := { m with space }
  have hsince : s.returnedSince t = gone := by
    show List.drop _ space.returned = gone
    rw [hgone, List.drop_left]
  have hcollected : s.Collected t := by
    constructor
    · exact hkept
    · intro z hz
      show (space.memory z).marked = false
      rw [hclean.memory z hz]
      rfl
    · intro z hz
      have hunmarked := h.unmarked z ((hkept z).mp hz).1
      show space.memory z = s.space.memory z
      rw [hclean.memory z hz, hm.memory z, HeapObjectHeader.unmark, ← hunmarked]
    · intro z hz
      obtain ⟨hz, hreached⟩ := (hkept z).mp hz
      exact hm.contents z hz hreached
    · refine ⟨dead, hfinalized ▸ hdead, hdeadNodup, fun z => ?_⟩
      rw [hdeadIff, hlive]
      exact and_congr_right fun hz => hnot z hz
    · show m.strongPersistents.handles = _
      rw [hm.strong]
    · exact fun owner => (hm.weak owner).2
    · rw [hsince]
      refine ⟨hgoneNodup, fun b hb => ?_⟩
      obtain ⟨hout, hor⟩ := (hgoneIff b).mp hb
      exact ⟨List.mem_append.mpr (hor.imp_left And.left), hout⟩
  refine ⟨t, ?_, hcollected, hcollected.consistent h ⟨layout', hclean.formatted⟩ hm.strong
    hm.weakRegion fun owner => (hm.weak owner).1, fun z hz hdead => ?_⟩
  · show Option.bind s.mark _ = _
    rw [hmark]
    show Option.bind (m.space.sweep a) _ = _
    rw [hsweep]
    rfl
  · -- the page of an object survives just when something on it is reached
    have hpage : z.block ∈ s.space.normalPages → (z.block ∈ space.normalPages ↔
        ∃ y ∈ s.space.live, y.block = z.block ∧ s.Reached y) := by
      intro hp
      rw [hpagesIff, and_iff_right hp]
      exact exists_congr fun y => and_congr_right fun hy => and_congr_right fun _ => hmarked y hy
    constructor
    · rintro (hback | ⟨hsurvives, -⟩) ⟨hp, hbox, hnone⟩
      · rw [hsince, hgoneIff] at hback
        rcases hback.2 with ⟨-, hfree⟩ | hb
        · exact hfree hbox
        · exact hdisjoint _ hp _ hb rfl
      · obtain ⟨y, hy, hblock, hreached⟩ := (hpage hp).mp hsurvives
        exact hnone y hy hblock hreached
    · intro hstranded
      have hgoneMem : ∀ hout : z.block ∉ space.normalPages ++ space.largeObjects,
          (z.block ∈ s.space.normalPages ∧ z.block ∉ s.space.sandboxed ∨
            z.block ∈ s.space.largeObjects) → s.Released a t z := by
        intro hout hor
        refine .inl ?_
        rw [hsince, hgoneIff]
        exact ⟨hout, hor⟩
      rcases (hformatted.live z).mp hz with ⟨hp, -⟩ | ⟨hb, hoffset⟩
      · by_cases hsurvives : z.block ∈ space.normalPages
        · refine .inr ⟨hsurvives, layout', hclean.formatted, ?_⟩
          obtain ⟨x, hx, hfree, hstart, hstop, hlist⟩ := hclean.freed z (hlive ▸ hz)
            ((hnot z hz).mpr hdead) hsurvives
          rw [(hm.memory.header z).1] at hstop
          exact ⟨x, hx, hfree, hstart, hstop, hlist⟩
        · refine hgoneMem ?_ (.inl ⟨hp, fun hbox => hstranded ⟨hp, hbox, fun y hy hblock hreached =>
            hsurvives ((hpage hp).mpr ⟨y, hy, hblock, hreached⟩)⟩⟩)
          rw [List.mem_append, not_or, hlargeIff]
          exact ⟨hsurvives, fun hb => hdisjoint _ hp _ hb.1 rfl⟩
      · have hz' : (⟨z.block, 0⟩ : Address) = z := by
          cases z
          exact congrArg _ hoffset.symm
        refine hgoneMem ?_ (.inr hb)
        rw [List.mem_append, not_or, hlargeIff, hpagesIff, hz', (hnot z hz).mpr hdead]
        exact ⟨fun hp => hdisjoint _ hp.1 _ hb rfl, fun hb => by cases hb.2⟩

end Voodoo.Cppgc
