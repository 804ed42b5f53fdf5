import Voodoo.Cppgc.HeapRuns

/-!
# The partition of the pages

`Partitioned` says in terms of addresses and headers what `Formatted` says with a layout: the pages
are chains of headers, the objects are apart from each other, from the buffer and from the free list,
and the entries of the free list are in their buckets.  It holds in every state of every run.
-/

namespace Voodoo.Cppgc

open Machine Tiles

variable {a : Arch} {s : Space} {h : Heap} {layout : Nat → List (Block Use)}

/-- The `m` bytes at `y` and the `n` bytes at `z` do not overlap. -/
def Apart (y : Address) (m : Nat) (z : Address) (n : Nat) : Prop :=
  y.block ≠ z.block ∨ y.offset + m ≤ z.offset ∨ z.offset + n ≤ y.offset

namespace Space

/-- The size that the header at an address has. -/
def sizeAt (a : Arch) (s : Space) (z : Address) : Nat := (s.memory z).allocatedSize a

/-- What a block of a page is: an object, an entry of the free list or a filler, or the buffer. -/
def IsBlock (a : Arch) (s : Space) (p : Nat) (x : Block Use) : Prop :=
  match x.kind with
  | .object => s.sizeAt a ⟨p, x.start⟩ = x.size ∧ (s.memory ⟨p, x.start⟩).isFree = false ∧
      ⟨p, x.start⟩ ∈ s.live
  | .free => s.sizeAt a ⟨p, x.start⟩ = x.size ∧ (s.memory ⟨p, x.start⟩).isFree = true ∧
      (x.size < a.entrySize ∨ ⟨p, x.start⟩ ∈ s.freeList.heads (Nat.log2 x.size))
  | .buffer => s.lab = ⟨⟨p, x.start⟩, x.size⟩

/-- The payload of a page is a chain of blocks, in which all its objects are. -/
structure Chain (a : Arch) (s : Space) (p : Nat) (l : List (Block Use)) : Prop where
  tile : Tile 0 l (payloadSize a)
  block : ∀ x ∈ l, s.IsBlock a p x
  size_ne : ∀ x ∈ l, x.size ≠ 0
  buffer : ∀ x ∈ l, ∀ y ∈ l, x.kind = .buffer → y.kind = .buffer → x = y
  object : ∀ z ∈ s.live, z.block = p → ∃ x ∈ l, x.kind = .object ∧ x.start = z.offset
  entry : ∀ i, ∀ e ∈ s.freeList.heads i, e.block = p → ∃ x ∈ l, x.kind = .free ∧ x.start = e.offset

/-- **The partition of the pages.** -/
structure Partitioned (a : Arch) (s : Space) : Prop where
  chain : ∀ p ∈ s.normalPages, ∃ l, s.Chain a p l
  lab : 0 < s.lab.size → s.lab.start.block ∈ s.normalPages
  objects : ∀ y ∈ s.live, ∀ z ∈ s.live, y ≠ z → Apart y (s.sizeAt a y) z (s.sizeAt a z)
  buffer : ∀ z ∈ s.live, 0 < s.lab.size → Apart z (s.sizeAt a z) s.lab.start s.lab.size
  entries : ∀ z ∈ s.live, ∀ i, ∀ e ∈ s.freeList.heads i, Apart z (s.sizeAt a z) e (s.sizeAt a e)
  entry : ∀ i, ∀ e ∈ s.freeList.heads i, e.block ∈ s.normalPages ∧
    (s.memory e).isFree = true ∧ i = Nat.log2 (s.sizeAt a e) ∧ i ≤ s.freeList.biggestFreeListIndex
  walk : ∀ p ∈ s.normalPages, ∀ memory,
    SameButMarks (s.replaceLinearAllocationBuffer a ⟨0, 0⟩ 0).memory memory →
    ∃ w, sweepNormalPage a { s.replaceLinearAllocationBuffer a ⟨0, 0⟩ 0 with
      memory, freeList := {} } p = some w ∧ w.current = payloadSize a

end Space

section Formatted

variable {p : Nat} {x y : Block Use} {z e : Address}

theorem Formatted.block_of_live (hs : Formatted a s layout) (hz : z ∈ s.live) :
    (z.block ∈ s.normalPages ∧ ∃ x ∈ layout z.block, x.kind = .object ∧ x.start = z.offset ∧
      x.start + s.sizeAt a z = x.stop) ∨ z.block ∈ s.largeObjects ∧ z.offset = 0 := by
  rcases (hs.live z).mp hz with ⟨hp, x, hx, hstart, hkind⟩ | hlarge
  · have hdescribed := hs.laid.described _ hp x hx
    have hlt := ((hs.laid.tile _ hp).mem hx).2.1
    have hz : (⟨z.block, x.start⟩ : Address) = z := by
      cases z
      exact congrArg _ hstart
    rw [Described, hkind, hz] at hdescribed
    refine .inl ⟨hp, x, hx, hkind, hstart, ?_⟩
    rw [Space.sizeAt, hdescribed.1]
    exact Nat.add_sub_cancel' (Nat.le_of_lt hlt)
  · exact .inr hlarge

theorem Formatted.block_of_entry (hs : Formatted a s layout) {i : Nat}
    (he : e ∈ s.freeList.heads i) : e.block ∈ s.normalPages ∧ ∃ x ∈ layout e.block,
      x.kind = .free ∧ x.start = e.offset ∧ x.start + s.sizeAt a e = x.stop ∧
      (s.memory e).isFree = true ∧ i = Nat.log2 (s.sizeAt a e) := by
  obtain ⟨hp, x, hx⟩ := hs.listed.entry i e he
  have hdescribed := hs.laid.described _ hp x hx.mem
  have hlt := ((hs.laid.tile _ hp).mem hx.mem).2.1
  have he : (⟨e.block, x.start⟩ : Address) = e := by
    cases e
    exact congrArg _ hx.start
  have hlt32 : x.size < 2 ^ 32 := Nat.lt_trans (size_lt_kPageSize hs hp hx.mem) (by decide)
  rw [Described, hx.free, he] at hdescribed
  refine ⟨hp, x, hx.mem, hx.free, hx.start, ?_, hdescribed.2, ?_⟩
  · rw [Space.sizeAt, hdescribed.1]
    exact Nat.add_sub_cancel' (Nat.le_of_lt hlt)
  · rw [Space.sizeAt, hdescribed.1, ← hx.bucket,
      bucketIndexForSize_eq (hs.laid.size_pos hp hx.mem) hlt32]

theorem Formatted.apart (hs : Formatted a s layout) {m n : Nat} {w z : Address}
    (hw : w.block ∈ s.normalPages) (hx : x ∈ layout w.block) (hy : y ∈ layout z.block)
    (hxw : x.start = w.offset) (hyz : y.start = z.offset) (hm : x.start + m = x.stop)
    (hn : y.start + n = y.stop) (hne : w.block = z.block → x ≠ y) : Apart w m z n := by
  by_cases hblock : w.block = z.block
  · refine .inr ?_
    rw [← hblock] at hy
    rcases (hs.laid.tile _ hw).disjoint hx hy (hne hblock) with hle | hle
    · refine .inl ?_
      omega
    · refine .inr ?_
      omega
  · exact .inl hblock

theorem Formatted.chain (hs : Formatted a s layout) (hp : p ∈ s.normalPages) :
    s.Chain a p (layout p) := by
  refine ⟨hs.laid.tile p hp, fun x hx => ?_, fun x hx => Nat.ne_of_gt (hs.laid.size_pos hp hx),
    fun x hx y hy hxkind hykind => ?_, fun z hz hblock => ?_, fun i e he hblock => ?_⟩
  · have hdescribed := hs.laid.described p hp x hx
    rw [Described] at hdescribed
    rw [Space.IsBlock]
    cases hkind : x.kind with
    | object =>
      rw [hkind] at hdescribed
      exact ⟨hdescribed.1, hdescribed.2, (hs.live _).mpr (.inl ⟨hp, x, hx, rfl, hkind⟩)⟩
    | free =>
      rw [hkind] at hdescribed
      refine ⟨hdescribed.1, hdescribed.2, ?_⟩
      by_cases hsize : x.size < a.entrySize
      · exact .inl hsize
      · have hlt32 : x.size < 2 ^ 32 := Nat.lt_trans (size_lt_kPageSize hs hp hx) (by decide)
        refine .inr ?_
        rw [← bucketIndexForSize_eq (hs.laid.size_pos hp hx) hlt32]
        exact hs.available p hp x hx hkind (Nat.le_of_not_lt hsize) fun heq => by cases heq
    | buffer =>
      rw [hkind] at hdescribed
      exact hdescribed
  · have heq := (hs.laid.buffer hp hx hxkind).symm.trans (hs.laid.buffer hp hy hykind)
    injection heq with heq
    injection heq with _ heq
    exact (hs.laid.tile p hp).eq_of_start hx hy heq
  · rcases hs.block_of_live hz with ⟨-, x, hx, hkind, hstart, -⟩ | ⟨hlarge, -⟩
    · exact ⟨x, hblock ▸ hx, hkind, hstart⟩
    · exact absurd hblock.symm ((List.nodup_append.mp hs.blocks).2.2 p hp _ hlarge)
  · obtain ⟨-, x, hx, hkind, hstart, -⟩ := hs.block_of_entry he
    exact ⟨x, hblock ▸ hx, hkind, hstart⟩

/-- **A formatted memory is partitioned.** -/
theorem Formatted.partition (hs : Formatted a s layout) : s.Partitioned a := by
  obtain ⟨-, -, hdisjoint⟩ := List.nodup_append.mp hs.blocks
  refine ⟨fun p hp => ⟨layout p, hs.chain hp⟩, fun hpos => (hs.buffer hpos).1,
    fun y hy z hz hne => ?_, fun z hz hpos => ?_, fun z hz i e he => ?_, fun i e he => ?_,
    fun p hp memory hmemory => ?_⟩
  · rcases hs.block_of_live hy with ⟨hp, x, hx, -, hstart, hstop⟩ | ⟨hb, hoffset⟩ <;>
      rcases hs.block_of_live hz with ⟨hp', x', hx', -, hstart', hstop'⟩ | ⟨hb', hoffset'⟩
    · refine hs.apart hp hx hx' hstart hstart' hstop hstop' fun hblock => ?_
      rintro rfl
      apply hne
      cases y
      cases z
      exact congrArg₂ Address.mk hblock (hstart.symm.trans hstart')
    · exact .inl (hdisjoint _ hp _ hb')
    · exact .inl fun hblock => hdisjoint _ hp' _ hb hblock.symm
    · refine .inl fun hblock => hne ?_
      cases y
      cases z
      exact congrArg₂ Address.mk hblock (hoffset.trans hoffset'.symm)
  · obtain ⟨hp', hbuffer⟩ := hs.buffer hpos
    rcases hs.block_of_live hz with ⟨hp, x, hx, hkind, hstart, hstop⟩ | ⟨hb, -⟩
    · refine hs.apart hp hx hbuffer hstart rfl hstop rfl fun _ => ?_
      rintro rfl
      exact nomatch hkind
    · exact .inl fun hblock => hdisjoint _ hp' _ hb hblock.symm
  · obtain ⟨hp', x', hx', hkind', hstart', hstop', -⟩ := hs.block_of_entry he
    rcases hs.block_of_live hz with ⟨hp, x, hx, hkind, hstart, hstop⟩ | ⟨hb, -⟩
    · refine hs.apart hp hx hx' hstart hstart' hstop hstop' fun _ => ?_
      rintro rfl
      exact nomatch hkind.symm.trans hkind'
    · exact .inl fun hblock => hdisjoint _ hp' _ hb hblock.symm
  · obtain ⟨hp, -, -, -, -, -, hfree, hlog⟩ := hs.block_of_entry he
    refine ⟨hp, hfree, hlog, ?_⟩
    by_contra hlt
    rw [hs.listed.biggest i (Nat.lt_of_not_le hlt)] at he
    exact List.not_mem_nil he
  · obtain ⟨flushed, hflush, -⟩ := formatted_flush hs
    obtain ⟨hpages, -⟩ := flush_members (a := a) s
    rw [← hpages] at hp
    obtain ⟨w, hw, hend, -⟩ := sweepNormalPage_eq p
      (s := { s.replaceLinearAllocationBuffer a ⟨0, 0⟩ 0 with memory, freeList := {} })
      (hflush.laid.tile p hp) fun x hx => (hflush.laid.described p hp x hx).sameButMarks hmemory
    exact ⟨w, hw, hend⟩

end Formatted

/-- **The pages are partitioned** in every state of every run. -/
theorem Heap.Reachable.partitioned {memory : Memory} (hh : Heap.Reachable a memory h) :
    h.space.Partitioned a := by
  obtain ⟨layout, hformatted⟩ := (consistent_of_reachable hh).formatted
  exact hformatted.partition

theorem Heap.Reachable.partitioned_oneObject : (oneObject .plain).space.Partitioned .bits64 :=
  Heap.Reachable.partitioned (reachable_oneObject .plain)

end Voodoo.Cppgc
