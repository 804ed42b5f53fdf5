import Voodoo.Cppgc.Heap
import Voodoo.Lib.Tiles

/-!
# The pages of the heap

Between two calls every page is a chain of headers with the linear allocation buffer among them, and
the free list holds blocks of these chains.  `Formatted` says so with the layout of the pages as a
second state; each part of an allocation changes the layout in one place:

* `formatted_refill`: the buffer is flushed, and a free block or a new page takes its place;
* `formatted_place`, `formatted_allocateLarge`: an object is cut from the buffer, or gets a block of
  its own.
-/

namespace Voodoo.Cppgc

open Machine Tiles List Function

/-- What a block of a page is used for. -/
inductive Use where
  | object
  | free
  | buffer
  deriving DecidableEq

variable {a : Arch}

/-- The header of a block gives its size, and whether it is free; the buffer has none. -/
def Described (a : Arch) (memory : Memory) (lab : LinearAllocationBuffer) (page : Nat)
    (x : Block Use) : Prop :=
  match x.kind with
  | .object => (memory ⟨page, x.start⟩).allocatedSize a = x.size ∧
      (memory ⟨page, x.start⟩).isFree = false
  | .free => (memory ⟨page, x.start⟩).allocatedSize a = x.size ∧
      (memory ⟨page, x.start⟩).isFree = true
  | .buffer => lab = ⟨⟨page, x.start⟩, x.size⟩

/-- The pages are laid out in these blocks. -/
structure Laid (a : Arch) (memory : Memory) (lab : LinearAllocationBuffer) (pages : List Nat)
    (layout : Nat → List (Block Use)) : Prop where
  tile : ∀ p ∈ pages, Tile 0 (layout p) (payloadSize a)
  described : ∀ p ∈ pages, ∀ x ∈ layout p, Described a memory lab p x
  aligned : ∀ p ∈ pages, ∀ x ∈ layout p, a.granularity ∣ x.size

/-- A free block that is an entry of a bucket. -/
structure IsEntry (a : Arch) (layout : Nat → List (Block Use)) (index : Nat) (e : Address)
    (x : Block Use) : Prop where
  mem : x ∈ layout e.block
  start : x.start = e.offset
  free : x.kind = .free
  size : a.entrySize ≤ x.size
  bucket : bucketIndexForSize x.size = index

/-- The entries of the free list are free blocks of these pages, each in its bucket. -/
structure Listed (a : Arch) (list : FreeList) (pages : List Nat)
    (layout : Nat → List (Block Use)) : Prop where
  entry : ∀ i, ∀ e ∈ list.heads i, e.block ∈ pages ∧ ∃ x, IsEntry a layout i e x
  nodup : ∀ i, (list.heads i).Nodup
  biggest : ∀ i, list.biggestFreeListIndex < i → list.heads i = []

/-- The invariant of the memory.  A free block is in its bucket unless it is a filler, or `spare`,
which has been taken out and not been used yet. -/
structure Formatted (a : Arch) (s : Space) (layout : Nat → List (Block Use))
    (spare : Option Address := none) : Prop where
  laid : Laid a s.memory s.lab s.normalPages layout
  listed : Listed a s.freeList s.normalPages layout
  available : ∀ p ∈ s.normalPages, ∀ x ∈ layout p, x.kind = .free → a.entrySize ≤ x.size →
    spare ≠ some ⟨p, x.start⟩ → ⟨p, x.start⟩ ∈ s.freeList.heads (bucketIndexForSize x.size)
  buffer : 0 < s.lab.size → s.lab.start.block ∈ s.normalPages ∧
    ⟨s.lab.start.offset, s.lab.start.offset + s.lab.size, .buffer⟩ ∈ layout s.lab.start.block
  live : ∀ x, x ∈ s.live ↔
    (x.block ∈ s.normalPages ∧ ∃ y ∈ layout x.block, y.start = x.offset ∧ y.kind = .object) ∨
      (x.block ∈ s.largeObjects ∧ x.offset = 0)
  liveNodup : s.live.Nodup
  blocks : (s.normalPages ++ s.largeObjects).Nodup
  fresh : ∀ b ∈ s.normalPages ++ s.largeObjects, b < s.nextBlock

/-! ### Layouts -/

section Layout

variable {memory memory' : Memory} {lab lab' : LinearAllocationBuffer} {pages : List Nat}
  {layout layout' : Nat → List (Block Use)} {p q : Nat} {x y : Block Use} {l l' m : List (Block Use)}

theorem Described.congr (h : Described a memory lab p x)
    (hmemory : memory' ⟨p, x.start⟩ = memory ⟨p, x.start⟩) (hlab : x.kind = .buffer → lab' = lab) :
    Described a memory' lab' p x := by
  rw [Described] at h ⊢
  cases hkind : x.kind with
  | object =>
    rw [hkind] at h
    rw [hmemory]
    exact h
  | free =>
    rw [hkind] at h
    rw [hmemory]
    exact h
  | buffer =>
    rw [hkind] at h
    exact (hlab hkind).trans h

theorem Laid.buffer (h : Laid a memory lab pages layout) (hp : p ∈ pages) (hx : x ∈ layout p)
    (hkind : x.kind = .buffer) : lab = ⟨⟨p, x.start⟩, x.size⟩ := by
  have hdescribed := h.described p hp x hx
  rwa [Described, hkind] at hdescribed

theorem Laid.size_pos (h : Laid a memory lab pages layout) (hp : p ∈ pages) (hx : x ∈ layout p) :
    0 < x.size :=
  Nat.sub_pos_of_lt ((h.tile p hp).mem hx).2.1

theorem mem_replace (hlayout : layout p = l ++ x :: l') (hy : y ∈ layout p) (hne : y ≠ x) :
    y ∈ l ++ m ++ l' := by
  rw [hlayout, mem_append, mem_cons] at hy
  rw [mem_append, mem_append]
  rcases hy with hy | rfl | hy
  · exact .inl (.inl hy)
  · exact absurd rfl hne
  · exact .inr hy

theorem mem_of_mem_replace (htile : Tile 0 (layout p) (payloadSize a))
    (hlayout : layout p = l ++ x :: l') (hy : y ∈ l ++ m ++ l') :
    y ∈ m ∨ y ∈ layout p ∧ y ≠ x := by
  rw [mem_append, mem_append] at hy
  rw [hlayout] at htile ⊢
  have hpairwise := htile.pairwise
  rw [pairwise_append, pairwise_cons] at hpairwise
  have hx := htile.mem (mem_append_right l (mem_cons_self (a := x)))
  rcases hy with (hy | hy) | hy
  · refine .inr ⟨mem_append_left _ hy, ?_⟩
    rintro rfl
    have hle := hpairwise.2.2 y hy y mem_cons_self
    omega
  · exact .inl hy
  · refine .inr ⟨mem_append_right _ (mem_cons_of_mem _ hy), ?_⟩
    rintro rfl
    have hle := hpairwise.2.1.1 y hy
    omega

/-- **A block is cut** into other ones, and nothing outside it is written. -/
theorem Laid.replace (h : Laid a memory lab pages layout) (hp : p ∈ pages)
    (hlayout : layout p = l ++ x :: l') (hm : Tile x.start m x.stop)
    (hdvd : ∀ y ∈ m, a.granularity ∣ y.size) (hdescribed : ∀ y ∈ m, Described a memory' lab' p y)
    (hmemory : ∀ address : Address, (address.block = p →
      address.offset < x.start ∨ x.stop ≤ address.offset) → memory' address = memory address)
    (hlab : lab' = lab ∨ x.kind = .buffer ∨ lab.size = 0) :
    Laid a memory' lab' pages (Function.update layout p (l ++ m ++ l')) := by
  have hx : x ∈ layout p := hlayout ▸ mem_append_right _ mem_cons_self
  have hother : ∀ q ∈ pages, ∀ y ∈ layout q, (q = p → y ≠ x) → y.kind = .buffer → lab' = lab := by
    intro q hq y hy hne hkind
    have hbuffer := h.buffer hq hy hkind
    refine hlab.resolve_right fun hor => ?_
    rcases hor with hxkind | hnone
    · have hsame := hbuffer.symm.trans (h.buffer hp hx hxkind)
      injection hsame with hstart
      injection hstart with hblock hoffset
      exact hne hblock ((h.tile q hq).eq_of_start hy (hblock ▸ hx) hoffset)
    · have hpos := h.size_pos hq hy
      rw [hbuffer] at hnone
      exact absurd hnone (Nat.ne_of_gt hpos)
  constructor
  · intro q hq
    by_cases hqp : q = p
    · subst hqp
      rw [update_self]
      have htile := h.tile q hq
      rw [hlayout] at htile
      exact htile.replace hm
    · rw [update_of_ne hqp]
      exact h.tile q hq
  · intro q hq y hy
    by_cases hqp : q = p
    · subst hqp
      rw [update_self] at hy
      rcases mem_of_mem_replace (h.tile q hq) hlayout hy with hy | ⟨hy, hne⟩
      · exact hdescribed y hy
      · refine (h.described q hq y hy).congr (hmemory _ fun _ => ?_) (hother q hq y hy fun _ => hne)
        have hpos := ((h.tile q hq).mem hy).2.1
        rcases (h.tile q hq).disjoint hy hx hne with hle | hle
        · exact .inl (Nat.lt_of_lt_of_le hpos hle)
        · exact .inr hle
    · rw [update_of_ne hqp] at hy
      exact (h.described q hq y hy).congr (hmemory _ fun hblock => absurd hblock hqp)
        (hother q hq y hy fun heq => absurd heq hqp)
  · intro q hq y hy
    by_cases hqp : q = p
    · subst hqp
      rw [update_self] at hy
      rcases mem_of_mem_replace (h.tile q hq) hlayout hy with hy | ⟨hy, -⟩
      · exact hdvd y hy
      · exact h.aligned q hq y hy
    · rw [update_of_ne hqp] at hy
      exact h.aligned q hq y hy

theorem Laid.congr (h : Laid a memory lab pages layout)
    (hmemory : ∀ address : Address, address.block ∈ pages → memory' address = memory address) :
    Laid a memory' lab pages layout where
  tile := h.tile
  described p hp x hx := (h.described p hp x hx).congr (hmemory _ hp) fun _ => rfl
  aligned := h.aligned

theorem Listed.replace {list list' : FreeList} (h : Listed a list pages layout)
    (hlayout : layout p = l ++ x :: l') (hp : p ∈ pages)
    (hentry : ∀ i, ∀ e ∈ list'.heads i, e ∈ list.heads i ∧ e ≠ ⟨p, x.start⟩ ∨
      ∃ y ∈ m, e = ⟨p, y.start⟩ ∧ y.kind = .free ∧ a.entrySize ≤ y.size ∧
        bucketIndexForSize y.size = i)
    (hnodup : ∀ i, (list'.heads i).Nodup)
    (hbiggest : ∀ i, list'.biggestFreeListIndex < i → list'.heads i = []) :
    Listed a list' pages (Function.update layout p (l ++ m ++ l')) := by
  refine ⟨fun i e he => ?_, hnodup, hbiggest⟩
  rcases hentry i e he with ⟨he, hne⟩ | ⟨y, hy, rfl, hkind, hsize, hbucket⟩
  · obtain ⟨hpages, y, hy⟩ := h.entry i e he
    refine ⟨hpages, y, ?_, hy.start, hy.free, hy.size, hy.bucket⟩
    by_cases hblock : e.block = p
    · rw [hblock, update_self]
      have hmem : y ∈ layout p := by
        have hmem := hy.mem
        rwa [hblock] at hmem
      refine mem_replace hlayout hmem ?_
      rintro rfl
      apply hne
      rw [hy.start, ← hblock]
    · rw [update_of_ne hblock]
      exact hy.mem
  · refine ⟨hp, y, ?_, rfl, hkind, hsize, hbucket⟩
    show y ∈ Function.update layout p (l ++ m ++ l') p
    rw [update_self]
    exact mem_append_left _ (mem_append_right _ hy)

theorem memory_add (list : FreeList) (memory : Memory) (block : FreeBlock) :
    (list.add a memory block).2 =
      Function.update memory block.address (.create a block.size kFreeListGCInfoIndex) := by
  rw [FreeList.add]
  split <;> rfl

theorem heads_add (list : FreeList) (memory : Memory) (block : FreeBlock) (i : Nat) :
    (list.add a memory block).1.heads i =
      if a.entrySize ≤ block.size ∧ i = bucketIndexForSize block.size then
        block.address :: list.heads i
      else list.heads i := by
  rw [FreeList.add]
  split
  · rename_i hsmall
    rw [if_neg fun hand => absurd hand.1 (Nat.not_le.mpr hsmall)]
  · rename_i hlarge
    by_cases hi : i = bucketIndexForSize block.size
    · subst hi
      rw [if_pos ⟨Nat.le_of_not_lt hlarge, rfl⟩]
      exact update_self ..
    · rw [if_neg fun hand => hi hand.2]
      exact update_of_ne hi ..

theorem biggest_add (list : FreeList) (memory : Memory) (block : FreeBlock) :
    list.biggestFreeListIndex ≤ (list.add a memory block).1.biggestFreeListIndex ∧
      (a.entrySize ≤ block.size →
        bucketIndexForSize block.size ≤ (list.add a memory block).1.biggestFreeListIndex) := by
  rw [FreeList.add]
  split
  · rename_i hsmall
    exact ⟨Nat.le_refl _, fun hlarge => absurd hlarge (Nat.not_le.mpr hsmall)⟩
  · exact ⟨Nat.le_max_left .., fun _ => Nat.le_max_right ..⟩

theorem mem_heads_add {list : FreeList} {block : FreeBlock} {i : Nat} {e : Address}
    (he : e ∈ (list.add a memory block).1.heads i) : e ∈ list.heads i ∨ e = block.address := by
  rw [heads_add] at he
  split at he
  · exact (mem_cons.mp he).symm
  · exact .inl he

/-- **A free block is put into its bucket.** -/
theorem Listed.add {list : FreeList} {e : Address} (h : Listed a list pages layout)
    (hpage : e.block ∈ pages) (hx : x ∈ layout e.block) (hstart : x.start = e.offset)
    (hfree : x.kind = .free) (hnew : ∀ i, e ∉ list.heads i) :
    Listed a (list.add a memory ⟨e, x.size⟩).1 pages layout := by
  constructor
  · intro i f hf
    rw [heads_add] at hf
    split at hf
    · rename_i hand
      rcases mem_cons.mp hf with rfl | hf
      · exact ⟨hpage, x, hx, hstart, hfree, hand.1, hand.2.symm⟩
      · exact h.entry i f hf
    · exact h.entry i f hf
  · intro i
    rw [heads_add]
    split
    · exact nodup_cons.mpr ⟨hnew i, h.nodup i⟩
    · exact h.nodup i
  · intro i hi
    obtain ⟨hmono, hbucket⟩ := biggest_add (a := a) list memory ⟨e, x.size⟩
    rw [heads_add, if_neg]
    · exact h.biggest i (Nat.lt_of_le_of_lt hmono hi)
    · rintro ⟨hsize, rfl⟩
      exact absurd hi (Nat.not_lt.mpr (hbucket hsize))

end Layout

/-! ### The buffer -/

section Buffer

variable {s s' : Space} {layout : Nat → List (Block Use)} {p : Nat} {x y : Block Use}
  {l l' m : List (Block Use)} {spare spare' : Option Address}

theorem object_replace (htile : Tile 0 (layout p) (payloadSize a)) (hlayout : layout p = l ++ x :: l')
    (hx : x.kind ≠ .object) (z : Address) :
    (∃ y ∈ Function.update layout p (l ++ m ++ l') z.block, y.start = z.offset ∧ y.kind = .object) ↔
      (∃ y ∈ layout z.block, y.start = z.offset ∧ y.kind = .object) ∨
        z.block = p ∧ ∃ y ∈ m, y.start = z.offset ∧ y.kind = .object := by
  by_cases hblock : z.block = p
  · rw [hblock, update_self]
    constructor
    · rintro ⟨y, hy, hobject⟩
      rcases mem_of_mem_replace htile hlayout hy with hy | ⟨hy, -⟩
      · exact .inr ⟨rfl, y, hy, hobject⟩
      · exact .inl ⟨y, hy, hobject⟩
    · rintro (⟨y, hy, hobject⟩ | ⟨-, y, hy, hobject⟩)
      · refine ⟨y, mem_replace hlayout hy ?_, hobject⟩
        rintro rfl
        exact hx hobject.2
      · exact ⟨y, mem_append_left _ (mem_append_right _ hy), hobject⟩
  · rw [update_of_ne hblock]
    exact ⟨.inl, fun hor => hor.resolve_right fun hnew => hblock hnew.1⟩

/-- **One block of one page is cut.** -/
theorem Formatted.replace (h : Formatted a s layout spare) (hp : p ∈ s.normalPages)
    (hlayout : layout p = l ++ x :: l') (hx : x.kind ≠ .object)
    (hlaid : Laid a s'.memory s'.lab s.normalPages (Function.update layout p (l ++ m ++ l')))
    (hlisted : Listed a s'.freeList s.normalPages (Function.update layout p (l ++ m ++ l')))
    (havailable : ∀ y ∈ m, y.kind = .free → a.entrySize ≤ y.size →
      ⟨p, y.start⟩ ∈ s'.freeList.heads (bucketIndexForSize y.size))
    (hheads : ∀ i, ∀ e ∈ s.freeList.heads i, e ∈ s'.freeList.heads i)
    (hspare : spare' = spare ∨ spare = some ⟨p, x.start⟩)
    (hbuffer : 0 < s'.lab.size → s'.lab.start.block = p ∧
      ⟨s'.lab.start.offset, s'.lab.start.offset + s'.lab.size, .buffer⟩ ∈ m)
    (hlive : ∀ z, z ∈ s'.live ↔ z ∈ s.live ∨
      z.block = p ∧ ∃ y ∈ m, y.start = z.offset ∧ y.kind = .object)
    (hnodup : s'.live.Nodup) (hpages : s'.normalPages = s.normalPages)
    (hlarge : s'.largeObjects = s.largeObjects) (hnext : s'.nextBlock = s.nextBlock) :
    Formatted a s' (Function.update layout p (l ++ m ++ l')) spare' where
  laid := hpages ▸ hlaid
  listed := hpages ▸ hlisted
  available q hq y hy hfree hsize hne := by
    rw [hpages] at hq
    have hold : y ∈ layout q → (q = p → y ≠ x) →
        ⟨q, y.start⟩ ∈ s'.freeList.heads (bucketIndexForSize y.size) := by
      intro hmem hyx
      refine hheads _ _ (h.available q hq y hmem hfree hsize ?_)
      rcases hspare with rfl | rfl
      · exact hne
      · intro heq
        injection heq with heq
        injection heq with hblock hstart
        refine hyx hblock.symm ((h.laid.tile q hq).eq_of_start hmem ?_ hstart.symm)
        rw [← hblock, hlayout]
        exact mem_append_right _ mem_cons_self
    by_cases hqp : q = p
    · subst hqp
      rw [update_self] at hy
      rcases mem_of_mem_replace (h.laid.tile q hq) hlayout hy with hy | ⟨hy, hyx⟩
      · exact havailable y hy hfree hsize
      · exact hold hy fun _ => hyx
    · rw [update_of_ne hqp] at hy
      exact hold hy fun heq => absurd heq hqp
  buffer hpos := by
    obtain ⟨hblock, hmem⟩ := hbuffer hpos
    rw [hpages, hblock, update_self]
    exact ⟨hp, mem_append_left _ (mem_append_right _ hmem)⟩
  live z := by
    rw [hlive, h.live, hpages, hlarge, object_replace (h.laid.tile p hp) hlayout hx]
    constructor
    · rintro ((⟨hz, hobject⟩ | hz) | ⟨hz, hobject⟩)
      · exact .inl ⟨hz, .inl hobject⟩
      · exact .inr hz
      · exact .inl ⟨hz ▸ hp, .inr ⟨hz, hobject⟩⟩
    · rintro (⟨hz, hobject | hobject⟩ | hz)
      · exact .inl (.inl ⟨hz, hobject⟩)
      · exact .inr hobject
      · exact .inl (.inr hz)
  liveNodup := hnodup
  blocks := by
    rw [hpages, hlarge]
    exact h.blocks
  fresh := by
    rw [hpages, hlarge, hnext]
    exact h.fresh

theorem Formatted.exists_buffer (h : Formatted a s layout spare) (hpos : 0 < s.lab.size) :
    s.lab.start.block ∈ s.normalPages ∧ ∃ l l', layout s.lab.start.block =
      l ++ ⟨s.lab.start.offset, s.lab.start.offset + s.lab.size, .buffer⟩ :: l' := by
  obtain ⟨hpage, hmem⟩ := h.buffer hpos
  exact ⟨hpage, append_of_mem hmem⟩

theorem size_mk (start size : Nat) (kind : Use) : Block.size ⟨start, start + size, kind⟩ = size :=
  Nat.add_sub_cancel_left ..

theorem size_lt_kPageSize (h : Formatted a s layout spare) (hp : p ∈ s.normalPages) (hx : x ∈ layout p) :
    x.size < kPageSize := by
  have hstop := ((h.laid.tile p hp).mem hx).2.2
  have hpos := granularity_pos a
  have hle : x.size ≤ x.stop := Nat.sub_le ..
  have hgranularity : payloadSize a < kPageSize := by cases a <;> decide
  omega

/-- **The buffer becomes a free block.** -/
theorem formatted_flush (h : Formatted a s layout spare) :
    ∃ layout', Formatted a (s.replaceLinearAllocationBuffer a ⟨0, 0⟩ 0) layout' spare ∧
      (∀ q, ∀ y ∈ layout q, y.kind = .free → y ∈ layout' q) ∧
      ∀ i e, e ∈ (s.replaceLinearAllocationBuffer a ⟨0, 0⟩ 0).freeList.heads i →
        e ∈ s.freeList.heads i ∨ 0 < s.lab.size ∧ e = s.lab.start := by
  rw [Space.replaceLinearAllocationBuffer]
  by_cases hpos : 0 < s.lab.size
  · obtain ⟨hpage, l, l', hlayout⟩ := h.exists_buffer hpos
    let x : Block Use := ⟨s.lab.start.offset, s.lab.start.offset + s.lab.size, .buffer⟩
    let y : Block Use := ⟨s.lab.start.offset, s.lab.start.offset + s.lab.size, .free⟩
    have hx : x ∈ layout s.lab.start.block := hlayout ▸ mem_append_right _ mem_cons_self
    have hsize : x.size = s.lab.size := size_mk ..
    have hlt : s.lab.size < kPageSize := hsize ▸ size_lt_kPageSize h hpage hx
    have hdvd : a.granularity ∣ s.lab.size := hsize ▸ h.laid.aligned _ hpage x hx
    let memory := Function.update s.memory s.lab.start (.create a s.lab.size kFreeListGCInfoIndex)
    have hlaid : Laid a memory ⟨⟨0, 0⟩, 0⟩ s.normalPages
        (Function.update layout s.lab.start.block (l ++ [y] ++ l')) := by
      refine h.laid.replace hpage hlayout (tile_singleton (Nat.lt_add_of_pos_right hpos))
        (fun z hz => ?_) (fun z hz => ?_) (fun address hout => ?_) (.inr (.inl rfl))
      · rw [mem_singleton.mp hz, size_mk]
        exact hdvd
      · rw [mem_singleton.mp hz]
        show (memory s.lab.start).allocatedSize a = y.size ∧ (memory s.lab.start).isFree = true
        rw [show memory s.lab.start = _ from update_self .., size_mk]
        exact ⟨allocatedSize_create hdvd hlt, rfl⟩
      · refine update_of_ne ?_ ..
        rintro rfl
        rcases hout rfl with hlt | hle
        · exact Nat.lt_irrefl _ hlt
        · have hle : s.lab.start.offset + s.lab.size ≤ s.lab.start.offset := hle
          omega
    have hnew : ∀ i, s.lab.start ∉ s.freeList.heads i := by
      intro i he
      obtain ⟨-, z, hz⟩ := h.listed.entry i _ he
      have heq := (h.laid.tile _ hpage).eq_of_start hz.mem hx hz.start
      have hfree := hz.free
      rw [heq] at hfree
      exact nomatch hfree
    have hlisted : Listed a (s.freeList.add a s.memory ⟨s.lab.start, s.lab.size⟩).1 s.normalPages
        (Function.update layout s.lab.start.block (l ++ [y] ++ l')) := by
      have hold : Listed a s.freeList s.normalPages
          (Function.update layout s.lab.start.block (l ++ [y] ++ l')) := by
        refine h.listed.replace hlayout hpage (fun i e he => .inl ⟨he, ?_⟩) h.listed.nodup
          h.listed.biggest
        rintro rfl
        exact hnew i he
      have hy : y ∈ Function.update layout s.lab.start.block (l ++ [y] ++ l') s.lab.start.block := by
        rw [update_self]
        exact mem_append_left _ (mem_append_right _ (mem_singleton_self y))
      have hadd : Listed a (s.freeList.add a s.memory ⟨s.lab.start, y.size⟩).1 _ _ :=
        hold.add hpage hy rfl rfl hnew
      rwa [size_mk] at hadd
    have hheads : ∀ i, ∀ e ∈ s.freeList.heads i,
        e ∈ (s.freeList.add a s.memory ⟨s.lab.start, s.lab.size⟩).1.heads i := by
      intro i e he
      rw [heads_add]
      split
      · exact mem_cons_of_mem _ he
      · exact he
    rw [if_pos hpos]
    refine ⟨_, h.replace hpage hlayout (fun hobject => nomatch hobject) ?_ hlisted
      (fun z hz _ hsize => ?_) hheads (.inl rfl) (fun hpos => absurd hpos (Nat.lt_irrefl 0)) (fun z => ?_) h.liveNodup rfl rfl rfl,
      fun q z hz hfree => ?_, fun i e he => ?_⟩
    · show Laid a (s.freeList.add a s.memory ⟨s.lab.start, s.lab.size⟩).2 _ _ _
      rw [memory_add]
      exact hlaid
    · rw [mem_singleton.mp hz, size_mk] at hsize ⊢
      show s.lab.start ∈ (s.freeList.add a s.memory ⟨s.lab.start, s.lab.size⟩).1.heads _
      rw [heads_add, if_pos ⟨hsize, rfl⟩]
      exact mem_cons_self
    · refine ⟨.inl, fun hor => hor.resolve_right ?_⟩
      rintro ⟨-, w, hw, -, hobject⟩
      rw [mem_singleton.mp hw] at hobject
      exact nomatch hobject
    · by_cases hq : q = s.lab.start.block
      · subst hq
        rw [update_self]
        refine mem_replace hlayout hz ?_
        rintro rfl
        exact nomatch hfree
      · rw [update_of_ne hq]
        exact hz
    · exact (mem_heads_add he).imp_right fun heq => ⟨hpos, heq⟩
  · rw [if_neg hpos]
    refine ⟨layout, ⟨⟨h.laid.tile, fun p hp x hx => ?_, h.laid.aligned⟩, h.listed, h.available,
      fun hpos => absurd hpos (Nat.lt_irrefl 0), h.live, h.liveNodup, h.blocks, h.fresh⟩,
      fun q y hy _ => hy, fun i e he => .inl he⟩
    refine (h.laid.described p hp x hx).congr rfl fun hkind => ?_
    have hsize := h.laid.size_pos hp hx
    rw [h.laid.buffer hp hx hkind] at hpos
    exact absurd hsize hpos

/-- **A free block becomes the buffer.** -/
theorem formatted_setBuffer (h : Formatted a s layout (some ⟨p, x.start⟩)) (hnone : s.lab.size = 0)
    (hp : p ∈ s.normalPages) (hx : x ∈ layout p) (hfree : x.kind = .free)
    (hnew : ∀ i, ⟨p, x.start⟩ ∉ s.freeList.heads i) :
    ∃ layout', Formatted a { s with lab := ⟨⟨p, x.start⟩, x.size⟩ } layout' := by
  obtain ⟨l, l', hlayout⟩ := append_of_mem hx
  have hlt := ((h.laid.tile p hp).mem hx).2.1
  let y : Block Use := ⟨x.start, x.stop, .buffer⟩
  refine ⟨_, h.replace (m := [y]) hp hlayout (fun hobject => nomatch hfree.symm.trans hobject) ?_ ?_
    (fun z hz hfree => ?_) (fun _ _ he => he) (.inr rfl) (fun _ => ⟨rfl, ?_⟩) (fun z => ?_) h.liveNodup rfl rfl rfl⟩
  · refine h.laid.replace hp hlayout (tile_singleton hlt) (fun z hz => ?_) (fun z hz => ?_)
      (fun _ _ => rfl) (.inr (.inr hnone))
    · rw [mem_singleton.mp hz]
      exact h.laid.aligned p hp x hx
    · rw [mem_singleton.mp hz]
      rfl
  · refine h.listed.replace hlayout hp (fun i e he => .inl ⟨he, ?_⟩) h.listed.nodup h.listed.biggest
    rintro rfl
    exact hnew i he
  · rw [mem_singleton.mp hz] at hfree
    exact nomatch hfree
  · have hstop : x.start + x.size = x.stop := Nat.add_sub_cancel' (Nat.le_of_lt hlt)
    show (⟨x.start, x.start + x.size, .buffer⟩ : Block Use) ∈ [y]
    rw [hstop]
    exact mem_singleton_self y
  · refine ⟨.inl, fun hor => hor.resolve_right ?_⟩
    rintro ⟨-, w, hw, -, hobject⟩
    rw [mem_singleton.mp hw] at hobject
    exact nomatch hobject

/-- **A new page becomes the buffer.** -/
theorem formatted_newPage (host : Host) (h : Formatted a s layout) (hnone : s.lab.size = 0) :
    ∃ layout', Formatted a { s.createPage host with
      lab := ⟨⟨s.nextBlock, 0⟩, payloadSize a⟩ } layout' := by
  let y : Block Use := ⟨0, payloadSize a, .buffer⟩
  have hold : ∀ b ∈ s.normalPages ++ s.largeObjects, b ≠ s.nextBlock :=
    fun b hb => Nat.ne_of_lt (h.fresh b hb)
  have hpages : ∀ q ∈ s.normalPages, Function.update layout s.nextBlock [y] q = layout q :=
    fun q hq => update_of_ne (hold q (mem_append_left _ hq)) ..
  have hself : Function.update layout s.nextBlock [y] s.nextBlock = [y] := update_self ..
  have hmem : ∀ {q}, q ∈ s.normalPages ++ [s.nextBlock] → q ∈ s.normalPages ∨ q = s.nextBlock := by
    intro q hq
    rwa [mem_append, mem_singleton] at hq
  refine ⟨Function.update layout s.nextBlock [y], ⟨?_, ?_, ?_⟩, ⟨fun i e he => ?_, h.listed.nodup,
    h.listed.biggest⟩, fun q hq x hx hfree hsize hne => ?_, fun _ => ⟨?_, ?_⟩, fun z => ?_,
    h.liveNodup, ?_, fun b hb => ?_⟩
  · intro q hq
    rcases hmem hq with hq | rfl
    · rw [hpages q hq]
      exact h.laid.tile q hq
    · rw [hself]
      exact ⟨rfl, by cases a <;> decide, rfl⟩
  · intro q hq x hx
    rcases hmem hq with hq | rfl
    · rw [hpages q hq] at hx
      refine (h.laid.described q hq x hx).congr rfl fun hkind => ?_
      have hpos := h.laid.size_pos hq hx
      have hbuffer := h.laid.buffer hq hx hkind
      rw [hbuffer] at hnone
      exact absurd hnone (Nat.ne_of_gt hpos)
    · rw [hself, mem_singleton] at hx
      rw [hx]
      rfl
  · intro q hq x hx
    rcases hmem hq with hq | rfl
    · rw [hpages q hq] at hx
      exact h.laid.aligned q hq x hx
    · rw [hself, mem_singleton] at hx
      rw [hx]
      cases a <;> decide
  · obtain ⟨hpage, x, hx⟩ := h.listed.entry i e he
    refine ⟨mem_append_left _ hpage, x, ?_, hx.start, hx.free, hx.size, hx.bucket⟩
    rw [hpages _ hpage]
    exact hx.mem
  · rcases hmem hq with hq | rfl
    · rw [hpages q hq] at hx
      exact h.available q hq x hx hfree hsize hne
    · rw [hself, mem_singleton] at hx
      rw [hx] at hfree
      exact nomatch hfree
  · exact mem_append_right _ (mem_singleton_self _)
  · show (⟨0, 0 + payloadSize a, .buffer⟩ : Block Use) ∈ Function.update layout s.nextBlock [y] _
    rw [hself, Nat.zero_add]
    exact mem_singleton_self y
  · refine (h.live z).trans ?_
    refine or_congr_left ⟨fun ⟨hz, hobject⟩ => ?_, fun ⟨hz, hobject⟩ => ?_⟩
    · rw [hpages _ hz]
      exact ⟨mem_append_left _ hz, hobject⟩
    · rcases hmem hz with hz | hz
      · rw [hpages _ hz] at hobject
        exact ⟨hz, hobject⟩
      · rw [hz, hself] at hobject
        obtain ⟨x, hx, -, hkind⟩ := hobject
        rw [mem_singleton.mp hx] at hkind
        exact nomatch hkind
  · show (s.normalPages ++ [s.nextBlock] ++ s.largeObjects).Nodup
    rw [List.append_assoc, singleton_append]
    refine (perm_middle.nodup_iff).mpr (nodup_cons.mpr ⟨fun hb => ?_, h.blocks⟩)
    exact hold _ hb rfl
  · have hb : b ∈ s.normalPages ++ [s.nextBlock] ++ s.largeObjects := hb
    rw [List.append_assoc, singleton_append, mem_append, mem_cons,
      or_left_comm, ← mem_append] at hb
    rcases hb with rfl | hb
    · exact Nat.lt_succ_self _
    · exact Nat.lt_succ_of_lt (h.fresh b hb)

/-- **An object is cut from the buffer.** -/
theorem formatted_place {size index : Nat} (h : Formatted a s layout) (hpos : 0 < size)
    (hsize : size ≤ s.lab.size) (hdvd : a.granularity ∣ size) (hindex : 0 < index)
    (hlt : index < 2 ^ 14) : ∃ layout', Formatted a (s.place a size index) layout' := by
  obtain ⟨hpage, l, l', hlayout⟩ := h.exists_buffer (Nat.lt_of_lt_of_le hpos hsize)
  set p := s.lab.start.block with hp
  let x : Block Use := ⟨s.lab.start.offset, s.lab.start.offset + s.lab.size, .buffer⟩
  let y : Block Use := ⟨s.lab.start.offset, s.lab.start.offset + size, .object⟩
  let z : Block Use := ⟨s.lab.start.offset + size, s.lab.start.offset + s.lab.size, .buffer⟩
  have hx : x ∈ layout p := hlayout ▸ mem_append_right _ mem_cons_self
  have hxsize : x.size = s.lab.size := size_mk ..
  have hysize : y.size = size := size_mk ..
  have hzsize : z.size = s.lab.size - size := Nat.add_sub_add_left ..
  have hlab : s.lab.size < kPageSize := hxsize ▸ size_lt_kPageSize h hpage hx
  have hlabdvd : a.granularity ∣ s.lab.size := hxsize ▸ h.laid.aligned p hpage x hx
  let m : List (Block Use) := if size < s.lab.size then [y, z] else [y]
  have hm : ∀ w ∈ m, w = y ∨ w = z ∧ size < s.lab.size := by
    intro w hw
    by_cases hrest : size < s.lab.size
    · have hw : w ∈ if size < s.lab.size then [y, z] else [y] := hw
      rw [if_pos hrest, mem_cons, mem_singleton] at hw
      exact hw.imp_right fun hw => ⟨hw, hrest⟩
    · have hw : w ∈ if size < s.lab.size then [y, z] else [y] := hw
      rw [if_neg hrest, mem_singleton] at hw
      exact .inl hw
  have hym : y ∈ m := by
    show y ∈ if size < s.lab.size then [y, z] else [y]
    split
    · exact mem_cons_self
    · exact mem_singleton_self y
  have hylt : y.start < y.stop := Nat.lt_add_of_pos_right hpos
  have htile : Tile x.start m x.stop := by
    show Tile x.start (if size < s.lab.size then [y, z] else [y]) x.stop
    split
    · rename_i hrest
      refine ⟨rfl, hylt, rfl, ?_, rfl⟩
      show s.lab.start.offset + size < s.lab.start.offset + s.lab.size
      omega
    · rename_i hrest
      refine ⟨rfl, hylt, ?_⟩
      show s.lab.start.offset + size = s.lab.start.offset + s.lab.size
      omega
  refine ⟨_, h.replace (m := m) hpage hlayout (fun hobject => nomatch hobject) ?_ ?_
    (fun w hw hfree => ?_) (fun _ _ he => he) (.inl rfl) (fun hrest => ⟨hp.symm, ?_⟩) (fun w => ?_) ?_ rfl rfl rfl⟩
  · refine h.laid.replace hpage hlayout htile (fun w hw => ?_) (fun w hw => ?_)
      (fun address hout => ?_) (.inr (.inl rfl))
    · rcases hm w hw with rfl | ⟨rfl, -⟩
      · rw [hysize]
        exact hdvd
      · rw [hzsize]
        exact Nat.dvd_sub hlabdvd hdvd
    · rcases hm w hw with rfl | ⟨rfl, -⟩
      · show (Function.update s.memory s.lab.start _ s.lab.start).allocatedSize a = y.size ∧
          (Function.update s.memory s.lab.start _ s.lab.start).isFree = false
        rw [update_self, hysize]
        exact ⟨allocatedSize_create hdvd (Nat.lt_of_le_of_lt hsize hlab), isFree_create hindex hlt⟩
      · show LinearAllocationBuffer.mk _ _ = ⟨_, z.size⟩
        rw [hzsize]
    · refine update_of_ne ?_ ..
      rintro rfl
      rcases hout rfl with hlt | hle
      · exact Nat.lt_irrefl _ hlt
      · have hle : s.lab.start.offset + s.lab.size ≤ s.lab.start.offset := hle
        omega
  · refine h.listed.replace hlayout hpage (fun i e he => .inl ⟨he, ?_⟩) h.listed.nodup
      h.listed.biggest
    rintro rfl
    obtain ⟨-, w, hw⟩ := h.listed.entry i _ he
    have heq := (h.laid.tile p hpage).eq_of_start hw.mem hx hw.start
    have hfree := hw.free
    rw [heq] at hfree
    exact nomatch hfree
  · rcases hm w hw with rfl | ⟨rfl, -⟩ <;> exact nomatch hfree
  · have hrest : 0 < s.lab.size - size := hrest
    have hstop : s.lab.start.offset + size + (s.lab.size - size) =
        s.lab.start.offset + s.lab.size := by omega
    show (⟨s.lab.start.offset + size, s.lab.start.offset + size + (s.lab.size - size), .buffer⟩ :
      Block Use) ∈ if size < s.lab.size then [y, z] else [y]
    rw [hstop, if_pos (by omega)]
    exact mem_cons_of_mem _ (mem_singleton_self z)
  · show w ∈ s.live ++ [s.lab.start] ↔ _
    rw [mem_append, mem_singleton]
    refine or_congr_right ⟨?_, ?_⟩
    · rintro rfl
      exact ⟨rfl, y, hym, rfl, rfl⟩
    · rintro ⟨hblock, v, hv, hstart, hkind⟩
      rcases hm v hv with rfl | ⟨rfl, -⟩
      · cases w
        exact congrArg₂ Address.mk hblock hstart.symm
      · exact nomatch hkind
  · show (s.live ++ [s.lab.start]).Nodup
    rw [List.nodup_append]
    refine ⟨h.liveNodup, pairwise_singleton _ _, fun w hw v hv => ?_⟩
    rw [mem_singleton.mp hv]
    rintro rfl
    rcases (h.live _).mp hw with ⟨-, u, hu, hstart, hkind⟩ | ⟨hlarge, -⟩
    · have heq := (h.laid.tile p hpage).eq_of_start hu hx hstart
      rw [heq] at hkind
      exact nomatch hkind
    · exact (List.nodup_append.mp h.blocks).2.2 _ hpage _ hlarge rfl

/-- A large object has a block of its own. -/
theorem formatted_allocateLarge {size index : Nat} (h : Formatted a s layout) :
    Formatted a (s.allocateLarge a size index) layout where
  laid := h.laid.congr fun address hpage => by
    refine update_of_ne ?_ ..
    rintro rfl
    exact Nat.lt_irrefl _ (h.fresh _ (mem_append_left _ hpage))
  listed := h.listed
  available := h.available
  buffer := h.buffer
  live z := by
    show z ∈ s.live ++ [⟨s.nextBlock, 0⟩] ↔ _ ∨ z.block ∈ s.largeObjects ++ [s.nextBlock] ∧ _
    rw [mem_append, mem_singleton, h.live, mem_append, mem_singleton, or_and_right,
      or_assoc]
    refine or_congr_right (or_congr_right ⟨?_, ?_⟩)
    · rintro rfl
      exact ⟨rfl, rfl⟩
    · rintro ⟨hblock, hoffset⟩
      cases z
      exact congrArg₂ Address.mk hblock hoffset
  liveNodup := by
    refine List.nodup_append.mpr ⟨h.liveNodup, pairwise_singleton _ _, fun w hw v hv => ?_⟩
    rw [mem_singleton.mp hv]
    rintro rfl
    rcases (h.live _).mp hw with ⟨hpage, -⟩ | ⟨hlarge, -⟩
    · exact Nat.lt_irrefl _ (h.fresh _ (mem_append_left _ hpage))
    · exact Nat.lt_irrefl _ (h.fresh _ (mem_append_right _ hlarge))
  blocks := by
    show (s.normalPages ++ (s.largeObjects ++ [s.nextBlock])).Nodup
    rw [← List.append_assoc, List.nodup_append]
    refine ⟨h.blocks, pairwise_singleton _ _, fun b hb c hc => ?_⟩
    rw [mem_singleton.mp hc]
    exact Nat.ne_of_lt (h.fresh b hb)
  fresh b hb := by
    have hb : b ∈ s.normalPages ++ (s.largeObjects ++ [s.nextBlock]) := hb
    rw [← List.append_assoc, mem_append, mem_singleton] at hb
    rcases hb with hb | rfl
    · exact Nat.lt_succ_of_lt (h.fresh b hb)
    · exact Nat.lt_succ_self _

/-! ### Refilling the buffer -/

/-- What the loop of `FreeList::Allocate` finds: nothing, or a block of the highest bucket that has
one, large enough. -/
theorem allocateFrom_cases {list : FreeList} {n : Nat} (memory : Memory) (size : Nat)
    (hempty : ∀ i, n < i → list.heads i = []) :
    (∃ k, (∀ i, k < i → list.heads i = []) ∧
      FreeList.allocateFrom a memory size n list = (none, ⟨list.heads, k⟩)) ∨
    (∃ index entry rest, list.heads index = entry :: rest ∧ (∀ i, index < i → list.heads i = []) ∧
      (size ≤ 2 ^ index ∨ size ≤ (memory entry).allocatedSize a) ∧
      FreeList.allocateFrom a memory size n list =
        (some ⟨entry, (memory entry).allocatedSize a⟩,
          ⟨Function.update list.heads index rest, index⟩)) := by
  induction n with
  | zero => exact .inl ⟨0, hempty, rfl⟩
  | succ n ih =>
    rw [FreeList.allocateFrom]
    split
    · rename_i hnone
      split
      · exact .inl ⟨n + 1, hempty, rfl⟩
      · refine ih fun i hi => ?_
        rcases Nat.lt_or_eq_of_le (Nat.succ_le_of_lt hi) with hlt | rfl
        · exact hempty i hlt
        · exact hnone
    · rename_i entry rest hheads
      split
      · exact .inl ⟨n + 1, hempty, rfl⟩
      · rename_i hfits
        rw [not_and_or, Nat.not_lt, Nat.not_lt] at hfits
        exact .inr ⟨n + 1, entry, rest, hheads, hempty, hfits, rfl⟩

theorem two_pow_le_of_isEntry {i : Nat} {e : Address} (h : Formatted a s layout)
    (hpage : e.block ∈ s.normalPages) (hx : IsEntry a layout i e x) : 2 ^ i ≤ x.size := by
  have hpos := h.laid.size_pos hpage hx.mem
  have hlt := size_lt_kPageSize h hpage hx.mem
  have hlt32 : x.size < 2 ^ 32 := Nat.lt_trans hlt (by decide)
  rw [← hx.bucket, bucketIndexForSize_eq hpos hlt32]
  exact Nat.log2_self_le (Nat.ne_of_gt hpos)

/-- **`FreeList::Allocate`** takes a block out of the free list that is large enough. -/
theorem formatted_allocate (size : Nat) (h : Formatted a s layout) :
    (∃ list, s.freeList.allocate a s.memory size = (none, list) ∧
      Formatted a { s with freeList := list } layout) ∨
    (∃ block list x, s.freeList.allocate a s.memory size = (some block, list) ∧
      Formatted a { s with freeList := list } layout (some block.address) ∧
      block.address.block ∈ s.normalPages ∧
      x ∈ layout block.address.block ∧ x.start = block.address.offset ∧ x.size = block.size ∧
      x.kind = .free ∧ size ≤ block.size ∧ ∀ i, block.address ∉ list.heads i) := by
  rw [FreeList.allocate]
  rcases allocateFrom_cases (a := a) s.memory size h.listed.biggest with
    ⟨k, hempty, heq⟩ | ⟨index, entry, rest, hheads, hempty, hfits, heq⟩
  · refine .inl ⟨_, heq, ?_⟩
    exact ⟨h.laid, ⟨h.listed.entry, h.listed.nodup, hempty⟩, h.available, h.buffer, h.live,
      h.liveNodup, h.blocks, h.fresh⟩
  · have hmem : entry ∈ s.freeList.heads index := hheads ▸ mem_cons_self
    obtain ⟨hpage, x, hx⟩ := h.listed.entry index entry hmem
    have hnodup := h.listed.nodup index
    rw [hheads, nodup_cons] at hnodup
    have hsize : (s.memory entry).allocatedSize a = x.size := by
      have hdescribed := h.laid.described _ hpage x hx.mem
      rw [Described, hx.free, hx.start] at hdescribed
      exact hdescribed.1
    have hsub : ∀ i e, e ∈ Function.update s.freeList.heads index rest i →
        e ∈ s.freeList.heads i ∧ (i = index → e ∈ rest) := by
      intro i e he
      by_cases hi : i = index
      · subst hi
        rw [update_self] at he
        exact ⟨hheads ▸ mem_cons_of_mem _ he, fun _ => he⟩
      · rw [update_of_ne hi] at he
        exact ⟨he, fun heq => absurd heq hi⟩
    refine .inr ⟨_, _, x, heq, ⟨h.laid, ⟨fun i e he => ?_, fun i => ?_, fun i hi => ?_⟩,
      fun q hq y hy hfree hysize hne => ?_, h.buffer, h.live, h.liveNodup, h.blocks, h.fresh⟩, hpage, hx.mem, hx.start, hsize.symm, hx.free, ?_,
      fun i he => ?_⟩
    · exact h.listed.entry i e (hsub i e he).1
    · show (Function.update s.freeList.heads index rest i).Nodup
      by_cases hi : i = index
      · subst hi
        rw [update_self]
        exact hnodup.2
      · rw [update_of_ne hi]
        exact h.listed.nodup i
    · have hi : index < i := hi
      show Function.update s.freeList.heads index rest i = []
      rw [update_of_ne (Nat.ne_of_gt hi)]
      exact hempty i hi
    · have hold := h.available q hq y hy hfree hysize fun heq => nomatch heq
      show _ ∈ Function.update s.freeList.heads index rest _
      by_cases hi : bucketIndexForSize y.size = index
      · rw [hi, hheads] at hold
        rw [hi, update_self]
        refine (mem_cons.mp hold).resolve_left fun heq => hne ?_
        exact congrArg some heq.symm
      · rw [update_of_ne hi]
        exact hold
    · show size ≤ (s.memory entry).allocatedSize a
      rcases hfits with hfits | hfits
      · rw [hsize]
        exact Nat.le_trans hfits (two_pow_le_of_isEntry h hpage hx)
      · exact hfits
    · -- in another bucket it would have another size
      obtain ⟨hold, hrest⟩ := hsub i entry he
      obtain ⟨-, y, hy⟩ := h.listed.entry i entry hold
      have heq := (h.laid.tile _ hpage).eq_of_start hy.mem hx.mem (hy.start.trans hx.start.symm)
      have hi : i = index := by rw [← hy.bucket, heq, hx.bucket]
      exact hnodup.1 (hrest hi)

theorem replace_createPage (s : Space) (host : Host) (start : Address) (size : Nat) :
    (s.createPage host).replaceLinearAllocationBuffer a start size =
      { (s.replaceLinearAllocationBuffer a ⟨0, 0⟩ 0).createPage host with lab := ⟨start, size⟩ } := by
  rw [Space.replaceLinearAllocationBuffer, Space.replaceLinearAllocationBuffer]
  split <;> split <;> first | rfl | contradiction

theorem flush_members (s : Space) :
    (s.replaceLinearAllocationBuffer a ⟨0, 0⟩ 0).normalPages = s.normalPages ∧
      (s.replaceLinearAllocationBuffer a ⟨0, 0⟩ 0).largeObjects = s.largeObjects ∧
      (s.replaceLinearAllocationBuffer a ⟨0, 0⟩ 0).nextBlock = s.nextBlock ∧
      (s.replaceLinearAllocationBuffer a ⟨0, 0⟩ 0).live = s.live ∧
      (s.replaceLinearAllocationBuffer a ⟨0, 0⟩ 0).finalized = s.finalized ∧
      (s.replaceLinearAllocationBuffer a ⟨0, 0⟩ 0).sandboxed = s.sandboxed ∧
      (s.replaceLinearAllocationBuffer a ⟨0, 0⟩ 0).returned = s.returned := by
  rw [Space.replaceLinearAllocationBuffer]
  split <;> exact ⟨rfl, rfl, rfl, rfl, rfl, rfl, rfl⟩

/-- **Refilling the buffer**, which makes it large enough. -/
theorem formatted_refill {size : Nat} (host : Host) (h : Formatted a s layout)
    (hsize : size ≤ payloadSize a) :
    ∃ layout', Formatted a (s.refillLinearAllocationBuffer a size host).2 layout' ∧
      ((s.refillLinearAllocationBuffer a size host).1 = true →
        size ≤ (s.refillLinearAllocationBuffer a size host).2.lab.size) := by
  rw [Space.refillLinearAllocationBuffer]
  rcases formatted_allocate size h with ⟨list, heq, hlist⟩ |
    ⟨block, list, x, heq, hlist, hpage, hx, hstart, hxsize, hfree, hle, hnew⟩
  · rw [heq]
    dsimp only
    by_cases hhost : host = .exhausted
    · rw [if_pos hhost]
      exact ⟨layout, hlist, fun hok => nomatch hok⟩
    · obtain ⟨layout', hflush, -⟩ := formatted_flush hlist
      obtain ⟨-, -, hnext, -⟩ := flush_members (a := a) { s with freeList := list }
      obtain ⟨layout'', hpage⟩ := formatted_newPage host hflush rfl
      rw [if_neg hhost]
      refine ⟨layout'', ?_, fun _ => hsize⟩
      rw [hnext] at hpage
      show Formatted a (Space.replaceLinearAllocationBuffer a _ _ _) layout''
      rw [replace_createPage]
      exact hpage
  · rw [heq]
    obtain ⟨layout', hflush, hkept, hheads⟩ := formatted_flush hlist
    obtain ⟨hpages, -⟩ := flush_members (a := a) { s with freeList := list }
    have hmem := hkept _ x hx hfree
    have haddress : (⟨block.address.block, x.start⟩ : Address) = block.address := by
      rw [hstart]
    rw [← haddress] at hflush
    obtain ⟨layout'', hset⟩ := formatted_setBuffer hflush rfl (hpages.symm ▸ hpage) hmem hfree (by
      intro i he
      rw [haddress] at he
      rcases hheads i _ he with he | ⟨hpos, he⟩
      · exact hnew i he
      · -- the block is free, and the old buffer was not
        obtain ⟨hbufferPage, hbuffer⟩ := hlist.buffer hpos
        have hbuffer : (⟨s.lab.start.offset, s.lab.start.offset + s.lab.size, .buffer⟩ : Block Use) ∈
            layout s.lab.start.block := hbuffer
        have he : block.address = s.lab.start := he
        rw [← he] at hbuffer
        have heq := (h.laid.tile _ hpage).eq_of_start hx hbuffer hstart
        rw [heq] at hfree
        exact nomatch hfree)
    refine ⟨layout'', ?_, fun _ => hle⟩
    rw [haddress, hxsize] at hset
    exact hset

end Buffer

end Voodoo.Cppgc
