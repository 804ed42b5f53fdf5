import Mathlib.Data.List.Perm.Basic
import Mathlib.Data.Nat.Bitwise
import Voodoo.Lib.Machine
import Voodoo.Lib.Spans

/-!
# The allocator of the cage

`Sandbox` hands out blocks of one array of the host, first from a list of the blocks that were given
back, else from behind all blocks so far.  A `size_t` and an address have `w` bits, as on the host.

The sum `head + size` that `AllocateFromFreeList` compares with the size of a free block is made in
`size_t`.  Where it wraps, a block passes that is far too small; the bump path subtracts instead.
A request `Fits` when no free block passes in that way.

* `cage_sound`: in every run of the cage whose requests all fit, the blocks that are out are
  disjoint, aligned and inside, and the free list is in order, with gaps, and apart from them;
* `not_cage_sound`: a request that does not, in a cage of 3 GiB on a host of 32 bits.
-/

namespace Voodoo.Sandbox

open Machine Spans List

variable {w : Nat}

/-- What `Initialize` has from the host: an array object, whose end is an address too, and how its
pages come. -/
structure Cage (w : Nat) where
  base : BitVec w
  size : BitVec w
  windows : Bool
  base_pos : 0 < base.toNat
  size_pos : 0 < size.toNat
  end_lt : base.toNat + size.toNat < 2 ^ w

/-- `FreeBlock`. -/
structure FreeBlock (w : Nat) where
  offset : BitVec w
  size : BitVec w
  deriving DecidableEq

/-- The members of `Sandbox` that change. -/
structure SandboxState (w : Nat) where
  bumpOffset : BitVec w
  committed : BitVec w
  freeList : List (FreeBlock w)

/-- `kCommitStep`. -/
def commitStep (w : Nat) : BitVec w := BitVec.ofNat w (64 * 1024)

/-- `AlignUp`. -/
def alignUp (v alignment : BitVec w) : BitVec w := (v + alignment - 1) &&& ~~~(alignment - 1)

namespace Cage

variable (c : Cage w)

/-- `end_`. -/
def endAddress : BitVec w := c.base + c.size

/-- `Contains`. -/
def contains (addr : BitVec w) : Bool := c.base ≤ addr ∧ addr < c.endAddress

/-- `Initialize`. -/
def initialState : SandboxState w where
  bumpOffset := 0
  committed := if c.windows then 0 else c.size
  freeList := []

/-- `CommitTo`; `granted` is what `VirtualAlloc` answers. -/
def commitTo (s : SandboxState w) (last : BitVec w) (granted : Bool) : Bool × SandboxState w :=
  if last ≤ s.committed then (true, s)
  else if c.windows then
    let target := (last + commitStep w - 1) / commitStep w * commitStep w
    let target := if c.size < target then c.size else target
    if granted then (true, { s with committed := target }) else (false, s)
  else (last ≤ c.size, s)

/-- The bytes that the alignment skips at the start of a free block. -/
def head (b : FreeBlock w) (alignment : BitVec w) : BitVec w :=
  alignUp (c.base + b.offset) alignment - (c.base + b.offset)

/-- `std::sort` by the offsets. -/
def sortBlocks (blocks : List (FreeBlock w)) : List (FreeBlock w) :=
  blocks.mergeSort fun a b => a.offset ≤ b.offset

/-- The loop of `AllocateFromFreeList`, behind the blocks `skipped`. -/
def allocateFromFreeListLoop (size alignment : BitVec w) (skipped : List (FreeBlock w)) :
    List (FreeBlock w) → Option (BitVec w × List (FreeBlock w))
  | [] => none
  | b :: rest =>
    let head := c.head b alignment
    if b.size < head + size then allocateFromFreeListLoop size alignment (skipped ++ [b]) rest
    else
      let tail := b.size - head - size
      let blocks := skipped ++ rest
      let blocks := if 0 < head then blocks ++ [⟨b.offset, head⟩] else blocks
      let blocks := if 0 < tail then blocks ++ [⟨b.offset + head + size, tail⟩] else blocks
      some (c.base + (b.offset + head), sortBlocks blocks)

/-- `AllocateFromFreeList`. -/
def allocateFromFreeList (s : SandboxState w) (size alignment : BitVec w) :
    Option (BitVec w × List (FreeBlock w)) :=
  c.allocateFromFreeListLoop size alignment [] s.freeList

/-- What `TryAllocate` does behind the free list; a null result is `none`. -/
def bumpAllocate (s : SandboxState w) (size alignment : BitVec w) (granted : Bool) :
    Option (BitVec w) × SandboxState w :=
  let aligned := alignUp (c.base + s.bumpOffset) alignment
  let alignedOffset := aligned - c.base
  if c.size < alignedOffset ∨ c.size - alignedOffset < size then (none, s)
  else
    match c.commitTo s (alignedOffset + size) granted with
    | (false, s) => (none, s)
    | (true, s) => (some (c.base + alignedOffset), { s with bumpOffset := alignedOffset + size })

/-- `TryAllocate`; a null result is `none`.  An address of null from the free list is none either,
but the list has changed. -/
def tryAllocate (s : SandboxState w) (size alignment : BitVec w) (granted : Bool) :
    Option (BitVec w) × SandboxState w :=
  match c.allocateFromFreeList s size alignment with
  | some (reused, freeList) =>
    if reused = 0 then c.bumpAllocate { s with freeList } size alignment granted
    else (some reused, { s with freeList })
  | none => c.bumpAllocate s size alignment granted

/-- The block that is given back, in front of the blocks from its place on: `Free` coalesces it
with the next one. -/
def coalesceNext (b : FreeBlock w) : List (FreeBlock w) → FreeBlock w × List (FreeBlock w)
  | [] => (b, [])
  | next :: rest =>
    if b.offset + b.size = next.offset then (⟨b.offset, b.size + next.size⟩, rest)
    else (b, next :: rest)

/-- The blocks before the one that is given back: `Free` coalesces the last of them with it. -/
def coalescePrev (b : FreeBlock w) (rest : List (FreeBlock w)) :
    List (FreeBlock w) → List (FreeBlock w)
  | [] => b :: rest
  | [prev] =>
    if prev.offset + prev.size = b.offset then ⟨prev.offset, prev.size + b.size⟩ :: rest
    else prev :: b :: rest
  | a :: a' :: before => a :: coalescePrev b rest (a' :: before)

/-- The list of `Free` behind its insertion.  The list before it is in order, so `std::lower_bound`
splits it at the first block that does not start before `b`. -/
def insertBlock (freeList : List (FreeBlock w)) (b : FreeBlock w) : List (FreeBlock w) :=
  let (joined, rest) := coalesceNext b (freeList.dropWhile fun a => a.offset < b.offset)
  coalescePrev joined rest (freeList.takeWhile fun a => a.offset < b.offset)

/-- `Free`; `none` is a failed check. -/
def free (s : SandboxState w) (ptr size : BitVec w) : Option (SandboxState w) :=
  if ptr = 0 ∨ size = 0 then some s
  else if c.contains ptr then
    some { s with freeList := insertBlock s.freeList ⟨ptr - c.base, size⟩ }
  else none

end Cage

/-! ### Runs -/

/-- A block that is out, with the alignment that was asked for. -/
structure Block (w : Nat) where
  address : BitVec w
  size : BitVec w
  alignment : BitVec w
  deriving DecidableEq

/-- The allocator and what its clients hold. -/
structure CageRun (w : Nat) where
  state : SandboxState w
  live : List (Block w)

namespace Cage

variable (c : Cage w)

/-- What a client does; `granted` is the answer of the host, where it is asked. -/
inductive Op (w : Nat) where
  | allocate (size alignment : BitVec w) (granted : Bool)
  | free (b : Block w)

/-- One operation. -/
def step (x : CageRun w) : Op w → Option (CageRun w)
  | .allocate size alignment granted =>
    match c.tryAllocate x.state size alignment granted with
    | (none, s) => some ⟨s, x.live⟩
    | (some address, s) => some ⟨s, ⟨address, size, alignment⟩ :: x.live⟩
  | .free b => (c.free x.state b.address b.size).map fun s => ⟨s, x.live.erase b⟩

/-- The contract: sizes from 1 to that of the cage, powers of two, and blocks that are out. -/
def Allowed (x : CageRun w) : Op w → Prop
  | .allocate size alignment _ =>
    1 ≤ size.toNat ∧ size ≤ c.size ∧ ∃ k, alignment.toNat = 2 ^ k
  | .free b => b ∈ x.live

/-- No free block passes the comparison because `head + size` wraps. -/
def Fits (x : CageRun w) : Op w → Prop
  | .allocate size alignment _ => ∀ b ∈ x.state.freeList,
    c.head b alignment + size ≤ b.size → (c.head b alignment).toNat + size.toNat < 2 ^ w
  | .free _ => True

/-- The states of the runs of the cage; `none` is one that has failed a check. -/
abbrev Reachable : Option (CageRun w) → Prop :=
  Reaches (some ⟨c.initialState, []⟩) (fun s a => s.bind fun x => c.step x a)
    (fun s a => ∀ x, s = some x → c.Allowed x a)

/-- The states of the runs whose requests fit. -/
abbrev ReachableFitting : Option (CageRun w) → Prop :=
  Reaches (some ⟨c.initialState, []⟩) (fun s a => s.bind fun x => c.step x a)
    (fun s a => ∀ x, s = some x → c.Allowed x a ∧ c.Fits x a)

/-- The representation invariant. -/
structure Sound (x : CageRun w) : Prop where
  live_disjoint : x.live.Pairwise fun a b => a.address.toNat + a.size.toNat ≤ b.address.toNat ∨
    b.address.toNat + b.size.toNat ≤ a.address.toNat
  live_aligned : ∀ b ∈ x.live, b.alignment.toNat ∣ b.address.toNat
  live_inside : ∀ b ∈ x.live,
    c.base ≤ b.address ∧ b.address.toNat + b.size.toNat ≤ c.endAddress.toNat
  free_sorted : x.state.freeList.Pairwise fun a b => a.offset < b.offset
  free_nonempty : ∀ b ∈ x.state.freeList, 0 < b.size
  free_apart : x.state.freeList.Pairwise fun a b => a.offset.toNat + a.size.toNat < b.offset.toNat
  free_live : ∀ a ∈ x.state.freeList, ∀ b ∈ x.live,
    c.base.toNat + a.offset.toNat + a.size.toNat ≤ b.address.toNat ∨
      b.address.toNat + b.size.toNat ≤ c.base.toNat + a.offset.toNat
  free_below : ∀ b ∈ x.state.freeList, b.offset.toNat + b.size.toNat ≤ x.state.bumpOffset.toNat
  bump_le : x.state.bumpOffset ≤ c.size

end Cage

/-! ### Alignment -/

theorem toNat_and_not_mask {x m : BitVec w} {k : Nat} (hm : m.toNat = 2 ^ k - 1) :
    (x &&& ~~~m).toNat = x.toNat / 2 ^ k * 2 ^ k := by
  apply Nat.eq_of_testBit_eq
  intro i
  rw [Nat.testBit_mul_two_pow, Nat.testBit_div_two_pow, BitVec.testBit_toNat, BitVec.getLsbD_and,
    BitVec.getLsbD_not, ← BitVec.testBit_toNat x, ← BitVec.testBit_toNat m, hm,
    Nat.testBit_two_pow_sub_one]
  by_cases hi : i < w
  · by_cases hk : i < k
    · simp [hi, hk]
    · have hle := Nat.le_of_not_lt hk
      simp [hi, hk, hle]
  · have hx : x.toNat.testBit i = false := by
      rw [BitVec.testBit_toNat]
      exact BitVec.getLsbD_of_ge x i (Nat.le_of_not_lt hi)
    by_cases hk : k ≤ i
    · rw [hx, Bool.false_and, Nat.sub_add_cancel hk, hx, Bool.and_false]
    · simp [hx, hk]

/-- The multiple of the alignment from `v` on; where there is none below `2 ^ w`, null. -/
theorem alignUp_spec {v alignment : BitVec w} {k : Nat} (ha : alignment.toNat = 2 ^ k) :
    (v.toNat ≤ (alignUp v alignment).toNat ∧
        (alignUp v alignment).toNat < v.toNat + alignment.toNat ∧
        alignment.toNat ∣ (alignUp v alignment).toNat) ∨
      (alignUp v alignment).toNat = 0 ∧ 2 ^ w < v.toNat + alignment.toNat := by
  have hpos : 0 < 2 ^ k := Nat.two_pow_pos k
  have hlt : 2 ^ k < 2 ^ w := ha ▸ alignment.isLt
  have hone : (1 : BitVec w).toNat = 1 := by
    show 1 % 2 ^ w = 1
    exact Nat.mod_eq_of_lt (by omega)
  have hle : (1 : BitVec w) ≤ alignment := by
    rw [BitVec.le_def, hone, ha]
    exact hpos
  have hmask : (alignment - 1).toNat = 2 ^ k - 1 := by
    rw [BitVec.toNat_sub_of_le hle, hone, ha]
  have hsum : v + alignment - 1 = v + (alignment - 1) := by
    rw [BitVec.sub_eq_add_neg, BitVec.sub_eq_add_neg, BitVec.add_assoc]
  have hvalue : (alignUp v alignment).toNat =
      (v.toNat + (2 ^ k - 1)) % 2 ^ w / 2 ^ k * 2 ^ k := by
    rw [alignUp, toNat_and_not_mask hmask, hsum, BitVec.toNat_add, hmask]
  have hv := v.isLt
  rw [hvalue, ha]
  by_cases hwrap : v.toNat + (2 ^ k - 1) < 2 ^ w
  · left
    rw [Nat.mod_eq_of_lt hwrap]
    have hdiv := Nat.div_add_mod' (v.toNat + (2 ^ k - 1)) (2 ^ k)
    have hmod := Nat.mod_lt (v.toNat + (2 ^ k - 1)) hpos
    exact ⟨by omega, by omega, Nat.dvd_mul_left _ _⟩
  · right
    rw [Nat.mod_eq_sub_mod (Nat.le_of_not_lt hwrap), Nat.mod_eq_of_lt (by omega),
      Nat.div_eq_of_lt (by omega), Nat.zero_mul]
    exact ⟨rfl, by omega⟩

/-! ### The invariant -/

/-- The offsets of a free block. -/
def FreeBlock.span (b : FreeBlock w) : Span := ⟨b.offset.toNat, b.offset.toNat + b.size.toNat⟩

namespace Cage

variable (c : Cage w)

/-- The offsets of a block that is out. -/
def spanOf (b : Block w) : Span :=
  ⟨b.address.toNat - c.base.toNat, b.address.toNat - c.base.toNat + b.size.toNat⟩

/-- What holds between two operations. -/
structure Valid (x : CageRun w) : Prop where
  tiling : Tiling (x.state.freeList.map FreeBlock.span) (x.live.map c.spanOf)
    x.state.bumpOffset.toNat
  bump_le : x.state.bumpOffset.toNat ≤ c.size.toNat
  base_le : ∀ b ∈ x.live, c.base.toNat ≤ b.address.toNat
  aligned : ∀ b ∈ x.live, b.alignment.toNat ∣ b.address.toNat

variable {c} {x y : CageRun w}

theorem toNat_endAddress : c.endAddress.toNat = c.base.toNat + c.size.toNat :=
  BitVec.toNat_add_of_lt c.end_lt

theorem Valid.free_stop_le (h : c.Valid x) {b : FreeBlock w} (hb : b ∈ x.state.freeList) :
    b.offset.toNat + b.size.toNat ≤ c.size.toNat :=
  (h.tiling.free_below _ (List.mem_map_of_mem hb)).trans h.bump_le

theorem Valid.live_stop_le (h : c.Valid x) {b : Block w} (hb : b ∈ x.live) :
    b.address.toNat + b.size.toNat ≤ c.base.toNat + c.size.toNat := by
  have hstop : b.address.toNat - c.base.toNat + b.size.toNat ≤ x.state.bumpOffset.toNat :=
    h.tiling.live_below _ (List.mem_map_of_mem hb)
  have hbase := h.base_le b hb
  have hbump := h.bump_le
  omega

theorem sound_of_valid (h : c.Valid x) : c.Sound x where
  live_disjoint := by
    refine (pairwise_map.mp h.tiling.live_disjoint).imp_of_mem fun {a b} ha hb hdisjoint => ?_
    have hba := h.base_le a ha
    have hbb := h.base_le b hb
    rcases hdisjoint with hle | hle
    · have hle : a.address.toNat - c.base.toNat + a.size.toNat ≤
        b.address.toNat - c.base.toNat := hle
      omega
    · have hle : b.address.toNat - c.base.toNat + b.size.toNat ≤
        a.address.toNat - c.base.toNat := hle
      omega
  live_aligned := h.aligned
  live_inside b hb := by
    rw [toNat_endAddress]
    exact ⟨h.base_le b hb, h.live_stop_le hb⟩
  free_sorted := by
    refine (pairwise_map.mp h.tiling.spaced.gap).imp fun {a b} hgap => ?_
    have hgap : a.offset.toNat + a.size.toNat < b.offset.toNat := hgap
    exact Nat.lt_of_le_of_lt (Nat.le_add_right _ _) hgap
  free_nonempty b hb := by
    have hnonempty : b.offset.toNat < b.offset.toNat + b.size.toNat :=
      h.tiling.spaced.nonempty _ (List.mem_map_of_mem hb)
    rw [BitVec.lt_def]
    show 0 % 2 ^ w < _
    rw [Nat.zero_mod]
    omega
  free_apart := pairwise_map.mp h.tiling.spaced.gap
  free_live a ha b hb := by
    have hbase := h.base_le b hb
    rcases h.tiling.free_live _ (List.mem_map_of_mem ha) _ (List.mem_map_of_mem hb) with hle | hle
    · have hle : a.offset.toNat + a.size.toNat ≤ b.address.toNat - c.base.toNat := hle
      omega
    · have hle : b.address.toNat - c.base.toNat + b.size.toNat ≤ a.offset.toNat := hle
      omega
  free_below b hb := h.tiling.free_below _ (List.mem_map_of_mem hb)
  bump_le := h.bump_le

/-! ### Allocation -/

/-- The first block that passes is taken apart. -/
theorem allocateFromFreeListLoop_eq_some {size alignment p : BitVec w}
    {skipped blocks freeList : List (FreeBlock w)}
    (h : c.allocateFromFreeListLoop size alignment skipped blocks = some (p, freeList)) :
    ∃ before b after, blocks = before ++ b :: after ∧
      (∀ a ∈ before, a.size < c.head a alignment + size) ∧ c.head b alignment + size ≤ b.size ∧
      p = c.base + (b.offset + c.head b alignment) ∧
      freeList.Perm (skipped ++ before ++ after ++
        (if 0 < c.head b alignment then [⟨b.offset, c.head b alignment⟩] else []) ++
        (if 0 < b.size - c.head b alignment - size then
          [⟨b.offset + c.head b alignment + size, b.size - c.head b alignment - size⟩] else [])) ∧
      freeList.Pairwise fun a b => a.offset.toNat ≤ b.offset.toNat := by
  induction blocks generalizing skipped with
  | nil => cases h
  | cons b rest ih =>
    rw [allocateFromFreeListLoop] at h
    split at h
    · rename_i hskip
      obtain ⟨before, b', after, rfl, hbefore, hfits, hp, hperm, hsorted⟩ := ih h
      refine ⟨b :: before, b', after, rfl, forall_mem_cons.mpr ⟨hskip, hbefore⟩, hfits, hp, ?_,
        hsorted⟩
      rwa [List.append_assoc skipped, singleton_append] at hperm
    · rename_i hfits
      obtain ⟨rfl, rfl⟩ := Prod.mk.inj (Option.some.inj h)
      refine ⟨[], b, rest, rfl, fun a ha => (not_mem_nil ha).elim, BitVec.not_lt.mp hfits, rfl, ?_,
        ?_⟩
      · refine (mergeSort_perm _ _).trans ?_
        rw [append_nil]
        split
        · split
          · exact List.Perm.refl _
          · rw [append_nil]
        · rw [append_nil]
          split
          · exact List.Perm.refl _
          · rw [append_nil]
      · have hpairwise := @pairwise_mergeSort _
          (fun a b : FreeBlock w => decide (a.offset ≤ b.offset))
          (fun a b c hab hbc => decide_eq_true
            (BitVec.le_trans (of_decide_eq_true hab) (of_decide_eq_true hbc)))
          (fun a b => by
            rw [← Bool.decide_or, decide_eq_true_iff]
            exact BitVec.le_total _ _)
        exact (hpairwise _).imp fun hle => of_decide_eq_true hle

theorem lt_of_allocateFromFreeListLoop {size alignment : BitVec w}
    {skipped blocks : List (FreeBlock w)}
    (h : c.allocateFromFreeListLoop size alignment skipped blocks = none) :
    ∀ b ∈ blocks, b.size < c.head b alignment + size := by
  induction blocks generalizing skipped with
  | nil => exact fun b hb => (not_mem_nil hb).elim
  | cons b rest ih =>
    rw [allocateFromFreeListLoop] at h
    split at h
    · exact forall_mem_cons.mpr ⟨‹_›, ih h⟩
    · cases h

theorem head_spec {b : FreeBlock w} (hstop : b.offset.toNat + b.size.toNat ≤ c.size.toNat)
    {size alignment : BitVec w} {k : Nat} (ha : alignment.toNat = 2 ^ k)
    (hle : c.head b alignment + size ≤ b.size)
    (hlt : (c.head b alignment).toNat + size.toNat < 2 ^ w) :
    alignment.toNat ∣ c.base.toNat + b.offset.toNat + (c.head b alignment).toNat ∧
      (c.head b alignment).toNat + size.toNat ≤ b.size.toNat := by
  have hend := c.end_lt
  have hbase := c.base_pos
  have hstart : (c.base + b.offset).toNat = c.base.toNat + b.offset.toNat :=
    BitVec.toNat_add_of_lt (by omega)
  rw [BitVec.le_def, BitVec.toNat_add_of_lt hlt] at hle
  refine ⟨?_, hle⟩
  rcases alignUp_spec (v := c.base + b.offset) ha with ⟨hge, -, hdvd⟩ | ⟨hzero, -⟩
  · have hhead : (c.head b alignment).toNat =
        (alignUp (c.base + b.offset) alignment).toNat - (c.base + b.offset).toNat :=
      BitVec.toNat_sub_of_le hge
    rw [hhead, ← hstart, Nat.add_sub_cancel' hge]
    exact hdvd
  · -- an aligned address of null would put the end of the block behind the address space
    have hhead : (c.head b alignment).toNat = 2 ^ w - (c.base + b.offset).toNat := by
      rw [head, BitVec.toNat_sub, hzero, Nat.add_zero, Nat.mod_eq_of_lt (by omega)]
    omega

/-- What is left of a free block, as offsets. -/
theorem map_remains {b : FreeBlock w} {head size : BitVec w}
    (hstop : b.offset.toNat + b.size.toNat < 2 ^ w)
    (hle : head.toNat + size.toNat ≤ b.size.toNat) :
    ((if 0 < head then [FreeBlock.mk b.offset head] else []) ++
      (if 0 < b.size - head - size then
        [FreeBlock.mk (b.offset + head + size) (b.size - head - size)] else [])).map
        FreeBlock.span =
      remains b.span ⟨b.offset.toNat + head.toNat, b.offset.toNat + head.toNat + size.toNat⟩ := by
  generalize hl : Span.mk (b.offset.toNat + head.toNat)
    (b.offset.toNat + head.toNat + size.toNat) = l
  have hlstart : l.start = b.offset.toNat + head.toNat := congrArg Span.start hl.symm
  have hlstop : l.stop = b.offset.toNat + head.toNat + size.toNat := congrArg Span.stop hl.symm
  have hzero : (0 : BitVec w).toNat = 0 := Nat.zero_mod _
  have hhead : (b.size - head).toNat = b.size.toNat - head.toNat := by
    refine BitVec.toNat_sub_of_le ?_
    rw [BitVec.le_def]
    omega
  have htail : (b.size - head - size).toNat = b.size.toNat - head.toNat - size.toNat := by
    rw [← hhead]
    refine BitVec.toNat_sub_of_le ?_
    rw [BitVec.le_def, hhead]
    omega
  have hstart : (b.offset + head + size).toNat = b.offset.toNat + head.toNat + size.toNat := by
    have hfirst : (b.offset + head).toNat = b.offset.toNat + head.toNat :=
      BitVec.toNat_add_of_lt (by omega)
    rw [← hfirst]
    exact BitVec.toNat_add_of_lt (by omega)
  have hbefore : 0 < head ↔ b.span.start < l.start := by
    rw [BitVec.lt_def, hzero, hlstart]
    show _ ↔ b.offset.toNat < _
    omega
  have hafter : 0 < b.size - head - size ↔ l.stop < b.span.stop := by
    rw [BitVec.lt_def, hzero, htail, hlstop]
    show _ ↔ _ < b.offset.toNat + b.size.toNat
    omega
  rw [map_append, remains]
  refine congrArg₂ (· ++ ·) ?_ ?_
  · by_cases hpos : 0 < head
    · rw [if_pos hpos, if_pos (hbefore.mp hpos), hlstart]
      rfl
    · rw [if_neg hpos, if_neg fun hlt => hpos (hbefore.mpr hlt)]
      rfl
  · by_cases hpos : 0 < b.size - head - size
    · have hstop : b.offset.toNat + head.toNat + size.toNat +
          (b.size.toNat - head.toNat - size.toNat) = b.offset.toNat + b.size.toNat := by omega
      rw [if_pos hpos, if_pos (hafter.mp hpos), map_singleton, FreeBlock.span, hstart, htail,
        hstop, hlstop]
      rfl
    · rw [if_neg hpos, if_neg fun hlt => hpos (hafter.mpr hlt)]
      rfl

/-- The first free block that passes does not pass by a wrap. -/
def FirstFits (c : Cage w) (s : SandboxState w) (size alignment : BitVec w) : Prop :=
  ∀ before b after, s.freeList = before ++ b :: after →
    (∀ a ∈ before, a.size < c.head a alignment + size) → c.head b alignment + size ≤ b.size →
    (c.head b alignment).toNat + size.toNat < 2 ^ w

/-- **A block from the free list.** -/
theorem valid_of_freeList (h : c.Valid x) {size alignment p : BitVec w}
    {freeList : List (FreeBlock w)} (hsize : 1 ≤ size.toNat) {k : Nat} (ha : alignment.toNat = 2 ^ k)
    (hfits : c.FirstFits x.state size alignment)
    (hresult : c.allocateFromFreeList x.state size alignment = some (p, freeList)) :
    c.Valid ⟨{ x.state with freeList }, ⟨p, size, alignment⟩ :: x.live⟩ := by
  obtain ⟨before, b, after, hlist, hbefore, hpass, rfl, hperm, hsorted⟩ :=
    allocateFromFreeListLoop_eq_some hresult
  have hb : b ∈ x.state.freeList := by
    rw [hlist]
    exact mem_append_right _ mem_cons_self
  have hstop := h.free_stop_le hb
  obtain ⟨hdvd, hle⟩ := head_spec hstop ha hpass (hfits before b after hlist hbefore hpass)
  have hend := c.end_lt
  have hoffset : (b.offset + c.head b alignment).toNat =
      b.offset.toNat + (c.head b alignment).toNat := BitVec.toNat_add_of_lt (by omega)
  have haddress : (c.base + (b.offset + c.head b alignment)).toNat =
      c.base.toNat + (b.offset.toNat + (c.head b alignment).toNat) := by
    rw [← hoffset]
    exact BitVec.toNat_add_of_lt (by omega)
  have hspan : c.spanOf ⟨c.base + (b.offset + c.head b alignment), size, alignment⟩ =
      ⟨b.offset.toNat + (c.head b alignment).toNat,
        b.offset.toNat + (c.head b alignment).toNat + size.toNat⟩ := by
    rw [spanOf, haddress, Nat.add_sub_cancel_left]
  have hfree : (x.state.freeList.map FreeBlock.span).Perm
      (b.span :: (before ++ after).map FreeBlock.span) := by
    rw [hlist, map_append, map_cons, map_append]
    exact perm_middle
  have hfree' : (freeList.map FreeBlock.span).Perm ((before ++ after).map FreeBlock.span ++
      remains b.span (c.spanOf ⟨c.base + (b.offset + c.head b alignment), size, alignment⟩)) := by
    rw [hspan, ← map_remains (by omega) hle, ← map_append, ← List.append_assoc]
    exact hperm.map FreeBlock.span
  refine ⟨h.tiling.carve hfree ?_ ?_ hfree' (pairwise_map.mpr hsorted), h.bump_le, ?_, ?_⟩
  · rw [hspan]
    exact Nat.lt_add_of_pos_right hsize
  · rw [hspan]
    refine ⟨Nat.le_add_right _ _, ?_⟩
    show b.offset.toNat + (c.head b alignment).toNat + size.toNat ≤
      b.offset.toNat + b.size.toNat
    omega
  · refine forall_mem_cons.mpr ⟨?_, h.base_le⟩
    rw [haddress]
    exact Nat.le_add_right _ _
  · refine forall_mem_cons.mpr ⟨?_, h.aligned⟩
    rwa [haddress, ← Nat.add_assoc]

theorem commitTo_snd (s : SandboxState w) (last : BitVec w) (granted : Bool) :
    (c.commitTo s last granted).2.freeList = s.freeList ∧
      (c.commitTo s last granted).2.bumpOffset = s.bumpOffset := by
  rw [commitTo]
  split
  · exact ⟨rfl, rfl⟩
  · split
    · split
      · exact ⟨rfl, rfl⟩
      · exact ⟨rfl, rfl⟩
    · exact ⟨rfl, rfl⟩

theorem commitTo_granted (s : SandboxState w) {last : BitVec w} (hlast : last ≤ c.size) :
    (c.commitTo s last true).1 = true := by
  rw [commitTo]
  split
  · rfl
  · split
    · rfl
    · exact decide_eq_true hlast

theorem bump_spec {s : SandboxState w} (hbump : s.bumpOffset.toNat ≤ c.size.toNat)
    {alignment : BitVec w} {k : Nat} (ha : alignment.toNat = 2 ^ k)
    (hle : (alignUp (c.base + s.bumpOffset) alignment - c.base).toNat ≤ c.size.toNat) :
    s.bumpOffset.toNat ≤ (alignUp (c.base + s.bumpOffset) alignment - c.base).toNat ∧
      alignment.toNat ∣
        c.base.toNat + (alignUp (c.base + s.bumpOffset) alignment - c.base).toNat := by
  have hend := c.end_lt
  have hbase := c.base_pos
  have hstart : (c.base + s.bumpOffset).toNat = c.base.toNat + s.bumpOffset.toNat :=
    BitVec.toNat_add_of_lt (by omega)
  rcases alignUp_spec (v := c.base + s.bumpOffset) ha with ⟨hge, -, hdvd⟩ | ⟨hzero, -⟩
  · rw [hstart] at hge
    have hbaseLe : c.base.toNat ≤ (alignUp (c.base + s.bumpOffset) alignment).toNat := by omega
    rw [BitVec.toNat_sub_of_le (BitVec.le_def.mpr hbaseLe), Nat.add_sub_cancel' hbaseLe]
    exact ⟨by omega, hdvd⟩
  · -- a null address lies behind the end of the cage
    have hwrapped : (alignUp (c.base + s.bumpOffset) alignment - c.base).toNat =
        2 ^ w - c.base.toNat := by
      rw [BitVec.toNat_sub, hzero, Nat.add_zero, Nat.mod_eq_of_lt (by omega)]
    omega

theorem bumpAllocate_spec {s : SandboxState w} (hbump : s.bumpOffset.toNat ≤ c.size.toNat)
    (size : BitVec w) {alignment : BitVec w} {k : Nat} (ha : alignment.toNat = 2 ^ k)
    (granted : Bool) :
    (∃ s' : SandboxState w, c.bumpAllocate s size alignment granted = (none, s') ∧ s'.freeList = s.freeList ∧
        s'.bumpOffset = s.bumpOffset) ∨
      ∃ (s' : SandboxState w) (offset : BitVec w), c.bumpAllocate s size alignment granted =
          (some (c.base + offset), { s' with bumpOffset := offset + size }) ∧
        s'.freeList = s.freeList ∧ s.bumpOffset.toNat ≤ offset.toNat ∧
        offset.toNat + size.toNat ≤ c.size.toNat ∧
        alignment.toNat ∣ c.base.toNat + offset.toNat := by
  have hkept := @commitTo_snd w c s (alignUp (c.base + s.bumpOffset) alignment - c.base + size)
    granted
  rw [bumpAllocate]
  by_cases hroom : c.size < alignUp (c.base + s.bumpOffset) alignment - c.base ∨
      c.size - (alignUp (c.base + s.bumpOffset) alignment - c.base) < size
  · simp only [if_pos hroom]
    exact .inl ⟨s, rfl, rfl, rfl⟩
  · simp only [if_neg hroom]
    obtain ⟨hoffset, hrest⟩ := not_or.mp hroom
    rw [BitVec.not_lt] at hoffset hrest
    rw [BitVec.le_def, BitVec.toNat_sub_of_le hoffset] at hrest
    rw [BitVec.le_def] at hoffset
    obtain ⟨hle, hdvd⟩ := bump_spec hbump ha hoffset
    generalize c.commitTo s (alignUp (c.base + s.bumpOffset) alignment - c.base + size) granted = r
      at hkept ⊢
    obtain ⟨committed, s'⟩ := r
    cases committed with
    | false => exact .inl ⟨s', rfl, hkept⟩
    | true => exact .inr ⟨s', _, rfl, hkept.1, hle, by omega, hdvd⟩

theorem valid_extend (h : c.Valid x) {offset size alignment : BitVec w} {s : SandboxState w}
    (hlist : s.freeList = x.state.freeList) (hsize : 1 ≤ size.toNat)
    (hbump : x.state.bumpOffset.toNat ≤ offset.toNat)
    (hstop : offset.toNat + size.toNat ≤ c.size.toNat)
    (hdvd : alignment.toNat ∣ c.base.toNat + offset.toNat) :
    c.Valid ⟨{ s with bumpOffset := offset + size },
      ⟨c.base + offset, size, alignment⟩ :: x.live⟩ := by
  have hend := c.end_lt
  have hsum : (offset + size).toNat = offset.toNat + size.toNat :=
    BitVec.toNat_add_of_lt (by omega)
  have haddress : (c.base + offset).toNat = c.base.toNat + offset.toNat :=
    BitVec.toNat_add_of_lt (by omega)
  have hspan : c.spanOf ⟨c.base + offset, size, alignment⟩ =
      ⟨offset.toNat, (offset + size).toNat⟩ := by
    rw [spanOf, haddress, hsum, Nat.add_sub_cancel_left]
  refine ⟨?_, ?_, forall_mem_cons.mpr ⟨?_, h.base_le⟩,
    forall_mem_cons.mpr ⟨?_, h.aligned⟩⟩
  · show Tiling (s.freeList.map FreeBlock.span) (c.spanOf _ :: _) (offset + size).toNat
    rw [hlist, hspan]
    refine h.tiling.extend ?_ hbump
    show offset.toNat < (offset + size).toNat
    omega
  · show (offset + size).toNat ≤ c.size.toNat
    rwa [hsum]
  · rw [haddress]
    exact Nat.le_add_right _ _
  · rwa [haddress]

/-- **One allocation.** -/
theorem valid_of_allocate (h : c.Valid x) {size alignment : BitVec w} (hsize : 1 ≤ size.toNat)
    {k : Nat} (ha : alignment.toNat = 2 ^ k) (hfits : c.FirstFits x.state size alignment)
    (granted : Bool) :
    ∃ y, c.step x (.allocate size alignment granted) = some y ∧ c.Valid y := by
  have hkeep : ∀ s : SandboxState w, s.freeList = x.state.freeList →
      s.bumpOffset = x.state.bumpOffset → c.Valid ⟨s, x.live⟩ := by
    intro s hlist hbump
    refine ⟨?_, ?_, h.base_le, h.aligned⟩
    · rw [hlist, hbump]
      exact h.tiling
    · rw [hbump]
      exact h.bump_le
  cases hfree : c.allocateFromFreeList x.state size alignment with
  | some r =>
    obtain ⟨p, freeList⟩ := r
    have hvalid := valid_of_freeList h hsize ha hfits hfree
    have hne : p ≠ 0 := by
      rintro rfl
      have hbase := hvalid.base_le _ mem_cons_self
      exact Nat.not_le.mpr c.base_pos (hbase.trans (Nat.le_of_eq (Nat.zero_mod _)))
    refine ⟨_, ?_, hvalid⟩
    simp only [step, tryAllocate, hfree, if_neg hne]
  | none =>
    rcases bumpAllocate_spec h.bump_le size ha granted with
      ⟨s', heq, hlist, hbump⟩ | ⟨s', offset, heq, hlist, hbump, hstop, hdvd⟩
    · refine ⟨_, ?_, hkeep s' hlist hbump⟩
      simp only [step, tryAllocate, hfree, heq]
    · refine ⟨_, ?_, valid_extend h hlist hsize hbump hstop hdvd⟩
      simp only [step, tryAllocate, hfree, heq]

/-! ### Giving back -/

theorem end_eq_iff {a b : FreeBlock w} (ha : a.offset.toNat + a.size.toNat < 2 ^ w) :
    a.offset + a.size = b.offset ↔ a.span.stop = b.span.start := by
  rw [← BitVec.toNat_inj, BitVec.toNat_add_of_lt ha]
  exact Iff.rfl

theorem span_join {a b : FreeBlock w} (hjoin : a.span.stop = b.span.start)
    (hb : b.offset.toNat + b.size.toNat < 2 ^ w) :
    FreeBlock.span ⟨a.offset, a.size + b.size⟩ = ⟨a.span.start, b.span.stop⟩ := by
  have hjoin : a.offset.toNat + a.size.toNat = b.offset.toNat := hjoin
  have hsize : (a.size + b.size).toNat = a.size.toNat + b.size.toNat :=
    BitVec.toNat_add_of_lt (by omega)
  show Span.mk a.offset.toNat (a.offset.toNat + (a.size + b.size).toNat) =
    ⟨a.offset.toNat, b.offset.toNat + b.size.toNat⟩
  rw [hsize, ← Nat.add_assoc, hjoin]

theorem coalesceNext_span {b : FreeBlock w} {blocks : List (FreeBlock w)}
    (hb : b.offset.toNat + b.size.toNat < 2 ^ w)
    (hblocks : ∀ a ∈ blocks, a.offset.toNat + a.size.toNat < 2 ^ w) :
    joinNext b.span (blocks.map FreeBlock.span) =
      ((coalesceNext b blocks).1.span, (coalesceNext b blocks).2.map FreeBlock.span) := by
  cases blocks with
  | nil => rfl
  | cons next rest =>
    rw [map_cons, joinNext, coalesceNext]
    by_cases hjoin : b.span.stop = next.span.start
    · rw [if_pos hjoin, if_pos ((end_eq_iff hb).mpr hjoin),
        span_join hjoin (hblocks next mem_cons_self)]
    · rw [if_neg hjoin, if_neg fun heq => hjoin ((end_eq_iff hb).mp heq)]
      rfl

theorem coalescePrev_span {b : FreeBlock w} {rest before : List (FreeBlock w)}
    (hb : b.offset.toNat + b.size.toNat < 2 ^ w)
    (hbefore : ∀ a ∈ before, a.offset.toNat + a.size.toNat < 2 ^ w) :
    joinPrev b.span (rest.map FreeBlock.span) (before.map FreeBlock.span) =
      (coalescePrev b rest before).map FreeBlock.span := by
  fun_induction coalescePrev b rest before with
  | case1 => rfl
  | case2 prev hjoin =>
    have hjoin := (end_eq_iff (hbefore prev mem_cons_self)).mp hjoin
    rw [map_singleton, joinPrev, if_pos hjoin, map_cons, span_join hjoin hb]
  | case3 prev hjoin =>
    have hjoin : ¬ prev.span.stop = b.span.start :=
      fun heq => hjoin ((end_eq_iff (hbefore prev mem_cons_self)).mpr heq)
    rw [map_singleton, joinPrev, if_neg hjoin, map_cons, map_cons]
  | case4 a a' before ih =>
    rw [map_cons, map_cons, joinPrev, map_cons, ← ih, map_cons]
    exact fun c hc => hbefore c (mem_cons_of_mem _ hc)

theorem coalesceNext_lt {b : FreeBlock w} {blocks : List (FreeBlock w)}
    (hb : b.offset.toNat + b.size.toNat < 2 ^ w)
    (hblocks : ∀ a ∈ blocks, a.offset.toNat + a.size.toNat < 2 ^ w) :
    (coalesceNext b blocks).1.offset.toNat + (coalesceNext b blocks).1.size.toNat < 2 ^ w := by
  cases blocks with
  | nil => exact hb
  | cons next rest =>
    have hnext := hblocks next mem_cons_self
    rw [coalesceNext]
    split
    · rename_i hjoin
      have hspan := congrArg Span.stop (span_join ((end_eq_iff hb).mp hjoin) hnext)
      exact Nat.lt_of_le_of_lt (Nat.le_of_eq hspan) hnext
    · exact hb

theorem insertBlock_span {b : FreeBlock w} {freeList : List (FreeBlock w)}
    (hb : b.offset.toNat + b.size.toNat < 2 ^ w)
    (hlist : ∀ a ∈ freeList, a.offset.toNat + a.size.toNat < 2 ^ w) :
    (insertBlock freeList b).map FreeBlock.span =
      Spans.insert (freeList.map FreeBlock.span) b.span := by
  have hdrop := dropWhile_sublist (l := freeList) fun a => a.offset < b.offset
  have htake := takeWhile_sublist (l := freeList) fun a => a.offset < b.offset
  have hafter := fun a ha => hlist a (hdrop.subset ha)
  have hbefore := fun a ha => hlist a (htake.subset ha)
  have hdropMap : (freeList.map FreeBlock.span).dropWhile (fun a => a.start < b.span.start) =
      (freeList.dropWhile fun a => a.offset < b.offset).map FreeBlock.span :=
    dropWhile_map ..
  have htakeMap : (freeList.map FreeBlock.span).takeWhile (fun a => a.start < b.span.start) =
      (freeList.takeWhile fun a => a.offset < b.offset).map FreeBlock.span :=
    takeWhile_map ..
  rw [Spans.insert, hdropMap, htakeMap, coalesceNext_span hb hafter, insertBlock]
  exact (coalescePrev_span (coalesceNext_lt hb hafter) hbefore).symm

/-- **Giving a block back.** -/
theorem valid_of_free (h : c.Valid x) {b : Block w} (hb : b ∈ x.live) :
    ∃ y, c.step x (.free b) = some y ∧ c.Valid y := by
  have hbase := h.base_le b hb
  have hpos := c.base_pos
  have hend := c.end_lt
  have hstop := h.live_stop_le hb
  have hsize : 0 < b.size.toNat := by
    have hnonempty : b.address.toNat - c.base.toNat <
        b.address.toNat - c.base.toNat + b.size.toNat :=
      h.tiling.live_nonempty _ (List.mem_map_of_mem hb)
    omega
  have hne : ¬ (b.address = 0 ∨ b.size = 0) := by
    rintro (heq | heq)
    · rw [heq] at hbase
      exact Nat.not_le.mpr hpos (hbase.trans (Nat.le_of_eq (Nat.zero_mod _)))
    · rw [heq] at hsize
      exact Nat.ne_of_gt hsize (Nat.zero_mod _)
  have hcontains : c.contains b.address = true := by
    rw [contains, decide_eq_true_iff, BitVec.le_def, BitVec.lt_def, toNat_endAddress]
    exact ⟨hbase, by omega⟩
  have hoffset : (b.address - c.base).toNat = b.address.toNat - c.base.toNat :=
    BitVec.toNat_sub_of_le hbase
  have hspan : FreeBlock.span ⟨b.address - c.base, b.size⟩ = c.spanOf b := by
    rw [FreeBlock.span, spanOf, hoffset]
  have hbound : ∀ a ∈ x.state.freeList, a.offset.toNat + a.size.toNat < 2 ^ w := by
    intro a ha
    have hle := h.free_stop_le ha
    omega
  have hblock : (b.address - c.base).toNat + b.size.toNat < 2 ^ w := by omega
  have hstep : c.step x (.free b) = some
      ⟨{ x.state with freeList := insertBlock x.state.freeList ⟨b.address - c.base, b.size⟩ },
        x.live.erase b⟩ := by
    rw [step, free, if_neg hne, if_pos hcontains]
    rfl
  have htiling := h.tiling.release ((perm_cons_erase hb).map c.spanOf)
  rw [← hspan, ← insertBlock_span hblock hbound] at htiling
  exact ⟨_, hstep, htiling, h.bump_le, fun a ha => h.base_le a (mem_of_mem_erase ha),
    fun a ha => h.aligned a (mem_of_mem_erase ha)⟩

/-! ### Runs of the cage -/

theorem valid_start : c.Valid ⟨c.initialState, []⟩ where
  tiling := by
    show Tiling [] [] (0 % 2 ^ w)
    rw [Nat.zero_mod]
    exact tiling_nil
  bump_le := (Nat.le_of_eq (Nat.zero_mod _)).trans (Nat.zero_le _)
  base_le _ hb := (not_mem_nil hb).elim
  aligned _ hb := (not_mem_nil hb).elim

/-- **One operation**: no check fails, and the invariant is kept. -/
theorem step_valid (h : c.Valid x) {a : Op w} (hallowed : c.Allowed x a) (hfits : c.Fits x a) :
    ∃ y, c.step x a = some y ∧ c.Valid y := by
  cases a with
  | allocate size alignment granted =>
    obtain ⟨hsize, -, k, ha⟩ := hallowed
    refine valid_of_allocate h hsize ha (fun before b after hlist _ hpass => hfits b ?_ hpass) granted
    rw [hlist]
    exact mem_append_right _ mem_cons_self
  | free b => exact valid_of_free h hallowed

theorem valid_of_reachable {r : Option (CageRun w)} (h : c.ReachableFitting r) :
    ∃ x, r = some x ∧ c.Valid x := by
  induction h with
  | start => exact ⟨_, rfl, valid_start⟩
  | step a _ ha ih =>
    obtain ⟨x, rfl, hvalid⟩ := ih
    obtain ⟨hallowed, hfits⟩ := ha x rfl
    exact step_valid hvalid hallowed hfits

/-- A cage of 64 bytes at an odd address: a block is taken and given back. -/
def smallCage : Cage 32 where
  base := 0x1001
  size := 64
  windows := false
  base_pos := by decide
  size_pos := by decide
  end_lt := by decide

/-- A cage of 3 GiB on a host of 32 bits. -/
def wideCage : Cage 32 where
  base := 0x100000
  size := 0xc0000000
  windows := false
  base_pos := by decide
  size_pos := by decide
  end_lt := by decide

end Cage

end Voodoo.Sandbox
