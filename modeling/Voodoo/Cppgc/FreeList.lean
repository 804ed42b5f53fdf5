import Mathlib.Algebra.Group.Nat.Defs
import Mathlib.Data.List.Basic

/-!
# Headers and the free list

Every object of a page stands behind a `HeapObjectHeader`, and so does what is free.  A header holds
the size of its block in units of the allocation granularity, the mark bit, and the index of the
type; index `0` says that the block is free.

The free list has a list of blocks for each power of two.  `BucketIndexForSize` smears the highest
bit down and takes it off again: it is the base-2 logarithm (`bucketIndexForSize_eq`).
-/

namespace Voodoo.Cppgc

/-- The hosts: `V8_HOST_ARCH_64_BIT` or not. -/
inductive Arch where
  | bits32
  | bits64

namespace Arch

/-- `kAllocationGranularity`, the size of a header and of a pointer. -/
def granularity : Arch → Nat
  | .bits32 => 4
  | .bits64 => 8

/-- `kFreeListEntrySize`. -/
def entrySize (a : Arch) : Nat := 2 * a.granularity

end Arch

def kPageSizeLog2 : Nat := 17

def kPageSize : Nat := 2 ^ kPageSizeLog2

def kLargeObjectSizeThreshold : Nat := kPageSize / 2

def kFreeListGCInfoIndex : Nat := 0

/-- A place in a block of memory from the host. -/
structure Address where
  block : Nat
  offset : Nat
  deriving DecidableEq

/-- `HeapObjectHeader`; the bit of construction is read by nothing. -/
structure HeapObjectHeader where
  /-- `SizeField`, of 15 bits. -/
  sizeField : Nat
  marked : Bool
  /-- `GCInfoIndexField`, of 14 bits. -/
  gcInfoIndex : Nat

namespace HeapObjectHeader

/-- `HeapObjectHeader::kMaxSize`. -/
def kMaxSize : Nat := 2 ^ 17 - 1

/-- The constructor. -/
def create (a : Arch) (size gcInfoIndex : Nat) : HeapObjectHeader :=
  ⟨size / a.granularity % 2 ^ 15, false, gcInfoIndex % 2 ^ 14⟩

def allocatedSize (a : Arch) (h : HeapObjectHeader) : Nat := h.sizeField * a.granularity

def isFree (h : HeapObjectHeader) : Bool := h.gcInfoIndex == kFreeListGCInfoIndex

def mark (h : HeapObjectHeader) : HeapObjectHeader := { h with marked := true }

def unmark (h : HeapObjectHeader) : HeapObjectHeader := { h with marked := false }

end HeapObjectHeader

/-- The headers in memory. -/
abbrev Memory := Address → HeapObjectHeader

/-! ### The free list -/

/-- `RoundDownToPowerOfTwo32`. -/
def roundDownToPowerOfTwo32 (value : Nat) : Nat :=
  if value = 0 then 0
  else
    let result := value
    let result := result ||| result >>> 1
    let result := result ||| result >>> 2
    let result := result ||| result >>> 4
    let result := result ||| result >>> 8
    let result := result ||| result >>> 16
    result - result >>> 1

/-- `WhichPowerOfTwo`. -/
def whichPowerOfTwo (value : Nat) : Nat := Nat.log2 value

def bucketIndexForSize (size : Nat) : Nat := whichPowerOfTwo (roundDownToPowerOfTwo32 size)

/-- `FreeList`: the entries of each bucket, from the head. -/
structure FreeList where
  heads : Nat → List Address := fun _ => []
  biggestFreeListIndex : Nat := 0

/-- `FreeList::Block`. -/
structure FreeBlock where
  address : Address
  size : Nat

namespace FreeList

/-- `FreeList::Add`; a block that is too small for an entry becomes a filler. -/
def add (a : Arch) (list : FreeList) (memory : Memory) (block : FreeBlock) : FreeList × Memory :=
  let memory := Function.update memory block.address (.create a block.size kFreeListGCInfoIndex)
  if block.size < a.entrySize then (list, memory)
  else
    let index := bucketIndexForSize block.size
    ({ heads := Function.update list.heads index (block.address :: list.heads index)
       biggestFreeListIndex := max list.biggestFreeListIndex index }, memory)

/-- The loop of `FreeList::Allocate` from an index down. -/
def allocateFrom (a : Arch) (memory : Memory) (allocationSize : Nat) :
    Nat → FreeList → Option FreeBlock × FreeList
  | 0, list => (none, { list with biggestFreeListIndex := 0 })
  | index + 1, list =>
    match list.heads (index + 1) with
    | [] =>
      if 2 ^ (index + 1) < allocationSize then
        (none, { list with biggestFreeListIndex := index + 1 })
      else allocateFrom a memory allocationSize index list
    | entry :: rest =>
      if 2 ^ (index + 1) < allocationSize ∧ (memory entry).allocatedSize a < allocationSize then
        (none, { list with biggestFreeListIndex := index + 1 })
      else
        (some ⟨entry, (memory entry).allocatedSize a⟩,
          { heads := Function.update list.heads (index + 1) rest
            biggestFreeListIndex := index + 1 })

/-- `FreeList::Allocate`. -/
def allocate (a : Arch) (list : FreeList) (memory : Memory) (allocationSize : Nat) :
    Option FreeBlock × FreeList :=
  allocateFrom a memory allocationSize list.biggestFreeListIndex list

end FreeList

/-! ### Sizes -/

section Sizes

variable {a : Arch}

theorem granularity_pos (a : Arch) : 0 < a.granularity := by
  cases a <;> decide

theorem allocatedSize_create {size index : Nat} (hdvd : a.granularity ∣ size)
    (hsize : size < kPageSize) : (HeapObjectHeader.create a size index).allocatedSize a = size := by
  obtain ⟨units, rfl⟩ := hdvd
  have hunits : units < 2 ^ 15 := by
    have hlt : a.granularity * units < 131072 := hsize
    cases a with
    | bits32 =>
      have hlt : 4 * units < 131072 := hlt
      omega
    | bits64 =>
      have hlt : 8 * units < 131072 := hlt
      omega
  show a.granularity * units / a.granularity % 2 ^ 15 * a.granularity = a.granularity * units
  rw [Nat.mul_div_cancel_left _ (granularity_pos a), Nat.mod_eq_of_lt hunits, Nat.mul_comm]

theorem isFree_create {size index : Nat} (hpos : 0 < index) (hlt : index < 2 ^ 14) :
    (HeapObjectHeader.create a size index).isFree = false := by
  show (index % 2 ^ 14 == 0) = false
  rw [Nat.mod_eq_of_lt hlt, beq_eq_false_iff_ne]
  exact Nat.ne_of_gt hpos

end Sizes

/-! ### Buckets -/

/-- The bits of `result` are those of `value`, each smeared down over `n` places. -/
def Smeared (n value result : Nat) : Prop :=
  ∀ i, result.testBit i = true ↔ ∃ j < n, value.testBit (i + j) = true

theorem smeared_self (value : Nat) : Smeared 1 value value := by
  intro i
  constructor
  · exact fun h => ⟨0, Nat.one_pos, h⟩
  · rintro ⟨j, hj, h⟩
    obtain rfl := Nat.lt_one_iff.mp hj
    exact h

theorem Smeared.double {n value result : Nat} (h : Smeared n value result) :
    Smeared (n + n) value (result ||| result >>> n) := by
  intro i
  rw [Nat.testBit_or, Nat.testBit_shiftRight, Bool.or_eq_true, h i, h (n + i)]
  constructor
  · rintro (⟨j, hj, hbit⟩ | ⟨j, hj, hbit⟩)
    · exact ⟨j, by omega, hbit⟩
    · refine ⟨n + j, by omega, ?_⟩
      rwa [← Nat.add_assoc, Nat.add_comm i n]
  · rintro ⟨j, hj, hbit⟩
    by_cases hlow : j < n
    · exact .inl ⟨j, hlow, hbit⟩
    · refine .inr ⟨j - n, by omega, ?_⟩
      have hsum : n + i + (j - n) = i + j := by omega
      rwa [hsum]

theorem Smeared.eq_pred_two_pow {value result : Nat} (h : Smeared 32 value result)
    (hne : value ≠ 0) (hlt : value < 2 ^ 32) : result = 2 ^ (Nat.log2 value + 1) - 1 := by
  refine Nat.eq_of_testBit_eq fun i => ?_
  rw [Nat.testBit_two_pow_sub_one, Bool.eq_iff_iff, h i, decide_eq_true_eq, Nat.lt_succ_iff]
  constructor
  · rintro ⟨j, -, hbit⟩
    by_contra hhigh
    have hsmall : value < 2 ^ (i + j) := (Nat.log2_lt hne).mp (by omega)
    rw [Nat.testBit_lt_two_pow hsmall] at hbit
    cases hbit
  · intro hle
    have hlog := (Nat.log2_lt hne).mpr hlt
    refine ⟨Nat.log2 value - i, by omega, ?_⟩
    rw [Nat.add_sub_cancel' hle]
    exact Nat.testBit_log2 hne

theorem roundDownToPowerOfTwo32_eq {value : Nat} (hne : value ≠ 0) (hlt : value < 2 ^ 32) :
    roundDownToPowerOfTwo32 value = 2 ^ Nat.log2 value := by
  have hsmeared := (smeared_self value).double.double.double.double.double.eq_pred_two_pow hne hlt
  rw [roundDownToPowerOfTwo32, if_neg hne]
  dsimp only
  rw [hsmeared, Nat.shiftRight_eq_div_pow, Nat.pow_succ]
  have hpos : 0 < 2 ^ Nat.log2 value := Nat.two_pow_pos _
  omega

/-- **The bucket of a size** is its base-2 logarithm. -/
theorem bucketIndexForSize_eq {size : Nat} (hpos : 0 < size) (hlt : size < 2 ^ 32) :
    bucketIndexForSize size = Nat.log2 size := by
  rw [bucketIndexForSize, roundDownToPowerOfTwo32_eq (Nat.ne_of_gt hpos) hlt, whichPowerOfTwo,
    Nat.log2_two_pow]

end Voodoo.Cppgc
