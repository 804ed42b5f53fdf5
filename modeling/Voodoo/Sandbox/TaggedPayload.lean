import Mathlib.Data.Nat.Bitwise
import Mathlib.Data.BitVec

/-!
# Tagged payloads

An entry of a pointer table is one word of 64 bits that holds a pointer, the tag of its type and a
mark bit, where `TaggingScheme` says which bits are whose.  A tag is an enum over `uint16_t`, and the
check of a tag against a closed range is one comparison of differences in 32 bits.

A `Layout` is a scheme whose masks and shifts fit together, with the tags that an embedder may
assign.  In a layout

* `untag_tag`: a pointer that fits the payload field is read back under the ranges with its tag,
  and under no others;
* `untag_lt`: whatever is read fits the payload field;
* `extractFreelistLink_free`, `containsFreelistLink_tag`: a freelist link is read back, and an
  entry with a tag of the embedder is not taken for one.
-/

namespace Voodoo.Sandbox

/-- The word an entry is packed in. -/
abbrev Word := BitVec 64

/-- A tag: an enum whose underlying type is `uint16_t`. -/
abbrev Tag := BitVec 16

/-- `TagRange`, the tags from `first` to `last`. -/
structure TagRange where
  first : Tag
  last : Tag

/-- `TagRange(Tag tag)`. -/
def TagRange.single (tag : Tag) : TagRange := ⟨tag, tag⟩

/-- `TagRange::Contains`, with its differences of `uint32_t`. -/
def TagRange.contains (r : TagRange) (tag : Tag) : Bool :=
  tag.setWidth 32 - r.first.setWidth 32 ≤ r.last.setWidth 32 - r.first.setWidth 32

theorem TagRange.contains_iff {r : TagRange} (h : r.first ≤ r.last) (tag : Tag) :
    r.contains tag = true ↔ r.first ≤ tag ∧ tag ≤ r.last := by
  rw [TagRange.contains, decide_eq_true_iff]
  bv_omega

@[simp] theorem TagRange.contains_single (tag other : Tag) :
    (TagRange.single tag).contains other = true ↔ other = tag := by
  have hiff := TagRange.contains_iff (r := .single tag) (BitVec.le_refl tag) other
  rw [hiff]
  show tag ≤ other ∧ other ≤ tag ↔ other = tag
  bv_omega

/-- `PayloadTaggingScheme`, the template parameter of `TaggedPayload`, without the mark bit and the
evacuation tag, which no table reads. -/
structure TaggingScheme where
  tagShift : Nat
  tagMask : Word
  payloadMask : Word
  payloadShift : Nat
  freeEntryTag : Tag

namespace TaggingScheme

variable (s : TaggingScheme)

/-- `TaggedPayload::Tag`. -/
def tag (pointer : Word) (tag : Tag) : Word :=
  (pointer <<< s.payloadShift) ||| (tag.setWidth 64 <<< s.tagShift)

/-- `TaggedPayload::ExtractTag`. -/
def extractTag (content : Word) : Tag := ((content &&& s.tagMask) >>> s.tagShift).setWidth 16

/-- `TaggedPayload::CheckTag`. -/
def checkTag (content : Word) (range : TagRange) : Bool := range.contains (s.extractTag content)

/-- `TaggedPayload::UntagAllowNullHandle`. -/
def untagAllowNullHandle (content : Word) (range : TagRange) : Word :=
  if s.checkTag content range then (content &&& s.payloadMask) >>> s.payloadShift else 0

/-- `TaggedPayload::ContainsFreelistLink`. -/
def containsFreelistLink (content : Word) : Bool := s.checkTag content (.single s.freeEntryTag)

/-- `TaggedPayload::ExtractFreelistLink`; a link is a `uint32_t`. -/
def extractFreelistLink (content : Word) : Option Nat :=
  if s.containsFreelistLink content then
    some (((content &&& s.payloadMask) >>> s.payloadShift).toNat % 2 ^ 32)
  else none

end TaggingScheme

/-- A scheme whose fields stand side by side in the word: the payload from bit 0 on, the tag
from bit `tagShift` to the top, and at least 32 bits of payload, which a freelist link needs.
The embedder's tags come before those the table keeps for itself. -/
structure Layout extends TaggingScheme where
  payloadBits : Nat
  lastAssignableTag : Tag
  payloadShift_eq : payloadShift = 0
  payloadMask_eq : payloadMask = BitVec.ofNat 64 (2 ^ payloadBits - 1)
  tagMask_eq : tagMask = BitVec.allOnes 64 <<< tagShift
  payload_lt_tag : payloadBits < tagShift
  link_fits : 32 ≤ payloadBits
  tagShift_lt : 48 ≤ tagShift ∧ tagShift < 64
  free_fits : freeEntryTag.toNat < 2 ^ (64 - tagShift)
  assignable_lt_free : lastAssignableTag < freeEntryTag

namespace Layout

variable (l : Layout) {p : Word} {t : Tag} {r : TagRange}

/-- The tags an embedder may give an entry. -/
def Assignable (t : Tag) : Prop := 1 ≤ t ∧ t ≤ l.lastAssignableTag

/-- A range of tags of the embedder. -/
def AssignableRange (r : TagRange) : Prop := ∀ t, r.contains t = true → l.Assignable t

/-- The pointer fits the payload field. -/
def Fits (p : Word) : Prop := p.toNat < 2 ^ l.payloadBits

instance (t : Tag) : Decidable (l.Assignable t) := inferInstanceAs (Decidable (_ ∧ _))

instance (p : Word) : Decidable (l.Fits p) := inferInstanceAs (Decidable (_ < _))

/-! ### The fields of a word -/

theorem payload_eq (content : Word) :
    ((content &&& l.payloadMask) >>> l.payloadShift).toNat = content.toNat % 2 ^ l.payloadBits := by
  have hlt : l.payloadBits < 64 := l.payload_lt_tag.trans l.tagShift_lt.2
  have hpow : 2 ^ l.payloadBits < 2 ^ 64 := Nat.pow_lt_pow_right (by omega) hlt
  rw [l.payloadShift_eq, l.payloadMask_eq, BitVec.ushiftRight_zero, BitVec.toNat_and,
    BitVec.toNat_ofNat, Nat.mod_eq_of_lt (by omega), Nat.and_two_pow_sub_one_eq_mod]

theorem extractTag_eq (content : Word) :
    l.extractTag content = (content >>> l.tagShift).setWidth 16 := by
  have hmask : (content &&& l.tagMask) >>> l.tagShift = content >>> l.tagShift := by
    apply BitVec.eq_of_getLsbD_eq
    intro i hi
    rw [l.tagMask_eq, BitVec.getLsbD_ushiftRight, BitVec.getLsbD_ushiftRight, BitVec.getLsbD_and,
      BitVec.getLsbD_shiftLeft, BitVec.getLsbD_allOnes, Nat.add_sub_cancel_left]
    by_cases hlt : l.tagShift + i < 64
    · simp [hlt, hi]
    · rw [BitVec.getLsbD_of_ge content _ (Nat.le_of_not_lt hlt), Bool.false_and]
  rw [TaggingScheme.extractTag, hmask]

theorem toNat_extractTag (content : Word) :
    (l.extractTag content).toNat = content.toNat / 2 ^ l.tagShift := by
  have hshift := l.tagShift_lt.1
  have hlt : content.toNat / 2 ^ l.tagShift < 2 ^ 16 := by
    rw [Nat.div_lt_iff_lt_mul (Nat.two_pow_pos _), ← Nat.pow_add]
    exact content.isLt.trans_le (Nat.pow_le_pow_right (by omega) (by omega))
  rw [l.extractTag_eq, BitVec.toNat_setWidth, BitVec.toNat_ushiftRight, Nat.shiftRight_eq_div_pow,
    Nat.mod_eq_of_lt hlt]

theorem toNat_tag (hp : l.Fits p) (ht : t.toNat < 2 ^ (64 - l.tagShift)) :
    (l.tag p t).toNat = t.toNat * 2 ^ l.tagShift + p.toNat := by
  have hlt : p.toNat < 2 ^ l.tagShift :=
    hp.trans (Nat.pow_lt_pow_right (by omega) l.payload_lt_tag)
  have htag : (t.setWidth 64 <<< l.tagShift).toNat = t.toNat * 2 ^ l.tagShift := by
    have hshifted : t.toNat * 2 ^ l.tagShift < 2 ^ 64 := by
      calc t.toNat * 2 ^ l.tagShift < 2 ^ (64 - l.tagShift) * 2 ^ l.tagShift :=
            Nat.mul_lt_mul_of_pos_right ht (Nat.two_pow_pos _)
        _ = 2 ^ 64 := by rw [← Nat.pow_add, Nat.sub_add_cancel l.tagShift_lt.2.le]
    have hword : t.toNat < 2 ^ 64 := t.isLt.trans (by decide)
    rw [BitVec.toNat_shiftLeft, BitVec.toNat_setWidth, Nat.mod_eq_of_lt hword,
      Nat.shiftLeft_eq, Nat.mod_eq_of_lt hshifted]
  rw [TaggingScheme.tag, l.payloadShift_eq, BitVec.shiftLeft_zero, BitVec.toNat_or, htag,
    Nat.or_comm, Nat.mul_comm, ← Nat.two_pow_add_eq_or_of_lt hlt]

theorem extractTag_tag (hp : l.Fits p) (ht : t.toNat < 2 ^ (64 - l.tagShift)) :
    l.extractTag (l.tag p t) = t := by
  have hlt : p.toNat < 2 ^ l.tagShift :=
    hp.trans (Nat.pow_lt_pow_right (by omega) l.payload_lt_tag)
  apply BitVec.eq_of_toNat_eq
  rw [l.toNat_extractTag, l.toNat_tag hp ht, Nat.add_comm, Nat.add_mul_div_right _ _
    (Nat.two_pow_pos _), Nat.div_eq_of_lt hlt, Nat.zero_add]

theorem payload_tag (hp : l.Fits p) (ht : t.toNat < 2 ^ (64 - l.tagShift)) :
    (l.tag p t &&& l.payloadMask) >>> l.payloadShift = p := by
  have hdvd : 2 ^ l.payloadBits ∣ t.toNat * 2 ^ l.tagShift :=
    Dvd.dvd.mul_left (Nat.pow_dvd_pow 2 l.payload_lt_tag.le) _
  apply BitVec.eq_of_toNat_eq
  rw [l.payload_eq, l.toNat_tag hp ht, Nat.add_mod, Nat.mod_eq_zero_of_dvd hdvd, Nat.zero_add,
    Nat.mod_mod, Nat.mod_eq_of_lt hp]

theorem tag_mod (p : Word) (t : Tag) :
    l.tag p t = l.tag p (BitVec.ofNat 16 (t.toNat % 2 ^ (64 - l.tagShift))) := by
  have hshift := l.tagShift_lt
  have hmod : t.toNat % 2 ^ (64 - l.tagShift) ≤ t.toNat := Nat.mod_le _ _
  have hpow : 2 ^ 64 = 2 ^ (64 - l.tagShift) * 2 ^ l.tagShift := by
    rw [← Nat.pow_add, Nat.sub_add_cancel hshift.2.le]
  have hfield : t.setWidth 64 <<< l.tagShift =
      (BitVec.ofNat 16 (t.toNat % 2 ^ (64 - l.tagShift))).setWidth 64 <<< l.tagShift := by
    apply BitVec.eq_of_toNat_eq
    rw [BitVec.toNat_shiftLeft, BitVec.toNat_shiftLeft, BitVec.toNat_setWidth, BitVec.toNat_setWidth,
      BitVec.toNat_ofNat, Nat.mod_eq_of_lt (hmod.trans_lt t.isLt),
      Nat.mod_eq_of_lt (t.isLt.trans (by decide)),
      Nat.mod_eq_of_lt ((hmod.trans_lt t.isLt).trans (by decide)), Nat.shiftLeft_eq,
      Nat.shiftLeft_eq, hpow, Nat.mul_mod_mul_right, Nat.mul_mod_mul_right, Nat.mod_mod]
  rw [TaggingScheme.tag, TaggingScheme.tag, hfield]

theorem untag_of_fits (hp : l.Fits p) (t : Tag) (r : TagRange) :
    l.untagAllowNullHandle (l.tag p t) r =
      if r.contains (BitVec.ofNat 16 (t.toNat % 2 ^ (64 - l.tagShift))) then p else 0 := by
  have hmod : t.toNat % 2 ^ (64 - l.tagShift) ≤ t.toNat := Nat.mod_le _ _
  have hfits : (BitVec.ofNat 16 (t.toNat % 2 ^ (64 - l.tagShift))).toNat <
      2 ^ (64 - l.tagShift) := by
    rw [BitVec.toNat_ofNat, Nat.mod_eq_of_lt (hmod.trans_lt t.isLt)]
    exact Nat.mod_lt _ (Nat.two_pow_pos _)
  rw [l.tag_mod, TaggingScheme.untagAllowNullHandle, TaggingScheme.checkTag,
    l.extractTag_tag hp hfits, l.payload_tag hp hfits]

/-! ### Entries of the embedder -/

theorem Assignable.fits (ht : l.Assignable t) : t.toNat < 2 ^ (64 - l.tagShift) := by
  have hfree := l.free_fits
  have hlast : t.toNat ≤ l.lastAssignableTag.toNat := ht.2
  have hlt : l.lastAssignableTag.toNat < l.freeEntryTag.toNat := l.assignable_lt_free
  omega

theorem Assignable.ne_free (ht : l.Assignable t) : t ≠ l.freeEntryTag := by
  have hlt := l.assignable_lt_free
  rintro rfl
  exact absurd ht.2 (BitVec.not_le.mpr hlt)

/-- **A pointer that fits is read back under the ranges with its tag, and under no others.** -/
theorem untag_tag (hp : l.Fits p) (ht : l.Assignable t) (r : TagRange) :
    l.untagAllowNullHandle (l.tag p t) r = if r.contains t then p else 0 := by
  rw [TaggingScheme.untagAllowNullHandle, TaggingScheme.checkTag,
    l.extractTag_tag hp (Assignable.fits l ht), l.payload_tag hp (Assignable.fits l ht)]

theorem untag_lt (content : Word) (r : TagRange) : l.Fits (l.untagAllowNullHandle content r) := by
  rw [Fits, TaggingScheme.untagAllowNullHandle]
  split
  · rw [l.payload_eq]
    exact Nat.mod_lt _ (Nat.two_pow_pos _)
  · exact Nat.two_pow_pos _

theorem containsFreelistLink_tag (hp : l.Fits p) (ht : l.Assignable t) :
    l.containsFreelistLink (l.tag p t) = false := by
  rw [← Bool.not_eq_true, TaggingScheme.containsFreelistLink, TaggingScheme.checkTag,
    TagRange.contains_single, l.extractTag_tag hp (Assignable.fits l ht)]
  exact Assignable.ne_free l ht

/-! ### Free entries -/

theorem fits_link {n : Nat} (hn : n < 2 ^ 32) : l.Fits (BitVec.ofNat 64 n) := by
  have hpow : 2 ^ 32 ≤ 2 ^ l.payloadBits := Nat.pow_le_pow_right (by omega) l.link_fits
  rw [Fits, BitVec.toNat_ofNat]
  exact (Nat.mod_le _ _).trans_lt (hn.trans_le hpow)

theorem containsFreelistLink_free {n : Nat} (hn : n < 2 ^ 32) :
    l.containsFreelistLink (l.tag (BitVec.ofNat 64 n) l.freeEntryTag) = true := by
  rw [TaggingScheme.containsFreelistLink, TaggingScheme.checkTag, TagRange.contains_single]
  exact l.extractTag_tag (l.fits_link hn) l.free_fits

theorem extractFreelistLink_free {n : Nat} (hn : n < 2 ^ 32) :
    l.extractFreelistLink (l.tag (BitVec.ofNat 64 n) l.freeEntryTag) = some n := by
  have hword : n < 2 ^ 64 := hn.trans (by omega)
  rw [TaggingScheme.extractFreelistLink, if_pos (l.containsFreelistLink_free hn),
    l.payload_tag (l.fits_link hn) l.free_fits, BitVec.toNat_ofNat, Nat.mod_eq_of_lt hword,
    Nat.mod_eq_of_lt hn]

theorem untag_free {n : Nat} (hn : n < 2 ^ 32) (hr : l.AssignableRange r) :
    l.untagAllowNullHandle (l.tag (BitVec.ofNat 64 n) l.freeEntryTag) r = 0 := by
  rw [TaggingScheme.untagAllowNullHandle, TaggingScheme.checkTag,
    l.extractTag_tag (l.fits_link hn) l.free_fits]
  split
  · rename_i hcontains
    exact absurd rfl (Assignable.ne_free l (hr _ hcontains))
  · rfl

end Layout

/-! ### The tables' schemes -/

/-- The scheme of `TrustedPointerTableEntry`.  Every tag below the ones the table keeps is
taken as assignable, the unpublished one included. -/
def trustedLayout : Layout where
  tagShift := 49
  tagMask := 0xfffe000000000000
  payloadMask := 0x0000ffffffffffff
  payloadShift := 0
  freeEntryTag := 0xff
  payloadBits := 48
  lastAssignableTag := 0xfc
  payloadShift_eq := rfl
  payloadMask_eq := by decide
  tagMask_eq := by decide
  payload_lt_tag := by decide
  link_fits := by decide
  tagShift_lt := by decide
  free_fits := by decide
  assignable_lt_free := by decide

/-- The scheme of `ExternalPointerTableEntry`. -/
def externalLayout : Layout where
  tagShift := 48
  tagMask := 0xffff000000000000
  payloadMask := 0x00007fffffffffff
  payloadShift := 0
  freeEntryTag := 0x7fff
  payloadBits := 47
  lastAssignableTag := 0x7ffc
  payloadShift_eq := rfl
  payloadMask_eq := by decide
  tagMask_eq := by decide
  payload_lt_tag := by decide
  link_fits := by decide
  tagShift_lt := by decide
  free_fits := by decide
  assignable_lt_free := by decide

/-- The scheme of `IndirectPointerTableEntry`. -/
def indirectLayout : Layout where
  tagShift := 56
  tagMask := 0xff00000000000000
  payloadMask := 0x007fffffffffffff
  payloadShift := 0
  freeEntryTag := 0xff
  payloadBits := 55
  lastAssignableTag := 0xfc
  payloadShift_eq := rfl
  payloadMask_eq := by decide
  tagMask_eq := by decide
  payload_lt_tag := by decide
  link_fits := by decide
  tagShift_lt := by decide
  free_fits := by decide
  assignable_lt_free := by decide

/-- The scheme of `CppHeapPointerTableEntry`. -/
def cppHeapLayout : Layout where
  tagShift := 49
  tagMask := 0xfffe000000000000
  payloadMask := 0x0000ffffffffffff
  payloadShift := 0
  freeEntryTag := 0x7fff
  payloadBits := 48
  lastAssignableTag := 0x7ffc
  payloadShift_eq := rfl
  payloadMask_eq := by decide
  tagMask_eq := by decide
  payload_lt_tag := by decide
  link_fits := by decide
  tagShift_lt := by decide
  free_fits := by decide
  assignable_lt_free := by decide

end Voodoo.Sandbox
