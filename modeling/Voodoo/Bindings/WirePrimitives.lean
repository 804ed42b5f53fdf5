import Voodoo.Bindings.Message

/-!
# Bounds of reads on a 32-bit target

`size_t` has 32 bits on wasm32, and a length word from the wire has 32 bits as
well, so the sum of an offset and a length can wrap around and pass a test that
it should fail.  The sums of `ReadScalar` cannot: the payload lies behind a
header in the same address space, so the few bytes of a scalar do not reach
`2 ^ 32`.  `ReadString`, the ends of structs and unions and `DecodeString` add
what the sender chose.

`reads_bounded_iff` says for each of them which contents are read safely: those
whose sum does not wrap, or wraps to a value the test refuses.
-/

namespace Voodoo.Bindings

open LittleEndian

/-- Some of the bytes that were given. -/
structure ByteRange where
  start : Nat
  size : Nat
  deriving DecidableEq

/-- The range ends within the first `n` bytes. -/
def ByteRange.Within (r : ByteRange) (n : Nat) : Prop := r.start + r.size ≤ n

/-- The payload of a message on wasm32, behind the header in one vector. -/
structure Payload where
  base : Nat
  bytes : List UInt8
  behind : headerSize ≤ base
  fits : base + bytes.length < 2 ^ 32

/-- The payload of a message in memory. -/
def Payload.ofBuffer (b : Buffer 32) (h : Laid b.bytes) : Payload where
  base := b.base + headerSize
  bytes := b.bytes.drop headerSize
  behind := Nat.le_add_left _ _
  fits := by
    have hfits := b.fits
    have hsize := h.1
    rw [List.length_drop]
    omega

/-- The sizes of the types `ReadScalar` is used with. -/
inductive ScalarSize where
  | one
  | two
  | four
  | eight

def ScalarSize.sizeof : ScalarSize → UInt32
  | .one => 1
  | .two => 2
  | .four => 4
  | .eight => 8

namespace Payload

/-- `payload_num_bytes()`. -/
def payloadNumBytes (p : Payload) : UInt32 := UInt32.ofNat p.bytes.length

/-- `ReadScalar`: the value, if there is one, and the offset behind the call. -/
def readScalar (p : Payload) (T : ScalarSize) (offset : UInt32) : Option Nat × UInt32 :=
  if offset + T.sizeof > p.payloadNumBytes then (none, offset)
  else (some (field p.bytes offset.toNat T.sizeof.toNat), offset + T.sizeof)

/-- `ReadScalar` of a `uint32_t`. -/
def readUint32 (p : Payload) (offset : UInt32) : Option UInt32 × UInt32 :=
  let (value, offset) := p.readScalar .four offset
  (value.map UInt32.ofNat, offset)

/-- `ReadStructHeader`: `num_bytes` and `version`. -/
def readStructHeader (p : Payload) (offset : UInt32) : Option (UInt32 × UInt32) × UInt32 :=
  match p.readUint32 offset with
  | (none, offset) => (none, offset)
  | (some numBytes, offset) =>
    match p.readUint32 offset with
    | (none, offset) => (none, offset)
    | (some version, offset) => (some (numBytes, version), offset)

/-- `ReadString`, with the range of the payload the string is assigned from. -/
def readString (p : Payload) (offset : UInt32) : Option ByteRange × UInt32 :=
  match p.readUint32 offset with
  | (none, offset) => (none, offset)
  | (some len, offset) =>
    if offset + len > p.payloadNumBytes then (none, offset)
    else (some ⟨offset.toNat, len.toNat⟩, offset + len)

/-- What a generated reader of a struct takes to be the struct, with `wvc_struct_end`. -/
def structEnd (p : Payload) (offset : UInt32) : Option (ByteRange × UInt32) :=
  match p.readStructHeader offset with
  | (none, _) => none
  | (some (numBytes, _), behind) =>
    if numBytes < 8 then none
    else
      let wvcStructEnd := behind - 8 + numBytes
      if wvcStructEnd > p.payloadNumBytes then none
      else some (⟨offset.toNat, numBytes.toNat⟩, wvcStructEnd)

/-- What a generated reader of a union takes to be the union, with `wvc_union_end`. -/
def unionEnd (p : Payload) (offset : UInt32) : Option (ByteRange × UInt32) :=
  match p.readUint32 offset with
  | (none, _) => none
  | (some wvcUnionSize, behind) =>
    if wvcUnionSize < 4 then none
    else
      let wvcUnionEnd := behind - 4 + wvcUnionSize
      if wvcUnionEnd > p.payloadNumBytes then none
      else some (⟨offset.toNat, wvcUnionSize.toNat⟩, wvcUnionEnd)

end Payload

/-- An `ArrayHeader`. -/
structure ArrayHeader where
  numBytes : UInt32
  numElements : UInt32

/-- `DecodeString`, with the range behind the header the string is assigned from, counted from the
header; `header` is none for a null pointer. -/
def decodeString (header : Option ArrayHeader) (maxBytes : UInt32) : Option ByteRange :=
  match header with
  | none => none
  | some header =>
    if header.numBytes < 8 || header.numBytes > maxBytes then none
    else if 8 + header.numElements + 1 > header.numBytes then none
    else some ⟨8, header.numElements.toNat⟩

/-! ### Sums -/

/-- A sum of two words that may wrap around passes the test for `n` rightly: it does not wrap, or
the test refuses what it wraps to. -/
def SumFits (x y n : Nat) : Prop := x + y < 2 ^ 32 ∨ n < x + y - 2 ^ 32

instance (x y n : Nat) : Decidable (SumFits x y n) := inferInstanceAs (Decidable (_ ∨ _))

theorem sumFits_iff {x y n : Nat} (hx : x ≤ n) (hn : n < 2 ^ 32) (hy : y < 2 ^ 32) :
    ((x + y) % 2 ^ 32 ≤ n → x + y ≤ n) ↔ SumFits x y n := by
  unfold SumFits
  rcases Nat.lt_or_ge (x + y) (2 ^ 32) with hlt | hge
  · rw [Nat.mod_eq_of_lt hlt]
    exact ⟨fun _ => Or.inl hlt, fun _ h => h⟩
  · have hmod : (x + y) % 2 ^ 32 = x + y - 2 ^ 32 := by omega
    rw [hmod]
    omega

namespace Payload

variable (p : Payload)

/-- An offset that is not past the end. -/
def Offset : Type := { offset : UInt32 // offset.toNat ≤ p.bytes.length }

theorem toNat_payloadNumBytes : p.payloadNumBytes.toNat = p.bytes.length := by
  have hfits := p.fits
  rw [payloadNumBytes, UInt32.toNat_ofNat']
  exact Nat.mod_eq_of_lt (by omega)

theorem toNat_sizeof_le (T : ScalarSize) : T.sizeof.toNat ≤ 8 := by
  cases T <;> decide

variable {p} (o : p.Offset)

theorem toNat_add_sizeof (T : ScalarSize) :
    (o.val + T.sizeof).toNat = o.val.toNat + T.sizeof.toNat := by
  have hfits := p.fits
  have hbehind : 48 ≤ p.base := p.behind
  have ho := o.property
  have hT := toNat_sizeof_le T
  rw [UInt32.toNat_add]
  exact Nat.mod_eq_of_lt (by omega)

theorem readScalar_eq (T : ScalarSize) :
    p.readScalar T o.val =
      if o.val.toNat + T.sizeof.toNat ≤ p.bytes.length then
        (some (field p.bytes o.val.toNat T.sizeof.toNat), o.val + T.sizeof)
      else (none, o.val) := by
  have hiff : o.val + T.sizeof > p.payloadNumBytes ↔
      ¬ o.val.toNat + T.sizeof.toNat ≤ p.bytes.length := by
    rw [gt_iff_lt, UInt32.lt_iff_toNat_lt, toNat_payloadNumBytes, toNat_add_sizeof]
    omega
  unfold readScalar
  by_cases h : o.val.toNat + T.sizeof.toNat ≤ p.bytes.length
  · rw [if_pos h, if_neg fun hgt => hiff.mp hgt h]
  · rw [if_neg h, if_pos (hiff.mpr h)]

/-- The word at a place of the payload. -/
def wordAt (p : Payload) (place : Nat) : UInt32 := UInt32.ofNat (field p.bytes place 4)

theorem readUint32_eq :
    p.readUint32 o.val =
      if o.val.toNat + 4 ≤ p.bytes.length then (some (p.wordAt o.val.toNat), o.val + 4)
      else (none, o.val) := by
  have h := readScalar_eq o .four
  have hfour : ScalarSize.four.sizeof.toNat = 4 := rfl
  rw [hfour] at h
  unfold readUint32
  rw [h]
  by_cases hword : o.val.toNat + 4 ≤ p.bytes.length
  · rw [if_pos hword, if_pos hword]
    rfl
  · rw [if_neg hword, if_neg hword]
    rfl

theorem toNat_add_four : (o.val + 4).toNat = o.val.toNat + 4 := toNat_add_sizeof o .four

theorem wordAt_lt (p : Payload) (place : Nat) : (p.wordAt place).toNat < 2 ^ 32 :=
  UInt32.toNat_lt _

/-! ### What each function accepts -/

theorem readScalar_within (T : ScalarSize) :
    ((p.readScalar T o.val).1 ≠ none →
        ByteRange.Within ⟨o.val.toNat, T.sizeof.toNat⟩ p.bytes.length) ∧
      ((p.readScalar T o.val).1 = none → (p.readScalar T o.val).2 = o.val) := by
  rw [readScalar_eq]
  split
  case isTrue h => exact ⟨fun _ => h, fun hnone => nomatch hnone⟩
  case isFalse => exact ⟨fun hsome => absurd rfl hsome, fun _ => rfl⟩

theorem readStructHeader_eq :
    p.readStructHeader o.val =
      if o.val.toNat + 8 ≤ p.bytes.length then
        (some (p.wordAt o.val.toNat, p.wordAt (o.val.toNat + 4)), o.val + 4 + 4)
      else (none, if o.val.toNat + 4 ≤ p.bytes.length then o.val + 4 else o.val) := by
  unfold readStructHeader
  rw [readUint32_eq]
  by_cases hfirst : o.val.toNat + 4 ≤ p.bytes.length
  · have hplace := toNat_add_four o
    have hsecond := readUint32_eq (p := p) ⟨o.val + 4, by omega⟩
    dsimp only at hsecond
    rw [if_pos hfirst]
    dsimp only
    rw [hsecond, hplace, if_pos hfirst]
    by_cases hboth : o.val.toNat + 8 ≤ p.bytes.length
    · rw [if_pos hboth, if_pos (by omega)]
    · rw [if_neg hboth, if_neg (by omega)]
  · rw [if_neg hfirst, if_neg hfirst, if_neg (by omega)]

theorem readStructHeader_within (h : (p.readStructHeader o.val).1 ≠ none) :
    ByteRange.Within ⟨o.val.toNat, 8⟩ p.bytes.length := by
  rw [readStructHeader_eq] at h
  split at h
  case isTrue hboth => exact hboth
  case isFalse => exact absurd rfl h

theorem end_test {x y : UInt32} :
    ¬ (x + y > p.payloadNumBytes) ↔ (x.toNat + y.toNat) % 2 ^ 32 ≤ p.bytes.length := by
  rw [gt_iff_lt, UInt32.lt_iff_toNat_lt, toNat_payloadNumBytes, UInt32.toNat_add, Nat.not_lt]

theorem length_lt (p : Payload) : p.bytes.length < 2 ^ 32 := by
  have hfits := p.fits
  omega

theorem readString_within_iff :
    (∀ r, (p.readString o.val).1 = some r → r.Within p.bytes.length) ↔
      (o.val.toNat + 4 ≤ p.bytes.length →
        SumFits (o.val.toNat + 4) (p.wordAt o.val.toNat).toNat p.bytes.length) := by
  unfold readString
  rw [readUint32_eq]
  by_cases hword : o.val.toNat + 4 ≤ p.bytes.length
  · have hplace := toNat_add_four o
    have htest := end_test (p := p) (x := o.val + 4) (y := p.wordAt o.val.toNat)
    rw [hplace] at htest
    rw [if_pos hword, ← sumFits_iff hword p.length_lt (wordAt_lt p _), ← htest]
    dsimp only
    constructor
    · intro h _ hpass
      have hwithin := h ⟨(o.val + 4).toNat, (p.wordAt o.val.toNat).toNat⟩ (by rw [if_neg hpass])
      unfold ByteRange.Within at hwithin
      rwa [hplace] at hwithin
    · intro h r hr
      split at hr
      case isTrue => cases hr
      case isFalse hpass =>
        cases hr
        unfold ByteRange.Within
        rw [hplace]
        exact h hword hpass
  · rw [if_neg hword]
    exact ⟨fun _ h => absurd h hword, fun _ r hr => nomatch hr⟩

/-- A size from the wire, at least `least`, and the test for the end it leads to. -/
theorem claimed_within_iff (size least : UInt32) :
    (∀ r e, (if size < least then none
        else if o.val + size > p.payloadNumBytes then none
        else some ((⟨o.val.toNat, size.toNat⟩ : ByteRange), o.val + size)) = some (r, e) →
          r.Within p.bytes.length) ↔
      (least ≤ size → SumFits o.val.toNat size.toNat p.bytes.length) := by
  rw [← sumFits_iff o.property p.length_lt (UInt32.toNat_lt size), ← end_test]
  constructor
  · intro h hsize hpass
    exact h _ _ (by rw [if_neg (UInt32.not_lt.mpr hsize), if_neg hpass])
  · intro h r e hr
    split at hr
    case isTrue => cases hr
    case isFalse hsize =>
      split at hr
      case isTrue => cases hr
      case isFalse hpass =>
        cases hr
        exact h (UInt32.not_lt.mp hsize) hpass

theorem structEnd_within_iff :
    (∀ r e, p.structEnd o.val = some (r, e) → r.Within p.bytes.length) ↔
      (o.val.toNat + 8 ≤ p.bytes.length → 8 ≤ p.wordAt o.val.toNat →
        SumFits o.val.toNat (p.wordAt o.val.toNat).toNat p.bytes.length) := by
  unfold structEnd
  rw [readStructHeader_eq]
  by_cases hheader : o.val.toNat + 8 ≤ p.bytes.length
  · have hback : o.val + 4 + 4 - 8 = o.val := by
      rw [UInt32.add_assoc]
      exact UInt32.add_sub_cancel _ _
    rw [if_pos hheader]
    dsimp only
    rw [hback, claimed_within_iff]
    exact ⟨fun h _ => h, fun h => h hheader⟩
  · rw [if_neg hheader]
    exact ⟨fun _ h => absurd h hheader, fun _ r e hr => nomatch hr⟩

theorem unionEnd_within_iff :
    (∀ r e, p.unionEnd o.val = some (r, e) → r.Within p.bytes.length) ↔
      (o.val.toNat + 4 ≤ p.bytes.length → 4 ≤ p.wordAt o.val.toNat →
        SumFits o.val.toNat (p.wordAt o.val.toNat).toNat p.bytes.length) := by
  unfold unionEnd
  rw [readUint32_eq]
  by_cases hword : o.val.toNat + 4 ≤ p.bytes.length
  · have hback : o.val + 4 - 4 = o.val := UInt32.add_sub_cancel _ _
    rw [if_pos hword]
    dsimp only
    rw [hback, claimed_within_iff]
    exact ⟨fun h _ => h, fun h => h hword⟩
  · rw [if_neg hword]
    exact ⟨fun _ h => absurd h hword, fun _ r e hr => nomatch hr⟩

end Payload

/-- The characters, the header and the byte behind them. -/
theorem decodeString_within_iff (header : Option ArrayHeader) (maxBytes : UInt32) :
    (∀ r, decodeString header maxBytes = some r → r.Within maxBytes.toNat) ↔
      ∀ h, header = some h → 8 ≤ h.numBytes → h.numBytes ≤ maxBytes →
        h.numElements.toNat + 9 < 2 ^ 32 ∨ 8 + h.numElements.toNat ≤ maxBytes.toNat := by
  cases header with
  | none => exact ⟨fun _ h hh => absurd hh.symm (Option.some_ne_none h), fun _ r hr => nomatch hr⟩
  | some header =>
    obtain ⟨numBytes, numElements⟩ := header
    have hsum : (8 + numElements + 1).toNat = (8 + numElements.toNat + 1) % 2 ^ 32 := by
      rw [UInt32.toNat_add, UInt32.toNat_add, Nat.mod_add_mod]
      rfl
    have hwraps := UInt32.toNat_lt numElements
    have hsmall : (8 : UInt32) ≤ numBytes ↔ 8 ≤ numBytes.toNat := UInt32.le_iff_toNat_le
    unfold decodeString
    dsimp only
    constructor
    · rintro h _ ⟨⟩ hleast hmost
      dsimp only at hleast hmost ⊢
      by_contra hwrong
      have hrefused : ¬ ((decide (numBytes < 8) || decide (numBytes > maxBytes)) = true) := by
        rw [Bool.or_eq_true, decide_eq_true_eq, decide_eq_true_eq, not_or]
        exact ⟨UInt32.not_lt.mpr hleast, UInt32.not_lt.mpr hmost⟩
      have hpass : ¬ 8 + numElements + 1 > numBytes := by
        rw [gt_iff_lt, UInt32.lt_iff_toNat_lt, hsum]
        rw [hsmall] at hleast
        omega
      have hwithin := h ⟨8, numElements.toNat⟩ (by rw [if_neg hrefused, if_neg hpass])
      exact hwrong (Or.inr hwithin)
    · intro h r hr
      split at hr
      case isTrue => cases hr
      case isFalse hchecked =>
        split at hr
        case isTrue => cases hr
        case isFalse hpass =>
          cases hr
          rw [Bool.or_eq_true, decide_eq_true_eq, decide_eq_true_eq, not_or] at hchecked
          have hmost := UInt32.not_lt.mp hchecked.2
          have hbound := h _ rfl (UInt32.not_lt.mp hchecked.1) hmost
          dsimp only at hbound
          rw [gt_iff_lt, UInt32.lt_iff_toNat_lt, hsum, Nat.not_lt] at hpass
          rw [UInt32.le_iff_toNat_le] at hmost
          unfold ByteRange.Within
          dsimp only
          omega

/-- **Bounds.**  Scalars and struct headers are read within the payload, and a scalar that is not
read leaves the offset.  A string, a struct or a union is taken within the payload, and the
characters of a decoded string within the bytes given, exactly if no sum wraps around to a value
that the test lets pass. -/
theorem reads_bounded_iff (p : Payload) (o : p.Offset) (header : Option ArrayHeader)
    (maxBytes : UInt32) :
    (∀ T : ScalarSize,
      ((p.readScalar T o.val).1 ≠ none →
        ByteRange.Within ⟨o.val.toNat, T.sizeof.toNat⟩ p.bytes.length) ∧
      ((p.readScalar T o.val).1 = none → (p.readScalar T o.val).2 = o.val)) ∧
    ((p.readStructHeader o.val).1 ≠ none →
      ByteRange.Within ⟨o.val.toNat, 8⟩ p.bytes.length) ∧
    ((∀ r, (p.readString o.val).1 = some r → r.Within p.bytes.length) ↔
      (o.val.toNat + 4 ≤ p.bytes.length →
        SumFits (o.val.toNat + 4) (p.wordAt o.val.toNat).toNat p.bytes.length)) ∧
    ((∀ r e, p.structEnd o.val = some (r, e) → r.Within p.bytes.length) ↔
      (o.val.toNat + 8 ≤ p.bytes.length → 8 ≤ p.wordAt o.val.toNat →
        SumFits o.val.toNat (p.wordAt o.val.toNat).toNat p.bytes.length)) ∧
    ((∀ r e, p.unionEnd o.val = some (r, e) → r.Within p.bytes.length) ↔
      (o.val.toNat + 4 ≤ p.bytes.length → 4 ≤ p.wordAt o.val.toNat →
        SumFits o.val.toNat (p.wordAt o.val.toNat).toNat p.bytes.length)) ∧
    ((∀ r, decodeString header maxBytes = some r → r.Within maxBytes.toNat) ↔
      ∀ h, header = some h → 8 ≤ h.numBytes → h.numBytes ≤ maxBytes →
        h.numElements.toNat + 9 < 2 ^ 32 ∨ 8 + h.numElements.toNat ≤ maxBytes.toNat) :=
  ⟨Payload.readScalar_within o, Payload.readStructHeader_within o, Payload.readString_within_iff o,
    Payload.structEnd_within_iff o, Payload.unionEnd_within_iff o,
    decodeString_within_iff header maxBytes⟩

/-- A string of a length that leads around to its own length word. -/
def wrappingString : Payload where
  base := 4096
  bytes := [0xFF, 0xFF, 0xFF, 0xFF]
  behind := by decide
  fits := by decide

theorem not_reads_bounded :
    ¬ ∀ (p : Payload) (o : p.Offset) (r : ByteRange), (p.readString o.val).1 = some r →
      r.Within p.bytes.length := by
  intro h
  have hwithin := h wrappingString ⟨0, by decide⟩ ⟨4, 4294967295⟩ (by decide)
  exact absurd (show 4 + 4294967295 ≤ 4 from hwithin) (by decide)

end Voodoo.Bindings
