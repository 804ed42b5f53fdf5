import Voodoo.Sandbox.Cage

/-!
# Sandboxed pointers

A sandboxed pointer is the offset of an address in the cage, in 32 bits.  What is stored is taken
modulo the size of the cage, so that it always decodes to an address inside; the offset comes back
as long as it has 32 bits.

* `contains_decode`: every stored value decodes to an address of the cage;
* `sandboxedPointers_iff`: and every address comes back, if and only if the cage has at most `2 ^ 32`
  bytes.
-/

namespace Voodoo.Sandbox

variable {w : Nat}

namespace Cage

/-- `DecodeSandboxedPointer`. -/
def decodeSandboxedPointer (c : Cage w) (encoded : BitVec 32) : BitVec w :=
  let offset : BitVec 64 := encoded.setWidth 64 % c.size.setWidth 64
  c.base + offset.setWidth w

/-- `EncodeSandboxedPointer`; `none` is a failed check. -/
def encodeSandboxedPointer (c : Cage w) (pointer : BitVec w) : Option (BitVec 32) :=
  if c.contains pointer then
    let offset : BitVec 64 := pointer.setWidth 64 - c.base.setWidth 64
    some (offset.setWidth 32)
  else none

variable {c : Cage w}

theorem toNat_setWidth_of_le {n : Nat} (h : w ≤ n) (v : BitVec w) : (v.setWidth n).toNat = v.toNat := by
  rw [BitVec.toNat_setWidth]
  exact Nat.mod_eq_of_lt (v.isLt.trans_le (Nat.pow_le_pow_right (by decide) h))

theorem toNat_decode (hw : w ≤ 64) (e : BitVec 32) :
    (c.decodeSandboxedPointer e).toNat = c.base.toNat + e.toNat % c.size.toNat := by
  have hend := c.end_lt
  have hmod := Nat.mod_lt e.toNat c.size_pos
  have hoffset : (e.setWidth 64 % c.size.setWidth 64 : BitVec 64).toNat = e.toNat % c.size.toNat := by
    rw [BitVec.toNat_umod, toNat_setWidth_of_le (by decide), toNat_setWidth_of_le hw]
  have hnarrow : ((e.setWidth 64 % c.size.setWidth 64 : BitVec 64).setWidth w).toNat =
      e.toNat % c.size.toNat := by
    rw [BitVec.toNat_setWidth, hoffset]
    exact Nat.mod_eq_of_lt (by omega)
  rw [decodeSandboxedPointer, BitVec.toNat_add_of_lt (by omega), hnarrow]

theorem contains_iff {p : BitVec w} :
    c.contains p = true ↔ c.base.toNat ≤ p.toNat ∧ p.toNat < c.base.toNat + c.size.toNat := by
  rw [contains, decide_eq_true_iff, BitVec.le_def, BitVec.lt_def, toNat_endAddress]

theorem contains_decode (hw : w ≤ 64) (e : BitVec 32) :
    c.contains (c.decodeSandboxedPointer e) = true := by
  have hmod := Nat.mod_lt e.toNat c.size_pos
  rw [contains_iff, toNat_decode hw]
  exact ⟨Nat.le_add_right _ _, Nat.add_lt_add_left hmod _⟩

theorem encode_eq (hw : w ≤ 64) {p : BitVec w} (hp : c.contains p = true) :
    c.encodeSandboxedPointer p = some (BitVec.ofNat 32 (p.toNat - c.base.toNat)) := by
  obtain ⟨hle, -⟩ := contains_iff.mp hp
  have hwide : c.base.setWidth 64 ≤ p.setWidth 64 := by
    rwa [BitVec.le_def, toNat_setWidth_of_le hw, toNat_setWidth_of_le hw]
  rw [encodeSandboxedPointer, if_pos hp, Option.some_inj]
  apply BitVec.eq_of_toNat_eq
  rw [BitVec.toNat_setWidth, BitVec.toNat_sub_of_le hwide, toNat_setWidth_of_le hw,
    toNat_setWidth_of_le hw, BitVec.toNat_ofNat]

theorem decode_encode (hw : w ≤ 64) {p : BitVec w} (hp : c.contains p = true)
    (hlt : p.toNat - c.base.toNat < 2 ^ 32) :
    (c.encodeSandboxedPointer p).map c.decodeSandboxedPointer = some p := by
  obtain ⟨hle, hstop⟩ := contains_iff.mp hp
  rw [encode_eq hw hp, Option.map_some, Option.some_inj]
  apply BitVec.eq_of_toNat_eq
  rw [toNat_decode hw, BitVec.toNat_ofNat, Nat.mod_eq_of_lt hlt, Nat.mod_eq_of_lt (by omega)]
  omega

theorem decode_encode_ne (hw : w ≤ 64) (hlarge : 2 ^ 32 < c.size.toNat) :
    ∃ p, c.contains p = true ∧
      (c.encodeSandboxedPointer p).map c.decodeSandboxedPointer ≠ some p := by
  have hend := c.end_lt
  have hvalue : (BitVec.ofNat w (c.base.toNat + 2 ^ 32)).toNat = c.base.toNat + 2 ^ 32 := by
    rw [BitVec.toNat_ofNat]
    exact Nat.mod_eq_of_lt (by omega)
  have hp : c.contains (BitVec.ofNat w (c.base.toNat + 2 ^ 32)) = true := by
    rw [contains_iff, hvalue]
    exact ⟨Nat.le_add_right _ _, Nat.add_lt_add_left hlarge _⟩
  refine ⟨_, hp, fun hback => ?_⟩
  rw [encode_eq hw hp, Option.map_some, Option.some_inj] at hback
  have hsame := congrArg BitVec.toNat hback
  rw [toNat_decode hw, hvalue, BitVec.toNat_ofNat, Nat.add_sub_cancel_left, Nat.mod_self,
    Nat.zero_mod] at hsame
  omega

/-- **Every stored value decodes to an address of the cage, and every address of the cage comes back,
if and only if the cage has at most `2 ^ 32` bytes.**  No address is wider than a `uint64_t`. -/
theorem sandboxedPointers_iff (hw : w ≤ 64) (c : Cage w) :
    ((∀ e, c.contains (c.decodeSandboxedPointer e) = true) ∧
      ∀ p, c.contains p = true →
        (c.encodeSandboxedPointer p).map c.decodeSandboxedPointer = some p) ↔
      c.size.toNat ≤ 2 ^ 32 := by
  refine ⟨fun h => ?_, fun hsize => ⟨contains_decode hw, fun p hp => decode_encode hw hp ?_⟩⟩
  · by_contra hlarge
    obtain ⟨p, hp, hne⟩ := decode_encode_ne hw (Nat.lt_of_not_le hlarge)
    exact hne (h.2 p hp)
  · obtain ⟨hle, hstop⟩ := contains_iff.mp hp
    omega

theorem sandboxedPointers_smallCage :
    ((∀ e, smallCage.contains (smallCage.decodeSandboxedPointer e) = true) ∧
      ∀ p, smallCage.contains p = true →
        (smallCage.encodeSandboxedPointer p).map smallCage.decodeSandboxedPointer = some p) ↔
      smallCage.size.toNat ≤ 2 ^ 32 :=
  sandboxedPointers_iff (by decide) smallCage

/-- A cage of 8 GiB on a host of 64 bits. -/
def largeCage : Cage 64 where
  base := 0x100000
  size := 0x200000000
  windows := false
  base_pos := by decide
  size_pos := by decide
  end_lt := by decide

/-- The address in the middle of the cage comes back as its start. -/
theorem largeCage_not_roundTrip : largeCage.contains 0x100100000 = true ∧
    (largeCage.encodeSandboxedPointer 0x100100000).map largeCage.decodeSandboxedPointer =
      some 0x100000 ∧ (0x100000 : BitVec 64) ≠ 0x100100000 := by
  decide +kernel

end Cage

end Voodoo.Sandbox
