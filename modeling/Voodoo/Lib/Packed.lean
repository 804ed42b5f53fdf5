import Voodoo.Lib.LittleEndian

/-!
# Packed records in a byte string

A packed record is read through fixed offsets: `slice bs pos len` is the `len`
bytes at `pos`, and `field bs pos w` the little-endian word stored there.  What
a reader needs is where a field of a string put together from parts lies: in
the left part (`slice_append_left`), or in the right one
(`slice_append_right`).  An overwrite changes the fields it covers
(`field_patch_inside`) and no other (`field_patch_of_le`, `field_patch_of_ge`),
and a string is its consecutive slices (`slice_append_slice`), so two records
with the same fields are the same bytes.
-/

namespace LittleEndian

open List

/-- The `len` bytes of `bs` at position `pos`. -/
def slice (bs : List UInt8) (pos len : Nat) : List UInt8 := (bs.drop pos).take len

/-- The word of `w` bytes stored at position `pos`. -/
def field (bs : List UInt8) (pos w : Nat) : Nat := load (slice bs pos w)

theorem length_slice (bs : List UInt8) (pos len : Nat) :
    (slice bs pos len).length = min len (bs.length - pos) := by
  rw [slice, length_take, length_drop]

theorem slice_append_left {as : List UInt8} (bs : List UInt8) {pos len : Nat}
    (h : pos + len ≤ as.length) : slice (as ++ bs) pos len = slice as pos len := by
  have hpos : pos ≤ as.length := by omega
  have hlen : len ≤ (as.drop pos).length := by rw [length_drop]; omega
  rw [slice, slice, drop_append_of_le_length hpos, take_append_of_le_length hlen]

theorem slice_append_right {as : List UInt8} (bs : List UInt8) {pos len : Nat}
    (h : as.length ≤ pos) : slice (as ++ bs) pos len = slice bs (pos - as.length) len := by
  rw [slice, slice, drop_append, drop_of_length_le h, nil_append]

theorem slice_to_end (bs : List UInt8) {pos len : Nat} (h : bs.length - pos ≤ len) :
    slice bs pos len = bs.drop pos :=
  take_of_length_le (by rw [length_drop]; exact h)

theorem field_lt (bs : List UInt8) (pos w : Nat) : field bs pos w < 256 ^ w :=
  lt_of_lt_of_le (load_lt _)
    (Nat.pow_le_pow_right (by decide) (by rw [length_slice]; exact min_le_left _ _))

theorem store_load (bs : List UInt8) : store bs.length (load bs) = bs := by
  induction bs with
  | nil => rfl
  | cons b bs ih =>
    have hb : b.toNat < 256 := b.toNat_lt
    have hmod : (b.toNat + 256 * load bs) / 256 = load bs := by omega
    have hhead : UInt8.ofNat (b.toNat + 256 * load bs) = b := by
      apply UInt8.toNat_inj.mp
      rw [UInt8.toNat_ofNat']
      omega
    rw [length_cons, load, store, hmod, ih, hhead]

theorem store_field {bs : List UInt8} {pos w : Nat} (h : pos + w ≤ bs.length) :
    store w (field bs pos w) = slice bs pos w := by
  have hlen : (slice bs pos w).length = w := by rw [length_slice]; omega
  have hstore := store_load (slice bs pos w)
  rwa [hlen] at hstore

theorem slice_append_slice (bs : List UInt8) (pos m n : Nat) :
    slice bs pos m ++ slice bs (pos + m) n = slice bs pos (m + n) := by
  rw [slice, slice, slice, take_add, drop_drop]

theorem slice_eq_of_field_eq {as bs : List UInt8} {pos w : Nat} (ha : pos + w ≤ as.length)
    (hb : pos + w ≤ bs.length) (h : field as pos w = field bs pos w) :
    slice as pos w = slice bs pos w := by
  rw [← store_field ha, ← store_field hb, h]

/-! ### Fields of an overwritten string -/

theorem length_patch_of_eq {bs new : List UInt8} {q n : Nat} (hbs : bs.length = n)
    (h : q + new.length ≤ n) : (patch bs q new).length = n := by
  rw [length_patch (by omega), hbs]

theorem le_length_patch {bs : List UInt8} (q : Nat) (new : List UInt8) {n : Nat}
    (h : n ≤ bs.length) : n ≤ (patch bs q new).length := by
  rw [patch, length_append, length_append, length_take, length_drop]
  omega

theorem slice_patch_of_le {bs : List UInt8} {q : Nat} (new : List UInt8) {pos len : Nat}
    (hq : q ≤ bs.length) (h : pos + len ≤ q) :
    slice (patch bs q new) pos len = slice bs pos len := by
  have hlen : (bs.take q).length = q := by rw [length_take]; omega
  rw [patch, List.append_assoc, slice_append_left _ (by omega)]
  conv_rhs => rw [← take_append_drop q bs]
  rw [slice_append_left _ (by omega)]

theorem slice_patch_of_ge {bs : List UInt8} {q : Nat} (new : List UInt8) {pos len : Nat}
    (hq : q ≤ bs.length) (h : q + new.length ≤ pos) :
    slice (patch bs q new) pos len = slice bs pos len := by
  have hlen : (bs.take q ++ new).length = q + new.length := by
    rw [length_append, length_take]; omega
  rw [patch, slice_append_right _ (by omega), hlen, slice, slice, drop_drop,
    Nat.add_sub_cancel' h]

theorem slice_patch_inside {bs : List UInt8} {q : Nat} {new : List UInt8} {pos len : Nat}
    (hq : q ≤ bs.length) (h₁ : q ≤ pos) (h₂ : pos + len ≤ q + new.length) :
    slice (patch bs q new) pos len = slice new (pos - q) len := by
  have hlen : (bs.take q).length = q := by rw [length_take]; omega
  rw [patch, List.append_assoc, slice_append_right _ (by omega), hlen,
    slice_append_left _ (by omega)]

theorem field_patch_of_le {bs : List UInt8} {q : Nat} (new : List UInt8) {pos w : Nat}
    (hq : q ≤ bs.length) (h : pos + w ≤ q) : field (patch bs q new) pos w = field bs pos w := by
  rw [field, field, slice_patch_of_le new hq h]

theorem field_patch_of_ge {bs : List UInt8} {q : Nat} (new : List UInt8) {pos w : Nat}
    (hq : q ≤ bs.length) (h : q + new.length ≤ pos) :
    field (patch bs q new) pos w = field bs pos w := by
  rw [field, field, slice_patch_of_ge new hq h]

theorem field_patch_inside {bs : List UInt8} {q : Nat} {new : List UInt8} {pos w : Nat}
    (hq : q ≤ bs.length) (h₁ : q ≤ pos) (h₂ : pos + w ≤ q + new.length) :
    field (patch bs q new) pos w = field new (pos - q) w := by
  rw [field, field, slice_patch_inside hq h₁ h₂]

/-- **The field just stored.** -/
theorem field_patch_store {bs : List UInt8} {q w : Nat} (n : Nat) (hq : q ≤ bs.length) :
    field (patch bs q (store w n)) q w = n % 256 ^ w := by
  have hlen : (store w n).length = w := length_store w n
  have hslice : slice (patch bs q (store w n)) q w = store w n := by
    rw [slice_patch_inside hq le_rfl (by omega), Nat.sub_self, slice, drop_zero,
      take_of_length_le (by omega)]
  rw [field, hslice, load_store]

theorem drop_patch {bs : List UInt8} {q : Nat} (new : List UInt8) {pos : Nat}
    (hq : q ≤ bs.length) (h : q + new.length ≤ pos) : (patch bs q new).drop pos = bs.drop pos := by
  have hlen : (bs.take q ++ new).length = q + new.length := by
    rw [length_append, length_take]; omega
  rw [patch, drop_append, drop_of_length_le (by omega), hlen, drop_drop,
    Nat.add_sub_cancel' h, nil_append]

end LittleEndian
