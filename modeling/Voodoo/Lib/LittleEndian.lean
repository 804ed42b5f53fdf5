import Mathlib.Data.List.Basic
import Mathlib.Tactic.Ring

/-!
# Little-endian words

`store w n` is the `w` low bytes of `n`, least significant first, and `load`
reads a byte string back as a number.  Storing loses what does not fit in `w`
bytes and nothing else (`load_store`), which is all a caller needs to know:
a word that fits comes back (`load_store_of_lt`), and a stored word has the
width it was stored with (`length_store`).

`patch bs at w` overwrites bytes in the middle of a string.  It is what a
writer does that reserves room for a length and fills it in afterwards
(`patch_append`).
-/

namespace LittleEndian

/-- The `w` low bytes of `n`, least significant first. -/
def store : Nat → Nat → List UInt8
  | 0, _ => []
  | w + 1, n => UInt8.ofNat n :: store w (n / 256)

/-- The number a byte string spells, least significant byte first. -/
def load : List UInt8 → Nat
  | [] => 0
  | b :: bs => b.toNat + 256 * load bs

@[simp] theorem length_store (w n : Nat) : (store w n).length = w := by
  induction w generalizing n with
  | zero => rfl
  | succ w ih => rw [store, List.length_cons, ih]

theorem load_store (w n : Nat) : load (store w n) = n % 256 ^ w := by
  induction w generalizing n with
  | zero => rw [store, load, pow_zero, Nat.mod_one]
  | succ w ih =>
    have hb : (UInt8.ofNat n).toNat = n % 256 := UInt8.toNat_ofNat'
    rw [store, load, ih, hb, pow_succ', Nat.mod_mul]

/-- **A word that fits comes back.** -/
theorem load_store_of_lt {w n : Nat} (h : n < 256 ^ w) : load (store w n) = n := by
  rw [load_store, Nat.mod_eq_of_lt h]

theorem load_lt (bs : List UInt8) : load bs < 256 ^ bs.length := by
  induction bs with
  | nil => exact Nat.one_pos
  | cons b bs ih =>
    have hb : b.toNat < 256 := b.toNat_lt
    rw [load, List.length_cons, pow_succ']
    omega

/-! ### Overwriting -/

/-- `bs` with the bytes from position `pos` on replaced by `new`. -/
def patch (bs : List UInt8) (pos : Nat) (new : List UInt8) : List UInt8 :=
  bs.take pos ++ new ++ bs.drop (pos + new.length)

@[simp] theorem length_patch {bs new : List UInt8} {pos : Nat}
    (h : pos + new.length ≤ bs.length) : (patch bs pos new).length = bs.length := by
  simp only [patch, List.length_append, List.length_take, List.length_drop]
  omega

theorem patch_append (pre old rest new : List UInt8) (h : new.length = old.length) :
    patch (pre ++ old ++ rest) pre.length new = pre ++ new ++ rest := by
  have htake : (pre ++ old ++ rest).take pre.length = pre := by
    rw [List.append_assoc, List.take_left]
  have hdrop : (pre ++ old ++ rest).drop (pre.length + new.length) = rest := by
    rw [h, ← List.length_append, List.drop_left]
  rw [patch, htake, hdrop]

end LittleEndian
