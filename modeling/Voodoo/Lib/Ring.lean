import Mathlib.Data.List.Rotate
import Mathlib.Data.Nat.ModEq

/-!
# Segments of a ring

A list is taken as a ring: after its last element comes the first.  `segment` is what
stands from a place on, and goes on at the front where it meets the end.  A ring
buffer holds its contents as a segment; writing after the segment makes it longer,
and nothing outside it matters.
-/

namespace Ring

open List

variable {α : Type} {buf buf' : List α} {start m n : Nat}

/-- The `n` elements from `start` on. -/
def segment (buf : List α) (start n : Nat) : List α := (buf.rotate start).take n

theorem length_segment (hn : n ≤ buf.length) : (segment buf start n).length = n := by
  rw [segment, length_take, length_rotate, Nat.min_eq_left hn]

@[simp] theorem segment_zero (buf : List α) (start : Nat) : segment buf start 0 = [] :=
  take_zero

theorem segment_mod (buf : List α) (start n : Nat) :
    segment buf (start % buf.length) n = segment buf start n := by
  rw [segment, segment, rotate_mod]

theorem getElem?_segment (hn : n ≤ buf.length) {i : Nat} (hi : i < n) :
    (segment buf start n)[i]? = buf[(start + i) % buf.length]? := by
  rw [segment, getElem?_take_of_lt hi, getElem?_rotate (by omega), Nat.add_comm]

theorem segment_congr (hn : n ≤ buf.length) (hlen : buf'.length = buf.length)
    (h : ∀ i < n, buf'[(start + i) % buf.length]? = buf[(start + i) % buf.length]?) :
    segment buf' start n = segment buf start n := by
  refine ext_getElem? fun i => ?_
  by_cases hi : i < n
  · rw [getElem?_segment (hlen ▸ hn) hi, getElem?_segment hn hi, hlen, h i hi]
  · rw [getElem?_eq_none (by rw [length_segment (hlen ▸ hn)]; omega),
      getElem?_eq_none (by rw [length_segment hn]; omega)]

theorem segment_add (h : m + n ≤ buf.length) :
    segment buf start (m + n) = segment buf start m ++ segment buf (start + m) n := by
  have hm : m ≤ (buf.rotate start).length := by
    rw [length_rotate]
    omega
  have hn : n ≤ ((buf.rotate start).drop m).length := by
    rw [length_drop, length_rotate]
    omega
  rw [segment, take_add, segment, segment, ← rotate_rotate,
    rotate_eq_drop_append_take hm, take_append_of_le_length hn]

theorem take_segment (hmn : m ≤ n) (buf : List α) (start : Nat) :
    (segment buf start n).take m = segment buf start m := by
  rw [segment, segment, take_take, Nat.min_eq_left hmn]

theorem drop_segment (hmn : m ≤ n) (hn : n ≤ buf.length) :
    (segment buf start n).drop m = segment buf (start + m) (n - m) := by
  have hsplit : segment buf start n = segment buf start m ++ segment buf (start + m) (n - m) := by
    rw [← segment_add (by omega), Nat.add_sub_cancel' hmn]
  rw [hsplit, drop_left' (length_segment (by omega))]

theorem segment_eq (h : start + n ≤ buf.length) :
    segment buf start n = (buf.drop start).take n := by
  rw [segment, rotate_eq_drop_append_take (by omega),
    take_append_of_le_length (by rw [length_drop]; omega)]

theorem segment_one (h : start < buf.length) (d : α) :
    segment buf start 1 = [buf.getD start d] := by
  rw [segment_eq h, drop_eq_getElem_cons h, take_succ_cons, take_zero,
    getD_eq_getElem?_getD, getElem?_eq_getElem h, Option.getD_some]

theorem add_mod_inj {len i j : Nat} (hi : i < len) (hj : j < len)
    (h : (start + i) % len = (start + j) % len) : i = j := by
  have hmod : i % len = j % len := Nat.ModEq.add_left_cancel' start h
  rwa [Nat.mod_eq_of_lt hi, Nat.mod_eq_of_lt hj] at hmod

theorem segment_eq_of_outside (hlen : buf'.length = buf.length) (hfit : n + m ≤ buf.length)
    (hroom : (start + n) % buf.length + m ≤ buf.length)
    (h : ∀ i, (i < (start + n) % buf.length ∨ (start + n) % buf.length + m ≤ i) →
      buf'[i]? = buf[i]?) :
    segment buf' start n = segment buf start n := by
  refine segment_congr (by omega) hlen fun i hi => h _ ?_
  by_contra hin
  obtain ⟨hge, hlt⟩ := not_or.mp hin
  -- the place would be one of the room, counted from the start
  have hplace : (start + i) % buf.length =
      (start + (n + ((start + i) % buf.length - (start + n) % buf.length))) % buf.length := by
    have hsum : (start + n) % buf.length + ((start + i) % buf.length - (start + n) % buf.length) =
        (start + i) % buf.length := by omega
    rw [← Nat.add_assoc, ← Nat.mod_add_mod (start + n), hsum, Nat.mod_mod]
  have := add_mod_inj (by omega) (by omega) hplace
  omega

/-- **Writing the element after a segment appends it.** -/
theorem segment_set (hn : n < buf.length) (x : α) :
    segment (buf.set ((start + n) % buf.length) x) start (n + 1) = segment buf start n ++ [x] := by
  have hat : (start + n) % buf.length < buf.length := Nat.mod_lt _ (by omega)
  rw [segment_add (by rw [length_set]; omega)]
  congr 1
  · refine segment_congr (Nat.le_of_lt hn) length_set fun i hi => ?_
    refine getElem?_set_ne fun heq => ?_
    have := add_mod_inj (by omega) (by omega) heq
    omega
  · refine ext_getElem? fun i => ?_
    have hle : 1 ≤ (buf.set ((start + n) % buf.length) x).length := by
      rw [length_set]
      omega
    rcases i with _ | i
    · rw [getElem?_segment hle Nat.zero_lt_one, length_set, Nat.add_zero,
        getElem?_set_self hat]
      rfl
    · rw [getElem?_eq_none (by rw [length_segment hle]; omega)]
      rfl

end Ring
