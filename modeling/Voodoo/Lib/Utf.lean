import Mathlib.Data.List.Basic

/-!
# UTF-8 and UTF-16

The encodings of a text, and how they treat ASCII: in UTF-8 an ASCII character is its own byte and
all bytes of any other character lie above.
-/

namespace Utf

open List

def utf8 (s : List Char) : List UInt8 := s.flatMap String.utf8EncodeChar

/-- The code units of a character: one, or a surrogate pair. -/
def utf16Char (c : Char) : List Nat :=
  if c.toNat < 0x10000 then [c.toNat]
  else [0xD800 + (c.toNat - 0x10000) / 0x400, 0xDC00 + (c.toNat - 0x10000) % 0x400]

def utf16 (s : List Char) : List Nat := s.flatMap utf16Char

variable {s t : List Char} {c : Char} {b : UInt8}

@[simp] theorem utf8_nil : utf8 [] = [] := rfl

theorem utf8_cons (c : Char) (s : List Char) : utf8 (c :: s) = String.utf8EncodeChar c ++ utf8 s :=
  flatMap_cons

theorem utf8_append (s t : List Char) : utf8 (s ++ t) = utf8 s ++ utf8 t := flatMap_append

theorem utf8_flatMap {α : Type} (f : α → List Char) (xs : List α) :
    utf8 (xs.flatMap f) = xs.flatMap fun x => utf8 (f x) := flatMap_assoc

theorem utf8_inj : utf8 s = utf8 t ↔ s = t := by
  refine ⟨fun h => ?_, fun h => h ▸ rfl⟩
  refine String.ofList_inj.mp (String.toByteArray_inj.mp ?_)
  rw [String.toByteArray_ofList, String.toByteArray_ofList]
  exact congrArg List.toByteArray h

theorem length_utf8Char_pos : 0 < (String.utf8EncodeChar c).length :=
  length_pos_iff.mpr String.utf8EncodeChar_ne_nil

theorem length_utf8Char_le : (String.utf8EncodeChar c).length ≤ 4 := by
  rw [String.length_utf8EncodeChar]
  exact c.utf8Size_le_four

/-! ### ASCII -/

/-- The byte of an ASCII character. -/
def byte (c : Char) : UInt8 := UInt8.ofNat c.toNat

theorem utf8Char_of_ascii (h : c.toNat < 0x80) : String.utf8EncodeChar c = [byte c] :=
  if_pos (Nat.le_of_lt_succ h)

theorem utf8_ascii_cons (h : c.toNat < 0x80) : utf8 (c :: s) = byte c :: utf8 s := by
  rw [utf8_cons, utf8Char_of_ascii h]
  rfl

theorem byte_toNat (h : c.toNat < 0x80) : (byte c).toNat = c.toNat := by
  rw [byte, UInt8.toNat_ofNat', Nat.mod_eq_of_lt (by omega)]

theorem byte_inj {d : Char} (hc : c.toNat < 0x80) (hd : d.toNat < 0x80) :
    byte c = byte d ↔ c = d := by
  refine ⟨fun h => Char.toNat_inj.mp ?_, fun h => h ▸ rfl⟩
  rw [← byte_toNat hc, h, byte_toNat hd]

theorem le_of_mem_utf8Char (h : 0x80 ≤ c.toNat) (hb : b ∈ String.utf8EncodeChar c) :
    0x80 ≤ b.toNat := by
  unfold String.utf8EncodeChar at hb
  have hc : ¬c.val.toNat ≤ 0x7f := Nat.not_le.mpr h
  simp only [if_neg hc] at hb
  split at hb
  · simp only [mem_cons, not_mem_nil, or_false] at hb
    rcases hb with rfl | rfl <;> simp only [UInt8.toNat_ofNat'] <;> omega
  · split at hb <;> simp only [mem_cons, not_mem_nil, or_false] at hb
    · rcases hb with rfl | rfl | rfl <;> simp only [UInt8.toNat_ofNat'] <;> omega
    · rcases hb with rfl | rfl | rfl | rfl <;> simp only [UInt8.toNat_ofNat'] <;> omega

theorem ne_byte_of_mem_utf8Char {d : Char} (h : 0x80 ≤ c.toNat) (hd : d.toNat < 0x80)
    (hb : b ∈ String.utf8EncodeChar c) : b ≠ byte d := by
  rintro rfl
  have := le_of_mem_utf8Char h hb
  rw [byte_toNat hd] at this
  omega

theorem byte_mem_utf8 {d : Char} (hd : d.toNat < 0x80) : byte d ∈ utf8 s ↔ d ∈ s := by
  rw [utf8, mem_flatMap]
  refine ⟨?_, fun h => ⟨d, h, by rw [utf8Char_of_ascii hd]; exact mem_singleton_self _⟩⟩
  rintro ⟨c, hc, hb⟩
  by_cases h : c.toNat < 0x80
  · rw [utf8Char_of_ascii h, mem_singleton, byte_inj hd h] at hb
    exact hb ▸ hc
  · exact absurd rfl (ne_byte_of_mem_utf8Char (Nat.le_of_not_lt h) hd hb)

/-! ### UTF-16 -/

theorem length_utf16Char_pos : 0 < (utf16Char c).length := by
  unfold utf16Char
  split <;> exact Nat.succ_pos _

end Utf
