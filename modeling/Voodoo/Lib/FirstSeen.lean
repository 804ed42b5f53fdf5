import Mathlib.Data.List.Induction
import Mathlib.Data.List.Nodup

/-!
# Numbers by first appearance

The elements of a list get the numbers from `1` on, in the order in which they come up first
(`FirstSeen.number`).  A number is kept, however the list goes on (`number_append`), no two elements
have the same (`number_inj`), and the numbers are those up to `count` (`exists_number_iff`).
-/

namespace FirstSeen

open List

variable {κ : Type} [DecidableEq κ] {l m : List κ} {a b : κ} {n : Nat}

/-- The elements without repetition, in the order of their first appearance. -/
def distinct (l : List κ) : List κ := l.eraseDups

def count (l : List κ) : Nat := (distinct l).length

def number (l : List κ) (a : κ) : Nat := (distinct l).idxOf a + 1

theorem mem_distinct : a ∈ distinct l ↔ a ∈ l := mem_eraseDups

theorem distinct_concat (l : List κ) (a : κ) :
    distinct (l ++ [a]) = if a ∈ l then distinct l else distinct l ++ [a] := by
  rw [distinct, eraseDups_append]
  by_cases h : a ∈ l
  · rw [removeAll, filter_cons_of_neg (by simpa using h), if_pos h]
    exact append_nil _
  · rw [removeAll, filter_cons_of_pos (by simpa using h), if_neg h]
    rfl

theorem nodup_distinct (l : List κ) : (distinct l).Nodup := by
  induction l using reverseRecOn with
  | nil => exact nodup_nil
  | append_singleton l a ih =>
    rw [distinct_concat]
    split
    · exact ih
    · rw [← concat_eq_append]
      exact ih.concat (mt mem_distinct.mp ‹_›)

theorem distinct_of_nodup (h : l.Nodup) : distinct l = l := by
  induction l using reverseRecOn with
  | nil => rfl
  | append_singleton l a ih =>
    obtain ⟨hl, -, hdisjoint⟩ := nodup_append.mp h
    rw [distinct_concat, if_neg fun ha => hdisjoint a ha a mem_cons_self rfl, ih hl]

theorem number_append (h : a ∈ l) : number (l ++ m) a = number l a := by
  have ha : a ∈ l.eraseDups := mem_distinct.mpr h
  rw [number, distinct, eraseDups_append, idxOf_append_of_mem ha]
  rfl

theorem number_concat_of_notMem (h : a ∉ l) : number (l ++ [a]) a = count l + 1 := by
  rw [number, distinct_concat, if_neg h, idxOf_append_of_notMem (mt mem_distinct.mp h),
    idxOf_cons_self]
  rfl

theorem number_le (h : a ∈ l) : number l a ≤ count l :=
  idxOf_lt_length_iff.mpr (mem_distinct.mpr h)

theorem number_inj (h : a ∈ l) : number l a = number l b ↔ a = b :=
  Nat.succ_inj.trans (idxOf_inj (mem_distinct.mpr h))

theorem count_le_append : count l ≤ count (l ++ m) := by
  rw [count, count, distinct, distinct, eraseDups_append, length_append]
  exact Nat.le_add_right _ _

theorem getElem?_number (h : a ∈ l) : (distinct l)[number l a - 1]? = some a := by
  have hlt := idxOf_lt_length_iff.mpr (mem_distinct.mpr h)
  rw [number, Nat.add_sub_cancel, getElem?_eq_getElem hlt, getElem_idxOf hlt]

theorem exists_number_iff : (∃ a ∈ l, number l a = n) ↔ 1 ≤ n ∧ n ≤ count l := by
  constructor
  · rintro ⟨a, ha, rfl⟩
    exact ⟨Nat.succ_pos _, number_le ha⟩
  · rintro ⟨hpos, hle⟩
    have hlt : n - 1 < (distinct l).length := Nat.sub_one_lt_of_le hpos hle
    refine ⟨(distinct l)[n - 1], mem_distinct.mp (getElem_mem hlt), ?_⟩
    rw [number, (nodup_distinct l).idxOf_getElem, Nat.sub_add_cancel hpos]

end FirstSeen
