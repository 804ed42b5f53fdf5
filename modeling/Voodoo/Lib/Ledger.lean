import Mathlib.Data.List.Range
import Mathlib.Data.List.Nodup
import Mathlib.Data.List.Perm.Basic

/-!
# A ledger of owned values

Values are taken into variables and given up through them.  They are numbered as they are taken;
a variable holds the number of its value, or none where its value is not owned.

`Owes b xs`: what was given up and what the variables `xs` hold is together each value taken,
exactly once.  With no variables left to give up, the book is `Settled` (`Owes.settled`); while one
of them holds a value it is not (`Owes.not_settled`).
-/

namespace Ledger

open List Function

universe u

variable {ι : Type u} [DecidableEq ι]

structure Book (ι : Type u) where
  value : ι → Option Nat
  taken : Nat
  given : List Nat

namespace Book

/-- Nothing taken yet. -/
def empty : Book ι := ⟨fun _ => none, 0, []⟩

/-- A new value into `x`. -/
def take (b : Book ι) (x : ι) : Book ι :=
  ⟨Function.update b.value x (some b.taken), b.taken + 1, b.given⟩

/-- `x` holds `v` from now on. -/
def put (b : Book ι) (x : ι) (v : Option Nat) : Book ι :=
  { b with value := Function.update b.value x v }

/-- The value of `x` is given up; the variable keeps it. -/
def give (b : Book ι) (x : ι) : Book ι :=
  match b.value x with
  | none => b
  | some n => { b with given := n :: b.given }

/-- Every value taken was given up exactly once. -/
def Settled (b : Book ι) : Prop := ∀ n < b.taken, b.given.count n = 1

variable {b : Book ι} {x y : ι} {v : Option Nat}

@[simp] theorem value_take_self : (b.take x).value x = some b.taken := update_self ..

@[simp] theorem value_take_of_ne (h : y ≠ x) : (b.take x).value y = b.value y :=
  update_of_ne h ..

@[simp] theorem value_put_self : (b.put x v).value x = v := update_self ..

@[simp] theorem value_put_of_ne (h : y ≠ x) : (b.put x v).value y = b.value y :=
  update_of_ne h ..

omit [DecidableEq ι] in
@[simp] theorem value_give : (b.give x).value = b.value := by
  unfold give
  cases b.value x with
  | none => rfl
  | some n => rfl

end Book

open Book

def Owes (b : Book ι) (xs : List ι) : Prop :=
  (b.given ++ xs.filterMap b.value).Perm (List.range b.taken)

variable {b : Book ι} {x y : ι} {xs ys : List ι} {v : Option Nat}

omit [DecidableEq ι] in
theorem owes_empty : Owes (empty : Book ι) [] := List.Perm.nil

omit [DecidableEq ι] in
theorem Owes.perm (h : Owes b xs) (hxs : xs.Perm ys) : Owes b ys :=
  ((hxs.filterMap b.value).append_left b.given).symm.trans h

theorem filterMap_update (hx : x ∉ xs) (f : ι → Option Nat) :
    xs.filterMap (Function.update f x v) = xs.filterMap f := by
  refine filterMap_congr fun y hy => ?_
  have hne : y ≠ x := fun he => hx (he ▸ hy)
  exact update_of_ne hne ..

theorem Owes.put (h : Owes b xs) (hx : x ∉ xs) : Owes (b.put x v) xs := by
  unfold Owes Book.put
  rw [filterMap_update hx]
  exact h

omit [DecidableEq ι] in
theorem Owes.cons_none (h : Owes b xs) (hx : b.value x = none) : Owes b (x :: xs) := by
  unfold Owes
  rw [filterMap_cons_none hx]
  exact h

theorem Owes.plain (h : Owes b xs) (hx : x ∉ xs) : Owes (b.put x none) (x :: xs) :=
  (h.put hx).cons_none value_put_self

theorem Owes.copy (h : Owes b (y :: xs)) (hx : x ∉ xs) :
    Owes (b.put x (b.value y)) (x :: xs) := by
  cases hy : b.value y with
  | none =>
    unfold Owes at h
    rw [filterMap_cons_none hy] at h
    exact Owes.plain h hx
  | some n =>
    unfold Owes Book.put at *
    rw [filterMap_cons_some (update_self ..), filterMap_update hx]
    rw [filterMap_cons_some hy] at h
    exact h

theorem Owes.take (h : Owes b xs) (hx : x ∉ xs) : Owes (b.take x) (x :: xs) := by
  unfold Owes Book.take at *
  rw [filterMap_cons_some (update_self ..), filterMap_update hx, range_succ]
  exact perm_middle.trans ((h.cons b.taken).trans (perm_append_singleton _ _).symm)

omit [DecidableEq ι] in
theorem Owes.give (h : Owes b (x :: xs)) : Owes (b.give x) xs := by
  unfold Owes Book.give at *
  cases hx : b.value x with
  | none =>
    rw [filterMap_cons_none hx] at h
    exact h
  | some n =>
    rw [filterMap_cons_some hx] at h
    exact perm_middle.symm.trans h

omit [DecidableEq ι] in
theorem Owes.settled (h : Owes b []) : b.Settled := by
  intro n hn
  have hcount := h.count_eq n
  rw [filterMap_nil, append_nil] at hcount
  rw [hcount]
  exact count_eq_one_of_mem nodup_range (mem_range.mpr hn)

omit [DecidableEq ι] in
theorem Owes.not_settled (h : Owes b xs) (hx : x ∈ xs) {n : Nat} (hn : b.value x = some n) :
    ¬ b.Settled := by
  intro hsettled
  have hmem : n ∈ xs.filterMap b.value := mem_filterMap.mpr ⟨x, hx, hn⟩
  have hlt : n < b.taken := mem_range.mp (h.mem_iff.mp (mem_append_right _ hmem))
  have hcount := h.count_eq n
  rw [count_append, hsettled n hlt,
    count_eq_one_of_mem nodup_range (mem_range.mpr hlt)] at hcount
  have hpos := List.count_pos_iff.mpr hmem
  omega

end Ledger
