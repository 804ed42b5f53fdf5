import Mathlib.Data.List.Nodup

/-!
# Chains through a table

A table whose free cells are linked keeps, in each of them, the index of the next one.
`next i` is the index cell `i` holds, and nothing when it holds none.  `Visits next stop h is`
says that from `h` the links lead through `is` and then to `stop`, the index that ends a chain.

* `Visits.unique`: where `stop` is no cell there is only one way to go.
* `Visits.nodup`: so no cell is visited twice.
* `Visits.push`, `Visits.pop`, `Visits.congr`: a cell put in front, the first cell taken, and
  a change elsewhere.
-/

namespace Chain

variable {next next' : Nat → Option Nat} {stop h i n : Nat} {is js : List Nat}

/-- From `h` the links lead through the cells `is` and then to `stop`. -/
inductive Visits (next : Nat → Option Nat) (stop : Nat) : Nat → List Nat → Prop
  | nil : Visits next stop stop []
  | cons {i n : Nat} {is : List Nat} (hi : next i = some n) (h : Visits next stop n is) :
      Visits next stop i (i :: is)

namespace Visits

theorem congr (h : Visits next stop i is) (heq : ∀ j ∈ is, next' j = next j) :
    Visits next' stop i is := by
  induction h with
  | nil => exact .nil
  | @cons i n is hi _ ih =>
    refine .cons ?_ (ih fun j hj => heq j (List.mem_cons_of_mem i hj))
    rw [heq i List.mem_cons_self]
    exact hi

theorem push (h : Visits next stop n is) (hi : next' i = some n)
    (heq : ∀ j ∈ is, next' j = next j) : Visits next' stop i (i :: is) :=
  .cons hi (h.congr heq)

theorem pop (h : Visits next stop i is) (hne : i ≠ stop) :
    ∃ n js, is = i :: js ∧ next i = some n ∧ Visits next stop n js := by
  cases h with
  | nil => exact absurd rfl hne
  | cons hi h => exact ⟨_, _, rfl, hi, h⟩

theorem unique (hstop : next stop = none) (h : Visits next stop i is)
    (h' : Visits next stop i js) : is = js := by
  induction h generalizing js with
  | nil =>
    cases h' with
    | nil => rfl
    | cons hi _ => rw [hstop] at hi; cases hi
  | cons hi _ ih =>
    cases h' with
    | nil => rw [hstop] at hi; cases hi
    | cons hi' h' =>
      obtain rfl : _ = _ := Option.some.inj (hi.symm.trans hi')
      rw [ih h']

theorem suffix (h : Visits next stop i is) {j : Nat} (hj : j ∈ is) :
    ∃ js, js.length ≤ is.length ∧ Visits next stop j js := by
  induction h with
  | nil => exact absurd hj List.not_mem_nil
  | @cons i n is hi h ih =>
    rcases List.mem_cons.mp hj with rfl | hj
    · exact ⟨_, Nat.le_refl _, .cons hi h⟩
    · obtain ⟨js, hjs, h⟩ := ih hj
      exact ⟨js, Nat.le_succ_of_le hjs, h⟩

theorem nodup (hstop : next stop = none) (h : Visits next stop i is) : is.Nodup := by
  induction h with
  | nil => exact List.nodup_nil
  | @cons i n is hi h ih =>
    refine List.nodup_cons.mpr ⟨fun hmem => ?_, ih⟩
    obtain ⟨js, hlength, hjs⟩ := h.suffix hmem
    have heq : i :: is = js := unique hstop (.cons hi h) hjs
    rw [← heq, List.length_cons] at hlength
    omega

end Visits

end Chain
