import Mathlib.Data.List.Range
import Mathlib.Data.List.Perm.Subperm
import Mathlib.Order.Bounds.Basic

/-!
# Numbering

A list of items, of which some ask for a number and the others take the least number
that is not taken: `Numbered asked numbers`.  The numbers asked for count as taken from
the start.

The numbers differ if those asked for do (`Numbered.nodup`), and a number not asked for
is below the number of items (`Numbered.lt_of_not_asked`).
-/

/-- `numbers` is given to `asked` from left to right, `taken` being what is taken already. -/
inductive NumberedFrom : List ℕ → List (Option ℕ) → List ℕ → Prop
  | nil {taken : List ℕ} : NumberedFrom taken [] []
  | asked {taken : List ℕ} {n : ℕ} {asked : List (Option ℕ)} {numbers : List ℕ}
      (rest : NumberedFrom taken asked numbers) :
      NumberedFrom taken (some n :: asked) (n :: numbers)
  | least {taken : List ℕ} {n : ℕ} {asked : List (Option ℕ)} {numbers : List ℕ}
      (hleast : IsLeast {k | k ∉ taken} n) (rest : NumberedFrom (n :: taken) asked numbers) :
      NumberedFrom taken (none :: asked) (n :: numbers)

def Numbered (asked : List (Option ℕ)) (numbers : List ℕ) : Prop :=
  NumberedFrom (asked.filterMap id) asked numbers

theorem length_ge_of_forall_lt {l : List ℕ} {n : ℕ} (h : ∀ k < n, k ∈ l) : n ≤ l.length := by
  have hsub : List.range n ⊆ l := fun k hk => h k (List.mem_range.mp hk)
  have hle := (List.nodup_range.subperm hsub).length_le
  rwa [List.length_range] at hle

theorem length_le_of_forall_lt {l : List ℕ} {n : ℕ} (hnodup : l.Nodup) (h : ∀ k ∈ l, k < n) :
    l.length ≤ n := by
  have hsub : l ⊆ List.range n := fun k hk => List.mem_range.mpr (h k hk)
  have hle := (hnodup.subperm hsub).length_le
  rwa [List.length_range] at hle

theorem le_length_of_isLeast {taken : List ℕ} {n : ℕ} (h : IsLeast {k | k ∉ taken} n) :
    n ≤ taken.length := by
  refine length_ge_of_forall_lt (fun k hk => ?_)
  by_contra hn
  exact absurd (h.2 hn) (Nat.not_le.mpr hk)

theorem length_filterMap_add (asked : List (Option ℕ)) :
    (asked.filterMap id).length + asked.countP (·.isNone) = asked.length := by
  induction asked with
  | nil => rfl
  | cons w asked ih =>
    cases w with
    | none =>
      rw [List.filterMap_cons_none rfl, List.countP_cons_of_pos rfl, List.length_cons]
      omega
    | some n =>
      have hsome : (some n :: asked).filterMap id = n :: asked.filterMap id := rfl
      rw [hsome, List.countP_cons_of_neg (by simp), List.length_cons, List.length_cons]
      omega

namespace NumberedFrom

variable {taken : List ℕ} {asked : List (Option ℕ)} {numbers : List ℕ}

theorem length_eq (h : NumberedFrom taken asked numbers) : numbers.length = asked.length := by
  induction h with
  | nil => rfl
  | asked _ ih => rw [List.length_cons, List.length_cons, ih]
  | least _ _ ih => rw [List.length_cons, List.length_cons, ih]

theorem sublist (h : NumberedFrom taken asked numbers) :
    (asked.filterMap id).Sublist numbers := by
  induction h with
  | nil => exact .slnil
  | @asked _ n _ _ _ ih => exact ih.cons_cons n
  | @least _ n _ _ _ _ ih => exact ih.cons n

theorem asked_of_taken (h : NumberedFrom taken asked numbers) {n : ℕ} (hn : n ∈ numbers)
    (htaken : n ∈ taken) : some n ∈ asked := by
  induction h with
  | nil => cases hn
  | asked _ ih =>
    rcases List.mem_cons.mp hn with rfl | hn
    · exact List.mem_cons_self
    · exact List.mem_cons_of_mem _ (ih hn htaken)
  | least hleast _ ih =>
    rcases List.mem_cons.mp hn with rfl | hn
    · exact absurd htaken hleast.1
    · exact List.mem_cons_of_mem _ (ih hn (List.mem_cons_of_mem _ htaken))

theorem nodup (h : NumberedFrom taken asked numbers) (hsub : ∀ n, some n ∈ asked → n ∈ taken)
    (hdistinct : (asked.filterMap id).Nodup) : numbers.Nodup := by
  induction h with
  | nil => exact List.nodup_nil
  | @asked taken n asked numbers rest ih =>
    have hcons : (n :: asked.filterMap id).Nodup := hdistinct
    rw [List.nodup_cons] at hcons
    have hnew : n ∉ numbers := by
      intro hn
      refine hcons.1 (List.mem_filterMap.mpr ⟨some n, ?_, rfl⟩)
      exact rest.asked_of_taken hn (hsub n List.mem_cons_self)
    exact List.nodup_cons.mpr
      ⟨hnew, ih (fun m hm => hsub m (List.mem_cons_of_mem _ hm)) hcons.2⟩
  | @least taken n asked numbers hleast rest ih =>
    rw [List.filterMap_cons_none rfl] at hdistinct
    have hsub' : ∀ m, some m ∈ asked → m ∈ taken :=
      fun m hm => hsub m (List.mem_cons_of_mem _ hm)
    have hnew : n ∉ numbers := by
      intro hn
      exact hleast.1 (hsub' n (rest.asked_of_taken hn List.mem_cons_self))
    exact List.nodup_cons.mpr
      ⟨hnew, ih (fun m hm => List.mem_cons_of_mem _ (hsub' m hm)) hdistinct⟩

theorem asked_or_lt (h : NumberedFrom taken asked numbers) {n : ℕ} (hn : n ∈ numbers) :
    some n ∈ asked ∨ n < taken.length + asked.countP (·.isNone) := by
  induction h with
  | nil => cases hn
  | asked _ ih =>
    rcases List.mem_cons.mp hn with rfl | hn
    · exact .inl List.mem_cons_self
    · rw [List.countP_cons_of_neg (by simp)]
      exact (ih hn).imp_left (List.mem_cons_of_mem _)
  | least hleast _ ih =>
    rw [List.countP_cons_of_pos rfl]
    rcases List.mem_cons.mp hn with rfl | hn
    · have hle := le_length_of_isLeast hleast
      exact .inr (by omega)
    · rcases ih hn with hasked | hlt
      · exact .inl (List.mem_cons_of_mem _ hasked)
      · rw [List.length_cons] at hlt
        exact .inr (by omega)

theorem of_all_none {next : ℕ} (hall : ∀ w ∈ asked, w = none)
    (htaken : ∀ k, k ∈ taken ↔ k < next) :
    NumberedFrom taken asked (List.range' next asked.length) := by
  induction asked generalizing taken next with
  | nil => exact .nil
  | cons w asked ih =>
    obtain rfl : w = none := hall w List.mem_cons_self
    rw [List.length_cons, List.range'_succ]
    have hleast : IsLeast {k | k ∉ taken} next := by
      refine ⟨fun hmem => absurd ((htaken next).mp hmem) (Nat.lt_irrefl _), fun k hk => ?_⟩
      exact Nat.not_lt.mp (fun hlt => hk ((htaken k).mpr hlt))
    refine .least hleast (ih (fun w hw => hall w (List.mem_cons_of_mem _ hw)) (fun k => ?_))
    rw [List.mem_cons, htaken]
    omega

theorem of_all_some (numbers : List ℕ) : NumberedFrom taken (numbers.map some) numbers := by
  induction numbers with
  | nil => exact .nil
  | cons n numbers ih => exact .asked ih

end NumberedFrom

namespace Numbered

variable {asked : List (Option ℕ)} {numbers : List ℕ}

theorem nodup (h : Numbered asked numbers) (hdistinct : (asked.filterMap id).Nodup) :
    numbers.Nodup :=
  NumberedFrom.nodup h (fun n hn => List.mem_filterMap.mpr ⟨some n, hn, rfl⟩) hdistinct

theorem lt_of_not_asked (h : Numbered asked numbers) {n : ℕ} (hn : n ∈ numbers)
    (hnot : some n ∉ asked) : n < asked.length := by
  have hcount := length_filterMap_add asked
  have hlt := (NumberedFrom.asked_or_lt h hn).resolve_left hnot
  omega

theorem distinct_iff (h : Numbered asked numbers) :
    numbers.Nodup ↔ (asked.filterMap id).Nodup :=
  ⟨fun hnodup => hnodup.sublist (NumberedFrom.sublist h), h.nodup⟩

end Numbered
