import Mathlib.Data.List.Nodup

/-!
# Things in boxes

Boxes hold lists of things, and some of the things have a name.  `Apart`: a name is that of one
thing at most, in all boxes together.  It stays so where things go or lose their names
(`Apart.sub`), where new things come (`Apart.put`), and where the first things of a box go behind
those of another one (`Apart.shift`).
-/

namespace Boxes

open Function

variable {ι α ν : Type} [DecidableEq ι] {name : α → Option ν} {box box' : ι → List α} {g h : ι}
  {l l₁ l₂ : List α} {n : ν}

structure Apart (name : α → Option ν) (box : ι → List α) : Prop where
  nodup : ∀ h, ((box h).filterMap name).Nodup
  unique : ∀ g h n, n ∈ (box g).filterMap name → n ∈ (box h).filterMap name → g = h

namespace Apart

omit [DecidableEq ι] in
theorem sub (hb : Apart name box)
    (hsub : ∀ h, List.Sublist ((box' h).filterMap name) ((box h).filterMap name)) :
    Apart name box' where
  nodup h := (hsub h).nodup (hb.nodup h)
  unique g h n hg hh := hb.unique g h n ((hsub g).subset hg) ((hsub h).subset hh)

theorem update (hb : Apart name box)
    (hsub : List.Sublist (l.filterMap name) ((box h).filterMap name)) :
    Apart name (Function.update box h l) := by
  refine hb.sub fun g => ?_
  by_cases hg : g = h
  · rw [hg, update_self]
    exact hsub
  · rw [update_of_ne hg]

theorem put (hb : Apart name box) (hl : (l.filterMap name).Nodup)
    (hnew : ∀ n ∈ l.filterMap name, ∀ g, n ∉ (box g).filterMap name) :
    Apart name (Function.update box h (box h ++ l)) := by
  have hmem {g : ι} {n : ν} (hn : n ∈ (Function.update box h (box h ++ l) g).filterMap name) :
      n ∈ (box g).filterMap name ∨ g = h ∧ n ∈ l.filterMap name := by
    by_cases hg : g = h
    · rw [hg, update_self, List.filterMap_append] at hn
      rcases List.mem_append.mp hn with hn | hn
      · exact .inl (hg ▸ hn)
      · exact .inr ⟨hg, hn⟩
    · rw [update_of_ne hg] at hn
      exact .inl hn
  refine ⟨fun g => ?_, fun g g' n hg hg' => ?_⟩
  · by_cases hg : g = h
    · rw [hg, update_self, List.filterMap_append]
      refine List.nodup_append.mpr ⟨hb.nodup h, hl, fun n hn n' hn' heq => ?_⟩
      exact hnew n' hn' h (heq ▸ hn)
    · rw [update_of_ne hg]
      exact hb.nodup g
  · rcases hmem hg with hold | ⟨hgh, hn⟩
    · rcases hmem hg' with hold' | ⟨-, hn⟩
      · exact hb.unique g g' n hold hold'
      · exact absurd hold (hnew n hn g)
    · rcases hmem hg' with hold' | ⟨hgh', -⟩
      · exact absurd hold' (hnew n hn g')
      · exact hgh.trans hgh'.symm

theorem not_mem_of_taken (hb : Apart name box) (hg : box g = l₁ ++ l₂) (hn : n ∈ l₁.filterMap name)
    (h : ι) : n ∉ (Function.update box g l₂ h).filterMap name := by
  have hnodup := hb.nodup g
  rw [hg, List.filterMap_append] at hnodup
  by_cases hh : h = g
  · rw [hh, update_self]
    exact fun hn' => (List.nodup_append.mp hnodup).2.2 n hn n hn' rfl
  · rw [update_of_ne hh]
    intro hn'
    refine hh (hb.unique h g n hn' ?_)
    rw [hg, List.filterMap_append]
    exact List.mem_append_left _ hn

theorem shift (hb : Apart name box) (hg : box g = l₁ ++ l₂)
    (hl : l.filterMap name = l₁.filterMap name) :
    Apart name
      (Function.update (Function.update box g l₂) h (Function.update box g l₂ h ++ l)) := by
  have hnames : (box g).filterMap name = l₁.filterMap name ++ l₂.filterMap name := by
    rw [hg, List.filterMap_append]
  have htaken : Apart name (Function.update box g l₂) := by
    refine hb.update ?_
    rw [hnames]
    exact List.sublist_append_right ..
  refine htaken.put ?_ fun n hn => hb.not_mem_of_taken hg (hl ▸ hn)
  have hnodup := hb.nodup g
  rw [hnames] at hnodup
  rw [hl]
  exact (List.nodup_append.mp hnodup).1

end Apart

end Boxes
