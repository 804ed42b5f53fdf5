import Mathlib.Data.List.Pairwise
import Voodoo.Lib.Machine

/-!
# Last uses

Things are used, and some of the uses are the last of their thing: after it the thing is gone.
`Uses … s s' us` says that on the way from `s` to `s'` the uses `us` are made one after another,
none of a thing that is gone, neither before nor since.  Ways are put together (`Uses.trans`), so a
run that logs its uses makes them in this way (`uses_of_reaches`), and in its log nothing is used
after its last use (`Uses.pairwise`).
-/

namespace LastUse

variable {σ α ν υ : Type}

structure Uses (gone : σ → ν → Prop) (of : υ → ν) (last : υ → Prop) (s s' : σ) (us : List υ) :
    Prop where
  /-- What is gone stays so. -/
  stays : ∀ n, gone s n → gone s' n
  fresh : ∀ u ∈ us, ¬ gone s (of u)
  pairwise : us.Pairwise fun u v => last u → of v ≠ of u
  leaves : ∀ u ∈ us, last u → gone s' (of u)

namespace Uses

variable {gone : σ → ν → Prop} {of : υ → ν} {last : υ → Prop} {s s' s'' : σ} {us vs : List υ}

theorem nil (h : ∀ n, gone s n → gone s' n) : Uses gone of last s s' [] where
  stays := h
  fresh := nofun
  pairwise := List.Pairwise.nil
  leaves := nofun

theorem single {u : υ} (h : ∀ n, gone s n → gone s' n) (hfresh : ¬ gone s (of u))
    (hleaves : last u → gone s' (of u)) : Uses gone of last s s' [u] where
  stays := h
  fresh _ hv := List.mem_singleton.mp hv ▸ hfresh
  pairwise := List.pairwise_singleton ..
  leaves _ hv := List.mem_singleton.mp hv ▸ hleaves

theorem trans (h : Uses gone of last s s' us) (h' : Uses gone of last s' s'' vs) :
    Uses gone of last s s'' (us ++ vs) where
  stays n hn := h'.stays n (h.stays n hn)
  fresh u hu := by
    rcases List.mem_append.mp hu with hmem | hmem
    · exact h.fresh u hmem
    · exact fun hgone => h'.fresh u hmem (h.stays _ hgone)
  pairwise := by
    refine List.pairwise_append.mpr ⟨h.pairwise, h'.pairwise, fun u hu v hv hlast heq => ?_⟩
    exact h'.fresh v hv (heq ▸ h.leaves u hu hlast)
  leaves u hu hlast := by
    rcases List.mem_append.mp hu with hmem | hmem
    · exact h'.stays _ (h.leaves u hmem hlast)
    · exact h'.leaves u hmem hlast

theorem congr_left {s₀ : σ} (h : Uses gone of last s s' us) (heq : ∀ n, gone s₀ n ↔ gone s n) :
    Uses gone of last s₀ s' us where
  stays n hn := h.stays n ((heq n).mp hn)
  fresh u hu hgone := h.fresh u hu ((heq _).mp hgone)
  pairwise := h.pairwise
  leaves := h.leaves

end Uses

open Machine

variable {gone : σ → ν → Prop} {of : υ → ν} {last : υ → Prop} {start : σ} {step : σ → α → σ}
  {uses : σ → α → List υ} {allowed : σ → α → Prop}

/-- A machine that logs its uses. -/
def logged (step : σ → α → σ) (uses : σ → α → List υ) (s : σ × List υ) (a : α) : σ × List υ :=
  (step s.1 a, s.2 ++ uses s.1 a)

theorem uses_of_reaches {J : σ → Prop} (hstart : J start)
    (hstep : ∀ s a, J s → allowed s a →
      J (step s a) ∧ Uses gone of last s (step s a) (uses s a)) {s : σ × List υ}
    (h : Reaches (start, []) (logged step uses) (fun s a => allowed s.1 a) s) :
    J s.1 ∧ Uses gone of last start s.1 s.2 := by
  refine h.invariant (I := fun s => J s.1 ∧ Uses gone of last start s.1 s.2)
    ⟨hstart, .nil fun _ => id⟩ fun s a hs ha => ?_
  obtain ⟨hJ, huses⟩ := hstep s.1 a hs.1 ha
  exact ⟨hJ, hs.2.trans huses⟩

end LastUse
