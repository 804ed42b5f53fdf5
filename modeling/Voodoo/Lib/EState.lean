import Mathlib.Logic.Basic

/-!
# Running a stateful program that may stop

What `EStateM` does on one start state, as rewriting rules: `run_bind` unfolds one step, and
`bind_eq_ok`, `bind_eq_error` invert a sequence into its two parts.  A run is written `x s`.

`Preserves x R` says that every run of `x`, however it ends, leaves a state related by `R` to the one
it started from; for a reflexive and transitive `R` it is checked on the primitive operations only.
`Outcome E Q x s` says that a run ends with a value and a state in `Q`, or an exception in `E`.
`Extends e x y` says that `y` does what `x` does unless `x` stops with `e`, as for want of fuel.
-/

namespace EState

universe u

variable {ε σ α β : Type u}

@[simp] theorem run_pure (a : α) (s : σ) : (pure a : EStateM ε σ α) s = .ok a s := rfl

theorem run_bind (x : EStateM ε σ α) (f : α → EStateM ε σ β) (s : σ) :
    (x >>= f) s = match x s with
      | .ok a s' => f a s'
      | .error e s' => .error e s' := by
  show EStateM.bind x f s = _
  unfold EStateM.bind
  cases x s <;> rfl

theorem run_map (g : α → β) (x : EStateM ε σ α) (s : σ) :
    (g <$> x) s = match x s with
      | .ok a s' => .ok (g a) s'
      | .error e s' => .error e s' := by
  show EStateM.map g x s = _
  unfold EStateM.map
  cases x s <;> rfl

theorem map_eq_bind (g : α → β) (x : EStateM ε σ α) : g <$> x = x >>= fun a => pure (g a) := by
  funext s
  rw [run_map, run_bind]
  cases x s <;> rfl

theorem bind_ok {x : EStateM ε σ α} {f : α → EStateM ε σ β} {s s' : σ} {a : α}
    (h : x s = .ok a s') : (x >>= f) s = f a s' := by
  rw [run_bind, h]

theorem map_ok {x : EStateM ε σ α} {g : α → β} {s s' : σ} {a : α} (h : x s = .ok a s') :
    (g <$> x) s = .ok (g a) s' := by
  rw [run_map, h]

theorem bind_eq_ok {x : EStateM ε σ α} {f : α → EStateM ε σ β} {s s'' : σ} {b : β} :
    (x >>= f) s = .ok b s'' ↔ ∃ a s', x s = .ok a s' ∧ f a s' = .ok b s'' := by
  rw [run_bind]
  cases h : x s with
  | ok a s' =>
    refine ⟨fun hf => ⟨a, s', rfl, hf⟩, ?_⟩
    rintro ⟨a', t, he, hf⟩
    obtain ⟨rfl, rfl⟩ := EStateM.Result.ok.inj he
    exact hf
  | error e s' =>
    constructor
    · intro he; cases he
    · rintro ⟨_, _, he, _⟩; cases he

theorem bind_eq_error {x : EStateM ε σ α} {f : α → EStateM ε σ β} {s s'' : σ} {e : ε} :
    (x >>= f) s = .error e s'' ↔
      x s = .error e s'' ∨ ∃ a s', x s = .ok a s' ∧ f a s' = .error e s'' := by
  rw [run_bind]
  cases h : x s with
  | ok a s' =>
    constructor
    · exact fun hf => Or.inr ⟨a, s', rfl, hf⟩
    · rintro (he | ⟨a', t, he, hf⟩)
      · cases he
      · obtain ⟨rfl, rfl⟩ := EStateM.Result.ok.inj he
        exact hf
  | error e' s' =>
    constructor
    · intro he
      obtain ⟨rfl, rfl⟩ := EStateM.Result.error.inj he
      exact Or.inl rfl
    · rintro (he | ⟨_, _, he, _⟩)
      · obtain ⟨rfl, rfl⟩ := EStateM.Result.error.inj he
        rfl
      · cases he

/-! ### Relations every run keeps -/

/-- The state a run ended in, whether it returned or stopped. -/
def endState : EStateM.Result ε σ α → σ
  | .ok _ s => s
  | .error _ s => s

/-- Every run of `x` ends in a state related by `R` to its start. -/
def Preserves (R : σ → σ → Prop) (x : EStateM ε σ α) : Prop := ∀ s, R s (endState (x s))

namespace Preserves

variable {R : σ → σ → Prop}

protected theorem pure (hrefl : ∀ s, R s s) (a : α) :
    Preserves R (pure a : EStateM ε σ α) := fun s => hrefl s

protected theorem bind (htrans : ∀ s t u, R s t → R t u → R s u) {x : EStateM ε σ α}
    {f : α → EStateM ε σ β} (hx : Preserves R x) (hf : ∀ a, Preserves R (f a)) :
    Preserves R (x >>= f) := by
  intro s
  have hxs := hx s
  rw [run_bind]
  cases h : x s with
  | ok a s' =>
    rw [h] at hxs
    exact htrans _ _ _ hxs (hf a s')
  | error e s' => rw [h] at hxs; exact hxs

protected theorem map {g : α → β} {x : EStateM ε σ α} (hx : Preserves R x) :
    Preserves R (g <$> x) := by
  intro s
  have hxs := hx s
  rw [run_map]
  cases h : x s <;> rw [h] at hxs <;> exact hxs

theorem of_ok {x : EStateM ε σ α} (hx : Preserves R x) {s s' : σ} {a : α} (h : x s = .ok a s') :
    R s s' := by
  have := hx s
  rw [h] at this
  exact this

end Preserves

/-! ### How a run may end -/

/-- The run of `x` from `s` returns in `Q` or stops with an exception in `E`. -/
def Outcome (E : ε → Prop) (Q : α → σ → Prop) (x : EStateM ε σ α) (s : σ) : Prop :=
  match x s with
  | .ok a t => Q a t
  | .error e _ => E e

namespace Outcome

variable {E : ε → Prop} {Q : α → σ → Prop} {R : β → σ → Prop} {x : EStateM ε σ α}
  {f : α → EStateM ε σ β} {s : σ}

theorem of_ok {a : α} {t : σ} (h : x s = .ok a t) (hq : Q a t) : Outcome E Q x s := by
  unfold Outcome
  rw [h]
  exact hq

theorem of_error {e : ε} {t : σ} (h : x s = .error e t) (he : E e) : Outcome E Q x s := by
  unfold Outcome
  rw [h]
  exact he

theorem ok (h : Outcome E Q x s) {a : α} {t : σ} (hx : x s = .ok a t) : Q a t := by
  unfold Outcome at h
  rw [hx] at h
  exact h

theorem error (h : Outcome E Q x s) {e : ε} {t : σ} (hx : x s = .error e t) : E e := by
  unfold Outcome at h
  rw [hx] at h
  exact h

theorem mono {E' : ε → Prop} {Q' : α → σ → Prop} (h : Outcome E Q x s) (he : ∀ e, E e → E' e)
    (hq : ∀ a t, Q a t → Q' a t) : Outcome E' Q' x s := by
  cases hx : x s with
  | ok a t => exact of_ok hx (hq a t (h.ok hx))
  | error e t => exact of_error hx (he e (h.error hx))

theorem bind {E' : ε → Prop} (h : Outcome E' Q x s) (he : ∀ e, E' e → E e)
    (hf : ∀ a t, Q a t → Outcome E R (f a) t) : Outcome E R (x >>= f) s := by
  cases hx : x s with
  | ok a t =>
    have hfa := hf a t (h.ok hx)
    unfold Outcome at hfa ⊢
    rwa [bind_ok hx]
  | error e t => exact of_error (bind_eq_error.mpr (Or.inl hx)) (he e (h.error hx))

theorem bind_iff_of_ok {a : α} {t : σ} (h : x s = .ok a t) :
    Outcome E R (x >>= f) s ↔ Outcome E R (f a) t := by
  unfold Outcome
  rw [bind_ok h]

end Outcome

/-! ### More fuel -/

/-- `y` ends as `x` does from every state where `x` does not stop with `e`. -/
def Extends (e : ε) (x y : EStateM ε σ α) : Prop := ∀ s, (∀ t, x s ≠ .error e t) → y s = x s

namespace Extends

variable {e : ε} {x y z : EStateM ε σ α}

theorem refl (e : ε) (x : EStateM ε σ α) : Extends e x x := fun _ _ => rfl

theorem trans (h : Extends e x y) (h' : Extends e y z) : Extends e x z := by
  intro s hs
  have hy : y s = x s := h s hs
  exact (h' s fun t ht => hs t (hy.symm.trans ht)).trans hy

theorem of_error (h : ∀ s, ∃ t, x s = .error e t) : Extends e x y := by
  intro s hs
  obtain ⟨t, ht⟩ := h s
  exact absurd ht (hs t)

theorem bind {f g : α → EStateM ε σ β} (h : Extends e x y) (hf : ∀ a, Extends e (f a) (g a)) :
    Extends e (x >>= f) (y >>= g) := by
  intro s hs
  have hy : y s = x s := h s fun t ht => hs t (bind_eq_error.mpr (Or.inl ht))
  rw [run_bind, run_bind, hy]
  cases hx : x s with
  | ok a t => exact hf a t fun u hu => hs u (bind_eq_error.mpr (Or.inr ⟨a, t, hx, hu⟩))
  | error e' t => rfl

theorem mapM {f g : α → EStateM ε σ β} (hf : ∀ a, Extends e (f a) (g a)) (as : List α) :
    Extends e (as.mapM f) (as.mapM g) := by
  induction as with
  | nil => exact refl e _
  | cons a as ih =>
    rw [List.mapM_cons, List.mapM_cons]
    exact (hf a).bind fun _ => ih.bind fun _ => refl e _

end Extends

end EState
