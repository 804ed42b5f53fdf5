import Mathlib.Logic.Relation

/-!
# Loops that may not end

A run has a value, stops with an exception, or does not end, and is then `none`.  A loop takes
turns until one of them has its result.

* `Halts E P x`: the run has a value with `P` or stops with an exception in `E`; there is one rule for
  each way to build a run;
* `Halts.loop`: a loop ends when its turns keep an invariant and lower a measure;
* `loop_eq_never`: a loop whose turns keep an invariant and never have a result does not end.
-/

namespace PartialLoop

variable {ε σ ρ α β : Type}

abbrev Run (ε α : Type) := ExceptT ε Option α

/-- From a state to the next one or to the result. -/
abbrev Turn (ε σ ρ : Type) := σ → Option (Except ε (σ ⊕ ρ))

/-- Turns from a state on. -/
def Turn.turns (turn : Turn ε σ ρ) (s : σ) : Option (Except ε ρ) := do
  match ← turn s with
  | .ok (.inl next) => turn |>.turns next
  | .ok (.inr result) => some (.ok result)
  | .error e => some (.error e)
partial_fixpoint

def loop (turn : σ → Run ε (σ ⊕ ρ)) (s : σ) : Run ε ρ := Turn.turns turn s

/-- A run that does not end. -/
def never : Run ε α := (none : Option (Except ε α))

/-! ### Runs that halt -/

inductive Halts (E : ε → Prop) (P : α → Prop) : Run ε α → Prop
  | value {a : α} (h : P a) : Halts E P (pure a)
  | stop {e : ε} (h : E e) : Halts E P (throw e)

/-- A run with a value. -/
abbrev Returns (P : α → Prop) (x : Run ε α) : Prop := Halts (fun _ => False) P x

variable {E : ε → Prop} {P : α → Prop} {Q : β → Prop} {x : Run ε α} {f : α → Run ε β}

theorem not_halts_never : ¬Halts E P (never : Run ε α) := nofun

theorem halts_throw {e : ε} : Halts E P (throw e : Run ε α) ↔ E e := by
  refine ⟨fun h => ?_, .stop⟩
  generalize hx : (throw e : Run ε α) = y at h
  cases h with
  | value h => cases hx
  | stop h =>
    cases hx
    exact h

namespace Halts

theorem imp {E' : ε → Prop} {P' : α → Prop} (h : Halts E P x) (hE : ∀ e, E e → E' e)
    (hP : ∀ a, P a → P' a) : Halts E' P' x := by
  cases h with
  | value h => exact .value (hP _ h)
  | stop h => exact .stop (hE _ h)

theorem mono {P' : α → Prop} (h : Halts E P x) (hP : ∀ a, P a → P' a) : Halts E P' x :=
  h.imp (fun _ he => he) hP

theorem bind (h : Halts E P x) (hf : ∀ a, P a → Halts E Q (f a)) : Halts E Q (x >>= f) := by
  cases h with
  | value h =>
    rw [pure_bind]
    exact hf _ h
  | stop h => exact .stop h

end Halts

theorem exists_of_returns (h : Returns P x) : ∃ a, x = pure a ∧ P a := by
  cases h with
  | value h => exact ⟨_, rfl, h⟩
  | stop h => exact h.elim

/-! ### Loops -/

variable {turn : σ → Run ε (σ ⊕ ρ)} {R : ρ → Prop}

theorem loop_eq (s : σ) : loop turn s = turn s >>= Sum.elim (loop turn) pure := by
  rw [loop, Turn.turns]
  refine congrArg (Option.bind (turn s)) (funext fun r => ?_)
  cases r with
  | error e => rfl
  | ok r =>
    cases r with
    | _ => rfl

theorem Halts.loop {I : σ → Prop} (measure : σ → Nat)
    (hturn : ∀ s, I s →
      Halts E (Sum.elim (fun next => I next ∧ measure next < measure s) R) (turn s)) {s : σ}
    (hs : I s) : Halts E R (loop turn s) := by
  induction hm : measure s using Nat.strongRecOn generalizing s with
  | ind m ih =>
    rw [loop_eq]
    refine (hturn s hs).bind fun r hr => ?_
    cases r with
    | inl next => exact ih (measure next) (hm ▸ hr.2) hr.1 rfl
    | inr result => exact .value hr

/-- The states that a loop comes to. -/
abbrev Reaches (turn : σ → Run ε (σ ⊕ ρ)) : σ → σ → Prop :=
  Relation.ReflTransGen fun s next => turn s = pure (.inl next)

theorem loop_eq_never {I : σ → Prop} (hturn : ∀ s, I s → ∃ next, turn s = pure (.inl next) ∧ I next)
    {s : σ} (hs : I s) : loop turn s = never := by
  refine Option.eq_none_iff_forall_ne_some.mpr fun r hr => ?_
  refine Turn.turns.partial_correctness turn (fun s _ => ¬I s) (fun next ih s r hr hs => ?_) s r hr hs
  obtain ⟨t, ht, hI⟩ := hturn s hs
  rw [ht] at hr
  exact ih t r hr hI

end PartialLoop
