import Mathlib.Data.List.Infix

/-!
# Channels that can be spliced

What a set of two-way channels is for, told from outside: which end is connected
to which, what every end is to receive, and what it has received.  `fuse` gives up
an end of each of two channels and connects the others; what the ends given up had
still to receive goes to them first.

Nothing here says how messages are kept.  An implementation is right when each of
its ends has received a prefix of what it is to receive and can receive the rest
next (`undelivered`).
-/

/-- The ends of channels of `μ`, named by `η`. -/
structure Wiring (η μ : Type) where
  peer : η → Option η := fun _ => none
  /-- All that an end is to receive, in order. -/
  expected : η → List μ := fun _ => []
  /-- What it has received. -/
  delivered : η → List μ := fun _ => []

namespace Wiring

open Function

variable {η μ : Type} {w : Wiring η μ} {a b p q x y : η} {m : μ} {l : List μ}

/-- What an end has still to receive. -/
def undelivered (w : Wiring η μ) (x : η) : List μ := (w.expected x).drop (w.delivered x).length

theorem undelivered_eq (h : w.expected x = w.delivered x ++ l) : w.undelivered x = l := by
  rw [undelivered, h, List.drop_left]

variable [DecidableEq η]

/-- A new channel between two ends that are not in use. -/
def connect (w : Wiring η μ) (a b : η) : Wiring η μ where
  peer := Function.update (Function.update w.peer a (some b)) b (some a)
  expected := Function.update (Function.update w.expected a []) b []
  delivered := Function.update (Function.update w.delivered a []) b []

/-- A message written at `x` is for its peer. -/
def send (w : Wiring η μ) (x : η) (m : μ) : Wiring η μ :=
  match w.peer x with
  | some y => { w with expected := Function.update w.expected y (w.expected y ++ [m]) }
  | none => w

def receive (w : Wiring η μ) (x : η) (m : μ) : Wiring η μ :=
  { w with delivered := Function.update w.delivered x (w.delivered x ++ [m]) }

/-- `x` is given up. -/
def disconnect (w : Wiring η μ) (x : η) : Wiring η μ :=
  { w with peer := fun y => if y = x ∨ w.peer y = some x then none else w.peer y }

/-- `a` and `b` are given up and their peers connected. -/
def fuse (w : Wiring η μ) (a b : η) : Wiring η μ :=
  match w.peer a, w.peer b with
  | some p, some q =>
    { w with
      peer := fun x =>
        if x = a ∨ x = b then none
        else if x = p then some q else if x = q then some p else w.peer x
      expected := Function.update (Function.update w.expected p (w.expected p ++ w.undelivered b))
        q (w.expected q ++ w.undelivered a) }
  | _, _ => w

/-! ### What an end receives is never taken back -/

theorem prefix_update (f : η → List μ) (y : η) (l : List μ) (x : η) :
    f x <+: Function.update f y (f y ++ l) x := by
  by_cases h : x = y
  · rw [h, update_self]
    exact List.prefix_append _ _
  · rw [update_of_ne h]

theorem expected_connect (hxa : x ≠ a) (hxb : x ≠ b) :
    (w.connect a b).expected x = w.expected x := by
  unfold connect
  dsimp only
  rw [update_of_ne hxb, update_of_ne hxa]

theorem delivered_connect (hxa : x ≠ a) (hxb : x ≠ b) :
    (w.connect a b).delivered x = w.delivered x := by
  unfold connect
  dsimp only
  rw [update_of_ne hxb, update_of_ne hxa]

theorem expected_send (w : Wiring η μ) (p : η) (m : μ) (x : η) :
    w.expected x <+: (w.send p m).expected x := by
  unfold send
  split
  · exact prefix_update _ _ _ _
  · exact List.prefix_refl _

theorem delivered_send (w : Wiring η μ) (p : η) (m : μ) : (w.send p m).delivered = w.delivered := by
  unfold send
  split <;> rfl

theorem expected_fuse (w : Wiring η μ) (hpq : ∀ p q, w.peer a = some p → w.peer b = some q → p ≠ q)
    (x : η) : w.expected x <+: (w.fuse a b).expected x := by
  unfold fuse
  split
  · rename_i p q hp hq
    have hne := hpq p q hp hq
    dsimp only
    by_cases hxq : x = q
    · rw [hxq, update_self]
      exact List.prefix_append _ _
    · rw [update_of_ne hxq]
      exact prefix_update _ _ _ _
  · exact List.prefix_refl _

theorem delivered_fuse (w : Wiring η μ) (a b : η) : (w.fuse a b).delivered = w.delivered := by
  unfold fuse
  split <;> rfl

end Wiring
