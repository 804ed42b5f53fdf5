import Mathlib.Data.List.Nodup

/-!
# Shared ownership

Objects are numbered as they are made, and kept by the pointers to them: `points x` is the object
the pointer at `x` is to, if there is one.  `Settled` says that exactly those objects have ended,
each once, that nothing points to.  It is kept by whatever is done with the pointers, as long as
the object that one of them was to is looked at when it goes (`Settled.assign`).
-/

namespace SharedPtr

open Function

universe u

variable {ρ : Type u}

/-- Something points to the object. -/
def Held (points : ρ → Option Nat) (i : Nat) : Prop := ∃ x, points x = some i

/-- Of the objects made, exactly those have ended that nothing points to, each once. -/
structure Settled (points : ρ → Option Nat) (made : Nat) (ended : List Nat) : Prop where
  made_of_points : ∀ x i, points x = some i → i < made
  mem_iff : ∀ i, i ∈ ended ↔ i < made ∧ ¬ Held points i
  nodup : ended.Nodup

/-- The pointer `old` went: its object ends where no other is left. -/
inductive Dropped (points : ρ → Option Nat) : Option Nat → List Nat → List Nat → Prop
  | null (ended : List Nat) : Dropped points none ended ended
  | kept {i : Nat} (ended : List Nat) (h : Held points i) : Dropped points (some i) ended ended
  | last {i : Nat} (ended : List Nat) (h : ¬ Held points i) :
      Dropped points (some i) ended (i :: ended)

variable {points points' : ρ → Option Nat} {made i : Nat} {ended ended' : List Nat} {x : ρ}
  {v : Option Nat}

theorem settled_empty : Settled (fun _ : ρ => none) 0 [] where
  made_of_points _ _ h := nomatch h
  mem_iff i := ⟨fun h => absurd h List.not_mem_nil, fun h => absurd h.1 (Nat.not_lt_zero i)⟩
  nodup := List.nodup_nil

theorem Settled.congr (h : Settled points made ended) (heq : ∀ x, points' x = points x) :
    Settled points' made ended := by
  rwa [funext heq]

theorem Settled.not_mem (h : Settled points made ended) (hx : points x = some i) : i ∉ ended :=
  fun hmem => ((h.mem_iff i).mp hmem).2 ⟨x, hx⟩

variable [DecidableEq ρ]

theorem held_update : Held (Function.update points x v) i ↔
    v = some i ∨ ∃ y, y ≠ x ∧ points y = some i := by
  constructor
  · rintro ⟨y, hy⟩
    by_cases hyx : y = x
    · rw [hyx, update_self] at hy
      exact Or.inl hy
    · rw [update_of_ne hyx] at hy
      exact Or.inr ⟨y, hyx, hy⟩
  · rintro (hv | ⟨y, hyx, hy⟩)
    · exact ⟨x, by rw [update_self, hv]⟩
    · exact ⟨y, by rw [update_of_ne hyx, hy]⟩

theorem held_iff (points : ρ → Option Nat) (x : ρ) :
    Held points i ↔ points x = some i ∨ ∃ y, y ≠ x ∧ points y = some i := by
  rw [← held_update, update_eq_self]

theorem Settled.new (h : Settled points made ended) (hx : points x = none) :
    Settled (Function.update points x (some made)) (made + 1) ended where
  made_of_points y i hy := by
    by_cases hyx : y = x
    · rw [hyx, update_self] at hy
      exact Option.some.inj hy ▸ Nat.lt_succ_self made
    · rw [update_of_ne hyx] at hy
      exact Nat.lt_succ_of_lt (h.made_of_points y i hy)
  mem_iff i := by
    have hheld := held_iff (i := i) points x
    rw [hx, or_iff_right (by nofun : ¬ (none : Option Nat) = some i)] at hheld
    rw [h.mem_iff, held_update, ← hheld]
    constructor
    · rintro ⟨hi, hno⟩
      refine ⟨Nat.lt_succ_of_lt hi, fun hor => ?_⟩
      rcases hor with heq | hyes
      · exact absurd (Option.some.inj heq) (Nat.ne_of_gt hi)
      · exact hno hyes
    · rintro ⟨hi, hno⟩
      obtain ⟨hne, hno⟩ := not_or.mp hno
      exact ⟨Nat.lt_of_le_of_ne (Nat.le_of_lt_succ hi) fun heq => hne (heq ▸ rfl), hno⟩
  nodup := h.nodup

/-- The pointer at `x` is made one to an object that has not ended, or none. -/
theorem Settled.assign (h : Settled points made ended) (hv : ∀ i, v = some i → i < made ∧ i ∉ ended)
    (hdrop : Dropped (Function.update points x v) (points x) ended ended') :
    Settled (Function.update points x v) made ended' := by
  have hmade : ∀ y i, Function.update points x v y = some i → i < made := by
    intro y i hy
    by_cases hyx : y = x
    · rw [hyx, update_self] at hy
      exact (hv i hy).1
    · rw [update_of_ne hyx] at hy
      exact h.made_of_points y i hy
  -- An object but the old one is held as it was, or by the new pointer.
  have hother {i : Nat} (hi : points x ≠ some i) :
      i < made ∧ ¬ Held points i ↔ i < made ∧ ¬ Held (Function.update points x v) i := by
    have hheld := held_iff (i := i) points x
    rw [or_iff_right hi] at hheld
    rw [held_update, hheld]
    refine and_congr_right fun hlt => ⟨fun hno hor => ?_, fun hno hyes => hno (Or.inr hyes)⟩
    rcases hor with hvi | hyes
    · exact (hv i hvi).2 ((h.mem_iff i).mpr ⟨hlt, mt hheld.mp hno⟩)
    · exact hno hyes
  generalize hold : points x = old at hdrop
  cases hdrop with
  | null =>
    exact ⟨hmade, fun i => (h.mem_iff i).trans (hother (by rw [hold]; nofun)), h.nodup⟩
  | @kept j _ hkept =>
    refine ⟨hmade, fun i => ?_, h.nodup⟩
    by_cases hij : i = j
    · subst hij
      exact ⟨fun hmem => absurd hmem (h.not_mem hold), fun hno => absurd hkept hno.2⟩
    · exact (h.mem_iff i).trans (hother (hold ▸ fun heq => hij (Option.some.inj heq).symm))
  | @last j _ hlast =>
    refine ⟨hmade, fun i => ?_, List.nodup_cons.mpr ⟨h.not_mem hold, h.nodup⟩⟩
    rw [List.mem_cons]
    by_cases hij : i = j
    · subst hij
      exact ⟨fun _ => ⟨h.made_of_points x i hold, hlast⟩, fun _ => Or.inl rfl⟩
    · rw [or_iff_right hij]
      exact (h.mem_iff i).trans (hother (hold ▸ fun heq => hij (Option.some.inj heq).symm))

end SharedPtr
