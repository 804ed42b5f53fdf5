import Mathlib.Logic.Function.Basic

/-!
# Memo tables

A table of the results of a function that may fail.  `fetch` looks a result up before it computes
it, and puts what it computes into the table; a failure is not kept.  As long as the table is
`Faithful` to the function, this makes no difference to what is returned.
-/

namespace Memo

variable {κ ε β : Type}

def Faithful (f : κ → Except ε β) (table : κ → Option β) : Prop :=
  ∀ k b, table k = some b → f k = .ok b

variable {f : κ → Except ε β} {table : κ → Option β} {k : κ}

theorem Faithful.empty : Faithful f fun _ => none := nofun

variable [DecidableEq κ]

def fetch (f : κ → Except ε β) (table : κ → Option β) (k : κ) : Except ε β × (κ → Option β) :=
  match table k with
  | some b => (.ok b, table)
  | none =>
    match f k with
    | .ok b => (.ok b, Function.update table k (some b))
    | .error e => (.error e, table)

theorem Faithful.fetch_fst (h : Faithful f table) : (fetch f table k).1 = f k := by
  unfold fetch
  cases htable : table k with
  | some b => exact (h k b htable).symm
  | none => cases f k <;> rfl

theorem Faithful.fetch_snd (h : Faithful f table) : Faithful f (fetch f table k).2 := by
  unfold fetch
  cases htable : table k with
  | some b => exact h
  | none =>
    cases hf : f k with
    | error e => exact h
    | ok b =>
      intro k' b' hk'
      change Function.update table k (some b) k' = some b' at hk'
      by_cases heq : k' = k
      · subst heq
        rw [Function.update_self] at hk'
        rw [hf, Option.some.inj hk']
      · rw [Function.update_of_ne heq] at hk'
        exact h k' b' hk'

end Memo
