import Voodoo.Lib.LittleEndian

/-!
# Computations that read memory

An `Access α` is a computation over a memory together with the spans it reads
while it runs.  `Stays lo hi` says that all of them lie between two addresses,
and the lemmas take that statement apart along the program: a sequence stays
when its parts do (`stays_bind`), a load when its span does (`stays_load`).
-/

namespace Memory

/-- The `len` bytes from `addr` on. -/
structure Span where
  addr : Nat
  len : Nat

/-- A result and the spans read to get it, in order. -/
structure Access (α : Type) where
  value : α
  reads : List Span := []

namespace Access

variable {α β : Type}

instance : Monad Access where
  pure a := { value := a }
  bind x f := { value := (f x.value).value, reads := x.reads ++ (f x.value).reads }

@[simp] theorem value_pure (a : α) : (pure a : Access α).value = a := rfl

@[simp] theorem value_bind (x : Access α) (f : α → Access β) :
    (x >>= f).value = (f x.value).value := rfl

@[simp] theorem value_ite (p : Prop) [Decidable p] (x y : Access α) :
    (if p then x else y).value = if p then x.value else y.value := by
  split <;> rfl

/-- Every span read lies between `lo` and `hi`. -/
def Stays (lo hi : Nat) (x : Access α) : Prop := ∀ s ∈ x.reads, lo ≤ s.addr ∧ s.addr + s.len ≤ hi

variable {lo hi : Nat}

@[simp] theorem stays_pure (a : α) : Stays lo hi (pure a : Access α) :=
  fun _ hs => absurd hs List.not_mem_nil

@[simp] theorem stays_bind (x : Access α) (f : α → Access β) :
    Stays lo hi (x >>= f) ↔ Stays lo hi x ∧ Stays lo hi (f x.value) := by
  constructor
  · intro h
    exact ⟨fun s hs => h s (List.mem_append_left _ hs),
      fun s hs => h s (List.mem_append_right _ hs)⟩
  · rintro ⟨hx, hf⟩ s hs
    rcases List.mem_append.mp hs with hs | hs
    · exact hx s hs
    · exact hf s hs

theorem stays_ite (p : Prop) [Decidable p] (x y : Access α) :
    Stays lo hi (if p then x else y) ↔ if p then Stays lo hi x else Stays lo hi y := by
  split <;> rfl

end Access

/-- The little-endian word of `len` bytes at `addr`. -/
def word (mem : Nat → UInt8) (addr len : Nat) : Nat :=
  LittleEndian.load ((List.range len).map fun i => mem (addr + i))

/-- A load of that word. -/
def load (mem : Nat → UInt8) (addr len : Nat) : Access Nat where
  value := word mem addr len
  reads := [⟨addr, len⟩]

@[simp] theorem value_load (mem : Nat → UInt8) (addr len : Nat) :
    (load mem addr len).value = word mem addr len := rfl

@[simp] theorem stays_load {lo hi : Nat} (mem : Nat → UInt8) (addr len : Nat) :
    (load mem addr len).Stays lo hi ↔ lo ≤ addr ∧ addr + len ≤ hi := by
  constructor
  · intro h
    exact h _ List.mem_cons_self
  · intro h s hs
    rw [List.mem_singleton.mp hs]
    exact h

end Memory
