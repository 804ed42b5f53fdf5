import Mathlib.Data.List.Basic

/-!
# Code in scopes

A line of code opens or closes a scope, declares a variable or does something.  The
variables in scope are found from the innermost scope outwards, the last declaration
first.  `Holds P code Γ` says of everything that is done in `code` that it is right where
it stands, `P Γ` saying what is right in the scopes `Γ`.

`Adds p code` says that the code closes what it opens, and that the variables it leaves
in the scope it stands in have names with `p`.  Any other name means the same before and
after it (`Adds.lookup_after`).
-/

namespace Scoped

open List

universe u v w

variable {ι : Type u} {τ : Type v} {ω : Type w}

inductive Line (ι : Type u) (τ : Type v) (ω : Type w) where
  | enter
  | leave
  | declare (x : ι) (t : τ)
  | act (a : ω)

/-- The variables of each scope, the innermost first. -/
abbrev Scopes (ι : Type u) (τ : Type v) := List (List (ι × τ))

def lookup [DecidableEq ι] (Γ : Scopes ι τ) (x : ι) : Option τ := Γ.flatten.lookup x

def Line.after : Line ι τ ω → Scopes ι τ → Scopes ι τ
  | enter, Γ => [] :: Γ
  | leave, Γ => Γ.tail
  | declare x t, [] => [[(x, t)]]
  | declare x t, frame :: Γ => ((x, t) :: frame) :: Γ
  | act _, Γ => Γ

/-- `code` in braces. -/
def block (code : List (Line ι τ ω)) : List (Line ι τ ω) := .enter :: (code ++ [.leave])

def after (code : List (Line ι τ ω)) (Γ : Scopes ι τ) : Scopes ι τ :=
  code.foldl (fun Γ line => line.after Γ) Γ

def Holds (P : Scopes ι τ → ω → Prop) : List (Line ι τ ω) → Scopes ι τ → Prop
  | [], _ => True
  | .act a :: code, Γ => P Γ a ∧ Holds P code Γ
  | line :: code, Γ => Holds P code (line.after Γ)

section

variable {P : Scopes ι τ → ω → Prop} {p q : ι → Prop} {code code' : List (Line ι τ ω)}
variable {Γ : Scopes ι τ} {x : ι} {t : τ} {a : ω}

@[simp] theorem after_nil : after ([] : List (Line ι τ ω)) Γ = Γ := rfl

@[simp] theorem after_cons {line : Line ι τ ω} : after (line :: code) Γ = after code (line.after Γ) :=
  rfl

theorem after_append : after (code ++ code') Γ = after code' (after code Γ) := foldl_append

@[simp] theorem holds_nil : Holds P [] Γ ↔ True := Iff.rfl

@[simp] theorem holds_enter : Holds P (.enter :: code) Γ ↔ Holds P code ([] :: Γ) := Iff.rfl

@[simp] theorem holds_leave : Holds P (.leave :: code) Γ ↔ Holds P code Γ.tail := Iff.rfl

@[simp] theorem holds_declare :
    Holds P (.declare x t :: code) Γ ↔ Holds P code ((Line.declare x t : Line ι τ ω).after Γ) :=
  Iff.rfl

@[simp] theorem holds_act : Holds P (.act a :: code) Γ ↔ P Γ a ∧ Holds P code Γ := Iff.rfl

theorem holds_append : Holds P (code ++ code') Γ ↔ Holds P code Γ ∧ Holds P code' (after code Γ) := by
  induction code generalizing Γ with
  | nil => exact (Iff.of_eq (true_and _)).symm
  | cons line code ih =>
    cases line with
    | act a => exact (and_congr_right' ih).trans and_assoc.symm
    | enter => exact ih
    | leave => exact ih
    | declare x t => exact ih

theorem holds_block : Holds P (block code) Γ ↔ Holds P code ([] :: Γ) := by
  rw [block, holds_enter, holds_append, holds_leave]
  exact and_iff_left trivial

/-! ### Declarations in front -/

@[simp] theorem lookup_cons_nil [DecidableEq ι] : lookup ([] :: Γ) x = lookup Γ x := rfl

theorem lookup_declare [DecidableEq ι] :
    lookup ((Line.declare x t : Line ι τ ω).after Γ) x = some t := by
  cases Γ with
  | nil => exact lookup_cons_self
  | cons frame Γ => exact lookup_cons_self

theorem after_declare_ne_nil : (Line.declare x t : Line ι τ ω).after Γ ≠ [] := by
  cases Γ with
  | nil => exact cons_ne_nil _ _
  | cons frame Γ => exact cons_ne_nil _ _

theorem lookup_append_of_forall_ne [DecidableEq ι] {new : List (ι × τ)} {frame : List (ι × τ)}
    (h : ∀ b ∈ new, b.1 ≠ x) : lookup ((new ++ frame) :: Γ) x = lookup (frame :: Γ) x := by
  induction new with
  | nil => rfl
  | cons b new ih =>
    have hne : (x == b.1) = false := by
      rw [beq_eq_false_iff_ne]
      exact fun he => h b mem_cons_self he.symm
    have hcons : lookup ((b :: new ++ frame) :: Γ) x = lookup ((new ++ frame) :: Γ) x := by
      obtain ⟨y, t⟩ := b
      unfold lookup
      rw [flatten_cons, flatten_cons, cons_append, cons_append, List.lookup_cons,
        hne]
    rw [hcons, ih (fun c hc => h c (mem_cons_of_mem _ hc))]

theorem lookup_declare_of_ne [DecidableEq ι] {y : ι} (h : y ≠ x) :
    lookup ((Line.declare x t : Line ι τ ω).after Γ) y = lookup Γ y := by
  have hnew : ∀ b ∈ [(x, t)], b.1 ≠ y := by
    intro b hb
    rw [mem_singleton.mp hb]
    exact h.symm
  cases Γ with
  | nil => exact @lookup_append_of_forall_ne _ _ [] y _ [(x, t)] [] hnew
  | cons frame Γ => exact lookup_append_of_forall_ne hnew

/-! ### What code leaves in scope -/

def Adds (p : ι → Prop) (code : List (Line ι τ ω)) : Prop :=
  ∀ frame Γ, ∃ new, after code (frame :: Γ) = (new ++ frame) :: Γ ∧ ∀ b ∈ new, p b.1

namespace Adds

theorem nil : Adds p ([] : List (Line ι τ ω)) := by
  intro frame Γ
  exact ⟨[], rfl, fun b hb => absurd hb not_mem_nil⟩

theorem act (h : Adds p code) : Adds p (.act a :: code) := h

theorem declare (hx : p x) (h : Adds p code) : Adds p (.declare x t :: code) := by
  intro frame Γ
  obtain ⟨new, hnew, hp⟩ := h ((x, t) :: frame) Γ
  refine ⟨new ++ [(x, t)], ?_, fun b hb => ?_⟩
  · rw [List.append_assoc]
    exact hnew
  · rcases mem_append.mp hb with hb | hb
    · exact hp b hb
    · rw [mem_singleton.mp hb]
      exact hx

theorem append (h : Adds p code) (h' : Adds p code') : Adds p (code ++ code') := by
  intro frame Γ
  obtain ⟨new, hnew, hp⟩ := h frame Γ
  obtain ⟨new', hnew', hp'⟩ := h' (new ++ frame) Γ
  refine ⟨new' ++ new, ?_, fun b hb => ?_⟩
  · rw [after_append, hnew, hnew', List.append_assoc]
  · rcases mem_append.mp hb with hb | hb
    · exact hp' b hb
    · exact hp b hb

theorem mono (h : Adds p code) (hpq : ∀ x, p x → q x) : Adds q code := by
  intro frame Γ
  obtain ⟨new, hnew, hp⟩ := h frame Γ
  exact ⟨new, hnew, fun b hb => hpq b.1 (hp b hb)⟩

theorem after_block (h : Adds p code) : after (Scoped.block code) Γ = Γ := by
  obtain ⟨new, hnew, -⟩ := h [] Γ
  have hbody : after code ((Line.enter : Line ι τ ω).after Γ) = (new ++ []) :: Γ := hnew
  rw [Scoped.block, after_cons, after_append, hbody]
  rfl

theorem block (h : Adds q code) : Adds p (Scoped.block code) := by
  intro frame Γ
  exact ⟨[], h.after_block, fun b hb => absurd hb not_mem_nil⟩

theorem lookup_after [DecidableEq ι] (h : Adds p code) (hΓ : Γ ≠ []) (hx : ¬p x) :
    lookup (after code Γ) x = lookup Γ x := by
  obtain ⟨frame, Γ, rfl⟩ := exists_cons_of_ne_nil hΓ
  obtain ⟨new, hnew, hp⟩ := h frame Γ
  rw [hnew]
  exact lookup_append_of_forall_ne (fun b hb he => hx (he ▸ hp b hb))

theorem after_ne_nil (h : Adds p code) (hΓ : Γ ≠ []) : after code Γ ≠ [] := by
  obtain ⟨frame, Γ, rfl⟩ := exists_cons_of_ne_nil hΓ
  obtain ⟨new, hnew, -⟩ := h frame Γ
  rw [hnew]
  exact cons_ne_nil _ _

end Adds

end

end Scoped
