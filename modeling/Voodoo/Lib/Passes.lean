import Mathlib.Data.List.Perm.Basic

/-!
# Passes until nothing changes

A pass goes over the items in order and puts the key of an item into the set where the keys that
are there already derive it.  Passes are repeated until one of them changes nothing.

Each pass with a change puts the key of one more item in, so that the passes end; and where more
keys derive more, what they end with is the least set that is closed under the items
(`mem_run_iff`), whatever their order (`mem_run_of_perm`).
-/

namespace Passes

open List

variable {κ α : Type} [DecidableEq κ] (key : α → κ) (derives : List κ → α → Bool)

/-- An item in turn: the set, and whether this pass has changed it. -/
def visit (s : List κ × Bool) (x : α) : List κ × Bool :=
  if key x ∈ s.1 then s else if derives s.1 x then (key x :: s.1, true) else s

def pass (items : List α) (s : List κ × Bool) : List κ × Bool := items.foldl (visit key derives) s

variable {key derives} {items : List α} {s : List κ × Bool} {ctx : List κ} {x : α} {k : κ}

theorem pass_cons : pass key derives (x :: items) s = pass key derives items (visit key derives s x) :=
  rfl

theorem mem_visit (h : k ∈ s.1) : k ∈ (visit key derives s x).1 := by
  unfold visit
  split
  · exact h
  · split
    · exact mem_cons_of_mem _ h
    · exact h

theorem mem_pass (h : k ∈ s.1) : k ∈ (pass key derives items s).1 := by
  induction items generalizing s with
  | nil => exact h
  | cons x items ih => exact ih (mem_visit h)

theorem changed_visit (h : (visit key derives s x).2 = true) :
    s.2 = true ∨ key x ∉ s.1 ∧ key x ∈ (visit key derives s x).1 := by
  unfold visit at h ⊢
  split at h
  · exact .inl h
  · rename_i hnew
    rw [if_neg hnew]
    split at h
    · exact .inr ⟨hnew, by rw [if_pos ‹_›]; exact mem_cons_self⟩
    · exact .inl h

theorem changed_pass (h : (pass key derives items s).2 = true) :
    s.2 = true ∨ ∃ x ∈ items, key x ∉ s.1 ∧ key x ∈ (pass key derives items s).1 := by
  induction items generalizing s with
  | nil => exact .inl h
  | cons x items ih =>
    rw [pass_cons] at h ⊢
    rcases ih h with hs | ⟨y, hy, hnew, hin⟩
    · rcases changed_visit hs with hs | ⟨hnew, hin⟩
      · exact .inl hs
      · exact .inr ⟨x, mem_cons_self, hnew, mem_pass hin⟩
    · exact .inr ⟨y, mem_cons_of_mem _ hy, fun hmem => hnew (mem_visit hmem), hin⟩

/-- The items whose key is not in the set. -/
def missing (key : α → κ) (items : List α) (ctx : List κ) : List α :=
  items.filter fun x => key x ∉ ctx

theorem missing_lt (h : (pass key derives items (ctx, false)).2 = true) :
    (missing key items (pass key derives items (ctx, false)).1).length <
      (missing key items ctx).length := by
  obtain hfalse | ⟨x, hx, hnew, hin⟩ := changed_pass h
  · cases hfalse
  have hsub : missing key items (pass key derives items (ctx, false)).1 =
      (missing key items ctx).filter
        fun x => key x ∉ (pass key derives items (ctx, false)).1 := by
    unfold missing
    rw [List.filter_filter]
    refine filter_congr fun y _ => ?_
    by_cases hy : key y ∈ ctx
    · have hafter : key y ∈ (pass key derives items (ctx, false)).1 := mem_pass hy
      simp [hy, hafter]
    · simp [hy]
  rw [hsub]
  refine length_filter_lt_length_iff_exists.mpr ⟨x, ?_, ?_⟩
  · exact mem_filter.mpr ⟨hx, decide_eq_true hnew⟩
  · simpa using hin

def run (key : α → κ) (derives : List κ → α → Bool) (items : List α) (ctx : List κ) : List κ :=
  if (pass key derives items (ctx, false)).2 then
    run key derives items (pass key derives items (ctx, false)).1
  else (pass key derives items (ctx, false)).1
termination_by (missing key items ctx).length
decreasing_by exact missing_lt ‹_›

/-! ### The least closed set -/

/-- What is in every set that has the key of each item that it derives. -/
def Least (key : α → κ) (Derives : (κ → Prop) → α → Prop) (items : List α) (k : κ) : Prop :=
  ∀ S : κ → Prop, (∀ x ∈ items, Derives S x → S (key x)) → S k

/-- `derives` decides `Derives`, and more keys derive more. -/
structure Rule (derives : List κ → α → Bool) (Derives : (κ → Prop) → α → Prop) : Prop where
  derives_iff : ∀ {ctx x}, derives ctx x = true ↔ Derives (· ∈ ctx) x
  mono : ∀ {S T : κ → Prop} {x}, (∀ k, S k → T k) → Derives S x → Derives T x

variable {Derives : (κ → Prop) → α → Prop}

theorem forall_visit {S : κ → Prop} (hr : Rule derives Derives) (hx : Derives S x → S (key x))
    (hs : ∀ k ∈ s.1, S k) : ∀ k ∈ (visit key derives s x).1, S k := by
  unfold visit
  split
  · exact hs
  · split
    · rename_i hder
      exact forall_mem_cons.mpr ⟨hx (hr.mono hs (hr.derives_iff.mp hder)), hs⟩
    · exact hs

theorem forall_pass {S : κ → Prop} (hr : Rule derives Derives)
    (hS : ∀ x ∈ items, Derives S x → S (key x)) (hs : ∀ k ∈ s.1, S k) :
    ∀ k ∈ (pass key derives items s).1, S k := by
  induction items generalizing s with
  | nil => exact hs
  | cons x items ih =>
    obtain ⟨hx, hS⟩ := forall_mem_cons.mp hS
    exact ih hS (forall_visit hr hx hs)

theorem visit_of_unchanged (h : (visit key derives s x).2 = false) :
    visit key derives s x = s ∧ (derives s.1 x = true → key x ∈ s.1) := by
  unfold visit at h ⊢
  split at h
  · rename_i hin
    exact ⟨if_pos hin, fun _ => hin⟩
  · rename_i hnew
    rw [if_neg hnew]
    split at h
    · cases h
    · rename_i hno
      exact ⟨if_neg hno, fun hder => absurd hder hno⟩

theorem unchanged_of_pass (h : (pass key derives items s).2 = false) : s.2 = false := by
  induction items generalizing s with
  | nil => exact h
  | cons x items ih =>
    have hx := ih h
    rwa [(visit_of_unchanged hx).1] at hx

theorem pass_of_unchanged (h : (pass key derives items s).2 = false) :
    (pass key derives items s).1 = s.1 ∧ ∀ x ∈ items, derives s.1 x = true → key x ∈ s.1 := by
  induction items generalizing s with
  | nil => exact ⟨rfl, fun _ hx => absurd hx not_mem_nil⟩
  | cons x items ih =>
    rw [pass_cons] at h ⊢
    obtain ⟨heq, hx⟩ := visit_of_unchanged (unchanged_of_pass h)
    rw [heq] at h ⊢
    exact ⟨(ih h).1, forall_mem_cons.mpr ⟨hx, (ih h).2⟩⟩

theorem forall_run {S : κ → Prop} (hr : Rule derives Derives)
    (hS : ∀ x ∈ items, Derives S x → S (key x)) (hctx : ∀ k ∈ ctx, S k) :
    ∀ k ∈ run key derives items ctx, S k := by
  induction ctx using run.induct key derives items with
  | case1 ctx h ih =>
    rw [run, if_pos h]
    exact ih (forall_pass hr hS hctx)
  | case2 ctx h =>
    rw [run, if_neg h]
    exact forall_pass hr hS hctx

theorem run_closed (hr : Rule derives Derives) :
    ∀ x ∈ items, Derives (· ∈ run key derives items ctx) x → key x ∈ run key derives items ctx := by
  induction ctx using run.induct key derives items with
  | case1 ctx h ih =>
    rw [run, if_pos h]
    exact ih
  | case2 ctx h =>
    obtain ⟨heq, hclosed⟩ := pass_of_unchanged (Bool.eq_false_iff.mpr h)
    rw [run, if_neg h, heq]
    exact fun x hx hder => hclosed x hx (hr.derives_iff.mpr hder)

/-- **The passes end with the least closed set.** -/
theorem mem_run_iff (hr : Rule derives Derives) :
    k ∈ run key derives items [] ↔ Least key Derives items k :=
  ⟨fun h _ hS => forall_run hr hS (fun _ hk => absurd hk not_mem_nil) k h,
    fun h => h (· ∈ run key derives items []) (run_closed hr)⟩

/-- **The order of the items does not matter.** -/
theorem mem_run_of_perm (hr : Rule derives Derives) {items' : List α} (h : items.Perm items') :
    k ∈ run key derives items' [] ↔ k ∈ run key derives items [] := by
  rw [mem_run_iff hr, mem_run_iff hr]
  refine forall_congr' fun S => imp_congr_left (forall_congr' fun x => ?_)
  rw [h.mem_iff]

end Passes
