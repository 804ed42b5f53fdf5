import Mathlib.Data.List.Basic
import Mathlib.Logic.Relation

/-!
# Marking with a worklist

What is visited is marked and put on the worklist, once.  A turn takes an element off the worklist,
writes what it emits, and visits its successors; the run ends when nothing is left.

`Inv` is what the turns keep.  It says in the end that just what is reached from the roots is marked
and has emitted (`Inv.marked_iff`, `Inv.mem_out_iff`).  The elements that are not marked or on the
worklist become fewer with each turn, so that a run has as many turns as there are elements
(`run_eq`).
-/

namespace Worklist

open List Function

variable {α β : Type}

structure State (α β : Type) where
  marked : α → Bool
  work : List α := []
  out : List β := []

/-- What is reached from the roots. -/
def Reached (roots : α → Prop) (succ : α → List α) (x : α) : Prop :=
  ∃ r, roots r ∧ Relation.ReflTransGen (fun x y => y ∈ succ x) r x

theorem Reached.root {roots : α → Prop} {succ : α → List α} {x : α} (h : roots x) :
    Reached roots succ x := ⟨x, h, .refl⟩

theorem Reached.step {roots : α → Prop} {succ : α → List α} {x y : α} (h : Reached roots succ x)
    (hy : y ∈ succ x) : Reached roots succ y := by
  obtain ⟨r, hr, hpath⟩ := h
  exact ⟨r, hr, hpath.tail hy⟩

section Run

variable [DecidableEq α]

def visit (s : State α β) (x : α) : State α β :=
  if s.marked x then s
  else { s with marked := Function.update s.marked x true, work := x :: s.work }

/-- A turn at `x`, which is off the worklist. -/
def scan (succ : α → List α) (emit : α → List β) (s : State α β) (x : α) : State α β :=
  (succ x).foldl visit { s with out := s.out ++ emit x }

def run (succ : α → List α) (emit : α → List β) : Nat → State α β → Option (State α β)
  | 0, s => if s.work.isEmpty then some s else none
  | fuel + 1, s =>
    match s.work with
    | [] => some s
    | x :: rest => run succ emit fuel (scan succ emit { s with work := rest } x)

variable {succ : α → List α} {emit : α → List β} {roots : α → Prop} {live : List α}
  {current : Option α} {s : State α β} {x y : α} {ys : List α} {e : β}

/-! ### Visits -/

theorem marked_visit : (visit s x).marked y = true ↔ s.marked y = true ∨ y = x := by
  rw [visit]
  split
  · rename_i hx
    refine ⟨.inl, ?_⟩
    rintro (hy | rfl)
    · exact hy
    · exact hx
  · by_cases hyx : y = x
    · subst hyx
      exact iff_of_true (update_self ..) (.inr rfl)
    · rw [or_iff_left hyx]
      exact iff_of_eq (congrArg (· = true) (update_of_ne hyx ..))

theorem out_visit : (visit s x).out = s.out := by
  rw [visit]
  split <;> rfl

theorem visits_out (s : State α β) (ys : List α) (out : List β) :
    ys.foldl visit { s with out := out } = { ys.foldl visit s with out := out } := by
  induction ys generalizing s with
  | nil => rfl
  | cons y ys ih =>
    have hy : visit { s with out := out } y = { visit s y with out := out } := by
      rw [visit, visit]
      show (if s.marked y then _ else _) = _
      split <;> rfl
    rw [foldl_cons, foldl_cons, hy, ih]

theorem mem_work_visit : y ∈ (visit s x).work ↔ y ∈ s.work ∨ y = x ∧ s.marked x = false := by
  rw [visit]
  cases hx : s.marked x with
  | true =>
    rw [if_pos rfl]
    exact (or_iff_left fun hand => by cases hand.2).symm
  | false =>
    rw [if_neg Bool.false_ne_true, and_iff_left rfl, or_comm]
    exact mem_cons

/-- The elements that are still to be taken off the worklist. -/
def weight (live : List α) (s : State α β) : Nat :=
  (live.filter fun x => !s.marked x).length + s.work.length

theorem length_filter_update {marked : α → Bool} (hnodup : live.Nodup) (hx : x ∈ live)
    (hnew : marked x = false) :
    (live.filter fun y => !Function.update marked x true y).length + 1 =
      (live.filter fun y => !marked y).length := by
  induction live with
  | nil => exact (not_mem_nil hx).elim
  | cons y live ih =>
    obtain ⟨hy, hnodup⟩ := nodup_cons.mp hnodup
    by_cases hyx : y = x
    · subst hyx
      have hsame : (live.filter fun z => !Function.update marked y true z) =
          live.filter fun z => !marked z := by
        refine filter_congr fun z hz => ?_
        rw [update_of_ne]
        rintro rfl
        exact hy hz
      rw [filter_cons_of_neg (by rw [update_self]; decide),
        filter_cons_of_pos (by rw [hnew]; rfl), hsame, length_cons]
    · have hrest := ih hnodup ((mem_cons.mp hx).resolve_left fun h => hyx h.symm)
      cases hmarked : marked y with
      | true =>
        rw [filter_cons_of_neg (by rw [update_of_ne hyx, hmarked]; decide),
          filter_cons_of_neg (by rw [hmarked]; decide), hrest]
      | false =>
        rw [filter_cons_of_pos (by rw [update_of_ne hyx, hmarked]; rfl),
          filter_cons_of_pos (by rw [hmarked]; rfl), length_cons, length_cons, hrest]

theorem weight_visit (hnodup : live.Nodup) (hx : x ∈ live) :
    weight live (visit s x) = weight live s := by
  rw [visit]
  cases hmarked : s.marked x with
  | true => rw [if_pos rfl]
  | false =>
    have hlength := length_filter_update hnodup hx hmarked
    rw [if_neg Bool.false_ne_true, weight, weight]
    show (live.filter fun y => !Function.update s.marked x true y).length + (s.work.length + 1) = _
    omega

/-! ### The invariant -/

/-- What the turns keep, in the midst of the turn at `current`. -/
structure Inv (live : List α) (roots : α → Prop) (succ : α → List α) (emit : α → List β)
    (current : Option α) (s : State α β) : Prop where
  sound : ∀ x ∈ live, s.marked x = true → Reached roots succ x
  work : ∀ x ∈ s.work, x ∈ live ∧ s.marked x = true
  closed : ∀ x ∈ live, s.marked x = true → x ∉ s.work → some x ≠ current →
    (∀ y ∈ succ x, s.marked y = true) ∧ ∀ e ∈ emit x, e ∈ s.out
  emitted : ∀ e ∈ s.out, ∃ x ∈ live, s.marked x = true ∧ e ∈ emit x

theorem Inv.visit (h : Inv live roots succ emit current s) (hx : x ∈ live)
    (hreached : Reached roots succ x) : Inv live roots succ emit current (visit s x) where
  sound y hy hmarked := by
    rcases marked_visit.mp hmarked with hmarked | rfl
    · exact h.sound y hy hmarked
    · exact hreached
  work y hy := by
    rcases mem_work_visit.mp hy with hy | ⟨rfl, -⟩
    · exact ⟨(h.work y hy).1, marked_visit.mpr (.inl (h.work y hy).2)⟩
    · exact ⟨hx, marked_visit.mpr (.inr rfl)⟩
  closed y hy hmarked hwork hcurrent := by
    rw [mem_work_visit, not_or] at hwork
    have hold : s.marked y = true := by
      rcases marked_visit.mp hmarked with hmarked | rfl
      · exact hmarked
      · by_contra hnew
        rw [Bool.not_eq_true] at hnew
        exact hwork.2 ⟨rfl, hnew⟩
    obtain ⟨hsucc, hemit⟩ := h.closed y hy hold hwork.1 hcurrent
    rw [out_visit]
    exact ⟨fun z hz => marked_visit.mpr (.inl (hsucc z hz)), hemit⟩
  emitted e he := by
    rw [out_visit] at he
    obtain ⟨y, hy, hmarked, hemit⟩ := h.emitted e he
    exact ⟨y, hy, marked_visit.mpr (.inl hmarked), hemit⟩

/-- All of `ys` are visited. -/
theorem Inv.visits (h : Inv live roots succ emit current s) (ys : List α) (hnodup : live.Nodup)
    (hys : ∀ y ∈ ys, y ∈ live ∧ Reached roots succ y) :
    Inv live roots succ emit current (ys.foldl Worklist.visit s) ∧
      weight live (ys.foldl Worklist.visit s) = weight live s ∧
      (ys.foldl Worklist.visit s).out = s.out ∧
      (∀ x, s.marked x = true → (ys.foldl Worklist.visit s).marked x = true) ∧
      ∀ y ∈ ys, (ys.foldl Worklist.visit s).marked y = true := by
  induction ys generalizing s with
  | nil => exact ⟨h, rfl, rfl, fun _ hx => hx, fun y hy => (not_mem_nil hy).elim⟩
  | cons y ys ih =>
    obtain ⟨hy, hreached⟩ := hys y mem_cons_self
    obtain ⟨hinv, hweight, hout, hmono, hmarked⟩ :=
      ih (h.visit hy hreached) fun z hz => hys z (mem_cons_of_mem _ hz)
    rw [foldl_cons]
    refine ⟨hinv, hweight.trans (weight_visit hnodup hy), hout.trans out_visit,
      fun x hx => hmono x (marked_visit.mpr (.inl hx)), fun z hz => ?_⟩
    rcases mem_cons.mp hz with rfl | hz
    · exact hmono z (marked_visit.mpr (.inr rfl))
    · exact hmarked z hz

/-- **A turn.** -/
theorem Inv.turn {rest : List α} (h : Inv live roots succ emit none s) (hnodup : live.Nodup)
    (hsucc : ∀ x ∈ live, ∀ y ∈ succ x, y ∈ live) (hwork : s.work = x :: rest) :
    Inv live roots succ emit none (scan succ emit { s with work := rest } x) ∧
      weight live (scan succ emit { s with work := rest } x) + 1 = weight live s ∧
      ∀ y, s.marked y = true → (scan succ emit { s with work := rest } x).marked y = true := by
  obtain ⟨hx, hmarked⟩ := h.work x (hwork ▸ mem_cons_self)
  have hpopped : Inv live roots succ emit (some x)
      { s with work := rest, out := s.out ++ emit x } := by
    refine ⟨h.sound, fun y hy => h.work y (hwork ▸ mem_cons_of_mem _ hy),
      fun y hy hymarked hyrest hne => ?_, fun e he => ?_⟩
    · obtain ⟨hsucc, hemit⟩ := h.closed y hy hymarked (by
        rw [hwork, mem_cons, not_or]
        exact ⟨fun heq => hne (congrArg some heq), hyrest⟩) (Option.some_ne_none y)
      exact ⟨hsucc, fun e he => mem_append_left _ (hemit e he)⟩
    · rcases mem_append.mp he with he | he
      · exact h.emitted e he
      · exact ⟨x, hx, hmarked, he⟩
  obtain ⟨hinv, hweight, hout, hmono, hall⟩ := hpopped.visits (succ x) hnodup
    fun y hy => ⟨hsucc x hx y hy, (h.sound x hx hmarked).step hy⟩
  refine ⟨⟨hinv.sound, hinv.work, fun y hy hymarked hywork _ => ?_, hinv.emitted⟩, ?_, hmono⟩
  · by_cases hyx : y = x
    · subst hyx
      refine ⟨hall, fun e he => ?_⟩
      rw [scan, hout]
      exact mem_append_right _ he
    · exact hinv.closed y hy hymarked hywork fun heq => hyx (Option.some.inj heq)
  · rw [scan, hweight, weight, weight, hwork]
    rfl

/-- **A run** with a turn for each element ends. -/
theorem run_eq {fuel : Nat} (h : Inv live roots succ emit none s) (hnodup : live.Nodup)
    (hsucc : ∀ x ∈ live, ∀ y ∈ succ x, y ∈ live) (hfuel : weight live s ≤ fuel) :
    ∃ t, run succ emit fuel s = some t ∧ Inv live roots succ emit none t ∧ t.work = [] ∧
      ∀ x, s.marked x = true → t.marked x = true := by
  induction fuel generalizing s with
  | zero =>
    have hempty : s.work = [] := by
      rw [weight] at hfuel
      exact eq_nil_of_length_eq_zero (by omega)
    refine ⟨s, ?_, h, hempty, fun _ hx => hx⟩
    rw [run, hempty]
    rfl
  | succ fuel ih =>
    rw [run]
    cases hwork : s.work with
    | nil => exact ⟨s, rfl, h, hwork, fun _ hx => hx⟩
    | cons x rest =>
      obtain ⟨hinv, hweight, hmono⟩ := h.turn hnodup hsucc hwork
      obtain ⟨t, ht, hinvt, hempty, hmonot⟩ := ih hinv (by omega)
      exact ⟨t, ht, hinvt, hempty, fun y hy => hmonot y (hmono y hy)⟩

end Run

/-! ### The end -/

section End

variable {succ : α → List α} {emit : α → List β} {roots : α → Prop} {live : List α} {s : State α β}
  {x : α} {e : β}

/-- **What is marked in the end** is what is reached from the roots. -/
theorem Inv.marked_iff (h : Inv live roots succ emit none s) (hempty : s.work = [])
    (hroots : ∀ r, roots r → r ∈ live ∧ s.marked r = true)
    (hsucc : ∀ x ∈ live, ∀ y ∈ succ x, y ∈ live) (hx : x ∈ live) :
    s.marked x = true ↔ Reached roots succ x := by
  refine ⟨h.sound x hx, ?_⟩
  rintro ⟨r, hr, hpath⟩
  have hboth : x ∈ live ∧ s.marked x = true := by
    clear hx
    induction hpath with
    | refl => exact hroots r hr
    | tail _ hy ih =>
      obtain ⟨hlive, hmarked⟩ := ih
      refine ⟨hsucc _ hlive _ hy, (h.closed _ hlive hmarked ?_ (Option.some_ne_none _)).1 _ hy⟩
      rw [hempty]
      exact not_mem_nil
  exact hboth.2

theorem Inv.mem_out_iff (h : Inv live roots succ emit none s) (hempty : s.work = []) :
    e ∈ s.out ↔ ∃ x ∈ live, s.marked x = true ∧ e ∈ emit x := by
  refine ⟨h.emitted e, ?_⟩
  rintro ⟨x, hx, hmarked, he⟩
  refine (h.closed x hx hmarked ?_ (Option.some_ne_none x)).2 e he
  rw [hempty]
  exact not_mem_nil

end End

end Worklist
