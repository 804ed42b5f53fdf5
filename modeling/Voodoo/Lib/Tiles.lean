import Mathlib.Data.List.Basic
import Mathlib.Data.List.Pairwise

/-!
# Blocks that tile a range

A walkable range is cut into blocks: each block starts where the one before it stops, and none is
empty.  Two blocks are disjoint, and a block is known by its start.

* `Tile.replace`: a block is cut into smaller ones;
* `join`: the blocks that are not kept are joined with their neighbours (`tile_join`), and what was
  in a block that is not kept lies in a block of the join (`mem_join_of_not_keep`).
-/

namespace Tiles

open List

variable {κ : Type}

/-- The places from `start` on, before `stop`, and what they are used for. -/
structure Block (κ : Type) where
  start : Nat
  stop : Nat
  kind : κ

namespace Block

def size (x : Block κ) : Nat := x.stop - x.start

def Disjoint (x y : Block κ) : Prop := x.stop ≤ y.start ∨ y.stop ≤ x.start

def Within (x y : Block κ) : Prop := y.start ≤ x.start ∧ x.stop ≤ y.stop

end Block

/-- The blocks follow each other from `a` to `b`, and none is empty. -/
def Tile : Nat → List (Block κ) → Nat → Prop
  | a, [], b => a = b
  | a, x :: xs, b => x.start = a ∧ x.start < x.stop ∧ Tile x.stop xs b

variable {a b c : Nat} {l l' m : List (Block κ)} {x y : Block κ}

theorem tile_append : Tile a (l ++ m) b ↔ ∃ c, Tile a l c ∧ Tile c m b := by
  induction l generalizing a with
  | nil =>
    constructor
    · exact fun h => ⟨a, rfl, h⟩
    · rintro ⟨c, rfl, h⟩
      exact h
  | cons x l ih =>
    constructor
    · rintro ⟨hstart, hlt, h⟩
      obtain ⟨c, hl, hm⟩ := ih.mp h
      exact ⟨c, ⟨hstart, hlt, hl⟩, hm⟩
    · rintro ⟨c, ⟨hstart, hlt, hl⟩, hm⟩
      exact ⟨hstart, hlt, ih.mpr ⟨c, hl, hm⟩⟩

theorem tile_singleton (h : x.start < x.stop) : Tile x.start [x] x.stop := ⟨rfl, h, rfl⟩

theorem Tile.le (h : Tile a l b) : a ≤ b := by
  induction l generalizing a with
  | nil => exact Nat.le_of_eq h
  | cons x l ih =>
    obtain ⟨hstart, hlt, htail⟩ := h
    have hle := ih htail
    omega

theorem Tile.mem (h : Tile a l b) (hx : x ∈ l) : a ≤ x.start ∧ x.start < x.stop ∧ x.stop ≤ b := by
  induction l generalizing a with
  | nil => exact (not_mem_nil hx).elim
  | cons y l ih =>
    obtain ⟨hstart, hlt, htail⟩ := h
    have hle := htail.le
    rcases mem_cons.mp hx with rfl | hx
    · exact ⟨Nat.le_of_eq hstart.symm, hlt, hle⟩
    · obtain ⟨hxstart, hxlt, hxstop⟩ := ih htail hx
      exact ⟨by omega, hxlt, hxstop⟩

theorem Tile.pairwise (h : Tile a l b) : l.Pairwise fun x y => x.stop ≤ y.start := by
  induction l generalizing a with
  | nil => exact .nil
  | cons y l ih => exact .cons (fun x hx => (h.2.2.mem hx).1) (ih h.2.2)

theorem Tile.eq_of_start (h : Tile a l b) (hx : x ∈ l) (hy : y ∈ l) (hstart : x.start = y.start) :
    x = y := by
  induction l generalizing a with
  | nil => exact (not_mem_nil hx).elim
  | cons z l ih =>
    obtain ⟨hz, hlt, htail⟩ := h
    rcases mem_cons.mp hx with rfl | hx' <;> rcases mem_cons.mp hy with rfl | hy'
    · rfl
    · have hle := (htail.mem hy').1
      omega
    · have hle := (htail.mem hx').1
      omega
    · exact ih htail hx' hy'

theorem Tile.disjoint (h : Tile a l b) (hx : x ∈ l) (hy : y ∈ l) (hne : x ≠ y) : x.Disjoint y := by
  induction l generalizing a with
  | nil => exact (not_mem_nil hx).elim
  | cons z l ih =>
    obtain ⟨-, -, htail⟩ := h
    rcases mem_cons.mp hx with rfl | hx' <;> rcases mem_cons.mp hy with rfl | hy'
    · exact absurd rfl hne
    · exact .inl (htail.mem hy').1
    · exact .inr (htail.mem hx').1
    · exact ih htail hx' hy'

theorem Tile.dvd {d : Nat} (h : Tile a l b) (ha : d ∣ a) (hl : ∀ x ∈ l, d ∣ x.size) (hx : x ∈ l) :
    d ∣ x.start ∧ d ∣ x.stop := by
  induction l generalizing a with
  | nil => exact (not_mem_nil hx).elim
  | cons y l ih =>
    obtain ⟨hstart, hlt, htail⟩ := h
    have hstop : d ∣ y.stop := by
      have hsum : y.start + y.size = y.stop := Nat.add_sub_cancel' (Nat.le_of_lt hlt)
      rw [← hsum, hstart]
      exact Nat.dvd_add ha (hl y mem_cons_self)
    rcases mem_cons.mp hx with rfl | hx
    · exact ⟨hstart ▸ ha, hstop⟩
    · exact ih htail hstop (fun z hz => hl z (mem_cons_of_mem _ hz)) hx

/-- **A block is cut** into other ones. -/
theorem Tile.replace (h : Tile a (l ++ x :: l') b) (hm : Tile x.start m x.stop) :
    Tile a (l ++ m ++ l') b := by
  obtain ⟨c, hl, hstart, -, htail⟩ := tile_append.mp h
  rw [List.append_assoc]
  exact tile_append.mpr ⟨c, hl, tile_append.mpr ⟨x.stop, hstart ▸ hm, htail⟩⟩

/-! ### Joining -/

section Join

variable {keep : Block κ → Bool} {free : κ} {run : Option Nat}

/-- The blocks up to `b` with those that are not kept joined; `run` is where the ones that are being
joined start. -/
def join (keep : Block κ → Bool) (free : κ) (b : Nat) : Option Nat → List (Block κ) → List (Block κ)
  | none, [] => []
  | some s, [] => [⟨s, b, free⟩]
  | run, x :: xs =>
    if keep x then (run.toList.map fun s => ⟨s, x.start, free⟩) ++ x :: join keep free b none xs
    else join keep free b (some (run.getD x.start)) xs

theorem join_keep (hx : keep x = true) : join keep free b run (x :: l) =
    (run.toList.map fun s => ⟨s, x.start, free⟩) ++ x :: join keep free b none l := by
  cases run <;> exact if_pos hx

theorem join_drop (hx : keep x = false) : join keep free b run (x :: l) =
    join keep free b (some (run.getD x.start)) l := by
  cases run <;> exact if_neg (by rw [hx]; exact Bool.false_ne_true)

theorem tile_join (h : Tile a l b) (hrun : ∀ s ∈ run, s < a) :
    Tile (run.getD a) (join keep free b run l) b := by
  induction l generalizing a run with
  | nil =>
    cases run with
    | none => exact h
    | some s => exact ⟨rfl, h ▸ hrun s rfl, rfl⟩
  | cons x l ih =>
    obtain ⟨hstart, hlt, htail⟩ := h
    cases hx : keep x with
    | true =>
      have hrest : Tile x.start (x :: join keep free b none l) b :=
        ⟨rfl, hlt, ih htail fun s (hs : s ∈ (none : Option Nat)) => (nomatch hs)⟩
      rw [join_keep hx]
      cases run with
      | none => exact hstart ▸ hrest
      | some s => exact ⟨rfl, hstart ▸ hrun s rfl, hrest⟩
    | false =>
      rw [join_drop hx]
      have hgetD : run.getD a = run.getD x.start := by rw [hstart]
      rw [hgetD]
      refine ih htail fun s (hs : s ∈ some (run.getD x.start)) => ?_
      obtain rfl := Option.some.inj hs
      cases run with
      | none => exact hlt
      | some s =>
        have hs := hrun s rfl
        show s < x.stop
        omega

theorem mem_join (hy : y ∈ join keep free b run l) :
    y ∈ l ∧ keep y = true ∨ y.kind = free ∧ (y.start ∈ run ∨ ∃ x ∈ l, x.start = y.start) ∧
      (y.stop = b ∨ ∃ x ∈ l, x.start = y.stop) := by
  induction l generalizing run with
  | nil =>
    cases run with
    | none => exact (not_mem_nil hy).elim
    | some s =>
      obtain rfl := mem_singleton.mp hy
      exact .inr ⟨rfl, .inl rfl, .inl rfl⟩
  | cons x l ih =>
    cases hx : keep x with
    | true =>
      rw [join_keep hx, mem_append, mem_cons] at hy
      rcases hy with hy | rfl | hy
      · obtain ⟨s, hs, rfl⟩ := List.mem_map.mp hy
        exact .inr ⟨rfl, .inl (Option.mem_toList.mp hs), .inr ⟨x, mem_cons_self, rfl⟩⟩
      · exact .inl ⟨mem_cons_self, hx⟩
      · rcases ih hy with ⟨hy, hkeep⟩ | ⟨hkind, hstart, hstop⟩
        · exact .inl ⟨mem_cons_of_mem _ hy, hkeep⟩
        · refine .inr ⟨hkind, .inr ?_, hstop.imp_right fun ⟨z, hz, hzstop⟩ =>
            ⟨z, mem_cons_of_mem _ hz, hzstop⟩⟩
          obtain ⟨z, hz, hzstart⟩ := hstart.resolve_left fun hnone => nomatch hnone
          exact ⟨z, mem_cons_of_mem _ hz, hzstart⟩
    | false =>
      rw [join_drop hx] at hy
      rcases ih hy with ⟨hy, hkeep⟩ | ⟨hkind, hstart, hstop⟩
      · exact .inl ⟨mem_cons_of_mem _ hy, hkeep⟩
      · refine .inr ⟨hkind, ?_, hstop.imp_right fun ⟨z, hz, hzstop⟩ =>
          ⟨z, mem_cons_of_mem _ hz, hzstop⟩⟩
        rcases hstart with hstart | ⟨z, hz, hzstart⟩
        · have hstart : run.getD x.start = y.start := Option.some.inj hstart
          cases run with
          | none => exact .inr ⟨x, mem_cons_self, hstart⟩
          | some s => exact .inl (congrArg some hstart)
        · exact .inr ⟨z, mem_cons_of_mem _ hz, hzstart⟩

theorem mem_join_of_keep (hx : x ∈ l) (hkeep : keep x = true) : x ∈ join keep free b run l := by
  induction l generalizing run with
  | nil => exact (not_mem_nil hx).elim
  | cons y l ih =>
    rcases mem_cons.mp hx with rfl | hx
    · rw [join_keep hkeep]
      exact mem_append_right _ mem_cons_self
    · cases hy : keep y with
      | true =>
        rw [join_keep hy]
        exact mem_append_right _ (mem_cons_of_mem _ (ih hx))
      | false =>
        rw [join_drop hy]
        exact ih hx

theorem mem_join_of_run (keep : Block κ → Bool) (free : κ) (h : Tile a l b) (s : Nat) :
    ∃ y ∈ join keep free b (some s) l, y.kind = free ∧ y.start = s ∧ a ≤ y.stop := by
  induction l generalizing a s with
  | nil => exact ⟨_, mem_singleton_self _, rfl, rfl, Nat.le_of_eq h⟩
  | cons x l ih =>
    obtain ⟨hstart, hlt, htail⟩ := h
    cases hx : keep x with
    | true =>
      rw [join_keep hx]
      exact ⟨_, mem_append_left _ (mem_singleton_self _), rfl, rfl, Nat.le_of_eq hstart.symm⟩
    | false =>
      rw [join_drop hx]
      obtain ⟨y, hy, hkind, hs, hle⟩ := ih htail s
      exact ⟨y, hy, hkind, hs, by omega⟩

/-- **What is not kept** lies in a block of the join. -/
theorem mem_join_of_not_keep (h : Tile a l b) (hrun : ∀ s ∈ run, s < a) (hx : x ∈ l)
    (hkeep : keep x = false) :
    ∃ y ∈ join keep free b run l, y.kind = free ∧ x.Within y := by
  induction l generalizing a run with
  | nil => exact (not_mem_nil hx).elim
  | cons z l ih =>
    obtain ⟨hstart, hlt, htail⟩ := h
    rcases mem_cons.mp hx with rfl | hx
    · rw [join_drop hkeep]
      obtain ⟨y, hy, hkind, hs, hle⟩ := mem_join_of_run keep free htail
        (run.getD x.start)
      refine ⟨y, hy, hkind, ?_, hle⟩
      cases run with
      | none => exact Nat.le_of_eq hs
      | some s =>
        have hlt := hrun s rfl
        have hs : y.start = s := hs
        omega
    · cases hz : keep z with
      | true =>
        rw [join_keep hz]
        obtain ⟨y, hy, hrest⟩ := ih htail (fun s (hs : s ∈ (none : Option Nat)) => nomatch hs) hx
        exact ⟨y, mem_append_right _ (mem_cons_of_mem _ hy), hrest⟩
      | false =>
        rw [join_drop hz]
        refine ih htail (fun s hs => ?_) hx
        obtain rfl := Option.some.inj hs
        cases run with
        | none => exact hlt
        | some s =>
          have hs := hrun s rfl
          show s < z.stop
          omega

end Join

end Tiles
