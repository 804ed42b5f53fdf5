import Mathlib.Data.List.Basic
import Mathlib.Data.List.Pairwise
import Mathlib.Data.List.TakeWhile

/-!
# Spans of an arena

An allocator hands out spans of an arena and keeps a list of the free ones below a frontier.  In a
`Tiling` the spans that are out are disjoint from each other and from the free ones, and the free
ones are in order with a gap between any two.

* `Tiling.carve`: a span is cut out of a free one, and what is left of that is put back;
* `Tiling.extend`: a span is taken at the frontier;
* `Tiling.release`: a span is given back, and `insert` joins it with its free neighbours.
-/

namespace Spans

/-- The places from `start` on, before `stop`. -/
structure Span where
  start : Nat
  stop : Nat

namespace Span

def Nonempty (a : Span) : Prop := a.start < a.stop

def Disjoint (a b : Span) : Prop := a.stop ≤ b.start ∨ b.stop ≤ a.start

/-- The span `a` ends before `b` starts, with something between them. -/
def Gap (a b : Span) : Prop := a.stop < b.start

/-- Disjoint and not adjacent. -/
def Apart (a b : Span) : Prop := Gap a b ∨ Gap b a

def Within (a b : Span) : Prop := b.start ≤ a.start ∧ a.stop ≤ b.stop

variable {a b c : Span}

theorem Disjoint.symm (h : Disjoint a b) : Disjoint b a := Or.symm h

theorem Apart.symm (h : Apart a b) : Apart b a := Or.symm h

theorem Gap.disjoint (h : Gap a b) : Disjoint a b := .inl (Nat.le_of_lt h)

theorem Disjoint.within (h : Disjoint b c) (hw : Within a b) : Disjoint a c := by
  rcases h with h | h
  · exact .inl (hw.2.trans h)
  · exact .inr (h.trans hw.1)

theorem Apart.within (h : Apart b c) (hw : Within a b) : Apart a c := by
  rcases h with h | h
  · exact .inl (Nat.lt_of_le_of_lt hw.2 h)
  · exact .inr (Nat.lt_of_lt_of_le h hw.1)

end Span

open Span

/-- The free spans: in order, with gaps. -/
structure Spaced (free : List Span) : Prop where
  gap : free.Pairwise Gap
  nonempty : ∀ a ∈ free, a.Nonempty

theorem Spaced.apart {free : List Span} (h : Spaced free) : free.Pairwise Apart :=
  h.gap.imp .inl

theorem spaced_of_sorted {free : List Span} (hsorted : free.Pairwise fun a b => a.start ≤ b.start)
    (hapart : free.Pairwise Apart) (hnonempty : ∀ a ∈ free, a.Nonempty) : Spaced free where
  gap := by
    refine (hsorted.and hapart).imp_of_mem fun {a b} ha hb h => ?_
    rcases h with ⟨hle, hgap | hgap⟩
    · exact hgap
    · have hb := hnonempty b hb
      exact absurd (hb.trans hgap) (Nat.not_lt.mpr hle)
  nonempty := hnonempty

/-- What is left of the span `b` when `l` is cut out of it. -/
def remains (b l : Span) : List Span :=
  (if b.start < l.start then [⟨b.start, l.start⟩] else []) ++
    (if l.stop < b.stop then [⟨l.stop, b.stop⟩] else [])

theorem mem_remains {a b l : Span} :
    a ∈ remains b l ↔
      b.start < l.start ∧ a = ⟨b.start, l.start⟩ ∨ l.stop < b.stop ∧ a = ⟨l.stop, b.stop⟩ := by
  rw [remains, List.mem_append]
  refine or_congr ?_ ?_
  · split
    · rename_i h
      rw [List.mem_singleton, and_iff_right h]
    · rename_i h
      exact iff_of_false List.not_mem_nil fun hand => h hand.1
  · split
    · rename_i h
      rw [List.mem_singleton, and_iff_right h]
    · rename_i h
      exact iff_of_false List.not_mem_nil fun hand => h hand.1

/-! ### Joining -/

/-- The span `l` in front of free ones: it is joined with the next one if it reaches it. -/
def joinNext (l : Span) : List Span → Span × List Span
  | [] => (l, [])
  | next :: rest => if l.stop = next.start then (⟨l.start, next.stop⟩, rest) else (l, next :: rest)

/-- The span `l` behind free ones: it is joined with the last one if that reaches it. -/
def joinPrev (l : Span) (rest : List Span) : List Span → List Span
  | [] => l :: rest
  | [prev] => if prev.stop = l.start then ⟨prev.start, l.stop⟩ :: rest else prev :: l :: rest
  | a :: b :: before => a :: joinPrev l rest (b :: before)

/-- The free spans with `l` among them. -/
def insert (free : List Span) (l : Span) : List Span :=
  let (joined, rest) := joinNext l (free.dropWhile fun a => a.start < l.start)
  joinPrev joined rest (free.takeWhile fun a => a.start < l.start)

/-- A property of spans that two adjacent ones hand on to their union. -/
def Joinable (P : Span → Prop) : Prop :=
  ∀ a b c, a < b → b < c → P ⟨a, b⟩ → P ⟨b, c⟩ → P ⟨a, c⟩

theorem joinable_stop_le (frontier : Nat) : Joinable fun a => a.stop ≤ frontier :=
  fun _ _ _ _ _ _ h => h

theorem joinable_lt_start (k : Nat) : Joinable fun a => k < a.start :=
  fun _ _ _ _ _ h _ => h

theorem joinable_disjoint {x : Span} (hx : x.Nonempty) : Joinable fun a => a.Disjoint x := by
  intro a b c hab hbc hleft hright
  have hx : x.start < x.stop := hx
  rcases hleft with hleft | hleft
  · rcases hright with hright | hright
    · exact .inl hright
    · have hleft : b ≤ x.start := hleft
      have hright : x.stop ≤ b := hright
      omega
  · exact .inr hleft

section Join

variable {l : Span} {free before rest : List Span} {P : Span → Prop}

theorem joinNext_forall (hP : Joinable P) (hl : l.Nonempty) (hnonempty : ∀ a ∈ free, a.Nonempty)
    (hPl : P l) (hfree : ∀ a ∈ free, P a) :
    P (joinNext l free).1 ∧ ∀ a ∈ (joinNext l free).2, P a := by
  cases free with
  | nil => exact ⟨hPl, hfree⟩
  | cons next rest =>
    rw [joinNext]
    have hrest : ∀ a ∈ rest, P a := fun a ha => hfree a (List.mem_cons_of_mem _ ha)
    split
    · rename_i hjoin
      have hnext : next.start < next.stop := hnonempty next List.mem_cons_self
      refine ⟨hP l.start next.start next.stop ?_ hnext ?_ (hfree next List.mem_cons_self), hrest⟩
      · rw [← hjoin]
        exact hl
      · rwa [← hjoin]
    · exact ⟨hPl, hfree⟩

theorem joinPrev_forall (hP : Joinable P) (hl : l.Nonempty) (hnonempty : ∀ a ∈ before, a.Nonempty)
    (hPl : P l) (hbefore : ∀ a ∈ before, P a) (hrest : ∀ a ∈ rest, P a) :
    ∀ a ∈ joinPrev l rest before, P a := by
  fun_induction joinPrev l rest before with
  | case1 => exact List.forall_mem_cons.mpr ⟨hPl, hrest⟩
  | case2 prev hjoin =>
    have hprev : prev.start < prev.stop := hnonempty prev List.mem_cons_self
    refine List.forall_mem_cons.mpr ⟨?_, hrest⟩
    refine hP prev.start l.start l.stop ?_ hl ?_ hPl
    · rwa [← hjoin]
    · rw [← hjoin]
      exact hbefore prev List.mem_cons_self
  | case3 prev =>
    exact List.forall_mem_cons.mpr ⟨hbefore prev List.mem_cons_self,
      List.forall_mem_cons.mpr ⟨hPl, hrest⟩⟩
  | case4 a b before ih =>
    refine List.forall_mem_cons.mpr ⟨hbefore a List.mem_cons_self, ?_⟩
    exact ih (fun c hc => hnonempty c (List.mem_cons_of_mem _ hc))
      fun c hc => hbefore c (List.mem_cons_of_mem _ hc)

theorem spaced_joinNext (hfree : Spaced free) (hl : l.Nonempty)
    (hafter : ∀ a ∈ free, l.stop ≤ a.start) :
    Spaced ((joinNext l free).1 :: (joinNext l free).2) ∧ (joinNext l free).1.start = l.start := by
  cases free with
  | nil =>
    exact ⟨⟨List.pairwise_singleton _ _, List.forall_mem_singleton.mpr hl⟩, rfl⟩
  | cons next rest =>
    obtain ⟨hgap, hrest⟩ := List.pairwise_cons.mp hfree.gap
    have hnext : next.start < next.stop := hfree.nonempty next List.mem_cons_self
    have hl : l.start < l.stop := hl
    rw [joinNext]
    split
    · rename_i hjoin
      refine ⟨⟨List.pairwise_cons.mpr ⟨hgap, hrest⟩, List.forall_mem_cons.mpr ⟨?_, ?_⟩⟩, rfl⟩
      · show l.start < next.stop
        omega
      · exact fun a ha => hfree.nonempty a (List.mem_cons_of_mem _ ha)
    · rename_i hjoin
      have hle := hafter next List.mem_cons_self
      refine ⟨⟨List.pairwise_cons.mpr ⟨?_, hfree.gap⟩,
        List.forall_mem_cons.mpr ⟨hl, hfree.nonempty⟩⟩, rfl⟩
      intro a ha
      rcases List.mem_cons.mp ha with rfl | ha
      · exact Nat.lt_of_le_of_ne hle hjoin
      · have hlt : next.stop < a.start := hgap a ha
        show l.stop < a.start
        omega

theorem spaced_joinPrev (hbefore : Spaced before) (hrest : Spaced (l :: rest))
    (hle : ∀ a ∈ before, a.stop ≤ l.start) : Spaced (joinPrev l rest before) := by
  have hl : l.start < l.stop := hrest.nonempty l List.mem_cons_self
  obtain ⟨hgap, -⟩ := List.pairwise_cons.mp hrest.gap
  fun_induction joinPrev l rest before with
  | case1 => exact hrest
  | case2 prev hjoin =>
    have hprev : prev.start < prev.stop := hbefore.nonempty prev List.mem_cons_self
    refine ⟨List.pairwise_cons.mpr ⟨hgap, (List.pairwise_cons.mp hrest.gap).2⟩,
      List.forall_mem_cons.mpr ⟨?_, fun a ha => hrest.nonempty a (List.mem_cons_of_mem _ ha)⟩⟩
    show prev.start < l.stop
    omega
  | case3 prev hjoin =>
    have hprev : prev.stop < l.start :=
      Nat.lt_of_le_of_ne (hle prev List.mem_cons_self) hjoin
    refine ⟨List.pairwise_cons.mpr ⟨List.forall_mem_cons.mpr ⟨hprev, fun a ha => ?_⟩, hrest.gap⟩,
      List.forall_mem_cons.mpr ⟨hbefore.nonempty prev List.mem_cons_self, hrest.nonempty⟩⟩
    have hlt : l.stop < a.start := hgap a ha
    show prev.stop < a.start
    omega
  | case4 a b before ih =>
    obtain ⟨ha, htail⟩ := List.pairwise_cons.mp hbefore.gap
    have hnonempty : ∀ c ∈ b :: before, c.Nonempty :=
      fun c hc => hbefore.nonempty c (List.mem_cons_of_mem _ hc)
    have hb : b.stop ≤ l.start := hle b (List.mem_cons_of_mem _ List.mem_cons_self)
    have hab : a.stop < b.start := ha b List.mem_cons_self
    have hbnonempty : b.start < b.stop := hnonempty b List.mem_cons_self
    have hjoined := ih ⟨htail, hnonempty⟩ fun c hc => hle c (List.mem_cons_of_mem _ hc)
    refine ⟨List.pairwise_cons.mpr ⟨?_, hjoined.gap⟩,
      List.forall_mem_cons.mpr ⟨hbefore.nonempty a List.mem_cons_self, hjoined.nonempty⟩⟩
    have hal : a.stop < l.start := by omega
    refine joinPrev_forall (joinable_lt_start a.stop) hl hnonempty hal ha fun c hc => ?_
    have hlt : l.stop < c.start := hgap c hc
    show a.stop < c.start
    omega

theorem le_of_mem_dropWhile (hfree : Spaced free) {k : Nat} {a : Span}
    (ha : a ∈ free.dropWhile fun a => a.start < k) : k ≤ a.start := by
  obtain ⟨hgap, hnonempty⟩ := hfree
  induction free with
  | nil => exact (List.not_mem_nil ha).elim
  | cons b rest ih =>
    obtain ⟨hb, hrest⟩ := List.pairwise_cons.mp hgap
    rw [List.dropWhile_cons] at ha
    split at ha
    · exact ih ha hrest fun c hc => hnonempty c (List.mem_cons_of_mem _ hc)
    · rename_i hk
      have hk : k ≤ b.start := Nat.le_of_not_lt fun hlt => hk (decide_eq_true hlt)
      rcases List.mem_cons.mp ha with rfl | ha
      · exact hk
      · have hlt : b.stop < a.start := hb a ha
        have hbnonempty : b.start < b.stop := hnonempty b List.mem_cons_self
        omega

theorem Spaced.sublist (hfree : Spaced free) (h : before.Sublist free) : Spaced before :=
  ⟨hfree.gap.sublist h, fun a ha => hfree.nonempty a (h.subset ha)⟩

theorem insert_forall (hP : Joinable P) (hfree : ∀ a ∈ free, a.Nonempty) (hl : l.Nonempty) (hPl : P l)
    (hPfree : ∀ a ∈ free, P a) : ∀ a ∈ insert free l, P a := by
  have hdrop := List.dropWhile_sublist (l := free) fun a => a.start < l.start
  have htake := List.takeWhile_sublist (l := free) fun a => a.start < l.start
  have hafter := fun a ha => hfree a (hdrop.subset ha)
  obtain ⟨hjoined, hrest⟩ := joinNext_forall hP hl hafter hPl fun a ha => hPfree a (hdrop.subset ha)
  have hjoinedNonempty := (joinNext_forall (P := Nonempty)
    (fun _ _ _ hab hbc _ _ => Nat.lt_trans hab hbc) hl hafter hl hafter).1
  exact joinPrev_forall hP hjoinedNonempty (fun a ha => hfree a (htake.subset ha)) hjoined
    (fun a ha => hPfree a (htake.subset ha)) hrest

theorem spaced_insert (hfree : Spaced free) (hl : l.Nonempty)
    (hdisjoint : ∀ a ∈ free, a.Disjoint l) : Spaced (insert free l) := by
  have hdrop := List.dropWhile_sublist (l := free) fun a => a.start < l.start
  have htake := List.takeWhile_sublist (l := free) fun a => a.start < l.start
  have hl : l.start < l.stop := hl
  have hafter : ∀ a ∈ free.dropWhile fun a => a.start < l.start, l.stop ≤ a.start := by
    intro a ha
    have hle := le_of_mem_dropWhile hfree ha
    have hnonempty : a.start < a.stop := hfree.nonempty a (hdrop.subset ha)
    rcases hdisjoint a (hdrop.subset ha) with h | h
    · omega
    · exact h
  have hbefore : ∀ a ∈ free.takeWhile fun a => a.start < l.start, a.stop ≤ l.start := by
    intro a ha
    have hlt := List.mem_takeWhile_imp ha
    rw [decide_eq_true_iff] at hlt
    rcases hdisjoint a (htake.subset ha) with h | h
    · exact h
    · omega
  obtain ⟨hspaced, hstart⟩ := spaced_joinNext (hfree.sublist hdrop) hl hafter
  exact spaced_joinPrev (hfree.sublist htake) hspaced
    fun a ha => (hbefore a ha).trans (Nat.le_of_eq hstart.symm)

end Join

/-! ### Tilings -/

/-- The free spans and those that are out, below a frontier. -/
structure Tiling (free live : List Span) (frontier : Nat) : Prop where
  spaced : Spaced free
  live_nonempty : ∀ b ∈ live, b.Nonempty
  live_disjoint : live.Pairwise Disjoint
  free_live : ∀ a ∈ free, ∀ b ∈ live, a.Disjoint b
  free_below : ∀ a ∈ free, a.stop ≤ frontier
  live_below : ∀ b ∈ live, b.stop ≤ frontier

section Tiling

variable {free free' others live live' : List Span} {frontier : Nat} {b l : Span}

theorem remains_forall (hl : l.Nonempty) (hwithin : l.Within b) {a : Span}
    (ha : a ∈ remains b l) : a.Nonempty ∧ a.Within b ∧ a.Disjoint l := by
  have hl : l.start < l.stop := hl
  obtain ⟨hstart, hstop⟩ := hwithin
  rcases mem_remains.mp ha with ⟨hlt, rfl⟩ | ⟨hlt, rfl⟩
  · exact ⟨hlt, ⟨Nat.le_refl _, by show l.start ≤ b.stop; omega⟩, .inl (Nat.le_refl _)⟩
  · exact ⟨hlt, ⟨by show b.start ≤ l.stop; omega, Nat.le_refl _⟩, .inr (Nat.le_refl _)⟩

theorem remains_apart (hl : l.Nonempty) : (remains b l).Pairwise Apart := by
  have hcross : ∀ x ∈ (if b.start < l.start then [Span.mk b.start l.start] else []),
      ∀ y ∈ (if l.stop < b.stop then [Span.mk l.stop b.stop] else []), x.Apart y := by
    intro x hx y hy
    split at hx
    · split at hy
      · rw [List.mem_singleton.mp hx, List.mem_singleton.mp hy]
        exact .inl hl
      · exact (List.not_mem_nil hy).elim
    · exact (List.not_mem_nil hx).elim
  refine List.pairwise_append.mpr ⟨?_, ?_, hcross⟩
  · split
    · exact List.pairwise_singleton _ _
    · exact List.Pairwise.nil
  · split
    · exact List.pairwise_singleton _ _
    · exact List.Pairwise.nil

/-- **Cutting a span out of a free one.** -/
theorem Tiling.carve (h : Tiling free live frontier) (hfree : free.Perm (b :: others))
    (hl : l.Nonempty) (hwithin : l.Within b) (hfree' : free'.Perm (others ++ remains b l))
    (hsorted : free'.Pairwise fun a b => a.start ≤ b.start) :
    Tiling free' (l :: live) frontier := by
  have hb : b ∈ free := hfree.mem_iff.mpr List.mem_cons_self
  have hothers : ∀ a ∈ others, a ∈ free :=
    fun a ha => hfree.mem_iff.mpr (List.mem_cons_of_mem _ ha)
  obtain ⟨hapartb, hapart⟩ := List.pairwise_cons.mp
    ((hfree.pairwise_iff fun h => Apart.symm h).mp h.spaced.apart)
  -- a free span is one of the others, or a part of `b` beside `l`
  have hcases : ∀ a ∈ free', a ∈ others ∨ a.Nonempty ∧ a.Within b ∧ a.Disjoint l := by
    intro a ha
    rcases List.mem_append.mp (hfree'.mem_iff.mp ha) with ha | ha
    · exact .inl ha
    · exact .inr (remains_forall hl hwithin ha)
  have hliveb : ∀ x ∈ live, b.Disjoint x := h.free_live b hb
  refine ⟨spaced_of_sorted hsorted ?_ ?_, ?_, ?_, ?_, ?_, ?_⟩
  · refine (hfree'.pairwise_iff fun h => Apart.symm h).mpr ?_
    refine List.pairwise_append.mpr ⟨hapart, remains_apart hl, fun a ha x hx => ?_⟩
    exact ((hapartb a ha).within (remains_forall hl hwithin hx).2.1).symm
  · intro a ha
    rcases hcases a ha with ha | ⟨ha, -⟩
    · exact h.spaced.nonempty a (hothers a ha)
    · exact ha
  · exact List.forall_mem_cons.mpr ⟨hl, h.live_nonempty⟩
  · refine List.pairwise_cons.mpr ⟨fun x hx => ?_, h.live_disjoint⟩
    exact (hliveb x hx).within hwithin
  · intro a ha x hx
    rcases hcases a ha with ha | ⟨-, hwithinb, hdisjoint⟩
    · rcases List.mem_cons.mp hx with rfl | hx
      · have hab : b.Disjoint a := by
          rcases hapartb a ha with hgap | hgap
          · exact hgap.disjoint
          · exact hgap.disjoint.symm
        exact (hab.within hwithin).symm
      · exact h.free_live a (hothers a ha) x hx
    · rcases List.mem_cons.mp hx with rfl | hx
      · exact hdisjoint
      · exact (hliveb x hx).within hwithinb
  · intro a ha
    rcases hcases a ha with ha | ⟨-, hwithinb, -⟩
    · exact h.free_below a (hothers a ha)
    · exact hwithinb.2.trans (h.free_below b hb)
  · exact List.forall_mem_cons.mpr ⟨hwithin.2.trans (h.free_below b hb), h.live_below⟩

/-- **Taking a span at the frontier.** -/
theorem Tiling.extend (h : Tiling free live frontier) (hl : l.Nonempty)
    (hfrontier : frontier ≤ l.start) : Tiling free (l :: live) l.stop where
  spaced := h.spaced
  live_nonempty := List.forall_mem_cons.mpr ⟨hl, h.live_nonempty⟩
  live_disjoint := List.pairwise_cons.mpr
    ⟨fun b hb => .inr ((h.live_below b hb).trans hfrontier), h.live_disjoint⟩
  free_live a ha := List.forall_mem_cons.mpr
    ⟨.inl ((h.free_below a ha).trans hfrontier), h.free_live a ha⟩
  free_below a ha := (h.free_below a ha).trans (hfrontier.trans (Nat.le_of_lt hl))
  live_below := List.forall_mem_cons.mpr
    ⟨Nat.le_refl _, fun b hb => (h.live_below b hb).trans (hfrontier.trans (Nat.le_of_lt hl))⟩

/-- **Giving a span back.** -/
theorem Tiling.release (h : Tiling free live frontier) (hlive : live.Perm (l :: live')) :
    Tiling (insert free l) live' frontier := by
  have hl : l ∈ live := hlive.mem_iff.mpr List.mem_cons_self
  have hlive' : ∀ b ∈ live', b ∈ live :=
    fun b hb => hlive.mem_iff.mpr (List.mem_cons_of_mem _ hb)
  obtain ⟨hdisjoint, hpairwise⟩ := List.pairwise_cons.mp
    ((hlive.pairwise_iff fun h => Span.Disjoint.symm h).mp h.live_disjoint)
  have hnonempty := h.live_nonempty l hl
  refine ⟨spaced_insert h.spaced hnonempty fun a ha => h.free_live a ha l hl, ?_, hpairwise, ?_, ?_,
    ?_⟩
  · exact fun b hb => h.live_nonempty b (hlive' b hb)
  · intro a ha b hb
    refine insert_forall (joinable_disjoint (h.live_nonempty b (hlive' b hb))) h.spaced.nonempty hnonempty
      (hdisjoint b hb) (fun c hc => h.free_live c hc b (hlive' b hb)) a ha
  · exact insert_forall (joinable_stop_le frontier) h.spaced.nonempty hnonempty
      (h.live_below l hl) h.free_below
  · exact fun b hb => h.live_below b (hlive' b hb)

theorem tiling_nil : Tiling [] [] 0 where
  spaced := ⟨List.Pairwise.nil, fun _ ha => (List.not_mem_nil ha).elim⟩
  live_nonempty _ hb := (List.not_mem_nil hb).elim
  live_disjoint := List.Pairwise.nil
  free_live _ ha := (List.not_mem_nil ha).elim
  free_below _ ha := (List.not_mem_nil ha).elim
  live_below _ hb := (List.not_mem_nil hb).elim

end Tiling

end Spans
