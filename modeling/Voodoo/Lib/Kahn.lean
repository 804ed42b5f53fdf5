import Mathlib.Data.List.MinMax
import Mathlib.Data.Set.Finite.Lemmas

/-!
# Topological sorting by counting what is still missing

Kahn's algorithm over a finite graph: a node is ready when all its dependencies are out, and the
ready node of least key goes out next (`Graph.sort`).

`Greedy` says what such a run does without its counters, and `sort_greedy` connects the two.  Greedy
lists keep every dependency (`Greedy.dep_before`) and reach every node exactly when the graph has no
cycle (`Greedy.complete`, `Greedy.acyclic`).

`Peak` is what holds a node up: the greatest key among the node and all it needs, then the greatest
among those of them that need the first peak, and so on down to the node.  `Sooner` compares two
nodes peak by peak, and `Greedy.before_iff` says that this is the order in which they are emitted.
-/

namespace Kahn

open Relation List

variable {α κ : Type*} [DecidableEq α] [LinearOrder κ]

/-! ### The algorithm -/

/-- A finite graph: its nodes, and what each of them waits for. -/
structure Graph (α : Type*) where
  nodes : List α
  deps : α → List α

structure State (α : Type*) where
  ready : List α
  /-- How many of its dependencies a node still waits for. -/
  missing : α → Nat

/-- One dependency of `b` is out. -/
def State.relax (s : State α) (b : α) : State α where
  missing := Function.update s.missing b (s.missing b - 1)
  ready := if s.missing b = 1 then b :: s.ready else s.ready

namespace Graph

variable (g : Graph α)

/-- The nodes that wait for `a`, each as often as it names `a`. -/
def dependents (a : α) : List α :=
  g.nodes.flatMap (fun b => List.replicate ((g.deps b).count a) b)

/-- `a` is out. -/
def finish (a : α) (s : State α) : State α :=
  (g.dependents a).foldl State.relax { s with ready := s.ready.erase a }

def emit (key : α → κ) : Nat → State α → List α
  | 0, _ => []
  | fuel + 1, s =>
    match s.ready.argmin key with
    | none => []
    | some a => a :: emit key fuel (g.finish a s)

def start : State α where
  ready := g.nodes.filter (fun b => (g.deps b).length = 0)
  missing b := (g.deps b).length

def sort (key : α → κ) : List α := g.emit key g.nodes.length g.start

end Graph

/-! ### Greedy lists -/

/-- `b` can go out after `done`. -/
structure Ready (g : Graph α) (done : List α) (b : α) : Prop where
  node : b ∈ g.nodes
  notDone : b ∉ done
  deps : ∀ a ∈ g.deps b, a ∈ done

/-- Each node is a least ready one after what came before it, and none is ready at the end. -/
def Greedy (g : Graph α) (key : α → κ) : List α → List α → Prop
  | done, [] => ∀ b, ¬Ready g done b
  | done, a :: l =>
    Ready g done a ∧ (∀ b, Ready g done b → key a ≤ key b) ∧ Greedy g key (done ++ [a]) l

/-- The counters agree with what is out. -/
structure Agrees (g : Graph α) (done : List α) (s : State α) : Prop where
  missing : ∀ b ∈ g.nodes, s.missing b = ((g.deps b).filter (· ∉ done)).length
  ready : ∀ b, b ∈ s.ready ↔ Ready g done b
  nodup : s.ready.Nodup
  closed : ∀ b ∈ done, ∀ a ∈ g.deps b, a ∈ done

section Counters

variable {g : Graph α} {done : List α} {s : State α} {a b : α}

theorem missing_foldl_relax (bs : List α) (s : State α) (b : α) :
    (bs.foldl State.relax s).missing b = s.missing b - bs.count b := by
  induction bs generalizing s with
  | nil => simp
  | cons c bs ih =>
    rw [foldl_cons, ih]
    by_cases h : b = c
    · subst h
      simp [State.relax]
      omega
    · simp [State.relax, h, Ne.symm h]

theorem mem_ready_foldl_relax (bs : List α) (s : State α) (b : α) :
    b ∈ (bs.foldl State.relax s).ready ↔
      b ∈ s.ready ∨ 0 < s.missing b ∧ s.missing b ≤ bs.count b := by
  induction bs generalizing s with
  | nil =>
    have h : ¬(0 < s.missing b ∧ s.missing b ≤ 0) := by omega
    exact (or_iff_left h).symm
  | cons c bs ih =>
    rw [foldl_cons, ih]
    by_cases h : b = c
    · subst h
      by_cases h1 : s.missing b = 1
      · simp [State.relax, h1]
      · have hm : (s.relax b).missing b = s.missing b - 1 := by simp [State.relax]
        have hr : (s.relax b).ready = s.ready := by simp [State.relax, h1]
        rw [hm, hr, count_cons_self]
        exact or_congr_right (by omega)
    · by_cases h1 : s.missing c = 1 <;> simp [State.relax, h, Ne.symm h, h1]

theorem nodup_ready_foldl_relax {bs : List α} {s : State α} (h : s.ready.Nodup)
    (h0 : ∀ b ∈ s.ready, s.missing b = 0) : (bs.foldl State.relax s).ready.Nodup := by
  induction bs generalizing s with
  | nil => exact h
  | cons c bs ih =>
    rw [foldl_cons]
    by_cases h1 : s.missing c = 1
    · have hc : c ∉ s.ready := fun hc => by have := h0 c hc; omega
      refine ih ?_ ?_
      · simpa [State.relax, h1] using ⟨hc, h⟩
      · intro b hb
        by_cases hbc : b = c
        · simp [State.relax, hbc, h1]
        · have hb : b ∈ s.ready := by simpa [State.relax, h1, hbc] using hb
          simpa [State.relax, hbc] using h0 b hb
    · refine ih (by simpa [State.relax, h1] using h) (fun b hb => ?_)
      have hb : b ∈ s.ready := by simpa [State.relax, h1] using hb
      have := h0 b hb
      by_cases hbc : b = c
      · subst hbc; simp [State.relax, this]
      · simpa [State.relax, hbc] using this

theorem count_dependents (hn : g.nodes.Nodup) (hb : b ∈ g.nodes) (a : α) :
    (g.dependents a).count b = (g.deps b).count a := by
  unfold Graph.dependents
  generalize g.nodes = ns at hn hb
  induction ns with
  | nil => exact absurd hb not_mem_nil
  | cons c ns ih =>
    obtain ⟨hc, hn⟩ := nodup_cons.mp hn
    rw [flatMap_cons, count_append, count_replicate]
    by_cases h : c = b
    · subst h
      have hz : (ns.flatMap (fun d => List.replicate ((g.deps d).count a) d)).count c = 0 := by
        refine count_eq_zero.mpr (fun hmem => ?_)
        obtain ⟨d, hd, hmem⟩ := mem_flatMap.mp hmem
        exact hc (eq_of_mem_replicate hmem ▸ hd)
      rw [hz]
      simp
    · have hb : b ∈ ns := (mem_cons.mp hb).resolve_left (Ne.symm h)
      rw [ih hn hb]
      simp [h]

theorem count_dependents_of_notMem (hb : b ∉ g.nodes) (a : α) :
    (g.dependents a).count b = 0 := by
  refine count_eq_zero.mpr (fun hmem => ?_)
  obtain ⟨c, hc, hmem⟩ := mem_flatMap.mp hmem
  exact hb (eq_of_mem_replicate hmem ▸ hc)

theorem length_filter_snoc (ha : a ∉ done) (l : List α) :
    (l.filter (· ∉ done)).length = (l.filter (· ∉ done ++ [a])).length + l.count a := by
  induction l with
  | nil => rfl
  | cons c l ih =>
    by_cases hc : c = a
    · subst hc
      rw [filter_cons_of_pos (by simpa using ha), filter_cons_of_neg (by simp),
        count_cons_self, length_cons, ih]
      omega
    · rw [count_cons_of_ne hc]
      by_cases hd : c ∈ done
      · rw [filter_cons_of_neg (by simpa using hd), filter_cons_of_neg (by simp [hd]), ih]
      · rw [filter_cons_of_pos (by simpa using hd), filter_cons_of_pos (by simp [hc, hd]),
          length_cons, length_cons, ih]
        omega

theorem agrees_start (hn : g.nodes.Nodup) : Agrees g [] g.start where
  missing b _ := by simp [Graph.start]
  ready b := by
    constructor
    · intro hb
      obtain ⟨hb, h0⟩ := mem_filter.mp hb
      have h0 : g.deps b = [] := by simpa using h0
      exact ⟨hb, not_mem_nil, by simp [h0]⟩
    · intro hb
      refine mem_filter.mpr ⟨hb.node, ?_⟩
      have : g.deps b = [] :=
        eq_nil_iff_forall_not_mem.mpr (fun a ha => absurd (hb.deps a ha) not_mem_nil)
      simp [this]
  nodup := hn.filter _
  closed _ hb := absurd hb not_mem_nil

namespace Agrees

variable (h : Agrees g done s)
include h

theorem missing_eq_zero_iff (hb : b ∈ g.nodes) :
    s.missing b = 0 ↔ ∀ a ∈ g.deps b, a ∈ done := by
  rw [h.missing b hb, length_eq_zero_iff, filter_eq_nil_iff]
  simp

theorem missing_of_ready (hb : b ∈ s.ready) : s.missing b = 0 :=
  have hr := (h.ready b).mp hb
  (h.missing_eq_zero_iff hr.node).mpr hr.deps

theorem missing_finish (hn : g.nodes.Nodup) (ha : a ∉ done) (hb : b ∈ g.nodes) :
    s.missing b = ((g.deps b).filter (· ∉ done ++ [a])).length + (g.dependents a).count b := by
  rw [h.missing b hb, count_dependents hn hb]
  exact length_filter_snoc ha _

theorem finish (hn : g.nodes.Nodup) (ha : a ∈ s.ready) :
    Agrees g (done ++ [a]) (g.finish a s) := by
  have har := (h.ready a).mp ha
  have hmissing : ∀ b ∈ g.nodes, (g.finish a s).missing b =
      ((g.deps b).filter (· ∉ done ++ [a])).length := by
    intro b hb
    have hm : (g.finish a s).missing b = s.missing b - (g.dependents a).count b :=
      missing_foldl_relax _ _ b
    rw [hm, h.missing_finish hn har.notDone hb]
    exact Nat.add_sub_cancel _ _
  have hdone : ∀ b ∈ g.nodes, s.missing b ≤ (g.dependents a).count b ↔
      ∀ c ∈ g.deps b, c ∈ done ++ [a] := by
    intro b hb
    have hz : ((g.deps b).filter (· ∉ done ++ [a])).length = 0 ↔
        ∀ c ∈ g.deps b, c ∈ done ++ [a] := by
      rw [length_eq_zero_iff, filter_eq_nil_iff]
      simp only [decide_eq_true_eq, not_not]
    rw [h.missing_finish hn har.notDone hb, ← hz]
    omega
  refine ⟨hmissing, fun b => ?_, ?_, ?_⟩
  · have hmem : b ∈ (g.finish a s).ready ↔ b ∈ s.ready.erase a ∨
        0 < s.missing b ∧ s.missing b ≤ (g.dependents a).count b := mem_ready_foldl_relax _ _ b
    rw [hmem, h.nodup.mem_erase_iff]
    constructor
    · rintro (⟨hne, hb⟩ | ⟨hpos, hle⟩)
      · have hb := (h.ready b).mp hb
        exact ⟨hb.node, by simp [hb.notDone, hne], fun c hc => by simp [hb.deps c hc]⟩
      · have hb : b ∈ g.nodes := by
          by_contra hb
          rw [count_dependents_of_notMem hb] at hle
          omega
        -- Nothing was missing of a node that is out, nor of `a`.
        refine ⟨hb, fun hd => ?_, (hdone b hb).mp hle⟩
        rcases mem_append.mp hd with hd | hd
        · have := (h.missing_eq_zero_iff hb).mpr (h.closed b hd)
          omega
        · have := h.missing_of_ready ha
          rw [mem_singleton.mp hd] at hpos
          omega
    · intro hb
      have hbd : b ∉ done := fun hd => hb.notDone (mem_append_left _ hd)
      have hba : b ≠ a := fun hba => hb.notDone (by simp [hba])
      by_cases h0 : s.missing b = 0
      · have hdeps := (h.missing_eq_zero_iff hb.node).mp h0
        exact Or.inl ⟨hba, (h.ready b).mpr ⟨hb.node, hbd, hdeps⟩⟩
      · exact Or.inr ⟨Nat.pos_of_ne_zero h0, (hdone b hb.node).mpr hb.deps⟩
  · refine nodup_ready_foldl_relax (h.nodup.erase a) (fun b hb => ?_)
    exact h.missing_of_ready (mem_of_mem_erase hb)
  · intro b hb c hc
    refine mem_append_left _ ?_
    rcases mem_append.mp hb with hb | hb
    · exact h.closed b hb c hc
    · exact har.deps c (mem_singleton.mp hb ▸ hc)

theorem emit_greedy (hn : g.nodes.Nodup) (key : α → κ) {fuel : Nat}
    (hfuel : (g.nodes.filter (· ∉ done)).length ≤ fuel) : Greedy g key done (g.emit key fuel s) := by
  induction fuel generalizing done s with
  | zero =>
    intro b hb
    have := filter_eq_nil_iff.mp (length_eq_zero_iff.mp (Nat.le_zero.mp hfuel)) b hb.node
    exact hb.notDone (by simpa using this)
  | succ fuel ih =>
    unfold Graph.emit
    cases hmin : s.ready.argmin key with
    | none =>
      have hnil := argmin_eq_none.mp hmin
      intro b hb
      have := (h.ready b).mpr hb
      rw [hnil] at this
      exact absurd this not_mem_nil
    | some a =>
      have ha : a ∈ s.ready := argmin_mem hmin
      have har := (h.ready a).mp ha
      refine ⟨har, fun b hb => le_of_mem_argmin ((h.ready b).mpr hb) hmin, ?_⟩
      refine ih (h.finish hn ha) ?_
      have hlen := length_filter_snoc har.notDone g.nodes
      have hpos : 0 < g.nodes.count a := List.count_pos_iff.mpr har.node
      omega

end Agrees

/-- **What the algorithm emits**: a greedy list from the start. -/
theorem sort_greedy (hn : g.nodes.Nodup) (key : α → κ) : Greedy g key [] (g.sort key) :=
  (agrees_start hn).emit_greedy hn key (length_filter_le _ _)

end Counters

/-! ### What greedy lists keep -/

namespace Graph

variable (g : Graph α)

/-- `b` waits for `a`, directly or through other nodes. -/
abbrev Needs (b a : α) : Prop := TransGen (fun b a => a ∈ g.deps b) b a

abbrev NeedsOrIs (b a : α) : Prop := ReflTransGen (fun b a => a ∈ g.deps b) b a

/-- Nodes only wait for nodes. -/
def Closed : Prop := ∀ b ∈ g.nodes, ∀ a ∈ g.deps b, a ∈ g.nodes

def Acyclic : Prop := ∀ a ∈ g.nodes, ¬g.Needs a a

variable {g}

omit [DecidableEq α] in
theorem Closed.needsOrIs (hc : g.Closed) {b a : α} (h : g.NeedsOrIs b a) (hb : b ∈ g.nodes) :
    a ∈ g.nodes := by
  induction h with
  | refl => exact hb
  | tail _ h ih => exact hc _ ih _ h

end Graph

theorem mem_prefix_iff {pre post : List α} {a x : α} (h : (pre ++ a :: post).Nodup) :
    x ∈ pre ↔ (pre ++ a :: post).idxOf x < (pre ++ a :: post).idxOf a := by
  have ha : a ∉ pre := fun ha => disjoint_of_nodup_append h ha mem_cons_self
  have hidx : (pre ++ a :: post).idxOf a = pre.length := by
    rw [idxOf_append_of_notMem ha, idxOf_cons_self, Nat.add_zero]
  rw [hidx]
  constructor
  · intro hx
    rw [idxOf_append_of_mem hx]
    exact idxOf_lt_length_of_mem hx
  · intro hlt
    by_contra hx
    rw [idxOf_append_of_notMem hx] at hlt
    omega

namespace Greedy

variable {g : Graph α} {key : α → κ} {done l : List α} {a b : α}

omit [DecidableEq α] in
theorem split {pre post : List α} (h : Greedy g key done (pre ++ a :: post)) :
    Ready g (done ++ pre) a ∧ ∀ b, Ready g (done ++ pre) b → key a ≤ key b := by
  induction pre generalizing done with
  | nil =>
    rw [append_nil]
    exact ⟨h.1, h.2.1⟩
  | cons c pre ih =>
    have := ih h.2.2
    rwa [List.append_assoc] at this

omit [DecidableEq α] in
theorem stuck (h : Greedy g key done l) (b : α) : ¬Ready g (done ++ l) b := by
  induction l generalizing done with
  | nil =>
    rw [append_nil]
    exact h b
  | cons a l ih =>
    have := ih h.2.2
    rwa [List.append_assoc] at this

omit [DecidableEq α] in
theorem nodup_append (hd : done.Nodup) (h : Greedy g key done l) : (done ++ l).Nodup := by
  induction l generalizing done with
  | nil => simpa using hd
  | cons a l ih =>
    have hda : (done ++ [a]).Nodup := by
      refine List.nodup_append.mpr ⟨hd, nodup_singleton a, fun x hx y hy hxy => ?_⟩
      exact h.1.notDone (mem_singleton.mp hy ▸ hxy ▸ hx)
    have := ih hda h.2.2
    rwa [List.append_assoc] at this

variable (h : Greedy g key [] l)
include h

omit [DecidableEq α] in
theorem nodup : l.Nodup := h.nodup_append nodup_nil

omit [DecidableEq α] in
theorem ready_of_eq {pre post : List α} (hl : l = pre ++ a :: post) :
    Ready g pre a ∧ ∀ b, Ready g pre b → key a ≤ key b := by
  subst hl
  exact h.split

omit [DecidableEq α] in
theorem mem_nodes (ha : a ∈ l) : a ∈ g.nodes := by
  obtain ⟨pre, post, hl⟩ := append_of_mem ha
  exact (h.ready_of_eq hl).1.node

/-- **A dependency goes out first.** -/
theorem dep_before (hb : b ∈ l) (ha : a ∈ g.deps b) : l.idxOf a < l.idxOf b := by
  obtain ⟨pre, post, hl⟩ := append_of_mem hb
  have hnd := h.nodup
  have := (h.ready_of_eq hl).1.deps a ha
  rw [hl] at hnd ⊢
  exact (mem_prefix_iff hnd).mp this

theorem mem_of_needsOrIs (hn : g.NeedsOrIs b a) (hb : b ∈ l) : a ∈ l := by
  induction hn with
  | refl => exact hb
  | tail _ hd ih =>
    have hlt := h.dep_before ih hd
    exact idxOf_lt_length_iff.mp (hlt.trans (idxOf_lt_length_of_mem ih))

theorem needs_before (hn : g.Needs b a) (hb : b ∈ l) : l.idxOf a < l.idxOf b := by
  induction hn with
  | single hd => exact h.dep_before hb hd
  | tail hn hd ih => exact (h.dep_before (h.mem_of_needsOrIs hn.to_reflTransGen hb) hd).trans ih

omit [DecidableEq α] in
theorem mem_of_length (hlen : g.nodes.length ≤ l.length) (hb : b ∈ g.nodes) : b ∈ l :=
  have hsub : l.Subperm g.nodes := subperm_of_subset h.nodup (fun _ => h.mem_nodes)
  (hsub.perm_of_length_le hlen).mem_iff.mpr hb

theorem acyclic (hall : ∀ b ∈ g.nodes, b ∈ l) : g.Acyclic :=
  fun a ha hn => Nat.lt_irrefl _ (h.needs_before hn (hall a ha))

end Greedy

theorem exists_ready {g : Graph α} (hc : g.Closed) (ha : g.Acyclic) {done : List α} {b : α}
    (hb : b ∈ g.nodes) (hd : b ∉ done) : ∃ a, g.NeedsOrIs b a ∧ Ready g done a := by
  let r (x y : {a // a ∈ g.nodes}) : Prop := g.Needs y.1 x.1
  have : IsTrans _ r := ⟨fun _ _ _ hxy hyz => hyz.trans hxy⟩
  have : Std.Irrefl r := ⟨fun x => ha x.1 x.2⟩
  have : Finite {a // a ∈ g.nodes} := inferInstance
  have hwf : WellFounded r := Finite.wellFounded_of_trans_of_irrefl r
  suffices H : ∀ x : {a // a ∈ g.nodes}, x.1 ∉ done → ∃ a, g.NeedsOrIs x.1 a ∧ Ready g done a from
    H ⟨b, hb⟩ hd
  intro x
  induction x using hwf.induction with
  | _ x ih =>
    intro hx
    by_cases hdeps : ∀ a ∈ g.deps x.1, a ∈ done
    · exact ⟨x.1, .refl, x.2, hx, hdeps⟩
    · push Not at hdeps
      obtain ⟨y, hy, hyd⟩ := hdeps
      obtain ⟨a, hya, har⟩ := ih ⟨y, hc _ x.2 _ hy⟩ (.single hy) hyd
      exact ⟨a, .head hy hya, har⟩

/-- **Without a cycle, every node goes out.** -/
theorem Greedy.complete {g : Graph α} {key : α → κ} {l : List α} (h : Greedy g key [] l)
    (hc : g.Closed) (ha : g.Acyclic) {b : α} (hb : b ∈ g.nodes) : b ∈ l := by
  by_contra hbl
  obtain ⟨a, -, har⟩ := exists_ready hc ha hb hbl
  exact h.stuck a har

theorem Greedy.length_eq {g : Graph α} {key : α → κ} {l : List α} (h : Greedy g key [] l)
    (hn : g.nodes.Nodup) (hc : g.Closed) (ha : g.Acyclic) : l.length = g.nodes.length :=
  have hsub : l.Subperm g.nodes := subperm_of_subset h.nodup (fun _ => h.mem_nodes)
  have hsup : g.nodes.Subperm l := subperm_of_subset hn (fun _ => h.complete hc ha)
  Nat.le_antisymm hsub.length_le hsup.length_le

/-! ### Which of two nodes goes out first -/

namespace Graph

/-- `y` is above the context: above its node, or anywhere when there is none. -/
def Past (g : Graph α) (c : Option α) (y : α) : Prop := ∀ k ∈ c, g.Needs y k

end Graph

/-- `k` has the greatest key among `x` and all it needs, as far as these are above the context. -/
structure Peak (g : Graph α) (key : α → κ) (c : Option α) (x k : α) : Prop where
  needs : g.NeedsOrIs x k
  past : g.Past c k
  max : ∀ y, g.NeedsOrIs x y → g.Past c y → key y ≤ key k

/-- `a` and `b` compared peak by peak, above the context. -/
inductive Sooner (g : Graph α) (key : α → κ) : Option α → α → α → Prop
  | lower {c : Option α} {a b j k : α} (ha : Peak g key c a j) (hb : Peak g key c b k)
      (h : key j < key k) : Sooner g key c a b
  | reached {c : Option α} {a b : α} (hb : Peak g key c b a) (hne : a ≠ b) : Sooner g key c a b
  | deeper {c : Option α} {a b k : α} (ha : Peak g key c a k) (hb : Peak g key c b k)
      (h : Sooner g key (some k) a b) : Sooner g key c a b

/-- Whatever `a` needs that is not held up by the context is out before it. -/
def Settled (g : Graph α) (l : List α) (c : Option α) (a : α) : Prop :=
  ∀ k ∈ c, ∀ z, g.NeedsOrIs a z → ¬g.NeedsOrIs z k → l.idxOf z < l.idxOf k

section Order

variable {g : Graph α} {key : α → κ} {l : List α} {c : Option α} {a b k : α}

theorem Settled.mono (h : Settled g l c a) (hb : g.NeedsOrIs a b) : Settled g l c b :=
  fun k hk z hz => h k hk z (hb.trans hz)

omit [DecidableEq α] in
theorem needs_of_ne (h : g.NeedsOrIs a b) (hne : a ≠ b) : g.Needs a b :=
  (reflTransGen_iff_eq_or_transGen.mp h).resolve_left (Ne.symm hne)

theorem exists_peak (hc : g.Closed) (ha : a ∈ g.nodes) (hp : g.Past c a) :
    ∃ k, Peak g key c a k := by
  have hfin : {y | g.NeedsOrIs a y ∧ g.Past c y}.Finite :=
    (g.nodes.toFinset.finite_toSet).subset
      (fun y hy => List.mem_toFinset.mpr (hc.needsOrIs hy.1 ha))
  obtain ⟨k, ⟨hk, hpk⟩, hmax⟩ := Set.exists_max_image _ key hfin ⟨a, .refl, hp⟩
  exact ⟨k, hk, hpk, fun y hy hpy => hmax y ⟨hy, hpy⟩⟩

variable (h : Greedy g key [] l) (hc : g.Closed) (hacyc : g.Acyclic)
include h hc hacyc

theorem Greedy.exists_past (hs : Settled g l c a) (ha : a ∈ g.nodes) (hk : k ∈ g.nodes)
    (hpk : g.Past c k) (hlate : ¬l.idxOf a < l.idxOf k) :
    ∃ w, g.NeedsOrIs a w ∧ g.Past c w ∧ key k ≤ key w := by
  obtain ⟨pre, post, hl⟩ := append_of_mem (h.complete hc hacyc hk)
  have hpre : ∀ x, x ∈ pre ↔ l.idxOf x < l.idxOf k := fun x => by
    have hnd := h.nodup
    rw [hl] at hnd ⊢
    exact mem_prefix_iff hnd
  obtain ⟨w, haw, hw⟩ := exists_ready hc hacyc ha (mt (hpre a).mp hlate)
  refine ⟨w, haw, fun j hj => ?_, (h.ready_of_eq hl).2 w hw⟩
  have hjk : l.idxOf j < l.idxOf k := h.needs_before (hpk j hj) (h.complete hc hacyc hk)
  by_cases hwj : g.NeedsOrIs w j
  · refine needs_of_ne hwj (fun hwj => hw.notDone ((hpre w).mpr ?_))
    rwa [hwj]
  · exact absurd ((hpre w).mpr ((hs j hj w haw hwj).trans hjk)) hw.notDone

theorem Settled.step (hkey : Set.InjOn key {x | x ∈ g.nodes}) (hs : Settled g l c a)
    (ha : a ∈ g.nodes) (hp : Peak g key c a k) : Settled g l (some k) a := by
  intro k' hk' z hz hzk
  obtain rfl : k = k' := Option.some.inj hk'
  have hzn := hc.needsOrIs hz ha
  have hkn := hc.needsOrIs hp.needs ha
  by_contra hlate
  obtain ⟨w, hzw, hpw, hle⟩ := h.exists_past hc hacyc (hs.mono hz) hzn hkn hp.past hlate
  have heq : key w = key k := le_antisymm (hp.max w (hz.trans hzw) hpw) hle
  exact hzk (hkey (hc.needsOrIs hzw hzn) hkn heq ▸ hzw)

theorem Sooner.before (hkey : Set.InjOn key {x | x ∈ g.nodes}) (hab : Sooner g key c a b)
    (ha : a ∈ g.nodes) (hb : b ∈ g.nodes) (hsa : Settled g l c a) (hsb : Settled g l c b) :
    l.idxOf a < l.idxOf b := by
  induction hab with
  | @lower c a b j k hpa hpb hlt =>
    have hak : l.idxOf a < l.idxOf k := by
      by_contra hlate
      obtain ⟨w, haw, hpw, hle⟩ :=
        h.exists_past hc hacyc hsa ha (hc.needsOrIs hpb.needs hb) hpb.past hlate
      exact absurd (hpa.max w haw hpw) (not_le.mpr (hlt.trans_le hle))
    rcases reflTransGen_iff_eq_or_transGen.mp hpb.needs with rfl | hbk
    · exact hak
    · exact hak.trans (h.needs_before hbk (h.complete hc hacyc hb))
  | reached hpb hne =>
    exact h.needs_before (needs_of_ne hpb.needs (Ne.symm hne)) (h.complete hc hacyc hb)
  | deeper hpa hpb _ ih =>
    exact ih ha hb (hsa.step h hc hacyc hkey ha hpa) (hsb.step h hc hacyc hkey hb hpb)

/-- Two nodes above a context can be compared there.  `n` bounds how many nodes are above it. -/
theorem Greedy.sooner_total (hkey : Set.InjOn key {x | x ∈ g.nodes}) {n : Nat}
    (hn : ∀ y ∈ g.nodes, g.Past c y → l.length ≤ l.idxOf y + n) (hne : a ≠ b) (ha : a ∈ g.nodes)
    (hb : b ∈ g.nodes) (hpa : g.Past c a) (hpb : g.Past c b) :
    Sooner g key c a b ∨ Sooner g key c b a := by
  induction n generalizing c with
  | zero =>
    have := idxOf_lt_length_of_mem (h.complete hc hacyc ha)
    have := hn a ha hpa
    omega
  | succ n ih =>
    obtain ⟨j, hj⟩ : ∃ j, Peak g key c a j := exists_peak hc ha hpa
    obtain ⟨k, hk⟩ : ∃ k, Peak g key c b k := exists_peak hc hb hpb
    have hjn := hc.needsOrIs hj.needs ha
    have hkn := hc.needsOrIs hk.needs hb
    rcases lt_trichotomy (key j) (key k) with hlt | heq | hlt
    · exact Or.inl (.lower hj hk hlt)
    · obtain rfl : j = k := hkey hjn hkn heq
      by_cases haj : a = j
      · subst haj
        exact Or.inl (.reached hk hne)
      · by_cases hbj : b = j
        · subst hbj
          exact Or.inr (.reached hj (Ne.symm hne))
        · have hn' : ∀ y ∈ g.nodes, g.Past (some j) y → l.length ≤ l.idxOf y + n := by
            intro y hy hpy
            have hyj : g.Needs y j := hpy j rfl
            have hlt := h.needs_before hyj (h.complete hc hacyc hy)
            have := hn j hjn hj.past
            omega
          have past (x : α) (hx : g.NeedsOrIs x j) (hxj : x ≠ j) : g.Past (some j) x :=
            fun i hi => Option.some.inj hi ▸ needs_of_ne hx hxj
          rcases ih hn' (past a hj.needs haj) (past b hk.needs hbj) with hs | hs
          · exact Or.inl (.deeper hj hk hs)
          · exact Or.inr (.deeper hk hj hs)
    · exact Or.inr (.lower hk hj hlt)

/-- **The emission order, read off the graph.** -/
theorem Greedy.before_iff (hkey : Set.InjOn key {x | x ∈ g.nodes}) (hne : a ≠ b)
    (ha : a ∈ g.nodes) (hb : b ∈ g.nodes) :
    l.idxOf a < l.idxOf b ↔ Sooner g key none a b := by
  have settled (x : α) : Settled g l none x := fun _ hk => absurd hk (by simp)
  have past (x : α) : g.Past none x := fun _ hk => absurd hk (by simp)
  constructor
  · intro hlt
    rcases h.sooner_total (n := l.length) hc hacyc hkey (fun y _ _ => Nat.le_add_left _ _) hne ha hb
      (past a) (past b) with hs | hs
    · exact hs
    · have := hs.before h hc hacyc hkey hb ha (settled b) (settled a)
      omega
  · intro hs
    exact hs.before h hc hacyc hkey ha hb (settled a) (settled b)

end Order

end Kahn
