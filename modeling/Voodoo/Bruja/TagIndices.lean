import Voodoo.Bruja.Interfaces

/-!
# Tag indices

The V8 generator numbers the forest of the interfaces in preorder: an interface gets its
`local_index`, and `[subtree_min, subtree_max]` is to cover it and all that derives from it.

* `assignTagIndicesRec_eq`: one call writes the `number`s of the tree under its interface;
* `computeTagIndices_eq`: the walk ends, and its result is the `number`s of the whole forest;
* `exists_idxOf`, `idxOf_add_below_lt`: the local indices are those below the number of the interfaces, each once;
* `range_iff`: the ranges are exact.
-/

namespace Voodoo.Bruja

open Relation Forest List Option

variable {μ : Type}

/-- `TagIndex`. -/
structure TagIndex where
  localIndex : Nat
  subtreeMin : Nat
  subtreeMax : Nat

/-- What `AssignTagIndicesRec` has behind its pointers. -/
structure Numbering where
  nextIndex : Nat := 0
  out : String → Option TagIndex := fun _ => none

/-- The body of the loop over the children, where `r` is `max_index` with what is behind the
pointers. -/
def visitChild (ctx : GenContext μ) (call : Interface μ → Numbering → Option (Nat × Numbering))
    (r : Nat × Numbering) (childName : String) : Option (Nat × Numbering) := do
  let child ← ctx.interfacesByName childName
  let (childMax, s) ← call child r.2
  return (max r.1 childMax, s)

/-- `AssignTagIndicesRec`, with a bound on how deep it calls itself. -/
def assignTagIndicesRec (ctx : GenContext μ) :
    Nat → Interface μ → Numbering → Option (Nat × Numbering)
  | 0, _, _ => none
  | fuel + 1, iface, s => do
    let selfIndex := s.nextIndex
    let (maxIndex, s) ← (ctx.children iface.name).foldlM
      (visitChild ctx (assignTagIndicesRec ctx fuel))
      (selfIndex, { s with nextIndex := selfIndex + 1 })
    return (maxIndex, { s with
      out := Function.update s.out iface.name (some ⟨selfIndex, selfIndex, maxIndex⟩) })

/-- The body of the loop over the interfaces. -/
def visitRoot (call : Interface μ → Numbering → Option (Nat × Numbering)) (s : Numbering)
    (iface : Interface μ) : Option Numbering :=
  if iface.baseName = "" then (call iface s).map Prod.snd else some s

/-- `ComputeTagIndices`. -/
def computeTagIndices (ctx : GenContext μ) (fuel : Nat) : Option (String → Option TagIndex) := do
  let s ← ctx.module.interfaces.foldlM (visitRoot (assignTagIndicesRec ctx fuel)) {}
  return s.out

/-! ### Numbering a walk -/

section Numbers

variable (below : String → Nat)

/-- `out` with the numbers of the nodes of `walk` from `next` on, where `below` counts what is
below a node. -/
def number (next : Nat) (walk : List String) (out : String → Option TagIndex) :
    String → Option TagIndex := fun x =>
  if x ∈ walk then
    some ⟨next + walk.idxOf x, next + walk.idxOf x, next + walk.idxOf x + below x⟩
  else out x

variable {below}

theorem number_nil (next : Nat) (out : String → Option TagIndex) : number below next [] out = out := by
  funext x
  rw [number, if_neg not_mem_nil]

theorem number_append {walk rest : List String} (hdisjoint : List.Disjoint walk rest) (next : Nat)
    (out : String → Option TagIndex) :
    number below (next + walk.length) rest (number below next walk out) =
      number below next (walk ++ rest) out := by
  funext x
  by_cases hrest : x ∈ rest
  · have hwalk : x ∉ walk := fun h => hdisjoint h hrest
    rw [number, if_pos hrest, number, if_pos (mem_append_right _ hrest),
      idxOf_append_of_notMem hwalk, Nat.add_assoc]
  · rw [number, if_neg hrest]
    by_cases hwalk : x ∈ walk
    · rw [number, if_pos hwalk, number, if_pos (mem_append_left _ hwalk),
        idxOf_append_of_mem hwalk]
    · have hnone : x ∉ walk ++ rest := fun h => (mem_append.mp h).elim hwalk hrest
      rw [number, if_neg hwalk, number, if_neg hnone]

theorem number_cons {a : String} {walk : List String} (ha : a ∉ walk)
    (hbelow : below a = walk.length) (next : Nat) (out : String → Option TagIndex) :
    Function.update (number below (next + 1) walk out) a (some ⟨next, next, next + walk.length⟩) =
      number below next (a :: walk) out := by
  funext x
  by_cases hx : x = a
  · subst hx
    rw [Function.update_self, number, if_pos mem_cons_self, idxOf_cons_self, Nat.add_zero, hbelow]
  · rw [Function.update_of_ne hx]
    by_cases hwalk : x ∈ walk
    · rw [number, if_pos hwalk, number, if_pos (mem_cons_of_mem _ hwalk),
        idxOf_cons_ne _ (Ne.symm hx), Nat.succ_eq_add_one, Nat.add_right_comm, Nat.add_assoc next]
    · have hnone : x ∉ a :: walk := fun h => (mem_cons.mp h).elim hx hwalk
      rw [number, if_neg hwalk, number, if_neg hnone]

end Numbers

/-! ### The walk of the generator -/

/-- The names of the interfaces without a base. -/
def rootNames (interfaces : List (Interface μ)) : List String :=
  (interfaces.filter fun i => i.baseName = "").map Interface.name

theorem rootNames_cons (i : Interface μ) (rest : List (Interface μ)) :
    rootNames (i :: rest) =
      if i.baseName = "" then i.name :: rootNames rest else rootNames rest := by
  by_cases hroot : i.baseName = ""
  · rw [if_pos hroot, rootNames, filter_cons, if_pos (decide_eq_true hroot)]
    rfl
  · rw [if_neg hroot, rootNames, filter_cons, if_neg (by rwa [decide_eq_true_eq])]
    rfl

theorem exists_enough {α : Type*} {P : α → Nat → Prop} {l : List α}
    (h : ∀ a ∈ l, ∃ enough, ∀ fuel, enough ≤ fuel → P a fuel) :
    ∃ enough, ∀ fuel, enough ≤ fuel → ∀ a ∈ l, P a fuel := by
  induction l with
  | nil => exact ⟨0, fun _ _ _ ha => (not_mem_nil ha).elim⟩
  | cons a rest ih =>
    obtain ⟨n, hn⟩ := h a mem_cons_self
    obtain ⟨k, hk⟩ := ih fun b hb => h b (mem_cons_of_mem _ hb)
    refine ⟨max n k, fun fuel hfuel b hb => ?_⟩
    rcases mem_cons.mp hb with rfl | hb
    · exact hn fuel ((Nat.le_max_left n k).trans hfuel)
    · exact hk fuel ((Nat.le_max_right n k).trans hfuel) b hb

section Walk

variable {m : Module μ} (hnames : m.names.Nodup)
  (wf : WellFounded fun b a => IsChild (buildContext m).children a b)

/-- The number of the interfaces that derive from one. -/
noncomputable def below (x : String) : Nat :=
  (((buildContext m).children x).flatMap (preorder wf)).length

theorem length_preorder (x : String) : (preorder wf x).length = below wf x + 1 := by
  rw [preorder_eq, length_cons, below]

/-- What a call for the interface `x` is to return and to leave behind. -/
noncomputable def numberTree (x : String) (s : Numbering) : Nat × Numbering :=
  (s.nextIndex + below wf x,
    { nextIndex := s.nextIndex + (preorder wf x).length
      out := number (below wf) s.nextIndex (preorder wf x) s.out })

theorem foldlM_visitChild {call : Interface μ → Numbering → Option (Nat × Numbering)}
    {l : List String} {self : Nat} {s : Numbering} (hself : s.nextIndex = self + 1)
    (hcalls : ∀ c ∈ l, ∃ child, byName m.interfaces c = some child ∧
      ∀ s, call child s = some (numberTree wf c s))
    (hdisjoint : l.Pairwise fun b c => List.Disjoint (preorder wf b) (preorder wf c)) :
    l.foldlM (visitChild (buildContext m) call) (self, s) =
      some (self + (l.flatMap (preorder wf)).length,
        { nextIndex := s.nextIndex + (l.flatMap (preorder wf)).length
          out := number (below wf) s.nextIndex (l.flatMap (preorder wf)) s.out }) := by
  induction l generalizing self s with
  | nil => simp only [foldlM_nil, flatMap_nil, length_nil, Nat.add_zero, number_nil,
      Option.pure_def]
  | cons c rest ih =>
    obtain ⟨child, hchild, hcall⟩ := hcalls c mem_cons_self
    obtain ⟨hc, hrest⟩ := pairwise_cons.mp hdisjoint
    have hmax : max self (s.nextIndex + below wf c) = self + (preorder wf c).length := by
      rw [length_preorder]
      omega
    have hvisit : visitChild (buildContext m) call (self, s) c =
        some (self + (preorder wf c).length, (numberTree wf c s).2) := by
      rw [visitChild, show (buildContext m).interfacesByName c = some child from hchild,
        bind_eq_bind, bind_some, hcall, bind_eq_bind, bind_some, ← hmax]
      rfl
    have hfirst : List.Disjoint (preorder wf c) (rest.flatMap (preorder wf)) := by
      intro x hx hxrest
      obtain ⟨d, hd, hxd⟩ := mem_flatMap.mp hxrest
      exact hc d hd hx hxd
    have hnext : (numberTree wf c s).2.nextIndex = self + (preorder wf c).length + 1 := by
      show s.nextIndex + (preorder wf c).length = self + (preorder wf c).length + 1
      omega
    rw [foldlM_cons, hvisit, bind_eq_bind, bind_some,
      ih hnext (fun d hd => hcalls d (mem_cons_of_mem _ hd)) hrest, flatMap_cons,
      length_append, ← number_append hfirst, Nat.add_assoc, ← Nat.add_assoc s.nextIndex]
    rfl

include hnames

/-- **One call of the walk**: it returns, and writes the numbers of the tree under its
interface. -/
theorem assignTagIndicesRec_eq (a : String) :
    ∃ enough, ∀ fuel, enough ≤ fuel → ∀ iface ∈ m.interfaces, iface.name = a → ∀ s,
      assignTagIndicesRec (buildContext m) fuel iface s = some (numberTree wf a s) := by
  have hparent := base_unique hnames
  induction a using wf.induction with
  | _ a ih =>
    obtain ⟨enough, henough⟩ := exists_enough (l := (buildContext m).children a)
      fun c hc => ih c hc
    refine ⟨enough + 1, fun fuel hfuel iface hiface hname s => ?_⟩
    obtain ⟨fuel, rfl⟩ : ∃ k, fuel = k + 1 := ⟨fuel - 1, by omega⟩
    subst hname
    have hcalls : ∀ c ∈ (buildContext m).children iface.name, ∃ child,
        byName m.interfaces c = some child ∧
        ∀ s, assignTagIndicesRec (buildContext m) fuel child s = some (numberTree wf c s) := by
      intro c hc
      obtain ⟨child, hchild, rfl, -⟩ := isChild_iff.mp hc
      exact ⟨child, byName_of_mem hnames hchild,
        henough fuel (Nat.le_of_succ_le_succ hfuel) _ hc child hchild rfl⟩
    have hdisjoint : ((buildContext m).children iface.name).Pairwise
        fun b c => List.Disjoint (preorder wf b) (preorder wf c) := by
      refine (nodup_children hnames iface.name).imp_of_mem fun hb hc hne => ?_
      exact disjoint_siblings wf hparent hb hc hne
    have hself : iface.name ∉ ((buildContext m).children iface.name).flatMap (preorder wf) := by
      have hnodup := nodup_preorder wf hparent (nodup_children hnames) iface.name
      rw [preorder_eq] at hnodup
      exact (nodup_cons.mp hnodup).1
    rw [assignTagIndicesRec, foldlM_visitChild wf rfl hcalls hdisjoint, bind_eq_bind,
      bind_some]
    show some (_, Numbering.mk _ (Function.update _ _ _)) = _
    rw [number_cons hself rfl, numberTree, preorder_eq wf iface.name, length_cons,
      Nat.add_assoc, Nat.add_comm 1]
    rfl

/-! ### The forest -/

omit hnames in
theorem foldlM_visitRoot {call : Interface μ → Numbering → Option (Nat × Numbering)}
    {l : List (Interface μ)} {s : Numbering}
    (hcalls : ∀ i ∈ l, ∀ s, call i s = some (numberTree wf i.name s))
    (hdisjoint : (rootNames l).Pairwise
      fun b c => List.Disjoint (preorder wf b) (preorder wf c)) :
    l.foldlM (visitRoot call) s =
      some { nextIndex := s.nextIndex + ((rootNames l).flatMap (preorder wf)).length
             out := number (below wf) s.nextIndex ((rootNames l).flatMap (preorder wf)) s.out } := by
  induction l generalizing s with
  | nil =>
    show some s = some { nextIndex := s.nextIndex, out := number (below wf) s.nextIndex [] s.out }
    rw [number_nil]
  | cons i rest ih =>
    have hrest : ∀ i ∈ rest, ∀ s, call i s = some (numberTree wf i.name s) :=
      fun j hj => hcalls j (mem_cons_of_mem _ hj)
    rw [foldlM_cons, visitRoot]
    by_cases hroot : i.baseName = ""
    · rw [rootNames_cons, if_pos hroot] at hdisjoint ⊢
      obtain ⟨hi, hdisjoint⟩ := pairwise_cons.mp hdisjoint
      have hfirst : List.Disjoint (preorder wf i.name)
          ((rootNames rest).flatMap (preorder wf)) := by
        intro x hx hxrest
        obtain ⟨d, hd, hxd⟩ := mem_flatMap.mp hxrest
        exact hi d hd hx hxd
      rw [if_pos hroot, hcalls i mem_cons_self, map_some, bind_eq_bind,
        bind_some, ih hrest hdisjoint, flatMap_cons, length_append,
        ← number_append hfirst, ← Nat.add_assoc]
      rfl
    · rw [rootNames_cons, if_neg hroot] at hdisjoint ⊢
      rw [if_neg hroot, bind_eq_bind, bind_some, ih hrest hdisjoint]

theorem not_isChild_root {r : String} (hr : r ∈ rootNames m.interfaces) (a : String) :
    ¬ IsChild (buildContext m).children a r := by
  intro h
  obtain ⟨i, hi, hiname, hbase, hne⟩ := isChild_iff.mp h
  obtain ⟨j, hj, hjname⟩ := List.mem_map.mp hr
  obtain ⟨hj, hroot⟩ := mem_filter.mp hj
  obtain rfl := inj_on_of_nodup_map hnames hi hj (hiname.trans hjname.symm)
  exact hne (hbase.symm.trans (of_decide_eq_true hroot))

theorem nodup_roots : (rootNames m.interfaces).Nodup := hnames.sublist (filter_sublist.map _)

/-- The walk of the whole forest. -/
noncomputable def forest : List String := (rootNames m.interfaces).flatMap (preorder wf)

theorem nodup_forest : (forest wf).Nodup :=
  nodup_flatMap_preorder wf (base_unique hnames) (nodup_children hnames) (nodup_roots hnames)
    fun _ hr => not_isChild_root hnames hr

omit hnames in
theorem mem_forest (hchained : m.Chained) {x : String} : x ∈ forest wf ↔ x ∈ m.names := by
  rw [forest, mem_flatMap]
  constructor
  · rintro ⟨r, hr, hx⟩
    rcases ReflTransGen.cases_tail ((mem_preorder wf).mp hx) with rfl | ⟨a, -, ha⟩
    · obtain ⟨i, hi, rfl⟩ := List.mem_map.mp hr
      exact List.mem_map_of_mem (mem_of_mem_filter hi)
    · exact mem_names_of_isBase (isChild_iff.mp ha)
  · have hrooted : ∀ i d, Rooted (byName m.interfaces) i d → i ∈ m.interfaces →
        ∃ r ∈ rootNames m.interfaces, i.name ∈ preorder wf r := by
      intro i d hd
      induction hd with
      | @root i hbase =>
        intro hi
        refine ⟨i.name, List.mem_map_of_mem ?_, self_mem_preorder wf _⟩
        exact mem_filter.mpr ⟨hi, decide_eq_true hbase⟩
      | @step i j d hne hj _ ih =>
        intro hi
        obtain ⟨hjmem, hjname⟩ := mem_of_byName hj
        obtain ⟨r, hr, hx⟩ := ih hjmem
        have hchild : IsChild (buildContext m).children j.name i.name :=
          isChild_iff.mpr ⟨i, hi, rfl, hjname.symm, by rwa [hjname]⟩
        exact ⟨r, hr, (mem_preorder wf).mpr (((mem_preorder wf).mp hx).tail hchild)⟩
    intro hx
    obtain ⟨i, hi, rfl⟩ := List.mem_map.mp hx
    obtain ⟨d, -, hd⟩ := hchained i hi
    exact hrooted i d hd hi

theorem length_forest (hchained : m.Chained) : (forest wf).length = m.interfaces.length := by
  have hperm : (forest wf).Perm m.names :=
    (perm_ext_iff_of_nodup (nodup_forest hnames wf) hnames).mpr
      fun _ => mem_forest wf hchained
  rw [hperm.length_eq, Module.names, length_map]

/-- **The walk ends, with the numbers of the forest.** -/
theorem computeTagIndices_eq : ∃ enough, ∀ fuel, enough ≤ fuel →
    computeTagIndices (buildContext m) fuel =
      some (number (below wf) 0 (forest wf) fun _ => none) := by
  obtain ⟨enough, henough⟩ := exists_enough (l := m.names)
    fun a _ => assignTagIndicesRec_eq hnames wf a
  refine ⟨enough, fun fuel hfuel => ?_⟩
  have hcalls : ∀ i ∈ m.interfaces, ∀ s,
      assignTagIndicesRec (buildContext m) fuel i s = some (numberTree wf i.name s) :=
    fun i hi => henough fuel hfuel i.name (List.mem_map_of_mem hi) i hi rfl
  have hdisjoint : (rootNames m.interfaces).Pairwise
      fun b c => List.Disjoint (preorder wf b) (preorder wf c) :=
    (nodup_flatMap.mp (nodup_forest hnames wf)).2
  rw [computeTagIndices, show (buildContext m).module = m from rfl,
    foldlM_visitRoot wf hcalls hdisjoint, bind_eq_bind, bind_some]
  rfl

/-! ### Exactness -/

omit hnames in
theorem number_forest (hchained : m.Chained) {x : String} (hx : x ∈ m.names) :
    number (below wf) 0 (forest wf) (fun _ => none) x =
      some ⟨(forest wf).idxOf x, (forest wf).idxOf x, (forest wf).idxOf x + below wf x⟩ := by
  rw [number, if_pos ((mem_forest wf hchained).mpr hx), Nat.zero_add]

theorem idxOf_lt (hchained : m.Chained) {x : String} (hx : x ∈ m.names) :
    (forest wf).idxOf x < m.interfaces.length := by
  rw [← length_forest hnames wf hchained]
  exact idxOf_lt_length_of_mem ((mem_forest wf hchained).mpr hx)

theorem exists_idxOf (hchained : m.Chained) {k : Nat} (hk : k < m.interfaces.length) :
    ∃ x ∈ m.names, (forest wf).idxOf x = k := by
  rw [← length_forest hnames wf hchained] at hk
  exact ⟨(forest wf)[k], (mem_forest wf hchained).mp (getElem_mem hk),
    (nodup_forest hnames wf).idxOf_getElem k hk⟩

omit hnames in
theorem isChild_eq : IsChild (buildContext m).children = m.IsBase :=
  funext fun _ => funext fun _ => propext isChild_iff

omit hnames in
theorem tree_segment (hchained : m.Chained) {a : String} (ha : a ∈ m.names) :
    a :: ((buildContext m).children a).flatMap (preorder wf) <:+: forest wf := by
  obtain ⟨r, hr, har⟩ := mem_flatMap.mp ((mem_forest wf hchained).mpr ha)
  rw [← preorder_eq]
  exact (preorder_segment wf ((mem_preorder wf).mp har)).trans
    (infix_flatMap_of_mem hr (preorder wf))

theorem idxOf_add_below_lt (hchained : m.Chained) {a : String} (ha : a ∈ m.names) :
    (forest wf).idxOf a + below wf a < m.interfaces.length := by
  rw [← length_forest hnames wf hchained]
  exact idxOf_add_segment_lt (nodup_forest hnames wf) (tree_segment wf hchained ha)

/-- **An index is in the range of an interface exactly when it is the index of one that derives
from it.** -/
theorem range_iff (hchained : m.Chained) {a b : String} (ha : a ∈ m.names) (hb : b ∈ m.names) :
    (forest wf).idxOf a ≤ (forest wf).idxOf b ∧
        (forest wf).idxOf b ≤ (forest wf).idxOf a + below wf a ↔
      ReflTransGen m.IsBase a b := by
  rw [← isChild_eq, ← mem_preorder wf, preorder_eq]
  exact (mem_segment_iff (nodup_forest hnames wf) (tree_segment wf hchained ha)
    ((mem_forest wf hchained).mpr hb)).symm

end Walk

end Voodoo.Bruja
