import Voodoo.Wire.Encode

/-!
# Older versions of a set of files

A `Profile` says what an older version of some files leaves out: for each file a
version above which its struct fields are missing, and variants of
`[Extensible]` unions.  `Profile.graph` builds the older files.  Everything the
generator looks up in them is what it looks up in the newer ones, cut down in the
same way (`resolveStruct_graph`, `resolveUnion_graph`, `acceptsEnum_graph`), and
cutting down a struct commutes with putting its fields into wire order because
that order is stable.
-/

namespace Voodoo

open StableOrder List

structure Profile where
  /-- The last version whose fields the file has; `none` for all of them. -/
  cut : Module → Option Nat
  /-- The tags an extensible union of the file goes without. -/
  drops : Module → UnionDecl → BitVec 32 → Bool

namespace Profile

variable (p : Profile)

/-- Nothing left out. -/
def full : Profile := ⟨fun _ => none, fun _ _ _ => false⟩

/-- Every field of a version above `k` left out, and the variants `drops` names. -/
def upTo (k : Nat) (drops : Module → UnionDecl → BitVec 32 → Bool) : Profile :=
  ⟨fun _ => some k, drops⟩

def keepsField (m : Module) (f : StructField) : Bool :=
  match p.cut m with
  | none => true
  | some k => decide (f.minVersion.toNat ≤ k)

def keepsVariant (m : Module) (u : UnionDecl) (f : UnionField) : Bool :=
  !(u.isExtensible && p.drops m u f.tag)

def struct (m : Module) (s : StructDecl) : StructDecl :=
  { s with fields := s.fields.filter (p.keepsField m) }

def union (m : Module) (u : UnionDecl) : UnionDecl :=
  { u with fields := u.fields.filter (p.keepsVariant m u) }

def interface (m : Module) (i : Interface) : Interface :=
  { i with structs := i.structs.map (p.struct m), unions := i.unions.map (p.union m) }

def module (m : Module) : Module :=
  { m with
    structs := m.structs.map (p.struct m)
    unions := m.unions.map (p.union m)
    interfaces := m.interfaces.map (p.interface m) }

def graph (graph : List Module) : List Module := graph.map p.module

@[simp] theorem module_name (m : Module) : (p.module m).name = m.name := rfl

@[simp] theorem struct_fields (m : Module) (s : StructDecl) :
    (p.struct m s).fields = s.fields.filter (p.keepsField m) := rfl

@[simp] theorem struct_cppEmbedName (m : Module) (s : StructDecl) :
    (p.struct m s).cppEmbedName = s.cppEmbedName := rfl

@[simp] theorem union_cppEmbedName (m : Module) (u : UnionDecl) :
    (p.union m u).cppEmbedName = u.cppEmbedName := rfl

@[simp] theorem union_isExtensible (m : Module) (u : UnionDecl) :
    (p.union m u).isExtensible = u.isExtensible := rfl

@[simp] theorem full_struct (m : Module) (s : StructDecl) : full.struct m s = s := by
  have hkeep : ∀ f ∈ s.fields, full.keepsField m f = true := fun _ _ => rfl
  rw [struct, filter_eq_self.mpr hkeep]

@[simp] theorem full_union (m : Module) (u : UnionDecl) : full.union m u = u := by
  have hkeep : ∀ f ∈ u.fields, full.keepsVariant m u f = true := by
    intro f _
    simp [keepsVariant, full]
  rw [union, filter_eq_self.mpr hkeep]

@[simp] theorem full_module (m : Module) : full.module m = m := by
  have hs : full.struct m = id := funext (full_struct m)
  have hu : full.union m = id := funext (full_union m)
  have hi : full.interface m = id := by
    funext i
    simp [interface, hs, hu]
  simp [module, hs, hu, hi]

@[simp] theorem full_graph (graph : List Module) : full.graph graph = graph := by
  rw [Profile.graph, funext full_module]
  exact List.map_id' graph

/-! ### Fields and variants -/

theorem keepsField_mono {m : Module} {f g : StructField}
    (h : f.minVersion.toNat ≤ g.minVersion.toNat) (hg : p.keepsField m g = true) :
    p.keepsField m f = true := by
  unfold keepsField at hg ⊢
  split
  · rfl
  · rename_i k hk
    rw [hk] at hg
    exact decide_eq_true (h.trans (of_decide_eq_true hg))

theorem caseFor_union (m : Module) (u : UnionDecl) (tag : BitVec 32) :
    (p.union m u).caseFor tag =
      if u.isExtensible && p.drops m u tag then none else u.caseFor tag := by
  have hiff : ∀ f : UnionField, (f.tag == tag) = true → p.keepsVariant m u f =
      !(u.isExtensible && p.drops m u tag) := by
    intro f hf
    rw [keepsVariant, beq_iff_eq.mp hf]
  unfold UnionDecl.caseFor union
  simp only [find?_filter]
  split
  · rename_i hdrop
    rw [find?_eq_none]
    intro f _ hf
    rw [decide_eq_true_eq] at hf
    rw [hiff f hf.2, hdrop] at hf
    exact Bool.noConfusion hf.1
  · rename_i hkeep
    congr 1
    funext f
    cases hf : f.tag == tag with
    | false => simp
    | true => simp [hiff f hf, hkeep]

theorem caseFor_of_union {m : Module} {u : UnionDecl} {tag : BitVec 32} {f : UnionField}
    (h : (p.union m u).caseFor tag = some f) : u.caseFor tag = some f := by
  rw [caseFor_union] at h
  split at h
  · cases h
  · exact h

theorem isExtensible_of_caseFor_none {m : Module} {u : UnionDecl} {tag : BitVec 32}
    {f : UnionField} (h : (p.union m u).caseFor tag = none) (hf : u.caseFor tag = some f) :
    u.isExtensible = true := by
  rw [caseFor_union, hf] at h
  split at h
  · rename_i hdrop
    exact (Bool.and_eq_true_iff.mp hdrop).1
  · cases h

/-! ### What a reference reaches -/

theorem allStructs_module (m : Module) :
    (p.module m).allStructs = m.allStructs.map (p.struct m) := by
  simp [Module.allStructs, module, interface, flatMap_map, map_flatMap]

theorem allUnions_module (m : Module) :
    (p.module m).allUnions = m.allUnions.map (p.union m) := by
  simp [Module.allUnions, module, interface, flatMap_map, map_flatMap]

theorem namedEnums_module (m : Module) : (p.module m).namedEnums = m.namedEnums := by
  rw [Module.namedEnums, Module.namedEnums, allStructs_module, flatMap_map]
  simp only [module, flatMap_map]
  rfl

theorem scope_graph (graph : List Module) (m : Module) (ns : String) :
    scope (p.graph graph) (p.module m) ns = (scope graph m ns).map p.module := by
  unfold scope Profile.graph
  split
  · rw [List.filter_map, map_cons]
    rfl
  · rw [List.filter_map]
    rfl

theorem resolveStruct_graph (graph : List Module) (file : Module) (r : TypeRef) :
    resolveStruct (p.graph graph) (p.module file) r =
      (resolveStruct graph file r).map (fun d => (p.module d.1, p.struct d.1 d.2)) := by
  unfold resolveStruct
  rw [scope_graph, findSome?_map, map_findSome?]
  congr 1
  funext m
  simp only [Function.comp_def, allStructs_module, find?_map, struct_cppEmbedName,
    Option.map_map]
  rfl

theorem resolveUnion_graph (graph : List Module) (file : Module) (r : TypeRef) :
    resolveUnion (p.graph graph) (p.module file) r =
      (resolveUnion graph file r).map (fun d => (p.module d.1, p.union d.1 d.2)) := by
  unfold resolveUnion
  rw [scope_graph, findSome?_map, map_findSome?]
  congr 1
  funext m
  simp only [Function.comp_def, allUnions_module, find?_map, union_cppEmbedName,
    Option.map_map]
  rfl

theorem exists_of_resolveStruct {graph : List Module} {file m' : Module} {r : TypeRef}
    {s' : StructDecl} (h : resolveStruct (p.graph graph) (p.module file) r = some (m', s')) :
    ∃ m s, resolveStruct graph file r = some (m, s) ∧ m' = p.module m ∧ s' = p.struct m s := by
  rw [resolveStruct_graph] at h
  obtain ⟨⟨m, s⟩, hres, hms⟩ := Option.map_eq_some_iff.mp h
  exact ⟨m, s, hres, (Prod.mk.inj hms).1.symm, (Prod.mk.inj hms).2.symm⟩

theorem exists_of_resolveUnion {graph : List Module} {file m' : Module} {r : TypeRef}
    {u' : UnionDecl} (h : resolveUnion (p.graph graph) (p.module file) r = some (m', u')) :
    ∃ m u, resolveUnion graph file r = some (m, u) ∧ m' = p.module m ∧ u' = p.union m u := by
  rw [resolveUnion_graph] at h
  obtain ⟨⟨m, u⟩, hres, hmu⟩ := Option.map_eq_some_iff.mp h
  exact ⟨m, u, hres, (Prod.mk.inj hmu).1.symm, (Prod.mk.inj hmu).2.symm⟩

theorem resolveEnum_graph (graph : List Module) (file : Module) (r : TypeRef) :
    resolveEnum (p.graph graph) (p.module file) r =
      (resolveEnum graph file r).map (fun d => (p.module d.1, d.2)) := by
  unfold resolveEnum
  rw [scope_graph, findSome?_map, map_findSome?]
  congr 1
  funext m
  simp only [Function.comp_def, namedEnums_module, Option.map_map]

theorem acceptsEnum_graph (graph : List Module) (file : Module) (r : TypeRef)
    (version : Option Nat) (value : BitVec 32) :
    acceptsEnum (p.graph graph) (p.module file) r version value =
      acceptsEnum graph file r version value := by
  unfold acceptsEnum Module.isEnumExtensible
  rw [namedEnums_module, resolveEnum_graph]
  cases resolveEnum graph file r <;> rfl

end Profile

end Voodoo
