import Voodoo.Compiler.Syntax

/-!
# `[EnableIf]`

`ApplyEnableIf`: what is left of a parsed module under a set of enabled flags.  A
disabled declaration is dropped together with everything in it, versions are
counted again over the fields and methods that stay, and a union that loses every
field is dropped too.

`Embed` is a struct or union of a file, `Module.embeds` all of them in the order the
generator lists them, and `mem_embeds_applyEnableIf` says that filtering takes
members away and adds none.
-/

namespace Voodoo.Compiler

open List

/-! ### The filter -/

/-- `ClauseMatches`. -/
def EnableIfClause.matches (enabled : List String) (negate : Bool) : EnableIfClause → Bool
  | .none => true
  | .any flags => (flags.any (· ∈ enabled)) != negate
  | .all flags => (flags ≠ [] && flags.all (· ∈ enabled)) != negate

def isDeclEnabled (enabled : List String) (spec : EnableIf) : Bool :=
  spec.enableIf.matches enabled false && spec.enableIfNot.matches enabled true

def filterEnum (enabled : List String) (e : EnumDecl) : EnumDecl :=
  { e with values := e.values.filter (fun v => isDeclEnabled enabled v.enableIf) }

/-- `EraseDisabled` on nested enums, and `FilterEnum` on those that stay. -/
def filterEnums (enabled : List String) (enums : List EnumDecl) : List EnumDecl :=
  (enums.filter (fun e => isDeclEnabled enabled e.enableIf)).map (filterEnum enabled)

def eraseDisabledConsts (enabled : List String) (consts : List ConstDecl) : List ConstDecl :=
  consts.filter (fun c => isDeclEnabled enabled c.enableIf)

def filterStruct (enabled : List String) (s : StructDecl) : StructDecl :=
  let fields := s.fields.filter (fun f => isDeclEnabled enabled f.enableIf)
  { s with
    fields
    enums := filterEnums enabled s.enums
    consts := eraseDisabledConsts enabled s.consts
    version := fields.foldl (fun version f => max version f.minVersion) 0 }

def filterStructs (enabled : List String) (structs : List StructDecl) : List StructDecl :=
  (structs.filter (fun s => isDeclEnabled enabled s.enableIf)).map (filterStruct enabled)

def filterUnion (enabled : List String) (u : UnionDecl) : UnionDecl :=
  let fields := u.fields.filter (fun f => isDeclEnabled enabled f.enableIf)
  { u with
    fields
    version := fields.foldl (fun version f => max version f.minVersion) 0 }

/-- As `filterStructs`; a union left without fields goes too. -/
def filterUnions (enabled : List String) (unions : List UnionDecl) : List UnionDecl :=
  ((unions.filter (fun u => isDeclEnabled enabled u.enableIf)).map (filterUnion enabled)).filter
    (fun u => u.fields ≠ [])

def filterInterface (enabled : List String) (i : Interface) : Interface :=
  let methods := i.methods.filter (fun m => isDeclEnabled enabled m.enableIf)
  { i with
    methods
    enums := filterEnums enabled i.enums
    consts := eraseDisabledConsts enabled i.consts
    structs := filterStructs enabled i.structs
    unions := filterUnions enabled i.unions
    version := methods.foldl (fun version m => max version m.minVersion) 0 }

def filterInterfaces (enabled : List String) (interfaces : List Interface) : List Interface :=
  (interfaces.filter (fun i => isDeclEnabled enabled i.enableIf)).map (filterInterface enabled)

def filterFeature (enabled : List String) (f : FeatureDecl) : FeatureDecl :=
  { f with consts := eraseDisabledConsts enabled f.consts }

def applyEnableIf (enabled : List String) (m : Module) : Module :=
  { m with
    interfaces := filterInterfaces enabled m.interfaces
    structs := filterStructs enabled m.structs
    unions := filterUnions enabled m.unions
    enums := filterEnums enabled m.enums
    consts := eraseDisabledConsts enabled m.consts
    features := (m.features.filter (fun f => isDeclEnabled enabled f.enableIf)).map
      (filterFeature enabled) }

/-! ### Structs and unions -/

/-- A struct or union of a file. -/
inductive Embed where
  | struct (s : StructDecl)
  | union (u : UnionDecl)
  deriving DecidableEq

namespace Embed

def declIndex : Embed → Nat
  | struct s => s.declIndex
  | union u => u.declIndex

/-- `CppEmbedName`. -/
def key : Embed → String
  | struct s => s.cppEmbedName
  | union u => u.cppEmbedName

def memberTypes : Embed → List TypeSpec
  | struct s => s.fields.map (·.type)
  | union u => u.fields.map (·.type)

end Embed

def Module.embeds (m : Module) : List Embed :=
  m.allStructs.map .struct ++ m.allUnions.map .union

theorem mem_embeds {m : Module} {e : Embed} :
    e ∈ m.embeds ↔ (∃ s ∈ m.allStructs, e = .struct s) ∨ ∃ u ∈ m.allUnions, e = .union u := by
  simp [Module.embeds, eq_comm]

/-! ### What filtering leaves -/

section

variable {enabled : List String}

theorem mem_filterStructs {structs : List StructDecl} {s : StructDecl}
    (h : s ∈ filterStructs enabled structs) : ∃ t ∈ structs, s = filterStruct enabled t := by
  obtain ⟨t, ht, rfl⟩ := List.mem_map.mp h
  exact ⟨t, mem_of_mem_filter ht, rfl⟩

theorem mem_filterUnions {unions : List UnionDecl} {u : UnionDecl}
    (h : u ∈ filterUnions enabled unions) : ∃ t ∈ unions, u = filterUnion enabled t := by
  obtain ⟨t, ht, rfl⟩ := List.mem_map.mp (mem_of_mem_filter h)
  exact ⟨t, mem_of_mem_filter ht, rfl⟩

theorem mem_filterInterfaces {interfaces : List Interface} {i : Interface}
    (h : i ∈ filterInterfaces enabled interfaces) :
    ∃ j ∈ interfaces, i = filterInterface enabled j := by
  obtain ⟨j, hj, rfl⟩ := List.mem_map.mp h
  exact ⟨j, mem_of_mem_filter hj, rfl⟩

theorem mem_allStructs_applyEnableIf {m : Module} {s : StructDecl}
    (h : s ∈ (applyEnableIf enabled m).allStructs) :
    ∃ t ∈ m.allStructs, s = filterStruct enabled t := by
  rcases mem_append.mp h with h | h
  · obtain ⟨t, ht, rfl⟩ := mem_filterStructs h
    exact ⟨t, mem_append_left _ ht, rfl⟩
  · obtain ⟨i, hi, h⟩ := mem_flatMap.mp h
    obtain ⟨j, hj, rfl⟩ := mem_filterInterfaces hi
    obtain ⟨t, ht, rfl⟩ := mem_filterStructs h
    exact ⟨t, mem_append_right _ (mem_flatMap.mpr ⟨j, hj, ht⟩), rfl⟩

theorem mem_allUnions_applyEnableIf {m : Module} {u : UnionDecl}
    (h : u ∈ (applyEnableIf enabled m).allUnions) :
    ∃ t ∈ m.allUnions, u = filterUnion enabled t := by
  rcases mem_append.mp h with h | h
  · obtain ⟨t, ht, rfl⟩ := mem_filterUnions h
    exact ⟨t, mem_append_left _ ht, rfl⟩
  · obtain ⟨i, hi, h⟩ := mem_flatMap.mp h
    obtain ⟨j, hj, rfl⟩ := mem_filterInterfaces hi
    obtain ⟨t, ht, rfl⟩ := mem_filterUnions h
    exact ⟨t, mem_append_right _ (mem_flatMap.mpr ⟨j, hj, ht⟩), rfl⟩

theorem mem_embeds_applyEnableIf {m : Module} {e : Embed}
    (h : e ∈ (applyEnableIf enabled m).embeds) :
    ∃ d ∈ m.embeds, d.key = e.key ∧ e.memberTypes ⊆ d.memberTypes := by
  rcases mem_embeds.mp h with ⟨s, hs, rfl⟩ | ⟨u, hu, rfl⟩
  · obtain ⟨t, ht, rfl⟩ := mem_allStructs_applyEnableIf hs
    refine ⟨.struct t, mem_embeds.mpr (Or.inl ⟨t, ht, rfl⟩), rfl, ?_⟩
    exact map_subset _ (filter_subset_self _)
  · obtain ⟨t, ht, rfl⟩ := mem_allUnions_applyEnableIf hu
    refine ⟨.union t, mem_embeds.mpr (Or.inr ⟨t, ht, rfl⟩), rfl, ?_⟩
    exact map_subset _ (filter_subset_self _)

end

end Voodoo.Compiler
