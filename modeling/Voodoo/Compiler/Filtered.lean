import Voodoo.Compiler.CompleteTypes

/-!
# What `ApplyEnableIf` leaves

`Filtered enabled m n` says what filtering a module `m` should come to: nothing in `n`
at any level has a clause that does not match, `n` is a part of `m` with everything in
its place, the versions are those of what is left, and filtering again does nothing.

`ApplyEnableIf` looks at everything that can carry a clause but the parameters of a
method.  So it comes to that exactly when every parameter that stays matches by itself
(`filtered_iff`).
-/

namespace Voodoo.Compiler

open List

/-! ### Clauses -/

def EnumDecl.specs (e : EnumDecl) : List EnableIf := e.enableIf :: e.values.map (·.enableIf)

def StructDecl.specs (s : StructDecl) : List EnableIf :=
  s.enableIf :: s.fields.map (·.enableIf) ++ s.enums.flatMap EnumDecl.specs ++
    s.consts.map (·.enableIf)

def UnionDecl.specs (u : UnionDecl) : List EnableIf := u.enableIf :: u.fields.map (·.enableIf)

/-- The clauses of the parameters of a method, of its request and of its response. -/
def Method.paramSpecs (m : Method) : List EnableIf :=
  m.params.map (·.enableIf) ++ m.responseParams.map (·.enableIf)

def Method.specs (m : Method) : List EnableIf := m.enableIf :: m.paramSpecs

def Interface.specs (i : Interface) : List EnableIf :=
  i.enableIf :: i.methods.flatMap Method.specs ++ i.enums.flatMap EnumDecl.specs ++
    i.consts.map (·.enableIf) ++ i.structs.flatMap StructDecl.specs ++
    i.unions.flatMap UnionDecl.specs

def FeatureDecl.specs (f : FeatureDecl) : List EnableIf := f.enableIf :: f.consts.map (·.enableIf)

/-- The clauses of everything declared in a file, at every level. -/
def Module.specs (m : Module) : List EnableIf :=
  m.interfaces.flatMap Interface.specs ++ m.structs.flatMap StructDecl.specs ++
    m.unions.flatMap UnionDecl.specs ++ m.enums.flatMap EnumDecl.specs ++
    m.consts.map (·.enableIf) ++ m.features.flatMap FeatureDecl.specs

def AllEnabled (enabled : List String) (specs : List EnableIf) : Prop :=
  ∀ spec ∈ specs, isDeclEnabled enabled spec = true

/-! ### Parts -/

/-- `e` is what is left of `f`: some of its enumerators, in their order and as they were. -/
structure EnumDecl.PartOf (e f : EnumDecl) : Prop where
  values : e.values.Sublist f.values
  rest : e = { f with values := e.values }

structure StructDecl.PartOf (s t : StructDecl) : Prop where
  fields : s.fields.Sublist t.fields
  enums : List.SublistForall₂ EnumDecl.PartOf s.enums t.enums
  consts : s.consts.Sublist t.consts
  rest : s = { t with
    fields := s.fields, enums := s.enums, consts := s.consts, version := s.version }

structure UnionDecl.PartOf (u v : UnionDecl) : Prop where
  fields : u.fields.Sublist v.fields
  rest : u = { v with fields := u.fields, version := u.version }

structure Interface.PartOf (i j : Interface) : Prop where
  methods : i.methods.Sublist j.methods
  enums : List.SublistForall₂ EnumDecl.PartOf i.enums j.enums
  consts : i.consts.Sublist j.consts
  structs : List.SublistForall₂ StructDecl.PartOf i.structs j.structs
  unions : List.SublistForall₂ UnionDecl.PartOf i.unions j.unions
  rest : i = { j with
    methods := i.methods, enums := i.enums, consts := i.consts, structs := i.structs
    unions := i.unions, version := i.version }

structure FeatureDecl.PartOf (f g : FeatureDecl) : Prop where
  consts : f.consts.Sublist g.consts
  rest : f = { g with consts := f.consts }

structure Module.PartOf (m n : Module) : Prop where
  interfaces : List.SublistForall₂ Interface.PartOf m.interfaces n.interfaces
  structs : List.SublistForall₂ StructDecl.PartOf m.structs n.structs
  unions : List.SublistForall₂ UnionDecl.PartOf m.unions n.unions
  enums : List.SublistForall₂ EnumDecl.PartOf m.enums n.enums
  consts : m.consts.Sublist n.consts
  features : List.SublistForall₂ FeatureDecl.PartOf m.features n.features
  rest : m.name = n.name ∧ m.imports = n.imports

/-! ### Versions -/

/-- `version` is the greatest of `versions`, `0` when there is none. -/
def IsVersionOf (version : UInt32) (versions : List UInt32) : Prop :=
  (∀ v ∈ versions, v ≤ version) ∧ (version = 0 ∨ version ∈ versions)

structure Module.Versioned (m : Module) : Prop where
  structs : ∀ s ∈ m.allStructs, IsVersionOf s.version (s.fields.map (·.minVersion))
  unions : ∀ u ∈ m.allUnions, IsVersionOf u.version (u.fields.map (·.minVersion))
  interfaces : ∀ i ∈ m.interfaces, IsVersionOf i.version (i.methods.map (·.minVersion))

/-- What is expected of the module `n` that filtering leaves of `m`. -/
structure Filtered (enabled : List String) (m n : Module) : Prop where
  matching : AllEnabled enabled n.specs
  part : n.PartOf m
  versioned : n.Versioned
  again : applyEnableIf enabled n = n

/-- Every parameter of a method that stays matches by itself. -/
def ParamsEnabled (enabled : List String) (m : Module) : Prop :=
  ∀ i ∈ m.interfaces, isDeclEnabled enabled i.enableIf = true →
    ∀ f ∈ i.methods, isDeclEnabled enabled f.enableIf = true → AllEnabled enabled f.paramSpecs

/-! ### Nothing disabled is left -/

section

variable {enabled : List String}

theorem allEnabled_cons {spec : EnableIf} {l : List EnableIf} :
    AllEnabled enabled (spec :: l) ↔ isDeclEnabled enabled spec = true ∧ AllEnabled enabled l :=
  forall_mem_cons

theorem allEnabled_append {l l' : List EnableIf} :
    AllEnabled enabled (l ++ l') ↔ AllEnabled enabled l ∧ AllEnabled enabled l' :=
  forall_mem_append

theorem allEnabled_flatMap {β : Type} {l : List β} {f : β → List EnableIf} :
    AllEnabled enabled (l.flatMap f) ↔ ∀ b ∈ l, AllEnabled enabled (f b) := by
  simp only [AllEnabled, mem_flatMap]
  exact ⟨fun h b hb spec hs => h spec ⟨b, hb, hs⟩, fun h spec ⟨b, hb, hs⟩ => h b hb spec hs⟩

theorem allEnabled_erased {β : Type} {l : List β} {spec : β → EnableIf} :
    AllEnabled enabled ((l.filter (fun b => isDeclEnabled enabled (spec b))).map spec) := by
  intro s hs
  obtain ⟨b, hb, rfl⟩ := List.mem_map.mp hs
  exact (mem_filter.mp hb).2

theorem allEnabled_filterEnum {e : EnumDecl} (he : isDeclEnabled enabled e.enableIf = true) :
    AllEnabled enabled (filterEnum enabled e).specs :=
  allEnabled_cons.mpr ⟨he, allEnabled_erased⟩

theorem allEnabled_filterEnums (enums : List EnumDecl) :
    AllEnabled enabled ((filterEnums enabled enums).flatMap EnumDecl.specs) := by
  rw [allEnabled_flatMap]
  intro e he
  obtain ⟨f, hf, rfl⟩ := List.mem_map.mp he
  exact allEnabled_filterEnum (mem_filter.mp hf).2

theorem allEnabled_filterStructs (structs : List StructDecl) :
    AllEnabled enabled ((filterStructs enabled structs).flatMap StructDecl.specs) := by
  rw [allEnabled_flatMap]
  intro s hs
  obtain ⟨t, ht, rfl⟩ := List.mem_map.mp hs
  have hfields : AllEnabled enabled
      ((filterStruct enabled t).enableIf :: (filterStruct enabled t).fields.map (·.enableIf)) :=
    allEnabled_cons.mpr ⟨(mem_filter.mp ht).2, allEnabled_erased⟩
  exact allEnabled_append.mpr
    ⟨allEnabled_append.mpr ⟨hfields, allEnabled_filterEnums t.enums⟩, allEnabled_erased⟩

theorem allEnabled_filterUnions (unions : List UnionDecl) :
    AllEnabled enabled ((filterUnions enabled unions).flatMap UnionDecl.specs) := by
  rw [allEnabled_flatMap]
  intro u hu
  obtain ⟨v, hv, rfl⟩ := List.mem_map.mp (mem_of_mem_filter hu)
  exact allEnabled_cons.mpr ⟨(mem_filter.mp hv).2, allEnabled_erased⟩

theorem allEnabled_features (features : List FeatureDecl) :
    AllEnabled enabled (((features.filter (fun f => isDeclEnabled enabled f.enableIf)).map
      (filterFeature enabled)).flatMap FeatureDecl.specs) := by
  rw [allEnabled_flatMap]
  intro f hf
  obtain ⟨g, hg, rfl⟩ := List.mem_map.mp hf
  exact allEnabled_cons.mpr ⟨(mem_filter.mp hg).2, allEnabled_erased⟩

theorem allEnabled_filterInterface {i : Interface} (hi : isDeclEnabled enabled i.enableIf = true) :
    AllEnabled enabled (filterInterface enabled i).specs ↔
      ∀ f ∈ i.methods, isDeclEnabled enabled f.enableIf = true →
        AllEnabled enabled f.paramSpecs := by
  have hmethods : AllEnabled enabled
      ((filterInterface enabled i).methods.flatMap Method.specs) ↔
        ∀ f ∈ i.methods, isDeclEnabled enabled f.enableIf = true →
          AllEnabled enabled f.paramSpecs := by
    rw [allEnabled_flatMap]
    constructor
    · intro h f hf he
      exact (allEnabled_cons.mp (h f (mem_filter.mpr ⟨hf, he⟩))).2
    · intro h f hf
      obtain ⟨hf, he⟩ := mem_filter.mp hf
      exact allEnabled_cons.mpr ⟨he, h f hf he⟩
  rw [← hmethods, Interface.specs]
  simp only [allEnabled_append, allEnabled_cons]
  constructor
  · intro h
    exact h.1.1.1.1.2
  · intro h
    exact ⟨⟨⟨⟨⟨hi, h⟩, allEnabled_filterEnums i.enums⟩, allEnabled_erased⟩,
      allEnabled_filterStructs i.structs⟩, allEnabled_filterUnions i.unions⟩

theorem allEnabled_applyEnableIf (m : Module) :
    AllEnabled enabled (applyEnableIf enabled m).specs ↔ ParamsEnabled enabled m := by
  have hinterfaces : AllEnabled enabled
      ((applyEnableIf enabled m).interfaces.flatMap Interface.specs) ↔
        ParamsEnabled enabled m := by
    rw [allEnabled_flatMap]
    constructor
    · intro h i hi he
      exact (allEnabled_filterInterface he).mp
        (h _ (List.mem_map.mpr ⟨i, mem_filter.mpr ⟨hi, he⟩, rfl⟩))
    · intro h j hj
      obtain ⟨i, hi, rfl⟩ := List.mem_map.mp hj
      obtain ⟨hi, he⟩ := mem_filter.mp hi
      exact (allEnabled_filterInterface he).mpr (h i hi he)
  rw [← hinterfaces, Module.specs]
  simp only [allEnabled_append]
  constructor
  · intro h
    exact h.1.1.1.1.1
  · intro h
    exact ⟨⟨⟨⟨⟨h, allEnabled_filterStructs m.structs⟩, allEnabled_filterUnions m.unions⟩,
      allEnabled_filterEnums m.enums⟩, allEnabled_erased⟩, allEnabled_features m.features⟩

/-! ### Everything keeps its place -/

theorem sublistForall₂_filter_map {α : Type} {R : α → α → Prop} {g : α → α} (p : α → Bool)
    (h : ∀ a, R (g a) a) (l : List α) : List.SublistForall₂ R ((l.filter p).map g) l := by
  rw [sublistForall₂_map_left_iff, sublistForall₂_iff]
  exact ⟨l.filter p, forall₂_same.mpr (fun a _ => h a), filter_sublist⟩

theorem partOf_filterEnum (e : EnumDecl) : (filterEnum enabled e).PartOf e where
  values := filter_sublist
  rest := rfl

theorem partOf_filterStruct (s : StructDecl) : (filterStruct enabled s).PartOf s where
  fields := filter_sublist
  enums := sublistForall₂_filter_map _ partOf_filterEnum _
  consts := filter_sublist
  rest := rfl

theorem partOf_filterUnion (u : UnionDecl) : (filterUnion enabled u).PartOf u where
  fields := filter_sublist
  rest := rfl

theorem sublistForall₂_filter {α β : Type} {R : α → β → Prop} {l : List α} {l' : List β}
    (h : List.SublistForall₂ R l l') (p : α → Bool) : List.SublistForall₂ R (l.filter p) l' := by
  induction h with
  | nil => exact .nil
  | cons hr _ ih =>
    rw [filter_cons]
    split
    · exact .cons hr ih
    · exact .cons_right ih
  | cons_right _ ih => exact .cons_right ih

theorem partOf_filterUnions (unions : List UnionDecl) :
    List.SublistForall₂ UnionDecl.PartOf (filterUnions enabled unions) unions :=
  sublistForall₂_filter (sublistForall₂_filter_map _ partOf_filterUnion unions) _

theorem partOf_filterInterface (i : Interface) : (filterInterface enabled i).PartOf i where
  methods := filter_sublist
  enums := sublistForall₂_filter_map _ partOf_filterEnum _
  consts := filter_sublist
  structs := sublistForall₂_filter_map _ partOf_filterStruct _
  unions := partOf_filterUnions _
  rest := rfl

theorem partOf_filterFeature (f : FeatureDecl) : (filterFeature enabled f).PartOf f where
  consts := filter_sublist
  rest := rfl

theorem partOf_applyEnableIf (m : Module) : (applyEnableIf enabled m).PartOf m where
  interfaces := sublistForall₂_filter_map _ partOf_filterInterface _
  structs := sublistForall₂_filter_map _ partOf_filterStruct _
  unions := partOf_filterUnions _
  enums := sublistForall₂_filter_map _ partOf_filterEnum _
  consts := filter_sublist
  features := sublistForall₂_filter_map _ partOf_filterFeature _
  rest := ⟨rfl, rfl⟩

/-! ### Versions are counted again -/

theorem max_spec (v w : UInt32) :
    v ≤ max v w ∧ w ≤ max v w ∧ (max v w = v ∨ max v w = w) := by
  have hmax : max v w = if v ≤ w then w else v := rfl
  rw [hmax]
  split
  · next h => exact ⟨h, UInt32.le_refl w, Or.inr rfl⟩
  · next h => exact ⟨UInt32.le_refl v, UInt32.le_of_lt (UInt32.not_le.mp h), Or.inl rfl⟩

theorem isVersionOf_foldl {β : Type} (minVersion : β → UInt32) (l : List β) (start : UInt32) :
    let version := l.foldl (fun version b => max version (minVersion b)) start
    (∀ v ∈ l.map minVersion, v ≤ version) ∧ start ≤ version ∧
      (version = start ∨ version ∈ l.map minVersion) := by
  induction l generalizing start with
  | nil => exact ⟨fun _ h => absurd h not_mem_nil, UInt32.le_refl _, Or.inl rfl⟩
  | cons b l ih =>
    obtain ⟨hall, hstart, hmem⟩ := ih (max start (minVersion b))
    obtain ⟨hleft, hright, hmax⟩ := max_spec start (minVersion b)
    refine ⟨?_, UInt32.le_trans hleft hstart, ?_⟩
    · rw [map_cons, forall_mem_cons]
      exact ⟨UInt32.le_trans hright hstart, hall⟩
    · rw [map_cons, mem_cons]
      rcases hmem with hmem | hmem
      · rcases hmax with hmax | hmax
        · exact Or.inl (hmem.trans hmax)
        · exact Or.inr (Or.inl (hmem.trans hmax))
      · exact Or.inr (Or.inr hmem)

theorem isVersionOf_version {β : Type} (minVersion : β → UInt32) (l : List β) :
    IsVersionOf (l.foldl (fun version b => max version (minVersion b)) 0) (l.map minVersion) := by
  obtain ⟨hall, -, hmem⟩ := isVersionOf_foldl minVersion l 0
  exact ⟨hall, hmem⟩

theorem versioned_applyEnableIf (m : Module) : (applyEnableIf enabled m).Versioned where
  structs s hs := by
    obtain ⟨t, -, rfl⟩ := mem_allStructs_applyEnableIf hs
    exact isVersionOf_version _ _
  unions u hu := by
    obtain ⟨v, -, rfl⟩ := mem_allUnions_applyEnableIf hu
    exact isVersionOf_version _ _
  interfaces i hi := by
    obtain ⟨j, -, rfl⟩ := mem_filterInterfaces hi
    exact isVersionOf_version _ _

/-! ### Once is enough -/

theorem filter_map_filter_map {α : Type} {p : α → Bool} {g : α → α} (hg : ∀ a, g (g a) = g a)
    (hp : ∀ a, p (g a) = p a) (l : List α) :
    (((l.filter p).map g).filter p).map g = (l.filter p).map g := by
  induction l with
  | nil => rfl
  | cons a l ih =>
    rw [filter_cons]
    split
    · next ha => simp only [map_cons, filter_cons, hp, ha, if_true, hg, ih]
    · exact ih

theorem filterEnum_filterEnum (e : EnumDecl) :
    filterEnum enabled (filterEnum enabled e) = filterEnum enabled e := by
  simp only [filterEnum, List.filter_filter, Bool.and_self]

theorem filterEnums_filterEnums (enums : List EnumDecl) :
    filterEnums enabled (filterEnums enabled enums) = filterEnums enabled enums :=
  filter_map_filter_map filterEnum_filterEnum (fun _ => rfl) enums

theorem eraseDisabledConsts_eraseDisabledConsts (consts : List ConstDecl) :
    eraseDisabledConsts enabled (eraseDisabledConsts enabled consts) =
      eraseDisabledConsts enabled consts := by
  simp only [eraseDisabledConsts, List.filter_filter, Bool.and_self]

theorem filterStruct_filterStruct (s : StructDecl) :
    filterStruct enabled (filterStruct enabled s) = filterStruct enabled s := by
  simp only [filterStruct, List.filter_filter, Bool.and_self, filterEnums_filterEnums,
    eraseDisabledConsts_eraseDisabledConsts]

theorem filterUnion_filterUnion (u : UnionDecl) :
    filterUnion enabled (filterUnion enabled u) = filterUnion enabled u := by
  simp only [filterUnion, List.filter_filter, Bool.and_self]

theorem filterStructs_filterStructs (structs : List StructDecl) :
    filterStructs enabled (filterStructs enabled structs) = filterStructs enabled structs :=
  filter_map_filter_map filterStruct_filterStruct (fun _ => rfl) structs

theorem filterUnions_filterUnions (unions : List UnionDecl) :
    filterUnions enabled (filterUnions enabled unions) = filterUnions enabled unions := by
  have hkept : ∀ u ∈ filterUnions enabled unions,
      isDeclEnabled enabled u.enableIf = true ∧ filterUnion enabled u = u ∧ u.fields ≠ [] := by
    intro u hu
    obtain ⟨hu, hne⟩ := mem_filter.mp hu
    obtain ⟨v, hv, rfl⟩ := List.mem_map.mp hu
    exact ⟨(mem_filter.mp hv).2, filterUnion_filterUnion v, of_decide_eq_true hne⟩
  have hfilter : (filterUnions enabled unions).filter (fun u => isDeclEnabled enabled u.enableIf) =
      filterUnions enabled unions := filter_eq_self.mpr (fun u hu => (hkept u hu).1)
  have hmap : (filterUnions enabled unions).map (filterUnion enabled) =
      filterUnions enabled unions := by
    conv_rhs => rw [← List.map_id (filterUnions enabled unions)]
    exact map_congr_left (fun u hu => (hkept u hu).2.1)
  conv_lhs => rw [filterUnions, hfilter, hmap]
  exact filter_eq_self.mpr (fun u hu => decide_eq_true (hkept u hu).2.2)

theorem filterInterface_filterInterface (i : Interface) :
    filterInterface enabled (filterInterface enabled i) = filterInterface enabled i := by
  simp only [filterInterface, List.filter_filter, Bool.and_self, filterEnums_filterEnums,
    eraseDisabledConsts_eraseDisabledConsts, filterStructs_filterStructs,
    filterUnions_filterUnions]

theorem filterFeature_filterFeature (f : FeatureDecl) :
    filterFeature enabled (filterFeature enabled f) = filterFeature enabled f := by
  simp only [filterFeature, eraseDisabledConsts_eraseDisabledConsts]

theorem applyEnableIf_applyEnableIf (m : Module) :
    applyEnableIf enabled (applyEnableIf enabled m) = applyEnableIf enabled m := by
  have hinterfaces := filter_map_filter_map (p := fun i => isDeclEnabled enabled i.enableIf)
    (@filterInterface_filterInterface enabled) (fun _ => rfl) m.interfaces
  have hfeatures := filter_map_filter_map (p := fun f => isDeclEnabled enabled f.enableIf)
    (@filterFeature_filterFeature enabled) (fun _ => rfl) m.features
  simp only [applyEnableIf, filterInterfaces, hinterfaces, hfeatures, filterStructs_filterStructs,
    filterUnions_filterUnions, filterEnums_filterEnums, eraseDisabledConsts_eraseDisabledConsts]

end

/-- **What filtering comes to.**  Everything but the parameters of a method is looked at. -/
theorem filtered_iff (enabled : List String) (m : Module) :
    Filtered enabled m (applyEnableIf enabled m) ↔ ParamsEnabled enabled m := by
  constructor
  · intro h
    exact (allEnabled_applyEnableIf m).mp h.matching
  · intro h
    exact {
      matching := (allEnabled_applyEnableIf m).mpr h
      part := partOf_applyEnableIf m
      versioned := versioned_applyEnableIf m
      again := applyEnableIf_applyEnableIf m }

/-- A parameter that is switched off stays. -/
theorem not_filtered_param :
    ∃ m, parseText "interface I \x7b M([EnableIf=f] int32 x); \x7d;" = .ok m ∧
      ¬Filtered [] m (applyEnableIf [] m) := by
  obtain ⟨m, hm, hleft⟩ := exists_ok_of_any
    (x := parseText "interface I \x7b M([EnableIf=f] int32 x); \x7d;")
    (p := fun m => (applyEnableIf [] m).specs.any (fun spec => !isDeclEnabled [] spec))
    (by decide +kernel)
  refine ⟨m, hm, fun h => ?_⟩
  obtain ⟨spec, hspec, hoff⟩ := List.any_eq_true.mp hleft
  rw [h.matching spec hspec] at hoff
  cases hoff

end Voodoo.Compiler
