import Voodoo.Compiler.Results

/-!
# References after `ApplyEnableIf`

Whether a filtered module still refers to something that filtering took out.  A file may
be written so that whatever stays refers only to what is switched on
(`ReferencesKept`); even so there are three ways to be left with a loose end.  A union
that is switched on goes when none of its variants is, a parameter stays when it is
switched off, and the union of a `result<T, E>` response stays when its method goes.
`closed_iff` says that there is no fourth.
-/

namespace Voodoo.Compiler

open List

/-! ### What can be referred to -/

/-- A declaration of the same file, as a reference tells it from others. -/
inductive Target where
  | type (kind : RefKind) (name container : String)
  | interface (name : String)
  deriving DecidableEq

def Reference.target? (r : Reference) : Option Target :=
  if r.target.ownerNamespace = "" then some (.type r.kind r.target.name r.target.ownerContainer)
  else none

def TypeSpec.targets (t : TypeSpec) : List Target :=
  t.refs.filterMap Reference.target? ++
    t.interfaces.filterMap (fun i =>
      if i.2.ownerNamespace = "" then some (.interface i.2.name) else none)

section

variable (on : EnableIf → Bool) (full : UnionDecl → Bool)

/-- The types declared in one body, of those that are `on` with all around them. -/
def typesIn (enums : List EnumDecl) (structs : List StructDecl) (unions : List UnionDecl)
    (container : String) : List Target :=
  (enums.filter (fun e => on e.enableIf)).map (fun e => .type .enum e.name container) ++
    (structs.filter (fun s => on s.enableIf)).flatMap (fun s => .type .struct s.name container ::
      (s.enums.filter (fun e => on e.enableIf)).map (fun e => .type .enum e.name s.name)) ++
    (unions.filter (fun u => on u.enableIf && full u)).map
      (fun u => .type .union u.name container)

/-- What a module declares, of that which is `on`; of the unions only those that are `full`. -/
def Module.targets (m : Module) : List Target :=
  typesIn on full m.enums m.structs m.unions "" ++
    (m.interfaces.filter (fun i => on i.enableIf)).flatMap (fun i =>
      .interface i.name :: typesIn on full i.enums i.structs i.unions i.name)

/-! ### Types that are written -/

def StructDecl.writtenTypes (s : StructDecl) : List TypeSpec :=
  (s.fields.filter (fun f => on f.enableIf)).map (·.type)

def UnionDecl.writtenTypes (u : UnionDecl) : List TypeSpec :=
  (u.fields.filter (fun f => on f.enableIf)).map (·.type)

/-- The parameters as they are written: for a `result<T, E>` response there are none. -/
def Method.writtenParams (f : Method) : List Param :=
  f.params ++ if f.result.isSome then [] else f.responseParams

/-- The two types of a `result<T, E>` response. -/
def Method.resultTypes (f : Method) : List TypeSpec :=
  match f.result with
  | some (t, e) => [t, e]
  | none => []

def Method.writtenTypes (f : Method) : List TypeSpec :=
  (f.writtenParams.filter (fun p => on p.enableIf)).map (·.type) ++ f.resultTypes

def Interface.writtenTypes (i : Interface) : List TypeSpec :=
  (i.methods.filter (fun f => on f.enableIf)).flatMap (Method.writtenTypes on) ++
    (i.structs.filter (fun s => on s.enableIf)).flatMap (StructDecl.writtenTypes on) ++
    (i.unions.filter (fun u => on u.enableIf)).flatMap (UnionDecl.writtenTypes on)

/-- The unions of a file without those made for its `result<T, E>` responses, which come last. -/
def Module.writtenUnions (m : Module) : List UnionDecl :=
  m.unions.take (m.unions.length - (resultMethods m.methods).length)

/-- The types written in a declaration that is `on` with all around it. -/
def Module.writtenTypes (m : Module) : List TypeSpec :=
  (m.structs.filter (fun s => on s.enableIf)).flatMap (StructDecl.writtenTypes on) ++
    (m.writtenUnions.filter (fun u => on u.enableIf)).flatMap (UnionDecl.writtenTypes on) ++
    (m.interfaces.filter (fun i => on i.enableIf)).flatMap (Interface.writtenTypes on)

/-- The types of the parameters that are off, in methods that are on. -/
def Module.offParamTypes (m : Module) : List TypeSpec :=
  (m.interfaces.filter (fun i => on i.enableIf)).flatMap (fun i =>
    (i.methods.filter (fun f => on f.enableIf)).flatMap (fun f =>
      (f.writtenParams.filter (fun p => !on p.enableIf)).map (·.type)))

/-- The types of the `result<T, E>` responses of methods that are off, or whose interface is. -/
def Module.offResultTypes (m : Module) : List TypeSpec :=
  m.interfaces.flatMap (fun i =>
    (i.methods.filter (fun f => !(on i.enableIf && on f.enableIf))).flatMap Method.resultTypes)

end

/-! ### Types that are there -/

def Method.memberTypes (f : Method) : List TypeSpec :=
  f.params.map (·.type) ++ f.responseParams.map (·.type)

/-- The types of all members of a module: fields, variants and parameters. -/
def Module.memberTypes (m : Module) : List TypeSpec :=
  m.allStructs.flatMap (fun s => s.fields.map (·.type)) ++
    m.allUnions.flatMap (fun u => u.fields.map (·.type)) ++
    m.methods.flatMap Method.memberTypes

/-- Everything a module declares. -/
def Module.allTargets (m : Module) : List Target :=
  m.targets (fun _ => true) (fun _ => true)

section

variable (enabled : List String) (m : Module)

/-- No member that is left refers to a declaration that filtering took out. -/
def Closed : Prop :=
  ∀ t ∈ (applyEnableIf enabled m).memberTypes, ∀ d ∈ t.targets, d ∈ m.allTargets →
    d ∈ (applyEnableIf enabled m).allTargets

/-- What is written in a declaration that is switched on refers only to such declarations. -/
def ReferencesKept : Prop :=
  ∀ t ∈ m.writtenTypes (isDeclEnabled enabled), ∀ d ∈ t.targets, d ∈ m.allTargets →
    d ∈ m.targets (isDeclEnabled enabled) (fun _ => true)

instance : Decidable (ReferencesKept enabled m) :=
  inferInstanceAs (Decidable (∀ t ∈ m.writtenTypes (isDeclEnabled enabled), ∀ d ∈ t.targets,
    d ∈ m.allTargets → d ∈ m.targets (isDeclEnabled enabled) (fun _ => true)))

/-- A union some variant of which is switched on. -/
def someVariant (u : UnionDecl) : Bool := u.fields.any (fun f => isDeclEnabled enabled f.enableIf)

/-- What is switched on, but for the unions none of whose variants is. -/
def survivors : List Target := m.targets (isDeclEnabled enabled) (someVariant enabled)

structure NoLooseEnd : Prop where
  /-- No reference is to a union that is left without variants. -/
  unions : ∀ t ∈ m.writtenTypes (isDeclEnabled enabled), ∀ d ∈ t.targets,
    d ∈ m.targets (isDeclEnabled enabled) (fun _ => true) → d ∈ survivors enabled m
  /-- No parameter that is off refers to what does not survive. -/
  params : ∀ t ∈ m.offParamTypes (isDeclEnabled enabled), ∀ d ∈ t.targets, d ∈ m.allTargets →
    d ∈ survivors enabled m
  /-- No `result<T, E>` of a method that is off does. -/
  results : ∀ t ∈ m.offResultTypes (isDeclEnabled enabled), ∀ d ∈ t.targets, d ∈ m.allTargets →
    d ∈ survivors enabled m

end

/-! ### What survives -/

section

variable {enabled : List String}

theorem map_name_filterEnums {β : Type} (g : String → β) (enums : List EnumDecl) :
    (filterEnums enabled enums).map (fun e => g e.name) =
      (enums.filter (fun e => isDeclEnabled enabled e.enableIf)).map (fun e => g e.name) :=
  List.map_map

theorem filterUnions_eq (unions : List UnionDecl) :
    filterUnions enabled unions =
      (unions.filter (fun u => isDeclEnabled enabled u.enableIf && someVariant enabled u)).map
        (filterUnion enabled) := by
  have hvariant (u : UnionDecl) :
      (decide ((filterUnion enabled u).fields ≠ []) && isDeclEnabled enabled u.enableIf) =
        (isDeclEnabled enabled u.enableIf && someVariant enabled u) := by
    rw [Bool.and_comm]
    congr 1
    simp [filterUnion, someVariant, any_eq, filter_eq_nil_iff]
  rw [filterUnions, List.filter_map, List.filter_filter]
  simp only [Function.comp_def, hvariant]

theorem typesIn_filter (enums : List EnumDecl) (structs : List StructDecl)
    (unions : List UnionDecl) (container : String) :
    typesIn (fun _ => true) (fun _ => true) (filterEnums enabled enums)
        (filterStructs enabled structs) (filterUnions enabled unions) container =
      typesIn (isDeclEnabled enabled) (someVariant enabled) enums structs unions container := by
  have hstruct (s : StructDecl) :
      Target.type .struct (filterStruct enabled s).name container ::
          (filterStruct enabled s).enums.map (fun e => .type .enum e.name s.name) =
        .type .struct s.name container ::
          (s.enums.filter (fun e => isDeclEnabled enabled e.enableIf)).map
            (fun e => .type .enum e.name s.name) :=
    congrArg _ (map_name_filterEnums (fun name => Target.type .enum name s.name) s.enums)
  simp only [typesIn, filter_true, Bool.and_self]
  congr 1
  · congr 1
    · exact map_name_filterEnums (fun name => Target.type .enum name container) enums
    · rw [filterStructs, flatMap_map]
      exact flatMap_congr (fun s _ => hstruct s)
  · rw [filterUnions_eq, List.map_map]
    rfl

theorem allTargets_applyEnableIf (m : Module) :
    (applyEnableIf enabled m).allTargets = survivors enabled m := by
  simp only [Module.allTargets, survivors, Module.targets, applyEnableIf, filterInterfaces,
    filterInterface, filter_true, flatMap_map, typesIn_filter]

theorem typesIn_subset (on : EnableIf → Bool) (full : UnionDecl → Bool) (enums : List EnumDecl)
    (structs : List StructDecl) (unions : List UnionDecl) (container : String) :
    typesIn on full enums structs unions container ⊆
      typesIn (fun _ => true) (fun _ => true) enums structs unions container := by
  intro d hd
  simp only [typesIn, mem_append, filter_true, Bool.and_self] at hd ⊢
  rcases hd with (hd | hd) | hd
  · exact Or.inl (Or.inl (map_subset _ (filter_subset_self _) hd))
  · obtain ⟨s, hs, hd⟩ := mem_flatMap.mp hd
    refine Or.inl (Or.inr (mem_flatMap.mpr ⟨s, mem_of_mem_filter hs, ?_⟩))
    exact cons_subset_cons _ (map_subset _ (filter_subset_self _)) hd
  · exact Or.inr (map_subset _ (filter_subset_self _) hd)

theorem targets_subset (on : EnableIf → Bool) (full : UnionDecl → Bool) (m : Module) :
    m.targets on full ⊆ m.allTargets := by
  intro d hd
  rw [Module.allTargets, Module.targets]
  rcases mem_append.mp hd with hd | hd
  · exact mem_append_left _ (typesIn_subset on full _ _ _ _ hd)
  · obtain ⟨i, hi, hd⟩ := mem_flatMap.mp hd
    refine mem_append_right _ (mem_flatMap.mpr ⟨i, ?_, ?_⟩)
    · exact mem_filter.mpr ⟨mem_of_mem_filter hi, rfl⟩
    · exact cons_subset_cons _ (typesIn_subset on full _ _ _ _) hd

/-! ### What types are left -/

theorem types_filterStructs (structs : List StructDecl) :
    (filterStructs enabled structs).flatMap (fun s => s.fields.map (·.type)) =
      (structs.filter (fun s => isDeclEnabled enabled s.enableIf)).flatMap
        (StructDecl.writtenTypes (isDeclEnabled enabled)) := flatMap_map _ _ _

theorem mem_types_filterUnions {unions : List UnionDecl} {t : TypeSpec} :
    t ∈ (filterUnions enabled unions).flatMap (fun u => u.fields.map (·.type)) ↔
      t ∈ (unions.filter (fun u => isDeclEnabled enabled u.enableIf)).flatMap
        (UnionDecl.writtenTypes (isDeclEnabled enabled)) := by
  simp only [mem_flatMap]
  constructor
  · rintro ⟨v, hv, ht⟩
    obtain ⟨u, hu, rfl⟩ := List.mem_map.mp (mem_of_mem_filter hv)
    exact ⟨u, hu, ht⟩
  · rintro ⟨u, hu, ht⟩
    have hne : (filterUnion enabled u).fields ≠ [] := by
      intro hnil
      rw [UnionDecl.writtenTypes, show u.fields.filter _ = [] from hnil] at ht
      cases ht
    exact ⟨_, mem_filter.mpr ⟨List.mem_map_of_mem hu, decide_eq_true hne⟩, ht⟩

namespace Method.Makes

variable {f : Method} {u : UnionDecl} (h : f.Makes u)
include h

theorem writtenTypes_eq : u.writtenTypes (isDeclEnabled enabled) = f.resultTypes := by
  obtain ⟨t, e, hr, hfields⟩ := h.fields
  rw [UnionDecl.writtenTypes, Method.resultTypes, hr, hfields]
  rfl

theorem someVariant : someVariant enabled u = true := by
  obtain ⟨t, e, -, hfields⟩ := h.fields
  rw [Compiler.someVariant, hfields]
  rfl

theorem isOn : isDeclEnabled enabled u.enableIf = true := by rw [h.enableIf]; rfl

end Method.Makes

end

/-! ### Loose ends -/

theorem exists_of_forall₂ {α β : Type} {R : α → β → Prop} {l : List α} {l' : List β}
    (h : List.Forall₂ R l l') {a : α} (ha : a ∈ l) : ∃ b ∈ l', R a b := by
  induction h with
  | nil => cases ha
  | cons hr _ ih =>
    rcases mem_cons.mp ha with rfl | ha
    · exact ⟨_, mem_cons_self, hr⟩
    · obtain ⟨b, hb, hr⟩ := ih ha
      exact ⟨b, mem_cons_of_mem _ hb, hr⟩

section

variable {enabled : List String} {m : Module} {written made : List UnionDecl}
  (hunions : m.unions = written ++ made)
  (hmade : List.Forall₂ Method.Makes (resultMethods m.methods) made)
include hunions hmade

theorem writtenUnions_eq : m.writtenUnions = written := by
  rw [Module.writtenUnions, hmade.length_eq, hunions, length_append, Nat.add_sub_cancel,
    take_left]

omit hunions in
theorem exists_method_of_mem_made {u : UnionDecl} (hu : u ∈ made) :
    ∃ i ∈ m.interfaces, ∃ f ∈ i.methods, f.Makes u := by
  obtain ⟨f, hf, hfu⟩ := exists_of_forall₂ hmade.flip hu
  obtain ⟨i, hi, hf⟩ := mem_flatMap.mp (mem_of_mem_filter hf)
  exact ⟨i, hi, f, hf, hfu⟩

omit hunions in
theorem exists_made_of_mem {i : Interface} {f : Method} (hi : i ∈ m.interfaces) (hf : f ∈ i.methods)
    (hr : f.result.isSome = true) : ∃ u ∈ made, f.Makes u :=
  exists_of_forall₂ hmade
    (mem_filter.mpr ⟨mem_flatMap.mpr ⟨i, hi, hf⟩, hr⟩)

theorem mem_types_unions {t : TypeSpec} :
    t ∈ (filterUnions enabled m.unions).flatMap (fun u => u.fields.map (·.type)) ↔
      t ∈ (m.writtenUnions.filter (fun u => isDeclEnabled enabled u.enableIf)).flatMap
        (UnionDecl.writtenTypes (isDeclEnabled enabled)) ∨
      ∃ i ∈ m.interfaces, ∃ f ∈ i.methods, t ∈ f.resultTypes := by
  rw [mem_types_filterUnions, writtenUnions_eq hunions hmade, hunions, filter_append,
    flatMap_append, mem_append]
  refine or_congr_right ?_
  constructor
  · intro ht
    obtain ⟨u, hu, ht⟩ := mem_flatMap.mp ht
    obtain ⟨i, hi, f, hf, hfu⟩ := exists_method_of_mem_made hmade (mem_of_mem_filter hu)
    rw [hfu.writtenTypes_eq] at ht
    exact ⟨i, hi, f, hf, ht⟩
  · rintro ⟨i, hi, f, hf, ht⟩
    have hr : f.result.isSome = true := by
      cases hnone : f.result with
      | some r => rfl
      | none =>
        rw [Method.resultTypes, hnone] at ht
        cases ht
    obtain ⟨u, hu, hfu⟩ := exists_made_of_mem hmade hi hf hr
    refine mem_flatMap.mpr ⟨u, mem_filter.mpr ⟨hu, hfu.isOn⟩, ?_⟩
    rwa [hfu.writtenTypes_eq]

omit hunions hmade in
theorem mem_memberTypes {t : TypeSpec} :
    t ∈ (applyEnableIf enabled m).memberTypes ↔
      t ∈ (m.structs.filter (fun s => isDeclEnabled enabled s.enableIf)).flatMap
        (StructDecl.writtenTypes (isDeclEnabled enabled)) ∨
      t ∈ (filterUnions enabled m.unions).flatMap (fun u => u.fields.map (·.type)) ∨
      ∃ i ∈ m.interfaces, isDeclEnabled enabled i.enableIf = true ∧
        (t ∈ (i.structs.filter (fun s => isDeclEnabled enabled s.enableIf)).flatMap
            (StructDecl.writtenTypes (isDeclEnabled enabled)) ∨
          t ∈ (i.unions.filter (fun u => isDeclEnabled enabled u.enableIf)).flatMap
            (UnionDecl.writtenTypes (isDeclEnabled enabled)) ∨
          ∃ f ∈ i.methods, isDeclEnabled enabled f.enableIf = true ∧ t ∈ f.memberTypes) := by
  have hmem {β : Type} (g : Interface → List β) (b : β) :
      b ∈ (applyEnableIf enabled m).interfaces.flatMap g ↔
        ∃ i ∈ m.interfaces, isDeclEnabled enabled i.enableIf = true ∧
          b ∈ g (filterInterface enabled i) := by
    simp only [applyEnableIf, filterInterfaces, mem_flatMap, List.mem_map, mem_filter]
    constructor
    · rintro ⟨_, ⟨i, ⟨hi, hon⟩, rfl⟩, hb⟩
      exact ⟨i, hi, hon, hb⟩
    · rintro ⟨i, hi, hon, hb⟩
      exact ⟨_, ⟨i, ⟨hi, hon⟩, rfl⟩, hb⟩
  rw [Module.memberTypes, Module.allStructs, Module.allUnions, Module.methods,
    flatMap_append, flatMap_append, flatMap_assoc, flatMap_assoc,
    flatMap_assoc]
  simp only [mem_append, hmem]
  simp only [applyEnableIf, filterInterface, types_filterStructs, mem_types_filterUnions,
    mem_flatMap (l := List.filter _ (Interface.methods _)), mem_filter]
  grind

omit hunions hmade in
theorem mem_memberTypes_method {f : Method} {t : TypeSpec} :
    t ∈ f.memberTypes ↔
      t ∈ (f.writtenParams.filter (fun p => isDeclEnabled enabled p.enableIf)).map (·.type) ∨
      t ∈ (f.writtenParams.filter (fun p => !isDeclEnabled enabled p.enableIf)).map (·.type) ∨
      (f.result.isSome = true ∧ t ∈ f.responseParams.map (·.type)) := by
  have hsplit : t ∈ f.writtenParams.map (·.type) ↔
      t ∈ (f.writtenParams.filter (fun p => isDeclEnabled enabled p.enableIf)).map (·.type) ∨
      t ∈ (f.writtenParams.filter (fun p => !isDeclEnabled enabled p.enableIf)).map (·.type) := by
    simp only [List.mem_map, mem_filter]
    grind
  rw [← or_assoc, ← hsplit, Method.memberTypes, Method.writtenParams, map_append,
    mem_append, mem_append]
  cases f.result.isSome with
  | true => simp
  | false => simp

/-- Nothing is left but what was written on, the parameters that are off, the types of responses
that are off, and the references to the synthesized unions. -/
theorem mem_memberTypes_iff {t : TypeSpec} :
    t ∈ (applyEnableIf enabled m).memberTypes ↔
      t ∈ m.writtenTypes (isDeclEnabled enabled) ∨ t ∈ m.offParamTypes (isDeclEnabled enabled) ∨
      t ∈ m.offResultTypes (isDeclEnabled enabled) ∨
      ∃ i ∈ m.interfaces, isDeclEnabled enabled i.enableIf = true ∧
        ∃ f ∈ i.methods, isDeclEnabled enabled f.enableIf = true ∧ f.result.isSome = true ∧
          t ∈ f.responseParams.map (·.type) := by
  have hinterfaces : t ∈ (m.interfaces.filter (fun i => isDeclEnabled enabled i.enableIf)).flatMap
      (Interface.writtenTypes (isDeclEnabled enabled)) ↔
      ∃ i ∈ m.interfaces, isDeclEnabled enabled i.enableIf = true ∧
        (t ∈ (i.structs.filter (fun s => isDeclEnabled enabled s.enableIf)).flatMap
            (StructDecl.writtenTypes (isDeclEnabled enabled)) ∨
          t ∈ (i.unions.filter (fun u => isDeclEnabled enabled u.enableIf)).flatMap
            (UnionDecl.writtenTypes (isDeclEnabled enabled)) ∨
          ∃ f ∈ i.methods, isDeclEnabled enabled f.enableIf = true ∧
            (t ∈ (f.writtenParams.filter (fun p => isDeclEnabled enabled p.enableIf)).map
              (·.type) ∨ t ∈ f.resultTypes)) := by
    rw [mem_flatMap]
    simp only [Interface.writtenTypes, mem_append, mem_filter, Method.writtenTypes,
      mem_flatMap (l := List.filter _ (Interface.methods _))]
    grind
  have hparams : t ∈ m.offParamTypes (isDeclEnabled enabled) ↔
      ∃ i ∈ m.interfaces, isDeclEnabled enabled i.enableIf = true ∧
        ∃ f ∈ i.methods, isDeclEnabled enabled f.enableIf = true ∧
          t ∈ (f.writtenParams.filter (fun p => !isDeclEnabled enabled p.enableIf)).map
            (·.type) := by
    rw [Module.offParamTypes, mem_flatMap]
    simp only [mem_flatMap (l := List.filter _ (Interface.methods _)), mem_filter,
      and_assoc]
  have hresults : t ∈ m.offResultTypes (isDeclEnabled enabled) ↔
      ∃ i ∈ m.interfaces, ∃ f ∈ i.methods,
        ¬(isDeclEnabled enabled i.enableIf = true ∧ isDeclEnabled enabled f.enableIf = true) ∧
          t ∈ f.resultTypes := by
    rw [Module.offResultTypes, mem_flatMap]
    simp only [mem_flatMap, mem_filter, and_assoc, Bool.not_eq_true',
      Bool.and_eq_false_iff]
    grind
  rw [mem_memberTypes, mem_types_unions hunions hmade, Module.writtenTypes, mem_append,
    mem_append, hinterfaces, hparams, hresults]
  simp only [@mem_memberTypes_method enabled]
  grind

end

theorem mem_survivors_of_plain {enabled : List String} {m : Module} {u : UnionDecl}
    (hu : u ∈ m.unions) (hon : isDeclEnabled enabled u.enableIf = true)
    (hfull : someVariant enabled u = true) : Target.type .union u.name "" ∈ survivors enabled m := by
  refine mem_append_left _ (mem_append_right _ (List.mem_map.mpr ⟨u, ?_, rfl⟩))
  rw [mem_filter, hon, hfull]
  exact ⟨hu, rfl⟩

/-- **When a filtered module is closed.** -/
theorem closed_iff {p : Prelude} {tokens : List Token} {m : Module} {s' : Parser}
    (h : parseFile p tokens { rest := tokens } = .ok m s') (enabled : List String)
    (hkept : ReferencesKept enabled m) : Closed enabled m ↔ NoLooseEnd enabled m := by
  obtain ⟨written, made, hunions, hmade⟩ := unions_of_parseFile rfl h
  rw [Closed, allTargets_applyEnableIf]
  constructor
  · intro hclosed
    refine ⟨fun t ht d hd hon => ?_, fun t ht => hclosed t ?_, fun t ht => hclosed t ?_⟩
    · exact hclosed t ((mem_memberTypes_iff hunions hmade).mpr (Or.inl ht)) d hd
        (targets_subset _ _ m hon)
    · exact (mem_memberTypes_iff hunions hmade).mpr (Or.inr (Or.inl ht))
    · exact (mem_memberTypes_iff hunions hmade).mpr (Or.inr (Or.inr (Or.inl ht)))
  · intro hno t ht d hd hall
    rcases (mem_memberTypes_iff hunions hmade).mp ht with ht | ht | ht | ht
    · exact hno.unions t ht d hd (hkept t ht d hd hall)
    · exact hno.params t ht d hd hall
    · exact hno.results t ht d hd hall
    · -- The response of a method that stays is its union, which has no clause.
      obtain ⟨i, hi, -, f, hf, -, hr, ht⟩ := ht
      obtain ⟨u, hu, hfu⟩ := exists_made_of_mem hmade hi hf hr
      rw [hfu.responseParams] at ht
      obtain rfl := mem_singleton.mp ht
      obtain rfl := mem_singleton.mp hd
      refine mem_survivors_of_plain ?_ hfu.isOn hfu.someVariant
      rw [hunions]
      exact mem_append_right _ hu

/-- A method with a `result<T, E>` response, and the type of it, under one flag. -/
def flaggedResult : String :=
  "[EnableIf=f] struct T \x7b\x7d; " ++
    "interface I \x7b [EnableIf=f] M() => result<T, int32>; \x7d;"

theorem closed_iff_result :
    ∃ m, parseText flaggedResult = .ok m ∧ ReferencesKept ["f"] m ∧
      (Closed ["f"] m ↔ NoLooseEnd ["f"] m) := by
  obtain ⟨m, hm, hkept⟩ := exists_ok_of_any
    (x := parseText flaggedResult)
    (p := fun m => ReferencesKept ["f"] m) (by decide +kernel)
  obtain ⟨tokens, s', -, hfile⟩ := parseFile_of_parseText hm
  have hkept : ReferencesKept ["f"] m := of_decide_eq_true hkept
  exact ⟨m, hm, hkept, closed_iff hfile ["f"] hkept⟩

/-- The union made for a method that is off stays, with a type that is gone. -/
theorem not_closed_result :
    ∃ m, parseText flaggedResult = .ok m ∧ ReferencesKept [] m ∧ ¬Closed [] m := by
  obtain ⟨m, hm, htest⟩ := exists_ok_of_any
    (x := parseText flaggedResult)
    (p := fun m => ReferencesKept [] m ∧
      .ref .struct ["T"] ⟨"T", "", ""⟩ ∈ (applyEnableIf [] m).memberTypes ∧
      .type .struct "T" "" ∈ m.allTargets ∧
      .type .struct "T" "" ∉ (applyEnableIf [] m).allTargets) (by decide +kernel)
  obtain ⟨hkept, hmem, hall, hgone⟩ := of_decide_eq_true htest
  exact ⟨m, hm, hkept, fun hclosed =>
    hgone (hclosed _ hmem (.type .struct "T" "") mem_cons_self hall)⟩

end Voodoo.Compiler
