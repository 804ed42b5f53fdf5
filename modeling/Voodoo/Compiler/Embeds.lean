import Voodoo.Compiler.CompleteTypes
import Mathlib.Data.Prod.Lex

/-!
# The order of type definitions

A generated header defines the structs and unions of a file in the order `SortEmbeds`
gives them, each with the members `CppValueType` spells.

`CppType` is that spelling, and `CppType.complete` the classes C++ wants complete in
it: those held by value, in `std::optional` or in `std::array`, and not those in a
`CageVector` or a `CageMap`.  `completeTypeDeps` sees the first and the third of these
positions, but neither the second nor a name under the module's own namespace:
`hiddenDeps` are the ones it misses, so whether they come first is up to the rest of
the graph and to the declaration order (`definedInOrder_iff`).
-/

namespace Voodoo.Compiler

open Kahn List

/-! ### C++ types -/

inductive CppType where
  | scalar (kind : ScalarKind)
  | string
  /-- `QualifierPrefix(owner_namespace, owner_container) + name`. -/
  | named (kind : RefKind) (target : TypeRef)
  | stdArray (element : CppType) (size : Nat)
  | cageVector (element : CppType)
  | cageMap (key element : CppType)
  | optional (type : CppType)
  | handle (kind : HandleKind) (interface : TypeRef)
  deriving DecidableEq

/-- `CppValueType`. -/
def cppValueType : TypeSpec → CppType
  | .scalar kind => .scalar kind
  | .string => .string
  | .ref kind _ target => .named kind target
  | .array element fixedArraySize =>
    if 0 < fixedArraySize then .stdArray (cppValueType element) fixedArraySize
    else .cageVector (cppValueType element)
  | .map key element => .cageMap (cppValueType key) (cppValueType element)
  | .handle kind _ interface | .nullable (.handle kind _ interface) => .handle kind interface
  | .nullable t => .optional (cppValueType t)

/-- The structs and unions that must be complete where a member has this type. -/
def CppType.complete : CppType → List TypeRef
  | named .enum _ => []
  | named _ target => [target]
  | stdArray element _ => element.complete
  | optional type => type.complete
  | _ => []

/-- The name of a struct or union of the module `moduleName` itself. -/
def sameFileName (moduleName : String) (target : TypeRef) : Option String :=
  if target.ownerNamespace = "" ∨ target.ownerNamespace = moduleName then some target.cppEmbedName
  else none

/-- The structs and unions of the same file that a member of type `t` needs complete. -/
def requiredNames (moduleName : String) (t : TypeSpec) : List String :=
  (cppValueType t).complete.filterMap (sameFileName moduleName)

/-- Those of them that `completeTypeDeps` leaves out. -/
def hiddenDeps (moduleName : String) : TypeSpec → List String
  | .nullable (.ref .enum ..) => []
  | .nullable (.ref _ _ target) => (sameFileName moduleName target).toList
  | .nullable t => hiddenDeps moduleName t
  | .array element fixedArraySize =>
    if fixedArraySize = 0 then [] else hiddenDeps moduleName element
  | .ref .enum .. => []
  | .ref _ _ target =>
    if target.ownerNamespace = "" then [] else (sameFileName moduleName target).toList
  | _ => []

theorem mem_requiredNames_iff {moduleName name : String} {t : TypeSpec} :
    name ∈ requiredNames moduleName t ↔
      name ∈ completeTypeDeps t ∨ name ∈ hiddenDeps moduleName t := by
  unfold requiredNames
  induction t with
  | ref kind spelled target =>
    by_cases h : target.ownerNamespace = ""
    · cases kind <;>
        simp [cppValueType, CppType.complete, completeTypeDeps, hiddenDeps, sameFileName, h]
    · cases kind <;>
        simp [cppValueType, CppType.complete, completeTypeDeps, hiddenDeps, sameFileName, h]
  | array element size ih =>
    by_cases h : size = 0
    · simp [cppValueType, CppType.complete, completeTypeDeps, hiddenDeps, h]
    · simpa [cppValueType, CppType.complete, completeTypeDeps, hiddenDeps, h, Nat.pos_of_ne_zero h]
        using ih
  | nullable t ih =>
    cases t with
    | ref kind spelled target =>
      cases kind <;> simp [cppValueType, CppType.complete, completeTypeDeps, hiddenDeps]
    | array | nullable =>
      simpa [cppValueType, CppType.complete, completeTypeDeps, hiddenDeps] using ih
    | _ => simp [cppValueType, CppType.complete, completeTypeDeps, hiddenDeps]
  | _ => simp [cppValueType, CppType.complete, completeTypeDeps, hiddenDeps]

/-! ### `SortEmbeds` -/

section

variable (embeds : List Embed)

/-- `index`: the last struct or union of that name. -/
def embedIndex (name : String) : Option (Fin embeds.length) :=
  ((List.finRange embeds.length).filter (fun i => (embeds.get i).key = name)).getLast?

def embedGraph : Graph (Fin embeds.length) where
  nodes := List.finRange embeds.length
  deps i := (embeds.get i).deps.dedup.filterMap (embedIndex embeds)

/-- The order of `ready`: by `decl_index`, then by the place in the list. -/
def embedKey (i : Fin embeds.length) : Nat ×ₗ Fin embeds.length :=
  toLex ((embeds.get i).declIndex, i)

def embedOrder : List (Fin embeds.length) := (embedGraph embeds).sort (embedKey embeds)

/-- `none` is the `std::logic_error` of a cycle. -/
def sortEmbeds : Option (List Embed) :=
  if (embedOrder embeds).length = embeds.length then some ((embedOrder embeds).map embeds.get)
  else none

end

/-! ### The definitions of a header -/

structure GeneratorOptions where
  typemaps : StringMap String := []

/-- `LookupTypemap`. -/
def GeneratorOptions.lookupTypemap (opt : GeneratorOptions) (name ownerContainer moduleNs : String) :
    Option String :=
  opt.typemaps.lookup name <|>
    (if ownerContainer = "" then none else opt.typemaps.lookup (ownerContainer ++ "_" ++ name)) <|>
    if moduleNs = "" then none else opt.typemaps.lookup (moduleNs ++ "." ++ name)

/-- One type definition of a header: a class with its members, or `using name = mapped;`. -/
structure TypeDefinition where
  name : String
  mapped : Option String := none
  members : List CppType := []
  deriving DecidableEq

def Embed.typemap (opt : GeneratorOptions) (moduleNs : String) : Embed → Option String
  | .struct s => opt.lookupTypemap s.name s.ownerContainer moduleNs
  | .union _ => none

/-- `EmitStructType` and `EmitUnionType`. -/
def Embed.definition (opt : GeneratorOptions) (moduleNs : String) (e : Embed) : TypeDefinition :=
  match e.typemap opt moduleNs with
  | some mapped => { name := e.key, mapped := some mapped }
  | none => { name := e.key, members := e.memberTypes.map cppValueType }

/-- The type definitions of the header generated for `m`, in order. -/
def typeDefinitions (opt : GeneratorOptions) (m : Module) : Option (List TypeDefinition) :=
  (sortEmbeds m.embeds).map (·.map (Embed.definition opt m.name))

/-- Whatever struct or union of the same header a definition needs complete is defined before it. -/
def DefinedInOrder (moduleName : String) (defs : List TypeDefinition) : Prop :=
  ∀ (p : Nat) (d : TypeDefinition), defs[p]? = some d → ∀ c ∈ d.members, ∀ target ∈ c.complete,
    ∀ name, sameFileName moduleName target = some name → name ≠ d.name →
      name ∈ defs.map (·.name) → ∃ q e, q < p ∧ defs[q]? = some e ∧ e.name = name

/-- A struct or union that `completeTypeDeps` does not see precedes the one that needs it all the
same: compared peak by peak, it is the sooner. -/
def HiddenSooner (opt : GeneratorOptions) (m : Module) : Prop :=
  ∀ i : Fin m.embeds.length, (m.embeds.get i).typemap opt m.name = none →
    ∀ t ∈ (m.embeds.get i).memberTypes, ∀ name ∈ hiddenDeps m.name t,
      name ≠ (m.embeds.get i).key → name ∈ m.embedNames →
        ∃ j : Fin m.embeds.length, (m.embeds.get j).key = name ∧
          Sooner (embedGraph m.embeds) (embedKey m.embeds) none j i

/-! ### The sort always succeeds -/

section

variable {embeds : List Embed} {m : Module}

theorem nodup_embedGraph : (embedGraph embeds).nodes.Nodup := nodup_finRange _

theorem embedGraph_closed : (embedGraph embeds).Closed := fun _ _ _ _ => mem_finRange _

theorem embedKey_injective : Function.Injective (embedKey embeds) := fun _ _ h =>
  congrArg (fun p => (ofLex p).2) h

theorem embedOrder_greedy : Greedy (embedGraph embeds) (embedKey embeds) [] (embedOrder embeds) :=
  sort_greedy nodup_embedGraph _

theorem key_of_embedIndex {name : String} {i : Fin embeds.length}
    (h : embedIndex embeds name = some i) : (embeds.get i).key = name := by
  simpa using of_mem_filter (mem_of_getLast? h)

theorem embedIndex_isSome {e : Embed} (he : e ∈ embeds) :
    ∃ i, embedIndex embeds e.key = some i := by
  obtain ⟨i, hi⟩ := mem_iff_get.mp he
  have hmem : i ∈ (List.finRange embeds.length).filter (fun i => (embeds.get i).key = e.key) :=
    mem_filter.mpr ⟨mem_finRange i, decide_eq_true (congrArg Embed.key hi)⟩
  exact ⟨_, getLast?_eq_some_getLast (ne_nil_of_mem hmem)⟩

theorem embedGraph_acyclic (hm : m.completeTypeGraph.Acyclic)
    (hsub : ∀ e ∈ embeds, ∃ d ∈ m.embeds, d.key = e.key ∧ e.memberTypes ⊆ d.memberTypes) :
    (embedGraph embeds).Acyclic := by
  have hname (i : Fin embeds.length) : (embeds.get i).key ∈ m.embedNames := by
    obtain ⟨d, hd, hk, -⟩ := hsub _ (List.get_mem embeds i)
    exact mem_embedNames.mpr ⟨d, hd, hk⟩
  intro i _ hi
  refine hm (embeds.get i).key (hname i) ?_
  refine Relation.TransGen.lift (fun i => (embeds.get i).key) (fun i j hij => ?_) i i hi
  obtain ⟨name, hdep, hj⟩ := mem_filterMap.mp hij
  obtain ⟨d, hd, hk, hsub⟩ := hsub _ (List.get_mem embeds i)
  obtain ⟨t, ht, hname'⟩ := mem_flatMap.mp (mem_dedup.mp hdep)
  refine mem_completeTypeGraph_deps.mpr ⟨hname j, d, hd, hk, ?_⟩
  show (embeds.get j).key ∈ d.deps
  rw [key_of_embedIndex hj]
  exact mem_flatMap.mpr ⟨t, hsub ht, hname'⟩

variable (hg : (embedGraph embeds).Acyclic)
include hg

theorem mem_embedOrder (i : Fin embeds.length) : i ∈ embedOrder embeds :=
  embedOrder_greedy.complete embedGraph_closed hg (mem_finRange i)

theorem length_embedOrder : (embedOrder embeds).length = embeds.length := by
  rw [embedOrder_greedy.length_eq nodup_embedGraph embedGraph_closed hg]
  exact length_finRange

theorem sortEmbeds_eq : sortEmbeds embeds = some ((embedOrder embeds).map embeds.get) :=
  if_pos (length_embedOrder hg)

end

/-! ### What comes first -/

section

variable {opt : GeneratorOptions} {m : Module}

theorem definition_name (opt : GeneratorOptions) (moduleNs : String) (e : Embed) :
    (e.definition opt moduleNs).name = e.key := by
  unfold Embed.definition
  split <;> rfl

theorem mem_definition_members {moduleNs : String} {e : Embed} {c : CppType}
    (h : c ∈ (e.definition opt moduleNs).members) :
    e.typemap opt moduleNs = none ∧ ∃ t ∈ e.memberTypes, cppValueType t = c := by
  unfold Embed.definition at h
  split at h
  · exact absurd h not_mem_nil
  · next hmap => exact ⟨hmap, List.mem_map.mp h⟩

theorem names_typeDefinitions {embeds : List Embed} (hg : (embedGraph embeds).Acyclic)
    {moduleNs name : String} :
    name ∈ (((embedOrder embeds).map embeds.get).map (Embed.definition opt moduleNs)).map (·.name) ↔
      ∃ e ∈ embeds, e.key = name := by
  simp only [List.map_map, List.mem_map, Function.comp_apply, definition_name]
  constructor
  · rintro ⟨i, -, hi⟩
    exact ⟨_, List.get_mem embeds i, hi⟩
  · rintro ⟨e, he, hk⟩
    obtain ⟨i, rfl⟩ := mem_iff_get.mp he
    exact ⟨i, mem_embedOrder hg i, hk⟩

theorem getElem?_definitions {embeds : List Embed} {moduleNs : String} {p : Nat}
    {d : TypeDefinition}
    (h : (((embedOrder embeds).map embeds.get).map (Embed.definition opt moduleNs))[p]? = some d) :
    ∃ i, i ∈ embedOrder embeds ∧ (embedOrder embeds).idxOf i = p ∧
      d = (embeds.get i).definition opt moduleNs := by
  simp only [getElem?_map, Option.map_map, Option.map_eq_some_iff] at h
  obtain ⟨i, hi, rfl⟩ := h
  obtain ⟨hp, rfl⟩ := List.getElem?_eq_some_iff.mp hi
  exact ⟨_, getElem_mem hp, embedOrder_greedy.nodup.idxOf_getElem p hp, rfl⟩

theorem getElem?_idxOf_definitions {embeds : List Embed} (hg : (embedGraph embeds).Acyclic)
    {moduleNs : String} (i : Fin embeds.length) :
    (((embedOrder embeds).map embeds.get).map
      (Embed.definition opt moduleNs))[(embedOrder embeds).idxOf i]? =
      some ((embeds.get i).definition opt moduleNs) := by
  simp only [getElem?_map, getElem?_idxOf (mem_embedOrder hg i), Option.map_some]

/-- `definedInOrder_iff` for a list of structs and unions without a cycle. -/
theorem definedInOrder_iff_of_acyclic (hg : (embedGraph m.embeds).Acyclic) :
    ∃ defs, typeDefinitions opt m = some defs ∧
      (DefinedInOrder m.name defs ↔ HiddenSooner opt m) := by
  refine ⟨_, congrArg (Option.map _) (sortEmbeds_eq hg), ?_⟩
  have hgreedy : Greedy _ _ [] (embedOrder m.embeds) := embedOrder_greedy
  have hbefore {j i : Fin m.embeds.length} (hne : j ≠ i) :=
    hgreedy.before_iff embedGraph_closed hg embedKey_injective.injOn hne (mem_finRange j)
      (mem_finRange i)
  constructor
  · intro h i hmap t ht name hname hne hin
    have hd : (((embedOrder m.embeds).map m.embeds.get).map
        (Embed.definition opt m.name))[(embedOrder m.embeds).idxOf i]? = some _ :=
      getElem?_idxOf_definitions hg i
    have hreq := mem_requiredNames_iff.mpr (Or.inr hname)
    obtain ⟨target, htarget, hsame⟩ := mem_filterMap.mp hreq
    have hmem : cppValueType t ∈ ((m.embeds.get i).definition opt m.name).members := by
      rw [Embed.definition, hmap]
      exact List.mem_map_of_mem ht
    obtain ⟨q, e, hq, he, rfl⟩ := h _ _ hd _ hmem target htarget name hsame
      (by rwa [definition_name])
      ((names_typeDefinitions hg).mpr (mem_embedNames.mp hin))
    obtain ⟨j, -, rfl, rfl⟩ := getElem?_definitions he
    rw [definition_name] at hne ⊢
    exact ⟨j, rfl, (hbefore (fun hji => hne (by rw [hji]))).mp hq⟩
  · intro h p d hd member hmem target htarget name hsame hne hin
    obtain ⟨i, hi, rfl, rfl⟩ := getElem?_definitions hd
    obtain ⟨hmap, t, ht, rfl⟩ := mem_definition_members hmem
    rw [definition_name] at hne
    have hin := (names_typeDefinitions hg).mp hin
    suffices H : ∃ j : Fin m.embeds.length, (m.embeds.get j).key = name ∧
        (embedOrder m.embeds).idxOf j < (embedOrder m.embeds).idxOf i by
      obtain ⟨j, hj, hlt⟩ := H
      exact ⟨_, _, hlt, getElem?_idxOf_definitions hg j, (definition_name _ _ _).trans hj⟩
    have hreq : name ∈ requiredNames m.name t := mem_filterMap.mpr ⟨target, htarget, hsame⟩
    rcases mem_requiredNames_iff.mp hreq with hdep | hhid
    · -- The graph has an edge for it.
      obtain ⟨e, he, hk⟩ := hin
      obtain ⟨j, hj⟩ := embedIndex_isSome he
      rw [hk] at hj
      refine ⟨j, key_of_embedIndex hj, hgreedy.dep_before hi ?_⟩
      refine mem_filterMap.mpr ⟨name, mem_dedup.mpr ?_, hj⟩
      exact mem_flatMap.mpr ⟨t, ht, hdep⟩
    · obtain ⟨j, hj, hs⟩ := h i hmap t ht name hhid hne (mem_embedNames.mpr hin)
      exact ⟨j, hj, (hbefore (fun hji => hne (by rw [← hj, hji]))).mpr hs⟩

end

/-- **When a header defines its types in an order C++ accepts.**  The definitions are always
emitted; whether each struct or union follows those it holds by value, in `std::optional` or in
`std::array` depends on the ones `completeTypeDeps` does not see. -/
theorem definedInOrder_iff {scanned : Scanned} {moduleName : String} {p : Prelude} {m : Module}
    {s s' : Parser} (h : parseBody scanned moduleName p s = .ok m s') (imports : List ImportDecl)
    (enabled : List String) (opt : GeneratorOptions) :
    ∃ defs, typeDefinitions opt (applyEnableIf enabled { m with name := moduleName, imports }) =
        some defs ∧
      (DefinedInOrder moduleName defs ↔
        HiddenSooner opt (applyEnableIf enabled { m with name := moduleName, imports })) := by
  refine definedInOrder_iff_of_acyclic (m := applyEnableIf enabled _) ?_
  exact embedGraph_acyclic (acyclic_of_parseBody h) (fun _ => mem_embeds_applyEnableIf)

theorem definedInOrder_iff_optional :
    ∃ m defs, parseText "struct A \x7b B? b; \x7d; struct B \x7b int32 x; \x7d;" = .ok m ∧
      typeDefinitions {} (applyEnableIf [] m) = some defs ∧
      (DefinedInOrder m.name defs ↔ HiddenSooner {} (applyEnableIf [] m)) := by
  obtain ⟨m, hm, -⟩ := exists_ok_of_any
    (x := parseText "struct A \x7b B? b; \x7d; struct B \x7b int32 x; \x7d;") (p := fun _ => true)
    (by decide +kernel)
  obtain ⟨tokens, s', -, hfile⟩ := parseFile_of_parseText hm
  obtain ⟨scanned, m', t, hbody, heq⟩ := parseBody_of_parseFile hfile
  obtain ⟨defs, hdefs, hiff⟩ := definedInOrder_iff hbody m.imports [] {}
  rw [← heq] at hdefs hiff
  exact ⟨m, defs, hm, hdefs, hiff⟩

/-- The optional `B` is declared after `A`, and nothing moves it in front. -/
theorem not_definedInOrder_optional :
    ∃ m defs, parseText "struct A \x7b B? b; \x7d; struct B \x7b int32 x; \x7d;" = .ok m ∧
      typeDefinitions {} (applyEnableIf [] m) = some defs ∧ ¬DefinedInOrder m.name defs := by
  let defs : List TypeDefinition :=
    [{ name := "A", members := [.optional (.named .struct ⟨"B", "", ""⟩)] },
      { name := "B", members := [.scalar .int32] }]
  obtain ⟨m, hm, htest⟩ := exists_ok_of_any
    (x := parseText "struct A \x7b B? b; \x7d; struct B \x7b int32 x; \x7d;")
    (p := fun m => m.name = "" ∧ typeDefinitions {} (applyEnableIf [] m) = some defs)
    (by decide +kernel)
  obtain ⟨hname, hdefs⟩ : m.name = "" ∧ typeDefinitions {} (applyEnableIf [] m) = some defs := by
    simpa using htest
  refine ⟨m, defs, hm, hdefs, fun hord => ?_⟩
  obtain ⟨q, e, hq, -, -⟩ := hord 0 _ rfl _ mem_cons_self ⟨"B", "", ""⟩
    (by simp [CppType.complete]) "B" (by rw [hname]; rfl) (by decide) (by decide)
  omega

end Voodoo.Compiler
