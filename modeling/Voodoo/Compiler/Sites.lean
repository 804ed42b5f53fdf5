import Voodoo.Compiler.Parser

/-!
# Sites

Every place of a parsed file that names another declaration.  A site is a type with the
default value that stands next to it, if any; `Module.sites` are all of a file.
`TypeSpec.refs` are the references to structs, unions and enums within one type.

`Env.Resolved` and `Env.DefaultOf` say where the parser gets them from: the functions of
`Env` applied to the names they are spelled with.
-/

namespace Voodoo.Compiler

open List

/-! ### References in a type -/

/-- A reference to a struct, union or enum, with the names it is spelled with. -/
structure Reference where
  kind : RefKind
  spelled : List String
  target : TypeRef
  deriving DecidableEq

namespace TypeSpec

def refs : TypeSpec → List Reference
  | ref kind spelled target => [⟨kind, spelled, target⟩]
  | array element _ => element.refs
  | map key element => key.refs ++ element.refs
  | nullable t => t.refs
  | _ => []

/-- The interfaces of the pending types in a type, with the names they are spelled with. -/
def interfaces : TypeSpec → List (List String × TypeRef)
  | handle _ spelled interface => [(spelled, interface)]
  | array element _ => element.interfaces
  | map key element => key.interfaces ++ element.interfaces
  | nullable t => t.interfaces
  | _ => []

/-- The enum a default of the type is an enumerator of. -/
def enumTarget? : TypeSpec → Option TypeRef
  | ref .enum _ target => some target
  | nullable t => t.enumTarget?
  | _ => none

end TypeSpec

/-! ### Sites of a declaration -/

abbrev Site := TypeSpec × Option DefaultValue

def ConstDecl.site (c : ConstDecl) : Site := (c.type, some c.value)

def StructDecl.sites (s : StructDecl) : List Site :=
  s.fields.map (fun f => (f.type, f.defaultValue)) ++ s.consts.map ConstDecl.site

def UnionDecl.sites (u : UnionDecl) : List Site := u.fields.map (fun f => (f.type, none))

def paramSites (params : List Param) : List Site := params.map (fun p => (p.type, none))

/-- For a `result<T, E>` response the two types, not the union that is made of them. -/
def Method.sites (m : Method) : List Site :=
  paramSites m.params ++ match m.result with
    | some (valueType, errorType) => [(valueType, none), (errorType, none)]
    | none => paramSites m.responseParams

def Interface.sites (i : Interface) : List Site :=
  i.methods.flatMap Method.sites ++ i.consts.map ConstDecl.site ++
    i.structs.flatMap StructDecl.sites ++ i.unions.flatMap UnionDecl.sites

def FeatureDecl.sites (f : FeatureDecl) : List Site := f.consts.map ConstDecl.site

def Module.sites (m : Module) : List Site :=
  m.structs.flatMap StructDecl.sites ++ m.unions.flatMap UnionDecl.sites ++
    m.interfaces.flatMap Interface.sites ++ m.consts.map ConstDecl.site ++
    m.features.flatMap FeatureDecl.sites

/-! ### Where they come from -/

namespace Env

variable (env : Env)

/-- A reference is looked up by the names it is spelled with. -/
def ResolvedRef (r : Reference) : Prop :=
  (∃ name, .ref r.kind r.spelled r.target = env.bareType name) ∨
  ∃ first segs, segs ≠ [] ∧ .ref r.kind r.spelled r.target = env.dottedType first segs

def ResolvedInterface (spelled : List String) (interface : TypeRef) : Prop :=
  interface = ⟨"", "", ""⟩ ∨ ∃ kind first segs,
    .handle kind spelled interface = interfaceHandle env kind first segs

structure Resolved (t : TypeSpec) : Prop where
  refs : ∀ r ∈ t.refs, env.ResolvedRef r
  interfaces : ∀ i ∈ t.interfaces, env.ResolvedInterface i.1 i.2

/-- A default that names something names a const, or an enumerator of the type it stands next
to. -/
def DefaultOf (t : TypeSpec) (v : DefaultValue) : Prop :=
  v.namedExprOwnerNamespace = "" ∨ v.namedExprOwnerNamespace = env.ownerOf v.namedExpr ∨
  ∃ target, t.enumTarget? = some target ∧ v.namedExprOwnerNamespace = target.ownerNamespace ∧
    v.namedExprOwnerContainer = target.ownerContainer

structure SiteOk (site : Site) : Prop where
  type : env.Resolved site.1
  default : ∀ v ∈ site.2, env.DefaultOf site.1 v

def SitesOk (sites : List Site) : Prop := ∀ site ∈ sites, env.SiteOk site

variable {env}

@[simp, grind =] theorem sitesOk_append {l l' : List Site} :
    env.SitesOk (l ++ l') ↔ env.SitesOk l ∧ env.SitesOk l' := by
  simp [SitesOk, or_imp, forall_and]

@[simp, grind .] theorem sitesOk_nil : env.SitesOk [] := by simp [SitesOk]

@[simp, grind =] theorem sitesOk_cons {site : Site} {l : List Site} :
    env.SitesOk (site :: l) ↔ env.SiteOk site ∧ env.SitesOk l := by
  simp [SitesOk]

theorem externalType_eq_ref (spelled : List String) (qual name : String) :
    ∃ kind target, env.externalType spelled qual name = .ref kind spelled target := by
  unfold externalType
  split
  · exact ⟨_, _, rfl⟩
  · exact ⟨_, _, rfl⟩

theorem bareType_eq_ref (name : String) :
    ∃ kind target, env.bareType name = .ref kind [name] target := by
  unfold bareType
  split
  · exact ⟨_, _, rfl⟩
  · exact externalType_eq_ref _ _ _

theorem nestedType_eq_ref {container name : String} {t : TypeSpec}
    (h : env.nestedType container name = some t) :
    ∃ kind target, t = .ref kind [container, name] target := by
  unfold nestedType at h
  split at h
  · exact ⟨_, _, (Option.some.inj h).symm⟩
  · split at h
    · exact ⟨_, _, (Option.some.inj h).symm⟩
    · split at h
      · exact ⟨_, _, (Option.some.inj h).symm⟩
      · cases h

theorem dottedType_cases (first : String) (segs : List String) :
    (∃ ns kind container, env.qualifiedOwner (".".intercalate (first :: segs.dropLast))
        (segs.getLastD first) = some ns ∧
      env.declared (segs.getLastD first) = some (kind, container) ∧
      env.dottedType first segs = .ref kind (first :: segs) ⟨segs.getLastD first, ns, container⟩) ∨
    (∃ name t, segs = [name] ∧ env.nestedType first name = some t ∧
      env.dottedType first segs = t) ∨
    env.dottedType first segs = env.externalType (first :: segs)
      (".".intercalate (first :: segs.dropLast)) (segs.getLastD first) := by
  let qualifier := ".".intercalate (first :: segs.dropLast)
  let last := segs.getLastD first
  let asNested := if segs.length = 1 then env.nestedType first last else none
  -- Where the qualifier is no module of the name, a container may have it.
  have hnested : env.dottedType first segs =
        asNested.getD (env.externalType (first :: segs) qualifier last) →
      (∃ name t, segs = [name] ∧ env.nestedType first name = some t ∧
        env.dottedType first segs = t) ∨
      env.dottedType first segs = env.externalType (first :: segs) qualifier last := by
    intro h
    cases ht : asNested with
    | none => exact Or.inr (by rw [h, ht]; rfl)
    | some t =>
      obtain ⟨hlen, ht'⟩ : segs.length = 1 ∧ env.nestedType first last = some t := by
        simpa [asNested] using ht
      obtain ⟨name, rfl⟩ := length_eq_one_iff.mp hlen
      exact Or.inl ⟨name, t, rfl, ht', by rw [h, ht]; rfl⟩
  cases hq : env.qualifiedOwner qualifier last with
  | none => exact Or.inr (hnested (by simp only [dottedType]; rw [hq]; rfl))
  | some ns =>
    cases hd : env.declared last with
    | none => exact Or.inr (hnested (by simp only [dottedType]; rw [hq, hd]; rfl))
    | some p =>
      exact Or.inl ⟨ns, p.1, p.2, rfl, rfl, by simp only [dottedType]; rw [hq, hd]; rfl⟩

theorem dottedType_eq_ref (first : String) (segs : List String) :
    ∃ kind target, env.dottedType first segs = .ref kind (first :: segs) target := by
  rcases env.dottedType_cases first segs with ⟨ns, kind, container, -, -, h⟩ | ⟨name, t, rfl, ht, h⟩ | h
  · exact ⟨_, _, h⟩
  · rw [h]
    exact nestedType_eq_ref ht
  · rw [h]
    exact externalType_eq_ref _ _ _

/-! ### Types -/

@[grind .] theorem resolved_scalar (kind : ScalarKind) : env.Resolved (.scalar kind) :=
  ⟨fun _ h => absurd h not_mem_nil, fun _ h => absurd h not_mem_nil⟩

@[grind .] theorem resolved_string : env.Resolved .string :=
  ⟨fun _ h => absurd h not_mem_nil, fun _ h => absurd h not_mem_nil⟩

@[grind =] theorem resolved_array {t : TypeSpec} {n : Nat} :
    env.Resolved (.array t n) ↔ env.Resolved t :=
  ⟨fun h => ⟨h.refs, h.interfaces⟩, fun h => ⟨h.refs, h.interfaces⟩⟩

@[grind =] theorem resolved_nullable {t : TypeSpec} : env.Resolved (.nullable t) ↔ env.Resolved t :=
  ⟨fun h => ⟨h.refs, h.interfaces⟩, fun h => ⟨h.refs, h.interfaces⟩⟩

@[grind .] theorem resolved_map {t u : TypeSpec} (ht : env.Resolved t) (hu : env.Resolved u) :
    env.Resolved (.map t u) where
  refs r hr := (mem_append.mp hr).elim (ht.refs r) (hu.refs r)
  interfaces i hi := (mem_append.mp hi).elim (ht.interfaces i) (hu.interfaces i)

@[grind .] theorem resolved_handle (kind : HandleKind) :
    env.Resolved (.handle kind [] ⟨"", "", ""⟩) where
  refs _ h := absurd h not_mem_nil
  interfaces _ hi := Or.inl (congrArg Prod.snd (mem_singleton.mp hi))

@[grind .] theorem resolved_interfaceHandle (kind : HandleKind) (first : String)
    (segs : List String) : env.Resolved (interfaceHandle env kind first segs) where
  refs _ h := absurd h not_mem_nil
  interfaces i hi := by
    rw [mem_singleton.mp hi]
    exact Or.inr ⟨kind, first, segs, rfl⟩

@[grind .] theorem resolved_bareType (name : String) : env.Resolved (env.bareType name) := by
  obtain ⟨kind, target, h⟩ := env.bareType_eq_ref name
  rw [h]
  refine ⟨fun r hr => ?_, fun _ h => absurd h not_mem_nil⟩
  rw [mem_singleton.mp hr]
  exact Or.inl ⟨name, h.symm⟩

@[grind .] theorem resolved_dottedType (first : String) {segs : List String} (hs : segs ≠ []) :
    env.Resolved (env.dottedType first segs) := by
  obtain ⟨kind, target, h⟩ := env.dottedType_eq_ref first segs
  rw [h]
  refine ⟨fun r hr => ?_, fun _ h => absurd h not_mem_nil⟩
  rw [mem_singleton.mp hr]
  exact Or.inr ⟨first, segs, hs, h.symm⟩

/-! ### Defaults -/

section

variable {t : TypeSpec} {v : DefaultValue}

@[grind .] theorem defaultOf_of_none (h : v.namedExprOwnerNamespace = "") : env.DefaultOf t v :=
  Or.inl h

@[grind .] theorem defaultOf_of_const (h : v.namedExprOwnerNamespace = env.ownerOf v.namedExpr) :
    env.DefaultOf t v := Or.inr (Or.inl h)

@[grind .] theorem defaultOf_enum (spelled : List String) (target : TypeRef)
    (hns : v.namedExprOwnerNamespace = target.ownerNamespace)
    (hc : v.namedExprOwnerContainer = target.ownerContainer) :
    env.DefaultOf (.ref .enum spelled target) v := Or.inr (Or.inr ⟨target, rfl, hns, hc⟩)

end

end Env

end Voodoo.Compiler
