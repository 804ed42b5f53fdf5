import Voodoo.Compiler.Files

/-!
# Bare names in the bodies that nest their declarations

A type in the body of a struct or an interface may be written with the bare name of something that
the body itself declares (`Lexical`).  The tables of a file have one entry for a name and a kind, so
the type that is meant is the one that is found if and only if its declaration is the one that
`Prevails`: the last of its kind, with no declaration of a kind that is looked up before.
-/

namespace Voodoo.Compiler

open Env List Option

/-! ### Bodies -/

/-- The body of a struct or an interface: its name, and what is declared right in it. -/
structure Body where
  name : String
  nested : List (RefKind × String)

def StructDecl.body (s : StructDecl) : Body where
  name := s.name
  nested := s.enums.map fun e => (.enum, e.name)

def Interface.body (i : Interface) : Body where
  name := i.name
  nested := i.enums.map (fun e => (.enum, e.name)) ++ i.structs.map (fun s => (.struct, s.name)) ++
    i.unions.map fun u => (.union, u.name)

/-- A type and the bodies it is written in, the innermost first. -/
abbrev Written := List Body × TypeSpec

def StructDecl.written (around : List Body) (s : StructDecl) : List Written :=
  s.sites.map fun site => (s.body :: around, site.1)

/-- The members of an interface that are no structs. -/
def Interface.ownSites (i : Interface) : List Site :=
  i.methods.flatMap Method.sites ++ i.consts.map ConstDecl.site ++ i.unions.flatMap UnionDecl.sites

def Interface.written (i : Interface) : List Written :=
  i.ownSites.map (fun site => ([i.body], site.1)) ++ i.structs.flatMap (StructDecl.written [i.body])

/-- The types that are written in the body of a struct or an interface. -/
def Module.written (m : Module) : List Written :=
  m.structs.flatMap (StructDecl.written []) ++ m.interfaces.flatMap Interface.written

/-- The innermost of the bodies that declares the name. -/
def declaringBody (bodies : List Body) (name : String) : Option Body :=
  bodies.find? fun b => b.nested.any fun d => d.2 = name

/-- A bare name that one of the bodies declares stands for what the innermost of them declares. -/
def Lexical (bodies : List Body) (r : Reference) : Prop :=
  ∀ name, r.spelled = [name] → ∀ b ∈ declaringBody bodies name,
    (r.kind, name) ∈ b.nested ∧ r.target.ownerContainer = b.name

/-! ### The declaration that is found -/

namespace Prelude

variable (p : Prelude)

def names : RefKind → List String
  | .struct => p.structNames
  | .union => p.unionNames
  | .enum => p.enumNames

/-- What the files before record over the container of a name, in their order.  The containers of
enums are kept apart from those of the file. -/
def containers : RefKind → List (String × String)
  | .struct => p.nestedStructs.map fun s => (s.2.name, s.1.name)
  | .union => p.nestedUnions.map fun u => (u.2.name, u.1.name)
  | .enum => []

end Prelude

/-- The kinds under which a name is looked up first. -/
def RefKind.before : RefKind → List RefKind
  | .struct => []
  | .union => [.struct]
  | .enum => [.struct, .union]

/-- Of the declarations with the name the one that is found is of the kind and in the container. -/
structure Prevails (p : Prelude) (hs : List Header) (kind : RefKind) (name container : String) :
    Prop where
  first : ∀ k ∈ kind.before, (∀ h ∈ hs, h.kind = k → h.name ≠ name) ∧ name ∉ p.names k
  last : ((p.containers kind).reverse.lookup name).or
    ((lastHeader hs kind name).map (·.owner)) = some container

/-- The names of one kind. -/
def Env.ofKind (env : Env) : RefKind → List String
  | .struct => env.structs
  | .union => env.unions
  | .enum => env.enums

def Env.container (env : Env) : RefKind → String → String
  | .struct => env.structContainerOf
  | .union => env.unionContainerOf
  | .enum => env.containerOf

section

variable {p : Prelude} {tokens : List Token} {moduleName name owner : String}
variable {values : StringMap EnumDecl} {kind : RefKind} {m : Module}

theorem mem_ofKind_ofFile : name ∈ (Env.ofFile p tokens moduleName values).ofKind kind ↔
    (∃ h ∈ headers tokens, h.kind = kind ∧ h.name = name) ∨ name ∈ p.names kind := by
  rw [← mem_ofKind]
  cases kind with
  | _ => exact mem_append

theorem exists_lastHeader {hs : List Header} (h : ∃ d ∈ hs, d.kind = kind ∧ d.name = name) :
    ∃ last, lastHeader hs kind name = some last := by
  obtain ⟨d, hmem, hd⟩ := h
  rw [← isSome_iff_exists, lastHeader, find?_isSome]
  exact ⟨d, mem_reverse.mpr hmem, decide_eq_true hd⟩

theorem container_ofFile (h : ∃ d ∈ headers tokens, d.kind = kind ∧ d.name = name) :
    some ((Env.ofFile p tokens moduleName values).container kind name) =
      ((p.containers kind).reverse.lookup name).or
        ((lastHeader (headers tokens) kind name).map (·.owner)) := by
  obtain ⟨last, hlast⟩ := exists_lastHeader h
  have hfile : ((collectDeclaredNames tokens).container kind).lookup name =
      (lastHeader (headers tokens) kind name).map (·.owner) := lookup_container
  rw [hlast, map_some] at hfile
  rw [hlast, map_some]
  have hor : ∀ x : Option String, some ((x.or (some last.owner)).getD "") = x.or (some last.owner) := by
    intro x
    cases x with
    | none => rfl
    | some o => rfl
  cases kind with
  | struct =>
    rw [← hor, ← hfile, ← lookup_append]
    rfl
  | union =>
    rw [← hor, ← hfile, ← lookup_append]
    rfl
  | enum =>
    have hcontainer : (collectDeclaredNames tokens).enumContainer.lookup name = some last.owner := hfile
    change some (Env.containerOf _ name) = some last.owner
    unfold Env.containerOf Env.ofFile Env.of
    rw [hcontainer]

theorem declared_eq (env : Env) (name : String) : env.declared name =
    if name ∈ env.ofKind .struct then some (.struct, env.container .struct name)
    else if name ∈ env.ofKind .union then some (.union, env.container .union name)
    else if name ∈ env.ofKind .enum then some (.enum, env.container .enum name)
    else none := rfl

theorem declared_eq_some_iff {env : Env} : env.declared name = some (kind, owner) ↔
    name ∈ env.ofKind kind ∧ (∀ k ∈ kind.before, name ∉ env.ofKind k) ∧
      env.container kind name = owner := by
  rw [declared_eq]
  constructor
  · intro h
    split at h
    case isTrue hstruct =>
      cases h
      exact ⟨hstruct, nofun, rfl⟩
    case isFalse hstruct =>
      split at h
      case isTrue hunion =>
        cases h
        exact ⟨hunion, forall_mem_singleton.mpr hstruct, rfl⟩
      case isFalse hunion =>
        split at h
        case isTrue henum =>
          cases h
          exact ⟨henum, forall_mem_cons.mpr ⟨hstruct, forall_mem_singleton.mpr hunion⟩, rfl⟩
        case isFalse => cases h
  · rintro ⟨hmem, hbefore, rfl⟩
    cases kind with
    | struct => exact if_pos hmem
    | union => rw [if_neg (hbefore .struct mem_cons_self), if_pos hmem]
    | enum =>
      rw [if_neg (hbefore .struct mem_cons_self),
        if_neg (hbefore .union (mem_cons_of_mem _ mem_cons_self)), if_pos hmem]

theorem declared_ofFile_iff (h : ∃ d ∈ headers tokens, d.kind = kind ∧ d.name = name) :
    (Env.ofFile p tokens moduleName values).declared name = some (kind, owner) ↔
      Prevails p (headers tokens) kind name owner := by
  have hmem : name ∈ (Env.ofFile p tokens moduleName values).ofKind kind :=
    mem_ofKind_ofFile.mpr (.inl h)
  rw [declared_eq_some_iff, and_iff_right hmem]
  constructor
  · rintro ⟨hbefore, rfl⟩
    refine ⟨fun k hk => ?_, (container_ofFile h).symm⟩
    have hno := hbefore k hk
    rw [mem_ofKind_ofFile, not_or] at hno
    exact ⟨fun d hd hkind hname => hno.1 ⟨d, hd, hkind, hname⟩, hno.2⟩
  · rintro ⟨hfirst, hlast⟩
    refine ⟨fun k hk => ?_, some.inj ((container_ofFile h).trans hlast)⟩
    rw [mem_ofKind_ofFile, not_or]
    exact ⟨fun ⟨d, hd, hkind, hname⟩ => (hfirst k hk).1 d hd hkind hname, (hfirst k hk).2⟩

/-! ### What is written in a body -/

/-- What a body declares is a header of the file. -/
def Body.HeaderOf (hs : List Header) (b : Body) : Prop :=
  ∀ d ∈ b.nested, (⟨d.1, d.2, b.name⟩ : Header) ∈ hs

theorem headerOf_struct {s : StructDecl} {hs : List Header}
    (h : ∀ e ∈ s.enums, (⟨.enum, e.name, s.name⟩ : Header) ∈ hs) : s.body.HeaderOf hs := by
  intro d hd
  obtain ⟨e, he, rfl⟩ := List.mem_map.mp hd
  exact h e he

theorem headerOf_interface {i : Interface} {hs : List Header}
    (h : ∀ d ∈ bodyHeaders i.enums i.structs i.unions i.name, d ∈ hs) : i.body.HeaderOf hs := by
  intro d hd
  refine h _ ?_
  unfold bodyHeaders
  rcases mem_append.mp hd with hd | hd
  · rcases mem_append.mp hd with hd | hd
    · obtain ⟨e, he, rfl⟩ := List.mem_map.mp hd
      exact mem_append_left _ (mem_append_left _ (List.mem_map_of_mem he))
    · obtain ⟨s, hs, rfl⟩ := List.mem_map.mp hd
      exact mem_append_left _ (mem_append_right _
        (mem_flatMap_of_mem hs mem_cons_self))
  · obtain ⟨u, hu, rfl⟩ := List.mem_map.mp hd
    exact mem_append_right _ (List.mem_map_of_mem hu)

theorem mem_bodyHeaders_enum {enums : List EnumDecl} {structs : List StructDecl}
    {unions : List UnionDecl} {s : StructDecl} {e : EnumDecl} (hs : s ∈ structs) (he : e ∈ s.enums) :
    (⟨.enum, e.name, s.name⟩ : Header) ∈ bodyHeaders enums structs unions owner :=
  mem_append_left _ (mem_append_right _ (mem_flatMap_of_mem hs
    (mem_cons_of_mem _ (List.mem_map_of_mem he))))

theorem FileRead.written (h : FileRead p tokens m) {w : Written} (hw : w ∈ m.written) :
    (∀ b ∈ w.1, b.HeaderOf (headers tokens)) ∧ ∃ site ∈ m.sites, site.1 = w.2 := by
  unfold Module.sites
  rcases mem_append.mp hw with hw | hw
  · obtain ⟨s, hs, hw⟩ := mem_flatMap.mp hw
    obtain ⟨site, hsite, rfl⟩ := List.mem_map.mp hw
    refine ⟨forall_mem_singleton.mpr (headerOf_struct fun e he => ?_), site, ?_, rfl⟩
    · refine (h.declared _ ?_).resolve_right fun hno => by cases hno.1
      exact mem_append_left _ (mem_bodyHeaders_enum hs he)
    · simp only [mem_append]
      exact .inl (.inl (.inl (.inl (mem_flatMap_of_mem hs hsite))))
  · obtain ⟨i, hi, hw⟩ := mem_flatMap.mp hw
    have hbody : i.body.HeaderOf (headers tokens) := headerOf_interface (h.nested i hi)
    have hsites : ∀ site ∈ i.sites, site ∈ m.structs.flatMap StructDecl.sites ++
        m.unions.flatMap UnionDecl.sites ++ m.interfaces.flatMap Interface.sites ++
        m.consts.map ConstDecl.site ++ m.features.flatMap FeatureDecl.sites := by
      intro site hsite
      simp only [mem_append]
      exact .inl (.inl (.inr (mem_flatMap_of_mem hi hsite)))
    rcases mem_append.mp hw with hw | hw
    · obtain ⟨site, hsite, rfl⟩ := List.mem_map.mp hw
      refine ⟨forall_mem_singleton.mpr hbody, site, hsites site ?_, rfl⟩
      unfold Interface.sites
      simp only [Interface.ownSites, mem_append] at hsite ⊢
      exact hsite.elim (fun hs => .inl (.inl hs)) .inr
    · obtain ⟨s, hs, hw⟩ := mem_flatMap.mp hw
      obtain ⟨site, hsite, rfl⟩ := List.mem_map.mp hw
      refine ⟨forall_mem_cons.mpr ⟨headerOf_struct fun e he => ?_,
        forall_mem_singleton.mpr hbody⟩, site, hsites site ?_, rfl⟩
      · exact h.nested i hi _ (mem_bodyHeaders_enum hs he)
      · unfold Interface.sites
        simp only [mem_append]
        exact .inl (.inr (mem_flatMap_of_mem hs hsite))

theorem Env.ResolvedRef.bare {env : Env} {r : Reference} (h : env.ResolvedRef r)
    (hname : r.spelled = [name]) : .ref r.kind r.spelled r.target = env.bareType name := by
  rcases h with ⟨name', h⟩ | ⟨first, segs, hsegs, h⟩
  · obtain ⟨kind, target, hbare⟩ := env.bareType_eq_ref name'
    have hspelled : r.spelled = [name'] := (TypeSpec.ref.inj (h.trans hbare)).2.1
    obtain rfl : name = name' := head_eq_of_cons_eq (hname.symm.trans hspelled)
    exact h
  · obtain ⟨kind, target, hdotted⟩ := env.dottedType_eq_ref first segs
    have hspelled : r.spelled = first :: segs := (TypeSpec.ref.inj (h.trans hdotted)).2.1
    cases hsegs (tail_eq_of_cons_eq (hname.symm.trans hspelled)).symm

theorem exists_declared {env : Env} (h : name ∈ env.ofKind kind) :
    ∃ k c, env.declared name = some (k, c) := by
  by_cases hstruct : name ∈ env.ofKind .struct
  · exact ⟨_, _, if_pos hstruct⟩
  · by_cases hunion : name ∈ env.ofKind .union
    · exact ⟨_, _, (if_neg hstruct).trans (if_pos hunion)⟩
    · cases kind with
      | struct => cases hstruct h
      | union => cases hunion h
      | enum => exact ⟨_, _, (if_neg hstruct).trans ((if_neg hunion).trans (if_pos h))⟩

theorem declares_of_declaringBody {bodies : List Body} {b : Body}
    (h : declaringBody bodies name = some b) : ∃ kind, (kind, name) ∈ b.nested := by
  have hany : (b.nested.any fun d => d.2 = name) = true :=
    find?_some (p := fun b : Body => b.nested.any fun d => d.2 = name) h
  obtain ⟨d, hd, hsame⟩ := List.any_eq_true.mp hany
  obtain rfl := of_decide_eq_true hsame
  exact ⟨d.1, hd⟩

/-- **When bare names are looked up lexically.** -/
theorem bareNames_lexical_iff {content : String} {s' : Parser} (hlex : tokenize content = .ok tokens)
    (h : parseFile p tokens { rest := tokens } = .ok m s') {w : Written} (hw : w ∈ m.written)
    {r : Reference} (hr : r ∈ w.2.refs) :
    Lexical w.1 r ↔ ∀ name, r.spelled = [name] → ∀ b ∈ declaringBody w.1 name,
      ∃ kind, (kind, name) ∈ b.nested ∧ Prevails p (headers tokens) kind name b.name := by
  have hread := parseFile_read (wellLexed_of_tokenize hlex) rfl rfl h
  obtain ⟨hbodies, site, hsite, htype⟩ := hread.written hw
  obtain ⟨values, hsites⟩ := hread.sites
  have hresolved : ResolvedRef _ r := (hsites site hsite).type.refs r (htype ▸ hr)
  refine forall₂_congr fun name hname => forall₂_congr fun b hb => ?_
  have hheader := hbodies b (mem_of_find?_eq_some hb)
  have hin : ∀ {kind}, (kind, name) ∈ b.nested → ∃ d ∈ headers tokens, d.kind = kind ∧ d.name = name :=
    fun hd => ⟨_, hheader _ hd, rfl, rfl⟩
  -- the body declares the name, so it is found in the tables
  obtain ⟨d, hd⟩ := declares_of_declaringBody hb
  have hfound : name ∈ (Env.ofFile p tokens m.name values).ofKind d :=
    mem_ofKind_ofFile.mpr (.inl (hin hd))
  obtain ⟨kind, container, hdeclared⟩ := exists_declared hfound
  have hbare := hresolved.bare hname
  rw [bareType, hdeclared] at hbare
  obtain ⟨hkind, -, htarget⟩ := TypeSpec.ref.inj hbare
  have hcontainer : r.target.ownerContainer = container := congrArg TypeRef.ownerContainer htarget
  constructor
  · rintro ⟨hnested, howner⟩
    rw [hkind] at hnested
    rw [← howner, hcontainer]
    exact ⟨kind, hnested, (declared_ofFile_iff (hin hnested)).mp hdeclared⟩
  · rintro ⟨kind', hnested, hprevails⟩
    have hboth := hdeclared.symm.trans ((declared_ofFile_iff (hin hnested)).mpr hprevails)
    obtain ⟨rfl, rfl⟩ := Prod.mk.inj (some.inj hboth)
    rw [hkind]
    exact ⟨hnested, hcontainer⟩

end

/-! ### Two interfaces with a struct of one name -/

def twoParams : String :=
  "interface Reader \x7b struct Params \x7b int32 a; \x7d; Read(Params p); \x7d; " ++
    "interface Writer \x7b struct Params \x7b int32 b; \x7d; Write(Params p); \x7d;"

/-- The parameter of a method of the interface is a `Params`, recorded with the container. -/
def writesParams (iface container : String) (w : Written) : Bool :=
  w.2.refs.contains ⟨.struct, ["Params"], ⟨"Params", "", container⟩⟩ &&
    (declaringBody w.1 "Params").any fun b => b.name == iface

theorem reference_of_writesParams {iface container : String} {w : Written}
    (h : writesParams iface container w = true) :
    (⟨.struct, ["Params"], ⟨"Params", "", container⟩⟩ : Reference) ∈ w.2.refs ∧
      ∃ b, declaringBody w.1 "Params" = some b ∧ b.name = iface := by
  unfold writesParams at h
  rw [Bool.and_eq_true, contains_iff_mem, Option.any_eq_true] at h
  obtain ⟨hr, b, hb, hname⟩ := h
  exact ⟨hr, b, hb, eq_of_beq hname⟩

theorem lastHeader_twoParams {tokens : List Token} (h : tokenize twoParams = .ok tokens) :
    lastHeader (headers tokens) .struct "Params" = some ⟨.struct, "Params", "Writer"⟩ := by
  obtain ⟨tokens', hlex, htest⟩ := exists_ok_of_any (x := tokenize twoParams)
    (p := fun ts => lastHeader (headers ts) .struct "Params" = some ⟨.struct, "Params", "Writer"⟩)
    (by decide +kernel)
  obtain rfl := Except.ok.inj (hlex.symm.trans h)
  exact of_decide_eq_true htest

/-- The `Params` in the body of the last interface is its own. -/
theorem bareNames_lexical_iff_writer : ∃ m, parseText twoParams = .ok m ∧ ∃ w ∈ m.written,
    ∃ r ∈ w.2.refs, r.spelled = ["Params"] ∧ Lexical w.1 r := by
  obtain ⟨m, hm, htest⟩ := exists_ok_of_any (x := parseText twoParams)
    (p := fun m => m.written.any fun w => writesParams "Writer" "Writer" w &&
      (declaringBody w.1 "Params").any fun b => b.nested.contains (.struct, "Params"))
    (by decide +kernel)
  obtain ⟨tokens, s', hlex, hfile⟩ := parseFile_of_parseText hm
  obtain ⟨w, hw, htest⟩ := List.any_eq_true.mp htest
  rw [Bool.and_eq_true, Option.any_eq_true] at htest
  obtain ⟨hwrites, b, hb, hnested⟩ := htest
  obtain ⟨hr, b', hb', hname⟩ := reference_of_writesParams hwrites
  obtain rfl := some.inj (hb'.symm.trans hb)
  refine ⟨m, hm, w, hw, _, hr, rfl, (bareNames_lexical_iff hlex hfile hw hr).mpr ?_⟩
  intro name hspelled c hc
  obtain rfl : "Params" = name := head_eq_of_cons_eq hspelled
  obtain rfl := some.inj (hb.symm.trans hc)
  refine ⟨.struct, contains_iff_mem.mp hnested, nofun, ?_⟩
  rw [lastHeader_twoParams hlex, hname]
  rfl

/-- The `Params` in the body of the first interface is the one of the second. -/
theorem not_bareNames_lexical : ∃ m, parseText twoParams = .ok m ∧ ∃ w ∈ m.written,
    ∃ r ∈ w.2.refs, ¬ Lexical w.1 r := by
  obtain ⟨m, hm, htest⟩ := exists_ok_of_any (x := parseText twoParams)
    (p := fun m => m.written.any (writesParams "Reader" "Writer")) (by decide +kernel)
  obtain ⟨w, hw, hwrites⟩ := List.any_eq_true.mp htest
  obtain ⟨hr, b, hb, hname⟩ := reference_of_writesParams hwrites
  refine ⟨m, hm, w, hw, _, hr, fun h => ?_⟩
  have hcontainer : "Writer" = b.name := (h "Params" rfl b hb).2
  rw [hname] at hcontainer
  exact absurd hcontainer (by decide)

end Voodoo.Compiler
