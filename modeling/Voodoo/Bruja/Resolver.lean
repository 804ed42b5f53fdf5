import Mathlib.Data.List.Induction
import Voodoo.Bruja.Conversions

/-!
# The resolver

`Resolve` on a module as the parser leaves it: the base chains of the interfaces and dictionaries
are followed, every name of a type is looked up, and the members of a mixin are copied into the
interfaces that include it.

`accepted_of_resolveModule`: where it returns, the interfaces and dictionaries have kept their names
and bases, and their base chains end.
-/

namespace Voodoo.Bruja

open List

/-! ### The module as parsed -/

structure Const where
  type : TypeSpec
  name : String
  valueLiteral : String

/-- The members of an `Interface` with its constants. -/
structure ParsedMembers extends Members where
  consts : List Const

structure MixinDecl where
  name : String
  methods : List Method
  attributes : List Attribute
  consts : List Const

structure IncludesDecl where
  target : String
  mixinName : String

/-- `Module`, before `Resolve` and behind it. -/
structure ParsedModule where
  interfaces : List (Interface ParsedMembers)
  enums : List EnumDecl
  dictionaries : List Dictionary
  callbacks : List CallbackDecl
  mixins : List MixinDecl
  includesDecls : List IncludesDecl

/-- What the generators see of it. -/
def ParsedModule.idl (p : ParsedModule) : IdlModule where
  interfaces := p.interfaces.map fun i => ⟨i.name, i.baseName, i.members.toMembers⟩
  enums := p.enums
  dictionaries := p.dictionaries
  callbacks := p.callbacks

/-! ### Types -/

/-- `Context`. -/
structure Context where
  interfaces : List String
  enums : List String
  dictionaries : List String
  callbacks : List String

/-- The context that `Resolve` fills. -/
def ParsedModule.context (p : ParsedModule) : Context where
  interfaces := p.interfaces.map Interface.name
  enums := p.enums.map EnumDecl.name
  dictionaries := p.dictionaries.map Dictionary.name
  callbacks := p.callbacks.map CallbackDecl.name

/-- What a name of a type refers to. -/
def Context.lookup (ctx : Context) (name : String) : Except String RefKind :=
  if name ∈ ctx.interfaces then .ok .interface
  else if name ∈ ctx.enums then .ok .enum
  else if name ∈ ctx.dictionaries then .ok .dictionary
  else if name ∈ ctx.callbacks then .ok .callback
  else .error ("unknown type '" ++ name ++ "'")

mutual

/-- `ResolveType`. -/
def resolveType (ctx : Context) (allowPromise : Bool) : TypeSpec → Except String TypeSpec
  | .sequence element b => do
    let element ← resolveType ctx false element
    .ok (.sequence element b)
  | .promise element b =>
    if allowPromise then do
      let element ← resolveType ctx false element
      .ok (.promise element b)
    else .error "Promise<T> may only be used as a method's return type"
  | .union first rest b => do
    let first ← resolveType ctx false first
    let rest ← resolveTypes ctx rest
    .ok (.union first rest b)
  | .ref .unresolved name b => do
    let kind ← ctx.lookup name
    .ok (.ref kind name b)
  | type => .ok type

/-- The members of a union after the first. -/
def resolveTypes (ctx : Context) : List TypeSpec → Except String (List TypeSpec)
  | [] => .ok []
  | type :: rest => do
    let type ← resolveType ctx false type
    let rest ← resolveTypes ctx rest
    .ok (type :: rest)

end

/-! ### Base chains of dictionaries -/

/-- The loop of `CheckDictBaseChain` at `current`; `none` is a loop that is not done. -/
def checkDictBaseChainLoop (map : String → Option Dictionary) (dict : Dictionary) :
    Nat → Dictionary → List String → Option (Except String Unit)
  | 0, _, _ => none
  | fuel + 1, current, visited =>
    if current.baseName = "" then some (.ok ())
    else
      match map current.baseName with
      | none => some (.error ("dictionary '" ++ current.name ++ "' has unknown base dictionary '" ++
          current.baseName ++ "'"))
      | some next =>
        if current.baseName ∈ visited then
          some (.error ("dictionary '" ++ dict.name ++
            "' has a cyclic base-dictionary chain (via '" ++ current.baseName ++ "')"))
        else checkDictBaseChainLoop map dict fuel next (current.baseName :: visited)

/-- `if (!dict.base_name.empty()) CheckDictBaseChain(dict, dict_by_name)`. -/
def checkDictBase (map : String → Option Dictionary) (fuel : Nat) (dict : Dictionary) :
    Option (Except String Unit) :=
  if dict.baseName = "" then some (.ok ())
  else checkDictBaseChainLoop map dict fuel dict [dict.name]

/-- `dict_by_name`: of two under one name the later one stays. -/
def dictByName (dictionaries : List Dictionary) (name : String) : Option Dictionary :=
  dictionaries.reverse.find? fun d => d.name = name

/-! ### The module -/

section

variable (ctx : Context)

def resolveParam (p : Param) : Except String Param := do
  let type ← resolveType ctx false p.type
  .ok { p with type }

/-- `ResolveParams`. -/
def resolveParams (params : List Param) : Except String (List Param) :=
  params.mapM (resolveParam ctx)

def resolveMethod (method : Method) : Except String Method := do
  let returnType ← resolveType ctx true method.returnType
  let params ← resolveParams ctx method.params
  .ok { method with returnType, params }

def resolveAttribute (attr : Attribute) : Except String Attribute := do
  let type ← resolveType ctx false attr.type
  .ok { attr with type }

def resolveConst (c : Const) : Except String Const := do
  let type ← resolveType ctx false c.type
  .ok { c with type }

def resolveConstructor : Option (List Param) → Except String (Option (List Param))
  | none => .ok none
  | some params => do
    let params ← resolveParams ctx params
    .ok (some params)

/-- The members of an interface, in the order of `Resolve`. -/
def resolveMembers (members : ParsedMembers) : Except String ParsedMembers := do
  let methods ← members.methods.mapM (resolveMethod ctx)
  let attributes ← members.attributes.mapM (resolveAttribute ctx)
  let consts ← members.consts.mapM (resolveConst ctx)
  let constructorParams ← resolveConstructor ctx members.constructorParams
  .ok { methods, attributes, constructorParams, consts }

def resolveField (field : DictField) : Except String DictField := do
  let type ← resolveType ctx false field.type
  .ok { field with type }

def resolveCallback (decl : CallbackDecl) : Except String CallbackDecl := do
  let returnType ← resolveType ctx false decl.returnType
  let params ← resolveParams ctx decl.params
  .ok { decl with returnType, params }

def resolveMixin (mixin : MixinDecl) : Except String MixinDecl := do
  let methods ← mixin.methods.mapM (resolveMethod ctx)
  let attributes ← mixin.attributes.mapM (resolveAttribute ctx)
  let consts ← mixin.consts.mapM (resolveConst ctx)
  .ok { mixin with methods, attributes, consts }

end

/-- Throws, or returns, or is not done. -/
abbrev Resolving := ExceptT String Option

/-- The body of the loop of `Resolve` over the interfaces. -/
def resolveInterface (ctx : Context) (map : String → Option (Interface ParsedMembers)) (fuel : Nat)
    (iface : Interface ParsedMembers) : Resolving (Interface ParsedMembers) := do
  ExceptT.mk (checkBase map fuel iface)
  let members ← ExceptT.mk (some (resolveMembers ctx iface.members))
  pure { iface with members }

/-- The body of the loop over the dictionaries. -/
def resolveDictionary (ctx : Context) (map : String → Option Dictionary) (fuel : Nat)
    (dict : Dictionary) : Resolving Dictionary := do
  ExceptT.mk (checkDictBase map fuel dict)
  let fields ← ExceptT.mk (some (dict.fields.mapM (resolveField ctx)))
  pure { dict with fields }

/-- The target of an `includes` with the members of the mixin at the end of its own. -/
def addMixin (mixin : MixinDecl) (iface : Interface ParsedMembers) : Interface ParsedMembers :=
  { iface with members := {
      methods := iface.members.methods ++ mixin.methods
      attributes := iface.members.attributes ++ mixin.attributes
      constructorParams := iface.members.constructorParams
      consts := iface.members.consts ++ mixin.consts } }

/-- `mutable_by_name[name]` is changed: of the interfaces under the name the last one. -/
def modifyLast (name : String) (f : Interface ParsedMembers → Interface ParsedMembers) :
    List (Interface ParsedMembers) → List (Interface ParsedMembers)
  | [] => []
  | i :: rest =>
    if i.name = name ∧ ∀ j ∈ rest, j.name ≠ name then f i :: rest
    else i :: modifyLast name f rest

/-- The body of the loop over the `includes` statements. -/
def includeMixin (mixins : List MixinDecl) (interfaces : List (Interface ParsedMembers))
    (inc : IncludesDecl) : Except String (List (Interface ParsedMembers)) :=
  if inc.target ∈ interfaces.map Interface.name then
    match mixins.reverse.find? fun mixin => mixin.name = inc.mixinName with
    | none => .error ("'" ++ inc.target ++ " includes " ++ inc.mixinName ++ "': unknown mixin '" ++
        inc.mixinName ++ "'")
    | some mixin => .ok (modifyLast inc.target (addMixin mixin) interfaces)
  else
    .error ("'" ++ inc.target ++ " includes " ++ inc.mixinName ++ "': unknown target interface '" ++
      inc.target ++ "'")

/-- `Resolve`. -/
def resolveModule (p : ParsedModule) : Resolving ParsedModule := do
  let interfaces ← p.interfaces.mapM
    (resolveInterface p.context (byName p.interfaces) (p.interfaces.length + 1))
  let dictionaries ← p.dictionaries.mapM
    (resolveDictionary p.context (dictByName p.dictionaries) (p.dictionaries.length + 1))
  let callbacks ← ExceptT.mk (some (p.callbacks.mapM (resolveCallback p.context)))
  let mixins ← ExceptT.mk (some (p.mixins.mapM (resolveMixin p.context)))
  let interfaces ← ExceptT.mk (some (p.includesDecls.foldlM (includeMixin mixins) interfaces))
  pure { p with interfaces, dictionaries, callbacks, mixins }

/-! ### Binding -/

theorem Resolving.bind_eq_ok {α β : Type} {x : Resolving α} {f : α → Resolving β} {b : β}
    (h : x >>= f = some (.ok b)) : ∃ a, x = some (.ok a) ∧ f a = some (.ok b) := by
  change Option.bind x (ExceptT.bindCont f) = some (.ok b) at h
  obtain ⟨r, hr, h⟩ := Option.bind_eq_some_iff.mp h
  cases r with
  | error e => cases h
  | ok a => exact ⟨a, hr, h⟩

theorem Except.bind_eq_ok {ε α β : Type} {x : Except ε α} {f : α → Except ε β} {b : β}
    (h : x >>= f = .ok b) : ∃ a, x = .ok a ∧ f a = .ok b := by
  cases x with
  | error e => cases h
  | ok a => exact ⟨a, rfl, h⟩

theorem Resolving.mapM_eq_ok {α β : Type} {f : α → Resolving β} {as : List α} {bs : List β}
    (h : as.mapM f = (some (.ok bs) : Resolving (List β))) :
    List.Forall₂ (fun a b => f a = some (.ok b)) as bs := by
  induction as generalizing bs with
  | nil =>
    rw [mapM_nil] at h
    obtain rfl := Except.ok.inj (Option.some.inj h)
    exact .nil
  | cons a as ih =>
    rw [mapM_cons] at h
    obtain ⟨b, hb, h⟩ := Resolving.bind_eq_ok h
    obtain ⟨rest, hrest, h⟩ := Resolving.bind_eq_ok h
    obtain rfl := Except.ok.inj (Option.some.inj h)
    exact .cons hb (ih hrest)

theorem Except.mapM_eq_ok {ε α β : Type} {f : α → Except ε β} {as : List α} {bs : List β}
    (h : as.mapM f = .ok bs) : List.Forall₂ (fun a b => f a = .ok b) as bs := by
  induction as generalizing bs with
  | nil =>
    rw [mapM_nil] at h
    obtain rfl := Except.ok.inj h
    exact .nil
  | cons a as ih =>
    rw [mapM_cons] at h
    obtain ⟨b, hb, h⟩ := Except.bind_eq_ok h
    obtain ⟨rest, hrest, h⟩ := Except.bind_eq_ok h
    obtain rfl := Except.ok.inj h
    exact .cons hb (ih hrest)

/-! ### Names and bases -/

/-- An interface without its members. -/
def Interface.bare {μ : Type} (i : Interface μ) : Interface Unit := ⟨i.name, i.baseName, ()⟩

/-- The name and the base of a dictionary. -/
def Dictionary.bare (d : Dictionary) : Interface Unit := ⟨d.name, d.baseName, ()⟩

section

variable {μ : Type}

theorem byName_bare (interfaces : List (Interface μ)) (x : String) :
    byName (interfaces.map Interface.bare) x = (byName interfaces x).map Interface.bare := by
  have hfold : ∀ (map : String → Option (Interface μ)) (map' : String → Option (Interface Unit)),
      (∀ x, map' x = (map x).map Interface.bare) →
      (interfaces.map Interface.bare).foldl putByName map' x =
        (interfaces.foldl putByName map x).map Interface.bare := by
    induction interfaces with
    | nil => exact fun _ _ h => h x
    | cons i rest ih =>
      intro map map' h
      refine ih _ _ fun y => ?_
      rw [putByName, putByName]
      by_cases hy : y = i.name
      · subst hy
        rw [Function.update_self]
        exact Function.update_self ..
      · rw [Function.update_of_ne hy, ← h y]
        exact Function.update_of_ne hy ..
  exact hfold _ _ fun _ => rfl

theorem rooted_bare {interfaces : List (Interface μ)} {i : Interface μ} {d : Nat} :
    Rooted (byName (interfaces.map Interface.bare)) i.bare d ↔ Rooted (byName interfaces) i d := by
  induction d generalizing i with
  | zero =>
    constructor
    · rintro ⟨h⟩
      exact .root h
    · rintro ⟨h⟩
      exact .root h
  | succ d ih =>
    constructor
    · rintro (_ | ⟨hne, hj, hrooted⟩)
      rw [byName_bare] at hj
      obtain ⟨j, hj', rfl⟩ := Option.map_eq_some_iff.mp hj
      exact .step hne hj' (ih.mp hrooted)
    · rintro (_ | ⟨hne, hj, hrooted⟩)
      refine .step hne ?_ (ih.mpr hrooted)
      rw [byName_bare]
      exact congrArg (Option.map Interface.bare) hj

end

theorem byName_bareDictionary (dictionaries : List Dictionary) (x : String) :
    byName (dictionaries.map Dictionary.bare) x =
      (dictByName dictionaries x).map Dictionary.bare := by
  rw [byName, dictByName]
  induction dictionaries using List.reverseRecOn with
  | nil => rfl
  | append_singleton rest d ih =>
    rw [map_append, foldl_append, map_singleton, foldl_cons, foldl_nil,
      reverse_append, reverse_singleton, singleton_append, putByName,
      find?_cons]
    by_cases hx : d.name = x
    · subst hx
      rw [decide_eq_true rfl]
      exact Function.update_self ..
    · rw [decide_eq_false hx]
      exact (Function.update_of_ne (Ne.symm hx) ..).trans ih

theorem checkDictBaseChainLoop_ok {dictionaries : List Dictionary} {dict : Dictionary} {fuel : Nat}
    {current : Dictionary} {visited : List String}
    (h : checkDictBaseChainLoop (dictByName dictionaries) dict fuel current visited =
      some (.ok ())) :
    checkBaseChainLoop (byName (dictionaries.map Dictionary.bare)) dict.bare fuel current.bare
      visited = some (.ok ()) := by
  induction fuel generalizing current visited with
  | zero => cases h
  | succ fuel ih =>
    rw [checkDictBaseChainLoop] at h
    rw [checkBaseChainLoop]
    by_cases hbase : current.baseName = ""
    · exact if_pos hbase
    · rw [if_neg hbase] at h
      refine (if_neg hbase).trans ?_
      have hmap := byName_bareDictionary dictionaries current.baseName
      cases hnext : dictByName dictionaries current.baseName with
      | none =>
        rw [hnext] at h
        cases h
      | some next =>
        rw [hnext] at h hmap
        change byName (dictionaries.map Dictionary.bare) current.bare.baseName =
          some next.bare at hmap
        rw [hmap]
        by_cases hvisited : current.baseName ∈ visited
        · simp only [if_pos hvisited] at h
          cases h
        · exact (if_neg hvisited).trans (ih ((if_neg hvisited).symm.trans h))

theorem rooted_of_checkDictBase {dictionaries : List Dictionary} {fuel : Nat} {dict : Dictionary}
    (h : checkDictBase (dictByName dictionaries) (fuel + 1) dict = some (.ok ())) :
    ∃ d ≤ fuel, Rooted (byName (dictionaries.map Dictionary.bare)) dict.bare d := by
  by_cases hbase : dict.baseName = ""
  · exact ⟨0, Nat.zero_le fuel, .root hbase⟩
  · rw [checkDictBase, if_neg hbase] at h
    obtain ⟨d, hd, hrooted⟩ := rooted_of_loop (checkDictBaseChainLoop_ok h)
    exact ⟨d, Nat.le_of_lt_succ hd, hrooted⟩

theorem rooted_of_checkBase {μ : Type} {interfaces : List (Interface μ)} {fuel : Nat}
    {iface : Interface μ} (h : checkBase (byName interfaces) (fuel + 1) iface = some (.ok ())) :
    ∃ d ≤ fuel, Rooted (byName (interfaces.map Interface.bare)) iface.bare d := by
  by_cases hbase : iface.baseName = ""
  · exact ⟨0, Nat.zero_le fuel, .root hbase⟩
  · rw [checkBase, if_neg hbase] at h
    obtain ⟨d, hd, hrooted⟩ := rooted_of_loop h
    exact ⟨d, Nat.le_of_lt_succ hd, rooted_bare.mpr hrooted⟩

/-! ### A resolved module -/

theorem map_eq_of_forall₂ {α β γ : Type} {f : α → γ} {g : β → γ} {as : List α} {bs : List β}
    {R : α → β → Prop} (hR : ∀ a b, R a b → f a = g b) (h : List.Forall₂ R as bs) :
    bs.map g = as.map f := by
  induction h with
  | nil => rfl
  | cons hab _ ih => rw [map_cons, map_cons, ih, hR _ _ hab]

theorem exists_of_forall₂ {α β : Type} {as : List α} {bs : List β} {R : α → β → Prop}
    (h : List.Forall₂ R as bs) {a : α} (ha : a ∈ as) : ∃ b ∈ bs, R a b := by
  induction h with
  | nil => cases ha
  | @cons _ b _ _ hab _ ih =>
    rcases mem_cons.mp ha with rfl | ha
    · exact ⟨b, mem_cons_self, hab⟩
    · obtain ⟨b, hb, hab⟩ := ih ha
      exact ⟨b, mem_cons_of_mem _ hb, hab⟩

theorem modifyLast_bare {name : String} {mixin : MixinDecl}
    (interfaces : List (Interface ParsedMembers)) :
    (modifyLast name (addMixin mixin) interfaces).map Interface.bare =
      interfaces.map Interface.bare := by
  induction interfaces with
  | nil => rfl
  | cons i rest ih =>
    rw [modifyLast]
    split
    · rfl
    · exact congrArg (i.bare :: ·) ih

theorem includeMixin_bare {mixins : List MixinDecl} {incs : List IncludesDecl}
    {interfaces result : List (Interface ParsedMembers)}
    (h : incs.foldlM (includeMixin mixins) interfaces = .ok result) :
    result.map Interface.bare = interfaces.map Interface.bare := by
  induction incs generalizing interfaces with
  | nil =>
    obtain rfl := Except.ok.inj h
    rfl
  | cons inc incs ih =>
    rw [foldlM_cons] at h
    obtain ⟨next, hnext, h⟩ := Except.bind_eq_ok h
    rw [includeMixin] at hnext
    split at hnext
    · split at hnext
      · cases hnext
      · obtain rfl := Except.ok.inj hnext
        exact (ih h).trans (modifyLast_bare interfaces)
    · cases hnext

/-- A module that `Resolve` accepts: names and bases are kept, and the base chains end. -/
structure Accepted (p r : ParsedModule) : Prop where
  interfaces_bare : r.interfaces.map Interface.bare = p.interfaces.map Interface.bare
  dictionaries_bare : r.dictionaries.map Dictionary.bare = p.dictionaries.map Dictionary.bare
  interfaces_chained : (Module.mk (r.interfaces.map Interface.bare)).Chained
  dictionaries_chained : (Module.mk (r.dictionaries.map Dictionary.bare)).Chained

theorem accepted_of_resolveModule {p r : ParsedModule} (h : resolveModule p = some (.ok r)) :
    Accepted p r := by
  obtain ⟨interfaces, hinterfaces, h⟩ := Resolving.bind_eq_ok h
  obtain ⟨dictionaries, hdictionaries, h⟩ := Resolving.bind_eq_ok h
  obtain ⟨callbacks, -, h⟩ := Resolving.bind_eq_ok h
  obtain ⟨mixins, -, h⟩ := Resolving.bind_eq_ok h
  obtain ⟨included, hincluded, h⟩ := Resolving.bind_eq_ok h
  obtain rfl := Except.ok.inj (Option.some.inj h)
  have hi := Resolving.mapM_eq_ok hinterfaces
  have hd := Resolving.mapM_eq_ok hdictionaries
  have hibare : interfaces.map Interface.bare = p.interfaces.map Interface.bare := by
    refine map_eq_of_forall₂ (fun i j hij => ?_) hi
    obtain ⟨-, -, hij⟩ := Resolving.bind_eq_ok hij
    obtain ⟨members, -, hij⟩ := Resolving.bind_eq_ok hij
    obtain rfl := Except.ok.inj (Option.some.inj hij)
    rfl
  have hdbare : dictionaries.map Dictionary.bare = p.dictionaries.map Dictionary.bare := by
    refine map_eq_of_forall₂ (fun i j hij => ?_) hd
    obtain ⟨-, -, hij⟩ := Resolving.bind_eq_ok hij
    obtain ⟨fields, -, hij⟩ := Resolving.bind_eq_ok hij
    obtain rfl := Except.ok.inj (Option.some.inj hij)
    rfl
  have hkept := (includeMixin_bare (Option.some.inj hincluded)).trans hibare
  refine ⟨hkept, hdbare, ?_, ?_⟩
  · simp only [hkept]
    intro i hi'
    obtain ⟨j, hj, rfl⟩ := List.mem_map.mp hi'
    obtain ⟨j', -, hjj'⟩ := exists_of_forall₂ hi hj
    obtain ⟨⟨⟩, hcheck, -⟩ := Resolving.bind_eq_ok hjj'
    simpa using rooted_of_checkBase hcheck
  · simp only [hdbare]
    intro i hi'
    obtain ⟨j, hj, rfl⟩ := List.mem_map.mp hi'
    obtain ⟨j', -, hjj'⟩ := exists_of_forall₂ hd hj
    obtain ⟨⟨⟩, hcheck, -⟩ := Resolving.bind_eq_ok hjj'
    simpa using rooted_of_checkDictBase hcheck

end Voodoo.Bruja
