import Voodoo.Compiler.Prescan

/-!
# Names

How a type name written in a file turns into a reference.  `Env` holds what the
parser looks names up in, once `SeedFromPrelude` has added the files loaded before:
the sets of struct, union and enum names, the container each was recorded with, and
the `module` statement of the file that declared it.  All of these are keyed by the
bare name and none of them changes while the file is parsed, so a type name resolves
to the same reference wherever in the file it stands.

`bareType`, `dottedType` and `externalType` are the last three parts of
`ParseTypeSpecInner`.
-/

namespace Voodoo.Compiler

/-! ### What was loaded before -/

/-- `module` is every declaration of the files loaded before, in one; `ownerByName` has the
`module` statement each of their names was last declared under. -/
structure Prelude where
  module : Module := {}
  ownerByName : StringMap String := []

/-- `map[key] = value` for each pair in turn. -/
def assignAll {β : Type} (map : StringMap β) (pairs : List (String × β)) : StringMap β :=
  pairs.reverse ++ map

namespace Prelude

variable (p : Prelude)

def nestedStructs : List (Interface × StructDecl) :=
  p.module.interfaces.flatMap (fun i => i.structs.map (i, ·))

def nestedUnions : List (Interface × UnionDecl) :=
  p.module.interfaces.flatMap (fun i => i.unions.map (i, ·))

/-- The enums and consts of an interface, each with its container, and after them those of
the structs in it. -/
def nestedInInterface {β : Type} (ofInterface : Interface → List β) (ofStruct : StructDecl → List β)
    (i : Interface) : List (String × β) :=
  (ofInterface i).map (i.name, ·) ++ i.structs.flatMap (fun s => (ofStruct s).map (s.name, ·))

/-- Every nested enum with its container, in the order `SeedFromPrelude` meets them. -/
def nestedEnums : List (String × EnumDecl) :=
  p.module.structs.flatMap (fun s => s.enums.map (s.name, ·)) ++
  p.module.interfaces.flatMap (nestedInInterface (·.enums) (·.enums))

/-- Every const of a struct or an interface with its container. -/
def nestedConsts : List (String × ConstDecl) :=
  p.module.structs.flatMap (fun s => s.consts.map (s.name, ·)) ++
  p.module.interfaces.flatMap (nestedInInterface (·.consts) (·.consts))

def featureConsts : List (String × ConstDecl) :=
  p.module.features.flatMap (fun f => f.consts.map (f.name, ·))

def structNames : List String :=
  p.module.structs.map (·.name) ++ p.nestedStructs.map (·.2.name)

def unionNames : List String :=
  p.module.unions.map (·.name) ++ p.nestedUnions.map (·.2.name)

def enumNames : List String :=
  p.module.enums.map (·.name) ++ p.nestedEnums.map (·.2.name)

/-- One past the largest `decl_index` of the structs and unions. -/
def nextEmbedOrder : Nat :=
  (p.module.allStructs.map (fun s : StructDecl => s.declIndex + 1) ++
    p.module.allUnions.map (fun u : UnionDecl => u.declIndex + 1)).foldl max 0

end Prelude

/-! ### The tables of a file -/

/-- What the parser looks type names up in while it parses a body. -/
structure Env where
  moduleName : String
  structs : List String
  unions : List String
  enums : List String
  structContainer : StringMap String
  containerStructs : StringMap String
  unionContainer : StringMap String
  containerUnions : StringMap String
  /-- Enums of this file only; those of the files before are in `containerByName`. -/
  enumContainer : StringMap String
  containerEnums : StringMap String
  containerByName : StringMap String
  preludeContainerEnums : StringMap String
  /-- The struct, union and enum names of this file. -/
  localNames : List String
  localEnumValues : StringMap EnumDecl
  enumValues : StringMap EnumDecl
  ownerByName : StringMap String

/-- `Impl` after the start of `ParseBody`: the scans of the file, then `SeedFromPrelude`. -/
def Env.of (moduleName : String) (names : DeclaredNames) (values : StringMap EnumDecl)
    (p : Prelude) : Env where
  moduleName
  structs := names.structs ++ p.structNames
  unions := names.unions ++ p.unionNames
  enums := names.enums ++ p.enumNames
  structContainer := assignAll names.structContainer
    (p.nestedStructs.map (fun s => (s.2.name, s.1.name)))
  containerStructs := names.containerStructs ++ p.nestedStructs.map (fun s => (s.1.name, s.2.name))
  unionContainer := assignAll names.unionContainer
    (p.nestedUnions.map (fun u => (u.2.name, u.1.name)))
  containerUnions := names.containerUnions ++ p.nestedUnions.map (fun u => (u.1.name, u.2.name))
  enumContainer := names.enumContainer
  containerEnums := names.containerEnums
  containerByName := assignAll [] (p.nestedEnums.map (fun e => (e.2.name, e.1)))
  preludeContainerEnums := p.nestedEnums.map (fun e => (e.1, e.2.name))
  localNames := names.enums ++ names.structs ++ names.unions
  localEnumValues := values
  enumValues := assignAll values
    ((p.module.structs.flatMap (·.enums) ++ p.module.enums ++
      p.module.interfaces.flatMap (fun i => i.enums ++ i.structs.flatMap (·.enums))).map
        (fun e => (e.name, e)))
  ownerByName := p.ownerByName

/-! ### Looking names up -/

namespace Env

variable (env : Env)

/-- The `module` statement of the file that declared `name`, `""` for this file. -/
def ownerOf (name : String) : String :=
  if name ∈ env.localNames then "" else (env.ownerByName.lookup name).getD ""

def containerOf (name : String) : String :=
  match env.enumContainer.lookup name with
  | some container => container
  | none => (env.containerByName.lookup name).getD ""

def structContainerOf (name : String) : String := (env.structContainer.lookup name).getD ""

def unionContainerOf (name : String) : String := (env.unionContainer.lookup name).getD ""

/-- `ContainerEnums(container)` has `name`.  A container of this file hides the one of the same
name in the files before. -/
def nestsEnum (container name : String) : Bool :=
  (if env.containerEnums.any (·.1 == container) then env.containerEnums
    else env.preludeContainerEnums).contains (container, name)

def nestsStruct (container name : String) : Bool :=
  env.containerStructs.contains (container, name)

def nestsUnion (container name : String) : Bool :=
  env.containerUnions.contains (container, name)

/-- The kind `name` is declared under and the container recorded for it: the first of struct,
union and enum. -/
def declared (name : String) : Option (RefKind × String) :=
  if name ∈ env.structs then some (.struct, env.structContainerOf name)
  else if name ∈ env.unions then some (.union, env.unionContainerOf name)
  else if name ∈ env.enums then some (.enum, env.containerOf name)
  else none

/-- `ExternalType`: a missing import, or a type stripped by `[EnableIf]`. -/
def externalType (spelled : List String) (qual name : String) : TypeSpec :=
  match env.declared name with
  | some (kind, container) =>
    .ref kind spelled ⟨name, if name ∈ env.localNames then "" else qual, container⟩
  | none => .ref .struct spelled ⟨name, qual, ""⟩

def bareType (name : String) : TypeSpec :=
  match env.declared name with
  | some (kind, container) => .ref kind [name] ⟨name, env.ownerOf name, container⟩
  | none => env.externalType [name] "" name

/-- The namespace under which `qualifier.name` is a declaration of the module `qualifier`, when
it is: another file's, or this file's own. -/
def qualifiedOwner (qualifier name : String) : Option String :=
  let owner := env.ownerByName.lookup name
  if owner = some qualifier then some qualifier
  else if env.moduleName ≠ "" ∧ qualifier = env.moduleName ∧ owner.getD "" = "" then some ""
  else none

/-- `container.name`, for a declaration nested in `container`. -/
def nestedType (container name : String) : Option TypeSpec :=
  let ref (kind : RefKind) : TypeSpec :=
    .ref kind [container, name] ⟨name, env.ownerOf container, container⟩
  if env.nestsEnum container name then some (ref .enum)
  else if env.nestsStruct container name then some (ref .struct)
  else if env.nestsUnion container name then some (ref .union)
  else none

/-- `first.….last`; `segs` is what follows `first`, in order, and is not empty. -/
def dottedType (first : String) (segs : List String) : TypeSpec :=
  let last := segs.getLastD first
  let qualifier := ".".intercalate (first :: segs.dropLast)
  let asModule := do
    let ns ← env.qualifiedOwner qualifier last
    let (kind, container) ← env.declared last
    return TypeSpec.ref kind (first :: segs) ⟨last, ns, container⟩
  let asNested := if segs.length = 1 then env.nestedType first last else none
  (asModule <|> asNested).getD (env.externalType (first :: segs) qualifier last)

/-- `OwnerForQualified`. -/
def ownerForQualified (qual name : String) : String :=
  if qual = "" ∨ qual = env.moduleName then env.ownerOf name else qual

/-- `EnumForDefault`. -/
def enumForDefault (target : TypeRef) : Option EnumDecl :=
  (if target.ownerNamespace = "" then env.localEnumValues.lookup target.name else none) <|>
    env.enumValues.lookup target.name

end Env

end Voodoo.Compiler
