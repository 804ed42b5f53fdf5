import Voodoo.Ast

/-!
# What the parser returns

`ast.h` in full: the module a `.voodoom` file parses into, with everything the
parser, `ApplyEnableIf` and the generator read of it.

A reference to a declaration also keeps the dotted names it is `spelled` with in the
source, and a default the name it is written with.  `ast.h` does not; nothing that is
computed here reads them, and they are empty for what the parser itself makes up.
They tell a bare name from a qualified one that resolves to the same declaration.

The literal of a `float` or `double` is kept as it is written: no value is computed
from it here.
-/

namespace Voodoo.Compiler

/-! ### Types -/

/-- Which of `kEnumRef`, `kStructRef` and `kUnionRef`. -/
inductive RefKind where
  | enum | struct | union
  deriving DecidableEq

inductive TypeSpec where
  | scalar (kind : ScalarKind)
  | string
  | ref (kind : RefKind) (spelled : List String) (target : TypeRef)
  /-- `fixedArraySize` is `0` for a length-prefixed array. -/
  | array (element : TypeSpec) (fixedArraySize : Nat)
  | map (key element : TypeSpec)
  /-- A raw handle names no interface. -/
  | handle (kind : HandleKind) (spelled : List String) (interface : TypeRef)
  | nullable (type : TypeSpec)
  deriving DecidableEq

/-! ### `[EnableIf]` -/

inductive EnableIfClause where
  | none
  | any (flags : List String)
  | all (flags : List String)
  deriving DecidableEq

structure EnableIf where
  enableIf : EnableIfClause := .none
  enableIfNot : EnableIfClause := .none
  deriving DecidableEq

/-! ### Defaults, consts and enums -/

inductive FloatSpecial where
  | none | infinity | negativeInfinity | nan
  deriving DecidableEq

/-- A floating-point literal as it is written. -/
structure FloatLiteral where
  negative : Bool := false
  text : String := "0"
  deriving DecidableEq

/-- A `DefaultValue` whose `has_value` is set. -/
structure DefaultValue where
  boolValue : Bool := false
  intValue : Int := 0
  floatValue : FloatLiteral := {}
  floatSpecial : FloatSpecial := .none
  stringValue : String := ""
  namedExpr : String := ""
  namedExprOwnerNamespace : String := ""
  namedExprOwnerContainer : String := ""
  spelled : List String := []
  deriving DecidableEq

structure ConstDecl where
  type : TypeSpec
  name : String
  value : DefaultValue
  declIndex : Nat := 0
  enableIf : EnableIf := {}
  deriving DecidableEq

structure EnumValue where
  name : String
  value : BitVec 32 := 0
  minVersion : UInt32 := 0
  isDefault : Bool := false
  enableIf : EnableIf := {}
  deriving DecidableEq

structure EnumDecl where
  name : String
  values : List EnumValue := []
  isExtensible : Bool := false
  isNative : Bool := false
  enableIf : EnableIf := {}
  deriving DecidableEq

/-! ### Structs, unions and interfaces -/

structure StructField where
  type : TypeSpec
  name : String
  defaultValue : Option DefaultValue := none
  minVersion : UInt32 := 0
  ordinal : UInt32 := 0
  hasExplicitOrdinal : Bool := false
  enableIf : EnableIf := {}
  deriving DecidableEq

structure StructDecl where
  name : String
  fields : List StructField := []
  enums : List EnumDecl := []
  consts : List ConstDecl := []
  declIndex : Nat := 0
  version : UInt32 := 0
  ownerContainer : String := ""
  isNative : Bool := false
  enableIf : EnableIf := {}
  deriving DecidableEq

structure UnionField where
  type : TypeSpec
  name : String
  tag : UInt32 := 0
  hasExplicitTag : Bool := false
  minVersion : UInt32 := 0
  isDefault : Bool := false
  enableIf : EnableIf := {}
  deriving DecidableEq

structure UnionDecl where
  name : String
  fields : List UnionField := []
  declIndex : Nat := 0
  version : UInt32 := 0
  isExtensible : Bool := false
  ownerContainer : String := ""
  enableIf : EnableIf := {}
  deriving DecidableEq

structure Param where
  type : TypeSpec
  name : String
  minVersion : UInt32 := 0
  ordinal : UInt32 := 0
  hasExplicitOrdinal : Bool := false
  enableIf : EnableIf := {}
  deriving DecidableEq

structure Method where
  name : String
  ordinal : UInt32 := 0
  hasExplicitOrdinal : Bool := false
  params : List Param := []
  hasResponse : Bool := false
  responseParams : List Param := []
  /-- `result_success` and `result_error` of a `=> result<T, E>` response. -/
  result : Option (TypeSpec × TypeSpec) := none
  isSync : Bool := false
  minVersion : UInt32 := 0
  enableIf : EnableIf := {}
  deriving DecidableEq

structure Interface where
  name : String
  methods : List Method := []
  enums : List EnumDecl := []
  consts : List ConstDecl := []
  structs : List StructDecl := []
  unions : List UnionDecl := []
  version : UInt32 := 0
  isExtensible : Bool := false
  enableIf : EnableIf := {}
  deriving DecidableEq

/-! ### Modules -/

structure ImportDecl where
  path : String
  line : Nat := 0
  resolvedPath : String := ""
  deriving DecidableEq

structure FeatureDecl where
  name : String
  consts : List ConstDecl := []
  enableIf : EnableIf := {}
  deriving DecidableEq

structure Module where
  name : String := ""
  imports : List ImportDecl := []
  enums : List EnumDecl := []
  structs : List StructDecl := []
  unions : List UnionDecl := []
  interfaces : List Interface := []
  consts : List ConstDecl := []
  features : List FeatureDecl := []
  deriving DecidableEq

/-! ### Names and walks -/

def StructDecl.cppEmbedName (s : StructDecl) : String := embedDeclKey s.ownerContainer s.name

def UnionDecl.cppEmbedName (u : UnionDecl) : String := embedDeclKey u.ownerContainer u.name

/-- `AllStructs`. -/
def Module.allStructs (m : Module) : List StructDecl :=
  m.structs ++ m.interfaces.flatMap (·.structs)

/-- `AllUnions`. -/
def Module.allUnions (m : Module) : List UnionDecl :=
  m.unions ++ m.interfaces.flatMap (·.unions)

end Voodoo.Compiler
