import Voodoo.Bruja.Interfaces
import Voodoo.Lib.Command

/-!
# The conversions of the quickjs binding

The code that the quickjs generator emits between JS values and C++ values.  The types of C++
values are spelled by `cppBaseType` and `cppType`; `emitValueConversion` emits the conversion of a
JS value to a new variable and `emitToJs` the one of a C++ expression to a new `JSValue`.  The
functions of the header are put together from them (`Function.parts`).

A dictionary may have itself as the type of a field.  The generator does not end then, and the
emitters, which take a bound on the depth, give nothing.
-/

namespace Voodoo.Bruja

open Command

/-! ### The module -/

/-- `TypeKind`, for the types that are nothing but a kind. -/
inductive PlainKind where
  | void | boolean | byte | octet | short | unsignedShort | long | unsignedLong | longLong
  | unsignedLongLong | float | double | domString | usvString | any

/-- `TypeKind`, for the types that refer to a declaration. -/
inductive RefKind where
  | interface | enum | dictionary | callback | unresolved
  deriving DecidableEq

/-- `TypeSpec`.  A union has a member, as `ParseType` reads one first. -/
inductive TypeSpec where
  | plain (kind : PlainKind) (nullable : Bool)
  | sequence (elementType : TypeSpec) (nullable : Bool)
  | promise (elementType : TypeSpec) (nullable : Bool)
  | union (first : TypeSpec) (rest : List TypeSpec) (nullable : Bool)
  | ref (kind : RefKind) (refName : String) (nullable : Bool)

namespace TypeSpec

def nullable : TypeSpec → Bool
  | plain _ b | sequence _ b | promise _ b | union _ _ b | ref _ _ b => b

/-- The type without its `?`. -/
def nonNull : TypeSpec → TypeSpec
  | plain kind _ => plain kind false
  | sequence element _ => sequence element false
  | promise element _ => promise element false
  | union first rest _ => union first rest false
  | ref kind name _ => ref kind name false

def isVoid : TypeSpec → Bool
  | plain .void _ => true
  | _ => false

def isInterface : TypeSpec → Bool
  | ref .interface _ _ => true
  | _ => false

end TypeSpec

structure Param where
  type : TypeSpec
  name : String
  optional : Bool
  variadic : Bool

structure Method where
  name : String
  returnType : TypeSpec
  params : List Param

structure Attribute where
  type : TypeSpec
  name : String
  readonly : Bool

/-- The members of an `Interface`; `constructorParams` are those of its constructor, if it has
one. -/
structure Members where
  methods : List Method
  attributes : List Attribute
  constructorParams : Option (List Param)

structure EnumDecl where
  name : String
  values : List String

structure DictField where
  type : TypeSpec
  name : String

structure Dictionary where
  name : String
  baseName : String
  fields : List DictField

structure CallbackDecl where
  name : String
  returnType : TypeSpec
  params : List Param

/-- `Module`, as `Resolve` leaves it: no mixin is of consequence any more. -/
structure IdlModule extends Module Members where
  enums : List EnumDecl
  dictionaries : List Dictionary
  callbacks : List CallbackDecl

namespace IdlModule

/-- `enums_by_name`: of two under one name the later one stays. -/
def enumByName (m : IdlModule) (name : String) : Option EnumDecl :=
  m.enums.reverse.find? fun e => e.name = name

/-- `dictionaries_by_name`. -/
def dictionaryByName (m : IdlModule) (name : String) : Option Dictionary :=
  m.dictionaries.reverse.find? fun d => d.name = name

def collectFields (m : IdlModule) : Nat → Dictionary → Option (List DictField)
  | 0, _ => none
  | n + 1, dict =>
    if dict.baseName = "" then some dict.fields
    else do
      let base ← m.dictionaryByName dict.baseName
      let inherited ← m.collectFields n base
      some (inherited ++ dict.fields)

/-- `CollectEffectiveFields`: the inherited fields first.  A chain of bases is not longer than the
list of the dictionaries, since `Resolve` refuses a cycle. -/
def collectEffectiveFields (m : IdlModule) (name : String) : Option (List DictField) := do
  m.collectFields (m.dictionaries.length + 1) (← m.dictionaryByName name)

end IdlModule

/-! ### The spelling of types -/

/-- The C++ types that are spelled; the last three occur in the conversions only. -/
inductive CppTy where
  | void | bool | int8 | uint8 | int16 | uint16 | int32 | uint32 | int64 | uint64 | float | double
  | string | jsValue
  | vector (element : CppTy)
  | pointer (name : String)
  | struct (name : String)
  | callback (name : String)
  | variant (members : List CppTy)
  | optional (content : CppTy)
  | int | cString | opaquePointer

/-- `UsesOptionalWrapper`. -/
def usesOptionalWrapper : TypeSpec → Bool
  | .plain .void _ | .plain .any _ | .promise _ _ => false
  | .ref .enum _ _ => true
  | .ref _ _ _ => false
  | _ => true

/-- The wrapping of `CppType`. -/
def wrapOptional (type : TypeSpec) (base : CppTy) : CppTy :=
  if type.nullable && usesOptionalWrapper type then .optional base else base

def PlainKind.cppType : PlainKind → CppTy
  | .void => .void
  | .boolean => .bool
  | .byte => .int8
  | .octet => .uint8
  | .short => .int16
  | .unsignedShort => .uint16
  | .long => .int32
  | .unsignedLong => .uint32
  | .longLong => .int64
  | .unsignedLongLong => .uint64
  | .float => .float
  | .double => .double
  | .domString | .usvString => .string
  | .any => .jsValue

mutual

def cppBaseType : TypeSpec → CppTy
  | .plain kind _ => kind.cppType
  | .sequence element _ => .vector (cppBaseType element)
  | .promise element _ => cppBaseType element
  | .union first rest _ => .variant (wrapOptional first (cppBaseType first) :: cppTypes rest)
  | .ref .interface name _ => .pointer name
  | .ref .enum _ _ => .string
  | .ref .dictionary name _ => .struct name
  | .ref .callback name _ => .callback name
  | .ref .unresolved _ _ => .void

/-- The members of a union after the first. -/
def cppTypes : List TypeSpec → List CppTy
  | [] => []
  | type :: rest => wrapOptional type (cppBaseType type) :: cppTypes rest

end

def cppType (type : TypeSpec) : CppTy := wrapOptional type (cppBaseType type)

/-- `InterfaceClassParamType`, without the reference. -/
def interfaceClassParamType (p : Param) : CppTy :=
  if p.variadic then .vector (cppType p.type) else cppType p.type

/-! ### What is emitted -/

/-- The calls whose result is owned. -/
inductive Acquire where
  | getPropertyStr (object property : String)
  | getPropertyUint32 (object index : String)
  | newArray
  | newObject

/-- A C++ expression.  A variable comes with the type it is declared with; `item` is the variable
of a `for` over the elements of an expression. -/
inductive Expr where
  | var (x : String) (type : CppTy)
  | deref (e : Expr)
  | member (e : Expr) (field : DictField)
  | item (e : Expr)

/-- Where a variable is moved to, or what it is passed as. -/
inductive Place where
  | variable (x : String)
  | content (x : String)
  | element (x : String)
  | alternative (x : String)
  | member (x : String) (field : DictField)
  | parameter (type : CppTy)

/-- What is returned: `JS_EXCEPTION`, the result of `JS_ThrowTypeError`, `JS_UNDEFINED`, a new
binding, a `JSValue`, the variable of a conversion from JS, `T{}`, or nothing. -/
inductive Returned where
  | exception | thrown | undefined | binding
  | var (x : String)
  | converted (x : String)
  | default (type : CppTy)
  | nothing

inductive Action where
  | declare (type : CppTy) (x : String)
  /-- Nothing is printed: a variable `x` is not declared. -/
  | unnamed (x : String)
  /-- `JSValue x`, with an owned value. -/
  | take (call : Acquire) (x : String)
  /-- `JSValue x`, with any other value. -/
  | value (x : String)
  /-- `JSValue promise = JS_NewPromiseCapability(ctx, resolving_funcs)`, which may fail. -/
  | newPromiseCapability
  /-- Whether `JS_IsException(x)` for an owned `x`. -/
  | isException (x : String) (b : Bool)
  /-- `x = y` of `JSValue`s; `JS_NULL` if there is no `y`. -/
  | assign (x : String) (y : Option String)
  /-- `JS_FreeValue(ctx, x)`. -/
  | free (x : String)
  /-- `JS_SetPropertyStr` or `JS_SetPropertyUint32` of an object to the value `x`. -/
  | hand (object : String) (x : String)
  | move (x : String) (place : Place)
  /-- `x = static_cast<type>(…)`. -/
  | cast (type : CppTy) (x : String)
  /-- `(e).has_value()`, and from there on `(*(e))`. -/
  | unwrap (e : Expr)
  | setFlag (x : String) (b : Bool)
  /-- Whether the flag `x` is set. -/
  | isSet (x : String) (b : Bool)
  | ret (r : Returned)

abbrev Code := Cmd Action

/-- `if (…) return JS_EXCEPTION;` -/
def orException : Code := .either (.leave (.ret .exception)) .skip

/-- `if (…) return JS_ThrowTypeError(…);` -/
def orThrow : Code := .either (.leave (.ret .thrown)) .skip

/-- `if (!x) { c }` -/
def ifNotSet (x : String) (c : Code) : Code :=
  .either (.all [.act (.isSet x false), c]) (.act (.isSet x true))

/-! ### From JS -/

/-- `EmitInterfaceProbe`; the class ids of the descendants are tried with one outcome. -/
def emitInterfaceProbe (name outVar : String) : Code :=
  .all [
    .act (.declare (.pointer name) outVar),
    .either (.all [.act (.declare .opaquePointer (outVar ++ "_opaque")), orThrow]) .skip]

/-- `if (!v_matched)`: the value may be one of the interface; its descendants are tried with one
outcome. -/
def interfaceMember (outVar name : String) : Code :=
  ifNotSet (outVar ++ "_matched") (.all [
    .act (.declare .opaquePointer (outVar ++ "_opaque")),
    .either
      (.all [.act (.cast (.pointer name) outVar), .act (.setFlag (outVar ++ "_matched") true)])
      .skip])

/-- The loop of `EmitUnionValueConversion` over the members that are interfaces. -/
def emitInterfaceMembers (outVar : String) : List TypeSpec → Code
  | [] => .skip
  | .ref .interface name _ :: rest =>
    .seq (interfaceMember outVar name) (emitInterfaceMembers outVar rest)
  | _ :: rest => emitInterfaceMembers outVar rest

/-- The first member that is not an interface. -/
def unionFallback (members : List TypeSpec) : Option TypeSpec :=
  members.find? fun type => !type.isInterface

/-- `if (!v_matched)`: the value is converted to the fallback. -/
def fallbackFromJs (outVar : String) (value : Code) : Code :=
  ifNotSet (outVar ++ "_matched") (.all [value,
    .act (.move (outVar ++ "_fallback") (.alternative outVar)),
    .act (.setFlag (outVar ++ "_matched") true)])

def unionFromJs (type : TypeSpec) (members : List TypeSpec) (outVar : String) (fallback : Code) :
    Code :=
  .all [
    .act (.declare (cppBaseType type) outVar),
    .scope (.all [
      .act (.setFlag (outVar ++ "_matched") false),
      emitInterfaceMembers outVar members,
      fallback,
      ifNotSet (outVar ++ "_matched") (.leave (.ret .thrown))])]

/-- The variable of a field, as it comes from JS. -/
def fieldJs (outVar : String) (field : DictField) : String := outVar ++ "_" ++ field.name ++ "_js"

/-- The variable of a field, converted. -/
def fieldVal (outVar : String) (field : DictField) : String := outVar ++ "_" ++ field.name ++ "_val"

def fieldFromJs (outVar source : String) (field : DictField) (value : Code) : Code :=
  .all [
    .act (.take (.getPropertyStr source field.name) (fieldJs outVar field)),
    .either (.all [value, .act (.move (fieldVal outVar field) (.member outVar field))]) .skip,
    .act (.free (fieldJs outVar field))]

/-- The body of the loop over the elements of a sequence. -/
def elementFromJs (outVar source : String) (value : Code) : Code :=
  .all [
    .act (.take (.getPropertyUint32 source (outVar ++ "_i")) (outVar ++ "_elem_js")),
    value,
    .act (.free (outVar ++ "_elem_js")),
    .act (.move (outVar ++ "_elem") (.element outVar))]

def sequenceFromJs (element : TypeSpec) (outVar source : String) (value : Code) : Code :=
  .all [
    .act (.declare (.vector (cppBaseType element)) outVar),
    .scope (.all [
      .act (.declare .int64 (outVar ++ "_len")),
      .act (.take (.getPropertyStr source "length") (outVar ++ "_len_val")),
      .either (.all [.act (.free (outVar ++ "_len_val")), .leave (.ret .exception)]) .skip,
      .act (.free (outVar ++ "_len_val")),
      .act (.declare .int64 (outVar ++ "_i")),
      .loop (elementFromJs outVar source value)])]

/-- A nullable type: the value is converted unless it is `null` or `undefined`. -/
def nullableFromJs (type : TypeSpec) (outVar : String) (value : Code) : Code :=
  .all [
    .act (.declare (cppType type) outVar),
    .either (.all [value, .act (.move (outVar ++ "_present") (.content outVar))]) .skip]

/-- A number: a variable `v_raw` for the JS number, and the variable cast from it. -/
def emitCast (raw type : CppTy) (outVar : String) : Code :=
  .all [.act (.declare raw (outVar ++ "_raw")), orException, .act (.declare type outVar)]

/-- A number that is read into the variable itself. -/
def emitNumber (type : CppTy) (outVar : String) : Code :=
  .all [.act (.declare type outVar), orException]

/-- A string; the `JS_ToCString` is freed in any case. -/
def emitString (outVar : String) : Code :=
  .all [.act (.declare .cString (outVar ++ "_cstr")), orException, .act (.declare .string outVar)]

def emitPlainConversion : PlainKind → String → Code
  | .void, outVar => .act (.unnamed outVar)
  | .boolean, outVar => emitCast .int .bool outVar
  | .byte, outVar => emitCast .int32 .int8 outVar
  | .short, outVar => emitCast .int32 .int16 outVar
  | .long, outVar => emitCast .int32 .int32 outVar
  | .octet, outVar => emitCast .uint32 .uint8 outVar
  | .unsignedShort, outVar => emitCast .uint32 .uint16 outVar
  | .unsignedLong, outVar => emitNumber .uint32 outVar
  | .longLong, outVar => emitNumber .int64 outVar
  | .unsignedLongLong, outVar => emitCast .int64 .uint64 outVar
  | .float, outVar => emitCast .double .float outVar
  | .double, outVar => emitCast .double .double outVar
  | .domString, outVar | .usvString, outVar => emitString outVar
  | .any, outVar => .act (.value outVar)

section

variable (conv : TypeSpec → String → String → Option Code)

def emitFallback (outVar source : String) : Option TypeSpec → Option Code
  | none => some .skip
  | some type => do
    let value ← conv type (outVar ++ "_fallback") source
    some (fallbackFromJs outVar value)

/-- `EmitUnionValueConversion`. -/
def emitUnionValueConversion (type : TypeSpec) (members : List TypeSpec) (outVar source : String) :
    Option Code := do
  let fallback ← emitFallback conv outVar source (unionFallback members)
  some (unionFromJs type members outVar fallback)

/-- The loop of `EmitDictionaryFromJs`. -/
def emitFieldsFromJs (outVar source : String) : List DictField → Option Code
  | [] => some .skip
  | field :: rest => do
    let value ← conv field.type (fieldVal outVar field) (fieldJs outVar field)
    let others ← emitFieldsFromJs outVar source rest
    some (.seq (fieldFromJs outVar source field value) others)

/-- `EmitDictionaryFromJs`. -/
def emitDictionaryFromJs (m : IdlModule) (name outVar source : String) : Option Code := do
  let fields ← m.collectEffectiveFields name
  let body ← emitFieldsFromJs conv outVar source fields
  some (.all [.act (.declare (.struct name) outVar), .scope body])

/-- `EmitBaseValueConversion`, where `conv` converts what the value is made of. -/
def emitBaseValueConversion (m : IdlModule) : TypeSpec → String → String → Option Code
  | .plain kind _, outVar, _ => some (emitPlainConversion kind outVar)
  | .ref .unresolved _ _, outVar, _ => some (.act (.unnamed outVar))
  | .ref .interface _ _, outVar, _ => some (.act (.unnamed outVar))
  | .promise _ _, outVar, _ => some (.act (.unnamed outVar))
  | .sequence element _, outVar, source => do
    let value ← conv element (outVar ++ "_elem") (outVar ++ "_elem_js")
    some (sequenceFromJs element outVar source value)
  | .ref .enum name _, outVar, _ => do
    let _ ← m.enumByName name
    some (.all [emitString outVar, orThrow])
  | .ref .dictionary name _, outVar, source => emitDictionaryFromJs conv m name outVar source
  | .ref .callback name _, outVar, _ => some (.act (.declare (.callback name) outVar))
  | .union first rest b, outVar, source =>
    emitUnionValueConversion conv (.union first rest b) (first :: rest) outVar source

end

/-- `EmitValueConversion`. -/
def emitValueConversion (m : IdlModule) : Nat → TypeSpec → String → String → Option Code
  | 0, _, _, _ => none
  | n + 1, type, outVar, source =>
    match type with
    | .ref .interface name _ => some (emitInterfaceProbe name outVar)
    | _ =>
      if type.nullable then do
        let value ← emitBaseValueConversion (emitValueConversion m n) m type.nonNull
          (outVar ++ "_present") source
        some (nullableFromJs type outVar value)
      else emitBaseValueConversion (emitValueConversion m n) m type outVar source

/-! ### To JS -/

def fieldToJs (outVar : String) (field : DictField) (value : Code) : Code :=
  .all [value, .act (.hand outVar (fieldJs outVar field))]

def sequenceToJs (outVar : String) (value : Code) : Code :=
  .all [
    .act (.take .newArray outVar),
    .scope (.all [
      .act (.declare .uint32 (outVar ++ "_i")),
      .loop (.all [value, .act (.hand outVar (outVar ++ "_elem_js"))])])]

def nullableToJs (outVar : String) (e : Expr) (value : Code) : Code :=
  .all [
    .act (.value outVar),
    .act (.unwrap e),
    .either
      (.act (.assign outVar none))
      (.all [value, .act (.assign outVar (some (outVar ++ "_present")))])]

section

variable (toJs : TypeSpec → String → Expr → Option Code)

def emitFieldsToJs (outVar : String) (e : Expr) : List DictField → Option Code
  | [] => some .skip
  | field :: rest => do
    let value ← toJs field.type (fieldJs outVar field) (.member e field)
    let others ← emitFieldsToJs outVar e rest
    some (.seq (fieldToJs outVar field value) others)

/-- `EmitBaseToJs`, where `toJs` converts what the value is made of. -/
def emitBaseToJs (m : IdlModule) : TypeSpec → String → Expr → Option Code
  | .plain .void _, outVar, _ => some (.act (.unnamed outVar))
  | .plain _ _, outVar, _ => some (.act (.value outVar))
  | .ref .unresolved _ _, outVar, _ => some (.act (.unnamed outVar))
  | .ref .interface _ _, outVar, _ => some (.act (.unnamed outVar))
  | .promise _ _, outVar, _ => some (.act (.unnamed outVar))
  | .sequence element _, outVar, e => do
    let value ← toJs element (outVar ++ "_elem_js") (.item e)
    some (sequenceToJs outVar value)
  | .ref .dictionary name _, outVar, e => do
    let fields ← m.collectEffectiveFields name
    let body ← emitFieldsToJs toJs outVar e fields
    some (.all [.act (.take .newObject outVar), body])
  -- callbacks and unions are for parameters only: `JS_UNDEFINED`
  | .ref .enum _ _, outVar, _ | .ref .callback _ _, outVar, _ | .union _ _ _, outVar, _ =>
    some (.act (.value outVar))

end

/-- `EmitToJs`. -/
def emitToJs (m : IdlModule) : Nat → TypeSpec → String → Expr → Option Code
  | 0, _, _, _ => none
  | n + 1, type, outVar, e =>
    match type with
    | .ref .interface _ _ => some (.act (.value outVar))
    | _ =>
      if type.nullable then do
        let value ← emitBaseToJs (emitToJs m n) m type (outVar ++ "_present") (.deref e)
        some (nullableToJs outVar e value)
      else emitBaseToJs (emitToJs m n) m type outVar e

/-- The part of `EmitPromiseReturnConversion` that depends on the type. -/
def emitResolve (m : IdlModule) (fuel : Nat) (element : TypeSpec) (result : Expr) : Option Code :=
  if element.isVoid then some (.act (.value "resolve_result"))
  else do
    let value ← emitToJs m fuel element "js_result" result
    some (.all [value, .act (.value "resolve_result"), .act (.free "js_result")])

def promiseReturn (resolve : Code) : Code :=
  .all [
    .act .newPromiseCapability,
    .either
      (.all [.act (.isException "promise" true), .leave (.ret (.var "promise"))])
      (.act (.isException "promise" false)),
    resolve,
    .act (.free "resolve_result"),
    .act (.free "resolving_funcs[0]"),
    .act (.free "resolving_funcs[1]"),
    .leave (.ret (.var "promise"))]

/-- `EmitReturnConversion`. -/
def emitReturnConversion (m : IdlModule) (fuel : Nat) (type : TypeSpec) (result : Expr) :
    Option Code :=
  match type with
  | .plain .void _ => some (.leave (.ret .undefined))
  | .promise element _ => do
    let resolve ← emitResolve m fuel element result
    some (promiseReturn resolve)
  | _ => do
    let value ← emitToJs m fuel type "js_result" result
    some (.all [value, .leave (.ret (.var "js_result"))])

/-! ### The functions of the header -/

def variadicFromJs (p : Param) (value : Code) : Code :=
  .all [
    .act (.declare (.vector (cppType p.type)) p.name),
    .loop (.all [value, .act (.move (p.name ++ "_elem") (.element p.name))])]

def optionalFromJs (p : Param) (value : Code) : Code :=
  .all [
    .act (.declare (cppType p.type) p.name),
    .either (.all [value, .act (.move (p.name ++ "_conv") (.variable p.name))]) .skip]

/-- The body of the loop of `EmitParamConversions` for the parameter `i`. -/
def emitParamConversion (m : IdlModule) (fuel i : Nat) (p : Param) : Option Code :=
  if p.variadic then do
    let value ← emitValueConversion m fuel p.type (p.name ++ "_elem") ("argv[" ++ p.name ++ "_i]")
    some (variadicFromJs p value)
  else if p.optional then do
    let value ← emitValueConversion m fuel p.type (p.name ++ "_conv") ("argv[" ++ toString i ++ "]")
    some (optionalFromJs p value)
  else emitValueConversion m fuel p.type p.name ("argv[" ++ toString i ++ "]")

/-- The parts of a function that stand for one type each, and what stands between them. -/
inductive Part where
  | fixed (code : Code)
  | param (i : Nat) (p : Param)
  | setterValue (attr : Attribute)
  | result (type : TypeSpec)
  | argument (i : Nat) (p : Param)
  | callResult (type : TypeSpec)

/-- `"js_arg" + std::to_string(i)`. -/
def argVar (i : Nat) : String := "js_arg" ++ toString i

def Part.emit (m : IdlModule) (fuel : Nat) : Part → Option Code
  | fixed code => some code
  | param i p => do
    let value ← emitParamConversion m fuel i p
    -- the call, further down, passes it
    some (.all [value, .act (.move p.name (.parameter (interfaceClassParamType p)))])
  | setterValue attr => do
    let value ← emitValueConversion m fuel attr.type attr.name "val"
    some (.all [value, .act (.move attr.name (.parameter (cppType attr.type))),
      .leave (.ret .undefined)])
  | result type => emitReturnConversion m fuel type (.var "result" (cppType type))
  | argument i p => emitToJs m fuel p.type (argVar i) (.var p.name (cppType p.type))
  | callResult type =>
    if type.isVoid then some (.act (.free "call_result"))
    else do
      let value ← emitValueConversion m fuel type "cpp_result" "call_result"
      some (.all [value, .act (.free "call_result"), .leave (.ret (.converted "cpp_result"))])

/-- The functions that the header defines, with the class of the object they are called on. -/
inductive Function where
  | method (iface : String) (method : Method)
  | getter (iface : String) (attr : Attribute)
  | setter (iface : String) (attr : Attribute)
  | construct (iface : String) (params : List Param)
  | call (decl : CallbackDecl)

/-- `RequiredArgCount`. -/
def requiredArgCount (params : List Param) : Nat :=
  (params.reverse.dropWhile fun p => p.optional || p.variadic).length

/-- `auto* impl = …; if (!impl) return JS_EXCEPTION;` -/
def implOf (iface : String) : Code :=
  .all [.act (.declare (.pointer iface) "impl"), orException]

/-- `if (argc < required) return JS_ThrowTypeError(…);` -/
def checkArgCount (params : List Param) : Code :=
  if requiredArgCount params = 0 then .skip else orThrow

def paramParts : Nat → List Param → List Part
  | _, [] => []
  | i, p :: rest => .param i p :: paramParts (i + 1) rest

def argumentParts : Nat → List Param → List Part
  | _, [] => []
  | i, p :: rest => .argument i p :: argumentParts (i + 1) rest

/-- `JS_FreeValue(ctx_, js_arg…)` for the arguments. -/
def freeArguments (count : Nat) : Code :=
  .all ((List.range count).map fun i => .act (.free (argVar i)))

/-- `return T{};` or `return;`. -/
def returnDefault (type : TypeSpec) : Returned :=
  if type.isVoid then .nothing else .default (cppType type)

/-- Of a `Call`, the call and what follows where it has thrown. -/
def callFunction (decl : CallbackDecl) : Code :=
  .all [
    .act (.value "call_result"),
    freeArguments decl.params.length,
    .either
      (.all [.act (.value "exc"), .act (.free "exc"), .act (.free "call_result"),
        .leave (.ret (returnDefault decl.returnType))])
      .skip]

def Function.parts : Function → List Part
  | method iface m =>
    .fixed (.all [implOf iface, checkArgCount m.params]) :: (paramParts 0 m.params ++
      [.result m.returnType])
  | getter iface attr => [.fixed (implOf iface), .result attr.type]
  | setter iface attr =>
    if attr.readonly then [.fixed (.all [implOf iface, .leave (.ret .thrown)])]
    else [.fixed (implOf iface), .setterValue attr]
  | construct iface params =>
    .fixed (checkArgCount params) :: (paramParts 0 params ++
      [.fixed (.all [.act (.declare (.pointer iface) "impl"), orThrow, .leave (.ret .binding)])])
  | call decl =>
    argumentParts 0 decl.params ++ [.fixed (callFunction decl), .callResult decl.returnType]

/-- The type that the function returns. -/
def Function.returns : Function → CppTy
  | call decl => cppType decl.returnType
  | _ => .jsValue

def emitParts (m : IdlModule) (fuel : Nat) : List Part → Option Code
  | [] => some .skip
  | part :: rest => do
    let code ← part.emit m fuel
    let others ← emitParts m fuel rest
    some (.seq code others)

/-- The body of a function. -/
def Function.emit (m : IdlModule) (fuel : Nat) (f : Function) : Option Code :=
  emitParts m fuel f.parts

/-- `AncestorsInclusive`. -/
def ancestorsInclusive (map : String → Option (Interface Members)) :
    Nat → Interface Members → List (Interface Members)
  | 0, _ => []
  | n + 1, iface =>
    iface :: if iface.baseName = "" then []
      else match map iface.baseName with
        | none => []
        | some base => ancestorsInclusive map n base

/-- The functions of one interface: those of its effective members. -/
def memberFunctions (iface : String) (members : Members) : List Function :=
  members.methods.map (.method iface) ++
    members.attributes.flatMap fun attr => [.getter iface attr, .setter iface attr]

/-- The functions of the header, as `GenerateCppHeader` comes to them. -/
def functions (m : IdlModule) : List Function :=
  m.callbacks.map .call ++
  (m.interfaces.flatMap fun iface =>
    (ancestorsInclusive (byName m.interfaces) m.interfaces.length iface).flatMap fun anc =>
      memberFunctions iface.name anc.members) ++
  m.interfaces.filterMap fun iface => iface.members.constructorParams.map (.construct iface.name)

/-! ### What is converted in turn -/

/-- To convert a value of the type, one converts values of the other that it is made of. -/
inductive Component (m : IdlModule) : TypeSpec → TypeSpec → Prop
  | element {element : TypeSpec} {b : Bool} : Component m (.sequence element b) element
  | field {name : String} {b : Bool} {fields : List DictField} {field : DictField}
      (hfields : m.collectEffectiveFields name = some fields) (hfield : field ∈ fields) :
      Component m (.ref .dictionary name b) field.type

/-- A union tries its fallback on the value itself. -/
inductive Tries : TypeSpec → TypeSpec → Prop
  | fallback {first : TypeSpec} {rest : List TypeSpec} {b : Bool} {type : TypeSpec}
      (h : unionFallback (first :: rest) = some type) : Tries (.union first rest b) type

theorem component_nonNull {m : IdlModule} {t u : TypeSpec} :
    Component m t.nonNull u ↔ Component m t u := by
  cases t with
  | sequence element b =>
    constructor
    · rintro ⟨⟩
      exact .element
    · rintro ⟨⟩
      exact .element
  | ref kind name b =>
    constructor
    · rintro (_ | ⟨hfields, hfield⟩)
      exact .field hfields hfield
    · rintro (_ | ⟨hfields, hfield⟩)
      exact .field hfields hfield
  | _ => exact iff_of_false nofun nofun

theorem tries_nonNull {t u : TypeSpec} : Tries t.nonNull u ↔ Tries t u := by
  cases t with
  | union first rest b =>
    constructor
    · rintro ⟨h⟩
      exact .fallback h
    · rintro ⟨h⟩
      exact .fallback h
  | _ => exact iff_of_false nofun nofun

section

variable {m : IdlModule} {n : Nat} {type : TypeSpec} {v source : String} {e : Expr}

theorem isInterface_nonNull : type.nonNull.isInterface = type.isInterface := by
  cases type with
  | ref kind name b =>
    cases kind with
    | _ => rfl
  | _ => rfl

theorem emitValueConversion_succ (hi : type.isInterface = false) :
    emitValueConversion m (n + 1) type v source =
      if type.nullable then
        (emitBaseValueConversion (emitValueConversion m n) m type.nonNull (v ++ "_present") source).bind
          fun value => some (nullableFromJs type v value)
      else emitBaseValueConversion (emitValueConversion m n) m type v source := by
  cases type with
  | ref kind name b =>
    cases kind with
    | interface => cases hi
    | _ => rfl
  | _ => rfl

theorem emitToJs_succ (hi : type.isInterface = false) :
    emitToJs m (n + 1) type v e =
      if type.nullable then
        (emitBaseToJs (emitToJs m n) m type (v ++ "_present") (.deref e)).bind
          fun value => some (nullableToJs v e value)
      else emitBaseToJs (emitToJs m n) m type v e := by
  cases type with
  | ref kind name b =>
    cases kind with
    | interface => cases hi
    | _ => rfl
  | _ => rfl

theorem emitInterfaceMembers_ind {P : List TypeSpec → Code → Prop} (hnil : P [] .skip)
    (hinterface : ∀ name b rest c, P rest c →
      P (.ref .interface name b :: rest) (.seq (interfaceMember v name) c))
    (hother : ∀ t rest c, P rest c → P (t :: rest) c) (members : List TypeSpec) :
    P members (emitInterfaceMembers v members) := by
  fun_induction emitInterfaceMembers v members with
  | case1 => exact hnil
  | case2 name b rest ih => exact hinterface name b rest _ ih
  | case3 t rest _ ih => exact hother t rest _ ih

end

end Voodoo.Bruja
