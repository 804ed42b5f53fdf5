import Voodoo.Bruja.Conversions

/-!
# The variables of the quickjs binding

What the functions of the quickjs header declare, scope by scope.  A conversion to a variable `v`
declares `v` where it stands and most of what it needs besides in scopes of its own.  Two things stay
outside: the helper of a scalar, `v_raw` or `v_cstr`, and what the conversion of a dictionary to JS
needs for its fields, which is `v_f_js` for a field `f` and again what that field needs.

The variable of a loop and the parameters of a function count to the scope of the body, where C++
does not let their names be declared again.  LocalScopes in which nothing is declared are left out.
-/

namespace Voodoo.Bruja

/-- What is declared where the code stands, and in each of the scopes it opens. -/
structure LocalScopes where
  here : List String
  inner : List (List String)

namespace LocalScopes

def declare (names : List String) : LocalScopes := ⟨names, []⟩

def append (a b : LocalScopes) : LocalScopes := ⟨a.here ++ b.here, a.inner ++ b.inner⟩

instance : Append LocalScopes := ⟨append⟩

/-- `{ … }` -/
def block (l : LocalScopes) : LocalScopes := ⟨[], l.here :: l.inner⟩

/-- No scope declares a name twice. -/
def Distinct (l : LocalScopes) : Prop := l.here.Nodup ∧ ∀ names ∈ l.inner, names.Nodup

instance (l : LocalScopes) : Decidable l.Distinct := inferInstanceAs (Decidable (_ ∧ _))

@[simp] theorem here_declare (names : List String) : (declare names).here = names := rfl

@[simp] theorem inner_declare (names : List String) : (declare names).inner = [] := rfl

@[simp] theorem here_append (a b : LocalScopes) : (a ++ b).here = a.here ++ b.here := rfl

@[simp] theorem inner_append (a b : LocalScopes) : (a ++ b).inner = a.inner ++ b.inner := rfl

@[simp] theorem here_block (l : LocalScopes) : l.block.here = [] := rfl

@[simp] theorem inner_block (l : LocalScopes) : l.block.inner = l.here :: l.inner := rfl

end LocalScopes

open LocalScopes

/-! ### From JS -/

/-- The conversion of a scalar, with the helper it needs. -/
def plainLocals : PlainKind → String → List String
  | .void, _ => []
  | .unsignedLong, outVar | .longLong, outVar | .any, outVar => [outVar]
  | .domString, outVar | .usvString, outVar => [outVar ++ "_cstr", outVar]
  | .boolean, outVar | .byte, outVar | .short, outVar | .long, outVar | .octet, outVar
  | .unsignedShort, outVar | .unsignedLongLong, outVar | .float, outVar | .double, outVar =>
    [outVar ++ "_raw", outVar]

/-- `EmitInterfaceProbe`. -/
def interfaceProbeLocals (outVar : String) : LocalScopes :=
  declare [outVar] ++ (declare [outVar ++ "_opaque"]).block

/-- The loop of `EmitUnionValueConversion` over the members. -/
def interfaceMembersLocals (outVar : String) : List TypeSpec → LocalScopes
  | [] => declare []
  | .ref .interface _ _ :: rest =>
    (declare [outVar ++ "_opaque"]).block ++ interfaceMembersLocals outVar rest
  | _ :: rest => interfaceMembersLocals outVar rest

section

variable (conv : TypeSpec → String → Option LocalScopes)

def fallbackLocals (outVar : String) : Option TypeSpec → Option LocalScopes
  | none => some (declare [])
  | some type => do
    let value ← conv type (outVar ++ "_fallback")
    some value.block

/-- `EmitUnionValueConversion`. -/
def unionValueConversionLocals (members : List TypeSpec) (outVar : String) :
    Option LocalScopes := do
  let fallback ← fallbackLocals conv outVar (unionFallback members)
  some (declare [outVar] ++
    (declare [outVar ++ "_matched"] ++ interfaceMembersLocals outVar members ++ fallback).block)

/-- The loop of `EmitDictionaryFromJs`. -/
def fieldsFromJsLocals (outVar : String) : List DictField → Option LocalScopes
  | [] => some (declare [])
  | field :: rest => do
    let value ← conv field.type (fieldVal outVar field)
    let others ← fieldsFromJsLocals outVar rest
    some (declare [fieldJs outVar field] ++ value.block ++ others)

/-- The loop over the elements of a sequence and what stands before it. -/
def sequenceFromJsLocals (outVar : String) (value : LocalScopes) : LocalScopes :=
  declare [outVar] ++
    (declare [outVar ++ "_len", outVar ++ "_len_val"] ++
      (declare [outVar ++ "_i", outVar ++ "_elem_js"] ++ value).block).block

/-- `EmitBaseValueConversion`. -/
def baseValueConversionLocals (m : IdlModule) : TypeSpec → String → Option LocalScopes
  | .plain kind _, outVar => some (declare (plainLocals kind outVar))
  | .ref .unresolved _ _, _ | .ref .interface _ _, _ | .promise _ _, _ => some (declare [])
  | .sequence element _, outVar => do
    let value ← conv element (outVar ++ "_elem")
    some (sequenceFromJsLocals outVar value)
  | .ref .enum name _, outVar => do
    let _ ← m.enumByName name
    some (declare [outVar ++ "_cstr", outVar])
  | .ref .dictionary name _, outVar => do
    let fields ← m.collectEffectiveFields name
    let body ← fieldsFromJsLocals conv outVar fields
    some (declare [outVar] ++ body.block)
  | .ref .callback _ _, outVar => some (declare [outVar])
  | .union first rest _, outVar => unionValueConversionLocals conv (first :: rest) outVar

end

/-- `EmitValueConversion`. -/
def valueConversionLocals (m : IdlModule) : Nat → TypeSpec → String → Option LocalScopes
  | 0, _, _ => none
  | n + 1, type, outVar =>
    match type with
    | .ref .interface _ _ => some (interfaceProbeLocals outVar)
    | _ =>
      if type.nullable then do
        let value ← baseValueConversionLocals (valueConversionLocals m n) m type.nonNull
          (outVar ++ "_present")
        some (declare [outVar] ++ value.block)
      else baseValueConversionLocals (valueConversionLocals m n) m type outVar

/-! ### To JS -/

section

variable (toJs : TypeSpec → String → Option LocalScopes)

/-- The fields of a dictionary, all in one scope. -/
def fieldsToJsLocals (outVar : String) : List DictField → Option LocalScopes
  | [] => some (declare [])
  | field :: rest => do
    let value ← toJs field.type (fieldJs outVar field)
    let others ← fieldsToJsLocals outVar rest
    some (value ++ others)

/-- `EmitBaseToJs`. -/
def baseToJsLocals (m : IdlModule) : TypeSpec → String → Option LocalScopes
  | .plain .void _, _ | .ref .unresolved _ _, _ | .ref .interface _ _, _ | .promise _ _, _ =>
    some (declare [])
  | .sequence element _, outVar => do
    let value ← toJs element (outVar ++ "_elem_js")
    some (declare [outVar] ++
      (declare [outVar ++ "_i"] ++ (declare [outVar ++ "_elem"] ++ value).block).block)
  | .ref .dictionary name _, outVar => do
    let fields ← m.collectEffectiveFields name
    let body ← fieldsToJsLocals toJs outVar fields
    some (declare [outVar] ++ body)
  | .plain _ _, outVar | .ref .enum _ _, outVar | .ref .callback _ _, outVar
  | .union _ _ _, outVar => some (declare [outVar])

end

/-- `EmitToJs`. -/
def toJsLocals (m : IdlModule) : Nat → TypeSpec → String → Option LocalScopes
  | 0, _, _ => none
  | n + 1, type, outVar =>
    match type with
    | .ref .interface _ _ => some (declare [outVar])
    | _ =>
      if type.nullable then do
        let value ← baseToJsLocals (toJsLocals m n) m type.nonNull (outVar ++ "_present")
        some (declare [outVar] ++ value.block)
      else baseToJsLocals (toJsLocals m n) m type outVar

/-- `EmitPromiseReturnConversion`. -/
def promiseReturnConversionLocals (m : IdlModule) (fuel : Nat) (element : TypeSpec) :
    Option LocalScopes :=
  if element.isVoid then
    some (declare ["resolving_funcs", "promise"] ++ declare ["resolve_argv", "resolve_result"])
  else do
    let value ← toJsLocals m fuel element "js_result"
    some (declare ["resolving_funcs", "promise"] ++ value ++
      declare ["resolve_argv", "resolve_result"])

/-- `EmitReturnConversion`. -/
def returnConversionLocals (m : IdlModule) (fuel : Nat) : TypeSpec → Option LocalScopes
  | .plain .void _ => some (declare [])
  | .promise element _ => promiseReturnConversionLocals m fuel element
  | type => toJsLocals m fuel type "js_result"

/-! ### Functions -/

/-- The body of the loop of `EmitParamConversions`. -/
def paramConversionLocals (m : IdlModule) (fuel : Nat) (p : Param) : Option LocalScopes :=
  if p.variadic then do
    let value ← valueConversionLocals m fuel p.type (p.name ++ "_elem")
    some (declare [p.name] ++ (declare [p.name ++ "_i"] ++ value).block)
  else if p.optional then do
    let value ← valueConversionLocals m fuel p.type (p.name ++ "_conv")
    some (declare [p.name] ++ value.block)
  else valueConversionLocals m fuel p.type p.name

/-- `EmitParamConversions`. -/
def paramConversionsLocals (m : IdlModule) (fuel : Nat) : List Param → Option LocalScopes
  | [] => some (declare [])
  | p :: rest => do
    let first ← paramConversionLocals m fuel p
    let others ← paramConversionsLocals m fuel rest
    some (first ++ others)

/-- `ReturnsVoid`. -/
def returnsVoid : TypeSpec → Bool
  | .plain .void _ => true
  | .promise element _ => element.isVoid
  | _ => false

/-- `EmitMethodCallback`. -/
def methodCallbackLocals (m : IdlModule) (fuel : Nat) (method : Method) : Option LocalScopes := do
  let params ← paramConversionsLocals m fuel method.params
  let returned ← returnConversionLocals m fuel method.returnType
  some (declare ["ctx", "this_val", "argc", "argv", "impl"] ++ params ++
    declare (if returnsVoid method.returnType then [] else ["result"]) ++ returned)

/-- The getter of `EmitAttributeCallbacks`. -/
def getterLocals (m : IdlModule) (fuel : Nat) (attr : Attribute) : Option LocalScopes := do
  let returned ← returnConversionLocals m fuel attr.type
  some (declare ["ctx", "this_val", "impl", "result"] ++ returned)

/-- The setter of `EmitAttributeCallbacks`. -/
def setterLocals (m : IdlModule) (fuel : Nat) (attr : Attribute) : Option LocalScopes :=
  if attr.readonly then some (declare ["ctx", "this_val", "val", "impl"])
  else do
    let value ← valueConversionLocals m fuel attr.type attr.name
    some (declare ["ctx", "this_val", "val", "impl"] ++ value)

/-- The trampoline of `EmitInstallConstructorFunction`. -/
def constructLocals (m : IdlModule) (fuel : Nat) (params : List Param) : Option LocalScopes := do
  let conversions ← paramConversionsLocals m fuel params
  some (declare ["ctx", "this_val", "argc", "argv"] ++ conversions ++ declare ["impl"])

/-- The arguments of a `Call`, from the argument `i` on. -/
def argumentsLocals (m : IdlModule) (fuel : Nat) : Nat → List Param → Option LocalScopes
  | _, [] => some (declare [])
  | i, p :: rest => do
    let first ← toJsLocals m fuel p.type (argVar i)
    let others ← argumentsLocals m fuel (i + 1) rest
    some (first ++ others)

/-- What a `Call` returns, where it returns something. -/
def callResultLocals (m : IdlModule) (fuel : Nat) (type : TypeSpec) : Option LocalScopes :=
  if type.isVoid then some (declare []) else valueConversionLocals m fuel type "cpp_result"

/-- `Call` of `EmitCallbackWrapperClass`. -/
def callLocals (m : IdlModule) (fuel : Nat) (decl : CallbackDecl) : Option LocalScopes := do
  let arguments ← argumentsLocals m fuel 0 decl.params
  let result ← callResultLocals m fuel decl.returnType
  some (declare (decl.params.map (·.name) ++ ["ctx"]) ++ arguments ++
    declare (if decl.params.isEmpty then [] else ["argv"]) ++ declare ["call_result"] ++
    (declare ["exc"]).block ++ result)

/-- The functions whose variables depend on what is declared in the module. -/
def Function.scopes (m : IdlModule) (fuel : Nat) : Function → Option LocalScopes
  | .method _ f => methodCallbackLocals m fuel f
  | .getter _ attr => getterLocals m fuel attr
  | .setter _ attr => setterLocals m fuel attr
  | .construct _ params => constructLocals m fuel params
  | .call decl => callLocals m fuel decl

/-- The functions whose variables are always the same. -/
inductive FixedFunction where
  | createBinding
  | factorySlot
  | installConstructor
  | callbackConstructor
  | callbackDestructor
  | matches

def FixedFunction.scopes : FixedFunction → LocalScopes
  | .createBinding => declare ["ctx", "impl", "rt", "obj", "kFuncs"]
  | .factorySlot => declare ["factory"]
  | .installConstructor => declare ["ctx", "target", "factory", "ctor"]
  | .callbackConstructor => declare ["ctx", "fn"]
  | .callbackDestructor => declare []
  | .matches => declare ["other"]

theorem FixedFunction.distinct (f : FixedFunction) : f.scopes.Distinct := by
  cases f <;> decide

end Voodoo.Bruja
