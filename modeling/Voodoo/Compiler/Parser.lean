import Voodoo.Compiler.Names
import Voodoo.Lib.EState

/-!
# The parser

`parser.cc`, function by function.  A parse is a run over the tokens that are left,
the last of which is the end-of-file token and is never passed.  What a run changes is
the state `Parser`; the name tables of `Env` do not change and are an argument.

A `while` loop is `loop`: its test, its body, and a count of turns that starts at the
number of tokens left, since every turn takes at least one.
-/

namespace Voodoo.Compiler

/-! ### State and primitives -/

/-- What `[` NAME (`=` value)? `]` was given as a value. -/
inductive AttributeValue where
  | none
  | int (value : Int)
  | float
  | bool (value : Bool)
  | string (value : String)
  | identifier (name : String)
  | pipeList (names : List String)
  | ampList (names : List String)
  deriving DecidableEq

structure ParsedAttribute where
  name : String
  value : AttributeValue := .none
  line : Nat := 0

/-- The members of `Impl` that change while a file is parsed. -/
structure Parser where
  rest : List Token
  constByName : StringMap ConstDecl := []
  constContainer : StringMap String := []
  nextEmbedOrder : Nat := 0
  nextConstOrder : Nat := 0
  pendingResultUnions : List UnionDecl := []
  leftoverAttrs : Option (List ParsedAttribute) := none

abbrev Parse (α : Type) := EStateM Failure Parser α

namespace Parse

variable {α β : Type}

/-- `Cur()`. -/
def cur : Parse Token := do
  return (← get).rest.headD ⟨.end, "", 0⟩

/-- The token `n` places after the current one. -/
def peek (n : Nat) : Parse Token := do
  return (← get).rest.getD n ⟨.end, "", 0⟩

def at' (type : TokenType) : Parse Bool := do
  return (← cur).type = type

def atKeyword (keyword : String) : Parse Bool := do
  let token ← cur
  return token.type = .name && token.text = keyword

/-- `if (pos_ + 1 < t_.size()) ++pos_;` -/
def advance : Parse Unit :=
  modify (fun s => match s.rest with
    | _ :: t :: tokens => { s with rest := t :: tokens }
    | _ => s)

def parseError (msg : String) (line : Nat) : Parse α := throw (.parseError msg line)

def spelling (token : Token) : String := if token.text = "" then "<eof>" else token.text

def expect (type : TokenType) (what : String) : Parse Token := do
  let token ← cur
  unless token.type = type do
    parseError ("expected " ++ what ++ ", got '" ++ spelling token ++ "'") token.line
  advance
  return token

def expectName (what : String) : Parse String := do
  return (← expect .name what).text

def expectKeyword (keyword : String) : Parse Unit := do
  let token ← cur
  unless ← atKeyword keyword do
    parseError ("expected '" ++ keyword ++ "', got '" ++ spelling token ++ "'") token.line
  advance

def liftResult (x : Except Failure α) : Parse α :=
  match x with
  | .ok a => pure a
  | .error e => throw e

/-- `while (test) value = body(value);` -/
def loop (test : Parse Bool) (body : α → Parse α) : Nat → α → Parse α
  | 0, _ => throw .outOfFuel
  | turns + 1, a => do
    if ← test then loop test body turns (← body a) else return a

/-- `while (test) body`, collecting what the turns give. -/
def many (test : Parse Bool) (body : Parse α) : Parse (List α) := do
  let s ← get
  loop test (fun found => do return found ++ [← body]) (s.rest.length + 1) []

/-- `while (At(type)) { Advance(); body }`. -/
def manyAfter (type : TokenType) (body : Parse α) : Parse (List α) :=
  many (at' type) (do advance; body)

/-- `item (',' item)*`. -/
def commaSeparated (item : Parse α) : Parse (List α) := do
  let first ← item
  return first :: (← manyAfter .comma item)

/-- What stands before the closing brace of a body. -/
def untilRBrace (body : α → Parse α) (a : α) : Parse α := do
  let s ← get
  loop (do return !(← at' .rBrace)) body (s.rest.length + 1) a

end Parse

open Parse

/-! ### Numbers -/

def parseSignedNumber : Parse (Bool × String) := do
  let negative ← at' .minus
  if negative then advance
  if ← at' .hexNumber then
    let num ← cur
    advance
    return (negative, num.text)
  let num ← expect .number "number"
  return (negative, num.text)

def parseFloatValue : Parse FloatLiteral := do
  let negative ← at' .minus
  if negative then advance
  let token ← cur
  if token.type = .floatNumber then
    liftResult (stod token.text)
    advance
    return { negative, text := token.text }
  else if token.type = .hexNumber ∨ token.type = .number then
    let _ ← liftResult (stoll token.text)
    advance
    return { negative, text := token.text }
  else parseError "expected a float/double literal" token.line

/-- `@` already read: the number after it. -/
def parseOrdinal (what : String) : Parse UInt32 := do
  let num ← expect .number what
  return UInt32.ofNat (← liftResult (stoul num.text))

/-- `('@' NUMBER)?`. -/
def parseOptionalOrdinal (what : String) : Parse (Option UInt32) := do
  if ← at' .at then
    advance
    return some (← parseOrdinal what)
  return none

/-! ### Attributes -/

def parseAttributeValue : Parse AttributeValue := do
  let token ← cur
  if token.type = .stringLiteral then
    advance
    return .string token.text
  else if (← atKeyword "true") || (← atKeyword "false") then
    advance
    return .bool (token.text = "true")
  else if token.type = .name then
    advance
    let segs ← manyAfter .dot (expectName "name after '.'")
    let first := ".".intercalate (token.text :: segs)
    if ← at' .pipe then
      return .pipeList (first :: (← manyAfter .pipe (expectName "name after '|'")))
    else if ← at' .ampersand then
      return .ampList (first :: (← manyAfter .ampersand (expectName "name after '&'")))
    else return .identifier first
  else
    let next ← if token.type = .minus then peek 1 else pure token
    if next.type = .floatNumber then
      let _ ← parseFloatValue
      return .float
    else
      let (negative, digits) ← parseSignedNumber
      return .int (← liftResult (parseIntLiteral negative digits))

def parseAttribute : Parse ParsedAttribute := do
  let token ← expect .name "attribute name"
  if ← at' .equals then
    advance
    return { name := token.text, value := ← parseAttributeValue, line := token.line }
  return { name := token.text, line := token.line }

def parseAttributeList : Parse (List ParsedAttribute) := do
  let _ ← expect .lBracket "'['"
  let attrs ← commaSeparated parseAttribute
  let _ ← expect .rBracket "']'"
  return attrs

/-- `if (At(kLBracket)) attrs = ParseAttributeList();` -/
def parseOptionalAttributes : Parse (List ParsedAttribute) := do
  if ← at' .lBracket then parseAttributeList else return []

def fillEnableIf (dst : EnableIf) (a : ParsedAttribute) : Parse EnableIf := do
  unless a.name = "EnableIf" ∨ a.name = "EnableIfNot" do return dst
  let clause ← match a.value with
    | .none => parseError ("'[" ++ a.name ++ "=...]' requires a flag name") a.line
    | .identifier flag => pure (EnableIfClause.any [flag])
    | .pipeList flags => pure (.any flags)
    | .ampList flags => pure (.all flags)
    | _ => parseError ("'[" ++ a.name ++ "=...]' value must be a flag name, a|b, or a&b") a.line
  return if a.name = "EnableIf" then { dst with enableIf := clause }
    else { dst with enableIfNot := clause }

/-- An attribute that takes no value: `Sync`, `Extensible`, `Native`, `Default`. -/
def flagAttribute (a : ParsedAttribute) : Parse Unit :=
  unless a.value = .none do
    parseError ("'[" ++ a.name ++ "]' doesn't take a value") a.line

/-- `[MinVersion=N]`. -/
def minVersionAttribute (a : ParsedAttribute) : Parse UInt32 :=
  match a.value with
  | .int value =>
    if value < 0 then parseError "'[MinVersion=N]': N must be non-negative" a.line
    else return UInt32.ofNat value.toNat
  | _ => parseError "'[MinVersion=N]' requires an integer value" a.line

/-! ### Type specs -/

def scalarKeyword : String → Option ScalarKind
  | "bool" => some .bool
  | "int8" => some .int8
  | "uint8" => some .uint8
  | "int16" => some .int16
  | "uint16" => some .uint16
  | "int32" => some .int32
  | "uint32" => some .uint32
  | "int64" => some .int64
  | "uint64" => some .uint64
  | "float" => some .float
  | "double" => some .double
  | _ => none

def pendingKeyword : String → Option HandleKind
  | "pending_remote" => some .pendingRemote
  | "pending_receiver" => some .pendingReceiver
  | "pending_associated_remote" => some .pendingAssociatedRemote
  | "pending_associated_receiver" => some .pendingAssociatedReceiver
  | _ => none

def handleSubtype : String → Option HandleKind
  | "message_pipe" => some .handleMessagePipe
  | "data_pipe_consumer" => some .handleDataPipeConsumer
  | "data_pipe_producer" => some .handleDataPipeProducer
  | "shared_buffer" => some .handleSharedBuffer
  | "platform" | "mach_send" | "mach_receive" | "mach_port" => some .handlePlatform
  | _ => none

/-- The types `CheckValidMapKeyType` lets through. -/
def TypeSpec.isMapKey : TypeSpec → Bool
  | .scalar kind => kind ≠ .float && kind ≠ .double
  | .string | .ref .. => true
  | _ => false

def checkValidMapKeyType (key : TypeSpec) : Parse Unit := do
  let token ← cur
  match key with
  | .nullable _ => parseError "map key type cannot be nullable" token.line
  | key =>
    unless key.isMapKey do
      parseError ("map key type must be bool/integer/string/enum/struct/union " ++
        "(never float/double/array/map/pending_*)") token.line

/-- The names after `first` of `Name ('.' Name)*`. -/
def dottedNames : Parse (List String) := manyAfter .dot (expectName "name after '.'")

/-- The handle type of an interface named by `first` and the `segs` after it. -/
def interfaceHandle (env : Env) (kind : HandleKind) (first : String) (segs : List String) :
    TypeSpec :=
  let qual := if segs = [] then "" else ".".intercalate (first :: segs.dropLast)
  let name := segs.getLastD first
  .handle kind (first :: segs) ⟨name, env.ownerForQualified qual name, ""⟩

def parseArrayType (element : Parse TypeSpec) : Parse TypeSpec := do
  let _ ← expect .lAngle "'<'"
  let element ← element
  let mut fixedSize := 0
  if ← at' .comma then
    advance
    let token ← expect .number "fixed array size"
    fixedSize ← liftResult (stoi token.text)
    if fixedSize = 0 then
      parseError "fixed array size must be a positive integer" token.line
  let _ ← expect .rAngle "'>'"
  return .array element fixedSize

def parseMapType (type : Parse TypeSpec) : Parse TypeSpec := do
  let _ ← expect .lAngle "'<'"
  let key ← type
  checkValidMapKeyType key
  let _ ← expect .comma "',' between map key and value types"
  let value ← type
  let _ ← expect .rAngle "'>'"
  return .map key value

def parseHandleType : Parse TypeSpec := do
  if ← at' .lAngle then
    advance
    let subtype ← expect .name "handle subtype"
    let _ ← expect .rAngle "'>'"
    match handleSubtype subtype.text with
    | some kind => return .handle kind [] ⟨"", "", ""⟩
    | none =>
      parseError ("unsupported handle subtype '" ++ subtype.text ++
        "' -- this compiler supports 'message_pipe', 'data_pipe_consumer', " ++
        "'data_pipe_producer', 'shared_buffer', 'platform', and 'mach_send'/" ++
        "'mach_receive'/'mach_port' (as handle<platform>)") subtype.line
  return .handle .handle [] ⟨"", "", ""⟩

def parseAssociatedType (env : Env) : Parse TypeSpec := do
  let iface ← expectName "associated interface name"
  let segs ← dottedNames
  if ← at' .ampersand then
    advance
    return interfaceHandle env .pendingAssociatedReceiver iface segs
  return interfaceHandle env .pendingAssociatedRemote iface segs

def parsePendingType (env : Env) (kind : HandleKind) : Parse TypeSpec := do
  let _ ← expect .lAngle "'<'"
  let iface ← expectName "interface name"
  let segs ← dottedNames
  let _ ← expect .rAngle "'>'"
  return interfaceHandle env kind iface segs

def parseTypeSpecInner (env : Env) (type : Parse TypeSpec) : Parse TypeSpec := do
  let name ← expectName "type name"
  if name = "string" then return .string
  else if name = "array" then parseArrayType type
  else if name = "map" ∨ name = "hash_map" then parseMapType type
  else if name = "handle" then parseHandleType
  else if name = "associated" then parseAssociatedType env
  else match pendingKeyword name, scalarKeyword name with
    | some kind, _ => parsePendingType env kind
    | none, some kind => return .scalar kind
    | none, none =>
      let segs ← dottedNames
      return if segs = [] then env.bareType name else env.dottedType name segs

def parseTypeSpecIn (env : Env) : Nat → Parse TypeSpec
  | 0 => throw .outOfFuel
  | depth + 1 => do
    let t ← parseTypeSpecInner env (parseTypeSpecIn env depth)
    -- Every kind may be null, so `CheckNullableAllowed` lets all of them through.
    if ← at' .question then
      advance
      return .nullable t
    return t

/-- `ParseTypeSpec`.  A type nests no deeper than there are tokens. -/
def parseTypeSpec (env : Env) : Parse TypeSpec := do
  let s ← get
  parseTypeSpecIn env (s.rest.length + 1)

/-! ### Defaults and consts -/

/-- `it->second.type.kind != field_type.kind`, among the kinds a default is legal for. -/
def sameKind : TypeSpec → TypeSpec → Bool
  | .nullable t, u | t, .nullable u => sameKind t u
  | .scalar k, .scalar l => k = l
  | .string, .string => true
  | .ref k .., .ref l .. => k = l
  | .array .., .array .. | .map .., .map .. => true
  | .handle k .., .handle l .. => k = l
  | _, _ => false

def resolveConstDefault (fieldType : TypeSpec) (name : String) (line : Nat) : Parse ConstDecl := do
  match (← get).constByName.lookup name with
  | none =>
    parseError ("'" ++ name ++ "' must be a previously declared const (earlier in this " ++
      "file, or in one of its imports) to use as a field default") line
  | some c =>
    unless sameKind c.type fieldType do
      parseError ("const '" ++ name ++ "' has a different type than this field -- a " ++
        "field default must match its field's type exactly") line
    return c

def constContainerOf (name : String) : Parse String := do
  return ((← get).constContainer.lookup name).getD ""

/-- `ResolveConstReference`, with the names the reference is written with. -/
def resolveConstReference (fieldType : TypeSpec) : Parse (ConstDecl × List String) := do
  let first ← expect .name "const name"
  let segs ← manyAfter .dot (expect .name "const name after '.'")
  let last := segs.getLastD first
  let c ← resolveConstDefault fieldType last.text last.line
  if segs.length = 1 then
    let actual ← constContainerOf last.text
    unless actual = first.text do
      parseError ("'" ++ first.text ++ "' has no nested const '" ++ last.text ++ "'" ++
        if actual = "" then " (it's a top-level const)"
        else " (it belongs to '" ++ actual ++ "')") last.line
  return (c, first.text :: segs.map (·.text))

/-- A default that is the const it names: `copy` takes over the value. -/
def namedDefault (env : Env) (fieldType : TypeSpec) (copy : DefaultValue → DefaultValue) :
    Parse DefaultValue := do
  let (c, spelled) ← resolveConstReference fieldType
  return { copy c.value with
    namedExpr := c.name
    namedExprOwnerNamespace := env.ownerOf c.name
    namedExprOwnerContainer := ← constContainerOf c.name
    spelled }

/-- `float.INFINITY` and its relatives. -/
def floatSpecial? (word : String) : Option FloatSpecial :=
  if word = "INFINITY" then some .infinity
  else if word = "NEGATIVE_INFINITY" then some .negativeInfinity
  else if word = "NAN" then some .nan
  else none

def parseFloatDefault (env : Env) (fieldType : TypeSpec) : Parse DefaultValue := do
  let token ← cur
  let isFloatName := token.type = .name ∧ (token.text = "float" ∨ token.text = "double")
  let dot ← peek 1
  let word ← peek 2
  match if isFloatName ∧ dot.type = .dot then floatSpecial? word.text else none with
  | some special =>
    advance
    advance
    advance
    return { floatSpecial := special }
  | none =>
    if token.type = .name then
      namedDefault env fieldType
        (fun v => { floatValue := v.floatValue, floatSpecial := v.floatSpecial })
    else return { floatValue := ← parseFloatValue }

/-- The default of a field of the enum `target`. -/
def parseEnumDefault (env : Env) (target : TypeRef) : Parse DefaultValue := do
  let first ← expect .name "enum value name for field default"
  let segs ← manyAfter .dot (expectName "enum value name after '.'")
  let enumerator := segs.getLastD first.text
  match env.enumForDefault target with
  | none =>
    parseError ("enum '" ++ target.name ++ "' must be declared (fully, in this file or one of " ++
      "its imports) before its values can be used as a field default") first.line
  | some e =>
    -- An enumerator stripped by `[EnableIf]` is named all the same, with the value `0`.
    let value := ((e.values.find? (·.name == enumerator)).map (·.value)).getD 0
    return {
      intValue := value.toInt
      namedExpr := target.name ++ "::" ++ enumerator
      namedExprOwnerNamespace := target.ownerNamespace
      namedExprOwnerContainer := target.ownerContainer
      spelled := first.text :: segs }

/-- The default of a field whose struct type is declared nowhere. -/
def parseStrippedEnumDefault : Parse DefaultValue := do
  let first ← expectName "name"
  let segs ← manyAfter .dot (expectName "name after '.'")
  return { namedExpr := segs.getLastD first, spelled := first :: segs }

def parseDefaultValue (env : Env) : TypeSpec → Parse DefaultValue
  | .nullable t => parseDefaultValue env t
  | fieldType@(.scalar .bool) => do
    let token ← cur
    if token.type = .name then
      if token.text = "true" ∨ token.text = "false" then
        advance
        return { boolValue := token.text = "true" }
      namedDefault env fieldType (fun v => { boolValue := v.boolValue })
    else
      parseError ("expected 'true', 'false', or a previously declared const name for a bool " ++
        "field default, got '" ++ spelling token ++ "'") token.line
  | fieldType@(.scalar .float) | fieldType@(.scalar .double) => parseFloatDefault env fieldType
  | fieldType@(.scalar _) => do
    if ← at' .name then namedDefault env fieldType (fun v => { intValue := v.intValue })
    else
      let (negative, digits) ← parseSignedNumber
      return { intValue := ← liftResult (parseIntLiteral negative digits) }
  | fieldType@.string => do
    if ← at' .name then namedDefault env fieldType (fun v => { stringValue := v.stringValue })
    else return { stringValue := (← expect .stringLiteral "string field default").text }
  | .ref .enum _ target => parseEnumDefault env target
  | fieldType => do
    let token ← cur
    match fieldType with
    | .ref .struct _ target =>
      if target.name ∉ env.structs ∧ token.type = .name then return ← parseStrippedEnumDefault
    | _ => pure ()
    parseError ("field defaults are only supported for bool/integer/float/double/string/enum " ++
      "types (never struct/union/array/map/pending_*)") token.line

/-- `IsLegalConstType`, for a type that is not nullable. -/
def TypeSpec.isLegalConstType : TypeSpec → Bool
  | .scalar _ | .string | .ref .enum .. => true
  | _ => false

def parseConst (env : Env) : Parse ConstDecl := do
  expectKeyword "const"
  let start ← cur
  let type ← parseTypeSpec env
  unless type.isLegalConstType do
    parseError ("const type must be bool/integer/float/double/string/enum " ++
      "(never nullable, struct/union/array/map/pending_*)") start.line
  let name ← expectName "const name"
  let _ ← expect .equals "'=' in const declaration"
  let value ← parseDefaultValue env type
  let _ ← expect .semi "';' after const declaration"
  return { type, name, value }

/-- A const in the body of `container`, `""` for the top level: it is known from here on. -/
def parseConstIn (env : Env) (container : String) (attrs : List ParsedAttribute) :
    Parse ConstDecl := do
  let c ← parseConst env
  let enableIf ← attrs.foldlM fillEnableIf c.enableIf
  let s ← get
  let c := { c with enableIf, declIndex := s.nextConstOrder }
  set { s with
    nextConstOrder := s.nextConstOrder + 1
    constContainer :=
      if container = "" then s.constContainer else (c.name, container) :: s.constContainer
    constByName := (c.name, c) :: s.constByName }
  return c

/-! ### Enums -/

def parseEnumValueAttribute (v : EnumValue) (a : ParsedAttribute) : Parse EnumValue := do
  if a.name = "MinVersion" then return { v with minVersion := ← minVersionAttribute a }
  else if a.name = "Default" then
    flagAttribute a
    return { v with isDefault := true }
  else return { v with enableIf := ← fillEnableIf v.enableIf a }

/-- An enumerator after the ones `soFar`; the next implicit value follows from the last of them. -/
def parseEnumValue (soFar : List EnumValue) : Parse EnumValue := do
  let attrs ← parseOptionalAttributes
  let v ← attrs.foldlM parseEnumValueAttribute { name := "" }
  let name ← expectName "enum value name"
  if ← at' .equals then
    advance
    let token ← cur
    if token.type = .name then
      advance
      match soFar.find? (·.name == token.text) with
      | some previous => return { v with name, value := previous.value }
      | none =>
        parseError ("enum value '" ++ name ++ "' aliases unknown value '" ++ token.text ++ "'")
          token.line
    else
      let (negative, digits) ← parseSignedNumber
      return { v with name, value := BitVec.ofInt 32 (← liftResult (parseIntLiteral negative digits)) }
  else return { v with name, value := (soFar.getLast?.map (·.value + 1)).getD 0 }

/-- One more enumerator after a comma, unless the comma was the last. -/
def parseNextEnumValue (values : List EnumValue) : Parse (List EnumValue) := do
  advance
  if ← at' .rBrace then return values
  return values ++ [← parseEnumValue values]

def parseEnumValues : Parse (List EnumValue) := do
  let first ← parseEnumValue []
  let s ← get
  loop (at' .comma) parseNextEnumValue (s.rest.length + 1) [first]

def parseEnumAttribute (e : EnumDecl) (a : ParsedAttribute) : Parse EnumDecl := do
  if a.name = "Extensible" then
    flagAttribute a
    return { e with isExtensible := true }
  else if a.name = "Native" then
    flagAttribute a
    return { e with isNative := true }
  else return { e with enableIf := ← fillEnableIf e.enableIf a }

def parseEnum (topAttrs : List ParsedAttribute) : Parse EnumDecl := do
  expectKeyword "enum"
  let e ← topAttrs.foldlM parseEnumAttribute { name := "" }
  let e := { e with name := ← expectName "enum name" }
  if ← at' .semi then
    advance
    return e
  let _ ← expect .lBrace "'\x7b'"
  let values ← if ← at' .rBrace then pure [] else parseEnumValues
  let _ ← expect .rBrace "'\x7d'"
  let _ ← expect .semi "';' after enum body"
  if 1 < (values.filter (·.isDefault)).length then
    parseError ("enum '" ++ e.name ++ "': at most one value may be [Default]") (← cur).line
  return { e with values }

/-! ### Structs -/

def parseStructFieldAttribute (f : StructField) (a : ParsedAttribute) : Parse StructField := do
  if a.name = "MinVersion" then return { f with minVersion := ← minVersionAttribute a }
  else return { f with enableIf := ← fillEnableIf f.enableIf a }

def parseStructField (env : Env) (attrs : List ParsedAttribute) : Parse StructField := do
  let f ← attrs.foldlM parseStructFieldAttribute { type := .string, name := "" }
  let type ← parseTypeSpec env
  let name ← expectName "field name"
  let ordinal ← parseOptionalOrdinal "field ordinal"
  let mut defaultValue := none
  if ← at' .equals then
    advance
    defaultValue := some (← parseDefaultValue env type)
  let _ ← expect .semi "';' after field declaration"
  return { f with
    type, name, defaultValue
    ordinal := ordinal.getD 0
    hasExplicitOrdinal := ordinal.isSome }

/-- One declaration in the body of a struct. -/
def parseStructMember (env : Env) (s : StructDecl) : Parse StructDecl := do
  let attrs ← parseOptionalAttributes
  if ← atKeyword "enum" then return { s with enums := s.enums ++ [← parseEnum attrs] }
  else if ← atKeyword "const" then
    return { s with consts := s.consts ++ [← parseConstIn env s.name attrs] }
  else
    let f ← parseStructField env attrs
    return { s with fields := s.fields ++ [f], version := max s.version f.minVersion }

def parseStructAttribute (s : StructDecl) (a : ParsedAttribute) : Parse StructDecl := do
  if a.name = "Native" then
    flagAttribute a
    return { s with isNative := true }
  else return { s with enableIf := ← fillEnableIf s.enableIf a }

def parseStruct (env : Env) (topAttrs : List ParsedAttribute) : Parse StructDecl := do
  expectKeyword "struct"
  let s ← topAttrs.foldlM parseStructAttribute { name := "" }
  let s := { s with name := ← expectName "struct name" }
  if ← at' .semi then
    advance
    return s
  let _ ← expect .lBrace "'\x7b'"
  let s ← untilRBrace (parseStructMember env) s
  let _ ← expect .rBrace "'\x7d'"
  let _ ← expect .semi "';' after struct body"
  return s

/-- The next `decl_index`. -/
def takeEmbedOrder : Parse Nat := do
  let s ← get
  set { s with nextEmbedOrder := s.nextEmbedOrder + 1 }
  return s.nextEmbedOrder

/-- A struct in the body of `container`, `""` for the top level. -/
def parseStructIn (env : Env) (container : String) (attrs : List ParsedAttribute) :
    Parse StructDecl := do
  let s ← parseStruct env attrs
  return { s with ownerContainer := container, declIndex := ← takeEmbedOrder }

/-! ### Unions -/

def parseUnionFieldAttribute (f : UnionField) (a : ParsedAttribute) : Parse UnionField := do
  if a.name = "MinVersion" then return { f with minVersion := ← minVersionAttribute a }
  else if a.name = "Default" then
    flagAttribute a
    return { f with isDefault := true }
  else return { f with enableIf := ← fillEnableIf f.enableIf a }

/-- A variant.  One without `@N` takes the number of such variants before it. -/
def parseUnionMember (env : Env) (u : UnionDecl) : Parse UnionDecl := do
  let attrs ← parseOptionalAttributes
  let f ← attrs.foldlM parseUnionFieldAttribute { type := .string, name := "" }
  let type ← parseTypeSpec env
  let name ← expectName "field name"
  let tag ← parseOptionalOrdinal "tag number"
  let _ ← expect .semi "';' after field declaration"
  let implicit := UInt32.ofNat (u.fields.filter (!·.hasExplicitTag)).length
  let f := { f with type, name, tag := tag.getD implicit, hasExplicitTag := tag.isSome }
  return { u with fields := u.fields ++ [f], version := max u.version f.minVersion }

/-- `while (used.count(next)) ++next;` -/
def firstUnused (used : List UInt32) : Nat → UInt32 → UInt32
  | 0, next => next
  | turns + 1, next => if next ∈ used then firstUnused used turns (next + 1) else next

/-- Where explicit and implicit tags are mixed, an implicit one takes the next number not used. -/
def mixTags : List UInt32 → UInt32 → List UnionField → List UnionField
  | _, _, [] => []
  | used, next, f :: fields =>
    if f.hasExplicitTag then f :: mixTags used next fields
    else
      let next := firstUnused used (used.length + 1) next
      { f with tag := next } :: mixTags (next :: used) (next + 1) fields

def parseUnionAttribute (u : UnionDecl) (a : ParsedAttribute) : Parse UnionDecl := do
  if a.name = "Extensible" then
    flagAttribute a
    return { u with isExtensible := true }
  else return { u with enableIf := ← fillEnableIf u.enableIf a }

def parseUnion (env : Env) (topAttrs : List ParsedAttribute) : Parse UnionDecl := do
  expectKeyword "union"
  let u ← topAttrs.foldlM parseUnionAttribute { name := "" }
  let u := { u with name := ← expectName "union name" }
  let _ ← expect .lBrace "'\x7b'"
  let u ← untilRBrace (parseUnionMember env) u
  let _ ← expect .rBrace "'\x7d'"
  let _ ← expect .semi "';' after union body"
  let explicit := (u.fields.filter (·.hasExplicitTag)).map (·.tag)
  let mixed := u.fields.any (·.hasExplicitTag) && u.fields.any (!·.hasExplicitTag)
  let u := if mixed then { u with fields := mixTags explicit 0 u.fields } else u
  if u.fields = [] then
    parseError ("union '" ++ u.name ++ "': must have at least one field") (← cur).line
  if 1 < (u.fields.filter (·.isDefault)).length then
    parseError ("union '" ++ u.name ++ "': at most one field may be [Default]") (← cur).line
  return u

/-- A union in the body of `container`, `""` for the top level. -/
def parseUnionIn (env : Env) (container : String) (attrs : List ParsedAttribute) :
    Parse UnionDecl := do
  let u ← parseUnion env attrs
  return { u with ownerContainer := container, declIndex := ← takeEmbedOrder }

/-! ### Methods -/

def parseParamAttribute (p : Param) (a : ParsedAttribute) : Parse Param := do
  if a.name = "MinVersion" then return { p with minVersion := ← minVersionAttribute a }
  else return { p with enableIf := ← fillEnableIf p.enableIf a }

def parseParam (env : Env) : Parse Param := do
  let attrs ← parseOptionalAttributes
  let p ← attrs.foldlM parseParamAttribute { type := .string, name := "" }
  let type ← parseTypeSpec env
  let name ← expectName "parameter name"
  let ordinal ← parseOptionalOrdinal "parameter ordinal"
  return { p with type, name, ordinal := ordinal.getD 0, hasExplicitOrdinal := ordinal.isSome }

/-- `param_list? ')'`. -/
def parseParams (env : Env) : Parse (List Param) := do
  let params ← if ← at' .rParen then pure [] else commaSeparated (parseParam env)
  let _ ← expect .rParen "')'"
  return params

def parseMethodAttribute (m : Method) (a : ParsedAttribute) : Parse Method := do
  if a.name = "Sync" then
    flagAttribute a
    return { m with isSync := true }
  else if a.name = "MinVersion" then return { m with minVersion := ← minVersionAttribute a }
  else return { m with enableIf := ← fillEnableIf m.enableIf a }

/-- `take_method_ordinal`, when there is an `@`. -/
def parseMethodOrdinal (m : Method) : Parse Method := do
  unless ← at' .at do return m
  let line := (← cur).line
  advance
  let num ← expect .number "ordinal number"
  if m.hasExplicitOrdinal then
    parseError ("method '" ++ m.name ++ "': ordinal specified twice") line
  let ordinal := UInt32.ofNat (← liftResult (stoul num.text))
  if 0xFFFFFFFE ≤ ordinal then
    parseError ("method '" ++ m.name ++ "': ordinal " ++ toString ordinal ++
      " collides with a reserved control-message ordinal (0xFFFFFFFE and 0xFFFFFFFF are " ++
      "reserved for QueryVersion/RequireVersion)") line
  return { m with ordinal, hasExplicitOrdinal := true }

/-- `MakeResultUnion`: the union a `result<T, E>` response stands for, kept for the end of the
file. -/
def makeResultUnion (ifaceName methodName : String) (valueType errorType : TypeSpec) :
    Parse TypeSpec := do
  let name := ifaceName ++ "_" ++ methodName ++ "Result"
  let declIndex ← takeEmbedOrder
  modify (fun s => { s with
    pendingResultUnions := s.pendingResultUnions ++ [{
      name, declIndex
      fields := [
        { type := valueType, name := "value", tag := 0 },
        { type := errorType, name := "error", tag := 1 }] }] })
  return .ref .union [] ⟨name, "", ""⟩

def parseResultResponse (env : Env) (ifaceName : String) (m : Method) : Parse Method := do
  advance
  let _ ← expect .lAngle "'<'"
  let valueType ← parseTypeSpec env
  let _ ← expect .comma "',' between result<T, E>'s two types"
  let errorType ← parseTypeSpec env
  let _ ← expect .rAngle "'>'"
  let type ← makeResultUnion ifaceName m.name valueType errorType
  return { m with
    hasResponse := true
    result := some (valueType, errorType)
    responseParams := [{ type, name := "result" }] }

def parseResponse (env : Env) (ifaceName : String) (m : Method) : Parse Method := do
  unless ← at' .arrow do return m
  advance
  if ← atKeyword "result" then parseResultResponse env ifaceName m
  else
    let _ ← expect .lParen "'(' after '=>'"
    return { m with hasResponse := true, responseParams := ← parseParams env }

def parseMethod (env : Env) (topAttrs : List ParsedAttribute) (ifaceName : String) :
    Parse Method := do
  let m ← topAttrs.foldlM parseMethodAttribute { name := "" }
  let m := { m with name := ← expectName "method name" }
  let m ← parseMethodOrdinal m
  let _ ← expect .lParen "'('"
  let m := { m with params := ← parseParams env }
  let m ← parseMethodOrdinal m
  let m ← parseResponse env ifaceName m
  let _ ← expect .semi "';' after method declaration"
  if m.isSync ∧ ¬m.hasResponse then
    parseError ("'[Sync]' method '" ++ m.name ++ "' must have a response (=> (...)) -- there's " ++
      "nothing to block for otherwise") (← cur).line
  return m

/-! ### Interfaces and features -/

/-- One declaration in the body of an interface.  A method without `@N` takes the number of such
methods before it. -/
def parseInterfaceMember (env : Env) (i : Interface) : Parse Interface := do
  let attrs ← parseOptionalAttributes
  if ← atKeyword "enum" then return { i with enums := i.enums ++ [← parseEnum attrs] }
  else if ← atKeyword "struct" then
    return { i with structs := i.structs ++ [← parseStructIn env i.name attrs] }
  else if ← atKeyword "union" then
    return { i with unions := i.unions ++ [← parseUnionIn env i.name attrs] }
  else if ← atKeyword "const" then
    return { i with consts := i.consts ++ [← parseConstIn env i.name attrs] }
  else
    let m ← parseMethod env attrs i.name
    let implicit := UInt32.ofNat (i.methods.filter (!·.hasExplicitOrdinal)).length
    let m := if m.hasExplicitOrdinal then m else { m with ordinal := implicit }
    return { i with methods := i.methods ++ [m], version := max i.version m.minVersion }

def parseInterfaceAttribute (i : Interface) (a : ParsedAttribute) : Parse Interface := do
  if a.name = "Extensible" then
    flagAttribute a
    return { i with isExtensible := true }
  else return { i with enableIf := ← fillEnableIf i.enableIf a }

def parseInterface (env : Env) (topAttrs : List ParsedAttribute) : Parse Interface := do
  let i ← topAttrs.foldlM parseInterfaceAttribute { name := "" }
  expectKeyword "interface"
  let i := { i with name := ← expectName "interface name" }
  let _ ← expect .lBrace "'\x7b'"
  let i ← untilRBrace (parseInterfaceMember env) i
  let _ ← expect .rBrace "'\x7d'"
  let _ ← expect .semi "';' after interface body"
  if i.methods.any (·.hasExplicitOrdinal) && i.methods.any (!·.hasExplicitOrdinal) then
    parseError ("interface '" ++ i.name ++ "': either every method has an explicit @ordinal or " ++
      "none do") (← cur).line
  return i

def parseFeatureMember (env : Env) (f : FeatureDecl) : Parse FeatureDecl := do
  let attrs ← parseOptionalAttributes
  let token ← cur
  unless ← atKeyword "const" do
    parseError ("feature '" ++ f.name ++ "': only 'const' declarations are allowed inside a " ++
      "'feature \x7b ... \x7d' body (matching real mojom's own FeatureBody grammar), got '" ++
      spelling token ++ "'") token.line
  return { f with consts := f.consts ++ [← parseConstIn env f.name attrs] }

def parseFeature (env : Env) : Parse FeatureDecl := do
  expectKeyword "feature"
  let name ← expectName "feature name"
  let _ ← expect .lBrace "'\x7b'"
  let f ← untilRBrace (parseFeatureMember env) { name }
  let _ ← expect .rBrace "'\x7d'"
  let _ ← expect .semi "';' after feature body"
  return f

/-! ### Headers and bodies -/

structure FileHeader where
  moduleName : String := ""
  imports : List ImportDecl := []

/-- `ConsumeHeaderAttributeList`: whether the list stood before a `module` or an `import`.  If
not, it is kept for the body. -/
def consumeHeaderAttributeList : Parse Bool := do
  unless ← at' .lBracket do return false
  let attrs ← parseAttributeList
  if (← atKeyword "module") || (← atKeyword "import") then return true
  modify (fun s => { s with leftoverAttrs := some attrs })
  return false

def parseImport : Parse ImportDecl := do
  expectKeyword "import"
  let line := (← cur).line
  let path ← expect .stringLiteral "import path string"
  let _ ← expect .semi "';' after import statement"
  return { path := path.text, line }

def parseModuleStatement : Parse String := do
  unless ← atKeyword "module" do return ""
  advance
  let first ← expectName "module name"
  let segs ← manyAfter .dot (expectName "module name segment")
  let _ ← expect .semi "';' after module name"
  return ".".intercalate (first :: segs)

/-- The test of the loop over the imports. -/
def atImport : Parse Bool := do
  if ← at' .lBracket then
    unless ← consumeHeaderAttributeList do return false
  atKeyword "import"

def parseHeader : Parse FileHeader := do
  if ← at' .lBracket then
    unless ← consumeHeaderAttributeList do return {}
  let moduleName ← parseModuleStatement
  return { moduleName, imports := ← many atImport parseImport }

/-- The attributes of the next top-level declaration. -/
def takeTopAttributes : Parse (List ParsedAttribute) := do
  match (← get).leftoverAttrs with
  | some attrs =>
    modify (fun s => { s with leftoverAttrs := none })
    return attrs
  | none => parseOptionalAttributes

/-- One top-level declaration. -/
def parseTopLevel (env : Env) (m : Module) : Parse Module := do
  let hadAttrs := (← get).leftoverAttrs.isSome || (← at' .lBracket)
  let attrs ← takeTopAttributes
  let token ← cur
  if ← atKeyword "interface" then
    return { m with interfaces := m.interfaces ++ [← parseInterface env attrs] }
  else if ← atKeyword "union" then
    return { m with unions := m.unions ++ [← parseUnionIn env "" attrs] }
  else if ← atKeyword "enum" then return { m with enums := m.enums ++ [← parseEnum attrs] }
  else if ← atKeyword "struct" then
    return { m with structs := m.structs ++ [← parseStructIn env "" attrs] }
  else if ← atKeyword "const" then
    return { m with consts := m.consts ++ [← parseConstIn env "" attrs] }
  else if ← atKeyword "feature" then
    let f ← parseFeature env
    let enableIf ← attrs.foldlM fillEnableIf f.enableIf
    return { m with features := m.features ++ [{ f with enableIf }] }
  else if hadAttrs then
    parseError ("expected 'interface', 'union', 'enum', 'struct', 'const', or 'feature' after " ++
      "attribute list, got '" ++ spelling token ++ "'") token.line
  else if ← atKeyword "module" then
    parseError "'module' statement must be the first thing in the file" token.line
  else if ← atKeyword "import" then
    parseError "'import' statements must come before any other declaration" token.line
  else
    parseError ("expected 'interface', 'struct', 'union', 'enum', or 'const', got '" ++
      spelling token ++ "'") token.line

/-- The declarations of `ParseBody`, the synthesized unions after the written ones. -/
def parseDecls (env : Env) : Parse Module := do
  let s ← get
  let m ← loop (do return !(← at' .end)) (parseTopLevel env) (s.rest.length + 1) {}
  return { m with unions := m.unions ++ (← get).pendingResultUnions }

end Voodoo.Compiler
