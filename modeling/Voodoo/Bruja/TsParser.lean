import Voodoo.Bruja.TsAst
import Voodoo.Lib.PartialLoop

/-!
# The TypeScript parser

`TsParser`, at a position of its tokens.  A position behind the last token is a fault, whether it is
looked at or gone to, and a loop that gets no further does not end.

`stop` are breakpoints: where the parser comes to one of them it stops.  The parser of the source is the
one without breakpoints, and what it comes to is what the others stop at.
-/

namespace Voodoo.Bruja.Goxx

open PartialLoop

/-- The places where a breakpoint can be. -/
inductive Spot where
  /-- Behind the opening brace of an import list. -/
  | importList (i : Nat)
  /-- At a member of a class that is no name. -/
  | classMember (i : Nat)
  /-- Behind the point of a member expression. -/
  | memberName (i : Nat)

inductive TsFault where
  /-- `TsParseError`. -/
  | parseError (msg : String) (line : Nat)
  | pastEnd
  | reached (s : Spot)

abbrev Parser (α : Type) := StateT Nat (Run TsFault) α

/-- What the functions that call themselves belong to. -/
abbrev TsTokens := List TsToken

/-! ### Tokens -/

section

variable (toks : List TsToken)

def peek : Parser TsToken := fun i =>
  match toks[i]? with
  | some t => pure (t, i)
  | none => throw .pastEnd

def peekN (n : Nat) : Parser TsToken := fun i =>
  match toks[i + n]? <|> toks.getLast? with
  | some t => pure (t, i)
  | none => throw .pastEnd

def check (type : TsTok) : Parser Bool := do
  let t ← peek toks
  return t.type == type

def TsToken.isIdent (t : TsToken) (w : String) : Bool := t.type == .ident && t.text == ascii w

def checkIdent (w : String) : Parser Bool := do
  let t ← peek toks
  return t.isIdent w

/-- One of these words. -/
def checkIdents (ws : List String) : Parser Bool := do
  let t ← peek toks
  return ws.any t.isIdent

/-- No step is taken over `End`. -/
def advance : Parser TsToken := do
  let t ← peek toks
  if t.type = .endOfFile then throw .pastEnd
  else do
    modify (· + 1)
    return t

/-- `Match`. -/
def accept (type : TsTok) : Parser Bool := do
  if ← check toks type then do
    let _ ← advance toks
    return true
  else return false

/-- `if (CheckIdent(w)) Advance();`. -/
def skipIdent (w : String) : Parser Unit := do
  if ← checkIdent toks w then do
    let _ ← advance toks
    return ()
  else return ()

/-- The name that comes here, if one does. -/
def optionalName : Parser Bytes := do
  if ← check toks .ident then do
    let t ← advance toks
    return t.text
  else return []

def fail {α : Type} (msg : String) : Parser α := do
  let t ← peek toks
  throw (.parseError msg t.line)

def expect (type : TsTok) (what : String) : Parser TsToken := do
  if ← check toks type then advance toks else fail toks ("expected " ++ what)

def optionalSemi : Parser Unit := do
  let _ ← accept toks .semi
  return ()

def breakpoint (stop : Spot → Bool) (spot : Nat → Spot) : Parser Unit := do
  let i ← get
  if stop (spot i) then throw (.reached (spot i)) else return ()

def modifiers : List String :=
  ["export", "default", "public", "private", "protected", "readonly", "static", "declare",
    "abstract"]

def noAsync : String := "async is not supported in the Go++ converter"

def TsTokens.skipModifiers (toks : TsTokens) : Parser Unit := do
  if ← checkIdents toks modifiers then do
    let _ ← advance toks
    toks |>.skipModifiers
  else if ← checkIdent toks "async" then fail toks noAsync
  else return ()
partial_fixpoint

open TsTokens

/-! ### Imports -/

def stripTsExt (path : Bytes) : Bytes :=
  if (ascii ".tsx").isSuffixOf path then path.take (path.length - 4)
  else if (ascii ".ts").isSuffixOf path then path.take (path.length - 3)
  else path

/-- `as` and the name behind it. -/
def skipAs : Parser Unit := do
  let next ← peekN toks 1
  if (← checkIdent toks "as") && next.type == .ident then do
    let _ ← advance toks
    let _ ← advance toks
    return ()
  else return ()

/-- The turns of a `while` loop, until one of them is `false`. -/
def whileTrue (turn : Parser Bool) : Parser Unit := fun i => do
  let j ← loop (fun i => do
    let (more, j) ← turn i
    return if more then .inl j else .inr j) i
  return ((), j)

/-- A name between the braces.  A token that is no name and no comma stays where it is. -/
def importName : Parser Bool := do
  if (← check toks .rBrace) || (← check toks .endOfFile) then return false
  else do
    let _ ← optionalName toks
    let _ ← accept toks .comma
    skipAs toks
    return true

/-- The same behind a default import, without `as`. -/
def moreName : Parser Bool := do
  if (← check toks .rBrace) || (← check toks .endOfFile) then return false
  else do
    let _ ← optionalName toks
    let _ ← accept toks .comma
    return true

variable (stop : Spot → Bool)

/-- What stands between `import` and `from`. -/
def importClause : Parser Unit := do
  if ← accept toks .star then do
    skipIdent toks "as"
    let _ ← optionalName toks
    return ()
  else if ← accept toks .lBrace then do
    breakpoint stop .importList
    whileTrue (importName toks)
    let _ ← expect toks .rBrace "'\x7d'"
    return ()
  else if ← check toks .ident then do
    let _ ← advance toks
    if ← accept toks .comma then do
      if ← accept toks .lBrace then do
        breakpoint stop .importList
        whileTrue (moreName toks)
        let _ ← expect toks .rBrace "'\x7d'"
        return ()
      else return ()
    else return ()
  else return ()

/-- The path, if it comes here. -/
def importPath : Parser (List Bytes) := do
  if ← check toks .string then do
    let t ← advance toks
    optionalSemi toks
    return [stripTsExt t.text]
  else do
    optionalSemi toks
    return []

def parseImport : Parser (List Bytes) := do
  let _ ← advance toks
  if ← check toks .string then importPath toks
  else do
    importClause toks stop
    skipIdent toks "from"
    importPath toks

/-! ### Types -/

/-- To behind the closing token of the `depth`-th level, or to `End`. -/
def TsTokens.skipNested (toks : TsTokens) (opening closing : TsTok) (depth : Nat) :
    Parser Unit := do
  if depth = 0 then return ()
  else if ← check toks .endOfFile then return ()
  else if ← accept toks opening then toks |>.skipNested opening closing (depth + 1)
  else if ← accept toks closing then toks |>.skipNested opening closing (depth - 1)
  else do
    let _ ← advance toks
    toks |>.skipNested opening closing depth
partial_fixpoint

def TsTokens.arraySuffix (toks : TsTokens) (t : TsType) : Parser TsType := do
  if ← accept toks .lBrack then do
    let _ ← expect toks .rBrack "']'"
    toks |>.arraySuffix { t with array := true }
  else return t
partial_fixpoint

def typeName : Parser Bytes := do
  if ← check toks .ident then do
    let t ← advance toks
    return t.text
  else return ascii "any"

mutual

def TsTokens.parseType (toks : TsTokens) : Parser TsType := do
  if ← accept toks .lBrace then do
    skipNested toks .lBrace .rBrace 1
    return ⟨ascii "any", false⟩
  else do
    let name ← typeName toks
    let t ← toks |>.typeArguments name
    let t ← arraySuffix toks t
    toks |>.alternatives
    return t
partial_fixpoint

/-- The type of this name with what stands in angle brackets behind it. -/
def TsTokens.typeArguments (toks : TsTokens) (name : Bytes) : Parser TsType := do
  if ← accept toks .lt then do
    if name = ascii "Array" then do
      let inner ← toks |>.parseType
      let _ ← expect toks .gt "'>'"
      return { inner with array := true }
    else if name = ascii "Promise" then do
      let inner ← toks |>.parseType
      let _ ← expect toks .gt "'>'"
      return inner
    else do
      skipNested toks .lt .gt 1
      return ⟨name, false⟩
  else return ⟨name, false⟩
partial_fixpoint

/-- The other alternatives of a union, of which nothing is kept. -/
def TsTokens.alternatives (toks : TsTokens) : Parser Unit := do
  if ← accept toks .pipe then do
    let _ ← toks |>.parseType
    toks |>.alternatives
  else return ()
partial_fixpoint

end

/-- A type behind a colon, if there is one. -/
def typeAnnotation : Parser TsType := do
  if ← accept toks .colon then parseType toks else return {}

/-! ### Parameters -/

def TsTokens.parseParamList (toks : TsTokens) : Parser (List TsParam) := do
  if (← check toks .rParen) || (← check toks .endOfFile) then return []
  else do
    let _ ← accept toks .ellipsis
    let name ← optionalName toks
    let _ ← accept toks .question
    let type ← typeAnnotation toks
    if ← accept toks .comma then do
      let more ← toks |>.parseParamList
      return ⟨name, type⟩ :: more
    else return [⟨name, type⟩]
partial_fixpoint

def parenthesized : Parser (List TsParam) := do
  let _ ← expect toks .lParen "'('"
  let params ← parseParamList toks
  let _ ← expect toks .rParen "')'"
  return params

def TsTokens.arrowParams (toks : TsTokens) : Parser (List TsParam) := do
  let name ← optionalName toks
  let type ← typeAnnotation toks
  if ← accept toks .comma then do
    let more ← toks |>.arrowParams
    return ⟨name, type⟩ :: more
  else return [⟨name, type⟩]
partial_fixpoint

/-- The parameters of an arrow function, behind the opening parenthesis. -/
def arrowHead : Parser (List TsParam) := do
  if ← check toks .rParen then return [] else arrowParams toks

/-- What is left behind the closing parenthesis of the `depth`-th level. -/
def closeParens : Nat → List TsToken → List TsToken
  | 0, ts => ts
  | _ + 1, [] => []
  | depth + 1, t :: ts =>
    if t.type = .lParen then closeParens (depth + 2) ts
    else if t.type = .rParen then closeParens depth ts
    else closeParens (depth + 1) ts

def looksLikeArrowParams (i : Nat) : Bool :=
  let rest := closeParens 1 (toks.drop i)
  let rest :=
    if rest.head?.any (·.type == .colon) then
      rest.dropWhile fun t => t.type != .arrow && t.type != .semi && t.type != .lBrace
    else rest
  rest.head?.any (·.type == .arrow)

/-! ### Operators -/

def opSpelling : TsTok → String
  | .plus => "+"
  | .minus => "-"
  | .star => "*"
  | .slash => "/"
  | .percent => "%"
  | .eq => "="
  | .plusEq => "+="
  | .minusEq => "-="
  | .starEq => "*="
  | .slashEq => "/="
  | .lt => "<"
  | .gt => ">"
  | .le => "<="
  | .ge => ">="
  | .plusPlus => "++"
  | .minusMinus => "--"
  | .bang => "!"
  | _ => "?"

/-- The levels of binary operators, `ParseOr` to `ParseMul`. -/
inductive Level where
  | or | and | eq | cmp | add | mul

namespace Level

def tokens : Level → List TsTok
  | or => [.orOr]
  | and => [.andAnd]
  | eq => [.eqEq, .eqEqEq, .notEq, .notEqEq]
  | cmp => [.lt, .gt, .le, .ge]
  | add => [.plus, .minus]
  | mul => [.star, .slash, .percent]

def spelling : Level → TsTok → String
  | or, _ => "||"
  | and, _ => "&&"
  | eq, t => if t = .eqEq ∨ t = .eqEqEq then "==" else "!="
  | _, t => opSpelling t

/-- What binds tighter; behind `mul` it is `ParseUnary`. -/
def next : Level → Option Level
  | or => some and
  | and => some eq
  | eq => some cmp
  | cmp => some add
  | add => some mul
  | mul => none

end Level

def assignTokens : List TsTok := [.eq, .plusEq, .minusEq, .starEq, .slashEq]

/-! ### Classes -/

/-- The members of a class up to here. -/
structure ClassBody where
  fields : List TsParam := []
  fieldInits : List (Bytes × Expr) := []
  methods : List Stmt := []
  ctor : Option (List TsParam × List Stmt) := none

/-- One of these words and a name behind it. -/
def skipClause (words : List String) : Parser Unit := do
  if ← checkIdents toks words then do
    let _ ← advance toks
    let _ ← optionalName toks
    return ()
  else return ()

/-- The fields and methods of an interface. -/
def TsTokens.interfaceBody (toks : TsTokens) (fields : List TsParam) (methods : List Stmt) :
    Parser (List TsParam × List Stmt) := do
  if (← check toks .rBrace) || (← check toks .endOfFile) then return (fields, methods)
  else if ← check toks .ident then do
    let name ← advance toks
    let _ ← accept toks .question
    if ← accept toks .lParen then do
      let params ← parseParamList toks
      let _ ← expect toks .rParen "')'"
      let type ← typeAnnotation toks
      optionalSemi toks
      toks |>.interfaceBody fields (methods ++ [.func name.text params type []])
    else do
      let _ ← expect toks .colon "':'"
      let type ← parseType toks
      optionalSemi toks
      toks |>.interfaceBody (fields ++ [⟨name.text, type⟩]) methods
  else do
    let _ ← advance toks
    toks |>.interfaceBody fields methods
partial_fixpoint

def parseInterface : Parser Stmt := do
  let _ ← advance toks
  let name ← expect toks .ident "interface name"
  skipClause toks ["extends"]
  let _ ← expect toks .lBrace "'\x7b'"
  let (fields, methods) ← interfaceBody toks [] []
  let _ ← expect toks .rBrace "'\x7d'"
  return .interface name.text fields methods

/-- The fields of an object type. -/
def TsTokens.aliasFields (toks : TsTokens) (fields : List TsParam) : Parser (List TsParam) := do
  if (← check toks .rBrace) || (← check toks .endOfFile) then return fields
  else if ← check toks .ident then do
    let name ← advance toks
    let _ ← accept toks .question
    let _ ← expect toks .colon "':'"
    let type ← parseType toks
    optionalSemi toks
    let _ ← accept toks .comma
    toks |>.aliasFields (fields ++ [⟨name.text, type⟩])
  else do
    let _ ← advance toks
    toks |>.aliasFields fields
partial_fixpoint

def parseTypeAlias : Parser Stmt := do
  let _ ← advance toks
  let name ← expect toks .ident "type name"
  let _ ← expect toks .eq "'='"
  if ← check toks .lBrace then do
    let _ ← expect toks .lBrace "'\x7b'"
    let fields ← aliasFields toks []
    let _ ← expect toks .rBrace "'\x7d'"
    optionalSemi toks
    return .interface name.text fields []
  else do
    let type ← parseType toks
    optionalSemi toks
    return .typeAlias name.text type

def declarators : List String := ["let", "const", "var"]

/-! ### Expressions and statements -/

/-- A question mark and whatever is behind it. -/
def skipQuestion : Parser Unit := do
  if ← check toks .question then do
    let _ ← advance toks
    let _ ← advance toks
    return ()
  else return ()

def objectKey : Parser Bytes := do
  let t ← peek toks
  if t.type = .ident ∨ t.type = .string then do
    let _ ← advance toks
    return t.text
  else return []

mutual

def TsTokens.parseAssign (toks : TsTokens) (stop : Spot → Bool) : Parser Expr := do
  let left ← toks |>.parseLevel stop (some .or)
  let t ← peek toks
  if t.type ∈ assignTokens then do
    let _ ← advance toks
    let right ← toks |>.parseAssign stop
    return .assign (opSpelling t.type) left right
  else return left
partial_fixpoint

/-- `ParseOr` to `ParseMul`, and `ParseUnary` below them. -/
def TsTokens.parseLevel (toks : TsTokens) (stop : Spot → Bool) (level : Option Level) :
    Parser Expr := do
  match level with
  | some l =>
    let e ← toks |>.parseLevel stop l.next
    toks |>.levelRest stop l e
  | none => toks |>.parseUnary stop
partial_fixpoint

def TsTokens.levelRest (toks : TsTokens) (stop : Spot → Bool) (l : Level) (e : Expr) :
    Parser Expr := do
  let t ← peek toks
  if t.type ∈ l.tokens then do
    let _ ← advance toks
    let right ← toks |>.parseLevel stop l.next
    toks |>.levelRest stop l (.binary (l.spelling t.type) e right)
  else return e
partial_fixpoint

def TsTokens.parseUnary (toks : TsTokens) (stop : Spot → Bool) : Parser Expr := do
  let t ← peek toks
  if t.type ∈ [TsTok.bang, .minus, .plus] then do
    let _ ← advance toks
    let e ← toks |>.parseUnary stop
    return .unary (opSpelling t.type) e
  else if t.type ∈ [TsTok.plusPlus, .minusMinus] then do
    let _ ← advance toks
    let e ← toks |>.parseUnary stop
    return .prefixUpdate (opSpelling t.type) e
  else do
    let e ← toks |>.parsePrimary stop
    toks |>.postfixRest stop e
partial_fixpoint

/-- The loop of `ParsePostfix`. -/
def TsTokens.postfixRest (toks : TsTokens) (stop : Spot → Bool) (e : Expr) : Parser Expr := do
  if ← accept toks .lParen then do
    let args ← toks |>.parseArgs stop .rParen
    let _ ← expect toks .rParen "')'"
    toks |>.postfixRest stop (.call e args)
  else if (← accept toks .dot) ||
      ((← check toks .question) && (← peekN toks 1).type == .dot) then do
    breakpoint stop .memberName
    skipQuestion toks
    let name ← expect toks .ident "member name"
    toks |>.postfixRest stop (.member e name.text)
  else if ← accept toks .lBrack then do
    let right ← toks |>.parseAssign stop
    let _ ← expect toks .rBrack "']'"
    toks |>.postfixRest stop (.index e right)
  else do
    let t ← peek toks
    if t.type ∈ [TsTok.plusPlus, .minusMinus] then do
      let _ ← advance toks
      toks |>.postfixRest stop (.postfixUpdate (opSpelling t.type) e)
    else if ← checkIdent toks "as" then do
      let _ ← advance toks
      let _ ← parseType toks
      toks |>.postfixRest stop e
    else if ← accept toks .bang then do
      let t ← peek toks
      if t.type = .eq then return e else toks |>.postfixRest stop e
    else return e
partial_fixpoint

/-- Expressions with commas between them, unless the closing token comes at once. -/
def TsTokens.parseArgs (toks : TsTokens) (stop : Spot → Bool) (closing : TsTok) :
    Parser (List Expr) := do
  if ← check toks closing then return [] else toks |>.moreArgs stop
partial_fixpoint

def TsTokens.moreArgs (toks : TsTokens) (stop : Spot → Bool) : Parser (List Expr) := do
  let e ← toks |>.parseAssign stop
  if ← accept toks .comma then do
    let more ← toks |>.moreArgs stop
    return e :: more
  else return [e]
partial_fixpoint

def TsTokens.parsePrimary (toks : TsTokens) (stop : Spot → Bool) : Parser Expr := do
  let t ← peek toks
  if t.isIdent "true" || t.isIdent "false" then do
    let _ ← advance toks
    return .bool t.text
  else if t.isIdent "null" || t.isIdent "undefined" then do
    let _ ← advance toks
    return .null
  else if t.isIdent "this" then do
    let _ ← advance toks
    return .this
  else if t.isIdent "new" then do
    let _ ← advance toks
    let name ← expect toks .ident "constructor name"
    if ← accept toks .lParen then do
      let args ← toks |>.parseArgs stop .rParen
      let _ ← expect toks .rParen "')'"
      return .new name.text args
    else return .new name.text []
  else if t.isIdent "function" then do
    let _ ← advance toks
    let name ← optionalName toks
    let params ← parenthesized toks
    let type ← typeAnnotation toks
    let body ← toks |>.parseBlock stop
    return .func name params type body
  else if t.type = .ident then do
    let _ ← advance toks
    if ← accept toks .arrow then do
      let body ← toks |>.finishArrow stop
      return .func [] [⟨t.text, {}⟩] {} body
    else return .ident t.text
  else if t.type = .number then do
    let _ ← advance toks
    return .number t.text
  else if t.type = .string then do
    let _ ← advance toks
    return .string t.text
  else if ← accept toks .lParen then do
    let i ← get
    if looksLikeArrowParams toks i then do
      let params ← arrowHead toks
      let _ ← expect toks .rParen "')'"
      let type ← typeAnnotation toks
      let _ ← expect toks .arrow "'=>'"
      let body ← toks |>.finishArrow stop
      return .func [] params type body
    else do
      let e ← toks |>.parseAssign stop
      let _ ← expect toks .rParen "')'"
      return e
  else if ← accept toks .lBrack then do
    let args ← toks |>.parseArgs stop .rBrack
    let _ ← expect toks .rBrack "']'"
    return .array args
  else if ← accept toks .lBrace then do
    let fields ← toks |>.objectFields stop
    let _ ← expect toks .rBrace "'\x7d'"
    return .object fields
  else fail toks "expected expression"
partial_fixpoint

def TsTokens.objectFields (toks : TsTokens) (stop : Spot → Bool) :
    Parser (List (Bytes × Expr)) := do
  if (← check toks .rBrace) || (← check toks .endOfFile) then return []
  else do
    let key ← objectKey toks
    let _ ← expect toks .colon "':'"
    let e ← toks |>.parseAssign stop
    let _ ← accept toks .comma
    let more ← toks |>.objectFields stop
    return (key, e) :: more
partial_fixpoint

/-- The body of an arrow function. -/
def TsTokens.finishArrow (toks : TsTokens) (stop : Spot → Bool) : Parser (List Stmt) := do
  if ← check toks .lBrace then toks |>.parseBlock stop
  else do
    let e ← toks |>.parseAssign stop
    return [.return (some e)]
partial_fixpoint

/-- The statements of a block. -/
def TsTokens.parseBlock (toks : TsTokens) (stop : Spot → Bool) : Parser (List Stmt) := do
  let _ ← expect toks .lBrace "'\x7b'"
  let body ← toks |>.blockBody stop
  let _ ← expect toks .rBrace "'\x7d'"
  return body
partial_fixpoint

def TsTokens.blockBody (toks : TsTokens) (stop : Spot → Bool) : Parser (List Stmt) := do
  if (← check toks .rBrace) || (← check toks .endOfFile) then return []
  else do
    let s ← toks |>.parseStatement stop
    let more ← toks |>.blockBody stop
    return s :: more
partial_fixpoint

def TsTokens.parseStatement (toks : TsTokens) (stop : Spot → Bool) : Parser Stmt := do
  skipModifiers toks
  let t ← peek toks
  if t.type = .lBrace then do
    let body ← toks |>.parseBlock stop
    return .block body
  else if t.isIdent "function" then do
    let _ ← advance toks
    let name ← optionalName toks
    let params ← parenthesized toks
    let type ← typeAnnotation toks
    let body ← toks |>.parseBlock stop
    return .func name params type body
  else if t.isIdent "class" then toks |>.parseClass stop
  else if t.isIdent "interface" then parseInterface toks
  else if t.isIdent "type" then parseTypeAlias toks
  else if declarators.any t.isIdent then toks |>.parseVar stop
  else if t.isIdent "if" then do
    let _ ← advance toks
    let cond ← toks |>.condition stop
    let thenS ← toks |>.parseStatement stop
    if ← checkIdent toks "else" then do
      let _ ← advance toks
      let elseS ← toks |>.parseStatement stop
      return .ite cond thenS (some elseS)
    else return .ite cond thenS none
  else if t.isIdent "for" then toks |>.parseFor stop
  else if t.isIdent "while" then do
    let _ ← advance toks
    let cond ← toks |>.condition stop
    let body ← toks |>.parseStatement stop
    return .while cond body
  else if t.isIdent "return" then do
    let _ ← advance toks
    let e ← toks |>.returnValue stop t.line
    optionalSemi toks
    return .return e
  else if t.isIdent "break" then do
    let _ ← advance toks
    optionalSemi toks
    return .break
  else if t.isIdent "continue" then do
    let _ ← advance toks
    optionalSemi toks
    return .continue
  else do
    let e ← toks |>.parseAssign stop
    optionalSemi toks
    return .expr e
partial_fixpoint

/-- An expression on the line of its `return`. -/
def TsTokens.returnValue (toks : TsTokens) (stop : Spot → Bool) (line : Nat) :
    Parser (Option Expr) := do
  let t ← peek toks
  if t.type ≠ .semi ∧ t.type ≠ .rBrace ∧ t.line = line then do
    let e ← toks |>.parseAssign stop
    return some e
  else return none
partial_fixpoint

def TsTokens.condition (toks : TsTokens) (stop : Spot → Bool) : Parser Expr := do
  let _ ← expect toks .lParen "'('"
  let e ← toks |>.parseAssign stop
  let _ ← expect toks .rParen "')'"
  return e
partial_fixpoint

def TsTokens.parseVar (toks : TsTokens) (stop : Spot → Bool) : Parser Stmt := do
  let word ← advance toks
  let name ← expect toks .ident "variable name"
  let type ← typeAnnotation toks
  let init ← toks |>.initializer stop
  optionalSemi toks
  return .var word.text name.text type init
partial_fixpoint

def TsTokens.initializer (toks : TsTokens) (stop : Spot → Bool) : Parser (Option Expr) := do
  if ← accept toks .eq then do
    let e ← toks |>.parseAssign stop
    return some e
  else return none
partial_fixpoint

def TsTokens.parseFor (toks : TsTokens) (stop : Spot → Bool) : Parser Stmt := do
  let _ ← advance toks
  let _ ← expect toks .lParen "'('"
  let t ← peek toks
  let name ← peekN toks 1
  let word ← peekN toks 2
  if declarators.any t.isIdent && name.type == .ident && word.isIdent "of" then do
    let _ ← advance toks
    let _ ← advance toks
    let _ ← advance toks
    let e ← toks |>.parseAssign stop
    let _ ← expect toks .rParen "')'"
    let body ← toks |>.parseStatement stop
    return .forOf t.text name.text e body
  else do
    let init ← toks |>.forInit stop
    let cond ← toks |>.exprUnless stop .semi
    let _ ← expect toks .semi "';'"
    let step ← toks |>.exprUnless stop .rParen
    let _ ← expect toks .rParen "')'"
    let body ← toks |>.parseStatement stop
    return .for init cond step body
partial_fixpoint

/-- What a `for` begins with, to behind its semicolon where there is one. -/
def TsTokens.forInit (toks : TsTokens) (stop : Spot → Bool) : Parser (Option Stmt) := do
  let t ← peek toks
  if t.type = .semi then do
    let _ ← advance toks
    return none
  else if declarators.any t.isIdent then do
    let s ← toks |>.parseVar stop
    return some s
  else do
    let e ← toks |>.parseAssign stop
    optionalSemi toks
    return some (.expr e)
partial_fixpoint

/-- An expression, unless this token comes at once. -/
def TsTokens.exprUnless (toks : TsTokens) (stop : Spot → Bool) (closing : TsTok) :
    Parser (Option Expr) := do
  if ← check toks closing then return none
  else do
    let e ← toks |>.parseAssign stop
    return some e
partial_fixpoint

def TsTokens.parseClass (toks : TsTokens) (stop : Spot → Bool) : Parser Stmt := do
  let _ ← advance toks
  let name ← expect toks .ident "class name"
  skipClause toks ["extends", "implements"]
  let _ ← expect toks .lBrace "'\x7b'"
  let body ← toks |>.classBody stop {}
  let _ ← expect toks .rBrace "'\x7d'"
  return .class name.text body.fields body.ctor body.fieldInits body.methods
partial_fixpoint

def TsTokens.classBody (toks : TsTokens) (stop : Spot → Bool) (body : ClassBody) :
    Parser ClassBody := do
  if (← check toks .rBrace) || (← check toks .endOfFile) then return body
  else do
    skipModifiers toks
    if ← checkIdent toks "constructor" then do
      let _ ← advance toks
      let params ← parenthesized toks
      let stmts ← toks |>.parseBlock stop
      toks |>.classBody stop { body with ctor := some (params, stmts) }
    else if ← check toks .ident then do
      let name ← advance toks
      if ← accept toks .lParen then do
        let params ← parseParamList toks
        let _ ← expect toks .rParen "')'"
        let type ← typeAnnotation toks
        let stmts ← toks |>.parseBlock stop
        toks |>.classBody stop
          { body with methods := body.methods ++ [.func name.text params type stmts] }
      else do
        let _ ← accept toks .question
        let type ← typeAnnotation toks
        let init ← toks |>.initializer stop
        optionalSemi toks
        toks |>.classBody stop
          { body with
            fields := body.fields ++ [⟨name.text, type⟩]
            fieldInits := body.fieldInits ++ (init.toList.map fun e => (name.text, e)) }
    else do
      breakpoint stop .classMember
      let _ ← advance toks
      toks |>.classBody stop body
partial_fixpoint

end

/-! ### Programs -/

def TsTokens.programRest (toks : TsTokens) (stop : Spot → Bool) (p : Program) :
    Parser Program := do
  if ← check toks .endOfFile then return p
  else if ← checkIdent toks "import" then do
    let paths ← parseImport toks stop
    toks |>.programRest stop { p with imports := p.imports ++ paths }
  else do
    let s ← parseStatement toks stop
    toks |>.programRest stop { p with decls := p.decls ++ [s] }
partial_fixpoint

def parseWith : Run TsFault (Program × Nat) := (programRest toks stop {}).run 0

/-- `TsParser::Parse`. -/
def parse : Run TsFault Program := Prod.fst <$> parseWith toks fun _ => false

end

end Voodoo.Bruja.Goxx
