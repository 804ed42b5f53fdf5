import Voodoo.Bruja.GoLiterals
import Voodoo.Bruja.TsParser

/-!
# The Go++ emitter

`Emitter`, from a TypeScript program to what it writes: the Go program as a tree of what stands in the
text, without its layout.  Types are text, as `MapTsType` gives it.
-/

namespace Voodoo.Bruja.Goxx

/-! ### Go programs -/

/-- A name and the text of its type. -/
structure GoField where
  name : Bytes
  type : Bytes

/-- A method of an interface; a result that is empty is not written. -/
structure GoMethod where
  name : Bytes
  params : List GoField
  result : Bytes

mutual

inductive GoExpr where
  | ident (text : Bytes)
  | number (text : Bytes)
  | string (literal : Bytes)
  | bool (text : Bytes)
  | nil
  | this
  | member (left : GoExpr) (text : Bytes)
  | index (left right : GoExpr)
  /-- `fmt.Println`. -/
  | println (args : List GoExpr)
  | call (callee : GoExpr) (args : List GoExpr)
  | binary (op : String) (left right : GoExpr)
  | unary (op : String) (left : GoExpr)
  | postfixUpdate (op : String) (left : GoExpr)
  | assign (op : String) (left right : GoExpr)
  /-- A call of the `New` function of a class. -/
  | construct (name : Bytes) (args : List GoExpr)
  | new (name : Bytes)
  /-- A slice literal, by the type of its elements. -/
  | slice (elem : Bytes) (args : List GoExpr)
  | composite (type : Bytes) (fields : List (Bytes × GoExpr))
  | func (params : List GoField) (result : Bytes) (body : List GoStmt)

inductive GoStmt where
  | block (body : List GoStmt)
  /-- `name := init`. -/
  | define (name : Bytes) (init : GoExpr)
  | var (name type : Bytes)
  | ite (cond : GoExpr) (thenS : List GoStmt) (elseS : Option (List GoStmt))
  | while (cond : GoExpr) (body : List GoStmt)
  | for (init : Option GoStmt) (cond step : Option GoExpr) (body : List GoStmt)
  | range (name : Bytes) (expr : GoExpr) (body : List GoStmt)
  | return (expr : Option GoExpr)
  | expr (expr : GoExpr)
  | decls (decls : List GoDecl)
  | break
  | continue

inductive GoDecl where
  | alias (name type : Bytes)
  | struct (name : Bytes) (fields : List GoField)
  | interface (name : Bytes) (methods : List GoMethod)
  /-- A receiver that is empty is not written. -/
  | func (recv name : Bytes) (params : List GoField) (result : Bytes) (body : List GoStmt)

end

structure GoFile where
  imports : List Bytes
  /-- What is written for each declaration. -/
  decls : List (List GoDecl)
  /-- The body of the `main` that is written around the other statements, if there are any. -/
  main : Option (List GoStmt)

/-! ### Types -/

/-- The Go names of the types of TypeScript that have one. -/
def mapTsName (n : Bytes) : Bytes :=
  if n = ascii "number" then ascii "float64"
  else if n = ascii "string" then ascii "string"
  else if n = ascii "boolean" ∨ n = ascii "bool" then ascii "bool"
  else if n = ascii "any" ∨ n = ascii "unknown" ∨ n = ascii "object" then ascii "any"
  else if n = ascii "undefined" ∨ n = ascii "null" ∨ n = ascii "never" then ascii "any"
  else n

def mapTsType (t : TsType) : Bytes :=
  if t.name = [] ∨ t.name = ascii "void" then if t.array then ascii "[]any" else []
  else if t.array then ascii "[]" ++ mapTsName t.name
  else mapTsName t.name

/-- `any` where there is no type. -/
def typeOrAny (t : TsType) : Bytes := if mapTsType t = [] then ascii "any" else mapTsType t

def emitParams (params : List TsParam) : List GoField :=
  params.map fun p => ⟨p.name, typeOrAny p.type⟩

/-! ### Expressions and statements -/

section

variable (classes : List Bytes)

/-- The type of the elements of a slice literal, by the hint. -/
def elementHint (hint : Bytes) : Bytes :=
  let inner := if (ascii "[]").isPrefixOf hint then hint.drop 2 else hint
  if inner = [] then ascii "any" else inner

/-- A call of a method of `console`. -/
def isConsole : Expr → Bool
  | .member (.ident text) _ => text = ascii "console"
  | _ => false

/-- The methods of an interface. -/
def emitMethods (methods : List Stmt) : List GoMethod :=
  methods.filterMap fun m =>
    match m with
    | .func name params returns _ => some ⟨name, emitParams params, mapTsType returns⟩
    | _ => none

def emitInterface (name : Bytes) (fields : List TsParam) (methods : List Stmt) : List GoDecl :=
  if methods ≠ [] ∧ fields = [] then [.interface name (emitMethods methods)]
  else
    .struct name (emitParams fields) ::
      if methods = [] then [] else [.interface (name ++ ascii "Methods") (emitMethods methods)]

/-- A function or a method around its body. -/
def emitFunc (recv name : Bytes) (params : List TsParam) (returns : TsType) (body : List GoStmt) :
    GoDecl :=
  .func recv (if name = [] then ascii "_" else name) (emitParams params) (mapTsType returns) body

/-- A class, around the statements of its `New` function and the methods. -/
def emitClass (name : Bytes) (fields ctorParams : List TsParam) (inits ctorBody : List GoStmt)
    (methods : List GoDecl) : List GoDecl :=
  .struct name (emitParams fields) ::
    .func [] (ascii "New" ++ name) (emitParams ctorParams) (ascii "*" ++ name)
      (.define (ascii "this") (.new name) :: inits ++ ctorBody ++ [.return (some .this)]) ::
    methods

/-- `EmitNested`: a statement behind braces that are there already. -/
def GoStmt.nested : GoStmt → List GoStmt
  | .block body => body
  | s => [s]

/-- What stands before the first semicolon of a `for`: of a variable without a value, nothing. -/
def GoStmt.forInit : GoStmt → Option GoStmt
  | .define name e => some (.define name e)
  | .expr e => some (.expr e)
  | _ => none

mutual

/-- `hint` is the type that is expected, `ret` the one of the function around. -/
def emitExpr (ret hint : Bytes) : Expr → GoExpr
  | .ident text => .ident text
  | .number text => .number text
  | .string text => .string (escapeGoString text)
  | .bool text => .bool text
  | .null => .nil
  | .this => .this
  | .member left text => .member (emitExpr ret [] left) text
  | .index left right => .index (emitExpr ret [] left) (emitExpr ret [] right)
  | .call callee args =>
    if isConsole callee then .println (emitExprs ret [] args)
    else .call (emitExpr ret [] callee) (emitExprs ret [] args)
  | .binary op left right => .binary op (emitExpr ret [] left) (emitExpr ret [] right)
  | .unary op left => .unary op (emitExpr ret [] left)
  | .prefixUpdate op left => .unary op (emitExpr ret [] left)
  | .postfixUpdate op left => .postfixUpdate op (emitExpr ret [] left)
  | .assign op left right => .assign op (emitExpr ret [] left) (emitExpr ret [] right)
  | .new text args =>
    if text ∈ classes then .construct text (emitExprs ret [] args) else .new text
  | .array args => .slice (elementHint hint) (emitExprs ret (elementHint hint) args)
  | .object fields =>
    .composite (if hint = [] then ascii "struct\x7b\x7d" else hint) (emitFields ret fields)
  | .func _ params returns body =>
    .func (emitParams params) (mapTsType returns) (emitStmts (mapTsType returns) body)

def emitExprs (ret hint : Bytes) : List Expr → List GoExpr
  | [] => []
  | e :: es => emitExpr ret hint e :: emitExprs ret hint es

def emitFields (ret : Bytes) : List (Bytes × Expr) → List (Bytes × GoExpr)
  | [] => []
  | (key, e) :: fields => (key, emitExpr ret [] e) :: emitFields ret fields

def emitOption (ret hint : Bytes) : Option Expr → Option GoExpr
  | none => none
  | some e => some (emitExpr ret hint e)

def emitStmt (ret : Bytes) : Stmt → GoStmt
  | .block body => .block (emitStmts ret body)
  | .var _ name type none => .var name (typeOrAny type)
  | .var _ name type (some e) => .define name (emitExpr ret (mapTsType type) e)
  | .ite cond thenS none => .ite (emitExpr ret [] cond) (emitStmt ret thenS).nested none
  | .ite cond thenS (some elseS) =>
    .ite (emitExpr ret [] cond) (emitStmt ret thenS).nested (some (emitStmt ret elseS).nested)
  | .while cond body => .while (emitExpr ret [] cond) (emitStmt ret body).nested
  | .for none cond step body =>
    .for none (emitOption ret [] cond) (emitOption ret [] step) (emitStmt ret body).nested
  | .for (some init) cond step body =>
    .for (emitStmt ret init).forInit (emitOption ret [] cond) (emitOption ret [] step)
      (emitStmt ret body).nested
  | .forOf _ name e body => .range name (emitExpr ret [] e) (emitStmt ret body).nested
  | .return e => .return (emitOption ret ret e)
  | .break => .break
  | .continue => .continue
  | .expr e => .expr (emitExpr ret [] e)
  | .interface name fields methods => .decls (emitInterface name fields methods)
  | .typeAlias name type => .decls [.alias name (mapTsType type)]
  | .class name fields none fieldInits methods =>
    .decls (emitClass name fields [] (emitFieldInits ret fieldInits) [] (emitMethodFuncs name methods))
  | .class name fields (some (params, body)) fieldInits methods =>
    .decls (emitClass name fields params (emitFieldInits ret fieldInits) (emitStmts ret body)
      (emitMethodFuncs name methods))
  | .func name params returns body =>
    .decls [emitFunc [] name params returns (emitStmts (mapTsType returns) body)]

def emitStmts (ret : Bytes) : List Stmt → List GoStmt
  | [] => []
  | s :: ss => emitStmt ret s :: emitStmts ret ss

/-- The fields of a new object that have a value. -/
def emitFieldInits (ret : Bytes) : List (Bytes × Expr) → List GoStmt
  | [] => []
  | (name, e) :: inits =>
    .expr (.assign "=" (.member .this name) (emitExpr ret [] e)) :: emitFieldInits ret inits

def emitMethodFuncs (recv : Bytes) : List Stmt → List GoDecl
  | [] => []
  | .func name params returns body :: ms =>
    emitFunc recv name params returns (emitStmts (mapTsType returns) body) :: emitMethodFuncs recv ms
  | _ :: ms => emitMethodFuncs recv ms

end

end

/-! ### Whether `fmt` is needed -/

mutual

def scanFmtExpr : Expr → Bool
  | .member left _ | .unary _ left | .prefixUpdate _ left | .postfixUpdate _ left => scanFmtExpr left
  | .index left right | .binary _ left right | .assign _ left right =>
    scanFmtExpr left || scanFmtExpr right
  | .call callee args => isConsole callee || scanFmtExpr callee || scanFmtExprs args
  | .new _ args | .array args => scanFmtExprs args
  | .object fields => scanFmtFields fields
  | .func _ _ _ body => scanFmtStmts body
  | .ident _ | .number _ | .string _ | .bool _ | .null | .this => false

def scanFmtExprs : List Expr → Bool
  | [] => false
  | e :: es => scanFmtExpr e || scanFmtExprs es

def scanFmtFields : List (Bytes × Expr) → Bool
  | [] => false
  | (_, e) :: fields => scanFmtExpr e || scanFmtFields fields

def scanFmtOption : Option Expr → Bool
  | none => false
  | some e => scanFmtExpr e

def scanFmtStmt : Stmt → Bool
  | .block body | .func _ _ _ body => scanFmtStmts body
  | .var _ _ _ init | .return init => scanFmtOption init
  | .ite cond thenS none => scanFmtExpr cond || scanFmtStmt thenS
  | .ite cond thenS (some elseS) => scanFmtExpr cond || scanFmtStmt thenS || scanFmtStmt elseS
  | .for none cond step body => scanFmtOption cond || scanFmtOption step || scanFmtStmt body
  | .for (some init) cond step body =>
    scanFmtStmt init || scanFmtOption cond || scanFmtOption step || scanFmtStmt body
  | .forOf _ _ e body | .while e body => scanFmtExpr e || scanFmtStmt body
  | .expr e => scanFmtExpr e
  | .class _ _ none fieldInits methods => scanFmtFields fieldInits || scanFmtStmts methods
  | .class _ _ (some (_, body)) fieldInits methods =>
    scanFmtStmts body || scanFmtFields fieldInits || scanFmtStmts methods
  | .interface _ _ methods => scanFmtStmts methods
  | .typeAlias _ _ | .break | .continue => false

def scanFmtStmts : List Stmt → Bool
  | [] => false
  | s :: ss => scanFmtStmt s || scanFmtStmts ss

end

/-! ### Programs -/

/-- What is written at package level. -/
def Stmt.isDecl : Stmt → Bool
  | .func _ _ _ _ | .class _ _ _ _ _ | .interface _ _ _ | .typeAlias _ _ => true
  | _ => false

def Stmt.isMain : Stmt → Bool
  | .func name _ _ _ => name = ascii "main"
  | _ => false

def collectClasses (decls : List Stmt) : List Bytes :=
  decls.filterMap fun
    | .class name _ _ _ _ => some name
    | _ => none

def emitDecl (classes : List Bytes) (s : Stmt) : List GoDecl :=
  match emitStmt classes [] s with
  | .decls ds => ds
  | _ => []

def fileImports (p : Program) : List Bytes :=
  if p.decls.any scanFmtStmt && !p.imports.contains (ascii "fmt") then ascii "fmt" :: p.imports
  else p.imports

def statementsAndMain : String :=
  "top-level statements plus function main() -- put the statements in main"

def emitProgram (p : Program) : Except TsFault GoFile :=
  let classes := collectClasses p.decls
  let topStmts := p.decls.filter (!·.isDecl)
  if topStmts ≠ [] ∧ p.decls.any (·.isMain) then .error (.parseError statementsAndMain 1)
  else
    .ok
      { imports := fileImports p
        decls := (p.decls.filter (·.isDecl)).map (emitDecl classes)
        main := if topStmts = [] then none else some (emitStmts classes [] topStmts) }

end Voodoo.Bruja.Goxx
