import Voodoo.Bruja.TsLexer

/-!
# TypeScript programs

What `TsParser` makes of the tokens of a `.ts` file.
-/

namespace Voodoo.Bruja.Goxx

/-- The first alternative of an annotation: its name, and whether it is an array. -/
structure TsType where
  name : Bytes := []
  array : Bool := false

structure TsParam where
  name : Bytes := []
  type : TsType := {}

mutual

inductive Expr where
  | ident (text : Bytes)
  | number (text : Bytes)
  | string (text : Bytes)
  | bool (text : Bytes)
  | null
  | this
  | call (callee : Expr) (args : List Expr)
  | member (left : Expr) (text : Bytes)
  | index (left right : Expr)
  | binary (op : String) (left right : Expr)
  | unary (op : String) (left : Expr)
  | prefixUpdate (op : String) (left : Expr)
  | postfixUpdate (op : String) (left : Expr)
  | assign (op : String) (left right : Expr)
  | new (text : Bytes) (args : List Expr)
  | array (args : List Expr)
  | object (fields : List (Bytes × Expr))
  | func (text : Bytes) (params : List TsParam) (returns : TsType) (body : List Stmt)

inductive Stmt where
  | block (body : List Stmt)
  /-- `word` is the one of `let`, `const` and `var` that it begins with: nothing of the converter reads
  it, but what the name means in TypeScript depends on it. -/
  | var (word name : Bytes) (type : TsType) (init : Option Expr)
  | ite (cond : Expr) (thenS : Stmt) (elseS : Option Stmt)
  | for (init : Option Stmt) (cond step : Option Expr) (body : Stmt)
  | forOf (word name : Bytes) (expr : Expr) (body : Stmt)
  | while (cond : Expr) (body : Stmt)
  | return (expr : Option Expr)
  | expr (expr : Expr)
  | func (name : Bytes) (params : List TsParam) (returns : TsType) (body : List Stmt)
  /-- The constructor by its parameters and its body. -/
  | class (name : Bytes) (fields : List TsParam) (ctor : Option (List TsParam × List Stmt))
      (fieldInits : List (Bytes × Expr)) (methods : List Stmt)
  | interface (name : Bytes) (fields : List TsParam) (methods : List Stmt)
  | typeAlias (name : Bytes) (type : TsType)
  | break
  | continue

end

instance : Inhabited Expr := ⟨.null⟩

instance : Inhabited Stmt := ⟨.break⟩

structure Program where
  imports : List Bytes := []
  decls : List Stmt := []

end Voodoo.Bruja.Goxx
