import Voodoo.Bruja.GoxxEmitter

/-!
# The scopes of top-level declarations

The names that a declaration or statement of a TypeScript program takes from outside (`Stmt.free`), and
where in the Go program what is written for it stands (`placeOf`).  In Go the scope of a declaration at
package level is the package; the one of a declaration in `main` begins behind it and ends with `main`.

`ScopesKept` says that the uses of a name that is bound at top level stand in the scope of its
declaration, and that statements keep their order.
-/

namespace Voodoo.Bruja.Goxx

open List

/-! ### Names in TypeScript -/

/-- TypeScript has one name space for values and one for types. -/
inductive Space where
  | value
  | type

/-- The names of types. -/
def typeNames : Space → List TsType → List Bytes
  | .value, _ => []
  | .type, types => types.map TsType.name

def valueNames : Space → List Bytes → List Bytes
  | .value, names => names
  | .type, _ => []

/-- The names that a statement binds in the block where it stands. -/
def Stmt.lexical : Space → Stmt → List Bytes
  | .value, .var word name _ _ => if word = ascii "var" then [] else [name]
  | .value, .func name _ _ _ => [name]
  | _, .class name _ _ _ _ => [name]
  | .type, .interface name _ _ => [name]
  | .type, .typeAlias name _ => [name]
  | _, _ => []

mutual

/-- The names that `var` binds in the function around. -/
def Stmt.hoisted : Stmt → List Bytes
  | .var word name _ _ => if word = ascii "var" then [name] else []
  | .block body => hoistedNames body
  | .ite _ thenS none => thenS.hoisted
  | .ite _ thenS (some elseS) => thenS.hoisted ++ elseS.hoisted
  | .while _ body => body.hoisted
  | .for none _ _ body => body.hoisted
  | .for (some init) _ _ body => init.hoisted ++ body.hoisted
  | .forOf word name _ body => (if word = ascii "var" then [name] else []) ++ body.hoisted
  | _ => []

def hoistedNames : List Stmt → List Bytes
  | [] => []
  | s :: ss => s.hoisted ++ hoistedNames ss

end

/-- `names` without those that are bound here. -/
def unbound (names bound : List Bytes) : List Bytes := names.filter (!bound.contains ·)

/-- The names that the body of a function binds, with the parameters. -/
def bodyNames (sp : Space) (params : List TsParam) (body : List Stmt) : List Bytes :=
  body.flatMap (Stmt.lexical sp) ++ valueNames sp (params.map TsParam.name ++ hoistedNames body)

/-- The names of types in the head of a function. -/
def headNames (sp : Space) (params : List TsParam) (returns : TsType) : List Bytes :=
  typeNames sp (returns :: params.map TsParam.type)

mutual

/-- The names that come from outside. -/
def Expr.free (sp : Space) : Expr → List Bytes
  | .ident text => valueNames sp [text]
  | .member left _ | .unary _ left | .prefixUpdate _ left | .postfixUpdate _ left => left.free sp
  | .index left right | .binary _ left right | .assign _ left right => left.free sp ++ right.free sp
  | .call callee args => callee.free sp ++ freeExprs sp args
  | .new text args => valueNames sp [text] ++ freeExprs sp args
  | .array args => freeExprs sp args
  | .object fields => freeFields sp fields
  | .func text params returns body =>
    headNames sp params returns ++
      unbound (freeStmts sp body) (valueNames sp [text] ++ bodyNames sp params body)
  | .number _ | .string _ | .bool _ | .null | .this => []

def freeExprs (sp : Space) : List Expr → List Bytes
  | [] => []
  | e :: es => e.free sp ++ freeExprs sp es

def freeFields (sp : Space) : List (Bytes × Expr) → List Bytes
  | [] => []
  | (_, e) :: fields => e.free sp ++ freeFields sp fields

def freeOption (sp : Space) : Option Expr → List Bytes
  | none => []
  | some e => e.free sp

/-- The names that come from outside; what a statement binds in the block around it is not taken away
here. -/
def Stmt.free (sp : Space) : Stmt → List Bytes
  | .block body => unbound (freeStmts sp body) (body.flatMap (Stmt.lexical sp))
  | .var _ _ type init => typeNames sp [type] ++ freeOption sp init
  | .ite cond thenS none => cond.free sp ++ thenS.free sp
  | .ite cond thenS (some elseS) => cond.free sp ++ thenS.free sp ++ elseS.free sp
  | .for none cond step body => freeOption sp cond ++ freeOption sp step ++ body.free sp
  | .for (some init) cond step body =>
    unbound (init.free sp ++ freeOption sp cond ++ freeOption sp step ++ body.free sp)
      (init.lexical sp)
  | .forOf word name e body =>
    unbound (e.free sp ++ body.free sp) (if word = ascii "var" then [] else valueNames sp [name])
  | .while cond body => cond.free sp ++ body.free sp
  | .return init => freeOption sp init
  | .expr e => e.free sp
  | .func _ params returns body =>
    headNames sp params returns ++ unbound (freeStmts sp body) (bodyNames sp params body)
  | .class _ fields none fieldInits methods =>
    typeNames sp (fields.map TsParam.type) ++ freeFields sp fieldInits ++ freeStmts sp methods
  | .class _ fields (some (params, body)) fieldInits methods =>
    typeNames sp (fields.map TsParam.type) ++ freeFields sp fieldInits ++ freeStmts sp methods ++
      (typeNames sp (params.map TsParam.type) ++
        unbound (freeStmts sp body) (bodyNames sp params body))
  | .interface _ fields methods => typeNames sp (fields.map TsParam.type) ++ freeStmts sp methods
  | .typeAlias _ type => typeNames sp [type]
  | .break | .continue => []

def freeStmts (sp : Space) : List Stmt → List Bytes
  | [] => []
  | s :: ss => s.free sp ++ freeStmts sp ss

end

/-- The names that a top-level declaration or statement binds in the program. -/
def Stmt.binds (sp : Space) : Stmt → List Bytes
  | .var _ name _ _ => valueNames sp [name]
  | s => s.lexical sp

/-! ### Places in the Go program -/

/-- What is written for a declaration, or a statement of `main`. -/
inductive GoPlace where
  | decl (k : Nat)
  | main (k : Nat)

/-- Whether the scope of what is declared at a place contains another. -/
def GoPlace.scope : GoPlace → GoPlace → Prop
  | .decl _, _ => True
  | .main k, .main l => k < l
  | .main _, .decl _ => False

/-- What stands at a place. -/
def GoFile.at (file : GoFile) : GoPlace → Option (List GoDecl ⊕ GoStmt)
  | .decl k => file.decls[k]?.map .inl
  | .main k => (file.main.getD [])[k]?.map .inr

/-- Where the `i`-th declaration or statement goes to. -/
def placeOf (decls : List Stmt) (i : Nat) : GoPlace :=
  if decls[i]?.any (·.isDecl) then .decl ((decls.take i).countP (·.isDecl))
  else .main ((decls.take i).countP (!·.isDecl))

/-- What is written for a declaration or statement. -/
def emitted (classes : List Bytes) (s : Stmt) : List GoDecl ⊕ GoStmt :=
  if s.isDecl then .inl (emitDecl classes s) else .inr (emitStmt classes [] s)

theorem getElem?_filter_countP {α : Type} {p : α → Bool} {l : List α} {i : Nat} {a : α}
    (h : l[i]? = some a) (ha : p a = true) : (l.filter p)[(l.take i).countP p]? = some a := by
  induction l generalizing i with
  | nil => cases h
  | cons b l ih =>
    cases i with
    | zero =>
      cases h
      rw [filter_cons_of_pos ha]
      rfl
    | succ i =>
      rw [take_succ_cons, filter_cons]
      split
      · next hb =>
        rw [countP_cons_of_pos hb]
        exact ih h
      · next hb =>
        rw [countP_cons_of_neg hb]
        exact ih h

theorem emitStmts_eq_map (classes : List Bytes) (ret : Bytes) (ss : List Stmt) :
    emitStmts classes ret ss = ss.map (emitStmt classes ret) := by
  induction ss with
  | nil => rfl
  | cons s ss ih => rw [emitStmts, map_cons, ih]

section

variable {p : Program} {file : GoFile} {i j : Nat} {s t : Stmt}

theorem placeOf_decl (h : p.decls[i]? = some s) (hs : s.isDecl = true) :
    placeOf p.decls i = .decl ((p.decls.take i).countP (·.isDecl)) :=
  if_pos (by rw [h]; exact hs)

theorem placeOf_main (h : p.decls[i]? = some s) (hs : s.isDecl = false) :
    placeOf p.decls i = .main ((p.decls.take i).countP (!·.isDecl)) :=
  if_neg (by rw [h]; exact Bool.eq_false_iff.mp hs)

theorem emitProgram_ok (h : emitProgram p = .ok file) :
    file.decls = (p.decls.filter (·.isDecl)).map (emitDecl (collectClasses p.decls)) ∧
      file.main.getD [] =
        (p.decls.filter (!·.isDecl)).map (emitStmt (collectClasses p.decls) []) := by
  rw [emitProgram] at h
  split at h
  · cases h
  · cases h
    refine ⟨rfl, ?_⟩
    rw [← emitStmts_eq_map]
    split
    · next hnil =>
      rw [hnil]
      rfl
    · rfl

theorem at_placeOf (hok : emitProgram p = .ok file) (h : p.decls[i]? = some s) :
    file.at (placeOf p.decls i) = some (emitted (collectClasses p.decls) s) := by
  obtain ⟨hdecls, hmain⟩ := emitProgram_ok hok
  cases hs : s.isDecl with
  | true =>
    rw [placeOf_decl h hs, GoFile.at, hdecls, getElem?_map, getElem?_filter_countP h hs]
    exact congrArg some (if_pos hs).symm
  | false =>
    have hnot : (!s.isDecl) = true := by rw [hs]; rfl
    rw [placeOf_main h hs, GoFile.at, hmain, getElem?_map, getElem?_filter_countP h hnot]
    exact congrArg some (if_neg (Bool.eq_false_iff.mp hs)).symm

theorem countP_take_le {α : Type} {q : α → Bool} {l : List α} (h : i ≤ j) :
    (l.take i).countP q ≤ (l.take j).countP q := (take_sublist_take_left h).countP_le

theorem countP_take_lt {α : Type} {q : α → Bool} {l : List α} {a : α} (hi : l[i]? = some a)
    (ha : q a = true) : (l.take i).countP q < (l.take j).countP q ↔ i < j := by
  refine ⟨fun h => Nat.lt_of_not_le fun hle => Nat.not_lt.mpr (countP_take_le hle) h, fun h => ?_⟩
  have hsucc : (l.take (i + 1)).countP q = (l.take i).countP q + 1 := by
    rw [take_add_one, hi, countP_append]
    exact congrArg _ (countP_cons_of_pos ha)
  exact Nat.lt_of_succ_le (Nat.le_trans (Nat.le_of_eq hsucc.symm) (countP_take_le h))

theorem scope_placeOf (hi : p.decls[i]? = some s) (hj : p.decls[j]? = some t) :
    (placeOf p.decls j).scope (placeOf p.decls i) ↔
      t.isDecl = true ∨ s.isDecl = false ∧ j < i := by
  cases ht : t.isDecl with
  | true =>
    rw [placeOf_decl hj ht]
    exact ⟨fun _ => .inl rfl, fun _ => trivial⟩
  | false =>
    rw [placeOf_main hj ht]
    cases hs : s.isDecl with
    | true =>
      rw [placeOf_decl hi hs]
      exact ⟨False.elim, fun h => h.elim (by simp) (by simp)⟩
    | false =>
      rw [placeOf_main hi hs]
      refine (countP_take_lt hj (by rw [ht]; rfl)).trans ?_
      exact ⟨fun h => .inr ⟨rfl, h⟩, fun h => h.elim (by rintro ⟨⟩) And.right⟩

/-! ### Uses -/

/-- Uses stand in the scopes of the declarations written for their names, and statements in their
order. -/
structure ScopesKept (p : Program) (file : GoFile) : Prop where
  placed : ∀ i s, p.decls[i]? = some s →
    file.at (placeOf p.decls i) = some (emitted (collectClasses p.decls) s)
  ordered : ∀ i j s t, p.decls[i]? = some s → p.decls[j]? = some t → s.isDecl = false →
    t.isDecl = false → i < j →
      ∃ k l, placeOf p.decls i = .main k ∧ placeOf p.decls j = .main l ∧ k < l
  uses : ∀ sp i s, p.decls[i]? = some s → ∀ name ∈ s.free sp,
    (∃ t ∈ p.decls, name ∈ t.binds sp) →
      ∃ j t, p.decls[j]? = some t ∧ name ∈ t.binds sp ∧
        (placeOf p.decls j).scope (placeOf p.decls i)

/-- Only variables bind this name. -/
def BoundByVars (decls : List Stmt) (name : Bytes) : Prop :=
  (∃ t ∈ decls, name ∈ t.binds .value) ∧
    ∀ t ∈ decls, name ∈ t.binds .value → t.isDecl = false

theorem isDecl_of_binds_type {name : Bytes} (h : name ∈ s.binds .type) : s.isDecl = true := by
  cases s with
  | func | «class» | «interface» | typeAlias => rfl
  | _ => exact absurd h not_mem_nil

end

/-- `let x = 1; x;`. -/
def laterUse : Program where
  decls := [.var (ascii "let") (ascii "x") {} (some (.number (ascii "1"))), .expr (.ident (ascii "x"))]

/-- `let x = 1; function f() { return x; }`. -/
def functionUse : Program where
  decls := [.var (ascii "let") (ascii "x") {} (some (.number (ascii "1"))),
    .func (ascii "f") [] {} [.return (some (.ident (ascii "x")))]]

end Voodoo.Bruja.Goxx
