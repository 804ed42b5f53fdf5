import Voodoo.Compiler.Lexer
import Voodoo.Compiler.Syntax

/-!
# The scans before parsing

`CollectDeclaredNames` and `CollectEnumValues`: what the parser knows of a file's
own declarations before it reads the first of them.

An `unordered_map` is the list of its assignments, the latest in front, so `lookup`
finds what was assigned last.  A map from names to sets of names is the list of its
members, each with its key; a key is present when it has a member.
-/

namespace Voodoo.Compiler

/-- A map from strings: its assignments, the latest in front. -/
abbrev StringMap (β : Type) := List (String × β)

/-! ### Declared names -/

structure DeclaredNames where
  structs : List String := []
  unions : List String := []
  enums : List String := []
  /-- Enum name to the interface or struct it is nested in, `""` at the top level. -/
  enumContainer : StringMap String := []
  containerEnums : StringMap String := []
  structContainer : StringMap String := []
  containerStructs : StringMap String := []
  unionContainer : StringMap String := []
  containerUnions : StringMap String := []

/-- `container[owner].insert(name)`, unless `owner` is empty. -/
def insertUnder (sets : StringMap String) (owner name : String) : StringMap String :=
  if owner = "" then sets else (owner, name) :: sets

namespace DeclaredNames

/-- What a header `kind name` in the body of `owner` records. -/
def declare (names : DeclaredNames) (kind name owner : String) : DeclaredNames :=
  if kind = "struct" then
    { names with
      structs := name :: names.structs
      structContainer := (name, owner) :: names.structContainer
      containerStructs := insertUnder names.containerStructs owner name }
  else if kind = "union" then
    { names with
      unions := name :: names.unions
      unionContainer := (name, owner) :: names.unionContainer
      containerUnions := insertUnder names.containerUnions owner name }
  else if kind = "enum" then
    { names with
      enums := name :: names.enums
      enumContainer := (name, owner) :: names.enumContainer
      containerEnums := insertUnder names.containerEnums owner name }
  else names

end DeclaredNames

/-- The loop variables of `CollectDeclaredNames`; the innermost container is in front. -/
structure Scan where
  names : DeclaredNames := {}
  pendingKind : String := ""
  pendingName : String := ""
  containerStack : List String := []

def headerKeywords : List String := ["struct", "union", "enum", "interface"]

/-- The name a header at `token` declares, when `token` and the one after it are one. -/
def headerName? (token : Token) (next : Option Token) : Option String :=
  if token.type = .name ∧ token.text ∈ headerKeywords then
    (next.filter (·.type = .name)).map (·.text)
  else none

namespace Scan

def owner (s : Scan) : String := s.containerStack.headD ""

def step (s : Scan) (token : Token) (next : Option Token) : Scan :=
  match headerName? token next with
  | some name =>
    { s with
      names := s.names.declare token.text name s.owner
      pendingKind := token.text
      pendingName := name }
  | none =>
    if token.type = .lBrace then
      -- Only a struct or interface body can hold a nested declaration.
      let nestable := s.pendingKind = "struct" ∨ s.pendingKind = "interface"
      { s with
        containerStack := (if nestable then s.pendingName else "") :: s.containerStack
        pendingKind := ""
        pendingName := "" }
    else if token.type = .rBrace then { s with containerStack := s.containerStack.tail }
    else s

def run : List Token → Scan → Scan
  | [], s => s
  | token :: tokens, s => run tokens (s.step token tokens.head?)

end Scan

def collectDeclaredNames (tokens : List Token) : DeclaredNames := (Scan.run tokens {}).names

/-! ### Enum values -/

/-- `ParseIntLiteral`: an `int64_t`, in which a literal from `2 ^ 63` on is stored by its bits. -/
def parseIntLiteral (negative : Bool) (digits : String) : Except Failure Int := do
  if negative then
    return -(← stoll digits : Nat)
  else
    return (BitVec.ofNat 64 (← stoull digits)).toInt

/-- `= value` after an enumerator's name, read without checking. -/
def scanEnumValue (values : List EnumValue) (nextValue : BitVec 32) (tokens : List Token) :
    Except Failure (BitVec 32 × List Token) := do
  let some t := tokens.head? | return (nextValue, tokens)
  unless t.type = .equals do return (nextValue, tokens)
  let tokens := tokens.tail
  let negative := tokens.head?.any (·.type = .minus)
  let tokens := if negative then tokens.tail else tokens
  match tokens with
  | [] => return (0, [])
  | t :: rest =>
    if t.type = .number ∨ t.type = .hexNumber then
      return (BitVec.ofInt 32 (← parseIntLiteral negative t.text), rest)
    else if t.type = .name then
      return (((values.find? (·.name == t.text)).map (·.value)).getD 0, rest)
    else return (0, tokens)

/-- The body of an enum, after its `{`. -/
def scanEnumBody : Nat → List EnumValue → BitVec 32 → List Token →
    Except Failure (List EnumValue × List Token)
  | 0, _, _, _ => .error .outOfFuel
  | _ + 1, values, _, [] => .ok (values, [])
  | fuel + 1, values, nextValue, t :: tokens => do
    if t.type = .lBracket then
      scanEnumBody fuel values nextValue ((t :: tokens).dropWhile (·.type ≠ .rBracket)).tail
    else if t.type = .name then
      let (value, tokens) ← scanEnumValue values nextValue tokens
      let values := values ++ [{ name := t.text, value }]
      if tokens.head?.any (·.type = .comma) then
        scanEnumBody fuel values (value + 1) tokens.tail
      else return (values, tokens)
    else return (values, t :: tokens)

def collectEnumValuesFrom : Nat → StringMap EnumDecl → List Token →
    Except Failure (StringMap EnumDecl)
  | 0, _, _ => .error .outOfFuel
  | fuel + 1, found, t :: u :: tokens => do
    if t.type = .name ∧ t.text = "enum" ∧ u.type = .name then
      let (values, rest) ←
        if tokens.head?.any (·.type = .lBrace) then
          scanEnumBody tokens.length [] 0 tokens.tail
        else pure ([], tokens)
      collectEnumValuesFrom fuel ((u.text, { name := u.text, values }) :: found) rest
    else collectEnumValuesFrom fuel found (u :: tokens)
  | _ + 1, found, _ => .ok found

def collectEnumValues (tokens : List Token) : Except Failure (StringMap EnumDecl) :=
  collectEnumValuesFrom (tokens.length + 1) [] tokens

end Voodoo.Compiler
