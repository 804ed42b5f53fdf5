import Mathlib.Algebra.Group.Nat.Defs
import Mathlib.Logic.Basic

/-!
# Tokens

`lexer.h` and `lexer.cc`: the tokens of a `.voodoom` file and `Tokenize`.  A
`std::string` is a `String` whose characters are the bytes, so every test on a
character is the one the C locale makes.

`Failure` is what can be thrown while a file is lexed, parsed and loaded.  Next to
the three exception classes of the compiler it has the `std::out_of_range` of the
conversions `std::stoll`, `std::stoul`, `std::stoi` and `std::stod`, and `outOfFuel`,
which no C++ code throws: the loops below count down from the length of what they read.
-/

namespace Voodoo.Compiler

/-! ### Exceptions and conversions -/

inductive Failure where
  | lexError (msg : String) (line : Nat)
  | parseError (msg : String) (line : Nat)
  | loadError (msg : String)
  | outOfRange
  | outOfFuel
  deriving DecidableEq

/-- `e.what()`. -/
def Failure.what : Failure → String
  | lexError msg line | parseError msg line => msg ++ " (line " ++ toString line ++ ")"
  | loadError msg => msg
  | outOfRange => "out of range"
  | outOfFuel => ""

def digitValue (c : Char) : Nat :=
  if c.isDigit then c.toNat - 48 else if c.isLower then c.toNat - 87 else c.toNat - 55

def numeral (base : Nat) (digits : List Char) : Nat :=
  digits.foldl (fun n c => base * n + digitValue c) 0

/-- A conversion whose result type ends at `limit`. -/
def upTo (limit n : Nat) : Except Failure Nat :=
  if n ≤ limit then .ok n else .error .outOfRange

/-- The value of a `NUMBER` or `HEX` token, as base `0` reads it. -/
def literalValue (text : String) : Nat :=
  match text.toList with
  | '0' :: 'x' :: digits | '0' :: 'X' :: digits => numeral 16 digits
  | digits => numeral 10 digits

def stoll (text : String) : Except Failure Nat := upTo (2 ^ 63 - 1) (literalValue text)

def stoull (text : String) : Except Failure Nat := upTo (2 ^ 64 - 1) (literalValue text)

def stoul (text : String) : Except Failure Nat := upTo (2 ^ 64 - 1) (literalValue text)

def stoi (text : String) : Except Failure Nat := upTo (2 ^ 31 - 1) (literalValue text)

/-- The digits of a `FLOAT` token without the dot, and the power of ten they are multiplied with. -/
def decimalParts (text : String) : Nat × Int :=
  let isExponent (c : Char) : Bool := c = 'e' || c = 'E'
  let digits := text.toList.takeWhile (!isExponent ·)
  let exponent := (text.toList.dropWhile (!isExponent ·)).tail
  let fraction := (digits.dropWhile (· ≠ '.')).tail
  let power : Int := match exponent with
    | '-' :: ds => -numeral 10 ds
    | '+' :: ds => numeral 10 ds
    | ds => numeral 10 ds
  (numeral 10 (digits.filter (· ≠ '.')), power - fraction.length)

/-- Whether a `FLOAT` token has a value in the range of a `double`: none that rounds past the
largest, and none below the smallest normal one that is not exact. -/
@[irreducible] def fitsDouble (text : String) : Bool :=
  let (digits, power) := decimalParts text
  let up := 10 ^ power.toNat
  let down := 10 ^ (-power).toNat
  digits * up < (2 ^ 1024 - 2 ^ 970) * down &&
    (down ≤ digits * up * 2 ^ 1022 || digits * up * 2 ^ 1074 % down = 0)

/-- No value is computed from a floating-point literal here. -/
def stod (text : String) : Except Failure Unit :=
  if fitsDouble text then .ok () else .error .outOfRange

/-! ### Tokens -/

inductive TokenType where
  | name | number | hexNumber | floatNumber | stringLiteral | arrow
  | lParen | rParen | lBrace | rBrace | lAngle | rAngle | comma | semi | at | equals | minus
  | question | dot | lBracket | rBracket | ampersand | pipe | end
  deriving DecidableEq

structure Token where
  type : TokenType
  text : String := ""
  line : Nat := 1

/-! ### Character classes -/

def isSpace (c : Char) : Bool := c == ' ' || (9 ≤ c.toNat && c.toNat ≤ 13)

def isXDigit (c : Char) : Bool :=
  c.isDigit || ('a' ≤ c && c ≤ 'f') || ('A' ≤ c && c ≤ 'F')

def isNameStart (c : Char) : Bool := c.isAlpha || c == '_'

def isNameCont (c : Char) : Bool := c.isAlphanum || c == '_'

/-! ### The pieces of a token

Each takes the characters that are left and gives what it took and what is left after it. -/

def skipBlockComment : List Char → Nat → Except Failure (List Char × Nat)
  | '*' :: '/' :: cs, line => .ok (cs, line)
  | c :: d :: cs, line => skipBlockComment (d :: cs) (if c = '\n' then line + 1 else line)
  | _, line => .error (.lexError "unterminated block comment" line)

/-- `'.' DIGITS`, only when a digit follows the dot. -/
def lexFraction : List Char → List Char × List Char
  | '.' :: d :: cs =>
    if d.isDigit then ('.' :: (d :: cs).takeWhile Char.isDigit, (d :: cs).dropWhile Char.isDigit)
    else ([], '.' :: d :: cs)
  | cs => ([], cs)

/-- `[eE] [+-]? DIGITS`. -/
def lexExponent : List Char → List Char × List Char
  | e :: cs =>
    if e = 'e' ∨ e = 'E' then
      let sign := cs.take (if cs.head? = some '+' ∨ cs.head? = some '-' then 1 else 0)
      let digits := (cs.drop sign.length).takeWhile Char.isDigit
      if digits = [] then ([], e :: cs)
      else (e :: (sign ++ digits), (cs.drop sign.length).dropWhile Char.isDigit)
    else ([], e :: cs)
  | [] => ([], [])

def lexHex (x : Char) (cs : List Char) (line : Nat) : Except Failure (Token × List Char) :=
  let digits := cs.takeWhile isXDigit
  if digits = [] then .error (.lexError "invalid hex literal (no digits after '0x')" line)
  else .ok (⟨.hexNumber, String.ofList ('0' :: x :: digits), line⟩, cs.dropWhile isXDigit)

/-- A token that starts with a digit and is no hex literal. -/
def lexDecimal (cs : List Char) (line : Nat) : Except Failure (Token × List Char) :=
  let digits := cs.takeWhile Char.isDigit
  let (fraction, cs₁) := lexFraction (cs.dropWhile Char.isDigit)
  let (exponent, cs₂) := lexExponent cs₁
  if fraction ++ exponent ≠ [] then
    .ok (⟨.floatNumber, String.ofList (digits ++ fraction ++ exponent), line⟩, cs₂)
  else if 1 < digits.length ∧ digits.head? = some '0' then
    .error (.lexError "octal values are not allowed" line)
  else .ok (⟨.number, String.ofList digits, line⟩, cs₂)

/-- `static_cast<char>` of the code an escape spells. -/
def escapedChar (base : Nat) (digits : List Char) : Except Failure Char := do
  let code ← upTo (2 ^ 63 - 1) (numeral base digits)
  return Char.ofNat (code % 256)

/-- What stands between the quotes, the opening one already read. -/
def lexString : Nat → List Char → Nat → Except Failure (List Char × List Char)
  | 0, _, _ => .error .outOfFuel
  | fuel + 1, cs, line =>
    let push (c : Char) (rest : List Char) := do
      let (value, rest) ← lexString fuel rest line
      return (c :: value, rest)
    match cs with
    | [] | '\n' :: _ => .error (.lexError "unterminated string literal" line)
    | '"' :: cs => .ok ([], cs)
    | '\\' :: c :: cs =>
      if c = '"' ∨ c = '\\' then push c cs
      else if c.isDigit then do
        push (← escapedChar 10 ((c :: cs).takeWhile Char.isDigit))
          ((c :: cs).dropWhile Char.isDigit)
      else if c = 'x' ∧ cs.head?.any isXDigit then do
        push (← escapedChar 16 (cs.takeWhile isXDigit)) (cs.dropWhile isXDigit)
      else push '\\' (c :: cs)
    | c :: cs => push c cs

def punctuation : Char → Option TokenType
  | '(' => some .lParen
  | ')' => some .rParen
  | '{' => some .lBrace
  | '}' => some .rBrace
  | '<' => some .lAngle
  | '>' => some .rAngle
  | ',' => some .comma
  | ';' => some .semi
  | '@' => some .at
  | '=' => some .equals
  | '-' => some .minus
  | '?' => some .question
  | '.' => some .dot
  | '[' => some .lBracket
  | ']' => some .rBracket
  | '&' => some .ampersand
  | '|' => some .pipe
  | _ => none

/-! ### The tokenizer -/

/-- One turn of the loop of `Tokenize` at the character `c`: the token it pushed, if any, what is
left and the line it is on. -/
def lexStep (c : Char) (cs : List Char) (line : Nat) :
    Except Failure (Option Token × List Char × Nat) :=
  if c = '\n' then .ok (none, cs, line + 1)
  else if isSpace c then .ok (none, cs, line)
  else if c = '/' ∧ cs.head? = some '/' then .ok (none, cs.dropWhile (· ≠ '\n'), line)
  else if c = '/' ∧ cs.head? = some '*' then do
    let (cs, line) ← skipBlockComment cs.tail line
    return (none, cs, line)
  else if isNameStart c then
    .ok (some ⟨.name, String.ofList ((c :: cs).takeWhile isNameCont), line⟩,
      (c :: cs).dropWhile isNameCont, line)
  else if c.isDigit then do
    let (token, cs) ←
      if c = '0' ∧ (cs.head? = some 'x' ∨ cs.head? = some 'X') then
        lexHex (cs.headD 'x') cs.tail line
      else lexDecimal (c :: cs) line
    return (some token, cs, line)
  else if c = '.' ∧ cs.head?.any Char.isDigit then
    let (fraction, cs) := lexFraction (c :: cs)
    let (exponent, cs) := lexExponent cs
    .ok (some ⟨.floatNumber, String.ofList (fraction ++ exponent), line⟩, cs, line)
  else if c = '"' then do
    let (value, cs) ← lexString (cs.length + 1) cs line
    return (some ⟨.stringLiteral, String.ofList value, line⟩, cs, line)
  else if c = '=' ∧ cs.head? = some '>' then .ok (some ⟨.arrow, "", line⟩, cs.tail, line)
  else match punctuation c with
    | some type => .ok (some ⟨type, "", line⟩, cs, line)
    | none => .error (.lexError ("unexpected character '" ++ c.toString ++ "'") line)

def tokenizeFrom : Nat → List Char → Nat → Except Failure (List Token)
  | 0, _, _ => .error .outOfFuel
  | _ + 1, [], line => .ok [⟨.end, "", line⟩]
  | fuel + 1, c :: cs, line => do
    let (token, cs, line) ← lexStep c cs line
    return token.toList ++ (← tokenizeFrom fuel cs line)

/-- `Tokenize`. -/
def tokenize (src : String) : Except Failure (List Token) :=
  tokenizeFrom (src.length + 1) src.toList 1

end Voodoo.Compiler
