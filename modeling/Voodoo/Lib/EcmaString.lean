import Voodoo.Lib.Utf

/-!
# ECMAScript string literals

The string literals of strict code, by their grammar: what stands between the quotes are characters,
escapes and line continuations, and each of them denotes some UTF-16 code units.
-/

namespace EcmaString

open Utf

inductive LineTerminator where
  | lf | cr | ls | ps | crlf
  deriving DecidableEq

def LineTerminator.text : LineTerminator → List Char
  | lf => ['\n']
  | cr => ['\r']
  | ls => [Char.ofNat 0x2028]
  | ps => [Char.ofNat 0x2029]
  | crlf => ['\r', '\n']

/-- The characters that end a line. -/
def lineTerminators : List Char := ['\n', '\r', Char.ofNat 0x2028, Char.ofNat 0x2029]

/-- `SingleEscapeCharacter`, and the code unit of each. -/
def singleEscape : Char → Option Nat
  | '\'' => some 39
  | '"' => some 34
  | '\\' => some 92
  | 'b' => some 8
  | 'f' => some 12
  | 'n' => some 10
  | 'r' => some 13
  | 't' => some 9
  | 'v' => some 11
  | _ => none

def isHex (c : Char) : Bool :=
  c.isDigit || ('a' ≤ c && c ≤ 'f') || ('A' ≤ c && c ≤ 'F')

def digit (c : Char) : Nat :=
  if c.isDigit then c.toNat - 48 else if c.isLower then c.toNat - 87 else c.toNat - 55

def hexValue (ds : List Char) : Nat := ds.foldl (fun n c => 16 * n + digit c) 0

/-- The code units of a code point, which may be a surrogate. -/
def codeUnits (n : Nat) : List Nat :=
  if n < 0x10000 then [n] else [0xD800 + (n - 0x10000) / 0x400, 0xDC00 + (n - 0x10000) % 0x400]

inductive Element where
  | char (c : Char)
  | single (c : Char)
  /-- A `NonEscapeCharacter` after a backslash. -/
  | other (c : Char)
  | null
  | hex (a b : Char)
  | unicode (a b c d : Char)
  | codePoint (ds : List Char)
  | continuation (t : LineTerminator)
  deriving DecidableEq

namespace Element

def text : Element → List Char
  | char c => [c]
  | single c | other c => ['\\', c]
  | null => ['\\', '0']
  | hex a b => ['\\', 'x', a, b]
  | unicode a b c d => ['\\', 'u', a, b, c, d]
  | codePoint ds => '\\' :: 'u' :: '\x7b' :: (ds ++ ['\x7d'])
  | continuation t => '\\' :: t.text

def units : Element → List Nat
  | char c | other c => utf16Char c
  | single c => (singleEscape c).toList
  | null => [0]
  | hex a b => [hexValue [a, b]]
  | unicode a b c d => [hexValue [a, b, c, d]]
  | codePoint ds => codeUnits (hexValue ds)
  | continuation _ => []

/-- What the grammar asks of an element between these quotes. -/
def Valid (quote : Char) : Element → Prop
  | char c => c ≠ quote ∧ c ≠ '\\' ∧ c ≠ '\n' ∧ c ≠ '\r'
  | single c => (singleEscape c).isSome
  | other c =>
    singleEscape c = none ∧ c.isDigit = false ∧ c ≠ 'x' ∧ c ≠ 'u' ∧ c ∉ lineTerminators
  | null | continuation _ => True
  | hex a b => isHex a ∧ isHex b
  | unicode a b c d => isHex a ∧ isHex b ∧ isHex c ∧ isHex d
  | codePoint ds => ds ≠ [] ∧ (∀ d ∈ ds, isHex d) ∧ hexValue ds ≤ 0x10FFFF

instance (quote : Char) (e : Element) : Decidable (e.Valid quote) :=
  match e with
  | char _ => inferInstanceAs (Decidable (_ ∧ _))
  | single c => inferInstanceAs (Decidable ((singleEscape c).isSome = true))
  | other _ => inferInstanceAs (Decidable (_ ∧ _))
  | null | continuation _ => .isTrue trivial
  | hex _ _ | unicode _ _ _ _ => inferInstanceAs (Decidable (_ ∧ _))
  | codePoint ds =>
    have : Decidable (∀ d ∈ ds, isHex d) := List.decidableBAll _ ds
    inferInstanceAs (Decidable (ds ≠ [] ∧ (∀ d ∈ ds, isHex d) ∧ hexValue ds ≤ 0x10FFFF))

end Element

/-- `\0` is no escape before a digit. -/
def NullsEnd : List Element → Prop
  | .null :: .char c :: es => c.isDigit = false ∧ NullsEnd (.char c :: es)
  | _ :: es => NullsEnd es
  | [] => True

/-- A string literal. -/
structure Literal where
  quote : Char
  elements : List Element
  quote_eq : quote = '"' ∨ quote = '\''
  valid : ∀ e ∈ elements, e.Valid quote
  nullsEnd : NullsEnd elements

namespace Literal

def text (l : Literal) : List Char := l.quote :: (l.elements.flatMap Element.text ++ [l.quote])

/-- The code units of the string it denotes. -/
def units (l : Literal) : List Nat := l.elements.flatMap Element.units

end Literal

theorem length_codeUnits_le (n : Nat) : (codeUnits n).length ≤ 2 := by
  unfold codeUnits
  split
  · exact Nat.le_succ 1
  · exact Nat.le_refl 2

end EcmaString
