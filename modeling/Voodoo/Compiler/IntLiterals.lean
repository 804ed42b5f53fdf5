import Mathlib.Algebra.Group.Int.Defs
import Voodoo.Compiler.Parser

/-!
# Integer literals

What becomes of an integer literal that stands for the value of an enumerator, a const or a field
default, or in `[MinVersion=N]`: the number the parser stores, and the literal the header has for it.

A literal is converted to an `int64_t` by `ParseIntLiteral`, narrowed to the width it is stored in,
and printed again by the width and the sign of its kind.  The one range check there is,
`std::stoll`'s, throws an exception of its own and comes too early for the least `int64`.  A default
of type `uint64?` is printed signed, which goes wrong where `-9223372036854775808` comes out.
`NumberSite.Good` is what is left (`numbers_right_iff`).
-/

namespace Voodoo.Compiler

open Parse EState

/-! ### Kinds and C++ literals -/

inductive IntKind where
  | int8 | uint8 | int16 | uint16 | int32 | uint32 | int64 | uint64
  deriving DecidableEq

namespace IntKind

def scalar : IntKind → ScalarKind
  | int8 => .int8
  | uint8 => .uint8
  | int16 => .int16
  | uint16 => .uint16
  | int32 => .int32
  | uint32 => .uint32
  | int64 => .int64
  | uint64 => .uint64

def least : IntKind → Int
  | int8 => -2 ^ 7
  | int16 => -2 ^ 15
  | int32 => -2 ^ 31
  | int64 => -2 ^ 63
  | _ => 0

def most : IntKind → Int
  | int8 => 2 ^ 7 - 1
  | uint8 => 2 ^ 8 - 1
  | int16 => 2 ^ 15 - 1
  | uint16 => 2 ^ 16 - 1
  | int32 => 2 ^ 31 - 1
  | uint32 => 2 ^ 32 - 1
  | int64 => 2 ^ 63 - 1
  | uint64 => 2 ^ 64 - 1

def Holds (k : IntKind) (n : Int) : Prop := k.least ≤ n ∧ n ≤ k.most

instance (k : IntKind) (n : Int) : Decidable (k.Holds n) := inferInstanceAs (Decidable (_ ∧ _))

/-- An integral conversion to the kind. -/
def wrap : IntKind → Int → Int
  | int8, n => n.bmod (2 ^ 8)
  | uint8, n => n % 2 ^ 8
  | int16, n => n.bmod (2 ^ 16)
  | uint16, n => n % 2 ^ 16
  | int32, n => n.bmod (2 ^ 32)
  | uint32, n => n % 2 ^ 32
  | int64, n => n.bmod (2 ^ 64)
  | uint64, n => n % 2 ^ 64

/-- The number an `int64_t` in the AST stands for: of a `uint64` it has the bits. -/
def ofInt64 (k : IntKind) (value : Int) : Int :=
  if k = uint64 then (BitVec.ofInt 64 value).toNat else value

end IntKind

inductive CppSuffix where
  | none | u | ull

/-- A decimal literal of C++, after a minus sign perhaps. -/
structure CppInteger where
  negative : Bool := false
  digits : Nat
  suffix : CppSuffix := .none

namespace CppInteger

/-- `std::to_string` of a signed number. -/
def ofInt (n : Int) : CppInteger := { negative := n < 0, digits := n.natAbs }

/-- The value of the expression.  A literal too large for the types its suffix allows has none. -/
def value (e : CppInteger) : Option Int :=
  match e.suffix with
  | .none =>
    if e.digits < 2 ^ 63 then some (if e.negative then -(e.digits : Int) else e.digits) else none
  | .u | .ull => if e.digits < 2 ^ 64 then some e.digits else none

/-- What the expression initializes an object of the kind to.  The braces of a member allow no
narrowing; the constructor of a `std::optional` converts. -/
def denotes (e : CppInteger) (k : IntKind) (nullable : Bool) : Option Int :=
  e.value.bind (fun n =>
    if nullable then some (k.wrap n) else if k.Holds n then some n else none)

end CppInteger

/-- `DefaultValueExpr` of an integer that no name stands for.  A nullable type is of none of the
unsigned kinds it looks for. -/
def defaultValueExpr (k : IntKind) (nullable : Bool) (intValue : Int) : CppInteger :=
  match nullable, k with
  | false, .uint64 => { digits := (BitVec.ofInt 64 intValue).toNat, suffix := .ull }
  | false, .uint32 | false, .uint16 | false, .uint8 =>
    { digits := (BitVec.ofInt 32 intValue).toNat, suffix := .u }
  | _, _ => .ofInt intValue

/-! ### Where literals stand -/

/-- An integer literal of the source. -/
structure IntLiteral where
  negative : Bool
  hex : Bool
  text : String
  line : Nat := 1
  minusLine : Nat := 1

namespace IntLiteral

def tokens (l : IntLiteral) : List Token :=
  (if l.negative then [⟨.minus, "", l.minusLine⟩] else []) ++
    [⟨if l.hex then .hexNumber else .number, l.text, l.line⟩]

/-- The number that is written. -/
def written (l : IntLiteral) : Int :=
  if l.negative then -(literalValue l.text : Int) else literalValue l.text

end IntLiteral

inductive NumberSite where
  /-- `= N` after the name of an enumerator that follows `soFar`. -/
  | enumerator (soFar : List EnumValue)
  /-- `= N` in a const or a field. -/
  | default (kind : IntKind) (nullable : Bool)
  | minVersion

namespace NumberSite

def kind : NumberSite → IntKind
  | enumerator _ => .int32
  | default kind _ => kind
  | minVersion => .uint32

def nullable : NumberSite → Bool
  | default _ nullable => nullable
  | _ => false

/-- The number that is stored, and the literal the header has for it. -/
def parse (env : Env) : NumberSite → Parse (Int × CppInteger)
  | enumerator soFar => do
    let v ← parseEnumValue soFar
    return (v.value.toInt, .ofInt v.value.toInt)
  | default kind nullable => do
    let v ← parseDefaultValue env
      (if nullable then .nullable (.scalar kind.scalar) else .scalar kind.scalar)
    return (kind.ofInt64 v.intValue, defaultValueExpr kind nullable v.intValue)
  | minVersion => do
    let a ← parseAttribute
    let v ← minVersionAttribute a
    return (v.toNat, { digits := v.toNat, suffix := .u })

/-- The parser is about to read the site, with the literal `l` in it. -/
inductive Stands (l : IntLiteral) (next : Token) (after : List Token) :
    NumberSite → Parser → Prop
  | enumerator {soFar : List EnumValue} {s t u : Parser} {attrs : List ParsedAttribute}
      {v : EnumValue} {name equals : Token}
      (hattrs : parseOptionalAttributes s = .ok attrs t)
      (hfold : attrs.foldlM parseEnumValueAttribute { name := "" } t = .ok v u)
      (hname : name.type = .name) (hequals : equals.type = .equals)
      (hrest : u.rest = name :: equals :: (l.tokens ++ next :: after)) :
      Stands l next after (enumerator soFar) s
  | default {kind : IntKind} {nullable : Bool} {s : Parser}
      (hrest : s.rest = l.tokens ++ next :: after) : Stands l next after (default kind nullable) s
  | minVersion {s : Parser} {name equals : Token} (hname : name.type = .name)
      (htext : name.text = "MinVersion") (hequals : equals.type = .equals)
      (hrest : s.rest = name :: equals :: (l.tokens ++ next :: after)) :
      Stands l next after minVersion s

/-- A number the kind holds is stored and written down again as it is; any other is turned away. -/
def Right (env : Env) (site : NumberSite) (l : IntLiteral) (s : Parser) : Prop :=
  (site.kind.Holds l.written → ∃ e t, site.parse env s = .ok (l.written, e) t ∧
    e.denotes site.kind site.nullable = some l.written) ∧
  (¬site.kind.Holds l.written → ∃ msg line t, site.parse env s = .error (.parseError msg line) t)

/-- The numbers all goes well for. -/
def Good : NumberSite → Int → Prop
  | enumerator _, n => -2 ^ 31 ≤ n ∧ n < 2 ^ 31
  | default kind nullable, n =>
    kind.Holds n ∧ n ≠ -2 ^ 63 ∧ ¬(nullable = true ∧ kind = .uint64 ∧ n = 2 ^ 63)
  | minVersion, n => (0 ≤ n ∧ n < 2 ^ 32) ∨ (-2 ^ 63 < n ∧ n < 0) ∨ (2 ^ 63 ≤ n ∧ n < 2 ^ 64)

end NumberSite

/-! ### What the parser makes of a literal -/

section

variable {s : Parser} {first second : Token} {tokens : List Token}

theorem at_of_rest {type : TokenType} (h : s.rest = first :: tokens) : at' type s = .ok (first.type = type) s := by
  obtain ⟨rest⟩ := s
  obtain rfl : rest = _ := h
  rfl

theorem cur_of_rest (h : s.rest = first :: tokens) :
    cur s = .ok first s := by
  obtain ⟨rest⟩ := s
  obtain rfl : rest = _ := h
  rfl

theorem advance_of_rest (h : s.rest = first :: second :: tokens) :
    advance s = .ok () { s with rest := second :: tokens } := by
  obtain ⟨rest⟩ := s
  obtain rfl : rest = _ := h
  rfl

end

theorem parseSignedNumber_run {l : IntLiteral} {next : Token} {after : List Token} {s : Parser}
    (h : s.rest = l.tokens ++ next :: after) :
    parseSignedNumber s = .ok (l.negative, l.text) { s with rest := next :: after } := by
  obtain ⟨negative, hex, text, line, minusLine⟩ := l
  obtain ⟨rest⟩ := s
  obtain rfl : rest = _ := h
  cases negative <;> cases hex <;> rfl

/-- The numbers whose conversion to `int64_t` throws nothing. -/
def Representable (n : Int) : Prop := -2 ^ 63 < n ∧ n < 2 ^ 64

theorem parseIntLiteral_of_representable {l : IntLiteral} (h : Representable l.written) :
    parseIntLiteral l.negative l.text = .ok (l.written.bmod (2 ^ 64)) := by
  unfold Representable IntLiteral.written at h
  unfold parseIntLiteral IntLiteral.written
  cases hneg : l.negative with
  | true =>
    rw [hneg, if_pos rfl] at h
    have hle : literalValue l.text ≤ 2 ^ 63 - 1 := by omega
    have hmod : (-(literalValue l.text : Int)).bmod (2 ^ 64) = -(literalValue l.text : Int) := by
      rw [Int.bmod_eq_of_le] <;> omega
    rw [if_pos rfl, if_pos rfl, hmod, stoll, upTo, if_pos hle]
    rfl
  | false =>
    rw [hneg, if_neg Bool.false_ne_true] at h
    have hle : literalValue l.text ≤ 2 ^ 64 - 1 := by omega
    rw [if_neg Bool.false_ne_true, if_neg Bool.false_ne_true, stoull, upTo, if_pos hle]
    exact congrArg Except.ok (BitVec.toInt_ofNat' _)

theorem parseIntLiteral_of_not_representable {l : IntLiteral} (h : ¬Representable l.written) :
    parseIntLiteral l.negative l.text = .error .outOfRange := by
  unfold Representable IntLiteral.written at h
  unfold parseIntLiteral
  cases hneg : l.negative with
  | true =>
    rw [hneg, if_pos rfl] at h
    have hlt : ¬literalValue l.text ≤ 2 ^ 63 - 1 := by omega
    rw [if_pos rfl, stoll, upTo, if_neg hlt]
    rfl
  | false =>
    rw [hneg, if_neg Bool.false_ne_true] at h
    have hlt : ¬literalValue l.text ≤ 2 ^ 64 - 1 := by omega
    rw [if_neg Bool.false_ne_true, stoull, upTo, if_neg hlt]
    rfl

/-! ### What each site does with it -/

theorem IntKind.wrap_of_holds {k : IntKind} {n : Int} (hk : k.Holds n) : k.wrap n = n := by
  obtain ⟨hlo, hhi⟩ := hk
  cases k <;> simp only [least, most] at hlo hhi <;> rw [wrap]
  case int8 | int16 | int32 | int64 => rw [Int.bmod_eq_of_le] <;> omega
  all_goals omega

namespace CppInteger

theorem value_ofInt {n : Int} (hlo : -2 ^ 63 < n) (hhi : n < 2 ^ 63) : (ofInt n).value = some n := by
  have habs : n.natAbs < 2 ^ 63 := by omega
  have hsign : (if decide (n < 0) then -(n.natAbs : Int) else n.natAbs) = n := by
    by_cases hneg : n < 0
    · rw [if_pos (decide_eq_true hneg)]
      omega
    · rw [if_neg (by simpa using hneg)]
      omega
  rw [← congrArg some hsign]
  exact if_pos habs

theorem value_unsigned {d : Nat} {suffix : CppSuffix} (hsuffix : suffix ≠ .none)
    (hlt : d < 2 ^ 64) : CppInteger.value { digits := d, suffix } = some (d : Int) := by
  cases suffix with
  | none => exact absurd rfl hsuffix
  | u => exact if_pos hlt
  | ull => exact if_pos hlt

theorem denotes_of_value {e : CppInteger} {k : IntKind} {nullable : Bool} {n : Int}
    (hvalue : e.value = some n) (hk : k.Holds n) : e.denotes k nullable = some n := by
  rw [denotes, hvalue, Option.bind_some, if_pos hk, IntKind.wrap_of_holds hk, ite_self]

end CppInteger

/-- Of a kind other than `uint64` the number is stored and printed as it is. -/
theorem defaultValueExpr_denotes {k : IntKind} {nullable : Bool} {n : Int} (hk : k.Holds n)
    (hne : k ≠ .uint64) (hmin : n ≠ -2 ^ 63) :
    (defaultValueExpr k nullable (n.bmod (2 ^ 64))).denotes k nullable = some n := by
  have hbounds : k.least ≤ n ∧ n ≤ k.most := hk
  have hrange : -2 ^ 63 < n ∧ n < 2 ^ 63 := by
    cases k <;> simp only [IntKind.least, IntKind.most] at hbounds <;>
      first | omega | exact absurd rfl hne
  have hmod : n.bmod (2 ^ 64) = n := by
    rw [Int.bmod_eq_of_le] <;> omega
  have hsigned : (CppInteger.ofInt n).denotes k nullable = some n :=
    CppInteger.denotes_of_value (CppInteger.value_ofInt hrange.1 hrange.2) hk
  have hunsigned : 0 ≤ n → n < 2 ^ 32 → CppInteger.denotes
      { digits := (BitVec.ofInt 32 n).toNat, suffix := .u } k nullable = some n := by
    intro hlo hhi
    have hd : ((BitVec.ofInt 32 n).toNat : Int) = n := by
      rw [BitVec.toNat_ofInt]
      omega
    have hvalue : CppInteger.value { digits := (BitVec.ofInt 32 n).toNat, suffix := .u } =
        some ((BitVec.ofInt 32 n).toNat : Int) :=
      CppInteger.value_unsigned CppSuffix.noConfusion (by omega)
    rw [hd] at hvalue
    exact CppInteger.denotes_of_value hvalue hk
  rw [hmod]
  cases nullable with
  | true => cases k <;> exact hsigned
  | false =>
    cases k
    case uint64 => exact absurd rfl hne
    case int8 | int16 | int32 | int64 => exact hsigned
    all_goals
      simp only [IntKind.least, IntKind.most] at hbounds
      exact hunsigned (by omega) (by omega)

/-- Of a `uint64` the bits are stored.  They are printed as those of an `int64_t` if the type
is nullable, and the constructor turns them back. -/
theorem defaultValueExpr_denotes_uint64 {nullable : Bool} {n : Int} (hk : IntKind.uint64.Holds n) :
    (defaultValueExpr .uint64 nullable (n.bmod (2 ^ 64))).denotes .uint64 nullable = some n ↔
      ¬(nullable = true ∧ n = 2 ^ 63) := by
  have hbounds : 0 ≤ n ∧ n ≤ 2 ^ 64 - 1 := hk
  obtain ⟨hlo, hhi⟩ := hbounds
  cases nullable with
  | false =>
    have hd : ((BitVec.ofInt 64 (n.bmod (2 ^ 64))).toNat : Int) = n := by
      rw [BitVec.toNat_ofInt, Int.bmod_emod]
      omega
    have hvalue : CppInteger.value
        { digits := (BitVec.ofInt 64 (n.bmod (2 ^ 64))).toNat, suffix := .ull } =
        some ((BitVec.ofInt 64 (n.bmod (2 ^ 64))).toNat : Int) :=
      CppInteger.value_unsigned CppSuffix.noConfusion (BitVec.isLt _)
    rw [hd] at hvalue
    exact iff_of_true (CppInteger.denotes_of_value hvalue hk) (fun h => Bool.noConfusion h.1)
  | true =>
    show (CppInteger.ofInt _).denotes _ _ = _ ↔ _
    by_cases hmin : n = 2 ^ 63
    · subst hmin
      exact iff_of_false (by decide) (fun h => h ⟨rfl, rfl⟩)
    · have hne : n.bmod (2 ^ 64) ≠ -2 ^ 63 := by
        rw [Int.bmod_def]
        split <;> omega
      have hge : -2 ^ 63 ≤ n.bmod (2 ^ 64) := Int.le_bmod (by decide)
      have hlt : n.bmod (2 ^ 64) < 2 ^ 63 := Int.bmod_lt (by decide)
      rw [CppInteger.denotes, CppInteger.value_ofInt (by omega) hlt, Option.bind_some, if_pos rfl,
        IntKind.wrap]
      have hwrap : n.bmod (2 ^ 64) % 2 ^ 64 = n :=
        (Int.bmod_emod (m := 2 ^ 64)).trans (Int.emod_eq_of_lt hlo (by omega))
      exact iff_of_true (congrArg some hwrap) (fun h => hmin h.2)

theorem IntKind.ofInt64_bmod {k : IntKind} {n : Int} (hk : k.Holds n) :
    k.ofInt64 (n.bmod (2 ^ 64)) = n := by
  have hbounds : k.least ≤ n ∧ n ≤ k.most := hk
  unfold IntKind.ofInt64
  cases k
  case uint64 =>
    obtain ⟨hlo, hhi⟩ : 0 ≤ n ∧ n ≤ 2 ^ 64 - 1 := hbounds
    rw [if_pos rfl, BitVec.toNat_ofInt, Int.bmod_emod]
    omega
  all_goals
    simp only [IntKind.least, IntKind.most] at hbounds
    rw [if_neg (by decide), Int.bmod_eq_of_le] <;> omega

namespace NumberSite

variable {env : Env} {site : NumberSite} {l : IntLiteral} {next : Token} {after : List Token}
variable {s t : Parser} {m : Int} {e : CppInteger}

/-- The part of a site that comes after the literal is converted. -/
def store (line : Nat) : NumberSite → Int → Parse (Int × CppInteger)
  | enumerator _, n => return ((BitVec.ofInt 32 n).toInt, .ofInt (BitVec.ofInt 32 n).toInt)
  | default kind nullable, n => return (kind.ofInt64 n, defaultValueExpr kind nullable n)
  | minVersion, n => do
    let v ← minVersionAttribute { name := "MinVersion", value := .int n, line }
    return (v.toNat, { digits := v.toNat, suffix := .u })

/-- What a literal is converted to goes to `k`. -/
def convert (l : IntLiteral) (k : Int → Parse α) : Parse α := do
  k (← liftResult (parseIntLiteral l.negative l.text))

theorem convert_ok {n : Int} {k : Int → Parse α}
    (h : parseIntLiteral l.negative l.text = .ok n) : convert l k s = k n s := by
  unfold convert
  rw [h]
  rfl

theorem convert_error {f : Failure} {k : Int → Parse α}
    (h : parseIntLiteral l.negative l.text = .error f) : convert l k s = .error f s := by
  unfold convert
  rw [h]
  rfl

theorem tokens_eq_cons (l : IntLiteral) :
    ∃ first tokens, l.tokens = first :: tokens ∧ first.type ≠ .name := by
  obtain ⟨negative, hex, text, line, minusLine⟩ := l
  cases negative
  · cases hex
    · exact ⟨_, [], rfl, TokenType.noConfusion⟩
    · exact ⟨_, [], rfl, TokenType.noConfusion⟩
  · exact ⟨_, [_], rfl, TokenType.noConfusion⟩

theorem parseDefaultValue_kind (kind : IntKind) (nullable : Bool) :
    parseDefaultValue env
        (if nullable then .nullable (.scalar kind.scalar) else .scalar kind.scalar) =
      (do
        if ← at' .name then
          namedDefault env (.scalar kind.scalar) (fun v => { intValue := v.intValue })
        else
          let (negative, digits) ← parseSignedNumber
          return { intValue := ← liftResult (parseIntLiteral negative digits) }) := by
  cases nullable <;> cases kind <;> rfl

theorem parse_default {kind : IntKind} {nullable : Bool}
    (h : s.rest = l.tokens ++ next :: after) :
    (default kind nullable).parse env s =
      convert l ((default kind nullable).store 0) { s with rest := next :: after } := by
  have hvalue : parseDefaultValue env
      (if nullable then .nullable (.scalar kind.scalar) else .scalar kind.scalar) s =
      convert l (fun n => return { intValue := n }) { s with rest := next :: after } := by
    obtain ⟨first, tokens, htokens, hfirst⟩ := tokens_eq_cons l
    rw [parseDefaultValue_kind, bind_ok (at_of_rest (h.trans (congrArg (· ++ _) htokens))),
      if_neg (by simpa using hfirst)]
    exact bind_ok (parseSignedNumber_run h)
  show (parseDefaultValue env _ >>= _) s = _
  rw [run_bind, hvalue]
  cases hconv : parseIntLiteral l.negative l.text with
  | ok n => rw [convert_ok hconv, convert_ok hconv]; rfl
  | error e => rw [convert_error hconv, convert_error hconv]

theorem parse_enumerator {soFar : List EnumValue} {t u : Parser} {attrs : List ParsedAttribute}
    {v : EnumValue} {name equals : Token} (hattrs : parseOptionalAttributes s = .ok attrs t)
    (hfold : attrs.foldlM parseEnumValueAttribute { name := "" } t = .ok v u)
    (hname : name.type = .name) (hequals : equals.type = .equals)
    (h : u.rest = name :: equals :: (l.tokens ++ next :: after)) :
    (enumerator soFar).parse env s =
      convert l ((enumerator soFar).store 0) { u with rest := next :: after } := by
  have hname' : expectName "enum value name" u =
      .ok name.text { u with rest := equals :: (l.tokens ++ next :: after) } := by
    obtain ⟨type, text, line⟩ := name
    obtain ⟨rest⟩ := u
    obtain rfl : type = _ := hname
    obtain rfl : rest = _ := h
    rfl
  have hvalue : parseEnumValue soFar s =
      convert l (fun n => return { v with name := name.text, value := BitVec.ofInt 32 n })
        { u with rest := next :: after } := by
    unfold parseEnumValue
    obtain ⟨first, tokens, htokens, hfirst⟩ := tokens_eq_cons l
    have hrest : ({ u with rest := equals :: (l.tokens ++ next :: after) } : Parser).rest =
        equals :: first :: (tokens ++ next :: after) := by
      rw [htokens]
      rfl
    have hliteral : ({ u with rest := first :: (tokens ++ next :: after) } : Parser).rest =
        l.tokens ++ next :: after := by
      rw [htokens]
      rfl
    rw [bind_ok hattrs, bind_ok hfold, bind_ok hname', bind_ok (at_of_rest hrest),
      if_pos (by simpa using hequals), bind_ok (advance_of_rest hrest), bind_ok (cur_of_rest rfl),
      if_neg hfirst]
    exact bind_ok (parseSignedNumber_run hliteral)
  show (parseEnumValue soFar >>= _) s = _
  rw [run_bind, hvalue]
  cases hconv : parseIntLiteral l.negative l.text with
  | ok n => rw [convert_ok hconv, convert_ok hconv]; rfl
  | error e => rw [convert_error hconv, convert_error hconv]

theorem parse_minVersion {name equals : Token} (hname : name.type = .name)
    (htext : name.text = "MinVersion") (hequals : equals.type = .equals)
    (h : s.rest = name :: equals :: (l.tokens ++ next :: after)) :
    minVersion.parse env s =
      convert l (minVersion.store name.line) { s with rest := next :: after } := by
  have hvalue : parseAttributeValue { s with rest := l.tokens ++ next :: after } =
      convert l (fun n => return .int n) { s with rest := next :: after } := by
    obtain ⟨negative, hex, text, line, minusLine⟩ := l
    cases negative <;> cases hex <;> rfl
  have hrest : ({ s with rest := equals :: (l.tokens ++ next :: after) } : Parser).rest =
      equals :: (l.tokens ++ next :: after) := rfl
  have hattribute : parseAttribute s =
      convert l (fun n => return { name := "MinVersion", value := .int n, line := name.line })
        { s with rest := next :: after } := by
    have hexpect : expect .name "attribute name" s =
        .ok name { s with rest := equals :: (l.tokens ++ next :: after) } := by
      obtain ⟨type, text, line⟩ := name
      obtain ⟨rest⟩ := s
      obtain rfl : type = _ := hname
      obtain rfl : rest = _ := h
      rfl
    have hadvance : advance { s with rest := equals :: (l.tokens ++ next :: after) } =
        .ok () { s with rest := l.tokens ++ next :: after } := by
      obtain ⟨first, tokens, htokens, -⟩ := tokens_eq_cons l
      rw [htokens]
      rfl
    unfold parseAttribute
    rw [bind_ok hexpect, bind_ok (at_of_rest hrest), if_pos (by simpa using hequals),
      bind_ok hadvance, run_bind, hvalue, htext]
    cases hconv : parseIntLiteral l.negative l.text with
    | ok n => rw [convert_ok hconv, convert_ok hconv]; rfl
    | error e => rw [convert_error hconv, convert_error hconv]
  show (parseAttribute >>= _) s = _
  rw [run_bind, hattribute]
  cases hconv : parseIntLiteral l.negative l.text with
  | ok n => rw [convert_ok hconv, convert_ok hconv]; rfl
  | error e => rw [convert_error hconv, convert_error hconv]

theorem parse_eq (h : Stands l next after site s) :
    ∃ line t, site.parse env s = convert l (site.store line) t := by
  cases h with
  | enumerator hattrs hfold hname hequals hrest =>
    exact ⟨_, _, parse_enumerator hattrs hfold hname hequals hrest⟩
  | default hrest => exact ⟨_, _, parse_default hrest⟩
  | minVersion hname htext hequals hrest =>
    exact ⟨_, _, parse_minVersion hname htext hequals hrest⟩



theorem right_of_ok (h : site.parse env s = .ok (m, e) t) :
    Right env site l s ↔
      site.kind.Holds l.written ∧ m = l.written ∧ e.denotes site.kind site.nullable = some l.written := by
  unfold Right
  rw [h]
  constructor
  · rintro ⟨hin, hout⟩
    by_cases hk : site.kind.Holds l.written
    · obtain ⟨e', t', he, hd⟩ := hin hk
      cases he
      exact ⟨hk, rfl, hd⟩
    · obtain ⟨_, _, _, he⟩ := hout hk
      cases he
  · rintro ⟨hk, rfl, hd⟩
    exact ⟨fun _ => ⟨e, t, rfl, hd⟩, fun hn => absurd hk hn⟩

theorem right_of_parseError {msg : String} {line : Nat}
    (h : site.parse env s = .error (.parseError msg line) t) :
    Right env site l s ↔ ¬site.kind.Holds l.written := by
  unfold Right
  rw [h]
  constructor
  · rintro ⟨hin, -⟩ hk
    obtain ⟨_, _, he, -⟩ := hin hk
    cases he
  · intro hn
    exact ⟨fun hk => absurd hk hn, fun _ => ⟨msg, line, t, rfl⟩⟩

theorem not_right_of_outOfRange (h : site.parse env s = .error .outOfRange t) :
    ¬Right env site l s := by
  unfold Right
  rw [h]
  rintro ⟨hin, hout⟩
  by_cases hk : site.kind.Holds l.written
  · obtain ⟨_, _, he, -⟩ := hin hk
    cases he
  · obtain ⟨_, _, _, he⟩ := hout hk
    cases he

/-! ### When it goes well -/

theorem right_enumerator {soFar : List EnumValue}
    (h : (enumerator soFar).parse env s = (enumerator soFar).store 0 (l.written.bmod (2 ^ 64)) t) :
    Right env (enumerator soFar) l s ↔ (enumerator soFar).Good l.written := by
  rw [right_of_ok h]
  constructor
  · rintro ⟨⟨hlo, hhi⟩, -, -⟩
    exact ⟨hlo, Int.lt_of_le_sub_one hhi⟩
  · rintro ⟨hlo, hhi⟩
    have hk : IntKind.int32.Holds l.written := ⟨hlo, Int.le_sub_one_of_lt hhi⟩
    have hmod : l.written.bmod (2 ^ 64) = l.written := by
      rw [Int.bmod_eq_of_le] <;> omega
    have hnarrow : (BitVec.ofInt 32 (l.written.bmod (2 ^ 64))).toInt = l.written := by
      rw [hmod, BitVec.toInt_ofInt, Int.bmod_eq_of_le] <;> omega
    refine ⟨hk, hnarrow, ?_⟩
    rw [hnarrow]
    exact CppInteger.denotes_of_value (CppInteger.value_ofInt (by omega) (by omega)) hk

theorem right_default {kind : IntKind} {nullable : Bool} (hconv : Representable l.written)
    (h : (default kind nullable).parse env s =
      (default kind nullable).store 0 (l.written.bmod (2 ^ 64)) t) :
    Right env (default kind nullable) l s ↔ (default kind nullable).Good l.written := by
  rw [right_of_ok h]
  constructor
  · rintro ⟨hk, -, hdenotes⟩
    refine ⟨hk, Int.ne_of_gt hconv.1, ?_⟩
    rintro ⟨hnull, rfl, hmin⟩
    exact (defaultValueExpr_denotes_uint64 hk).1 hdenotes ⟨hnull, hmin⟩
  · rintro ⟨hk, hmin, hnull⟩
    refine ⟨hk, IntKind.ofInt64_bmod hk, ?_⟩
    by_cases hkind : kind = .uint64
    · subst hkind
      exact (defaultValueExpr_denotes_uint64 hk).2 (fun h => hnull ⟨h.1, rfl, h.2⟩)
    · exact defaultValueExpr_denotes hk hkind hmin

theorem right_minVersion {line : Nat} (hconv : Representable l.written)
    (h : minVersion.parse env s = minVersion.store line (l.written.bmod (2 ^ 64)) t) :
    Right env minVersion l s ↔ minVersion.Good l.written := by
  obtain ⟨hlo, hhi⟩ := hconv
  by_cases hneg : l.written.bmod (2 ^ 64) < 0
  · -- the number is below zero, or its bits are taken for a number that is
    have herr : minVersion.store line (l.written.bmod (2 ^ 64)) t =
        .error (.parseError "'[MinVersion=N]': N must be non-negative" line) t := by
      have hattribute : minVersionAttribute
          { name := "MinVersion", value := .int (l.written.bmod (2 ^ 64)), line } =
          parseError "'[MinVersion=N]': N must be non-negative" line := if_pos hneg
      rw [store, hattribute]
      rfl
    rw [right_of_parseError (h.trans herr)]
    have hrange : l.written < 0 ∨ 2 ^ 63 ≤ l.written := by
      by_contra hn
      rw [Int.bmod_eq_of_le] at hneg <;> omega
    constructor
    · intro _
      show (0 ≤ l.written ∧ _) ∨ _ ∨ _
      omega
    · rintro - ⟨hlow, hhigh⟩
      have hhigh' : l.written ≤ 2 ^ 32 - 1 := hhigh
      have hlow' : 0 ≤ l.written := hlow
      omega
  · have hrange : 0 ≤ l.written ∧ l.written < 2 ^ 63 := by
      rw [Int.bmod_def] at hneg
      split at hneg <;> omega
    have hmod : l.written.bmod (2 ^ 64) = l.written := by
      rw [Int.bmod_eq_of_le] <;> omega
    have hrun : minVersion.store line (l.written.bmod (2 ^ 64)) t =
        .ok ((UInt32.ofNat l.written.toNat).toNat,
          { digits := (UInt32.ofNat l.written.toNat).toNat, suffix := .u }) t := by
      have hattribute : minVersionAttribute
          { name := "MinVersion", value := .int (l.written.bmod (2 ^ 64)), line } =
          pure (UInt32.ofNat (l.written.bmod (2 ^ 64)).toNat) := if_neg hneg
      rw [store, hattribute, hmod]
      rfl
    rw [right_of_ok (h.trans hrun)]
    constructor
    · rintro ⟨⟨-, hhigh⟩, -, -⟩
      exact .inl ⟨hrange.1, Int.lt_of_le_sub_one hhigh⟩
    · intro hgood
      have hhigh : l.written < 2 ^ 32 := by
        rcases hgood with ⟨-, hlt⟩ | ⟨-, hlt⟩ | ⟨hle, -⟩
        · exact hlt
        · omega
        · omega
      have hk : IntKind.uint32.Holds l.written := ⟨hrange.1, Int.le_sub_one_of_lt hhigh⟩
      have hd : ((UInt32.ofNat l.written.toNat).toNat : Int) = l.written := by
        rw [UInt32.toNat_ofNat']
        omega
      have hvalue : CppInteger.value
          { digits := (UInt32.ofNat l.written.toNat).toNat, suffix := .u } =
          some ((UInt32.ofNat l.written.toNat).toNat : Int) :=
        CppInteger.value_unsigned CppSuffix.noConfusion (by omega)
      rw [hd] at hvalue
      exact ⟨hk, hd, CppInteger.denotes_of_value hvalue hk⟩

theorem good_representable {n : Int} (h : site.Good n) : Representable n := by
  unfold Representable
  cases site with
  | enumerator soFar =>
    obtain ⟨hlo, hhi⟩ : -2 ^ 31 ≤ n ∧ n < 2 ^ 31 := h
    omega
  | default kind nullable =>
    obtain ⟨⟨hlo, hhi⟩, hmin, -⟩ := h
    cases kind <;> simp only [IntKind.least, IntKind.most] at hlo hhi <;> omega
  | minVersion =>
    obtain h | h | h : (0 ≤ n ∧ n < 2 ^ 32) ∨ (-2 ^ 63 < n ∧ n < 0) ∨ (2 ^ 63 ≤ n ∧ n < 2 ^ 64) := h
    · omega
    · omega
    · omega

theorem right_iff_good (h : Stands l next after site s) :
    Right env site l s ↔ site.Good l.written := by
  by_cases hconv : Representable l.written
  · have hlit := parseIntLiteral_of_representable hconv
    cases h with
    | enumerator hattrs hfold hname hequals hrest =>
      exact right_enumerator
        ((parse_enumerator hattrs hfold hname hequals hrest).trans (convert_ok hlit))
    | default hrest => exact right_default hconv ((parse_default hrest).trans (convert_ok hlit))
    | minVersion hname htext hequals hrest =>
      exact right_minVersion hconv
        ((parse_minVersion hname htext hequals hrest).trans (convert_ok hlit))
  · obtain ⟨line, t, hparse⟩ : ∃ line t, site.parse env s = convert l (site.store line) t :=
      parse_eq h
    rw [convert_error (parseIntLiteral_of_not_representable hconv)] at hparse
    exact iff_of_false (not_right_of_outOfRange hparse) (fun hgood => hconv (good_representable hgood))

end NumberSite

/-! ### The number after the last one -/

/-- The enumerator that comes next is written without a value. -/
structure Implicit (s u : Parser) : Prop where
  hasAttributes : ∃ attrs t v, parseOptionalAttributes s = .ok attrs t ∧
    attrs.foldlM parseEnumValueAttribute { name := "" } t = .ok v u
  hasName : ∃ name next after, name.type = .name ∧ next.type ≠ .equals ∧
    u.rest = name :: next :: after

/-- It has the number after that of the enumerator before it, the first one has `0`. -/
def Follows (soFar : List EnumValue) (s : Parser) : Prop :=
  ∃ v t, parseEnumValue soFar s = .ok v t ∧
    v.value.toInt = (soFar.getLast?.map (·.value.toInt + 1)).getD 0

/-- There is a number after that of the last enumerator. -/
def HasSuccessor (soFar : List EnumValue) : Prop :=
  ∀ last ∈ soFar.getLast?, last.value.toInt ≠ 2 ^ 31 - 1

theorem toInt_add_one_iff (b : BitVec 32) :
    (b + 1).toInt = b.toInt + 1 ↔ b.toInt ≠ 2 ^ 31 - 1 := by
  have hlo := BitVec.le_toInt b
  have hhi := BitVec.toInt_lt (x := b)
  have hone : (1 : BitVec 32).toInt = 1 := rfl
  rw [BitVec.toInt_add, hone]
  constructor
  · intro hadd hmax
    rw [hmax] at hadd
    exact absurd hadd (by decide)
  · intro hne
    rw [Int.bmod_eq_of_le] <;> omega

theorem parseEnumValue_implicit (soFar : List EnumValue) {s u : Parser} (h : Implicit s u) :
    ∃ v t, parseEnumValue soFar s = .ok v t ∧
      v.value = (soFar.getLast?.map (·.value + 1)).getD 0 := by
  obtain ⟨⟨attrs, t, v, hattrs, hfold⟩, name, next, after, hname, hnext, hrest⟩ := h
  have hname' : expectName "enum value name" u =
      .ok name.text { u with rest := next :: after } := by
    obtain ⟨type, text, line⟩ := name
    obtain ⟨rest⟩ := u
    obtain rfl : type = _ := hname
    obtain rfl : rest = _ := hrest
    rfl
  refine ⟨{ v with name := name.text, value := _ }, { u with rest := next :: after }, ?_, rfl⟩
  unfold parseEnumValue
  rw [bind_ok hattrs, bind_ok hfold, bind_ok hname', bind_ok (at_of_rest rfl),
    if_neg (by simpa using hnext)]
  rfl

theorem follows_iff {soFar : List EnumValue} {s u : Parser} (h : Implicit s u) :
    Follows soFar s ↔ HasSuccessor soFar := by
  obtain ⟨v, t, hrun, hvalue⟩ := parseEnumValue_implicit soFar h
  have hfollows : Follows soFar s ↔
      v.value.toInt = (soFar.getLast?.map (·.value.toInt + 1)).getD 0 := by
    unfold Follows
    rw [hrun]
    constructor
    · rintro ⟨v', t', he, hv⟩
      cases he
      exact hv
    · intro hv
      exact ⟨v, t, rfl, hv⟩
  rw [hfollows, hvalue]
  unfold HasSuccessor
  cases soFar.getLast? with
  | none =>
    refine iff_of_true rfl ?_
    rintro last ⟨⟩
  | some last =>
    show (last.value + 1).toInt = last.value.toInt + 1 ↔ _
    rw [toInt_add_one_iff]
    constructor
    · rintro hne _ ⟨⟩
      exact hne
    · intro hall
      exact hall last rfl

/-! ### Integer literals -/

/-- A file that declares no type and imports none. -/
def aloneEnv : Env := Env.of "m" {} [] {}

/-- `int64 kLeast = -9223372036854775808;`, from the literal on. -/
def leastInt64 : IntLiteral := { negative := true, hex := false, text := "9223372036854775808" }

def afterLiteral (l : IntLiteral) : Parser :=
  { rest := l.tokens ++ [⟨.semi, "", 1⟩, ⟨.end, "", 1⟩] }

end Voodoo.Compiler
