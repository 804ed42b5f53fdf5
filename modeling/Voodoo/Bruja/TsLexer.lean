import Voodoo.Lib.Utf

/-!
# The TypeScript lexer

`TokenizeTs`, which the Go++ backend reads a `.ts` file with: on the bytes of the file, one token or
one piece of blank or comment at a time.
-/

namespace Voodoo.Bruja.Goxx

open Utf List

abbrev Bytes := List UInt8

def ascii (s : String) : Bytes := utf8 s.toList

inductive TsTok where
  | ident | number | string | endOfFile
  | lParen | rParen | lBrace | rBrace | lBrack | rBrack
  | comma | semi | colon | dot | question | bang | plus | minus | star | slash | percent
  | eq | eqEq | eqEqEq | notEq | notEqEq | lt | gt | le | ge | andAnd | orOr
  | plusPlus | minusMinus | plusEq | minusEq | starEq | slashEq | arrow | ellipsis | amp | pipe
  deriving DecidableEq

structure TsToken where
  type : TsTok
  text : Bytes := []
  line : Nat
  deriving DecidableEq

structure TsLexError where
  msg : Bytes
  line : Nat
  deriving DecidableEq

def isIdentStart (c : UInt8) : Bool :=
  (byte 'a' ≤ c && c ≤ byte 'z') || (byte 'A' ≤ c && c ≤ byte 'Z') || c == byte '_' || c == byte '$'

def isDigit (c : UInt8) : Bool := byte '0' ≤ c && c ≤ byte '9'

def isIdentCont (c : UInt8) : Bool := isIdentStart c || isDigit c

/-! ### Tokens -/

/-- From behind the opening of a block comment to behind its end, with the line there. -/
def blockComment : Nat → Bytes → Option (Nat × Bytes)
  | line, a :: b :: rest =>
    if a = byte '*' ∧ b = byte '/' then some (line, rest)
    else blockComment (if a = byte '\n' then line + 1 else line) (b :: rest)
  | _, _ => none

def unescape (e : UInt8) : UInt8 :=
  if e = byte 'n' then byte '\n' else if e = byte 't' then byte '\t'
  else if e = byte 'r' then byte '\r' else e

/-- From behind the opening quote: the value, and what is left behind the closing quote. -/
def stringLiteral (quote : UInt8) : Bytes → Option (Bytes × Bytes)
  | [] => none
  | c :: cs =>
    if c = quote then some ([], cs)
    else if c = byte '\n' then none
    else if c = byte '\\' then
      match cs with
      | e :: cs => (stringLiteral quote cs).map fun r => (unescape e :: r.1, r.2)
      | [] => none
    else (stringLiteral quote cs).map fun r => (c :: r.1, r.2)

section

variable {quote c : UInt8} {cs : Bytes}

theorem stringLiteral_quote : stringLiteral quote (quote :: cs) = some ([], cs) := by
  rw [stringLiteral.eq_def]
  exact if_pos rfl

theorem stringLiteral_newline (h : byte '\n' ≠ quote) :
    stringLiteral quote (byte '\n' :: cs) = none := by
  rw [stringLiteral.eq_def]
  exact (if_neg h).trans (if_pos rfl)

theorem stringLiteral_char (hq : c ≠ quote) (hn : c ≠ byte '\n') (hb : c ≠ byte '\\') :
    stringLiteral quote (c :: cs) = (stringLiteral quote cs).map fun r => (c :: r.1, r.2) := by
  rw [stringLiteral.eq_def]
  exact (if_neg hq).trans ((if_neg hn).trans (if_neg hb))

end

/-- Digits, and a point with more digits behind it. -/
def number (cs : Bytes) : Bytes × Bytes :=
  match cs.dropWhile isDigit with
  | p :: d :: rest =>
    if p = byte '.' ∧ isDigit d then
      (cs.takeWhile isDigit ++ p :: (d :: rest).takeWhile isDigit, (d :: rest).dropWhile isDigit)
    else (cs.takeWhile isDigit, p :: d :: rest)
  | rest => (cs.takeWhile isDigit, rest)

/-- The operators, in the order in which they are tried. -/
def operators : List (String × TsTok) :=
  [("...", .ellipsis), ("=>", .arrow), ("===", .eqEqEq), ("!==", .notEqEq), ("==", .eqEq),
    ("!=", .notEq), ("<=", .le), (">=", .ge), ("&&", .andAnd), ("||", .orOr), ("++", .plusPlus),
    ("--", .minusMinus), ("+=", .plusEq), ("-=", .minusEq), ("*=", .starEq), ("/=", .slashEq),
    ("(", .lParen), (")", .rParen), ("\x7b", .lBrace), ("\x7d", .rBrace), ("[", .lBrack),
    ("]", .rBrack), (",", .comma), (";", .semi), (":", .colon), (".", .dot), ("?", .question),
    ("!", .bang), ("+", .plus), ("-", .minus), ("*", .star), ("/", .slash), ("%", .percent),
    ("=", .eq), ("<", .lt), (">", .gt), ("&", .amp), ("|", .pipe)]

/-- One turn at the character `c`: a token or none, the line, and what is left. -/
def lexOne (line : Nat) (c : UInt8) (cs : Bytes) :
    Except TsLexError (Option TsToken × Nat × Bytes) :=
  if c = byte '\n' then .ok (none, line + 1, cs)
  else if c = byte ' ' ∨ c = byte '\t' ∨ c = byte '\r' then .ok (none, line, cs)
  else if c = byte '/' ∧ cs.head? = some (byte '/') then
    .ok (none, line, cs.dropWhile (· ≠ byte '\n'))
  else if c = byte '/' ∧ cs.head? = some (byte '*') then
    match blockComment line cs.tail with
    | some (line', rest) => .ok (none, line', rest)
    | none => .error ⟨ascii "unterminated block comment", line⟩
  else if isIdentStart c then
    .ok (some ⟨.ident, c :: cs.takeWhile isIdentCont, line⟩, line, cs.dropWhile isIdentCont)
  else if c = byte '"' ∨ c = byte '\'' then
    match stringLiteral c cs with
    | some (value, rest) => .ok (some ⟨.string, value, line⟩, line, rest)
    | none => .error ⟨ascii "unterminated string literal", line⟩
  else if isDigit c then
    .ok (some ⟨.number, (number (c :: cs)).1, line⟩, line, (number (c :: cs)).2)
  else
    match operators.find? fun p => (ascii p.1).isPrefixOf (c :: cs) with
    | some p => .ok (some ⟨p.2, [], line⟩, line, (c :: cs).drop p.1.length)
    | none => .error ⟨ascii "unexpected character '" ++ [c] ++ ascii "'", line⟩

theorem blockComment_length {line line' : Nat} {cs rest : Bytes}
    (h : blockComment line cs = some (line', rest)) : rest.length ≤ cs.length := by
  fun_induction blockComment line cs with
  | case1 line a b more hend =>
    cases h
    simp only [length_cons]
    omega
  | case2 line a b more hend ih =>
    have := ih h
    rw [length_cons]
    omega
  | case3 => cases h

theorem stringLiteral_length {quote : UInt8} {cs value rest : Bytes}
    (h : stringLiteral quote cs = some (value, rest)) : rest.length < cs.length := by
  fun_induction stringLiteral quote cs generalizing value with
  | case1 => cases h
  | case2 cs =>
    cases h
    exact Nat.lt_succ_self _
  | case3 => cases h
  | case4 e cs hq hn ih =>
    obtain ⟨⟨v, r⟩, hr, h⟩ := Option.map_eq_some_iff.mp h
    cases h
    have hlt := ih hr
    simp only [length_cons] at hlt ⊢
    exact Nat.lt_succ_of_lt (Nat.lt_succ_of_lt hlt)
  | case5 => cases h
  | case6 c cs hq hn hb ih =>
    obtain ⟨⟨v, r⟩, hr, h⟩ := Option.map_eq_some_iff.mp h
    cases h
    have := ih hr
    rw [length_cons]
    omega

theorem number_length {c : UInt8} {cs : Bytes} (h : isDigit c) :
    (number (c :: cs)).2.length ≤ cs.length := by
  have hdrop : ((c :: cs).dropWhile isDigit).length ≤ cs.length := by
    rw [dropWhile_cons_of_pos h]
    exact IsSuffix.length_le (dropWhile_suffix _)
  unfold number
  split
  · next p d rest heq =>
    rw [heq] at hdrop
    split
    · have := (dropWhile_suffix (l := d :: rest) isDigit).length_le
      simp only [length_cons] at this hdrop ⊢
      omega
    · exact hdrop
  · exact hdrop

theorem operators_length : ∀ p ∈ operators, 0 < p.1.length := by decide

theorem lexOne_length {line line' : Nat} {c : UInt8} {cs rest : Bytes} {token : Option TsToken}
    (h : lexOne line c cs = .ok (token, line', rest)) : rest.length ≤ cs.length := by
  unfold lexOne at h
  split at h
  · cases h
    exact Nat.le_refl _
  split at h
  · cases h
    exact Nat.le_refl _
  split at h
  · cases h
    exact (dropWhile_suffix _).length_le
  split at h
  · split at h
    · cases h
      next hcomment =>
        exact Nat.le_trans (blockComment_length hcomment) (tail_suffix cs).length_le
    · cases h
  split at h
  · cases h
    exact (dropWhile_suffix _).length_le
  split at h
  · split at h
    · cases h
      next hstring => exact Nat.le_of_lt (stringLiteral_length hstring)
    · cases h
  split at h
  · cases h
    exact number_length ‹_›
  split at h
  · next p hp =>
    cases h
    have := operators_length p (mem_of_find?_eq_some hp)
    rw [length_drop, length_cons]
    omega
  · cases h

/-- The tokens from a place on. -/
def tokenizeFrom (line : Nat) (source : Bytes) : Except TsLexError (List TsToken) :=
  match source with
  | [] => .ok [⟨.endOfFile, [], line⟩]
  | c :: cs =>
    match _h : lexOne line c cs with
    | .error e => .error e
    | .ok (token, line', rest) => (tokenizeFrom line' rest).map (token.toList ++ ·)
termination_by source.length
decreasing_by exact Nat.lt_succ_of_le (lexOne_length _h)

theorem tokenizeFrom_nil (line : Nat) : tokenizeFrom line [] = .ok [⟨.endOfFile, [], line⟩] := by
  rw [tokenizeFrom]

theorem tokenizeFrom_error {line : Nat} {c : UInt8} {cs : Bytes} {e : TsLexError}
    (h : lexOne line c cs = .error e) : tokenizeFrom line (c :: cs) = .error e := by
  rw [tokenizeFrom]
  split
  · next heq => exact congrArg Except.error (Except.error.inj (heq.symm.trans h))
  · next heq => exact nomatch heq.symm.trans h

theorem tokenizeFrom_ok {line line' : Nat} {c : UInt8} {cs rest : Bytes} {token : Option TsToken}
    (h : lexOne line c cs = .ok (token, line', rest)) :
    tokenizeFrom line (c :: cs) = (tokenizeFrom line' rest).map (token.toList ++ ·) := by
  rw [tokenizeFrom]
  split
  · next heq => exact nomatch heq.symm.trans h
  · next heq =>
    cases heq.symm.trans h
    rfl

def tokenizeTs (source : Bytes) : Except TsLexError (List TsToken) := tokenizeFrom 1 source

/-! ### `End` is the last token, and only the last -/

theorem operators_not_end : ∀ p ∈ operators, p.2 ≠ .endOfFile := by decide

theorem lexOne_not_end {line line' : Nat} {c : UInt8} {cs rest : Bytes} {t : TsToken}
    (h : lexOne line c cs = .ok (some t, line', rest)) : t.type ≠ .endOfFile := by
  unfold lexOne at h
  split at h
  · cases h
  split at h
  · cases h
  split at h
  · cases h
  split at h
  · split at h <;> cases h
  split at h
  · cases h
    exact nofun
  split at h
  · split at h
    · cases h
      exact nofun
    · cases h
  split at h
  · cases h
    exact nofun
  split at h
  · next p hp =>
    cases h
    exact operators_not_end p (mem_of_find?_eq_some hp)
  · cases h

/-- A list of tokens that `TokenizeTs` returns. -/
def Ended (tokens : List TsToken) : Prop :=
  ∃ more line, tokens = more ++ [⟨.endOfFile, [], line⟩] ∧ ∀ t ∈ more, t.type ≠ .endOfFile

theorem ended_of_tokenizeFrom {line : Nat} {source : Bytes} {tokens : List TsToken}
    (h : tokenizeFrom line source = .ok tokens) : Ended tokens := by
  fun_induction tokenizeFrom line source generalizing tokens with
  | case1 line =>
    cases h
    exact ⟨[], line, rfl, fun _ ht => absurd ht not_mem_nil⟩
  | case2 => cases h
  | case3 line c cs token line' rest hone ih =>
    cases hrest : tokenizeFrom line' rest with
    | error e =>
      rw [hrest] at h
      cases h
    | ok rest =>
      rw [hrest] at h
      cases h
      obtain ⟨more, last, rfl, hmore⟩ := ih hrest
      refine ⟨token.toList ++ more, last, (List.append_assoc _ _ _).symm, fun t ht => ?_⟩
      rcases mem_append.mp ht with ht | ht
      · rw [Option.mem_toList] at ht
        cases ht
        exact lexOne_not_end hone
      · exact hmore t ht

theorem ended_of_tokenizeTs {source : Bytes} {tokens : List TsToken}
    (h : tokenizeTs source = .ok tokens) : Ended tokens := ended_of_tokenizeFrom h

end Voodoo.Bruja.Goxx
