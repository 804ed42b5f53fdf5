import Voodoo.Compiler.Lexer
import Voodoo.Lib.CppString

/-!
# String literals

A string literal goes through the lexer, which decodes it, and through
`CppStringLiteral`, which spells it again for C++.  The lexer turns away a line feed
between the quotes, and `CppStringLiteral` counts on there being none in what it
spells.  But a numeric escape decodes to any byte at all, and a carriage return passes
as it is: `Piece.breaksLine` are the ways to write a line break that the lexer lets
through, and a literal means in C++ what it meant in the source if it has none of them
(`cppStringLiteral_iff`).
-/

namespace Voodoo.Compiler

/-- `CppStringLiteral`. -/
def cppStringLiteral (s : List Char) : List Char :=
  '"' :: (s.flatMap (fun c => if c = '\\' ∨ c = '"' then ['\\', c] else [c]) ++ ['"'])

/-! ### What a literal is written with -/

inductive Piece where
  | raw (c : Char)
  /-- An escaped quote or backslash. -/
  | quoted (c : Char)
  | decimal (digits : List Char)
  | hex (digits : List Char)
  /-- A backslash that escapes nothing. -/
  | backslash

namespace Piece

def text : Piece → List Char
  | raw c => [c]
  | quoted c => ['\\', c]
  | decimal digits => '\\' :: digits
  | hex digits => '\\' :: 'x' :: digits
  | backslash => ['\\']

/-- The code of a line feed or a carriage return, as a `char`. -/
def isLineBreak (code : Nat) : Bool := code % 256 = 10 || code % 256 = 13

/-- Whether the piece stands for a character that ends a line. -/
def breaksLine : Piece → Bool
  | raw c => c = '\r'
  | decimal digits => isLineBreak (numeral 10 digits)
  | hex digits => isLineBreak (numeral 16 digits)
  | quoted _ | backslash => false

end Piece

/-- The pieces between the quotes, the opening one already read. -/
def pieces : Nat → List Char → List Piece
  | 0, _ => []
  | fuel + 1, cs =>
    match cs with
    | [] | '"' :: _ => []
    | '\\' :: c :: cs =>
      if c = '"' ∨ c = '\\' then .quoted c :: pieces fuel cs
      else if c.isDigit then
        .decimal ((c :: cs).takeWhile Char.isDigit) ::
          pieces fuel ((c :: cs).dropWhile Char.isDigit)
      else if c = 'x' ∧ cs.head?.any isXDigit then
        .hex (cs.takeWhile isXDigit) :: pieces fuel (cs.dropWhile isXDigit)
      else .backslash :: pieces fuel (c :: cs)
    | c :: cs => .raw c :: pieces fuel cs

/-! ### One character of a literal -/

/-- Lexing on after a character. -/
def lexOn (fuel : Nat) (c : Char) (rest : List Char) (line : Nat) :
    Except Failure (List Char × List Char) := do
  let (value, rest) ← lexString fuel rest line
  return (c :: value, rest)

theorem lexOn_ok {fuel line : Nat} {c : Char} {cs value rest : List Char}
    (h : lexOn fuel c cs line = .ok (value, rest)) :
    ∃ more, lexString fuel cs line = .ok (more, rest) ∧ value = c :: more := by
  unfold lexOn at h
  cases hl : lexString fuel cs line with
  | error e => rw [hl] at h; cases h
  | ok r =>
    obtain ⟨more, rest'⟩ := r
    rw [hl] at h
    cases h
    exact ⟨more, rfl, rfl⟩

theorem escapedChar_ok {base : Nat} {digits : List Char} {c : Char}
    (h : escapedChar base digits = .ok c) : c = Char.ofNat (numeral base digits % 256) := by
  unfold escapedChar upTo at h
  split at h
  · cases h
    rfl
  · cases h

theorem escape_ok {fuel line base : Nat} {digits cs value rest : List Char}
    (h : (do lexOn fuel (← escapedChar base digits) cs line) = .ok (value, rest)) :
    ∃ more, lexString fuel cs line = .ok (more, rest) ∧
      value = Char.ofNat (numeral base digits % 256) :: more := by
  cases he : escapedChar base digits with
  | error e => rw [he] at h; cases h
  | ok c =>
    rw [he] at h
    exact escapedChar_ok he ▸ lexOn_ok h

/-- What the lexer takes off a literal that goes on: a piece, the character it stands for, and the
rest of the literal. -/
structure Takes (fuel line : Nat) (cs value rest : List Char) (p : Piece) (c : Char)
    (left more : List Char) : Prop where
  text : cs = p.text ++ left
  pieces : pieces (fuel + 1) cs = p :: Compiler.pieces fuel left
  lexed : lexString fuel left line = .ok (more, rest)
  value : value = c :: more
  breaks : (c = '\n' ∨ c = '\r') ↔ p.breaksLine = true

theorem toNat_ofNat_of_lt {b : Nat} (h : b < 256) : (Char.ofNat b).toNat = b := by
  have hvalid : b.isValidChar := Or.inl (by omega)
  unfold Char.ofNat
  rw [dif_pos hvalid]
  rfl

theorem isLineBreak_iff {code : Nat} :
    (Char.ofNat (code % 256) = '\n' ∨ Char.ofNat (code % 256) = '\r') ↔
      Piece.isLineBreak code = true := by
  have hnat : (Char.ofNat (code % 256)).toNat = code % 256 :=
    toNat_ofNat_of_lt (Nat.mod_lt _ (by decide))
  unfold Piece.isLineBreak
  rw [Bool.or_eq_true, decide_eq_true_eq, decide_eq_true_eq]
  constructor
  · rintro (h | h)
    · rw [h] at hnat
      exact Or.inl hnat.symm
    · rw [h] at hnat
      exact Or.inr hnat.symm
  · rintro (h | h)
    · rw [h]
      exact Or.inl rfl
    · rw [h]
      exact Or.inr rfl

/-- A literal ends, or a piece is taken off it. -/
theorem lexString_cases {fuel line : Nat} {cs value rest : List Char}
    (h : lexString (fuel + 1) cs line = .ok (value, rest)) :
    (cs = '"' :: rest ∧ value = []) ∨
      ∃ p c left more, Takes fuel line cs value rest p c left more := by
  unfold lexString at h
  split at h
  · cases h
  · cases h
  · next cs =>
    cases h
    exact Or.inl ⟨rfl, rfl⟩
  · next c cs =>
    right
    by_cases hq : c = '"' ∨ c = '\\'
    · rw [if_pos hq] at h
      obtain ⟨more, hmore, rfl⟩ := lexOn_ok h
      refine ⟨.quoted c, c, cs, more, rfl, ?_, hmore, rfl, ?_⟩
      · rw [pieces, if_pos hq]
      · rcases hq with rfl | rfl <;> decide
    rw [if_neg hq] at h
    by_cases hd : c.isDigit
    · rw [if_pos hd] at h
      obtain ⟨more, hmore, rfl⟩ := escape_ok h
      have hdigits : (c :: cs).takeWhile Char.isDigit ++ (c :: cs).dropWhile Char.isDigit = c :: cs :=
        List.takeWhile_append_dropWhile
      refine ⟨.decimal ((c :: cs).takeWhile Char.isDigit), _, (c :: cs).dropWhile Char.isDigit, more,
        ?_, ?_, hmore, rfl, isLineBreak_iff⟩
      · show '\\' :: c :: cs = '\\' :: (_ ++ _)
        rw [hdigits]
      · rw [pieces, if_neg hq, if_pos hd]
    rw [if_neg hd] at h
    by_cases hx : c = 'x' ∧ cs.head?.any isXDigit
    · rw [if_pos hx] at h
      obtain ⟨more, hmore, rfl⟩ := escape_ok h
      refine ⟨.hex (cs.takeWhile isXDigit), _, cs.dropWhile isXDigit, more, ?_, ?_, hmore, rfl,
        isLineBreak_iff⟩
      · show '\\' :: c :: cs = '\\' :: 'x' :: (_ ++ _)
        rw [List.takeWhile_append_dropWhile, hx.1]
      · rw [pieces, if_neg hq, if_neg hd, if_pos hx]
    · rw [if_neg hx] at h
      obtain ⟨more, hmore, rfl⟩ := lexOn_ok h
      refine ⟨.backslash, '\\', c :: cs, more, rfl, ?_, hmore, rfl, by decide⟩
      rw [pieces, if_neg hq, if_neg hd, if_neg hx]
  · next c cs hn hq hb =>
    right
    obtain ⟨more, hmore, rfl⟩ := lexOn_ok h
    refine ⟨.raw c, c, cs, more, rfl, ?_, hmore, rfl, ?_⟩
    · rw [pieces]
      · exact hq
      · exact hb
    · have hne : c ≠ '\n' := fun e => hn e
      show c = '\n' ∨ c = '\r' ↔ decide (c = '\r') = true
      rw [decide_eq_true_eq]
      exact or_iff_right hne

/-! ### Whole literals -/

theorem value_breaksLine_iff {fuel line : Nat} {cs value rest : List Char}
    (h : lexString fuel cs line = .ok (value, rest)) :
    ('\n' ∈ value ∨ '\r' ∈ value) ↔ ∃ p ∈ pieces fuel cs, p.breaksLine = true := by
  induction fuel generalizing cs value with
  | zero => cases h
  | succ fuel ih =>
    rcases lexString_cases h with ⟨rfl, rfl⟩ | ⟨p, c, left, more, ht⟩
    · simp [pieces]
    · rw [ht.pieces, ht.value, List.exists_mem_cons_iff, ← ih ht.lexed, ← ht.breaks]
      simp only [List.mem_cons, eq_comm]
      tauto

/-- **When a string literal means in C++ what it means in the source.** -/
theorem cppStringLiteral_iff {cs value rest : List Char} {line : Nat}
    (h : lexString (cs.length + 1) cs line = .ok (value, rest)) :
    CppString.denotes (cppStringLiteral value) = some value ↔
      ∀ p ∈ pieces (cs.length + 1) cs, p.breaksLine = false := by
  have hquote : cppStringLiteral value = CppString.quote value := rfl
  rw [hquote, CppString.denotes_quote_iff, ← not_or, value_breaksLine_iff h]
  simp only [not_exists, not_and, Bool.not_eq_true]

theorem cppStringLiteral_iff_escapes :
    CppString.denotes (cppStringLiteral "a\"A".toList) = some "a\"A".toList ↔
      ∀ p ∈ pieces 10 "a\\\"\\x41\";".toList, p.breaksLine = false := by
  have h : lexString ("a\\\"\\x41\";".toList.length + 1) "a\\\"\\x41\";".toList 1 =
      .ok ("a\"A".toList, ";".toList) := by decide
  exact cppStringLiteral_iff h

/-- The literal `"\10"` decodes to a line feed, which no C++ literal has between its quotes. -/
theorem not_cppStringLiteral_lineFeed :
    lexString 5 "\\10\"".toList 1 = .ok (['\n'], []) ∧
      CppString.denotes (cppStringLiteral ['\n']) ≠ some ['\n'] := by
  decide

end Voodoo.Compiler
