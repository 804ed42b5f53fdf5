import Voodoo.Compiler.Files
import Voodoo.Compiler.Outcomes

/-!
# How the scans of a file end

`Tokenize` and the pre-scan of the constructor never want for turns.  The only exception of
theirs that is neither a `LexError` nor a `ParseError` is that of a conversion: `Tokenize`
converts the escapes of a string (`EscapesFit`), the pre-scan the integers an enumerator is
set to.
-/

namespace Voodoo.Compiler

open List

/-! ### Characters -/

/-- An exception that is a `LexError`. -/
def Failure.IsLexError (e : Failure) : Prop := ∃ msg line, e = .lexError msg line

/-- `y` is a value in `Q` or a `LexError` where `fits` holds, and else the exception of a
conversion. -/
def Lexes {α : Type} (fits : Bool) (Q : α → Prop) (y : Except Failure α) : Prop :=
  Ends (fun e => if fits then e.IsLexError else e = .outOfRange) (fun a => fits = true ∧ Q a) y

namespace Lexes

variable {α β : Type} {fits : Bool} {Q : α → Prop} {R : β → Prop} {y : Except Failure α}

theorem ok {a : α} (h : Q a) : Lexes true Q (.ok a) := ⟨rfl, h⟩

theorem lexError {msg : String} {line : Nat} : Lexes true Q (.error (.lexError msg line)) :=
  ⟨msg, line, rfl⟩

theorem map {g : α → β} (h : Lexes fits Q y) (hq : ∀ a, Q a → R (g a)) :
    Lexes fits R (do return g (← y)) := by
  refine Ends.bind h ?_
  rintro a ⟨hfits, ha⟩
  exact ⟨hfits, hq a ha⟩

theorem mono (h : Lexes fits Q y) {Q' : α → Prop} (hq : ∀ a, Q a → Q' a) : Lexes fits Q' y :=
  Ends.mono h (fun _ he => he) fun a ha => ⟨ha.1, hq a ha.2⟩

end Lexes

theorem lexes_skipBlockComment (cs : List Char) (line : Nat) :
    Lexes true (fun p => p.1.length ≤ cs.length) (skipBlockComment cs line) := by
  fun_induction skipBlockComment cs line with
  | case1 cs line =>
    exact Lexes.ok (by
      simp only [length_cons]
      omega)
  | case2 c d cs line _ ih =>
    exact ih.mono fun p hp => hp.trans (Nat.le_succ _)
  | case3 => exact Lexes.lexError

theorem length_dropWhile_le (p : Char → Bool) (cs : List Char) :
    (cs.dropWhile p).length ≤ cs.length := (dropWhile_suffix p).length_le

theorem length_dropWhile_cons {p : Char → Bool} {c : Char} (hc : p c = true) (cs : List Char) :
    ((c :: cs).dropWhile p).length ≤ cs.length := by
  rw [dropWhile_cons_of_pos hc]
  exact length_dropWhile_le p cs

theorem length_lexFraction (cs : List Char) : (lexFraction cs).2.length ≤ cs.length := by
  unfold lexFraction
  split
  · split
    · exact (length_dropWhile_le _ _).trans (Nat.le_succ _)
    · exact le_rfl
  · exact le_rfl

theorem length_lexExponent (cs : List Char) : (lexExponent cs).2.length ≤ cs.length := by
  unfold lexExponent
  split
  · split
    · dsimp only
      generalize List.length (List.take _ _) = k
      split
      · exact le_rfl
      · refine (length_dropWhile_le _ _).trans ?_
        rw [length_drop, length_cons]
        omega
    · exact le_rfl
  · exact le_rfl

theorem lexes_lexHex (x : Char) (cs : List Char) (line : Nat) :
    Lexes true (fun p => p.2.length ≤ cs.length) (lexHex x cs line) := by
  unfold lexHex
  dsimp only
  split
  · exact Lexes.lexError
  · exact Lexes.ok (length_dropWhile_le _ _)

theorem lexes_lexDecimal {c : Char} (hc : c.isDigit = true) (cs : List Char) (line : Nat) :
    Lexes true (fun p => p.2.length ≤ cs.length) (lexDecimal (c :: cs) line) := by
  have h₁ : (lexFraction ((c :: cs).dropWhile Char.isDigit)).2.length ≤ cs.length :=
    (length_lexFraction _).trans (length_dropWhile_cons hc cs)
  have h₂ := (length_lexExponent (lexFraction ((c :: cs).dropWhile Char.isDigit)).2).trans h₁
  unfold lexDecimal
  dsimp only
  split
  · exact Lexes.ok h₂
  · split
    · exact Lexes.lexError
    · exact Lexes.ok h₂

/-! ### Strings -/

/-- Whether the code an escape spells is a `long`. -/
def codeFits (base : Nat) (digits : List Char) : Bool := numeral base digits < 2 ^ 63

theorem lexes_escapedChar (base : Nat) (digits : List Char) :
    Lexes (codeFits base digits) (fun _ => True) (escapedChar base digits) := by
  unfold escapedChar upTo
  by_cases h : numeral base digits < 2 ^ 63
  · have hfits : codeFits base digits = true := decide_eq_true h
    rw [hfits, if_pos (by omega)]
    exact Lexes.ok trivial
  · have hfits : codeFits base digits = false := decide_eq_false h
    rw [hfits, if_neg (by omega)]
    exact (rfl : Failure.outOfRange = .outOfRange)

/-- Whether every escape up to the closing quote of a string can be converted. -/
def stringFits : Nat → List Char → Bool
  | 0, _ => true
  | fuel + 1, cs =>
    match cs with
    | [] | '\n' :: _ => true
    | '"' :: _ => true
    | '\\' :: c :: cs =>
      if c = '"' ∨ c = '\\' then stringFits fuel cs
      else if c.isDigit then
        codeFits 10 ((c :: cs).takeWhile Char.isDigit) &&
          stringFits fuel ((c :: cs).dropWhile Char.isDigit)
      else if c = 'x' ∧ cs.head?.any isXDigit then
        codeFits 16 (cs.takeWhile isXDigit) && stringFits fuel (cs.dropWhile isXDigit)
      else stringFits fuel (c :: cs)
    | _ :: cs => stringFits fuel cs

theorem Lexes.escape {base : Nat} {digits : List Char} {fits : Bool} {n : Nat}
    {y : Except Failure (List Char × List Char)}
    (h : Lexes fits (fun p => p.2.length ≤ n) y) :
    Lexes (codeFits base digits && fits) (fun p => p.2.length ≤ n) (do
      let c ← escapedChar base digits
      let (value, rest) ← y
      return (c :: value, rest)) := by
  have hcode := lexes_escapedChar base digits
  cases hc : escapedChar base digits with
  | ok c =>
    rw [hc] at hcode
    rw [hcode.1, Bool.true_and]
    exact h.map fun _ hp => hp
  | error e =>
    rw [hc] at hcode
    cases hfits : codeFits base digits with
    | true =>
      unfold escapedChar upTo at hc
      rw [if_pos (by
        have hlt : numeral base digits < 2 ^ 63 := of_decide_eq_true hfits
        omega)] at hc
      cases hc
    | false =>
      rw [hfits] at hcode
      exact hcode

theorem stringFits_plain {fuel : Nat} {c : Char} {cs : List Char} (hnewline : c = '\n' → False)
    (hquote : c = '"' → False) (hescape : ∀ d ds, c = '\\' → cs = d :: ds → False) :
    stringFits (fuel + 1) (c :: cs) = stringFits fuel cs := by
  rw [stringFits.eq_def]
  dsimp only
  split
  case h_1 heq => cases heq
  case h_2 heq => exact (hnewline (List.cons.inj heq).1).elim
  case h_3 heq => exact (hquote (List.cons.inj heq).1).elim
  case h_4 heq => exact (hescape _ _ (List.cons.inj heq).1 (List.cons.inj heq).2).elim
  case h_5 heq => rw [(List.cons.inj heq).2]

theorem lexes_lexString (fuel : Nat) (cs : List Char) (line : Nat) (h : cs.length < fuel) :
    Lexes (stringFits fuel cs) (fun p => p.2.length ≤ cs.length) (lexString fuel cs line) := by
  induction fuel generalizing cs with
  | zero => exact absurd h (Nat.not_lt_zero _)
  | succ fuel ih =>
    have hpush (c : Char) {rest : List Char} (hrest : rest.length < cs.length) :
        Lexes (stringFits fuel rest) (fun p => p.2.length ≤ cs.length) (do
          let (value, rest) ← lexString fuel rest line
          return (c :: value, rest)) :=
      (ih rest (by omega)).map fun p hp => hp.trans hrest.le
    unfold lexString
    dsimp only
    split
    · exact Lexes.lexError
    · exact Lexes.lexError
    · exact Lexes.ok (Nat.le_succ _)
    case h_4 c cs =>
      have hc : (c :: cs).length < ('\\' :: c :: cs).length := Nat.lt_succ_self _
      have hcs : cs.length < ('\\' :: c :: cs).length := (Nat.lt_succ_self _).trans hc
      show Lexes (if c = '"' ∨ c = '\\' then _ else if _ then _ else if _ then _ else _) _
        (if c = '"' ∨ c = '\\' then _ else if _ then _ else if _ then _ else _)
      split
      · exact hpush c hcs
      split
      case isTrue hdigit =>
        have hrest := length_dropWhile_cons hdigit cs
        exact Lexes.escape ((ih _ (by omega)).mono fun p hp => (hp.trans hrest).trans hcs.le)
      split
      · have hrest := length_dropWhile_le isXDigit cs
        exact Lexes.escape ((ih _ (by omega)).mono fun p hp => (hp.trans hrest).trans hcs.le)
      · exact hpush _ hc
    case h_5 c cs hnewline hquote hescape =>
      rw [stringFits_plain hnewline hquote hescape]
      exact hpush _ (Nat.lt_succ_self _)

/-! ### The tokenizer -/

/-- Whether the string that starts at `c`, if one does, can be converted. -/
def stepFits (c : Char) (cs : List Char) : Bool := c ≠ '"' || stringFits (cs.length + 1) cs

theorem lexes_lexStep (c : Char) (cs : List Char) (line : Nat) :
    Lexes (stepFits c cs) (fun p => p.2.1.length ≤ cs.length) (lexStep c cs line) := by
  by_cases hquote : c = '"'
  · subst hquote
    have hstep : lexStep '"' cs line = (do
        let (value, rest) ← lexString (cs.length + 1) cs line
        return (some (Token.mk .stringLiteral (String.ofList value) line), rest, line)) := rfl
    have hfits : stepFits '"' cs = stringFits (cs.length + 1) cs := rfl
    rw [hstep, hfits]
    exact (lexes_lexString _ _ _ (Nat.lt_succ_self _)).map fun _ hp => hp
  have hfits : stepFits c cs = true := by
    unfold stepFits
    rw [decide_eq_true hquote, Bool.true_or]
  have htail : cs.tail.length ≤ cs.length := by
    rw [length_tail]
    exact Nat.sub_le _ _
  rw [hfits]
  unfold lexStep
  split
  · exact Lexes.ok le_rfl
  split
  · exact Lexes.ok le_rfl
  split
  · exact Lexes.ok (length_dropWhile_le _ _)
  split
  · exact (lexes_skipBlockComment cs.tail line).map fun p hp => hp.trans htail
  split
  case isTrue hname =>
    have hcont : isNameCont c = true := by
      unfold isNameCont Char.isAlphanum
      unfold isNameStart at hname
      rcases Bool.or_eq_true_iff.mp hname with h | h
      · rw [h, Bool.true_or, Bool.true_or]
      · rw [h, Bool.or_true]
    exact Lexes.ok (length_dropWhile_cons hcont cs)
  split
  case isTrue hdigit =>
    split
    · exact (lexes_lexHex _ _ _).map fun p hp => hp.trans htail
    · exact (lexes_lexDecimal hdigit _ _).map fun p hp => hp
  split
  case isTrue hdot =>
    obtain ⟨rfl, hdigit⟩ := hdot
    refine Lexes.ok ((length_lexExponent _).trans ?_)
    cases cs with
    | nil => cases hdigit
    | cons d cs =>
      have hdigit : d.isDigit = true := hdigit
      have hfraction : (lexFraction ('.' :: d :: cs)).2 = (d :: cs).dropWhile Char.isDigit := by
        rw [lexFraction, if_pos hdigit]
      show (lexFraction ('.' :: d :: cs)).2.length ≤ _
      rw [hfraction]
      exact length_dropWhile_le _ _
  split
  · exact Lexes.ok htail
  split
  · exact Lexes.ok le_rfl
  · exact Lexes.lexError

/-- Whether every escape of every string of the file, as the tokenizer gets to it, can be
converted. -/
def escapesFitFrom : Nat → List Char → Nat → Bool
  | 0, _, _ => true
  | _ + 1, [], _ => true
  | fuel + 1, c :: cs, line =>
    stepFits c cs &&
      match lexStep c cs line with
      | .ok (_, cs, line) => escapesFitFrom fuel cs line
      | .error _ => true

def escapesFit (src : String) : Bool := escapesFitFrom (src.length + 1) src.toList 1

theorem lexes_tokenizeFrom (fuel : Nat) (cs : List Char) (line : Nat) (h : cs.length < fuel) :
    Lexes (escapesFitFrom fuel cs line) (fun _ => True) (tokenizeFrom fuel cs line) := by
  induction fuel generalizing cs line with
  | zero => exact absurd h (Nat.not_lt_zero _)
  | succ fuel ih =>
    cases cs with
    | nil => exact Lexes.ok trivial
    | cons c cs =>
      have hstep := lexes_lexStep c cs line
      unfold tokenizeFrom escapesFitFrom
      cases hlex : lexStep c cs line with
      | error e =>
        rw [hlex] at hstep
        rw [Bool.and_true]
        exact hstep
      | ok p =>
        obtain ⟨token, rest, line'⟩ := p
        rw [hlex] at hstep
        have hrest : rest.length ≤ cs.length := hstep.2
        rw [hstep.1, Bool.true_and]
        refine (ih rest line' ?_).map fun _ _ => trivial
        rw [length_cons] at h
        omega

/-- **`Tokenize` throws nothing but a `LexError` where the escapes can be converted**, and where
one cannot it throws the exception of the conversion. -/
theorem lexes_tokenize (src : String) : Lexes (escapesFit src) (fun _ => True) (tokenize src) := by
  refine lexes_tokenizeFrom _ _ _ ?_
  rw [String.length_toList]
  exact Nat.lt_succ_self _

/-! ### The pre-scan -/

theorem LiteralsFit.fitsSigned {t : Token} {ts us : List Token} {negative : Bool}
    (h : LiteralsFit us) (hus : t :: ts <:+ us)
    (hminus : negative = true → ∃ m : Token, m.type = .minus ∧ m :: t :: ts <:+ us)
    (ht : t.type = .number ∨ t.type = .hexNumber) : FitsSigned (negative, t.text) := by
  have hinteger := integer_eq ht
  have hlt := (h.suffix hus).1.integer
  rw [hinteger] at hlt
  refine ⟨hlt, fun hneg => ?_⟩
  obtain ⟨m, hm, hsuffix⟩ := hminus hneg
  have hlt' : t.integer < 2 ^ 63 := (h.suffix hsuffix).1.negative hm
  rwa [hinteger] at hlt'

/-- What follows the sign of a value. -/
theorem converts_signed (values : List EnumValue) {negative : Bool} {us tokens : List Token}
    (hus : us <:+ tokens)
    (hminus : negative = true → ∃ m : Token, m.type = .minus ∧ m :: us <:+ tokens) :
    Converts (LiteralsFit tokens) (fun p => p.2 <:+ tokens)
      (match us with
      | [] => return (0, [])
      | t :: rest =>
        if t.type = .number ∨ t.type = .hexNumber then
          return (BitVec.ofInt 32 (← parseIntLiteral negative t.text), rest)
        else if t.type = .name then
          return (((values.find? (·.name == t.text)).map (·.value)).getD 0, rest)
        else return (0, us)) := by
  cases us with
  | nil => exact nil_suffix
  | cons t rest =>
    have hrest : rest <:+ tokens := (suffix_cons t rest).trans hus
    dsimp only
    split
    case isTrue ht =>
      refine Ends.bind (converts_parseIntLiteral fun hN => ?_) fun _ _ => hrest
      exact LiteralsFit.fitsSigned hN hus hminus ht
    · split
      · exact hrest
      · exact hus

theorem converts_scanEnumValue (values : List EnumValue) (nextValue : BitVec 32)
    (tokens : List Token) :
    Converts (LiteralsFit tokens) (fun p => p.2 <:+ tokens)
      (scanEnumValue values nextValue tokens) := by
  unfold scanEnumValue
  cases tokens with
  | nil => exact suffix_rfl
  | cons t ts =>
    have hts : ts <:+ t :: ts := suffix_cons t ts
    dsimp only [head?_cons, tail_cons]
    split
    case isFalse => exact suffix_rfl
    generalize hnegative : ts.head?.any (·.type = .minus) = negative
    cases negative with
    | false => exact converts_signed values hts (by rintro ⟨⟩)
    | true =>
      cases ts with
      | nil => cases hnegative
      | cons u us =>
        have hus : us <:+ t :: u :: us := (suffix_cons u us).trans hts
        exact converts_signed values hus fun _ => ⟨u, of_decide_eq_true hnegative, hts⟩

theorem converts_scanEnumBody (fuel : Nat) (values : List EnumValue) (nextValue : BitVec 32)
    (tokens : List Token) (h : tokens.length < fuel) :
    Converts (LiteralsFit tokens) (fun p => p.2 <:+ tokens)
      (scanEnumBody fuel values nextValue tokens) := by
  induction fuel generalizing values nextValue tokens with
  | zero => exact absurd h (Nat.not_lt_zero _)
  | succ fuel ih =>
    -- What is left is scanned with less.
    have hagain (values : List EnumValue) (nextValue : BitVec 32) {us : List Token}
        (hus : us <:+ tokens) (hlength : us.length < tokens.length) :
        Converts (LiteralsFit tokens) (fun p => p.2 <:+ tokens)
          (scanEnumBody fuel values nextValue us) := by
      refine Ends.mono (ih values nextValue us (by omega)) ?_ fun p hp => hp.trans hus
      rintro e ⟨he, hfits⟩
      exact ⟨he, fun hN => hfits (hN.suffix hus)⟩
    cases tokens with
    | nil => exact suffix_rfl
    | cons t ts =>
      have hts : ts <:+ t :: ts := suffix_cons t ts
      unfold scanEnumBody
      split
      case isTrue hbracket =>
        have hdrop : (t :: ts).dropWhile (·.type ≠ .rBracket) = ts.dropWhile (·.type ≠ .rBracket) := by
          rw [dropWhile_cons_of_pos]
          rw [hbracket]
          decide
        have hsuffix : (ts.dropWhile (·.type ≠ .rBracket)).tail <:+ ts :=
          (tail_suffix _).trans (dropWhile_suffix _)
        rw [hdrop]
        exact hagain _ _ (hsuffix.trans hts) (Nat.lt_succ_of_le hsuffix.length_le)
      case isFalse =>
        split
        case isTrue =>
          have hvalue := converts_scanEnumValue values nextValue ts
          refine Ends.bind (Ends.mono hvalue ?_ fun _ hp => hp) ?_
          · rintro e ⟨he, hfits⟩
            exact ⟨he, fun hN => hfits hN.2⟩
          · rintro ⟨value, rest⟩ hrest
            dsimp only
            split
            · refine hagain _ _ (((tail_suffix _).trans hrest).trans hts) ?_
              exact Nat.lt_succ_of_le ((tail_suffix _).trans hrest).length_le
            · exact hrest.trans hts
        case isFalse => exact suffix_rfl

theorem converts_collectEnumValuesFrom (fuel : Nat) (found : StringMap EnumDecl)
    (tokens : List Token) (h : tokens.length < fuel) :
    Converts (LiteralsFit tokens) (fun _ => True) (collectEnumValuesFrom fuel found tokens) := by
  induction fuel generalizing found tokens with
  | zero => exact absurd h (Nat.not_lt_zero _)
  | succ fuel ih =>
    have hagain (found : StringMap EnumDecl) {us : List Token} (hus : us <:+ tokens)
        (hlength : us.length < tokens.length) :
        Converts (LiteralsFit tokens) (fun _ => True) (collectEnumValuesFrom fuel found us) := by
      refine Ends.mono (ih found us (by omega)) ?_ fun _ hp => hp
      rintro e ⟨he, hfits⟩
      exact ⟨he, fun hN => hfits (hN.suffix hus)⟩
    match tokens with
    | [] | [_] => exact trivial
    | t :: u :: ts =>
      have hts : ts <:+ t :: u :: ts := suffix_append [t, u] ts
      have hlength : ts.length < (t :: u :: ts).length := by
        rw [length_cons, length_cons]
        omega
      rw [collectEnumValuesFrom]
      split
      case isTrue =>
        split
        case isTrue hbrace =>
          have hbody : ts.tail.length < ts.length := by
            cases ts with
            | nil => cases hbrace
            | cons v vs => exact Nat.lt_succ_self _
          refine Ends.bind (Ends.mono (converts_scanEnumBody _ [] 0 ts.tail hbody) ?_
            fun _ hp => hp) ?_
          · rintro e ⟨he, hfits⟩
            exact ⟨he, fun hN => hfits (hN.2.2.suffix (tail_suffix ts))⟩
          · rintro ⟨values, rest⟩ hrest
            have hrest : rest <:+ ts := hrest.trans (tail_suffix ts)
            exact hagain _ (hrest.trans hts) (hrest.length_le.trans_lt hlength)
        case isFalse => exact hagain _ hts hlength
      case isFalse => exact hagain found (suffix_cons t _) (Nat.lt_succ_self _)

/-- **Where the literals fit, the constructor of the parser throws nothing.** -/
theorem converts_scan (tokens : List Token) :
    Converts (LiteralsFit tokens) (fun _ => True) (scan tokens) := by
  unfold scan collectEnumValues
  exact Ends.bind (converts_collectEnumValuesFrom _ [] tokens (Nat.lt_succ_self _))
    fun _ _ => trivial

end Voodoo.Compiler
