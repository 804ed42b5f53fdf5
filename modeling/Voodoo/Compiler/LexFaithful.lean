import Voodoo.Compiler.LexOutcomes

/-!
# What the tokenizer makes of a file

A file that `Tokenize` accepts is cut into lexemes, which are the spellings of its tokens and the
gaps between them, and every token has the line it starts on (`LaidOut`).

The line is an `int`.  So this is right for files of fewer than `2 ^ 31 - 1` newlines
(`faithful_iff`); at the next newline the count is past `INT_MAX`.
-/

namespace Voodoo.Compiler

open List

/-- `line` as the `int` it is, the increment of `INT_MAX` going round. -/
def Token.lineInt (t : Token) : Int := (BitVec.ofNat 32 t.line).toInt

/-- The file `src` is cut into `lexemes` as its `tokens` say. -/
structure LaidOut (src : List Char) (tokens : List Token) (lexemes : List Lexeme) : Prop where
  source : sourceOf lexemes = src
  spelled {t : Token} {spelling : List Char} : .token t spelling ∈ lexemes → t.SpelledAs spelling
  separated {before after : List Lexeme} {g : List Char} :
    lexemes = before ++ .gap g :: after → Gap (sourceOf after) g
  line {before after : List Lexeme} {t : Token} {spelling : List Char} :
    lexemes = before ++ .token t spelling :: after →
      t.lineInt = 1 + (sourceOf before).count '\n'
  oneEnd : ∀ t ∈ tokensOf lexemes, t.type ≠ .end
  ends : ∃ t : Token, tokens = tokensOf lexemes ++ [t] ∧ t.type = .end ∧
    t.lineInt = 1 + src.count '\n'

def Faithful (src : String) (tokens : List Token) : Prop :=
  ∃ lexemes, LaidOut src.toList tokens lexemes

variable {cs : List Char} {tokens : List Token} {lexemes : List Lexeme} {src : String}

theorem Token.lineInt_eq {t : Token} (h : t.line < 2 ^ 31) : t.lineInt = t.line := by
  unfold lineInt
  rw [BitVec.toInt_ofNat']
  exact Int.bmod_eq_of_le (by omega) (by omega)

theorem Token.lineInt_lt (t : Token) : t.lineInt < 2 ^ 31 := BitVec.toInt_lt

theorem Scans.laidOut (h : Scans 1 cs tokens lexemes) (hlines : cs.count '\n' < 2 ^ 31 - 1) :
    LaidOut cs tokens lexemes where
  source := h.source
  spelled := h.spelled
  separated := h.separated
  line {before after t spelling} hsplit := by
    have hline := h.line_eq hsplit
    have hle : (sourceOf before).count '\n' ≤ cs.count '\n' := by
      rw [← h.source, hsplit, sourceOf, sourceOf, flatMap_append, count_append]
      exact Nat.le_add_right _ _
    rw [Token.lineInt_eq (by omega), hline]
    exact Int.natCast_add _ _
  oneEnd t ht := by
    obtain ⟨spelling, hspelled⟩ := h.spelledAs ht
    exact hspelled.ne_end
  ends := by
    have hlast : 1 + cs.count '\n' < 2 ^ 31 := by omega
    refine ⟨_, h.ends, rfl, ?_⟩
    rw [Token.lineInt_eq hlast]
    exact Int.natCast_add _ _

/-- The last token is on line `2 ^ 31`, which no `int` is. -/
theorem not_faithful (h : 2 ^ 31 - 1 ≤ src.toList.count '\n') : ¬ Faithful src tokens := by
  rintro ⟨lexemes, hlaid⟩
  obtain ⟨t, -, -, hline⟩ := hlaid.ends
  have hlt := t.lineInt_lt
  omega

/-- **`Tokenize` ends, and where it accepts a file it is faithful to it if and only if its lines can
be counted.** -/
theorem faithful_iff (src : String) : tokenize src ≠ .error .outOfFuel ∧
    ∀ tokens, tokenize src = .ok tokens →
      (Faithful src tokens ↔ src.toList.count '\n' < 2 ^ 31 - 1) := by
  refine ⟨fun hfuel => ?_, fun tokens h => ⟨fun hfaithful => ?_, fun hlines => ?_⟩⟩
  · have hends := lexes_tokenize src
    rw [hfuel] at hends
    cases hfits : escapesFit src with
    | true =>
      rw [hfits] at hends
      obtain ⟨msg, line, heq⟩ := hends
      cases heq
    | false =>
      rw [hfits] at hends
      cases hends
  · exact Nat.lt_of_not_le fun hle => not_faithful hle hfaithful
  · obtain ⟨lexemes, hscans⟩ := scans_of_tokenizeFrom h
    exact ⟨lexemes, hscans.laidOut hlines⟩

theorem tokenizeFrom_newlines (n line : Nat) :
    tokenizeFrom (n + 1) (replicate n '\n') line = .ok [⟨.end, "", line + n⟩] := by
  induction n generalizing line with
  | zero => rfl
  | succ n ih =>
    show (do return Option.none.toList ++ (← tokenizeFrom (n + 1) (replicate n '\n') (line + 1))) = _
    rw [ih, Nat.add_right_comm]
    rfl

theorem not_faithful_newlines :
    ∃ tokens, tokenize (String.ofList (replicate (2 ^ 31 - 1) '\n')) = .ok tokens ∧
      ¬ Faithful (String.ofList (replicate (2 ^ 31 - 1) '\n')) tokens := by
  generalize hn : 2 ^ 31 - 1 = n
  refine ⟨[⟨.end, "", 1 + n⟩], ?_, not_faithful ?_⟩
  · rw [tokenize, String.length_ofList, length_replicate, String.toList_ofList]
    exact tokenizeFrom_newlines n 1
  · rw [String.toList_ofList, count_replicate_self]
    exact hn.le

end Voodoo.Compiler
