import Voodoo.Compiler.Spelling

/-!
# Lexemes

The tokenizer cuts a file into the spellings of its tokens and the gaps between them, turn after turn
(`scans_of_tokenizeFrom`).
-/

namespace Voodoo.Compiler

open List

inductive Lexeme where
  | gap (text : List Char)
  | token (t : Token) (spelling : List Char)

namespace Lexeme

def text : Lexeme → List Char
  | gap text => text
  | token _ spelling => spelling

def token? : Lexeme → Option Token
  | gap _ => none
  | token t _ => some t

end Lexeme

def sourceOf (lexemes : List Lexeme) : List Char := lexemes.flatMap Lexeme.text

def tokensOf (lexemes : List Lexeme) : List Token := lexemes.filterMap Lexeme.token?

/-- The tokenizer on what is left of a file, from a line on. -/
inductive Scans : Nat → List Char → List Token → List Lexeme → Prop
  | finish {line : Nat} : Scans line [] [⟨.end, "", line⟩] []
  | gap {line : Nat} {g rest : List Char} {tokens : List Token} {lexemes : List Lexeme} :
      Gap rest g → Scans (line + g.count '\n') rest tokens lexemes →
      Scans line (g ++ rest) tokens (.gap g :: lexemes)
  | token {line : Nat} {t : Token} {spelling rest : List Char} {tokens : List Token}
      {lexemes : List Lexeme} : t.SpelledAs spelling → t.line = line →
      Scans line rest tokens lexemes →
      Scans line (spelling ++ rest) (t :: tokens) (.token t spelling :: lexemes)

variable {line : Nat} {cs : List Char} {tokens : List Token} {lexemes : List Lexeme}

theorem scans_of_tokenizeFrom {fuel : Nat} (h : tokenizeFrom fuel cs line = .ok tokens) :
    ∃ lexemes, Scans line cs tokens lexemes := by
  induction fuel generalizing cs line tokens with
  | zero => cases h
  | succ fuel ih =>
    cases cs with
    | nil =>
      cases h
      exact ⟨[], .finish⟩
    | cons c cs =>
      rw [tokenizeFrom] at h
      cases hstep : lexStep c cs line with
      | error e => rw [hstep] at h; cases h
      | ok p =>
        obtain ⟨token, rest, line'⟩ := p
        rw [hstep] at h
        cases hmore : tokenizeFrom fuel rest line' with
        | error e => simp [bind, Except.bind, hmore] at h
        | ok more =>
          simp only [bind, Except.bind, hmore, pure, Except.pure, Except.ok.injEq] at h
          subst h
          obtain ⟨lexemes, hscans⟩ := ih hmore
          cases taken_of_lexStep hstep with
          | gap hcs hgap hline =>
            subst hline
            rw [hcs]
            exact ⟨_, .gap hgap hscans⟩
          | token hcs hspells hline =>
            rw [hcs]
            exact ⟨_, .token hspells hline hscans⟩

namespace Scans

theorem source (h : Scans line cs tokens lexemes) : sourceOf lexemes = cs := by
  induction h with
  | finish => rfl
  | gap _ _ ih => exact congrArg _ ih
  | token _ _ _ ih => exact congrArg _ ih

theorem spelled (h : Scans line cs tokens lexemes) {t : Token} {spelling : List Char}
    (ht : .token t spelling ∈ lexemes) : t.SpelledAs spelling := by
  induction h with
  | finish => cases ht
  | gap _ _ ih =>
    rcases mem_cons.mp ht with heq | ht
    · cases heq
    · exact ih ht
  | token hspells _ _ ih =>
    rcases mem_cons.mp ht with heq | ht
    · cases heq
      exact hspells
    · exact ih ht

theorem separated (h : Scans line cs tokens lexemes) {before after : List Lexeme} {g : List Char}
    (hsplit : lexemes = before ++ .gap g :: after) : Gap (sourceOf after) g := by
  induction h generalizing before with
  | finish => exact absurd hsplit.symm (append_ne_nil_of_right_ne_nil _ (cons_ne_nil _ _))
  | gap hgap hscans ih =>
    rcases cons_eq_append_iff.mp hsplit with ⟨-, heq⟩ | ⟨before', -, hrest⟩
    · cases heq
      exact hscans.source.symm ▸ hgap
    · exact ih hrest
  | token _ _ _ ih =>
    rcases cons_eq_append_iff.mp hsplit with ⟨-, heq⟩ | ⟨before', -, hrest⟩
    · cases heq
    · exact ih hrest

theorem line_eq (h : Scans line cs tokens lexemes) {before after : List Lexeme} {t : Token}
    {spelling : List Char} (hsplit : lexemes = before ++ .token t spelling :: after) :
    t.line = line + (sourceOf before).count '\n' := by
  induction h generalizing before with
  | finish => exact absurd hsplit.symm (append_ne_nil_of_right_ne_nil _ (cons_ne_nil _ _))
  | gap _ _ ih =>
    rcases cons_eq_append_iff.mp hsplit with ⟨-, heq⟩ | ⟨before', rfl, hrest⟩
    · cases heq
    · rw [ih hrest, sourceOf, sourceOf, flatMap_cons, count_append, Nat.add_assoc]
      rfl
  | token hspells hline _ ih =>
    rcases cons_eq_append_iff.mp hsplit with ⟨rfl, heq⟩ | ⟨before', rfl, hrest⟩
    · cases heq
      exact hline
    · rw [ih hrest, sourceOf, sourceOf, flatMap_cons, count_append, Lexeme.text,
        count_eq_zero.mpr hspells.newline_notMem, Nat.zero_add]

theorem spelledAs (h : Scans line cs tokens lexemes) {t : Token} (ht : t ∈ tokensOf lexemes) :
    ∃ spelling, t.SpelledAs spelling := by
  obtain ⟨lexeme, hmem, htoken⟩ := mem_filterMap.mp ht
  cases lexeme with
  | gap => cases htoken
  | token u spelling =>
    cases htoken
    exact ⟨spelling, h.spelled hmem⟩

theorem ends (h : Scans line cs tokens lexemes) :
    tokens = tokensOf lexemes ++ [⟨.end, "", line + cs.count '\n'⟩] := by
  induction h with
  | finish => rfl
  | gap _ _ ih =>
    rw [count_append, ← Nat.add_assoc]
    exact ih
  | token hspells _ _ ih =>
    rw [count_append, count_eq_zero.mpr hspells.newline_notMem, Nat.zero_add]
    exact congrArg _ ih

end Scans

theorem exists_spelledAs {src : String} (h : tokenize src = .ok tokens) :
    ∃ ts last, tokens = ts ++ [last] ∧ last.type = .end ∧ last.text = "" ∧
      ∀ t ∈ ts, ∃ spelling, t.SpelledAs spelling := by
  obtain ⟨lexemes, hscans⟩ := scans_of_tokenizeFrom h
  exact ⟨_, _, hscans.ends, rfl, rfl, fun _ ht => hscans.spelledAs ht⟩

end Voodoo.Compiler
