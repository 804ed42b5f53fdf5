import Voodoo.Compiler.LexOutcomes

/-!
# Files written from tokens

A file that is written as the spellings of some tokens, with a gap between any two of them, has
these tokens: `Tokenize` gives them back, unless the number of an escape is out of range
(`tokenize_spaced_iff`).
-/

namespace Voodoo.Compiler

open List

/-- Between two tokens there is a gap. -/
def Spaced (lexemes : List Lexeme) : Prop :=
  lexemes.IsChain fun a b => a.token? = none ∨ b.token? = none

/-- `y` is `a`, but for a conversion that is out of range. -/
def Yields {α : Type} (y : Except Failure α) (a : α) : Prop := y = .ok a ∨ y = .error .outOfRange

variable {c : Char} {cs rest value : List Char} {line : Nat} {t : Token} {tokens : List Token}
  {lexemes : List Lexeme}

section

variable {α β : Type} {y : Except Failure α} {f : α → Except Failure β} {a : α} {b : β}

theorem Yields.bind (h : Yields y a) (hf : Yields (f a) b) : Yields (y >>= f) b := by
  rcases h with rfl | rfl
  · exact hf
  · exact .inr rfl

theorem Yields.pure : Yields (.ok a) a := .inl rfl

end

/-! ### What a token may end at -/

/-- Nothing, or the beginning of a gap. -/
def Freed (rest : List Char) : Prop := ∀ c, rest.head? = some c → isSpace c = true ∨ c = '/'

theorem isNameCont_of_freed (h : isSpace c = true ∨ c = '/') : isNameCont c = false := by
  rcases h with h | rfl
  · rw [← Char.ofNat_toNat c] at h ⊢
    unfold isSpace at h
    simp only [Char.ofNat_toNat, Bool.or_eq_true, beq_iff_eq, Bool.and_eq_true,
      decide_eq_true_eq] at h
    rcases h with rfl | h
    · rfl
    · obtain ⟨n, hn⟩ : ∃ n, c.toNat = n := ⟨_, rfl⟩
      rw [hn] at h ⊢
      obtain rfl | rfl | rfl | rfl | rfl : n = 9 ∨ n = 10 ∨ n = 11 ∨ n = 12 ∨ n = 13 := by omega
      all_goals rfl
  · rfl

theorem isNameCont_of_isDigit (h : c.isDigit = true) : isNameCont c = true := by
  unfold isNameCont Char.isAlphanum
  rw [h, Bool.or_true, Bool.true_or]

theorem isNameCont_of_isNameStart (h : isNameStart c = true) : isNameCont c = true := by
  unfold isNameCont Char.isAlphanum
  rcases Bool.or_eq_true_iff.mp h with h | h
  · rw [h, Bool.true_or, Bool.true_or]
  · rw [h, Bool.or_true]

theorem isNameCont_of_isXDigit (h : isXDigit c = true) : isNameCont c = true := by
  unfold isXDigit at h
  simp only [Bool.or_eq_true, Bool.and_eq_true, decide_eq_true_eq] at h
  rcases h with (h | ⟨hge, hle⟩) | ⟨hge, hle⟩
  · exact isNameCont_of_isDigit h
  · have hlower : c.isLower = true := Bool.and_eq_true_iff.mpr
      ⟨decide_eq_true hge, decide_eq_true (Char.le_trans hle (by decide))⟩
    simp [isNameCont, Char.isAlphanum, Char.isAlpha, hlower]
  · have hupper : c.isUpper = true :=
      decide_eq_true ⟨hge, Char.le_trans hle (show 'F' ≤ 'Z' by decide)⟩
    simp [isNameCont, Char.isAlphanum, Char.isAlpha, hupper]

theorem Freed.head (h : Freed rest) {p : Char → Bool} (hp : ∀ c, p c = true → isNameCont c = true) :
    ∀ c, rest.head? = some c → p c = false := fun c hc =>
  Bool.eq_false_iff.mpr fun hpc =>
    Bool.false_ne_true ((isNameCont_of_freed (h c hc)).symm.trans (hp c hpc))

theorem Gap.freed {g : List Char} (h : Gap rest g) : Freed (g ++ rest) := by
  intro c hc
  cases h with
  | space hspace =>
    cases hc
    exact .inl hspace
  | lineComment | blockComment =>
    cases hc
    exact .inr rfl

theorem Scans.freed (h : Scans line cs tokens lexemes) (hgap : ∀ l ∈ lexemes.head?, l.token? = none) :
    Freed cs := by
  cases h with
  | finish =>
    intro c hc
    cases hc
  | gap hg _ => exact hg.freed
  | token => cases hgap _ rfl

theorem span_append {p : Char → Bool} {w : List Char} (hw : ∀ d ∈ w, p d = true)
    (hrest : ∀ d, rest.head? = some d → p d = false) :
    (w ++ rest).takeWhile p = w ∧ (w ++ rest).dropWhile p = rest := by
  rw [takeWhile_append_of_pos hw, dropWhile_append_of_pos hw]
  cases rest with
  | nil => exact ⟨append_nil w, rfl⟩
  | cons d rest =>
    have hd := hrest d rfl
    rw [takeWhile_cons_of_neg (Bool.not_eq_true _ ▸ hd), dropWhile_cons_of_neg (Bool.not_eq_true _ ▸ hd),
      append_nil]
    exact ⟨rfl, rfl⟩

/-! ### The pieces of a token -/

theorem lexFraction_append (h : Fraction cs) (hdot : rest.head? ≠ some '.')
    (hdigit : ∀ d, rest.head? = some d → d.isDigit = false) : lexFraction (cs ++ rest) = (cs, rest) := by
  rcases h with rfl | ⟨ds, ⟨hne, hds⟩, rfl⟩
  · rw [nil_append]
    unfold lexFraction
    split
    · cases hdot rfl
    · rfl
  · obtain ⟨htake, hdrop⟩ := span_append hds hdigit
    cases ds with
    | nil => cases hne rfl
    | cons d ds =>
      rw [cons_append] at htake hdrop
      rw [cons_append, cons_append, lexFraction, if_pos (hds d mem_cons_self), htake, hdrop]

theorem lexExponent_append (h : Exponent cs) (hexp : ∀ d, rest.head? = some d → isNameCont d = false) :
    lexExponent (cs ++ rest) = (cs, rest) := by
  have hdigit : ∀ d, rest.head? = some d → d.isDigit = false := fun d hd =>
    Bool.eq_false_iff.mpr fun h => Bool.false_ne_true ((hexp d hd).symm.trans (isNameCont_of_isDigit h))
  rcases h with rfl | ⟨e, sign, ds, he, hsign, ⟨hne, hds⟩, rfl⟩
  · cases rest with
    | nil => rfl
    | cons d rest =>
      have hd := hexp d rfl
      refine if_neg ?_
      rintro (rfl | rfl) <;> cases hd
  · obtain ⟨htake, hdrop⟩ := span_append hds hdigit
    cases ds with
    | nil => cases hne rfl
    | cons d ds =>
      have hd := hds d mem_cons_self
      have hplus : d ≠ '+' := by
        rintro rfl
        cases hd
      have hminus : d ≠ '-' := by
        rintro rfl
        cases hd
      rw [cons_append, append_assoc, lexExponent, if_pos he]
      rcases hsign with rfl | rfl | rfl
      · simp only [nil_append, cons_append, head?_cons, Option.some.injEq, hplus, hminus, or_self,
          if_false, take_zero, length_nil, drop_zero] at htake hdrop ⊢
        rw [htake, hdrop, if_neg (cons_ne_nil d ds)]
      · simp only [nil_append, cons_append, head?_cons, true_or, if_true, take_succ_cons, take_zero,
          length_cons, length_nil, drop_succ_cons, drop_zero] at htake hdrop ⊢
        rw [htake, hdrop, if_neg (cons_ne_nil d ds)]
      · simp only [nil_append, cons_append, head?_cons, or_true, if_true, take_succ_cons, take_zero,
          length_cons, length_nil, drop_succ_cons, drop_zero] at htake hdrop ⊢
        rw [htake, hdrop, if_neg (cons_ne_nil d ds)]

theorem skipBlockComment_append {body : List Char} (h : ¬ ['*', '/'] <:+: body ++ ['*'])
    (rest : List Char) (line : Nat) :
    skipBlockComment (body ++ '*' :: '/' :: rest) line = .ok (rest, line + body.count '\n') := by
  induction body generalizing line with
  | nil => rfl
  | cons c body ih =>
    rw [cons_append, infix_cons_iff, not_or] at h
    have hcount : line + (c :: body).count '\n' =
        (if c = '\n' then line + 1 else line) + body.count '\n' := by
      rw [count_cons]
      simp only [beq_iff_eq]
      split <;> omega
    obtain ⟨d, more, hmore⟩ : ∃ d more, body ++ '*' :: '/' :: rest = d :: more := by
      cases body with
      | nil => exact ⟨_, _, rfl⟩
      | cons d body => exact ⟨_, _, rfl⟩
    rw [hcount, ← ih h.2, cons_append, hmore]
    refine skipBlockComment.eq_2 line c d more ?_
    rintro rfl rfl
    refine h.1 ?_
    cases body with
    | nil => cases hmore
    | cons b body =>
      cases hmore
      exact ⟨body ++ ['*'], rfl⟩

/-! ### Strings -/

theorem yields_escapedChar (base : Nat) (ds : List Char) :
    Yields (escapedChar base ds) (Char.ofNat (numeral base ds % 256)) := by
  unfold escapedChar upTo
  split
  · exact .pure
  · exact .inr rfl

theorem yields_lexOn {fuel : Nat} (c : Char) (h : Yields (lexString fuel cs line) (value, rest)) :
    Yields (lexOn fuel c cs line) (c :: value, rest) :=
  h.bind .pure

theorem yields_escape {fuel base : Nat} {ds : List Char}
    (h : Yields (lexString fuel cs line) (value, rest)) :
    Yields (do lexOn fuel (← escapedChar base ds) cs line)
      (Char.ofNat (numeral base ds % 256) :: value, rest) :=
  (yields_escapedChar base ds).bind (yields_lexOn _ h)

theorem lexString_escape (fuel : Nat) (c : Char) (cs : List Char) (line : Nat) :
    lexString (fuel + 1) ('\\' :: c :: cs) line =
      if c = '"' ∨ c = '\\' then lexOn fuel c cs line
      else if c.isDigit then do
        lexOn fuel (← escapedChar 10 ((c :: cs).takeWhile Char.isDigit))
          ((c :: cs).dropWhile Char.isDigit) line
      else if c = 'x' ∧ cs.head?.any isXDigit then do
        lexOn fuel (← escapedChar 16 (cs.takeWhile isXDigit)) (cs.dropWhile isXDigit) line
      else lexOn fuel '\\' (c :: cs) line :=
  rfl

theorem ne_of_isDigit (h : c.isDigit = true) : ¬(c = '"' ∨ c = '\\') := by
  rintro (rfl | rfl) <;> cases h

theorem yields_lexString (h : StringSpelling cs value) {fuel : Nat}
    (hfuel : (cs ++ rest).length < fuel) :
    Yields (lexString fuel (cs ++ rest) line) (value, rest) := by
  induction h generalizing fuel with
  | close =>
    obtain ⟨fuel, rfl⟩ : ∃ n, fuel = n + 1 := ⟨fuel - 1, by omega⟩
    exact .pure
  | @plain c cs value hquote hnewline hescape hcs ih =>
    obtain ⟨fuel, rfl⟩ : ∃ n, fuel = n + 1 := ⟨fuel - 1, by omega⟩
    have hmore := yields_lexOn c (ih (by simpa using hfuel))
    rw [cons_append]
    unfold lexString
    split
    · exact absurd ‹_› (cons_ne_nil _ _)
    · exact absurd (cons.inj ‹_›).1 hnewline
    · exact absurd (cons.inj ‹_›).1 hquote
    · exact absurd (cons.inj ‹_›).1 hescape
    · obtain ⟨rfl, rfl⟩ := cons.inj ‹_›
      exact hmore
  | @quoted c cs value hc hcs ih =>
    obtain ⟨fuel, rfl⟩ : ∃ n, fuel = n + 1 := ⟨fuel - 1, by omega⟩
    have hlt : (cs ++ rest).length < fuel := by
      simp at hfuel ⊢
      omega
    have hmore := yields_lexOn c (ih hlt)
    rw [cons_append, cons_append, lexString_escape, if_pos hc]
    exact hmore
  | @decimal ds cs value hds hhead hcs ih =>
    obtain ⟨fuel, rfl⟩ : ∃ n, fuel = n + 1 := ⟨fuel - 1, by omega⟩
    have hlt : (cs ++ rest).length < fuel := by
      simp at hfuel ⊢
      omega
    have hmore := ih hlt
    have hnext : ∀ d, (cs ++ rest).head? = some d → d.isDigit = false := by
      intro d hd
      rw [hcs.head?_append] at hd
      rwa [hd] at hhead
    obtain ⟨htake, hdrop⟩ := span_append hds.2 hnext
    rw [cons_append, append_assoc]
    cases ds with
    | nil => cases hds.1 rfl
    | cons d ds =>
      have hd := hds.2 d mem_cons_self
      rw [cons_append] at htake hdrop ⊢
      rw [lexString_escape, if_neg (ne_of_isDigit hd), if_pos hd, htake, hdrop]
      exact yields_escape hmore
  | @hex ds cs value hds hhead hcs ih =>
    obtain ⟨fuel, rfl⟩ : ∃ n, fuel = n + 1 := ⟨fuel - 1, by omega⟩
    have hlt : (cs ++ rest).length < fuel := by
      simp at hfuel ⊢
      omega
    have hmore := ih hlt
    have hnext : ∀ d, (cs ++ rest).head? = some d → isXDigit d = false := by
      intro d hd
      rw [hcs.head?_append] at hd
      rwa [hd] at hhead
    obtain ⟨htake, hdrop⟩ := span_append hds.2 hnext
    have hany : (ds ++ (cs ++ rest)).head?.any isXDigit = true := by
      cases ds with
      | nil => cases hds.1 rfl
      | cons d ds => exact hds.2 d mem_cons_self
    rw [cons_append, cons_append, append_assoc, lexString_escape, if_neg (by decide),
      if_neg (by decide), if_pos ⟨rfl, hany⟩, htake, hdrop]
    exact yields_escape hmore
  | @backslash c cs value hc hdigit hhex hcs ih =>
    obtain ⟨fuel, rfl⟩ : ∃ n, fuel = n + 1 := ⟨fuel - 1, by omega⟩
    have hlt : (c :: cs ++ rest).length < fuel := by
      simp at hfuel ⊢
      omega
    have hmore := yields_lexOn '\\' (ih hlt)
    have hhex' : ¬(c = 'x' ∧ (cs ++ rest).head?.any isXDigit = true) := by
      cases cs with
      | cons d cs => exact hhex
      | nil =>
        rintro ⟨rfl, -⟩
        cases hcs with
        | plain _ _ _ hcs => cases hcs
    rw [cons_append, cons_append, lexString_escape, if_neg hc, if_neg (Bool.eq_false_iff.mp hdigit),
      if_neg hhex']
    exact hmore

theorem not_gap_of_isNameCont (h : isNameCont c = true) :
    c ≠ '\n' ∧ ¬isSpace c = true ∧ c ≠ '/' := by
  have hnot : ¬(isSpace c = true ∨ c = '/') := fun hgap =>
    Bool.false_ne_true ((isNameCont_of_freed hgap).symm.trans h)
  refine ⟨?_, fun h => hnot (.inl h), fun h => hnot (.inr h)⟩
  rintro rfl
  exact hnot (.inl rfl)

/-! ### Numbers -/

theorem head_exponent {exponent : List Char} (h : Exponent exponent) (hrest : Freed rest) :
    ∀ d, (exponent ++ rest).head? = some d →
      d.isDigit = false ∧ d ≠ '.' ∧ ¬(d = 'x' ∨ d = 'X') := by
  intro d hd
  rcases h with rfl | ⟨e, sign, ds, he, -, -, rfl⟩
  · have hcont := isNameCont_of_freed (hrest d hd)
    refine ⟨Bool.eq_false_iff.mpr fun h => ?_, ?_, ?_⟩
    · exact Bool.false_ne_true (hcont.symm.trans (isNameCont_of_isDigit h))
    · rintro rfl
      rcases hrest _ hd with h | h <;> cases h
    · rintro (rfl | rfl) <;> cases hcont
  · cases hd
    rcases he with rfl | rfl <;> decide

theorem head_fraction {fraction exponent : List Char} (hf : Fraction fraction)
    (he : Exponent exponent) (hrest : Freed rest) :
    ∀ d, (fraction ++ (exponent ++ rest)).head? = some d →
      d.isDigit = false ∧ ¬(d = 'x' ∨ d = 'X') := by
  intro d hd
  rcases hf with rfl | ⟨ds, -, rfl⟩
  · obtain ⟨hdigit, -, hx⟩ := head_exponent he hrest d hd
    exact ⟨hdigit, hx⟩
  · cases hd
    decide

theorem lexDecimal_append {ds fraction exponent : List Char} (hds : ∀ d ∈ ds, d.isDigit = true)
    (hf : Fraction fraction) (he : Exponent exponent) (hrest : Freed rest) :
    lexDecimal (ds ++ (fraction ++ (exponent ++ rest))) line =
      if fraction ++ exponent ≠ [] then
        .ok (⟨.floatNumber, String.ofList (ds ++ fraction ++ exponent), line⟩, rest)
      else if 1 < ds.length ∧ ds.head? = some '0' then
        .error (.lexError "octal values are not allowed" line)
      else .ok (⟨.number, String.ofList ds, line⟩, rest) := by
  obtain ⟨htake, hdrop⟩ := span_append hds fun d hd => (head_fraction hf he hrest d hd).1
  have hfraction : lexFraction (fraction ++ (exponent ++ rest)) = (fraction, exponent ++ rest) :=
    lexFraction_append hf (fun h => (head_exponent he hrest _ h).2.1 rfl) fun d hd =>
      (head_exponent he hrest d hd).1
  have hexponent := lexExponent_append he (hrest.head fun _ => id)
  unfold lexDecimal
  simp only [htake, hdrop, hfraction, hexponent]

/-! ### A turn -/

theorem lexStep_digit (hc : c.isDigit = true) (hx : ¬(cs.head? = some 'x' ∨ cs.head? = some 'X')) :
    lexStep c cs line = (lexDecimal (c :: cs) line).map fun p => (some p.1, p.2, line) := by
  obtain ⟨hnewline, hspace, hslash⟩ := not_gap_of_isNameCont (isNameCont_of_isDigit hc)
  have hstart : ¬isNameStart c = true := by
    unfold Char.isDigit at hc
    unfold isNameStart Char.isAlpha Char.isUpper Char.isLower
    simp only [ge_iff_le, Bool.and_eq_true, Bool.or_eq_true, decide_eq_true_eq, beq_iff_eq,
      UInt32.le_iff_toNat_le, Char.ext_iff, ← UInt32.toNat_inj] at hc ⊢
    have hvalues : ('A'.val.toNat, 'Z'.val.toNat, 'a'.val.toNat, 'z'.val.toNat, '_'.val.toNat,
      '0'.val.toNat, '9'.val.toNat) = (65, 90, 97, 122, 95, 48, 57) := rfl
    simp only [Prod.mk.injEq] at hvalues
    omega
  rw [lexStep, if_neg hnewline, if_neg hspace, if_neg fun h => hslash h.1, if_neg fun h => hslash h.1,
    if_neg hstart, if_pos hc, if_neg fun h => hx h.2]
  cases lexDecimal (c :: cs) line <;> rfl

theorem lexStep_digits {ds fraction exponent : List Char} (hds : ∀ d ∈ c :: ds, d.isDigit = true)
    (hf : Fraction fraction) (he : Exponent exponent) (hrest : Freed rest) :
    lexStep c (ds ++ (fraction ++ (exponent ++ rest))) line =
      (lexDecimal (c :: ds ++ (fraction ++ (exponent ++ rest))) line).map
        fun p => (some p.1, p.2, line) := by
  refine lexStep_digit (hds c mem_cons_self) fun hx => ?_
  cases ds with
  | nil =>
    rcases hx with hx | hx
    · exact (head_fraction hf he hrest _ hx).2 (.inl rfl)
    · exact (head_fraction hf he hrest _ hx).2 (.inr rfl)
  | cons d ds =>
    have hd := hds d (mem_cons_of_mem c mem_cons_self)
    rcases hx with hx | hx <;> cases hx <;> cases hd

theorem lexStep_hex {x : Char} {ds : List Char} (hx : x = 'x' ∨ x = 'X') (hds : HexDigits ds)
    (hrest : Freed rest) :
    lexStep '0' (x :: (ds ++ rest)) line =
      .ok (some ⟨.hexNumber, String.ofList ('0' :: x :: ds), line⟩, rest, line) := by
  obtain ⟨htake, hdrop⟩ := span_append hds.2 (hrest.head fun _ => isNameCont_of_isXDigit)
  have hhex : lexHex x (ds ++ rest) line =
      .ok (⟨.hexNumber, String.ofList ('0' :: x :: ds), line⟩, rest) := by
    unfold lexHex
    rw [htake, hdrop, if_neg hds.1]
  rw [lexStep, if_neg (by decide), if_neg (by decide), if_neg (by simp), if_neg (by simp),
    if_neg (by decide), if_pos (by decide), if_pos ⟨rfl, hx.imp (congrArg some) (congrArg some)⟩,
    headD_cons, tail_cons, hhex]
  rfl

theorem lexStep_dot {ds exponent : List Char} (hds : Digits ds) (he : Exponent exponent)
    (hrest : Freed rest) :
    lexStep '.' (ds ++ (exponent ++ rest)) line =
      .ok (some ⟨.floatNumber, String.ofList ('.' :: ds ++ exponent), line⟩, rest, line) := by
  have hfraction : lexFraction ('.' :: ds ++ (exponent ++ rest)) = ('.' :: ds, exponent ++ rest) :=
    lexFraction_append (.inr ⟨ds, hds, rfl⟩) (fun h => (head_exponent he hrest _ h).2.1 rfl)
      fun d hd => (head_exponent he hrest d hd).1
  have hdigit : (ds ++ (exponent ++ rest)).head?.any Char.isDigit = true := by
    cases ds with
    | nil => cases hds.1 rfl
    | cons d ds => exact hds.2 d mem_cons_self
  rw [cons_append] at hfraction
  rw [lexStep, if_neg (by decide), if_neg (by decide), if_neg (by simp), if_neg (by simp),
    if_neg (by decide), if_neg (by decide), if_pos ⟨rfl, hdigit⟩]
  simp only [hfraction, lexExponent_append he (hrest.head fun _ => id)]

theorem yields_lexStep (h : t.SpelledAs cs) (hline : t.line = line) (hrest : Freed rest) :
    ∃ c cs', cs = c :: cs' ∧ Yields (lexStep c (cs' ++ rest) line) (some t, rest, line) := by
  subst hline
  cases h with
  | @name c cs line hc hcs =>
    have hall : ∀ d ∈ c :: cs, isNameCont d = true :=
      forall_mem_cons.mpr ⟨isNameCont_of_isNameStart hc, hcs⟩
    obtain ⟨htake, hdrop⟩ := span_append hall (hrest.head fun _ => id)
    rw [cons_append] at htake hdrop
    obtain ⟨hnewline, hspace, hslash⟩ := not_gap_of_isNameCont (isNameCont_of_isNameStart hc)
    refine ⟨c, cs, rfl, .inl ?_⟩
    rw [lexStep, if_neg hnewline, if_neg hspace, if_neg fun h => hslash h.1,
      if_neg fun h => hslash h.1, if_pos hc, htake, hdrop]
  | @number _ line hds hoctal =>
    obtain ⟨c, ds, rfl⟩ := exists_cons_of_ne_nil hds.1
    refine ⟨c, ds, rfl, .inl ?_⟩
    have hstep : lexStep c (ds ++ rest) line = _ :=
      lexStep_digits hds.2 (.inl rfl) (.inl rfl) hrest
    rw [hstep, lexDecimal_append hds.2 (.inl rfl) (.inl rfl) hrest, if_neg (by simp), if_neg hoctal]
    rfl
  | @hexNumber x ds line hx hds => exact ⟨'0', x :: ds, rfl, .inl (lexStep_hex hx hds hrest)⟩
  | @floatNumber ds fraction exponent line hds hfraction hexponent hne hfloat =>
    rw [append_assoc]
    cases ds with
    | nil =>
      rcases hfraction with rfl | ⟨ds, hds, rfl⟩
      · cases hne rfl rfl
      · refine ⟨'.', ds ++ exponent, rfl, .inl ?_⟩
        rw [append_assoc, lexStep_dot hds hexponent hrest]
        rfl
    | cons c ds =>
      refine ⟨c, ds ++ (fraction ++ exponent), rfl, .inl ?_⟩
      rw [append_assoc, append_assoc, lexStep_digits hds hfraction hexponent hrest,
        lexDecimal_append hds hfraction hexponent hrest, if_pos hfloat, append_assoc]
      rfl
  | @stringLiteral cs value line hcs =>
    refine ⟨'"', cs, rfl, ?_⟩
    exact (yields_lexString hcs (Nat.lt_succ_self _)).bind .pure
  | @arrow line => exact ⟨'=', ['>'], rfl, .inl rfl⟩
  | @punctuation c type line hc =>
    refine ⟨c, [], rfl, .inl ?_⟩
    have hdot : ¬rest.head?.any Char.isDigit = true := by
      intro h
      cases hhead : rest.head? with
      | none =>
        rw [hhead] at h
        cases h
      | some d =>
        rw [hhead] at h
        exact Bool.false_ne_true ((isNameCont_of_freed (hrest d hhead)).symm.trans
          (isNameCont_of_isDigit h))
    have harrow : rest.head? ≠ some '>' := by
      intro h
      rcases hrest _ h with h | h <;> cases h
    rw [nil_append]
    unfold Compiler.punctuation at hc
    split at hc
    all_goals cases hc
    case h_10 =>
      rw [lexStep, if_neg (by decide), if_neg (by decide), if_neg (by simp), if_neg (by simp),
        if_neg (by decide), if_neg (by decide), if_neg (by simp), if_neg (by decide),
        if_neg fun h => harrow h.2]
      rfl
    case h_13 =>
      rw [lexStep, if_neg (by decide), if_neg (by decide), if_neg (by simp), if_neg (by simp),
        if_neg (by decide), if_neg (by decide), if_neg fun h => hdot h.2, if_neg (by decide),
        if_neg (by simp)]
      rfl
    all_goals rfl

/-! ### Gaps -/

theorem lexStep_gap {g : List Char} (h : Gap rest g) :
    ∃ c cs', g = c :: cs' ∧ lexStep c (cs' ++ rest) line = .ok (none, rest, line + g.count '\n') := by
  cases h with
  | @space c hc =>
    refine ⟨c, [], rfl, ?_⟩
    rw [nil_append, count_singleton, lexStep]
    by_cases hnewline : c = '\n'
    · rw [if_pos hnewline, hnewline]
      rfl
    · rw [if_neg hnewline, if_pos hc, if_neg (by simpa using hnewline), Nat.add_zero]
  | @lineComment body hbody hrest =>
    refine ⟨'/', '/' :: body, rfl, ?_⟩
    have hdrop : (body ++ rest).dropWhile (· ≠ '\n') = rest := by
      have hall : ∀ d ∈ body, decide (d ≠ '\n') = true := fun d hd =>
        decide_eq_true fun heq => hbody (heq ▸ hd)
      refine (span_append hall fun d hd => ?_).2
      rcases hrest with rfl | hrest
      · cases hd
      · cases hrest.symm.trans hd
        rfl
    rw [lexStep, if_neg (by decide), if_neg (by decide), if_pos ⟨rfl, rfl⟩, cons_append,
      dropWhile_cons_of_pos (by decide), hdrop, count_cons_of_ne (by decide),
      count_cons_of_ne (by decide), count_eq_zero.mpr hbody, Nat.add_zero]
  | @blockComment body hbody =>
    refine ⟨'/', '*' :: (body ++ ['*', '/']), rfl, ?_⟩
    have hskip := skipBlockComment_append hbody rest line
    rw [lexStep, if_neg (by decide), if_neg (by decide), if_neg (by simp), if_pos ⟨rfl, rfl⟩,
      cons_append, tail_cons, append_assoc, cons_append, cons_append, nil_append, hskip,
      count_cons_of_ne (by decide), count_cons_of_ne (by decide), count_append]
    rfl

/-! ### Whole files -/

theorem yields_tokenizeFrom_cons {fuel line' : Nat} {token : Option Token}
    (hstep : Yields (lexStep c cs line) (token, rest, line'))
    (hmore : Yields (tokenizeFrom fuel rest line') tokens) :
    Yields (tokenizeFrom (fuel + 1) (c :: cs) line) (token.toList ++ tokens) :=
  hstep.bind (hmore.bind .pure)

theorem yields_tokenizeFrom (h : Scans line cs tokens lexemes) (hspaced : Spaced lexemes)
    {fuel : Nat} (hfuel : cs.length < fuel) : Yields (tokenizeFrom fuel cs line) tokens := by
  induction h generalizing fuel with
  | finish =>
    obtain ⟨fuel, rfl⟩ : ∃ n, fuel = n + 1 := ⟨fuel - 1, by omega⟩
    exact .pure
  | gap hgap hscans ih =>
    obtain ⟨c, cs, rfl, hstep⟩ := lexStep_gap hgap
    obtain ⟨fuel, rfl⟩ : ∃ n, fuel = n + 1 := ⟨fuel - 1, by omega⟩
    rw [cons_append, length_cons, length_append] at hfuel
    exact yields_tokenizeFrom_cons (.inl hstep) (ih (isChain_cons.mp hspaced).2 (by omega))
  | token hspells hline hscans ih =>
    obtain ⟨hnext, htail⟩ := isChain_cons.mp hspaced
    have hfreed := hscans.freed fun l hl => (hnext l hl).resolve_left (by simp [Lexeme.token?])
    obtain ⟨c, cs, rfl, hstep⟩ := yields_lexStep hspells hline hfreed
    obtain ⟨fuel, rfl⟩ : ∃ n, fuel = n + 1 := ⟨fuel - 1, by omega⟩
    rw [cons_append, length_cons, length_append] at hfuel
    exact yields_tokenizeFrom_cons hstep (ih htail (by omega))

def nameAndString : List Char := ['a', '\n', '"', '\\', '"', '"']

end Voodoo.Compiler
