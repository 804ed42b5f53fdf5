import Mathlib.Data.List.TakeWhile
import Mathlib.Data.List.Infix
import Voodoo.Compiler.StringLiterals

/-!
# How tokens are spelled

The lexical grammar of `.voodoom`: what a token is written as (`Token.SpelledAs`) and what may stand between
two (`Gap`).

One turn of the loop of `Tokenize` takes a gap or the spelling of a token off the source, and counts
the newlines in it (`taken_of_lexStep`).
-/

namespace Voodoo.Compiler

open List

/-! ### The grammar -/

def Digits (ds : List Char) : Prop := ds ≠ [] ∧ ∀ d ∈ ds, d.isDigit = true

def HexDigits (ds : List Char) : Prop := ds ≠ [] ∧ ∀ d ∈ ds, isXDigit d = true

def Fraction (cs : List Char) : Prop := cs = [] ∨ ∃ ds, Digits ds ∧ cs = '.' :: ds

def Exponent (cs : List Char) : Prop :=
  cs = [] ∨ ∃ e sign ds, (e = 'e' ∨ e = 'E') ∧ (sign = [] ∨ sign = ['+'] ∨ sign = ['-']) ∧
    Digits ds ∧ cs = e :: (sign ++ ds)

/-- What a string is written as behind its opening quote, and what it stands for.  An escape takes all
the digits there are. -/
inductive StringSpelling : List Char → List Char → Prop
  | close : StringSpelling ['"'] []
  | plain {c : Char} {cs value : List Char} : c ≠ '"' → c ≠ '\n' → c ≠ '\\' →
      StringSpelling cs value → StringSpelling (c :: cs) (c :: value)
  | quoted {c : Char} {cs value : List Char} : c = '"' ∨ c = '\\' →
      StringSpelling cs value → StringSpelling ('\\' :: c :: cs) (c :: value)
  | decimal {ds cs value : List Char} : Digits ds → cs.head?.any Char.isDigit = false →
      StringSpelling cs value →
      StringSpelling ('\\' :: (ds ++ cs)) (Char.ofNat (numeral 10 ds % 256) :: value)
  | hex {ds cs value : List Char} : HexDigits ds → cs.head?.any isXDigit = false →
      StringSpelling cs value →
      StringSpelling ('\\' :: 'x' :: (ds ++ cs)) (Char.ofNat (numeral 16 ds % 256) :: value)
  | backslash {c : Char} {cs value : List Char} : ¬ (c = '"' ∨ c = '\\') → c.isDigit = false →
      ¬ (c = 'x' ∧ cs.head?.any isXDigit = true) → StringSpelling (c :: cs) value →
      StringSpelling ('\\' :: c :: cs) ('\\' :: value)

inductive Token.SpelledAs : Token → List Char → Prop
  | name {c : Char} {cs : List Char} {line : Nat} : isNameStart c = true →
      (∀ d ∈ cs, isNameCont d = true) → Token.SpelledAs ⟨.name, String.ofList (c :: cs), line⟩ (c :: cs)
  | number {ds : List Char} {line : Nat} : Digits ds →
      ¬ (1 < ds.length ∧ ds.head? = some '0') → Token.SpelledAs ⟨.number, String.ofList ds, line⟩ ds
  | hexNumber {x : Char} {ds : List Char} {line : Nat} : x = 'x' ∨ x = 'X' → HexDigits ds →
      Token.SpelledAs ⟨.hexNumber, String.ofList ('0' :: x :: ds), line⟩ ('0' :: x :: ds)
  | floatNumber {ds fraction exponent : List Char} {line : Nat} : (∀ d ∈ ds, d.isDigit = true) →
      Fraction fraction → Exponent exponent → (ds = [] → fraction ≠ []) →
      fraction ++ exponent ≠ [] →
      Token.SpelledAs ⟨.floatNumber, String.ofList (ds ++ fraction ++ exponent), line⟩
        (ds ++ fraction ++ exponent)
  | stringLiteral {cs value : List Char} {line : Nat} : StringSpelling cs value →
      Token.SpelledAs ⟨.stringLiteral, String.ofList value, line⟩ ('"' :: cs)
  | arrow {line : Nat} : Token.SpelledAs ⟨.arrow, "", line⟩ ['=', '>']
  | punctuation {c : Char} {type : TokenType} {line : Nat} : punctuation c = some type →
      Token.SpelledAs ⟨type, "", line⟩ [c]

/-- White space, or a comment in front of `rest`: one from `//` ends with the line, one from a slash
and a star at the first star and slash. -/
inductive Gap (rest : List Char) : List Char → Prop
  | space {c : Char} : isSpace c = true → Gap rest [c]
  | lineComment {body : List Char} : '\n' ∉ body → (rest = [] ∨ rest.head? = some '\n') →
      Gap rest ('/' :: '/' :: body)
  | blockComment {body : List Char} : ¬ ['*', '/'] <:+: body ++ ['*'] →
      Gap rest ('/' :: '*' :: (body ++ ['*', '/']))

/-- What a turn takes off `cs`. -/
inductive Taken (cs : List Char) (line : Nat) : Option Token → List Char → Nat → Prop
  | gap {g rest : List Char} {line' : Nat} : cs = g ++ rest → Gap rest g →
      line' = line + g.count '\n' → Taken cs line none rest line'
  | token {t : Token} {spelling rest : List Char} : cs = spelling ++ rest → t.SpelledAs spelling →
      t.line = line → Taken cs line (some t) rest line

variable {c : Char} {cs rest value : List Char} {line line' : Nat} {t : Token}

theorem punctuation_ne_end (c : Char) : punctuation c ≠ some .end := by
  unfold punctuation
  split
  all_goals exact nofun

theorem punctuation_ne_name (c : Char) : punctuation c ≠ some .name := by
  unfold punctuation
  split
  all_goals exact nofun

theorem Token.SpelledAs.ne_end (h : t.SpelledAs cs) : t.type ≠ .end := by
  cases h with
  | name | number | hexNumber | floatNumber | stringLiteral | arrow => exact nofun
  | punctuation hc => exact fun hend => punctuation_ne_end _ (hc.trans (congrArg some hend))

/-- Only punctuation can be a brace, and such a token has no text. -/
theorem Token.SpelledAs.text_eq (h : t.SpelledAs cs) (ht : t.type = .lBrace ∨ t.type = .rBrace) :
    t.text = "" := by
  cases h with
  | name | number | hexNumber | floatNumber | stringLiteral => rcases ht with ht | ht <;> cases ht
  | arrow | punctuation => rfl

theorem Token.SpelledAs.text_ne (h : t.SpelledAs cs) (ht : t.type = .name) : t.text ≠ "" := by
  cases h with
  | name => exact fun hnil => cons_ne_nil _ _ (String.ofList_eq_empty_iff.mp hnil)
  | number | hexNumber | floatNumber | stringLiteral | arrow => cases ht
  | punctuation hc => exact absurd (hc.trans (congrArg some ht)) (punctuation_ne_name _)

/-! ### Newlines -/

theorem isDigit_newline : Char.isDigit '\n' = false := rfl

theorem newline_notMem_of_forall {p : Char → Bool} (hp : p '\n' = false)
    (h : ∀ d ∈ cs, p d = true) : '\n' ∉ cs := fun hmem =>
  Bool.false_ne_true (hp.symm.trans (h _ hmem))

theorem StringSpelling.newline_notMem (h : StringSpelling cs value) : '\n' ∉ cs := by
  induction h with
  | close => decide
  | plain _ hne _ _ ih => simp [ih, hne.symm]
  | quoted hc _ ih => rcases hc with rfl | rfl <;> simp [ih]
  | decimal hds _ _ ih => simp [ih, newline_notMem_of_forall isDigit_newline hds.2]
  | hex hds _ _ ih => simp [ih, newline_notMem_of_forall (p := isXDigit) rfl hds.2]
  | backslash _ _ _ _ ih => simpa using ih

theorem Fraction.newline_notMem (h : Fraction cs) : '\n' ∉ cs := by
  rcases h with rfl | ⟨ds, hds, rfl⟩
  · exact not_mem_nil
  · simp [newline_notMem_of_forall isDigit_newline hds.2]

theorem Exponent.newline_notMem (h : Exponent cs) : '\n' ∉ cs := by
  rcases h with rfl | ⟨e, sign, ds, he, hsign, hds, rfl⟩
  · exact not_mem_nil
  · have hdigits := newline_notMem_of_forall isDigit_newline hds.2
    rcases he with rfl | rfl <;> rcases hsign with rfl | rfl | rfl <;> simp [hdigits]

theorem Token.SpelledAs.newline_notMem (h : t.SpelledAs cs) : '\n' ∉ cs := by
  cases h with
  | name hc hcs =>
    refine not_mem_cons_of_ne_of_not_mem ?_ (newline_notMem_of_forall (p := isNameCont) rfl hcs)
    rintro rfl
    cases hc
  | number hds _ => exact newline_notMem_of_forall isDigit_newline hds.2
  | hexNumber hx hds =>
    rcases hx with rfl | rfl <;> simp [newline_notMem_of_forall (p := isXDigit) rfl hds.2]
  | floatNumber hds hfraction hexponent _ _ =>
    simp [newline_notMem_of_forall isDigit_newline hds, hfraction.newline_notMem,
      hexponent.newline_notMem]
  | stringLiteral hcs => simp [hcs.newline_notMem]
  | arrow => decide
  | punctuation hc =>
    rintro hmem
    rw [← mem_singleton.mp hmem] at hc
    cases hc

/-! ### Gaps -/

theorem exists_line (cs : List Char) :
    ∃ body, '\n' ∉ body ∧ '/' :: '/' :: cs = '/' :: '/' :: body ++ cs.dropWhile (· ≠ '\n') ∧
      (cs.dropWhile (· ≠ '\n') = [] ∨ (cs.dropWhile (· ≠ '\n')).head? = some '\n') := by
  refine ⟨cs.takeWhile (· ≠ '\n'), newline_notMem_of_forall rfl fun _ => mem_takeWhile_imp, ?_, ?_⟩
  · rw [cons_append, cons_append, takeWhile_append_dropWhile]
  · have hhead := head?_dropWhile_not (· ≠ '\n') cs
    cases hrest : cs.dropWhile (· ≠ '\n') with
    | nil => exact Or.inl rfl
    | cons d rest =>
      rw [hrest] at hhead
      exact Or.inr (congrArg some (by simpa using hhead))

theorem gap_of_skipBlockComment (h : skipBlockComment cs line = .ok (rest, line')) :
    ∃ body, cs = body ++ '*' :: '/' :: rest ∧ ¬ ['*', '/'] <:+: body ++ ['*'] ∧
      line' = line + body.count '\n' := by
  fun_induction skipBlockComment cs line with
  | case1 cs line =>
    cases h
    exact ⟨[], rfl, by decide, rfl⟩
  | case2 c d cs line hclose ih =>
    obtain ⟨body, hcs, hbody, rfl⟩ := ih h
    refine ⟨c :: body, by rw [hcs, cons_append], ?_, ?_⟩
    · rw [cons_append, infix_cons_iff]
      rintro (hstart | hinner)
      · obtain ⟨rfl, hslash⟩ := cons_prefix_cons.mp hstart
        cases body with
        | nil => exact absurd hslash (by decide)
        | cons b body =>
          obtain ⟨rfl, -⟩ := cons_prefix_cons.mp hslash
          exact hclose rfl (cons.inj hcs).1
      · exact hbody hinner
    · rw [count_cons]
      simp only [beq_iff_eq]
      split <;> omega
  | case3 => cases h

/-! ### Numbers -/

theorem digits_takeWhile {p : Char → Bool} : ∀ d ∈ cs.takeWhile p, p d = true :=
  fun _ hd => mem_takeWhile_imp hd

theorem lexFraction_spells (cs : List Char) :
    Fraction (lexFraction cs).1 ∧ cs = (lexFraction cs).1 ++ (lexFraction cs).2 := by
  fun_cases lexFraction cs with
  | case1 d cs hd =>
    refine ⟨Or.inr ⟨_, ⟨?_, digits_takeWhile⟩, rfl⟩, ?_⟩
    · rw [takeWhile_cons_of_pos hd]
      exact cons_ne_nil _ _
    · rw [cons_append, takeWhile_append_dropWhile]
  | case2 | case3 => exact ⟨Or.inl rfl, rfl⟩

theorem lexExponent_spells (cs : List Char) :
    Exponent (lexExponent cs).1 ∧ cs = (lexExponent cs).1 ++ (lexExponent cs).2 := by
  fun_cases lexExponent cs with
  | case1 e cs he sign digits hdigits => exact ⟨Or.inl rfl, rfl⟩
  | case2 e cs he sign digits hdigits =>
    have hsign : sign = [] ∨ sign = ['+'] ∨ sign = ['-'] := by
      unfold sign
      cases cs with
      | nil => exact Or.inl take_nil
      | cons c cs =>
        by_cases hc : c = '+' ∨ c = '-'
        · rcases hc with rfl | rfl <;> simp
        · simp [hc]
    refine ⟨Or.inr ⟨e, sign, digits, he, hsign, ⟨hdigits, digits_takeWhile⟩, rfl⟩, ?_⟩
    have hsplit : sign ++ cs.drop sign.length = cs := by
      unfold sign
      rw [length_take]
      split <;> cases cs <;> simp_all
    calc e :: cs = e :: (sign ++ cs.drop sign.length) := by rw [hsplit]
      _ = e :: (sign ++ (digits ++ (cs.drop sign.length).dropWhile Char.isDigit)) := by
        rw [takeWhile_append_dropWhile]
      _ = _ := by simp
  | case3 | case4 => exact ⟨Or.inl rfl, rfl⟩

theorem spells_of_lexHex {x : Char} (hx : x = 'x' ∨ x = 'X')
    (h : lexHex x cs line = .ok (t, rest)) :
    ∃ spelling, '0' :: x :: cs = spelling ++ rest ∧ t.SpelledAs spelling ∧ t.line = line := by
  unfold lexHex at h
  dsimp only at h
  split at h
  · cases h
  case isFalse hdigits =>
    cases h
    refine ⟨_, ?_, .hexNumber hx ⟨hdigits, digits_takeWhile⟩, rfl⟩
    rw [cons_append, cons_append, takeWhile_append_dropWhile]

theorem spells_of_lexDecimal (hc : c.isDigit = true)
    (h : lexDecimal (c :: cs) line = .ok (t, rest)) :
    ∃ spelling, c :: cs = spelling ++ rest ∧ t.SpelledAs spelling ∧ t.line = line := by
  have hdigits : Digits ((c :: cs).takeWhile Char.isDigit) := by
    refine ⟨?_, digits_takeWhile⟩
    rw [takeWhile_cons_of_pos hc]
    exact cons_ne_nil _ _
  have hsplit := (takeWhile_append_dropWhile (p := Char.isDigit) (l := c :: cs)).symm
  obtain ⟨hfraction, hsplit₁⟩ := lexFraction_spells ((c :: cs).dropWhile Char.isDigit)
  obtain ⟨hexponent, hsplit₂⟩ := lexExponent_spells (lexFraction ((c :: cs).dropWhile Char.isDigit)).2
  rw [hsplit₁, hsplit₂, ← append_assoc, ← append_assoc] at hsplit
  unfold lexDecimal at h
  dsimp only at h
  split at h
  case isTrue hfloat =>
    cases h
    exact ⟨_, hsplit,
      .floatNumber hdigits.2 hfraction hexponent (fun hnil => absurd hnil hdigits.1) hfloat, rfl⟩
  case isFalse hfloat =>
    obtain ⟨hnoFraction, hnoExponent⟩ := append_eq_nil_iff.mp (Classical.not_not.mp hfloat)
    rw [hnoFraction, hnoExponent, append_nil, append_nil] at hsplit
    split at h
    · cases h
    case isFalse hoctal =>
      cases h
      exact ⟨_, hsplit, .number hdigits hoctal, rfl⟩

theorem spells_of_dot (line : Nat) (h : cs.head?.any Char.isDigit = true) :
    let fraction := lexFraction ('.' :: cs)
    let exponent := lexExponent fraction.2
    '.' :: cs = fraction.1 ++ exponent.1 ++ exponent.2 ∧
      Token.SpelledAs ⟨.floatNumber, String.ofList (fraction.1 ++ exponent.1), line⟩
        (fraction.1 ++ exponent.1) := by
  obtain ⟨hfraction, hsplit₁⟩ := lexFraction_spells ('.' :: cs)
  obtain ⟨hexponent, hsplit₂⟩ := lexExponent_spells (lexFraction ('.' :: cs)).2
  have hne : (lexFraction ('.' :: cs)).1 ≠ [] := by
    cases cs with
    | nil => cases h
    | cons d cs =>
      rw [lexFraction, if_pos (show d.isDigit = true from h)]
      exact cons_ne_nil _ _
  have hnil : ∀ d ∈ ([] : List Char), d.isDigit = true := fun _ hd => absurd hd not_mem_nil
  refine ⟨?_, .floatNumber hnil hfraction hexponent (fun _ => hne) ?_⟩
  · rw [append_assoc, ← hsplit₂, ← hsplit₁]
  · exact append_ne_nil_of_left_ne_nil hne _

/-! ### Strings -/

theorem head?_dropWhile_any {p : Char → Bool} (cs : List Char) :
    (cs.dropWhile p).head?.any p = false := by
  have h := head?_dropWhile_not p cs
  cases hhead : (cs.dropWhile p).head? with
  | none => rfl
  | some d =>
    rw [hhead] at h
    exact h

/-- What a string goes on with is not used up by what comes before. -/
theorem StringSpelling.head?_append (h : StringSpelling cs value) :
    (cs ++ rest).head? = cs.head? := by
  cases h with
  | close | plain | quoted | decimal | hex | backslash => rfl

theorem spells_of_lexString {fuel : Nat} (h : lexString fuel cs line = .ok (value, rest)) :
    ∃ spelling, cs = spelling ++ rest ∧ StringSpelling spelling value := by
  induction fuel generalizing cs value with
  | zero => cases h
  | succ fuel ih =>
    unfold lexString at h
    split at h
    · cases h
    · cases h
    · cases h
      exact ⟨['"'], rfl, .close⟩
    case h_4 c cs =>
      by_cases hquoted : c = '"' ∨ c = '\\'
      · rw [if_pos hquoted] at h
        obtain ⟨more, hmore, rfl⟩ := lexOn_ok h
        obtain ⟨spelling, rfl, hspells⟩ := ih hmore
        exact ⟨_, rfl, .quoted hquoted hspells⟩
      rw [if_neg hquoted] at h
      by_cases hdigit : c.isDigit
      · rw [if_pos hdigit] at h
        have hdigits : Digits ((c :: cs).takeWhile Char.isDigit) := by
          refine ⟨?_, digits_takeWhile⟩
          rw [takeWhile_cons_of_pos hdigit]
          exact cons_ne_nil _ _
        obtain ⟨more, hmore, rfl⟩ := escape_ok h
        obtain ⟨spelling, hcs, hspells⟩ := ih hmore
        have hhead := head?_dropWhile_any (p := Char.isDigit) (c :: cs)
        rw [hcs, hspells.head?_append] at hhead
        refine ⟨_, ?_, .decimal hdigits hhead hspells⟩
        rw [cons_append, append_assoc, ← hcs, takeWhile_append_dropWhile]
      rw [if_neg hdigit] at h
      by_cases hhex : c = 'x' ∧ cs.head?.any isXDigit
      · rw [if_pos hhex] at h
        obtain ⟨rfl, hdigit⟩ := hhex
        have hdigits : HexDigits (cs.takeWhile isXDigit) := by
          refine ⟨?_, digits_takeWhile⟩
          cases cs with
          | nil => cases hdigit
          | cons d cs =>
            rw [takeWhile_cons_of_pos (p := isXDigit) hdigit]
            exact cons_ne_nil _ _
        obtain ⟨more, hmore, rfl⟩ := escape_ok h
        obtain ⟨spelling, hcs, hspells⟩ := ih hmore
        have hhead := head?_dropWhile_any (p := isXDigit) cs
        rw [hcs, hspells.head?_append] at hhead
        refine ⟨_, ?_, .hex hdigits hhead hspells⟩
        rw [cons_append, cons_append, append_assoc, ← hcs, takeWhile_append_dropWhile]
      · rw [if_neg hhex] at h
        obtain ⟨more, hmore, rfl⟩ := lexOn_ok h
        obtain ⟨spelling, hcs, hspells⟩ := ih hmore
        cases spelling with
        | nil => cases hspells
        | cons d spelling =>
          obtain ⟨rfl, rfl⟩ := cons.inj hcs
          refine ⟨_, rfl, .backslash hquoted (Bool.eq_false_iff.mpr hdigit) ?_ hspells⟩
          rintro ⟨hx, hany⟩
          cases spelling with
          | nil => cases hany
          | cons d spelling => exact hhex ⟨hx, hany⟩
    case h_5 c cs hnewline hquote hescape =>
      obtain ⟨more, hmore, rfl⟩ := lexOn_ok h
      obtain ⟨spelling, rfl, hspells⟩ := ih hmore
      refine ⟨_, rfl, .plain (fun hc => hquote hc) (fun hc => hnewline hc) (fun hc => ?_) hspells⟩
      cases hspells with
      | close | plain | quoted | decimal | hex | backslash => exact hescape _ _ hc rfl

/-! ### A turn -/

/-- **One turn of `Tokenize`.** -/
theorem taken_of_lexStep {token : Option Token} (h : lexStep c cs line = .ok (token, rest, line')) :
    Taken (c :: cs) line token rest line' := by
  unfold lexStep at h
  split at h
  case isTrue hnewline =>
    subst hnewline
    cases h
    exact .gap (g := ['\n']) rfl (.space rfl) rfl
  case isFalse hnewline =>
  split at h
  case isTrue hspace =>
    cases h
    refine .gap (g := [c]) rfl (.space hspace) ?_
    rw [count_eq_zero.mpr fun hmem => hnewline (mem_singleton.mp hmem).symm, Nat.add_zero]
  split at h
  case isTrue hcomment =>
    obtain ⟨rfl, hslash⟩ := hcomment
    obtain ⟨cs, rfl⟩ := head?_eq_some_iff.mp hslash
    cases h
    obtain ⟨body, hbody, hsplit, hend⟩ := exists_line cs
    exact .gap hsplit (.lineComment hbody hend) (by simp [count_eq_zero.mpr hbody])
  split at h
  case isTrue hcomment =>
    obtain ⟨rfl, hstar⟩ := hcomment
    obtain ⟨cs, rfl⟩ := head?_eq_some_iff.mp hstar
    cases hblock : skipBlockComment cs line with
    | error e => rw [tail_cons, hblock] at h; cases h
    | ok p =>
      obtain ⟨rest', line₁⟩ := p
      rw [tail_cons, hblock] at h
      cases h
      obtain ⟨body, rfl, hbody, rfl⟩ := gap_of_skipBlockComment hblock
      exact .gap (by simp) (.blockComment hbody) (by simp)
  split at h
  case isTrue hname =>
    cases h
    have hcont : isNameCont c = true := by
      unfold isNameStart at hname
      unfold isNameCont Char.isAlphanum
      rcases Bool.or_eq_true_iff.mp hname with halpha | hunder
      · rw [halpha, Bool.true_or, Bool.true_or]
      · rw [hunder, Bool.or_true]
    refine .token takeWhile_append_dropWhile.symm ?_ rfl
    rw [takeWhile_cons_of_pos hcont]
    exact .name hname digits_takeWhile
  split at h
  case isTrue hdigit =>
    split at h
    case isTrue hhex =>
      obtain ⟨rfl, hx⟩ := hhex
      cases cs with
      | nil => simp at hx
      | cons x cs =>
        cases hlex : lexHex x cs line with
        | error e => rw [headD_cons, tail_cons, hlex] at h; cases h
        | ok p =>
          obtain ⟨t, rest'⟩ := p
          rw [headD_cons, tail_cons, hlex] at h
          cases h
          obtain ⟨spelling, hcs, hspells, hline⟩ := spells_of_lexHex (by simpa using hx) hlex
          exact .token hcs hspells hline
    · cases hlex : lexDecimal (c :: cs) line with
      | error e => rw [hlex] at h; cases h
      | ok p =>
        obtain ⟨t, rest'⟩ := p
        rw [hlex] at h
        cases h
        obtain ⟨spelling, hcs, hspells, hline⟩ := spells_of_lexDecimal hdigit hlex
        exact .token hcs hspells hline
  split at h
  case isTrue hdot =>
    obtain ⟨rfl, hdigit⟩ := hdot
    cases h
    obtain ⟨hcs, hspells⟩ := spells_of_dot line hdigit
    exact .token hcs hspells rfl
  split at h
  case isTrue hquote =>
    subst hquote
    cases hstring : lexString (cs.length + 1) cs line with
    | error e => rw [hstring] at h; cases h
    | ok p =>
      obtain ⟨value, rest'⟩ := p
      rw [hstring] at h
      cases h
      obtain ⟨spelling, rfl, hspells⟩ := spells_of_lexString hstring
      exact .token rfl (.stringLiteral hspells) rfl
  split at h
  case isTrue harrow =>
    obtain ⟨rfl, hangle⟩ := harrow
    obtain ⟨cs, rfl⟩ := head?_eq_some_iff.mp hangle
    cases h
    exact .token (show '=' :: '>' :: cs = ['=', '>'] ++ cs from rfl) .arrow rfl
  split at h
  case h_1 type htype =>
    cases h
    exact .token (show c :: cs = [c] ++ cs from rfl) (.punctuation htype) rfl
  case h_2 => cases h

end Voodoo.Compiler
