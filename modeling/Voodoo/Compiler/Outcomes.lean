import Voodoo.Compiler.Declarations

/-!
# How a parse ends

A run of the parser takes tokens and ends with a value or an exception.  `Good N K n k Q x`
says of every run of `x` from a state with at most `n` tokens that it takes `k` of them or
more, does not want for turns and, where `N` promises that every numeric literal can be
converted, stops with nothing but a `ParseError`.  Under `K` it leaves the consts known as
they are.  It is closed under sequencing (`Good.skip`, `Good.step`) and under the loops of the
parser.

`LiteralsFit` is the promise: an integer fits 64 bits, 63 where it is negated or a floating
default, 31 where it is a size, and a floating literal has a `double`.
-/

namespace Voodoo.Compiler

open EState Parse

/-! ### Literals -/

def Token.isInteger (t : Token) : Bool := t.type = .number || t.type = .hexNumber

/-- The integer a token is, `0` for any other token. -/
def Token.integer (t : Token) : Nat := if t.isInteger then literalValue t.text else 0

/-- What a `float` or `double` field or const has after its type: its name, an ordinal and `=`.
The tokens of the default that follows. -/
def floatDefault? : List Token → Option (List Token)
  | ⟨.question, _, _⟩ :: ts => floatDefault? ts
  | ⟨.name, _, _⟩ :: ⟨.at, _, _⟩ :: ⟨.number, _, _⟩ :: ⟨.equals, _, _⟩ :: ts => some ts
  | ⟨.name, _, _⟩ :: ⟨.equals, _, _⟩ :: ts => some ts
  | _ => none

theorem floatDefault?_question {t : Token} (ht : t.type = .question) (ts : List Token) :
    floatDefault? (t :: ts) = floatDefault? ts := by
  obtain ⟨type, text, line⟩ := t
  obtain rfl : type = .question := ht
  rw [floatDefault?]

theorem floatDefault?_equals {t u : Token} (ht : t.type = .name) (hu : u.type = .equals)
    (ts : List Token) : floatDefault? (t :: u :: ts) = some ts := by
  obtain ⟨type, text, line⟩ := t
  obtain ⟨type', text', line'⟩ := u
  obtain rfl : type = .name := ht
  obtain rfl : type' = .equals := hu
  rw [floatDefault?]

theorem floatDefault?_ordinal {t u v w : Token} (ht : t.type = .name) (hu : u.type = .at)
    (hv : v.type = .number) (hw : w.type = .equals) (ts : List Token) :
    floatDefault? (t :: u :: v :: w :: ts) = some ts := by
  obtain ⟨type, text, line⟩ := t
  obtain ⟨type₁, text₁, line₁⟩ := u
  obtain ⟨type₂, text₂, line₂⟩ := v
  obtain ⟨type₃, text₃, line₃⟩ := w
  obtain rfl : type = .name := ht
  obtain rfl : type₁ = .at := hu
  obtain rfl : type₂ = .number := hv
  obtain rfl : type₃ = .equals := hw
  rw [floatDefault?]

/-- The token the tokens start with. -/
def headToken (ts : List Token) : Token := ts.headD ⟨.end, "", 0⟩

/-- The literal at the head of `ts`, after a minus if there is one. -/
def signedInteger (ts : List Token) : Nat :=
  if (headToken ts).type = .minus then (headToken ts.tail).integer else (headToken ts).integer

/-- The literal that `t` is, or that stands where `t` says what it is for, can be converted. -/
structure LiteralFits (t : Token) (ts : List Token) : Prop where
  integer : t.integer < 2 ^ 64
  float : t.type = .floatNumber → fitsDouble t.text = true
  negative : t.type = .minus → (headToken ts).integer < 2 ^ 63
  arraySize : t.type = .comma → (headToken ts).type = .number → (headToken ts).integer < 2 ^ 31
  floatDefault : t.type = .name → t.text = "float" ∨ t.text = "double" →
    signedInteger ((floatDefault? ts).getD []) < 2 ^ 63

instance (t : Token) (ts : List Token) : Decidable (LiteralFits t ts) :=
  decidable_of_iff (_ ∧ _ ∧ _ ∧ _ ∧ _)
    ⟨fun ⟨h₁, h₂, h₃, h₄, h₅⟩ => ⟨h₁, h₂, h₃, h₄, h₅⟩, fun ⟨h₁, h₂, h₃, h₄, h₅⟩ => ⟨h₁, h₂, h₃, h₄, h₅⟩⟩

/-- Every numeric literal of a file can be converted. -/
def LiteralsFit : List Token → Prop
  | [] => True
  | t :: ts => LiteralFits t ts ∧ LiteralsFit ts

instance : (ts : List Token) → Decidable (LiteralsFit ts)
  | [] => inferInstanceAs (Decidable True)
  | t :: ts =>
    have : Decidable (LiteralsFit ts) := instDecidableLiteralsFit ts
    inferInstanceAs (Decidable (LiteralFits t ts ∧ LiteralsFit ts))

theorem LiteralsFit.suffix {ts us : List Token} (hus : LiteralsFit us) (h : ts <:+ us) :
    LiteralsFit ts := by
  obtain ⟨pre, rfl⟩ := h
  induction pre with
  | nil => exact hus
  | cons t pre ih => exact ih hus.2

/-! ### Ends of a run -/

/-- An exception that is a `ParseError`. -/
def Failure.IsParseError (e : Failure) : Prop := ∃ msg line, e = .parseError msg line

/-- What may stop a parse: a `ParseError`, and unless `N` holds the exception of a conversion. -/
def Allowed (N : Prop) (e : Failure) : Prop := e.IsParseError ∨ e = .outOfRange ∧ ¬N

theorem allowed_parseError (N : Prop) (msg : String) (line : Nat) :
    Allowed N (.parseError msg line) := Or.inl ⟨msg, line, rfl⟩

/-- `y` is a value in `Q` or an exception in `E`. -/
def Ends {α : Type} (E : Failure → Prop) (Q : α → Prop) : Except Failure α → Prop
  | .ok a => Q a
  | .error e => E e

section

variable {α β : Type} {E E' : Failure → Prop} {Q : α → Prop} {R : β → Prop} {y : Except Failure α}
  {f : α → Except Failure β}

theorem Ends.bind (h : Ends E Q y) (hf : ∀ a, Q a → Ends E R (f a)) : Ends E R (y >>= f) := by
  cases y with
  | ok a => exact hf a h
  | error e => exact h

theorem Ends.mono (h : Ends E Q y) (he : ∀ e, E e → E' e) {Q' : α → Prop}
    (hq : ∀ a, Q a → Q' a) : Ends E' Q' y := by
  cases y with
  | ok a => exact hq a h
  | error e => exact he e h

theorem Ends.error (h : Ends E Q y) {e : Failure} (hy : y = .error e) : E e := by
  subst hy
  exact h

theorem Ends.ok (h : Ends E Q y) {a : α} (hy : y = .ok a) : Q a := by
  subst hy
  exact h

end

/-- `y` is a value in `Q`, or the exception of a conversion where `N` does not hold. -/
def Converts {α : Type} (N : Prop) (Q : α → Prop) (y : Except Failure α) : Prop :=
  Ends (fun e => e = .outOfRange ∧ ¬N) Q y

/-- A state a parse starts from: `N` says that the literals from here on fit, and `n` bounds the
tokens that are left. -/
structure Ready (N : Prop) (n : Nat) (s : Parser) : Prop where
  lexed : WellLexed s.rest
  fits : N → LiteralsFit s.rest
  length : s.rest.length ≤ n

/-- `t` is `k` tokens or more after `s`, and under `K` the consts known are the same. -/
structure Past (K : Prop) (k : Nat) (s t : Parser) : Prop where
  lexed : WellLexed t.rest
  suffix : t.rest <:+ s.rest
  shorter : t.rest.length + k ≤ s.rest.length
  consts : K → t.constByName = s.constByName ∧ t.constContainer = s.constContainer

/-- Every run of `x` takes `k` tokens or more and returns in `Q`, or stops with what is allowed. -/
def Good {α : Type} (N K : Prop) (n k : Nat) (Q : α → Prop) (x : Parse α) : Prop :=
  ∀ s, Ready N n s → Outcome (Allowed N) (fun a t => Past K k s t ∧ (N → Q a)) x s

section

variable {α β : Type} {N K : Prop} {s t u : Parser} {i j k m n : Nat} {x : Parse α}
  {f : α → Parse β} {Q : α → Prop} {R : β → Prop}

theorem Ready.after (hs : Ready N n s) (h : Past K k s t) : Ready N n t where
  lexed := h.lexed
  fits hN := (hs.fits hN).suffix h.suffix
  length := by
    have h₁ := hs.length
    have h₂ := h.shorter
    omega

theorem Ready.after_succ (hs : Ready N (n + 1) s) (h : Past K 1 s t) : Ready N n t where
  lexed := h.lexed
  fits hN := (hs.fits hN).suffix h.suffix
  length := by
    have h₁ := hs.length
    have h₂ := h.shorter
    omega

theorem Ready.literalFits (hs : Ready N n s) (hN : N) (ht : s.tok.type ≠ .end) :
    LiteralFits s.tok s.next.rest := by
  have hfits := hs.fits hN
  rw [hs.lexed.next rfl ht] at hfits
  exact hfits.1

namespace Past

theorem refl (h : WellLexed s.rest) : Past K 0 s s :=
  ⟨h, List.suffix_rfl, le_rfl, fun _ => ⟨rfl, rfl⟩⟩

theorem trans (h : Past K i s t) (h' : Past K j t u) : Past K (i + j) s u where
  lexed := h'.lexed
  suffix := h'.suffix.trans h.suffix
  shorter := by
    have h₁ := h.shorter
    have h₂ := h'.shorter
    omega
  consts hkeep := by
    obtain ⟨hname, hcontainer⟩ := h.consts hkeep
    obtain ⟨hname', hcontainer'⟩ := h'.consts hkeep
    exact ⟨hname'.trans hname, hcontainer'.trans hcontainer⟩

theorem mono (h : Past K i s t) (hk : k ≤ i) : Past K k s t where
  lexed := h.lexed
  suffix := h.suffix
  shorter := by
    have h₁ := h.shorter
    omega
  consts := h.consts

theorem next (h : WellLexed s.rest) : Past K 0 s s.next := by
  unfold Parser.next
  split
  case h_1 a b tokens hrest =>
    rw [hrest] at h
    refine ⟨h.tail, ?_, ?_, fun _ => ⟨rfl, rfl⟩⟩
    · rw [hrest]
      exact List.suffix_cons a _
    · rw [hrest]
      exact Nat.le_succ _
  case h_2 => exact refl h

theorem next_of_type (h : WellLexed s.rest) {type : TokenType} (ht : s.tok.type = type)
    (hne : type ≠ .end) : Past K 1 s s.next := by
  have hpast : Past K 0 s s.next := next h
  have hlength := congrArg List.length (h.next ht hne)
  rw [List.length_cons] at hlength
  exact ⟨hpast.lexed, hpast.suffix, hlength.ge, hpast.consts⟩

end Past

/-! ### Sequences -/

namespace Good

theorem mono (h : Good N K n i Q x) (hk : k ≤ i) (hn : m ≤ n) {Q' : α → Prop}
    (hq : ∀ a, Q a → Q' a) : Good N K m k Q' x := by
  intro s hs
  refine (h s ⟨hs.lexed, hs.fits, hs.length.trans hn⟩).mono (fun _ he => he) ?_
  rintro a t ⟨hpast, ha⟩
  exact ⟨hpast.mono hk, fun hN => hq a (ha hN)⟩

theorem pure {a : α} (h : N → Q a) : Good N K n 0 Q (pure a) :=
  fun _ hs => ⟨Past.refl hs.lexed, h⟩

theorem parseError {msg : String} {line : Nat} : Good N K n k Q (parseError msg line) :=
  fun _ _ => allowed_parseError N msg line

theorem parseErrorThen {msg : String} {line : Nat} :
    Good N K n k R ((Parse.parseError msg line : Parse α) >>= f) :=
  fun _ _ => allowed_parseError N msg line

theorem skip (h : Good N K n 0 Q x) (hf : ∀ a, (N → Q a) → Good N K n k R (f a)) :
    Good N K n k R (x >>= f) := by
  intro s hs
  refine (h s hs).bind (fun _ he => he) ?_
  rintro a t ⟨hpast, ha⟩
  refine (hf a ha t (hs.after hpast)).mono (fun _ he => he) ?_
  rintro b u ⟨hpast', hb⟩
  exact ⟨(hpast.trans hpast').mono (by omega), hb⟩

theorem step (h : Good N K n 1 Q x) (hf : ∀ a, (N → Q a) → Good N K n 0 R (f a)) :
    Good N K n 1 R (x >>= f) := by
  intro s hs
  refine (h s hs).bind (fun _ he => he) ?_
  rintro a t ⟨hpast, ha⟩
  refine (hf a ha t (hs.after hpast)).mono (fun _ he => he) ?_
  rintro b u ⟨hpast', hb⟩
  exact ⟨(hpast.trans hpast').mono (by omega), hb⟩

theorem loose (h : Good N K n 1 Q x) : Good N K n 0 Q x :=
  h.mono (Nat.zero_le 1) le_rfl fun _ ha => ha

theorem pass (h : Good N K n 1 Q x) (hf : ∀ a, (N → Q a) → Good N K n 0 R (f a)) :
    Good N K n 0 R (x >>= f) := (h.step hf).loose

/-! ### Primitives -/

theorem cur : Good N K n 0 (fun _ => True) cur :=
  fun _ hs => ⟨Past.refl hs.lexed, fun _ => trivial⟩

theorem at' (type : TokenType) : Good N K n 0 (fun _ => True) (at' type) :=
  fun _ hs => ⟨Past.refl hs.lexed, fun _ => trivial⟩

theorem atKeyword (keyword : String) : Good N K n 0 (fun _ => True) (atKeyword keyword) :=
  fun _ hs => ⟨Past.refl hs.lexed, fun _ => trivial⟩

theorem get : Good N K n 0 (fun _ => True) (get : Parse Parser) :=
  fun _ hs => ⟨Past.refl hs.lexed, fun _ => trivial⟩

theorem advance : Good N K n 0 (fun _ => True) advance :=
  fun _ hs => ⟨Past.next hs.lexed, fun _ => trivial⟩

theorem expect (type : TokenType) (what : String) (hne : type ≠ .end) :
    Good N K n 1 (fun token => token.type = type ∧ token.integer < 2 ^ 64)
      (expect type what) := by
  intro s hs
  by_cases ht : s.tok.type = type
  · have hexpect : Parse.expect type what s = .ok s.tok s.next := by
      unfold Parse.expect
      rw [bind_ok (show Parse.cur s = .ok s.tok s from rfl), if_pos ht]
      rfl
    refine Outcome.of_ok hexpect ⟨Past.next_of_type hs.lexed ht hne, fun hN => ⟨ht, ?_⟩⟩
    exact (hs.literalFits hN (ht ▸ hne)).integer
  · have hexpect : ∃ msg line, Parse.expect type what s = .error (.parseError msg line) s := by
      unfold Parse.expect
      rw [bind_ok (show Parse.cur s = .ok s.tok s from rfl), if_neg ht]
      exact ⟨_, _, rfl⟩
    obtain ⟨msg, line, hexpect⟩ := hexpect
    exact Outcome.of_error hexpect (allowed_parseError N msg line)

theorem expectName (what : String) : Good N K n 1 (fun _ => True) (expectName what) :=
  (expect .name what nofun).step fun _ _ => pure fun _ => trivial

theorem expectKeyword (keyword : String) :
    Good N K n 1 (fun _ => True) (expectKeyword keyword) := by
  intro s hs
  by_cases ht : (s.tok.type = .name && s.tok.text = keyword) = true
  · have hexpect : Parse.expectKeyword keyword s = .ok () s.next := by
      unfold Parse.expectKeyword
      rw [bind_ok (show Parse.cur s = .ok s.tok s from rfl),
        bind_ok (show Parse.atKeyword keyword s = .ok true s by rw [← ht]; rfl), if_pos rfl]
      rfl
    rw [Bool.and_eq_true, decide_eq_true_eq] at ht
    exact Outcome.of_ok hexpect ⟨Past.next_of_type hs.lexed ht.1 nofun, fun _ => trivial⟩
  · have hexpect : ∃ msg line,
        Parse.expectKeyword keyword s = .error (.parseError msg line) s := by
      unfold Parse.expectKeyword
      rw [Bool.not_eq_true] at ht
      rw [bind_ok (show Parse.cur s = .ok s.tok s from rfl),
        bind_ok (show Parse.atKeyword keyword s = .ok false s by rw [← ht]; rfl)]
      exact ⟨_, _, rfl⟩
    obtain ⟨msg, line, hexpect⟩ := hexpect
    exact Outcome.of_error hexpect (allowed_parseError N msg line)

theorem liftResult {y : Except Failure α} (h : Converts N Q y) :
    Good N K n 0 Q (liftResult y) := by
  intro s hs
  cases y with
  | ok a => exact Outcome.of_ok rfl ⟨Past.refl hs.lexed, fun _ => h⟩
  | error e => exact Outcome.of_error (t := s) rfl (Or.inr h)

/-! ### Loops -/

theorem loop_of {test : Parse Bool} {body : α → Parse α} {T : Parser → Prop}
    (htest : ∀ s, Ready N n s →
      Outcome (Allowed N) (fun b t => Past K 0 s t ∧ (b = true → T t)) test s)
    (hbody : ∀ a s, Ready N n s → T s →
      Outcome (Allowed N) (fun _ t => Past K 1 s t) (body a) s)
    (turns : Nat) (a : α) (hs : Ready N n s) (hturns : s.rest.length < turns) :
    Outcome (Allowed N) (fun _ t => Past K 0 s t) (loop test body turns a) s := by
  induction turns generalizing a s with
  | zero => exact absurd hturns (Nat.not_lt_zero _)
  | succ turns ih =>
    refine (htest s hs).bind (fun _ he => he) ?_
    rintro go t ⟨hpast, hT⟩
    cases go with
    | false => exact hpast
    | true =>
      refine (hbody a t (hs.after hpast) (hT rfl)).bind (fun _ he => he) ?_
      intro b u hpast'
      have hpast := hpast.trans hpast'
      have hshorter := hpast.shorter
      refine (ih b (hs.after hpast) (by omega)).mono (fun _ he => he) ?_
      intro c v hpast''
      exact (hpast.trans hpast'').mono (by omega)

theorem loop {test : Parse Bool} {body : α → Parse α} (htest : Good N K n 0 (fun _ => True) test)
    (hbody : ∀ a, Good N K n 1 (fun _ => True) (body a)) (a : α) :
    Good N K n 0 (fun _ => True) (do
      let s ← MonadState.get
      Parse.loop test body (s.rest.length + 1) a) := by
  intro s hs
  refine (loop_of (T := fun _ => True) (fun t ht => ?_) (fun b t ht _ => ?_) _ a hs
    (Nat.lt_succ_self _)).mono (fun _ he => he) fun _ _ h => ⟨h, fun _ => trivial⟩
  · exact (htest t ht).mono (fun _ he => he) fun _ _ h => ⟨h.1, fun _ => trivial⟩
  · exact (hbody b t ht).mono (fun _ he => he) fun _ _ h => h.1

theorem untilRBrace {body : α → Parse α} (hbody : ∀ a, Good N K n 1 (fun _ => True) (body a))
    (a : α) : Good N K n 0 (fun _ => True) (untilRBrace body a) :=
  loop ((at' .rBrace).skip fun _ _ => pure fun _ => trivial) hbody a

theorem many {test : Parse Bool} {body : Parse α} (htest : Good N K n 0 (fun _ => True) test)
    (hbody : Good N K n 1 (fun _ => True) body) :
    Good N K n 0 (fun _ => True) (many test body) :=
  loop htest (fun _ => hbody.step fun _ _ => pure fun _ => trivial) []

theorem loopAt (type : TokenType) {turn : α → Parse α}
    (hturn : ∀ a s, Ready N n s → s.tok.type = type →
      Outcome (Allowed N) (fun _ t => Past K 1 s t) (turn a) s) (a : α) (hs : Ready N n s) :
    Outcome (Allowed N) (fun _ t => Past K 0 s t)
      (Parse.loop (Parse.at' type) turn (s.rest.length + 1) a) s := by
  refine loop_of (T := fun t => t.tok.type = type) (fun t ht => ?_) hturn _ a hs
    (Nat.lt_succ_self _)
  exact Outcome.of_ok rfl ⟨Past.refl ht.lexed, of_decide_eq_true⟩

theorem afterAdvance (h : Good N K n 0 Q x) (hs : Ready N n s) {type : TokenType}
    (ht : s.tok.type = type) (hne : type ≠ .end) :
    Outcome (Allowed N) (fun a t => Past K 1 s t ∧ (N → Q a)) (do Parse.advance; x) s := by
  have hpast : Past K 1 s s.next := Past.next_of_type hs.lexed ht hne
  refine (Outcome.bind_iff_of_ok (show Parse.advance s = .ok () s.next from rfl)).mpr ?_
  refine (h s.next (hs.after hpast)).mono (fun _ he => he) ?_
  rintro a t ⟨hpast', ha⟩
  exact ⟨(hpast.trans hpast').mono (by omega), ha⟩

theorem manyAfter (type : TokenType) (hne : type ≠ .end) (hbody : Good N K n 0 Q x) :
    Good N K n 0 (fun _ => True) (manyAfter type x) := by
  intro s hs
  have hloop : Outcome (Allowed N) (fun _ t => Past K 0 s t) (Parse.loop (Parse.at' type)
      (fun found => do return found ++ [← (do Parse.advance; x)]) (s.rest.length + 1) []) s := by
    refine loopAt type (fun found t ht htype => ?_) [] hs
    refine (afterAdvance hbody ht htype hne).bind (fun _ he => he) ?_
    rintro a u ⟨hpast, -⟩
    exact hpast
  exact hloop.mono (fun _ he => he) fun _ _ h => ⟨h, fun _ => trivial⟩

theorem commaSeparated (hbody : Good N K n 1 Q x) :
    Good N K n 1 (fun _ => True) (commaSeparated x) :=
  hbody.step fun _ _ =>
    (manyAfter .comma nofun hbody.loose).skip fun _ _ => pure fun _ => trivial

theorem foldlM {γ : Type} {g : α → γ → Parse α}
    (hg : ∀ a c, Good N K n 0 (fun _ => True) (g a c)) (a : α) (cs : List γ) :
    Good N K n 0 (fun _ => True) (cs.foldlM g a) := by
  induction cs generalizing a with
  | nil => exact pure fun _ => trivial
  | cons c cs ih =>
    rw [List.foldlM_cons]
    exact (hg a c).skip fun b _ => ih b

end Good

end

/-! ### Numbers -/

section

variable {N K : Prop} {s t : Parser} {n k : Nat}

theorem converts_upTo {N : Prop} {limit n : Nat} (h : N → n ≤ limit) :
    Converts N (fun m => m = n) (upTo limit n) := by
  unfold upTo
  split
  · rfl
  case isFalse hlt => exact ⟨rfl, fun hN => hlt (h hN)⟩

/-- A literal that can be converted with its sign. -/
def FitsSigned (literal : Bool × String) : Prop :=
  literalValue literal.2 < 2 ^ 64 ∧ (literal.1 = true → literalValue literal.2 < 2 ^ 63)

theorem converts_parseIntLiteral {N : Prop} {negative : Bool} {digits : String}
    (h : N → FitsSigned (negative, digits)) :
    Converts N (fun _ => True) (parseIntLiteral negative digits) := by
  unfold parseIntLiteral
  cases negative with
  | true =>
    refine Ends.bind (converts_upTo fun hN => ?_) fun _ _ => trivial
    have hlt : literalValue digits < 2 ^ 63 := (h hN).2 rfl
    omega
  | false =>
    refine Ends.bind (converts_upTo fun hN => ?_) fun _ _ => trivial
    have hlt : literalValue digits < 2 ^ 64 := (h hN).1
    omega

/-! Where it matters which token is there the run is followed state by state. -/

section

variable {α : Type} {E : Failure → Prop} {R : α → Parser → Prop}

theorem outcome_cur {f : Token → Parse α} :
    Outcome E R (cur >>= f) s ↔ Outcome E R (f s.tok) s := Iff.rfl

theorem outcome_peek (p : Nat) {f : Token → Parse α} :
    Outcome E R (peek p >>= f) s ↔ Outcome E R (f (s.rest.getD p ⟨.end, "", 0⟩)) s := Iff.rfl

theorem outcome_at (type : TokenType) {f : Bool → Parse α} :
    Outcome E R (at' type >>= f) s ↔ Outcome E R (f (s.tok.type = type)) s := Iff.rfl

theorem outcome_atKeyword (keyword : String) {f : Bool → Parse α} :
    Outcome E R (atKeyword keyword >>= f) s ↔
      Outcome E R (f (s.tok.type = .name && s.tok.text = keyword)) s := Iff.rfl

theorem outcome_advance {f : Unit → Parse α} :
    Outcome E R (advance >>= f) s ↔ Outcome E R (f ()) s.next := Iff.rfl

theorem outcome_expect (type : TokenType) (what : String) {f : Token → Parse α}
    (h : s.tok.type = type → Outcome (Allowed N) R (f s.tok) s.next) :
    Outcome (Allowed N) R (expect type what >>= f) s := by
  by_cases ht : s.tok.type = type
  · have hexpect : expect type what s = .ok s.tok s.next := by
      unfold expect
      rw [bind_ok (show cur s = .ok s.tok s from rfl), if_pos ht]
      rfl
    exact (Outcome.bind_iff_of_ok hexpect).mpr (h ht)
  · have hexpect : ∃ msg line, expect type what s = .error (.parseError msg line) s := by
      unfold expect
      rw [bind_ok (show cur s = .ok s.tok s from rfl), if_neg ht]
      exact ⟨_, _, rfl⟩
    obtain ⟨msg, line, hexpect⟩ := hexpect
    exact Outcome.of_error (bind_eq_error.mpr (Or.inl hexpect)) (allowed_parseError N msg line)

theorem outcome_liftResult {β : Type} {y : Except Failure β} {Q : β → Prop} {f : β → Parse α}
    (h : Converts N Q y) (hf : ∀ b, Outcome (Allowed N) R (f b) s) :
    Outcome (Allowed N) R (liftResult y >>= f) s := by
  cases y with
  | ok b => exact hf b
  | error e => exact Outcome.of_error (t := s) rfl (Or.inr h)

end

theorem integer_eq {t : Token} (h : t.type = .number ∨ t.type = .hexNumber) :
    t.integer = literalValue t.text := by
  have hinteger : t.isInteger = true := by
    unfold Token.isInteger
    rcases h with h | h <;> simp [h]
  rw [Token.integer, if_pos hinteger]

theorem good_unsigned (negative : Bool) (hs : Ready N n s)
    (hnegative : N → negative = true → s.tok.integer < 2 ^ 63) :
    Outcome (Allowed N) (fun a t => Past K 1 s t ∧ (N → FitsSigned a))
      (do
        if ← at' .hexNumber then
          let num ← cur
          advance
          return (negative, num.text)
        let num ← expect .number "number"
        return (negative, num.text)) s := by
  have hfits : N → s.tok.type = .number ∨ s.tok.type = .hexNumber →
      FitsSigned (negative, s.tok.text) := by
    intro hN htype
    have hinteger := integer_eq htype
    have hne : s.tok.type ≠ .end := by rcases htype with h | h <;> rw [h] <;> nofun
    have hlt := (hs.literalFits hN hne).integer
    rw [hinteger] at hlt
    refine ⟨hlt, fun hneg => ?_⟩
    rw [← hinteger]
    exact hnegative hN hneg
  rw [outcome_at]
  split
  case isTrue hhex =>
    have htype : s.tok.type = .hexNumber := of_decide_eq_true hhex
    rw [outcome_cur, outcome_advance]
    exact ⟨Past.next_of_type hs.lexed htype nofun, fun hN => hfits hN (Or.inr htype)⟩
  case isFalse =>
    refine outcome_expect .number "number" fun htype => ?_
    exact ⟨Past.next_of_type hs.lexed htype nofun, fun hN => hfits hN (Or.inl htype)⟩

theorem good_parseSignedNumber : Good N K n 1 FitsSigned parseSignedNumber := by
  intro s hs
  unfold parseSignedNumber
  rw [outcome_at]
  split
  case isTrue hminus =>
    have htype : s.tok.type = .minus := of_decide_eq_true hminus
    have hpast : Past K 1 s s.next := Past.next_of_type hs.lexed htype nofun
    rw [outcome_advance]
    refine (good_unsigned (K := K) _ (hs.after hpast) fun hN _ => ?_).mono
      (fun _ he => he) ?_
    · exact (hs.literalFits hN (by rw [htype]; nofun)).negative htype
    · rintro a t ⟨hpast', ha⟩
      exact ⟨(hpast.trans hpast').mono (by omega), ha⟩
  case isFalse hminus =>
    exact good_unsigned _ hs fun _ hneg => absurd hneg hminus

theorem converts_stod {text : String} (h : N → fitsDouble text = true) :
    Converts N (fun _ => True) (stod text) := by
  unfold stod
  split
  · trivial
  case isFalse hfits => exact ⟨rfl, fun hN => hfits (h hN)⟩

theorem good_unsignedFloat (negative : Bool) (hs : Ready N n s)
    (hinteger : N → s.tok.integer < 2 ^ 63) :
    Outcome (Allowed N) (fun _ t => Past K 1 s t)
      (do
        let token ← cur
        if token.type = .floatNumber then
          liftResult (stod token.text)
          advance
          return { negative, text := token.text }
        else if token.type = .hexNumber ∨ token.type = .number then
          let _ ← liftResult (stoll token.text)
          advance
          return { negative, text := token.text }
        else parseError "expected a float/double literal" token.line : Parse FloatLiteral) s := by
  rw [outcome_cur]
  split
  case isTrue htype =>
    refine outcome_liftResult (converts_stod fun hN => ?_) fun _ => ?_
    · exact (hs.literalFits hN (by rw [htype]; nofun)).float htype
    · rw [outcome_advance]
      exact Past.next_of_type hs.lexed htype nofun
  case isFalse =>
    split
    case isTrue htype =>
      refine outcome_liftResult (converts_upTo fun hN => ?_) fun _ => ?_
      · have hlt := hinteger hN
        rw [integer_eq htype.symm] at hlt
        omega
      · rw [outcome_advance]
        rcases htype with htype | htype <;> exact Past.next_of_type hs.lexed htype nofun
    case isFalse => exact allowed_parseError N _ _

theorem outcome_parseFloatValue (hs : Ready N n s) (hinteger : N → signedInteger s.rest < 2 ^ 63) :
    Outcome (Allowed N) (fun _ t => Past K 1 s t) parseFloatValue s := by
  unfold parseFloatValue
  rw [outcome_at]
  split
  case isTrue hminus =>
    have htype : s.tok.type = .minus := of_decide_eq_true hminus
    have hpast : Past K 1 s s.next := Past.next_of_type hs.lexed htype nofun
    rw [outcome_advance]
    refine (good_unsignedFloat (K := K) _ (hs.after hpast) fun hN => ?_).mono
      (fun _ he => he) fun a t hpast' => (hpast.trans hpast').mono (by omega)
    exact (hs.literalFits hN (by rw [htype]; nofun)).negative htype
  case isFalse hminus =>
    have hne : ¬ (headToken s.rest).type = .minus := fun h => hminus (decide_eq_true h)
    refine good_unsignedFloat _ hs fun hN => ?_
    have hlt := hinteger hN
    rw [signedInteger, if_neg hne] at hlt
    exact hlt

theorem good_parseOrdinal (what : String) : Good N K n 1 (fun _ => True) (parseOrdinal what) := by
  unfold parseOrdinal
  refine (Good.expect .number what nofun).step fun num hnum => ?_
  refine (Good.liftResult (converts_upTo fun hN => ?_)).skip fun _ _ =>
    Good.pure fun _ => trivial
  obtain ⟨htype, hlt⟩ := hnum hN
  rw [integer_eq (Or.inl htype)] at hlt
  omega

theorem good_parseOptionalOrdinal (what : String) :
    Good N K n 0 (fun _ => True) (parseOptionalOrdinal what) := by
  unfold parseOptionalOrdinal
  refine (Good.at' .at).skip fun go _ => ?_
  split
  · refine Good.advance.skip fun _ _ => ?_
    exact (good_parseOrdinal what).pass fun _ _ => Good.pure fun _ => trivial
  · exact Good.pure fun _ => trivial

end

/-! ### Tokens that are asked for -/

section

variable {s t : Parser}

theorem expect_ok {type : TokenType} {what : String} {a : Token} (hs : WellLexed s.rest)
    (h : expect type what s = .ok a t) (hne : type ≠ .end) :
    s.rest = a :: t.rest ∧ a.type = type ∧ WellLexed t.rest := by
  obtain ⟨rfl, htype, rfl⟩ := runs_of_triple (fun o => expect_spec type what) h
  exact ⟨hs.next htype hne, htype, hs.of_next htype hne⟩

theorem expectName_ok {what name : String} (hs : WellLexed s.rest)
    (h : expectName what s = .ok name t) :
    ∃ a, s.rest = a :: t.rest ∧ a.type = .name ∧ a.text = name ∧ WellLexed t.rest := by
  unfold expectName at h
  obtain ⟨a, t', ha, hname⟩ := bind_eq_ok.mp h
  obtain ⟨rfl, rfl⟩ := EStateM.Result.ok.inj hname
  obtain ⟨hrest, htype, hlexed⟩ := expect_ok hs ha nofun
  exact ⟨a, hrest, htype, rfl, hlexed⟩

end

end Voodoo.Compiler
