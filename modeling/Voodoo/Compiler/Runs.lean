import Voodoo.Compiler.CompleteTypes
import Voodoo.Compiler.Headers
import Voodoo.Compiler.Sites
import Mathlib

/-!
# What a parse reads and returns

A specification for each parse function.  `Run s t` says of a part of a parse that it
passed no brace, so the scan of the same tokens stays in the body it is in, and that it
synthesized no union.  What is returned is described by `Env.Resolved`: each reference
in a type is what `Env.bareType`, `Env.dottedType` or `interfaceHandle` made of the
names it is spelled with.
-/

namespace Voodoo.Compiler

open Std.Do Parse List

set_option mvcgen.warning false

/-! ### Moving over tokens -/

namespace Parser

/-- `Cur()`. -/
def tok (s : Parser) : Token := s.rest.headD ⟨.end, "", 0⟩

/-- The state after `Advance()`. -/
def next (s : Parser) : Parser :=
  match s.rest with
  | _ :: t :: tokens => { s with rest := t :: tokens }
  | _ => s

end Parser

/-- A brace token has no text, which tells it from a name. -/
def Token.Lexed (t : Token) : Prop := t.type = .lBrace ∨ t.type = .rBrace → t.text = ""

def Token.Plain (t : Token) : Prop := t.type = .lBrace ∨ t.type = .rBrace → t.text ≠ ""

/-- As `Tokenize` leaves them. -/
structure WellLexed (ts : List Token) : Prop where
  ended : ∃ t, ts.getLast? = some t ∧ t.type = .end
  lexed : ∀ t ∈ ts, t.Lexed

/-- From `s` to `t` no brace is passed. -/
def Clear (s t : Parser) : Prop :=
  WellLexed s.rest → WellLexed t.rest ∧ ∃ passed, s.rest = passed ++ t.rest ∧
    ∀ u ∈ passed, u.type ≠ .lBrace ∧ u.type ≠ .rBrace

/-- Between the two states the tokens hold the headers `H`. -/
def Reads (s t : Parser) (H : String → List Header) : Prop :=
  WellLexed s.rest → WellLexed t.rest ∧ Covers s.rest t.rest H

structure Run (s t : Parser) : Prop where
  reads : Reads s t (fun _ => [])
  clear : Clear s t
  pending : t.pendingResultUnions = s.pendingResultUnions

section

variable {s t u : Parser} {H K : String → List Header}

attribute [grind →] Run.pending

theorem Reads.trans (h : Reads s t H) (h' : Reads t u K) :
    Reads s u (fun owner => H owner ++ K owner) := by
  intro hs
  obtain ⟨ht, hH⟩ := h hs
  obtain ⟨hu, hK⟩ := h' ht
  exact ⟨hu, hH.trans hK⟩

theorem Reads.mono (h : Reads s t H) (hsub : ∀ owner, K owner ⊆ H owner) : Reads s t K :=
  fun hs => ⟨(h hs).1, (h hs).2.mono hsub⟩

theorem Clear.of_eq (h : t.rest = s.rest) : Clear s t :=
  fun hs => ⟨h ▸ hs, [], by rw [h, nil_append], fun _ hu => absurd hu not_mem_nil⟩

theorem Clear.trans (h : Clear s t) (h' : Clear t u) : Clear s u := by
  intro hs
  obtain ⟨ht, a, ha, hclear⟩ := h hs
  obtain ⟨hu, b, hb, hclear'⟩ := h' ht
  refine ⟨hu, a ++ b, by rw [ha, hb, List.append_assoc], fun v hv => ?_⟩
  rcases mem_append.mp hv with hv | hv
  · exact hclear v hv
  · exact hclear' v hv

@[refl, grind .] theorem Run.refl (s : Parser) : Run s s where
  reads hs := ⟨hs, Covers.refl _⟩
  clear := .of_eq rfl
  pending := rfl

@[grind →] theorem Run.trans (h : Run s t) (h' : Run t u) : Run s u where
  reads := h.reads.trans h'.reads
  clear := h.clear.trans h'.clear
  pending := h'.pending.trans h.pending

theorem Run.of_eq (h : t.rest = s.rest) (hp : t.pendingResultUnions = s.pendingResultUnions) :
    Run s t where
  reads hs := by
    rw [h]
    exact ⟨hs, Covers.refl _⟩
  clear := .of_eq h
  pending := hp

theorem Run.trans_of_eq (h : Run s t) (hr : u.rest = t.rest)
    (hp : u.pendingResultUnions = t.pendingResultUnions) : Run s u := h.trans (.of_eq hr hp)

grind_pattern Run.trans_of_eq => Run s t, Run s u

theorem WellLexed.tail {a b : Token} {ts : List Token} (h : WellLexed (a :: b :: ts)) :
    WellLexed (b :: ts) where
  ended := by simpa [getLast?_cons_cons] using h.ended
  lexed t ht := h.lexed t (mem_cons_of_mem _ ht)

@[grind =] theorem pendingResultUnions_next :
    s.next.pendingResultUnions = s.pendingResultUnions := by
  unfold Parser.next
  split <;> rfl

theorem WellLexed.not_brace (hs : WellLexed s.rest) (h : s.tok.Plain) (hmem : s.tok ∈ s.rest) :
    s.tok.type ≠ .lBrace ∧ s.tok.type ≠ .rBrace := by
  have hlexed := hs.lexed s.tok hmem
  exact ⟨fun hl => h (Or.inl hl) (hlexed (Or.inl hl)), fun hr => h (Or.inr hr) (hlexed (Or.inr hr))⟩

theorem Run.next (h : s.tok.Plain) : Run s s.next where
  reads := by
    intro hs
    unfold Parser.next
    split
    · next a b ts hrest =>
      obtain rfl : s.tok = a := by rw [Parser.tok, hrest]; rfl
      obtain ⟨hl, hr⟩ := hs.not_brace h (hrest ▸ mem_cons_self)
      rw [hrest] at hs ⊢
      exact ⟨hs.tail, Covers.step hl hr _⟩
    · exact ⟨hs, Covers.refl _⟩
  clear := by
    intro hs
    unfold Parser.next
    split
    · next a b ts hrest =>
      obtain rfl : s.tok = a := by rw [Parser.tok, hrest]; rfl
      have hbrace := hs.not_brace h (hrest ▸ mem_cons_self)
      rw [hrest] at hs
      exact ⟨hs.tail, [s.tok], hrest, fun u hu => mem_singleton.mp hu ▸ hbrace⟩
    · exact Clear.of_eq rfl hs
  pending := pendingResultUnions_next

theorem Run.next_of_type (h : s.tok.type ≠ .lBrace ∧ s.tok.type ≠ .rBrace ∨ s.tok.text ≠ "") :
    Run s s.next :=
  Run.next (fun hb => h.elim (fun hne => absurd hb (not_or.mpr hne)) id)

grind_pattern Run.next_of_type => s.next

end

/-! ### Triples and runs -/

section

variable {α : Type} {x : Parse α} {R : Parser → α → Parser → Prop}

theorem triple_of_runs (h : ∀ s a s', x s = .ok a s' → R s a s') (o : Parser) :
    ⦃fun s => ⌜s = o⌝⦄ x ⦃⇓? a => fun s => ⌜R o a s⌝⦄ := by
  intro s hs
  obtain rfl : s = o := hs
  simp only [wp, PredTrans.apply, EStateM.run]
  cases hx : x s with
  | ok a s' => exact h s a s' hx
  | error e s' => trivial

theorem runs_of_spec {Q : α → Parser → Prop} {s s' : Parser} {a : α}
    (h : ⦃fun t => ⌜t = s⌝⦄ x ⦃⇓? a => fun t => ⌜Q a t⌝⦄) (hx : x s = .ok a s') : Q a s' := by
  have h := h s rfl
  simp only [wp, PredTrans.apply, EStateM.run, hx] at h
  exact h

theorem runs_of_triple (h : ∀ o, ⦃fun s => ⌜s = o⌝⦄ x ⦃⇓? a => fun s => ⌜R o a s⌝⦄)
    {s s' : Parser} {a : α} (hx : x s = .ok a s') : R s a s' := runs_of_spec (h s) hx

end

theorem spec_of {α : Type} {x : Parse α} {P : α → Prop} {o : Parser}
    (h : ⦃fun s => ⌜s = o⌝⦄ x ⦃⇓? a => fun s => ⌜P a ∧ Run o s⌝⦄) :
    ⦃fun s => ⌜s = o⌝⦄ x ⦃⇓? a => fun s => ⌜Run o s ∧ P a⌝⦄ := by
  mvcgen [h]
  grind

theorem run_of {α : Type} {x : Parse α} {o : Parser}
    (h : ⦃fun s => ⌜s = o⌝⦄ x ⦃⇓? _ => fun s => ⌜True ∧ Run o s⌝⦄) :
    ⦃fun s => ⌜s = o⌝⦄ x ⦃⇓? _ => fun s => ⌜Run o s⌝⦄ := by
  mvcgen [h]
  grind

/-! ### Primitives -/

section

variable {o : Parser} {α β : Type}

@[spec] theorem cur_spec :
    ⦃fun s => ⌜s = o⌝⦄ cur ⦃⇓? a => fun s => ⌜s = o ∧ a = o.tok⌝⦄ := by
  mvcgen [cur]
  simp_all [Parser.tok]

@[spec] theorem peek_spec (n : Nat) :
    ⦃fun s => ⌜s = o⌝⦄ peek n ⦃⇓? a => fun s => ⌜s = o ∧ a = o.rest.getD n ⟨.end, "", 0⟩⌝⦄ := by
  mvcgen [peek]
  simp_all

@[spec] theorem at_spec (type : TokenType) :
    ⦃fun s => ⌜s = o⌝⦄ at' type ⦃⇓? b => fun s => ⌜s = o ∧ b = decide (o.tok.type = type)⌝⦄ := by
  mvcgen [at']
  simp_all

@[spec] theorem atKeyword_spec (keyword : String) :
    ⦃fun s => ⌜s = o⌝⦄ atKeyword keyword
    ⦃⇓? b => fun s => ⌜s = o ∧ (b = true ↔ o.tok.type = .name ∧ o.tok.text = keyword)⌝⦄ := by
  mvcgen [atKeyword]
  simp_all

@[spec] theorem advance_spec :
    ⦃fun s => ⌜s = o⌝⦄ advance ⦃⇓? _ => fun s => ⌜s = o.next⌝⦄ := by
  mvcgen [advance]
  next s h _ =>
    rw [← h]
    rfl

@[spec] theorem parseError_spec (msg : String) (line : Nat) :
    ⦃fun _ => ⌜True⌝⦄ (parseError msg line : Parse α) ⦃⇓? _ => fun _ => ⌜False⌝⦄ := by
  mvcgen [parseError]

@[spec] theorem liftResult_spec (x : Except Failure α) :
    ⦃fun s => ⌜s = o⌝⦄ liftResult x ⦃⇓? _ => fun s => ⌜s = o⌝⦄ := by
  mvcgen [liftResult]

@[spec] theorem expect_spec (type : TokenType) (what : String) :
    ⦃fun s => ⌜s = o⌝⦄ expect type what
    ⦃⇓? a => fun s => ⌜s = o.next ∧ o.tok.type = type ∧ a = o.tok⌝⦄ := by
  mvcgen [expect]
  all_goals simp_all

@[spec] theorem expectName_spec (what : String) :
    ⦃fun s => ⌜s = o⌝⦄ expectName what
    ⦃⇓? a => fun s => ⌜s = o.next ∧ o.tok.type = .name ∧ a = o.tok.text⌝⦄ := by
  mvcgen [expectName]
  all_goals simp_all

@[spec] theorem expectKeyword_spec (keyword : String) :
    ⦃fun s => ⌜s = o⌝⦄ expectKeyword keyword
    ⦃⇓? _ => fun s => ⌜s = o.next ∧ o.tok.type = .name ∧ o.tok.text = keyword⌝⦄ := by
  mvcgen [expectKeyword]
  all_goals simp_all

end

/-! ### Numbers and attributes -/

section

variable {o : Parser}

@[spec] theorem parseSignedNumber_spec :
    ⦃fun s => ⌜s = o⌝⦄ parseSignedNumber ⦃⇓? _ => fun s => ⌜Run o s⌝⦄ := by
  mvcgen [parseSignedNumber]
  all_goals grind

@[spec] theorem parseFloatValue_spec :
    ⦃fun s => ⌜s = o⌝⦄ parseFloatValue ⦃⇓? _ => fun s => ⌜Run o s⌝⦄ := by
  mvcgen [parseFloatValue]
  all_goals grind

@[spec] theorem parseOrdinal_spec (what : String) :
    ⦃fun s => ⌜s = o⌝⦄ parseOrdinal what ⦃⇓? _ => fun s => ⌜Run o s⌝⦄ := by
  mvcgen [parseOrdinal]
  all_goals grind

@[spec] theorem parseOptionalOrdinal_spec (what : String) :
    ⦃fun s => ⌜s = o⌝⦄ parseOptionalOrdinal what ⦃⇓? _ => fun s => ⌜Run o s⌝⦄ := by
  mvcgen [parseOptionalOrdinal]
  all_goals grind

theorem loop_runs {test : Parse Bool} {body : α → Parse α} {Q : α → Prop} {T : Parser → Prop}
    (htest : ∀ s b s', test s = .ok b s' → Run s s' ∧ (b = true → T s'))
    (hbody : ∀ a s b s', Q a → T s → body a s = .ok b s' → Run s s' ∧ Q b) {turns : Nat} {a b : α}
    {s s' : Parser} (h : loop test body turns a s = .ok b s') (ha : Q a) : Run s s' ∧ Q b := by
  induction turns generalizing a s with
  | zero => cases h
  | succ turns ih =>
    obtain ⟨go, s₁, ht, h⟩ := EState.bind_eq_ok.mp h
    obtain ⟨hrun, hT⟩ := htest s go s₁ ht
    cases go with
    | true =>
      obtain ⟨c, s₂, hc, h⟩ := EState.bind_eq_ok.mp h
      obtain ⟨hrun', hQ⟩ := hbody a s₁ c s₂ ha (hT rfl) hc
      obtain ⟨hrun'', hQ'⟩ := ih h hQ
      exact ⟨(hrun.trans hrun').trans hrun'', hQ'⟩
    | false =>
      obtain ⟨rfl, rfl⟩ := EStateM.Result.ok.inj h
      exact ⟨hrun, ha⟩

theorem many_runs {test : Parse Bool} {body : Parse α} {Q : α → Prop} {T : Parser → Prop}
    (htest : ∀ s b s', test s = .ok b s' → Run s s' ∧ (b = true → T s'))
    (hbody : ∀ s a s', T s → body s = .ok a s' → Run s s' ∧ Q a) {found : List α} {s s' : Parser}
    (h : many test body s = .ok found s') : Run s s' ∧ ∀ a ∈ found, Q a := by
  obtain ⟨t, s₁, hget, h⟩ := EState.bind_eq_ok.mp h
  obtain ⟨rfl, rfl⟩ := EStateM.Result.ok.inj hget
  refine loop_runs (Q := fun found => ∀ a ∈ found, Q a) htest (fun found s more s' hfound hT h => ?_)
    h (fun a ha => absurd ha not_mem_nil)
  obtain ⟨a, s₁, ha, h⟩ := EState.bind_eq_ok.mp h
  obtain ⟨rfl, rfl⟩ := EStateM.Result.ok.inj h
  obtain ⟨hrun, hQ⟩ := hbody s a s₁ hT ha
  refine ⟨hrun, fun b hb => ?_⟩
  rcases mem_append.mp hb with hb | hb
  · exact hfound b hb
  · rwa [mem_singleton.mp hb]

theorem manyAfter_runs {type : TokenType} {body : Parse α} {Q : α → Prop}
    (htype : type ≠ .lBrace ∧ type ≠ .rBrace)
    (hbody : ∀ s a s', body s = .ok a s' → Run s s' ∧ Q a) {found : List α} {s s' : Parser}
    (h : manyAfter type body s = .ok found s') : Run s s' ∧ ∀ a ∈ found, Q a := by
  refine many_runs (T := fun s => s.tok.type = type) (fun s b s' h => ?_) (fun s a s' hT h => ?_) h
  · obtain ⟨rfl, rfl⟩ := runs_of_triple (fun o => at_spec type) h
    exact ⟨.refl s', of_decide_eq_true⟩
  · obtain ⟨_, s₁, hadv, h⟩ := EState.bind_eq_ok.mp h
    obtain rfl := runs_of_triple (fun o => advance_spec) hadv
    obtain ⟨hrun, hQ⟩ := hbody s.next a s' h
    exact ⟨(Run.next_of_type (Or.inl (by rwa [hT]))).trans hrun, hQ⟩

theorem manyAfter_spec (type : TokenType) {body : Parse α} {Q : α → Prop}
    (htype : type ≠ .lBrace ∧ type ≠ .rBrace)
    (hbody : ∀ o, ⦃fun s => ⌜s = o⌝⦄ body ⦃⇓? a => fun s => ⌜Run o s ∧ Q a⌝⦄) :
    ⦃fun s => ⌜s = o⌝⦄ manyAfter type body
    ⦃⇓? found => fun s => ⌜Run o s ∧ ∀ a ∈ found, Q a⌝⦄ :=
  triple_of_runs (fun _ _ _ => manyAfter_runs htype (fun _ _ _ => runs_of_triple hbody)) o

theorem commaSeparated_spec {item : Parse α} {Q : α → Prop}
    (hitem : ∀ o, ⦃fun s => ⌜s = o⌝⦄ item ⦃⇓? a => fun s => ⌜Run o s ∧ Q a⌝⦄) :
    ⦃fun s => ⌜s = o⌝⦄ commaSeparated item
    ⦃⇓? found => fun s => ⌜Run o s ∧ ∀ a ∈ found, Q a⌝⦄ := by
  have hmany := fun o => manyAfter_spec (o := o) .comma (by decide) hitem
  mvcgen [commaSeparated, hitem, hmany]
  all_goals grind

theorem loopUntil_spec (type : TokenType) {body : α → Parse α} {I : α → Parser → Prop}
    (hbody : ∀ a o, ⦃fun s => ⌜s = o⌝⦄ body a ⦃⇓? b => fun s => ⌜I a o → I b s⌝⦄) (turns : Nat)
    (a : α) (ha : I a o) :
    ⦃fun s => ⌜s = o⌝⦄ loop (do return !(← at' type)) body turns a
    ⦃⇓? b => fun s => ⌜I b s⌝⦄ := by
  have hloop {a b : α} {s s' : Parser}
      (h : loop (do return !(← at' type)) body turns a s = .ok b s') (ha : I a s) : I b s' := by
    induction turns generalizing a s with
    | zero => cases h
    | succ turns ih =>
      obtain ⟨go, s₁, ht, h⟩ := EState.bind_eq_ok.mp h
      obtain rfl : s = s₁ := by
        obtain ⟨b, s₂, hat, ht⟩ := EState.bind_eq_ok.mp ht
        obtain ⟨rfl, -⟩ := runs_of_triple (fun o => at_spec type) hat
        exact (EStateM.Result.ok.inj ht).2
      cases go with
      | true =>
        obtain ⟨c, s₂, hc, h⟩ := EState.bind_eq_ok.mp h
        exact ih h (runs_of_spec (hbody a s) hc ha)
      | false =>
        obtain ⟨rfl, rfl⟩ := EStateM.Result.ok.inj h
        exact ha
  have htriple := triple_of_runs (R := fun s b s' => I a s → I b s') (fun _ _ _ h ha => hloop h ha)
  mvcgen [htriple]
  grind

theorem untilRBrace_spec {body : α → Parse α} {I : α → Parser → Prop}
    (hbody : ∀ a o, ⦃fun s => ⌜s = o⌝⦄ body a ⦃⇓? b => fun s => ⌜I a o → I b s⌝⦄) (a : α)
    (ha : I a o) :
    ⦃fun s => ⌜s = o⌝⦄ untilRBrace body a ⦃⇓? b => fun s => ⌜I b s⌝⦄ := by
  have hloop := fun turns => loopUntil_spec .rBrace hbody turns a ha
  mvcgen [untilRBrace, hloop]

theorem foldlM_spec {f : α → β → Parse α} {Q : α → Prop}
    (hf : ∀ a b o, ⦃fun s => ⌜s = o⌝⦄ f a b ⦃⇓? c => fun s => ⌜s = o ∧ (Q a → Q c)⌝⦄)
    (bs : List β) (a : α) (o : Parser) :
    ⦃fun s => ⌜s = o⌝⦄ bs.foldlM f a ⦃⇓? c => fun s => ⌜s = o ∧ (Q a → Q c)⌝⦄ := by
  induction bs generalizing a with
  | nil =>
    rw [foldlM_nil]
    mvcgen
    grind
  | cons b bs ih =>
    rw [foldlM_cons]
    mvcgen [hf, ih]
    all_goals grind

end

section

variable {o : Parser}

@[spec] theorem manyAfter_expectName_spec (type : TokenType) (what : String)
    (htype : type ≠ .lBrace ∧ type ≠ .rBrace) :
    ⦃fun s => ⌜s = o⌝⦄ manyAfter type (expectName what) ⦃⇓? _ => fun s => ⌜Run o s⌝⦄ := by
  have h := fun o => manyAfter_spec (o := o) (Q := fun _ => True) type htype (fun o => by
    mvcgen
    grind : ∀ o, ⦃fun s => ⌜s = o⌝⦄ expectName what ⦃⇓? _ => fun s => ⌜Run o s ∧ True⌝⦄)
  mvcgen [h]
  all_goals grind

@[spec] theorem parseAttributeValue_spec :
    ⦃fun s => ⌜s = o⌝⦄ parseAttributeValue ⦃⇓? _ => fun s => ⌜Run o s⌝⦄ := by
  mvcgen [parseAttributeValue]
  all_goals grind

@[spec] theorem parseAttribute_spec :
    ⦃fun s => ⌜s = o⌝⦄ parseAttribute ⦃⇓? _ => fun s => ⌜Run o s ∧ True⌝⦄ := by
  mvcgen [parseAttribute]
  all_goals grind

@[spec] theorem parseAttributeList_spec :
    ⦃fun s => ⌜s = o⌝⦄ parseAttributeList ⦃⇓? _ => fun s => ⌜Run o s⌝⦄ := by
  have h := fun o => commaSeparated_spec (o := o) (fun _ => parseAttribute_spec)
  mvcgen [parseAttributeList, h]
  all_goals grind

@[spec] theorem parseOptionalAttributes_spec :
    ⦃fun s => ⌜s = o⌝⦄ parseOptionalAttributes ⦃⇓? _ => fun s => ⌜Run o s⌝⦄ := by
  mvcgen [parseOptionalAttributes]
  all_goals grind

@[spec] theorem fillEnableIf_spec (dst : EnableIf) (a : ParsedAttribute) :
    ⦃fun s => ⌜s = o⌝⦄ fillEnableIf dst a ⦃⇓? _ => fun s => ⌜s = o⌝⦄ := by
  mvcgen [fillEnableIf]

@[spec] theorem flagAttribute_spec (a : ParsedAttribute) :
    ⦃fun s => ⌜s = o⌝⦄ flagAttribute a ⦃⇓? _ => fun s => ⌜s = o⌝⦄ := by
  mvcgen [flagAttribute]
  grind

@[spec] theorem minVersionAttribute_spec (a : ParsedAttribute) :
    ⦃fun s => ⌜s = o⌝⦄ minVersionAttribute a ⦃⇓? _ => fun s => ⌜s = o⌝⦄ := by
  mvcgen [minVersionAttribute]
  all_goals grind

@[spec] theorem foldlM_fillEnableIf_spec (attrs : List ParsedAttribute) (dst : EnableIf) :
    ⦃fun s => ⌜s = o⌝⦄ attrs.foldlM fillEnableIf dst ⦃⇓? _ => fun s => ⌜s = o⌝⦄ := by
  have h := foldlM_spec (Q := fun _ : EnableIf => True) (f := fillEnableIf) (fun a b o => by
    mvcgen
    grind)
  mvcgen [-Spec.foldlM_list, h]
  grind

end

/-! ### Types -/

section

variable {o : Parser} {env : Env}

@[spec] theorem checkValidMapKeyType_spec (key : TypeSpec) :
    ⦃fun s => ⌜s = o⌝⦄ checkValidMapKeyType key ⦃⇓? _ => fun s => ⌜s = o⌝⦄ := by
  refine triple_of_runs (R := fun o _ s => s = o) (fun s u s' h => ?_) o
  obtain ⟨token, s₁, hcur, h⟩ := EState.bind_eq_ok.mp h
  obtain ⟨rfl, rfl⟩ := EStateM.Result.ok.inj hcur
  split at h
  · cases h
  · by_cases hk : key.isMapKey
    · rw [if_pos hk] at h
      exact (EStateM.Result.ok.inj h).2.symm
    · rw [if_neg hk] at h
      cases h

@[spec] theorem dottedNames_spec :
    ⦃fun s => ⌜s = o⌝⦄ dottedNames ⦃⇓? _ => fun s => ⌜Run o s⌝⦄ := by
  mvcgen [dottedNames]
  all_goals grind

@[spec] theorem parseHandleType_spec :
    ⦃fun s => ⌜s = o⌝⦄ parseHandleType
    ⦃⇓? t => fun s => ⌜Run o s ∧ ∃ kind, t = .handle kind [] ⟨"", "", ""⟩⌝⦄ := by
  mvcgen [parseHandleType]
  all_goals grind

@[spec] theorem parseAssociatedType_spec :
    ⦃fun s => ⌜s = o⌝⦄ parseAssociatedType env
    ⦃⇓? t => fun s => ⌜Run o s ∧ env.Resolved t⌝⦄ := by
  mvcgen [parseAssociatedType]
  all_goals grind

@[spec] theorem parsePendingType_spec (kind : HandleKind) :
    ⦃fun s => ⌜s = o⌝⦄ parsePendingType env kind
    ⦃⇓? t => fun s => ⌜Run o s ∧ env.Resolved t⌝⦄ := by
  mvcgen [parsePendingType]
  all_goals grind

section

variable {type : Parse TypeSpec}
  (htype : ∀ o, ⦃fun s => ⌜s = o⌝⦄ type ⦃⇓? t => fun s => ⌜Run o s ∧ env.Resolved t⌝⦄)
include htype

theorem parseArrayType_spec :
    ⦃fun s => ⌜s = o⌝⦄ parseArrayType type
    ⦃⇓? t => fun s => ⌜Run o s ∧ env.Resolved t⌝⦄ := by
  mvcgen [parseArrayType, htype]
  all_goals grind

theorem parseMapType_spec :
    ⦃fun s => ⌜s = o⌝⦄ parseMapType type
    ⦃⇓? t => fun s => ⌜Run o s ∧ env.Resolved t⌝⦄ := by
  mvcgen [parseMapType, htype]
  all_goals grind

theorem parseTypeSpecInner_spec :
    ⦃fun s => ⌜s = o⌝⦄ parseTypeSpecInner env type
    ⦃⇓? t => fun s => ⌜Run o s ∧ env.Resolved t⌝⦄ := by
  have harray := fun o => parseArrayType_spec (o := o) htype
  have hmap := fun o => parseMapType_spec (o := o) htype
  apply spec_of
  mvcgen [parseTypeSpecInner, harray, hmap]
  all_goals grind

end

theorem parseTypeSpecIn_spec (depth : Nat) :
    ⦃fun s => ⌜s = o⌝⦄ parseTypeSpecIn env depth
    ⦃⇓? t => fun s => ⌜Run o s ∧ env.Resolved t⌝⦄ := by
  induction depth generalizing o with
  | zero => mvcgen [parseTypeSpecIn]
  | succ depth ih =>
    have hinner := fun o => parseTypeSpecInner_spec (o := o) (fun o => ih (o := o))
    mvcgen [parseTypeSpecIn, hinner]
    all_goals grind

@[spec] theorem parseTypeSpec_spec :
    ⦃fun s => ⌜s = o⌝⦄ parseTypeSpec env
    ⦃⇓? t => fun s => ⌜Run o s ∧ env.Resolved t⌝⦄ := by
  mvcgen [parseTypeSpec, parseTypeSpecIn_spec]

end

/-! ### Defaults and consts -/

section

variable {o : Parser} {env : Env}

@[spec] theorem resolveConstDefault_spec (fieldType : TypeSpec) (name : String) (line : Nat) :
    ⦃fun s => ⌜s = o⌝⦄ resolveConstDefault fieldType name line ⦃⇓? _ => fun s => ⌜s = o⌝⦄ := by
  mvcgen [resolveConstDefault]
  all_goals grind

@[spec] theorem constContainerOf_spec (name : String) :
    ⦃fun s => ⌜s = o⌝⦄ constContainerOf name ⦃⇓? _ => fun s => ⌜s = o⌝⦄ := by
  mvcgen [constContainerOf]

@[spec] theorem manyAfter_expect_spec (type : TokenType) (what : String)
    (htype : type ≠ .lBrace ∧ type ≠ .rBrace) :
    ⦃fun s => ⌜s = o⌝⦄ manyAfter type (expect .name what) ⦃⇓? _ => fun s => ⌜Run o s⌝⦄ := by
  have hbody : ∀ o, ⦃fun s => ⌜s = o⌝⦄ expect .name what ⦃⇓? _ => fun s => ⌜Run o s ∧ True⌝⦄ := by
    intro o
    mvcgen
    grind
  have h := fun o => manyAfter_spec (o := o) type htype hbody
  mvcgen [h]
  all_goals grind

@[spec] theorem resolveConstReference_spec (fieldType : TypeSpec) :
    ⦃fun s => ⌜s = o⌝⦄ resolveConstReference fieldType ⦃⇓? _ => fun s => ⌜Run o s⌝⦄ := by
  mvcgen [resolveConstReference]
  all_goals grind

@[spec] theorem namedDefault_spec (fieldType : TypeSpec) (copy : DefaultValue → DefaultValue) :
    ⦃fun s => ⌜s = o⌝⦄ namedDefault env fieldType copy
    ⦃⇓? v => fun s => ⌜Run o s ∧ v.namedExprOwnerNamespace = env.ownerOf v.namedExpr⌝⦄ := by
  mvcgen [namedDefault]
  all_goals grind

/-- `float.INFINITY` and the like hold no brace: the word after the dot is not checked to be a name,
but it has a text. -/
theorem run_floatSpecial {s : Parser} {special : FloatSpecial} (hname : s.tok.type = .name)
    (hdot : (s.rest.getD 1 ⟨.end, "", 0⟩).type = .dot)
    (hword : floatSpecial? (s.rest.getD 2 ⟨.end, "", 0⟩).text = some special) :
    Run s s.next.next.next := by
  have htext : (s.rest.getD 2 ⟨.end, "", 0⟩).text ≠ "" := by
    intro h
    rw [h] at hword
    cases hword
  obtain ⟨rest⟩ := s
  match rest with
  | [] | [_] => cases hdot
  | [_, _] => exact absurd rfl htext
  | a :: b :: c :: rest =>
    have ha : a.type = .name := hname
    have hb : b.type = .dot := hdot
    refine ((Run.next_of_type (Or.inl ?_)).trans (Run.next_of_type (Or.inl ?_))).trans
      (Run.next_of_type (Or.inr htext))
    · show a.type ≠ _ ∧ a.type ≠ _
      rw [ha]
      decide
    · show b.type ≠ _ ∧ b.type ≠ _
      rw [hb]
      decide

theorem parseFloatDefault_spec (fieldType t : TypeSpec) :
    ⦃fun s => ⌜s = o⌝⦄ parseFloatDefault env fieldType
    ⦃⇓? v => fun s => ⌜Run o s ∧ env.DefaultOf t v⌝⦄ := by
  apply spec_of
  mvcgen [parseFloatDefault]
  all_goals grind [run_floatSpecial]

theorem parseEnumDefault_spec (spelled : List String) (target : TypeRef) :
    ⦃fun s => ⌜s = o⌝⦄ parseEnumDefault env target
    ⦃⇓? v => fun s => ⌜Run o s ∧ env.DefaultOf (.ref .enum spelled target) v⌝⦄ := by
  mvcgen [parseEnumDefault]
  all_goals grind

@[spec] theorem parseStrippedEnumDefault_spec :
    ⦃fun s => ⌜s = o⌝⦄ parseStrippedEnumDefault
    ⦃⇓? v => fun s => ⌜Run o s ∧ v.namedExprOwnerNamespace = ""⌝⦄ := by
  mvcgen [parseStrippedEnumDefault]
  all_goals grind

theorem parseBoolDefault_spec (t : TypeSpec) :
    ⦃fun s => ⌜s = o⌝⦄ parseDefaultValue env (.scalar .bool)
    ⦃⇓? v => fun s => ⌜Run o s ∧ env.DefaultOf t v⌝⦄ := by
  show ⦃_⦄ (do
    let token ← cur
    if token.type = .name then
      if token.text = "true" ∨ token.text = "false" then
        advance
        return { boolValue := token.text = "true" }
      namedDefault env (.scalar .bool) (fun v => { boolValue := v.boolValue })
    else
      parseError ("expected 'true', 'false', or a previously declared const name for a bool " ++
        "field default, got '" ++ spelling token ++ "'") token.line : Parse DefaultValue) ⦃_⦄
  apply spec_of
  mvcgen
  all_goals grind

theorem parseIntDefault_spec (fieldType t : TypeSpec) :
    ⦃fun s => ⌜s = o⌝⦄
    (do
      if ← at' .name then namedDefault env fieldType (fun v => { intValue := v.intValue })
      else
        let (negative, digits) ← parseSignedNumber
        return { intValue := ← liftResult (parseIntLiteral negative digits) })
    ⦃⇓? v => fun s => ⌜Run o s ∧ env.DefaultOf t v⌝⦄ := by
  apply spec_of
  mvcgen
  all_goals grind

theorem parseStringDefault_spec (t : TypeSpec) :
    ⦃fun s => ⌜s = o⌝⦄ parseDefaultValue env .string
    ⦃⇓? v => fun s => ⌜Run o s ∧ env.DefaultOf t v⌝⦄ := by
  show ⦃_⦄ (do
    if ← at' .name then namedDefault env .string (fun v => { stringValue := v.stringValue })
    else return { stringValue := (← expect .stringLiteral "string field default").text } :
      Parse DefaultValue) ⦃_⦄
  apply spec_of
  mvcgen
  all_goals grind

theorem parseStructDefault_spec (spelled : List String) (target : TypeRef) (t : TypeSpec) :
    ⦃fun s => ⌜s = o⌝⦄ parseDefaultValue env (.ref .struct spelled target)
    ⦃⇓? v => fun s => ⌜Run o s ∧ env.DefaultOf t v⌝⦄ := by
  show ⦃_⦄ (do
    let token ← cur
    if target.name ∉ env.structs ∧ token.type = .name then return ← parseStrippedEnumDefault
    parseError ("field defaults are only supported for bool/integer/float/double/string/enum " ++
      "types (never struct/union/array/map/pending_*)") token.line : Parse DefaultValue) ⦃_⦄
  apply spec_of
  mvcgen
  all_goals grind

theorem parseNoDefault_spec (msg : String) (t : TypeSpec) :
    ⦃fun s => ⌜s = o⌝⦄ (do parseError msg (← cur).line)
    ⦃⇓? v => fun s => ⌜Run o s ∧ env.DefaultOf t v⌝⦄ := by
  mvcgen
  all_goals grind

@[spec] theorem parseDefaultValue_spec (t : TypeSpec) :
    ⦃fun s => ⌜s = o⌝⦄ parseDefaultValue env t
    ⦃⇓? v => fun s => ⌜Run o s ∧ env.DefaultOf t v⌝⦄ := by
  induction t with
  | nullable t ih => exact ih
  | scalar kind =>
    cases kind with
    | bool => exact parseBoolDefault_spec _
    | float | double => exact parseFloatDefault_spec _ _
    | _ => exact parseIntDefault_spec _ _
  | string => exact parseStringDefault_spec _
  | ref kind spelled target =>
    cases kind with
    | enum => exact parseEnumDefault_spec spelled target
    | struct => exact parseStructDefault_spec spelled target _
    | union => exact parseNoDefault_spec _ _
  | _ => exact parseNoDefault_spec _ _

@[spec] theorem parseConst_spec :
    ⦃fun s => ⌜s = o⌝⦄ parseConst env ⦃⇓? c => fun s => ⌜Run o s ∧ env.SiteOk c.site⌝⦄ := by
  unfold parseConst
  generalize "const type must be bool/integer/float/double/string/enum " ++ _ = msg
  mvcgen
  all_goals grind [Env.SiteOk, ConstDecl.site]

@[spec] theorem parseConstIn_spec (container : String) (attrs : List ParsedAttribute) :
    ⦃fun s => ⌜s = o⌝⦄ parseConstIn env container attrs
    ⦃⇓? c => fun s => ⌜Run o s ∧ env.SiteOk c.site⌝⦄ := by
  mvcgen [parseConstIn, -Spec.foldlM_list, foldlM_fillEnableIf_spec]
  all_goals grind [ConstDecl.site]

end

end Voodoo.Compiler
