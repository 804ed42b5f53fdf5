import Voodoo.Compiler.BodyOutcomes
import Voodoo.Compiler.Ordinals

/-!
# The body of an enum, read twice

`CollectEnumValues` reads the bodies of enums before the parser does, and without its checks.  An
attribute list ends for both at the first closing bracket (`parseAttributeList_ok`), and every
enumerator that `ParseEnumValue` accepts is read by the scan with the same number
(`scanEnumBody_value`), so that both stop at the same token (`parseEnumValues_scanned`).
-/

namespace Voodoo.Compiler

open Parse EState List

theorem lexed_of_good {α : Type} {x : Parse α} {k : Nat} {Q : α → Prop} {s t : Parser} {a : α}
    (hx : Good False False s.rest.length k Q x) (hs : WellLexed s.rest) (h : x s = .ok a t) :
    WellLexed t.rest ∧ t.rest <:+ s.rest := by
  have hrun := hx s ⟨hs, False.elim, le_rfl⟩
  unfold Outcome at hrun
  rw [h] at hrun
  exact ⟨hrun.1.lexed, hrun.1.suffix⟩

/-! ### Attribute lists -/

/-- From `s` to `t` no closing bracket is passed. -/
def Inside (s t : Parser) : Prop :=
  ∃ passed, s.rest = passed ++ t.rest ∧ ∀ u ∈ passed, u.type ≠ .rBracket

theorem Inside.refl (s : Parser) : Inside s s := ⟨[], rfl, fun _ h => absurd h not_mem_nil⟩

theorem Inside.trans {s t u : Parser} (h : Inside s t) (h' : Inside t u) : Inside s u := by
  obtain ⟨a, ha, hpa⟩ := h
  obtain ⟨b, hb, hpb⟩ := h'
  refine ⟨a ++ b, by rw [ha, hb, List.append_assoc], fun v hv => ?_⟩
  rcases mem_append.mp hv with hv | hv
  · exact hpa v hv
  · exact hpb v hv

theorem Inside.next {s : Parser} (h : s.tok.type ≠ .rBracket) : Inside s s.next := by
  obtain ⟨rest⟩ := s
  match rest with
  | [] => exact .refl _
  | [a] => exact .refl _
  | a :: b :: rest => exact ⟨[a], rfl, fun u hu => mem_singleton.mp hu ▸ h⟩

/-- A part of an attribute, where the current token is as `P` says. -/
def Bracketed {α : Type} (P : Token → Prop) (x : Parse α) : Prop :=
  ∀ s a t, P s.tok → x s = .ok a t → Inside s t

namespace Bracketed

variable {α β : Type} {P Q : Token → Prop} {x : Parse α} {f : α → Parse β}

theorem anywhere (h : Bracketed (fun _ => True) x) : Bracketed P x :=
  fun s a t _ hrun => h s a t trivial hrun

theorem pure (a : α) : Bracketed P (Pure.pure a) := by
  intro s b t _ hrun
  obtain ⟨-, rfl⟩ := EStateM.Result.ok.inj hrun
  exact .refl _

theorem parseError (msg : String) (line : Nat) :
    Bracketed P (Parse.parseError msg line : Parse α) := by
  intro s a t _ hrun
  cases hrun

theorem bind (hx : Bracketed P x) (hf : ∀ a, Bracketed (fun _ => True) (f a)) :
    Bracketed P (x >>= f) := by
  intro s b t hs hrun
  obtain ⟨a, u, hxs, hfu⟩ := bind_eq_ok.mp hrun
  exact (hx s a u hs hxs).trans (hf a u b t trivial hfu)

theorem cur {k : Token → Parse β}
    (hk : ∀ token, P token → Bracketed (fun tok => tok = token) (k token)) :
    Bracketed P (Parse.cur >>= k) := by
  intro s b t hs hrun
  exact hk s.tok hs s b t rfl hrun

theorem advance {k : Unit → Parse β} (htype : ∀ tok, P tok → tok.type ≠ .rBracket)
    (hk : Bracketed (fun _ => True) (k ())) : Bracketed P (Parse.advance >>= k) := by
  intro s b t hs hrun
  exact (Inside.next (htype _ hs)).trans (hk s.next b t trivial hrun)

theorem liftBind {y : Except Failure α} (hf : ∀ a, Bracketed P (f a)) :
    Bracketed P (Parse.liftResult y >>= f) := by
  intro s b t hs hrun
  obtain ⟨a, u, hy, hfu⟩ := bind_eq_ok.mp hrun
  obtain ⟨-, rfl⟩ := liftResult_run hy
  exact hf a u b t hs hfu

theorem peek (n : Nat) : Bracketed P (Parse.peek n) := by
  intro s a t _ hrun
  obtain ⟨-, rfl⟩ := EStateM.Result.ok.inj hrun
  exact .refl _

theorem atKeyword {keyword : String} {k : Bool → Parse β}
    (htrue : Bracketed (fun tok => P tok ∧ tok.type = .name) (k true))
    (hfalse : Bracketed P (k false)) : Bracketed P (Parse.atKeyword keyword >>= k) := by
  intro s b t hs hrun
  have hkeyword : Parse.atKeyword keyword s =
      .ok (s.tok.type = .name && s.tok.text = keyword) s := rfl
  rw [EState.bind_ok hkeyword] at hrun
  cases hkey : (decide (s.tok.type = .name) && decide (s.tok.text = keyword)) with
  | true =>
    rw [hkey] at hrun
    rw [Bool.and_eq_true, decide_eq_true_eq] at hkey
    exact htrue s b t ⟨hs, hkey.1⟩ hrun
  | false =>
    rw [hkey] at hrun
    exact hfalse s b t hs hrun

theorem at' {type : TokenType} {k : Bool → Parse β}
    (htrue : Bracketed (fun tok => P tok ∧ tok.type = type) (k true))
    (hfalse : Bracketed (fun tok => P tok ∧ tok.type ≠ type) (k false)) :
    Bracketed P (Parse.at' type >>= k) := by
  intro s b t hs hrun
  rw [EState.bind_ok (at_run type)] at hrun
  by_cases htype : s.tok.type = type
  · rw [decide_eq_true htype] at hrun
    exact htrue s b t ⟨hs, htype⟩ hrun
  · rw [decide_eq_false htype] at hrun
    exact hfalse s b t ⟨hs, htype⟩ hrun

theorem expect {type : TokenType} (what : String) (h : type ≠ .rBracket) :
    Bracketed P (Parse.expect type what) := by
  intro s a t _ hrun
  obtain ⟨htype, -, rfl⟩ := expect_run hrun
  exact Inside.next (htype ▸ h)

theorem expectName (what : String) : Bracketed P (Parse.expectName what) := by
  have hname : Bracketed P (Parse.expect .name what) := expect what nofun
  exact hname.bind fun _ => pure _

theorem manyAfter {type : TokenType} (h : type ≠ .rBracket)
    (hx : Bracketed (fun _ => True) x) : Bracketed P (Parse.manyAfter type x) := by
  have hloop : ∀ turns found, Bracketed (fun _ => True) (Parse.loop (Parse.at' type)
      (fun found => (do Parse.advance; x) >>= fun a => Pure.pure (found ++ [a])) turns found) := by
    intro turns
    induction turns with
    | zero =>
      intro found s a t _ hrun
      cases hrun
    | succ turns ih =>
      intro found
      refine at' ?_ (pure _)
      refine Bracketed.bind (bind (advance (fun tok htok => htok.2 ▸ h) hx) fun a => pure _) ih
  intro s a t _ hrun
  exact hloop _ [] s a t trivial hrun

end Bracketed

theorem bracketed_parseSignedNumber {P : Token → Prop} : Bracketed P parseSignedNumber := by
  unfold parseSignedNumber
  have hdigits (negative : Bool) : Bracketed (fun _ => True) (do
      if ← at' .hexNumber then
        let num ← cur
        advance
        return (negative, num.text)
      let num ← expect .number "number"
      return (negative, num.text) : Parse (Bool × String)) := by
    refine Bracketed.at' ?_ ?_
    · refine Bracketed.cur fun num hnum => Bracketed.advance ?_ (.pure _)
      rintro tok rfl
      rw [hnum.2]
      exact nofun
    · refine Bracketed.anywhere ?_
      have hnumber : Bracketed (fun _ => True) (expect .number "number") := .expect _ nofun
      exact hnumber.bind fun _ => .pure _
  refine Bracketed.at' ?_ (hdigits false).anywhere
  exact Bracketed.advance (fun tok htok => by rw [htok.2]; exact nofun) (hdigits true)

theorem bracketed_parseFloatValue {P : Token → Prop} : Bracketed P parseFloatValue := by
  unfold parseFloatValue
  have hvalue (negative : Bool) : Bracketed (fun _ => True) (do
      let token ← cur
      if token.type = .floatNumber then
        liftResult (stod token.text)
        advance
        return { negative, text := token.text }
      else if token.type = .hexNumber ∨ token.type = .number then
        let _ ← liftResult (stoll token.text)
        advance
        return { negative, text := token.text }
      else parseError "expected a float/double literal" token.line : Parse FloatLiteral) := by
    refine Bracketed.cur fun token _ => ?_
    split
    case isTrue hfloat =>
      refine Bracketed.liftBind fun _ => Bracketed.advance ?_ (.pure _)
      rintro tok rfl
      rw [hfloat]
      exact nofun
    case isFalse =>
      split
      case isTrue hnumber =>
        refine Bracketed.liftBind fun _ => Bracketed.advance ?_ (.pure _)
        rintro tok rfl hbracket
        rcases hnumber with hhex | hdec
        · cases hhex.symm.trans hbracket
        · cases hdec.symm.trans hbracket
      case isFalse => exact .parseError _ _
  refine Bracketed.at' ?_ (hvalue false).anywhere
  exact Bracketed.advance (fun tok htok => by rw [htok.2]; exact nofun) (hvalue true)

/-- A number, with the token that tells of which kind it is. -/
theorem bracketed_number (next : Token) : Bracketed (fun _ => True) (do
    if next.type = .floatNumber then
      let _ ← parseFloatValue
      return AttributeValue.float
    else
      let (negative, digits) ← parseSignedNumber
      return .int (← liftResult (parseIntLiteral negative digits))) := by
  split
  · exact bracketed_parseFloatValue.bind fun _ => .pure _
  · exact bracketed_parseSignedNumber.bind fun _ => .liftBind fun _ => .pure _

theorem bracketed_parseAttributeValue {P : Token → Prop} : Bracketed P parseAttributeValue := by
  unfold parseAttributeValue
  refine Bracketed.cur fun token _ => ?_
  split
  case isTrue hstring =>
    refine Bracketed.advance ?_ (.pure _)
    rintro tok rfl
    rw [hstring]
    rintro ⟨⟩
  have hbool {Q : Token → Prop} (hQ : ∀ tok, Q tok → tok.type = .name) : Bracketed Q (do
      advance
      return AttributeValue.bool (token.text = "true")) := by
    refine Bracketed.advance (fun tok htok => ?_) (.pure _)
    rw [hQ tok htok]
    rintro ⟨⟩
  refine Bracketed.atKeyword ?_ ?_
  · refine Bracketed.atKeyword ?_ ?_
    · exact hbool fun tok htok => htok.2
    · exact hbool fun tok htok => htok.2
  refine Bracketed.atKeyword ?_ ?_
  · exact hbool fun tok htok => htok.2
  rw [Bool.or_self, if_neg Bool.false_ne_true]
  split
  case isTrue hname =>
    have hnames (type : TokenType) (what : String) (h : type ≠ .rBracket) :
        Bracketed (fun _ => True) (manyAfter type (expectName what)) :=
      .manyAfter h (.expectName what)
    refine Bracketed.advance ?_ ?_
    · rintro tok rfl
      rw [hname]
      rintro ⟨⟩
    refine (hnames .dot _ (by rintro ⟨⟩)).bind fun segs => ?_
    refine Bracketed.at' ?_ ?_
    · exact ((hnames .pipe _ (by rintro ⟨⟩)).bind fun _ => .pure _).anywhere
    · refine Bracketed.anywhere (Bracketed.at' ?_ (.pure _))
      exact ((hnames .ampersand _ (by rintro ⟨⟩)).bind fun _ => .pure _).anywhere
  case isFalse =>
    dsimp only
    split
    · exact (Bracketed.peek 1).bind bracketed_number
    · exact (Bracketed.pure token).bind bracketed_number

theorem bracketed_parseAttribute : Bracketed (fun _ => True) parseAttribute := by
  unfold parseAttribute
  have hname : Bracketed (fun _ => True) (expect .name "attribute name") := .expect _ nofun
  refine hname.bind fun token => Bracketed.at' ?_ (.pure _)
  refine Bracketed.advance (fun tok htok => by rw [htok.2]; exact nofun) ?_
  exact bracketed_parseAttributeValue.bind fun _ => .pure _

/-- **An attribute list ends at the first closing bracket.** -/
theorem parseAttributeList_ok {s t : Parser} {attrs : List ParsedAttribute}
    (hs : WellLexed s.rest) (h : parseAttributeList s = .ok attrs t) :
    ∃ passed close, s.rest = passed ++ close :: t.rest ∧ close.type = .rBracket ∧
      ∀ u ∈ passed, u.type ≠ .rBracket := by
  unfold parseAttributeList at h
  obtain ⟨opening, u, hopen, h⟩ := bind_eq_ok.mp h
  obtain ⟨parsed, v, hattrs, h⟩ := bind_eq_ok.mp h
  obtain ⟨close, w, hclose, h⟩ := bind_eq_ok.mp h
  obtain ⟨rfl, rfl⟩ := EStateM.Result.ok.inj h
  obtain ⟨htype, rfl, rfl⟩ := expect_run hopen
  have hlist : Bracketed (fun _ => True) (commaSeparated parseAttribute) := by
    unfold commaSeparated
    refine bracketed_parseAttribute.bind fun _ => ?_
    have hmany : Bracketed (fun _ => True) (manyAfter .comma parseAttribute) :=
      .manyAfter nofun bracketed_parseAttribute
    exact hmany.bind fun _ => .pure _
  obtain ⟨passed, hpassed, hnot⟩ := hlist _ _ _ trivial hattrs
  have hlexed := (lexed_of_good (Good.commaSeparated good_parseAttribute) (hs.of_next htype nofun)
    hattrs).1
  obtain ⟨hrbracket, rfl, rfl⟩ := expect_run hclose
  refine ⟨s.tok :: passed, v.tok, ?_, hrbracket, ?_⟩
  · rw [hs.next htype nofun, hpassed, hlexed.next hrbracket nofun]
    rfl
  · intro u hu
    rcases mem_cons.mp hu with rfl | hu
    · rw [htype]
      exact nofun
    · exact hnot u hu

/-! ### Checks of attributes -/

/-- No token is passed and nothing else is changed. -/
def Still {α : Type} (x : Parse α) : Prop := Preserves (fun s t => t = s) x

namespace Still

variable {α β : Type} {x : Parse α} {f : α → Parse β}

theorem pure (a : α) : Still (Pure.pure a : Parse α) := fun _ => rfl

theorem parseError (msg : String) (line : Nat) : Still (Parse.parseError msg line : Parse α) :=
  fun _ => rfl

theorem bind (hx : Still x) (hf : ∀ a, Still (f a)) : Still (x >>= f) :=
  Preserves.bind (fun _ _ _ h h' => h'.trans h) hx hf

theorem foldlM {γ : Type} {g : α → γ → Parse α} (hg : ∀ a c, Still (g a c)) (a : α)
    (cs : List γ) : Still (cs.foldlM g a) := by
  induction cs generalizing a with
  | nil => exact pure a
  | cons c cs ih =>
    rw [foldlM_cons]
    exact (hg a c).bind ih

end Still

theorem still_fillEnableIf (dst : EnableIf) (a : ParsedAttribute) : Still (fillEnableIf dst a) := by
  unfold fillEnableIf
  split
  · dsimp only
    split
    all_goals first
      | exact (Still.parseError _ _).bind fun _ => .pure _
      | exact (Still.pure _).bind fun _ => .pure _
  · exact .pure _

theorem still_flagAttribute (a : ParsedAttribute) : Still (flagAttribute a) := by
  unfold flagAttribute
  split
  · exact .pure _
  · exact .parseError _ _

theorem still_minVersionAttribute (a : ParsedAttribute) : Still (minVersionAttribute a) := by
  unfold minVersionAttribute
  split
  · split
    · exact .parseError _ _
    · exact .pure _
  · exact .parseError _ _

theorem still_parseEnumValueAttribute (v : EnumValue) (a : ParsedAttribute) :
    Still (parseEnumValueAttribute v a) := by
  unfold parseEnumValueAttribute
  split
  · exact (still_minVersionAttribute a).bind fun _ => .pure _
  · split
    · exact (still_flagAttribute a).bind fun _ => .pure _
    · exact (still_fillEnableIf _ a).bind fun _ => .pure _

theorem still_parseEnumAttribute (e : EnumDecl) (a : ParsedAttribute) :
    Still (parseEnumAttribute e a) := by
  unfold parseEnumAttribute
  split
  · exact (still_flagAttribute a).bind fun _ => .pure _
  · split
    · exact (still_flagAttribute a).bind fun _ => .pure _
    · exact (still_fillEnableIf _ a).bind fun _ => .pure _

theorem foldlM_keeps {α β γ : Type} {g : α → γ → Parse α} {f : α → β}
    (hg : ∀ a c s b t, g a c s = .ok b t → f b = f a) {cs : List γ} {a b : α} {s t : Parser}
    (h : cs.foldlM g a s = .ok b t) : f b = f a := by
  induction cs generalizing a s with
  | nil =>
    obtain ⟨rfl, -⟩ := EStateM.Result.ok.inj h
    rfl
  | cons c cs ih =>
    rw [foldlM_cons] at h
    obtain ⟨a₁, u, ha, hrest⟩ := bind_eq_ok.mp h
    exact (ih hrest).trans (hg a c s a₁ u ha)

/-! ### Enumerators -/

/-- What the scan keeps of an enumerator. -/
def EnumValue.plain (v : EnumValue) : EnumValue := { name := v.name, value := v.value }

/-- The value that follows the last one. -/
def nextEnumValue (values : List EnumValue) : BitVec 32 :=
  (values.getLast?.map (·.value + 1)).getD 0

section

variable {s t : Parser}

theorem parseSignedNumber_ok {negative : Bool} {digits : String} (hs : WellLexed s.rest)
    (h : parseSignedNumber s = .ok (negative, digits) t) :
    ∃ num, (num.type = .number ∨ num.type = .hexNumber) ∧ num.text = digits ∧
      WellLexed t.rest ∧
      if negative then ∃ minus, minus.type = .minus ∧ s.rest = minus :: num :: t.rest
      else s.rest = num :: t.rest := by
  unfold parseSignedNumber at h
  have hdigits {u : Parser} {neg : Bool} (hu : WellLexed u.rest) (h : (do
      if ← at' .hexNumber then
        let num ← cur
        advance
        return (neg, num.text)
      let num ← expect .number "number"
      return (neg, num.text) : Parse (Bool × String)) u = .ok (negative, digits) t) :
      neg = negative ∧ ∃ num, (num.type = .number ∨ num.type = .hexNumber) ∧ num.text = digits ∧
        WellLexed t.rest ∧ u.rest = num :: t.rest := by
    rw [bind_ok (at_run .hexNumber)] at h
    by_cases hhex : u.tok.type = .hexNumber
    · rw [decide_eq_true hhex, if_pos rfl] at h
      obtain ⟨hpair, rfl⟩ := EStateM.Result.ok.inj h
      obtain ⟨rfl, rfl⟩ := Prod.mk.inj hpair
      exact ⟨rfl, u.tok, Or.inr hhex, rfl, hu.of_next hhex nofun, hu.next hhex nofun⟩
    · rw [decide_eq_false hhex, if_neg Bool.false_ne_true] at h
      obtain ⟨num, v, hnum, h⟩ := bind_eq_ok.mp h
      obtain ⟨hpair, rfl⟩ := EStateM.Result.ok.inj h
      obtain ⟨rfl, rfl⟩ := Prod.mk.inj hpair
      obtain ⟨htype, rfl, rfl⟩ := expect_run hnum
      exact ⟨rfl, u.tok, Or.inl htype, rfl, hu.of_next htype nofun, hu.next htype nofun⟩
  rw [bind_ok (at_run .minus)] at h
  by_cases hminus : s.tok.type = .minus
  · rw [decide_eq_true hminus, if_pos rfl, bind_ok advance_run] at h
    obtain ⟨rfl, num, htype, htext, ht, hrest⟩ := hdigits (hs.of_next hminus nofun) h
    refine ⟨num, htype, htext, ht, ?_⟩
    rw [if_pos rfl]
    exact ⟨s.tok, hminus, by rw [hs.next hminus nofun, hrest]⟩
  · rw [decide_eq_false hminus, if_neg Bool.false_ne_true] at h
    obtain ⟨rfl, num, htype, htext, ht, hrest⟩ := hdigits hs h
    exact ⟨num, htype, htext, ht, hrest⟩

/-- What follows the name of an enumerator. -/
def parseEnumNumber (soFar : List EnumValue) (v : EnumValue) (name : String) : Parse EnumValue := do
  if ← at' .equals then
    advance
    let token ← cur
    if token.type = .name then
      advance
      match soFar.find? (·.name == token.text) with
      | some previous => return { v with name, value := previous.value }
      | none =>
        parseError ("enum value '" ++ name ++ "' aliases unknown value '" ++ token.text ++ "'")
          token.line
    else
      let (negative, digits) ← parseSignedNumber
      return { v with name, value := BitVec.ofInt 32 (← liftResult (parseIntLiteral negative digits)) }
  else return { v with name, value := (soFar.getLast?.map (·.value + 1)).getD 0 }

theorem find?_plain (values : List EnumValue) (name : String) :
    ((values.map EnumValue.plain).find? (·.name == name)).map (·.value) =
      (values.find? (·.name == name)).map (·.value) := by
  rw [find?_map, Option.map_map]
  rfl

section

variable {values : List EnumValue} {next : BitVec 32} {equals tok : Token} {rest : List Token}

theorem scanEnumValue_next (h : tok.type ≠ .equals) :
    scanEnumValue values next (tok :: rest) = .ok (next, tok :: rest) := by
  unfold scanEnumValue
  simp [h, pure, Except.pure]

theorem scanEnumValue_alias (h : equals.type = .equals) (ht : tok.type = .name) :
    scanEnumValue values next (equals :: tok :: rest) =
      .ok (((values.find? (·.name == tok.text)).map (·.value)).getD 0, rest) := by
  unfold scanEnumValue
  simp [h, ht, pure, Except.pure]

theorem scanEnumValue_number {n : Int} (h : equals.type = .equals)
    (ht : tok.type = .number ∨ tok.type = .hexNumber)
    (hn : parseIntLiteral false tok.text = .ok n) :
    scanEnumValue values next (equals :: tok :: rest) = .ok (BitVec.ofInt 32 n, rest) := by
  have hminus : tok.type ≠ .minus := by
    rcases ht with ht | ht <;> rw [ht] <;> exact nofun
  unfold scanEnumValue
  simp [h, ht, hminus, hn, pure, Except.pure, bind, Except.bind]

theorem scanEnumValue_minus {minus : Token} {n : Int} (h : equals.type = .equals)
    (hminus : minus.type = .minus) (ht : tok.type = .number ∨ tok.type = .hexNumber)
    (hn : parseIntLiteral true tok.text = .ok n) :
    scanEnumValue values next (equals :: minus :: tok :: rest) =
      .ok (BitVec.ofInt 32 n, rest) := by
  unfold scanEnumValue
  simp [h, ht, hminus, hn, pure, Except.pure, bind, Except.bind]

end

/-- **The number of an enumerator is read alike.** -/
theorem parseEnumNumber_ok {soFar : List EnumValue} {v w : EnumValue} {name : String}
    (hs : WellLexed s.rest) (h : parseEnumNumber soFar v name s = .ok w t) :
    w.name = name ∧ WellLexed t.rest ∧ t.rest.length ≤ s.rest.length ∧
      scanEnumValue (soFar.map EnumValue.plain) (nextEnumValue soFar) s.rest =
        .ok (w.value, t.rest) := by
  unfold parseEnumNumber at h
  rw [bind_ok (at_run .equals)] at h
  by_cases hequals : s.tok.type = .equals
  · rw [decide_eq_true hequals, if_pos rfl, bind_ok advance_run] at h
    have hrest := hs.next hequals nofun
    have hlexed := hs.of_next hequals nofun
    have hcur : cur s.next = .ok s.next.tok s.next := rfl
    rw [bind_ok hcur] at h
    by_cases hname : s.next.tok.type = .name
    · rw [if_pos hname, bind_ok advance_run] at h
      have hrest' := hlexed.next hname nofun
      cases hfind : soFar.find? (·.name == s.next.tok.text) with
      | none =>
        rw [hfind] at h
        cases h
      | some previous =>
        rw [hfind] at h
        obtain ⟨rfl, rfl⟩ := EStateM.Result.ok.inj h
        refine ⟨rfl, hlexed.of_next hname nofun, ?_, ?_⟩
        · rw [hrest, hrest']
          simp only [length_cons]
          omega
        · rw [hrest, hrest', scanEnumValue_alias hequals hname, find?_plain, hfind]
          rfl
    · rw [if_neg hname] at h
      obtain ⟨⟨negative, digits⟩, u, hnumber, hvalue⟩ := bind_eq_ok.mp h
      obtain ⟨n, u', hn, hresult⟩ := bind_eq_ok.mp hvalue
      obtain ⟨hconv, rfl⟩ := liftResult_run hn
      obtain ⟨rfl, rfl⟩ := EStateM.Result.ok.inj hresult
      obtain ⟨num, htype, rfl, hu, hdigits⟩ := parseSignedNumber_ok hlexed hnumber
      refine ⟨rfl, hu, ?_⟩
      cases negative with
      | true =>
        obtain ⟨minus, hminus, hrest'⟩ := hdigits
        rw [hrest, hrest', scanEnumValue_minus hequals hminus htype hconv]
        refine ⟨?_, rfl⟩
        simp only [length_cons]
        omega
      | false =>
        have hrest' : s.next.rest = num :: u'.rest := hdigits
        rw [hrest, hrest', scanEnumValue_number hequals htype hconv]
        refine ⟨?_, rfl⟩
        simp only [length_cons]
        omega
  · rw [decide_eq_false hequals, if_neg Bool.false_ne_true] at h
    obtain ⟨rfl, rfl⟩ := EStateM.Result.ok.inj h
    refine ⟨rfl, hs, le_rfl, ?_⟩
    obtain ⟨rest⟩ := s
    cases rest with
    | nil =>
      obtain ⟨last, hlast, -⟩ := hs.ended
      cases hlast
    | cons tok rest => exact scanEnumValue_next hequals

theorem parseEnumValue_eq (soFar : List EnumValue) : parseEnumValue soFar = (do
    let attrs ← parseOptionalAttributes
    let v ← attrs.foldlM parseEnumValueAttribute { name := "" }
    let name ← expectName "enum value name"
    parseEnumNumber soFar v name) := rfl

section

variable {values : List EnumValue} {next value : BitVec 32} {tok : Token}
  {tokens rest : List Token} {fuel : Nat}

theorem scanEnumBody_bracket (h : tok.type = .lBracket) :
    scanEnumBody (fuel + 1) values next (tok :: tokens) =
      scanEnumBody fuel values next ((tok :: tokens).dropWhile (·.type ≠ .rBracket)).tail :=
  if_pos h

theorem scanEnumBody_name (h : tok.type = .name)
    (hscan : scanEnumValue values next tokens = .ok (value, rest)) :
    scanEnumBody (fuel + 1) values next (tok :: tokens) =
      if rest.head?.any (·.type = .comma) then
        scanEnumBody fuel (values ++ [{ name := tok.text, value }]) (value + 1) rest.tail
      else .ok (values ++ [{ name := tok.text, value }], rest) := by
  have hbracket : tok.type ≠ .lBracket := by
    rw [h]
    exact nofun
  refine (if_neg hbracket).trans ((if_pos h).trans ?_)
  rw [hscan]
  rfl

theorem scanEnumBody_end (hbracket : tok.type ≠ .lBracket) (h : tok.type ≠ .name) :
    scanEnumBody (fuel + 1) values next (tok :: tokens) = .ok (values, tok :: tokens) :=
  (if_neg hbracket).trans (if_neg h)

end

/-- What the scan makes of one enumerator: it goes on behind a comma only. -/
theorem scanEnumBody_value {soFar : List EnumValue} {v : EnumValue} {fuel : Nat}
    (hs : WellLexed s.rest) (h : parseEnumValue soFar s = .ok v t) (hfuel : s.rest.length < fuel) :
    WellLexed t.rest ∧ ∃ fuel', t.rest.length ≤ fuel' ∧
      scanEnumBody fuel (soFar.map EnumValue.plain) (nextEnumValue soFar) s.rest =
        if t.tok.type = .comma then
          scanEnumBody fuel' ((soFar ++ [v]).map EnumValue.plain) (v.value + 1) t.rest.tail
        else .ok ((soFar ++ [v]).map EnumValue.plain, t.rest) := by
  have hnamed {u : Parser} {w : EnumValue} {fuel : Nat} (hu : WellLexed u.rest)
      (hfuel : u.rest.length < fuel) (h : (do
        let name ← expectName "enum value name"
        parseEnumNumber soFar w name : Parse EnumValue) u = .ok v t) :
      WellLexed t.rest ∧ ∃ fuel', t.rest.length ≤ fuel' ∧
        scanEnumBody fuel (soFar.map EnumValue.plain) (nextEnumValue soFar) u.rest =
          if t.tok.type = .comma then
            scanEnumBody fuel' ((soFar ++ [v]).map EnumValue.plain) (v.value + 1) t.rest.tail
          else .ok ((soFar ++ [v]).map EnumValue.plain, t.rest) := by
    obtain ⟨name, u', hname, hnumber⟩ := bind_eq_ok.mp h
    obtain ⟨a, hrest, htype, rfl, hlexed⟩ := expectName_ok hu hname
    obtain ⟨hvname, ht, hlength, hscan⟩ := parseEnumNumber_ok hlexed hnumber
    obtain ⟨fuel, rfl⟩ : ∃ n, fuel = n + 1 := ⟨fuel - 1, by omega⟩
    refine ⟨ht, fuel, ?_, ?_⟩
    · rw [hrest, length_cons] at hfuel
      omega
    have hplain : (soFar ++ [v]).map EnumValue.plain =
        soFar.map EnumValue.plain ++ [{ name := a.text, value := v.value }] := by
      rw [map_append, ← hvname]
      rfl
    have hcomma : (t.rest.head?.any (·.type = .comma)) = decide (t.tok.type = .comma) := by
      obtain ⟨last, hlast, -⟩ := ht.ended
      cases hhead : t.rest with
      | nil =>
        rw [hhead] at hlast
        cases hlast
      | cons b rest =>
        unfold Parser.tok
        rw [hhead]
        rfl
    rw [hrest, hplain, scanEnumBody_name htype hscan, hcomma]
    simp only [decide_eq_true_eq]
  rw [parseEnumValue_eq] at h
  obtain ⟨attrs, u, hattrs, hrun⟩ := bind_eq_ok.mp h
  obtain ⟨w, u', hfold, hvalue⟩ := bind_eq_ok.mp hrun
  obtain rfl : u' = u := (Still.foldlM still_parseEnumValueAttribute _ attrs).of_ok hfold
  unfold parseOptionalAttributes at hattrs
  rw [bind_ok (at_run .lBracket)] at hattrs
  by_cases hbracket : s.tok.type = .lBracket
  · rw [decide_eq_true hbracket, if_pos rfl] at hattrs
    have hlexed := (lexed_of_good good_parseAttributeList hs hattrs).1
    obtain ⟨passed, close, hrest, hclose, hpassed⟩ := parseAttributeList_ok hs hattrs
    have hcons := hs.next hbracket nofun
    obtain ⟨fuel, rfl⟩ : ∃ n, fuel = n + 1 := ⟨fuel - 1, by omega⟩
    have hdrop : (s.tok :: s.next.rest).dropWhile (·.type ≠ .rBracket) = close :: u'.rest := by
      rw [← hcons, hrest, dropWhile_append_of_pos, dropWhile_cons_of_neg]
      · simp [hclose]
      · intro p hp
        exact decide_eq_true (hpassed p hp)
    have hlength : u'.rest.length < fuel := by
      cases passed with
      | nil =>
        rw [nil_append, hcons] at hrest
        rw [(List.cons.inj hrest).1, hclose] at hbracket
        cases hbracket
      | cons p passed =>
        rw [hrest, length_append, length_cons, length_cons] at hfuel
        omega
    rw [hcons, scanEnumBody_bracket hbracket, hdrop]
    exact hnamed hlexed hlength hvalue
  · rw [decide_eq_false hbracket, if_neg Bool.false_ne_true] at hattrs
    obtain ⟨-, rfl⟩ := EStateM.Result.ok.inj hattrs
    exact hnamed hs hfuel hvalue

theorem nextEnumValue_concat (values : List EnumValue) (v : EnumValue) :
    nextEnumValue (values ++ [v]) = v.value + 1 := by
  unfold nextEnumValue
  rw [getLast?_concat]
  rfl

/-- What the scan makes of the enumerators behind those it has. -/
def scanMore (fuel : Nat) (values : List EnumValue) (s : Parser) :
    Except Failure (List EnumValue × List Token) :=
  if s.tok.type = .comma then
    scanEnumBody fuel (values.map EnumValue.plain) (nextEnumValue values) s.rest.tail
  else .ok (values.map EnumValue.plain, s.rest)

theorem scanMore_loop {turns fuel : Nat} {values found : List EnumValue} (hs : WellLexed s.rest)
    (hfuel : s.rest.length ≤ fuel)
    (h : loop (at' .comma) parseNextEnumValue turns values s = .ok found t) :
    WellLexed t.rest ∧ scanMore fuel values s = .ok (found.map EnumValue.plain, t.rest) := by
  induction turns generalizing values s fuel with
  | zero => cases h
  | succ turns ih =>
    unfold loop at h
    rw [bind_ok (at_run .comma)] at h
    by_cases hcomma : s.tok.type = .comma
    · rw [decide_eq_true hcomma, if_pos rfl] at h
      obtain ⟨values', u, hnext, hloop⟩ := bind_eq_ok.mp h
      have hrest := hs.next hcomma nofun
      have hlexed := hs.of_next hcomma nofun
      have hless : s.next.rest.length < fuel := by
        rw [hrest, length_cons] at hfuel
        exact hfuel
      have hmore : scanMore fuel values s = scanEnumBody fuel (values.map EnumValue.plain)
          (nextEnumValue values) s.next.rest := by
        unfold scanMore
        rw [if_pos hcomma]
        conv_lhs => rw [hrest]
        rfl
      unfold parseNextEnumValue at hnext
      rw [bind_ok advance_run, bind_ok (at_run .rBrace)] at hnext
      by_cases hbrace : s.next.tok.type = .rBrace
      · rw [decide_eq_true hbrace, if_pos rfl] at hnext
        obtain ⟨rfl, rfl⟩ := EStateM.Result.ok.inj hnext
        -- The comma was the last, and the loop ends at the brace.
        have hstop : scanMore fuel values s.next =
            .ok (values.map EnumValue.plain, s.next.rest) := by
          unfold scanMore
          rw [if_neg (by rw [hbrace]; exact nofun)]
        have hagain := ih hlexed hless.le hloop
        refine ⟨hagain.1, ?_⟩
        rw [hmore, ← hagain.2, hstop, hlexed.next hbrace nofun]
        obtain ⟨fuel, rfl⟩ : ∃ n, fuel = n + 1 := ⟨fuel - 1, by omega⟩
        exact scanEnumBody_end (by rw [hbrace]; exact nofun) (by rw [hbrace]; exact nofun)
      · rw [decide_eq_false hbrace, if_neg Bool.false_ne_true] at hnext
        obtain ⟨v, u', hvalue, hresult⟩ := bind_eq_ok.mp hnext
        obtain ⟨rfl, rfl⟩ := EStateM.Result.ok.inj hresult
        obtain ⟨hlexed', fuel', hfuel', hscan⟩ := scanEnumBody_value hlexed hvalue hless
        have hagain := ih hlexed' hfuel' hloop
        refine ⟨hagain.1, ?_⟩
        rw [hmore, hscan, ← nextEnumValue_concat values v]
        exact hagain.2
    · rw [decide_eq_false hcomma, if_neg Bool.false_ne_true] at h
      obtain ⟨rfl, rfl⟩ := EStateM.Result.ok.inj h
      exact ⟨hs, if_neg hcomma⟩

theorem parseEnumValues_scanned {values : List EnumValue} {fuel : Nat} (hs : WellLexed s.rest)
    (h : parseEnumValues s = .ok values t) (hfuel : s.rest.length < fuel) :
    WellLexed t.rest ∧
      scanEnumBody fuel [] 0 s.rest = .ok (values.map EnumValue.plain, t.rest) := by
  unfold parseEnumValues at h
  obtain ⟨first, u, hfirst, hrun⟩ := bind_eq_ok.mp h
  obtain ⟨hlexed, fuel', hfuel', hscan⟩ := scanEnumBody_value hs hfirst hfuel
  obtain ⟨ht, hmore⟩ := scanMore_loop hlexed hfuel' hrun
  refine ⟨ht, ?_⟩
  have hzero : scanEnumBody fuel [] 0 s.rest =
      scanEnumBody fuel (([] : List EnumValue).map EnumValue.plain) (nextEnumValue []) s.rest := rfl
  rw [hzero, hscan, ← hmore]
  rfl

theorem values_of_parseEnumAttribute {e e' : EnumDecl} {a : ParsedAttribute}
    (h : parseEnumAttribute e a s = .ok e' t) : e'.values = e.values := by
  unfold parseEnumAttribute at h
  split at h
  · obtain ⟨_, u, -, hpure⟩ := bind_eq_ok.mp h
    obtain ⟨rfl, -⟩ := EStateM.Result.ok.inj hpure
    rfl
  split at h
  · obtain ⟨_, u, -, hpure⟩ := bind_eq_ok.mp h
    obtain ⟨rfl, -⟩ := EStateM.Result.ok.inj hpure
    rfl
  · obtain ⟨_, u, -, hpure⟩ := bind_eq_ok.mp h
    obtain ⟨rfl, -⟩ := EStateM.Result.ok.inj hpure
    rfl

/-- What the scan reads behind the head of an enum. -/
def scanEnum (body : List Token) : Except Failure (List EnumValue × List Token) :=
  if body.head?.any (·.type = .lBrace) then scanEnumBody body.length [] 0 body.tail
  else pure ([], body)

end

end Voodoo.Compiler
