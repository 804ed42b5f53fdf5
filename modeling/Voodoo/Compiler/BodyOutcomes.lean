import Voodoo.Compiler.Outcomes

/-!
# How the parse of a file ends

Each function of the grammar is `Good`, from the attributes to `ParseHeader` and
`ParseBody`: where the literals of a file can be converted, only a `ParseError` stops it.

A `float` or `double` takes an integer literal as its default and converts it to an
`int64_t`, so for these the run is followed up to the literal (`AfterFloat`,
`AfterOrdinal`).
-/

namespace Voodoo.Compiler

open EState Parse

/-! ### Attributes -/

section

variable {N K : Prop} {s t : Parser} {n : Nat}

theorem good_dottedNames : Good N K n 0 (fun _ => True) dottedNames :=
  Good.manyAfter .dot nofun ((Good.expectName _).loose)

/-- The literal a numeric attribute value is, `next` being the token after its sign. -/
theorem outcome_numericValue (next : Token) (hs : Ready N n s)
    (hnext : next.type = .floatNumber → signedInteger s.rest = 0) :
    Outcome (Allowed N) (fun _ t => Past K 0 s t ∧ (N → True))
      (do
        if next.type = .floatNumber then
          let _ ← parseFloatValue
          return AttributeValue.float
        else
          let (negative, digits) ← parseSignedNumber
          return AttributeValue.int (← liftResult (parseIntLiteral negative digits))) s := by
  split
  case isTrue hfloat =>
    refine (outcome_parseFloatValue (K := K) hs fun _ => ?_).bind (fun _ he => he) ?_
    · rw [hnext hfloat]
      decide
    · intro a t hpast
      exact ⟨hpast.mono (Nat.zero_le 1), fun _ => trivial⟩
  case isFalse =>
    refine (good_parseSignedNumber.pass fun literal hliteral => ?_) s hs
    obtain ⟨negative, digits⟩ := literal
    exact (Good.liftResult (converts_parseIntLiteral hliteral)).skip fun _ _ => Good.pure fun _ => trivial

theorem integer_of_float {t : Token} (h : t.type = .floatNumber) : t.integer = 0 := by
  have hinteger : ¬ t.isInteger = true := by
    unfold Token.isInteger
    rw [h]
    decide
  rw [Token.integer, if_neg hinteger]

theorem good_parseAttributeValue : Good N K n 0 (fun _ => True) parseAttributeValue := by
  intro s hs
  unfold parseAttributeValue
  rw [outcome_cur]
  split
  · exact (Good.advance.skip fun _ _ => Good.pure fun _ => trivial) s hs
  rw [outcome_atKeyword, outcome_atKeyword]
  split
  · exact (Good.advance.skip fun _ _ => Good.pure fun _ => trivial) s hs
  split
  · refine (Good.advance.skip fun _ _ => ?_) s hs
    refine good_dottedNames.skip fun _ _ => ?_
    refine (Good.at' .pipe).skip fun _ _ => ?_
    split
    · exact (Good.manyAfter .pipe nofun (Good.expectName _).loose).skip
        fun _ _ => Good.pure fun _ => trivial
    refine (Good.at' .ampersand).skip fun _ _ => ?_
    split
    · exact (Good.manyAfter .ampersand nofun (Good.expectName _).loose).skip
        fun _ _ => Good.pure fun _ => trivial
    · exact Good.pure fun _ => trivial
  split
  case isTrue hminus =>
    rw [outcome_peek]
    refine outcome_numericValue _ hs fun hfloat => ?_
    have htail : headToken s.rest.tail = s.rest.getD 1 ⟨.end, "", 0⟩ := by
      unfold headToken
      cases s.rest with
      | nil => rfl
      | cons a ts => cases ts <;> rfl
    rw [signedInteger, if_pos (show (headToken s.rest).type = .minus from hminus), htail]
    exact integer_of_float hfloat
  case isFalse hminus =>
    refine outcome_numericValue s.tok hs fun hfloat => ?_
    rw [signedInteger, if_neg (show ¬ (headToken s.rest).type = .minus from hminus)]
    exact integer_of_float hfloat

theorem good_parseAttribute : Good N K n 1 (fun _ => True) parseAttribute := by
  unfold parseAttribute
  refine (Good.expect .name "attribute name" nofun).step fun token _ => ?_
  refine (Good.at' .equals).skip fun go _ => ?_
  split
  · refine Good.advance.skip fun _ _ => ?_
    exact good_parseAttributeValue.skip fun _ _ => Good.pure fun _ => trivial
  · exact Good.pure fun _ => trivial

theorem good_parseAttributeList : Good N K n 1 (fun _ => True) parseAttributeList := by
  unfold parseAttributeList
  refine (Good.expect .lBracket "'['" nofun).step fun _ _ => ?_
  refine good_parseAttribute.commaSeparated.pass fun _ _ => ?_
  exact (Good.expect .rBracket "']'" nofun).pass fun _ _ => Good.pure fun _ => trivial

theorem good_parseOptionalAttributes :
    Good N K n 0 (fun _ => True) parseOptionalAttributes := by
  unfold parseOptionalAttributes
  refine (Good.at' .lBracket).skip fun _ _ => ?_
  split
  · exact good_parseAttributeList.loose
  · exact Good.pure fun _ => trivial

theorem good_fillEnableIf (dst : EnableIf) (a : ParsedAttribute) :
    Good N K n 0 (fun _ => True) (fillEnableIf dst a) := by
  unfold fillEnableIf
  split
  · dsimp only
    split
    · exact Good.parseErrorThen
    · exact Good.pure fun _ => trivial
    · exact Good.pure fun _ => trivial
    · exact Good.pure fun _ => trivial
    · exact Good.parseErrorThen
  · exact Good.pure fun _ => trivial

theorem good_flagAttribute (a : ParsedAttribute) :
    Good N K n 0 (fun _ => True) (flagAttribute a) := by
  unfold flagAttribute
  split
  · exact Good.pure fun _ => trivial
  · exact Good.parseError

theorem good_minVersionAttribute (a : ParsedAttribute) :
    Good N K n 0 (fun _ => True) (minVersionAttribute a) := by
  unfold minVersionAttribute
  split
  · split
    · exact Good.parseError
    · exact Good.pure fun _ => trivial
  · exact Good.parseError

end

/-! ### Types -/

section

variable {N K : Prop} {s t : Parser} {n : Nat} {env : Env}

theorem good_checkValidMapKeyType (key : TypeSpec) :
    Good N K n 0 (fun _ => True) (checkValidMapKeyType key) := by
  unfold checkValidMapKeyType
  refine Good.cur.skip fun _ _ => ?_
  split
  · exact Good.parseError
  · split
    · exact Good.pure fun _ => trivial
    · exact Good.parseError

/-- `float` and `double`, whether or not they may be null. -/
def TypeSpec.isFloating : TypeSpec → Bool
  | .scalar kind => kind = .float ∨ kind = .double
  | .nullable t => t.isFloating
  | _ => false

theorem good_parseHandleType :
    Good N K n 0 (fun t => t.isFloating = false) parseHandleType := by
  unfold parseHandleType
  refine (Good.at' .lAngle).skip fun _ _ => ?_
  split
  · refine Good.advance.skip fun _ _ => ?_
    refine (Good.expect .name "handle subtype" nofun).pass fun _ _ => ?_
    refine (Good.expect .rAngle "'>'" nofun).pass fun _ _ => ?_
    split
    · exact Good.pure fun _ => rfl
    · exact Good.parseError
  · exact Good.pure fun _ => rfl

theorem good_parseAssociatedType :
    Good N K n 0 (fun t => t.isFloating = false) (parseAssociatedType env) := by
  unfold parseAssociatedType
  refine (Good.expectName "associated interface name").pass fun _ _ => ?_
  refine good_dottedNames.skip fun _ _ => ?_
  refine (Good.at' .ampersand).skip fun _ _ => ?_
  split
  · exact Good.advance.skip fun _ _ => Good.pure fun _ => rfl
  · exact Good.pure fun _ => rfl

theorem good_parsePendingType (kind : HandleKind) :
    Good N K n 0 (fun t => t.isFloating = false) (parsePendingType env kind) := by
  unfold parsePendingType
  refine (Good.expect .lAngle "'<'" nofun).pass fun _ _ => ?_
  refine (Good.expectName "interface name").pass fun _ _ => ?_
  refine good_dottedNames.skip fun _ _ => ?_
  exact (Good.expect .rAngle "'>'" nofun).pass fun _ _ => Good.pure fun _ => rfl

section

variable {type : Parse TypeSpec} (htype : Good N K n 1 (fun _ => True) type)
include htype

theorem good_parseArrayType :
    Good N K n 0 (fun t => t.isFloating = false) (parseArrayType type) := by
  unfold parseArrayType
  refine (Good.expect .lAngle "'<'" nofun).pass fun _ _ => ?_
  refine htype.pass fun element _ => ?_
  have hend (size : Nat) : Good N K n 0 (fun t => t.isFloating = false) (do
      let _ ← expect .rAngle "'>'"
      return TypeSpec.array element size) :=
    (Good.expect .rAngle "'>'" nofun).pass fun _ _ => Good.pure fun _ => rfl
  intro s hs
  rw [outcome_at]
  split
  case isTrue hcomma =>
    -- The number after the comma is the size.
    have htype : s.tok.type = .comma := of_decide_eq_true hcomma
    have hpast : Past K 1 s s.next := Past.next_of_type hs.lexed htype nofun
    rw [outcome_advance]
    refine outcome_expect .number "fixed array size" fun hnumber => ?_
    have hpast' : Past K (1 + 1) s s.next.next :=
      hpast.trans (Past.next_of_type hpast.lexed hnumber nofun)
    refine outcome_liftResult (converts_upTo fun hN => ?_) fun size => ?_
    · have hlt := (hs.literalFits hN (by rw [htype]; nofun)).arraySize htype hnumber
      have hinteger : s.next.tok.integer < 2 ^ 31 := hlt
      rw [integer_eq (Or.inl hnumber)] at hinteger
      omega
    split
    · exact allowed_parseError N _ _
    · refine (hend size _ (hs.after hpast')).mono (fun _ he => he) ?_
      rintro a t ⟨hpast'', ha⟩
      exact ⟨(hpast'.trans hpast'').mono (Nat.zero_le _), ha⟩
  case isFalse => exact hend 0 s hs

theorem good_parseMapType :
    Good N K n 0 (fun t => t.isFloating = false) (parseMapType type) := by
  unfold parseMapType
  refine (Good.expect .lAngle "'<'" nofun).pass fun _ _ => ?_
  refine htype.pass fun _ _ => ?_
  refine (good_checkValidMapKeyType _).skip fun _ _ => ?_
  refine (Good.expect .comma "',' between map key and value types" nofun).pass fun _ _ => ?_
  refine htype.pass fun _ _ => ?_
  exact (Good.expect .rAngle "'>'" nofun).pass fun _ _ => Good.pure fun _ => rfl

end

/-- `u` is where a `float` or `double` at `s` ends. -/
def AfterFloat (s u : Parser) : Prop :=
  s.tok.type = .name ∧ (s.tok.text = "float" ∨ s.tok.text = "double") ∧
    (u = s.next ∨ s.next.tok.type = .question ∧ u = s.next.next)

theorem floating_of_scalarKeyword {name : String} {kind : ScalarKind}
    (h : scalarKeyword name = some kind) (hfloating : (TypeSpec.scalar kind).isFloating = true) :
    name = "float" ∨ name = "double" := by
  have hkind : kind = .float ∨ kind = .double := of_decide_eq_true hfloating
  unfold scalarKeyword at h
  split at h
  all_goals first | exact Or.inl rfl | exact Or.inr rfl | skip
  all_goals
    rcases hkind with rfl | rfl <;> cases h

theorem bareType_isFloating (name : String) : (env.bareType name).isFloating = false := by
  obtain ⟨kind, target, h⟩ := env.bareType_eq_ref name
  rw [h]
  rfl

theorem dottedType_isFloating (first : String) (segs : List String) :
    (env.dottedType first segs).isFloating = false := by
  obtain ⟨kind, target, h⟩ := env.dottedType_eq_ref first segs
  rw [h]
  rfl

theorem outcome_parseTypeSpecInner {type : Parse TypeSpec}
    (htype : Good N K n 1 (fun _ => True) type) (hs : Ready N (n + 1) s) :
    Outcome (Allowed N) (fun t u => Past K 1 s u ∧ (N → t.isFloating = true →
      s.tok.type = .name ∧ (s.tok.text = "float" ∨ s.tok.text = "double") ∧ u = s.next))
      (parseTypeSpecInner env type) s := by
  unfold parseTypeSpecInner expectName
  rw [bind_assoc]
  refine outcome_expect .name "type name" fun hname => ?_
  have hpast : Past K 1 s s.next := Past.next_of_type hs.lexed hname nofun
  -- No other type than a keyword is a floating one.
  have hother {x : Parse TypeSpec} (hx : Good N K n 0 (fun t => t.isFloating = false) x) :
      Outcome (Allowed N) (fun t u => Past K 1 s u ∧ (N → t.isFloating = true →
        s.tok.type = .name ∧ (s.tok.text = "float" ∨ s.tok.text = "double") ∧ u = s.next))
        x s.next := by
    refine (hx s.next (hs.after_succ hpast)).mono (fun _ he => he) ?_
    rintro t u ⟨hpast', ht⟩
    refine ⟨(hpast.trans hpast').mono (by omega), fun hN hfloating => ?_⟩
    rw [ht hN] at hfloating
    cases hfloating
  rw [pure_bind]
  split
  · exact hother (Good.pure fun _ => rfl)
  split
  · exact hother (good_parseArrayType htype)
  split
  · exact hother (good_parseMapType htype)
  split
  · exact hother good_parseHandleType
  split
  · exact hother good_parseAssociatedType
  split
  · exact hother (good_parsePendingType _)
  case h_2 kind _ hkeyword =>
    exact ⟨hpast, fun _ hfloating => ⟨hname, floating_of_scalarKeyword hkeyword hfloating, rfl⟩⟩
  case h_3 =>
    refine hother (good_dottedNames.skip fun segs _ => Good.pure fun _ => ?_)
    split
    · exact bareType_isFloating _
    · exact dottedType_isFloating _ _

theorem not_ready_zero (hs : Ready N 0 s) : False := by
  obtain ⟨last, hlast, -⟩ := hs.lexed.ended
  rw [List.eq_nil_of_length_eq_zero (Nat.le_zero.mp hs.length)] at hlast
  cases hlast

theorem outcome_parseTypeSpecIn {depth : Nat}
    (htype : Good N K depth 1 (fun _ => True) (parseTypeSpecIn env (depth + 1)))
    (hs : Ready N (depth + 1) s) :
    Outcome (Allowed N)
      (fun t u => Past K 1 s u ∧ (N → t.isFloating = true → AfterFloat s u))
      (parseTypeSpecIn env (depth + 1 + 1)) s := by
  rw [parseTypeSpecIn]
  refine (outcome_parseTypeSpecInner htype hs).bind (fun _ he => he) ?_
  rintro t u ⟨hpast, hfloating⟩
  rw [outcome_at]
  split
  case isTrue hquestion =>
    have hquestion : u.tok.type = .question := of_decide_eq_true hquestion
    rw [outcome_advance]
    refine ⟨(hpast.trans (Past.next hpast.lexed)).mono (by omega), fun hN ht => ?_⟩
    obtain ⟨hname, htext, rfl⟩ := hfloating hN ht
    exact ⟨hname, htext, Or.inr ⟨hquestion, rfl⟩⟩
  case isFalse =>
    refine ⟨hpast, fun hN ht => ?_⟩
    obtain ⟨hname, htext, rfl⟩ := hfloating hN ht
    exact ⟨hname, htext, Or.inl rfl⟩

theorem good_parseTypeSpecIn (depth : Nat) :
    Good N K depth 1 (fun _ => True) (parseTypeSpecIn env (depth + 1)) := by
  induction depth with
  | zero => exact fun s hs => (not_ready_zero hs).elim
  | succ depth ih =>
    intro s hs
    exact (outcome_parseTypeSpecIn ih hs).mono (fun _ he => he)
      fun _ _ h => ⟨h.1, fun _ => trivial⟩

theorem outcome_parseTypeSpec (hs : Ready N n s) :
    Outcome (Allowed N)
      (fun t u => Past K 1 s u ∧ (N → t.isFloating = true → AfterFloat s u))
      (parseTypeSpec env) s := by
  have hready : Ready N s.rest.length s := ⟨hs.lexed, hs.fits, le_rfl⟩
  show Outcome _ _ (parseTypeSpecIn env (s.rest.length + 1)) s
  generalize s.rest.length = depth at hready
  cases depth with
  | zero => exact (not_ready_zero hready).elim
  | succ depth => exact outcome_parseTypeSpecIn (good_parseTypeSpecIn depth) hready

theorem good_parseTypeSpec : Good N K n 1 (fun _ => True) (parseTypeSpec env) :=
  fun _ hs => (outcome_parseTypeSpec hs).mono (fun _ he => he) fun _ _ h => ⟨h.1, fun _ => trivial⟩

end

/-! ### Defaults and consts -/

section

variable {N K : Prop} {s t : Parser} {n : Nat} {env : Env}

theorem good_resolveConstDefault (fieldType : TypeSpec) (name : String) (line : Nat) :
    Good N K n 0 (fun _ => True) (resolveConstDefault fieldType name line) := by
  unfold resolveConstDefault
  refine Good.get.skip fun _ _ => ?_
  split
  · exact Good.parseError
  · split
    · exact Good.pure fun _ => trivial
    · exact Good.parseErrorThen

theorem good_constContainerOf (name : String) :
    Good N K n 0 (fun _ => True) (constContainerOf name) := by
  unfold constContainerOf
  exact Good.get.skip fun _ _ => Good.pure fun _ => trivial

theorem good_resolveConstReference (fieldType : TypeSpec) :
    Good N K n 1 (fun _ => True) (resolveConstReference fieldType) := by
  unfold resolveConstReference
  refine (Good.expect .name "const name" nofun).step fun _ _ => ?_
  refine (Good.manyAfter .dot nofun (Good.expect .name "const name after '.'" nofun).loose).skip
    fun _ _ => ?_
  refine (good_resolveConstDefault _ _ _).skip fun _ _ => ?_
  split
  · refine (good_constContainerOf _).skip fun _ _ => ?_
    split
    · exact Good.pure fun _ => trivial
    · exact Good.parseErrorThen
  · exact Good.pure fun _ => trivial

theorem good_namedDefault (fieldType : TypeSpec) (copy : DefaultValue → DefaultValue) :
    Good N K n 1 (fun _ => True) (namedDefault env fieldType copy) := by
  unfold namedDefault
  refine (good_resolveConstReference _).step fun _ _ => ?_
  exact (good_constContainerOf _).skip fun _ _ => Good.pure fun _ => trivial

theorem outcome_parseFloatDefault (fieldType : TypeSpec) (hs : Ready N n s)
    (hinteger : N → signedInteger s.rest < 2 ^ 63) :
    Outcome (Allowed N) (fun _ u => Past K 0 s u) (parseFloatDefault env fieldType) s := by
  unfold parseFloatDefault
  rw [outcome_cur, outcome_peek, outcome_peek]
  split
  · refine ((Good.advance.skip fun _ _ => Good.advance.skip fun _ _ => Good.advance.skip
      fun _ _ => Good.pure fun _ => trivial : Good N K n 0 (fun _ => True) _) s hs).mono
      (fun _ he => he) fun _ _ h => h.1
  · split
    · exact (good_namedDefault (K := K) _ _ s hs).mono (fun _ he => he)
        fun _ _ h => h.1.mono (Nat.zero_le 1)
    · exact (outcome_parseFloatValue (K := K) hs hinteger).bind (fun _ he => he)
        fun _ _ hpast => hpast.mono (Nat.zero_le 1)

theorem good_parseEnumDefault (target : TypeRef) :
    Good N K n 1 (fun _ => True) (parseEnumDefault env target) := by
  unfold parseEnumDefault
  refine (Good.expect .name "enum value name for field default" nofun).step fun _ _ => ?_
  refine (Good.manyAfter .dot nofun (Good.expectName "enum value name after '.'").loose).skip
    fun _ _ => ?_
  dsimp only
  split
  · exact Good.parseError
  · exact Good.pure fun _ => trivial

theorem good_parseStrippedEnumDefault :
    Good N K n 1 (fun _ => True) parseStrippedEnumDefault := by
  unfold parseStrippedEnumDefault
  refine (Good.expectName "name").step fun _ _ => ?_
  exact good_dottedNames.skip fun _ _ => Good.pure fun _ => trivial

theorem good_parseBoolDefault : Good N K n 0 (fun _ => True)
    (parseDefaultValue env (.scalar .bool)) := by
  show Good _ _ _ _ _ (do
    let token ← cur
    if token.type = .name then
      if token.text = "true" ∨ token.text = "false" then
        advance
        return { boolValue := token.text = "true" }
      namedDefault env (.scalar .bool) (fun v => { boolValue := v.boolValue })
    else
      parseError ("expected 'true', 'false', or a previously declared const name for a bool " ++
        "field default, got '" ++ spelling token ++ "'") token.line : Parse DefaultValue)
  refine Good.cur.skip fun _ _ => ?_
  split
  · split
    · exact Good.advance.skip fun _ _ => Good.pure fun _ => trivial
    · exact (good_namedDefault _ _).loose
  · exact Good.parseError

theorem good_parseIntDefault (fieldType : TypeSpec) : Good N K n 0 (fun _ => True)
    (do
      if ← at' .name then namedDefault env fieldType (fun v => { intValue := v.intValue })
      else
        let (negative, digits) ← parseSignedNumber
        return { intValue := ← liftResult (parseIntLiteral negative digits) }) := by
  refine (Good.at' .name).skip fun _ _ => ?_
  split
  · exact (good_namedDefault _ _).loose
  · refine good_parseSignedNumber.pass fun literal hliteral => ?_
    exact (Good.liftResult (converts_parseIntLiteral hliteral)).skip fun _ _ => Good.pure fun _ => trivial

theorem good_parseStringDefault : Good N K n 0 (fun _ => True)
    (parseDefaultValue env .string) := by
  show Good _ _ _ _ _ (do
    if ← at' .name then namedDefault env .string (fun v => { stringValue := v.stringValue })
    else return { stringValue := (← expect .stringLiteral "string field default").text } :
      Parse DefaultValue)
  refine (Good.at' .name).skip fun _ _ => ?_
  split
  · exact (good_namedDefault _ _).loose
  · exact (Good.expect .stringLiteral "string field default" nofun).pass
      fun _ _ => Good.pure fun _ => trivial

theorem good_parseStructDefault (spelled : List String) (target : TypeRef) :
    Good N K n 0 (fun _ => True) (parseDefaultValue env (.ref .struct spelled target)) := by
  show Good _ _ _ _ _ (do
    let token ← cur
    if target.name ∉ env.structs ∧ token.type = .name then return ← parseStrippedEnumDefault
    parseError ("field defaults are only supported for bool/integer/float/double/string/enum " ++
      "types (never struct/union/array/map/pending_*)") token.line : Parse DefaultValue)
  refine Good.cur.skip fun _ _ => ?_
  split
  · exact good_parseStrippedEnumDefault.loose
  · exact Good.parseError

theorem good_parseNoDefault (msg : String) :
    Good N K n 0 (fun _ => True) (do parseError msg (← cur).line : Parse DefaultValue) :=
  Good.cur.skip fun _ _ => Good.parseError

theorem outcome_parseDefaultValue (fieldType : TypeSpec) (hs : Ready N n s)
    (hinteger : N → fieldType.isFloating = true → signedInteger s.rest < 2 ^ 63) :
    Outcome (Allowed N) (fun _ u => Past K 0 s u) (parseDefaultValue env fieldType) s := by
  have hgood {x : Parse DefaultValue} (hx : Good N K n 0 (fun _ => True) x) :
      Outcome (Allowed N) (fun _ u => Past K 0 s u) x s :=
    (hx s hs).mono (fun _ he => he) fun _ _ h => h.1
  induction fieldType with
  | nullable t ih => exact ih hinteger
  | scalar kind =>
    cases kind with
    | bool => exact hgood good_parseBoolDefault
    | float | double => exact outcome_parseFloatDefault _ hs fun hN => hinteger hN rfl
    | _ => exact hgood (good_parseIntDefault _)
  | string => exact hgood good_parseStringDefault
  | ref kind spelled target =>
    cases kind with
    | enum => exact hgood (good_parseEnumDefault target).loose
    | struct => exact hgood (good_parseStructDefault spelled target)
    | union => exact hgood (good_parseNoDefault _)
  | _ => exact hgood (good_parseNoDefault _)

theorem AfterFloat.signedInteger {u : Parser} {ts : List Token} (h : AfterFloat s u)
    (hs : Ready N n s) (hN : N) (hdefault : floatDefault? u.rest = some ts) :
    signedInteger ts < 2 ^ 63 := by
  obtain ⟨hname, htext, hu⟩ := h
  have hfits := (hs.literalFits hN (by rw [hname]; nofun)).floatDefault hname htext
  have hsome : floatDefault? s.next.rest = some ts := by
    rcases hu with rfl | ⟨hquestion, rfl⟩
    · exact hdefault
    · have hpast : Past True 0 s s.next := Past.next hs.lexed
      rw [hpast.lexed.next rfl (by rw [hquestion]; nofun), floatDefault?_question hquestion]
      exact hdefault
  rwa [hsome] at hfits

theorem good_parseConst : Good N K n 1 (fun _ => True) (parseConst env) := by
  unfold parseConst
  refine (Good.expectKeyword "const").step fun _ _ => Good.cur.skip fun start _ => ?_
  intro s hs
  refine (outcome_parseTypeSpec (K := K) hs).bind (fun _ he => he) ?_
  rintro type u ⟨hpast, hfloating⟩
  split
  case isFalse => exact allowed_parseError N _ _
  unfold expectName
  rw [bind_assoc]
  refine outcome_expect .name "const name" fun hname => ?_
  have hpast₁ : Past K 1 u u.next := Past.next_of_type hpast.lexed hname nofun
  rw [pure_bind]
  refine outcome_expect .equals "'=' in const declaration" fun hequals => ?_
  have hpast₂ : Past K 1 u.next u.next.next := Past.next_of_type hpast₁.lexed hequals nofun
  have hpast₃ : Past K 3 s u.next.next := (hpast.trans hpast₁).trans hpast₂
  refine (outcome_parseDefaultValue (K := K) type (hs.after hpast₃)
    fun hN hfloat => ?_).bind (fun _ he => he) fun value v hpast₄ => ?_
  · refine (hfloating hN hfloat).signedInteger hs hN ?_
    rw [hpast.lexed.next rfl (by rw [hname]; nofun), hpast₁.lexed.next rfl (by rw [hequals]; nofun)]
    exact floatDefault?_equals hname hequals _
  · refine outcome_expect .semi "';' after const declaration" fun hsemi => ?_
    have hpast₅ : Past K 1 v v.next := Past.next_of_type hpast₄.lexed hsemi nofun
    exact ⟨((hpast₃.trans hpast₄).trans hpast₅).mono (Nat.zero_le _), fun _ => trivial⟩

theorem good_parseConstIn (container : String) (attrs : List ParsedAttribute) :
    Good N False n 1 (fun _ => True) (parseConstIn env container attrs) := by
  unfold parseConstIn
  refine good_parseConst.step fun c _ => ?_
  refine (Good.foldlM good_fillEnableIf _ attrs).skip fun enableIf _ => ?_
  exact fun s hs => ⟨⟨hs.lexed, List.suffix_rfl, le_rfl, nofun⟩, fun _ => trivial⟩

end

/-! ### Enums -/

section

variable {N K : Prop} {s t : Parser} {n : Nat}

theorem good_parseEnumValueAttribute (v : EnumValue) (a : ParsedAttribute) :
    Good N K n 0 (fun _ => True) (parseEnumValueAttribute v a) := by
  unfold parseEnumValueAttribute
  split
  · exact (good_minVersionAttribute a).skip fun _ _ => Good.pure fun _ => trivial
  · split
    · exact (good_flagAttribute a).skip fun _ _ => Good.pure fun _ => trivial
    · exact (good_fillEnableIf _ a).skip fun _ _ => Good.pure fun _ => trivial

theorem good_parseEnumValue (soFar : List EnumValue) :
    Good N K n 1 (fun _ => True) (parseEnumValue soFar) := by
  unfold parseEnumValue
  refine good_parseOptionalAttributes.skip fun attrs _ => ?_
  refine (Good.foldlM good_parseEnumValueAttribute _ attrs).skip fun v _ => ?_
  refine (Good.expectName "enum value name").step fun name _ => ?_
  refine (Good.at' .equals).skip fun _ _ => ?_
  split
  · refine Good.advance.skip fun _ _ => Good.cur.skip fun token _ => ?_
    split
    · refine Good.advance.skip fun _ _ => ?_
      split
      · exact Good.pure fun _ => trivial
      · exact Good.parseError
    · refine good_parseSignedNumber.pass fun literal hliteral => ?_
      exact (Good.liftResult (converts_parseIntLiteral hliteral)).skip fun _ _ => Good.pure fun _ => trivial
  · exact Good.pure fun _ => trivial

theorem outcome_parseNextEnumValue (values : List EnumValue) (hs : Ready N n s)
    (ht : s.tok.type = .comma) :
    Outcome (Allowed N) (fun _ t => Past K 1 s t) (parseNextEnumValue values) s := by
  unfold parseNextEnumValue
  have hnext : Good N K n 0 (fun _ => True) (do
      if ← at' .rBrace then return values
      return values ++ [← parseEnumValue values]) := by
    refine (Good.at' .rBrace).skip fun _ _ => ?_
    split
    · exact Good.pure fun _ => trivial
    · exact (good_parseEnumValue values).pass fun _ _ => Good.pure fun _ => trivial
  exact (Good.afterAdvance hnext hs ht nofun).mono (fun _ he => he) fun _ _ h => h.1

theorem good_parseEnumValues : Good N K n 1 (fun _ => True) parseEnumValues := by
  unfold parseEnumValues
  refine (good_parseEnumValue []).step fun first _ => ?_
  intro s hs
  exact (Good.loopAt (K := K) .comma (fun values _ => outcome_parseNextEnumValue values)
    [first] hs).mono (fun _ he => he) fun _ _ h => ⟨h, fun _ => trivial⟩

theorem good_parseEnumAttribute (e : EnumDecl) (a : ParsedAttribute) :
    Good N K n 0 (fun _ => True) (parseEnumAttribute e a) := by
  unfold parseEnumAttribute
  split
  · exact (good_flagAttribute a).skip fun _ _ => Good.pure fun _ => trivial
  · split
    · exact (good_flagAttribute a).skip fun _ _ => Good.pure fun _ => trivial
    · exact (good_fillEnableIf _ a).skip fun _ _ => Good.pure fun _ => trivial

theorem good_parseEnum (topAttrs : List ParsedAttribute) :
    Good N K n 1 (fun _ => True) (parseEnum topAttrs) := by
  unfold parseEnum
  refine (Good.expectKeyword "enum").step fun _ _ => ?_
  refine (Good.foldlM good_parseEnumAttribute _ topAttrs).skip fun e _ => ?_
  refine (Good.expectName "enum name").pass fun name _ => ?_
  refine (Good.at' .semi).skip fun _ _ => ?_
  split
  · exact Good.advance.skip fun _ _ => Good.pure fun _ => trivial
  refine (Good.expect .lBrace "'\x7b'" nofun).pass fun _ _ => ?_
  refine (Good.at' .rBrace).skip fun _ _ => ?_
  have hrest (values : List EnumValue) : Good N K n 0 (fun _ => True) (do
      let _ ← expect .rBrace "'\x7d'"
      let _ ← expect .semi "';' after enum body"
      if 1 < (values.filter (·.isDefault)).length then
        parseError ("enum '" ++ name ++ "': at most one value may be [Default]") (← cur).line
      return { e with name, values }) := by
    refine (Good.expect .rBrace "'\x7d'" nofun).pass fun _ _ => ?_
    refine (Good.expect .semi "';' after enum body" nofun).pass fun _ _ => ?_
    split
    · exact Good.cur.skip fun _ _ => Good.parseErrorThen
    · exact Good.pure fun _ => trivial
  split
  · exact hrest []
  · exact good_parseEnumValues.pass fun values _ => hrest values

end

/-! ### Structs -/

section

variable {N K : Prop} {s t : Parser} {n : Nat} {env : Env}

theorem good_parseStructFieldAttribute (f : StructField) (a : ParsedAttribute) :
    Good N K n 0 (fun _ => True) (parseStructFieldAttribute f a) := by
  unfold parseStructFieldAttribute
  split
  · exact (good_minVersionAttribute a).skip fun _ _ => Good.pure fun _ => trivial
  · exact (good_fillEnableIf _ a).skip fun _ _ => Good.pure fun _ => trivial

/-- `v` is where an ordinal at `u`, if there is one, ends. -/
def AfterOrdinal (u v : Parser) : Prop :=
  v = u ∨ u.tok.type = .at ∧ u.next.tok.type = .number ∧ v = u.next.next

theorem outcome_parseOptionalOrdinal (what : String) (hs : Ready N n s) :
    Outcome (Allowed N) (fun _ t => Past K 0 s t ∧ AfterOrdinal s t)
      (parseOptionalOrdinal what) s := by
  unfold parseOptionalOrdinal
  rw [outcome_at]
  split
  case isTrue hat =>
    have hat : s.tok.type = .at := of_decide_eq_true hat
    have hpast : Past K 1 s s.next := Past.next_of_type hs.lexed hat nofun
    rw [outcome_advance]
    unfold parseOrdinal
    rw [bind_assoc]
    refine outcome_expect .number what fun hnumber => ?_
    have hpast' : Past K 1 s.next s.next.next := Past.next_of_type hpast.lexed hnumber nofun
    have hready : Ready N n s.next := hs.after hpast
    rw [bind_assoc]
    refine outcome_liftResult (converts_upTo fun hN => ?_) fun _ => ?_
    · have hlt := (hready.literalFits hN (by rw [hnumber]; nofun)).integer
      rw [integer_eq (Or.inl hnumber)] at hlt
      omega
    · exact ⟨(hpast.trans hpast').mono (Nat.zero_le _), Or.inr ⟨hat, hnumber, rfl⟩⟩
  case isFalse => exact ⟨Past.refl hs.lexed, Or.inl rfl⟩

theorem floatDefault?_of_afterOrdinal {u v : Parser} (hu : WellLexed u.rest)
    (hname : u.tok.type = .name) (h : AfterOrdinal u.next v) (hequals : v.tok.type = .equals) :
    floatDefault? u.rest = some v.next.rest := by
  have hu₁ : Past True 1 u u.next := Past.next_of_type hu hname nofun
  rw [hu.next hname nofun]
  rcases h with rfl | ⟨hat, hnumber, rfl⟩
  · rw [hu₁.lexed.next hequals nofun]
    exact floatDefault?_equals hname hequals _
  · have hu₂ : Past True 1 u.next u.next.next := Past.next_of_type hu₁.lexed hat nofun
    have hu₃ : Past True 1 u.next.next u.next.next.next := Past.next_of_type hu₂.lexed hnumber nofun
    rw [hu₁.lexed.next hat nofun, hu₂.lexed.next hnumber nofun, hu₃.lexed.next hequals nofun]
    exact floatDefault?_ordinal hname hat hnumber hequals _

theorem good_parseStructField (attrs : List ParsedAttribute) :
    Good N K n 1 (fun _ => True) (parseStructField env attrs) := by
  unfold parseStructField
  refine (Good.foldlM good_parseStructFieldAttribute _ attrs).skip fun f _ => ?_
  intro s hs
  refine (outcome_parseTypeSpec (K := K) hs).bind (fun _ he => he) ?_
  rintro type u ⟨hpast, hfloating⟩
  unfold expectName
  rw [bind_assoc]
  refine outcome_expect .name "field name" fun hname => ?_
  have hpast₁ : Past K 2 s u.next := hpast.trans (Past.next_of_type hpast.lexed hname nofun)
  rw [pure_bind]
  refine (outcome_parseOptionalOrdinal (K := K) _ (hs.after hpast₁)).bind (fun _ he => he) ?_
  rintro ordinal v ⟨hpast₂, hordinal⟩
  have hpast₃ : Past K 2 s v := hpast₁.trans hpast₂
  rw [outcome_at]
  have hrest (defaultValue : Option DefaultValue) : Good N K n 0 (fun _ => True) (do
      let _ ← expect .semi "';' after field declaration"
      return { f with
        type
        name := u.tok.text
        defaultValue
        ordinal := ordinal.getD 0
        hasExplicitOrdinal := ordinal.isSome }) :=
    (Good.expect .semi "';' after field declaration" nofun).pass fun _ _ => Good.pure fun _ => trivial
  split
  case isTrue hequals =>
    have hequals : v.tok.type = .equals := of_decide_eq_true hequals
    have hpast₄ : Past K 3 s v.next :=
      hpast₃.trans (Past.next_of_type hpast₃.lexed hequals nofun)
    rw [outcome_advance]
    refine (outcome_parseDefaultValue (K := K) type (hs.after hpast₄)
      fun hN hfloat => ?_).bind (fun _ he => he) fun value w hpast₅ => ?_
    · exact (hfloating hN hfloat).signedInteger hs hN
        (floatDefault?_of_afterOrdinal hpast.lexed hname hordinal hequals)
    · have hpast₆ : Past K 3 s w := hpast₄.trans hpast₅
      refine (hrest (some value) w (hs.after hpast₆)).mono (fun _ he => he) ?_
      rintro a t ⟨hpast₇, -⟩
      exact ⟨(hpast₆.trans hpast₇).mono (by omega), fun _ => trivial⟩
  case isFalse =>
    refine (hrest none v (hs.after hpast₃)).mono (fun _ he => he) ?_
    rintro a t ⟨hpast₄, -⟩
    exact ⟨(hpast₃.trans hpast₄).mono (by omega), fun _ => trivial⟩

theorem good_parseStructMember (s : StructDecl) :
    Good N False n 1 (fun _ => True) (parseStructMember env s) := by
  unfold parseStructMember
  refine good_parseOptionalAttributes.skip fun attrs _ => ?_
  refine (Good.atKeyword "enum").skip fun _ _ => ?_
  split
  · exact (good_parseEnum attrs).step fun _ _ => Good.pure fun _ => trivial
  refine (Good.atKeyword "const").skip fun _ _ => ?_
  split
  · exact (good_parseConstIn _ attrs).step fun _ _ => Good.pure fun _ => trivial
  · exact (good_parseStructField attrs).step fun _ _ => Good.pure fun _ => trivial

theorem good_parseStructAttribute (s : StructDecl) (a : ParsedAttribute) :
    Good N K n 0 (fun _ => True) (parseStructAttribute s a) := by
  unfold parseStructAttribute
  split
  · exact (good_flagAttribute a).skip fun _ _ => Good.pure fun _ => trivial
  · exact (good_fillEnableIf _ a).skip fun _ _ => Good.pure fun _ => trivial

theorem good_parseStruct (topAttrs : List ParsedAttribute) :
    Good N False n 1 (fun _ => True) (parseStruct env topAttrs) := by
  unfold parseStruct
  refine (Good.expectKeyword "struct").step fun _ _ => ?_
  refine (Good.foldlM good_parseStructAttribute _ topAttrs).skip fun s _ => ?_
  refine (Good.expectName "struct name").pass fun name _ => ?_
  refine (Good.at' .semi).skip fun _ _ => ?_
  split
  · exact Good.advance.skip fun _ _ => Good.pure fun _ => trivial
  refine (Good.expect .lBrace "'\x7b'" nofun).pass fun _ _ => ?_
  refine (Good.untilRBrace good_parseStructMember _).skip fun _ _ => ?_
  refine (Good.expect .rBrace "'\x7d'" nofun).pass fun _ _ => ?_
  exact (Good.expect .semi "';' after struct body" nofun).pass
    fun _ _ => Good.pure fun _ => trivial

theorem good_takeEmbedOrder : Good N K n 0 (fun _ => True) takeEmbedOrder :=
  fun _ hs => ⟨⟨hs.lexed, List.suffix_rfl, le_rfl, fun _ => ⟨rfl, rfl⟩⟩, fun _ => trivial⟩

theorem good_parseStructIn (container : String) (attrs : List ParsedAttribute) :
    Good N False n 1 (fun _ => True) (parseStructIn env container attrs) := by
  unfold parseStructIn
  refine (good_parseStruct attrs).step fun _ _ => ?_
  exact good_takeEmbedOrder.skip fun _ _ => Good.pure fun _ => trivial

end

/-! ### Unions -/

section

variable {N K : Prop} {s t : Parser} {n : Nat} {env : Env}

theorem good_parseUnionFieldAttribute (f : UnionField) (a : ParsedAttribute) :
    Good N K n 0 (fun _ => True) (parseUnionFieldAttribute f a) := by
  unfold parseUnionFieldAttribute
  split
  · exact (good_minVersionAttribute a).skip fun _ _ => Good.pure fun _ => trivial
  · split
    · exact (good_flagAttribute a).skip fun _ _ => Good.pure fun _ => trivial
    · exact (good_fillEnableIf _ a).skip fun _ _ => Good.pure fun _ => trivial

theorem good_parseUnionMember (u : UnionDecl) :
    Good N K n 1 (fun _ => True) (parseUnionMember env u) := by
  unfold parseUnionMember
  refine good_parseOptionalAttributes.skip fun attrs _ => ?_
  refine (Good.foldlM good_parseUnionFieldAttribute _ attrs).skip fun f _ => ?_
  refine good_parseTypeSpec.step fun type _ => ?_
  refine (Good.expectName "field name").pass fun name _ => ?_
  refine (good_parseOptionalOrdinal "tag number").skip fun tag _ => ?_
  exact (Good.expect .semi "';' after field declaration" nofun).pass
    fun _ _ => Good.pure fun _ => trivial

theorem good_parseUnionAttribute (u : UnionDecl) (a : ParsedAttribute) :
    Good N K n 0 (fun _ => True) (parseUnionAttribute u a) := by
  unfold parseUnionAttribute
  split
  · exact (good_flagAttribute a).skip fun _ _ => Good.pure fun _ => trivial
  · exact (good_fillEnableIf _ a).skip fun _ _ => Good.pure fun _ => trivial

theorem good_reject {α : Type} {x : Parse α} {c : Prop} [Decidable c] {msg : String}
    (hx : Good N K n 0 (fun _ => True) x) :
    Good N K n 0 (fun _ => True) (do
      if c then parseError msg (← cur).line
      x) := by
  split
  · exact Good.cur.skip fun _ _ => Good.parseErrorThen
  · exact hx

theorem good_parseUnion (topAttrs : List ParsedAttribute) :
    Good N K n 1 (fun _ => True) (parseUnion env topAttrs) := by
  unfold parseUnion
  refine (Good.expectKeyword "union").step fun _ _ => ?_
  refine (Good.foldlM good_parseUnionAttribute _ topAttrs).skip fun u _ => ?_
  refine (Good.expectName "union name").pass fun name _ => ?_
  refine (Good.expect .lBrace "'\x7b'" nofun).pass fun _ _ => ?_
  refine (Good.untilRBrace good_parseUnionMember _).skip fun _ _ => ?_
  refine (Good.expect .rBrace "'\x7d'" nofun).pass fun _ _ => ?_
  refine (Good.expect .semi "';' after union body" nofun).pass fun _ _ => ?_
  exact good_reject (good_reject (Good.pure fun _ => trivial))

theorem good_parseUnionIn (container : String) (attrs : List ParsedAttribute) :
    Good N K n 1 (fun _ => True) (parseUnionIn env container attrs) := by
  unfold parseUnionIn
  refine (good_parseUnion attrs).step fun _ _ => ?_
  exact good_takeEmbedOrder.skip fun _ _ => Good.pure fun _ => trivial

end

/-! ### Methods -/

section

variable {N K : Prop} {s t : Parser} {n : Nat} {env : Env}

theorem good_parseParamAttribute (p : Param) (a : ParsedAttribute) :
    Good N K n 0 (fun _ => True) (parseParamAttribute p a) := by
  unfold parseParamAttribute
  split
  · exact (good_minVersionAttribute a).skip fun _ _ => Good.pure fun _ => trivial
  · exact (good_fillEnableIf _ a).skip fun _ _ => Good.pure fun _ => trivial

theorem good_parseParam : Good N K n 1 (fun _ => True) (parseParam env) := by
  unfold parseParam
  refine good_parseOptionalAttributes.skip fun attrs _ => ?_
  refine (Good.foldlM good_parseParamAttribute _ attrs).skip fun p _ => ?_
  refine good_parseTypeSpec.step fun type _ => ?_
  refine (Good.expectName "parameter name").pass fun name _ => ?_
  exact (good_parseOptionalOrdinal "parameter ordinal").skip
    fun _ _ => Good.pure fun _ => trivial

theorem good_parseParams : Good N K n 1 (fun _ => True) (parseParams env) := by
  unfold parseParams
  refine (Good.at' .rParen).skip fun _ _ => ?_
  have hrest (params : List Param) : Good N K n 1 (fun _ => True) (do
      let _ ← expect .rParen "')'"
      return params) :=
    (Good.expect .rParen "')'" nofun).step fun _ _ => Good.pure fun _ => trivial
  split
  · exact hrest []
  · exact good_parseParam.commaSeparated.step fun params _ => (hrest params).loose

theorem good_parseMethodAttribute (m : Method) (a : ParsedAttribute) :
    Good N K n 0 (fun _ => True) (parseMethodAttribute m a) := by
  unfold parseMethodAttribute
  split
  · exact (good_flagAttribute a).skip fun _ _ => Good.pure fun _ => trivial
  · split
    · exact (good_minVersionAttribute a).skip fun _ _ => Good.pure fun _ => trivial
    · exact (good_fillEnableIf _ a).skip fun _ _ => Good.pure fun _ => trivial

theorem good_parseMethodOrdinal (m : Method) :
    Good N K n 0 (fun _ => True) (parseMethodOrdinal m) := by
  unfold parseMethodOrdinal
  refine (Good.at' .at).skip fun _ _ => ?_
  split
  case isFalse => exact Good.pure fun _ => trivial
  refine Good.cur.skip fun _ _ => Good.advance.skip fun _ _ => ?_
  refine (Good.expect .number "ordinal number" nofun).pass fun num hnum => ?_
  split
  · exact Good.parseErrorThen
  refine (Good.liftResult (converts_upTo fun hN => ?_)).skip fun _ _ => ?_
  · obtain ⟨htype, hlt⟩ := hnum hN
    rw [integer_eq (Or.inl htype)] at hlt
    omega
  · dsimp only
    split
    · exact Good.parseErrorThen
    · exact Good.pure fun _ => trivial

theorem good_makeResultUnion (ifaceName methodName : String) (valueType errorType : TypeSpec) :
    Good N K n 0 (fun _ => True)
      (makeResultUnion ifaceName methodName valueType errorType) := by
  unfold makeResultUnion
  refine good_takeEmbedOrder.skip fun _ _ => ?_
  exact fun s hs =>
    ⟨⟨hs.lexed, List.suffix_rfl, le_rfl, fun _ => ⟨rfl, rfl⟩⟩, fun _ => trivial⟩

theorem good_parseResultResponse (ifaceName : String) (m : Method) :
    Good N K n 0 (fun _ => True) (parseResultResponse env ifaceName m) := by
  unfold parseResultResponse
  refine Good.advance.skip fun _ _ => ?_
  refine (Good.expect .lAngle "'<'" nofun).pass fun _ _ => ?_
  refine good_parseTypeSpec.pass fun _ _ => ?_
  refine (Good.expect .comma "',' between result<T, E>'s two types" nofun).pass fun _ _ => ?_
  refine good_parseTypeSpec.pass fun _ _ => ?_
  refine (Good.expect .rAngle "'>'" nofun).pass fun _ _ => ?_
  exact (good_makeResultUnion _ _ _ _).skip fun _ _ => Good.pure fun _ => trivial

theorem good_parseResponse (ifaceName : String) (m : Method) :
    Good N K n 0 (fun _ => True) (parseResponse env ifaceName m) := by
  unfold parseResponse
  refine (Good.at' .arrow).skip fun _ _ => ?_
  split
  case isFalse => exact Good.pure fun _ => trivial
  refine Good.advance.skip fun _ _ => (Good.atKeyword "result").skip fun _ _ => ?_
  split
  · exact good_parseResultResponse ifaceName m
  · refine (Good.expect .lParen "'(' after '=>'" nofun).pass fun _ _ => ?_
    exact good_parseParams.pass fun _ _ => Good.pure fun _ => trivial

theorem good_parseMethod (topAttrs : List ParsedAttribute) (ifaceName : String) :
    Good N K n 1 (fun _ => True) (parseMethod env topAttrs ifaceName) := by
  unfold parseMethod
  refine (Good.foldlM good_parseMethodAttribute _ topAttrs).skip fun m _ => ?_
  refine (Good.expectName "method name").step fun name _ => ?_
  refine (good_parseMethodOrdinal _).skip fun _ _ => ?_
  refine (Good.expect .lParen "'('" nofun).pass fun _ _ => ?_
  refine good_parseParams.pass fun _ _ => ?_
  refine (good_parseMethodOrdinal _).skip fun _ _ => ?_
  refine (good_parseResponse ifaceName _).skip fun _ _ => ?_
  refine (Good.expect .semi "';' after method declaration" nofun).pass fun _ _ => ?_
  exact good_reject (Good.pure fun _ => trivial)

end

/-! ### Interfaces and features -/

section

variable {N : Prop} {s t : Parser} {n : Nat} {env : Env}

theorem good_parseInterfaceMember (i : Interface) :
    Good N False n 1 (fun _ => True) (parseInterfaceMember env i) := by
  unfold parseInterfaceMember
  refine good_parseOptionalAttributes.skip fun attrs _ => ?_
  refine (Good.atKeyword "enum").skip fun _ _ => ?_
  split
  · exact (good_parseEnum attrs).step fun _ _ => Good.pure fun _ => trivial
  refine (Good.atKeyword "struct").skip fun _ _ => ?_
  split
  · exact (good_parseStructIn _ attrs).step fun _ _ => Good.pure fun _ => trivial
  refine (Good.atKeyword "union").skip fun _ _ => ?_
  split
  · exact (good_parseUnionIn _ attrs).step fun _ _ => Good.pure fun _ => trivial
  refine (Good.atKeyword "const").skip fun _ _ => ?_
  split
  · exact (good_parseConstIn _ attrs).step fun _ _ => Good.pure fun _ => trivial
  · exact (good_parseMethod attrs _).step fun _ _ => Good.pure fun _ => trivial

theorem good_parseInterfaceAttribute (i : Interface) (a : ParsedAttribute) :
    Good N False n 0 (fun _ => True) (parseInterfaceAttribute i a) := by
  unfold parseInterfaceAttribute
  split
  · exact (good_flagAttribute a).skip fun _ _ => Good.pure fun _ => trivial
  · exact (good_fillEnableIf _ a).skip fun _ _ => Good.pure fun _ => trivial

theorem good_parseInterface (topAttrs : List ParsedAttribute) :
    Good N False n 1 (fun _ => True) (parseInterface env topAttrs) := by
  unfold parseInterface
  refine (Good.foldlM good_parseInterfaceAttribute _ topAttrs).skip fun i _ => ?_
  refine (Good.expectKeyword "interface").step fun _ _ => ?_
  refine (Good.expectName "interface name").pass fun name _ => ?_
  refine (Good.expect .lBrace "'\x7b'" nofun).pass fun _ _ => ?_
  refine (Good.untilRBrace good_parseInterfaceMember _).skip fun _ _ => ?_
  refine (Good.expect .rBrace "'\x7d'" nofun).pass fun _ _ => ?_
  refine (Good.expect .semi "';' after interface body" nofun).pass fun _ _ => ?_
  exact good_reject (Good.pure fun _ => trivial)

theorem good_parseFeatureMember (f : FeatureDecl) :
    Good N False n 1 (fun _ => True) (parseFeatureMember env f) := by
  unfold parseFeatureMember
  refine good_parseOptionalAttributes.skip fun attrs _ => Good.cur.skip fun token _ => ?_
  refine (Good.atKeyword "const").skip fun _ _ => ?_
  split
  · exact (good_parseConstIn _ attrs).step fun _ _ => Good.pure fun _ => trivial
  · exact Good.parseErrorThen

theorem good_parseFeature : Good N False n 1 (fun _ => True) (parseFeature env) := by
  unfold parseFeature
  refine (Good.expectKeyword "feature").step fun _ _ => ?_
  refine (Good.expectName "feature name").pass fun name _ => ?_
  refine (Good.expect .lBrace "'\x7b'" nofun).pass fun _ _ => ?_
  refine (Good.untilRBrace good_parseFeatureMember _).skip fun _ _ => ?_
  refine (Good.expect .rBrace "'\x7d'" nofun).pass fun _ _ => ?_
  exact (Good.expect .semi "';' after feature body" nofun).pass
    fun _ _ => Good.pure fun _ => trivial

end

/-! ### Headers and bodies -/

section

variable {N : Prop} {s t : Parser} {n : Nat} {env : Env}

theorem good_modify (g : Parser → Parser) (h : ∀ s, (g s).rest = s.rest) :
    Good N False n 0 (fun _ => True) (modify g : Parse PUnit) := by
  intro s hs
  have hpast : Past False 0 s (g s) := by
    refine ⟨?_, ?_, ?_, nofun⟩
    · rw [h]
      exact hs.lexed
    · rw [h]
    · rw [h]
      exact le_rfl
  exact ⟨hpast, fun _ => trivial⟩

theorem good_consumeHeaderAttributeList :
    Good N False n 0 (fun _ => True) consumeHeaderAttributeList := by
  unfold consumeHeaderAttributeList
  refine (Good.at' .lBracket).skip fun _ _ => ?_
  split
  case isFalse => exact Good.pure fun _ => trivial
  refine good_parseAttributeList.pass fun attrs _ => ?_
  refine (Good.atKeyword "module").skip fun _ _ => (Good.atKeyword "import").skip fun _ _ => ?_
  split
  · exact Good.pure fun _ => trivial
  · refine (good_modify _ fun _ => ?_).skip fun _ _ => Good.pure fun _ => trivial
    rfl

theorem good_parseImport : Good N False n 1 (fun _ => True) parseImport := by
  unfold parseImport
  refine (Good.expectKeyword "import").step fun _ _ => Good.cur.skip fun _ _ => ?_
  refine (Good.expect .stringLiteral "import path string" nofun).pass fun _ _ => ?_
  exact (Good.expect .semi "';' after import statement" nofun).pass
    fun _ _ => Good.pure fun _ => trivial

theorem good_parseModuleStatement : Good N False n 0 (fun _ => True) parseModuleStatement := by
  unfold parseModuleStatement
  refine (Good.atKeyword "module").skip fun _ _ => ?_
  split
  case isFalse => exact Good.pure fun _ => trivial
  refine Good.advance.skip fun _ _ => (Good.expectName "module name").pass fun _ _ => ?_
  refine (Good.manyAfter .dot nofun (Good.expectName "module name segment").loose).skip
    fun _ _ => ?_
  exact (Good.expect .semi "';' after module name" nofun).pass
    fun _ _ => Good.pure fun _ => trivial

theorem good_atImport : Good N False n 0 (fun _ => True) atImport := by
  unfold atImport
  refine (Good.at' .lBracket).skip fun _ _ => ?_
  split
  · refine good_consumeHeaderAttributeList.skip fun _ _ => ?_
    split
    · exact Good.atKeyword "import"
    · exact Good.pure fun _ => trivial
  · exact Good.atKeyword "import"

theorem good_parseHeader : Good N False n 0 (fun _ => True) parseHeader := by
  unfold parseHeader
  have hrest : Good N False n 0 (fun _ => True) (do
      let moduleName ← parseModuleStatement
      return { moduleName, imports := ← many atImport parseImport } : Parse FileHeader) :=
    good_parseModuleStatement.skip fun _ _ =>
      (Good.many good_atImport good_parseImport).skip fun _ _ => Good.pure fun _ => trivial
  refine (Good.at' .lBracket).skip fun _ _ => ?_
  split
  · refine good_consumeHeaderAttributeList.skip fun _ _ => ?_
    split
    · exact hrest
    · exact Good.pure fun _ => trivial
  · exact hrest

theorem good_takeTopAttributes : Good N False n 0 (fun _ => True) takeTopAttributes := by
  unfold takeTopAttributes
  refine Good.get.skip fun s _ => ?_
  split
  case h_1 attrs _ =>
    refine (good_modify _ fun _ => ?_).skip fun _ _ => Good.pure fun _ => trivial
    rfl
  case h_2 => exact good_parseOptionalAttributes

theorem good_parseTopLevel (m : Module) :
    Good N False n 1 (fun _ => True) (parseTopLevel env m) := by
  unfold parseTopLevel
  refine Good.get.skip fun _ _ => (Good.at' .lBracket).skip fun _ _ => ?_
  refine good_takeTopAttributes.skip fun attrs _ => Good.cur.skip fun token _ => ?_
  refine (Good.atKeyword "interface").skip fun _ _ => ?_
  split
  · exact (good_parseInterface attrs).step fun _ _ => Good.pure fun _ => trivial
  refine (Good.atKeyword "union").skip fun _ _ => ?_
  split
  · exact (good_parseUnionIn "" attrs).step fun _ _ => Good.pure fun _ => trivial
  refine (Good.atKeyword "enum").skip fun _ _ => ?_
  split
  · exact (good_parseEnum attrs).step fun _ _ => Good.pure fun _ => trivial
  refine (Good.atKeyword "struct").skip fun _ _ => ?_
  split
  · exact (good_parseStructIn "" attrs).step fun _ _ => Good.pure fun _ => trivial
  refine (Good.atKeyword "const").skip fun _ _ => ?_
  split
  · exact (good_parseConstIn "" attrs).step fun _ _ => Good.pure fun _ => trivial
  refine (Good.atKeyword "feature").skip fun _ _ => ?_
  split
  · refine good_parseFeature.step fun f _ => ?_
    exact (Good.foldlM good_fillEnableIf _ attrs).skip fun _ _ => Good.pure fun _ => trivial
  split
  · exact Good.parseError
  refine (Good.atKeyword "module").skip fun _ _ => ?_
  split
  · exact Good.parseError
  refine (Good.atKeyword "import").skip fun _ _ => ?_
  split
  · exact Good.parseError
  · exact Good.parseError

theorem good_parseDecls : Good N False n 0 (fun _ => True) (parseDecls env) := by
  have hloop : Good N False n 0 (fun _ => True) (do
      let s ← get
      loop (do return !(← at' .end)) (parseTopLevel env) (s.rest.length + 1) {}) :=
    Good.loop ((Good.at' .end).skip fun _ _ => Good.pure fun _ => trivial) good_parseTopLevel _
  have hdecls := hloop.skip fun m _ => Good.get.skip fun s _ =>
    (Good.pure fun _ => trivial : Good N False n 0 (fun _ => True)
      (pure { m with unions := m.unions ++ s.pendingResultUnions }))
  rw [bind_assoc] at hdecls
  exact hdecls

theorem good_checkCompleteTypeAcyclic (m : Module) :
    Good N False n 0 (fun _ => True) (checkCompleteTypeAcyclic m) := by
  unfold checkCompleteTypeAcyclic
  dsimp only
  split
  · exact Good.pure fun _ => trivial
  · exact Good.cur.skip fun _ _ => Good.parseError

/-- **A body is parsed, or stopped by a `ParseError` where every literal can be converted.** -/
theorem good_parseBody (scanned : Scanned) (moduleName : String) (p : Prelude) :
    Good N False n 0 (fun _ => True) (parseBody scanned moduleName p) := by
  unfold parseBody
  refine (good_modify (Parser.seed p) fun _ => rfl).skip fun _ _ => ?_
  refine good_parseDecls.skip fun m _ => ?_
  exact (good_checkCompleteTypeAcyclic m).skip fun _ _ => Good.pure fun _ => trivial

end

end Voodoo.Compiler
