import Voodoo.Bruja.TsParserRuns

/-!
# When the TypeScript parser ends

The mutually recursive parsers of expressions and statements, all at once, by the number of tokens that
are left; then the import lists, and programs.
-/

namespace Voodoo.Bruja.Goxx

open PartialLoop TsTokens

variable {toks : List TsToken} {i j lo : Nat} {α β : Type}

/-- The parser of the source beside the one that stops at the defects. -/
abbrev Steps (toks : List TsToken) (lo i : Nat) (f : (Spot → Bool) → Parser α) : Prop :=
  Moves toks lo (f fun _ => false) (f (defects toks)) i

theorem steps_of_eq {f g : (Spot → Bool) → Parser α} (h : ∀ stop, f stop = g stop)
    (hg : Steps toks lo i g) : Steps toks lo i f := by
  rw [Steps, h, h]
  exact hg

theorem moves_get {f g : Nat → Parser β} (h : Moves toks lo (f i) (g i) i) :
    Moves toks lo (get >>= f) (get >>= g) i := h

/-! ### Expressions and statements -/

/-- What a statement begins with, behind its modifiers. -/
structure HeadsMove (toks : List TsToken) (i : Nat) : Prop where
  assign : Steps toks (i + 1) i (parseAssign toks)
  block : Steps toks (i + 1) i (parseBlock toks)
  var : typeAt toks i = .ident → Steps toks (i + 1) i (parseVar toks)
  «for» : typeAt toks i = .ident → Steps toks (i + 1) i (parseFor toks)
  «class» : typeAt toks i = .ident → Steps toks (i + 1) i (parseClass toks)

/-- The parsers of expressions and statements, at one position. -/
structure ParsersMove (toks : List TsToken) (i : Nat) : Prop extends HeadsMove toks i where
  level : ∀ l, Steps toks (i + 1) i (parseLevel toks · l)
  levelRest : ∀ l e, Steps toks i i (levelRest toks · l e)
  unary : Steps toks (i + 1) i (parseUnary toks)
  postfixRest : ∀ e, Steps toks i i (postfixRest toks · e)
  args : ∀ c, Steps toks i i (parseArgs toks · c)
  moreArgs : Steps toks (i + 1) i (moreArgs toks)
  objectFields : Steps toks i i (objectFields toks)
  finishArrow : Steps toks (i + 1) i (finishArrow toks)
  blockBody : Steps toks i i (blockBody toks)
  statement : Steps toks (i + 1) i (parseStatement toks)
  returnValue : ∀ line, Steps toks i i (returnValue toks · line)
  condition : Steps toks (i + 1) i (condition toks)
  initializer : Steps toks i i (initializer toks)
  forInit : Steps toks i i (forInit toks)
  exprUnless : ∀ c, Steps toks i i (exprUnless toks · c)
  classBody : ∀ body, Steps toks i i (classBody toks · body)

theorem parsersMove_out (h : toks.length ≤ i) : ParsersMove toks i where
  assign := moves_out h
  block := moves_out h
  var _ := moves_out h
  «for» _ := moves_out h
  «class» _ := moves_out h
  level _ := moves_out h
  levelRest _ _ := moves_out h
  unary := moves_out h
  postfixRest _ := moves_out h
  args _ := moves_out h
  moreArgs := moves_out h
  objectFields := moves_out h
  finishArrow := moves_out h
  blockBody := moves_out h
  statement := moves_out h
  returnValue _ := moves_out h
  condition := moves_out h
  initializer := moves_out h
  forInit := moves_out h
  exprUnless _ := moves_out h
  classBody _ := moves_out h

section

variable (he : Ended toks)

include he

theorem moves_advanceOn {t : TsToken} {types : List TsTok} (ht : t.type = typeAt toks i)
    (h : t.type ∈ types) (hend : .endOfFile ∉ types) {f g : TsToken → Parser β}
    (hf : ∀ t, Moves toks lo (f t) (g t) (i + 1)) :
    Moves toks lo (advance toks >>= f) (advance toks >>= g) i :=
  moves_advance he (fun heof => hend (heof ▸ ht ▸ h)) fun t _ => hf t

theorem moves_advanceIdent {t : TsToken} (ht : t.type = typeAt toks i) (h : t.type = .ident)
    {f g : TsToken → Parser β} (hf : ∀ t, Moves toks lo (f t) (g t) (i + 1)) :
    Moves toks lo (advance toks >>= f) (advance toks >>= g) i :=
  moves_advance he (ht ▸ h ▸ nofun) fun t _ => hf t

variable (ih : ∀ j, i < j → ParsersMove toks j)

include ih

theorem steps_levelRest {l : Level} {e : Expr} : Steps toks i i (levelRest toks · l e) := by
  refine steps_of_eq (fun stop => levelRest.eq_def toks stop l e) ?_
  refine moves_peek fun t ht => moves_ite (fun hop => ?_) fun _ => moves_pure (Nat.le_refl i)
  refine moves_advanceOn he ht hop (by cases l <;> decide) fun _ => ?_
  refine moves_bind ((ih (i + 1) (by omega)).level l.next) fun right j hj => ?_
  exact ((ih j (by omega)).levelRest l _).weaken (by omega)

theorem steps_memberName {e : Expr} (hj : i ≤ j) :
    Steps toks i j (fun stop => do
      breakpoint stop .memberName
      skipQuestion toks
      let name ← expect toks .ident "member name"
      postfixRest toks stop (.member e name.text)) := by
  refine moves_breakpoint (fun hbad hi => .inl ?_) fun hgood => ?_
  · obtain ⟨hquestion, hend⟩ := Bool.and_eq_true_iff.mp hbad
    exact skipQuestion_end he hi (beq_iff_eq.mp hquestion) (beq_iff_eq.mp hend)
  · refine moves_bind (moves_skipQuestion he fun hquestion hend => ?_) fun _ k hk => ?_
    · exact Bool.noConfusion (hgood.symm.trans
        (Bool.and_eq_true_iff.mpr ⟨beq_iff_eq.mpr hquestion, beq_iff_eq.mpr hend⟩))
    · refine moves_expect he (by decide) fun name => ?_
      exact ((ih (k + 1) (by omega)).postfixRest _).weaken (by omega)

theorem steps_postfixRest {e : Expr} : Steps toks i i (postfixRest toks · e) := by
  refine steps_of_eq (fun stop => postfixRest.eq_def toks stop e) ?_
  have hagain {k : Nat} (e : Expr) (hk : i < k) : Steps toks i k (postfixRest toks · e) :=
    ((ih k hk).postfixRest e).weaken (Nat.le_of_lt hk)
  refine moves_ifAccept he (by decide) (fun _ => ?_) fun _ => ?_
  · refine moves_bind ((ih (i + 1) (by omega)).args _) fun args j hj => ?_
    exact moves_expect he (by decide) fun _ => hagain _ (by omega)
  refine moves_accept he (by decide) (fun _ => ?_) fun _ => ?_
  · refine moves_check fun _ _ => moves_peekN he fun _ _ => moves_ite (fun _ => ?_) fun h => ?_
    · exact steps_memberName he ih (Nat.le_succ i)
    · exact absurd rfl h
  refine moves_check fun _ _ => moves_peekN he fun _ _ => moves_ite (fun _ => ?_) fun _ => ?_
  · exact steps_memberName he ih (Nat.le_refl i)
  refine moves_ifAccept he (by decide) (fun _ => ?_) fun _ => ?_
  · refine moves_bind (ih (i + 1) (by omega)).assign fun right j hj => ?_
    exact moves_expect he (by decide) fun _ => hagain _ (by omega)
  refine moves_peek fun t ht => moves_ite (fun hop => ?_) fun _ => ?_
  · exact moves_advanceOn he ht hop (by decide) fun _ => hagain _ (Nat.lt_succ_self i)
  refine moves_ifIdent (fun ht => ?_) ?_
  · refine moves_advance he (ht ▸ nofun) fun _ _ => moves_bind (moves_parseType he) fun _ j hj => ?_
    exact hagain e (by omega)
  refine moves_ifAccept he (by decide) (fun _ => ?_) fun _ => moves_pure (Nat.le_refl i)
  refine moves_peek fun t _ => moves_ite (fun _ => moves_pure (Nat.le_succ i)) fun _ => ?_
  exact hagain e (Nat.lt_succ_self i)

theorem steps_objectFields : Steps toks i i (objectFields toks) := by
  refine steps_of_eq (fun stop => objectFields.eq_def toks stop) ?_
  refine moves_unlessClosed (moves_pure (Nat.le_refl i)) fun _ => ?_
  refine moves_bind (moves_objectKey he) fun key j hj => moves_expect he (by decide) fun _ => ?_
  refine moves_bind (ih (j + 1) (by omega)).assign fun e k hk => ?_
  refine moves_skip he (by decide) fun l hl => ?_
  exact moves_bind (ih l (by omega)).objectFields fun more m hm => moves_pure (by omega)

theorem steps_parsePrimary : Steps toks (i + 1) i (parsePrimary toks) := by
  refine steps_of_eq (fun stop => parsePrimary.eq_def toks stop) ?_
  refine moves_peek fun t ht => ?_
  refine moves_ite (fun h => ?_) fun _ => ?_
  · have htype : t.type = .ident := (Bool.or_eq_true_iff.mp h).elim isIdent_type isIdent_type
    exact moves_advanceIdent he ht htype fun _ => moves_pure (Nat.le_refl _)
  refine moves_ite (fun h => ?_) fun _ => ?_
  · have htype : t.type = .ident := (Bool.or_eq_true_iff.mp h).elim isIdent_type isIdent_type
    exact moves_advanceIdent he ht htype fun _ => moves_pure (Nat.le_refl _)
  refine moves_ite (fun h => ?_) fun _ => ?_
  · exact moves_advanceIdent he ht (isIdent_type h) fun _ => moves_pure (Nat.le_refl _)
  -- `new`
  refine moves_ite (fun h => ?_) fun _ => ?_
  · refine moves_advanceIdent he ht (isIdent_type h) fun _ => moves_expect he (by decide) fun name => ?_
    refine moves_ifAccept he (by decide) (fun _ => ?_) fun _ => moves_pure (by omega)
    refine moves_bind ((ih (i + 1 + 1 + 1) (by omega)).args _) fun args j hj => ?_
    exact moves_expect he (by decide) fun _ => moves_pure (by omega)
  -- `function`
  refine moves_ite (fun h => ?_) fun _ => ?_
  · refine moves_advanceIdent he ht (isIdent_type h) fun _ => ?_
    refine moves_bind (moves_optionalName he) fun name j hj => ?_
    refine moves_bind (moves_parenthesized he) fun params k hk => ?_
    refine moves_bind (moves_annotated he) fun type l hl => ?_
    exact moves_bind (ih l (by omega)).block fun body m hm => moves_pure (by omega)
  -- a name
  refine moves_ite (fun h => ?_) fun _ => ?_
  · refine moves_advanceIdent he ht h fun _ => ?_
    refine moves_ifAccept he (by decide) (fun _ => ?_) fun _ => moves_pure (Nat.le_refl _)
    exact moves_bind (ih (i + 1 + 1) (by omega)).finishArrow fun body j hj => moves_pure (by omega)
  -- literals
  refine moves_ite (fun h => ?_) fun _ => ?_
  · exact moves_advance he (ht ▸ h ▸ nofun) fun _ _ => moves_pure (Nat.le_refl _)
  refine moves_ite (fun h => ?_) fun _ => ?_
  · exact moves_advance he (ht ▸ h ▸ nofun) fun _ _ => moves_pure (Nat.le_refl _)
  -- parentheses
  refine moves_ifAccept he (by decide) (fun _ => ?_) fun _ => ?_
  · refine moves_get (moves_ite (fun _ => ?_) fun _ => ?_)
    · refine moves_bind (moves_arrowHead he) fun params j hj => moves_expect he (by decide) fun _ => ?_
      refine moves_bind (moves_annotated he) fun type k hk => moves_expect he (by decide) fun _ => ?_
      exact moves_bind (ih (k + 1) (by omega)).finishArrow fun body l hl => moves_pure (by omega)
    · refine moves_bind (ih (i + 1) (by omega)).assign fun e j hj => ?_
      exact moves_expect he (by decide) fun _ => moves_pure (by omega)
  -- brackets and braces
  refine moves_ifAccept he (by decide) (fun _ => ?_) fun _ => ?_
  · refine moves_bind ((ih (i + 1) (by omega)).args _) fun args j hj => ?_
    exact moves_expect he (by decide) fun _ => moves_pure (by omega)
  refine moves_ifAccept he (by decide) (fun _ => ?_) fun _ => moves_fail
  refine moves_bind (ih (i + 1) (by omega)).objectFields fun fields j hj => ?_
  exact moves_expect he (by decide) fun _ => moves_pure (by omega)

theorem steps_parseUnary : Steps toks (i + 1) i (parseUnary toks) := by
  refine steps_of_eq (fun stop => parseUnary.eq_def toks stop) ?_
  refine moves_peek fun t ht => ?_
  refine moves_ite (fun hop => ?_) fun _ => moves_ite (fun hop => ?_) fun _ => ?_
  · refine moves_advanceOn he ht hop (by decide) fun _ => ?_
    exact moves_bind (ih (i + 1) (by omega)).unary fun e j hj => moves_pure (by omega)
  · refine moves_advanceOn he ht hop (by decide) fun _ => ?_
    exact moves_bind (ih (i + 1) (by omega)).unary fun e j hj => moves_pure (by omega)
  · refine moves_bind (steps_parsePrimary he ih) fun e j hj => ?_
    exact ((ih j (by omega)).postfixRest e).weaken hj

omit he in
theorem steps_nextLevel {l : Level} (h : Steps toks (i + 1) i (parseLevel toks · l.next)) :
    Steps toks (i + 1) i (parseLevel toks · (some l)) := by
  refine steps_of_eq (fun stop => parseLevel.eq_def toks stop (some l)) ?_
  refine moves_bind h fun e j hj => ?_
  exact ((ih j (by omega)).levelRest l e).weaken hj

theorem steps_parseLevel (level : Option Level) : Steps toks (i + 1) i (parseLevel toks · level) := by
  have hunary : Steps toks (i + 1) i (parseLevel toks · none) :=
    steps_of_eq (fun stop => parseLevel.eq_def toks stop none) (steps_parseUnary he ih)
  have hmul := steps_nextLevel ih (l := .mul) hunary
  have hadd := steps_nextLevel ih (l := .add) hmul
  have hcmp := steps_nextLevel ih (l := .cmp) hadd
  have heq := steps_nextLevel ih (l := .eq) hcmp
  have hand := steps_nextLevel ih (l := .and) heq
  cases level with
  | none => exact hunary
  | some l =>
    cases l with
    | mul => exact hmul
    | add => exact hadd
    | cmp => exact hcmp
    | eq => exact heq
    | and => exact hand
    | or => exact steps_nextLevel ih hand

theorem steps_parseAssign : Steps toks (i + 1) i (parseAssign toks) := by
  refine steps_of_eq (fun stop => parseAssign.eq_def toks stop) ?_
  refine moves_bind (steps_parseLevel he ih (some .or)) fun left j hj => ?_
  refine moves_peek fun t ht => moves_ite (fun hop => ?_) fun _ => moves_pure hj
  refine moves_advanceOn he ht hop (by decide) fun _ => ?_
  exact moves_bind (ih (j + 1) (by omega)).assign fun right k hk => moves_pure (by omega)

theorem steps_moreArgs : Steps toks (i + 1) i (moreArgs toks) := by
  refine steps_of_eq (fun stop => moreArgs.eq_def toks stop) ?_
  refine moves_bind (steps_parseAssign he ih) fun e j hj => ?_
  refine moves_ifAccept he (by decide) (fun _ => ?_) fun _ => moves_pure hj
  exact moves_bind (ih (j + 1) (by omega)).moreArgs fun more k hk => moves_pure (by omega)

theorem steps_parseArgs {closing : TsTok} : Steps toks i i (parseArgs toks · closing) := by
  refine steps_of_eq (fun stop => parseArgs.eq_def toks stop closing) ?_
  refine moves_ifCheck (fun _ => moves_pure (Nat.le_refl i)) fun _ => ?_
  exact (steps_moreArgs he ih).weaken (Nat.le_succ i)

theorem steps_parseBlock : Steps toks (i + 1) i (parseBlock toks) := by
  refine steps_of_eq (fun stop => parseBlock.eq_def toks stop) ?_
  refine moves_expect he (by decide) fun _ => ?_
  refine moves_bind (ih (i + 1) (by omega)).blockBody fun body j hj => ?_
  exact moves_expect he (by decide) fun _ => moves_pure (by omega)

theorem steps_finishArrow : Steps toks (i + 1) i (finishArrow toks) := by
  refine steps_of_eq (fun stop => finishArrow.eq_def toks stop) ?_
  refine moves_ifCheck (fun _ => steps_parseBlock he ih) fun _ => ?_
  exact moves_bind (steps_parseAssign he ih) fun e j hj => moves_pure hj

theorem steps_initializer : Steps toks i i (initializer toks) := by
  refine steps_of_eq (fun stop => initializer.eq_def toks stop) ?_
  refine moves_ifAccept he (by decide) (fun _ => ?_) fun _ => moves_pure (Nat.le_refl i)
  exact moves_bind (ih (i + 1) (by omega)).assign fun e j hj => moves_pure (by omega)

theorem steps_condition : Steps toks (i + 1) i (condition toks) := by
  refine steps_of_eq (fun stop => condition.eq_def toks stop) ?_
  refine moves_expect he (by decide) fun _ => ?_
  refine moves_bind (ih (i + 1) (by omega)).assign fun e j hj => ?_
  exact moves_expect he (by decide) fun _ => moves_pure (by omega)

theorem steps_returnValue {line : Nat} : Steps toks i i (returnValue toks · line) := by
  refine steps_of_eq (fun stop => returnValue.eq_def toks stop line) ?_
  refine moves_peek fun t _ => moves_ite (fun _ => ?_) fun _ => moves_pure (Nat.le_refl i)
  exact moves_bind (steps_parseAssign he ih) fun e j hj => moves_pure (by omega)

theorem steps_exprUnless {closing : TsTok} : Steps toks i i (exprUnless toks · closing) := by
  refine steps_of_eq (fun stop => exprUnless.eq_def toks stop closing) ?_
  refine moves_ifCheck (fun _ => moves_pure (Nat.le_refl i)) fun _ => ?_
  exact moves_bind (steps_parseAssign he ih) fun e j hj => moves_pure (by omega)

theorem steps_parseVar (h : typeAt toks i = .ident) : Steps toks (i + 1) i (parseVar toks) := by
  refine steps_of_eq (fun stop => parseVar.eq_def toks stop) ?_
  refine moves_advance he (h ▸ nofun) fun _ _ => moves_expect he (by decide) fun name => ?_
  refine moves_bind (moves_annotated he) fun type j hj => ?_
  refine moves_bind (ih j (by omega)).initializer fun init k hk => ?_
  exact moves_bind (moves_optionalSemi he) fun _ l hl => moves_pure (by omega)

theorem steps_forInit : Steps toks i i (forInit toks) := by
  refine steps_of_eq (fun stop => forInit.eq_def toks stop) ?_
  refine moves_peek fun t ht => moves_ite (fun h => ?_) fun _ => moves_ite (fun h => ?_) fun _ => ?_
  · exact moves_advance he (ht ▸ h ▸ nofun) fun _ _ => moves_pure (Nat.le_succ i)
  · have hident : typeAt toks i = .ident := ht ▸ any_isIdent_type h
    exact moves_bind (steps_parseVar he ih hident) fun s j hj => moves_pure (by omega)
  · refine moves_bind (steps_parseAssign he ih) fun e j hj => ?_
    exact moves_bind (moves_optionalSemi he) fun _ k hk => moves_pure (by omega)

theorem steps_parseFor (h : typeAt toks i = .ident) : Steps toks (i + 1) i (parseFor toks) := by
  refine steps_of_eq (fun stop => parseFor.eq_def toks stop) ?_
  refine moves_advance he (h ▸ nofun) fun _ _ => moves_expect he (by decide) fun _ => ?_
  refine moves_peek fun t ht => moves_peekN he fun name hname => moves_peekN he fun word hword => ?_
  refine moves_ite (fun hof => ?_) fun _ => ?_
  · obtain ⟨hof, hw⟩ := Bool.and_eq_true_iff.mp hof
    obtain ⟨hlet, hn⟩ := Bool.and_eq_true_iff.mp hof
    refine moves_advanceIdent he ht (any_isIdent_type hlet) fun _ => ?_
    refine moves_advanceIdent he hname (beq_iff_eq.mp hn) fun _ => ?_
    refine moves_advanceIdent he hword (isIdent_type hw) fun _ => ?_
    refine moves_bind (ih _ (by omega)).assign fun e j hj => moves_expect he (by decide) fun _ => ?_
    exact moves_bind (ih (j + 1) (by omega)).statement fun body k hk => moves_pure (by omega)
  · refine moves_bind (ih _ (by omega)).forInit fun init j hj => ?_
    refine moves_bind ((ih j (by omega)).exprUnless _) fun cond k hk => ?_
    refine moves_expect he (by decide) fun _ => ?_
    refine moves_bind ((ih (k + 1) (by omega)).exprUnless _) fun step l hl => ?_
    refine moves_expect he (by decide) fun _ => ?_
    exact moves_bind (ih (l + 1) (by omega)).statement fun body m hm => moves_pure (by omega)

theorem steps_parseClass (h : typeAt toks i = .ident) : Steps toks (i + 1) i (parseClass toks) := by
  refine steps_of_eq (fun stop => parseClass.eq_def toks stop) ?_
  refine moves_advance he (h ▸ nofun) fun _ _ => moves_expect he (by decide) fun name => ?_
  refine moves_bind (moves_skipClause he) fun _ j hj => moves_expect he (by decide) fun _ => ?_
  refine moves_bind ((ih (j + 1) (by omega)).classBody {}) fun body k hk => ?_
  exact moves_expect he (by decide) fun _ => moves_pure (by omega)

theorem steps_classBody {body : ClassBody} : Steps toks i i (classBody toks · body) := by
  refine steps_of_eq (fun stop => classBody.eq_def toks stop body) ?_
  have hagain {k : Nat} (body : ClassBody) (hk : i < k) : Steps toks i k (classBody toks · body) :=
    ((ih k hk).classBody body).weaken (Nat.le_of_lt hk)
  refine moves_unlessClosed (moves_pure (Nat.le_refl i)) fun _ => ?_
  refine moves_bind (moves_skipModifiers he) fun _ j hj => ?_
  refine moves_ifIdent (fun hident => ?_) (moves_ifCheck (fun hident => ?_) fun _ => ?_)
  · refine moves_advance he (hident ▸ nofun) fun _ _ => ?_
    refine moves_bind (moves_parenthesized he) fun params k hk => ?_
    exact moves_bind (ih k (by omega)).block fun stmts l hl => hagain _ (by omega)
  · refine moves_advance he (hident ▸ nofun) fun name _ => ?_
    refine moves_ifAccept he (by decide) (fun _ => ?_) fun _ => ?_
    · refine moves_bind (moves_parseParamList he) fun params k hk => ?_
      refine moves_expect he (by decide) fun _ => ?_
      refine moves_bind (moves_annotated he) fun type l hl => ?_
      exact moves_bind (ih l (by omega)).block fun stmts m hm => hagain _ (by omega)
    · refine moves_skip he (by decide) fun k hk => ?_
      refine moves_bind (moves_annotated he) fun type l hl => ?_
      refine moves_bind (ih l (by omega)).initializer fun init m hm => ?_
      exact moves_bind (moves_optionalSemi he) fun _ n hn => hagain _ (by omega)
  · refine moves_breakpoint (fun hbad hi => .inl (advance_end hi (beq_iff_eq.mp hbad))) fun hgood => ?_
    exact moves_advance he (beq_eq_false_iff_ne.mp hgood) fun _ _ => hagain _ (by omega)

theorem headsMove : HeadsMove toks i where
  assign := steps_parseAssign he ih
  block := steps_parseBlock he ih
  var := steps_parseVar he ih
  «for» := steps_parseFor he ih
  «class» := steps_parseClass he ih

theorem steps_parseStatement : Steps toks (i + 1) i (parseStatement toks) := by
  refine steps_of_eq (fun stop => parseStatement.eq_def toks stop) ?_
  refine moves_bind (moves_skipModifiers he) fun _ j hj => ?_
  have hhead : HeadsMove toks j := by
    rcases Nat.eq_or_lt_of_le hj with rfl | hlt
    · exact headsMove he ih
    · exact (ih j hlt).toHeadsMove
  refine moves_peek fun t ht => ?_
  have hident {w : String} (h : t.isIdent w = true) : typeAt toks j = .ident := ht ▸ isIdent_type h
  refine moves_ite (fun _ => ?_) fun _ => ?_
  · exact moves_bind hhead.block fun body k hk => moves_pure (by omega)
  refine moves_ite (fun h => ?_) fun _ => ?_
  · refine moves_advanceIdent he ht (isIdent_type h) fun _ => ?_
    refine moves_bind (moves_optionalName he) fun name k hk => ?_
    refine moves_bind (moves_parenthesized he) fun params l hl => ?_
    refine moves_bind (moves_annotated he) fun type m hm => ?_
    exact moves_bind (ih m (by omega)).block fun body n hn => moves_pure (by omega)
  refine moves_ite (fun h => (hhead.class (hident h)).weaken (by omega)) fun _ => ?_
  refine moves_ite (fun h => (moves_parseInterface he (hident h)).weaken (by omega)) fun _ => ?_
  refine moves_ite (fun h => (moves_parseTypeAlias he (hident h)).weaken (by omega)) fun _ => ?_
  refine moves_ite (fun h => (hhead.var (ht ▸ any_isIdent_type h)).weaken (by omega)) fun _ => ?_
  refine moves_ite (fun h => ?_) fun _ => ?_
  · refine moves_advanceIdent he ht (isIdent_type h) fun _ => ?_
    refine moves_bind (ih (j + 1) (by omega)).condition fun cond k hk => ?_
    refine moves_bind (ih k (by omega)).statement fun thenS l hl => ?_
    refine moves_ifIdent (fun helse => ?_) (moves_pure (by omega))
    refine moves_advance he (helse ▸ nofun) fun _ _ => ?_
    exact moves_bind (ih (l + 1) (by omega)).statement fun elseS m hm => moves_pure (by omega)
  refine moves_ite (fun h => (hhead.for (hident h)).weaken (by omega)) fun _ => ?_
  refine moves_ite (fun h => ?_) fun _ => ?_
  · refine moves_advanceIdent he ht (isIdent_type h) fun _ => ?_
    refine moves_bind (ih (j + 1) (by omega)).condition fun cond k hk => ?_
    exact moves_bind (ih k (by omega)).statement fun body l hl => moves_pure (by omega)
  refine moves_ite (fun h => ?_) fun _ => ?_
  · refine moves_advanceIdent he ht (isIdent_type h) fun _ => ?_
    refine moves_bind ((ih (j + 1) (by omega)).returnValue _) fun e k hk => ?_
    exact moves_bind (moves_optionalSemi he) fun _ l hl => moves_pure (by omega)
  refine moves_ite (fun h => ?_) fun _ => moves_ite (fun h => ?_) fun _ => ?_
  · refine moves_advanceIdent he ht (isIdent_type h) fun _ => ?_
    exact moves_bind (moves_optionalSemi he) fun _ k hk => moves_pure (by omega)
  · refine moves_advanceIdent he ht (isIdent_type h) fun _ => ?_
    exact moves_bind (moves_optionalSemi he) fun _ k hk => moves_pure (by omega)
  · refine moves_bind hhead.assign fun e k hk => ?_
    exact moves_bind (moves_optionalSemi he) fun _ l hl => moves_pure (by omega)

theorem steps_blockBody : Steps toks i i (blockBody toks) := by
  refine steps_of_eq (fun stop => blockBody.eq_def toks stop) ?_
  refine moves_unlessClosed (moves_pure (Nat.le_refl i)) fun _ => ?_
  refine moves_bind (steps_parseStatement he ih) fun s j hj => ?_
  exact moves_bind (ih j (by omega)).blockBody fun more k hk => moves_pure (by omega)

end

theorem parsersMove (he : Ended toks) (i : Nat) : ParsersMove toks i := by
  refine ahead_induction toks (fun _ => parsersMove_out) (fun i ih => ?_) i
  exact
    { headsMove he ih with
      level := steps_parseLevel he ih
      levelRest := fun _ _ => steps_levelRest he ih
      unary := steps_parseUnary he ih
      postfixRest := fun _ => steps_postfixRest he ih
      args := fun _ => steps_parseArgs he ih
      moreArgs := steps_moreArgs he ih
      objectFields := steps_objectFields he ih
      finishArrow := steps_finishArrow he ih
      blockBody := steps_blockBody he ih
      statement := steps_parseStatement he ih
      returnValue := fun _ => steps_returnValue he ih
      condition := steps_condition he ih
      initializer := steps_initializer he ih
      forInit := steps_forInit he ih
      exprUnless := fun _ => steps_exprUnless he ih
      classBody := fun _ => steps_classBody he ih }

/-! ### Import lists -/

/-- Only names and commas stand between two positions. -/
def Over (toks : List TsToken) (i j : Nat) : Prop :=
  i ≤ j ∧ ∀ k, i ≤ k → k < j → typeAt toks k = .ident ∨ typeAt toks k = .comma

theorem Over.refl : Over toks i i :=
  ⟨Nat.le_refl i, fun _ hk hlt => absurd hlt (Nat.not_lt.mpr hk)⟩

theorem Over.step (h : typeAt toks i = .ident ∨ typeAt toks i = .comma) : Over toks i (i + 1) :=
  ⟨Nat.le_succ i, fun _ hk hlt => Nat.le_antisymm (Nat.le_of_lt_succ hlt) hk ▸ h⟩

theorem Over.trans {k : Nat} (h : Over toks i j) (h' : Over toks j k) : Over toks i k := by
  refine ⟨Nat.le_trans h.1 h'.1, fun l hl hlt => ?_⟩
  rcases Nat.lt_or_ge l j with hj | hj
  · exact h.2 l hl hj
  · exact h'.2 l hj hlt

theorem stuckList_drop (h : typeAt toks i = .ident ∨ typeAt toks i = .comma) :
    stuckList (toks.drop i) = stuckList (toks.drop (i + 1)) := by
  have hi : i < toks.length := lt_of_typeAt fun hend => by rw [hend] at h; exact h.elim nofun nofun
  obtain ⟨t, ht, htype⟩ := typeAt_of_lt hi
  rw [List.drop_eq_getElem?_toList_append, ht]
  exact if_pos (htype ▸ h)

theorem Over.stuckList_eq (h : Over toks i j) : stuckList (toks.drop i) = stuckList (toks.drop j) := by
  obtain ⟨hle, h⟩ := h
  induction hle with
  | refl => rfl
  | @step j hj ih =>
    exact (ih fun k hk hlt => h k hk (Nat.lt_succ_of_lt hlt)).trans
      (stuckList_drop (h j hj (Nat.lt_succ_self j)))

theorem stuckList_of_other (hi : i < toks.length)
    (h : ¬(typeAt toks i = .ident ∨ typeAt toks i = .comma)) :
    stuckList (toks.drop i) = (typeAt toks i != .rBrace && typeAt toks i != .endOfFile) := by
  obtain ⟨t, ht, htype⟩ := typeAt_of_lt hi
  rw [List.drop_eq_getElem?_toList_append, ht, ← htype]
  exact if_neg (htype ▸ h)

section

variable (he : Ended toks)

include he

theorem Over.lt (h : Over toks i j) (hi : i < toks.length) : j < toks.length := by
  obtain ⟨hle, h⟩ := h
  induction hle with
  | refl => exact hi
  | @step j hj ih =>
    refine next_lt he (ih fun k hk hlt => h k hk (Nat.lt_succ_of_lt hlt)) fun hend => ?_
    have hor := h j hj (Nat.lt_succ_self j)
    rw [hend] at hor
    exact hor.elim nofun nofun

/-- A parser that goes over names and commas. -/
def Skips (toks : List TsToken) (p : Parser α) (P : α → Nat → Prop) (i : Nat) : Prop :=
  PartialLoop.Returns (fun r => Over toks i r.2 ∧ P r.1 r.2) (p i)

variable {P : α → Nat → Prop} {Q : β → Nat → Prop}

omit he in
theorem skips_pure {a : α} (h : P a i) : Skips toks (pure a) P i := .value ⟨.refl, h⟩

theorem skips_bind {p : Parser α} {f : α → Parser β} (hi : i < toks.length) (h : Skips toks p P i)
    (hf : ∀ a j, j < toks.length → Over toks i j → P a j → Skips toks (f a) Q j) :
    Skips toks (p >>= f) Q i := by
  show PartialLoop.Returns _ (p i >>= fun r => f r.1 r.2)
  refine Halts.bind h fun r hr => (hf r.1 r.2 (hr.1.lt he hi) hr.1 hr.2).mono fun s hs => ?_
  exact ⟨hr.1.trans hs.1, hs.2⟩

omit he in
theorem skips_ite {c : Prop} [Decidable c] {p q : Parser α} (hyes : c → Skips toks p P i)
    (hno : ¬c → Skips toks q P i) : Skips toks (if c then p else q) P i := by
  split
  · exact hyes ‹_›
  · exact hno ‹_›

omit he in
theorem skips_peek {f : TsToken → Parser β} (hi : i < toks.length)
    (h : ∀ t, t.type = typeAt toks i → Skips toks (f t) Q i) : Skips toks (peek toks >>= f) Q i := by
  obtain ⟨t, ht, htype⟩ := typeAt_of_lt hi
  have hpeek : peek toks i = pure (t, i) := by rw [peek, ht]
  show PartialLoop.Returns _ (peek toks i >>= fun r => f r.1 r.2)
  rw [hpeek]
  exact h t htype

theorem skips_peekN {n : Nat} {f : TsToken → Parser β}
    (h : ∀ t, t.type = typeAt toks (i + n) → Skips toks (f t) Q i) :
    Skips toks (peekN toks n >>= f) Q i := by
  obtain ⟨t, hpeek, htype⟩ := peekN_eq he (i := i) n
  show PartialLoop.Returns _ (peekN toks n i >>= fun r => f r.1 r.2)
  rw [hpeek]
  exact h t htype

omit he in
theorem skips_check {type : TsTok} {f : Bool → Parser β} (hi : i < toks.length)
    (h : ∀ b, (b = true ↔ typeAt toks i = type) → Skips toks (f b) Q i) :
    Skips toks (check toks type >>= f) Q i := by
  rw [check, bind_assoc]
  refine skips_peek hi fun t ht => ?_
  rw [pure_bind]
  exact h _ (ht ▸ beq_iff_eq)

theorem skips_advance {f : TsToken → Parser β} (hi : i < toks.length)
    (h : typeAt toks i = .ident ∨ typeAt toks i = .comma)
    (hf : ∀ t, i + 1 < toks.length → Skips toks (f t) Q (i + 1)) :
    Skips toks (advance toks >>= f) Q i := by
  obtain ⟨t, ht, htype⟩ := typeAt_of_lt hi
  have hend : t.type ≠ .endOfFile := fun hend => by
    rw [← htype, hend] at h
    exact h.elim nofun nofun
  show PartialLoop.Returns _ (advance toks i >>= fun r => f r.1 r.2)
  rw [advance_eq ht, if_neg hend]
  refine Halts.mono (hf t (next_lt he hi (htype ▸ hend))) fun r hr => ?_
  exact ⟨(Over.step h).trans hr.1, hr.2⟩

theorem skips_optionalName (hi : i < toks.length) :
    Skips toks (optionalName toks) (fun _ j => typeAt toks i = .ident → i < j) i := by
  refine skips_check hi fun b hb => skips_ite (fun h => ?_) fun h => ?_
  · refine skips_advance he hi (.inl (hb.mp h)) fun t _ => skips_pure fun _ => Nat.lt_succ_self i
  · exact skips_pure fun hident => absurd (hb.mpr hident) h

theorem skips_comma (hi : i < toks.length) :
    Skips toks (accept toks .comma) (fun _ j => typeAt toks i = .comma → i < j) i := by
  refine skips_check hi fun b hb => skips_ite (fun h => ?_) fun h => ?_
  · refine skips_advance he hi (.inr (hb.mp h)) fun t _ => skips_pure fun _ => Nat.lt_succ_self i
  · exact skips_pure fun hcomma => absurd (hb.mpr hcomma) h

theorem skips_skipAs (hi : i < toks.length) : Skips toks (skipAs toks) (fun _ _ => True) i := by
  refine skips_peekN he fun next hnext => ?_
  rw [checkIdent, bind_assoc]
  refine skips_peek hi fun t ht => ?_
  rw [pure_bind]
  refine skips_ite (fun h => ?_) fun _ => skips_pure trivial
  obtain ⟨has, hname⟩ := Bool.and_eq_true_iff.mp h
  refine skips_advance he hi (.inl (ht ▸ isIdent_type has)) fun _ hi => ?_
  refine skips_advance he hi (.inl (hnext ▸ beq_iff_eq.mp hname)) fun _ _ => skips_pure trivial

/-- Whether an import list ends here. -/
abbrev ListEnd (toks : List TsToken) (i : Nat) : Prop :=
  typeAt toks i = .rBrace ∨ typeAt toks i = .endOfFile

omit he in
theorem listTurn_eq {body : Parser Bool} (hi : i < toks.length) :
    (check toks .rBrace >>= fun a => check toks .endOfFile >>= fun b =>
      if (a || b) = true then pure false else body) i =
      if ListEnd toks i then pure (false, i) else body i := by
  show (check toks .rBrace i >>= fun r => (check toks .endOfFile >>= fun b =>
    if (r.1 || b) = true then pure false else body) r.2) = _
  rw [check_eq hi]
  show (check toks .endOfFile i >>= fun r =>
    (if (typeAt toks i == .rBrace || r.1) = true then pure false else body) r.2) = _
  rw [check_eq hi]
  show (if (typeAt toks i == .rBrace || typeAt toks i == .endOfFile) = true then pure false
    else body : Parser Bool) i = _
  simp only [Bool.or_eq_true, beq_iff_eq]
  split <;> rfl

/-- What one turn of the loops over an import list does. -/
structure ListTurn (toks : List TsToken) (turn : Parser Bool) : Prop where
  ends : ∀ i, i < toks.length → ListEnd toks i → turn i = pure (false, i)
  goes : ∀ i, i < toks.length → ¬ListEnd toks i → Skips toks turn
    (fun more j => more = true ∧ (typeAt toks i = .ident ∨ typeAt toks i = .comma → i < j)) i

omit he in
theorem listTurn_of_body {body : Parser Bool}
    (h : ∀ i, i < toks.length → Skips toks body
      (fun more j => more = true ∧ (typeAt toks i = .ident ∨ typeAt toks i = .comma → i < j)) i) :
    ListTurn toks (check toks .rBrace >>= fun a => check toks .endOfFile >>= fun b =>
      if (a || b) = true then pure false else body) where
  ends i hi hend := by rw [listTurn_eq hi, if_pos hend]
  goes i hi hend := by
    show PartialLoop.Returns _ _
    rw [listTurn_eq hi, if_neg hend]
    exact h i hi

theorem skips_nameComma {rest : Parser Bool} (hi : i < toks.length)
    (hrest : ∀ j, j < toks.length → Skips toks rest (fun more _ => more = true) j) :
    Skips toks (optionalName toks >>= fun _ => accept toks .comma >>= fun _ => rest)
      (fun more j => more = true ∧ (typeAt toks i = .ident ∨ typeAt toks i = .comma → i < j)) i := by
  refine skips_bind he hi (skips_optionalName he hi) fun _ j hj hij hname => ?_
  refine skips_bind he hj (skips_comma he hj) fun _ k hk hjk hcomma => ?_
  refine (hrest k hk).mono fun r hr => ⟨hr.1, hr.2, fun htype => ?_⟩
  have hkr := hr.1.1
  rcases Nat.eq_or_lt_of_le hij.1 with rfl | hlt
  · exact Nat.lt_of_lt_of_le (htype.elim (fun h => absurd (hname h) (Nat.lt_irrefl i)) hcomma) hkr
  · exact Nat.lt_of_lt_of_le hlt (Nat.le_trans hjk.1 hkr)

theorem listTurn_importName : ListTurn toks (importName toks) := by
  refine listTurn_of_body fun i hi => skips_nameComma he hi fun j hj => ?_
  exact skips_bind he hj (skips_skipAs he hj) fun _ k _ _ _ => skips_pure rfl

theorem listTurn_moreName : ListTurn toks (moreName toks) :=
  listTurn_of_body fun _ hi => skips_nameComma he hi fun _ _ => skips_pure rfl

variable {turn : Parser Bool}

omit he in
theorem whileTurn_eq {more : Bool} (h : turn i = pure (more, j)) :
    (turn i >>= fun r => pure (if r.1 = true then Sum.inl r.2 else Sum.inr r.2) :
      Run TsFault (Nat ⊕ Nat)) = pure (if more = true then .inl j else .inr j) := by
  rw [h]
  rfl

omit he in
theorem whileLoop_never (hturn : ListTurn toks turn) (h : stuckList (toks.drop i) = true) :
    loop (fun i => do
      let (more, j) ← turn i
      return if more then Sum.inl j else Sum.inr j) i = never := by
  refine loop_eq_never (I := fun i => stuckList (toks.drop i) = true) (fun j hj => ?_) h
  have hlt : j < toks.length := by
    refine Nat.lt_of_not_le fun hle => ?_
    rw [List.drop_eq_nil_of_le hle] at hj
    exact Bool.noConfusion hj
  have hend : ¬ListEnd toks j := by
    intro hend
    by_cases hor : typeAt toks j = .ident ∨ typeAt toks j = .comma
    · rcases hend with hend | hend <;> rw [hend] at hor <;> rcases hor with hor | hor <;> cases hor
    · obtain ⟨hbrace, hfile⟩ := Bool.and_eq_true_iff.mp (stuckList_of_other hlt hor ▸ hj)
      exact hend.elim (bne_iff_ne.mp hbrace) (bne_iff_ne.mp hfile)
  obtain ⟨⟨more, k⟩, hk, hover, hmore, -⟩ := exists_of_returns (hturn.goes j hlt hend)
  refine ⟨k, (whileTurn_eq hk).trans ?_, hover.stuckList_eq ▸ hj⟩
  rw [if_pos hmore]

omit he in
theorem whileTrue_never (hturn : ListTurn toks turn) (h : stuckList (toks.drop i) = true) :
    whileTrue turn i = never := by
  show loop _ i >>= _ = never
  rw [whileLoop_never hturn h]
  rfl

theorem returns_whileLoop (hturn : ListTurn toks turn) (h : stuckList (toks.drop i) = false)
    (hi : i < toks.length) :
    PartialLoop.Returns (fun j => i ≤ j ∧ j < toks.length) (loop (fun i => do
      let (more, j) ← turn i
      return if more then Sum.inl j else Sum.inr j) i) := by
  refine Halts.loop (I := fun j => i ≤ j ∧ j < toks.length ∧ stuckList (toks.drop j) = false)
    (fun j => toks.length - j) (fun j hj => ?_) ⟨Nat.le_refl i, hi, h⟩
  obtain ⟨hij, hlt, hfree⟩ := hj
  by_cases hend : ListEnd toks j
  · rw [whileTurn_eq (hturn.ends j hlt hend)]
    exact .value ⟨hij, hlt⟩
  · obtain ⟨⟨more, k⟩, hk, hover, hmore, hgoes⟩ := exists_of_returns (hturn.goes j hlt hend)
    have hor : typeAt toks j = .ident ∨ typeAt toks j = .comma := by
      refine Classical.byContradiction fun hor => ?_
      rw [stuckList_of_other hlt hor] at hfree
      exact hend ((Bool.and_eq_false_iff.mp hfree).imp bne_eq_false_iff_eq.mp bne_eq_false_iff_eq.mp)
    have hjk := hgoes hor
    rw [whileTurn_eq hk, if_pos hmore]
    exact .value ⟨⟨Nat.le_trans hij (Nat.le_of_lt hjk), hover.lt he hlt,
      hover.stuckList_eq ▸ hfree⟩, by omega⟩

theorem moves_whileTrue (hturn : ListTurn toks turn) (h : stuckList (toks.drop i) = false) :
    Moves toks i (whileTrue turn) (whileTrue turn) i := by
  intro hi
  obtain ⟨j, hj, hij, hlt⟩ := exists_of_returns (returns_whileLoop he hturn h hi)
  have heq : whileTrue turn i = pure ((), j) := by
    show loop _ i >>= _ = _
    rw [hj]
    rfl
  rw [heq]
  exact .value hij hlt

theorem steps_importList (hturn : ListTurn toks turn) :
    Steps toks i i (fun stop => do
      breakpoint stop .importList
      whileTrue turn
      let _ ← expect toks .rBrace "'\x7d'"
      return ()) := by
  refine moves_breakpoint (fun hbad _ => .inr ?_) fun hgood => ?_
  · show whileTrue turn i >>= _ = never
    rw [whileTrue_never hturn hbad]
    rfl
  · refine moves_bind (moves_whileTrue he hturn hgood) fun _ j hj => ?_
    exact moves_expect he (by decide) fun _ => moves_pure (by omega)

theorem steps_importClause : Steps toks i i (importClause toks) := by
  refine moves_ifAccept he (by decide) (fun _ => ?_) fun _ => ?_
  · refine moves_bind (moves_skipIdent he) fun _ j hj => ?_
    exact moves_bind (moves_optionalName he) fun _ k hk => moves_pure (by omega)
  refine moves_ifAccept he (by decide) (fun _ => ?_) fun _ => ?_
  · exact (steps_importList he (listTurn_importName he)).weaken (Nat.le_succ i)
  refine moves_ifCheck (fun hident => ?_) fun _ => moves_pure (Nat.le_refl i)
  refine moves_advance he (hident ▸ nofun) fun _ _ => ?_
  refine moves_ifAccept he (by decide) (fun _ => ?_) fun _ => moves_pure (Nat.le_succ i)
  refine moves_ifAccept he (by decide) (fun _ => ?_) fun _ => moves_pure (by omega)
  exact (steps_importList he (listTurn_moreName he)).weaken (by omega)

theorem moves_importPath : Moves toks i (importPath toks) (importPath toks) i := by
  refine moves_ifCheck (fun hstring => ?_) fun _ => ?_
  · refine moves_advance he (hstring ▸ nofun) fun t _ => ?_
    exact moves_bind (moves_optionalSemi he) fun _ j hj => moves_pure (by omega)
  · exact moves_bind (moves_optionalSemi he) fun _ j hj => moves_pure hj

theorem steps_parseImport (h : typeAt toks i = .ident) :
    Steps toks (i + 1) i (parseImport toks) := by
  refine moves_advance he (h ▸ nofun) fun _ _ => moves_ifCheck (fun _ => moves_importPath he) fun _ => ?_
  refine moves_bind (steps_importClause he) fun _ j hj => ?_
  refine moves_bind (moves_skipIdent he) fun _ k hk => ?_
  exact (moves_importPath he).weaken (by omega)

/-! ### Programs -/

theorem steps_programRest {p : Program} : Steps toks i i (programRest toks · p) := by
  revert p
  refine ahead_induction toks (P := fun i => ∀ {p : Program}, Steps toks i i (programRest toks · p))
    (fun _ h _ => moves_out h) (fun i ih p => ?_) i
  refine steps_of_eq (fun stop => programRest.eq_def toks stop p) ?_
  refine moves_ifCheck (fun _ => moves_pure (Nat.le_refl i)) fun _ => moves_ifIdent (fun hident => ?_) ?_
  · refine moves_bind (steps_parseImport he hident) fun paths j hj => ?_
    exact (ih j hj).weaken (Nat.le_of_lt hj)
  · refine moves_bind (parsersMove he i).statement fun s j hj => ?_
    exact (ih j hj).weaken (Nat.le_of_lt hj)

end

/-- A `TsParseError`. -/
def TsFault.isParseError : TsFault → Bool
  | .parseError _ _ => true
  | _ => false

theorem Tracked.halts_iff {x y : Run TsFault (α × Nat)} (h : Tracked toks lo x y) :
    Halts (fun e => e.isParseError = true) (fun _ => True) (Prod.fst <$> x) ↔
      ∀ s, y ≠ throw (.reached s) := by
  cases h with
  | value hlo hj => exact ⟨fun _ _ => nofun, fun _ => .value trivial⟩
  | error => exact ⟨fun _ _ => nofun, fun _ => .stop rfl⟩
  | @pastEnd s =>
    refine ⟨fun h => ?_, fun h => absurd rfl (h s)⟩
    exact Bool.noConfusion ((halts_throw (E := fun e : TsFault => e.isParseError = true)).mp h)
  | @never s => exact ⟨fun h => absurd h not_halts_never, fun h => absurd rfl (h s)⟩

theorem tracked_parse (he : Ended toks) :
    Tracked toks 0 (parseWith toks fun _ => false) (parseWith toks (defects toks)) := by
  refine steps_programRest he ?_
  obtain ⟨more, line, rfl, -⟩ := he
  rw [List.length_append]
  exact Nat.succ_pos _

/-- **On the tokens of a file the parser has a program or stops with a parse error, and takes no step
over `End`, if and only if it comes to none of these places: an import list that is stuck, the end of
the tokens behind the modifiers of a class member, and a point, a question mark and the end.** -/
theorem parse_halts_iff {source : Bytes} (h : tokenizeTs source = .ok toks) :
    Halts (fun e => e.isParseError = true) (fun _ => True) (parse toks) ↔
      ∀ s, parseWith toks (defects toks) ≠ throw (.reached s) :=
  (tracked_parse (ended_of_tokenizeTs h)).halts_iff

/-- The tokens of `import "a.ts"`. -/
def pathTokens : List TsToken :=
  [⟨.ident, ascii "import", 1⟩, ⟨.string, ascii "a.ts", 1⟩, ⟨.endOfFile, [], 1⟩]

theorem parseWith_path : parseWith pathTokens (defects pathTokens) =
    pure ({ imports := [ascii "a"] }, 2) := by
  rw [parseWith, programRest]
  show programRest pathTokens (defects pathTokens) { imports := [ascii "a"] } 2 = _
  rw [programRest]
  rfl

theorem tokenizeTs_path : tokenizeTs (ascii "import \"a.ts\"") = .ok pathTokens := by
  have himport : lexOne 1 105 (ascii "mport \"a.ts\"") =
      .ok (some ⟨.ident, ascii "import", 1⟩, 1, ascii " \"a.ts\"") := by decide
  have hspace : lexOne 1 32 (ascii "\"a.ts\"") = .ok (none, 1, ascii "\"a.ts\"") := by decide
  have hpath : lexOne 1 34 (ascii "a.ts\"") = .ok (some ⟨.string, ascii "a.ts", 1⟩, 1, []) := by
    decide
  rw [tokenizeTs, show ascii "import \"a.ts\"" = 105 :: ascii "mport \"a.ts\"" from rfl,
    tokenizeFrom_ok himport, show ascii " \"a.ts\"" = 32 :: ascii "\"a.ts\"" from rfl,
    tokenizeFrom_ok hspace, show ascii "\"a.ts\"" = 34 :: ascii "a.ts\"" from rfl,
    tokenizeFrom_ok hpath, tokenizeFrom_nil]
  rfl

theorem pathTokens_parse :
    Halts (fun e => e.isParseError = true) (fun _ => True) (parse pathTokens) :=
  (parse_halts_iff tokenizeTs_path).mpr fun s => by rw [parseWith_path]; nofun

/-- The tokens of `import{;`. -/
def stuckTokens : List TsToken :=
  [⟨.ident, ascii "import", 1⟩, ⟨.lBrace, [], 1⟩, ⟨.semi, [], 1⟩, ⟨.endOfFile, [], 1⟩]

theorem tokenizeTs_stuck : tokenizeTs (ascii "import\x7b;") = .ok stuckTokens := by
  have himport : lexOne 1 105 (ascii "mport\x7b;") =
      .ok (some ⟨.ident, ascii "import", 1⟩, 1, ascii "\x7b;") := by decide
  have hbrace : lexOne 1 123 (ascii ";") = .ok (some ⟨.lBrace, [], 1⟩, 1, ascii ";") := by decide
  have hsemi : lexOne 1 59 [] = .ok (some ⟨.semi, [], 1⟩, 1, []) := by decide
  rw [tokenizeTs, show ascii "import\x7b;" = 105 :: ascii "mport\x7b;" from rfl,
    tokenizeFrom_ok himport, show ascii "\x7b;" = 123 :: ascii ";" from rfl, tokenizeFrom_ok hbrace,
    show ascii ";" = 59 :: [] from rfl, tokenizeFrom_ok hsemi, tokenizeFrom_nil]
  rfl

/-- The parser does not come behind the semicolon in an import list. -/
theorem stuckTokens_never : tokenizeTs (ascii "import\x7b;") = .ok stuckTokens ∧
    ¬Halts (fun e => e.isParseError = true) (fun _ => True) (parse stuckTokens) := by
  refine ⟨tokenizeTs_stuck, fun h => ?_⟩
  refine (tracked_parse (ended_of_tokenizeTs tokenizeTs_stuck)).halts_iff.mp h (.importList 2) ?_
  rw [parseWith, programRest]
  rfl

end Voodoo.Bruja.Goxx
