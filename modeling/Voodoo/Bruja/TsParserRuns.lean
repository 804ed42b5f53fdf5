import Voodoo.Bruja.TsParser

/-!
# Where the TypeScript parser fails to end

The parser of the source and the one with breakpoints at `defects` run side by side (`Tracked`): they
come to the same value or the same parse error, at the same position before the end, unless the second
stops at a breakpoint, and there the first goes past the last token or does not end.

`Moves` is this for a parser at a position, with a lower bound for the position it comes to.  There is a
rule for each way to build one and a lemma for each function.  The mutually recursive ones are gone
through together, by the number of tokens that are left.
-/

namespace Voodoo.Bruja.Goxx

open PartialLoop TsTokens

/-! ### Positions -/

/-- The kind of the token at a position. -/
def typeAt (toks : List TsToken) (i : Nat) : TsTok := (toks[i]?.map TsToken.type).getD .endOfFile

variable {toks : List TsToken} {i j k : Nat}

theorem typeAt_of_lt (h : i < toks.length) : ∃ t, toks[i]? = some t ∧ t.type = typeAt toks i := by
  refine ⟨toks[i], List.getElem?_eq_getElem h, ?_⟩
  rw [typeAt, List.getElem?_eq_getElem h]
  rfl

theorem typeAt_of_le (h : toks.length ≤ i) : typeAt toks i = .endOfFile := by
  rw [typeAt, List.getElem?_eq_none h]
  rfl

theorem next_lt (he : Ended toks) (hi : i < toks.length) (h : typeAt toks i ≠ .endOfFile) :
    i + 1 < toks.length := by
  obtain ⟨more, line, rfl, -⟩ := he
  rw [List.length_append, List.length_singleton] at hi ⊢
  rcases Nat.lt_succ_iff_lt_or_eq.mp hi with hlt | rfl
  · exact Nat.succ_lt_succ hlt
  · refine absurd ?_ h
    rw [typeAt, List.getElem?_append_right (Nat.le_refl _), Nat.sub_self]
    rfl

theorem lt_of_typeAt (h : typeAt toks i ≠ .endOfFile) : i < toks.length :=
  Nat.lt_of_not_le fun hle => h (typeAt_of_le hle)

theorem getLast?_type (he : Ended toks) : ∃ t, toks.getLast? = some t ∧ t.type = .endOfFile := by
  obtain ⟨more, line, rfl, -⟩ := he
  exact ⟨_, List.getLast?_concat, rfl⟩

/-! ### Defects -/

/-- In an import list: the first token that is no name and no comma neither closes the list nor ends
the file. -/
def stuckList : List TsToken → Bool
  | [] => false
  | t :: ts =>
    if t.type = .ident ∨ t.type = .comma then stuckList ts
    else t.type != .rBrace && t.type != .endOfFile

/-- The places from where the parser does not end as it should. -/
def defects (toks : List TsToken) : Spot → Bool
  | .importList i => stuckList (toks.drop i)
  | .classMember i => typeAt toks i == .endOfFile
  | .memberName i => typeAt toks i == .question && typeAt toks (i + 1) == .endOfFile

/-! ### Two runs side by side -/

variable {α β : Type} {lo : Nat} {p q p' q' : Parser α}

inductive Tracked (toks : List TsToken) (lo : Nat) :
    Run TsFault (α × Nat) → Run TsFault (α × Nat) → Prop
  | value {a : α} {j : Nat} (hlo : lo ≤ j) (hj : j < toks.length) :
      Tracked toks lo (pure (a, j)) (pure (a, j))
  | error {msg : String} {line : Nat} :
      Tracked toks lo (throw (.parseError msg line)) (throw (.parseError msg line))
  | pastEnd {s : Spot} : Tracked toks lo (throw .pastEnd) (throw (.reached s))
  | never {s : Spot} : Tracked toks lo never (throw (.reached s))

/-- From a position before the end, to one that is at least `lo`. -/
def Moves (toks : List TsToken) (lo : Nat) (p q : Parser α) (i : Nat) : Prop :=
  i < toks.length → Tracked toks lo (p i) (q i)

theorem moves_pure {a : α} (h : lo ≤ i) : Moves toks lo (pure a) (pure a) i := fun hi => .value h hi

theorem moves_bind {f g : α → Parser β} (h : Moves toks k p q i)
    (hf : ∀ a j, k ≤ j → Moves toks lo (f a) (g a) j) :
    Moves toks lo (p >>= f) (q >>= g) i := by
  intro hi
  show Tracked toks lo (p i >>= fun r => f r.1 r.2) (q i >>= fun r => g r.1 r.2)
  have htracked := h hi
  generalize p i = x at htracked
  generalize q i = y at htracked
  cases htracked with
  | value hlo hj => exact hf _ _ hlo hj
  | error => exact .error
  | pastEnd => exact .pastEnd
  | never => exact .never

theorem Moves.weaken (h : Moves toks lo p q i) {lo' : Nat} (hlo : lo' ≤ lo) :
    Moves toks lo' p q i := by
  intro hi
  have htracked := h hi
  generalize p i = x at htracked ⊢
  generalize q i = y at htracked ⊢
  cases htracked with
  | value hle hj => exact .value (Nat.le_trans hlo hle) hj
  | error => exact .error
  | pastEnd => exact .pastEnd
  | never => exact .never

theorem moves_ite {c : Prop} [Decidable c] (hyes : c → Moves toks lo p q i)
    (hno : ¬c → Moves toks lo p' q' i) :
    Moves toks lo (if c then p else p') (if c then q else q') i := by
  split
  · exact hyes ‹_›
  · exact hno ‹_›

/-! ### Tokens -/

theorem moves_peek {f g : TsToken → Parser β}
    (h : ∀ t, t.type = typeAt toks i → Moves toks lo (f t) (g t) i) :
    Moves toks lo (peek toks >>= f) (peek toks >>= g) i := by
  intro hi
  obtain ⟨t, ht, htype⟩ := typeAt_of_lt hi
  have hpeek : peek toks i = pure (t, i) := by
    rw [peek, ht]
  show Tracked toks lo (peek toks i >>= fun r => f r.1 r.2) (peek toks i >>= fun r => g r.1 r.2)
  rw [hpeek]
  exact h t htype hi

theorem peekN_eq (he : Ended toks) (n : Nat) :
    ∃ t, peekN toks n i = pure (t, i) ∧ t.type = typeAt toks (i + n) := by
  by_cases hn : i + n < toks.length
  · obtain ⟨t, ht, htype⟩ := typeAt_of_lt hn
    exact ⟨t, by rw [peekN, ht]; rfl, htype⟩
  · obtain ⟨t, ht, htype⟩ := getLast?_type he
    refine ⟨t, ?_, htype.trans (typeAt_of_le (Nat.le_of_not_lt hn)).symm⟩
    rw [peekN, List.getElem?_eq_none (Nat.le_of_not_lt hn), ht]
    rfl

theorem moves_peekN (he : Ended toks) {n : Nat} {f g : TsToken → Parser β}
    (h : ∀ t, t.type = typeAt toks (i + n) → Moves toks lo (f t) (g t) i) :
    Moves toks lo (peekN toks n >>= f) (peekN toks n >>= g) i := by
  intro hi
  obtain ⟨t, hpeek, htype⟩ := peekN_eq he (i := i) n
  show Tracked toks lo (peekN toks n i >>= fun r => f r.1 r.2)
    (peekN toks n i >>= fun r => g r.1 r.2)
  rw [hpeek]
  exact h t htype hi

theorem moves_check {type : TsTok} {f g : Bool → Parser β}
    (h : ∀ b, (b = true ↔ typeAt toks i = type) → Moves toks lo (f b) (g b) i) :
    Moves toks lo (check toks type >>= f) (check toks type >>= g) i := by
  rw [check, bind_assoc, bind_assoc]
  refine moves_peek fun t ht => ?_
  rw [pure_bind, pure_bind]
  exact h _ (ht ▸ beq_iff_eq)

theorem check_eq {type : TsTok} (hi : i < toks.length) :
    check toks type i = pure (typeAt toks i == type, i) := by
  obtain ⟨t, ht, htype⟩ := typeAt_of_lt hi
  show (peek toks i >>= fun r => pure (r.1.type == type, r.2)) = _
  rw [peek, ht, ← htype]
  rfl

theorem isIdent_type {t : TsToken} {w : String} (h : t.isIdent w = true) : t.type = .ident :=
  beq_iff_eq.mp (Bool.and_eq_true_iff.mp h).1

theorem any_isIdent_type {t : TsToken} {ws : List String} (h : ws.any t.isIdent = true) :
    t.type = .ident := by
  obtain ⟨w, -, hw⟩ := List.any_eq_true.mp h
  exact isIdent_type hw

theorem moves_ifCheck {type : TsTok} (hyes : typeAt toks i = type → Moves toks lo p q i)
    (hno : typeAt toks i ≠ type → Moves toks lo p' q' i) :
    Moves toks lo (check toks type >>= fun b => if b = true then p else p')
      (check toks type >>= fun b => if b = true then q else q') i :=
  moves_check fun _ hb => moves_ite (fun h => hyes (hb.mp h)) fun h => hno fun ht => h (hb.mpr ht)

theorem moves_ifIdents {ws : List String} (hyes : typeAt toks i = .ident → Moves toks lo p q i)
    (hno : Moves toks lo p' q' i) :
    Moves toks lo (checkIdents toks ws >>= fun b => if b = true then p else p')
      (checkIdents toks ws >>= fun b => if b = true then q else q') i := by
  rw [checkIdents, bind_assoc, bind_assoc]
  refine moves_peek fun t ht => ?_
  rw [pure_bind, pure_bind]
  exact moves_ite (fun h => hyes (ht ▸ any_isIdent_type h)) fun _ => hno

theorem moves_ifIdent {w : String} (hyes : typeAt toks i = .ident → Moves toks lo p q i)
    (hno : Moves toks lo p' q' i) :
    Moves toks lo (checkIdent toks w >>= fun b => if b = true then p else p')
      (checkIdent toks w >>= fun b => if b = true then q else q') i := by
  rw [checkIdent, bind_assoc, bind_assoc]
  refine moves_peek fun t ht => ?_
  rw [pure_bind, pure_bind]
  exact moves_ite (fun h => hyes (ht ▸ isIdent_type h)) fun _ => hno

theorem moves_unlessClosed {closing : TsTok} (hyes : Moves toks lo p q i)
    (hno : typeAt toks i ≠ .endOfFile → Moves toks lo p' q' i) :
    Moves toks lo
      (check toks closing >>= fun a => check toks .endOfFile >>= fun b =>
        if (a || b) = true then p else p')
      (check toks closing >>= fun a => check toks .endOfFile >>= fun b =>
        if (a || b) = true then q else q') i := by
  refine moves_check fun _ _ => moves_check fun _ hb => moves_ite (fun _ => hyes) fun h => hno ?_
  exact fun ht => h ((Bool.or_eq_true_iff).mpr (.inr (hb.mpr ht)))

theorem advance_eq {t : TsToken} (ht : toks[i]? = some t) :
    advance toks i = if t.type = .endOfFile then throw .pastEnd else pure (t, i + 1) := by
  show (peek toks i >>= fun r =>
    (if r.1.type = .endOfFile then throw .pastEnd
      else do
        modify (· + 1)
        return r.1 : Parser TsToken) r.2) = _
  rw [peek, ht]
  show (if t.type = .endOfFile then (throw .pastEnd : Parser TsToken)
    else do
      modify (· + 1)
      return t) i = _
  split <;> rfl

theorem moves_advance (he : Ended toks) (hne : typeAt toks i ≠ .endOfFile)
    {f g : TsToken → Parser β} (h : ∀ t, t.type = typeAt toks i → Moves toks lo (f t) (g t) (i + 1)) :
    Moves toks lo (advance toks >>= f) (advance toks >>= g) i := by
  intro hi
  obtain ⟨t, ht, htype⟩ := typeAt_of_lt hi
  show Tracked toks lo (advance toks i >>= fun r => f r.1 r.2)
    (advance toks i >>= fun r => g r.1 r.2)
  rw [advance_eq ht, if_neg (htype ▸ hne)]
  exact h t htype (next_lt he hi hne)

theorem moves_ifAccept (he : Ended toks) {type : TsTok} (hne : type ≠ .endOfFile)
    (hyes : typeAt toks i = type → Moves toks lo p q (i + 1))
    (hno : typeAt toks i ≠ type → Moves toks lo p' q' i) :
    Moves toks lo (accept toks type >>= fun b => if b = true then p else p')
      (accept toks type >>= fun b => if b = true then q else q') i := by
  rw [accept, bind_assoc, bind_assoc]
  refine moves_check fun b hb => ?_
  cases b with
  | true =>
    have ht := hb.mp rfl
    show Moves toks lo ((advance toks >>= fun _ => pure true) >>= _)
      ((advance toks >>= fun _ => pure true) >>= _) i
    rw [bind_assoc, bind_assoc]
    refine moves_advance he (ht ▸ hne) fun t _ => ?_
    rw [pure_bind, pure_bind]
    exact hyes ht
  | false =>
    show Moves toks lo (pure false >>= _) (pure false >>= _) i
    rw [pure_bind, pure_bind]
    exact hno fun ht => Bool.noConfusion (hb.mpr ht)

theorem moves_accept (he : Ended toks) {type : TsTok} (hne : type ≠ .endOfFile)
    {f g : Bool → Parser β} (hyes : typeAt toks i = type → Moves toks lo (f true) (g true) (i + 1))
    (hno : typeAt toks i ≠ type → Moves toks lo (f false) (g false) i) :
    Moves toks lo (accept toks type >>= f) (accept toks type >>= g) i := by
  have hsplit (h : Bool → Parser β) :
      accept toks type >>= h = accept toks type >>= fun b => if b = true then h true else h false := by
    refine congrArg (accept toks type >>= ·) (funext fun b => ?_)
    cases b <;> rfl
  rw [hsplit f, hsplit g]
  exact moves_ifAccept he hne hyes hno

theorem moves_skip (he : Ended toks) {type : TsTok} (hne : type ≠ .endOfFile)
    (h : ∀ j, i ≤ j → Moves toks lo p q j) :
    Moves toks lo (accept toks type >>= fun _ => p) (accept toks type >>= fun _ => q) i :=
  moves_accept he hne (fun _ => h (i + 1) (Nat.le_succ i)) fun _ => h i (Nat.le_refl i)

theorem moves_fail {msg : String} : Moves toks lo (fail toks msg : Parser α) (fail toks msg) i :=
  moves_peek fun _ _ _ => .error

theorem moves_failBind {msg : String} {f g : α → Parser β} :
    Moves toks lo (fail toks msg >>= f) (fail toks msg >>= g) i := by
  rw [fail, bind_assoc, bind_assoc]
  exact moves_peek fun _ _ _ => .error

theorem moves_expect (he : Ended toks) {type : TsTok} (hne : type ≠ .endOfFile) {what : String}
    {f g : TsToken → Parser β} (h : ∀ t, Moves toks lo (f t) (g t) (i + 1)) :
    Moves toks lo (expect toks type what >>= f) (expect toks type what >>= g) i := by
  rw [expect, bind_assoc, bind_assoc]
  refine moves_check fun b hb => ?_
  cases b with
  | true => exact moves_advance he (hb.mp rfl ▸ hne) fun t _ => h t
  | false => exact moves_failBind

/-! ### Loops -/

theorem moves_out (h : toks.length ≤ i) : Moves toks lo p q i := fun hi => absurd hi (Nat.not_lt.mpr h)

theorem ahead_induction (toks : List TsToken) {P : Nat → Prop} (hout : ∀ i, toks.length ≤ i → P i)
    (h : ∀ i, (∀ j, i < j → P j) → P i) (i : Nat) : P i := by
  induction hm : toks.length - i using Nat.strongRecOn generalizing i with
  | ind m ih =>
    by_cases hi : toks.length ≤ i
    · exact hout i hi
    refine h i fun j hj => ?_
    by_cases hj' : toks.length ≤ j
    · exact hout j hj'
    · exact ih (toks.length - j) (by omega) j rfl

theorem moves_induction {f g : Parser α} (h : ∀ i, (∀ j, i < j → Moves toks j f g j) →
    Moves toks i f g i) : Moves toks i f g i :=
  ahead_induction toks (P := fun i => Moves toks i f g i) (fun _ => moves_out) h i

section

variable (he : Ended toks)

include he

theorem moves_skipModifiers : Moves toks i (skipModifiers toks) (skipModifiers toks) i := by
  refine moves_induction fun i ih => ?_
  rw [skipModifiers]
  refine moves_ifIdents (fun ht => ?_) (moves_ifIdent (fun _ => moves_fail) (moves_pure (Nat.le_refl i)))
  refine moves_advance he (ht ▸ nofun) fun _ _ => ?_
  exact (ih (i + 1) (Nat.lt_succ_self i)).weaken (Nat.le_succ i)

theorem moves_optionalSemi : Moves toks i (optionalSemi toks) (optionalSemi toks) i :=
  moves_accept he (by decide) (fun _ => moves_pure (Nat.le_succ i)) fun _ => moves_pure (Nat.le_refl i)

theorem moves_skipIdent {w : String} : Moves toks i (skipIdent toks w) (skipIdent toks w) i := by
  refine moves_ifIdent (fun ht => ?_) (moves_pure (Nat.le_refl i))
  exact moves_advance he (ht ▸ nofun) fun _ _ => moves_pure (Nat.le_succ i)

theorem moves_optionalName : Moves toks i (optionalName toks) (optionalName toks) i := by
  refine moves_ifCheck (fun ht => ?_) fun _ => moves_pure (Nat.le_refl i)
  exact moves_advance he (ht ▸ nofun) fun _ _ => moves_pure (Nat.le_succ i)

theorem moves_typeName : Moves toks i (typeName toks) (typeName toks) i := by
  refine moves_ifCheck (fun ht => ?_) fun _ => moves_pure (Nat.le_refl i)
  exact moves_advance he (ht ▸ nofun) fun _ _ => moves_pure (Nat.le_succ i)

theorem moves_skipClause {ws : List String} :
    Moves toks i (skipClause toks ws) (skipClause toks ws) i := by
  refine moves_ifIdents (fun ht => ?_) (moves_pure (Nat.le_refl i))
  refine moves_advance he (ht ▸ nofun) fun _ _ => moves_bind (moves_optionalName he) fun _ j hj => ?_
  exact moves_pure (Nat.le_of_succ_le hj)

theorem moves_objectKey : Moves toks i (objectKey toks) (objectKey toks) i := by
  refine moves_peek fun t ht => moves_ite (fun hor => ?_) fun _ => moves_pure (Nat.le_refl i)
  refine moves_advance he ?_ fun _ _ => moves_pure (Nat.le_succ i)
  rw [← ht]
  rcases hor with h | h <;> exact h ▸ nofun

/-! ### Types and parameters -/

theorem moves_skipNested {opening closing : TsTok} (ho : opening ≠ .endOfFile)
    (hc : closing ≠ .endOfFile) {depth : Nat} :
    Moves toks i (skipNested toks opening closing depth) (skipNested toks opening closing depth) i := by
  revert depth
  refine ahead_induction toks (P := fun i => ∀ {depth : Nat}, Moves toks i
    (skipNested toks opening closing depth) (skipNested toks opening closing depth) i)
    (fun _ h _ => moves_out h) (fun i ih depth => ?_) i
  have hnext {depth : Nat} : Moves toks i (skipNested toks opening closing depth)
      (skipNested toks opening closing depth) (i + 1) :=
    (ih (i + 1) (Nat.lt_succ_self i)).weaken (Nat.le_succ i)
  rw [skipNested]
  refine moves_ite (fun _ => moves_pure (Nat.le_refl i)) fun _ => ?_
  refine moves_ifCheck (fun _ => moves_pure (Nat.le_refl i)) fun hend => ?_
  refine moves_ifAccept he ho (fun _ => hnext) fun _ => ?_
  refine moves_ifAccept he hc (fun _ => hnext) fun _ => ?_
  exact moves_advance he hend fun _ _ => hnext

theorem moves_arraySuffix {t : TsType} :
    Moves toks i (arraySuffix toks t) (arraySuffix toks t) i := by
  revert t
  refine ahead_induction toks (P := fun i => ∀ {t : TsType},
    Moves toks i (arraySuffix toks t) (arraySuffix toks t) i) (fun _ h _ => moves_out h)
    (fun i ih t => ?_) i
  rw [arraySuffix]
  refine moves_ifAccept he (by decide) (fun _ => ?_) fun _ => moves_pure (Nat.le_refl i)
  refine moves_expect he (by decide) fun _ => ?_
  exact (ih (i + 2) (by omega)).weaken (by omega)

/-- The parsers of types, at one position. -/
structure TypesMove (toks : List TsToken) (i : Nat) : Prop where
  type : Moves toks i (parseType toks) (parseType toks) i
  alternatives : Moves toks i (alternatives toks) (alternatives toks) i
  arguments : ∀ name, Moves toks i (typeArguments toks name) (typeArguments toks name) i

omit he in
theorem typesMove_out (h : toks.length ≤ i) : TypesMove toks i :=
  ⟨moves_out h, moves_out h, fun _ => moves_out h⟩

theorem typesMove (i : Nat) : TypesMove toks i := by
  refine ahead_induction toks (fun _ => typesMove_out) (fun i ih => ?_) i
  have harguments (name : Bytes) :
      Moves toks i (typeArguments toks name) (typeArguments toks name) i := by
    rw [typeArguments]
    refine moves_ifAccept he (by decide) (fun _ => ?_) fun _ => moves_pure (Nat.le_refl i)
    refine moves_ite (fun _ => ?_) fun _ => moves_ite (fun _ => ?_) fun _ => ?_
    · refine moves_bind (ih (i + 1) (Nat.lt_succ_self i)).type fun _ j hj => ?_
      exact moves_expect he (by decide) fun _ => moves_pure (by omega)
    · refine moves_bind (ih (i + 1) (Nat.lt_succ_self i)).type fun _ j hj => ?_
      exact moves_expect he (by decide) fun _ => moves_pure (by omega)
    · refine moves_bind (moves_skipNested he (by decide) (by decide)) fun _ j hj => ?_
      exact moves_pure (by omega)
  have halternatives : Moves toks i (alternatives toks) (alternatives toks) i := by
    rw [alternatives]
    refine moves_ifAccept he (by decide) (fun _ => ?_) fun _ => moves_pure (Nat.le_refl i)
    refine moves_bind (ih (i + 1) (Nat.lt_succ_self i)).type fun _ j hj => ?_
    exact (ih j (by omega)).alternatives.weaken (by omega)
  have hall (j : Nat) (hj : i ≤ j) : Moves toks i (alternatives toks) (alternatives toks) j ∧
      ∀ name, Moves toks i (typeArguments toks name) (typeArguments toks name) j := by
    rcases Nat.eq_or_lt_of_le hj with rfl | hlt
    · exact ⟨halternatives, harguments⟩
    · exact ⟨(ih j hlt).alternatives.weaken hj, fun name => ((ih j hlt).arguments name).weaken hj⟩
  refine ⟨?_, halternatives, harguments⟩
  rw [parseType]
  refine moves_ifAccept he (by decide) (fun _ => ?_) fun _ => ?_
  · refine moves_bind (moves_skipNested he (by decide) (by decide)) fun _ j hj => ?_
    exact moves_pure (by omega)
  · refine moves_bind (moves_typeName he) fun name j hj => ?_
    refine moves_bind ((hall j hj).2 name) fun t k hk => ?_
    refine moves_bind (moves_arraySuffix he) fun t l hl => ?_
    refine moves_bind (hall l (by omega)).1 fun _ m hm => moves_pure hm

theorem moves_parseType : Moves toks i (parseType toks) (parseType toks) i := (typesMove he i).type

theorem moves_annotated :
    Moves toks i ( typeAnnotation toks) ( typeAnnotation toks) i :=
  moves_ifAccept he (by decide) (fun _ => (moves_parseType he).weaken (Nat.le_succ i))
    fun _ => moves_pure (Nat.le_refl i)

theorem moves_parseParamList :
    Moves toks i (parseParamList toks) (parseParamList toks) i := by
  refine moves_induction fun i ih => ?_
  rw [parseParamList]
  refine moves_unlessClosed (moves_pure (Nat.le_refl i)) fun _ => ?_
  refine moves_skip he (by decide) fun j hj => ?_
  refine moves_bind (moves_optionalName he) fun name k hk => ?_
  refine moves_skip he (by decide) fun l hl => ?_
  refine moves_bind (moves_annotated he) fun type m hm => ?_
  refine moves_ifAccept he (by decide) (fun _ => ?_) fun _ => moves_pure (by omega)
  refine moves_bind (ih (m + 1) (by omega)) fun more n hn => moves_pure (by omega)

theorem moves_parenthesized :
    Moves toks (i + 1) (parenthesized toks) (parenthesized toks) i := by
  refine moves_expect he (by decide) fun _ => ?_
  refine moves_bind (moves_parseParamList he) fun params j hj => ?_
  exact moves_expect he (by decide) fun _ => moves_pure (by omega)

theorem moves_arrowParams : Moves toks i (arrowParams toks) (arrowParams toks) i := by
  refine moves_induction fun i ih => ?_
  rw [arrowParams]
  refine moves_bind (moves_optionalName he) fun name j hj => ?_
  refine moves_bind (moves_annotated he) fun type k hk => ?_
  refine moves_ifAccept he (by decide) (fun _ => ?_) fun _ => moves_pure (by omega)
  exact moves_bind (ih (k + 1) (by omega)) fun more l hl => moves_pure (by omega)

theorem moves_arrowHead : Moves toks i (arrowHead toks) (arrowHead toks) i :=
  moves_ifCheck (fun _ => moves_pure (Nat.le_refl i)) fun _ => moves_arrowParams he

/-! ### Interfaces and aliases -/

theorem moves_interfaceBody {fields : List TsParam} {methods : List Stmt} :
    Moves toks i (interfaceBody toks fields methods) (interfaceBody toks fields methods) i := by
  revert fields methods
  refine ahead_induction toks (P := fun i => ∀ {fields : List TsParam} {methods : List Stmt},
    Moves toks i (interfaceBody toks fields methods) (interfaceBody toks fields methods) i)
    (fun _ h _ _ => moves_out h) (fun i ih fields methods => ?_) i
  rw [interfaceBody]
  refine moves_unlessClosed (moves_pure (Nat.le_refl i)) fun hend => ?_
  refine moves_ifCheck (fun _ => ?_) fun _ => ?_
  · refine moves_advance he hend fun name _ => moves_skip he (by decide) fun j hj => ?_
    refine moves_ifAccept he (by decide) (fun _ => ?_) fun _ => ?_
    · refine moves_bind (moves_parseParamList he) fun params k hk => ?_
      refine moves_expect he (by decide) fun _ => ?_
      refine moves_bind (moves_annotated he) fun type l hl => ?_
      refine moves_bind (moves_optionalSemi he) fun _ m hm => ?_
      exact (ih m (by omega)).weaken (by omega)
    · refine moves_expect he (by decide) fun _ => ?_
      refine moves_bind (moves_parseType he) fun type l hl => ?_
      refine moves_bind (moves_optionalSemi he) fun _ m hm => ?_
      exact (ih m (by omega)).weaken (by omega)
  · exact moves_advance he hend fun _ _ => (ih (i + 1) (by omega)).weaken (by omega)

theorem moves_parseInterface (h : typeAt toks i = .ident) :
    Moves toks (i + 1) (parseInterface toks) (parseInterface toks) i := by
  refine moves_advance he (h ▸ nofun) fun _ _ => moves_expect he (by decide) fun name => ?_
  refine moves_bind (moves_skipClause he) fun _ j hj => moves_expect he (by decide) fun _ => ?_
  refine moves_bind (moves_interfaceBody he) fun body k hk => ?_
  exact moves_expect he (by decide) fun _ => moves_pure (by omega)

theorem moves_aliasFields {fields : List TsParam} :
    Moves toks i (aliasFields toks fields) (aliasFields toks fields) i := by
  revert fields
  refine ahead_induction toks (P := fun i => ∀ {fields : List TsParam},
    Moves toks i (aliasFields toks fields) (aliasFields toks fields) i)
    (fun _ h _ => moves_out h) (fun i ih fields => ?_) i
  rw [aliasFields]
  refine moves_unlessClosed (moves_pure (Nat.le_refl i)) fun hend => ?_
  refine moves_ifCheck (fun _ => ?_) fun _ => ?_
  · refine moves_advance he hend fun name _ => moves_skip he (by decide) fun j hj => ?_
    refine moves_expect he (by decide) fun _ => ?_
    refine moves_bind (moves_parseType he) fun type k hk => ?_
    refine moves_bind (moves_optionalSemi he) fun _ l hl => ?_
    refine moves_skip he (by decide) fun m hm => ?_
    exact (ih m (by omega)).weaken (by omega)
  · exact moves_advance he hend fun _ _ => (ih (i + 1) (by omega)).weaken (by omega)

theorem moves_parseTypeAlias (h : typeAt toks i = .ident) :
    Moves toks (i + 1) (parseTypeAlias toks) (parseTypeAlias toks) i := by
  refine moves_advance he (h ▸ nofun) fun _ _ => moves_expect he (by decide) fun name => ?_
  refine moves_expect he (by decide) fun _ => moves_ifCheck (fun _ => ?_) fun _ => ?_
  · refine moves_expect he (by decide) fun _ => ?_
    refine moves_bind (moves_aliasFields he) fun fields j hj => ?_
    refine moves_expect he (by decide) fun _ => ?_
    exact moves_bind (moves_optionalSemi he) fun _ k hk => moves_pure (by omega)
  · refine moves_bind (moves_parseType he) fun type j hj => ?_
    exact moves_bind (moves_optionalSemi he) fun _ k hk => moves_pure (by omega)

/-! ### Breakpoints -/

omit he in
theorem moves_breakpoint {spot : Nat → Spot}
    (hbad : defects toks (spot i) = true → i < toks.length →
      p i = throw .pastEnd ∨ p i = never)
    (hgood : defects toks (spot i) = false → Moves toks lo p q i) :
    Moves toks lo (breakpoint (fun _ => false) spot >>= fun _ => p)
      (breakpoint (defects toks) spot >>= fun _ => q) i := by
  intro hi
  show Tracked toks lo (p i)
    ((if defects toks (spot i) then throw (.reached (spot i)) else pure () : Parser Unit) i >>=
      fun r => q r.2)
  cases hd : defects toks (spot i) with
  | true =>
    rcases hbad hd hi with h | h
    · rw [h]
      exact .pastEnd
    · rw [h]
      exact .never
  | false => exact hgood hd hi

omit he in
theorem advance_end (hi : i < toks.length) (h : typeAt toks i = .endOfFile) {f : TsToken → Parser β} :
    (advance toks >>= f) i = throw .pastEnd := by
  obtain ⟨t, ht, htype⟩ := typeAt_of_lt hi
  show advance toks i >>= (fun r => f r.1 r.2) = _
  rw [advance_eq ht, if_pos (htype.trans h)]
  rfl

theorem skipQuestion_end (hi : i < toks.length) (hquestion : typeAt toks i = .question)
    (hend : typeAt toks (i + 1) = .endOfFile) {f : Unit → Parser β} :
    (skipQuestion toks >>= f) i = throw .pastEnd := by
  obtain ⟨t, ht, htype⟩ := typeAt_of_lt hi
  have hcheck : check toks .question i = pure (true, i) := by
    rw [check_eq hi, hquestion]
    rfl
  have hadvance : advance toks i = pure (t, i + 1) := by
    rw [advance_eq ht, if_neg (htype ▸ hquestion ▸ nofun)]
  have hlt := next_lt he hi (hquestion ▸ nofun)
  show (check toks .question i >>= fun r =>
    (if r.1 = true then do
      let _ ← advance toks
      let _ ← advance toks
      return ()
    else return () : Parser Unit) r.2) >>= (fun r => f r.1 r.2) = _
  rw [hcheck]
  show (advance toks i >>= fun r => (advance toks >>= fun _ => pure ()) r.2) >>= _ = _
  rw [hadvance]
  show (advance toks >>= fun _ => pure ()) (i + 1) >>= _ = _
  rw [advance_end hlt hend]
  rfl

theorem moves_skipQuestion (h : typeAt toks i = .question → typeAt toks (i + 1) ≠ .endOfFile) :
    Moves toks i (skipQuestion toks) (skipQuestion toks) i := by
  refine moves_ifCheck (fun ht => ?_) fun _ => moves_pure (Nat.le_refl i)
  refine moves_advance he (ht ▸ nofun) fun _ _ => moves_advance he (h ht) fun _ _ => ?_
  exact moves_pure (by omega)

end

end Voodoo.Bruja.Goxx
