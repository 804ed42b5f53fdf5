import Voodoo.Compiler.EnumBodies
import Voodoo.Compiler.Files

/-!
# From one enum to the next

`CollectEnumValues` takes every `enum` with a name behind it for the head of an enum, and notes the
name with the values that follow in braces.  Between two enums the parser opens no brace behind such
a pair, and it stops behind no name (`Calm`).  So the scan finds its way to the next enum, and what
it notes on the way are names without values (`Calm.skims`): those of fields, parameters and consts
whose type is itself called `enum`.
-/

namespace Voodoo.Compiler

open Parse EState Std.Do List

set_option mvcgen.warning false

/-! ### Heads -/

/-- `enum` and a name, which the scan takes for the head of an enum. -/
def atEnumHead : List Token → Bool
  | t :: u :: _ => t.type = .name && t.text = "enum" && u.type = .name
  | _ => false

/-- What stands behind a head opens a body. -/
def opensBody (tokens : List Token) : Bool := tokens.head?.any (·.type = .lBrace)

/-- What stands behind a head opens a body that is not empty. -/
def opensFilledBody (tokens : List Token) : Bool :=
  opensBody tokens && !tokens.tail.head?.any (·.type = .rBrace)

/-- The names behind `enum` outside the bodies of enums, each with whether it has a body that is not
empty.  The tokens are those of a body or not. -/
def enumNames : Bool → List Token → List (String × Bool)
  | true, t :: tokens => enumNames (t.type ≠ .rBrace) tokens
  | false, t :: u :: tokens =>
    if atEnumHead (t :: u :: tokens) then
      (u.text, opensFilledBody tokens) :: enumNames (opensBody tokens) tokens
    else enumNames false (u :: tokens)
  | _, _ => []

section

variable {ts us vs : List Token}

theorem atEnumHead_iff {t u : Token} : atEnumHead (t :: u :: ts) = true ↔
    t.type = .name ∧ t.text = "enum" ∧ u.type = .name := by
  unfold atEnumHead
  simp only [Bool.and_eq_true, decide_eq_true_eq, and_assoc]

theorem enumNames_head {t u : Token} (h : atEnumHead (t :: u :: ts) = true) :
    enumNames false (t :: u :: ts) =
      (u.text, opensFilledBody ts) :: enumNames (opensBody ts) ts := if_pos h

theorem enumNames_step {t : Token} (h : atEnumHead (t :: ts) = false) :
    enumNames false (t :: ts) = enumNames false ts := by
  cases ts with
  | nil => rfl
  | cons u ts => exact if_neg (by rw [h]; exact Bool.false_ne_true)

theorem enumNames_body {body : List Token} {close : Token} (h : ∀ t ∈ body, t.type ≠ .rBrace)
    (hclose : close.type = .rBrace) :
    enumNames true (body ++ close :: ts) = enumNames false ts := by
  induction body with
  | nil =>
    show enumNames (close.type ≠ .rBrace) ts = _
    rw [hclose]
    rfl
  | cons t body ih =>
    show enumNames (t.type ≠ .rBrace) (body ++ close :: ts) = _
    rw [decide_eq_true (h t mem_cons_self)]
    exact ih fun u hu => h u (mem_cons_of_mem t hu)

/-! ### What the scan notes on its way -/

/-- What is collected for a head with its values. -/
def scannedEntry (note : String × List EnumValue) : String × EnumDecl :=
  (note.1, { name := note.1, values := note.2 })

/-- The scan goes from `ts` to `us` and makes these notes. -/
structure Skims (ts us : List Token) (notes : List (String × List EnumValue)) : Prop where
  names : enumNames false ts = notes.map (fun n => (n.1, !n.2.isEmpty)) ++ enumNames false us
  collects : ∀ fuel found, ts.length < fuel → ∃ fuel', us.length < fuel' ∧
    collectEnumValuesFrom fuel found ts =
      collectEnumValuesFrom fuel' ((notes.map scannedEntry).reverse ++ found) us

namespace Skims

variable {notes notes' : List (String × List EnumValue)}

theorem refl (ts : List Token) : Skims ts ts [] where
  names := rfl
  collects fuel _ hfuel := ⟨fuel, hfuel, rfl⟩

theorem trans (h : Skims ts us notes) (h' : Skims us vs notes') :
    Skims ts vs (notes ++ notes') where
  names := by rw [h.names, h'.names, map_append, List.append_assoc]
  collects fuel found hfuel := by
    obtain ⟨fuel₁, hfuel₁, hfirst⟩ := h.collects fuel found hfuel
    obtain ⟨fuel₂, hfuel₂, hsecond⟩ := h'.collects fuel₁ _ hfuel₁
    refine ⟨fuel₂, hfuel₂, ?_⟩
    rw [hfirst, hsecond, map_append, reverse_append, List.append_assoc]

theorem step {t : Token} (h : atEnumHead (t :: ts) = false) : Skims (t :: ts) ts [] where
  names := enumNames_step h
  collects fuel found hfuel := by
    rw [length_cons] at hfuel
    obtain ⟨fuel, rfl⟩ : ∃ n, fuel = n + 2 := ⟨fuel - 2, by omega⟩
    refine ⟨fuel + 1, by omega, ?_⟩
    cases ts with
    | nil => rfl
    | cons u ts =>
      have hnot : ¬ (t.type = .name ∧ t.text = "enum" ∧ u.type = .name) :=
        fun hhead => Bool.false_ne_true (h.symm.trans (atEnumHead_iff.mpr hhead))
      exact if_neg hnot

theorem head {t u : Token} {values : List EnumValue} (h : atEnumHead (t :: u :: ts) = true)
    (hscan : scanEnum ts = .ok (values, us)) (hlength : us.length ≤ ts.length)
    (hfilled : opensFilledBody ts = !values.isEmpty)
    (hnames : enumNames (opensBody ts) ts = enumNames false us) :
    Skims (t :: u :: ts) us [(u.text, values)] where
  names := by
    rw [enumNames_head h, hfilled, hnames]
    rfl
  collects fuel found hfuel := by
    rw [length_cons, length_cons] at hfuel
    obtain ⟨fuel, rfl⟩ : ∃ n, fuel = n + 1 := ⟨fuel - 1, by omega⟩
    refine ⟨fuel, by omega, ?_⟩
    refine (if_pos (atEnumHead_iff.mp h)).trans ?_
    unfold scanEnum at hscan
    dsimp only
    split
    case isTrue hbrace =>
      rw [if_pos hbrace] at hscan
      rw [hscan]
      rfl
    case isFalse hbrace =>
      rw [if_neg hbrace] at hscan
      obtain ⟨rfl, rfl⟩ := Prod.mk.inj (Except.ok.inj hscan)
      rfl

theorem stray {t u : Token} (h : atEnumHead (t :: u :: ts) = true) (hbody : opensBody ts = false) :
    Skims (t :: u :: ts) ts [(u.text, [])] := by
  refine head h ?_ le_rfl ?_ ?_
  · exact if_neg (by rw [← opensBody, hbody]; exact Bool.false_ne_true)
  · unfold opensFilledBody
    rw [hbody]
    rfl
  · rw [hbody]

end Skims

/-! ### Between the enums -/

/-- From `ts` to `us` no brace opens behind `enum` and a name, and the last token is no name. -/
inductive Calm : List Token → List Token → Prop where
  | done {ts : List Token} : Calm ts ts
  | closed {passed ts us : List Token} {last : Token} : (∀ t ∈ passed, t.type ≠ .lBrace) → last.type ≠ .name →
      last.type ≠ .lBrace → Calm ts us → Calm (passed ++ last :: ts) us
  | opened {keyword name brace : Token} {ts us : List Token} : keyword.text ≠ "enum" → brace.type = .lBrace →
      Calm ts us → Calm (keyword :: name :: brace :: ts) us

theorem Calm.trans (h : Calm ts us) (h' : Calm us vs) : Calm ts vs := by
  induction h with
  | done => exact h'
  | closed hpassed hname hbrace _ ih => exact .closed hpassed hname hbrace (ih h')
  | opened hkeyword hbrace _ ih => exact .opened hkeyword hbrace (ih h')

theorem atEnumHead_of_fst {t : Token} (h : t.type ≠ .name ∨ t.text ≠ "enum") (ts : List Token) :
    atEnumHead (t :: ts) = false := by
  cases ts with
  | nil => rfl
  | cons u ts =>
    refine Bool.eq_false_iff.mpr fun hhead => ?_
    obtain ⟨hname, htext, -⟩ := atEnumHead_iff.mp hhead
    exact h.elim (fun hne => hne hname) (fun hne => hne htext)

theorem atEnumHead_of_snd {t u : Token} (h : u.type ≠ .name) (ts : List Token) :
    atEnumHead (t :: u :: ts) = false :=
  Bool.eq_false_iff.mpr fun hhead => h (atEnumHead_iff.mp hhead).2.2

theorem skims_closed {last : Token} (hname : last.type ≠ .name) (hbrace : last.type ≠ .lBrace) :
    ∀ passed : List Token, (∀ t ∈ passed, t.type ≠ .lBrace) →
      ∃ notes, Skims (passed ++ last :: ts) ts notes ∧ ∀ n ∈ notes, n.2 = []
  | [], _ => ⟨[], .step (atEnumHead_of_fst (Or.inl hname) ts), fun _ hn => absurd hn not_mem_nil⟩
  | [t], _ => by
    refine ⟨[], ?_, fun _ hn => absurd hn not_mem_nil⟩
    have hfirst : Skims (t :: last :: ts) (last :: ts) [] := .step (atEnumHead_of_snd hname ts)
    exact hfirst.trans (.step (atEnumHead_of_fst (Or.inl hname) ts))
  | t :: u :: passed, hpassed => by
    cases hhead : atEnumHead (t :: u :: (passed ++ last :: ts)) with
    | false =>
      obtain ⟨notes, hskims, hnotes⟩ := skims_closed hname hbrace (u :: passed)
        fun v hv => hpassed v (mem_cons_of_mem t hv)
      exact ⟨notes, (Skims.step hhead).trans hskims, hnotes⟩
    | true =>
      have hmore : ∀ v ∈ passed, v.type ≠ .lBrace := fun v hv =>
        hpassed v (mem_cons_of_mem t (mem_cons_of_mem u hv))
      have hbody : opensBody (passed ++ last :: ts) = false := by
        cases passed with
        | nil => exact decide_eq_false hbrace
        | cons v passed => exact decide_eq_false (hmore v mem_cons_self)
      obtain ⟨notes, hskims, hnotes⟩ := skims_closed hname hbrace passed hmore
      refine ⟨_, (Skims.stray hhead hbody).trans hskims, fun n hn => ?_⟩
      rcases mem_cons.mp hn with rfl | hn
      · rfl
      · exact hnotes n hn

theorem Calm.skims (h : Calm ts us) : ∃ notes, Skims ts us notes ∧ ∀ n ∈ notes, n.2 = [] := by
  induction h with
  | done => exact ⟨[], .refl _, fun _ hn => absurd hn not_mem_nil⟩
  | closed hpassed hname hbrace _ ih =>
    obtain ⟨notes, hfirst, hnotes⟩ := skims_closed hname hbrace _ hpassed
    obtain ⟨notes', hmore, hnotes'⟩ := ih
    refine ⟨notes ++ notes', hfirst.trans hmore, fun n hn => ?_⟩
    rcases mem_append.mp hn with hn | hn
    · exact hnotes n hn
    · exact hnotes' n hn
  | @opened keyword name brace ts _ hkeyword hbrace _ ih =>
    obtain ⟨notes, hmore, hnotes⟩ := ih
    have hfirst : Skims (keyword :: name :: brace :: ts) (name :: brace :: ts) [] :=
      .step (atEnumHead_of_fst (Or.inr hkeyword) _)
    have hne : brace.type ≠ .name := by
      rw [hbrace]
      exact nofun
    have hsecond : Skims (name :: brace :: ts) (brace :: ts) [] := .step (atEnumHead_of_snd hne ts)
    have hthird : Skims (brace :: ts) ts [] := .step (atEnumHead_of_fst (Or.inl hne) ts)
    exact ⟨notes, ((hfirst.trans hsecond).trans hthird).trans hmore, hnotes⟩

end

/-! ### What the parser does between enums -/

/-- `Calm` between the tokens of two states. -/
def Calms (s t : Parser) : Prop :=
  WellLexed s.rest → WellLexed t.rest ∧ Calm s.rest t.rest

section
variable {s t u : Parser}

@[grind .] theorem Calms.refl (s : Parser) : Calms s s := fun hs => ⟨hs, .done⟩

theorem Calms.of_rest (h : t.rest = s.rest) : Calms s t := fun hs => by
  rw [h]
  exact ⟨hs, .done⟩

@[grind →] theorem Calms.trans (h : Calms s t) (h' : Calms t u) : Calms s u := by
  intro hs
  obtain ⟨ht, hst⟩ := h hs
  obtain ⟨hu, htu⟩ := h' ht
  exact ⟨hu, hst.trans htu⟩

theorem Calms.trans_of_rest (h : Calms s t) (hr : u.rest = t.rest) : Calms s u :=
  h.trans (.of_rest hr)

grind_pattern Calms.trans_of_rest => Calms s t, Calms s u

theorem Clear.closed {type : TokenType} (h : Clear s u) (hu : u.tok.type = type)
    (hname : type ≠ .name) (hbrace : type ≠ .lBrace) (hend : type ≠ .end) : Calms s u.next := by
  intro hs
  obtain ⟨hlexed, passed, hpassed, hclear⟩ := h hs
  refine ⟨hlexed.of_next hu hend, ?_⟩
  rw [hpassed, hlexed.next hu hend]
  exact .closed (fun t ht => (hclear t ht).1) (hu ▸ hname) (hu ▸ hbrace) .done

theorem Clear.closed_semi (h : Clear s u) (hu : u.tok.type = .semi) : Calms s u.next :=
  h.closed hu nofun nofun nofun

theorem Clear.closed_bracket (h : Clear s u) (hu : u.tok.type = .rBracket) : Calms s u.next :=
  h.closed hu nofun nofun nofun

theorem Clear.closed_brace (h : Clear s u) (hu : u.tok.type = .rBrace) : Calms s u.next :=
  h.closed hu nofun nofun nofun

grind_pattern Clear.closed_semi => Clear s u, u.next
grind_pattern Clear.closed_bracket => Clear s u, u.next
grind_pattern Clear.closed_brace => Clear s u, u.next
attribute [grind →] Run.clear Clear.trans

@[grind .] theorem Clear.refl (s : Parser) : Clear s s := .of_eq rfl

theorem Calms.opened (hk : s.tok.type = .name) (hkw : s.tok.text ≠ "enum")
    (hn : s.next.tok.type = .name) (hl : s.next.next.tok.type = .lBrace) :
    Calms s s.next.next.next := by
  intro hs
  have hs₁ := hs.of_next hk nofun
  have hs₂ := hs₁.of_next hn nofun
  refine ⟨hs₂.of_next hl nofun, ?_⟩
  rw [hs.next hk nofun, hs₁.next hn nofun, hs₂.next hl nofun]
  exact .opened hkw hl .done

theorem Calms.leaf (hk : s.tok.type = .name) (hkw : s.tok.text ≠ "enum")
    (hn : s.next.tok.type = .name) (hl : s.next.next.tok.type = .lBrace)
    (h : Clear s.next.next.next t) (hr : t.tok.type = .rBrace) (hsemi : t.next.tok.type = .semi) :
    Calms s t.next.next :=
  ((Calms.opened hk hkw hn hl).trans (h.closed_brace hr)).trans
    ((Clear.of_eq rfl).closed_semi hsemi)

grind_pattern Calms.leaf => Clear s.next.next.next t, t.next.next

theorem spec_of_clear {α : Type} {x : Parse α} {o : Parser}
    (h : ⦃fun s => ⌜s = o⌝⦄ x ⦃⇓? _ => fun s => ⌜True ∧ Clear o s⌝⦄) :
    ⦃fun s => ⌜s = o⌝⦄ x ⦃⇓? _ => fun s => ⌜Clear o s⌝⦄ := by
  mvcgen [h]
  grind

end

section

variable {o : Parser} {env : Env}

theorem parseAttributeList_calms :
    ⦃fun s => ⌜s = o⌝⦄ parseAttributeList ⦃⇓? _ => fun s => ⌜Calms o s⌝⦄ := by
  have h := fun o => commaSeparated_spec (o := o) (fun _ => parseAttribute_spec)
  unfold parseAttributeList
  mvcgen [h]
  all_goals grind

theorem parseOptionalAttributes_calms :
    ⦃fun s => ⌜s = o⌝⦄ parseOptionalAttributes ⦃⇓? _ => fun s => ⌜Calms o s⌝⦄ := by
  unfold parseOptionalAttributes
  mvcgen [-parseAttributeList_spec, parseAttributeList_calms]
  all_goals grind

theorem parseStructField_calms (attrs : List ParsedAttribute) :
    ⦃fun s => ⌜s = o⌝⦄ parseStructField env attrs ⦃⇓? _ => fun s => ⌜Calms o s⌝⦄ := by
  have h := foldlM_spec (Q := fun _ : StructField => True)
    (fun f a o => parseStructFieldAttribute_spec (o := o) f a)
  unfold parseStructField
  mvcgen [-Spec.foldlM_list, h]
  all_goals grind

theorem parseConst_calms :
    ⦃fun s => ⌜s = o⌝⦄ parseConst env ⦃⇓? _ => fun s => ⌜Calms o s⌝⦄ := by
  unfold parseConst
  generalize "const type must be bool/integer/float/double/string/enum " ++ _ = msg
  mvcgen
  all_goals grind

theorem parseConstIn_calms (container : String) (attrs : List ParsedAttribute) :
    ⦃fun s => ⌜s = o⌝⦄ parseConstIn env container attrs ⦃⇓? _ => fun s => ⌜Calms o s⌝⦄ := by
  unfold parseConstIn
  mvcgen [-parseConst_spec, parseConst_calms, -Spec.foldlM_list, foldlM_fillEnableIf_spec]
  all_goals grind

theorem makeResultUnion_clear (ifaceName methodName : String) (t e : TypeSpec) :
    ⦃fun s => ⌜s = o⌝⦄ makeResultUnion ifaceName methodName t e ⦃⇓? _ => fun s => ⌜Clear o s⌝⦄ := by
  mvcgen [makeResultUnion]
  next hs _ s₁ hrun _ =>
    subst hs
    exact hrun.clear.trans (.of_eq rfl)

theorem parseResultResponse_clear (ifaceName : String) (m : Method)
    (hcur : o.tok.type = .name) :
    ⦃fun s => ⌜s = o⌝⦄ parseResultResponse env ifaceName m ⦃⇓? _ => fun s => ⌜Clear o s⌝⦄ := by
  have h := fun o => makeResultUnion_clear (o := o)
  unfold parseResultResponse
  mvcgen [h]
  all_goals grind

theorem parseResponse_clear (ifaceName : String) (m : Method) :
    ⦃fun s => ⌜s = o⌝⦄ parseResponse env ifaceName m ⦃⇓? _ => fun s => ⌜Clear o s⌝⦄ := by
  apply spec_of_clear
  unfold parseResponse
  mvcgen [-parseResultResponse_spec, parseResultResponse_clear]
  all_goals grind

theorem parseMethod_calms (attrs : List ParsedAttribute) (ifaceName : String) :
    ⦃fun s => ⌜s = o⌝⦄ parseMethod env attrs ifaceName ⦃⇓? _ => fun s => ⌜Calms o s⌝⦄ := by
  have h := foldlM_spec
    (Q := fun m : Method => m.params = [] ∧ m.responseParams = [] ∧ m.result = none)
    (fun m a o => parseMethodAttribute_spec (o := o) m a)
  unfold parseMethod
  mvcgen [-Spec.foldlM_list, h, -parseResponse_spec, parseResponse_clear]
  all_goals grind

theorem parseUnion_calms (attrs : List ParsedAttribute) :
    ⦃fun s => ⌜s = o⌝⦄ parseUnion env attrs ⦃⇓? _ => fun s => ⌜Calms o s⌝⦄ := by
  have h := foldlM_spec (Q := fun u : UnionDecl => u.fields = [])
    (fun u a o => parseUnionAttribute_spec (o := o) u a)
  unfold parseUnion
  mvcgen [-Spec.foldlM_list, h]
  all_goals grind

theorem parseFeature_calms :
    ⦃fun s => ⌜s = o⌝⦄ parseFeature env ⦃⇓? _ => fun s => ⌜Calms o s⌝⦄ := by
  unfold parseFeature
  mvcgen
  all_goals grind

theorem takeEmbedOrder_calms :
    ⦃fun s => ⌜s = o⌝⦄ takeEmbedOrder ⦃⇓? _ => fun s => ⌜Calms o s⌝⦄ := by
  unfold takeEmbedOrder
  mvcgen
  all_goals grind [Calms.of_rest]

theorem parseUnionIn_calms (container : String) (attrs : List ParsedAttribute) :
    ⦃fun s => ⌜s = o⌝⦄ parseUnionIn env container attrs ⦃⇓? _ => fun s => ⌜Calms o s⌝⦄ := by
  unfold parseUnionIn
  mvcgen [-parseUnion_spec, parseUnion_calms, -takeEmbedOrder_spec, takeEmbedOrder_calms]
  all_goals grind

theorem takeTopAttributes_calms :
    ⦃fun s => ⌜s = o⌝⦄ takeTopAttributes ⦃⇓? _ => fun s => ⌜Calms o s⌝⦄ := by
  unfold takeTopAttributes
  mvcgen [-parseOptionalAttributes_spec, parseOptionalAttributes_calms]
  all_goals grind [Calms.of_rest]

theorem consumeHeaderAttributeList_calms :
    ⦃fun s => ⌜s = o⌝⦄ consumeHeaderAttributeList ⦃⇓? _ => fun s => ⌜Calms o s⌝⦄ := by
  unfold consumeHeaderAttributeList
  mvcgen [-parseAttributeList_spec, parseAttributeList_calms]
  all_goals grind

theorem atImport_calms :
    ⦃fun s => ⌜s = o⌝⦄ atImport ⦃⇓? _ => fun s => ⌜Calms o s⌝⦄ := by
  unfold atImport
  mvcgen [-consumeHeaderAttributeList_spec, consumeHeaderAttributeList_calms]
  all_goals grind

theorem parseImport_calms :
    ⦃fun s => ⌜s = o⌝⦄ parseImport ⦃⇓? _ => fun s => ⌜Calms o s⌝⦄ := by
  unfold parseImport
  mvcgen
  all_goals grind

theorem parseModuleStatement_calms :
    ⦃fun s => ⌜s = o⌝⦄ parseModuleStatement ⦃⇓? _ => fun s => ⌜Calms o s⌝⦄ := by
  unfold parseModuleStatement
  mvcgen
  all_goals grind

theorem imports_calms :
    ⦃fun s => ⌜s = o⌝⦄ many atImport parseImport ⦃⇓? _ => fun s => ⌜Calms o s⌝⦄ := by
  have hloop {turns : Nat} {found found' : List ImportDecl} {s t : Parser}
      (h : loop atImport (fun found => do return found ++ [← parseImport]) turns found s =
        .ok found' t) : Calms s t := by
    induction turns generalizing found s with
    | zero => cases h
    | succ turns ih =>
      obtain ⟨go, u, hat, hgo⟩ := bind_eq_ok.mp h
      have hfirst : Calms s u := runs_of_triple (fun o => atImport_calms) hat
      cases go with
      | false =>
        obtain ⟨-, rfl⟩ := EStateM.Result.ok.inj hgo
        exact hfirst
      | true =>
        obtain ⟨more, v, hbody, hrest⟩ := bind_eq_ok.mp hgo
        obtain ⟨i, w, himport, hpure⟩ := bind_eq_ok.mp hbody
        obtain ⟨-, rfl⟩ := EStateM.Result.ok.inj hpure
        have hsecond : Calms u w := runs_of_triple (fun o => parseImport_calms) himport
        exact (hfirst.trans hsecond).trans (ih hrest)
  refine triple_of_runs (R := fun o _ s => Calms o s) (fun s a t h => ?_) o
  obtain ⟨s', u, hget, hrun⟩ := bind_eq_ok.mp h
  obtain ⟨rfl, rfl⟩ := EStateM.Result.ok.inj hget
  exact hloop hrun

theorem parseHeader_calms :
    ⦃fun s => ⌜s = o⌝⦄ parseHeader ⦃⇓? _ => fun s => ⌜Calms o s⌝⦄ := by
  unfold parseHeader
  mvcgen [-consumeHeaderAttributeList_spec, consumeHeaderAttributeList_calms,
    -parseModuleStatement_spec, parseModuleStatement_calms, -imports_spec, imports_calms]
  all_goals grind

end

end Voodoo.Compiler
