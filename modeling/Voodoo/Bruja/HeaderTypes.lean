import Voodoo.Bruja.ConversionTypesToJs

/-!
# The types in the functions of the header

A function of the header is well typed if and only if each of its parts `Fits`
(`types_agree_iff`).  What does not fit: a value of a type that no variable is declared for, an
element of a sequence that may be `null`, a `Promise` of such a value, and, as what a callback
returns, whatever has a `return JS_EXCEPTION` in its conversion.
-/

namespace Voodoo.Bruja

open Command Scoped Relation List Option

variable {R t : CppTy} {Γ : Locals} {c : Code} {m : IdlModule} {type : TypeSpec} {n : Nat}

/-- The code of the part is well typed. -/
def Part.Fits (m : IdlModule) : Part → Prop
  | fixed _ => True
  | param _ p => Everywhere (Turns m) (Agrees .jsValue) p.type
  | setterValue attr => Everywhere (Turns m) (Agrees .jsValue) attr.type
  | result (.plain .void _) => True
  | result (.promise element _) => element.isVoid = true ∨
      (element.nullable = true → element.isInterface = true) ∧
        Everywhere (Component m) Sound element
  | result type => type.isEmpty = false ∧ Everywhere (Component m) Sound type
  | argument _ p => Everywhere (Component m) Sound p.type
  | callResult type => type.isVoid = true ∨
      Everywhere (Turns m) (fun u => Agrees .jsValue u ∧ ¬ Returns u) type

/-! ### Parameters -/

theorem typed_variadic {p : Param} {place : CppTy}
    (h : Typing m p.type (p.name ++ "_elem") c) (hplace : place = .vector (cppType p.type)) :
    Typed R (.all [variadicFromJs p c, .act (.move p.name (.parameter place))]) Γ ↔
      Everywhere (Turns m) (Agrees R) p.type := by
  have hout : ¬ Below (p.name ++ "_elem") p.name :=
    not_below_of_suffix (w := "elem") (by decide)
  have hv : lookup (behind c ([] :: behind (.act (.declare (.vector (cppType p.type)) p.name)) Γ))
      p.name = some (some (.vector (cppType p.type))) := by
    unfold behind
    rw [h.adds.lookup_after (cons_ne_nil _ _) hout, lookup_cons_nil]
    exact lookup_behind_declare
  rw [variadicFromJs]
  simp only [typed_all_cons, typed_declare, typed_loop, typed_move, typed_all_nil, behind_all_cons,
    behind_loop, behind_all_nil, true_and, and_true]
  rw [h.moved (R := R) (.element p.name) (cons_ne_nil _ _), lookup_behind_declare,
    and_iff_left (show Place.Takes _ _ (.element p.name) from hv)]
  exact and_iff_left ⟨_, rfl, hplace.symm⟩

theorem typed_optional {p : Param} {place : CppTy}
    (h : Typing m p.type (p.name ++ "_conv") c) (hplace : place = cppType p.type) :
    Typed R (.all [optionalFromJs p c, .act (.move p.name (.parameter place))]) Γ ↔
      Everywhere (Turns m) (Agrees R) p.type := by
  have hout : ¬ Below (p.name ++ "_conv") p.name :=
    not_below_of_suffix (w := "conv") (by decide)
  have hv : lookup (behind c ([] :: behind (.act (.declare (cppType p.type) p.name)) Γ))
      p.name = some (some (cppType p.type)) := by
    unfold behind
    rw [h.adds.lookup_after (cons_ne_nil _ _) hout, lookup_cons_nil]
    exact lookup_behind_declare
  rw [optionalFromJs]
  simp only [typed_all_cons, typed_declare, typed_either, typed_move, typed_skip, typed_all_nil,
    behind_all_cons, behind_either, behind_all_nil, true_and, and_true]
  rw [h.moved (R := R) (.variable p.name) (cons_ne_nil _ _), lookup_behind_declare,
    and_iff_left (show Place.Takes _ _ (.variable p.name) from hv)]
  exact and_iff_left ⟨_, rfl, hplace.symm⟩

theorem typed_passed {x : String} (h : Typing m type x c) (hΓ : Γ ≠ []) :
    Typed R (.all [c, .act (.move x (.parameter (cppType type)))]) Γ ↔
      Everywhere (Turns m) (Agrees R) type := by
  rw [typed_all_cons, typed_all_cons, typed_move, typed_all_nil, and_true, h.moved _ hΓ]
  exact and_iff_left rfl

theorem typed_param {i : Nat} {p : Param} (h : (Part.param i p).emit m n = some c) (hΓ : Γ ≠ []) :
    Typed R c Γ ↔ Everywhere (Turns m) (Agrees R) p.type := by
  obtain ⟨value, hvalue, h⟩ := bind_eq_some_iff.mp h
  obtain rfl := some.inj h
  rw [emitParamConversion] at hvalue
  by_cases hvar : p.variadic = true
  · rw [if_pos hvar] at hvalue
    obtain ⟨conv, hconv, hvalue⟩ := bind_eq_some_iff.mp hvalue
    obtain rfl := some.inj hvalue
    exact typed_variadic (typing hconv) (if_pos hvar)
  · rw [if_neg hvar] at hvalue
    have hplace : interfaceClassParamType p = cppType p.type := if_neg hvar
    by_cases hopt : p.optional = true
    · rw [if_pos hopt] at hvalue
      obtain ⟨conv, hconv, hvalue⟩ := bind_eq_some_iff.mp hvalue
      obtain rfl := some.inj hvalue
      exact typed_optional (typing hconv) hplace
    · rw [if_neg hopt] at hvalue
      rw [hplace]
      exact typed_passed (typing hvalue) hΓ

theorem typed_setterValue {attr : Attribute} (h : (Part.setterValue attr).emit m n = some c)
    (hΓ : Γ ≠ []) :
    Typed .jsValue c Γ ↔ Everywhere (Turns m) (Agrees .jsValue) attr.type := by
  obtain ⟨value, hvalue, h⟩ := bind_eq_some_iff.mp h
  obtain rfl := some.inj h
  rw [← typed_passed (typing hvalue) hΓ, typed_all_cons, typed_all_cons, typed_all_cons,
    typed_all_cons, typed_all_cons, typed_ret, typed_all_nil, and_true]
  exact and_congr_right' (and_congr_right' ⟨fun _ => trivial, fun _ => rfl⟩)

/-! ### Results -/

theorem typed_returned {e : Expr} (h : ToTyping m type "js_result" e c)
    (he : e.type = some (cppType type)) :
    Typed .jsValue (.all [c, .leave (.ret (.var "js_result"))]) Γ ↔
      type.isEmpty = false ∧ Everywhere (Component m) Sound type := by
  rw [typed_all_cons, typed_all_cons, typed_ret, typed_all_nil, and_true, h.typed he, and_comm]
  refine and_congr_left fun hall => ?_
  cases hempty : type.isEmpty with
  | false => exact iff_of_true (h.declares hempty Γ) rfl
  | true =>
    cases hnull : type.nullable with
    | false =>
      rw [Returned.Has, h.undeclared hempty hnull Γ]
      exact iff_of_false (by rintro ⟨⟩) (by rintro ⟨⟩)
    | true =>
      -- none of the types without a variable is wrapped
      rcases (everywhere_iff.mp hall).1.wrapped hnull with hi | hw
      · rw [isEmpty_of_isInterface hi] at hempty
        cases hempty
      · rw [isEmpty_of_usesOptionalWrapper hw] at hempty
        cases hempty

theorem typed_promiseReturn (hadds : Adds (· ≠ "promise") (lines c)) :
    Typed .jsValue (promiseReturn c) Γ ↔
      Typed .jsValue c (behind (.act .newPromiseCapability) Γ) := by
  have hpromise : lookup (behind (.act .newPromiseCapability) Γ) "promise" =
      some (some .jsValue) := lookup_declare
  have hafter : lookup (behind c (behind (.act .newPromiseCapability) Γ)) "promise" =
      some (some .jsValue) :=
    (hadds.lookup_after after_declare_ne_nil (not_not_intro rfl)).trans hpromise
  rw [promiseReturn]
  simp only [typed_all_cons, typed_newPromiseCapability, typed_either, typed_isException, typed_free,
    typed_ret, typed_all_nil, behind_isException, behind_either, behind_free, true_and, and_true]
  constructor
  · exact fun h => h.2.1
  · exact fun h => ⟨hpromise, h, hafter⟩

theorem not_below_js_result_promise : ¬ Below "js_result" "promise" :=
  not_below_of_not_start (by decide)

theorem typed_promise {element : TypeSpec} {b : Bool}
    (h : (Part.result (.promise element b)).emit m n = some c) :
    Typed .jsValue c Γ ↔ (Part.result (.promise element b)).Fits m := by
  obtain ⟨resolve, hresolve, h⟩ := bind_eq_some_iff.mp h
  obtain rfl := some.inj h
  rw [emitResolve] at hresolve
  rw [Part.Fits]
  by_cases hvoid : element.isVoid = true
  · rw [if_pos hvoid] at hresolve
    obtain rfl := some.inj hresolve
    rw [typed_promiseReturn (Adds.declare (by decide) Adds.nil)]
    exact iff_of_true trivial (.inl hvoid)
  · rw [if_neg hvoid] at hresolve
    obtain ⟨value, hvalue, hresolve⟩ := bind_eq_some_iff.mp hresolve
    obtain rfl := some.inj hresolve
    have hto := toTyping hvalue
    -- the type of a `Promise` is spelled as the one of its element, without the `?`
    have htype : (Expr.var "result" (cppType (.promise element b))).type =
        some (cppBaseType element) := by
      rw [Expr.type, cppType, wrapOptional, usesOptionalWrapper, Bool.and_false, cppBaseType]
      rfl
    have hadds : Adds (· ≠ "promise") (lines (.all [value, .act (.value "resolve_result"),
        .act (.free "js_result")])) := by
      refine adds_all_cons (hto.adds.mono fun x hx => ?_) (adds_all_cons
        (Adds.declare (by decide) Adds.nil) (adds_all_cons (adds_act rfl) Adds.nil))
      rintro rfl
      exact not_below_js_result_promise hx
    rw [typed_promiseReturn hadds, typed_all_cons, typed_all_cons, typed_all_cons, typed_value,
      typed_free, typed_all_nil, and_true, and_true, and_true, hto.typed_base htype]
    exact (or_iff_right hvoid).symm

theorem typed_result (h : (Part.result type).emit m n = some c) :
    Typed .jsValue c Γ ↔ (Part.result type).Fits m := by
  cases type with
  | promise element b => exact typed_promise h
  | plain kind b =>
    cases kind with
    | void =>
      obtain rfl := some.inj h
      exact typed_ret.trans (iff_of_true rfl trivial)
    | _ =>
      obtain ⟨value, hvalue, h⟩ := bind_eq_some_iff.mp h
      obtain rfl := some.inj h
      exact typed_returned (toTyping hvalue) rfl
  | _ =>
    obtain ⟨value, hvalue, h⟩ := bind_eq_some_iff.mp h
    obtain rfl := some.inj h
    exact typed_returned (toTyping hvalue) rfl

/-! ### What a callback returns -/

theorem cppBaseType_of_cppType (h : cppType type = .jsValue) : cppBaseType type = .jsValue := by
  rw [cppType, wrapOptional] at h
  split at h
  · cases h
  · exact h

theorem eq_any_of_cppType (hempty : type.isEmpty = false) (h : cppType type = .jsValue) :
    ∃ b, type = .plain .any b := by
  have hbase := cppBaseType_of_cppType h
  cases type with
  | plain kind b =>
    cases kind with
    | any => exact ⟨b, rfl⟩
    | void => cases hempty
    | _ => cases hbase
  | promise element b => cases hempty
  | sequence element b =>
    rw [cppBaseType] at hbase
    cases hbase
  | union first rest b =>
    rw [cppBaseType] at hbase
    cases hbase
  | ref kind name b =>
    cases kind with
    | unresolved => cases hempty
    | _ =>
      rw [cppBaseType] at hbase
      cases hbase

theorem agrees_self_iff : Everywhere (Turns m) (Agrees (cppType type)) type ↔
    Everywhere (Turns m) (fun u => Agrees .jsValue u ∧ ¬ Returns u) type := by
  constructor
  · intro h u hu
    have hagrees := h u hu
    refine ⟨⟨hagrees.declares, hagrees.sound, fun _ => rfl⟩, fun hret => ?_⟩
    obtain ⟨b, rfl⟩ := eq_any_of_cppType (h type .refl).declares (hagrees.returns hret)
    rcases hu.cases_head with rfl | ⟨w, hw, -⟩
    · exact hret
    · rcases hw with hw | hw
      · cases hw
      · cases hw
  · intro h u hu
    obtain ⟨hagrees, hno⟩ := h u hu
    exact ⟨hagrees.declares, hagrees.sound, fun hret => (hno hret).elim⟩

theorem typed_callResult (h : (Part.callResult type).emit m n = some c) (hΓ : Γ ≠ []) :
    Typed (cppType type) c Γ ↔ (Part.callResult type).Fits m := by
  rw [Part.emit] at h
  rw [Part.Fits]
  by_cases hvoid : type.isVoid = true
  · rw [if_pos hvoid] at h
    obtain rfl := some.inj h
    exact iff_of_true (typed_free.mpr trivial) (.inl hvoid)
  · rw [if_neg hvoid] at h
    obtain ⟨value, hvalue, h⟩ := bind_eq_some_iff.mp h
    obtain rfl := some.inj h
    have hmoved := (typing hvalue).moved (R := cppType type) (.parameter (cppType type)) hΓ
    rw [and_iff_left (show Place.Takes _ _ (.parameter _) from rfl)] at hmoved
    rw [or_iff_right hvoid, ← agrees_self_iff, ← hmoved, typed_all_cons, typed_all_cons,
      typed_all_cons, typed_free, typed_ret, typed_all_nil, behind_free, true_and, and_true]
    refine and_congr_right' ⟨fun hv => ⟨_, hv, rfl⟩, ?_⟩
    rintro ⟨t, ht, rfl⟩
    exact ht

/-! ### The functions -/

/-- What the parts of the function say of what it returns. -/
def Function.Has (f : Function) : Part → Prop
  | .fixed c => ∀ ⦃Γ⦄, Typed f.returns c Γ
  | .param _ _ | .setterValue _ | .result _ => f.returns = .jsValue
  | .argument _ _ => True
  | .callResult type => f.returns = cppType type

theorem typed_part {f : Function} {part : Part} (hpart : f.Has part)
    (h : part.emit m n = some c) (hΓ : Γ ≠ []) : Typed f.returns c Γ ↔ part.Fits m := by
  cases part with
  | fixed code =>
    obtain rfl := some.inj h
    exact iff_of_true (@hpart Γ) trivial
  | param i p =>
    rw [show f.returns = .jsValue from hpart]
    exact typed_param h hΓ
  | setterValue attr =>
    rw [show f.returns = .jsValue from hpart]
    exact typed_setterValue h hΓ
  | result type =>
    rw [show f.returns = .jsValue from hpart]
    exact typed_result h
  | argument i p => apply (toTyping h).typed rfl
  | callResult type =>
    rw [show f.returns = cppType type from hpart]
    exact typed_callResult h hΓ

theorem typed_parts {f : Function} {parts : List Part} (hparts : ∀ part ∈ parts, f.Has part)
    (h : emitParts m n parts = some c) (hΓ : Γ ≠ []) :
    Typed f.returns c Γ ↔ ∀ part ∈ parts, part.Fits m := by
  induction parts generalizing c Γ with
  | nil =>
    obtain rfl := some.inj h
    exact iff_of_true trivial fun _ hpart => (not_mem_nil hpart).elim
  | cons part rest ih =>
    obtain ⟨hpart, hrest⟩ := forall_mem_cons.mp hparts
    obtain ⟨code, hcode, h⟩ := bind_eq_some_iff.mp h
    obtain ⟨others, hothers, h⟩ := bind_eq_some_iff.mp h
    obtain rfl := some.inj h
    rw [typed_seq, typed_part hpart hcode hΓ, ih hrest hothers (behind_ne_nil hΓ),
      forall_mem_cons]

theorem has_paramParts {f : Function} (h : f.returns = .jsValue) (i : Nat) (ps : List Param) :
    ∀ part ∈ paramParts i ps, f.Has part := by
  induction ps generalizing i with
  | nil => exact nofun
  | cons p ps ih => exact forall_mem_cons.mpr ⟨h, ih (i + 1)⟩

theorem has_argumentParts {f : Function} (i : Nat) (ps : List Param) :
    ∀ part ∈ argumentParts i ps, f.Has part := by
  induction ps generalizing i with
  | nil => exact nofun
  | cons p ps ih => exact forall_mem_cons.mpr ⟨trivial, ih (i + 1)⟩

theorem typed_implOf {iface : String} : Typed .jsValue (implOf iface) Γ := by
  rw [implOf, typed_all_cons, typed_all_cons, typed_orException]
  exact ⟨trivial, rfl, trivial⟩

theorem typed_checkArgCount {params : List Param} : Typed .jsValue (checkArgCount params) Γ := by
  unfold checkArgCount
  split
  · exact trivial
  · exact typed_orThrow.mpr rfl

theorem typed_frees (xs : List String) :
    Typed R (.all (xs.map fun x => .act (.free x))) Γ := by
  induction xs with
  | nil => exact trivial
  | cons x xs ih => exact typed_all_cons.mpr ⟨typed_free.mpr trivial, ih⟩

theorem has_returnDefault : (returnDefault type).Has Γ (cppType type) := by
  unfold returnDefault
  split
  · rename_i h
    cases type with
    | plain kind b =>
      cases kind with
      | void =>
        cases b with
        | _ => rfl
      | _ => cases h
    | _ => cases h
  · exact rfl

theorem typed_callFunction {decl : CallbackDecl} :
    Typed (cppType decl.returnType) (callFunction decl) Γ := by
  have hfree : ∀ Γ, Typed (cppType decl.returnType) (freeArguments decl.params.length) Γ := by
    intro Γ
    have := typed_frees (R := cppType decl.returnType) (Γ := Γ)
      ((List.range decl.params.length).map argVar)
    rw [List.map_map] at this
    exact this
  rw [callFunction]
  simp only [typed_all_cons, typed_value, typed_either, typed_free, typed_ret, typed_skip,
    typed_all_nil, true_and, and_true]
  exact ⟨hfree _, has_returnDefault⟩

theorem has_parts (f : Function) : ∀ part ∈ f.parts, f.Has part := by
  cases f with
  | method iface method =>
    refine forall_mem_cons.mpr ⟨fun Γ => ?_, ?_⟩
    · exact typed_all_cons.mpr ⟨typed_implOf, typed_all_cons.mpr ⟨typed_checkArgCount, trivial⟩⟩
    · refine forall_mem_append.mpr ⟨has_paramParts rfl 0 _, ?_⟩
      exact forall_mem_singleton.mpr rfl
  | getter iface attr =>
    exact forall_mem_cons.mpr ⟨fun Γ => typed_implOf, forall_mem_singleton.mpr rfl⟩
  | setter iface attr =>
    rw [Function.parts]
    split
    · refine forall_mem_singleton.mpr fun Γ => ?_
      exact typed_all_cons.mpr ⟨typed_implOf, typed_all_cons.mpr ⟨typed_ret.mpr rfl, trivial⟩⟩
    · exact forall_mem_cons.mpr ⟨fun Γ => typed_implOf, forall_mem_singleton.mpr rfl⟩
  | construct iface params =>
    refine forall_mem_cons.mpr ⟨fun Γ => typed_checkArgCount, ?_⟩
    refine forall_mem_append.mpr ⟨has_paramParts rfl 0 _, ?_⟩
    refine forall_mem_singleton.mpr fun Γ => ?_
    exact typed_all_cons.mpr ⟨trivial, typed_all_cons.mpr ⟨typed_orThrow.mpr rfl,
      typed_all_cons.mpr ⟨typed_ret.mpr rfl, trivial⟩⟩⟩
  | call decl =>
    refine forall_mem_append.mpr ⟨has_argumentParts 0 _, ?_⟩
    exact forall_mem_cons.mpr ⟨fun Γ => typed_callFunction, forall_mem_singleton.mpr rfl⟩

/-- `interface Meter { attribute sequence<float> levels; void add(sequence<long?> levels); };` -/
def meterModule : IdlModule where
  interfaces := [⟨"Meter", "", {
    methods := [⟨"add", .plain .void false, [⟨.sequence (.plain .long true) false, "levels",
      false, false⟩]⟩]
    attributes := [⟨.sequence (.plain .float false) false, "levels", false⟩]
    constructorParams := none }⟩]
  enums := []
  dictionaries := []
  callbacks := []

def meterAdd : Function := .method "Meter" ⟨"add", .plain .void false,
  [⟨.sequence (.plain .long true) false, "levels", false, false⟩]⟩

def meterSetLevels : Function :=
  .setter "Meter" ⟨.sequence (.plain .float false) false, "levels", false⟩

theorem agrees_floats : Everywhere (Turns m) (Agrees .jsValue)
    (.sequence (.plain .float false) false) := by
  rw [everywhere_sequence, agrees_sequence]
  refine ⟨⟨nofun, rfl⟩, ?_⟩
  rw [everywhere_leaf fun u hu => hu.elim nofun nofun]
  exact ⟨rfl, ⟨nofun, nofun⟩, fun _ => rfl⟩

end Voodoo.Bruja
