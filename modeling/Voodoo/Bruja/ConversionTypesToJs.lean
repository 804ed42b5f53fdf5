import Voodoo.Bruja.ConversionTypes

/-!
# The types in the conversions to JS

* `toTyping`: where the expression is spelled with its type, the code is well typed if and only if
  everything that is converted in turn is `Sound`.
* `ToTyping.typed_base`: where it is spelled without the `?`, as the elements of a sequence and the
  result of a method that returns a `Promise` are, the type may have one only if it is an
  interface.
-/

namespace Voodoo.Bruja

open Command Scoped Relation Option

variable {R t : CppTy} {Γ : Locals} {c : Code} {v : String} {e : Expr}
variable {m : IdlModule} {type element : TypeSpec} {name : String} {b : Bool} {n : Nat}

theorem cppBaseType_ne_optional : ∀ {type : TypeSpec} {t : CppTy}, cppBaseType type ≠ .optional t
  | .plain kind _, t => by
    rw [cppBaseType]
    cases kind with
    | _ => rintro ⟨⟩
  | .sequence _ _, t => by
    rw [cppBaseType]
    rintro ⟨⟩
  | .promise element _, t => by
    rw [cppBaseType]
    exact cppBaseType_ne_optional
  | .union _ _ _, t => by
    rw [cppBaseType]
    rintro ⟨⟩
  | .ref kind _ _, t => by
    cases kind with
    | _ =>
      rw [cppBaseType]
      rintro ⟨⟩

/-- What is known of the types in the code that converts `e` to the `JSValue` `v`. -/
structure ToTyping (m : IdlModule) (type : TypeSpec) (v : String) (e : Expr) (c : Code) : Prop where
  adds : Adds (Below v) (lines c)
  declares : type.isEmpty = false → ∀ Γ, lookup (behind c Γ) v = some (some .jsValue)
  undeclared : type.isEmpty = true → type.nullable = false →
    ∀ Γ, lookup (behind c Γ) v = some none
  unwraps : type.nullable = true → type.isInterface = false → ∀ ⦃R Γ⦄, Typed R c Γ →
    ∃ t, e.type = some (.optional t)
  typed : e.type = some (cppType type) → ∀ ⦃R Γ⦄,
    Typed R c Γ ↔ Everywhere (Component m) Sound type

/-- An expression that is spelled without the `?` of its type. -/
theorem ToTyping.typed_base (h : ToTyping m type v e c) (he : e.type = some (cppBaseType type)) :
    Typed R c Γ ↔ (type.nullable = true → type.isInterface = true) ∧
      Everywhere (Component m) Sound type := by
  by_cases hbare : type.nullable = true ∧ type.isInterface = false
  · refine iff_of_false (fun hc => ?_) fun hall => ?_
    · obtain ⟨t, ht⟩ := h.unwraps hbare.1 hbare.2 hc
      rw [he] at ht
      exact cppBaseType_ne_optional (some.inj ht)
    · cases (hall.1 hbare.1).symm.trans hbare.2
  · have hno : type.nullable = true → type.isInterface = true := by
      intro hnull
      by_contra hi
      exact hbare ⟨hnull, Bool.eq_false_iff.mpr hi⟩
    have hspelled : cppType type = cppBaseType type := by
      cases hnull : type.nullable with
      | false => exact cppType_of_not_nullable hnull
      | true =>
        rw [cppType_of_nullable hnull, not_usesOptionalWrapper_of_isInterface (hno hnull)]
        exact if_neg Bool.false_ne_true
    rw [h.typed (he.trans (congrArg some hspelled.symm))]
    exact (and_iff_right hno).symm

/-- What a value is made of is converted well, and the elements of a sequence have no `?`. -/
def Inside (m : IdlModule) (type : TypeSpec) : Prop :=
  (∀ ⦃element b⦄, type = .sequence element b → element.nullable = true →
    element.isInterface = true) ∧
  ∀ u, Component m type u → Everywhere (Component m) Sound u

theorem everywhere_sound_iff : Everywhere (Component m) Sound type ↔
    (type.nullable = true → type.isInterface = true ∨ usesOptionalWrapper type = true) ∧
      Inside m type := by
  rw [everywhere_iff]
  constructor
  · exact fun h => ⟨h.1.wrapped, h.1.elements, h.2⟩
  · exact fun h => ⟨⟨h.1, h.2.1⟩, h.2.2⟩

theorem inside_leaf (hseq : ∀ e b, type ≠ .sequence e b) (hleaf : ∀ u, ¬ Component m type u) :
    Inside m type :=
  ⟨fun e b he => (hseq e b he).elim, fun u hu => (hleaf u hu).elim⟩

/-- The same for `EmitBaseToJs`, where the `?` has been dealt with. -/
structure BaseTyping (m : IdlModule) (type : TypeSpec) (v : String) (e : Expr) (c : Code) : Prop where
  adds : Adds (Below v) (lines c)
  declares : type.isEmpty = false → ∀ Γ, lookup (behind c Γ) v = some (some .jsValue)
  undeclared : type.isEmpty = true → ∀ Γ, lookup (behind c Γ) v = some none
  typed : e.type = some (cppBaseType type) → ∀ ⦃R Γ⦄, Typed R c Γ ↔ Inside m type

theorem baseTyping_value (hempty : type.isEmpty = false) (hin : Inside m type) :
    BaseTyping m type v e (.act (.value v)) where
  adds := Adds.declare below_self Adds.nil
  declares _ _ := lookup_declare
  undeclared hyes := by
    rw [hempty] at hyes
    cases hyes
  typed _ _ _ := iff_of_true trivial hin

theorem baseTyping_unnamed (hempty : type.isEmpty = true) (hin : Inside m type) :
    BaseTyping m type v e (.act (.unnamed v)) where
  adds := Adds.declare below_self Adds.nil
  declares hno := by
    rw [hempty] at hno
    cases hno
  undeclared _ _ := lookup_declare
  typed _ _ _ := iff_of_true trivial hin

theorem baseTyping_sequence (h : ToTyping m element (v ++ "_elem_js") (.item e) c) :
    BaseTyping m (.sequence element b) v e (sequenceToJs v c) where
  adds := adds_all_cons (Adds.declare below_self Adds.nil) (adds_all_cons adds_scope Adds.nil)
  declares _ Γ := by
    rw [sequenceToJs, behind_all_cons, behind_all_cons, behind_scope, behind_all_nil]
    exact lookup_declare
  undeclared hno := by cases hno
  typed he R Γ := by
    have hitem : (Expr.item e).type = some (cppBaseType element) := by
      rw [Expr.type, he, cppBaseType]
    have hin : Inside m (.sequence element b) ↔ (element.nullable = true →
        element.isInterface = true) ∧ Everywhere (Component m) Sound element := by
      constructor
      · exact fun h => ⟨h.1 rfl, h.2 element .element⟩
      · rintro ⟨hel, hall⟩
        refine ⟨fun e' b' he' => ?_, fun u hu => ?_⟩
        · cases he'
          exact hel
        · cases hu
          exact hall
    rw [hin, sequenceToJs]
    simp only [typed_all_cons, typed_take, typed_scope, typed_declare, typed_loop, typed_hand,
      typed_all_nil, true_and, and_true]
    exact h.typed_base hitem

section

variable {toJs : TypeSpec → String → Expr → Option Code}
variable (htoJs : ∀ ⦃type v e c⦄, toJs type v e = some c → ToTyping m type v e c)

theorem fieldJs_eq (field : DictField) : fieldJs v field = v ++ "_" ++ (field.name ++ "_js") := by
  rw [fieldJs, String.append_assoc]

theorem length_field_js (field : DictField) : 3 ≤ (field.name ++ "_js").length := by
  rw [String.length_append]
  exact Nat.le_add_left 3 _

theorem below_of_fieldJs {x : String} (field : DictField) (h : Below (fieldJs v field) x) :
    Below v x := by
  rw [fieldJs_eq] at h
  exact h.of_child (length_field_js field)

theorem not_below_fieldJs_self (field : DictField) : ¬ Below (fieldJs v field) v := by
  rw [fieldJs_eq]
  exact not_below_child (length_field_js field)

include htoJs in
theorem adds_fieldsToJs {fields : List DictField} (h : emitFieldsToJs toJs v e fields = some c) :
    Adds (fun x => Below v x ∧ x ≠ v) (lines c) := by
  induction fields generalizing c with
  | nil =>
    obtain rfl := some.inj h
    exact Adds.nil
  | cons field rest ih =>
    rw [emitFieldsToJs, bind_eq_bind, bind_eq_some_iff] at h
    obtain ⟨value, hvalue, h⟩ := h
    rw [bind_eq_some_iff] at h
    obtain ⟨others, hothers, h⟩ := h
    obtain rfl := some.inj h
    refine Adds.append (adds_all_cons ((htoJs hvalue).adds.mono fun x hx => ?_)
      (adds_all_cons (adds_act rfl) Adds.nil)) (ih hothers)
    refine ⟨below_of_fieldJs field hx, ?_⟩
    rintro rfl
    exact not_below_fieldJs_self field hx

include htoJs in
theorem typed_fieldsToJs {fields : List DictField} (h : emitFieldsToJs toJs v e fields = some c)
    (he : e.type = some (.struct name)) :
    Typed R c Γ ↔ ∀ field ∈ fields, Everywhere (Component m) Sound field.type := by
  induction fields generalizing c Γ with
  | nil =>
    obtain rfl := some.inj h
    exact iff_of_true trivial fun _ hf => (List.not_mem_nil hf).elim
  | cons field rest ih =>
    rw [emitFieldsToJs, bind_eq_bind, bind_eq_some_iff] at h
    obtain ⟨value, hvalue, h⟩ := h
    rw [bind_eq_some_iff] at h
    obtain ⟨others, hothers, h⟩ := h
    obtain rfl := some.inj h
    have htype : (Expr.member e field).type = some (cppType field.type) := by
      rw [Expr.type, he]
    rw [typed_seq, fieldToJs, typed_all_cons, typed_all_cons, typed_hand, typed_all_nil, true_and,
      and_true, (htoJs hvalue).typed htype, ih hothers, List.forall_mem_cons]

theorem inside_dictionary {fields : List DictField}
    (hf : m.collectEffectiveFields name = some fields) : Inside m (.ref .dictionary name b) ↔
      ∀ field ∈ fields, Everywhere (Component m) Sound field.type := by
  constructor
  · exact fun h field hfield => h.2 field.type (.field hf hfield)
  · intro h
    refine ⟨nofun, fun u hu => ?_⟩
    cases hu with
    | field hfields hfield =>
      obtain rfl := some.inj (hf.symm.trans hfields)
      exact h _ hfield

include htoJs in
theorem baseTyping_dictionary {fields : List DictField}
    (hf : m.collectEffectiveFields name = some fields)
    (h : emitFieldsToJs toJs v e fields = some c) :
    BaseTyping m (.ref .dictionary name b) v e (.all [.act (.take .newObject v), c]) where
  adds := adds_all_cons (Adds.declare below_self Adds.nil)
    (adds_all_cons ((adds_fieldsToJs htoJs h).mono fun _ hx => hx.1) Adds.nil)
  declares _ Γ := by
    rw [behind_all_cons, behind_all_cons, behind_all_nil]
    exact ((adds_fieldsToJs htoJs h).lookup_after after_declare_ne_nil fun hx => hx.2 rfl).trans
      lookup_declare
  undeclared hno := by cases hno
  typed he R Γ := by
    rw [cppBaseType] at he
    rw [typed_all_cons, typed_all_cons, typed_take, typed_all_nil, true_and, and_true,
      typed_fieldsToJs htoJs h he, inside_dictionary hf]

include htoJs in
theorem baseTyping (hi : type.isInterface = false) (h : emitBaseToJs toJs m type v e = some c) :
    BaseTyping m type v e c := by
  cases type with
  | plain kind b =>
    have hin : Inside m (.plain kind b) := inside_leaf nofun nofun
    cases kind with
    | void =>
      obtain rfl := some.inj h
      exact baseTyping_unnamed rfl hin
    | _ =>
      obtain rfl := some.inj h
      exact baseTyping_value rfl hin
  | sequence element b =>
    obtain ⟨value, hvalue, h⟩ := bind_eq_some_iff.mp h
    obtain rfl := some.inj h
    exact baseTyping_sequence (htoJs hvalue)
  | promise element b =>
    obtain rfl := some.inj h
    exact baseTyping_unnamed rfl (inside_leaf nofun nofun)
  | union first rest b =>
    obtain rfl := some.inj h
    exact baseTyping_value rfl (inside_leaf nofun nofun)
  | ref kind name b =>
    cases kind with
    | interface => cases hi
    | dictionary =>
      obtain ⟨fields, hfields, h⟩ := bind_eq_some_iff.mp h
      obtain ⟨body, hbody, h⟩ := bind_eq_some_iff.mp h
      obtain rfl := some.inj h
      exact baseTyping_dictionary htoJs hfields hbody
    | unresolved =>
      obtain rfl := some.inj h
      exact baseTyping_unnamed rfl (inside_leaf nofun nofun)
    | _ =>
      obtain rfl := some.inj h
      exact baseTyping_value rfl (inside_leaf nofun nofun)

end

theorem BaseTyping.toTyping (h : BaseTyping m type v e c) (hnull : type.nullable = false) :
    ToTyping m type v e c where
  adds := h.adds
  declares := h.declares
  undeclared hempty _ := h.undeclared hempty
  unwraps hyes := by
    rw [hnull] at hyes
    cases hyes
  typed he R Γ := by
    rw [cppType_of_not_nullable hnull] at he
    rw [everywhere_sound_iff, h.typed he]
    refine (and_iff_right fun hyes => ?_).symm
    rw [hnull] at hyes
    cases hyes

theorem toTyping_nullable (hnull : type.nullable = true) (hi : type.isInterface = false)
    (h : BaseTyping m type (v ++ "_present") (.deref e) c) :
    ToTyping m type v e (nullableToJs v e c) where
  adds := adds_all_cons (Adds.declare below_self Adds.nil)
    (adds_all_cons (adds_act rfl) (adds_all_cons adds_either Adds.nil))
  declares _ Γ := by
    rw [nullableToJs, behind_all_cons, behind_all_cons, behind_all_cons, behind_either,
      behind_unwrap, behind_all_nil]
    exact lookup_declare
  undeclared _ hno := by
    rw [hnull] at hno
    cases hno
  unwraps _ _ R Γ hc := by
    rw [nullableToJs, typed_all_cons, typed_all_cons, typed_unwrap] at hc
    exact hc.2.1
  typed he R Γ := by
    rw [nullableToJs, typed_all_cons, typed_all_cons, typed_all_cons, typed_unwrap, typed_either,
      typed_all_cons, typed_all_cons, he, everywhere_sound_iff]
    simp only [typed_value, typed_assign, typed_all_nil, true_and, and_true]
    cases hw : usesOptionalWrapper type with
    | true =>
      have hspelled := (cppType_eq_optional_iff hnull).mpr hw
      have hderef : (Expr.deref e).type = some (cppBaseType type) := by
        rw [Expr.type, he, hspelled]
      rw [h.typed hderef]
      exact ⟨fun hc => ⟨fun _ => .inr rfl, hc.2⟩, fun hall => ⟨⟨_, congrArg some hspelled⟩, hall.2⟩⟩
    | false =>
      refine iff_of_false (fun hc => ?_) fun hall => ?_
      · obtain ⟨⟨t, ht⟩, -⟩ := hc
        rw [cppType_of_nullable hnull, hw] at ht
        exact cppBaseType_ne_optional (some.inj ht)
      · rcases hall.1 hnull with hyes | hyes
        · rw [hi] at hyes
          cases hyes
        · cases hyes

theorem toTyping_interface :
    ToTyping m (.ref .interface name b) v e (.act (.value v)) where
  adds := Adds.declare below_self Adds.nil
  declares _ _ := lookup_declare
  undeclared hno := by cases hno
  unwraps _ hno := by cases hno
  typed _ R Γ := by
    rw [everywhere_leaf nofun]
    exact iff_of_true trivial ⟨fun _ => .inl rfl, nofun⟩

/-- **The types in the conversions to JS.** -/
theorem toTyping (h : emitToJs m n type v e = some c) : ToTyping m type v e c := by
  induction n generalizing type v e c with
  | zero => cases h
  | succ n ih =>
    have htoJs : ∀ ⦃type v e c⦄, emitToJs m n type v e = some c → ToTyping m type v e c :=
      fun _ _ _ _ => ih
    by_cases hi : type.isInterface = true
    · cases type with
      | ref kind name b =>
        cases kind with
        | interface =>
          obtain rfl := some.inj h
          exact toTyping_interface
        | _ => cases hi
      | _ => cases hi
    · have hi' : type.isInterface = false := Bool.eq_false_iff.mpr hi
      rw [emitToJs_succ hi'] at h
      by_cases hnull : type.nullable = true
      · rw [if_pos hnull] at h
        obtain ⟨value, hvalue, h⟩ := bind_eq_some_iff.mp h
        obtain rfl := some.inj h
        exact toTyping_nullable hnull hi' (baseTyping htoJs hi' hvalue)
      · rw [if_neg hnull] at h
        exact (baseTyping htoJs hi' h).toTyping (Bool.eq_false_iff.mpr hnull)

end Voodoo.Bruja
