import Voodoo.Lib.Scoped
import Voodoo.Bruja.LocalNames

/-!
# The types in the conversions from JS

The emitted code is read with the scopes of its blocks (`lines`).  `Typed R c Γ`: where the code
moves a variable to a place or passes it the types agree, it reads no expression as an optional
that is not spelled as one, and what it returns has the type `R` of the function.

* `typing`: the code of a conversion declares its variable with the spelled type, and is well typed
  if and only if everything that is converted in turn `Agrees`: a variable is declared for it, a
  `?` is spelled as an optional, the elements of a sequence have none, and a conversion that returns
  stands in a function that returns a `JSValue`.
-/

namespace Voodoo.Bruja

open Command Scoped Relation List Option

/-! ### What is right -/

/-- The variables in scope; one that nothing declares has no type. -/
abbrev Locals := Scopes String (Option CppTy)

/-- A place takes values of the type. -/
def Place.Takes (Γ : Locals) (t : CppTy) : Place → Prop
  | .variable x => lookup Γ x = some (some t)
  | .content x => lookup Γ x = some (some (.optional t))
  | .element x => lookup Γ x = some (some (.vector t))
  | .alternative x => ∃ ts, lookup Γ x = some (some (.variant ts)) ∧ t ∈ ts
  -- as the struct of the dictionary spells the field
  | .member _ field => t = cppType field.type
  | .parameter type => t = type

/-- The type of an expression, if it has one. -/
def Expr.type : Expr → Option CppTy
  | var _ t => some t
  | deref e =>
    match e.type with
    | some (.optional t) => some t
    | _ => none
  | member e field =>
    match e.type with
    | some (.struct _) => some (cppType field.type)
    | _ => none
  | item e =>
    match e.type with
    | some (.vector t) => some t
    | _ => none

/-- What is returned has the type of the function. -/
def Returned.Has (Γ : Locals) (R : CppTy) : Returned → Prop
  | exception | thrown | undefined | binding => R = .jsValue
  | var x | converted x => lookup Γ x = some (some R)
  | default type => R = type
  | nothing => R = .void

/-- The types agree where a variable is moved or passed, where an optional is read, and where a
function that returns `R` is left. -/
def Right (R : CppTy) (Γ : Locals) : Action → Prop
  | .move x place => ∃ t, lookup Γ x = some (some t) ∧ place.Takes Γ t
  | .cast t x => ∃ ts, lookup Γ x = some (some (.variant ts)) ∧ t ∈ ts
  | .unwrap e => ∃ t, e.type = some (.optional t)
  | .ret r => r.Has Γ R
  | _ => True

def Action.line : Action → Line String (Option CppTy) Action
  | declare t x => .declare x (some t)
  | unnamed x => .declare x none
  | take _ x => .declare x (some .jsValue)
  | value x => .declare x (some .jsValue)
  | newPromiseCapability => .declare "promise" (some .jsValue)
  | a => .act a

/-- The code as lines, with the scopes of its blocks. -/
def lines : Code → List (Line String (Option CppTy) Action)
  | .skip => []
  | .act a => [a.line]
  | .leave a => [a.line]
  | .seq c d => lines c ++ lines d
  | .either c d => block (lines c) ++ block (lines d)
  | .loop c => block (lines c)
  | .scope c => block (lines c)

/-- **The code is well typed** in a function that returns `R`. -/
def Typed (R : CppTy) (c : Code) (Γ : Locals) : Prop := Holds (Right R) (lines c) Γ

/-- The variables behind the code. -/
def behind (c : Code) (Γ : Locals) : Locals := after (lines c) Γ

variable {R t : CppTy} {Γ : Locals} {c d : Code} {a : Action} {x y v : String} {p : String → Prop}
variable {frame : List (String × Option CppTy)}

theorem adds_lines (c : Code) : Adds (fun _ => True) (lines c) := by
  induction c with
  | skip => exact Adds.nil
  | act a =>
    cases a with
    | declare | unnamed | take | value | newPromiseCapability => exact Adds.declare trivial Adds.nil
    | _ => exact Adds.act Adds.nil
  | leave a =>
    cases a with
    | declare | unnamed | take | value | newPromiseCapability => exact Adds.declare trivial Adds.nil
    | _ => exact Adds.act Adds.nil
  | seq c d ihc ihd => exact ihc.append ihd
  | either c d ihc ihd => exact (Adds.block ihc).append (Adds.block ihd)
  | loop c ih => exact Adds.block ih
  | scope c ih => exact Adds.block ih

@[simp] theorem typed_skip : Typed R .skip Γ ↔ True := Iff.rfl

@[simp] theorem typed_all_nil : Typed R (.all []) Γ ↔ True := Iff.rfl

theorem typed_seq : Typed R (.seq c d) Γ ↔ Typed R c Γ ∧ Typed R d (behind c Γ) := holds_append

@[simp] theorem typed_all_cons {cs : List Code} :
    Typed R (.all (c :: cs)) Γ ↔ Typed R c Γ ∧ Typed R (.all cs) (behind c Γ) := holds_append

@[simp] theorem typed_scope : Typed R (.scope c) Γ ↔ Typed R c ([] :: Γ) := holds_block

@[simp] theorem typed_loop : Typed R (.loop c) Γ ↔ Typed R c ([] :: Γ) := holds_block

@[simp] theorem typed_either :
    Typed R (.either c d) Γ ↔ Typed R c ([] :: Γ) ∧ Typed R d ([] :: Γ) := by
  unfold Typed
  rw [lines, holds_append, holds_block, holds_block, (adds_lines c).after_block]

@[simp] theorem behind_scope : behind (.scope c) Γ = Γ := (adds_lines c).after_block

@[simp] theorem behind_loop : behind (.loop c) Γ = Γ := (adds_lines c).after_block

@[simp] theorem behind_either : behind (.either c d) Γ = Γ := by
  unfold behind
  rw [lines, after_append, (adds_lines c).after_block, (adds_lines d).after_block]

theorem behind_seq : behind (.seq c d) Γ = behind d (behind c Γ) := after_append

@[simp] theorem behind_all_cons {cs : List Code} :
    behind (.all (c :: cs)) Γ = behind (.all cs) (behind c Γ) := after_append

@[simp] theorem behind_all_nil : behind (.all []) Γ = Γ := rfl

@[simp] theorem behind_skip : behind .skip Γ = Γ := rfl

theorem behind_ne_nil (hΓ : Γ ≠ []) : behind c Γ ≠ [] := (adds_lines c).after_ne_nil hΓ

/-! ### The actions -/

section

variable {call : Acquire} {b : Bool} {place : Place} {e : Expr} {r : Returned} {o : Option String}

theorem typed_act (h : a.line = .act a) : Typed R (.act a) Γ ↔ Right R Γ a := by
  unfold Typed
  rw [lines, h]
  exact and_iff_left trivial

@[simp] theorem typed_declare : Typed R (.act (.declare t x)) Γ ↔ True := Iff.rfl

@[simp] theorem typed_unnamed : Typed R (.act (.unnamed x)) Γ ↔ True := Iff.rfl

@[simp] theorem typed_take : Typed R (.act (.take call x)) Γ ↔ True := Iff.rfl

@[simp] theorem typed_value : Typed R (.act (.value x)) Γ ↔ True := Iff.rfl

@[simp] theorem typed_newPromiseCapability : Typed R (.act .newPromiseCapability) Γ ↔ True := Iff.rfl

@[simp] theorem typed_isException : Typed R (.act (.isException x b)) Γ ↔ True := typed_act rfl

@[simp] theorem typed_assign : Typed R (.act (.assign x o)) Γ ↔ True := typed_act rfl

@[simp] theorem typed_free : Typed R (.act (.free x)) Γ ↔ True := typed_act rfl

@[simp] theorem typed_hand : Typed R (.act (.hand y x)) Γ ↔ True := typed_act rfl

@[simp] theorem typed_setFlag : Typed R (.act (.setFlag x b)) Γ ↔ True := typed_act rfl

@[simp] theorem typed_isSet : Typed R (.act (.isSet x b)) Γ ↔ True := typed_act rfl

@[simp] theorem typed_move : Typed R (.act (.move x place)) Γ ↔
    ∃ t, lookup Γ x = some (some t) ∧ place.Takes Γ t := typed_act rfl

@[simp] theorem typed_cast : Typed R (.act (.cast t x)) Γ ↔
    ∃ ts, lookup Γ x = some (some (.variant ts)) ∧ t ∈ ts := typed_act rfl

@[simp] theorem typed_unwrap : Typed R (.act (.unwrap e)) Γ ↔ ∃ t, e.type = some (.optional t) :=
  typed_act rfl

@[simp] theorem typed_ret : Typed R (.leave (.ret r)) Γ ↔ r.Has Γ R := and_iff_left trivial

@[simp] theorem behind_free : behind (.act (.free x)) Γ = Γ := rfl

@[simp] theorem behind_hand : behind (.act (.hand y x)) Γ = Γ := rfl

@[simp] theorem behind_move : behind (.act (.move x place)) Γ = Γ := rfl

@[simp] theorem behind_cast : behind (.act (.cast t x)) Γ = Γ := rfl

@[simp] theorem behind_unwrap : behind (.act (.unwrap e)) Γ = Γ := rfl

@[simp] theorem behind_setFlag : behind (.act (.setFlag x b)) Γ = Γ := rfl

@[simp] theorem behind_isSet : behind (.act (.isSet x b)) Γ = Γ := rfl

@[simp] theorem behind_isException : behind (.act (.isException x b)) Γ = Γ := rfl

@[simp] theorem behind_assign : behind (.act (.assign x o)) Γ = Γ := rfl

@[simp] theorem behind_ret : behind (.leave (.ret r)) Γ = Γ := rfl

theorem lookup_behind_declare : lookup (behind (.act (.declare t x)) Γ) x = some (some t) :=
  lookup_declare

theorem lookup_behind_declare_of_ne (h : y ≠ x) :
    lookup (behind (.act (.declare t x)) Γ) y = lookup Γ y := lookup_declare_of_ne h

theorem lookup_behind_take_of_ne (h : y ≠ x) :
    lookup (behind (.act (.take call x)) Γ) y = lookup Γ y := lookup_declare_of_ne h

@[simp] theorem typed_orException : Typed R orException Γ ↔ R = .jsValue := by
  rw [orException, typed_either, typed_ret]
  exact and_iff_left trivial

@[simp] theorem typed_orThrow : Typed R orThrow Γ ↔ R = .jsValue := by
  rw [orThrow, typed_either, typed_ret]
  exact and_iff_left trivial

@[simp] theorem behind_orException : behind orException Γ = Γ := behind_either

@[simp] theorem behind_orThrow : behind orThrow Γ = Γ := behind_either

@[simp] theorem typed_ifNotSet : Typed R (ifNotSet x c) Γ ↔ Typed R c ([] :: Γ) := by
  rw [ifNotSet, typed_either, typed_all_cons, typed_all_cons, behind_isSet]
  exact ⟨fun h => h.1.2.1, fun h => ⟨⟨typed_isSet.mpr trivial, h, trivial⟩, typed_isSet.mpr trivial⟩⟩

@[simp] theorem behind_ifNotSet : behind (ifNotSet x c) Γ = Γ := behind_either

end

section

variable {cs : List Code} {b : Bool}

theorem adds_all_cons (hc : Adds p (lines c)) (hcs : Adds p (lines (.all cs))) :
    Adds p (lines (.all (c :: cs))) := hc.append hcs

theorem adds_either : Adds p (lines (.either c d)) :=
  (Adds.block (adds_lines c)).append (Adds.block (adds_lines d))

theorem adds_scope : Adds p (lines (.scope c)) := Adds.block (adds_lines c)

theorem adds_declare (hx : p x) : Adds p (lines (.act (.declare t x))) := Adds.declare hx Adds.nil

theorem adds_act (h : a.line = .act a) : Adds p (lines (.act a)) := by
  rw [lines, h]
  exact Adds.act Adds.nil

end

/-! ### Types that agree -/

/-- A type that no variable is declared for. -/
def TypeSpec.isEmpty : TypeSpec → Bool
  | plain .void _ | promise _ _ | ref .unresolved _ _ => true
  | _ => false

/-- The type of the variable that `EmitValueConversion` declares, if it declares one. -/
def declared (type : TypeSpec) : Option CppTy :=
  if type.isEmpty && !type.nullable then none else some (cppType type)

/-- A nullable type is an interface or is wrapped, and the elements of a sequence are not nullable,
interfaces apart. -/
structure Sound (type : TypeSpec) : Prop where
  wrapped : type.nullable = true → type.isInterface = true ∨ usesOptionalWrapper type = true
  elements : ∀ ⦃element b⦄, type = .sequence element b → element.nullable = true →
    element.isInterface = true

/-- The conversion from JS has a `return` of its own. -/
def Returns : TypeSpec → Prop
  | .plain .void _ | .plain .any _ => False
  | .plain _ _ => True
  | .sequence _ _ => True
  | .promise _ _ => False
  | .union _ _ _ => True
  | .ref .interface _ _ | .ref .enum _ _ => True
  | .ref _ _ _ => False

structure Agrees (R : CppTy) (type : TypeSpec) : Prop where
  declares : type.isEmpty = false
  sound : Sound type
  returns : Returns type → R = .jsValue

/-- `Q` holds of whatever is reached from `t` by `r`. -/
def Everywhere (r : TypeSpec → TypeSpec → Prop) (Q : TypeSpec → Prop) (t : TypeSpec) : Prop :=
  ∀ u, ReflTransGen r t u → Q u

theorem everywhere_iff {r : TypeSpec → TypeSpec → Prop} {Q : TypeSpec → Prop} {t : TypeSpec} :
    Everywhere r Q t ↔ Q t ∧ ∀ u, r t u → Everywhere r Q u := by
  constructor
  · intro h
    exact ⟨h t .refl, fun u hu w hw => h w (.head hu hw)⟩
  · rintro ⟨ht, hstep⟩ u hu
    rcases hu.cases_head with rfl | ⟨w, hw, hwu⟩
    · exact ht
    · exact hstep w hw u hwu

theorem everywhere_leaf {r : TypeSpec → TypeSpec → Prop} {Q : TypeSpec → Prop} {t : TypeSpec}
    (h : ∀ u, ¬ r t u) : Everywhere r Q t ↔ Q t := by
  rw [everywhere_iff]
  exact and_iff_left fun u hu => (h u hu).elim

theorem everywhere_single {r : TypeSpec → TypeSpec → Prop} {Q : TypeSpec → Prop} {t u : TypeSpec}
    (hu : r t u) (h : ∀ w, r t w → w = u) : Everywhere r Q t ↔ Q t ∧ Everywhere r Q u := by
  rw [everywhere_iff]
  refine and_congr_right' ⟨fun hall => hall u hu, fun hone w hw => ?_⟩
  rw [h w hw]
  exact hone

/-! ### The spelling of types -/

section

variable {type element : TypeSpec}

theorem optional_ne_self : CppTy.optional t ≠ t := by
  intro h
  have hsize := congrArg sizeOf h
  rw [CppTy.optional.sizeOf_spec] at hsize
  omega

theorem cppBaseType_nonNull : cppBaseType type.nonNull = cppBaseType type := by
  cases type with
  | plain kind b => rw [TypeSpec.nonNull, cppBaseType, cppBaseType]
  | sequence element b => rw [TypeSpec.nonNull, cppBaseType, cppBaseType]
  | promise element b => rw [TypeSpec.nonNull, cppBaseType, cppBaseType]
  | union first rest b => rw [TypeSpec.nonNull, cppBaseType, cppBaseType]
  | ref kind name b =>
    cases kind with
    | _ => rw [TypeSpec.nonNull, cppBaseType, cppBaseType]

theorem nullable_nonNull : type.nonNull.nullable = false := by
  cases type with
  | _ => rfl

theorem cppType_of_not_nullable (h : type.nullable = false) : cppType type = cppBaseType type := by
  rw [cppType, wrapOptional, h, Bool.false_and]
  exact if_neg Bool.false_ne_true

theorem cppType_nonNull : cppType type.nonNull = cppBaseType type :=
  (cppType_of_not_nullable nullable_nonNull).trans cppBaseType_nonNull

theorem cppType_of_nullable (h : type.nullable = true) : cppType type =
    if usesOptionalWrapper type then .optional (cppBaseType type) else cppBaseType type := by
  rw [cppType, wrapOptional, h, Bool.true_and]

theorem not_usesOptionalWrapper_of_isInterface (h : type.isInterface = true) :
    usesOptionalWrapper type = false := by
  cases type with
  | ref kind name b =>
    cases kind with
    | interface => rfl
    | _ => cases h
  | _ => cases h

theorem cppType_eq_optional_iff (h : type.nullable = true) :
    cppType type = .optional (cppBaseType type) ↔ usesOptionalWrapper type = true := by
  rw [cppType_of_nullable h]
  cases usesOptionalWrapper type with
  | true => exact iff_of_true rfl rfl
  | false => exact iff_of_false (fun he => optional_ne_self he.symm) Bool.false_ne_true

theorem cppBaseType_eq_cppType_iff (h : Sound element) :
    cppBaseType element = cppType element ↔
      (element.nullable = true → element.isInterface = true) := by
  cases hnull : element.nullable with
  | false => exact iff_of_true (cppType_of_not_nullable hnull).symm (by rintro ⟨⟩)
  | true =>
    rw [cppType_of_nullable hnull]
    rcases h.wrapped hnull with hi | hw
    · rw [not_usesOptionalWrapper_of_isInterface hi]
      exact iff_of_true rfl fun _ => hi
    · rw [hw]
      refine iff_of_false (fun he => optional_ne_self he.symm) fun hno => ?_
      rw [not_usesOptionalWrapper_of_isInterface (hno rfl)] at hw
      cases hw

theorem declared_of_not_isEmpty (h : type.isEmpty = false) : declared type = some (cppType type) := by
  rw [declared, h, Bool.false_and]
  exact if_neg Bool.false_ne_true

theorem isEmpty_of_isInterface (h : type.isInterface = true) : type.isEmpty = false := by
  cases type with
  | ref kind name b =>
    cases kind with
    | interface => rfl
    | _ => cases h
  | _ => cases h

theorem isEmpty_of_usesOptionalWrapper (h : usesOptionalWrapper type = true) :
    type.isEmpty = false := by
  cases type with
  | plain kind b =>
    cases kind with
    | void => cases h
    | _ => rfl
  | promise element b => cases h
  | ref kind name b =>
    cases kind with
    | unresolved => cases h
    | _ => rfl
  | _ => rfl

theorem isEmpty_nonNull : type.nonNull.isEmpty = type.isEmpty := by
  cases type with
  | plain kind b =>
    cases kind with
    | _ => rfl
  | ref kind name b =>
    cases kind with
    | _ => rfl
  | _ => rfl

theorem returns_nonNull : Returns type.nonNull ↔ Returns type := by
  cases type with
  | plain kind b =>
    cases kind with
    | _ => rfl
  | ref kind name b =>
    cases kind with
    | _ => rfl
  | _ => rfl

theorem sound_nonNull (hnull : type.nullable = true) (hi : type.isInterface = false) :
    Sound type ↔ Sound type.nonNull ∧ usesOptionalWrapper type = true := by
  constructor
  · intro h
    refine ⟨⟨fun hno => ?_, fun element b he hel => ?_⟩, ?_⟩
    · rw [nullable_nonNull] at hno
      cases hno
    · cases type with
      | sequence element' b' =>
        cases he
        exact h.elements rfl hel
      | _ => cases he
    · refine (h.wrapped hnull).resolve_left fun hyes => ?_
      rw [hi] at hyes
      cases hyes
  · rintro ⟨h, hw⟩
    refine ⟨fun _ => .inr hw, fun element b he hel => ?_⟩
    cases he
    exact h.elements rfl hel

theorem agrees_nonNull (hnull : type.nullable = true) (hi : type.isInterface = false) :
    Agrees R type ↔ Agrees R type.nonNull ∧ usesOptionalWrapper type = true := by
  have hsound := sound_nonNull hnull hi
  constructor
  · intro h
    exact ⟨⟨isEmpty_nonNull.trans h.declares, (hsound.mp h.sound).1,
      fun hr => h.returns (returns_nonNull.mp hr)⟩, (hsound.mp h.sound).2⟩
  · rintro ⟨h, hw⟩
    exact ⟨isEmpty_nonNull.symm.trans h.declares, hsound.mpr ⟨h.sound, hw⟩,
      fun hr => h.returns (returns_nonNull.mpr hr)⟩

end

/-! ### The conversion from JS -/

/-- What is converted from JS in turn. -/
def Turns (m : IdlModule) (t u : TypeSpec) : Prop := Component m t u ∨ Tries t u

/-- What is known of the types in the code that converts a value of the type to `v`. -/
structure Typing (m : IdlModule) (type : TypeSpec) (v : String) (c : Code) : Prop where
  adds : Adds (Below v) (lines c)
  declares : ∀ Γ, lookup (behind c Γ) v = some (declared type)
  typed : declared type ≠ none → ∀ ⦃R Γ⦄, Γ ≠ [] →
    (Typed R c Γ ↔ Everywhere (Turns m) (Agrees R) type)

variable {m : IdlModule} {type element : TypeSpec} {name source : String} {b : Bool} {n : Nat}

theorem Typing.moved (h : Typing m type v c) (place : Place) (hΓ : Γ ≠ []) :
    (Typed R c Γ ∧ ∃ t, lookup (behind c Γ) v = some (some t) ∧ place.Takes (behind c Γ) t) ↔
      Everywhere (Turns m) (Agrees R) type ∧ place.Takes (behind c Γ) (cppType type) := by
  rw [h.declares Γ]
  constructor
  · rintro ⟨hc, t, ht, hplace⟩
    have hsome := some.inj ht
    have hne : declared type ≠ none := by
      rw [hsome]
      exact some_ne_none _
    have hall := (h.typed hne hΓ).mp hc
    rw [declared_of_not_isEmpty (everywhere_iff.mp hall).1.declares] at hsome
    obtain rfl := some.inj hsome
    exact ⟨hall, hplace⟩
  · rintro ⟨hall, hplace⟩
    have hdecl := declared_of_not_isEmpty (everywhere_iff.mp hall).1.declares
    have hne : declared type ≠ none := by
      rw [hdecl]
      exact some_ne_none _
    exact ⟨(h.typed hne hΓ).mpr hall, cppType type, congrArg some hdecl, hplace⟩

theorem typing_leaf (hleaf : ∀ u, ¬ Turns m type u) (hnull : type.nullable = false)
    (hempty : type.isEmpty = false) (hret : Returns type) (hseq : ∀ e b, type ≠ .sequence e b)
    (hadds : Adds (Below v) (lines c)) (hdecl : ∀ Γ, lookup (behind c Γ) v = some (some (cppBaseType type)))
    (htyped : ∀ ⦃R Γ⦄, Typed R c Γ ↔ R = .jsValue) : Typing m type v c where
  adds := hadds
  declares Γ := by
    rw [hdecl Γ, declared_of_not_isEmpty hempty, cppType_of_not_nullable hnull]
  typed _ R Γ _ := by
    rw [htyped, everywhere_leaf hleaf]
    constructor
    · intro hR
      refine ⟨hempty, ⟨fun hno => ?_, fun e b he => (hseq e b he).elim⟩, fun _ => hR⟩
      rw [hnull] at hno
      cases hno
    · exact fun h => h.returns hret

theorem typing_silent (hleaf : ∀ u, ¬ Turns m type u) (hnull : type.nullable = false)
    (hret : ¬ Returns type) (hseq : ∀ e b, type ≠ .sequence e b)
    (hadds : Adds (Below v) (lines c)) (hdecl : ∀ Γ, lookup (behind c Γ) v = some (declared type))
    (htyped : ∀ ⦃R Γ⦄, Typed R c Γ) : Typing m type v c where
  adds := hadds
  declares := hdecl
  typed hne R Γ _ := by
    rw [everywhere_leaf hleaf]
    refine iff_of_true (@htyped R Γ) ⟨?_, ⟨fun hno => ?_, fun e b he => (hseq e b he).elim⟩,
      fun hyes => (hret hyes).elim⟩
    · by_contra hempty
      refine hne ?_
      rw [declared, Bool.not_eq_false] at *
      rw [hempty, hnull]
      rfl
    · rw [hnull] at hno
      cases hno

theorem typing_cast {raw : CppTy} (hleaf : ∀ u, ¬ Turns m type u) (hnull : type.nullable = false)
    (hempty : type.isEmpty = false) (hret : Returns type) (hseq : ∀ e b, type ≠ .sequence e b) :
    Typing m type v (emitCast raw (cppBaseType type) v) :=
  typing_leaf hleaf hnull hempty hret hseq
    (adds_all_cons (adds_declare (below_suffix (w := "raw") (by decide)))
      (adds_all_cons adds_either (adds_all_cons (adds_declare below_self) Adds.nil)))
    (fun _ => lookup_behind_declare) fun R Γ => by
      rw [emitCast, typed_all_cons, typed_all_cons, typed_orException]
      exact ⟨fun h => h.2.1, fun h => ⟨trivial, h, trivial⟩⟩

theorem typing_number (hleaf : ∀ u, ¬ Turns m type u) (hnull : type.nullable = false)
    (hempty : type.isEmpty = false) (hret : Returns type) (hseq : ∀ e b, type ≠ .sequence e b) :
    Typing m type v (emitNumber (cppBaseType type) v) :=
  typing_leaf hleaf hnull hempty hret hseq
    (adds_all_cons (adds_declare below_self) (adds_all_cons adds_either Adds.nil))
    (fun Γ => by
      rw [emitNumber, behind_all_cons, behind_all_cons, behind_orException, behind_all_nil]
      exact lookup_behind_declare) fun R Γ => by
      rw [emitNumber, typed_all_cons, typed_all_cons, typed_orException]
      exact ⟨fun h => h.2.1, fun h => ⟨trivial, h, trivial⟩⟩

theorem adds_emitString : Adds (Below v) (lines (emitString v)) :=
  adds_all_cons (adds_declare (below_suffix (w := "cstr") (by decide)))
    (adds_all_cons adds_either (adds_all_cons (adds_declare below_self) Adds.nil))

theorem typed_emitString : Typed R (emitString v) Γ ↔ R = .jsValue := by
  rw [emitString, typed_all_cons, typed_all_cons, typed_orException]
  exact ⟨fun h => h.2.1, fun h => ⟨trivial, h, trivial⟩⟩

theorem typing_plain {kind : PlainKind} :
    Typing m (.plain kind false) v (emitPlainConversion kind v) := by
  have hleaf : ∀ u, ¬ Turns m (.plain kind false) u := by
    rintro u (h | h)
    · cases h
    · cases h
  have hseq : ∀ e b, (TypeSpec.plain kind false) ≠ .sequence e b := nofun
  cases kind with
  | void =>
    exact typing_silent hleaf rfl id hseq (Adds.declare below_self Adds.nil)
      (fun _ => lookup_declare) fun _ _ => trivial
  | any =>
    exact typing_silent hleaf rfl id hseq (Adds.declare below_self Adds.nil)
      (fun _ => lookup_declare) fun _ _ => trivial
  | unsignedLong => exact typing_number hleaf rfl rfl trivial hseq
  | longLong => exact typing_number hleaf rfl rfl trivial hseq
  | domString =>
    exact typing_leaf hleaf rfl rfl trivial hseq adds_emitString
      (fun _ => lookup_behind_declare) fun _ _ => typed_emitString
  | usvString =>
    exact typing_leaf hleaf rfl rfl trivial hseq adds_emitString
      (fun _ => lookup_behind_declare) fun _ _ => typed_emitString
  | _ => exact typing_cast hleaf rfl rfl trivial hseq

theorem typing_enum : Typing m (.ref .enum name false) v (.all [emitString v, orThrow]) := by
  have hleaf : ∀ u, ¬ Turns m (.ref .enum name false) u := by
    rintro u (h | h)
    · cases h
    · cases h
  refine typing_leaf hleaf rfl rfl trivial nofun
    (adds_all_cons adds_emitString (adds_all_cons adds_either Adds.nil)) (fun Γ => ?_) fun R Γ => ?_
  · rw [behind_all_cons, behind_all_cons, behind_orThrow, behind_all_nil]
    exact lookup_behind_declare
  · rw [typed_all_cons, typed_all_cons, typed_emitString, typed_orThrow]
    exact ⟨fun h => h.1, fun h => ⟨h, h, trivial⟩⟩

theorem typing_callback :
    Typing m (.ref .callback name false) v (.act (.declare (.callback name) v)) := by
  have hleaf : ∀ u, ¬ Turns m (.ref .callback name false) u := by
    rintro u (h | h)
    · cases h
    · cases h
  exact typing_silent hleaf rfl id nofun (adds_declare below_self)
    (fun _ => lookup_behind_declare) fun _ _ => trivial

theorem typing_probe : Typing m (.ref .interface name b) v (emitInterfaceProbe name v) where
  adds := adds_all_cons (adds_declare below_self) (adds_all_cons adds_either Adds.nil)
  declares Γ := by
    rw [emitInterfaceProbe, behind_all_cons, behind_all_cons, behind_either, behind_all_nil,
      lookup_behind_declare, declared_of_not_isEmpty rfl, cppType, wrapOptional]
    cases b with
    | _ => rfl
  typed _ R Γ _ := by
    have hleaf : ∀ u, ¬ Turns m (.ref .interface name b) u := by
      rintro u (h | h)
      · cases h
      · cases h
    rw [everywhere_leaf hleaf, emitInterfaceProbe, typed_all_cons, typed_all_cons, typed_either,
      typed_all_cons, typed_all_cons, typed_orThrow]
    constructor
    · intro h
      exact ⟨rfl, ⟨fun _ => .inl rfl, nofun⟩, fun _ => h.2.1.1.2.1⟩
    · intro h
      exact ⟨trivial, ⟨⟨trivial, h.returns trivial, trivial⟩, trivial⟩, trivial⟩

theorem ne_append {s : String} (h : 0 < s.length) : v ≠ v ++ s := by
  intro he
  have hlen := congrArg String.length he
  rw [String.length_append] at hlen
  omega

theorem everywhere_sequence : Everywhere (Turns m) (Agrees R) (.sequence element false) ↔
    Agrees R (.sequence element false) ∧ Everywhere (Turns m) (Agrees R) element := by
  refine everywhere_single (.inl .element) ?_
  rintro w (h | h)
  · cases h
    rfl
  · cases h

theorem agrees_sequence : Agrees R (.sequence element false) ↔
    (element.nullable = true → element.isInterface = true) ∧ R = .jsValue := by
  constructor
  · exact fun h => ⟨fun hnull => h.sound.elements rfl hnull, h.returns trivial⟩
  · rintro ⟨hel, hR⟩
    refine ⟨rfl, ⟨nofun, fun e b he hnull => ?_⟩, fun _ => hR⟩
    cases he
    exact hel hnull

theorem typed_element (h : Typing m element (v ++ "_elem") c) (hΓ : Γ ≠ [])
    (hv : lookup Γ v = some (some (.vector (cppBaseType element)))) :
    Typed R (elementFromJs v source c) Γ ↔ Everywhere (Turns m) (Agrees R) element ∧
      (element.nullable = true → element.isInterface = true) := by
  have hv' : lookup (behind c (behind (.act (.take (.getPropertyUint32 source (v ++ "_i"))
      (v ++ "_elem_js"))) Γ)) v = some (some (.vector (cppBaseType element))) := by
    have hout : ¬ Below (v ++ "_elem") v :=
      not_below_of_suffix (w := "elem") (by decide)
    have hjs : v ≠ v ++ "_elem_js" := ne_append (by decide)
    unfold behind at *
    rw [h.adds.lookup_after ((adds_lines _).after_ne_nil hΓ) hout]
    exact (lookup_behind_take_of_ne hjs).trans hv
  rw [elementFromJs, typed_all_cons, typed_all_cons, typed_all_cons, typed_all_cons, behind_free,
    typed_free, typed_move, typed_take, true_and, true_and]
  have hmoved := h.moved (R := R) (.element v) (behind_ne_nil (c := .act (.take
    (.getPropertyUint32 source (v ++ "_i")) (v ++ "_elem_js"))) hΓ)
  rw [typed_all_nil, and_true, hmoved]
  refine and_congr_right fun hall => ?_
  rw [Place.Takes, hv', some_inj, some_inj, CppTy.vector.injEq]
  exact cppBaseType_eq_cppType_iff (everywhere_iff.mp hall).1.sound

theorem typing_sequence (h : Typing m element (v ++ "_elem") c) :
    Typing m (.sequence element false) v (sequenceFromJs element v source c) where
  adds := adds_all_cons (adds_declare below_self) (adds_all_cons adds_scope Adds.nil)
  declares Γ := by
    rw [sequenceFromJs, behind_all_cons, behind_all_cons, behind_scope, behind_all_nil,
      lookup_behind_declare, declared_of_not_isEmpty rfl, cppType_of_not_nullable rfl, cppBaseType]
  typed _ R Γ hΓ := by
    have hne : ∀ s : String, 0 < s.length → v ≠ v ++ s := fun s hs => ne_append hs
    have hlook : lookup ([] :: behind (.act (.declare .int64 (v ++ "_i"))) (behind (.act
        (.take (.getPropertyStr source "length") (v ++ "_len_val"))) (behind (.act (.declare .int64
          (v ++ "_len"))) ([] :: behind (.act (.declare (.vector (cppBaseType element)) v)) Γ)))) v =
        some (some (.vector (cppBaseType element))) := by
      rw [lookup_cons_nil, lookup_behind_declare_of_ne (hne _ (by decide)),
        lookup_behind_take_of_ne (hne _ (by decide)),
        lookup_behind_declare_of_ne (hne _ (by decide)), lookup_cons_nil, lookup_behind_declare]
    rw [everywhere_sequence, agrees_sequence, sequenceFromJs]
    simp only [typed_all_cons, typed_declare, typed_scope, typed_take, typed_either, typed_free,
      typed_ret, typed_skip, typed_loop, typed_all_nil, behind_free, behind_either, true_and,
      and_true, Returned.Has]
    rw [typed_element h (cons_ne_nil _ _) hlook]
    exact ⟨fun hall => ⟨⟨hall.2.2, hall.1⟩, hall.2.1⟩, fun hall => ⟨hall.1.2, hall.2, hall.1.1⟩⟩

/-! ### Dictionaries -/

theorem typed_field {field : DictField} (h : Typing m field.type (fieldVal v field) c) :
    Typed R (fieldFromJs v source field c) Γ ↔ Everywhere (Turns m) (Agrees R) field.type := by
  rw [fieldFromJs, typed_all_cons, typed_all_cons, typed_all_cons, typed_either, typed_all_cons,
    typed_all_cons, typed_free, typed_take, typed_move, typed_skip, typed_all_nil, typed_all_nil,
    and_true, and_true, and_true, and_true, true_and]
  rw [h.moved (R := R) (.member v field) (cons_ne_nil _ _)]
  exact and_iff_left rfl

section

variable {conv : TypeSpec → String → String → Option Code}
variable (hconv : ∀ ⦃type v source c⦄, conv type v source = some c → Typing m type v c)

include hconv in
theorem typed_fields {fields : List DictField} (h : emitFieldsFromJs conv v source fields = some c) :
    Typed R c Γ ↔ ∀ field ∈ fields, Everywhere (Turns m) (Agrees R) field.type := by
  induction fields generalizing c Γ with
  | nil =>
    obtain rfl := some.inj h
    exact iff_of_true trivial fun _ hf => (not_mem_nil hf).elim
  | cons field rest ih =>
    rw [emitFieldsFromJs, bind_eq_bind, bind_eq_some_iff] at h
    obtain ⟨value, hvalue, h⟩ := h
    rw [bind_eq_some_iff] at h
    obtain ⟨others, hothers, h⟩ := h
    obtain rfl := some.inj h
    rw [typed_seq, typed_field (hconv hvalue), ih hothers, forall_mem_cons]

end

theorem everywhere_dictionary {fields : List DictField}
    (hf : m.collectEffectiveFields name = some fields) :
    Everywhere (Turns m) (Agrees R) (.ref .dictionary name false) ↔
      ∀ field ∈ fields, Everywhere (Turns m) (Agrees R) field.type := by
  rw [everywhere_iff]
  constructor
  · intro h field hfield
    exact h.2 field.type (.inl (.field hf hfield))
  · intro h
    refine ⟨⟨rfl, ⟨nofun, nofun⟩, nofun⟩, ?_⟩
    rintro u (hu | hu)
    · cases hu with
      | field hfields hfield =>
        obtain rfl := some.inj (hf.symm.trans hfields)
        exact h _ hfield
    · cases hu

theorem typing_dictionary {fields : List DictField}
    (hf : m.collectEffectiveFields name = some fields)
    (h : ∀ ⦃R Γ⦄, Typed R c Γ ↔ ∀ field ∈ fields, Everywhere (Turns m) (Agrees R) field.type) :
    Typing m (.ref .dictionary name false) v (.all [.act (.declare (.struct name) v), .scope c]) where
  adds := adds_all_cons (adds_declare below_self) (adds_all_cons adds_scope Adds.nil)
  declares Γ := by
    rw [behind_all_cons, behind_all_cons, behind_scope, behind_all_nil, lookup_behind_declare,
      declared_of_not_isEmpty rfl, cppType_of_not_nullable rfl, cppBaseType]
  typed _ R Γ _ := by
    rw [everywhere_dictionary hf, typed_all_cons, typed_all_cons, typed_declare, typed_scope, h,
      typed_all_nil, true_and, and_true]

/-! ### Unions -/

theorem cppTypes_eq_map (members : List TypeSpec) : cppTypes members = members.map cppType := by
  induction members with
  | nil => rfl
  | cons t rest ih => rw [cppTypes, ih, map_cons, cppType]

theorem cppBaseType_union {first : TypeSpec} {rest : List TypeSpec} :
    cppBaseType (.union first rest b) = .variant ((first :: rest).map cppType) := by
  rw [cppBaseType, cppTypes_eq_map, map_cons, cppType]

theorem cppType_interface : cppType (.ref .interface name b) = .pointer name := by
  rw [cppType, wrapOptional]
  cases b with
  | _ => rfl

theorem typed_interfaceMember {ts : List CppTy} (hv : lookup Γ v = some (some (.variant ts)))
    (hmem : CppTy.pointer name ∈ ts) : Typed R (interfaceMember v name) Γ := by
  have hlook : lookup ([] :: behind (.act (.declare .opaquePointer (v ++ "_opaque"))) ([] :: Γ)) v =
      some (some (.variant ts)) := by
    rw [lookup_cons_nil, lookup_behind_declare_of_ne (ne_append (by decide)), lookup_cons_nil, hv]
  rw [interfaceMember, typed_ifNotSet]
  simp only [typed_all_cons, typed_declare, typed_either, typed_cast, typed_setFlag, typed_skip,
    typed_all_nil, true_and, and_true]
  exact ⟨ts, hlook, hmem⟩

theorem typed_members {ts : List CppTy} (members : List TypeSpec)
    (hv : lookup Γ v = some (some (.variant ts))) (hts : ∀ t ∈ members, cppType t ∈ ts) :
    Typed R (emitInterfaceMembers v members) Γ ∧ behind (emitInterfaceMembers v members) Γ = Γ := by
  refine emitInterfaceMembers_ind (P := fun members c => (∀ t ∈ members, cppType t ∈ ts) →
    Typed R c Γ ∧ behind c Γ = Γ) (fun _ => ⟨trivial, rfl⟩) ?_ ?_ members hts
  · intro name b rest c ih hts
    have hall := forall_mem_cons.mp hts
    obtain ⟨hrest, hbehind⟩ := ih hall.2
    have hmem := hall.1
    rw [cppType_interface] at hmem
    rw [typed_seq, behind_seq, interfaceMember, behind_ifNotSet, hbehind]
    exact ⟨⟨typed_interfaceMember hv hmem, hrest⟩, rfl⟩
  · exact fun _ _ _ ih hts => ih (forall_mem_cons.mp hts).2

section

variable {first fallback : TypeSpec} {rest : List TypeSpec}

theorem agrees_union : Agrees R (.union first rest false) ↔ R = .jsValue :=
  ⟨fun h => h.returns trivial, fun hR => ⟨rfl, ⟨nofun, nofun⟩, fun _ => hR⟩⟩

theorem typed_members_union (hv : lookup Γ v = some (some (cppBaseType (.union first rest b)))) :
    Typed R (emitInterfaceMembers v (first :: rest)) Γ ∧
      behind (emitInterfaceMembers v (first :: rest)) Γ = Γ := by
  rw [cppBaseType_union] at hv
  exact typed_members (first :: rest) hv fun t ht => List.mem_map_of_mem ht

theorem typing_union (h : ∀ ⦃R Γ⦄, Γ ≠ [] →
    lookup Γ v = some (some (cppBaseType (.union first rest false))) → (Typed R c Γ ↔
      ∀ u, Tries (.union first rest false) u → Everywhere (Turns m) (Agrees R) u)) :
    Typing m (.union first rest false) v
      (unionFromJs (.union first rest false) (first :: rest) v c) where
  adds := adds_all_cons (adds_declare below_self) (adds_all_cons adds_scope Adds.nil)
  declares Γ := by
    rw [unionFromJs, behind_all_cons, behind_all_cons, behind_scope, behind_all_nil,
      lookup_behind_declare, declared_of_not_isEmpty rfl, cppType_of_not_nullable rfl]
  typed _ R Γ hΓ := by
    have hlook : lookup ([] :: behind (.act (.declare (cppBaseType (.union first rest false)) v)) Γ) v =
        some (some (cppBaseType (.union first rest false))) := by
      rw [lookup_cons_nil, lookup_behind_declare]
    obtain ⟨hmembers, hbehind⟩ := typed_members_union (R := R) hlook
    have hall : Everywhere (Turns m) (Agrees R) (.union first rest false) ↔ R = .jsValue ∧
        ∀ u, Tries (.union first rest false) u → Everywhere (Turns m) (Agrees R) u := by
      rw [everywhere_iff, agrees_union]
      refine and_congr_right' ⟨fun hu u ht => hu u (.inr ht), fun hu u ht => ?_⟩
      rcases ht with ht | ht
      · cases ht
      · exact hu u ht
    rw [hall, unionFromJs]
    simp only [typed_all_cons, typed_declare, typed_scope, typed_setFlag, typed_ifNotSet, typed_ret,
      typed_all_nil, behind_setFlag, true_and, and_true, Returned.Has]
    rw [hbehind, h (cons_ne_nil _ _) hlook]
    exact ⟨fun hu => ⟨hu.2.2, hu.2.1⟩, fun hu => ⟨hmembers, hu.2, hu.1⟩⟩

theorem typing_union_none (hnone : unionFallback (first :: rest) = none) :
    Typing m (.union first rest false) v
      (unionFromJs (.union first rest false) (first :: rest) v .skip) := by
  refine typing_union fun R Γ _ _ => iff_of_true trivial ?_
  rintro u ⟨hu⟩
  cases hnone.symm.trans hu

theorem typing_union_some (hsome : unionFallback (first :: rest) = some fallback)
    (h : Typing m fallback (v ++ "_fallback") c) :
    Typing m (.union first rest false) v
      (unionFromJs (.union first rest false) (first :: rest) v (fallbackFromJs v c)) := by
  refine typing_union fun R Γ hΓ hv => ?_
  have hout : ¬ Below (v ++ "_fallback") v :=
    not_below_of_suffix (w := "fallback") (by decide)
  have hv' : lookup (behind c ([] :: Γ)) v = some (some (.variant ((first :: rest).map cppType))) := by
    unfold behind
    rw [h.adds.lookup_after (cons_ne_nil _ _) hout, lookup_cons_nil, hv, cppBaseType_union]
  have hmem : cppType fallback ∈ (first :: rest).map cppType :=
    List.mem_map_of_mem (mem_of_find?_eq_some hsome)
  have hall : (∀ u, Tries (.union first rest false) u → Everywhere (Turns m) (Agrees R) u) ↔
      Everywhere (Turns m) (Agrees R) fallback := by
    refine ⟨fun hu => hu _ (.fallback hsome), ?_⟩
    rintro hone u ⟨hu⟩
    rw [some.inj (hu.symm.trans hsome)]
    exact hone
  rw [hall, fallbackFromJs, typed_ifNotSet, typed_all_cons, typed_all_cons, typed_all_cons,
    typed_move, typed_setFlag, typed_all_nil, and_true, and_true,
    h.moved (R := R) (.alternative v) (cons_ne_nil _ _)]
  exact and_iff_left ⟨_, hv', hmem⟩

end

/-! ### Nullable types -/

theorem turns_nonNull {t u : TypeSpec} : Turns m t.nonNull u ↔ Turns m t u :=
  or_congr component_nonNull tries_nonNull

theorem everywhere_nullable (hnull : type.nullable = true) (hi : type.isInterface = false) :
    Everywhere (Turns m) (Agrees R) type ↔
      Everywhere (Turns m) (Agrees R) type.nonNull ∧ usesOptionalWrapper type = true := by
  have hparts : (∀ u, Turns m type u → Everywhere (Turns m) (Agrees R) u) ↔
      ∀ u, Turns m type.nonNull u → Everywhere (Turns m) (Agrees R) u :=
    forall_congr' fun u => imp_congr_left turns_nonNull.symm
  rw [everywhere_iff, everywhere_iff, agrees_nonNull hnull hi, hparts]
  exact and_right_comm

theorem typing_nullable (hnull : type.nullable = true) (hi : type.isInterface = false)
    (h : Typing m type.nonNull (v ++ "_present") c) : Typing m type v (nullableFromJs type v c) where
  adds := adds_all_cons (adds_declare below_self) (adds_all_cons adds_either Adds.nil)
  declares Γ := by
    rw [nullableFromJs, behind_all_cons, behind_all_cons, behind_either, behind_all_nil,
      lookup_behind_declare, declared, hnull, Bool.not_true, Bool.and_false]
    rfl
  typed _ R Γ hΓ := by
    have hout : ¬ Below (v ++ "_present") v :=
      not_below_of_suffix (w := "present") (by decide)
    have hv : lookup (behind c ([] :: behind (.act (.declare (cppType type) v)) Γ)) v =
        some (some (cppType type)) := by
      unfold behind
      rw [h.adds.lookup_after (cons_ne_nil _ _) hout, lookup_cons_nil]
      exact lookup_behind_declare
    rw [everywhere_nullable hnull hi, nullableFromJs, typed_all_cons, typed_all_cons, typed_declare,
      typed_either, typed_all_cons, typed_all_cons, typed_move, typed_skip, typed_all_nil,
      typed_all_nil, true_and, and_true, and_true, and_true,
      h.moved (R := R) (.content v) (cons_ne_nil _ _), Place.Takes, hv, some_inj,
      some_inj, cppType_nonNull, cppType_eq_optional_iff hnull]

section

variable {conv : TypeSpec → String → String → Option Code}
variable (hconv : ∀ ⦃type v source c⦄, conv type v source = some c → Typing m type v c)

include hconv in
theorem typing_base (hnull : type.nullable = false) (hi : type.isInterface = false)
    (h : emitBaseValueConversion conv m type v source = some c) : Typing m type v c := by
  have hunnamed : ∀ {t : TypeSpec}, (∀ u, ¬ Turns m t u) → t.nullable = false → ¬ Returns t →
      (∀ e b, t ≠ .sequence e b) → declared t = none → Typing m t v (.act (.unnamed v)) := by
    intro t hleaf hnull hret hseq hdecl
    refine typing_silent hleaf hnull hret hseq (Adds.declare below_self Adds.nil) (fun _ => ?_)
      fun _ _ => trivial
    rw [hdecl]
    exact lookup_declare
  have hnone : ∀ {t : TypeSpec}, (∀ u, ¬ Component m t u) → (∀ u, ¬ Tries t u) →
      ∀ u, ¬ Turns m t u := fun hc ht u hu => hu.elim (hc u) (ht u)
  cases type with
  | plain kind b =>
    obtain rfl := some.inj h
    obtain rfl := hnull
    exact typing_plain
  | sequence element b =>
    obtain rfl := hnull
    obtain ⟨value, hvalue, h⟩ := bind_eq_some_iff.mp h
    obtain rfl := some.inj h
    exact typing_sequence (hconv hvalue)
  | promise element b =>
    obtain rfl := hnull
    obtain rfl := some.inj h
    exact hunnamed (hnone nofun nofun) rfl id nofun rfl
  | union first rest b =>
    obtain rfl := hnull
    obtain ⟨fallback, hfallback, h⟩ := bind_eq_some_iff.mp h
    obtain rfl := some.inj h
    cases hf : unionFallback (first :: rest) with
    | none =>
      rw [hf] at hfallback
      obtain rfl := some.inj hfallback
      exact typing_union_none hf
    | some t =>
      rw [hf] at hfallback
      obtain ⟨value, hvalue, hfallback⟩ := bind_eq_some_iff.mp hfallback
      obtain rfl := some.inj hfallback
      exact typing_union_some hf (hconv hvalue)
  | ref kind name b =>
    obtain rfl := hnull
    cases kind with
    | interface => cases hi
    | enum =>
      obtain ⟨_, -, h⟩ := bind_eq_some_iff.mp h
      obtain rfl := some.inj h
      exact typing_enum
    | dictionary =>
      obtain ⟨fields, hfields, h⟩ := bind_eq_some_iff.mp h
      obtain ⟨body, hbody, h⟩ := bind_eq_some_iff.mp h
      obtain rfl := some.inj h
      exact typing_dictionary hfields fun _ _ => typed_fields hconv hbody
    | callback =>
      obtain rfl := some.inj h
      exact typing_callback
    | unresolved =>
      obtain rfl := some.inj h
      exact hunnamed (hnone nofun nofun) rfl id nofun rfl

end

/-- **The types in the conversions from JS.** -/
theorem typing (h : emitValueConversion m n type v source = some c) : Typing m type v c := by
  induction n generalizing type v source c with
  | zero => cases h
  | succ n ih =>
    have hconv : ∀ ⦃type v source c⦄, emitValueConversion m n type v source = some c →
        Typing m type v c := fun _ _ _ _ => ih
    by_cases hi : type.isInterface = true
    · cases type with
      | ref kind name b =>
        cases kind with
        | interface =>
          obtain rfl := some.inj h
          exact typing_probe
        | _ => cases hi
      | _ => cases hi
    · have hi' : type.isInterface = false := Bool.eq_false_iff.mpr hi
      rw [emitValueConversion_succ hi'] at h
      by_cases hnull : type.nullable = true
      · rw [if_pos hnull] at h
        obtain ⟨value, hvalue, h⟩ := bind_eq_some_iff.mp h
        obtain rfl := some.inj h
        exact typing_nullable hnull hi'
          (typing_base hconv nullable_nonNull (isInterface_nonNull.trans hi') hvalue)
      · rw [if_neg hnull] at h
        exact typing_base hconv (Bool.eq_false_iff.mpr hnull) hi' h

end Voodoo.Bruja
