import Voodoo.Bruja.ReferencesFromJs

/-!
# The references of the functions of the header

Every value that a function owns is to be given up exactly once before it returns.  The conversions
to JS always do (`production`), and so do the returns (`triple_return`); the conversions from JS do
where nothing fails inside a sequence or a dictionary.

* `references_balanced_iff`: exactly then every run of a function gives up what it takes;
* `not_references_balanced`: a method that takes a sequence of strings keeps the element that is no
  string.
-/

namespace Voodoo.Bruja

open Command Ledger Relation List Option

variable {m : IdlModule} {type : TypeSpec} {v : String} {xs ys : List String}
variable {c d : Code} {s t : State} {n : Nat} {Q X : State → Prop}

/-! ### The conversion to JS -/

/-- What holds of the code that converts a C++ value to the `JSValue` `v`: no way out of the
function, and `v` is owed for behind it. -/
structure Production (v : String) (c : Code) : Prop where
  writes : Writes v c
  triple : ∀ ⦃xs⦄, (∀ x ∈ xs, ¬ Below v x) → ∀ X,
    Triple Action.step (Owing xs) c (Owing (v :: xs)) X
  behind : ∀ s, ∃ t, Run Action.step c s false t

theorem not_mem_of_not_below (hxs : ∀ x ∈ xs, ¬ Below v x) : v ∉ xs :=
  fun hmem => hxs v hmem below_self

theorem production_value : Production v (.act (.value v)) where
  writes := writes_single rfl below_self
  triple _ hxs _ := triple_value (not_mem_of_not_below hxs)
  behind _ := ⟨_, .act rfl⟩

theorem production_unnamed : Production v (.act (.unnamed v)) where
  writes := writes_single rfl below_self
  triple _ hxs _ := triple_unnamed (not_mem_of_not_below hxs)
  behind _ := ⟨_, .act rfl⟩

theorem not_below_suffix_self {w : String} (hw : 3 ≤ w.length) (hxs : ∀ x ∈ xs, ¬ Below v x) :
    ∀ x ∈ v :: xs, ¬ Below (v ++ ("_" ++ w)) x :=
  forall_mem_cons.mpr ⟨not_below_of_suffix hw, not_below_suffix hw hxs⟩

theorem production_sequence (h : Production (v ++ "_elem_js") c) :
    Production v (sequenceToJs v c) where
  writes := by
    have hc : Writes v c := Writes.of_suffix (w := "elem_js") (by decide) h.writes
    exact ⟨writes_single rfl below_self, ⟨writes_nil rfl, ⟨hc, writes_nil rfl, trivial⟩, trivial⟩, trivial⟩
  triple xs hxs X := by
    have helem := h.triple (not_below_suffix_self (w := "elem_js") (by decide) hxs) X
    exact .all_cons (triple_take (not_mem_of_not_below hxs) _) (.all_single (.scope (.all_cons
      (triple_quiet_act trivial) (.all_single (.loop (.all_cons helem (.all_single triple_hand)))))))
  behind s := ⟨_, .seq (.act rfl) (.seq (.scope (.seq (.act rfl) (.seq .done .skip))) .skip)⟩

theorem production_nullable {e : Expr} (h : Production (v ++ "_present") c) :
    Production v (nullableToJs v e c) where
  writes := by
    have hc : Writes v c := Writes.of_suffix (w := "present") (by decide) h.writes
    exact ⟨writes_single rfl below_self, writes_nil rfl,
      ⟨writes_single rfl below_self, hc, writes_single rfl below_self, trivial⟩, trivial⟩
  triple xs hxs X := by
    have hv := not_mem_of_not_below hxs
    have hpresent := h.triple (not_below_suffix (w := "present") (by decide) hxs) X
    have hstart : Triple Action.step (Owing xs) (.act (.value v)) (Owing xs) X := .act fun s t hs ht => by
      obtain rfl := ht
      exact Owes.put hs hv
    refine .all_cons hstart (.all_cons (triple_quiet_act trivial) (.all_single (.either
      (.act ?_) (.all_cons hpresent (.all_single (.act ?_))))))
    · intro s t hs ht
      obtain rfl := ht
      exact Owes.plain hs hv
    · intro s t hs ht
      obtain rfl := ht
      exact Owes.copy hs hv
  behind s := ⟨_, .seq (.act rfl) (.seq (.act rfl) (.seq (.fst (.act rfl)) .skip))⟩

section

variable {toJs : TypeSpec → String → Expr → Option Code} {e : Expr}
variable (hprod : ∀ ⦃type v e c⦄, toJs type v e = some c → Production v c)

theorem not_below_fieldJs (field : DictField) (hxs : ∀ x ∈ xs, ¬ Below v x) :
    ∀ x ∈ v :: xs, ¬ Below (fieldJs v field) x := by
  unfold fieldJs
  rw [String.append_assoc, String.append_assoc]
  refine not_below_suffix_self ?_ hxs
  rw [String.length_append]
  exact Nat.le_add_left 3 _

theorem writes_of_fieldJs (field : DictField) (h : Writes (fieldJs v field) c) : Writes v c := by
  unfold fieldJs at h
  rw [String.append_assoc, String.append_assoc] at h
  refine Writes.of_suffix ?_ h
  rw [String.length_append]
  exact Nat.le_add_left 3 _

include hprod in
theorem fieldProductions {fields : List DictField} (h : emitFieldsToJs toJs v e fields = some c) :
    Writes v c ∧ (∀ ⦃xs⦄, (∀ x ∈ xs, ¬ Below v x) → ∀ X,
      Triple Action.step (Owing (v :: xs)) c (Owing (v :: xs)) X) ∧
    ∀ s, ∃ t, Run Action.step c s false t := by
  induction fields generalizing c with
  | nil =>
    obtain rfl := some.inj h
    exact ⟨trivial, fun _ _ _ => .skip, fun s => ⟨s, .skip⟩⟩
  | cons field rest ih =>
    rw [emitFieldsToJs, bind_eq_bind, bind_eq_some_iff] at h
    obtain ⟨value, hvalue, h⟩ := h
    rw [bind_eq_some_iff] at h
    obtain ⟨others, hothers, h⟩ := h
    obtain rfl := some.inj h
    have hfield := hprod hvalue
    obtain ⟨hwrites, htriple, hbehind⟩ := ih hothers
    refine ⟨?_, ?_, ?_⟩
    · exact ⟨⟨writes_of_fieldJs field hfield.writes, writes_nil rfl, trivial⟩, hwrites⟩
    · intro xs hxs X
      exact .seq (.all_cons (hfield.triple (not_below_fieldJs field hxs) X) (.all_single triple_hand))
        (htriple hxs X)
    · intro s
      obtain ⟨t, ht⟩ := hfield.behind s
      obtain ⟨u, hu⟩ := hbehind { t with book := t.book.give (fieldJs v field) }
      exact ⟨u, .seq (.seq ht (.seq (.act rfl) .skip)) hu⟩

include hprod in
theorem production_base (h : emitBaseToJs toJs m type v e = some c) : Production v c := by
  cases type with
  | plain kind b =>
    cases kind with
    | void =>
      obtain rfl := some.inj h
      exact production_unnamed
    | _ =>
      obtain rfl := some.inj h
      exact production_value
  | sequence element b =>
    obtain ⟨value, hvalue, h⟩ := bind_eq_some_iff.mp h
    obtain rfl := some.inj h
    exact production_sequence (hprod hvalue)
  | promise element b =>
    obtain rfl := some.inj h
    exact production_unnamed
  | union first rest b =>
    obtain rfl := some.inj h
    exact production_value
  | ref kind name b =>
    cases kind with
    | dictionary =>
      obtain ⟨fields, -, h⟩ := bind_eq_some_iff.mp h
      obtain ⟨body, hbody, h⟩ := bind_eq_some_iff.mp h
      obtain rfl := some.inj h
      obtain ⟨hwrites, htriple, hbehind⟩ := fieldProductions hprod hbody
      refine ⟨⟨writes_single rfl below_self, hwrites, trivial⟩, ?_, ?_⟩
      · intro xs hxs X
        exact .all_cons (triple_take (not_mem_of_not_below hxs) _) (.all_single (htriple hxs X))
      · intro s
        obtain ⟨t, ht⟩ := hbehind { s with book := s.book.take v }
        exact ⟨t, .seq (.act rfl) (.seq ht .skip)⟩
    | enum | callback =>
      obtain rfl := some.inj h
      exact production_value
    | interface | unresolved =>
      obtain rfl := some.inj h
      exact production_unnamed

end

/-- **The conversions to JS.** -/
theorem production {e : Expr} (h : emitToJs m n type v e = some c) : Production v c := by
  induction n generalizing type v e c with
  | zero => cases h
  | succ n ih =>
    have hprod : ∀ ⦃type v e c⦄, emitToJs m n type v e = some c → Production v c :=
      fun _ _ _ _ => ih
    by_cases hi : type.isInterface = true
    · cases type with
      | ref kind name b =>
        cases kind with
        | interface =>
          obtain rfl := some.inj h
          exact production_value
        | _ => cases hi
      | _ => cases hi
    · rw [emitToJs_succ (Bool.eq_false_iff.mpr hi)] at h
      by_cases hnull : type.nullable = true
      · rw [if_pos hnull] at h
        obtain ⟨value, hvalue, h⟩ := bind_eq_some_iff.mp h
        obtain rfl := some.inj h
        exact production_nullable (production_base hprod hvalue)
      · rw [if_neg hnull] at h
        exact production_base hprod h

/-! ### Returns -/

theorem triple_newPromiseCapability :
    Triple Action.step (Owing []) (.act .newPromiseCapability)
      (fun s => s.book.value "promise" = none ∧ Owing ["promise"] s ∨
        s.book.value "promise" ≠ none ∧
          Owing ["resolving_funcs[0]", "resolving_funcs[1]", "promise"] s) X := by
  refine .act fun s t hs ht => ?_
  rcases ht with rfl | rfl
  · exact .inl ⟨Book.value_put_self, Owes.plain hs not_mem_nil⟩
  · right
    constructor
    · have hvalue : (((s.book.take "promise").take "resolving_funcs[0]").take
          "resolving_funcs[1]").value "promise" = some s.book.taken := by
        rw [Book.value_take_of_ne (by decide), Book.value_take_of_ne (by decide),
          Book.value_take_self]
      rw [hvalue]
      exact some_ne_none _
    · have hp := Owes.take (x := "promise") hs not_mem_nil
      have hf := Owes.take (x := "resolving_funcs[0]") hp (by decide)
      have hg := Owes.take (x := "resolving_funcs[1]") hf (by decide)
      exact hg.perm (List.Perm.swap _ _ _)

theorem triple_promise {resolve : Code} (hresolve :
    Triple Action.step (Owing ["resolving_funcs[0]", "resolving_funcs[1]", "promise"]) resolve
      (Owing ["resolve_result", "resolving_funcs[0]", "resolving_funcs[1]", "promise"]) (Owing [])) :
    Triple Action.step (Owing []) (promiseReturn resolve) Q (Owing []) := by
  refine .all_cons triple_newPromiseCapability (.all_cons (J := Owing ["resolving_funcs[0]",
    "resolving_funcs[1]", "promise"]) (.either ?_ (.act ?_)) (.all_cons hresolve ?_))
  · refine .all_cons (J := Owing ["promise"]) (.act ?_) (.all_single (.leave ?_))
    · rintro s t hs ⟨rfl, hnone⟩
      rcases hs with ⟨-, hs⟩ | ⟨hsome, -⟩
      · exact hs
      · exact (hsome (isNone_iff_eq_none.mp hnone)).elim
    · intro s t hs ht
      obtain rfl := ht
      exact Owes.give hs
  · rintro s t hs ⟨rfl, hsome⟩
    rcases hs with ⟨hnone, -⟩ | ⟨-, hs⟩
    · rw [hnone] at hsome
      cases hsome
    · exact hs
  · refine .all_cons triple_free (.all_cons triple_free (.all_cons triple_free (.all_single
      (.leave ?_))))
    intro s t hs ht
    obtain rfl := ht
    exact Owes.give hs

theorem triple_resolve {e : Expr} (h : emitResolve m n type e = some c) :
    Triple Action.step (Owing ["resolving_funcs[0]", "resolving_funcs[1]", "promise"]) c
      (Owing ["resolve_result", "resolving_funcs[0]", "resolving_funcs[1]", "promise"]) X := by
  unfold emitResolve at h
  by_cases hvoid : type.isVoid = true
  · rw [if_pos hvoid] at h
    obtain rfl := some.inj h
    exact triple_value (by decide)
  · rw [if_neg hvoid] at h
    obtain ⟨value, hvalue, h⟩ := bind_eq_some_iff.mp h
    obtain rfl := some.inj h
    have hout : ∀ x ∈ ["resolving_funcs[0]", "resolving_funcs[1]", "promise"],
        ¬ Below "js_result" x := by
      have hstart : ∀ x ∈ ["resolving_funcs[0]", "resolving_funcs[1]", "promise"],
          ¬ "js_result".toList <+: x.toList := by decide
      exact fun x hx => not_below_of_not_start (hstart x hx)
    refine .all_cons ((production hvalue).triple hout X) (.all_cons (triple_value (by decide))
      (.all_single (.act ?_)))
    intro s t hs ht
    obtain rfl := ht
    exact Owes.give (Owes.perm hs (List.Perm.swap _ _ _))

theorem triple_return {e : Expr} (h : emitReturnConversion m n type e = some c) :
    Triple Action.step (Owing []) c Q (Owing []) := by
  have hplain : ∀ ⦃d⦄, (do
      let value ← emitToJs m n type "js_result" e
      some (.all [value, .leave (.ret (.var "js_result"))])) = some d →
      Triple Action.step (Owing []) d Q (Owing []) := by
    intro d hd
    obtain ⟨value, hvalue, hd⟩ := bind_eq_some_iff.mp hd
    obtain rfl := some.inj hd
    have htriple := (production hvalue).triple (fun _ hx => (not_mem_nil hx).elim) (Owing [])
    refine .all_cons htriple (.all_single (.leave ?_))
    intro s t hs ht
    obtain rfl := ht
    exact Owes.give hs
  cases type with
  | plain kind b =>
    cases kind with
    | void =>
      obtain rfl := some.inj h
      refine .leave fun s t hs ht => ?_
      obtain rfl := ht
      exact hs
    | _ => exact hplain h
  | promise element b =>
    obtain ⟨resolve, hresolve, h⟩ := bind_eq_some_iff.mp h
    obtain rfl := some.inj h
    exact triple_promise (triple_resolve hresolve)
  | _ => exact hplain h

/-! ### The parts of a function -/

/-- The type of a part that is converted from JS. -/
def Part.converted : Part → Option TypeSpec
  | param _ p => some p.type
  | setterValue attr => some attr.type
  | callResult type => some type
  | _ => none

/-- The conversion of a parameter. -/
structure ParamConversion (m : IdlModule) (type : TypeSpec) (c : Code) : Prop where
  triple : Triple Action.step (Owing []) c (Owing []) (LeftBy m type [])
  behind : ∀ s, ∃ t, Run Action.step c s false t
  leak : ¬ Releases m type → ∀ ⦃s⦄, Owing [] s →
    ∃ t, Run Action.step c s true t ∧ ¬ t.book.Settled

theorem Conversion.param (h : Conversion m type v c) : ParamConversion m type c where
  triple := h.triple fun _ hx => (not_mem_nil hx).elim
  behind := h.behind
  leak hno _ hs := h.leak hno (fun _ hx => (not_mem_nil hx).elim) hs

theorem ParamConversion.moved {place : Place} (h : ParamConversion m type c) :
    ParamConversion m type (.all [c, .act (.move v place)]) where
  triple := .all_cons h.triple (.all_single (triple_quiet_act trivial))
  behind s := by
    obtain ⟨t, ht⟩ := h.behind s
    exact ⟨t, .seq ht (.seq (.act rfl) .skip)⟩
  leak hno s hs := by
    obtain ⟨t, ht, hleak⟩ := h.leak hno hs
    exact ⟨t, .seqLeft ht, hleak⟩

theorem paramConversion_variadic {p : Param} (h : ParamConversion m type c) :
    ParamConversion m type (variadicFromJs p c) where
  triple := .all_cons (triple_quiet_act trivial) (.all_single (.loop h.moved.triple))
  behind s := ⟨s, .seq (.act rfl) (.seq .done .skip)⟩
  leak hno s hs := by
    obtain ⟨t, ht, hleak⟩ := h.leak hno hs
    exact ⟨t, .seq (.act rfl) (.seqLeft (.turnLeft (.seqLeft ht))), hleak⟩

theorem paramConversion_optional {p : Param} (h : ParamConversion m type c) :
    ParamConversion m type (optionalFromJs p c) where
  triple := .all_cons (triple_quiet_act trivial) (.all_single (.either h.moved.triple .skip))
  behind s := ⟨s, .seq (.act rfl) (.seq (.snd .skip) .skip)⟩
  leak hno s hs := by
    obtain ⟨t, ht, hleak⟩ := h.leak hno hs
    exact ⟨t, .seq (.act rfl) (.seqLeft (.fst (.seqLeft ht))), hleak⟩

theorem paramConversion {i : Nat} {p : Param} (h : emitParamConversion m n i p = some c) :
    ParamConversion m p.type c := by
  unfold emitParamConversion at h
  by_cases hv : p.variadic = true
  · rw [if_pos hv] at h
    obtain ⟨value, hvalue, h⟩ := bind_eq_some_iff.mp h
    obtain rfl := some.inj h
    exact paramConversion_variadic (conversion hvalue).param
  · rw [if_neg hv] at h
    by_cases ho : p.optional = true
    · rw [if_pos ho] at h
      obtain ⟨value, hvalue, h⟩ := bind_eq_some_iff.mp h
      obtain rfl := some.inj h
      exact paramConversion_optional (conversion hvalue).param
    · rw [if_neg ho] at h
      exact (conversion h).param

theorem paramConversion_part {i : Nat} {p : Param} (h : (Part.param i p).emit m n = some c) :
    ParamConversion m p.type c := by
  obtain ⟨value, hvalue, h⟩ := bind_eq_some_iff.mp h
  obtain rfl := some.inj h
  exact (paramConversion hvalue).moved

/-- Every run of the parts from where `xs` is owed gives up all that was taken. -/
def Balanced (m : IdlModule) (n : Nat) (xs : List String) (parts : List Part) : Prop :=
  ∀ ⦃c⦄, emitParts m n parts = some c → Triple Action.step (Owing xs) c (Owing []) (Owing [])

/-- Some run of the parts does not. -/
def Leaks (m : IdlModule) (n : Nat) (xs : List String) (parts : List Part) : Prop :=
  ∀ ⦃c⦄, emitParts m n parts = some c → ∀ ⦃s⦄, Owing xs s →
    ∃ b t, Run Action.step c s b t ∧ ¬ t.book.Settled

theorem emitParts_cons {part : Part} {rest : List Part} (h : emitParts m n (part :: rest) = some c) :
    ∃ d e, part.emit m n = some d ∧ emitParts m n rest = some e ∧ c = .seq d e := by
  obtain ⟨d, hd, h⟩ := bind_eq_some_iff.mp h
  obtain ⟨e, he, h⟩ := bind_eq_some_iff.mp h
  exact ⟨d, e, hd, he, (some.inj h).symm⟩

theorem balanced_cons {part : Part} {rest : List Part}
    (hpart : ∀ ⦃c⦄, part.emit m n = some c →
      Triple Action.step (Owing xs) c (Owing ys) (Owing []))
    (hrest : Balanced m n ys rest) : Balanced m n xs (part :: rest) := by
  intro c h
  obtain ⟨d, e, hd, he, rfl⟩ := emitParts_cons h
  exact .seq (hpart hd) (hrest he)

theorem balanced_single {part : Part} (hpart : ∀ ⦃c⦄, part.emit m n = some c →
    Triple Action.step (Owing xs) c (Owing []) (Owing [])) : Balanced m n xs [part] :=
  balanced_cons hpart fun _ h => by
    obtain rfl := some.inj h
    exact .skip

theorem leaks_here {part : Part} {rest : List Part}
    (hpart : ∀ ⦃c⦄, part.emit m n = some c → ∀ ⦃s⦄, Owing xs s →
      ∃ t, Run Action.step c s true t ∧ ¬ t.book.Settled) : Leaks m n xs (part :: rest) := by
  intro c h s hs
  obtain ⟨d, e, hd, he, rfl⟩ := emitParts_cons h
  obtain ⟨t, ht, hleak⟩ := hpart hd hs
  exact ⟨true, t, .seqLeft ht, hleak⟩

theorem leaks_there {part : Part} {rest : List Part}
    (hpart : ∀ ⦃c⦄, part.emit m n = some c → ∀ ⦃s⦄, Owing xs s →
      ∃ t, Run Action.step c s false t ∧ Owing ys t) (hrest : Leaks m n ys rest) :
    Leaks m n xs (part :: rest) := by
  intro c h s hs
  obtain ⟨d, e, hd, he, rfl⟩ := emitParts_cons h
  obtain ⟨t, ht, htys⟩ := hpart hd hs
  obtain ⟨b, u, hu, hleak⟩ := hrest he htys
  exact ⟨b, u, .seq ht hu, hleak⟩

section

variable {tail : List Part} {ps : List Param}

theorem balanced_params (hps : ∀ p ∈ ps, Releases m p.type) (htail : Balanced m n [] tail) (i : Nat) :
    Balanced m n [] (paramParts i ps ++ tail) := by
  induction ps generalizing i with
  | nil => exact htail
  | cons p ps ih =>
    have hp := forall_mem_cons.mp hps
    refine balanced_cons (fun c hc => ?_) (ih hp.2 (i + 1))
    exact (paramConversion_part hc).triple.mono (fun _ hs => hs) (fun _ hs => hs)
      fun _ hs => hs.releases hp.1

theorem leaks_params (hps : ∃ p ∈ ps, ¬ Releases m p.type) (i : Nat) :
    Leaks m n [] (paramParts i ps ++ tail) := by
  induction ps generalizing i with
  | nil =>
    obtain ⟨_, hmem, -⟩ := hps
    exact (not_mem_nil hmem).elim
  | cons p ps ih =>
    by_cases hp : Releases m p.type
    · have hps' : ∃ q ∈ ps, ¬ Releases m q.type := by
        obtain ⟨q, hq, hno⟩ := hps
        exact ⟨q, (mem_cons.mp hq).resolve_left fun he => hno (he ▸ hp), hno⟩
      refine leaks_there (fun c hc s hs => ?_) (ih hps' (i + 1))
      have hparam := paramConversion_part hc
      obtain ⟨t, ht⟩ := hparam.behind s
      exact ⟨t, ht, hparam.triple.behind hs ht⟩
    · exact leaks_here fun c hc s hs => (paramConversion_part hc).leak hp hs

end

/-! ### Calls of callbacks -/

/-- The arguments before the one of number `i`. -/
def argVars (i : Nat) : List String := (List.range i).map argVar

theorem not_below_argVars {i : Nat} : ∀ x ∈ argVars i, ¬ Below (argVar i) x := by
  intro x hx
  obtain ⟨j, hj, rfl⟩ := List.mem_map.mp hx
  exact not_below_argVar (Nat.ne_of_gt (mem_range.mp hj))

theorem owing_argVars_succ {i : Nat} (h : Owing (argVar i :: argVars i) s) :
    Owing (argVars (i + 1)) s := by
  unfold argVars at *
  rw [range_succ, map_append]
  exact Owes.perm h (perm_append_singleton _ _).symm

section

variable {tail : List Part} {ps : List Param}

theorem balanced_arguments {i : Nat} (htail : Balanced m n (argVars (i + ps.length)) tail) :
    Balanced m n (argVars i) (argumentParts i ps ++ tail) := by
  induction ps generalizing i with
  | nil => exact htail
  | cons p ps ih =>
    have hlen : i + 1 + ps.length = i + (p :: ps).length := by
      rw [length_cons]
      omega
    refine balanced_cons (fun c hc => ?_) (ih (hlen ▸ htail))
    exact ((production hc).triple not_below_argVars _).mono (fun _ hs => hs)
      (fun _ => owing_argVars_succ) fun _ hs => hs

theorem leaks_arguments {i : Nat} (htail : Leaks m n (argVars (i + ps.length)) tail) :
    Leaks m n (argVars i) (argumentParts i ps ++ tail) := by
  induction ps generalizing i with
  | nil => exact htail
  | cons p ps ih =>
    have hlen : i + 1 + ps.length = i + (p :: ps).length := by
      rw [length_cons]
      omega
    refine leaks_there (fun c hc s hs => ?_) (ih (hlen ▸ htail))
    have hprod := production hc
    obtain ⟨t, ht⟩ := hprod.behind s
    exact ⟨t, ht, owing_argVars_succ ((hprod.triple not_below_argVars fun _ => True).behind hs ht)⟩

end

/-- Nothing is owed; the result of a call is not among the values that are followed. -/
def Idle (s : State) : Prop := Owing [] s ∧ s.book.value "call_result" = none

theorem Idle.free (h : Idle s) (ht : (Action.free "call_result").step s t) : Idle t := by
  obtain rfl := ht
  have hgive : s.book.give "call_result" = s.book := by
    unfold Book.give
    rw [h.2]
  unfold Idle Owing
  rw [hgive]
  exact h

theorem triple_freeArguments (is : List Nat) :
    Triple Action.step
      (fun s => Owing (is.map argVar) s ∧ s.book.value "call_result" = none)
      (.all (is.map fun i => .act (.free (argVar i)))) Idle X := by
  induction is with
  | nil => exact .skip
  | cons i is ih =>
    refine .all_cons (.act ?_) ih
    rintro s t ⟨hs, hvalue⟩ ht
    obtain rfl := ht
    exact ⟨Owes.give hs, (congrFun Book.value_give _).trans hvalue⟩

theorem run_freeArguments (is : List Nat) (s : State) :
    ∃ t, Run Action.step (.all (is.map fun i => .act (.free (argVar i)))) s false t := by
  induction is generalizing s with
  | nil => exact ⟨s, .skip⟩
  | cons i is ih =>
    obtain ⟨t, ht⟩ := ih { s with book := s.book.give (argVar i) }
    exact ⟨t, .seq (.act rfl) ht⟩

theorem call_result_not_mem {i : Nat} : "call_result" ∉ argVars i := by
  intro hmem
  obtain ⟨j, -, hj⟩ := List.mem_map.mp hmem
  have hno : ¬ "js_arg".toList <+: "call_result".toList := by decide
  rw [← hj, argVar, String.toList_append] at hno
  exact hno (prefix_append _ _)

theorem triple_callFunction (decl : CallbackDecl) :
    Triple Action.step (Owing (argVars decl.params.length)) (callFunction decl) Idle (Owing []) := by
  have hcall : Triple Action.step (Owing (argVars decl.params.length)) (.act (.value "call_result"))
      (fun s => Owing (argVars decl.params.length) s ∧ s.book.value "call_result" = none)
      (Owing []) := by
    refine .act fun s t hs ht => ?_
    obtain rfl := ht
    exact ⟨Owes.put hs call_result_not_mem, Book.value_put_self⟩
  have hexc : Triple Action.step Idle (.act (.value "exc"))
      (fun s => Owing ["exc"] s ∧ s.book.value "call_result" = none) (Owing []) := by
    refine .act fun s t hs ht => ?_
    obtain rfl := ht
    exact ⟨Owes.plain hs.1 not_mem_nil, (Book.value_put_of_ne (by decide)).trans hs.2⟩
  have hfree : Triple Action.step (fun s => Owing ["exc"] s ∧ s.book.value "call_result" = none)
      (.act (.free "exc")) Idle (Owing []) := by
    refine .act fun s t hs ht => ?_
    obtain rfl := ht
    exact ⟨Owes.give hs.1, (congrFun Book.value_give _).trans hs.2⟩
  refine .all_cons hcall (.all_cons (triple_freeArguments _) (.all_single (.either
    (.all_cons hexc (.all_cons hfree (.all_cons (.act (Q := Idle) fun s t => Idle.free) (.all_single
      (.leave ?_))))) .skip)))
  intro s t hs ht
  have hbook : t.book = s.book := by
    unfold returnDefault at ht
    split at ht
    · rw [ht]
    · rw [ht]
  unfold Owing
  rw [hbook]
  exact hs.1

theorem run_callFunction (decl : CallbackDecl) (s : State) :
    ∃ t, Run Action.step (callFunction decl) s false t := by
  obtain ⟨t, ht⟩ := run_freeArguments (List.range decl.params.length)
    { s with book := s.book.put "call_result" none }
  exact ⟨t, .seq (.act rfl) (.seq ht (.seq (.snd .skip) .skip))⟩

theorem not_below_call_result : ¬ Below "cpp_result" "call_result" :=
  not_below_of_not_start (by decide)

theorem triple_callResult (h : (Part.callResult type).emit m n = some c) (hrel : Releases m type) :
    Triple Action.step Idle c (Owing []) (Owing []) := by
  rw [Part.emit] at h
  by_cases hvoid : type.isVoid = true
  · rw [if_pos hvoid] at h
    obtain rfl := some.inj h
    exact .act fun s t hs ht => (hs.free ht).1
  · rw [if_neg hvoid] at h
    obtain ⟨value, hvalue, h⟩ := bind_eq_some_iff.mp h
    obtain rfl := some.inj h
    have hconv := conversion hvalue
    have htriple := hconv.param.triple
    have hidle : Triple Action.step Idle value Idle (Owing []) := by
      refine ⟨fun s t hs hr => ⟨htriple.behind hs.1 hr, ?_⟩, fun s t hs hr => ?_⟩
      · exact (value_of_run hconv.writes hr not_below_call_result).trans hs.2
      · exact (htriple.left hs.1 hr).releases hrel
    refine .all_cons hidle (.all_cons (.act (Q := Idle) fun s t => Idle.free) (.all_single
      (.leave ?_)))
    intro s t hs ht
    obtain rfl := ht
    exact hs.1

theorem leak_callResult (h : (Part.callResult type).emit m n = some c) (hno : ¬ Releases m type)
    (hs : Owing [] s) : ∃ t, Run Action.step c s true t ∧ ¬ t.book.Settled := by
  rw [Part.emit] at h
  by_cases hvoid : type.isVoid = true
  · cases type with
    | plain kind b =>
      have hsimple : Simple m (.plain kind b) := ⟨nofun, nofun⟩
      exact (hno hsimple.releases).elim
    | _ => cases hvoid
  · rw [if_neg hvoid] at h
    obtain ⟨value, hvalue, h⟩ := bind_eq_some_iff.mp h
    obtain rfl := some.inj h
    obtain ⟨t, ht, hleak⟩ := (conversion hvalue).param.leak hno hs
    exact ⟨t, .seqLeft ht, hleak⟩

/-! ### Functions -/

theorem quiet_checkArgCount (params : List Param) : (checkArgCount params).Only Action.Quiet := by
  unfold checkArgCount
  split
  · trivial
  · exact ⟨trivial, trivial⟩

theorem run_checkArgCount (params : List Param) (s : State) :
    Run Action.step (checkArgCount params) s false s := by
  unfold checkArgCount
  split
  · exact .skip
  · exact .snd .skip

theorem quiet_implOf (iface : String) : (implOf iface).Only Action.Quiet :=
  ⟨trivial, ⟨trivial, trivial⟩, trivial⟩

theorem run_implOf (iface : String) (s : State) : Run Action.step (implOf iface) s false s :=
  .seq (.act rfl) (.seq (.snd .skip) .skip)

theorem balanced_fixed {rest : List Part} (hd : d.Only Action.Quiet) (hrest : Balanced m n [] rest) :
    Balanced m n [] (.fixed d :: rest) := by
  refine balanced_cons (fun c hc => ?_) hrest
  obtain rfl := some.inj hc
  exact triple_quiet hd

theorem leaks_fixed {rest : List Part} (hrun : ∀ s, Run Action.step d s false s)
    (hrest : Leaks m n [] rest) : Leaks m n [] (.fixed d :: rest) := by
  refine leaks_there (fun c hc s hs => ?_) hrest
  obtain rfl := some.inj hc
  exact ⟨s, hrun s, hs⟩

theorem balanced_result (type : TypeSpec) : Balanced m n [] [.result type] :=
  balanced_single fun _ hc => triple_return hc

theorem balanced_call {decl : CallbackDecl} (hrel : Releases m decl.returnType) :
    Balanced m n (argVars (0 + decl.params.length))
      [.fixed (callFunction decl), .callResult decl.returnType] := by
  rw [Nat.zero_add]
  intro c h
  obtain ⟨d, e, hd, he, rfl⟩ := emitParts_cons h
  obtain ⟨d', e', hd', he', rfl⟩ := emitParts_cons he
  obtain rfl := some.inj hd
  obtain rfl := some.inj he'
  exact .seq (triple_callFunction decl) (.seq (triple_callResult hd' hrel) .skip)

theorem leaks_call {decl : CallbackDecl} (hno : ¬ Releases m decl.returnType) :
    Leaks m n (argVars (0 + decl.params.length))
      [.fixed (callFunction decl), .callResult decl.returnType] := by
  rw [Nat.zero_add]
  have hresult : Leaks m n [] [.callResult decl.returnType] :=
    leaks_here fun c hc s hs => leak_callResult hc hno hs
  refine leaks_there (fun c hc s hs => ?_) hresult
  obtain rfl := some.inj hc
  obtain ⟨t, ht⟩ := run_callFunction decl s
  exact ⟨t, ht, ((triple_callFunction decl).behind hs ht).1⟩

/-- The types that a function converts from JS. -/
def Function.converted (f : Function) : List TypeSpec := f.parts.filterMap Part.converted

theorem converted_params (i : Nat) (ps : List Param) :
    (paramParts i ps).filterMap Part.converted = ps.map Param.type := by
  induction ps generalizing i with
  | nil => rfl
  | cons p ps ih => exact congrArg (p.type :: ·) (ih (i + 1))

theorem converted_arguments (i : Nat) (ps : List Param) :
    (argumentParts i ps).filterMap Part.converted = [] := by
  induction ps generalizing i with
  | nil => rfl
  | cons p ps ih => exact ih (i + 1)

theorem converted_method {iface : String} {method : Method} :
    (Function.method iface method).converted = method.params.map Param.type := by
  unfold Function.converted Function.parts
  rw [filterMap_cons_none rfl, filterMap_append, converted_params]
  exact append_nil _

theorem converted_construct {iface : String} {params : List Param} :
    (Function.construct iface params).converted = params.map Param.type := by
  unfold Function.converted Function.parts
  rw [filterMap_cons_none rfl, filterMap_append, converted_params]
  exact append_nil _

theorem converted_call {decl : CallbackDecl} :
    (Function.call decl).converted = [decl.returnType] := by
  unfold Function.converted Function.parts
  rw [filterMap_append, converted_arguments]
  rfl

theorem balanced {f : Function} (h : ∀ type ∈ f.converted, Releases m type) :
    Balanced m n [] f.parts := by
  cases f with
  | method iface method =>
    rw [converted_method] at h
    exact balanced_fixed ⟨quiet_implOf _, quiet_checkArgCount _, trivial⟩
      (balanced_params (List.forall_mem_map.mp h) (balanced_result _) 0)
  | getter iface attr => exact balanced_fixed (quiet_implOf _) (balanced_result _)
  | setter iface attr =>
    rw [Function.parts]
    split
    · exact balanced_fixed ⟨quiet_implOf _, trivial, trivial⟩ fun c hc => by
        obtain rfl := some.inj hc
        exact .skip
    · rename_i hreadonly
      have hrel : Releases m attr.type := by
        refine h _ ?_
        rw [Function.converted, Function.parts, if_neg hreadonly]
        exact mem_singleton_self _
      refine balanced_fixed (quiet_implOf _) (balanced_single fun c hc => ?_)
      obtain ⟨value, hvalue, hc⟩ := bind_eq_some_iff.mp hc
      obtain rfl := some.inj hc
      refine .all_cons ((conversion hvalue).param.triple.mono (fun _ hs => hs) (fun _ hs => hs)
        fun _ hs => hs.releases hrel) (.all_cons (triple_quiet_act trivial) (.all_single ?_))
      exact triple_quiet (c := .leave _) trivial
  | construct iface params =>
    rw [converted_construct] at h
    refine balanced_fixed (quiet_checkArgCount _)
      (balanced_params (List.forall_mem_map.mp h) (balanced_fixed ?_ fun c hc => ?_) 0)
    · exact ⟨trivial, ⟨trivial, trivial⟩, trivial, trivial⟩
    · obtain rfl := some.inj hc
      exact .skip
  | call decl =>
    rw [converted_call] at h
    exact balanced_arguments (balanced_call (h _ (mem_singleton_self _)))

theorem leaks {f : Function} (h : ∃ type ∈ f.converted, ¬ Releases m type) :
    Leaks m n [] f.parts := by
  obtain ⟨type, hmem, hno⟩ := h
  cases f with
  | method iface method =>
    rw [converted_method] at hmem
    obtain ⟨p, hp, rfl⟩ := List.mem_map.mp hmem
    exact leaks_fixed
      (fun s => .seq (run_implOf _ s) (.seq (run_checkArgCount _ s) .skip))
      (leaks_params ⟨p, hp, hno⟩ 0)
  | getter iface attr => exact (not_mem_nil hmem).elim
  | setter iface attr =>
    rw [Function.converted, Function.parts] at hmem
    rw [Function.parts]
    split at hmem
    · exact (not_mem_nil hmem).elim
    · rename_i hreadonly
      rw [if_neg hreadonly]
      obtain rfl := mem_singleton.mp hmem
      refine leaks_fixed (run_implOf _) (leaks_here fun c hc s hs => ?_)
      obtain ⟨value, hvalue, hc⟩ := bind_eq_some_iff.mp hc
      obtain rfl := some.inj hc
      obtain ⟨t, ht, hleak⟩ := (conversion hvalue).param.leak hno hs
      exact ⟨t, .seqLeft ht, hleak⟩
  | construct iface params =>
    rw [converted_construct] at hmem
    obtain ⟨p, hp, rfl⟩ := List.mem_map.mp hmem
    exact leaks_fixed (run_checkArgCount _) (leaks_params ⟨p, hp, hno⟩ 0)
  | call decl =>
    rw [converted_call] at hmem
    obtain rfl := mem_singleton.mp hmem
    exact leaks_arguments (leaks_call hno)

/-- **The references of a generated function.**  Every run of it gives up each value that it takes
exactly once, if and only if no type that it converts from JS has, in a sequence or a dictionary,
something whose conversion can fail. -/
theorem references_balanced_iff (m : IdlModule) (f : Function) {fuel : Nat} {code : Code}
    (hcode : f.emit m fuel = some code) :
    (∀ b t, Run Action.step code State.start b t → t.book.Settled) ↔
      ∀ type ∈ f.converted, Releases m type := by
  constructor
  · intro h
    by_contra hno
    push Not at hno
    obtain ⟨b, t, ht, hleak⟩ := leaks hno hcode owing_start
    exact hleak (h b t ht)
  · intro h b t hr
    have htriple := balanced h hcode
    cases b with
    | false => exact (htriple.behind owing_start hr).settled
    | true => exact (htriple.left owing_start hr).settled

/-! ### An element that is no string -/

/-- `interface Log { attribute sequence<any> lines; void write(sequence<DOMString> lines); };` -/
def logModule : IdlModule where
  interfaces := [⟨"Log", "", {
    methods := [⟨"write", .plain .void false, [⟨.sequence (.plain .domString false) false, "lines",
      false, false⟩]⟩]
    attributes := [⟨.sequence (.plain .any false) false, "lines", false⟩]
    constructorParams := none }⟩]
  enums := []
  dictionaries := []
  callbacks := []

def logWrite : Function := .method "Log" ⟨"write", .plain .void false,
  [⟨.sequence (.plain .domString false) false, "lines", false, false⟩]⟩

def logSetLines : Function := .setter "Log" ⟨.sequence (.plain .any false) false, "lines", false⟩

theorem releases_any {b b' : Bool} : Releases m (.sequence (.plain .any b) b') := by
  by_contra hno
  have hany : Infallible m (.plain .any b) := by
    by_contra hinf
    have hsimple : Simple m (.plain .any b) := ⟨nofun, nofun⟩
    exact hsimple.fails hinf
  rcases not_releases hno with ⟨u, hu, hinf⟩ | ⟨u, hu, -⟩
  · cases hu with
    | element => exact hinf hany
  · cases hu

/-- The setter of `lines` gives up each of its values. -/
theorem references_balanced_lines :
    ∃ code, logSetLines.emit logModule 2 = some code ∧
      ∀ b t, Run Action.step code State.start b t → t.book.Settled := by
  refine ⟨_, rfl, (@references_balanced_iff logModule logSetLines 2 _ rfl).mpr
    fun type htype => ?_⟩
  obtain rfl := mem_singleton.mp htype
  exact releases_any

theorem not_releases_strings {b b' : Bool} :
    ¬ Releases m (.sequence (.plain .domString b) b') := by
  intro hrel
  exact hrel.of_component .element _ .refl trivial

/-- A method whose parameter is a sequence of strings. -/
theorem not_references_balanced :
    ¬ ∀ (m : IdlModule) (f : Function) (fuel : Nat) (code : Code), f ∈ functions m →
      f.emit m fuel = some code → ∀ b t, Run Action.step code State.start b t → t.book.Settled := by
  intro h
  have hmem : logWrite ∈ functions logModule := mem_cons_self
  obtain ⟨code, hcode⟩ : ∃ code, logWrite.emit logModule 2 = some code := ⟨_, rfl⟩
  have hleaks : Leaks logModule 2 [] logWrite.parts :=
    leaks ⟨_, mem_singleton_self _, not_releases_strings⟩
  obtain ⟨b, t, ht, hleak⟩ := hleaks hcode owing_start
  exact hleak (h logModule logWrite 2 code hmem hcode b t ht)

end Voodoo.Bruja
