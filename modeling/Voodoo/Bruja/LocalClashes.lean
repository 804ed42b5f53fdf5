import Voodoo.Bruja.LocalScopes

/-!
# Clashes of local variables

When the conversions declare a name twice in one scope.  A conversion from JS does so exactly where
it comes to a dictionary with two fields of one name (`distinct_valueConversionLocals_iff`).  A
conversion to JS has all fields of a dictionary in one scope, down through the dictionaries among
them, and a name there spells the way to a field; it declares a name twice exactly where two ways are
spelled alike (`distinct_toJsLocals_iff`).
-/

namespace Voodoo.Bruja

open Relation LocalScopes List Option

/-! ### Names below a variable -/

theorem append_injective (v : String) : Function.Injective (v ++ ·) := fun _ _ h =>
  (String.append_right_inj v).mp h

theorem nodup_below {v : String} {names : List String} :
    (names.map (v ++ ·)).Nodup ↔ names.Nodup :=
  nodup_map_iff (append_injective v)

theorem map_below (v w : String) (names : List String) :
    (names.map (w ++ ·)).map (v ++ ·) = names.map ((v ++ w) ++ ·) := by
  rw [List.map_map]
  refine map_congr_left fun name _ => ?_
  exact (String.append_assoc).symm

section

variable {a b : LocalScopes} {names : List String}

theorem distinct_declare : (declare names).Distinct ↔ names.Nodup := by
  unfold Distinct
  simp

theorem distinct_block : a.block.Distinct ↔ a.Distinct := by
  unfold Distinct
  simp

theorem distinct_append :
    (a ++ b).Distinct ↔ a.Distinct ∧ b.Distinct ∧ a.here.Disjoint b.here := by
  unfold Distinct
  rw [here_append, inner_append, nodup_append']
  constructor
  · rintro ⟨⟨ha, hb, hdisjoint⟩, hinner⟩
    exact ⟨⟨ha, fun s hs => hinner s (mem_append_left _ hs)⟩,
      ⟨hb, fun s hs => hinner s (mem_append_right _ hs)⟩, hdisjoint⟩
  · rintro ⟨⟨ha, hainner⟩, ⟨hb, hbinner⟩, hdisjoint⟩
    refine ⟨⟨ha, hb, hdisjoint⟩, fun s hs => ?_⟩
    rcases mem_append.mp hs with hs | hs
    · exact hainner s hs
    · exact hbinner s hs

end

/-! ### From JS -/

/-- What the conversion of a scalar declares, below its variable. -/
def plainSuffixes : PlainKind → List String
  | .void => []
  | .unsignedLong | .longLong | .any => [""]
  | .domString | .usvString => ["_cstr", ""]
  | .boolean | .byte | .short | .long | .octet | .unsignedShort | .unsignedLongLong | .float
  | .double => ["_raw", ""]

/-- What a conversion declares where it stands, below its variable. -/
def conversionSuffixes (type : TypeSpec) : List String :=
  if type.isInterface || type.nullable then [""]
  else
    match type with
    | .plain kind _ => plainSuffixes kind
    | .ref .enum _ _ => ["_cstr", ""]
    | .ref .unresolved _ _ | .promise _ _ => []
    | _ => [""]

theorem plainSuffixes_cases (kind : PlainKind) :
    plainSuffixes kind = [] ∨ plainSuffixes kind = [""] ∨ plainSuffixes kind = ["_raw", ""] ∨
      plainSuffixes kind = ["_cstr", ""] := by
  cases kind <;> decide

theorem conversionSuffixes_cases (type : TypeSpec) :
    conversionSuffixes type = [] ∨ conversionSuffixes type = [""] ∨
      conversionSuffixes type = ["_raw", ""] ∨ conversionSuffixes type = ["_cstr", ""] := by
  unfold conversionSuffixes
  split
  · exact .inr (.inl rfl)
  · split
    · exact plainSuffixes_cases _
    · exact .inr (.inr (.inr rfl))
    · exact .inl rfl
    · exact .inl rfl
    · exact .inr (.inl rfl)

theorem nodup_conversionSuffixes (type : TypeSpec) : (conversionSuffixes type).Nodup := by
  rcases conversionSuffixes_cases type with h | h | h | h <;> rw [h] <;> decide

theorem plainLocals_eq (kind : PlainKind) (v : String) :
    plainLocals kind v = (plainSuffixes kind).map (v ++ ·) := by
  have hself : v ++ "" = v := String.append_empty
  cases kind <;> simp only [plainLocals, plainSuffixes, map_cons, map_nil, hself]

/-- Another type that is converted on the way to a value of the type. -/
def ConvertsFrom (m : IdlModule) (t u : TypeSpec) : Prop := Component m t u ∨ Tries t u

theorem convertsFrom_nonNull {m : IdlModule} {t u : TypeSpec} :
    ConvertsFrom m t.nonNull u ↔ ConvertsFrom m t u :=
  or_congr component_nonNull tries_nonNull

/-- A dictionary type names its fields differently. -/
def FieldsApart (m : IdlModule) (t : TypeSpec) : Prop :=
  ∀ name b fields, t = .ref .dictionary name b → m.collectEffectiveFields name = some fields →
    (fields.map (·.name)).Nodup

/-- So do all that are converted from JS on the way to the type. -/
def FromJsApart (m : IdlModule) (t : TypeSpec) : Prop :=
  ∀ u, ReflTransGen (ConvertsFrom m) t u → FieldsApart m u

theorem fromJsApart_iff {m : IdlModule} {t : TypeSpec} :
    FromJsApart m t ↔ FieldsApart m t ∧ ∀ u, ConvertsFrom m t u → FromJsApart m u := by
  constructor
  · intro h
    exact ⟨h t .refl, fun u hu w hw => h w (.head hu hw)⟩
  · rintro ⟨hself, hnext⟩ u hu
    rcases ReflTransGen.cases_head hu with rfl | ⟨w, hw, hwu⟩
    · exact hself
    · exact hnext w hw u hwu

theorem fieldsApart_nonNull {m : IdlModule} {t : TypeSpec} :
    FieldsApart m t.nonNull ↔ FieldsApart m t := by
  cases t with
  | ref kind name b =>
    constructor
    · rintro h name' b' fields ⟨⟩ hfields
      exact h name false fields rfl hfields
    · rintro h name' b' fields ⟨⟩ hfields
      exact h name b fields rfl hfields
  | _ => exact iff_of_true (fun _ _ _ h => nomatch h) (fun _ _ _ h => nomatch h)

theorem fromJsApart_nonNull {m : IdlModule} {t : TypeSpec} :
    FromJsApart m t.nonNull ↔ FromJsApart m t := by
  rw [fromJsApart_iff, fromJsApart_iff, fieldsApart_nonNull]
  exact and_congr_right fun _ => forall_congr' fun u => imp_congr_left convertsFrom_nonNull

theorem fromJsApart_of_not_converts {m : IdlModule} {t : TypeSpec}
    (hfields : FieldsApart m t) (h : ∀ u, ¬ ConvertsFrom m t u) : FromJsApart m t :=
  fromJsApart_iff.mpr ⟨hfields, fun u hu => absurd hu (h u)⟩

section

variable {m : IdlModule} {n : Nat} {type : TypeSpec} {v : String} {l : LocalScopes}

theorem valueConversionLocals_succ (hi : type.isInterface = false) :
    valueConversionLocals m (n + 1) type v =
      if type.nullable then
        (baseValueConversionLocals (valueConversionLocals m n) m type.nonNull
          (v ++ "_present")).bind
          fun value => some (declare [v] ++ value.block)
      else baseValueConversionLocals (valueConversionLocals m n) m type v := by
  cases type with
  | ref kind name b =>
    cases kind with
    | interface => cases hi
    | _ => rfl
  | _ => rfl

/-- What there is to say of a conversion: what it declares where it stands, and when it declares a
name twice. -/
def DeclaresFromJs (m : IdlModule) (conv : TypeSpec → String → Option LocalScopes)
    (t : TypeSpec) : Prop :=
  ∀ w l, conv t w = some l →
    l.here = (conversionSuffixes t).map (w ++ ·) ∧ (l.Distinct ↔ FromJsApart m t)

variable {conv : TypeSpec → String → Option LocalScopes}

theorem here_interfaceMembersLocals (members : List TypeSpec) :
    (interfaceMembersLocals v members).here = [] ∧
      (interfaceMembersLocals v members).Distinct := by
  induction members with
  | nil => exact ⟨rfl, distinct_declare.mpr nodup_nil⟩
  | cons t rest ih =>
    unfold interfaceMembersLocals
    split
    case h_1 heq => cases heq
    case h_2 name b rest' heq =>
      cases heq
      refine ⟨ih.1, distinct_append.mpr ⟨distinct_block.mpr (distinct_declare.mpr ?_), ih.2, ?_⟩⟩
      · exact nodup_singleton _
      · exact disjoint_nil_left _
    case h_3 heq =>
      cases heq
      exact ih

theorem fieldJs_injective {f g : DictField} (h : fieldJs v f = fieldJs v g) : f.name = g.name :=
  (String.append_right_inj _).mp ((String.append_left_inj _).mp h)

theorem distinct_fieldsFromJsLocals (fields : List DictField)
    (hconv : ∀ f ∈ fields, DeclaresFromJs m conv f.type)
      (h : fieldsFromJsLocals conv v fields = some l) :
    l.here = fields.map (fieldJs v) ∧
      (l.Distinct ↔ (fields.map (·.name)).Nodup ∧ ∀ f ∈ fields, FromJsApart m f.type) := by
  induction fields generalizing l with
  | nil =>
    cases h
    exact ⟨rfl, iff_of_true (distinct_declare.mpr nodup_nil)
      ⟨nodup_nil, fun _ hf => nomatch hf⟩⟩
  | cons f rest ih =>
    obtain ⟨value, hvalue, h⟩ := bind_eq_some_iff.mp h
    obtain ⟨others, hothers, h⟩ := bind_eq_some_iff.mp h
    cases h
    obtain ⟨-, hdistinct⟩ := hconv f mem_cons_self _ _ hvalue
    obtain ⟨hhere, hrest⟩ := ih (fun g hg => hconv g (mem_cons_of_mem f hg)) hothers
    have hnew : (declare [fieldJs v f] ++ value.block).here.Disjoint others.here ↔
        f.name ∉ rest.map (·.name) := by
      rw [hhere, here_append, here_declare, here_block, append_nil, singleton_disjoint,
        List.mem_map, List.mem_map, not_iff_not]
      constructor
      · rintro ⟨g, hg, hname⟩
        exact ⟨g, hg, fieldJs_injective hname⟩
      · rintro ⟨g, hg, hname⟩
        exact ⟨g, hg, by rw [fieldJs, fieldJs, hname]⟩
    refine ⟨?_, ?_⟩
    · rw [here_append, here_append, here_declare, here_block, hhere]
      rfl
    · have hsingle : ([fieldJs v f] : List String).Nodup := nodup_singleton _
      have hnil : (declare [fieldJs v f]).here.Disjoint [] := disjoint_nil_right _
      have hnames : ((f :: rest).map (·.name)).Nodup ↔
          f.name ∉ rest.map (·.name) ∧ (rest.map (·.name)).Nodup := nodup_cons
      rw [distinct_append, distinct_append, distinct_declare, distinct_block,
        hdistinct, hrest, hnew,
        hnames, forall_mem_cons, here_block]
      tauto

theorem distinct_declare_append {names : List String}
    (hhere : l.here = (conversionSuffixes type).map (v ++ ·))
    (h : (names ++ (conversionSuffixes type).map (v ++ ·)).Nodup) :
    (declare names ++ l).Distinct ↔ l.Distinct := by
  obtain ⟨hnames, -, hdisjoint⟩ := nodup_append'.mp h
  rw [distinct_append, distinct_declare, here_declare, hhere]
  exact ⟨fun hall => hall.2.1, fun hl => ⟨hnames, hl, hdisjoint⟩⟩

theorem nodup_elementFromJs (element : TypeSpec) :
    ([v ++ "_i", v ++ "_elem_js"] ++
      (conversionSuffixes element).map ((v ++ "_elem") ++ ·)).Nodup := by
  have hbelow : [v ++ "_i", v ++ "_elem_js"] ++
    (conversionSuffixes element).map ((v ++ "_elem") ++ ·) =
      (["_i", "_elem_js"] ++ (conversionSuffixes element).map ("_elem" ++ ·)).map (v ++ ·) := by
    rw [map_append, map_below]
    rfl
  rw [hbelow, nodup_below]
  rcases conversionSuffixes_cases element with h | h | h | h <;> rw [h] <;> decide

theorem distinct_sequenceFromJsLocals {element : TypeSpec} {value : LocalScopes}
    (hhere : value.here = (conversionSuffixes element).map ((v ++ "_elem") ++ ·)) :
    (sequenceFromJsLocals v value).Distinct ↔ value.Distinct := by
  have hloop := distinct_declare_append hhere (nodup_elementFromJs (v := v) element)
  have hlen : [v ++ "_len", v ++ "_len_val"].Nodup := by
    have hbelow : [v ++ "_len", v ++ "_len_val"] = ["_len", "_len_val"].map (v ++ ·) := rfl
    rw [hbelow, nodup_below]
    decide
  rw [sequenceFromJsLocals, distinct_append, distinct_block, distinct_append, distinct_block, hloop,
    distinct_declare, distinct_declare, here_block, here_block]
  exact ⟨fun h => h.2.1.2.1, fun h => ⟨nodup_singleton _,
    ⟨hlen, h, disjoint_nil_right _⟩, disjoint_nil_right _⟩⟩

theorem distinct_unionValueConversionLocals {first : TypeSpec} {rest : List TypeSpec} {b : Bool}
    (hconv : ∀ u, Tries (.union first rest b) u → DeclaresFromJs m conv u)
    (h : unionValueConversionLocals conv (first :: rest) v = some l) :
    l.here = [v] ∧ (l.Distinct ↔ ∀ u, Tries (.union first rest b) u → FromJsApart m u) := by
  obtain ⟨fallback, hfallback, h⟩ := bind_eq_some_iff.mp h
  cases h
  obtain ⟨hmembers, hmembersDistinct⟩ := here_interfaceMembersLocals (v := v) (first :: rest)
  have hlast : fallback.here = [] ∧
      (fallback.Distinct ↔ ∀ u, Tries (.union first rest b) u → FromJsApart m u) := by
    cases hu : unionFallback (first :: rest) with
    | none =>
      rw [hu] at hfallback
      cases hfallback
      refine ⟨rfl, iff_of_true (distinct_declare.mpr nodup_nil) ?_⟩
      rintro u ⟨h⟩
      cases h.symm.trans hu
    | some t =>
      rw [hu] at hfallback
      obtain ⟨value, hvalue, hfallback⟩ := bind_eq_some_iff.mp hfallback
      cases hfallback
      obtain ⟨-, hdistinct⟩ := hconv t (.fallback hu) _ _ hvalue
      refine ⟨rfl, distinct_block.trans (hdistinct.trans ⟨?_, fun hall => hall t (.fallback hu)⟩)⟩
      rintro ht u ⟨h⟩
      cases h.symm.trans hu
      exact ht
  have hsingle : ∀ x : String, (declare [x]).Distinct := fun x =>
    distinct_declare.mpr (nodup_singleton x)
  refine ⟨rfl, ?_⟩
  rw [distinct_append, distinct_block, distinct_append, distinct_append, hlast.2, hmembers, hlast.1,
    here_block]
  exact ⟨fun h => h.2.1.2.1, fun h => ⟨hsingle _, ⟨⟨hsingle _, hmembersDistinct,
    disjoint_nil_right _⟩, h, disjoint_nil_right _⟩, disjoint_nil_right _⟩⟩

/-- One step of the conversion from JS. -/
theorem declaresFromJs_base (hi : type.isInterface = false) (hn : type.nullable = false)
    (hconv : ∀ u, ConvertsFrom m type u → DeclaresFromJs m conv u)
    (h : baseValueConversionLocals conv m type v = some l) :
    l.here = (conversionSuffixes type).map (v ++ ·) ∧ (l.Distinct ↔ FromJsApart m type) := by
  have hself : v ++ "" = v := String.append_empty
  have hsuffixes := nodup_conversionSuffixes type
  cases type with
  | plain kind b =>
    obtain rfl : b = false := hn
    cases h
    have hapart : FromJsApart m (.plain kind false) :=
      fromJsApart_of_not_converts (fun _ _ _ h => nomatch h) fun u hu => hu.elim nofun nofun
    refine ⟨plainLocals_eq kind v, iff_of_true (distinct_declare.mpr ?_) hapart⟩
    rw [plainLocals_eq, nodup_below]
    exact hsuffixes
  | promise element b =>
    obtain rfl : b = false := hn
    cases h
    exact ⟨rfl, iff_of_true (distinct_declare.mpr nodup_nil)
      (fromJsApart_of_not_converts (fun _ _ _ h => nomatch h) fun u hu => hu.elim nofun nofun)⟩
  | sequence element b =>
    obtain rfl : b = false := hn
    obtain ⟨value, hvalue, h⟩ := bind_eq_some_iff.mp h
    cases h
    obtain ⟨hhere, hdistinct⟩ := hconv element (.inl .element) _ _ hvalue
    refine ⟨congrArg (fun x => [x]) hself.symm, ?_⟩
    rw [distinct_sequenceFromJsLocals hhere, hdistinct,
      fromJsApart_iff (t := .sequence element false)]
    constructor
    · intro helement
      refine ⟨nofun, fun u hu => ?_⟩
      rcases hu with hu | hu
      · cases hu with
        | element => exact helement
      · cases hu
    · exact fun hall => hall.2 element (.inl .element)
  | union first rest b =>
    obtain rfl : b = false := hn
    obtain ⟨hhere, hdistinct⟩ :=
      distinct_unionValueConversionLocals (b := false) (fun u hu => hconv u (.inr hu)) h
    refine ⟨hhere.trans (congrArg (fun x => [x]) hself.symm), hdistinct.trans ?_⟩
    rw [fromJsApart_iff]
    constructor
    · intro hall
      refine ⟨nofun, fun u hu => ?_⟩
      rcases hu with hu | hu
      · cases hu
      · exact hall u hu
    · exact fun hall u hu => hall.2 u (.inr hu)
  | ref kind name b =>
    obtain rfl : b = false := hn
    cases kind with
    | interface => cases hi
    | enum =>
      obtain ⟨_, -, h⟩ := bind_eq_some_iff.mp h
      cases h
      have hbelow : [v ++ "_cstr", v] = ["_cstr", ""].map (v ++ ·) :=
        congrArg (fun x => [v ++ "_cstr", x]) hself.symm
      refine ⟨hbelow, iff_of_true (distinct_declare.mpr ?_)
        (fromJsApart_of_not_converts (fun _ _ _ h => nomatch h)
          fun u hu => hu.elim nofun nofun)⟩
      rw [hbelow, nodup_below]
      decide
    | callback =>
      cases h
      exact ⟨congrArg (fun x => [x]) hself.symm, iff_of_true
        (distinct_declare.mpr (nodup_singleton v))
        (fromJsApart_of_not_converts (fun _ _ _ h => nomatch h)
          fun u hu => hu.elim nofun nofun)⟩
    | unresolved =>
      cases h
      exact ⟨rfl, iff_of_true (distinct_declare.mpr nodup_nil)
        (fromJsApart_of_not_converts (fun _ _ _ h => nomatch h)
          fun u hu => hu.elim nofun nofun)⟩
    | dictionary =>
      obtain ⟨fields, hfields, h⟩ := bind_eq_some_iff.mp h
      obtain ⟨body, hbody, h⟩ := bind_eq_some_iff.mp h
      cases h
      obtain ⟨-, hdistinct⟩ := distinct_fieldsFromJsLocals fields
        (fun f hf => hconv f.type (.inl (.field hfields hf))) hbody
      refine ⟨congrArg (fun x => [x]) hself.symm, ?_⟩
      rw [distinct_append, distinct_block, hdistinct,
        fromJsApart_iff (t := .ref .dictionary name false)]
      constructor
      · rintro ⟨-, ⟨hnames, hall⟩, -⟩
        refine ⟨?_, fun u hu => ?_⟩
        · rintro name' b' fields' ⟨⟩ hfields'
          cases hfields.symm.trans hfields'
          exact hnames
        · rcases hu with hu | hu
          · cases hu with
            | field hfields' hfield =>
              cases hfields.symm.trans hfields'
              exact hall _ hfield
          · cases hu
      · rintro ⟨hnames, hall⟩
        exact ⟨distinct_declare.mpr (nodup_singleton v),
          ⟨hnames name false fields rfl hfields, fun f hf =>
            hall f.type (.inl (.field hfields hf))⟩,
          disjoint_nil_right _⟩

/-- **What a conversion from JS declares**, and when it declares a name twice. -/
theorem distinct_valueConversionLocals_iff (m : IdlModule) (n : Nat) (type : TypeSpec) :
    DeclaresFromJs m (valueConversionLocals m n) type := by
  induction n generalizing type with
  | zero =>
    intro v l h
    cases h
  | succ n ih =>
    intro v l h
    have hself : v ++ "" = v := String.append_empty
    cases hi : type.isInterface with
    | true =>
      obtain ⟨name, b, rfl⟩ : ∃ name b, type = .ref .interface name b := by
        cases type with
        | ref kind name b =>
          cases kind with
          | interface => exact ⟨name, b, rfl⟩
          | _ => cases hi
        | _ => cases hi
      cases h
      refine ⟨congrArg (fun x => [x]) hself.symm, iff_of_true ?_
        (fromJsApart_of_not_converts (fun _ _ _ h => nomatch h)
          fun u hu => hu.elim nofun nofun)⟩
      exact distinct_append.mpr ⟨distinct_declare.mpr (nodup_singleton _),
        distinct_block.mpr (distinct_declare.mpr (nodup_singleton _)),
          disjoint_nil_right _⟩
    | false =>
      rw [valueConversionLocals_succ hi] at h
      cases hn : type.nullable with
      | false =>
        rw [hn, if_neg Bool.false_ne_true] at h
        exact declaresFromJs_base hi hn (fun u _ => ih u) h
      | true =>
        rw [hn, if_pos rfl] at h
        obtain ⟨value, hvalue, h⟩ := bind_eq_some_iff.mp h
        cases h
        have hnonNull : type.nonNull.nullable = false := by cases type <;> rfl
        obtain ⟨-, hdistinct⟩ := declaresFromJs_base ((isInterface_nonNull).trans hi) hnonNull
          (fun u _ => ih u) hvalue
        have hsuffixes : conversionSuffixes type = [""] := by
          unfold conversionSuffixes
          rw [hn, Bool.or_true]
          exact if_pos rfl
        refine ⟨?_, ?_⟩
        · rw [hsuffixes]
          exact congrArg (fun x => [x]) hself.symm
        · rw [distinct_append, distinct_block, hdistinct, fromJsApart_nonNull]
          exact ⟨fun hall => hall.2.1, fun hapart =>
            ⟨distinct_declare.mpr (nodup_singleton v), hapart, disjoint_nil_right _⟩⟩

end

end Voodoo.Bruja
