import Mathlib.Data.List.Pairwise
import Voodoo.Bruja.FieldPaths
import Voodoo.Bruja.LocalNames

/-!
# The scopes of a function

The outermost scope of a function has the parameters, which are named in the module, with their
helpers `p_raw` and `p_cstr`, and the variables that it returns its result with.

* `nodup_flatMap_names`: names with helpers are all different exactly if the names are and none is
  the helper of another;
* `distinct_paramConversionsLocals`, `distinct_returnConversionLocals`: what the parameters and the
  result declare.
-/

namespace Voodoo.Bruja

open Relation LocalScopes List Option

/-! ### Names with helpers -/

/-- A name that is declared with something behind it; the list has the empty string where the name
itself is declared. -/
abbrev Declared := String × List String

def Declared.names (d : Declared) : List String := d.2.map (d.1 ++ ·)

/-- What comes behind a name. -/
def Declared.Plain (d : Declared) : Prop :=
  d.2 = [] ∨ d.2 = [""] ∨ d.2 = ["_raw", ""] ∨ d.2 = ["_cstr", ""]

/-- The first name is no helper of the second. -/
def NoHelper (d e : Declared) : Prop := d.2 ≠ [] → ∀ s ∈ e.2, s ≠ "" → d.1 ≠ e.1 ++ s

instance (d e : Declared) : Decidable (NoHelper d e) :=
  inferInstanceAs (Decidable (d.2 ≠ [] → ∀ s ∈ e.2, s ≠ "" → _))

/-- The names are different, and none is the helper of another. -/
def NamesApart (ds : List Declared) : Prop :=
  ds.Pairwise (fun d e => d.2 ≠ [] → e.2 ≠ [] → d.1 ≠ e.1) ∧ ∀ d ∈ ds, ∀ e ∈ ds, NoHelper d e

section

variable {d e : Declared}

theorem mem_names_self (hd : d.Plain) (h : d.2 ≠ []) : d.1 ∈ d.names := by
  have hself : d.1 = d.1 ++ "" := String.append_empty.symm
  have hempty : "" ∈ d.2 := by
    rcases hd with hd | hd | hd | hd
    · exact absurd hd h
    all_goals rw [hd]; decide
  exact List.mem_map.mpr ⟨"", hempty, hself.symm⟩

theorem mem_names (hd : d.Plain) {x : String} (hx : x ∈ d.names) :
    d.2 ≠ [] ∧ (x = d.1 ∨ ∃ s ∈ d.2, s ≠ "" ∧ x = d.1 ++ s ∧ (s = "_raw" ∨ s = "_cstr")) := by
  obtain ⟨s, hs, rfl⟩ := List.mem_map.mp hx
  refine ⟨ne_nil_of_mem hs, ?_⟩
  by_cases hempty : s = ""
  · rw [hempty]
    exact .inl String.append_empty
  · refine .inr ⟨s, hs, hempty, rfl, ?_⟩
    rcases hd with hd | hd | hd | hd <;> rw [hd] at hs
    · cases hs
    · exact absurd (mem_singleton.mp hs) hempty
    · rcases mem_pair.mp hs with h | h
      · exact .inl h
      · exact absurd h hempty
    · rcases mem_pair.mp hs with h | h
      · exact .inr h
      · exact absurd h hempty

theorem nodup_names (hd : d.Plain) : d.names.Nodup := by
  rw [Declared.names, nodup_below]
  rcases hd with hd | hd | hd | hd <;> rw [hd] <;> decide

/-- The last character of a name. -/
def lastChar (x : String) : Option Char := x.toList.getLast?

theorem lastChar_append (x : String) {s : String} {c : Char} (h : lastChar s = some c) :
    lastChar (x ++ s) = some c := by
  unfold lastChar at h ⊢
  rw [String.toList_append, getLast?_append, h]
  rfl

theorem lastChar_raw (x : String) : lastChar (x ++ "_raw") = some 'w' :=
    lastChar_append x (by decide)

theorem lastChar_cstr (x : String) : lastChar (x ++ "_cstr") = some 'r' :=
  lastChar_append x (by decide)

theorem eq_of_helpers {x y s t : String} (hs : s = "_raw" ∨ s = "_cstr")
    (ht : t = "_raw" ∨ t = "_cstr") (h : x ++ s = y ++ t) : x = y := by
  have hlast := congrArg lastChar h
  rcases hs with rfl | rfl <;> rcases ht with rfl | rfl
  · exact (String.append_left_inj _).mp h
  · rw [lastChar_raw, lastChar_cstr] at hlast
    exact absurd hlast (by decide)
  · rw [lastChar_raw, lastChar_cstr] at hlast
    exact absurd hlast (by decide)
  · exact (String.append_left_inj _).mp h

theorem ne_append_suffix {x s : String} (hs : s ≠ "") : x ≠ x ++ s := by
  intro h
  have hlength := congrArg String.length h
  rw [String.length_append] at hlength
  exact hs (String.length_eq_zero_iff.mp (by omega))

theorem disjoint_names_iff (hd : d.Plain) (he : e.Plain) :
    d.names.Disjoint e.names ↔
      (d.2 ≠ [] → e.2 ≠ [] → d.1 ≠ e.1) ∧ NoHelper d e ∧ NoHelper e d := by
  rw [disjoint_left]
  constructor
  · intro h
    refine ⟨fun hd' he' heq => ?_, fun hd' s hs _ heq => ?_, fun he' s hs _ heq => ?_⟩
    · exact h (mem_names_self hd hd') (heq ▸ mem_names_self he he')
    · exact h (mem_names_self hd hd') (List.mem_map.mpr ⟨s, hs, heq.symm⟩)
    · exact h (List.mem_map.mpr ⟨s, hs, heq.symm⟩) (mem_names_self he he')
  · rintro ⟨hnames, hleft, hright⟩ x hxd hxe
    obtain ⟨hd', hxd⟩ := mem_names hd hxd
    obtain ⟨he', hxe⟩ := mem_names he hxe
    rcases hxd with rfl | ⟨s, hs, hne, rfl, hs'⟩
    · rcases hxe with hxe | ⟨t, ht, hne, hxe, -⟩
      · exact hnames hd' he' hxe
      · exact hleft hd' t ht hne hxe
    · rcases hxe with hxe | ⟨t, ht, -, hxe, ht'⟩
      · exact hright he' s hs hne hxe.symm
      · exact hnames hd' he' (eq_of_helpers hs' ht' hxe)

end

/-- The names of all are different exactly if `NamesApart`. -/
theorem nodup_flatMap_names {ds : List Declared} (hplain : ∀ d ∈ ds, d.Plain) :
    (ds.flatMap Declared.names).Nodup ↔ NamesApart ds := by
  have hpairs : ds.Pairwise (Function.onFun List.Disjoint Declared.names) ↔
      ds.Pairwise fun d e =>
        (d.2 ≠ [] → e.2 ≠ [] → d.1 ≠ e.1) ∧ NoHelper d e ∧ NoHelper e d := by
    refine Pairwise.iff_of_mem fun {d e} hd he => ?_
    exact disjoint_names_iff (hplain d hd) (hplain e he)
  rw [nodup_flatMap, hpairs]
  constructor
  · rintro ⟨-, hall⟩
    refine ⟨hall.imp fun h => h.1, ?_⟩
    have hsymm : Std.Symm fun d e => NoHelper d e ∧ NoHelper e d := ⟨fun _ _ h => ⟨h.2, h.1⟩⟩
    have hself : ∀ d ∈ ds, NoHelper d d ∧ NoHelper d d := fun d _ =>
      ⟨fun _ s _ hs => ne_append_suffix hs, fun _ s _ hs => ne_append_suffix hs⟩
    have hboth : ds.Pairwise fun d e => NoHelper d e ∧ NoHelper e d := hall.imp fun h => h.2
    exact fun d hd e he => (hboth.forall_of_forall hself hd he).1
  · rintro ⟨hnames, hhelpers⟩
    refine ⟨fun d hd => nodup_names (hplain d hd), ?_⟩
    refine hnames.imp_of_mem fun {d e} hd he h => ⟨h, ?_, ?_⟩
    · exact hhelpers d hd e he
    · exact hhelpers e he d hd

/-! ### The parameters -/

/-- What the conversion of a parameter declares in the scope of the function. -/
def paramDeclared (p : Param) : Declared :=
  (p.name, if p.variadic || p.optional then [""] else conversionSuffixes p.type)

theorem plain_paramDeclared (p : Param) : (paramDeclared p).Plain := by
  unfold Declared.Plain paramDeclared
  split
  · exact .inr (.inl rfl)
  · exact conversionSuffixes_cases p.type

section

variable {m : IdlModule} {n : Nat} {l : LocalScopes}

theorem nodup_variadic (v : String) (type : TypeSpec) :
    ([v ++ "_i"] ++ (conversionSuffixes type).map ((v ++ "_elem") ++ ·)).Nodup := by
  refine (nodup_elementFromJs (v := v) type).sublist ?_
  exact List.Sublist.append (Sublist.cons_cons _ (nil_sublist _)) (List.Sublist.refl _)

theorem distinct_paramConversionLocals {p : Param} (h : paramConversionLocals m n p = some l) :
    l.here = (paramDeclared p).names ∧ (l.Distinct ↔ FromJsApart m p.type) := by
  have hsingle : (declare [p.name]).Distinct := distinct_declare.mpr (nodup_singleton _)
  have hself : [p.name] = [""].map (p.name ++ ·) :=
    congrArg (fun x => [x]) String.append_empty.symm
  unfold paramConversionLocals at h
  unfold Declared.names paramDeclared
  by_cases hvariadic : p.variadic = true
  · rw [if_pos hvariadic] at h
    obtain ⟨value, hvalue, h⟩ := bind_eq_some_iff.mp h
    cases h
    obtain ⟨hhere, hdistinct⟩ := distinct_valueConversionLocals_iff m n p.type _ _ hvalue
    refine ⟨by rw [hvariadic, Bool.true_or, if_pos rfl]; exact hself, ?_⟩
    rw [distinct_append, distinct_block,
      distinct_declare_append hhere (nodup_variadic p.name p.type),
      hdistinct]
    exact ⟨fun hall => hall.2.1, fun hapart => ⟨hsingle, hapart, disjoint_nil_right _⟩⟩
  · rw [if_neg hvariadic] at h
    rw [Bool.not_eq_true] at hvariadic
    rw [hvariadic, Bool.false_or]
    by_cases hoptional : p.optional = true
    · rw [if_pos hoptional] at h ⊢
      obtain ⟨value, hvalue, h⟩ := bind_eq_some_iff.mp h
      cases h
      obtain ⟨-, hdistinct⟩ := distinct_valueConversionLocals_iff m n p.type _ _ hvalue
      refine ⟨hself, ?_⟩
      rw [distinct_append, distinct_block, hdistinct]
      exact ⟨fun hall => hall.2.1, fun hapart => ⟨hsingle, hapart, disjoint_nil_right _⟩⟩
    · rw [if_neg hoptional] at h ⊢
      exact distinct_valueConversionLocals_iff m n p.type _ _ h

theorem distinct_paramConversionsLocals {params : List Param}
    (h : paramConversionsLocals m n params = some l) :
    l.here = (params.map paramDeclared).flatMap Declared.names ∧
      (l.Distinct ↔ NamesApart (params.map paramDeclared) ∧
        ∀ p ∈ params, FromJsApart m p.type) := by
  have hplain : ∀ params : List Param, ∀ d ∈ params.map paramDeclared, d.Plain := by
    intro params d hd
    obtain ⟨p, -, rfl⟩ := List.mem_map.mp hd
    exact plain_paramDeclared p
  rw [← nodup_flatMap_names (hplain params)]
  clear hplain
  induction params generalizing l with
  | nil =>
    cases h
    exact ⟨rfl, iff_of_true (distinct_declare.mpr nodup_nil)
      ⟨nodup_nil, fun _ hp => nomatch hp⟩⟩
  | cons p rest ih =>
    obtain ⟨first, hfirst, h⟩ := bind_eq_some_iff.mp h
    obtain ⟨others, hothers, h⟩ := bind_eq_some_iff.mp h
    cases h
    obtain ⟨hhere, hdistinct⟩ := distinct_paramConversionLocals hfirst
    obtain ⟨hrest, hrestDistinct⟩ := ih hothers
    have hnames : ((p :: rest).map paramDeclared).flatMap Declared.names =
        (paramDeclared p).names ++ (rest.map paramDeclared).flatMap Declared.names := rfl
    refine ⟨?_, ?_⟩
    · rw [here_append, hhere, hrest, hnames]
    · have hown := nodup_names (plain_paramDeclared p)
      rw [distinct_append, hdistinct, hrestDistinct, hhere, hrest, hnames, nodup_append',
        forall_mem_cons]
      tauto

end

/-! ### Names of the function's own -/

/-- The first character of a name. -/
def firstChar (x : String) : Option Char := x.toList.head?

theorem firstChar_append (s : String) {v : String} {c : Char} (h : firstChar v = some c) :
    firstChar (v ++ s) = some c := by
  unfold firstChar at h ⊢
  rw [String.toList_append, head?_append, h]
  rfl

/-- The variables below `v` that the conversion of a value to JS declares where it stands. -/
def Spelled (m : IdlModule) (type : TypeSpec) (v x : String) : Prop :=
  ∃ n found, pathsOf m n type = some found ∧ ∃ path ∈ found, x = v ++ spell path

theorem lastChar_spell (f : String) (path : List String) :
    lastChar (spell (f :: path)) = some 's' := by
  induction path generalizing f with
  | nil =>
    rw [spell, spell, String.append_empty]
    exact lastChar_append _ (by decide)
  | cons g rest ih =>
    rw [spell]
    exact lastChar_append _ (ih g)

section

variable {m : IdlModule} {n : Nat} {type : TypeSpec} {v x : String} {l : LocalScopes}

theorem Spelled.lastChar (h : Spelled m type v x) :
    Bruja.lastChar x = Bruja.lastChar v ∨ Bruja.lastChar x = some 's' := by
  obtain ⟨_, _, -, path, -, rfl⟩ := h
  cases path with
  | nil => exact .inl (congrArg Bruja.lastChar String.append_empty)
  | cons f rest => exact .inr (lastChar_append v (lastChar_spell f rest))

theorem Spelled.firstChar (h : Spelled m type v x) {c : Char} (hv : Bruja.firstChar v = some c) :
    Bruja.firstChar x = some c := by
  obtain ⟨_, _, -, path, -, rfl⟩ := h
  exact firstChar_append _ hv

theorem mem_here_toJsLocals (h : toJsLocals m n type v = some l) :
    x ∈ l.here ↔ Spelled m type v x := by
  obtain ⟨⟨found, hfound, hhere⟩, -⟩ := distinct_toJsLocals_iff m n type _ _ h
  rw [hhere, List.mem_map]
  constructor
  · rintro ⟨path, hpath, rfl⟩
    exact ⟨n, found, hfound, path, hpath, rfl⟩
  · rintro ⟨k, found', hfound', path, hpath, rfl⟩
    have hleft := pathsOf_mono (Nat.le_max_left n k) hfound
    have hright := pathsOf_mono (Nat.le_max_right n k) hfound'
    rw [← some.inj (hleft.symm.trans hright)] at hpath
    exact ⟨path, hpath, rfl⟩

end

/-- What a function returns is converted from a value of this type. -/
def resultType : TypeSpec → Option TypeSpec
  | .plain .void _ => none
  | .promise element _ => if element.isVoid then none else some element
  | type => some type

def promiseNames : TypeSpec → List String
  | .promise _ _ => ["resolving_funcs", "promise", "resolve_argv", "resolve_result"]
  | _ => []

/-- The variables of a return conversion. -/
def ReturnName (m : IdlModule) (type : TypeSpec) (x : String) : Prop :=
  x ∈ promiseNames type ∨ ∃ u, resultType type = some u ∧ Spelled m u "js_result" x

section

variable {m : IdlModule} {n : Nat} {type : TypeSpec} {x : String} {l : LocalScopes}

theorem not_mem_promiseNames {v : String} (h : Spelled m type "js_result" v) {names : List String}
    (hnames : ∀ y ∈ names, firstChar y ≠ some 'j') : v ∉ names := fun hmem =>
  hnames v hmem (h.firstChar (by decide))

theorem distinct_returned (h : toJsLocals m n type "js_result" = some l) :
    (∀ x, x ∈ l.here ↔ Spelled m type "js_result" x) ∧ (l.Distinct ↔ ToJsApart m type) :=
  ⟨fun _ => mem_here_toJsLocals h, (distinct_toJsLocals_iff m n type _ _ h).2⟩

theorem distinct_returnConversionLocals (h : returnConversionLocals m n type = some l) :
    (∀ x, x ∈ l.here ↔ ReturnName m type x) ∧
      (l.Distinct ↔ ∀ u, resultType type = some u → ToJsApart m u) := by
  -- whatever is converted to `js_result` and nothing else
  have hplain : ∀ t, toJsLocals m n t "js_result" = some l → promiseNames t = [] →
      resultType t = some t → (∀ x, x ∈ l.here ↔ ReturnName m t x) ∧
        (l.Distinct ↔ ∀ u, resultType t = some u → ToJsApart m u) := by
    intro t ht hnames htype
    obtain ⟨hhere, hdistinct⟩ := distinct_returned ht
    refine ⟨fun x => ?_, ?_⟩
    · rw [hhere, ReturnName, hnames, htype]
      exact ⟨fun hx => .inr ⟨t, rfl, hx⟩, fun hx => by
        obtain ⟨u, hu, hx⟩ := hx.resolve_left not_mem_nil
        cases hu
        exact hx⟩
    · rw [hdistinct, htype]
      exact ⟨fun hapart u hu => some.inj hu ▸ hapart, fun hall => hall t rfl⟩
  cases type with
  | promise element b =>
    have hfirst : ["resolving_funcs", "promise"].Nodup := by decide
    have hlast : ["resolve_argv", "resolve_result"].Nodup := by decide
    have hboth : ["resolving_funcs", "promise"].Disjoint ["resolve_argv", "resolve_result"] := by
      rw [disjoint_left]
      decide
    change promiseReturnConversionLocals m n element = some l at h
    unfold promiseReturnConversionLocals at h
    unfold ReturnName
    by_cases hvoid : element.isVoid = true
    · have htype : resultType (.promise element b) = none := if_pos hvoid
      rw [htype]
      rw [if_pos hvoid] at h
      cases h
      refine ⟨fun x => ⟨fun hx => .inl hx, fun hx => hx.resolve_right ?_⟩, iff_of_true ?_ nofun⟩
      · rintro ⟨u, hu, -⟩
        cases hu
      · exact distinct_append.mpr ⟨distinct_declare.mpr hfirst, distinct_declare.mpr hlast, hboth⟩
    · have htype : resultType (.promise element b) = some element := if_neg hvoid
      rw [htype]
      rw [if_neg hvoid] at h
      obtain ⟨value, hvalue, h⟩ := bind_eq_some_iff.mp h
      cases h
      obtain ⟨hhere, hdistinct⟩ := distinct_returned hvalue
      refine ⟨fun x => ?_, ?_⟩
      · rw [here_append, here_append, mem_append, mem_append, hhere]
        have hnames : x ∈ promiseNames (.promise element b) ↔
            x ∈ ["resolving_funcs", "promise"] ∨ x ∈ ["resolve_argv", "resolve_result"] :=
          mem_append (s := ["resolving_funcs", "promise"])
        have hsome : (∃ u, some element = some u ∧ Spelled m u "js_result" x) ↔
            Spelled m element "js_result" x :=
          ⟨fun ⟨u, hu, hx⟩ => some.inj hu ▸ hx, fun hx => ⟨element, rfl, hx⟩⟩
        rw [hnames, hsome]
        exact or_right_comm
      · have hvalueFirst : ["resolving_funcs", "promise"].Disjoint value.here :=
          disjoint_right.mpr fun x hx => not_mem_promiseNames ((hhere x).mp hx) (by decide)
        have hvalueLast : value.here.Disjoint ["resolve_argv", "resolve_result"] :=
          disjoint_left.mpr fun x hx => not_mem_promiseNames ((hhere x).mp hx) (by decide)
        rw [distinct_append, distinct_append, hdistinct, here_append, disjoint_append_left]
        constructor
        · rintro ⟨⟨-, hapart, -⟩, -⟩ u hu
          cases hu
          exact hapart
        · intro hall
          exact ⟨⟨distinct_declare.mpr hfirst, hall element rfl, hvalueFirst⟩,
            distinct_declare.mpr hlast, hboth, hvalueLast⟩
  | plain kind b =>
    cases kind with
    | void =>
      cases h
      refine ⟨fun x => ⟨nofun, ?_⟩, iff_of_true (distinct_declare.mpr nodup_nil) nofun⟩
      rintro (hx | ⟨u, hu, -⟩)
      · cases hx
      · cases hu
    | _ => exact hplain _ h rfl rfl
  | _ => exact hplain _ h rfl rfl

end

end Voodoo.Bruja
