import Voodoo.Bruja.FunctionScopes

/-!
# The variables of a function

`Function.Apart` says of what the module declares that no scope of a function has a name twice
(`distinct_scopes_iff`).  The names of the function's own, `OwnName`, are all different but for what
the fields of dictionaries need, and none ends as a helper does; so the helpers of a parameter are no
concern, only that no parameter is named like one.
-/

namespace Voodoo.Bruja

open Relation LocalScopes List

/-- The names that a function has in its outermost scope besides those of the module. -/
def OwnName (m : IdlModule) : Function → String → Prop
  | .method _ f, x => x ∈ ["ctx", "this_val", "argc", "argv", "impl"] ∨
      (returnsVoid f.returnType = false ∧ x = "result") ∨ ReturnName m f.returnType x
  | .getter _ attr, x => x ∈ ["ctx", "this_val", "impl", "result"] ∨ ReturnName m attr.type x
  | .setter _ _, x => x ∈ ["ctx", "this_val", "val", "impl"]
  | .construct _ _, x => x ∈ ["ctx", "this_val", "argc", "argv", "impl"]
  | .call decl, x => x ∈ ["ctx", "call_result"] ∨ (decl.params ≠ [] ∧ x = "argv") ∨
      (∃ i p, decl.params[i]? = some p ∧ Spelled m p.type (argVar i) x) ∨
      (decl.returnType.isVoid = false ∧
        x ∈ (conversionSuffixes decl.returnType).map ("cpp_result" ++ ·))

/-- What is declared there under a name of the module. -/
def Function.declared : Function → List Declared
  | .method _ f => f.params.map paramDeclared
  | .getter _ _ => []
  | .setter _ attr => if attr.readonly then [] else [(attr.name, conversionSuffixes attr.type)]
  | .construct _ params => params.map paramDeclared
  | .call decl => decl.params.map fun p => (p.name, [""])

/-- The types that a function converts from JS. -/
def Function.fromJs : Function → List TypeSpec
  | .method _ f => f.params.map (·.type)
  | .getter _ _ => []
  | .setter _ attr => if attr.readonly then [] else [attr.type]
  | .construct _ params => params.map (·.type)
  | .call decl => if decl.returnType.isVoid then [] else [decl.returnType]

/-- The types that it converts to JS. -/
def Function.toJs : Function → List TypeSpec
  | .method _ f => (resultType f.returnType).toList
  | .getter _ attr => (resultType attr.type).toList
  | .setter _ _ => []
  | .construct _ _ => []
  | .call decl => decl.params.map (·.type)

/-- The names that the module gives are different, none is a helper of another, and none is one of
the function's own; the dictionaries that are converted have no clash of fields. -/
structure Function.Apart (m : IdlModule) (f : Function) : Prop where
  names : NamesApart f.declared
  own : ∀ d ∈ f.declared, d.2 ≠ [] → ¬ OwnName m f d.1
  fromJs : ∀ t ∈ f.fromJs, FromJsApart m t
  toJs : ∀ t ∈ f.toJs, ToJsApart m t

/-! ### One scope -/

section

variable {a p b : LocalScopes} {ds : List Declared} {Own : String → Prop}

theorem distinct_around :
    (a ++ p ++ b).Distinct ↔ (a ++ b).Distinct ∧ p.Distinct ∧
      ∀ x ∈ p.here, x ∉ (a ++ b).here := by
  rw [distinct_append, distinct_append, distinct_append, here_append, here_append,
    disjoint_append_left]
  constructor
  · rintro ⟨⟨ha, hp, hap⟩, hb, hab, hpb⟩
    refine ⟨⟨ha, hb, hab⟩, hp, fun x hx hxab => ?_⟩
    rcases mem_append.mp hxab with hxa | hxb
    · exact hap hxa hx
    · exact hpb hx hxb
  · rintro ⟨⟨ha, hb, hab⟩, hp, hnot⟩
    exact ⟨⟨ha, hp, fun x hxa hx => hnot x hx (mem_append_left _ hxa)⟩, hb, hab,
      fun x hx hxb => hnot x hx (mem_append_right _ hxb)⟩

theorem forall_names_iff (hplain : ∀ d ∈ ds, d.Plain)
    (hown : ∀ d ∈ ds, ∀ s ∈ d.2, s = "_raw" ∨ s = "_cstr" → ¬ Own (d.1 ++ s)) :
    (∀ x ∈ ds.flatMap Declared.names, ¬ Own x) ↔ ∀ d ∈ ds, d.2 ≠ [] → ¬ Own d.1 := by
  constructor
  · intro h d hd hne
    exact h d.1 (mem_flatMap.mpr ⟨d, hd, mem_names_self (hplain d hd) hne⟩)
  · intro h x hx
    obtain ⟨d, hd, hx⟩ := mem_flatMap.mp hx
    obtain ⟨hne, rfl | ⟨s, hs, -, rfl, hs'⟩⟩ := mem_names (hplain d hd) hx
    · exact h d hd hne
    · exact hown d hd s hs hs'

theorem distinct_function_iff {Q P : Prop} (hown : (a ++ b).Distinct ↔ Q)
    (hmem : ∀ x, x ∈ (a ++ b).here ↔ Own x) (hhere : p.here = ds.flatMap Declared.names)
    (hp : p.Distinct ↔ NamesApart ds ∧ P) (hplain : ∀ d ∈ ds, d.Plain)
    (hhelpers : ∀ d ∈ ds, ∀ s ∈ d.2, s = "_raw" ∨ s = "_cstr" → ¬ Own (d.1 ++ s)) :
    (a ++ p ++ b).Distinct ↔
      NamesApart ds ∧ (∀ d ∈ ds, d.2 ≠ [] → ¬ Own d.1) ∧ P ∧ Q := by
  rw [distinct_around, hown, hp, ← forall_names_iff hplain hhelpers, hhere]
  have hsame : (∀ x ∈ ds.flatMap Declared.names, x ∉ (a ++ b).here) ↔
      ∀ x ∈ ds.flatMap Declared.names, ¬ Own x :=
    forall₂_congr fun x _ => not_congr (hmem x)
  rw [hsame]
  tauto

end

theorem append_assoc_scopes (a b c : LocalScopes) : a ++ b ++ c = a ++ (b ++ c) :=
  congrArg₂ LocalScopes.mk (List.append_assoc _ _ _) (List.append_assoc _ _ _)

theorem declare_append (names names' : List String) :
    declare (names ++ names') = declare names ++ declare names' := rfl

theorem nil_append_scopes (a : LocalScopes) : declare [] ++ a = a := rfl

theorem helper_last {x s : String} (hs : s = "_raw" ∨ s = "_cstr") :
    lastChar (x ++ s) = some 'w' ∨ lastChar (x ++ s) = some 'r' := by
  rcases hs with rfl | rfl
  · exact .inl (lastChar_raw x)
  · exact .inr (lastChar_cstr x)

theorem not_helper_of_last {Own : String → Prop}
    (h : ∀ x, Own x → lastChar x ≠ some 'w' ∧ lastChar x ≠ some 'r') (x : String) {s : String}
    (hs : s = "_raw" ∨ s = "_cstr") : ¬ Own (x ++ s) := by
  intro hx
  rcases helper_last hs with hlast | hlast
  · exact (h _ hx).1 hlast
  · exact (h _ hx).2 hlast

section

variable {m : IdlModule} {n : Nat} {l : LocalScopes}

theorem last_of_mem {names : List String}
    (h : ∀ y ∈ names, lastChar y ≠ some 'w' ∧ lastChar y ≠ some 'r') {x : String} (hx : x ∈ names) :
    lastChar x ≠ some 'w' ∧ lastChar x ≠ some 'r' := h x hx

theorem ReturnName.last {type : TypeSpec} {x : String} (h : ReturnName m type x) :
    lastChar x ≠ some 'w' ∧ lastChar x ≠ some 'r' := by
  rcases h with h | ⟨u, -, h⟩
  · cases type with
    | promise element b =>
      change x ∈ ["resolving_funcs", "promise", "resolve_argv", "resolve_result"] at h
      exact last_of_mem (by decide) h
    | _ => cases h
  · rcases h.lastChar with hlast | hlast
    · rw [hlast]
      decide
    · rw [hlast]
      decide

theorem ReturnName.not_mem {type : TypeSpec} {x : String} (h : ReturnName m type x)
    {names : List String}
    (hnames : ∀ y ∈ names, firstChar y ≠ some 'j' ∧
      y ∉ ["resolving_funcs", "promise", "resolve_argv", "resolve_result"]) : x ∉ names := by
  intro hx
  obtain ⟨hfirst, hnot⟩ := hnames x hx
  rcases h with h | ⟨u, -, h⟩
  · cases type with
    | promise element b => exact hnot h
    | _ => cases h
  · exact hfirst (h.firstChar (by decide))

theorem distinct_own_returned {type : TypeSpec} {names : List String} {returned : LocalScopes}
    (hreturned : returnConversionLocals m n type = some returned) (hnodup : names.Nodup)
    (hnames : ∀ y ∈ names, firstChar y ≠ some 'j' ∧
      y ∉ ["resolving_funcs", "promise", "resolve_argv", "resolve_result"]) :
    ((declare names ++ returned).Distinct ↔ ∀ t ∈ (resultType type).toList, ToJsApart m t) ∧
      ∀ x, x ∈ (declare names ++ returned).here ↔ x ∈ names ∨ ReturnName m type x := by
  obtain ⟨hmem, hdistinct⟩ := distinct_returnConversionLocals hreturned
  refine ⟨?_, fun x => ?_⟩
  · have hlist : (∀ t ∈ (resultType type).toList, ToJsApart m t) ↔
        ∀ u, resultType type = some u → ToJsApart m u :=
      forall_congr' fun t => imp_congr_left Option.mem_toList
    have hdisjoint : names.Disjoint returned.here :=
      disjoint_right.mpr fun x hx => ((hmem x).mp hx).not_mem hnames
    rw [distinct_append, distinct_declare, hdistinct, hlist]
    exact ⟨fun h => h.2.1, fun h => ⟨hnodup, h, hdisjoint⟩⟩
  · rw [here_append, here_declare, mem_append, hmem]

theorem distinct_methodCallbackLocals {iface : String} {f : Method}
    (h : methodCallbackLocals m n f = some l) :
    l.Distinct ↔ (Function.method iface f).Apart m := by
  obtain ⟨params, hparams, h⟩ := Option.bind_eq_some_iff.mp h
  obtain ⟨returned, hreturned, h⟩ := Option.bind_eq_some_iff.mp h
  cases h
  obtain ⟨hhere, hdistinct⟩ := distinct_paramConversionsLocals hparams
  have hfixed : ∀ b : Bool, (["ctx", "this_val", "argc", "argv", "impl"] ++
      (if b then [] else ["result"])).Nodup ∧
      ∀ y ∈ ["ctx", "this_val", "argc", "argv", "impl"] ++ (if b then [] else ["result"]),
        firstChar y ≠ some 'j' ∧
          y ∉ ["resolving_funcs", "promise", "resolve_argv", "resolve_result"] := by decide
  obtain ⟨hnodup, hnames⟩ := hfixed (returnsVoid f.returnType)
  obtain ⟨hown, hmem⟩ := distinct_own_returned hreturned hnodup hnames
  rw [declare_append, append_assoc_scopes] at hown hmem
  have hmem' : ∀ x, x ∈ (declare ["ctx", "this_val", "argc", "argv", "impl"] ++
      (declare (if returnsVoid f.returnType then [] else ["result"]) ++ returned)).here ↔
      OwnName m (.method iface f) x := by
    intro x
    rw [hmem, mem_append, or_assoc]
    have hresult : x ∈ (if returnsVoid f.returnType then [] else ["result"]) ↔
        returnsVoid f.returnType = false ∧ x = "result" := by
      cases returnsVoid f.returnType <;> simp
    rw [hresult]
    rfl
  have hlast : ∀ x, OwnName m (.method iface f) x →
      lastChar x ≠ some 'w' ∧ lastChar x ≠ some 'r' := by
    rintro x (hx | ⟨-, rfl⟩ | hx)
    · exact last_of_mem (by decide) hx
    · decide
    · exact hx.last
  have hplain : ∀ d ∈ f.params.map paramDeclared, d.Plain := by
    intro d hd
    obtain ⟨p, -, rfl⟩ := List.mem_map.mp hd
    exact plain_paramDeclared p
  rw [append_assoc_scopes, distinct_function_iff hown hmem' hhere hdistinct hplain
    fun d _ s _ hs => not_helper_of_last hlast d.1 hs]
  have htypes : (∀ p ∈ f.params, FromJsApart m p.type) ↔
      ∀ t ∈ f.params.map (·.type), FromJsApart m t := List.forall_mem_map.symm
  rw [htypes]
  exact ⟨fun ⟨h₁, h₂, h₃, h₄⟩ => ⟨h₁, h₂, h₃, h₄⟩, fun ⟨h₁, h₂, h₃, h₄⟩ => ⟨h₁, h₂, h₃, h₄⟩⟩

theorem distinct_getterLocals {iface : String} {attr : Attribute}
    (h : getterLocals m n attr = some l) : l.Distinct ↔ (Function.getter iface attr).Apart m := by
  obtain ⟨returned, hreturned, h⟩ := Option.bind_eq_some_iff.mp h
  cases h
  have hnodup : ["ctx", "this_val", "impl", "result"].Nodup := by decide
  obtain ⟨hown, -⟩ := distinct_own_returned hreturned hnodup (by decide)
  rw [hown]
  exact ⟨fun hall => ⟨⟨List.Pairwise.nil, nofun⟩, nofun, nofun, hall⟩, fun hapart => hapart.toJs⟩

/-- A setter converts one value, as it were a parameter with the name of the attribute. -/
theorem distinct_setterLocals {iface : String} {attr : Attribute}
    (h : setterLocals m n attr = some l) : l.Distinct ↔ (Function.setter iface attr).Apart m := by
  have hfixed : (declare ["ctx", "this_val", "val", "impl"]).Distinct :=
    distinct_declare.mpr (by decide)
  have hlast : ∀ x, OwnName m (.setter iface attr) x →
      lastChar x ≠ some 'w' ∧ lastChar x ≠ some 'r' := fun x hx => last_of_mem (by decide) hx
  unfold setterLocals at h
  by_cases hreadonly : attr.readonly = true
  · rw [if_pos hreadonly] at h
    cases h
    have hdeclared : (Function.setter iface attr).declared = [] := if_pos hreadonly
    have htypes : (Function.setter iface attr).fromJs = [] := if_pos hreadonly
    refine iff_of_true hfixed ⟨?_, ?_, ?_, nofun⟩
    · rw [hdeclared]
      exact ⟨List.Pairwise.nil, nofun⟩
    · rw [hdeclared]
      exact nofun
    · rw [htypes]
      exact nofun
  · rw [if_neg hreadonly] at h
    obtain ⟨value, hvalue, h⟩ := Option.bind_eq_some_iff.mp h
    cases h
    have hdeclared : (Function.setter iface attr).declared =
        [(attr.name, conversionSuffixes attr.type)] := if_neg hreadonly
    have htypes : (Function.setter iface attr).fromJs = [attr.type] := if_neg hreadonly
    obtain ⟨hhere, hdistinct⟩ := distinct_valueConversionLocals_iff m n attr.type _ _ hvalue
    have hplain : ∀ d ∈ [(attr.name, conversionSuffixes attr.type)], Declared.Plain d := by
      intro d hd
      rw [mem_singleton.mp hd]
      exact conversionSuffixes_cases attr.type
    have hsingle : NamesApart [(attr.name, conversionSuffixes attr.type)] := by
      rw [← nodup_flatMap_names hplain, flatMap_singleton]
      exact nodup_names (hplain _ (mem_singleton.mpr rfl))
    have hempty : declare ["ctx", "this_val", "val", "impl"] ++ value =
        declare ["ctx", "this_val", "val", "impl"] ++ value ++ declare [] := by
      refine congrArg₂ LocalScopes.mk ?_ ?_
      · exact (append_nil _).symm
      · exact (append_nil _).symm
    have hmem : ∀ x, x ∈ (declare ["ctx", "this_val", "val", "impl"] ++ declare []).here ↔
        OwnName m (.setter iface attr) x := fun _ => Iff.rfl
    have hown : (declare ["ctx", "this_val", "val", "impl"] ++ declare []).Distinct ↔ True :=
      iff_of_true hfixed trivial
    rw [hempty, distinct_function_iff hown hmem
      (hhere.trans (flatMap_singleton _ _).symm)
      (hdistinct.trans (and_iff_right hsingle).symm) hplain
      fun d _ s _ hs => not_helper_of_last hlast d.1 hs]
    constructor
    · rintro ⟨hnames, hown, hfrom, -⟩
      refine ⟨hdeclared ▸ hnames, hdeclared ▸ hown, ?_, nofun⟩
      rw [htypes]
      exact forall_mem_singleton.mpr hfrom
    · rintro ⟨hnames, hown, hfrom, -⟩
      rw [htypes] at hfrom
      exact ⟨hdeclared ▸ hnames, hdeclared ▸ hown, forall_mem_singleton.mp hfrom, trivial⟩

theorem distinct_constructLocals {iface : String} {params : List Param}
    (h : constructLocals m n params = some l) :
    l.Distinct ↔ (Function.construct iface params).Apart m := by
  obtain ⟨conversions, hconversions, h⟩ := Option.bind_eq_some_iff.mp h
  cases h
  obtain ⟨hhere, hdistinct⟩ := distinct_paramConversionsLocals hconversions
  have hown : (declare ["ctx", "this_val", "argc", "argv"] ++ declare ["impl"]).Distinct ↔ True :=
    iff_of_true (distinct_declare.mpr (by decide)) trivial
  have hmem : ∀ x, x ∈ (declare ["ctx", "this_val", "argc", "argv"] ++ declare ["impl"]).here ↔
      OwnName m (.construct iface params) x := fun _ => Iff.rfl
  have hlast : ∀ x, OwnName m (.construct iface params) x →
      lastChar x ≠ some 'w' ∧ lastChar x ≠ some 'r' := fun x hx => last_of_mem (by decide) hx
  have hplain : ∀ d ∈ params.map paramDeclared, d.Plain := by
    intro d hd
    obtain ⟨p, -, rfl⟩ := List.mem_map.mp hd
    exact plain_paramDeclared p
  have htypes : (∀ p ∈ params, FromJsApart m p.type) ↔
      ∀ t ∈ params.map (·.type), FromJsApart m t := List.forall_mem_map.symm
  rw [distinct_function_iff hown hmem hhere hdistinct hplain
    fun d _ s _ hs => not_helper_of_last hlast d.1 hs, htypes]
  exact ⟨fun ⟨h₁, h₂, h₃, _⟩ => ⟨h₁, h₂, h₃, nofun⟩, fun ⟨h₁, h₂, h₃, _⟩ => ⟨h₁, h₂, h₃, trivial⟩⟩

/-! ### A callback -/

theorem spell_head (path : List String) :
    (spell path).toList = [] ∨ ∃ rest, (spell path).toList = '_' :: rest := by
  cases path with
  | nil => exact .inl rfl
  | cons f path =>
    refine .inr ⟨f.toList ++ ("_js".toList ++ (spell path).toList), ?_⟩
    simp only [spell, String.toList_append, List.append_assoc]
    rfl

theorem argVar_of_spelled {i j : Nat} {p q : List String}
    (h : argVar i ++ spell p = argVar j ++ spell q) : i = j := by
  have hdigits : ∀ (k : Nat) (path : List String),
      ((toString k).toList ++ (spell path).toList).takeWhile (· ≠ '_') = (toString k).toList := by
    intro k path
    have hall : ∀ c ∈ (toString k).toList, decide (c ≠ '_') = true := by
      intro c hc
      have htoList : (toString k).toList = Nat.toDigits 10 k := String.toList_ofList
      rw [htoList] at hc
      refine decide_eq_true fun heq => ?_
      exact Nat.underscore_not_in_toDigits (heq ▸ hc)
    rw [takeWhile_append_of_pos hall]
    rcases spell_head path with hs | ⟨rest, hs⟩
    · rw [hs, takeWhile_nil, append_nil]
    · rw [hs, takeWhile_cons_of_neg (by decide), append_nil]
  unfold argVar at h
  rw [String.append_assoc, String.append_assoc] at h
  have hrest := congrArg String.toList ((String.append_right_inj _).mp h)
  rw [String.toList_append, String.toList_append] at hrest
  have htake := congrArg (List.takeWhile (· ≠ '_')) hrest
  rw [hdigits, hdigits] at htake
  exact toString_injective (String.toList_inj.mp htake)

theorem distinct_argumentsLocals {params : List Param} {i : Nat}
    (h : argumentsLocals m n i params = some l) :
    (∀ x, x ∈ l.here ↔ ∃ j p, params[j]? = some p ∧ Spelled m p.type (argVar (i + j)) x) ∧
      (l.Distinct ↔ ∀ t ∈ params.map (·.type), ToJsApart m t) := by
  induction params generalizing i l with
  | nil =>
    cases h
    refine ⟨fun x => iff_of_false nofun ?_, iff_of_true (distinct_declare.mpr nodup_nil) nofun⟩
    rintro ⟨j, p, hp, -⟩
    cases hp
  | cons p rest ih =>
    obtain ⟨first, hfirst, h⟩ := Option.bind_eq_some_iff.mp h
    obtain ⟨others, hothers, h⟩ := Option.bind_eq_some_iff.mp h
    cases h
    obtain ⟨hmem, hdistinct⟩ := ih hothers
    have hdisjoint : first.here.Disjoint others.here := by
      refine disjoint_left.mpr fun x hx hx' => ?_
      obtain ⟨_, _, -, path, -, hpath⟩ := (mem_here_toJsLocals hfirst).mp hx
      obtain ⟨j, q, -, _, _, -, path', -, hpath'⟩ := (hmem x).mp hx'
      have := argVar_of_spelled (hpath.symm.trans hpath')
      omega
    refine ⟨fun x => ?_, ?_⟩
    · rw [here_append, mem_append, mem_here_toJsLocals hfirst, hmem]
      constructor
      · rintro (hx | ⟨j, q, hq, hx⟩)
        · exact ⟨0, p, rfl, hx⟩
        · refine ⟨j + 1, q, hq, ?_⟩
          rwa [Nat.add_right_comm] at hx
      · rintro ⟨j, q, hq, hx⟩
        cases j with
        | zero =>
          cases hq
          exact .inl hx
        | succ j =>
          refine .inr ⟨j, q, hq, ?_⟩
          rwa [Nat.add_right_comm]
    · have hcons : (∀ t ∈ (p :: rest).map (·.type), ToJsApart m t) ↔
          ToJsApart m p.type ∧ ∀ t ∈ rest.map (·.type), ToJsApart m t := forall_mem_cons
      rw [distinct_append, (distinct_toJsLocals_iff m n p.type _ _ hfirst).2, hdistinct, hcons]
      exact ⟨fun h => ⟨h.1, h.2.1⟩, fun h => ⟨h.1, h.2, hdisjoint⟩⟩

theorem distinct_callResultLocals {type : TypeSpec} {result : LocalScopes}
    (h : callResultLocals m n type = some result) :
    (∀ x, x ∈ result.here ↔ type.isVoid = false ∧
        x ∈ (conversionSuffixes type).map ("cpp_result" ++ ·)) ∧
      (result.Distinct ↔ ∀ t ∈ (if type.isVoid then [] else [type]), FromJsApart m t) := by
  unfold callResultLocals at h
  by_cases hvoid : type.isVoid = true
  · rw [if_pos hvoid] at h ⊢
    cases h
    refine ⟨fun x => iff_of_false nofun ?_, iff_of_true (distinct_declare.mpr nodup_nil) nofun⟩
    rw [hvoid]
    exact nofun
  · rw [if_neg hvoid] at h ⊢
    obtain ⟨hhere, hdistinct⟩ := distinct_valueConversionLocals_iff m n type _ _ h
    refine ⟨fun x => ?_, hdistinct.trans forall_mem_singleton.symm⟩
    rw [hhere]
    exact (and_iff_right (Bool.not_eq_true _ ▸ hvoid)).symm

theorem not_mem_below_cppResult (type : TypeSpec) :
    ∀ x ∈ (conversionSuffixes type).map ("cpp_result" ++ ·),
      x ∉ ["ctx", "argv", "call_result"] ∧ firstChar x ≠ some 'j' := by
  rcases conversionSuffixes_cases type with h | h | h | h <;> rw [h] <;> decide

/-- The names of a `Call` besides its parameters. -/
theorem distinct_call_own {decl : CallbackDecl} {arguments result : LocalScopes}
    (harguments : argumentsLocals m n 0 decl.params = some arguments)
    (hresult : callResultLocals m n decl.returnType = some result) :
    ((declare ["ctx"] ++ arguments ++ (declare (if decl.params.isEmpty then [] else ["argv"]) ++
        (declare ["call_result"] ++ ((declare ["exc"]).block ++ result)))).Distinct ↔
      (∀ t ∈ (Function.call decl).fromJs, FromJsApart m t) ∧
        ∀ t ∈ (Function.call decl).toJs, ToJsApart m t) ∧
    ∀ x, x ∈ (declare ["ctx"] ++ arguments ++
        (declare (if decl.params.isEmpty then [] else ["argv"]) ++
          (declare ["call_result"] ++ ((declare ["exc"]).block ++ result)))).here ↔
      OwnName m (.call decl) x := by
  obtain ⟨hargs, hargsDistinct⟩ := distinct_argumentsLocals harguments
  obtain ⟨hresultHere, hresultDistinct⟩ := distinct_callResultLocals hresult
  have hargv : ∀ x, x ∈ (if decl.params.isEmpty then [] else ["argv"]) ↔
      decl.params ≠ [] ∧ x = "argv" := by
    intro x
    cases decl.params <;> simp
  have hfixed : ["ctx"].Nodup ∧ (if decl.params.isEmpty then [] else ["argv"]).Nodup ∧
      ["ctx"].Disjoint (if decl.params.isEmpty then [] else ["argv"]) ∧
      (if decl.params.isEmpty then [] else ["argv"]).Disjoint ["call_result"] := by
    cases decl.params.isEmpty <;> refine ⟨by decide, by decide, ?_, ?_⟩ <;>
      rw [disjoint_left] <;> decide
  obtain ⟨hctx, hargvNodup, hctxArgv, hargvCall⟩ := hfixed
  have hctxCall : ["ctx"].Disjoint ["call_result"] := by
    rw [disjoint_left]
    decide
  have hcall : ["call_result"].Nodup := nodup_singleton _
  have hexc : (declare ["exc"]).block.Distinct :=
    distinct_block.mpr (distinct_declare.mpr (nodup_singleton _))
  have hnone : ∀ x ∈ result.here, x ∉ ["ctx", "argv", "call_result"] ∧ firstChar x ≠ some 'j' :=
    fun x hx => not_mem_below_cppResult decl.returnType x ((hresultHere x).mp hx).2
  have hctxResult : ["ctx"].Disjoint result.here := disjoint_right.mpr fun x hx hmem =>
    (hnone x hx).1 (mem_singleton.mp hmem ▸ mem_cons_self)
  have hcallResult : ["call_result"].Disjoint result.here :=
    disjoint_right.mpr fun x hx hmem =>
    (hnone x hx).1 (by rw [mem_singleton.mp hmem]; decide)
  have hargvResult : (if decl.params.isEmpty then [] else ["argv"]).Disjoint result.here :=
    disjoint_right.mpr fun x hx hmem =>
      (hnone x hx).1 (by rw [((hargv x).mp hmem).2]; decide)
  refine ⟨?_, fun x => ?_⟩
  · rw [distinct_around, hargsDistinct]
    simp only [distinct_append, distinct_declare, hresultDistinct, here_append, here_declare,
      here_block, nil_append, disjoint_append_right]
    constructor
    · rintro ⟨⟨-, ⟨-, ⟨-, ⟨-, hfrom, -⟩, -⟩, -⟩, -⟩, hto, -⟩
      exact ⟨hfrom, hto⟩
    · rintro ⟨hfrom, hto⟩
      refine ⟨⟨hctx, ⟨hargvNodup, ⟨hcall, ⟨hexc, hfrom, disjoint_nil_left _⟩, hcallResult⟩,
        hargvCall, hargvResult⟩, hctxArgv, hctxCall, hctxResult⟩, hto, fun x hx hmem => ?_⟩
      obtain ⟨j, p, -, hspelled⟩ := (hargs x).mp hx
      have hfirst : firstChar x = some 'j' :=
        hspelled.firstChar (firstChar_append _ (by decide))
      rcases mem_append.mp hmem with hmem | hmem
      · rw [mem_singleton.mp hmem] at hfirst
        exact absurd hfirst (by decide)
      rcases mem_append.mp hmem with hmem | hmem
      · rw [((hargv x).mp hmem).2] at hfirst
        exact absurd hfirst (by decide)
      rcases mem_append.mp hmem with hmem | hmem
      · rw [mem_singleton.mp hmem] at hfirst
        exact absurd hfirst (by decide)
      · exact (hnone x hmem).2 hfirst
  · simp only [here_append, here_declare, here_block, nil_append, mem_append,
      hargs, hargv,
      hresultHere, OwnName, Nat.zero_add, mem_cons, not_mem_nil, or_false]
    have hperm : ∀ A B C D E : Prop, (A ∨ D) ∨ B ∨ C ∨ E ↔ (A ∨ C) ∨ B ∨ D ∨ E := by tauto
    exact hperm _ _ _ _ _

theorem distinct_callLocals {decl : CallbackDecl} (h : callLocals m n decl = some l) :
    l.Distinct ↔ (Function.call decl).Apart m := by
  obtain ⟨arguments, harguments, h⟩ := Option.bind_eq_some_iff.mp h
  obtain ⟨result, hresult, h⟩ := Option.bind_eq_some_iff.mp h
  cases h
  obtain ⟨hown, hmem⟩ := distinct_call_own harguments hresult
  rw [← nil_append_scopes (declare ["ctx"] ++ arguments ++ _)] at hown
  have hplain : ∀ d ∈ decl.params.map fun p => (p.name, [""]), Declared.Plain d := by
    intro d hd
    obtain ⟨p, -, rfl⟩ := List.mem_map.mp hd
    exact .inr (.inl rfl)
  have hnames : (declare (decl.params.map (·.name))).here =
      (decl.params.map fun p => ((p.name, [""]) : Declared)).flatMap Declared.names := by
    rw [flatMap_map, here_declare]
    induction decl.params with
    | nil => rfl
    | cons p rest ih =>
      rw [map_cons, flatMap_cons, ← ih, Declared.names]
      exact congrArg (· :: _) String.append_empty.symm
  have hdistinct : (declare (decl.params.map (·.name))).Distinct ↔
      NamesApart (decl.params.map fun p => (p.name, [""])) ∧ True := by
    rw [and_true, ← nodup_flatMap_names hplain, ← hnames]
    exact distinct_declare
  have hassoc : declare (decl.params.map (·.name) ++ ["ctx"]) ++ arguments ++
      declare (if decl.params.isEmpty then [] else ["argv"]) ++ declare ["call_result"] ++
      (declare ["exc"]).block ++ result =
      declare [] ++ declare (decl.params.map (·.name)) ++ (declare ["ctx"] ++ arguments ++
        (declare (if decl.params.isEmpty then [] else ["argv"]) ++
          (declare ["call_result"] ++ ((declare ["exc"]).block ++ result)))) := by
    rw [declare_append]
    simp only [append_assoc_scopes]
    rfl
  rw [hassoc, distinct_function_iff hown hmem hnames hdistinct hplain]
  · constructor
    · rintro ⟨h₁, h₂, -, h₃⟩
      exact ⟨h₁, h₂, h₃.1, h₃.2⟩
    · rintro ⟨h₁, h₂, h₃, h₄⟩
      exact ⟨h₁, h₂, trivial, h₃, h₄⟩
  · intro d hd s hs hhelper
    obtain ⟨p, -, rfl⟩ := List.mem_map.mp hd
    rw [mem_singleton.mp hs] at hhelper
    exact absurd hhelper (by decide)

/-- **When the scopes of a function declare no name twice.** -/
theorem distinct_scopes_iff {f : Function} (h : f.scopes m n = some l) :
    l.Distinct ↔ f.Apart m := by
  cases f with
  | method iface f => exact distinct_methodCallbackLocals h
  | getter iface attr => exact distinct_getterLocals h
  | setter iface attr => exact distinct_setterLocals h
  | construct iface params => exact distinct_constructLocals h
  | call decl => exact distinct_callLocals h

end

end Voodoo.Bruja
