import Voodoo.Bruja.LocalClashes

/-!
# The ways to the fields of a dictionary

The conversion of a dictionary to JS names a variable for each of its fields, and where a field is a
dictionary again and not nullable, for the fields of that one in the same scope.  So the names stand
for the ways to the fields, and `_js_b_js` below `v_a` may come from a field `b` of a field `a` as
well as from a field `a_js_b`.
-/

namespace Voodoo.Bruja

open Relation LocalScopes List Option

/-- The name for a way to a field, below the variable of the dictionary. -/
def spell : List String → String
  | [] => ""
  | f :: rest => "_" ++ f ++ "_js" ++ spell rest

theorem fieldJs_append_spell (v : String) (f : DictField) (path : List String) :
    fieldJs v f ++ spell path = v ++ spell (f.name :: path) := by
  simp only [fieldJs, spell, String.append_assoc]

section

variable (paths : TypeSpec → Option (List (List String)))

def fieldsPaths : List DictField → Option (List (List String))
  | [] => some []
  | field :: rest => do
    let first ← paths field.type
    let others ← fieldsPaths rest
    some (first.map (field.name :: ·) ++ others)

/-- The ways to what is named in the scope of a value of the type: to the value itself, and to the
fields of a dictionary. -/
def basePaths (m : IdlModule) : TypeSpec → Option (List (List String))
  | .plain .void _ | .ref .unresolved _ _ | .promise _ _ => some []
  | .ref .dictionary name _ => do
    let fields ← m.collectEffectiveFields name
    let paths ← fieldsPaths paths fields
    some ([] :: paths)
  | _ => some [[]]

end

/-- What a dictionary that is nullable needs stands in a scope of its own. -/
def pathsOf (m : IdlModule) : Nat → TypeSpec → Option (List (List String))
  | 0, _ => none
  | n + 1, type =>
    if type.isInterface || type.nullable then some [[]] else basePaths (pathsOf m n) m type

theorem fieldsPaths_mono {paths paths' : TypeSpec → Option (List (List String))}
    (hpaths : ∀ t found, paths t = some found → paths' t = some found) (fields : List DictField)
    {found : List (List String)} (h : fieldsPaths paths fields = some found) :
    fieldsPaths paths' fields = some found := by
  induction fields generalizing found with
  | nil => exact h
  | cons f rest ih =>
    obtain ⟨first, hfirst, h⟩ := bind_eq_some_iff.mp h
    obtain ⟨others, hothers, h⟩ := bind_eq_some_iff.mp h
    cases h
    exact bind_eq_some_iff.mpr ⟨first, hpaths _ _ hfirst,
      bind_eq_some_iff.mpr ⟨others, ih hothers, rfl⟩⟩

theorem basePaths_mono {m : IdlModule} {paths paths' : TypeSpec → Option (List (List String))}
    (hpaths : ∀ t found, paths t = some found → paths' t = some found) (type : TypeSpec)
    {found : List (List String)} (h : basePaths paths m type = some found) :
    basePaths paths' m type = some found := by
  cases type with
  | plain kind b => cases kind <;> exact h
  | ref kind name b =>
    cases kind with
    | dictionary =>
      obtain ⟨fields, hfields, h⟩ := bind_eq_some_iff.mp h
      obtain ⟨others, hothers, h⟩ := bind_eq_some_iff.mp h
      cases h
      exact bind_eq_some_iff.mpr ⟨fields, hfields, bind_eq_some_iff.mpr
        ⟨others, fieldsPaths_mono hpaths fields hothers, rfl⟩⟩
    | _ => exact h
  | _ => exact h

theorem pathsOf_mono {m : IdlModule} {n k : Nat} (hle : n ≤ k) {type : TypeSpec}
    {found : List (List String)} (h : pathsOf m n type = some found) :
    pathsOf m k type = some found := by
  induction n generalizing k type found with
  | zero => cases h
  | succ n ih =>
    obtain ⟨k, rfl⟩ : ∃ j, k = j + 1 := ⟨k - 1, by omega⟩
    unfold pathsOf at h ⊢
    split
    case isTrue hself => rwa [if_pos hself] at h
    case isFalse hbase =>
      rw [if_neg hbase] at h
      exact basePaths_mono (fun _ _ => ih (by omega)) type h

/-- The ways to the fields of the type are spelled differently. -/
def PathsApart (m : IdlModule) (type : TypeSpec) : Prop :=
  ∀ n found, pathsOf m n type = some found → (found.map spell).Nodup

theorem pathsApart_iff {m : IdlModule} {n : Nat} {type : TypeSpec} {found : List (List String)}
    (h : pathsOf m n type = some found) : PathsApart m type ↔ (found.map spell).Nodup := by
  constructor
  · exact fun hall => hall n found h
  · intro hnodup k found' hfound'
    have hleft := pathsOf_mono (Nat.le_max_left n k) h
    have hright := pathsOf_mono (Nat.le_max_right n k) hfound'
    rwa [← some.inj (hleft.symm.trans hright)]

/-- So are those of all types that are converted to JS on the way. -/
def ToJsApart (m : IdlModule) (type : TypeSpec) : Prop :=
  ∀ u, ReflTransGen (Component m) type u → PathsApart m u.nonNull

theorem toJsApart_iff {m : IdlModule} {t : TypeSpec} :
    ToJsApart m t ↔ PathsApart m t.nonNull ∧ ∀ u, Component m t u → ToJsApart m u := by
  constructor
  · intro h
    exact ⟨h t .refl, fun u hu w hw => h w (.head hu hw)⟩
  · rintro ⟨hself, hnext⟩ u hu
    rcases ReflTransGen.cases_head hu with rfl | ⟨w, hw, hwu⟩
    · exact hself
    · exact hnext w hw u hwu

theorem nonNull_nonNull (t : TypeSpec) : t.nonNull.nonNull = t.nonNull := by
  cases t <;> rfl

theorem not_nullable_nonNull (t : TypeSpec) : t.nonNull.nullable = false := by
  cases t <;> rfl

theorem toJsApart_nonNull {m : IdlModule} {t : TypeSpec} : ToJsApart m t.nonNull ↔
    ToJsApart m t := by
  rw [toJsApart_iff, toJsApart_iff, nonNull_nonNull]
  exact and_congr_right fun _ => forall_congr' fun u => imp_congr_left component_nonNull

theorem nonNull_eq_self {t : TypeSpec} (h : t.nullable = false) : t.nonNull = t := by
  cases t with
  | _ =>
    obtain rfl := h
    rfl

theorem pathsApart_of_single {m : IdlModule} {t : TypeSpec}
    (h : ∀ n found, pathsOf m (n + 1) t = some found → found.length ≤ 1) : PathsApart m t := by
  rintro (_ | n) found hfound
  · cases hfound
  · match found, h n found hfound with
    | [], _ => exact nodup_nil
    | [path], _ => exact nodup_singleton _

section

variable {m : IdlModule} {n : Nat} {type : TypeSpec} {v : String} {l : LocalScopes}

theorem toJsLocals_succ (hi : type.isInterface = false) :
    toJsLocals m (n + 1) type v =
      if type.nullable then
        (baseToJsLocals (toJsLocals m n) m type.nonNull (v ++ "_present")).bind
          fun value => some (declare [v] ++ value.block)
      else baseToJsLocals (toJsLocals m n) m type v := by
  cases type with
  | ref kind name b =>
    cases kind with
    | interface => cases hi
    | _ => rfl
  | _ => rfl

/-- What there is to say of a conversion to JS. -/
def DeclaresToJs (m : IdlModule) (n : Nat) (t : TypeSpec) : Prop :=
  ∀ w l, toJsLocals m n t w = some l →
    (∃ found, pathsOf m n t = some found ∧ l.here = found.map fun path => w ++ spell path) ∧
      (l.Distinct ↔ ToJsApart m t)

theorem distinct_fieldsToJsLocals (fields : List DictField)
    (hconv : ∀ f ∈ fields, DeclaresToJs m n f.type)
    (h : fieldsToJsLocals (toJsLocals m n) v fields = some l) :
    (∃ found, fieldsPaths (pathsOf m n) fields = some found ∧
        l.here = found.map fun path => v ++ spell path) ∧
      (l.here.Nodup → (l.Distinct ↔ ∀ f ∈ fields, ToJsApart m f.type)) := by
  induction fields generalizing l with
  | nil =>
    cases h
    exact ⟨⟨[], rfl, rfl⟩, fun hnodup => iff_of_true (distinct_declare.mpr hnodup)
      fun _ hf => nomatch hf⟩
  | cons f rest ih =>
    obtain ⟨value, hvalue, h⟩ := bind_eq_some_iff.mp h
    obtain ⟨others, hothers, h⟩ := bind_eq_some_iff.mp h
    cases h
    obtain ⟨⟨first, hfirst, hhere⟩, hdistinct⟩ := hconv f mem_cons_self _ _ hvalue
    obtain ⟨⟨found, hfound, hrest⟩, hrestDistinct⟩ :=
      ih (fun g hg => hconv g (mem_cons_of_mem f hg)) hothers
    refine ⟨⟨first.map (f.name :: ·) ++ found, ?_, ?_⟩, fun hnodup => ?_⟩
    · exact bind_eq_some_iff.mpr ⟨first, hfirst,
        bind_eq_some_iff.mpr ⟨found, hfound, rfl⟩⟩
    · rw [here_append, hhere, hrest, map_append, List.map_map]
      refine congrArg (· ++ _) (map_congr_left fun path _ => ?_)
      exact fieldJs_append_spell v f path
    · obtain ⟨-, hright, hdisjoint⟩ := nodup_append'.mp hnodup
      rw [distinct_append, hdistinct, hrestDistinct hright, forall_mem_cons]
      exact ⟨fun hall => ⟨hall.1, hall.2.1⟩, fun hall => ⟨hall.1, hall.2, hdisjoint⟩⟩

theorem pathsApart_interface {t : TypeSpec} (h : t.isInterface = true) : PathsApart m t := by
  refine pathsApart_of_single fun n found hfound => ?_
  unfold pathsOf at hfound
  rw [h, Bool.true_or, if_pos rfl] at hfound
  cases hfound
  exact le_rfl

theorem distinct_element (hdistinct : l.Distinct)
    (hhere : ∃ found : List (List String),
      l.here = found.map fun path => (v ++ "_elem_js") ++ spell path) :
    (declare [v ++ "_elem"] ++ l).Distinct := by
  obtain ⟨found, hhere⟩ := hhere
  refine distinct_append.mpr ⟨distinct_declare.mpr (nodup_singleton _), hdistinct, ?_⟩
  rw [here_declare, singleton_disjoint, hhere, List.mem_map]
  rintro ⟨path, -, heq⟩
  have hlength := congrArg String.length heq
  simp only [String.length_append] at hlength
  have hjs : "_elem_js".length = 8 := rfl
  have helem : "_elem".length = 5 := rfl
  omega

/-- One step of the conversion to JS. -/
theorem declaresToJs_base (hi : type.isInterface = false) (hn : type.nullable = false)
    (hconv : ∀ u, Component m type u → DeclaresToJs m n u)
    (h : baseToJsLocals (toJsLocals m n) m type v = some l) :
    (∃ found, pathsOf m (n + 1) type = some found ∧ l.here = found.map fun path =>
      v ++ spell path) ∧
      (l.Distinct ↔ ToJsApart m type) := by
  have hself : [v] = [[]].map fun path => v ++ spell path :=
    congrArg (fun x => [x]) String.append_empty.symm
  have hpaths : pathsOf m (n + 1) type = basePaths (pathsOf m n) m type := by
    unfold pathsOf
    rw [hi, hn]
    rfl
  have hbase : ∀ k, pathsOf m (k + 1) type = basePaths (pathsOf m k) m type := fun k => by
    unfold pathsOf
    rw [hi, hn]
    rfl
  -- a type without components, one name or none
  have hleaf : ∀ found : List (List String), found.length ≤ 1 →
      (∀ k, basePaths (pathsOf m k) m type = some found) → (∀ u, ¬ Component m type u) →
      l = declare (found.map fun path => v ++ spell path) →
      (∃ found, pathsOf m (n + 1) type = some found ∧
        l.here = found.map fun path => v ++ spell path) ∧ (l.Distinct ↔ ToJsApart m type) := by
    intro found hlength hfound hnone hl
    refine ⟨⟨found, hpaths.trans (hfound n), by rw [hl, here_declare]⟩, iff_of_true ?_ ?_⟩
    · rw [hl, distinct_declare]
      match found, hlength with
      | [], _ => exact nodup_nil
      | [path], _ => exact nodup_singleton _
    · rw [toJsApart_iff, nonNull_eq_self hn]
      refine ⟨pathsApart_of_single fun k found' hfound' => ?_, fun u hu => absurd hu (hnone u)⟩
      cases (hbase k).symm.trans hfound' |>.symm.trans (hfound k)
      exact hlength
  cases type with
  | plain kind b =>
    cases kind with
    | void =>
      cases h
      exact hleaf [] (Nat.zero_le 1) (fun _ => rfl) nofun rfl
    | _ =>
      cases h
      exact hleaf [[]] le_rfl (fun _ => rfl) nofun (congrArg declare hself)
  | promise element b =>
    cases h
    exact hleaf [] (Nat.zero_le 1) (fun _ => rfl) nofun rfl
  | union first rest b =>
    cases h
    exact hleaf [[]] le_rfl (fun _ => rfl) nofun (congrArg declare hself)
  | sequence element b =>
    obtain ⟨value, hvalue, h⟩ := bind_eq_some_iff.mp h
    cases h
    obtain ⟨⟨found, -, hhere⟩, hdistinct⟩ := hconv element .element _ _ hvalue
    have hsingle : ∀ x : String, (declare [x]).Distinct := fun x =>
      distinct_declare.mpr (nodup_singleton x)
    refine ⟨⟨[[]], hpaths, hself⟩, ?_⟩
    rw [toJsApart_iff, nonNull_eq_self hn]
    constructor
    · intro hall
      obtain ⟨-, hinner, -⟩ := distinct_append.mp hall
      obtain ⟨-, hloop, -⟩ := distinct_append.mp (distinct_block.mp hinner)
      obtain ⟨-, helement, -⟩ := distinct_append.mp (distinct_block.mp hloop)
      refine ⟨pathsApart_of_single fun k found' hfound' => ?_, fun u hu => ?_⟩
      · cases (hbase k).symm.trans hfound'
        exact le_rfl
      · cases hu with
        | element => exact hdistinct.mp helement
    · rintro ⟨-, hnext⟩
      have hloop := distinct_element (v := v) (hdistinct.mpr (hnext element .element))
        ⟨found, hhere⟩
      exact distinct_append.mpr ⟨hsingle v, distinct_block.mpr (distinct_append.mpr
        ⟨hsingle _, distinct_block.mpr hloop, disjoint_nil_right _⟩),
          disjoint_nil_right _⟩
  | ref kind name b =>
    cases kind with
    | interface => cases hi
    | unresolved =>
      cases h
      exact hleaf [] (Nat.zero_le 1) (fun _ => rfl) nofun rfl
    | enum =>
      cases h
      exact hleaf [[]] le_rfl (fun _ => rfl) nofun (congrArg declare hself)
    | callback =>
      cases h
      exact hleaf [[]] le_rfl (fun _ => rfl) nofun (congrArg declare hself)
    | dictionary =>
      obtain ⟨fields, hfields, h⟩ := bind_eq_some_iff.mp h
      obtain ⟨body, hbody, h⟩ := bind_eq_some_iff.mp h
      cases h
      obtain ⟨⟨found, hfound, hhere⟩, hdistinct⟩ := distinct_fieldsToJsLocals fields
        (fun f hf => hconv f.type (.field hfields hf)) hbody
      have hall : pathsOf m (n + 1) (.ref .dictionary name b) = some ([] :: found) :=
        hpaths.trans (bind_eq_some_iff.mpr ⟨fields, hfields,
          bind_eq_some_iff.mpr ⟨found, hfound, rfl⟩⟩)
      have hnames : (declare [v] ++ body).here = ([] :: found).map fun path => v ++ spell path := by
        rw [here_append, here_declare, hhere, hself]
        rfl
      have hnodup : (declare [v] ++ body).here.Nodup ↔ PathsApart m (.ref .dictionary name b) := by
        have hmap : (([] :: found).map fun path => v ++ spell path) =
            (([] :: found).map spell).map (v ++ ·) := (List.map_map).symm
        rw [hnames, hmap, nodup_below, pathsApart_iff hall]
      refine ⟨⟨_, hall, hnames⟩, ?_⟩
      rw [toJsApart_iff, nonNull_eq_self hn, ← hnodup]
      constructor
      · intro hd
        refine ⟨hd.1, fun u hu => ?_⟩
        obtain ⟨-, hbodyDistinct, -⟩ := distinct_append.mp hd
        cases hu with
        | field hfields' hfield =>
          cases hfields.symm.trans hfields'
          exact (hdistinct hbodyDistinct.1).mp hbodyDistinct _ hfield
      · rintro ⟨hhereNodup, hnext⟩
        rw [here_append] at hhereNodup
        obtain ⟨hv, hbodyNodup, hdisjoint⟩ := nodup_append'.mp hhereNodup
        exact distinct_append.mpr ⟨distinct_declare.mpr hv,
          (hdistinct hbodyNodup).mpr fun f hf => hnext f.type (.field hfields hf), hdisjoint⟩

end

/-- **What a conversion to JS declares**, and when it declares a name twice. -/
theorem distinct_toJsLocals_iff (m : IdlModule) (n : Nat) (type : TypeSpec) :
    DeclaresToJs m n type := by
  induction n generalizing type with
  | zero =>
    intro v l h
    cases h
  | succ n ih =>
    intro v l h
    have hself : [v] = [[]].map fun path => v ++ spell path :=
      congrArg (fun x => [x]) String.append_empty.symm
    have hsingle : (declare [v]).Distinct := distinct_declare.mpr (nodup_singleton v)
    cases hi : type.isInterface with
    | true =>
      have hpaths : pathsOf m (n + 1) type = some [[]] := by
        unfold pathsOf
        rw [hi, Bool.true_or, if_pos rfl]
      obtain ⟨name, b, rfl⟩ : ∃ name b, type = .ref .interface name b := by
        cases type with
        | ref kind name b =>
          cases kind with
          | interface => exact ⟨name, b, rfl⟩
          | _ => cases hi
        | _ => cases hi
      cases h
      refine ⟨⟨[[]], hpaths, hself⟩, iff_of_true hsingle ?_⟩
      exact toJsApart_iff.mpr ⟨pathsApart_interface rfl, nofun⟩
    | false =>
      rw [toJsLocals_succ hi] at h
      cases hn : type.nullable with
      | false =>
        rw [hn, if_neg Bool.false_ne_true] at h
        exact declaresToJs_base hi hn (fun u _ => ih u) h
      | true =>
        rw [hn, if_pos rfl] at h
        obtain ⟨value, hvalue, h⟩ := bind_eq_some_iff.mp h
        cases h
        have hpaths : pathsOf m (n + 1) type = some [[]] := by
          unfold pathsOf
          rw [hn, Bool.or_true, if_pos rfl]
        obtain ⟨-, hdistinct⟩ := declaresToJs_base ((isInterface_nonNull).trans hi)
          (not_nullable_nonNull type) (fun u _ => ih u) hvalue
        refine ⟨⟨[[]], hpaths, hself⟩, ?_⟩
        rw [distinct_append, distinct_block, hdistinct, toJsApart_nonNull]
        exact ⟨fun hall => hall.2.1, fun hapart => ⟨hsingle, hapart, disjoint_nil_right _⟩⟩

end Voodoo.Bruja
