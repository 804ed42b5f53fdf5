import Voodoo.Compiler.Ordinals
import Voodoo.Compiler.Declarations

/-!
# Union tags

The variants of a union are numbered in one pass, those without `@N` by their count.
Where the two kinds are mixed the latter get a new number in a second pass, the least
one that is not in use.

An explicit number is never compared with another one and loses the bits from the 32nd
on.  `TagsGood` is the condition on the numbers written under which the tags are what
they should be (`parseUnion_tags_iff`).
-/

namespace Voodoo.Compiler

open Parse EState List

/-! ### The numbers written -/

/-- What stands before the `@` of a variant. -/
def beforeTag (env : Env) : Parse Unit := do
  let _ ← parseOptionalAttributes
  let _ ← parseTypeSpec env
  let _ ← expectName "field name"

/-- The number written after the `@` of the variant the parser is at. -/
def writtenTag (env : Env) (s : Parser) : Option Nat :=
  match beforeTag env s with
  | .ok _ t => t.writtenOrdinal
  | .error _ _ => none

/-- What stands before the variants. -/
def parseUnionHead (topAttrs : List ParsedAttribute) : Parse UnionDecl := do
  expectKeyword "union"
  let u ← topAttrs.foldlM parseUnionAttribute { name := "" }
  let u := { u with name := ← expectName "union name" }
  let _ ← expect .lBrace "'\x7b'"
  return u

/-- The numbers written for the variants of the union the parser is at. -/
def writtenTags (env : Env) (topAttrs : List ParsedAttribute) (s : Parser) : List (Option Nat) :=
  match parseUnionHead topAttrs s with
  | .ok u t => bodyNotes (writtenTag env) (parseUnionMember env) u t
  | .error _ _ => []

/-! ### The generated class -/

/-- The enumerator of the variant in `enum class Tag : int32_t`. -/
def UnionField.tagValue (f : UnionField) : Int := f.tag.toBitVec.toInt

/-- `switch (static_cast<Tag>(wvc_tag))` of the reader: the variant whose case is taken. -/
def UnionDecl.caseOf (u : UnionDecl) (wvcTag : Int) : Option Nat :=
  u.fields.findIdx? (fun f => f.tagValue == wvcTag)

structure TagsRight (u : UnionDecl) (written : List (Option Nat)) : Prop where
  numbered : Numbered written (u.fields.map (·.tag.toNat))
  distinct : (u.fields.map (·.tag)).Nodup
  inRange : ∀ f ∈ u.fields, f.tagValue = f.tag.toNat
  /-- No tag is `kUnknown`. -/
  known : u.isExtensible → ∀ f ∈ u.fields, f.tagValue ≠ -1
  /-- The writer puts down the tag of a variant and the reader takes the case of this variant. -/
  selects : ∀ i f, u.fields[i]? = some f → u.caseOf f.tagValue = some i

structure TagsGood (written : List (Option Nat)) : Prop where
  distinct : (written.filterMap id).Nodup
  inRange : ∀ n, some n ∈ written → n < 2 ^ 31
  few : written.length ≤ 2 ^ 31

/-! ### The second pass -/

namespace UnionField

def explicitTag (f : UnionField) : Option Nat :=
  if f.hasExplicitTag then some f.tag.toNat else none

end UnionField

theorem toNat_add_one {n : UInt32} (h : n.toNat + 1 < 2 ^ 32) : (n + 1).toNat = n.toNat + 1 := by
  rw [UInt32.toNat_add, UInt32.toNat_one]
  exact Nat.mod_eq_of_lt h

theorem mem_map_toNat {used : List UInt32} {n : UInt32} :
    n.toNat ∈ used.map UInt32.toNat ↔ n ∈ used := by
  refine ⟨fun h => ?_, List.mem_map_of_mem⟩
  obtain ⟨m, hm, he⟩ := List.mem_map.mp h
  rwa [← UInt32.toNat_inj.mp he]

theorem firstUnused_isLeast {used : List UInt32} {turns : Nat} {next : UInt32}
    (hnext : ∀ k < next.toNat, k ∈ used.map UInt32.toNat) (hlen : used.length < 2 ^ 32)
    (hturns : used.length < next.toNat + turns) :
    IsLeast {k | k ∉ used.map UInt32.toNat} (firstUnused used turns next).toNat := by
  induction turns generalizing next with
  | zero =>
    have hge := length_ge_of_forall_lt hnext
    rw [length_map] at hge
    omega
  | succ turns ih =>
    rw [firstUnused]
    by_cases hmem : next ∈ used
    · rw [if_pos hmem]
      have hnext' : ∀ k < next.toNat + 1, k ∈ used.map UInt32.toNat := by
        intro k hk
        rcases Nat.lt_succ_iff_lt_or_eq.mp hk with hlt | rfl
        · exact hnext k hlt
        · exact mem_map_toNat.mpr hmem
      have hge := length_ge_of_forall_lt hnext'
      rw [length_map] at hge
      have hadd := toNat_add_one (n := next) (by omega)
      refine ih ?_ (by omega)
      rw [hadd]
      exact hnext'
    · rw [if_neg hmem]
      refine ⟨fun h => hmem (mem_map_toNat.mp h), fun k hk => ?_⟩
      exact Nat.not_lt.mp (fun hlt => hk (hnext k hlt))

theorem numbered_mixTags {used : List UInt32} {next : UInt32} {fields : List UnionField}
    (hnext : ∀ k < next.toNat, k ∈ used.map UInt32.toNat)
    (hlen : used.length + fields.countP (!·.hasExplicitTag) < 2 ^ 32) :
    NumberedFrom (used.map UInt32.toNat) (fields.map (·.explicitTag))
      ((mixTags used next fields).map (·.tag.toNat)) := by
  induction fields generalizing used next with
  | nil => exact .nil
  | cons f fields ih =>
    rw [mixTags, map_cons, UnionField.explicitTag]
    by_cases hexplicit : f.hasExplicitTag = true
    · rw [if_pos hexplicit, if_pos hexplicit, map_cons]
      rw [countP_cons_of_neg (by simpa using hexplicit)] at hlen
      exact .asked (ih hnext hlen)
    · rw [if_neg hexplicit, if_neg hexplicit, map_cons]
      rw [countP_cons_of_pos (by simpa using hexplicit)] at hlen
      have hleast : IsLeast {k | k ∉ used.map UInt32.toNat}
          (firstUnused used (used.length + 1) next).toNat :=
        firstUnused_isLeast hnext (by omega) (by omega)
      have hle := le_length_of_isLeast hleast
      rw [length_map] at hle
      generalize firstUnused used (used.length + 1) next = m at hleast hle
      have htaken : ∀ k < (m + 1).toNat, k ∈ (m :: used).map UInt32.toNat := by
        intro k hk
        rw [toNat_add_one (by omega)] at hk
        by_contra hn
        rw [map_cons, mem_cons, not_or] at hn
        have hge := hleast.2 hn.2
        omega
      have hlen' : (m :: used).length + fields.countP (!·.hasExplicitTag) < 2 ^ 32 := by
        rw [length_cons]
        omega
      exact .least hleast (ih htaken hlen')

/-! ### The first pass -/

/-- The variants read so far, and the numbers written for them. -/
structure Counted (u : UnionDecl) (written : List (Option Nat)) : Prop where
  explicit : u.fields.map (·.hasExplicitTag) = written.map (·.isSome)
  tags : u.fields.map (·.tag) = (counted 0 written).map UInt32.ofNat

section

variable {env : Env} {u v : UnionDecl} {s t : Parser} {written : List (Option Nat)}

theorem parseUnionFieldAttributes_run {attrs : List ParsedAttribute} {f g : UnionField}
    (h : attrs.foldlM parseUnionFieldAttribute f s = .ok g t) : t = s :=
  (runs_of_triple (foldlM_spec (Q := fun _ : UnionField => True)
    (fun f a o => parseUnionFieldAttribute_spec (o := o) f a) attrs f) h).1

theorem parseUnionMember_counted (h : parseUnionMember env u s = .ok v t)
    (hu : Counted u written) : Counted v (written ++ [writtenTag env s]) := by
  obtain ⟨attrs, s₁, hattrs, h⟩ := bind_eq_ok.mp h
  obtain ⟨f, s₂, hf, h⟩ := bind_eq_ok.mp h
  obtain ⟨type, s₃, htype, h⟩ := bind_eq_ok.mp h
  obtain ⟨name, s₄, hname, h⟩ := bind_eq_ok.mp h
  obtain ⟨tag, s₅, htag, h⟩ := bind_eq_ok.mp h
  obtain ⟨_, s₆, -, h⟩ := bind_eq_ok.mp h
  obtain ⟨rfl, -⟩ := EStateM.Result.ok.inj h
  obtain rfl := parseUnionFieldAttributes_run hf
  have hbefore : beforeTag env s = .ok () s₄ := by
    unfold beforeTag
    rw [bind_ok hattrs, bind_ok htype, bind_ok hname]
    rfl
  have hwritten : tag = (writtenTag env s).map UInt32.ofNat := by
    rw [parseOptionalOrdinal_run htag, writtenTag, hbefore]
  have hcount : (u.fields.filter (!·.hasExplicitTag)).length = written.countP (·.isNone) := by
    have hflags := congrArg (List.countP (!·)) hu.explicit
    rw [countP_map, countP_map] at hflags
    rw [← countP_eq_length_filter]
    refine hflags.trans (countP_congr (fun w _ => ?_))
    cases w <;> simp
  constructor
  · rw [map_append, map_append, hu.explicit, hwritten]
    cases writtenTag env s <;> rfl
  · rw [map_append, counted_append, map_append, hu.tags, hwritten, hcount]
    cases writtenTag env s <;> simp

theorem parseUnionAttributes_run {attrs : List ParsedAttribute} (hu : u.fields = [])
    (h : attrs.foldlM parseUnionAttribute u s = .ok v t) : v.fields = [] :=
  (runs_of_triple (foldlM_spec (Q := fun u : UnionDecl => u.fields = [])
    (fun u a o => parseUnionAttribute_spec (o := o) u a) attrs u) h).2 hu

theorem parseUnionHead_fields {attrs : List ParsedAttribute}
    (h : parseUnionHead attrs s = .ok u t) : u.fields = [] := by
  obtain ⟨_, s₁, -, h⟩ := bind_eq_ok.mp h
  obtain ⟨v, s₂, hv, h⟩ := bind_eq_ok.mp h
  obtain ⟨name, s₃, -, h⟩ := bind_eq_ok.mp h
  obtain ⟨_, s₄, -, h⟩ := bind_eq_ok.mp h
  obtain ⟨rfl, -⟩ := EStateM.Result.ok.inj h
  have hfields : v.fields = [] := parseUnionAttributes_run rfl hv
  exact hfields

/-- The fields a union is left with. -/
def settled (fields : List UnionField) : List UnionField :=
  if fields.any (·.hasExplicitTag) && fields.any (!·.hasExplicitTag) then
    mixTags ((fields.filter (·.hasExplicitTag)).map (·.tag)) 0 fields
  else fields

theorem parseUnion_counted {attrs : List ParsedAttribute}
    (h : parseUnion env attrs s = .ok u t) :
    ∃ v, Counted v (writtenTags env attrs s) ∧ u.fields = settled v.fields := by
  obtain ⟨_, s₁, hkeyword, h⟩ := bind_eq_ok.mp h
  obtain ⟨u₀, s₂, hattrs, h⟩ := bind_eq_ok.mp h
  obtain ⟨name, s₃, hname, h⟩ := bind_eq_ok.mp h
  obtain ⟨_, s₄, hbrace, h⟩ := bind_eq_ok.mp h
  obtain ⟨v, s₅, hbody, h⟩ := bind_eq_ok.mp h
  obtain ⟨_, s₆, -, h⟩ := bind_eq_ok.mp h
  obtain ⟨_, s₇, -, h⟩ := bind_eq_ok.mp h
  have hhead : parseUnionHead attrs s = .ok { u₀ with name } s₄ := by
    unfold parseUnionHead
    rw [bind_ok hkeyword, bind_ok hattrs, bind_ok hname, bind_ok hbrace]
    rfl
  have hwritten : writtenTags env attrs s =
      bodyNotes (writtenTag env) (parseUnionMember env) { u₀ with name } s₄ := by
    rw [writtenTags, hhead]
  have hstart : Counted { u₀ with name } [] := by
    have hempty : ({ u₀ with name } : UnionDecl).fields = [] := parseUnionHead_fields hhead
    constructor
    · show u₀.fields.map _ = _
      rw [hempty]
      rfl
    · show u₀.fields.map _ = _
      rw [hempty]
      rfl
  refine ⟨v, ?_, ?_⟩
  · rw [hwritten]
    exact untilRBrace_notes (fun a s b t seen => parseUnionMember_counted) hbody hstart
  · obtain ⟨-, h⟩ := not_and_run_of_unless_cur h
    obtain ⟨-, h⟩ := not_and_run_of_unless_cur h
    obtain ⟨rfl, -⟩ := EStateM.Result.ok.inj h
    unfold settled
    split
    · rfl
    · rfl

end

/-! ### Both passes -/

theorem explicitTag_of_counted {next : Nat} {fields : List UnionField}
    {written : List (Option Nat)}
    (hexplicit : fields.map (·.hasExplicitTag) = written.map (·.isSome))
    (htags : fields.map (·.tag) = (counted next written).map UInt32.ofNat)
    (hlt : ∀ n, some n ∈ written → n < 2 ^ 32) : fields.map (·.explicitTag) = written := by
  induction written generalizing next fields with
  | nil => rw [map_eq_nil_iff.mp hexplicit, map_nil]
  | cons w written ih =>
    obtain ⟨f, fields, rfl, hf, hrest⟩ := map_eq_cons_iff.mp hexplicit
    have hlt' : ∀ n, some n ∈ written → n < 2 ^ 32 := fun n hn => hlt n (mem_cons_of_mem _ hn)
    cases w with
    | some n =>
      obtain ⟨htag, htags⟩ := cons_eq_cons.mp htags
      have hn : f.tag.toNat = n :=
        (congrArg UInt32.toNat htag).trans (UInt32.toNat_ofNat_of_lt' (hlt n mem_cons_self))
      rw [map_cons, ih hrest htags hlt', UnionField.explicitTag,
        if_pos (show f.hasExplicitTag = true from hf), hn]
    | none =>
      obtain ⟨-, htags⟩ := cons_eq_cons.mp htags
      have hf' : f.hasExplicitTag = false := hf
      rw [map_cons, ih hrest htags hlt', UnionField.explicitTag, hf',
        if_neg Bool.false_ne_true]

theorem filterMap_explicitTag (fields : List UnionField) :
    (fields.map (·.explicitTag)).filterMap id =
      ((fields.filter (·.hasExplicitTag)).map (·.tag)).map UInt32.toNat := by
  induction fields with
  | nil => rfl
  | cons f fields ih =>
    rw [map_cons, UnionField.explicitTag]
    by_cases hf : f.hasExplicitTag = true
    · rw [if_pos hf, filter_cons_of_pos hf, map_cons, map_cons, ← ih]
      rfl
    · rw [if_neg hf, filter_cons_of_neg hf, ← ih]
      rfl

theorem numbered_settled {u : UnionDecl} {written : List (Option Nat)} (hu : Counted u written)
    (hgood : TagsGood written) : Numbered written ((settled u.fields).map (·.tag.toNat)) := by
  have hlt : ∀ n, some n ∈ written → n < 2 ^ 32 :=
    fun n hn => Nat.lt_trans (hgood.inRange n hn) (by decide)
  have hfew : written.length ≤ 2 ^ 31 := hgood.few
  unfold settled
  by_cases hmixed : (u.fields.any (·.hasExplicitTag) && u.fields.any (!·.hasExplicitTag)) = true
  · rw [if_pos hmixed]
    have hexplicit := explicitTag_of_counted hu.explicit hu.tags hlt
    have hlength : u.fields.length = written.length := by
      rw [← hexplicit, length_map]
    have hcount : ((u.fields.filter (·.hasExplicitTag)).map (·.tag)).length +
        u.fields.countP (!·.hasExplicitTag) < 2 ^ 32 := by
      have hsplit := length_eq_countP_add_countP (fun f : UnionField => f.hasExplicitTag)
        (l := u.fields)
      have hneg : u.fields.countP (!·.hasExplicitTag) =
          u.fields.countP (fun f => decide (¬f.hasExplicitTag = true)) :=
        countP_congr (fun f _ => by simp)
      rw [length_map, ← countP_eq_length_filter, hneg, ← hsplit]
      omega
    have hnone : ∀ k < (0 : UInt32).toNat,
        k ∈ ((u.fields.filter (·.hasExplicitTag)).map (·.tag)).map UInt32.toNat :=
      fun k hk => absurd hk (Nat.not_lt_zero k)
    have hnumbered := numbered_mixTags hnone hcount
    rwa [← filterMap_explicitTag, hexplicit] at hnumbered
  · rw [if_neg hmixed]
    exact numbered_of_one_pass hu.explicit hu.tags hmixed hlt (by omega)

/-! ### When the tags are right -/

theorem tagValue_eq_toNat_iff {f : UnionField} :
    f.tagValue = f.tag.toNat ↔ f.tag.toNat < 2 ^ 31 := by
  have hlt : f.tag.toBitVec.toInt < 2 ^ 31 := BitVec.toInt_lt
  have hcond := BitVec.toInt_eq_toNat_cond f.tag.toBitVec
  have hnat : f.tag.toBitVec.toNat = f.tag.toNat := rfl
  unfold UnionField.tagValue
  rw [hnat] at hcond
  constructor
  · intro h
    rw [h] at hlt
    exact_mod_cast hlt
  · intro h
    rw [hcond, if_pos (by omega)]

theorem caseOf_tagValue {u : UnionDecl} (h : (u.fields.map (·.tag)).Nodup) {i : Nat}
    {f : UnionField} (hf : u.fields[i]? = some f) : u.caseOf f.tagValue = some i := by
  have hvalues : (u.fields.map (·.tagValue)).Nodup := by
    have hmap : u.fields.map (·.tagValue) = (u.fields.map (·.tag)).map (·.toBitVec.toInt) := by
      rw [List.map_map]
      rfl
    rw [hmap]
    refine (nodup_map_iff (fun a b hab => ?_)).mpr h
    exact UInt32.toBitVec_inj.mp (BitVec.toInt_inj.mp hab)
  exact findIdx?_of_nodup hvalues hf

theorem tagsRight_iff {u v : UnionDecl} {written : List (Option Nat)} (hv : Counted v written)
    (hu : u.fields = settled v.fields) : TagsRight u written ↔ TagsGood written := by
  constructor
  · intro h
    have hnodup := nodup_map_toNat.mpr h.distinct
    have hrange : ∀ n ∈ u.fields.map (·.tag.toNat), n < 2 ^ 31 := by
      intro n hn
      obtain ⟨f, hf, rfl⟩ := List.mem_map.mp hn
      exact tagValue_eq_toNat_iff.mp (h.inRange f hf)
    refine ⟨h.numbered.distinct_iff.mp hnodup, fun n hn => hrange n ?_, ?_⟩
    · exact h.numbered.sublist.subset (mem_filterMap.mpr ⟨some n, hn, rfl⟩)
    · rw [← h.numbered.length_eq]
      exact length_le_of_forall_lt hnodup hrange
  · intro hgood
    have hnumbered := numbered_settled hv hgood
    rw [← hu] at hnumbered
    have hnodup := nodup_map_toNat.mp (hnumbered.nodup hgood.distinct)
    have hrange : ∀ f ∈ u.fields, f.tagValue = f.tag.toNat := by
      intro f hf
      refine tagValue_eq_toNat_iff.mpr ?_
      by_cases hasked : some f.tag.toNat ∈ written
      · exact hgood.inRange _ hasked
      · have hlt := hnumbered.lt_of_not_asked (List.mem_map_of_mem hf) hasked
        exact Nat.lt_of_lt_of_le hlt hgood.few
    refine ⟨hnumbered, hnodup, hrange, fun _ f hf => ?_, fun i f => caseOf_tagValue hnodup⟩
    rw [hrange f hf]
    omega

/-- The tags of a union that is accepted are right for the numbers of `TagsGood` and no others. -/
theorem parseUnion_tags_iff (env : Env) (topAttrs : List ParsedAttribute) (s t : Parser)
    (u : UnionDecl) (h : parseUnion env topAttrs s = .ok u t) :
    TagsRight u (writtenTags env topAttrs s) ↔ TagsGood (writtenTags env topAttrs s) := by
  obtain ⟨v, hv, hu⟩ := parseUnion_counted h
  exact tagsRight_iff hv hu

/-- `union U { int32 a@first; int32 b@second; };`. -/
def twoVariants (first second : String) : Parser where
  rest := [⟨.name, "union", 1⟩, ⟨.name, "U", 1⟩, ⟨.lBrace, "", 1⟩, ⟨.name, "int32", 1⟩,
    ⟨.name, "a", 1⟩, ⟨.at, "", 1⟩, ⟨.number, first, 1⟩, ⟨.semi, "", 1⟩, ⟨.name, "int32", 1⟩,
    ⟨.name, "b", 1⟩, ⟨.at, "", 1⟩, ⟨.number, second, 1⟩, ⟨.semi, "", 1⟩, ⟨.rBrace, "", 1⟩,
    ⟨.semi, "", 1⟩, ⟨.end, "", 1⟩]

/-- `@1` and `@0`. -/
theorem parseUnion_tags_iff_twoVariants :
    ∃ u t, parseUnion (Env.of "m" {} [] {}) [] (twoVariants "1" "0") = .ok u t ∧
      TagsRight u [some 1, some 0] := by
  refine ⟨_, _, rfl, ?_⟩
  have hiff := parseUnion_tags_iff (Env.of "m" {} [] {}) [] (twoVariants "1" "0") _ _ rfl
  have hwritten : writtenTags (Env.of "m" {} [] {}) [] (twoVariants "1" "0") = [some 1, some 0] := rfl
  rw [hwritten] at hiff
  refine hiff.mpr ⟨by decide, fun n hn => ?_, by decide⟩
  simp only [mem_cons, Option.some.injEq, not_mem_nil, or_false] at hn
  omega

/-- `@1` twice is accepted, and `b` is read as `a`. -/
theorem not_tagsRight_twice :
    ∃ u t, parseUnion (Env.of "m" {} [] {}) [] (twoVariants "1" "1") = .ok u t ∧
      writtenTags (Env.of "m" {} [] {}) [] (twoVariants "1" "1") = [some 1, some 1] ∧
      ¬TagsRight u [some 1, some 1] := by
  refine ⟨_, _, rfl, rfl, fun h => ?_⟩
  exact absurd h.distinct (by decide)

end Voodoo.Compiler
