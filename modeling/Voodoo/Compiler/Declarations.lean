import Voodoo.Compiler.Runs

/-!
# What a declaration reads and returns

The specifications of `Voodoo.Compiler.Runs` for the declarations of a file: which
headers the tokens of one hold, which unions it synthesizes, and that its sites are
what the tables of the file make of the names they are spelled with.
-/

namespace Voodoo.Compiler

open Std.Do Parse List

set_option mvcgen.warning false

/-! ### Enumerators, fields and parameters -/

section

variable {o : Parser} {env : Env}

@[spec] theorem parseEnumValueAttribute_spec (v : EnumValue) (a : ParsedAttribute) :
    ⦃fun s => ⌜s = o⌝⦄ parseEnumValueAttribute v a
    ⦃⇓? _ => fun s => ⌜s = o ∧ (True → True)⌝⦄ := by
  mvcgen [parseEnumValueAttribute]
  all_goals grind

@[spec] theorem parseEnumValue_spec (soFar : List EnumValue) :
    ⦃fun s => ⌜s = o⌝⦄ parseEnumValue soFar ⦃⇓? _ => fun s => ⌜Run o s⌝⦄ := by
  have h := foldlM_spec (Q := fun _ : EnumValue => True)
    (fun v a o => parseEnumValueAttribute_spec (o := o) v a)
  mvcgen [parseEnumValue, -Spec.foldlM_list, h]
  all_goals grind

theorem parseNextEnumValue_spec (values : List EnumValue) (hcomma : o.tok.type = .comma) :
    ⦃fun s => ⌜s = o⌝⦄ parseNextEnumValue values ⦃⇓? _ => fun s => ⌜Run o s ∧ True⌝⦄ := by
  mvcgen [parseNextEnumValue]
  all_goals grind

@[spec] theorem parseEnumValues_spec :
    ⦃fun s => ⌜s = o⌝⦄ parseEnumValues ⦃⇓? _ => fun s => ⌜Run o s⌝⦄ := by
  have h (turns : Nat) (values : List EnumValue) : ∀ o, ⦃fun s => ⌜s = o⌝⦄
      loop (at' .comma) parseNextEnumValue turns values ⦃⇓? _ => fun s => ⌜Run o s⌝⦄ := by
    refine triple_of_runs (R := fun o _ s => Run o s) (fun s _ s' h => (loop_runs
      (T := fun s => s.tok.type = .comma) (Q := fun _ => True) (fun s b s' h => ?_)
      (fun values s _ s' _ hT h => ?_) h trivial).1)
    · obtain ⟨rfl, rfl⟩ := runs_of_triple (fun o => at_spec .comma) h
      exact ⟨.refl s', of_decide_eq_true⟩
    · exact runs_of_spec (parseNextEnumValue_spec values hT) h
  apply run_of
  mvcgen [parseEnumValues, h]
  all_goals grind

@[spec] theorem parseEnumAttribute_spec (e : EnumDecl) (a : ParsedAttribute) :
    ⦃fun s => ⌜s = o⌝⦄ parseEnumAttribute e a
    ⦃⇓? _ => fun s => ⌜s = o ∧ (True → True)⌝⦄ := by
  mvcgen [parseEnumAttribute]
  all_goals grind

end

/-! ### Headers and bodies -/

def headerOf (kind : RefKind) (name owner : String) : List Header := [⟨kind, name, owner⟩]

section

variable {s t u : Parser} {H : String → List Header}

@[grind →] theorem Reads.trans_run (h : Reads s t H) (h' : Run t u) : Reads s u H :=
  (h.trans h'.reads).mono (fun _ => by rw [append_nil]; exact List.Subset.refl _)

@[grind →] theorem Reads.run_trans (h : Run s t) (h' : Reads t u H) : Reads s u H :=
  (h.reads.trans h').mono (fun _ => List.Subset.refl _)

theorem WellLexed.next {type : TokenType} (hs : WellLexed s.rest) (ht : s.tok.type = type)
    (hne : type ≠ .end) : s.rest = s.tok :: s.next.rest := by
  obtain ⟨last, hlast, hend⟩ := hs.ended
  obtain ⟨rest⟩ := s
  match rest with
  | [] => cases hlast
  | [a] =>
    obtain rfl : a = last := Option.some.inj hlast
    exact absurd (ht.symm.trans hend) hne
  | a :: b :: rest => rfl

theorem WellLexed.of_next {type : TokenType} (hs : WellLexed s.rest) (ht : s.tok.type = type)
    (hne : type ≠ .end) : WellLexed s.next.rest := by
  have hrest := hs.next ht hne
  rw [hrest] at hs
  obtain ⟨last, hlast, hend⟩ := hs.ended
  refine ⟨?_, fun t h => hs.lexed t (mem_cons_of_mem _ h)⟩
  cases hnext : s.next.rest with
  | nil =>
    rw [hnext] at hlast
    obtain rfl : s.tok = last := Option.some.inj hlast
    exact absurd (ht.symm.trans hend) hne
  | cons a rest =>
    rw [hnext, getLast?_cons_cons] at hlast
    exact ⟨last, hlast, hend⟩

theorem Reads.header {kind : RefKind} (hk : s.tok.type = .name)
    (hkw : RefKind.ofKeyword? s.tok.text = some kind) (hn : s.next.tok.type = .name) :
    Reads s s.next.next (headerOf kind s.next.tok.text) := by
  intro hs
  have hs₁ := hs.of_next hk (by decide)
  have hs₂ := hs₁.of_next hn (by decide)
  refine ⟨hs₂, ?_⟩
  rw [hs.next hk (by decide), hs₁.next hn (by decide)]
  have hmem : s.tok.text ∈ headerKeywords := by
    by_contra hmem
    simp only [headerKeywords, mem_cons, not_or] at hmem
    simp [RefKind.ofKeyword?, hmem] at hkw
  refine ((Covers.header hk hmem hn _).trans (Covers.step ?_ ?_ _)).mono (fun owner => ?_)
  · rw [hn]; decide
  · rw [hn]; decide
  · simp [headerOf, declarationHeader, hkw]

theorem Reads.declaration (hk : s.tok.type = .name) (hkw : s.tok.text ∈ headerKeywords)
    (hn : s.next.tok.type = .name) (hl : s.next.next.tok.type = .lBrace)
    (h : Reads s.next.next.next t H) (hr : t.tok.type = .rBrace) :
    Reads s t.next (fun owner => declarationHeader s.tok.text s.next.tok.text owner ++
      H (if s.tok.text = "struct" ∨ s.tok.text = "interface" then s.next.tok.text else "")) := by
  intro hs
  have hs₁ := hs.of_next hk (by decide)
  have hs₂ := hs₁.of_next hn (by decide)
  obtain ⟨ht, hH⟩ := h (hs₂.of_next hl (by decide))
  refine ⟨ht.of_next hr (by decide), ?_⟩
  rw [hs.next hk (by decide), hs₁.next hn (by decide), hs₂.next hl (by decide)]
  rw [ht.next hr (by decide)] at hH
  exact Covers.declaration hk hkw hn hl hr hH

theorem Reads.leaf {kind : RefKind} (hk : s.tok.type = .name)
    (hkw : RefKind.ofKeyword? s.tok.text = some kind) (hn : s.next.tok.type = .name)
    (hl : s.next.next.tok.type = .lBrace) (h : Run s.next.next.next t) (hr : t.tok.type = .rBrace) :
    Reads s t.next (headerOf kind s.next.tok.text) := by
  have hmem : s.tok.text ∈ headerKeywords := by
    by_contra hmem
    simp only [headerKeywords, mem_cons, not_or] at hmem
    simp [RefKind.ofKeyword?, hmem] at hkw
  refine (Reads.declaration hk hmem hn hl h.reads hr).mono (fun owner => ?_)
  simp [headerOf, declarationHeader, hkw]

grind_pattern Reads.header => s.next.next, RefKind.ofKeyword? s.tok.text, some kind
grind_pattern Reads.leaf => s.next.next.next, t.next, RefKind.ofKeyword? s.tok.text, some kind

theorem Reads.braces (hl : s.tok.type = .lBrace) (h : Run s.next t) (hr : t.tok.type = .rBrace) :
    Reads s t.next (fun _ => []) := by
  intro hs
  obtain ⟨ht, hH⟩ := h.reads (hs.of_next hl (by decide))
  refine ⟨ht.of_next hr (by decide), ?_⟩
  rw [hs.next hl (by decide)]
  rw [ht.next hr (by decide)] at hH
  exact Covers.braces hl hr hH

end

/-! ### Declarations -/

/-- The unions synthesized so far. -/
def PendingOk (env : Env) (s : Parser) : Prop :=
  ∀ u ∈ s.pendingResultUnions, env.SitesOk u.sites

@[grind →] theorem PendingOk.of_eq {env : Env} {s t : Parser} (h : PendingOk env s)
    (he : t.pendingResultUnions = s.pendingResultUnions) : PendingOk env t := by
  intro u hu
  rw [he] at hu
  exact h u hu

/-- The enums in a body. -/
def enumHeaders (enums : List EnumDecl) (owner : String) : List Header :=
  enums.map (fun e => ⟨.enum, e.name, owner⟩)

def structHeaders (name : String) (enums : List EnumDecl) (owner : String) : List Header :=
  ⟨.struct, name, owner⟩ :: enumHeaders enums name

/-- The body of an interface, or a file. -/
def bodyHeaders (enums : List EnumDecl) (structs : List StructDecl) (unions : List UnionDecl)
    (owner : String) : List Header :=
  enumHeaders enums owner ++ structs.flatMap (fun s => structHeaders s.name s.enums owner) ++
    unions.map (fun u => ⟨.union, u.name, owner⟩)

theorem Reads.enumHeaders_snoc {s t u : Parser} {enums : List EnumDecl} {e : EnumDecl}
    (h : Reads s t (headerOf .enum e.name)) (hu : Reads u s (enumHeaders enums)) :
    Reads u t (enumHeaders (enums ++ [e])) :=
  (hu.trans h).mono (fun owner => by simp [enumHeaders, headerOf])

grind_pattern Reads.enumHeaders_snoc => Reads s t (headerOf .enum e.name), Reads u s (enumHeaders enums)

theorem Reads.struct {s t : Parser} {enums : List EnumDecl} (hk : s.tok.type = .name)
    (hkw : s.tok.text = "struct") (hn : s.next.tok.type = .name)
    (hl : s.next.next.tok.type = .lBrace) (h : Reads s.next.next.next t (enumHeaders enums))
    (hr : t.tok.type = .rBrace) : Reads s t.next (structHeaders s.next.tok.text enums) := by
  have hmem : s.tok.text ∈ headerKeywords := by rw [hkw]; decide
  refine (Reads.declaration hk hmem hn hl h hr).mono (fun owner => ?_)
  simp [structHeaders, declarationHeader, hkw, RefKind.ofKeyword?]

theorem Reads.native {s : Parser} (hk : s.tok.type = .name) (hkw : s.tok.text = "struct")
    (hn : s.next.tok.type = .name) : Reads s s.next.next (structHeaders s.next.tok.text []) :=
  Reads.header hk (by rw [hkw]; rfl) hn

grind_pattern Reads.struct => Reads s.next.next.next t (enumHeaders enums), t.next
grind_pattern Reads.native => s.next.next, structHeaders s.next.tok.text []

section

variable {o : Parser} {env : Env}

@[spec] theorem parseEnum_spec (attrs : List ParsedAttribute) :
    ⦃fun s => ⌜s = o⌝⦄ parseEnum attrs
    ⦃⇓? e => fun s => ⌜Reads o s (headerOf .enum e.name) ∧
      s.pendingResultUnions = o.pendingResultUnions⌝⦄ := by
  have h := foldlM_spec (Q := fun _ : EnumDecl => True)
    (fun e a o => parseEnumAttribute_spec (o := o) e a)
  have hkw : RefKind.ofKeyword? "enum" = some .enum := rfl
  mvcgen [parseEnum, -Spec.foldlM_list, h]
  all_goals grind

@[spec] theorem parseStructFieldAttribute_spec (f : StructField) (a : ParsedAttribute) :
    ⦃fun s => ⌜s = o⌝⦄ parseStructFieldAttribute f a
    ⦃⇓? _ => fun s => ⌜s = o ∧ (True → True)⌝⦄ := by
  mvcgen [parseStructFieldAttribute]
  all_goals grind

@[spec] theorem parseStructField_spec (attrs : List ParsedAttribute) :
    ⦃fun s => ⌜s = o⌝⦄ parseStructField env attrs
    ⦃⇓? f => fun s => ⌜Run o s ∧ env.SiteOk (f.type, f.defaultValue)⌝⦄ := by
  have h := foldlM_spec (Q := fun _ : StructField => True)
    (fun f a o => parseStructFieldAttribute_spec (o := o) f a)
  mvcgen [parseStructField, -Spec.foldlM_list, h]
  all_goals grind [Env.SiteOk]

theorem parseStructMember_spec (d : StructDecl) :
    ⦃fun s => ⌜s = o⌝⦄ parseStructMember env d
    ⦃⇓? e => fun s => ⌜(∀ u, Reads u o (enumHeaders d.enums) → Reads u s (enumHeaders e.enums)) ∧
      s.pendingResultUnions = o.pendingResultUnions ∧ e.name = d.name ∧
      (env.SitesOk d.sites → env.SitesOk e.sites)⌝⦄ := by
  mvcgen [parseStructMember]
  all_goals grind [StructDecl.sites]

theorem parseStructAttribute_spec (d : StructDecl) (a : ParsedAttribute) :
    ⦃fun s => ⌜s = o⌝⦄ parseStructAttribute d a
    ⦃⇓? e => fun s => ⌜s = o ∧ (d.fields = [] ∧ d.enums = [] ∧ d.consts = [] →
      e.fields = [] ∧ e.enums = [] ∧ e.consts = [])⌝⦄ := by
  mvcgen [parseStructAttribute]
  all_goals grind

@[spec] theorem structBody_spec (d : StructDecl) (hd : d.enums = []) :
    ⦃fun s => ⌜s = o⌝⦄ untilRBrace (parseStructMember env) d
    ⦃⇓? e => fun s => ⌜Reads o s (enumHeaders e.enums) ∧
      s.pendingResultUnions = o.pendingResultUnions ∧ e.name = d.name ∧
      (env.SitesOk d.sites → env.SitesOk e.sites)⌝⦄ := by
  refine untilRBrace_spec (fun e t => ?_) d ?_
  · mvcgen [parseStructMember_spec]
    all_goals grind
  · refine ⟨?_, rfl, rfl, id⟩
    rw [hd]
    exact (Run.refl o).reads

@[spec] theorem parseStruct_spec (attrs : List ParsedAttribute) :
    ⦃fun s => ⌜s = o⌝⦄ parseStruct env attrs
    ⦃⇓? d => fun s => ⌜Reads o s (structHeaders d.name d.enums) ∧
      s.pendingResultUnions = o.pendingResultUnions ∧ env.SitesOk d.sites⌝⦄ := by
  have h := foldlM_spec (Q := fun d : StructDecl => d.fields = [] ∧ d.enums = [] ∧ d.consts = [])
    (fun d a o => parseStructAttribute_spec (o := o) d a)
  mvcgen [parseStruct, -Spec.foldlM_list, h]
  all_goals grind [StructDecl.sites]

@[spec] theorem takeEmbedOrder_spec :
    ⦃fun s => ⌜s = o⌝⦄ takeEmbedOrder ⦃⇓? _ => fun s => ⌜Run o s⌝⦄ := by
  mvcgen [takeEmbedOrder]
  all_goals grind [Run.of_eq]

@[spec] theorem parseStructIn_spec (container : String) (attrs : List ParsedAttribute) :
    ⦃fun s => ⌜s = o⌝⦄ parseStructIn env container attrs
    ⦃⇓? d => fun s => ⌜Reads o s (structHeaders d.name d.enums) ∧
      s.pendingResultUnions = o.pendingResultUnions ∧ env.SitesOk d.sites⌝⦄ := by
  mvcgen [parseStructIn]
  all_goals grind [StructDecl.sites]

theorem parseUnionFieldAttribute_spec (f : UnionField) (a : ParsedAttribute) :
    ⦃fun s => ⌜s = o⌝⦄ parseUnionFieldAttribute f a
    ⦃⇓? _ => fun s => ⌜s = o ∧ (True → True)⌝⦄ := by
  mvcgen [parseUnionFieldAttribute]
  all_goals grind

theorem parseUnionMember_spec (u : UnionDecl) :
    ⦃fun s => ⌜s = o⌝⦄ parseUnionMember env u
    ⦃⇓? v => fun s => ⌜Run o s ∧ v.name = u.name ∧
      (env.SitesOk u.sites → env.SitesOk v.sites)⌝⦄ := by
  have h := foldlM_spec (Q := fun _ : UnionField => True)
    (fun f a o => parseUnionFieldAttribute_spec (o := o) f a)
  mvcgen [parseUnionMember, -Spec.foldlM_list, h]
  all_goals grind [UnionDecl.sites, Env.SiteOk]

@[spec] theorem unionBody_spec (u : UnionDecl) :
    ⦃fun s => ⌜s = o⌝⦄ untilRBrace (parseUnionMember env) u
    ⦃⇓? v => fun s => ⌜Run o s ∧ v.name = u.name ∧
      (env.SitesOk u.sites → env.SitesOk v.sites)⌝⦄ := by
  refine untilRBrace_spec (fun v t => ?_) u ⟨.refl o, rfl, id⟩
  mvcgen [parseUnionMember_spec]
  all_goals grind

theorem parseUnionAttribute_spec (u : UnionDecl) (a : ParsedAttribute) :
    ⦃fun s => ⌜s = o⌝⦄ parseUnionAttribute u a
    ⦃⇓? v => fun s => ⌜s = o ∧ (u.fields = [] → v.fields = [])⌝⦄ := by
  mvcgen [parseUnionAttribute]
  all_goals grind

theorem map_type_mixTags (used : List UInt32) (next : UInt32) (fields : List UnionField) :
    (mixTags used next fields).map (·.type) = fields.map (·.type) := by
  induction fields generalizing used next with
  | nil => rfl
  | cons f fields ih =>
    rw [mixTags]
    split
    · rw [map_cons, ih, map_cons]
    · rw [map_cons, ih, map_cons]

theorem sites_mixTags (u : UnionDecl) (used : List UInt32) (next : UInt32) :
    ({ u with fields := mixTags used next u.fields } : UnionDecl).sites = u.sites := by
  have h (fields : List UnionField) : fields.map (fun f => (f.type, (none : Option DefaultValue))) =
      (fields.map (·.type)).map (·, none) := by simp
  rw [UnionDecl.sites, UnionDecl.sites, h, h, map_type_mixTags]

@[spec] theorem parseUnion_spec (attrs : List ParsedAttribute) :
    ⦃fun s => ⌜s = o⌝⦄ parseUnion env attrs
    ⦃⇓? u => fun s => ⌜Reads o s (headerOf .union u.name) ∧
      s.pendingResultUnions = o.pendingResultUnions ∧ env.SitesOk u.sites⌝⦄ := by
  have h := foldlM_spec (Q := fun u : UnionDecl => u.fields = [])
    (fun u a o => parseUnionAttribute_spec (o := o) u a)
  have hkw : RefKind.ofKeyword? "union" = some .union := rfl
  mvcgen [parseUnion, -Spec.foldlM_list, h]
  all_goals grind [UnionDecl.sites, sites_mixTags]

@[spec] theorem parseUnionIn_spec (container : String) (attrs : List ParsedAttribute) :
    ⦃fun s => ⌜s = o⌝⦄ parseUnionIn env container attrs
    ⦃⇓? u => fun s => ⌜Reads o s (headerOf .union u.name) ∧
      s.pendingResultUnions = o.pendingResultUnions ∧ env.SitesOk u.sites⌝⦄ := by
  mvcgen [parseUnionIn]
  all_goals grind [UnionDecl.sites]

/-! ### Methods -/

/-- As `Run`, for what may synthesize unions. -/
def Quiet (s t : Parser) : Prop := Reads s t (fun _ => [])

@[grind .] theorem Quiet.refl (s : Parser) : Quiet s s := (Run.refl s).reads

@[grind →] theorem Run.quiet {s t : Parser} (h : Run s t) : Quiet s t := h.reads

@[grind →] theorem Quiet.trans {s t u : Parser} (h : Quiet s t) (h' : Quiet t u) : Quiet s u :=
  Reads.trans h h'

theorem Quiet.of_rest {s t u : Parser} (h : Quiet s t) (he : u.rest = t.rest) : Quiet s u := by
  intro hs
  rw [he]
  exact h hs

@[grind →] theorem Quiet.reads_trans {s t u : Parser} {H : String → List Header} (h : Quiet s t)
    (h' : Reads t u H) : Reads s u H := (Reads.trans h h').mono (fun _ => List.Subset.refl _)

@[grind →] theorem Reads.trans_quiet {s t u : Parser} {H : String → List Header}
    (h : Reads s t H) (h' : Quiet t u) : Reads s u H :=
  (Reads.trans h h').mono (fun _ => by rw [append_nil]; exact List.Subset.refl _)

theorem Quiet.braces {s t : Parser} (hl : s.tok.type = .lBrace) (h : Run s.next t)
    (hr : t.tok.type = .rBrace) : Quiet s t.next := Reads.braces hl h hr

grind_pattern Quiet.braces => Run s.next t, t.next

theorem spec_of_quiet {α : Type} {x : Parse α} {P : α → Parser → Prop}
    (h : ⦃fun s => ⌜s = o⌝⦄ x ⦃⇓? a => fun s => ⌜P a s ∧ Quiet o s⌝⦄) :
    ⦃fun s => ⌜s = o⌝⦄ x ⦃⇓? a => fun s => ⌜Quiet o s ∧ P a s⌝⦄ := by
  mvcgen [h]
  grind

theorem parseParamAttribute_spec (p : Param) (a : ParsedAttribute) :
    ⦃fun s => ⌜s = o⌝⦄ parseParamAttribute p a
    ⦃⇓? _ => fun s => ⌜s = o ∧ (True → True)⌝⦄ := by
  mvcgen [parseParamAttribute]
  all_goals grind

theorem parseParam_spec :
    ⦃fun s => ⌜s = o⌝⦄ parseParam env
    ⦃⇓? p => fun s => ⌜Run o s ∧ env.SiteOk (p.type, none)⌝⦄ := by
  have h := foldlM_spec (Q := fun _ : Param => True)
    (fun p a o => parseParamAttribute_spec (o := o) p a)
  mvcgen [parseParam, -Spec.foldlM_list, h]
  all_goals grind [Env.SiteOk]

theorem sitesOk_paramSites {params : List Param} (h : ∀ p ∈ params, env.SiteOk (p.type, none)) :
    env.SitesOk (paramSites params) := by
  intro site hsite
  obtain ⟨p, hp, rfl⟩ := List.mem_map.mp hsite
  exact h p hp

@[spec] theorem parseParams_spec :
    ⦃fun s => ⌜s = o⌝⦄ parseParams env
    ⦃⇓? params => fun s => ⌜Run o s ∧ env.SitesOk (paramSites params)⌝⦄ := by
  have h := fun o => commaSeparated_spec (o := o) (Q := fun p : Param => env.SiteOk (p.type, none))
    (fun _ => parseParam_spec)
  mvcgen [parseParams, h]
  all_goals grind [sitesOk_paramSites, paramSites]

theorem parseMethodAttribute_spec (m : Method) (a : ParsedAttribute) :
    ⦃fun s => ⌜s = o⌝⦄ parseMethodAttribute m a
    ⦃⇓? n => fun s => ⌜s = o ∧ (m.params = [] ∧ m.responseParams = [] ∧ m.result = none →
      n.params = [] ∧ n.responseParams = [] ∧ n.result = none)⌝⦄ := by
  mvcgen [parseMethodAttribute]
  all_goals grind

@[spec] theorem parseMethodOrdinal_spec (m : Method) :
    ⦃fun s => ⌜s = o⌝⦄ parseMethodOrdinal m
    ⦃⇓? n => fun s => ⌜Run o s ∧ n.params = m.params ∧ n.responseParams = m.responseParams ∧
      n.result = m.result⌝⦄ := by
  mvcgen [parseMethodOrdinal]
  all_goals grind

/-- No synthesized union is lost. -/
def Grows (s t : Parser) : Prop := s.pendingResultUnions ⊆ t.pendingResultUnions

@[grind .] theorem Grows.of_eq {s t : Parser} (h : t.pendingResultUnions = s.pendingResultUnions) :
    Grows s t := by
  intro u hu
  rwa [h]

@[grind →] theorem Run.grows {s t : Parser} (h : Run s t) : Grows s t := .of_eq h.pending

@[grind →] theorem Grows.trans {s t u : Parser} (h : Grows s t) (h' : Grows t u) : Grows s u :=
  List.Subset.trans h h'

/-- `t` refers to a synthesized union. -/
def ResultUnion (s : Parser) (t : TypeSpec) : Prop :=
  ∃ u ∈ s.pendingResultUnions, t = .ref .union [] ⟨u.name, "", ""⟩

/-- A `result<T, E>` response has one parameter, the union that was synthesized for it. -/
def Method.ResultIn (m : Method) (s : Parser) : Prop :=
  m.result = none ∨ ∃ t, ResultUnion s t ∧ m.responseParams = [{ type := t, name := "result" }]

@[grind →] theorem ResultUnion.grows {s s' : Parser} {t : TypeSpec} (h : ResultUnion s t)
    (h' : Grows s s') : ResultUnion s' t := by
  obtain ⟨u, hu, ht⟩ := h
  exact ⟨u, h' hu, ht⟩

@[grind →] theorem Method.ResultIn.grows {m : Method} {s s' : Parser} (h : m.ResultIn s)
    (h' : Grows s s') : m.ResultIn s' := by
  rcases h with h | ⟨t, ht, hp⟩
  · exact Or.inl h
  · exact Or.inr ⟨t, ht.grows h', hp⟩

variable (env)

theorem makeResultUnion_spec (ifaceName methodName : String) (t e : TypeSpec) :
    ⦃fun s => ⌜s = o⌝⦄ makeResultUnion ifaceName methodName t e
    ⦃⇓? r => fun s => ⌜Quiet o s ∧ Grows o s ∧ ResultUnion s r ∧
      (PendingOk env o → env.Resolved t → env.Resolved e → PendingOk env s)⌝⦄ := by
  mvcgen [makeResultUnion]
  next hs _ s₁ hrun _ =>
    subst hs
    refine ⟨hrun.quiet.of_rest rfl, fun u hu => ?_, ?_, fun hp ht he u hu => ?_⟩
    · exact mem_append_left _ (hrun.pending ▸ hu)
    · exact ⟨_, mem_append_right _ (mem_singleton_self _), rfl⟩
    · rcases mem_append.mp hu with hu | hu
      · exact hp.of_eq hrun.pending u hu
      · rw [mem_singleton.mp hu]
        refine Env.sitesOk_cons.mpr ⟨⟨ht, fun _ h => absurd h (by simp)⟩, Env.sitesOk_cons.mpr
          ⟨⟨he, fun _ h => absurd h (by simp)⟩, Env.sitesOk_nil⟩⟩

variable {env}

@[spec] theorem parseResultResponse_spec (ifaceName : String) (m : Method)
    (hcur : o.tok.type = .name) :
    ⦃fun s => ⌜s = o⌝⦄ parseResultResponse env ifaceName m
    ⦃⇓? n => fun s => ⌜Quiet o s ∧ Grows o s ∧ n.ResultIn s ∧
      (PendingOk env o → PendingOk env s) ∧
      (env.SitesOk (paramSites m.params) → env.SitesOk n.sites)⌝⦄ := by
  have h := fun o => makeResultUnion_spec (o := o) env
  mvcgen [parseResultResponse, h]
  all_goals grind [Method.sites, paramSites, Env.SiteOk, Method.ResultIn]

@[spec] theorem parseResponse_spec (ifaceName : String) (m : Method)
    (hm : m.responseParams = [] ∧ m.result = none) :
    ⦃fun s => ⌜s = o⌝⦄ parseResponse env ifaceName m
    ⦃⇓? n => fun s => ⌜Quiet o s ∧ Grows o s ∧ n.ResultIn s ∧
      (PendingOk env o → PendingOk env s) ∧
      (env.SitesOk (paramSites m.params) → env.SitesOk n.sites)⌝⦄ := by
  apply spec_of_quiet
  mvcgen [parseResponse]
  all_goals grind [Method.sites, paramSites, Method.ResultIn]

@[spec] theorem parseMethod_spec (attrs : List ParsedAttribute) (ifaceName : String) :
    ⦃fun s => ⌜s = o⌝⦄ parseMethod env attrs ifaceName
    ⦃⇓? m => fun s => ⌜Quiet o s ∧ Grows o s ∧ m.ResultIn s ∧
      (PendingOk env o → PendingOk env s) ∧ env.SitesOk m.sites⌝⦄ := by
  have h := foldlM_spec
    (Q := fun m : Method => m.params = [] ∧ m.responseParams = [] ∧ m.result = none)
    (fun m a o => parseMethodAttribute_spec (o := o) m a)
  mvcgen [parseMethod, -Spec.foldlM_list, h]
  all_goals grind [Method.sites, paramSites]

/-! ### Interfaces -/

theorem Reads.body_enum {s t u : Parser} {enums : List EnumDecl} {structs : List StructDecl}
    {unions : List UnionDecl} {e : EnumDecl} (hu : Reads u s (bodyHeaders enums structs unions))
    (h : Reads s t (headerOf .enum e.name)) :
    Reads u t (bodyHeaders (enums ++ [e]) structs unions) :=
  (hu.trans h).mono (fun owner => by
    intro x
    simp only [bodyHeaders, enumHeaders, headerOf, map_append, mem_append,
      map_cons, map_nil]
    grind)

theorem Reads.body_struct {s t u : Parser} {enums : List EnumDecl} {structs : List StructDecl}
    {unions : List UnionDecl} {d : StructDecl} (hu : Reads u s (bodyHeaders enums structs unions))
    (h : Reads s t (structHeaders d.name d.enums)) :
    Reads u t (bodyHeaders enums (structs ++ [d]) unions) :=
  (hu.trans h).mono (fun owner => by
    intro x
    simp only [bodyHeaders, flatMap_append, mem_append, flatMap_cons,
      flatMap_nil, append_nil]
    grind)

theorem Reads.body_union {s t u : Parser} {enums : List EnumDecl} {structs : List StructDecl}
    {unions : List UnionDecl} {d : UnionDecl} (hu : Reads u s (bodyHeaders enums structs unions))
    (h : Reads s t (headerOf .union d.name)) :
    Reads u t (bodyHeaders enums structs (unions ++ [d])) :=
  (hu.trans h).mono (fun owner => by
    intro x
    simp only [bodyHeaders, headerOf, map_append, mem_append, map_cons,
      map_nil]
    grind)

/-- What a declaration in the body of an interface leaves. -/
structure InterfaceStep (env : Env) (o : Parser) (i : Interface) (s : Parser) (j : Interface) :
    Prop where
  reads : ∀ u, Reads u o (bodyHeaders i.enums i.structs i.unions) →
    Reads u s (bodyHeaders j.enums j.structs j.unions)
  pending : PendingOk env o → PendingOk env s
  grows : Grows o s
  name : j.name = i.name
  sites : env.SitesOk i.sites → env.SitesOk j.sites
  results : (∀ m ∈ i.methods, m.ResultIn o) → ∀ m ∈ j.methods, m.ResultIn s

namespace InterfaceStep

variable {s : Parser} {i : Interface}

theorem refl (o : Parser) (i : Interface) : InterfaceStep env o i o i where
  reads _ h := h
  pending h := h
  grows := List.Subset.refl _
  name := rfl
  sites h := h
  results h := h

@[grind →] theorem trans {t : Parser} {j k : Interface} (h : InterfaceStep env o i s j)
    (h' : InterfaceStep env s j t k) : InterfaceStep env o i t k where
  reads u hu := h'.reads u (h.reads u hu)
  pending hp := h'.pending (h.pending hp)
  grows := h.grows.trans h'.grows
  name := h'.name.trans h.name
  sites hs := h'.sites (h.sites hs)
  results hr := h'.results (h.results hr)

@[grind →] theorem run_trans {t : Parser} {j : Interface} (h : Run o s)
    (h' : InterfaceStep env s i t j) : InterfaceStep env o i t j where
  reads u hu := h'.reads u (hu.trans_run h)
  pending hp := h'.pending (hp.of_eq h.pending)
  grows := h.grows.trans h'.grows
  name := h'.name
  sites := h'.sites
  results hr := h'.results (fun m hm => (hr m hm).grows h.grows)

@[grind .] theorem enum {e : EnumDecl} (h : Reads o s (headerOf .enum e.name))
    (hp : s.pendingResultUnions = o.pendingResultUnions) :
    InterfaceStep env o i s { i with enums := i.enums ++ [e] } where
  reads _ hu := hu.body_enum h
  pending h := h.of_eq hp
  grows := .of_eq hp
  name := rfl
  results hr m hm := (hr m hm).grows (.of_eq hp)
  sites h := h

@[grind .] theorem struct {d : StructDecl} (h : Reads o s (structHeaders d.name d.enums))
    (hp : s.pendingResultUnions = o.pendingResultUnions) (hd : env.SitesOk d.sites) :
    InterfaceStep env o i s { i with structs := i.structs ++ [d] } where
  reads _ hu := hu.body_struct h
  pending h := h.of_eq hp
  grows := .of_eq hp
  name := rfl
  results hr m hm := (hr m hm).grows (.of_eq hp)
  sites h := by
    simp only [Interface.sites, Env.sitesOk_append, flatMap_append, flatMap_cons,
      flatMap_nil, Env.sitesOk_nil, and_true] at h ⊢
    exact ⟨⟨h.1.1, h.1.2, hd⟩, h.2⟩

@[grind .] theorem union {d : UnionDecl} (h : Reads o s (headerOf .union d.name))
    (hp : s.pendingResultUnions = o.pendingResultUnions) (hd : env.SitesOk d.sites) :
    InterfaceStep env o i s { i with unions := i.unions ++ [d] } where
  reads _ hu := hu.body_union h
  pending h := h.of_eq hp
  grows := .of_eq hp
  name := rfl
  results hr m hm := (hr m hm).grows (.of_eq hp)
  sites h := by
    simp only [Interface.sites, Env.sitesOk_append, flatMap_append, flatMap_cons,
      flatMap_nil, Env.sitesOk_nil, and_true] at h ⊢
    exact ⟨h.1, h.2, hd⟩

@[grind .] theorem const {c : ConstDecl} (h : Run o s) (hc : env.SiteOk c.site) :
    InterfaceStep env o i s { i with consts := i.consts ++ [c] } where
  reads _ hu := hu.trans_run h
  pending hp := hp.of_eq h.pending
  grows := h.grows
  name := rfl
  results hr m hm := (hr m hm).grows h.grows
  sites h := by
    simp only [Interface.sites, Env.sitesOk_append, map_append, map_cons, map_nil,
      Env.sitesOk_cons, Env.sitesOk_nil, and_true] at h ⊢
    exact ⟨⟨⟨h.1.1.1, h.1.1.2, hc⟩, h.1.2⟩, h.2⟩

@[grind .] theorem method {m : Method} {version : UInt32} (h : Quiet o s) (hg : Grows o s)
    (hr : m.ResultIn s) (hp : PendingOk env o → PendingOk env s) (hm : env.SitesOk m.sites) :
    InterfaceStep env o i s { i with methods := i.methods ++ [m], version } where
  reads _ hu := hu.trans_quiet h
  pending := hp
  grows := hg
  name := rfl
  results hi n hn := by
    rcases mem_append.mp hn with hn | hn
    · exact (hi n hn).grows hg
    · rwa [mem_singleton.mp hn]
  sites h := by
    simp only [Interface.sites, Env.sitesOk_append, flatMap_append, flatMap_cons,
      flatMap_nil, Env.sitesOk_nil, and_true] at h ⊢
    exact ⟨⟨⟨⟨h.1.1.1, hm⟩, h.1.1.2⟩, h.1.2⟩, h.2⟩

end InterfaceStep

theorem sites_ordinal (m : Method) (ordinal : UInt32) :
    ({ m with ordinal } : Method).sites = m.sites := rfl

theorem Method.ResultIn.ordinal {m : Method} (h : m.ResultIn o) (ordinal : UInt32) :
    ({ m with ordinal } : Method).ResultIn o := h

theorem parseInterfaceMember_spec (i : Interface) :
    ⦃fun s => ⌜s = o⌝⦄ parseInterfaceMember env i
    ⦃⇓? j => fun s => ⌜InterfaceStep env o i s j⌝⦄ := by
  mvcgen [parseInterfaceMember]
  all_goals grind [sites_ordinal, Method.ResultIn.ordinal]

@[spec] theorem interfaceBody_spec (i : Interface) :
    ⦃fun s => ⌜s = o⌝⦄ untilRBrace (parseInterfaceMember env) i
    ⦃⇓? j => fun s => ⌜InterfaceStep env o i s j⌝⦄ := by
  refine untilRBrace_spec (fun j t => ?_) i (.refl o i)
  mvcgen [parseInterfaceMember_spec]
  all_goals grind

/-- Nothing is declared yet. -/
def Interface.Blank (i : Interface) : Prop :=
  i.methods = [] ∧ i.enums = [] ∧ i.consts = [] ∧ i.structs = [] ∧ i.unions = []

theorem parseInterfaceAttribute_spec (i : Interface) (a : ParsedAttribute) :
    ⦃fun s => ⌜s = o⌝⦄ parseInterfaceAttribute i a
    ⦃⇓? j => fun s => ⌜s = o ∧ (i.Blank → j.Blank)⌝⦄ := by
  mvcgen [parseInterfaceAttribute]
  all_goals grind [Interface.Blank]

/-- What an interface holds. -/
structure InterfaceRead (env : Env) (o s : Parser) (i : Interface) : Prop where
  reads : Reads o s (fun _ => bodyHeaders i.enums i.structs i.unions i.name)
  pending : PendingOk env o → PendingOk env s
  grows : Grows o s
  sites : env.SitesOk i.sites
  results : ∀ m ∈ i.methods, m.ResultIn s

/-- `interface name { body }`. -/
theorem InterfaceRead.of_body {s t : Parser} {i j : Interface} (hk : s.tok.type = .name)
    (hkw : s.tok.text = "interface") (hn : s.next.tok.type = .name)
    (hl : s.next.next.tok.type = .lBrace) (hi : i.Blank) (hname : i.name = s.next.tok.text)
    (h : InterfaceStep env s.next.next.next i t j) (hr : t.tok.type = .rBrace) :
    InterfaceRead env s t.next j where
  reads := by
    obtain ⟨-, henums, -, hstructs, hunions⟩ := hi
    have hbody := h.reads s.next.next.next (by
      rw [henums, hstructs, hunions]
      exact (Run.refl _).reads)
    have hmem : s.tok.text ∈ headerKeywords := by rw [hkw]; decide
    refine (Reads.declaration hk hmem hn hl hbody hr).mono (fun owner => ?_)
    rw [h.name, hname, if_pos (Or.inr hkw)]
    exact subset_append_right _ _
  pending hp := (h.pending (hp.of_eq (by
    rw [pendingResultUnions_next, pendingResultUnions_next, pendingResultUnions_next]))).of_eq
      pendingResultUnions_next
  grows := (Grows.of_eq (by
    rw [pendingResultUnions_next, pendingResultUnions_next, pendingResultUnions_next])).trans
      (h.grows.trans (.of_eq pendingResultUnions_next))
  results m hm := by
    obtain ⟨hmethods, -⟩ := hi
    refine (h.results (fun m hm => ?_) m hm).grows (.of_eq pendingResultUnions_next)
    rw [hmethods] at hm
    cases hm
  sites := by
    obtain ⟨hmethods, -, hconsts, hstructs, hunions⟩ := hi
    refine h.sites ?_
    rw [Interface.sites, hmethods, hconsts, hstructs, hunions]
    exact Env.sitesOk_nil

grind_pattern InterfaceRead.of_body => InterfaceStep env s.next.next.next i t j, t.next

@[grind →] theorem InterfaceRead.trans_run {s t : Parser} {i : Interface}
    (h : InterfaceRead env o s i) (h' : Run s t) : InterfaceRead env o t i where
  reads := h.reads.trans_run h'
  pending hp := (h.pending hp).of_eq h'.pending
  grows := h.grows.trans h'.grows
  sites := h.sites
  results m hm := (h.results m hm).grows h'.grows

@[spec] theorem parseInterface_spec (attrs : List ParsedAttribute) :
    ⦃fun s => ⌜s = o⌝⦄ parseInterface env attrs
    ⦃⇓? i => fun s => ⌜InterfaceRead env o s i⌝⦄ := by
  have h := foldlM_spec (Q := Interface.Blank)
    (fun i a o => parseInterfaceAttribute_spec (o := o) i a)
  mvcgen [parseInterface, -Spec.foldlM_list, h]
  all_goals grind [Interface.Blank]

theorem parseFeatureMember_spec (f : FeatureDecl) :
    ⦃fun s => ⌜s = o⌝⦄ parseFeatureMember env f
    ⦃⇓? g => fun s => ⌜Run o s ∧ (env.SitesOk f.sites → env.SitesOk g.sites)⌝⦄ := by
  mvcgen [parseFeatureMember]
  all_goals grind [FeatureDecl.sites]

@[spec] theorem featureBody_spec (f : FeatureDecl) :
    ⦃fun s => ⌜s = o⌝⦄ untilRBrace (parseFeatureMember env) f
    ⦃⇓? g => fun s => ⌜Run o s ∧ (env.SitesOk f.sites → env.SitesOk g.sites)⌝⦄ := by
  refine untilRBrace_spec (fun g t => ?_) f ⟨.refl o, id⟩
  mvcgen [parseFeatureMember_spec]
  all_goals grind

@[spec] theorem parseFeature_spec :
    ⦃fun s => ⌜s = o⌝⦄ parseFeature env
    ⦃⇓? f => fun s => ⌜Quiet o s ∧ s.pendingResultUnions = o.pendingResultUnions ∧
      env.SitesOk f.sites⌝⦄ := by
  mvcgen [parseFeature]
  all_goals grind [FeatureDecl.sites]

end

end Voodoo.Compiler
