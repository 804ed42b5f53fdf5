import Voodoo.Compiler.Declarations
import Voodoo.Compiler.Lexemes

/-!
# What a file reads and returns

A file that is parsed has every declaration it writes among its headers, and every site
of it is what the tables made from those headers, and from the files loaded before,
make of the names the site is spelled with (`FileRead`).
-/

namespace Voodoo.Compiler

open Std.Do Parse List

set_option mvcgen.warning false

/-! ### Declarations of a module -/

namespace Module

/-- What a module declares, each with the body it stands in; `owner` is the body of the file. -/
def headersIn (m : Module) (owner : String) : List Header :=
  bodyHeaders m.enums m.structs m.unions owner ++
    m.interfaces.flatMap (fun i => bodyHeaders i.enums i.structs i.unions i.name)

/-- Every struct, union and enum of a module. -/
def declarations (m : Module) : List Header := m.headersIn ""

end Module

section

variable {s t u : Parser} {m : Module}

theorem Reads.module_enum {e : EnumDecl} (hu : Reads u s m.headersIn)
    (h : Reads s t (headerOf .enum e.name)) :
    Reads u t ({ m with enums := m.enums ++ [e] } : Module).headersIn :=
  (hu.trans h).mono (fun owner => by
    intro x
    simp only [Module.headersIn, bodyHeaders, enumHeaders, headerOf, map_append,
      mem_append, map_cons, map_nil]
    grind)

theorem Reads.module_struct {d : StructDecl} (hu : Reads u s m.headersIn)
    (h : Reads s t (structHeaders d.name d.enums)) :
    Reads u t ({ m with structs := m.structs ++ [d] } : Module).headersIn :=
  (hu.trans h).mono (fun owner => by
    intro x
    simp only [Module.headersIn, bodyHeaders, flatMap_append, mem_append,
      flatMap_cons, flatMap_nil, append_nil]
    grind)

theorem Reads.module_union {d : UnionDecl} (hu : Reads u s m.headersIn)
    (h : Reads s t (headerOf .union d.name)) :
    Reads u t ({ m with unions := m.unions ++ [d] } : Module).headersIn :=
  (hu.trans h).mono (fun owner => by
    intro x
    simp only [Module.headersIn, bodyHeaders, headerOf, map_append, mem_append,
      map_cons, map_nil]
    grind)

theorem Reads.module_interface {i : Interface} (hu : Reads u s m.headersIn)
    (h : Reads s t (fun _ => bodyHeaders i.enums i.structs i.unions i.name)) :
    Reads u t ({ m with interfaces := m.interfaces ++ [i] } : Module).headersIn :=
  (hu.trans h).mono (fun owner => by
    intro x
    simp only [Module.headersIn, flatMap_append, mem_append, flatMap_cons,
      flatMap_nil, append_nil]
    grind)

end

/-! ### Top-level declarations -/

/-- What a top-level declaration leaves. -/
structure ModuleStep (env : Env) (o : Parser) (m : Module) (s : Parser) (n : Module) : Prop where
  reads : ∀ u, Reads u o m.headersIn → Reads u s n.headersIn
  pending : PendingOk env o → PendingOk env s
  sites : env.SitesOk m.sites → env.SitesOk n.sites
  results : (∀ i ∈ m.interfaces, ∀ f ∈ i.methods, f.ResultIn o) →
    ∀ i ∈ n.interfaces, ∀ f ∈ i.methods, f.ResultIn s

namespace ModuleStep

variable {env : Env} {o s : Parser} {m : Module}

theorem refl (o : Parser) (m : Module) : ModuleStep env o m o m where
  reads _ h := h
  pending h := h
  sites h := h
  results h := h

@[grind →] theorem trans {t : Parser} {n k : Module} (h : ModuleStep env o m s n)
    (h' : ModuleStep env s n t k) : ModuleStep env o m t k where
  reads u hu := h'.reads u (h.reads u hu)
  pending hp := h'.pending (h.pending hp)
  sites hs := h'.sites (h.sites hs)
  results hr := h'.results (h.results hr)

@[grind →] theorem run_trans {t : Parser} {n : Module} (h : Run o s)
    (h' : ModuleStep env s m t n) : ModuleStep env o m t n where
  reads u hu := h'.reads u (hu.trans_run h)
  pending hp := h'.pending (hp.of_eq h.pending)
  sites := h'.sites
  results hr := h'.results (fun i hi f hf => (hr i hi f hf).grows h.grows)

@[grind .] theorem enum {e : EnumDecl} (h : Reads o s (headerOf .enum e.name))
    (hp : s.pendingResultUnions = o.pendingResultUnions) :
    ModuleStep env o m s { m with enums := m.enums ++ [e] } where
  reads _ hu := hu.module_enum h
  pending h := h.of_eq hp
  sites h := h
  results hr i hi f hf := (hr i hi f hf).grows (.of_eq hp)

@[grind .] theorem struct {d : StructDecl} (h : Reads o s (structHeaders d.name d.enums))
    (hp : s.pendingResultUnions = o.pendingResultUnions) (hd : env.SitesOk d.sites) :
    ModuleStep env o m s { m with structs := m.structs ++ [d] } where
  reads _ hu := hu.module_struct h
  pending h := h.of_eq hp
  sites h := by
    simp only [Module.sites, Env.sitesOk_append, flatMap_append, flatMap_cons,
      flatMap_nil, Env.sitesOk_nil, and_true] at h ⊢
    exact ⟨⟨⟨⟨⟨h.1.1.1.1, hd⟩, h.1.1.1.2⟩, h.1.1.2⟩, h.1.2⟩, h.2⟩
  results hr i hi f hf := (hr i hi f hf).grows (.of_eq hp)

@[grind .] theorem union {d : UnionDecl} (h : Reads o s (headerOf .union d.name))
    (hp : s.pendingResultUnions = o.pendingResultUnions) (hd : env.SitesOk d.sites) :
    ModuleStep env o m s { m with unions := m.unions ++ [d] } where
  reads _ hu := hu.module_union h
  pending h := h.of_eq hp
  sites h := by
    simp only [Module.sites, Env.sitesOk_append, flatMap_append, flatMap_cons,
      flatMap_nil, Env.sitesOk_nil, and_true] at h ⊢
    exact ⟨⟨⟨⟨h.1.1.1.1, h.1.1.1.2, hd⟩, h.1.1.2⟩, h.1.2⟩, h.2⟩
  results hr i hi f hf := (hr i hi f hf).grows (.of_eq hp)

theorem interface {i : Interface} (h : InterfaceRead env o s i) :
    ModuleStep env o m s { m with interfaces := m.interfaces ++ [i] } where
  reads _ hu := hu.module_interface h.reads
  pending := h.pending
  sites hs := by
    simp only [Module.sites, Env.sitesOk_append, flatMap_append, flatMap_cons,
      flatMap_nil, Env.sitesOk_nil, and_true] at hs ⊢
    exact ⟨⟨⟨hs.1.1.1, hs.1.1.2, h.sites⟩, hs.1.2⟩, hs.2⟩
  results hr j hj f hf := by
    rcases mem_append.mp hj with hj | hj
    · exact (hr j hj f hf).grows h.grows
    · rw [mem_singleton.mp hj] at hf
      exact h.results f hf

grind_pattern interface => InterfaceRead env o s i, m.interfaces ++ [i]

@[grind .] theorem const {c : ConstDecl} (h : Run o s) (hc : env.SiteOk c.site) :
    ModuleStep env o m s { m with consts := m.consts ++ [c] } where
  reads _ hu := hu.trans_run h
  pending hp := hp.of_eq h.pending
  sites hs := by
    simp only [Module.sites, Env.sitesOk_append, map_append, map_cons, map_nil,
      Env.sitesOk_cons, Env.sitesOk_nil, and_true] at hs ⊢
    exact ⟨⟨hs.1.1, hs.1.2, hc⟩, hs.2⟩
  results hr i hi f hf := (hr i hi f hf).grows h.grows

@[grind .] theorem feature {f : FeatureDecl} {enableIf : EnableIf} (h : Quiet o s)
    (hp : s.pendingResultUnions = o.pendingResultUnions) (hf : env.SitesOk f.sites) :
    ModuleStep env o m s { m with features := m.features ++ [{ f with enableIf }] } where
  reads _ hu := hu.trans_quiet h
  pending hpo := hpo.of_eq hp
  sites hs := by
    simp only [Module.sites, Env.sitesOk_append, flatMap_append, flatMap_cons,
      flatMap_nil, Env.sitesOk_nil, and_true] at hs ⊢
    exact ⟨hs.1, hs.2, hf⟩
  results hr i hi g hg := (hr i hi g hg).grows (.of_eq hp)

end ModuleStep

section

variable {o : Parser} {env : Env}

@[spec] theorem takeTopAttributes_spec :
    ⦃fun s => ⌜s = o⌝⦄ takeTopAttributes ⦃⇓? _ => fun s => ⌜Run o s⌝⦄ := by
  mvcgen [takeTopAttributes]
  all_goals grind [Run.of_eq]

theorem parseTopLevel_spec (m : Module) :
    ⦃fun s => ⌜s = o⌝⦄ parseTopLevel env m ⦃⇓? n => fun s => ⌜ModuleStep env o m s n⌝⦄ := by
  unfold parseTopLevel
  generalize "expected 'interface', 'union', 'enum', 'struct', 'const', or 'feature' after " ++
    "attribute list, got '" = msg
  mvcgen [-Spec.foldlM_list, foldlM_fillEnableIf_spec]
  all_goals grind

@[spec] theorem parseDecls_spec :
    ⦃fun s => ⌜s = o⌝⦄ parseDecls env
    ⦃⇓? m => fun s => ⌜∃ written, ModuleStep env o {} s written ∧
      m = { written with unions := written.unions ++ s.pendingResultUnions }⌝⦄ := by
  have hstep (m : Module) (t : Parser) : ⦃fun s => ⌜s = t⌝⦄ parseTopLevel env m
      ⦃⇓? n => fun s => ⌜ModuleStep env o {} t m → ModuleStep env o {} s n⌝⦄ := by
    mvcgen [parseTopLevel_spec]
    grind
  have hloop := fun turns => loopUntil_spec .end hstep turns {} (.refl o {})
  mvcgen [parseDecls, hloop]
  all_goals grind

/-! ### Headers -/

@[spec] theorem consumeHeaderAttributeList_spec :
    ⦃fun s => ⌜s = o⌝⦄ consumeHeaderAttributeList ⦃⇓? _ => fun s => ⌜Run o s⌝⦄ := by
  mvcgen [consumeHeaderAttributeList]
  all_goals grind [Run.of_eq]

@[spec] theorem atImport_spec :
    ⦃fun s => ⌜s = o⌝⦄ atImport ⦃⇓? _ => fun s => ⌜Run o s⌝⦄ := by
  apply run_of
  mvcgen [atImport]
  all_goals grind

theorem parseImport_spec :
    ⦃fun s => ⌜s = o⌝⦄ parseImport ⦃⇓? _ => fun s => ⌜Run o s⌝⦄ := by
  mvcgen [parseImport]
  all_goals grind

@[spec] theorem parseModuleStatement_spec :
    ⦃fun s => ⌜s = o⌝⦄ parseModuleStatement ⦃⇓? _ => fun s => ⌜Run o s⌝⦄ := by
  mvcgen [parseModuleStatement]
  all_goals grind

@[spec] theorem imports_spec :
    ⦃fun s => ⌜s = o⌝⦄ many atImport parseImport ⦃⇓? _ => fun s => ⌜Run o s⌝⦄ := by
  refine triple_of_runs (R := fun o _ s => Run o s) (fun s _ s' h => (many_runs
    (Q := fun _ => True) (T := fun _ => True) (fun s b s' h => ?_) (fun s a s' _ h => ?_) h).1) o
  · exact ⟨runs_of_triple (fun o => atImport_spec) h, fun _ => trivial⟩
  · exact ⟨runs_of_triple (fun o => parseImport_spec) h, trivial⟩

@[spec] theorem parseHeader_spec :
    ⦃fun s => ⌜s = o⌝⦄ parseHeader ⦃⇓? _ => fun s => ⌜Run o s⌝⦄ := by
  apply run_of
  mvcgen [parseHeader]
  all_goals grind

end

/-! ### Files -/

/-- The tables of a file with the tokens `tokens`. -/
def Env.ofFile (p : Prelude) (tokens : List Token) (moduleName : String)
    (values : StringMap EnumDecl) : Env :=
  Env.of moduleName (collectDeclaredNames tokens) values p

/-- What a file with the tokens `tokens` reads and returns. -/
structure FileRead (p : Prelude) (tokens : List Token) (m : Module) : Prop where
  /-- A declaration that is no header was synthesized, at the top level. -/
  declared : ∀ d ∈ m.declarations, d ∈ headers tokens ∨ d.kind = .union ∧ d.owner = ""
  nested : ∀ i ∈ m.interfaces, ∀ d ∈ bodyHeaders i.enums i.structs i.unions i.name,
    d ∈ headers tokens
  sites : ∃ values, (Env.ofFile p tokens m.name values).SitesOk m.sites
  /-- The union of a `result<T, E>` is one of the file. -/
  results : ∀ i ∈ m.interfaces, ∀ f ∈ i.methods, f.result = none ∨ ∃ u ∈ m.unions,
    f.responseParams = [{ type := .ref .union [] ⟨u.name, "", ""⟩, name := "result" }]

theorem checkCompleteTypeAcyclic_eq {m : Module} {s s' : Parser} {u : Unit}
    (h : checkCompleteTypeAcyclic m s = .ok u s') : s' = s := by
  unfold checkCompleteTypeAcyclic at h
  dsimp only at h
  split at h
  · exact (EStateM.Result.ok.inj h).2.symm
  · obtain ⟨t, s₁, -, h⟩ := EState.bind_eq_ok.mp h
    cases h

theorem names_of_scan {tokens : List Token} {scanned : Scanned} (h : scan tokens = .ok scanned) :
    scanned.names = collectDeclaredNames tokens := by
  unfold scan at h
  cases hv : collectEnumValues tokens with
  | error e =>
    rw [hv] at h
    cases h
  | ok values =>
    rw [hv] at h
    exact (congrArg Scanned.names (Except.ok.inj h)).symm

theorem sitesOk_append_unions {env : Env} {m : Module} {unions : List UnionDecl}
    (hm : env.SitesOk m.sites) (hu : ∀ u ∈ unions, env.SitesOk u.sites) :
    env.SitesOk ({ m with unions := m.unions ++ unions } : Module).sites := by
  have hunions : env.SitesOk (unions.flatMap UnionDecl.sites) := by
    intro site hsite
    obtain ⟨u, hmem, hsite⟩ := mem_flatMap.mp hsite
    exact hu u hmem site hsite
  simp only [Module.sites, Env.sitesOk_append, flatMap_append] at hm ⊢
  exact ⟨⟨⟨⟨hm.1.1.1.1, hm.1.1.1.2, hunions⟩, hm.1.1.2⟩, hm.1.2⟩, hm.2⟩

theorem liftResult_eq_ok {α : Type} {x : Except Failure α} {a : α} {s s' : Parser}
    (h : liftResult x s = .ok a s') : x = .ok a := by
  cases x with
  | error e => cases h
  | ok b => exact congrArg Except.ok (EStateM.Result.ok.inj h).1

theorem mem_declarations_append {m : Module} {unions : List UnionDecl} {d : Header}
    (h : d ∈ ({ m with unions := m.unions ++ unions } : Module).declarations) :
    d ∈ m.declarations ∨ d.kind = .union ∧ d.owner = "" := by
  simp only [Module.declarations, Module.headersIn, bodyHeaders, map_append,
    mem_append, List.mem_map] at h ⊢
  rcases h with (h | h | ⟨u, -, rfl⟩) | h
  · exact Or.inl (Or.inl (Or.inl h))
  · exact Or.inl (Or.inl (Or.inr h))
  · exact Or.inr ⟨rfl, rfl⟩
  · exact Or.inl (Or.inr h)

/-- **What is parsed is what was written, looked up in the tables of the file.** -/
theorem parseFile_read {p : Prelude} {tokens : List Token} {m : Module} {s s' : Parser}
    (hlex : WellLexed tokens) (hs : s.rest = tokens) (hp : s.pendingResultUnions = [])
    (h : parseFile p tokens s = .ok m s') : FileRead p tokens m := by
  obtain ⟨scanned, s₁, hscan, h⟩ := EState.bind_eq_ok.mp h
  obtain ⟨header, s₂, hheader, h⟩ := EState.bind_eq_ok.mp h
  obtain ⟨m', s₃, hbody, h⟩ := EState.bind_eq_ok.mp h
  obtain ⟨rfl, rfl⟩ := EStateM.Result.ok.inj h
  obtain rfl : s₁ = s := runs_of_triple (fun o => liftResult_spec _) hscan
  obtain ⟨_, s₄, hseed, h⟩ := EState.bind_eq_ok.mp hbody
  obtain ⟨m'', s₅, hdecls, h⟩ := EState.bind_eq_ok.mp h
  obtain ⟨_, s₆, hcheck, h⟩ := EState.bind_eq_ok.mp h
  obtain ⟨rfl, rfl⟩ := EStateM.Result.ok.inj h
  obtain rfl := checkCompleteTypeAcyclic_eq hcheck
  obtain ⟨-, rfl⟩ := EStateM.Result.ok.inj hseed
  -- Nothing before the first declaration holds a header.
  have hrun : Run s₁ (Parser.seed p s₂) :=
    (runs_of_triple (fun o => parseHeader_spec) hheader).trans (.of_eq rfl rfl)
  obtain ⟨written, hstep, rfl⟩ := runs_of_triple (fun o => parseDecls_spec) hdecls
  have hpending : PendingOk (Env.of header.moduleName scanned.names scanned.values p) s₆ :=
    hstep.pending (fun u hu => by
      rw [hrun.pending, hp] at hu
      cases hu)
  have hreads : ∀ d ∈ written.declarations, d ∈ headers tokens := by
    obtain ⟨-, hcovers⟩ := hstep.reads s₁ hrun.reads (by rwa [hs])
    rw [hs] at hcovers
    exact fun d hd => hcovers.mem_headers hd
  refine ⟨fun d hd => ?_, fun i hi d hd => hreads d ?_, ⟨scanned.values, ?_⟩, fun i hi f hf => ?_⟩
  · exact (mem_declarations_append hd).imp_left (hreads d)
  · exact mem_append_right _ (mem_flatMap_of_mem hi hd)
  · rw [Env.ofFile, ← names_of_scan (liftResult_eq_ok hscan)]
    exact sitesOk_append_unions (hstep.sites Env.sitesOk_nil) hpending
  · have hresult := hstep.results (fun i hi => absurd hi not_mem_nil) i hi f hf
    refine hresult.imp_right (fun ⟨t, ⟨u, hu, ht⟩, hparams⟩ => ?_)
    exact ⟨u, mem_append_right _ hu, by rw [hparams, ht]⟩

/-! ### Tokens -/

theorem wellLexed_of_tokenize {content : String} {tokens : List Token}
    (h : tokenize content = .ok tokens) : WellLexed tokens := by
  obtain ⟨ts, last, rfl, hend, htext, hspelled⟩ := exists_spelledAs h
  refine ⟨⟨last, getLast?_concat, hend⟩, fun t ht hbrace => ?_⟩
  rcases mem_append.mp ht with ht | ht
  · obtain ⟨spelling, hspelling⟩ := hspelled t ht
    exact hspelling.text_eq hbrace
  · rw [mem_singleton.mp ht, htext]

theorem ends_of_tokenize {content : String} {tokens : List Token}
    (h : tokenize content = .ok tokens) {t : Token} {rest : List Token}
    (hsuffix : t :: rest <:+ tokens) (ht : t.type = .end) : rest = [] := by
  obtain ⟨ts, last, rfl, -, -, hspelled⟩ := exists_spelledAs h
  obtain ⟨before, hbefore⟩ := hsuffix
  rcases eq_nil_or_concat rest with rfl | ⟨rest, last', rfl⟩
  · rfl
  · rw [concat_eq_append, ← cons_append, ← append_assoc] at hbefore
    obtain ⟨rfl, -⟩ := append_inj' hbefore rfl
    obtain ⟨spelling, hspelling⟩ := hspelled t (mem_append_right _ mem_cons_self)
    exact absurd ht hspelling.ne_end

end Voodoo.Compiler
