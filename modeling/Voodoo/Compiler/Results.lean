import Voodoo.Compiler.Files

/-!
# The unions of `result<T, E>` responses

A method with a `result<T, E>` response stands for a union, which `MakeResultUnion` makes
and keeps for the end of the file.  `Makes s t fs` says of a part of a parse that it made
the unions of the methods `fs`, in their order, and no others; for a whole file this gives
its unions as the written ones followed by the synthesized ones (`unions_of_parseFile`).
-/

namespace Voodoo.Compiler

open Std.Do Parse List

set_option mvcgen.warning false

/-- `u` is the union that the response of `f` stands for.  It has no clause of its own. -/
structure Method.Makes (f : Method) (u : UnionDecl) : Prop where
  fields : ∃ t e, f.result = some (t, e) ∧ u.fields =
    [{ type := t, name := "value", tag := 0 }, { type := e, name := "error", tag := 1 }]
  responseParams : f.responseParams =
    [{ type := .ref .union [] ⟨u.name, "", ""⟩, name := "result" }]
  enableIf : u.enableIf = {}
  ownerContainer : u.ownerContainer = ""

/-- The methods with a `result<T, E>` response. -/
def resultMethods (fs : List Method) : List Method := fs.filter (·.result.isSome)

/-- The methods of all interfaces. -/
def Module.methods (m : Module) : List Method := m.interfaces.flatMap (·.methods)

/-- Between the two states the unions of the methods `fs` were made. -/
def Makes (s t : Parser) (fs : List Method) : Prop :=
  ∃ us, t.pendingResultUnions = s.pendingResultUnions ++ us ∧
    List.Forall₂ Method.Makes (resultMethods fs) us

section

variable {s t u : Parser} {fs gs : List Method}

theorem Makes.of_eq (h : t.pendingResultUnions = s.pendingResultUnions) : Makes s t [] :=
  ⟨[], by rw [h, append_nil], .nil⟩

theorem Makes.trans (h : Makes s t fs) (h' : Makes t u gs) : Makes s u (fs ++ gs) := by
  obtain ⟨us, hus, hfs⟩ := h
  obtain ⟨vs, hvs, hgs⟩ := h'
  refine ⟨us ++ vs, by rw [hvs, hus, List.append_assoc], ?_⟩
  rw [resultMethods, filter_append]
  exact rel_append hfs hgs

@[grind →] theorem Makes.trans_run (h : Makes s t fs) (h' : Run t u) : Makes s u fs := by
  obtain ⟨us, hus, hfs⟩ := h
  exact ⟨us, h'.pending.trans hus, hfs⟩

@[grind →] theorem Makes.run_trans (h : Run s t) (h' : Makes t u fs) : Makes s u fs := by
  obtain ⟨us, hus, hfs⟩ := h'
  exact ⟨us, by rw [hus, h.pending], hfs⟩

theorem Makes.of_none {f : Method} (h : Run s t) (hf : f.result = none) : Makes s t [f] := by
  refine ⟨[], by rw [h.pending, append_nil], ?_⟩
  rw [resultMethods, filter_cons, hf]
  exact .nil

theorem Makes.congr {f g : Method} (h : Makes s t [f]) (hr : g.result = f.result)
    (hp : g.responseParams = f.responseParams) : Makes s t [g] := by
  obtain ⟨us, hus, hfs⟩ := h
  refine ⟨us, hus, ?_⟩
  rw [resultMethods, filter_cons, filter_nil] at hfs ⊢
  rw [hr]
  split
  · next hsome =>
    rw [if_pos hsome] at hfs
    obtain ⟨u, us', hfu, hus', rfl⟩ := forall₂_cons_left_iff.mp hfs
    exact .cons ⟨by rw [hr]; exact hfu.fields, by rw [hp]; exact hfu.responseParams,
      hfu.enableIf, hfu.ownerContainer⟩ hus'
  · next hnone =>
    rwa [if_neg hnone] at hfs

end

/-! ### Methods -/

section

variable {o : Parser} {env : Env}

theorem makes_of {α : Type} {x : Parse α} {fs : α → List Method}
    (h : ⦃fun s => ⌜s = o⌝⦄ x ⦃⇓? a => fun s => ⌜True ∧ Makes o s (fs a)⌝⦄) :
    ⦃fun s => ⌜s = o⌝⦄ x ⦃⇓? a => fun s => ⌜Makes o s (fs a)⌝⦄ := by
  mvcgen [h]
  grind

theorem makeResultUnion_makes (ifaceName methodName : String) (t e : TypeSpec) :
    ⦃fun s => ⌜s = o⌝⦄ makeResultUnion ifaceName methodName t e
    ⦃⇓? r => fun s => ⌜∀ f : Method, f.result = some (t, e) →
      f.responseParams = [{ type := r, name := "result" }] → Makes o s [f]⌝⦄ := by
  mvcgen [makeResultUnion]
  next hs _ s₁ hrun _ =>
    subst hs
    intro f hf hparams
    refine ⟨_, congrArg (· ++ _) hrun.pending, ?_⟩
    rw [resultMethods, filter_cons, hf]
    exact .cons ⟨⟨t, e, hf, rfl⟩, hparams, rfl, rfl⟩ .nil

theorem parseResultResponse_makes (ifaceName : String) (m : Method) (hcur : o.tok.type = .name) :
    ⦃fun s => ⌜s = o⌝⦄ parseResultResponse env ifaceName m
    ⦃⇓? f => fun s => ⌜Makes o s [f]⌝⦄ := by
  have h := fun o => makeResultUnion_makes (o := o)
  mvcgen [parseResultResponse, -parseResultResponse_spec, h]
  all_goals grind

theorem parseResponse_makes (ifaceName : String) (m : Method) (hm : m.result = none) :
    ⦃fun s => ⌜s = o⌝⦄ parseResponse env ifaceName m
    ⦃⇓? f => fun s => ⌜Makes o s [f]⌝⦄ := by
  have h := fun o => @parseResultResponse_makes o env
  apply makes_of
  mvcgen [parseResponse, -parseResponse_spec, -parseResultResponse_spec, h]
  all_goals grind [Makes.of_none]

theorem parseMethod_makes (attrs : List ParsedAttribute) (ifaceName : String) :
    ⦃fun s => ⌜s = o⌝⦄ parseMethod env attrs ifaceName
    ⦃⇓? f => fun s => ⌜Makes o s [f]⌝⦄ := by
  have h := foldlM_spec
    (Q := fun m : Method => m.params = [] ∧ m.responseParams = [] ∧ m.result = none)
    (fun m a o => parseMethodAttribute_spec (o := o) m a)
  have hresponse := fun o => @parseResponse_makes o env
  mvcgen [parseMethod, -parseMethod_spec, -parseResponse_spec, -Spec.foldlM_list, h, hresponse]
  all_goals grind

/-! ### Interfaces and files -/

/-- One declaration in the body of an interface. -/
def Interface.Grew (o s : Parser) (i j : Interface) : Prop :=
  ∃ fs, j.methods = i.methods ++ fs ∧ Makes o s fs

theorem Interface.Grew.of_eq {s : Parser} {i j : Interface} (h : j.methods = i.methods)
    (hp : s.pendingResultUnions = o.pendingResultUnions) : i.Grew o s j :=
  ⟨[], by rw [h, append_nil], .of_eq hp⟩

theorem Interface.Grew.of_method {s : Parser} {i j : Interface} {f g : Method}
    (h : Makes o s [f]) (hj : j.methods = i.methods ++ [g]) (hr : g.result = f.result)
    (hp : g.responseParams = f.responseParams) : i.Grew o s j :=
  ⟨[g], hj, h.congr hr hp⟩

theorem Interface.Grew.trans {s t : Parser} {i j k : Interface} (h : i.Grew o s j)
    (h' : j.Grew s t k) : i.Grew o t k := by
  obtain ⟨fs, hj, hfs⟩ := h
  obtain ⟨gs, hk, hgs⟩ := h'
  exact ⟨fs ++ gs, by rw [hk, hj, List.append_assoc], hfs.trans hgs⟩

theorem Makes.of_body {s t : Parser} {i j : Interface} (hi : i.methods = [])
    (h : i.Grew s.next.next.next t j) : Makes s t.next j.methods := by
  obtain ⟨fs, hj, us, hus, hfs⟩ := h
  rw [hj, hi, nil_append]
  exact ⟨us, by simpa only [pendingResultUnions_next] using hus, hfs⟩

grind_pattern Makes.of_body => Interface.Grew s.next.next.next t i j, t.next

theorem parseInterfaceMember_makes (i : Interface) :
    ⦃fun s => ⌜s = o⌝⦄ parseInterfaceMember env i ⦃⇓? j => fun s => ⌜i.Grew o s j⌝⦄ := by
  have h := fun o => @parseMethod_makes o env
  mvcgen [parseInterfaceMember, -parseMethod_spec, h]
  all_goals grind [Interface.Grew.of_eq, Interface.Grew.of_method]

theorem interfaceBody_makes (i : Interface) :
    ⦃fun s => ⌜s = o⌝⦄ untilRBrace (parseInterfaceMember env) i
    ⦃⇓? j => fun s => ⌜i.Grew o s j⌝⦄ := by
  refine untilRBrace_spec (fun j t => ?_) i (.of_eq rfl rfl)
  mvcgen [parseInterfaceMember_makes]
  grind [Interface.Grew.trans]

theorem parseInterface_makes (attrs : List ParsedAttribute) :
    ⦃fun s => ⌜s = o⌝⦄ parseInterface env attrs
    ⦃⇓? i => fun s => ⌜Makes o s i.methods⌝⦄ := by
  have h := foldlM_spec (Q := Interface.Blank)
    (fun i a o => parseInterfaceAttribute_spec (o := o) i a)
  have hbody := fun o => @interfaceBody_makes o env
  mvcgen [parseInterface, -parseInterface_spec, -Spec.foldlM_list, h, -interfaceBody_spec, hbody]
  all_goals grind [Interface.Blank]

/-- One top-level declaration.  No union is added to the module before the end of the file. -/
def Module.Grew (o s : Parser) (m n : Module) : Prop :=
  ∃ is, n.interfaces = m.interfaces ++ is ∧ Makes o s (is.flatMap (·.methods))

theorem Module.Grew.of_eq {s : Parser} {m n : Module} (h : n.interfaces = m.interfaces)
    (hp : s.pendingResultUnions = o.pendingResultUnions) : m.Grew o s n :=
  ⟨[], by rw [h, append_nil], .of_eq hp⟩

theorem Module.Grew.of_interface {s : Parser} {m n : Module} {i : Interface}
    (h : Makes o s i.methods) (hn : n.interfaces = m.interfaces ++ [i]) : m.Grew o s n :=
  ⟨[i], hn, by simpa using h⟩

theorem Module.Grew.trans {s t : Parser} {m n k : Module} (h : m.Grew o s n) (h' : n.Grew s t k) :
    m.Grew o t k := by
  obtain ⟨is, hn, his⟩ := h
  obtain ⟨js, hk, hjs⟩ := h'
  refine ⟨is ++ js, by rw [hk, hn, List.append_assoc], ?_⟩
  rw [flatMap_append]
  exact his.trans hjs

theorem parseTopLevel_makes (m : Module) :
    ⦃fun s => ⌜s = o⌝⦄ parseTopLevel env m ⦃⇓? n => fun s => ⌜m.Grew o s n⌝⦄ := by
  have h := fun o => @parseInterface_makes o env
  unfold parseTopLevel
  generalize "expected 'interface', 'union', 'enum', 'struct', 'const', or 'feature' after " ++
    "attribute list, got '" = msg
  mvcgen [-Spec.foldlM_list, foldlM_fillEnableIf_spec, -parseInterface_spec, h]
  all_goals grind [Module.Grew.of_eq, Module.Grew.of_interface]

theorem parseDecls_makes :
    ⦃fun s => ⌜s = o⌝⦄ parseDecls env
    ⦃⇓? m => fun s => ⌜Makes o s m.methods ∧
      ∃ written, m.unions = written ++ s.pendingResultUnions⌝⦄ := by
  have hstep (m : Module) (t : Parser) : ⦃fun s => ⌜s = t⌝⦄ parseTopLevel env m
      ⦃⇓? n => fun s => ⌜Module.Grew o t {} m → Module.Grew o s {} n⌝⦄ := by
    mvcgen [parseTopLevel_makes]
    grind [Module.Grew.trans]
  have hloop := fun turns => loopUntil_spec .end hstep turns {} (.of_eq rfl rfl)
  mvcgen [parseDecls, -parseDecls_spec, hloop]
  all_goals grind [Module.Grew, Module.methods]

end

/-- The unions of a file are those it writes and one for each `result<T, E>` response. -/
theorem unions_of_parseFile {p : Prelude} {tokens : List Token} {m : Module} {s s' : Parser}
    (hp : s.pendingResultUnions = []) (h : parseFile p tokens s = .ok m s') :
    ∃ written made, m.unions = written ++ made ∧
      List.Forall₂ Method.Makes (resultMethods m.methods) made := by
  obtain ⟨scanned, s₁, hscan, h⟩ := EState.bind_eq_ok.mp h
  obtain ⟨header, s₂, hheader, h⟩ := EState.bind_eq_ok.mp h
  obtain ⟨m', s₃, hbody, h⟩ := EState.bind_eq_ok.mp h
  obtain ⟨rfl, rfl⟩ := EStateM.Result.ok.inj h
  obtain rfl : s₁ = s := runs_of_triple (fun o => liftResult_spec _) hscan
  obtain ⟨_, s₄, hseed, h⟩ := EState.bind_eq_ok.mp hbody
  obtain ⟨m'', s₅, hdecls, h⟩ := EState.bind_eq_ok.mp h
  obtain ⟨_, s₆, hcheck, h⟩ := EState.bind_eq_ok.mp h
  obtain ⟨rfl, rfl⟩ := EStateM.Result.ok.inj h
  obtain rfl := checkCompleteTypeAcyclic_eq hcheck
  obtain ⟨-, rfl⟩ := EStateM.Result.ok.inj hseed
  have hnone : (Parser.seed p s₂).pendingResultUnions = [] :=
    (runs_of_triple (fun o => parseHeader_spec) hheader).pending.trans hp
  obtain ⟨⟨made, hmade, hfs⟩, written, hunions⟩ := runs_of_triple (fun o => parseDecls_makes) hdecls
  rw [hmade, hnone, nil_append] at hunions
  exact ⟨written, made, hunions, hfs⟩

end Voodoo.Compiler
