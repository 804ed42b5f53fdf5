import Voodoo.Ast
import Voodoo.Lib.Passes

/-!
# Which structs and unions carry handles

The generated `WriteX` and `ReadX` of a struct or union that carries a handle, or embeds something
that does, take the handles of the message as further arguments.  `BuildHandleCtx` collects the names
of these structs and unions, in passes over the declarations of the file.

* `mem_buildHandleCtx_iff`: the passes end with the declarations that come to a handle by their
  names, each reference read as whatever the file itself declares under its embed name;
* `BearsHandle` is what a reference really comes to, through the files of the import graph;
* `buildHandleCtx_reachable_iff`: when the names are those of the declarations that come to one.
-/

namespace Voodoo

open List

/-! ### `BuildHandleCtx` -/

/-- `TypeNeedsHandleCtx`, and `field_needs`, which is the same. -/
def typeNeedsHandleCtx (ctx : List String) : TypeSpec → Bool
  | .handle _ _ => true
  | .structRef r | .unionRef r => r.cppEmbedName ∈ ctx
  | .array element _ | .map _ element => typeNeedsHandleCtx ctx element
  | .nullable t => typeNeedsHandleCtx ctx t
  | _ => false

/-- A struct or union, and the types of its fields. -/
structure EmbedTypes where
  name : String
  types : List TypeSpec

namespace Module

/-- The declarations of a pass, in its order. -/
def embedTypes (m : Module) : List EmbedTypes :=
  m.allStructs.map (fun s => ⟨s.cppEmbedName, s.fields.map (·.type)⟩) ++
  m.allUnions.map (fun u => ⟨u.cppEmbedName, u.fields.map (·.type)⟩)

end Module

def buildHandleCtx (m : Module) : List String :=
  Passes.run EmbedTypes.name (fun ctx d => d.types.any (typeNeedsHandleCtx ctx)) m.embedTypes []

/-! ### The least fixed point -/

/-- `TypeNeedsHandleCtx` for a set of names. -/
def NeedsHandle (S : String → Prop) : TypeSpec → Prop
  | .handle _ _ => True
  | .structRef r | .unionRef r => S r.cppEmbedName
  | .array element _ | .map _ element => NeedsHandle S element
  | .nullable t => NeedsHandle S t
  | _ => False

variable {S T : String → Prop} {t : TypeSpec} {name : String} {m : Module}

theorem typeNeedsHandleCtx_iff {ctx : List String} :
    typeNeedsHandleCtx ctx t = true ↔ NeedsHandle (· ∈ ctx) t := by
  induction t with
  | structRef r | unionRef r => exact decide_eq_true_iff
  | array element n ih => exact ih
  | map key element _ ih => exact ih
  | nullable t ih => exact ih
  | handle => exact iff_of_true rfl trivial
  | scalar | string | enumRef => exact iff_of_false Bool.false_ne_true id

theorem NeedsHandle.mono (h : ∀ name, S name → T name) (ht : NeedsHandle S t) :
    NeedsHandle T t := by
  induction t with
  | structRef r | unionRef r => exact h _ ht
  | array element n ih => exact ih ht
  | map key element _ ih => exact ih ht
  | nullable t ih => exact ih ht
  | handle => trivial
  | scalar | string | enumRef => exact ht

theorem handleRule : Passes.Rule (fun ctx d => d.types.any (typeNeedsHandleCtx ctx))
    fun S (d : EmbedTypes) => ∃ t ∈ d.types, NeedsHandle S t where
  derives_iff := by simp only [List.any_eq_true, typeNeedsHandleCtx_iff, implies_true]
  mono := by
    rintro S T d h ⟨t, ht, hneeds⟩
    exact ⟨t, ht, hneeds.mono h⟩

/-- A type that comes to a handle when each reference is read as what the file declares under its
embed name. -/
inductive NamesHandle (m : Module) : TypeSpec → Prop
  | handle {kind : HandleKind} {interface : Option TypeRef} : NamesHandle m (.handle kind interface)
  | structRef {r : TypeRef} {d : EmbedTypes} {t : TypeSpec} (hd : d ∈ m.embedTypes)
      (hname : d.name = r.cppEmbedName) (ht : t ∈ d.types) (h : NamesHandle m t) :
      NamesHandle m (.structRef r)
  | unionRef {r : TypeRef} {d : EmbedTypes} {t : TypeSpec} (hd : d ∈ m.embedTypes)
      (hname : d.name = r.cppEmbedName) (ht : t ∈ d.types) (h : NamesHandle m t) :
      NamesHandle m (.unionRef r)
  | array {element : TypeSpec} {n : Nat} (h : NamesHandle m element) :
      NamesHandle m (.array element n)
  | map {key element : TypeSpec} (h : NamesHandle m element) : NamesHandle m (.map key element)
  | nullable {t : TypeSpec} (h : NamesHandle m t) : NamesHandle m (.nullable t)

/-- The file declares a struct or union of that name with a field that comes to a handle by names. -/
def EmbedNamesHandle (m : Module) (name : String) : Prop :=
  ∃ d ∈ m.embedTypes, d.name = name ∧ ∃ t ∈ d.types, NamesHandle m t

theorem namesHandle_iff : NamesHandle m t ↔ NeedsHandle (EmbedNamesHandle m) t := by
  refine ⟨fun h => ?_, fun h => ?_⟩
  · induction h with
    | handle => trivial
    | structRef hd hname ht h | unionRef hd hname ht h => exact ⟨_, hd, hname, _, ht, h⟩
    | array _ ih | map _ ih | nullable _ ih => exact ih
  · induction t with
    | structRef r =>
      obtain ⟨d, hd, hname, t, ht, h⟩ := h
      exact .structRef hd hname ht h
    | unionRef r =>
      obtain ⟨d, hd, hname, t, ht, h⟩ := h
      exact .unionRef hd hname ht h
    | array element n ih => exact .array (ih h)
    | map key element _ ih => exact .map (ih h)
    | nullable t ih => exact .nullable (ih h)
    | handle => exact .handle
    | scalar | string | enumRef => exact h.elim

/-- **The passes end with the names of the declarations that come to a handle by names.** -/
theorem mem_buildHandleCtx_iff : name ∈ buildHandleCtx m ↔ EmbedNamesHandle m name := by
  rw [buildHandleCtx, Passes.mem_run_iff handleRule]
  refine ⟨fun h => h _ fun d hd => ?_, ?_⟩
  · rintro ⟨t, ht, hneeds⟩
    exact ⟨d, hd, rfl, t, ht, namesHandle_iff.mpr hneeds⟩
  · rintro ⟨d, hd, rfl, t, ht, h⟩ S hS
    refine hS d hd ⟨t, ht, ?_⟩
    -- along the path to the handle
    clear hd ht
    induction h with
    | handle => trivial
    | @structRef r d t hd hname ht _ ih | @unionRef r d t hd hname ht _ ih =>
      show S r.cppEmbedName
      rw [← hname]
      exact hS d hd ⟨t, ht, ih⟩
    | array _ ih | map _ ih | nullable _ ih => exact ih

/-! ### What references come to -/

/-- A type of the file `m` that comes to a handle when each reference is read as what it reaches in
the import graph. -/
inductive BearsHandle (graph : List Module) : Module → TypeSpec → Prop
  | handle {m : Module} {kind : HandleKind} {interface : Option TypeRef} :
      BearsHandle graph m (.handle kind interface)
  | structRef {m n : Module} {r : TypeRef} {s : StructDecl} {f : StructField}
      (hs : resolveStruct graph m r = some (n, s)) (hf : f ∈ s.fields)
      (h : BearsHandle graph n f.type) : BearsHandle graph m (.structRef r)
  | unionRef {m n : Module} {r : TypeRef} {u : UnionDecl} {f : UnionField}
      (hu : resolveUnion graph m r = some (n, u)) (hf : f ∈ u.fields)
      (h : BearsHandle graph n f.type) : BearsHandle graph m (.unionRef r)
  | array {m : Module} {element : TypeSpec} {n : Nat} (h : BearsHandle graph m element) :
      BearsHandle graph m (.array element n)
  | map {m : Module} {key element : TypeSpec} (h : BearsHandle graph m element) :
      BearsHandle graph m (.map key element)
  | nullable {m : Module} {t : TypeSpec} (h : BearsHandle graph m t) :
      BearsHandle graph m (.nullable t)

/-- The file declares a struct or union of that name from which a handle is reached. -/
def EmbedBearsHandle (graph : List Module) (m : Module) (name : String) : Prop :=
  ∃ d ∈ m.embedTypes, d.name = name ∧ ∃ t ∈ d.types, BearsHandle graph m t

/-- The references that the values of a type embed. -/
def TypeSpec.embedRefs : TypeSpec → List TypeRef
  | .structRef r | .unionRef r => [r]
  | .array element _ | .map _ element => element.embedRefs
  | .nullable t => t.embedRefs
  | _ => []

def EmbedTypes.embedRefs (d : EmbedTypes) : List TypeRef := d.types.flatMap TypeSpec.embedRefs

/-- The same declarations in another order. -/
structure Reordered (m m' : Module) : Prop where
  structs : m.allStructs.Perm m'.allStructs
  unions : m.allUnions.Perm m'.allUnions

theorem Reordered.embedTypes {m' : Module} (h : Reordered m m') :
    m.embedTypes.Perm m'.embedTypes :=
  (h.structs.map _).append (h.unions.map _)

theorem mem_buildHandleCtx_of_reordered {m' : Module} (h : Reordered m m') :
    name ∈ buildHandleCtx m' ↔ name ∈ buildHandleCtx m :=
  Passes.mem_run_of_perm handleRule h.embedTypes

variable {graph : List Module}

theorem bears_of_needs (hrefs : ∀ r ∈ t.embedRefs, ¬S r.cppEmbedName) (h : NeedsHandle S t) :
    BearsHandle graph m t := by
  induction t with
  | structRef r | unionRef r => exact absurd h (hrefs r mem_cons_self)
  | array element n ih => exact .array (ih hrefs h)
  | map key element _ ih => exact .map (ih hrefs h)
  | nullable t ih => exact .nullable (ih hrefs h)
  | handle => exact .handle
  | scalar | string | enumRef => exact h.elim

theorem needs_of_mem_embedRefs {r : TypeRef} (hr : r ∈ t.embedRefs) (h : S r.cppEmbedName) :
    NeedsHandle S t := by
  induction t with
  | structRef r' | unionRef r' =>
    cases mem_singleton.mp hr
    exact h
  | array element n ih => exact ih hr
  | map key element _ ih => exact ih hr
  | nullable t ih => exact ih hr
  | scalar | string | enumRef | handle => cases hr

/-- **`BuildHandleCtx` has just the declarations of the file from which a handle is reached, whatever
their order, if and only if each of them also comes to a handle by names, and no other refers to
anything by the embed name of one of them.** -/
theorem buildHandleCtx_reachable_iff (graph : List Module) (m : Module) :
    ((∀ name, name ∈ buildHandleCtx m ↔ EmbedBearsHandle graph m name) ∧
      ∀ m', Reordered m m' → ∀ name, name ∈ buildHandleCtx m' ↔ name ∈ buildHandleCtx m) ↔
    ∀ d ∈ m.embedTypes,
      (EmbedBearsHandle graph m d.name → EmbedNamesHandle m d.name) ∧
      (¬EmbedBearsHandle graph m d.name →
        ∀ r ∈ d.embedRefs, ¬EmbedBearsHandle graph m r.cppEmbedName) := by
  rw [and_iff_left fun m' h name => mem_buildHandleCtx_of_reordered h]
  simp only [mem_buildHandleCtx_iff]
  refine ⟨fun h d hd => ⟨(h _).mpr, fun hno r hr hbears => hno ?_⟩, fun h name => ⟨?_, ?_⟩⟩
  · obtain ⟨t, ht, hr⟩ := mem_flatMap.mp hr
    have hneeds := needs_of_mem_embedRefs hr ((h _).mpr hbears)
    exact (h _).mp ⟨d, hd, rfl, t, ht, namesHandle_iff.mpr hneeds⟩
  · -- by the passes: each name that is put in is that of a declaration with a handle
    intro hnames
    rw [← mem_buildHandleCtx_iff, buildHandleCtx, Passes.mem_run_iff handleRule] at hnames
    refine hnames _ fun d hd => ?_
    rintro ⟨t, ht, hneeds⟩
    refine Classical.byContradiction fun hno => hno ⟨d, hd, rfl, t, ht, ?_⟩
    exact bears_of_needs (fun r hr => (h d hd).2 hno r (mem_flatMap.mpr ⟨t, ht, hr⟩)) hneeds
  · intro hbears
    obtain ⟨d, hd, rfl, _⟩ := id hbears
    exact (h d hd).1 hbears

/-! A struct whose only handle is in a struct of another file. -/

def bagModule : Module where
  name := "bag"
  structs := [{ name := "Bag", fields := [{ type := .handle .handle none, name := "h" }] }]

def holderModule : Module where
  name := "holder"
  structs :=
    [{ name := "Holder"
       fields := [{ type := .structRef { name := "Bag", ownerNamespace := "bag" }, name := "b" }] }]

theorem holder_not_reachable :
    ¬((∀ name, name ∈ buildHandleCtx holderModule ↔
        EmbedBearsHandle [bagModule, holderModule] holderModule name) ∧
      ∀ m', Reordered holderModule m' →
        ∀ name, name ∈ buildHandleCtx m' ↔ name ∈ buildHandleCtx holderModule) := by
  rintro ⟨h, -⟩
  have hbears : EmbedBearsHandle [bagModule, holderModule] holderModule "Holder" := by
    refine ⟨_, mem_singleton_self _, rfl, _, mem_singleton_self _, ?_⟩
    exact .structRef (n := bagModule) rfl (mem_singleton_self _) .handle
  obtain ⟨d, hd, -, t, ht, hnames⟩ := mem_buildHandleCtx_iff.mp ((h "Holder").mpr hbears)
  cases mem_singleton.mp hd
  cases mem_singleton.mp ht
  cases hnames with
  | structRef hd hname ht _ =>
    cases mem_singleton.mp hd
    exact absurd hname (by decide)

end Voodoo
