import Voodoo.Evolution.Shared

/-!
# What one version is meant to make of another version's value

A value is written by version `w` of some files and read by version `r` of them.  `received` is what
the reader is meant to end up with: the fields both versions have, the declared default where only
the reader has a field, the `[Default]` field or `Tag::kUnknown` for a variant it does not have; and
the handles that belong to what it got, in wire order.

`Part` is one step from a value to a value inside it that the reader reads, each with the file and
the struct version it is read under.  What has to hold for every value met on the way (`Throughout`)
is `EnumAccepted`, `NotReplaced` and `KeysDistinct`, together `Readable`.
-/

namespace Voodoo

open StableOrder List Option

/-- An object and the handles in it. -/
structure Received where
  val : Val
  handles : List Handle

/-! ### What the reader is meant to end up with -/

mutual

def received (graph : List Module) (w r : Profile) (file : Module) : TypeSpec → Val → Received
  | .structRef ref, .struct members =>
    match resolveStruct graph file ref with
    | some (m, s) =>
      let fields := shared w r m s (receivedMembers graph w r m (w.struct m s).fields members)
      { val := .struct (fields.map
          (delivered (fun _ x => x.val) (defaultMember (r.graph graph) (r.module m))))
        handles := (sortBy (fun p => p.1.minVersion.toNat) fields).flatMap (fun p =>
          match p.2 with
          | some x => x.handles
          | none => []) }
    | none => ⟨.struct members, []⟩
  | .unionRef ref, .union tag value =>
    match resolveUnion graph file ref with
    | some (m, u) =>
      match (r.union m u).caseFor tag with
      | some f =>
        let x := received graph w r m f.type value
        ⟨.union tag x.val, x.handles⟩
      | none => ⟨unionFallback (r.union m u) (defaultValue (r.graph graph) (r.module m)), []⟩
    | none => ⟨.union tag value, []⟩
  | .array element _, .array elements =>
    let xs := receivedElements graph w r file element elements
    ⟨.array (xs.map (·.val)), xs.flatMap (·.handles)⟩
  | .map key element, .map entries =>
    let xs := receivedEntries graph w r file key element entries
    ⟨.map (xs.map (fun x => (x.1.val, x.2.val))), xs.flatMap (fun x => x.1.handles ++ x.2.handles)⟩
  | .handle _ _, value => ⟨value, (encodeHandle value).handles⟩
  | .nullable type, .some value =>
    let x := received graph w r file type value
    ⟨.some x.val, x.handles⟩
  | _, value => ⟨value, []⟩

def receivedMembers (graph : List Module) (w r : Profile) (file : Module) :
    List StructField → List Val → List Received
  | f :: fs, v :: vs =>
    received graph w r file f.type v :: receivedMembers graph w r file fs vs
  | _, _ => []

def receivedElements (graph : List Module) (w r : Profile) (file : Module) (type : TypeSpec) :
    List Val → List Received
  | [] => []
  | v :: vs => received graph w r file type v :: receivedElements graph w r file type vs

def receivedEntries (graph : List Module) (w r : Profile) (file : Module)
    (key element : TypeSpec) : List (Val × Val) → List (Received × Received)
  | [] => []
  | e :: es => receivedEntry graph w r file key element e ::
      receivedEntries graph w r file key element es

def receivedEntry (graph : List Module) (w r : Profile) (file : Module) (key element : TypeSpec) :
    Val × Val → Received × Received
  | (k, v) => (received graph w r file key k, received graph w r file element v)

end

section equations

variable {graph : List Module} {w r : Profile} {file m : Module} {ref : TypeRef}

theorem receivedMembers_eq (fs : List StructField) (vs : List Val) :
    receivedMembers graph w r file fs vs =
      List.zipWith (fun f v => received graph w r file f.type v) fs vs := by
  induction vs generalizing fs with
  | nil => cases fs <;> simp [receivedMembers]
  | cons v vs ih => cases fs <;> simp [receivedMembers, ih]

theorem receivedElements_eq (type : TypeSpec) (vs : List Val) :
    receivedElements graph w r file type vs = vs.map (received graph w r file type) := by
  induction vs with
  | nil => rw [receivedElements, map_nil]
  | cons v vs ih => rw [receivedElements, ih, map_cons]

theorem receivedEntries_eq (key element : TypeSpec) (es : List (Val × Val)) :
    receivedEntries graph w r file key element es = es.map (fun e =>
      (received graph w r file key e.1, received graph w r file element e.2)) := by
  induction es with
  | nil => rw [receivedEntries, map_nil]
  | cons e es ih =>
    obtain ⟨k, v⟩ := e
    rw [receivedEntries, ih, map_cons, receivedEntry]

theorem flatMap_filterMap {α β γ : Type} (g : α → Option β) (h : β → List γ) (l : List α) :
    (l.filterMap g).flatMap h = l.flatMap (fun a => ((g a).map h).getD []) := by
  induction l with
  | nil => rfl
  | cons a l ih => cases hg : g a <;> simp [hg, ih]

theorem received_struct {s : StructDecl} (hr : resolveStruct graph file ref = some (m, s))
    (members : List Val) :
    received graph w r file (.structRef ref) (.struct members) =
      { val := .struct ((shared w r m s members).map
          (delivered (fun f v => (received graph w r m f.type v).val)
            (defaultMember (r.graph graph) (r.module m))))
        handles := (sortBy (fun p => p.1.minVersion.toNat)
          ((shared w r m s members).filterMap written)).flatMap (fun p =>
            (received graph w r m p.1.type p.2).handles) } := by
  have hkey : ∀ (a : StructField × Option Val) b, written a = some b →
      b.1.minVersion.toNat = a.1.minVersion.toNat := by
    rintro ⟨f, _ | v⟩ b hb
    · cases hb
    · cases some.inj hb
      rfl
  rw [received, hr]
  simp only [receivedMembers_eq, shared_zipWith]
  rw [← filterMap_sortBy hkey,
    ← map_sortBy (fun p : StructField × Option Val =>
      (p.1, p.2.map (fun v => received graph w r m p.1.type v))), List.map_map, flatMap_map,
    flatMap_filterMap]
  congr 1
  · congr 1
    refine map_congr_left (fun p _ => ?_)
    obtain ⟨f, _ | v⟩ := p <;> rfl
  · congr 1
    funext p
    obtain ⟨f, _ | v⟩ := p <;> rfl

theorem received_variant {u : UnionDecl} (hr : resolveUnion graph file ref = some (m, u))
    {tag : BitVec 32} {f : UnionField} (hf : (r.union m u).caseFor tag = some f) (v : Val) :
    received graph w r file (.unionRef ref) (.union tag v) =
      ⟨.union tag (received graph w r m f.type v).val,
        (received graph w r m f.type v).handles⟩ := by
  rw [received, hr]
  simp only [hf]

theorem received_dropped {u : UnionDecl} (hr : resolveUnion graph file ref = some (m, u))
    {tag : BitVec 32} (hf : (r.union m u).caseFor tag = none) (v : Val) :
    received graph w r file (.unionRef ref) (.union tag v) =
      ⟨unionFallback (r.union m u) (defaultValue (r.graph graph) (r.module m)), []⟩ := by
  rw [received, hr]
  simp only [hf]

theorem received_array (element : TypeSpec) (n : Nat) (elements : List Val) :
    received graph w r file (.array element n) (.array elements) =
      ⟨.array (elements.map (fun v => (received graph w r file element v).val)),
        elements.flatMap (fun v => (received graph w r file element v).handles)⟩ := by
  rw [received, receivedElements_eq]
  simp only [List.map_map, flatMap_map]
  rfl

theorem received_map (key element : TypeSpec) (entries : List (Val × Val)) :
    received graph w r file (.map key element) (.map entries) =
      ⟨.map (entries.map (fun e => ((received graph w r file key e.1).val,
          (received graph w r file element e.2).val))),
        entries.flatMap (fun e => (received graph w r file key e.1).handles ++
          (received graph w r file element e.2).handles)⟩ := by
  rw [received, receivedEntries_eq]
  simp only [List.map_map, flatMap_map]
  rfl

end equations

/-! ### The values met on the way -/

/-- A value being read: in which file, under which struct version, as which type. -/
structure Site where
  file : Module
  version : Option Nat
  type : TypeSpec
  val : Val

inductive Part (graph : List Module) (w r : Profile) : Site → Site → Prop where
  | some {file : Module} {version : Option Nat} {type : TypeSpec} {v : Val} :
      Part graph w r ⟨file, version, .nullable type, .some v⟩ ⟨file, version, type, v⟩
  | element {file : Module} {version : Option Nat} {type : TypeSpec} {n : Nat} {vs : List Val}
      {v : Val} (hv : v ∈ vs) :
      Part graph w r ⟨file, version, .array type n, .array vs⟩ ⟨file, version, type, v⟩
  | key {file : Module} {version : Option Nat} {key type : TypeSpec} {es : List (Val × Val)}
      {e : Val × Val} (he : e ∈ es) :
      Part graph w r ⟨file, version, .map key type, .map es⟩ ⟨file, version, key, e.1⟩
  | value {file : Module} {version : Option Nat} {key type : TypeSpec} {es : List (Val × Val)}
      {e : Val × Val} (he : e ∈ es) :
      Part graph w r ⟨file, version, .map key type, .map es⟩ ⟨file, version, type, e.2⟩
  /-- A field both versions have, read under the version the writer put into the header. -/
  | field {file m : Module} {version : Option Nat} {ref : TypeRef} {s : StructDecl}
      {members : List Val} {p : StructField × Val}
      (hr : resolveStruct graph file ref = Option.some (m, s))
      (hp : p ∈ (w.struct m s).fields.zip members) (hkeep : r.keepsField m p.1 = true) :
      Part graph w r ⟨file, version, .structRef ref, .struct members⟩
        ⟨m, Option.some (w.struct m s).version, p.1.type, p.2⟩
  /-- The active member of a union whose variant the reader has. -/
  | variant {file m : Module} {version : Option Nat} {ref : TypeRef} {u : UnionDecl}
      {tag : BitVec 32} {f : UnionField} {v : Val}
      (hr : resolveUnion graph file ref = Option.some (m, u))
      (hf : (r.union m u).caseFor tag = Option.some f) :
      Part graph w r ⟨file, version, .unionRef ref, .union tag v⟩ ⟨m, none, f.type, v⟩

/-- `Q` holds of a value and of every value inside it that is read. -/
def Throughout (graph : List Module) (w r : Profile) (Q : Site → Prop) (a : Site) : Prop :=
  ∀ b, Relation.ReflTransGen (Part graph w r) a b → Q b

theorem throughout_iff {graph : List Module} {w r : Profile} {Q : Site → Prop} {a : Site} :
    Throughout graph w r Q a ↔
      Q a ∧ ∀ b, Part graph w r a b → Throughout graph w r Q b := by
  constructor
  · intro h
    exact ⟨h a .refl, fun b hab c hbc => h c (.head hab hbc)⟩
  · rintro ⟨ha, hparts⟩ c hac
    rcases Relation.ReflTransGen.cases_head hac with rfl | ⟨b, hab, hbc⟩
    · exact ha
    · exact hparts b hab c hbc

/-- The reader lets the enum value through. -/
def EnumAccepted (graph : List Module) (a : Site) : Prop :=
  ∀ ref value, a.type = .enumRef ref → a.val = .enum value →
    acceptsEnum graph a.file ref a.version value = true

/-- A union at `Tag::kUnknown` is not replaced by a `[Default]` field of the reader. -/
def NotReplaced (graph : List Module) (r : Profile) (a : Site) : Prop :=
  ∀ ref m u, a.type = .unionRef ref → a.val = .unknown →
    resolveUnion graph a.file ref = some (m, u) → (r.union m u).defaultField = none

/-- No two keys of a map become equal in the reader's version. -/
def KeysDistinct (graph : List Module) (w r : Profile) (a : Site) : Prop :=
  ∀ key type entries, a.type = .map key type → a.val = .map entries →
    (entries.map (fun e => (received graph w r a.file key e.1).val)).Nodup

/-- Nothing at this value stands in the reader's way. -/
structure Readable (graph : List Module) (w r : Profile) (a : Site) : Prop where
  accepted : EnumAccepted graph a
  notReplaced : NotReplaced graph r a
  keysDistinct : KeysDistinct graph w r a

/-- Everything a reader of version `r` meets in a value of version `w` is readable. -/
abbrev ReadableThroughout (graph : List Module) (w r : Profile) (a : Site) : Prop :=
  Throughout graph w r (Readable graph w r) a

section readable

variable {graph : List Module} {w r : Profile} {file m : Module} {version : Option Nat}
  {ref : TypeRef}

theorem readable_of_plain {a : Site} (he : ∀ ref, a.type ≠ .enumRef ref)
    (hu : ∀ ref, a.type ≠ .unionRef ref) (hm : ∀ key type, a.type ≠ .map key type) :
    Readable graph w r a where
  accepted := fun ref _ h _ => absurd h (he ref)
  notReplaced := fun ref _ _ h _ => absurd h (hu ref)
  keysDistinct := fun key type _ h _ => absurd h (hm key type)

theorem readable_union {tag : BitVec 32} {v : Val} :
    Readable graph w r ⟨file, version, .unionRef ref, .union tag v⟩ :=
  ⟨(fun _ _ h => nomatch h), (fun _ _ _ _ h => nomatch h), (fun _ _ _ h => nomatch h)⟩

theorem throughout_of_leaf {a : Site} (ha : Readable graph w r a)
    (hleaf : ∀ b, ¬ Part graph w r a b) : ReadableThroughout graph w r a :=
  throughout_iff.mpr ⟨ha, fun b hb => absurd hb (hleaf b)⟩

theorem throughout_enum {value : BitVec 32} :
    ReadableThroughout graph w r ⟨file, version, .enumRef ref, .enum value⟩ ↔
      acceptsEnum graph file ref version value = true := by
  constructor
  · exact fun h => (h _ .refl).accepted ref value rfl rfl
  · intro h
    refine throughout_of_leaf ⟨?_, (fun _ _ _ h => nomatch h), (fun _ _ _ h => nomatch h)⟩
      (fun b hb => by cases hb)
    rintro _ _ ⟨rfl⟩ ⟨rfl⟩
    exact h

theorem throughout_unknown {u : UnionDecl} (hr : resolveUnion graph file ref = some (m, u)) :
    ReadableThroughout graph w r ⟨file, version, .unionRef ref, .unknown⟩ ↔
      (r.union m u).defaultField = none := by
  constructor
  · exact fun h => (h _ .refl).notReplaced ref m u rfl rfl hr
  · intro h
    refine throughout_of_leaf ⟨(fun _ _ h => nomatch h), ?_, (fun _ _ _ h => nomatch h)⟩
      (fun b hb => by cases hb)
    rintro _ _ _ ⟨rfl⟩ - hr'
    obtain ⟨rfl, rfl⟩ := Prod.mk.inj (some.inj (hr.symm.trans hr'))
    exact h

theorem throughout_some {type : TypeSpec} {v : Val} :
    ReadableThroughout graph w r ⟨file, version, .nullable type, .some v⟩ ↔
      ReadableThroughout graph w r ⟨file, version, type, v⟩ := by
  rw [ReadableThroughout, throughout_iff]
  constructor
  · exact fun h => h.2 _ .some
  · intro h
    refine ⟨readable_of_plain (fun _ => nofun) (fun _ => nofun) (fun _ _ => nofun), ?_⟩
    intro b hb
    cases hb
    exact h

theorem throughout_array {element : TypeSpec} {n : Nat} {vs : List Val} :
    ReadableThroughout graph w r ⟨file, version, .array element n, .array vs⟩ ↔
      ∀ v ∈ vs, ReadableThroughout graph w r ⟨file, version, element, v⟩ := by
  rw [ReadableThroughout, throughout_iff]
  constructor
  · exact fun h v hv => h.2 _ (.element hv)
  · intro h
    refine ⟨readable_of_plain (fun _ => nofun) (fun _ => nofun) (fun _ _ => nofun), ?_⟩
    intro b hb
    cases hb with
    | element hv => exact h _ hv

theorem throughout_map {key type : TypeSpec} {es : List (Val × Val)} :
    ReadableThroughout graph w r ⟨file, version, .map key type, .map es⟩ ↔
      (∀ e ∈ es, ReadableThroughout graph w r ⟨file, version, key, e.1⟩ ∧
        ReadableThroughout graph w r ⟨file, version, type, e.2⟩) ∧
      (es.map (fun e => (received graph w r file key e.1).val)).Nodup := by
  rw [ReadableThroughout, throughout_iff]
  constructor
  · intro h
    exact ⟨fun e he => ⟨h.2 _ (.key he), h.2 _ (.value he)⟩, h.1.keysDistinct key type es rfl rfl⟩
  · rintro ⟨hall, hkeys⟩
    refine ⟨⟨(fun _ _ h => nomatch h), (fun _ _ _ h => nomatch h), ?_⟩, ?_⟩
    · rintro _ _ _ ⟨rfl⟩ ⟨rfl⟩
      exact hkeys
    · intro b hb
      cases hb with
      | key he => exact (hall _ he).1
      | value he => exact (hall _ he).2

theorem throughout_struct {s : StructDecl} (hr : resolveStruct graph file ref = some (m, s))
    {members : List Val} :
    ReadableThroughout graph w r ⟨file, version, .structRef ref, .struct members⟩ ↔
      ∀ p ∈ (shared w r m s members).filterMap written,
        ReadableThroughout graph w r ⟨m, some (w.struct m s).version, p.1.type, p.2⟩ := by
  rw [ReadableThroughout, throughout_iff, filterMap_shared]
  constructor
  · intro h p hp
    obtain ⟨hmem, hkeep⟩ := mem_filter.mp hp
    exact h.2 _ (.field hr hmem hkeep)
  · intro h
    refine ⟨readable_of_plain (fun _ => nofun) (fun _ => nofun) (fun _ _ => nofun), ?_⟩
    intro b hb
    cases hb with
    | field hr' hmem hkeep =>
      obtain ⟨rfl, rfl⟩ := Prod.mk.inj (some.inj (hr.symm.trans hr'))
      exact h _ (mem_filter.mpr ⟨hmem, hkeep⟩)

theorem throughout_variant {u : UnionDecl} (hr : resolveUnion graph file ref = some (m, u))
    {tag : BitVec 32} {f : UnionField} (hf : (r.union m u).caseFor tag = some f) {v : Val} :
    ReadableThroughout graph w r ⟨file, version, .unionRef ref, .union tag v⟩ ↔
      ReadableThroughout graph w r ⟨m, none, f.type, v⟩ := by
  rw [ReadableThroughout, throughout_iff]
  constructor
  · exact fun h => h.2 _ (.variant hr hf)
  · intro h
    refine ⟨readable_union, ?_⟩
    intro b hb
    cases hb with
    | variant hr' hf' =>
      obtain ⟨rfl, rfl⟩ := Prod.mk.inj (some.inj (hr.symm.trans hr'))
      obtain rfl := some.inj (hf.symm.trans hf')
      exact h

theorem throughout_dropped {u : UnionDecl} (hr : resolveUnion graph file ref = some (m, u))
    {tag : BitVec 32} (hf : (r.union m u).caseFor tag = none) {v : Val} :
    ReadableThroughout graph w r ⟨file, version, .unionRef ref, .union tag v⟩ := by
  refine throughout_of_leaf readable_union (fun b hb => ?_)
  cases hb with
  | variant hr' hf' =>
    obtain ⟨rfl, rfl⟩ := Prod.mk.inj (some.inj (hr.symm.trans hr'))
    cases hf.symm.trans hf'

end readable

end Voodoo
