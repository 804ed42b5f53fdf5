import Voodoo.Bruja.Resolver
import Voodoo.Lib.BaseFirst

/-!
# The order of the classes and structs of the header

`GenerateCppHeader` defines the interface classes and then the dictionary structs, each list with
bases first.  A struct needs its base complete and what its members hold by value, and the sort
does not look at the members.

* `classes_ordered`: with distinct names every class is defined once and behind its base;
* `structs_ordered`, `header_ordered_iff`: what is needed complete is so if and only if it is a
  base, or comes earlier in the declarations.
-/

namespace Voodoo.Bruja

open BaseFirst List Option

/-! ### The sort -/

section

variable {α : Type} (bare : α → Interface Unit) (lookup : String → Option α)

/-- `cur->base_name.empty() ? nullptr : by_name.at(cur->base_name)`; `none` is an `at` that
throws. -/
def baseOf : Up α := fun a =>
  if (bare a).baseName = "" then some none else (lookup (bare a).baseName).map some

/-- The two sorts. -/
def topoSort (items : List α) : Option (List α) :=
  BaseFirst.sort (fun a => (bare a).name) (baseOf bare lookup) (items.length + 1) items

end

/-- `TopoSortByBase`. -/
def topoSortByBase (m : IdlModule) : Option (List (Interface Members)) :=
  topoSort Interface.bare (byName m.interfaces) m.interfaces

/-- `TopoSortDictionariesByBase`. -/
def topoSortDictionariesByBase (m : IdlModule) : Option (List Dictionary) :=
  topoSort Dictionary.bare m.dictionaryByName m.dictionaries

/-! ### The definitions of the header -/

/-- What follows `: public`, if anything does. -/
def publicBase (baseName : String) : Option String :=
  if baseName = "" then none else some baseName

/-- A class of the header, as far as its base. -/
structure ClassDef where
  name : String
  base : Option String

/-- `EmitInterfaceClass`. -/
def emitInterfaceClass (i : Interface Members) : ClassDef := ⟨i.name, publicBase i.baseName⟩

structure StructDef where
  name : String
  base : Option String
  members : List (CppTy × String)

/-- `EmitDictionaryStruct`. -/
def emitDictionaryStruct (d : Dictionary) : StructDef where
  name := d.name
  base := publicBase d.baseName
  members := d.fields.map fun field => (cppType field.type, field.name)

/-- Step 1 of `GenerateCppHeader`. -/
def headerClasses (m : IdlModule) : Option (List ClassDef) :=
  (topoSortByBase m).map (List.map emitInterfaceClass)

/-- Step 2. -/
def headerStructs (m : IdlModule) : Option (List StructDef) :=
  (topoSortDictionariesByBase m).map (List.map emitDictionaryStruct)

mutual

/-- The structs that are held by value: a vector holds its elements elsewhere. -/
def CppTy.held : CppTy → List String
  | .struct name => [name]
  | .optional content => content.held
  | .variant members => CppTy.heldAll members
  | _ => []

def CppTy.heldAll : List CppTy → List String
  | [] => []
  | type :: rest => type.held ++ CppTy.heldAll rest

end

/-- The structs that a member holds by value. -/
def StructDef.held (s : StructDef) : List String := s.members.flatMap fun member => member.1.held

/-- The definitions come in an order: each declaration has one, and behind the base and the
structs it holds. -/
structure HeaderOrdered (m : IdlModule) (classes : List ClassDef) (structs : List StructDef) :
    Prop where
  classes_once : classes.Perm (m.interfaces.map emitInterfaceClass)
  classes_base : ∀ l c r, classes = l ++ c :: r → ∀ b ∈ c.base, b ∈ l.map ClassDef.name
  structs_once : structs.Perm (m.dictionaries.map emitDictionaryStruct)
  structs_base : ∀ l s r, structs = l ++ s :: r → ∀ b ∈ s.base, b ∈ l.map StructDef.name
  structs_held : ∀ l s r, structs = l ++ s :: r → ∀ n ∈ s.held, n ∈ l.map StructDef.name

/-- `e` is a base of `d`, or is above a dictionary that comes earlier than all those `d` is
above. -/
def ComesFirst (m : IdlModule) (e d : Dictionary) : Prop :=
  Base (baseOf Dictionary.bare m.dictionaryByName) e d ∨
    Earlier (baseOf Dictionary.bare m.dictionaryByName) m.dictionaries e d

/-- Each name is declared once, and what a dictionary holds by value comes first. -/
structure HoldsEarlier (m : IdlModule) : Prop where
  interfaces_nodup : (m.interfaces.map Interface.name).Nodup
  dictionaries_nodup : (m.dictionaries.map Dictionary.name).Nodup
  held_first : ∀ d ∈ m.dictionaries, ∀ n ∈ (emitDictionaryStruct d).held,
    ∃ e ∈ m.dictionaries, e.name = n ∧ ComesFirst m e d

/-! ### What the sort gives -/

section

variable {α : Type} {bare : α → Interface Unit} {lookup : String → Option α} {items : List α}

theorem rooted_baseOf (hlookup : ∀ x, byName (items.map bare) x = (lookup x).map bare) {a : α}
    {d : Nat} (h : Bruja.Rooted (byName (items.map bare)) (bare a) d) :
    BaseFirst.Rooted (baseOf bare lookup) a d := by
  induction d generalizing a with
  | zero =>
    cases h with
    | root h => exact .root (if_pos h)
  | succ d ih =>
    cases h with
    | step hne hj hrooted =>
      rw [hlookup] at hj
      obtain ⟨b, hb, rfl⟩ := map_eq_some_iff.mp hj
      refine .step ?_ (ih hrooted)
      rw [baseOf, if_neg hne, hb]
      rfl

theorem based_of_chained (hlookup : ∀ x, byName (items.map bare) x = (lookup x).map bare)
    (hmem : ∀ x a, lookup x = some a → a ∈ items)
    (hchained : (Module.mk (items.map bare)).Chained)
    (hnodup : (items.map fun a => (bare a).name).Nodup) :
    Based (fun a => (bare a).name) (baseOf bare lookup) (items.length + 1) items where
  nodup := hnodup
  closed a ha b hb := by
    rw [baseOf] at hb
    split at hb
    · cases hb
    · obtain ⟨c, hc, hcb⟩ := map_eq_some_iff.mp hb
      obtain rfl := some.inj hcb
      exact hmem _ c hc
  rooted a ha := by
    obtain ⟨d, hd, hrooted⟩ := hchained (bare a) (List.mem_map_of_mem ha)
    rw [length_map] at hd
    exact ⟨d, Nat.lt_succ_of_le hd, rooted_baseOf hlookup hrooted⟩

variable (bare lookup) in
theorem base_mem_front (hname : ∀ x a, lookup x = some a → (bare a).name = x)
    (hfound : ∀ a ∈ items, (bare a).baseName ≠ "" → ∃ b, lookup (bare a).baseName = some b)
    {a : α} {l : List α} (ha : a ∈ items)
    (hfront : ∀ b, Base (baseOf bare lookup) b a → b ∈ l) {x : String}
    (hx : x ∈ publicBase (bare a).baseName) : x ∈ l.map fun b => (bare b).name := by
  rw [publicBase] at hx
  split at hx
  · cases hx
  · rename_i hne
    obtain rfl := some.inj hx
    obtain ⟨b, hb⟩ := hfound a ha hne
    have hbase : baseOf bare lookup a = some (some b) := by
      rw [baseOf, if_neg hne, hb]
      rfl
    exact List.mem_map.mpr ⟨b, hfront b ⟨b, hbase, .refl b⟩, hname _ b hb⟩

theorem found_of_chained (hlookup : ∀ x, byName (items.map bare) x = (lookup x).map bare)
    (hchained : (Module.mk (items.map bare)).Chained) :
    ∀ a ∈ items, (bare a).baseName ≠ "" → ∃ b, lookup (bare a).baseName = some b := by
  intro a ha hne
  obtain ⟨j, hj⟩ := exists_base hchained (List.mem_map_of_mem ha) hne
  rw [hlookup] at hj
  obtain ⟨b, hb, -⟩ := map_eq_some_iff.mp hj
  exact ⟨b, hb⟩

end

theorem mem_of_dictByName {dictionaries : List Dictionary} {x : String} {d : Dictionary}
    (h : dictByName dictionaries x = some d) : d ∈ dictionaries ∧ d.name = x := by
  rw [dictByName] at h
  have hname := find?_some h
  exact ⟨mem_reverse.mp (mem_of_find?_eq_some h), of_decide_eq_true hname⟩

theorem exists_of_map_eq_append {α β : Type} {f : α → β} {as : List α} {l r : List β} {b : β}
    (h : as.map f = l ++ b :: r) :
    ∃ l' a r', as = l' ++ a :: r' ∧ l = l'.map f ∧ b = f a := by
  obtain ⟨l', rest, rfl, rfl, hrest⟩ := map_eq_append_iff.mp h
  obtain ⟨a, r', rfl, rfl, -⟩ := map_eq_cons_iff.mp hrest
  exact ⟨l', a, r', rfl, rfl, rfl⟩

/-! ### The header -/

section

variable {p r : ParsedModule}

theorem idl_interfaces_bare (r : ParsedModule) :
    r.idl.interfaces.map Interface.bare = r.interfaces.map Interface.bare := by
  rw [ParsedModule.idl, List.map_map]
  rfl

theorem classes_ordered (h : Accepted p r) (hnodup : (r.idl.interfaces.map Interface.name).Nodup) :
    ∃ classes, headerClasses r.idl = some classes ∧
      classes.Perm (r.idl.interfaces.map emitInterfaceClass) ∧
      ∀ l c s, classes = l ++ c :: s → ∀ b ∈ c.base, b ∈ l.map ClassDef.name := by
  have hchained := h.interfaces_chained
  rw [← idl_interfaces_bare] at hchained
  have hlookup := byName_bare r.idl.interfaces
  obtain ⟨sorted, hsorted, hperm, hfront⟩ := sort_spec (based_of_chained hlookup
    (fun x a ha => (mem_of_byName ha).1) hchained hnodup)
  refine ⟨sorted.map emitInterfaceClass, ?_, hperm.map _, ?_⟩
  · exact congrArg (Option.map (List.map emitInterfaceClass)) hsorted
  · intro l c s hsplit b hb
    obtain ⟨l, i, s, rfl, rfl, rfl⟩ := exists_of_map_eq_append hsplit
    rw [List.map_map]
    refine base_mem_front Interface.bare (byName r.idl.interfaces)
      (fun x a ha => (mem_of_byName ha).2) (found_of_chained hlookup hchained)
      (hperm.subset (mem_append_right _ mem_cons_self)) (fun a ha => ?_) hb
    exact (hfront l i s rfl a).mpr (.inr ha)

theorem structs_ordered (h : Accepted p r)
    (hnodup : (r.idl.dictionaries.map Dictionary.name).Nodup) :
    ∃ sorted, topoSortDictionariesByBase r.idl = some sorted ∧ sorted.Perm r.idl.dictionaries ∧
      (∀ l d s, sorted = l ++ d :: s →
        ∀ b ∈ (emitDictionaryStruct d).base, b ∈ l.map Dictionary.name) ∧
      ∀ l d s, sorted = l ++ d :: s → ∀ e, e ∈ l ↔ ComesFirst r.idl e d := by
  have hlookup := byName_bareDictionary r.idl.dictionaries
  obtain ⟨sorted, hsorted, hperm, hfront⟩ := sort_spec (based_of_chained hlookup
    (fun x a ha => (mem_of_dictByName ha).1) h.dictionaries_chained hnodup)
  refine ⟨sorted, hsorted, hperm, ?_, fun l d s hsplit e => (hfront l d s hsplit e).trans or_comm⟩
  rintro l d s rfl b hb
  refine base_mem_front Dictionary.bare r.idl.dictionaryByName
    (fun x a ha => (mem_of_dictByName ha).2)
    (found_of_chained hlookup h.dictionaries_chained)
    (hperm.subset (mem_append_right _ mem_cons_self)) (fun a ha => ?_) hb
  exact (hfront l d s rfl a).mpr (.inr ha)

theorem nodup_of_perm_map {α β : Type} {bare : α → Interface Unit} {lookup : String → Option α}
    {items : List α} {sorted : List α} {emit : α → β} (name : β → String)
    (hname : ∀ a, name (emit a) = (bare a).name)
    (hsorted : topoSort bare lookup items = some sorted)
    (hperm : (sorted.map emit).Perm (items.map emit)) :
    (items.map fun a => (bare a).name).Nodup := by
  have hkeys := nodup_sort hsorted
  have hmap : ∀ as : List α, (as.map emit).map name = as.map fun a => (bare a).name := by
    intro as
    rw [List.map_map]
    exact map_congr_left fun a _ => hname a
  rw [← hmap] at hkeys ⊢
  exact ((hperm.map name).nodup_iff).mp hkeys

/-- **The header is in order if and only if each name is declared once and what a dictionary holds
by value comes first.** -/
theorem header_ordered_iff (h : resolveModule p = some (.ok r)) :
    (∃ classes structs, headerClasses r.idl = some classes ∧ headerStructs r.idl = some structs ∧
      HeaderOrdered r.idl classes structs) ↔ HoldsEarlier r.idl := by
  have haccepted := accepted_of_resolveModule h
  constructor
  · rintro ⟨classes, structs, hclasses, hstructs, hordered⟩
    obtain ⟨is, his, rfl⟩ := map_eq_some_iff.mp hclasses
    obtain ⟨ds, hds, rfl⟩ := map_eq_some_iff.mp hstructs
    have hnodup : (r.idl.dictionaries.map Dictionary.name).Nodup :=
      nodup_of_perm_map StructDef.name (fun _ => rfl) hds hordered.structs_once
    refine ⟨nodup_of_perm_map ClassDef.name (fun _ => rfl) his hordered.classes_once,
      hnodup, ?_⟩
    intro d hd n hn
    obtain ⟨sorted, hsorted, hperm, -, hfront⟩ := structs_ordered haccepted hnodup
    obtain rfl := some.inj (hds.symm.trans hsorted)
    obtain ⟨l, s, rfl⟩ := append_of_mem (hperm.mem_iff.mpr hd)
    have hmem := hordered.structs_held (l.map emitDictionaryStruct) (emitDictionaryStruct d)
      (s.map emitDictionaryStruct) (by rw [map_append, map_cons]) n hn
    rw [List.map_map] at hmem
    obtain ⟨e, he, rfl⟩ := List.mem_map.mp hmem
    exact ⟨e, hperm.subset (mem_append_left _ he), rfl, (hfront l d s rfl e).mp he⟩
  · intro hearlier
    obtain ⟨classes, hclasses, honce, hbase⟩ :=
      classes_ordered haccepted hearlier.interfaces_nodup
    obtain ⟨sorted, hsorted, hperm, hsbase, hfront⟩ :=
      structs_ordered haccepted hearlier.dictionaries_nodup
    refine ⟨classes, sorted.map emitDictionaryStruct, hclasses, ?_, honce, hbase,
      hperm.map _, ?_, ?_⟩
    · exact congrArg (Option.map (List.map emitDictionaryStruct)) hsorted
    · intro l s t hsplit b hb
      obtain ⟨l, d, t, rfl, rfl, rfl⟩ := exists_of_map_eq_append hsplit
      rw [List.map_map]
      exact hsbase l d t rfl b hb
    · intro l s t hsplit n hn
      obtain ⟨l, d, t, rfl, rfl, rfl⟩ := exists_of_map_eq_append hsplit
      have hd := hperm.subset (mem_append_right l mem_cons_self)
      obtain ⟨e, -, rfl, hfirst⟩ := hearlier.held_first d hd n hn
      rw [List.map_map]
      exact List.mem_map_of_mem (f := Dictionary.name) ((hfront l d t rfl e).mpr hfirst)

end

/-! ### Two modules -/

/-- `dictionary Point { double x; };` -/
def pointDecl : Dictionary := ⟨"Point", "", [⟨.plain .double false, "x"⟩]⟩

/-- `dictionary Shape { Point? origin; };`, with the reference to `Point` as given. -/
def shapeDecl (kind : RefKind) : Dictionary := ⟨"Shape", "", [⟨.ref kind "Point" true, "origin"⟩]⟩

/-- A module of dictionaries. -/
def dictionaryModule (dictionaries : List Dictionary) : ParsedModule :=
  ⟨[], [], dictionaries, [], [], []⟩

/-- `Shape` is declared first: it is defined first, and holds a `Point` that is not complete. -/
theorem shapeFirst_not_ordered :
    resolveModule (dictionaryModule [shapeDecl .unresolved, pointDecl]) =
      some (.ok (dictionaryModule [shapeDecl .dictionary, pointDecl])) ∧
    ¬ ∃ classes structs,
      headerClasses (dictionaryModule [shapeDecl .dictionary, pointDecl]).idl = some classes ∧
      headerStructs (dictionaryModule [shapeDecl .dictionary, pointDecl]).idl = some structs ∧
      HeaderOrdered (dictionaryModule [shapeDecl .dictionary, pointDecl]).idl classes structs := by
  refine ⟨rfl, ?_⟩
  rintro ⟨classes, structs, -, hstructs, hordered⟩
  have hshape :
      some [emitDictionaryStruct (shapeDecl .dictionary), emitDictionaryStruct pointDecl] =
        some structs := hstructs
  obtain rfl := some.inj hshape
  have hmem := hordered.structs_held [] _ _ rfl "Point" (by decide)
  exact not_mem_nil hmem

theorem pointFirst_ordered : ∃ classes structs,
    headerClasses (dictionaryModule [pointDecl, shapeDecl .dictionary]).idl = some classes ∧
    headerStructs (dictionaryModule [pointDecl, shapeDecl .dictionary]).idl = some structs ∧
    HeaderOrdered (dictionaryModule [pointDecl, shapeDecl .dictionary]).idl classes structs := by
  have hresolve : resolveModule (dictionaryModule [pointDecl, shapeDecl .unresolved]) =
      some (.ok (dictionaryModule [pointDecl, shapeDecl .dictionary])) := rfl
  refine (header_ordered_iff hresolve).mpr ⟨nodup_nil, by decide, ?_⟩
  intro d hd n hn
  rcases mem_pair.mp hd with rfl | rfl
  · exact (not_mem_nil hn).elim
  · obtain rfl := mem_singleton.mp hn
    refine ⟨pointDecl, mem_cons_self, rfl, .inr ⟨[], pointDecl, _, rfl, .refl _, ?_⟩⟩
    intro x hx habove
    obtain rfl := mem_singleton.mp hx
    rcases above_iff.mp habove with heq | ⟨c, hc, -⟩
    · exact absurd (congrArg Dictionary.name heq) (by decide)
    · cases hc

end Voodoo.Bruja
