import Mathlib.Data.List.Perm.Lattice
import Voodoo.Bruja.FunctionLocals
import Voodoo.Bruja.Resolver

/-!
# The names in a quickjs header

The functions at file scope are named after the interface and the member, joined by underscores, which
may be part of either name.  `FunctionsApart` says of the interfaces of a module which names do not
clash then, and with `Function.Apart` for the variables the names of a header are all different
exactly under the two (`generated_names_iff`).
-/

namespace Voodoo.Bruja

open List

/-! ### The names of the functions -/

def cFunctionName (concreteIface methodName : String) : String :=
  "Js" ++ concreteIface ++ "_" ++ methodName

def attrGetterJsFunctionName (concreteIface attrName : String) : String :=
  "Js" ++ concreteIface ++ "_get_" ++ attrName

def attrSetterJsFunctionName (concreteIface attrName : String) : String :=
  "Js" ++ concreteIface ++ "_set_" ++ attrName

/-- The name of a function at file scope; a `Call` is a member of its class. -/
def Function.name : Function → Option String
  | .method iface f => some (cFunctionName iface f.name)
  | .getter iface attr => some (attrGetterJsFunctionName iface attr.name)
  | .setter iface attr => some (attrSetterJsFunctionName iface attr.name)
  | .construct iface _ => some ("Js" ++ iface ++ "_construct")
  | .call _ => none

abbrev IdlInterface := Interface Members

def hasConstructor (iface : IdlInterface) : Bool := iface.members.constructorParams.isSome

/-- What there is for an interface besides the functions for its members. -/
def bindingNames (iface : IdlInterface) : List String :=
  ("Create" ++ iface.name ++ "Binding") ::
    if hasConstructor iface then
      [iface.name ++ "FactorySlot", "Install" ++ iface.name ++ "Constructor"]
    else []

/-- The functions at file scope. -/
def functionNames (m : IdlModule) : List String :=
  (functions m).filterMap Function.name ++ m.interfaces.flatMap bindingNames

/-! ### The members of an interface -/

/-- `CollectEffectiveMembers`. -/
def effectiveAncestors (m : IdlModule) (iface : IdlInterface) : List IdlInterface :=
  ancestorsInclusive (byName m.interfaces) m.interfaces.length iface

def effectiveMethods (m : IdlModule) (iface : IdlInterface) : List Method :=
  (effectiveAncestors m iface).flatMap (·.members.methods)

def effectiveAttributes (m : IdlModule) (iface : IdlInterface) : List Attribute :=
  (effectiveAncestors m iface).flatMap (·.members.attributes)

/-- No interface has two members of one name. -/
def MembersDistinct (m : IdlModule) : Prop :=
  ∀ iface ∈ m.interfaces, ((effectiveMethods m iface).map (·.name) ++
    (effectiveAttributes m iface).map (·.name)).Nodup

/-- What is joined to the name of an interface. -/
def memberSuffixes (m : IdlModule) (iface : IdlInterface) : List String :=
  (effectiveMethods m iface).map (·.name) ++
    (effectiveAttributes m iface).flatMap
      (fun attr => ["get_" ++ attr.name, "set_" ++ attr.name]) ++
    if hasConstructor iface then ["construct"] else []

/-- The name of the second interface is no way to split a name of the first one otherwise. -/
def SplitsApart (m : IdlModule) (i j : IdlInterface) : Prop :=
  ∀ s ∈ memberSuffixes m i, ∀ t ∈ memberSuffixes m j, ∀ u,
    j.name = i.name ++ "_" ++ u → s ≠ u ++ "_" ++ t

/-- No name of the first interface is that of the slot for the constructor of the second. -/
def SlotsApart (m : IdlModule) (i j : IdlInterface) : Prop :=
  hasConstructor j = true → ∀ s ∈ memberSuffixes m i, ∀ u,
    j.name = "Js" ++ i.name ++ "_" ++ u → s ≠ u ++ "FactorySlot"

/-- The names that are joined do not clash. -/
structure FunctionsApart (m : IdlModule) : Prop where
  names : m.names.Nodup
  accessors : ∀ i ∈ m.interfaces, ∀ f ∈ effectiveMethods m i, ∀ attr ∈ effectiveAttributes m i,
    f.name ≠ "get_" ++ attr.name ∧ f.name ≠ "set_" ++ attr.name
  construct : ∀ i ∈ m.interfaces, hasConstructor i = true → ∀ f ∈ effectiveMethods m i,
    f.name ≠ "construct"
  splits : ∀ i ∈ m.interfaces, ∀ j ∈ m.interfaces, SplitsApart m i j
  slots : ∀ i ∈ m.interfaces, ∀ j ∈ m.interfaces, SlotsApart m i j

/-! ### Names that are joined -/

/-- Two ways to split a name at an underscore. -/
theorem joined_eq_iff {i s j t : String} :
    i ++ "_" ++ s = j ++ "_" ++ t ↔ (i = j ∧ s = t) ∨
      (∃ u, j = i ++ "_" ++ u ∧ s = u ++ "_" ++ t) ∨ ∃ u, i = j ++ "_" ++ u ∧
        t = u ++ "_" ++ s := by
  constructor
  · intro h
    have hlist := congrArg String.toList h
    have hsep : "_".toList = ['_'] := rfl
    simp only [String.toList_append, hsep, List.append_assoc, singleton_append] at hlist
    -- the longer of the two first parts goes on behind an underscore
    have hlonger : ∀ {a b c d : String} {w : List Char}, b.toList = a.toList ++ w → w ≠ [] →
        '_' :: c.toList = w ++ '_' :: d.toList →
        ∃ u, b = a ++ "_" ++ u ∧ c = u ++ "_" ++ d := by
      intro a b c d w hb hw hc
      obtain ⟨x, w, rfl⟩ := exists_cons_of_ne_nil hw
      rw [cons_append] at hc
      obtain ⟨hx, hrest⟩ := List.cons.inj hc
      subst hx
      refine ⟨String.ofList w, String.toList_inj.mp ?_, String.toList_inj.mp ?_⟩
      · simp only [hb, String.toList_append, hsep, String.toList_ofList, List.append_assoc,
          singleton_append]
      · simp only [String.toList_append, hsep, String.toList_ofList, List.append_assoc,
          singleton_append]
        exact hrest
    rcases append_eq_append_iff.mp hlist with ⟨w, hj, hs⟩ | ⟨w, hi, ht⟩
    · by_cases hw : w = []
      · rw [hw, append_nil] at hj
        rw [hw, nil_append] at hs
        exact .inl ⟨String.toList_inj.mp hj.symm, String.toList_inj.mp (List.cons.inj hs).2⟩
      · exact .inr (.inl (hlonger hj hw hs))
    · by_cases hw : w = []
      · rw [hw, append_nil] at hi
        rw [hw, nil_append] at ht
        exact .inl ⟨String.toList_inj.mp hi, String.toList_inj.mp (List.cons.inj ht).2.symm⟩
      · exact .inr (.inr (hlonger hi hw ht))
  · rintro (⟨rfl, rfl⟩ | ⟨u, rfl, rfl⟩ | ⟨u, rfl, rfl⟩)
    · rfl
    · simp only [String.append_assoc]
    · simp only [String.append_assoc]

theorem joined_eq_slot_iff {i s j : String} :
    i ++ "_" ++ s = j ++ "FactorySlot" ↔ ∃ u, j = i ++ "_" ++ u ∧ s = u ++ "FactorySlot" := by
  constructor
  · intro h
    have hlist := congrArg String.toList h
    have hleft : (i ++ "_" ++ s).toList = (i ++ "_").toList ++ s.toList := String.toList_append
    have hright : (j ++ "FactorySlot").toList = j.toList ++ "FactorySlot".toList :=
      String.toList_append
    rw [hleft, hright] at hlist
    rcases append_eq_append_iff.mp hlist with ⟨w, hj, hs⟩ | ⟨w, hi, hslot⟩
    · refine ⟨String.ofList w, String.toList_inj.mp ?_, String.toList_inj.mp ?_⟩
      · simp only [hj, String.toList_append, String.toList_ofList]
      · simp only [hs, String.toList_append, String.toList_ofList]
    · by_cases hw : w = []
      · rw [hw, append_nil] at hi
        rw [hw, nil_append] at hslot
        refine ⟨"", ?_, ?_⟩
        · rw [String.append_empty]
          exact String.toList_inj.mp hi.symm
        · rw [String.empty_append]
          exact String.toList_inj.mp hslot.symm
      · -- what is left of the first part ends in an underscore
        exfalso
        have hmem : '_' ∈ w := by
          have hlast := congrArg List.getLast? hi
          rw [String.toList_append, getLast?_append, getLast?_append,
            getLast?_eq_some_getLast hw] at hlast
          have hsome : some '_' = some (w.getLast hw) := hlast
          rw [Option.some.inj hsome]
          exact getLast_mem hw
        have hslotMem : '_' ∈ "FactorySlot".toList := by
          rw [hslot]
          exact mem_append_left _ hmem
        exact absurd hslotMem (by decide)
  · rintro ⟨u, rfl, rfl⟩
    simp only [String.append_assoc]

theorem ne_joined (i u : String) : i ≠ i ++ "_" ++ u := by
  intro h
  have hlength := congrArg String.length h
  have hone : "_".length = 1 := rfl
  rw [String.length_append, String.length_append] at hlength
  omega

/-! ### The names of one interface -/

/-- The names for the members of an interface. -/
def memberNames (m : IdlModule) (iface : IdlInterface) : List String :=
  (memberSuffixes m iface).map (cFunctionName iface.name)

/-- All names for an interface. -/
def interfaceNames (m : IdlModule) (iface : IdlInterface) : List String :=
  memberNames m iface ++ bindingNames iface

theorem cFunctionName_injective (iface : String) : Function.Injective (cFunctionName iface) :=
  fun _ _ h => (String.append_right_inj _).mp h

section

variable {m : IdlModule} {i j : IdlInterface} {x : String}

theorem mem_bindingNames :
    x ∈ bindingNames i ↔ x = "Create" ++ i.name ++ "Binding" ∨
      (hasConstructor i = true ∧
        (x = i.name ++ "FactorySlot" ∨ x = "Install" ++ i.name ++ "Constructor")) := by
  unfold bindingNames
  rw [mem_cons]
  cases hasConstructor i <;> simp

theorem cFunctionName_ne_binding (a s b : String) : cFunctionName a s ≠ "Create" ++ b ++
    "Binding" := by
  intro h
  have hfirst := congrArg firstChar h
  rw [cFunctionName, String.append_assoc, String.append_assoc, String.append_assoc,
    firstChar_append (c := 'J') _ (by decide), firstChar_append (c := 'C') _ (by decide)] at hfirst
  exact absurd hfirst (by decide)

theorem cFunctionName_ne_install (a s b : String) :
    cFunctionName a s ≠ "Install" ++ b ++ "Constructor" := by
  intro h
  have hfirst := congrArg firstChar h
  rw [cFunctionName, String.append_assoc, String.append_assoc, String.append_assoc,
    firstChar_append (c := 'J') _ (by decide), firstChar_append (c := 'I') _ (by decide)] at hfirst
  exact absurd hfirst (by decide)

theorem binding_ne_install (a b : String) :
    "Create" ++ a ++ "Binding" ≠ "Install" ++ b ++ "Constructor" := by
  intro h
  have hfirst := congrArg firstChar h
  rw [String.append_assoc, String.append_assoc, firstChar_append (c := 'C') _ (by decide),
    firstChar_append (c := 'I') _ (by decide)] at hfirst
  exact absurd hfirst (by decide)

theorem binding_ne_slot (a b : String) : "Create" ++ a ++ "Binding" ≠ b ++ "FactorySlot" := by
  intro h
  have hlast := congrArg lastChar h
  rw [lastChar_append (c := 'g') _ (by decide), lastChar_append (c := 't') _ (by decide)] at hlast
  exact absurd hlast (by decide)

theorem install_ne_slot (a b : String) : "Install" ++ a ++ "Constructor" ≠ b ++ "FactorySlot" := by
  intro h
  have hlast := congrArg lastChar h
  rw [lastChar_append (c := 'r') _ (by decide), lastChar_append (c := 't') _ (by decide)] at hlast
  exact absurd hlast (by decide)

theorem cFunctionName_eq_slot_iff {a s b : String} :
    cFunctionName a s = b ++ "FactorySlot" ↔ ∃ u, b = "Js" ++ a ++ "_" ++ u ∧
      s = u ++ "FactorySlot" :=
  joined_eq_slot_iff

theorem cFunctionName_eq_iff {a s b t : String} :
    cFunctionName a s = cFunctionName b t ↔ (a = b ∧ s = t) ∨
      (∃ u, b = a ++ "_" ++ u ∧ s = u ++ "_" ++ t) ∨ ∃ u, a = b ++ "_" ++ u ∧
        t = u ++ "_" ++ s := by
  rw [← joined_eq_iff]
  unfold cFunctionName
  rw [String.append_assoc, String.append_assoc, String.append_assoc, String.append_assoc,
    String.append_right_inj, String.append_assoc, String.append_assoc]

theorem bindingNames_disjoint (h : i.name ≠ j.name) :
    (bindingNames i).Disjoint (bindingNames j) := by
  refine disjoint_left.mpr fun x hi hj => ?_
  rw [mem_bindingNames] at hi hj
  rcases hi with rfl | ⟨-, rfl | rfl⟩ <;> rcases hj with hj | ⟨-, hj | hj⟩
  · exact h ((String.append_right_inj _).mp ((String.append_left_inj _).mp hj))
  · exact binding_ne_slot _ _ hj
  · exact binding_ne_install _ _ hj
  · exact binding_ne_slot _ _ hj.symm
  · exact h ((String.append_left_inj _).mp hj)
  · exact install_ne_slot _ _ hj.symm
  · exact binding_ne_install _ _ hj.symm
  · exact install_ne_slot _ _ hj
  · exact h ((String.append_right_inj _).mp ((String.append_left_inj _).mp hj))

theorem memberNames_disjoint_bindingNames :
    (memberNames m i).Disjoint (bindingNames j) ↔ SlotsApart m i j := by
  rw [disjoint_left]
  constructor
  · intro h hj s hs u hu heq
    refine h (List.mem_map.mpr ⟨s, hs, rfl⟩) (mem_bindingNames.mpr (.inr ⟨hj, .inl ?_⟩))
    exact cFunctionName_eq_slot_iff.mpr ⟨u, hu, heq⟩
  · intro h x hx hx'
    obtain ⟨s, hs, rfl⟩ := List.mem_map.mp hx
    rcases mem_bindingNames.mp hx' with hx' | ⟨hj, hx' | hx'⟩
    · exact cFunctionName_ne_binding _ _ _ hx'
    · obtain ⟨u, hu, heq⟩ := cFunctionName_eq_slot_iff.mp hx'
      exact h hj s hs u hu heq
    · exact cFunctionName_ne_install _ _ _ hx'

theorem memberNames_disjoint (h : i.name ≠ j.name) :
    (memberNames m i).Disjoint (memberNames m j) ↔ SplitsApart m i j ∧ SplitsApart m j i := by
  rw [disjoint_left]
  constructor
  · intro hdisjoint
    refine ⟨fun s hs t ht u hu heq => ?_, fun t ht s hs u hu heq => ?_⟩
    · exact hdisjoint (List.mem_map.mpr ⟨s, hs, rfl⟩)
        (List.mem_map.mpr ⟨t, ht, (cFunctionName_eq_iff.mpr (.inr (.inl ⟨u, hu, heq⟩))).symm⟩)
    · exact hdisjoint (List.mem_map.mpr ⟨s, hs, rfl⟩)
        (List.mem_map.mpr ⟨t, ht, (cFunctionName_eq_iff.mpr (.inr (.inr ⟨u, hu, heq⟩))).symm⟩)
  · rintro ⟨hij, hji⟩ x hx hx'
    obtain ⟨s, hs, rfl⟩ := List.mem_map.mp hx
    obtain ⟨t, ht, heq⟩ := List.mem_map.mp hx'
    rcases cFunctionName_eq_iff.mp heq.symm with ⟨hname, -⟩ | ⟨u, hu, heq⟩ | ⟨u, hu, heq⟩
    · exact h hname
    · exact hij s hs t ht u hu heq
    · exact hji t ht s hs u hu heq

theorem splitsApart_self : SplitsApart m i i := fun _ _ _ _ u hu => absurd hu (ne_joined i.name u)

theorem slotsApart_self : SlotsApart m i i := by
  intro _ s _ u hu
  have hlength := congrArg String.length hu
  have hjs : "Js".length = 2 := rfl
  simp only [String.length_append] at hlength
  omega

theorem interfaceNames_disjoint_iff :
    (interfaceNames m i).Disjoint (interfaceNames m j) ↔ i.name ≠ j.name ∧
      (SplitsApart m i j ∧ SlotsApart m i j) ∧ SplitsApart m j i ∧ SlotsApart m j i := by
  have hsplit : (interfaceNames m i).Disjoint (interfaceNames m j) ↔
      ((memberNames m i).Disjoint (memberNames m j) ∧ (bindingNames i).Disjoint (memberNames m j)) ∧
        (memberNames m i).Disjoint (bindingNames j) ∧
          (bindingNames i).Disjoint (bindingNames j) := by
    unfold interfaceNames
    rw [disjoint_append_right, disjoint_append_left, disjoint_append_left]
  have hcomm : (bindingNames i).Disjoint (memberNames m j) ↔
      (memberNames m j).Disjoint (bindingNames i) := List.disjoint_comm
  rw [hsplit, hcomm, memberNames_disjoint_bindingNames, memberNames_disjoint_bindingNames]
  by_cases hname : i.name = j.name
  · have hshared : ¬ (bindingNames i).Disjoint (bindingNames j) := fun hdisjoint =>
      hdisjoint (mem_bindingNames.mpr (.inl rfl)) (mem_bindingNames.mpr (.inl (by rw [hname])))
    exact iff_of_false (fun h => hshared h.2.2) fun h => h.1 hname
  · rw [memberNames_disjoint hname]
    have hbindings := bindingNames_disjoint hname
    tauto

theorem nodup_bindingNames (i : IdlInterface) : (bindingNames i).Nodup := by
  unfold bindingNames
  split
  · refine nodup_cons.mpr ⟨fun hmem => ?_, nodup_cons.mpr ⟨fun hmem => ?_,
      nodup_singleton _⟩⟩
    · rcases mem_pair.mp hmem with h | h
      · exact binding_ne_slot _ _ h
      · exact binding_ne_install _ _ h
    · exact install_ne_slot _ _ (mem_singleton.mp hmem).symm
  · exact nodup_singleton _

theorem nodup_interfaceNames : (interfaceNames m i).Nodup ↔ (memberSuffixes m i).Nodup := by
  have hdisjoint : (memberNames m i).Disjoint (bindingNames i) :=
    memberNames_disjoint_bindingNames.mpr slotsApart_self
  rw [interfaceNames, nodup_append', memberNames,
    nodup_map_iff (cFunctionName_injective i.name)]
  exact ⟨fun h => h.1, fun h => ⟨h, nodup_bindingNames i, hdisjoint⟩⟩

theorem nodup_accessors {attributes : List Attribute} (h : (attributes.map (·.name)).Nodup) :
    (attributes.flatMap fun attr => ["get_" ++ attr.name, "set_" ++ attr.name]).Nodup := by
  have hne : ∀ a b : String, "get_" ++ a ≠ "set_" ++ b := by
    intro a b heq
    have hfirst := congrArg firstChar heq
    rw [firstChar_append (c := 'g') _ (by decide),
      firstChar_append (c := 's') _ (by decide)] at hfirst
    exact absurd hfirst (by decide)
  rw [nodup_flatMap]
  refine ⟨fun attr _ => ?_, (pairwise_map.mp h).imp fun {a b} hname => ?_⟩
  · exact nodup_cons.mpr ⟨fun hmem => hne _ _ (mem_singleton.mp hmem),
      nodup_singleton _⟩
  · refine disjoint_left.mpr fun x hx hx' => ?_
    rcases mem_pair.mp hx with rfl | rfl <;> rcases mem_pair.mp hx' with heq | heq
    · exact hname ((String.append_right_inj _).mp heq)
    · exact hne _ _ heq
    · exact hne _ _ heq.symm
    · exact hname ((String.append_right_inj _).mp heq)

theorem accessor_ne_construct (a : String) : "get_" ++ a ≠ "construct" ∧
    "set_" ++ a ≠ "construct" := by
  refine ⟨fun h => ?_, fun h => ?_⟩
  · have hfirst := congrArg firstChar h
    rw [firstChar_append (c := 'g') _ (by decide)] at hfirst
    exact absurd hfirst (by decide)
  · have hfirst := congrArg firstChar h
    rw [firstChar_append (c := 's') _ (by decide)] at hfirst
    exact absurd hfirst (by decide)

/-- With distinct members, a method may still be named like an accessor or the constructor. -/
theorem nodup_memberSuffixes
    (h : ((effectiveMethods m i).map (·.name) ++ (effectiveAttributes m i).map (·.name)).Nodup) :
    (memberSuffixes m i).Nodup ↔
      (∀ f ∈ effectiveMethods m i, ∀ attr ∈ effectiveAttributes m i,
        f.name ≠ "get_" ++ attr.name ∧ f.name ≠ "set_" ++ attr.name) ∧
      (hasConstructor i = true → ∀ f ∈ effectiveMethods m i, f.name ≠ "construct") := by
  obtain ⟨hmethods, hattributes, -⟩ := nodup_append'.mp h
  have haccessors := nodup_accessors hattributes
  have hleft : ((effectiveMethods m i).map (·.name)).Disjoint
      ((effectiveAttributes m i).flatMap fun attr => ["get_" ++ attr.name, "set_" ++ attr.name]) ↔
      ∀ f ∈ effectiveMethods m i, ∀ attr ∈ effectiveAttributes m i,
        f.name ≠ "get_" ++ attr.name ∧ f.name ≠ "set_" ++ attr.name := by
    rw [disjoint_left]
    constructor
    · intro hdisjoint f hf attr hattr
      have hnot := hdisjoint (List.mem_map_of_mem hf)
      exact ⟨fun heq => hnot (mem_flatMap.mpr ⟨attr, hattr, heq ▸ mem_cons_self⟩),
        fun heq => hnot (mem_flatMap.mpr ⟨attr, hattr,
          mem_cons_of_mem _ (mem_singleton.mpr heq)⟩)⟩
    · intro hall x hx hx'
      obtain ⟨f, hf, rfl⟩ := List.mem_map.mp hx
      obtain ⟨attr, hattr, hx'⟩ := mem_flatMap.mp hx'
      obtain ⟨hget, hset⟩ := hall f hf attr hattr
      rcases mem_pair.mp hx' with heq | heq
      · exact hget heq
      · exact hset heq
  have hright : ((effectiveMethods m i).map (·.name) ++ (effectiveAttributes m i).flatMap
      fun attr => ["get_" ++ attr.name, "set_" ++ attr.name]).Disjoint
        (if hasConstructor i then ["construct"] else []) ↔
      (hasConstructor i = true → ∀ f ∈ effectiveMethods m i, f.name ≠ "construct") := by
    cases hasConstructor i with
    | false => exact iff_of_true (disjoint_nil_right _) nofun
    | true =>
      rw [if_pos rfl, disjoint_singleton, mem_append]
      constructor
      · intro hnot _ f hf heq
        exact hnot (.inl (heq ▸ List.mem_map_of_mem hf))
      · rintro hall (hmem | hmem)
        · obtain ⟨f, hf, heq⟩ := List.mem_map.mp hmem
          exact hall rfl f hf heq
        · obtain ⟨attr, -, hmem⟩ := mem_flatMap.mp hmem
          rcases mem_pair.mp hmem with heq | heq
          · exact (accessor_ne_construct attr.name).1 heq.symm
          · exact (accessor_ne_construct attr.name).2 heq.symm
  have hlast : (if hasConstructor i then ["construct"] else []).Nodup := by
    cases hasConstructor i <;> decide
  rw [memberSuffixes, nodup_append', nodup_append', hleft, hright]
  tauto

end

/-! ### All names of a header -/

/-- The names of the functions for the members that an interface and an ancestor declare. -/
def declaredNames (iface : String) (members : Members) : List String :=
  members.methods.map (fun f => cFunctionName iface f.name) ++
    members.attributes.flatMap fun attr =>
      [attrGetterJsFunctionName iface attr.name, attrSetterJsFunctionName iface attr.name]

theorem filterMap_memberFunctions (iface : String) (members : Members) :
    (memberFunctions iface members).filterMap Function.name = declaredNames iface members := by
  have hmethods : (members.methods.map (Function.method iface)).filterMap Function.name =
      members.methods.map fun f => cFunctionName iface f.name := by
    rw [filterMap_map]
    exact congrFun (filterMap_eq_map (f := fun f : Method => cFunctionName iface f.name)) _
  rw [memberFunctions, filterMap_append, hmethods, filterMap_flatMap]
  rfl

/-- The constructor of an interface. -/
def constructNames (iface : IdlInterface) : List String :=
  if hasConstructor iface then [cFunctionName iface.name "construct"] else []

theorem cFunctionName_get (iface attr : String) :
    cFunctionName iface ("get_" ++ attr) = attrGetterJsFunctionName iface attr := by
  have hjoin : "_get_" = "_" ++ "get_" := rfl
  rw [cFunctionName, attrGetterJsFunctionName, hjoin]
  simp only [String.append_assoc]

theorem cFunctionName_set (iface attr : String) :
    cFunctionName iface ("set_" ++ attr) = attrSetterJsFunctionName iface attr := by
  have hjoin : "_set_" = "_" ++ "set_" := rfl
  rw [cFunctionName, attrSetterJsFunctionName, hjoin]
  simp only [String.append_assoc]

theorem perm_memberNames (m : IdlModule) (i : IdlInterface) :
    ((effectiveAncestors m i).flatMap (fun anc => declaredNames i.name anc.members) ++
      constructNames i).Perm (memberNames m i) := by
  have haccessors : ((effectiveAttributes m i).flatMap fun attr =>
      ["get_" ++ attr.name, "set_" ++ attr.name]).map (cFunctionName i.name) =
      (effectiveAncestors m i).flatMap fun anc => anc.members.attributes.flatMap fun attr =>
        [attrGetterJsFunctionName i.name attr.name, attrSetterJsFunctionName i.name attr.name] := by
    rw [map_flatMap, effectiveAttributes, flatMap_assoc]
    simp only [map_cons, map_nil, cFunctionName_get, cFunctionName_set]
  have hconstruct : (if hasConstructor i then ["construct"] else []).map (cFunctionName i.name) =
      constructNames i := by
    unfold constructNames
    cases hasConstructor i <;> rfl
  rw [memberNames, memberSuffixes, map_append, map_append, haccessors, hconstruct,
    effectiveMethods, List.map_map, map_flatMap]
  exact (flatMap_append_perm _ _ _).symm.append_right _

/-- The functions, with those of one interface together. -/
theorem perm_functionNames (m : IdlModule) :
    (functionNames m).Perm (m.interfaces.flatMap (interfaceNames m)) := by
  have hcallbacks : (m.callbacks.map Function.call).filterMap Function.name = [] := by
    rw [filterMap_map]
    exact filterMap_eq_nil_iff.mpr fun _ _ => rfl
  have hconstructs : (m.interfaces.filterMap fun iface =>
      iface.members.constructorParams.map (Function.construct iface.name)).filterMap Function.name =
      m.interfaces.flatMap constructNames := by
    induction m.interfaces with
    | nil => rfl
    | cons i rest ih =>
      unfold constructNames hasConstructor
      cases hparams : i.members.constructorParams with
      | none =>
        rw [filterMap_cons_none (by rw [hparams]; rfl), ih, flatMap_cons, hparams]
        rfl
      | some params =>
        rw [filterMap_cons_some (b := .construct i.name params) (by rw [hparams]; rfl),
          filterMap_cons_some (b := cFunctionName i.name "construct") (by
            have hjoin : "_construct" = "_" ++ "construct" := rfl
            rw [Function.name, cFunctionName, hjoin]
            simp only [String.append_assoc]), ih, flatMap_cons, hparams]
        rfl
  have hmembers : (m.interfaces.flatMap fun iface =>
      (effectiveAncestors m iface).flatMap fun anc =>
        memberFunctions iface.name anc.members).filterMap Function.name =
      m.interfaces.flatMap fun iface => (effectiveAncestors m iface).flatMap fun anc =>
        declaredNames iface.name anc.members := by
    rw [filterMap_flatMap]
    refine flatMap_congr fun iface _ => ?_
    rw [filterMap_flatMap]
    exact flatMap_congr fun anc _ => filterMap_memberFunctions iface.name anc.members
  have hfunctions : functions m = m.callbacks.map Function.call ++
      (m.interfaces.flatMap fun iface => (effectiveAncestors m iface).flatMap fun anc =>
        memberFunctions iface.name anc.members) ++
      m.interfaces.filterMap fun iface =>
        iface.members.constructorParams.map (Function.construct iface.name) := rfl
  rw [functionNames, hfunctions, filterMap_append, filterMap_append, hcallbacks, hmembers,
    hconstructs, nil_append]
  refine ((flatMap_append_perm _ _ _).append_right _).trans
    ((flatMap_append_perm _ _ _).trans ?_)
  exact Perm.flatMap_left _ fun i _ => (perm_memberNames m i).append_right _

theorem nodup_functionNames_iff {m : IdlModule} (hmembers : MembersDistinct m) :
    (functionNames m).Nodup ↔ FunctionsApart m := by
  have hsymm : Std.Symm fun i j => (SplitsApart m i j ∧ SlotsApart m i j) ∧
      SplitsApart m j i ∧ SlotsApart m j i := ⟨fun _ _ h => ⟨h.2, h.1⟩⟩
  rw [(perm_functionNames m).nodup_iff, nodup_flatMap]
  constructor
  · rintro ⟨hown, hpairs⟩
    have hall := hpairs.imp fun {i j} h => interfaceNames_disjoint_iff.mp h
    have hself : ∀ i ∈ m.interfaces, (SplitsApart m i i ∧ SlotsApart m i i) ∧
        SplitsApart m i i ∧ SlotsApart m i i := fun i _ =>
      ⟨⟨splitsApart_self, slotsApart_self⟩, splitsApart_self, slotsApart_self⟩
    have hboth := (hall.imp fun h => h.2).forall_of_forall hself
    have hsuffixes : ∀ i (hi : i ∈ m.interfaces), _ := fun i hi =>
      (nodup_memberSuffixes (hmembers i hi)).mp (nodup_interfaceNames.mp (hown i hi))
    exact ⟨pairwise_map.mpr (hall.imp fun h => h.1), fun i hi => (hsuffixes i hi).1,
      fun i hi => (hsuffixes i hi).2, fun i hi j hj => (hboth hi hj).1.1,
      fun i hi j hj => (hboth hi hj).1.2⟩
  · intro h
    refine ⟨fun i hi => ?_, ?_⟩
    · exact nodup_interfaceNames.mpr ((nodup_memberSuffixes (hmembers i hi)).mpr
        ⟨h.accessors i hi, h.construct i hi⟩)
    · refine (pairwise_map.mp h.names).imp_of_mem fun {i j} hi hj hname => ?_
      exact interfaceNames_disjoint_iff.mpr ⟨hname, ⟨h.splits i hi j hj, h.slots i hi j hj⟩,
        h.splits j hj i hi, h.slots j hj i hi⟩

/-- **The names of a quickjs header.**  In a module in which no interface has two members of one name,
the functions at file scope are named differently, and no scope of a function declares a name twice,
exactly if the names that are joined do not clash and the module gives every function that is
generated names that are apart. -/
theorem generated_names_iff (m : IdlModule) (hmembers : MembersDistinct m) :
    ((functionNames m).Nodup ∧
        (∀ f ∈ functions m, ∀ n l, f.scopes m n = some l → l.Distinct) ∧
        ∀ f : FixedFunction, f.scopes.Distinct) ↔
      FunctionsApart m ∧ ∀ f ∈ functions m, (∃ n l, f.scopes m n = some l) → f.Apart m := by
  rw [nodup_functionNames_iff hmembers]
  refine and_congr_right fun _ => ⟨fun h f hf => ?_, fun h => ⟨fun f hf n l hl => ?_, ?_⟩⟩
  · rintro ⟨n, l, hl⟩
    exact (distinct_scopes_iff hl).mp (h.1 f hf n l hl)
  · exact (distinct_scopes_iff hl).mpr (h f hf ⟨n, l, hl⟩)
  · exact FixedFunction.distinct

instance (m : IdlModule) : Decidable (MembersDistinct m) :=
  inferInstanceAs (Decidable (∀ iface ∈ m.interfaces, _))

/-- `interface Node { readonly attribute long size; void resize(long width); };` -/
def resizeModule : IdlModule where
  interfaces := [⟨"Node", "", {
    methods := [⟨"resize", .plain .void false, [⟨.plain .long false, "width", false, false⟩]⟩]
    attributes := [⟨.plain .long false, "size", true⟩]
    constructorParams := none }⟩]
  enums := []
  dictionaries := []
  callbacks := []

theorem resizeModule_names : (functionNames resizeModule).Nodup ∧
    (∀ f ∈ functions resizeModule, ∀ n l, f.scopes resizeModule n = some l → l.Distinct) ∧
    ∀ f : FixedFunction, f.scopes.Distinct := by
  refine (generated_names_iff resizeModule (by decide)).mpr ⟨?_, fun f hf _ => ?_⟩
  · refine ⟨by decide, ?_, ?_, ?_, ?_⟩
    · intro i hi
      rw [mem_singleton.mp hi]
      decide
    · intro i hi hconstructor
      rw [mem_singleton.mp hi] at hconstructor
      cases hconstructor
    · intro i hi j hj
      rw [mem_singleton.mp hi, mem_singleton.mp hj]
      exact splitsApart_self
    · intro i hi j hj
      rw [mem_singleton.mp hi, mem_singleton.mp hj]
      exact slotsApart_self
  · have hfrom : FromJsApart resizeModule (.plain .long false) :=
      fromJsApart_of_not_converts nofun fun _ hu => hu.elim nofun nofun
    have hto : ToJsApart resizeModule (.plain .long false) := by
      refine toJsApart_iff.mpr ⟨pathsApart_of_single fun n found hfound => ?_, nofun⟩
      cases hfound
      exact le_rfl
    change f ∈ [Function.method "Node" _, Function.getter "Node" _, Function.setter "Node" _] at hf
    rcases mem_cons.mp hf with rfl | hf
    · refine ⟨⟨pairwise_singleton _ _, ?_⟩, ?_, forall_mem_singleton.mpr hfrom, nofun⟩
      · decide
      · rintro d hd - (hmem | ⟨hvoid, -⟩ | hreturn | ⟨u, hu, -⟩)
        · rw [mem_singleton.mp hd] at hmem
          exact absurd hmem (by decide)
        · cases hvoid
        · cases hreturn
        · cases hu
    rcases mem_cons.mp hf with rfl | hf
    · exact ⟨⟨List.Pairwise.nil, nofun⟩, nofun, nofun, forall_mem_singleton.mpr hto⟩
    · rw [mem_singleton.mp hf]
      exact ⟨⟨List.Pairwise.nil, nofun⟩, nofun, nofun, nofun⟩

/-- `interface Window { readonly attribute long size; long get_size(); void draw(long ctx); };` -/
def drawModule : ParsedModule where
  interfaces := [⟨"Window", "", {
    methods := [⟨"get_size", .plain .long false, []⟩,
      ⟨"draw", .plain .void false, [⟨.plain .long false, "ctx", false, false⟩]⟩]
    attributes := [⟨.plain .long false, "size", true⟩]
    constructorParams := none
    consts := [] }⟩]
  enums := []
  dictionaries := []
  callbacks := []
  mixins := []
  includesDecls := []

/-- The module is accepted; a method is named like a getter and a parameter like the context. -/
theorem drawModule_clashes :
    resolveModule drawModule = some (.ok drawModule) ∧ MembersDistinct drawModule.idl ∧
      ¬ (functionNames drawModule.idl).Nodup ∧
      ∃ f ∈ functions drawModule.idl, ∃ n l, f.scopes drawModule.idl n = some l ∧ ¬ l.Distinct := by
  refine ⟨rfl, by decide, by decide, .method "Window" ⟨"draw", .plain .void false,
    [⟨.plain .long false, "ctx", false, false⟩]⟩, ?_, 1, _, rfl, by decide⟩
  exact mem_cons_of_mem _ mem_cons_self

end Voodoo.Bruja
