import Voodoo.Wire.Progress

/-!
# Enum values that are not declared

A reader of an `[Extensible]` enum is to accept every value, and to put the
`[Default]` enumerator where the value is not declared; a reader of any other enum
is to refuse an undeclared value.

Whether an enum is extensible the generator looks up in a map filled from the file
it is generating (`isEnumExtensible`), so it finds only the file's own enums; and
nothing it emits ever looks at `[Default]`.  `tolerant_iff` says where this does
what it is to do.
-/

namespace Voodoo

open LittleEndian EState List

/-- The enums a file declares, at the top level or inside a struct or interface. -/
def Module.enumDecls (m : Module) : List EnumDecl := m.namedEnums.map Prod.snd

namespace EnumDecl

/-- The enumerator marked `[Default]`. -/
def defaultValue (e : EnumDecl) : Option EnumValue := e.values.find? (·.isDefault)

/-- What is to be stored for a value of an extensible enum. -/
def tolerated (e : EnumDecl) (value : BitVec 32) : BitVec 32 :=
  if e.isKnown value then value
  else
    match e.defaultValue with
    | some d => d.value
    | none => value

/-- The check that a reader makes of a value it does not take to be of an extensible enum. -/
def isKnownUnder (e : EnumDecl) (value : BitVec 32) : Option Nat → Bool
  | none => e.isKnown value
  | some version => e.isKnownAsOf value version

theorem isKnown_of_isKnownUnder {e : EnumDecl} {value : BitVec 32} {version : Option Nat}
    (h : e.isKnownUnder value version = true) : e.isKnown value = true := by
  cases version with
  | none => exact h
  | some version =>
    rw [isKnownUnder, isKnownAsOf] at h
    rw [isKnown]
    cases hc : e.caseFor value with
    | none => rw [hc] at h; cases h
    | some x => rfl

theorem isKnown_of_mem {e : EnumDecl} {x : EnumValue} (h : x ∈ e.values) :
    e.isKnown x.value = true := by
  rw [isKnown, caseFor, find?_isSome]
  exact ⟨x, h, beq_self_eq_true x.value⟩

theorem tolerated_eq_iff {e : EnumDecl} {value : BitVec 32} :
    e.tolerated value = value ↔ e.isKnown value = true ∨ e.defaultValue = none := by
  unfold tolerated
  by_cases hknown : e.isKnown value = true
  · rw [if_pos hknown]
    exact iff_of_true rfl (Or.inl hknown)
  · rw [if_neg hknown]
    cases hd : e.defaultValue with
    | none => exact iff_of_true rfl (Or.inr rfl)
    | some d =>
      refine iff_of_false ?_ (by rintro (h | h); exacts [hknown h, nomatch h])
      intro hvalue
      have hvalue : d.value = value := hvalue
      exact hknown (hvalue ▸ isKnown_of_mem (mem_of_find?_eq_some hd))

end EnumDecl

/-! ### The lookup by bare name -/

/-- No two enums of the files share a bare name. -/
def UniqueEnumNames (graph : List Module) : Prop :=
  ∀ m ∈ graph, ∀ n ∈ graph, ∀ d ∈ m.enumDecls, ∀ e ∈ n.enumDecls, d.name = e.name → d = e

theorem mem_of_resolveEnum {graph : List Module} {file m : Module} {ref : TypeRef} {e : EnumDecl}
    (hfile : file ∈ graph) (h : resolveEnum graph file ref = some (m, e)) :
    m ∈ graph ∧ e ∈ m.enumDecls := by
  obtain ⟨n, hn, hfind⟩ := exists_of_findSome?_eq_some h
  obtain ⟨d, hd, hme⟩ := Option.map_eq_some_iff.mp hfind
  obtain ⟨rfl, rfl⟩ := Prod.mk.inj hme
  refine ⟨?_, List.mem_map_of_mem (mem_of_find?_eq_some hd)⟩
  unfold scope at hn
  split at hn
  · rcases mem_cons.mp hn with rfl | hn
    · exact hfile
    · exact mem_of_mem_filter hn
  · exact mem_of_mem_filter hn

theorem isEnumExtensible_find (file : Module) (name : String) :
    file.isEnumExtensible name =
      match file.enumDecls.reverse.find? (·.name == name) with
      | some e => e.isExtensible
      | none => false :=
  rfl

theorem isEnumExtensible_eq {graph : List Module} {file m : Module} {e : EnumDecl}
    (hunique : UniqueEnumNames graph) (hfile : file ∈ graph) (hm : m ∈ graph)
    (he : e ∈ m.enumDecls) :
    file.isEnumExtensible e.name = true ↔ e ∈ file.enumDecls ∧ e.isExtensible = true := by
  rw [isEnumExtensible_find]
  cases hfind : file.enumDecls.reverse.find? (·.name == e.name) with
  | none =>
    refine iff_of_false Bool.false_ne_true (fun h => ?_)
    have := find?_eq_none.mp hfind e (mem_reverse.mpr h.1)
    exact this (beq_self_eq_true e.name)
  | some d =>
    have hd := mem_reverse.mp (mem_of_find?_eq_some hfind)
    obtain rfl := hunique file hfile m hm d hd e he (beq_iff_eq.mp (find?_some hfind :))
    exact (and_iff_right hd).symm

/-! ### One read -/

section read

variable {graph : List Module} {msg : Message} {file : Module} {rx : EmbedRef → Reader Val}
  {version : Option Nat} {ref : TypeRef} {c : Cursor}

/-- The enum value on the wire at the cursor. -/
def wireValue (msg : Message) (c : Cursor) : BitVec 32 := BitVec.ofNat 32 (wordAt msg c.offset)

variable (graph file rx version ref) in
theorem readInto_enumRef (hword : c.offset + 4 ≤ msg.payloadNumBytes) :
    (acceptsEnum graph file ref version (wireValue msg c) = true →
      ∃ c', readInto graph msg file rx version (.enumRef ref) c = .ok (.enum (wireValue msg c)) c') ∧
    (acceptsEnum graph file ref version (wireValue msg c) = false →
      ∃ c', readInto graph msg file rx version (.enumRef ref) c = .error .returnFalse c') := by
  have hread := readScalar_ok hword
  constructor
  · intro h
    refine ⟨{ c with offset := c.offset + 4, trace := c.trace ++ [.load c.offset 4] }, ?_⟩
    rw [readInto, bind_ok hread]
    change (if acceptsEnum graph file ref version (wireValue msg c) = true then _ else _ :
      Reader Val) _ = _
    rw [if_pos h]
    rfl
  · intro h
    refine ⟨{ c with offset := c.offset + 4, trace := c.trace ++ [.load c.offset 4] }, ?_⟩
    rw [readInto, bind_ok hread]
    change (if acceptsEnum graph file ref version (wireValue msg c) = true then _ else _ :
      Reader Val) _ = _
    rw [if_neg (by rw [h]; exact Bool.false_ne_true)]
    rfl

/-- The read of an enum does what it is to do: of an extensible one it stores `tolerated`, of any
other it refuses a value that is not declared. -/
def Tolerant (graph : List Module) (msg : Message) (file : Module) (rx : EmbedRef → Reader Val)
    (version : Option Nat) (ref : TypeRef) (e : EnumDecl) (c : Cursor) : Prop :=
  (e.isExtensible = true → ∃ c', readInto graph msg file rx version (.enumRef ref) c =
    .ok (.enum (e.tolerated (wireValue msg c))) c') ∧
  (e.isExtensible = false → e.isKnown (wireValue msg c) = false →
    ∃ c', readInto graph msg file rx version (.enumRef ref) c = .error .returnFalse c')

/-- **Tolerance of undeclared enum values.**  Wherever a type refers to an enum, reading it does
what it is to do exactly if the enum is not extensible, or is declared in the file that reads it and
does not need its `[Default]`, or is imported and does not need tolerance. -/
theorem tolerant_iff {m : Module} {e : EnumDecl} (hunique : UniqueEnumNames graph)
    (hfile : file ∈ graph) (hr : resolveEnum graph file ref = some (m, e)) (hname : e.name = ref.name)
    (hword : c.offset + 4 ≤ msg.payloadNumBytes) :
    Tolerant graph msg file rx version ref e c ↔
      (e.isExtensible = true → if e ∈ file.enumDecls
        then e.isKnown (wireValue msg c) = true ∨ e.defaultValue = none
        else e.isKnownUnder (wireValue msg c) version = true) := by
  obtain ⟨hm, he⟩ := mem_of_resolveEnum hfile hr
  have hmap := isEnumExtensible_eq hunique hfile hm he
  obtain ⟨hok, hrefuse⟩ := readInto_enumRef graph file rx version ref hword
  have haccepts : ¬ file.isEnumExtensible ref.name = true →
      acceptsEnum graph file ref version (wireValue msg c) =
        e.isKnownUnder (wireValue msg c) version := by
    intro hnot
    rw [acceptsEnum, if_neg hnot, hr]
    cases version <;> rfl
  have hstored : acceptsEnum graph file ref version (wireValue msg c) = true →
      ((∃ c', readInto graph msg file rx version (.enumRef ref) c =
        .ok (.enum (e.tolerated (wireValue msg c))) c') ↔
        e.isKnown (wireValue msg c) = true ∨ e.defaultValue = none) := by
    intro h
    obtain ⟨c', hread⟩ := hok h
    rw [hread, ← EnumDecl.tolerated_eq_iff]
    constructor
    · rintro ⟨c'', hc⟩
      exact (Val.enum.inj (EStateM.Result.ok.inj hc).1).symm
    · exact fun h => ⟨c', by rw [h]⟩
  unfold Tolerant
  rw [hname] at hmap
  cases hext : e.isExtensible with
  | false =>
    refine iff_of_true ⟨(by rintro ⟨⟩), fun _ hknown => hrefuse ?_⟩ (by rintro ⟨⟩)
    rw [haccepts (fun h => by rw [hmap, hext] at h; cases h.2)]
    cases hunder : e.isKnownUnder (wireValue msg c) version with
    | false => rfl
    | true => rw [EnumDecl.isKnown_of_isKnownUnder hunder] at hknown; cases hknown
  | true =>
    rw [and_iff_left (by rintro ⟨⟩), imp_iff_right rfl, imp_iff_right rfl]
    by_cases hown : e ∈ file.enumDecls
    · rw [if_pos hown]
      refine hstored ?_
      rw [acceptsEnum, if_pos (hmap.mpr ⟨hown, hext⟩)]
    · rw [if_neg hown]
      have hacc := haccepts (fun h => hown (hmap.mp h).1)
      cases hunder : e.isKnownUnder (wireValue msg c) version with
      | true =>
        rw [hunder] at hacc
        exact iff_of_true ((hstored hacc).mpr (Or.inl (EnumDecl.isKnown_of_isKnownUnder hunder))) rfl
      | false =>
        rw [hunder] at hacc
        obtain ⟨c', hread⟩ := hrefuse hacc
        refine iff_of_false ?_ Bool.false_ne_true
        rintro ⟨c'', hc⟩
        rw [hread] at hc
        cases hc

end read

/-- `[Extensible] enum E { ... };` -/
def extensibleEnum (values : List EnumValue) : EnumDecl :=
  { name := "E", values := values, isExtensible := true }

def oneEnum (values : List EnumValue) : Module := { enums := [extensibleEnum values] }

/-- The value 7, which `[Extensible] enum E { kA, kB };` does not declare, is stored as it came. -/
theorem tolerant_seven :
    Tolerant [oneEnum [{ name := "kA", value := 0 }, { name := "kB", value := 1 }]]
      ⟨[7, 0, 0, 0], []⟩ (oneEnum [{ name := "kA", value := 0 }, { name := "kB", value := 1 }])
      (fun _ => returnFalse) none { name := "E" }
      (extensibleEnum [{ name := "kA", value := 0 }, { name := "kB", value := 1 }]) {} := by
  have hown : ∀ values, extensibleEnum values ∈ (oneEnum values).enumDecls :=
    fun _ => mem_singleton_self _
  refine (tolerant_iff ?_ (mem_singleton_self _) rfl rfl (by decide)).mpr (fun _ => ?_)
  · intro m hm n hn d hd e he _
    obtain rfl := mem_singleton.mp hm
    obtain rfl := mem_singleton.mp hn
    rw [mem_singleton.mp hd, mem_singleton.mp he]
  · rw [if_pos (hown _)]
    exact Or.inr rfl

/-- With `[Default] kB` it is stored as it came as well. -/
theorem not_tolerant_default :
    ¬ Tolerant
      [oneEnum [{ name := "kA", value := 0 }, { name := "kB", value := 1, isDefault := true }]]
      ⟨[7, 0, 0, 0], []⟩
      (oneEnum [{ name := "kA", value := 0 }, { name := "kB", value := 1, isDefault := true }])
      (fun _ => returnFalse) none { name := "E" }
      (extensibleEnum [{ name := "kA", value := 0 },
        { name := "kB", value := 1, isDefault := true }]) {} := by
  rintro ⟨h, -⟩
  obtain ⟨c, hc⟩ := h rfl
  cases hc

end Voodoo
