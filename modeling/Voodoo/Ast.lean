import Mathlib.Algebra.Group.Nat.Defs
import Voodoo.Lib.StableOrder
import Voodoo.Wire.Value

/-!
# The declarations a `.voodoom` file parses into

The part of `ast.h` that decides what the generated readers and writers do, and the functions over it
that the generator uses: which enum is extensible, what `IsKnownX` and `IsKnownXAsOf` accept, in which
order the fields of a struct go on the wire, and which declaration a reference reaches.

A reference names a declaration as the generated C++ does: a namespace (empty for the file itself),
the enclosing interface or struct (empty at the top level) and the bare name.  `resolveStruct`,
`resolveUnion` and `resolveEnum` give the declaration and the file it was emitted from.
-/

namespace Voodoo

/-! ### Types -/

/-- The scalar kinds, `kBool` to `kDouble`. -/
inductive ScalarKind where
  | bool | int8 | uint8 | int16 | uint16 | int32 | uint32 | int64 | uint64 | float | double
  deriving DecidableEq

namespace ScalarKind

/-- `sizeof` of the C++ type. -/
def size : ScalarKind → Nat
  | bool | int8 | uint8 => 1
  | int16 | uint16 => 2
  | int32 | uint32 | float => 4
  | int64 | uint64 | double => 8

/-- How many values the C++ type has. -/
def card : ScalarKind → Nat
  | bool => 2
  | k => 256 ^ k.size

theorem card_le (k : ScalarKind) : k.card ≤ 256 ^ k.size := by cases k <;> decide

theorem size_pos (k : ScalarKind) : 0 < k.size := by cases k <;> decide

end ScalarKind

/-- The kinds `IsHandleBearing` accepts. -/
inductive HandleKind where
  | pendingRemote | pendingReceiver | pendingAssociatedRemote | pendingAssociatedReceiver
  | handle | handleMessagePipe | handleDataPipeConsumer | handleDataPipeProducer
  | handleSharedBuffer | handlePlatform
  deriving DecidableEq

/-- The name part of a `TypeSpec`: what a reference to a declaration is spelled with. -/
structure TypeRef where
  name : String
  ownerNamespace : String := ""
  ownerContainer : String := ""
  deriving DecidableEq

/-- `TypeSpec`, one constructor for each group of kinds; a set `nullable` flag is `nullable`. -/
inductive TypeSpec where
  | scalar (kind : ScalarKind)
  | string
  | enumRef (ref : TypeRef)
  | structRef (ref : TypeRef)
  | unionRef (ref : TypeRef)
  /-- `fixedArraySize` is `0` for a length-prefixed array. -/
  | array (element : TypeSpec) (fixedArraySize : Nat)
  | map (key element : TypeSpec)
  /-- `interface` is what a pending kind is bound to; a raw handle leaves it out. -/
  | handle (kind : HandleKind) (interface : Option TypeRef)
  | nullable (type : TypeSpec)

/-- `EmbedDeclKey`: the C++ name of a declaration. -/
def embedDeclKey (ownerContainer name : String) : String :=
  if ownerContainer = "" then name else ownerContainer ++ "_" ++ name

/-- `CppEmbedName` of a reference. -/
def TypeRef.cppEmbedName (r : TypeRef) : String := embedDeclKey r.ownerContainer r.name

/-! ### Enums -/

structure EnumValue where
  name : String
  value : BitVec 32
  minVersion : UInt32 := 0
  isDefault : Bool := false
  deriving DecidableEq

structure EnumDecl where
  name : String
  values : List EnumValue
  isExtensible : Bool := false
  deriving DecidableEq

namespace EnumDecl

/-- The `switch` of both `IsKnown` functions: its cases are the values not seen before, so the
first enumerator of a value stands for it. -/
def caseFor (e : EnumDecl) (value : BitVec 32) : Option EnumValue :=
  e.values.find? (fun v => v.value == value)

/-- `IsKnownX(wvc_value)`. -/
def isKnown (e : EnumDecl) (value : BitVec 32) : Bool := (e.caseFor value).isSome

/-- `IsKnownXAsOf(wvc_value, wvc_version)`. -/
def isKnownAsOf (e : EnumDecl) (value : BitVec 32) (version : Nat) : Bool :=
  match e.caseFor value with
  | some v => if v.minVersion = 0 then true else v.minVersion.toNat ≤ version
  | none => false

end EnumDecl

/-! ### Structs and unions -/

structure StructField where
  type : TypeSpec
  name : String
  /-- What the declared default evaluates to. -/
  defaultValue : Option Val := none
  minVersion : UInt32 := 0

structure StructDecl where
  name : String
  fields : List StructField
  enums : List EnumDecl := []
  ownerContainer : String := ""

namespace StructDecl

def cppEmbedName (s : StructDecl) : String := embedDeclKey s.ownerContainer s.name

/-- `max(field.min_version)`, as the parser computes it. -/
def version (s : StructDecl) : Nat := s.fields.foldr (fun f v => max f.minVersion.toNat v) 0

/-- `WireFieldOrder`. -/
def wireFieldOrder (s : StructDecl) : List Nat :=
  StableOrder.positions (s.fields.map (fun f => f.minVersion.toNat))

theorem minVersion_le_version {s : StructDecl} {f : StructField} (h : f ∈ s.fields) :
    f.minVersion.toNat ≤ s.version := by
  unfold version
  generalize s.fields = fs at h
  induction fs with
  | nil => exact absurd h List.not_mem_nil
  | cons g gs ih =>
    rw [List.foldr_cons]
    rcases List.mem_cons.mp h with rfl | h
    · exact Nat.le_max_left _ _
    · exact (ih h).trans (Nat.le_max_right _ _)

theorem version_le {s : StructDecl} {k : Nat} (h : ∀ f ∈ s.fields, f.minVersion.toNat ≤ k) :
    s.version ≤ k := by
  unfold version
  generalize s.fields = fs at h
  induction fs with
  | nil => exact Nat.zero_le k
  | cons g gs ih =>
    obtain ⟨hg, hgs⟩ := List.forall_mem_cons.mp h
    exact Nat.max_le.mpr ⟨hg, ih hgs⟩

theorem version_lt (s : StructDecl) : s.version < 2 ^ 32 := by
  have : s.version ≤ 2 ^ 32 - 1 :=
    version_le (fun f _ => Nat.le_sub_one_of_lt f.minVersion.toNat_lt)
  omega

end StructDecl

structure UnionField where
  type : TypeSpec
  name : String
  tag : BitVec 32
  isDefault : Bool := false
  /-- The tag is an enumerator of an `enum class Tag : int32_t`, where a larger one does not
  compile. -/
  fits : tag.toNat < 2 ^ 31 := by decide

structure UnionDecl where
  name : String
  fields : List UnionField
  isExtensible : Bool := false
  ownerContainer : String := ""

namespace UnionDecl

def cppEmbedName (u : UnionDecl) : String := embedDeclKey u.ownerContainer u.name

/-- The `case` of both generated `switch`es that `tag` reaches. -/
def caseFor (u : UnionDecl) (tag : BitVec 32) : Option UnionField :=
  u.fields.find? (fun f => f.tag == tag)

/-- The field marked `[Default]`; where several are, the last. -/
def defaultField (u : UnionDecl) : Option UnionField := u.fields.reverse.find? (·.isDefault)

theorem tag_of_caseFor {u : UnionDecl} {tag : BitVec 32} {f : UnionField}
    (h : u.caseFor tag = some f) : f.tag = tag := by
  have htag := List.find?_some (show u.fields.find? (fun f => f.tag == tag) = some f from h)
  exact beq_iff_eq.mp htag

theorem caseFor_of_le {u : UnionDecl} {tag : BitVec 32} (h : 2 ^ 31 ≤ tag.toNat) :
    u.caseFor tag = none := by
  cases hf : u.caseFor tag with
  | none => rfl
  | some f =>
    have := f.fits
    rw [tag_of_caseFor hf] at this
    omega

end UnionDecl

/-! ### Interfaces and modules -/

structure Param where
  type : TypeSpec
  name : String

structure Method where
  name : String
  params : List Param
  responseParams : List Param := []

structure Interface where
  name : String
  methods : List Method := []
  enums : List EnumDecl := []
  structs : List StructDecl := []
  unions : List UnionDecl := []

structure Module where
  /-- The `module` statement, empty when there is none. -/
  name : String := ""
  enums : List EnumDecl := []
  structs : List StructDecl := []
  unions : List UnionDecl := []
  interfaces : List Interface := []

namespace Module

/-- `AllStructs`. -/
def allStructs (m : Module) : List StructDecl := m.structs ++ m.interfaces.flatMap (·.structs)

/-- `AllUnions`. -/
def allUnions (m : Module) : List UnionDecl := m.unions ++ m.interfaces.flatMap (·.unions)

/-- Every enum of the file under the C++ name it is emitted with, in the order
`GenerateCppHeader` goes through them. -/
def namedEnums (m : Module) : List (String × EnumDecl) :=
  m.enums.map (fun e => (e.name, e)) ++
  m.allStructs.flatMap (fun s => s.enums.map (fun e => (embedDeclKey s.cppEmbedName e.name, e))) ++
  m.interfaces.flatMap (fun i => i.enums.map (fun e => (embedDeclKey i.name e.name, e)))

/-- `IsEnumExtensible` on the `enum_extensible` map of the file: keyed by the bare name, filled
from the file's own enums, the last one of a name deciding. -/
def isEnumExtensible (m : Module) (enumName : String) : Bool :=
  match (m.namedEnums.map Prod.snd).reverse.find? (·.name == enumName) with
  | some e => e.isExtensible
  | none => false

end Module

/-! ### What a reference reaches -/

/-- The files whose declarations a reference written in `m` with this qualifier can reach: the
file itself first, then the files of the namespace. -/
def scope (graph : List Module) (m : Module) (ownerNamespace : String) : List Module :=
  if ownerNamespace = "" then
    m :: graph.filter (fun n => n.name = m.name ∨ n.name = "")
  else graph.filter (fun n => n.name = ownerNamespace)

def resolveStruct (graph : List Module) (m : Module) (r : TypeRef) :
    Option (Module × StructDecl) :=
  (scope graph m r.ownerNamespace).findSome? (fun n =>
    (n.allStructs.find? (fun s => s.cppEmbedName = r.cppEmbedName)).map (n, ·))

def resolveUnion (graph : List Module) (m : Module) (r : TypeRef) : Option (Module × UnionDecl) :=
  (scope graph m r.ownerNamespace).findSome? (fun n =>
    (n.allUnions.find? (fun u => u.cppEmbedName = r.cppEmbedName)).map (n, ·))

def resolveEnum (graph : List Module) (m : Module) (r : TypeRef) : Option (Module × EnumDecl) :=
  (scope graph m r.ownerNamespace).findSome? (fun n =>
    (n.namedEnums.find? (fun e => e.1 = r.cppEmbedName)).map (fun e => (n, e.2)))

end Voodoo
