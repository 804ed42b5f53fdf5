import Voodoo.Wire.Read

/-!
# What a variable of a generated type can hold

`HasType graph file type v`: the C++ compiler lets a variable of `type`, spelled
in `file`, hold `v`.  Only the lengths of containers go beyond the C++ types:
strings, arrays and maps have fewer than `2 ^ 32` elements, which is what the
length prefix has room for.

An enum variable may hold any `int32_t`, declared or not; what a reader makes of
an undeclared one is for the theorems to say.
-/

namespace Voodoo

/-- The objects of a handle kind. -/
def HandleKind.Holds : HandleKind → Val → Prop
  | .pendingRemote, .pendingRemote _ _ => True
  | .pendingAssociatedRemote, .endpointRemote _ _ => True
  | .pendingAssociatedReceiver, .endpoint _ => True
  | .pendingReceiver, .handle _ => True
  | .handle, .handle _ => True
  | .handleMessagePipe, .handle _ => True
  | .handleDataPipeConsumer, .handle _ => True
  | .handleDataPipeProducer, .handle _ => True
  | .handleSharedBuffer, .handle _ => True
  | .handlePlatform, .handle _ => True
  | _, _ => False

inductive HasType (graph : List Module) : Module → TypeSpec → Val → Prop where
  | scalar {file : Module} {kind : ScalarKind} {bits : Nat} (hbits : bits < kind.card) :
      HasType graph file (.scalar kind) (.scalar bits)
  | string {file : Module} {bytes : List UInt8} (hlen : bytes.length < 2 ^ 32) :
      HasType graph file .string (.string bytes)
  | enum {file : Module} {r : TypeRef} (value : BitVec 32) :
      HasType graph file (.enumRef r) (.enum value)
  | struct {file m : Module} {r : TypeRef} {s : StructDecl} {members : List Val}
      (hr : resolveStruct graph file r = some (m, s)) (hlen : s.fields.length = members.length)
      (hmem : ∀ p ∈ s.fields.zip members, HasType graph m p.1.type p.2) :
      HasType graph file (.structRef r) (.struct members)
  | union {file m : Module} {r : TypeRef} {u : UnionDecl} {f : UnionField} {tag : BitVec 32}
      {v : Val} (hr : resolveUnion graph file r = some (m, u)) (hf : u.caseFor tag = some f)
      (hv : HasType graph m f.type v) : HasType graph file (.unionRef r) (.union tag v)
  | unknown {file m : Module} {r : TypeRef} {u : UnionDecl}
      (hr : resolveUnion graph file r = some (m, u)) (hext : u.isExtensible = true) :
      HasType graph file (.unionRef r) .unknown
  | array {file : Module} {element : TypeSpec} {fixedArraySize : Nat} {elements : List Val}
      (hlen : elements.length < 2 ^ 32)
      (hfixed : fixedArraySize ≠ 0 → elements.length = fixedArraySize)
      (helem : ∀ v ∈ elements, HasType graph file element v) :
      HasType graph file (.array element fixedArraySize) (.array elements)
  | map {file : Module} {key element : TypeSpec} {entries : List (Val × Val)}
      (hlen : entries.length < 2 ^ 32) (hkeys : (entries.map Prod.fst).Nodup)
      (hkey : ∀ e ∈ entries, HasType graph file key e.1)
      (helem : ∀ e ∈ entries, HasType graph file element e.2) :
      HasType graph file (.map key element) (.map entries)
  | handle {file : Module} {kind : HandleKind} {interface : Option TypeRef} {v : Val}
      (hv : kind.Holds v) : HasType graph file (.handle kind interface) v
  | null {file : Module} {type : TypeSpec} : HasType graph file (.nullable type) .null
  | some {file : Module} {type : TypeSpec} {v : Val} (hv : HasType graph file type v) :
      HasType graph file (.nullable type) (.some v)

/-- The arguments of a call, one for each parameter. -/
def HasTypes (graph : List Module) (file : Module) (params : List Param) (args : List Val) : Prop :=
  List.Forall₂ (fun p v => HasType graph file p.type v) params args

end Voodoo
