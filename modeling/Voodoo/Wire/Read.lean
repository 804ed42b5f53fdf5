import Voodoo.Wire.Write

/-!
# The generated readers

What the code emitted by `EmitHandleReadInto`, `EmitReadInto`, `EmitStructIO`,
`EmitUnionIO` and `EmitTopReadParam` does with a received message.  The target of
a read is always a fresh, default-constructed object, so a reader returns the
object it leaves behind.

`readX` is one call of a generated `ReadX` function.  Such calls nest as deep as
the message says, so they are counted down by a number; `readValue` starts with
one more than the payload has bytes, which always suffices
(`readValue_ne_outOfFuel` in `Voodoo.Wire.Progress`).
-/

namespace Voodoo

/-- A struct or union reference: what a generated `ReadX` function is called for. -/
inductive EmbedRef where
  | struct (ref : TypeRef)
  | union (ref : TypeRef)

/-! ### Default construction -/

/-- The id of an endpoint handle that names no endpoint. -/
def invalidInterfaceId : UInt32 := 0xFFFFFFFF

/-- A default-constructed object of a handle kind. -/
def HandleKind.default : HandleKind → Val
  | .pendingRemote => .pendingRemote 0 0
  | .pendingAssociatedRemote => .endpointRemote invalidInterfaceId 0
  | .pendingAssociatedReceiver => .endpoint invalidInterfaceId
  | _ => .handle 0

/-- `T{}`, given `X{}` for the structs and unions. -/
def defaultInto (defaultX : EmbedRef → Val) : TypeSpec → Val
  | .scalar _ => .scalar 0
  | .string => .string []
  | .enumRef _ => .enum 0
  | .structRef r => defaultX (.struct r)
  | .unionRef r => defaultX (.union r)
  | .array element fixedArraySize =>
    .array (List.replicate fixedArraySize (defaultInto defaultX element))
  | .map _ _ => .map []
  | .handle kind _ => kind.default
  | .nullable _ => .null

/-- What a struct member starts life as: `CppFieldInitializer`. -/
def fieldInitializer (defaultX : EmbedRef → Val) (f : StructField) : Val :=
  f.defaultValue.getD (defaultInto defaultX f.type)

/-- `X{}`.  A type that holds itself by value does not compile, so a bound of one more than the
number of structs and unions is never reached. -/
def defaultX (graph : List Module) : Nat → Module → EmbedRef → Val
  | 0, _, _ => .unknown
  | n + 1, file, .struct r =>
    match resolveStruct graph file r with
    | some (m, s) => .struct (s.fields.map (fieldInitializer (defaultX graph n m)))
    | none => .unknown
  | n + 1, file, .union r =>
    match resolveUnion graph file r with
    | some (m, u) =>
      match u.fields with
      | f :: _ => .union f.tag (defaultInto (defaultX graph n m) f.type)
      | [] => .unknown
    | none => .unknown

/-- How many structs and unions the files declare. -/
def embedCount (graph : List Module) : Nat :=
  (graph.map (fun m => m.allStructs.length + m.allUnions.length)).sum

def defaultValue (graph : List Module) (file : Module) (type : TypeSpec) : Val :=
  defaultInto (defaultX graph (embedCount graph + 1) file) type

def defaultMember (graph : List Module) (file : Module) (f : StructField) : Val :=
  fieldInitializer (defaultX graph (embedCount graph + 1) file) f

/-! ### Reading -/

/-- Whether a reader of `file` stores the enum value it read: the check `EmitReadInto` leaves out
for the enums of its `enum_extensible` map, makes with `IsKnownX` where there is no version to go
by, and with `IsKnownXAsOf` inside a struct. -/
def acceptsEnum (graph : List Module) (file : Module) (r : TypeRef) (version : Option Nat)
    (value : BitVec 32) : Bool :=
  if file.isEnumExtensible r.name then true
  else
    match resolveEnum graph file r with
    | some (_, e) =>
      match version with
      | none => e.isKnown value
      | some version => e.isKnownAsOf value version
    | none => false

/-- `EmitHandleReadInto`. -/
def readHandleInto (msg : Message) : HandleKind → Reader Val
  | .pendingAssociatedRemote => do
    let iid ← readScalar msg 4
    let version ← readScalar msg 4
    pure (.endpointRemote (UInt32.ofNat iid) (UInt32.ofNat version))
  | .pendingAssociatedReceiver => do
    let iid ← readScalar msg 4
    pure (.endpoint (UInt32.ofNat iid))
  | .pendingRemote => do
    let version ← readScalar msg 4
    let pipe ← takeHandle msg
    pure (.pendingRemote pipe (UInt32.ofNat version))
  | _ => do
    let h ← takeHandle msg
    pure (.handle h)

/-- The number of elements of an array: on the wire unless the type fixes it. -/
def readCount (msg : Message) (fixedArraySize : Nat) : Reader Nat :=
  if fixedArraySize = 0 then readScalar msg 4 else pure fixedArraySize

/-- The loop over the elements of an array. -/
def readElements (element : Reader Val) : Nat → Reader (List Val)
  | 0 => pure []
  | n + 1 => do
    let v ← element
    let vs ← readElements element n
    pure (v :: vs)

/-- The loop over the entries of a map. -/
def readEntries (key element : Reader Val) : Nat → List (Val × Val) → Reader (List (Val × Val))
  | 0, entries => pure entries
  | n + 1, entries => do
    let k ← key
    let v ← element
    readEntries key element n (emplace entries k v)

/-- `EmitReadInto`; `readX` is the call of a struct's or union's reader, `version` the
`version_expr` it is generated with. -/
def readInto (graph : List Module) (msg : Message) (file : Module) (readX : EmbedRef → Reader Val)
    (version : Option Nat) : TypeSpec → Reader Val
  | .scalar .bool => do
    let b ← readBool msg
    pure (.scalar b.toNat)
  | .scalar kind => do
    let bits ← readScalar msg kind.size
    pure (.scalar bits)
  | .string => do
    let bytes ← readString msg
    pure (.string bytes)
  | .enumRef r => do
    let n ← readScalar msg 4
    if acceptsEnum graph file r version (BitVec.ofNat 32 n) then pure (.enum (BitVec.ofNat 32 n))
    else returnFalse
  | .structRef r => readX (.struct r)
  | .unionRef r => readX (.union r)
  | .array element fixedArraySize => do
    let n ← readCount msg fixedArraySize
    let vs ← readElements (readInto graph msg file readX version element) n
    pure (.array vs)
  | .map key element => do
    let n ← readScalar msg 4
    let es ← readEntries (readInto graph msg file readX version key)
      (readInto graph msg file readX version element) n []
    pure (.map es)
  | .handle kind _ => readHandleInto msg kind
  | .nullable type => do
    let has ← readBool msg
    if has then do
      let v ← readInto graph msg file readX version type
      pure (.some v)
    else pure .null

/-- The fields of a struct at the positions listed, each read only if the version says that it is
there, stored into `out`. -/
def readFields (s : StructDecl) (version : Nat) (read : TypeSpec → Reader Val) :
    List Nat → List Val → Reader (List Val)
  | [], out => pure out
  | i :: is, out =>
    match s.fields[i]? with
    | none => readFields s version read is out
    | some f =>
      if f.minVersion = 0 ∨ f.minVersion.toNat ≤ version then do
        let v ← read f.type
        readFields s version read is (out.set i v)
      else readFields s version read is out

/-- `ReadX` of a struct; `out` is what its members start as. -/
def readStruct (msg : Message) (s : StructDecl) (read : Nat → TypeSpec → Reader Val)
    (out : List Val) : Reader Val := do
  let numBytes ← readScalar msg 4
  let version ← readScalar msg 4
  if numBytes < 8 then returnFalse
  else do
    let offset ← currentOffset
    let structEnd := offset - 8 + numBytes
    if structEnd > msg.payloadNumBytes then returnFalse
    else do
      let members ← readFields s version (read version) s.wireFieldOrder out
      jumpTo structEnd
      pure (.struct members)

/-- The `default:` branch of an extensible union: the `[Default]` field or `Tag::kUnknown`. -/
def unionFallback (u : UnionDecl) (fresh : TypeSpec → Val) : Val :=
  match u.defaultField with
  | some f => .union f.tag (fresh f.type)
  | none => .unknown

/-- `ReadX` of a union; `fresh` default-constructs a member. -/
def readUnion (msg : Message) (u : UnionDecl) (read : TypeSpec → Reader Val)
    (fresh : TypeSpec → Val) : Reader Val := do
  let unionSize ← readScalar msg 4
  if unionSize < 4 then returnFalse
  else do
    let offset ← currentOffset
    let unionEnd := offset - 4 + unionSize
    if unionEnd > msg.payloadNumBytes then returnFalse
    else do
      let tag ← readScalar msg 4
      match u.caseFor (BitVec.ofNat 32 tag) with
      | some f => do
        let v ← read f.type
        jumpTo unionEnd
        pure (.union f.tag v)
      | none =>
        if u.isExtensible then do
          jumpTo unionEnd
          pure (unionFallback u fresh)
        else returnFalse

/-- One call of a generated `ReadX`, with at most `n` calls nested in one another. -/
def readX (graph : List Module) (msg : Message) : Nat → Module → EmbedRef → Reader Val
  | 0, _, _ => outOfFuel
  | n + 1, file, .struct r =>
    match resolveStruct graph file r with
    | some (m, s) =>
      readStruct msg s (fun version => readInto graph msg m (readX graph msg n m) (some version))
        (s.fields.map (defaultMember graph m))
    | none => returnFalse
  | n + 1, file, .union r =>
    match resolveUnion graph file r with
    | some (m, u) =>
      readUnion msg u (readInto graph msg m (readX graph msg n m) none) (defaultValue graph m)
    | none => returnFalse

/-- The reader generated in `file` for a value of `type`. -/
def readValue (graph : List Module) (msg : Message) (file : Module) (version : Option Nat)
    (type : TypeSpec) : Reader Val :=
  readInto graph msg file (readX graph msg (msg.payload.length + 1) file) version type

/-- The reading half of a `Stub_` or `Proxy_` method: `EmitTopReadParam` for each parameter.  The
handle kinds it spells out itself do the same reads in the same order as `EmitHandleReadInto`. -/
def readParams (graph : List Module) (msg : Message) (file : Module) :
    List Param → Reader (List Val)
  | [] => pure []
  | p :: ps => do
    let v ← readValue graph msg file none p.type
    let vs ← readParams graph msg file ps
    pure (v :: vs)

end Voodoo
