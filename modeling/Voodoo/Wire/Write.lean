import Voodoo.Ast
import Voodoo.Wire.Message

/-!
# The generated writers

What the code emitted by `EmitHandleWritePayload`, `EmitWriteValue`,
`EmitStructIO` and `EmitUnionIO` does to a message.  `writeValue graph file type`
is the statement sequence emitted for a value of `type` while generating `file`;
a struct or union reference calls the `WriteX` of the file that declares it, so
the recursion carries that file along.

A value whose shape does not belong to the type leaves the message as it is: the
C++ compiler lets no such call through.
-/

namespace Voodoo

open Message

/-- `EmitHandleWritePayload`. -/
def writeHandlePayload : HandleKind → Val → Message → Message
  | .pendingAssociatedRemote, .endpointRemote iid version, msg =>
    (msg.writeScalar 4 iid.toNat).writeScalar 4 version.toNat
  | .pendingAssociatedReceiver, .endpoint iid, msg => msg.writeScalar 4 iid.toNat
  | .pendingRemote, .pendingRemote pipe version, msg =>
    (msg.attachHandle pipe).writeScalar 4 version.toNat
  | .pendingReceiver, .handle h, msg => msg.attachHandle h
  | .handle, .handle h, msg => msg.attachHandle h
  | .handleMessagePipe, .handle h, msg => msg.attachHandle h
  | .handleDataPipeConsumer, .handle h, msg => msg.attachHandle h
  | .handleDataPipeProducer, .handle h, msg => msg.attachHandle h
  | .handleSharedBuffer, .handle h, msg => msg.attachHandle h
  | .handlePlatform, .handle h, msg => msg.attachHandle h
  | _, _, msg => msg

/-- The body of `WriteX` for a struct: `writers` are the statements that write each field, in
declaration order; they run in wire order. -/
def writeStruct (s : StructDecl) (writers : List (Message → Message)) (msg : Message) : Message :=
  let headerOffset := msg.payloadNumBytes
  let msg := msg.writeStructHeader 0 0
  let msg := s.wireFieldOrder.foldl (fun msg i => (writers.getD i id) msg) msg
  msg.patchStructHeader headerOffset (msg.bytesSince headerOffset) s.version

/-- The body of `WriteX` for a union: `writer` is the `case` that `tag` selects. -/
def writeUnion (tag : BitVec 32) (writer : Message → Message) (msg : Message) : Message :=
  let headerOffset := msg.payloadNumBytes
  let msg := (msg.writeScalar 4 0).writeScalar 4 tag.toNat
  let msg := writer msg
  msg.patchUint32 headerOffset (msg.bytesSince headerOffset)

/-- `Tag::kUnknown`. -/
def unknownTag : BitVec 32 := -1

theorem caseFor_unknownTag (u : UnionDecl) : u.caseFor unknownTag = none :=
  u.caseFor_of_le (by decide)

mutual

/-- `EmitWriteValue`. -/
def writeValue (graph : List Module) (file : Module) : TypeSpec → Val → Message → Message
  | .scalar kind, .scalar bits, msg => msg.writeScalar kind.size bits
  | .string, .string bytes, msg => msg.writeString bytes
  | .enumRef _, .enum value, msg => msg.writeScalar 4 value.toNat
  | .structRef r, .struct members, msg =>
    match resolveStruct graph file r with
    | some (m, s) => writeStruct s (writeMembers graph m s.fields members) msg
    | none => msg
  | .unionRef r, .union tag value, msg =>
    match resolveUnion graph file r with
    | some (m, u) =>
      match u.caseFor tag with
      | some f => writeUnion tag (writeValue graph m f.type value) msg
      | none => writeUnion tag id msg
    | none => msg
  | .unionRef _, .unknown, msg => writeUnion unknownTag id msg
  | .array element fixedArraySize, .array elements, msg =>
    let msg := if fixedArraySize = 0 then msg.writeScalar 4 elements.length else msg
    (writeElements graph file element elements).foldl (fun msg write => write msg) msg
  | .map key element, .map entries, msg =>
    (writeEntries graph file key element entries).foldl (fun msg write => write msg)
      (msg.writeScalar 4 entries.length)
  | .handle kind _, value, msg => writeHandlePayload kind value msg
  | .nullable _, .null, msg => msg.writeScalar 1 0
  | .nullable type, .some value, msg => writeValue graph file type value (msg.writeScalar 1 1)
  | _, _, msg => msg

/-- The statements that write each field of a struct, in declaration order. -/
def writeMembers (graph : List Module) (file : Module) :
    List StructField → List Val → List (Message → Message)
  | f :: fs, v :: vs => writeValue graph file f.type v :: writeMembers graph file fs vs
  | _, _ => []

/-- The rounds of the loop over an array. -/
def writeElements (graph : List Module) (file : Module) (type : TypeSpec) :
    List Val → List (Message → Message)
  | [] => []
  | v :: vs => writeValue graph file type v :: writeElements graph file type vs

/-- The rounds of the loop over a map. -/
def writeEntries (graph : List Module) (file : Module) (key element : TypeSpec) :
    List (Val × Val) → List (Message → Message)
  | [] => []
  | e :: es => writeEntry graph file key element e :: writeEntries graph file key element es

def writeEntry (graph : List Module) (file : Module) (key element : TypeSpec) :
    Val × Val → Message → Message
  | (k, v), msg => writeValue graph file element v (writeValue graph file key k msg)

end

/-- The writing half of a `Proxy_` method: the parameters in declaration order. -/
def writeParams (graph : List Module) (file : Module) (params : List Param) (args : List Val)
    (msg : Message) : Message :=
  (List.zipWith (fun p v => writeValue graph file p.type v) params args).foldl
    (fun msg write => write msg) msg

/-! ### The loops as maps -/

theorem writeMembers_eq (graph : List Module) (file : Module) (fs : List StructField)
    (vs : List Val) :
    writeMembers graph file fs vs =
      List.zipWith (fun f v => writeValue graph file f.type v) fs vs := by
  induction vs generalizing fs with
  | nil => cases fs <;> simp [writeMembers]
  | cons v vs ih => cases fs <;> simp [writeMembers, ih]

theorem writeElements_eq (graph : List Module) (file : Module) (type : TypeSpec)
    (vs : List Val) :
    writeElements graph file type vs = vs.map (writeValue graph file type) := by
  induction vs with
  | nil => rw [writeElements, List.map_nil]
  | cons v vs ih => rw [writeElements, ih, List.map_cons]

theorem writeEntries_eq (graph : List Module) (file : Module) (key element : TypeSpec)
    (es : List (Val × Val)) :
    writeEntries graph file key element es = es.map (fun e msg =>
      writeValue graph file element e.2 (writeValue graph file key e.1 msg)) := by
  induction es with
  | nil => rw [writeEntries, List.map_nil]
  | cons e es ih =>
    rw [writeEntries, ih, List.map_cons]
    congr 1
    funext msg
    obtain ⟨k, v⟩ := e
    rw [writeEntry]

variable {graph : List Module} {file m : Module} {r : TypeRef}

theorem writeValue_struct {s : StructDecl} (hr : resolveStruct graph file r = some (m, s))
    (members : List Val) :
    writeValue graph file (.structRef r) (.struct members) =
      writeStruct s (List.zipWith (fun f v => writeValue graph m f.type v) s.fields members) := by
  funext msg
  rw [writeValue, hr]
  simp only [writeMembers_eq]

theorem writeValue_union {u : UnionDecl} (hr : resolveUnion graph file r = some (m, u))
    {tag : BitVec 32} {f : UnionField} (hf : u.caseFor tag = some f) (v : Val) :
    writeValue graph file (.unionRef r) (.union tag v) =
      writeUnion tag (writeValue graph m f.type v) := by
  funext msg
  rw [writeValue, hr]
  simp only [hf]

theorem writeValue_array (element : TypeSpec) (fixedArraySize : Nat) (elements : List Val)
    (msg : Message) :
    writeValue graph file (.array element fixedArraySize) (.array elements) msg =
      (elements.map (writeValue graph file element)).foldl (fun msg write => write msg)
        (if fixedArraySize = 0 then msg.writeScalar 4 elements.length else msg) := by
  rw [writeValue, writeElements_eq]

theorem writeValue_map (key element : TypeSpec) (entries : List (Val × Val)) (msg : Message) :
    writeValue graph file (.map key element) (.map entries) msg =
      (entries.map (fun e msg =>
        writeValue graph file element e.2 (writeValue graph file key e.1 msg))).foldl
          (fun msg write => write msg) (msg.writeScalar 4 entries.length) := by
  rw [writeValue, writeEntries_eq]

end Voodoo
