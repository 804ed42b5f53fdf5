import Voodoo.Wire.Typing

/-!
# The wire format, and that the writers produce it

`encodeValue` says what a value looks like on the wire as a piece of a message:
bytes, and beside them handles in the order they are taken up.  Nothing in it
depends on where in a message the value stands.  The generated writers patch
sizes into a growing payload; on a typed value they append exactly this piece
(`writeValue_eq`), as long as the payload stays below `2 ^ 32` bytes, which is
what `payload_num_bytes()` can count.

Whatever the payload's length, writing makes it longer by the length of the
encoding (`length_writeValue`).
-/

namespace Voodoo

open LittleEndian StableOrder List

/-! ### The format -/

/-- A struct: its size and version, then its fields. -/
def frameStruct (s : StructDecl) (body : Message) : Message :=
  ⟨store 4 (8 + body.payload.length) ++ (store 4 s.version ++ body.payload), body.handles⟩

/-- A union: its size and tag, then the member the tag selects. -/
def frameUnion (tag : BitVec 32) (body : Message) : Message :=
  ⟨store 4 (8 + body.payload.length) ++ (store 4 tag.toNat ++ body.payload), body.handles⟩

/-- The fields `fs` with what belongs to each, in the order the fields have on the wire. -/
def inWireOrder {β : Type} (fs : List StructField) (xs : List β) : List (StructField × β) :=
  sortBy (fun p => p.1.minVersion.toNat) (fs.zip xs)

def encodeHandle : Val → Message
  | .endpointRemote iid version => ⟨store 4 iid.toNat ++ store 4 version.toNat, []⟩
  | .endpoint iid => ⟨store 4 iid.toNat, []⟩
  | .pendingRemote pipe version => ⟨store 4 version.toNat, [pipe]⟩
  | .handle h => ⟨[], [h]⟩
  | _ => {}

/-- The length prefix of an array, which one of fixed size goes without. -/
def lengthPrefix (fixedArraySize n : Nat) : Message :=
  if fixedArraySize = 0 then ⟨store 4 n, []⟩ else {}

mutual

def encodeValue (graph : List Module) (file : Module) : TypeSpec → Val → Message
  | .scalar kind, .scalar bits => ⟨store kind.size bits, []⟩
  | .string, .string bytes => ⟨store 4 bytes.length ++ bytes, []⟩
  | .enumRef _, .enum value => ⟨store 4 value.toNat, []⟩
  | .structRef r, .struct members =>
    match resolveStruct graph file r with
    | some (m, s) =>
      frameStruct s (.concat
        ((inWireOrder s.fields (encodeMembers graph m s.fields members)).map Prod.snd))
    | none => {}
  | .unionRef r, .union tag value =>
    match resolveUnion graph file r with
    | some (m, u) =>
      match u.caseFor tag with
      | some f => frameUnion tag (encodeValue graph m f.type value)
      | none => frameUnion tag {}
    | none => {}
  | .unionRef _, .unknown => frameUnion unknownTag {}
  | .array element fixedArraySize, .array elements =>
    lengthPrefix fixedArraySize elements.length ++
      .concat (encodeElements graph file element elements)
  | .map key element, .map entries =>
    ⟨store 4 entries.length, []⟩ ++ .concat (encodeEntries graph file key element entries)
  | .handle _ _, value => encodeHandle value
  | .nullable _, .null => ⟨store 1 0, []⟩
  | .nullable type, .some value => ⟨store 1 1, []⟩ ++ encodeValue graph file type value
  | _, _ => {}

def encodeMembers (graph : List Module) (file : Module) :
    List StructField → List Val → List Message
  | f :: fs, v :: vs => encodeValue graph file f.type v :: encodeMembers graph file fs vs
  | _, _ => []

def encodeElements (graph : List Module) (file : Module) (type : TypeSpec) :
    List Val → List Message
  | [] => []
  | v :: vs => encodeValue graph file type v :: encodeElements graph file type vs

def encodeEntries (graph : List Module) (file : Module) (key element : TypeSpec) :
    List (Val × Val) → List Message
  | [] => []
  | e :: es => encodeEntry graph file key element e :: encodeEntries graph file key element es

def encodeEntry (graph : List Module) (file : Module) (key element : TypeSpec) :
    Val × Val → Message
  | (k, v) => encodeValue graph file key k ++ encodeValue graph file element v

end

theorem encodeMembers_eq (graph : List Module) (file : Module) (fs : List StructField)
    (vs : List Val) :
    encodeMembers graph file fs vs =
      List.zipWith (fun f v => encodeValue graph file f.type v) fs vs := by
  induction vs generalizing fs with
  | nil => cases fs <;> simp [encodeMembers]
  | cons v vs ih => cases fs <;> simp [encodeMembers, ih]

theorem encodeElements_eq (graph : List Module) (file : Module) (type : TypeSpec)
    (vs : List Val) :
    encodeElements graph file type vs = vs.map (encodeValue graph file type) := by
  induction vs with
  | nil => rw [encodeElements, map_nil]
  | cons v vs ih => rw [encodeElements, ih, map_cons]

theorem encodeEntries_eq (graph : List Module) (file : Module) (key element : TypeSpec)
    (es : List (Val × Val)) :
    encodeEntries graph file key element es =
      es.map (fun e => encodeValue graph file key e.1 ++ encodeValue graph file element e.2) := by
  induction es with
  | nil => rw [encodeEntries, map_nil]
  | cons e es ih =>
    obtain ⟨k, v⟩ := e
    rw [encodeEntries, ih, map_cons, encodeEntry]

theorem inWireOrder_zipWith {β γ : Type} (g : StructField → β → γ) (fs : List StructField)
    (xs : List β) :
    (inWireOrder fs (List.zipWith g fs xs)).map Prod.snd =
      (inWireOrder fs xs).map (fun p => g p.1 p.2) := by
  have hzip : fs.zip (List.zipWith g fs xs) = (fs.zip xs).map (fun p => (p.1, g p.1 p.2)) := by
    induction fs generalizing xs with
    | nil => rfl
    | cons f fs ih => cases xs <;> simp [ih]
  rw [inWireOrder, hzip, ← map_sortBy (fun p : StructField × β => (p.1, g p.1 p.2)), List.map_map,
    inWireOrder]
  rfl

section equations

variable {graph : List Module} {file m : Module} {r : TypeRef}

theorem encodeValue_struct {s : StructDecl} (hr : resolveStruct graph file r = some (m, s))
    (members : List Val) :
    encodeValue graph file (.structRef r) (.struct members) =
      frameStruct s (.concat ((inWireOrder s.fields members).map
        (fun p => encodeValue graph m p.1.type p.2))) := by
  rw [encodeValue, hr]
  simp only [encodeMembers_eq, inWireOrder_zipWith]

theorem encodeValue_union {u : UnionDecl} (hr : resolveUnion graph file r = some (m, u))
    {tag : BitVec 32} {f : UnionField} (hf : u.caseFor tag = some f) (v : Val) :
    encodeValue graph file (.unionRef r) (.union tag v) =
      frameUnion tag (encodeValue graph m f.type v) := by
  rw [encodeValue, hr]
  simp only [hf]

theorem encodeValue_array (element : TypeSpec) (fixedArraySize : Nat) (elements : List Val) :
    encodeValue graph file (.array element fixedArraySize) (.array elements) =
      lengthPrefix fixedArraySize elements.length ++
        .concat (elements.map (encodeValue graph file element)) := by
  rw [encodeValue, encodeElements_eq]

theorem encodeValue_map (key element : TypeSpec) (entries : List (Val × Val)) :
    encodeValue graph file (.map key element) (.map entries) =
      ⟨store 4 entries.length, []⟩ ++ .concat (entries.map (fun e =>
        encodeValue graph file key e.1 ++ encodeValue graph file element e.2)) := by
  rw [encodeValue, encodeEntries_eq]

end equations

/-- The encoding of the arguments of a call. -/
def encodeParams (graph : List Module) (file : Module) (params : List Param) (args : List Val) :
    Message :=
  .concat (List.zipWith (fun p v => encodeValue graph file p.type v) params args)

/-! ### What a statement sequence writes -/

/-- Run on any message, `write` appends `enc`; the bytes it patches are the right ones as long as
the payload can be counted in 32 bits, or when there are none to patch. -/
structure Writes (write : Message → Message) (enc : Message) : Prop where
  eq_append : ∀ msg, enc.payload = [] ∨ msg.payload.length + enc.payload.length < 2 ^ 32 →
    write msg = msg ++ enc
  length : ∀ msg, (write msg).payload.length = msg.payload.length + enc.payload.length

namespace Writes

theorem skip : Writes (fun msg => msg) {} :=
  ⟨fun msg _ => (Message.append_empty msg).symm, fun _ => rfl⟩

theorem payload (bytes : List UInt8) : Writes (fun msg => msg.writePayload bytes) ⟨bytes, []⟩ :=
  ⟨fun _ _ => Message.ext rfl (append_nil _).symm, fun _ => length_append⟩

theorem scalar (width n : Nat) : Writes (fun msg => msg.writeScalar width n) ⟨store width n, []⟩ :=
  payload _

theorem attach (h : Handle) : Writes (fun msg => msg.attachHandle h) ⟨[], [h]⟩ :=
  ⟨fun _ _ => Message.ext (append_nil _).symm rfl, fun _ => rfl⟩

theorem comp {f g : Message → Message} {a b : Message} (hf : Writes f a) (hg : Writes g b) :
    Writes (fun msg => g (f msg)) (a ++ b) := by
  constructor
  · intro msg h
    rw [Message.payload_append, append_eq_nil_iff, length_append] at h
    have hfa : f msg = msg ++ a := hf.eq_append msg (by
      rcases h with h | h
      · exact Or.inl h.1
      · exact Or.inr (by omega))
    have hgb : g (msg ++ a) = msg ++ a ++ b := hg.eq_append _ (by
      rcases h with h | h
      · exact Or.inl h.2
      · exact Or.inr (by rw [Message.payload_append, length_append]; omega))
    show g (f msg) = _
    rw [hfa, hgb, Message.append_assoc]
  · intro msg
    show (g (f msg)).payload.length = _
    rw [hg.length, hf.length, Message.payload_append, length_append, Nat.add_assoc]

theorem loop {fs : List (Message → Message)} {encs : List Message}
    (h : List.Forall₂ Writes fs encs) :
    Writes (fun msg => fs.foldl (fun msg write => write msg) msg) (.concat encs) := by
  induction h with
  | nil => exact skip
  | cons hf _ ih => exact hf.comp ih

end Writes

theorem length_patchUint32 {msg : Message} {pos value : Nat} (h : pos + 4 ≤ msg.payload.length) :
    (msg.patchUint32 pos value).payload.length = msg.payload.length :=
  length_patch (by rw [length_store]; exact h)

theorem payloadNumBytes_of_lt {msg : Message} (h : msg.payload.length < 2 ^ 32) :
    msg.payloadNumBytes = msg.payload.length := Nat.mod_eq_of_lt h

theorem bytesSince_eq {msg : Message} {start n : Nat} (hlen : msg.payload.length = start + n)
    (h : start + n < 2 ^ 32) : msg.bytesSince start = n := by
  rw [Message.bytesSince, payloadNumBytes_of_lt (by omega), hlen]
  omega

/-- **The struct frame**: two placeholders, the fields in wire order, two patches. -/
theorem Writes.struct {s : StructDecl} {writers : List (Message → Message)} {body : Message}
    (h : Writes (fun msg => s.wireFieldOrder.foldl (fun msg i => (writers.getD i id) msg) msg)
      body) : Writes (writeStruct s writers) (frameStruct s body) := by
  have hlen : ∀ msg : Message, (s.wireFieldOrder.foldl (fun msg i => (writers.getD i id) msg)
      (msg.writeStructHeader 0 0)).payload.length = msg.payload.length + 8 + body.payload.length := by
    intro msg
    rw [h.length]
    simp [Message.writeStructHeader, Message.writeScalar, Message.writePayload]
  constructor
  · intro msg hsize
    have hsize : msg.payload.length + (8 + body.payload.length) < 2 ^ 32 := by
      rcases hsize with hnil | hlt
      · have := congrArg List.length hnil
        simp [frameStruct] at this
      · simpa [frameStruct, Nat.add_assoc, Nat.add_comm, Nat.add_left_comm] using hlt
    have hbody := h.eq_append (msg.writeStructHeader 0 0) (Or.inr (by
      simp [Message.writeStructHeader, Message.writeScalar, Message.writePayload]
      omega))
    have hlen := hlen msg
    unfold writeStruct
    rw [hbody] at hlen
    simp only [hbody, payloadNumBytes_of_lt (show msg.payload.length < 2 ^ 32 by omega)]
    rw [bytesSince_eq (n := 8 + body.payload.length) (by rw [hlen]; omega) hsize]
    refine Message.ext ?_ ?_
    · have hfirst := patch_append msg.payload (store 4 0) (store 4 0 ++ body.payload)
        (store 4 (8 + body.payload.length)) (by simp)
      have hsecond := patch_append (msg.payload ++ store 4 (8 + body.payload.length)) (store 4 0)
        body.payload (store 4 s.version) (by simp)
      rw [length_append, length_store] at hsecond
      simp only [Message.patchStructHeader, Message.patchUint32, Message.writeStructHeader,
        Message.writeScalar, Message.writePayload, Message.payload_append, frameStruct,
        List.append_assoc] at hfirst hsecond ⊢
      rw [hfirst, hsecond]
    · simp [Message.patchStructHeader, Message.patchUint32, Message.writeStructHeader,
        Message.writeScalar, Message.writePayload, frameStruct]
  · intro msg
    have hlen := hlen msg
    have hoff : msg.payloadNumBytes ≤ msg.payload.length := Nat.mod_le _ _
    unfold writeStruct
    simp only [Message.patchStructHeader]
    rw [length_patchUint32, length_patchUint32, hlen]
    · simp [frameStruct]; omega
    · omega
    · rw [length_patchUint32] <;> omega

/-- **The union frame**: a placeholder and the tag, the member, one patch. -/
theorem Writes.union {tag : BitVec 32} {writer : Message → Message} {body : Message}
    (h : Writes writer body) : Writes (writeUnion tag writer) (frameUnion tag body) := by
  have hlen : ∀ msg : Message, (writer ((msg.writeScalar 4 0).writeScalar 4 tag.toNat)).payload.length
      = msg.payload.length + 8 + body.payload.length := by
    intro msg
    rw [h.length]
    simp [Message.writeScalar, Message.writePayload]
  constructor
  · intro msg hsize
    have hsize : msg.payload.length + (8 + body.payload.length) < 2 ^ 32 := by
      rcases hsize with hnil | hlt
      · have := congrArg List.length hnil
        simp [frameUnion] at this
      · simpa [frameUnion, Nat.add_assoc, Nat.add_comm, Nat.add_left_comm] using hlt
    have hbody := h.eq_append ((msg.writeScalar 4 0).writeScalar 4 tag.toNat) (Or.inr (by
      simp [Message.writeScalar, Message.writePayload]
      omega))
    have hlen := hlen msg
    unfold writeUnion
    rw [hbody] at hlen
    simp only [hbody, payloadNumBytes_of_lt (show msg.payload.length < 2 ^ 32 by omega)]
    rw [bytesSince_eq (n := 8 + body.payload.length) (by rw [hlen]; omega) hsize]
    refine Message.ext ?_ ?_
    · have hfirst := patch_append msg.payload (store 4 0) (store 4 tag.toNat ++ body.payload)
        (store 4 (8 + body.payload.length)) (by simp)
      simp only [Message.patchUint32, Message.writeScalar, Message.writePayload,
        Message.payload_append, frameUnion, List.append_assoc] at hfirst ⊢
      rw [hfirst]
    · simp [Message.patchUint32, Message.writeScalar, Message.writePayload, frameUnion]
  · intro msg
    have hlen := hlen msg
    have hoff : msg.payloadNumBytes ≤ msg.payload.length := Nat.mod_le _ _
    unfold writeUnion
    simp only
    rw [length_patchUint32, hlen]
    · simp [frameUnion]; omega
    · omega

theorem foldl_wireFieldOrder {s : StructDecl} {writers : List (Message → Message)}
    (hlen : s.fields.length = writers.length) (msg : Message) :
    s.wireFieldOrder.foldl (fun msg i => (writers.getD i id) msg) msg =
      ((inWireOrder s.fields writers).map Prod.snd).foldl (fun msg write => write msg) msg := by
  have hkeys : s.fields.map (fun f => f.minVersion.toNat) =
      (s.fields.zip writers).map (fun p => p.1.minVersion.toNat) := by
    conv_lhs => rw [← map_fst_zip (Nat.le_of_eq hlen), List.map_map]
    rfl
  rw [StructDecl.wireFieldOrder, hkeys, positions_eq, inWireOrder, foldl_map, foldl_map,
    ← map_fst_sortBy_zipIdx (fun p => p.1.minVersion.toNat) (s.fields.zip writers), foldl_map]
  refine foldl_ext _ _ _ (fun msg p hp => ?_)
  have hget : (s.fields.zip writers)[p.2]? = some p.1 :=
    mem_zipIdx_iff_getElem?.mp (mem_sortBy.mp hp)
  have : writers[p.2]? = some p.1.2 := (getElem?_zip_eq_some.mp hget).2
  rw [getD_eq_getElem?_getD, this]
  rfl

/-! ### The writers produce the format -/

theorem writes_handle {kind : HandleKind} {v : Val} (h : kind.Holds v) :
    Writes (writeHandlePayload kind v) (encodeHandle v) := by
  cases kind <;> cases v <;> first
    | exact absurd h id
    | exact (Writes.scalar 4 _).comp (Writes.scalar 4 _)
    | exact Writes.scalar 4 _
    | exact (Writes.attach _).comp (Writes.scalar 4 _)
    | exact Writes.attach _

theorem writes_string {bytes : List UInt8} (h : bytes.length < 2 ^ 32) :
    Writes (fun msg => msg.writeString bytes) ⟨store 4 bytes.length ++ bytes, []⟩ := by
  have hwrite : (fun msg : Message => msg.writeString bytes) =
      fun msg => (msg.writeScalar 4 bytes.length).writePayload bytes := by
    funext msg
    rw [Message.writeString, Nat.mod_eq_of_lt h]
    split
    · rename_i hnil
      simp [hnil, Message.writePayload]
    · rfl
  rw [hwrite]
  exact (Writes.scalar 4 _).comp (Writes.payload _)

/-- **The generated writers append the encoding.** -/
theorem writes_value {graph : List Module} {file : Module} {type : TypeSpec} {v : Val}
    (h : HasType graph file type v) :
    Writes (writeValue graph file type v) (encodeValue graph file type v) := by
  induction h with
  | scalar hbits => exact Writes.scalar _ _
  | string hlen => exact writes_string hlen
  | enum value => exact Writes.scalar 4 _
  | @struct file m r s members hr hlen hmem ih =>
    have hrun := funext (foldl_wireFieldOrder (s := s)
      (show s.fields.length =
          (List.zipWith (fun f v => writeValue graph m f.type v) s.fields members).length by
        rw [length_zipWith, ← hlen, Nat.min_self]))
    rw [writeValue_struct hr, encodeValue_struct hr]
    refine Writes.struct (hrun ▸ ?_)
    rw [inWireOrder_zipWith]
    refine Writes.loop (forall₂_map_left_iff.mpr (forall₂_map_right_iff.mpr ?_))
    exact forall₂_same.mpr (fun p hp => ih p (mem_sortBy.mp hp))
  | union hr hf hv ih =>
    rw [writeValue_union hr hf, encodeValue_union hr hf]
    exact Writes.union ih
  | unknown hr hext => exact Writes.union Writes.skip
  | @array file element n elements hlen hfixed helem ih =>
    have hprefix : Writes (fun msg => if n = 0 then msg.writeScalar 4 elements.length else msg)
        (lengthPrefix n elements.length) := by
      unfold lengthPrefix
      split
      · exact Writes.scalar 4 _
      · exact Writes.skip
    have hloop := Writes.loop
      (forall₂_map_left_iff.mpr (forall₂_map_right_iff.mpr (forall₂_same.mpr ih)))
    rw [encodeValue_array]
    exact (funext (writeValue_array element n elements) ▸ hprefix.comp hloop)
  | @map file key element entries hlen hkeys hkey helem ihk ihe =>
    have hloop := Writes.loop
      (forall₂_map_left_iff.mpr (forall₂_map_right_iff.mpr
        (forall₂_same.mpr (fun e he => (ihk e he).comp (ihe e he)))))
    rw [encodeValue_map]
    exact (funext (writeValue_map key element entries) ▸ (Writes.scalar 4 _).comp hloop)
  | @handle file kind interface v hv =>
    have hwrite : writeValue graph file (.handle kind interface) v = writeHandlePayload kind v := by
      funext msg
      cases v <;> rfl
    have hencode : encodeValue graph file (.handle kind interface) v = encodeHandle v := by
      cases v <;> rfl
    rw [hwrite, hencode]
    exact writes_handle hv
  | null => exact Writes.scalar 1 0
  | some hv ih => exact (Writes.scalar 1 1).comp ih

theorem writes_params {graph : List Module} {file : Module} {params : List Param} {args : List Val}
    (h : HasTypes graph file params args) :
    Writes (writeParams graph file params args) (encodeParams graph file params args) := by
  refine Writes.loop ?_
  induction h with
  | nil => exact List.Forall₂.nil
  | cons hv _ ih => exact List.Forall₂.cons (writes_value hv) ih

end Voodoo
