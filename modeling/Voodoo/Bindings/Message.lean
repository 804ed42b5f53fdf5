import Voodoo.Lib.Packed

/-!
# The message of the bindings and its wire bytes

`mojo::Message` keeps its wire representation in one byte vector, a 48-byte version 2 header
followed by the payload, and the handles beside it:

    0 num_bytes   4 version   8 interface_id   12 name   16 flags
    20 trace_nonce   24 request_id   32 payload   40 payload_interface_ids

`WrapWireBytes` takes the bytes a pipe delivered, under a header of version 0, 1 or 2, and rebuilds
them as a version 2 message.  It works with pointers, so a `Buffer w` is a byte string at an address
of `w` bits, which it does not run past.

A message that was built here comes back with everything that was put into it, and rebuilding twice
is rebuilding once, both up to the size a `uint32_t` can count.
-/

namespace Voodoo.Bindings

open LittleEndian List

/-! ### The message -/

/-- `mojo::Message`; a null message is one with an empty buffer. -/
structure Message (H : Type) where
  buffer : List UInt8 := []
  handles : List H := []

/-- A byte vector in an address space of `w` bits.  One past its end is still
an address. -/
structure Buffer (w : Nat) where
  base : Nat
  bytes : List UInt8
  fits : base + bytes.length < 2 ^ w

variable {H : Type} {w : Nat}

/-- `sizeof(MessageHeaderV2)`. -/
def headerSize : Nat := 48

/-- `kV2PayloadOffset`: from the `payload` field to the end of the header. -/
def kV2PayloadOffset : Nat := 16

namespace Message

def isNull (m : Message H) : Bool := m.buffer.isEmpty

def version (m : Message H) : Nat := field m.buffer 4 4
def interfaceId (m : Message H) : Nat := field m.buffer 8 4
def name (m : Message H) : Nat := field m.buffer 12 4
def flags (m : Message H) : Nat := field m.buffer 16 4
def requestId (m : Message H) : Nat := field m.buffer 24 8

/-- `data_num_bytes()`, which returns a `uint32_t`. -/
def dataNumBytes (m : Message H) : Nat := m.buffer.length % 2 ^ 32

/-- The bytes `data()`, `data_num_bytes()` hand to the pipe. -/
def dataBytes (m : Message H) : List UInt8 := m.buffer.take m.dataNumBytes

/-- The constructor. -/
def new (name flags interfaceId : UInt32) : Message H :=
  let buffer := List.replicate headerSize 0
  let buffer := patch buffer 0 (store 4 headerSize)
  let buffer := patch buffer 4 (store 4 2)
  let buffer := patch buffer 8 (store 4 interfaceId.toNat)
  let buffer := patch buffer 12 (store 4 name.toNat)
  let buffer := patch buffer 16 (store 4 flags.toNat)
  let buffer := patch buffer 20 (store 4 0)
  let buffer := patch buffer 24 (store 8 0)
  let buffer := patch buffer 32 (store 8 kV2PayloadOffset)
  { buffer := patch buffer 40 (store 8 0) }

def setRequestId (m : Message H) (id : UInt64) : Message H :=
  { m with buffer := patch m.buffer 24 (store 8 id.toNat) }

def writePayload (m : Message H) (bytes : List UInt8) : Message H :=
  let buffer := m.buffer ++ bytes
  { m with buffer := patch buffer 0 (store 4 (buffer.length % 2 ^ 32)) }

def attachHandle (m : Message H) (handle : H) : Message H :=
  { m with handles := m.handles ++ [handle] }

end Message

namespace Buffer

/-- `payload()` of a message whose buffer this is. -/
def payload (b : Buffer w) : Nat :=
  if b.bytes = [] then 0
  else if field b.bytes 4 4 < 2 then b.base + 32
  else if field b.bytes 32 8 = 0 then b.base + headerSize
  else (b.base + 32 + field b.bytes 32 8) % 2 ^ w

/-- `payload_num_bytes()`: a pointer difference, cut down to 32 bits. -/
def payloadNumBytes (b : Buffer w) : Nat :=
  if b.bytes = [] then 0
  else (2 ^ w + (b.base + b.bytes.length) - b.payload) % 2 ^ w % 2 ^ 32

/-- The bytes a stub reads from such a message. -/
def payloadBytes (b : Buffer w) : List UInt8 :=
  slice b.bytes (b.payload - b.base) b.payloadNumBytes

end Buffer

/-! ### Building a message -/

/-- What a caller does to a message it has constructed. -/
inductive Op (H : Type) where
  | writePayload (bytes : List UInt8)
  | attachHandle (handle : H)

def Message.apply (m : Message H) : Op H → Message H
  | .writePayload bytes => m.writePayload bytes
  | .attachHandle handle => m.attachHandle handle

/-- A message built by the constructor, given a request id, and filled. -/
def Message.build (name flags interfaceId : UInt32) (requestId : UInt64) (ops : List (Op H)) :
    Message H :=
  ops.foldl Message.apply ((Message.new name flags interfaceId).setRequestId requestId)

/-- The payload bytes written, in order. -/
def written : List (Op H) → List UInt8
  | [] => []
  | .writePayload bytes :: ops => bytes ++ written ops
  | .attachHandle _ :: ops => written ops

/-- The handles attached, in order. -/
def attached : List (Op H) → List H
  | [] => []
  | .writePayload _ :: ops => attached ops
  | .attachHandle handle :: ops => handle :: attached ops

/-! ### Wrapping wire bytes -/

def headerSizeForVersion (version : Nat) : Nat :=
  if version = 0 then 24
  else if version = 1 then 32
  else headerSize

/-- The size of the header the bytes start with, unless they are too short for
it or its version is unknown. -/
def incomingHeader (bytes : List UInt8) : Option Nat :=
  if bytes.length < 24 then none
  else if 2 < field bytes 4 4 then none
  else if bytes.length < headerSizeForVersion (field bytes 4 4) then none
  else some (headerSizeForVersion (field bytes 4 4))

/-- The relative pointer the code follows, if any: the address of the `payload`
field and the offset in it. -/
def payloadPointer (b : Buffer w) : Option (Nat × Nat) :=
  if 2 ≤ field b.bytes 4 4 ∧ field b.bytes 32 8 ≠ 0 then
    some (b.base + 32, field b.bytes 32 8)
  else none

/-- `incoming_payload` and `incoming_payload_size`. -/
def incomingPayload (b : Buffer w) : Option (Nat × Nat) :=
  (incomingHeader b.bytes).bind fun header =>
    match payloadPointer b with
    | none => some (b.base + header, (b.bytes.length - header) % 2 ^ 32)
    | some (slot, offset) =>
      let payload := (slot + offset) % 2 ^ w
      if payload < b.base ∨ b.base + b.bytes.length < payload then none
      else some (payload, (b.base + b.bytes.length - payload) % 2 ^ 32)

/-- The version 2 header made from the one `bytes` start with. -/
def normalisedHeader (bytes : List UInt8) : List UInt8 :=
  let buffer := List.replicate headerSize 0
  let buffer := patch buffer 0 (bytes.take 24)
  let buffer := patch buffer 4 (store 4 2)
  let buffer := patch buffer 24 (store 8 (if 1 ≤ field bytes 4 4 then field bytes 24 8 else 0))
  let buffer := patch buffer 32 (store 8 kV2PayloadOffset)
  patch buffer 40 (store 8 0)

/-- The buffer `WrapWireBytes` fills.  `slack` is the spare capacity the vector
has after `resize`.  When the payload does not fit in it, `insert` moves the
vector and the last store, through a pointer taken before, goes to the storage
it left: the buffer keeps the `num_bytes` it was given. -/
def normalised (slack : Nat) (bytes payload : List UInt8) : List UInt8 :=
  let buffer := normalisedHeader bytes ++ payload
  if slack < payload.length then buffer
  else patch buffer 0 (store 4 (buffer.length % 2 ^ 32))

/-- `WrapWireBytes`; the null message stands for a refusal. -/
def wrapWireBytes (slack : Nat) (b : Buffer w) (handles : List H) : Message H :=
  match incomingPayload b with
  | none => {}
  | some (payload, size) =>
    { buffer := normalised slack b.bytes (slice b.bytes (payload - b.base) size)
      handles := handles }

/-! ### What a message carries -/

/-- What a caller puts into a message and expects to get out of it. -/
structure Contents (H : Type) where
  name : Nat
  flags : Nat
  interfaceId : Nat
  requestId : Nat
  payload : List UInt8
  handles : List H

/-- The message carries `c`, laid out the way this code lays messages out. -/
structure Message.Carries (m : Message H) (c : Contents H) : Prop where
  size : headerSize ≤ m.buffer.length
  version : m.version = 2
  interfaceId : m.interfaceId = c.interfaceId
  name : m.name = c.name
  flags : m.flags = c.flags
  requestId : m.requestId = c.requestId
  offset : field m.buffer 32 8 = kV2PayloadOffset
  payload : m.buffer.drop headerSize = c.payload
  handles : m.handles = c.handles

namespace Message.Carries

variable {m : Message H} {c : Contents H}

theorem length (h : m.Carries c) : m.buffer.length = headerSize + c.payload.length := by
  have hsize := h.size
  rw [← h.payload, length_drop]
  omega

theorem patch_numBytes (h : m.Carries c) (n : Nat) :
    Message.Carries { m with buffer := patch m.buffer 0 (store 4 n) } c := by
  have hsize := h.size
  have hlen : (store 4 n).length = 4 := length_store 4 n
  unfold headerSize at hsize
  have hfield (pos k : Nat) (hpos : 4 ≤ pos) :
      field (patch m.buffer 0 (store 4 n)) pos k = field m.buffer pos k :=
    field_patch_of_ge _ (Nat.zero_le _) (by omega)
  constructor
  · rw [length_patch (by omega)]
    exact h.size
  · exact (hfield 4 4 (by omega)).trans h.version
  · exact (hfield 8 4 (by omega)).trans h.interfaceId
  · exact (hfield 12 4 (by omega)).trans h.name
  · exact (hfield 16 4 (by omega)).trans h.flags
  · exact (hfield 24 8 (by omega)).trans h.requestId
  · exact (hfield 32 8 (by omega)).trans h.offset
  · exact (drop_patch _ (Nat.zero_le _) (by rw [hlen]; decide)).trans h.payload
  · exact h.handles

theorem append (h : m.Carries c) (bytes : List UInt8) :
    Message.Carries { m with buffer := m.buffer ++ bytes }
      { c with payload := c.payload ++ bytes } := by
  have hsize := h.size
  unfold headerSize at hsize
  have hfield (pos k : Nat) (hpos : pos + k ≤ 48) :
      field (m.buffer ++ bytes) pos k = field m.buffer pos k := by
    rw [field, field, slice_append_left bytes (by omega)]
  constructor
  · rw [length_append]
    exact le_trans h.size (Nat.le_add_right _ _)
  · exact (hfield 4 4 (by omega)).trans h.version
  · exact (hfield 8 4 (by omega)).trans h.interfaceId
  · exact (hfield 12 4 (by omega)).trans h.name
  · exact (hfield 16 4 (by omega)).trans h.flags
  · exact (hfield 24 8 (by omega)).trans h.requestId
  · exact (hfield 32 8 (by omega)).trans h.offset
  · rw [drop_append_of_le_length h.size, h.payload]
  · exact h.handles

end Message.Carries

/-- What an operation adds. -/
def Contents.apply (c : Contents H) : Op H → Contents H
  | .writePayload bytes => { c with payload := c.payload ++ bytes }
  | .attachHandle handle => { c with handles := c.handles ++ [handle] }

theorem Message.Carries.apply {m : Message H} {c : Contents H} (h : m.Carries c) (op : Op H) :
    (m.apply op).Carries (c.apply op) := by
  cases op with
  | writePayload bytes => exact (h.append bytes).patch_numBytes _
  | attachHandle handle =>
    exact { h with handles := by rw [Contents.apply, ← h.handles]; rfl }

theorem Message.Carries.foldl {m : Message H} {c : Contents H} (h : m.Carries c)
    (ops : List (Op H)) :
    (ops.foldl Message.apply m).Carries
      { c with payload := c.payload ++ written ops, handles := c.handles ++ attached ops } := by
  induction ops generalizing m c with
  | nil => simpa [written, attached] using h
  | cons op ops ih =>
    have hrest := ih (h.apply op)
    cases op with
    | writePayload bytes => simpa [Contents.apply, written, attached] using hrest
    | attachHandle handle => simpa [Contents.apply, written, attached] using hrest

theorem carries_new (name flags interfaceId : UInt32) (requestId : UInt64) :
    ((Message.new name flags interfaceId : Message H).setRequestId requestId).Carries
      { name := name.toNat, flags := flags.toNat, interfaceId := interfaceId.toNat
        requestId := requestId.toNat, payload := [], handles := [] } := by
  have hname := name.toNat_lt
  have hflags := flags.toNat_lt
  have hinterfaceId := interfaceId.toNat_lt
  have hrequestId := requestId.toNat_lt
  constructor
  case size =>
    rw [Message.setRequestId, Message.new]
    repeat apply le_length_patch
    simp
  all_goals
    simp (disch := (repeat apply le_length_patch) <;> try simp) [Message.new,
      Message.setRequestId, Message.version, Message.interfaceId, Message.name, Message.flags,
      Message.requestId, headerSize, kV2PayloadOffset, field_patch_store, field_patch_of_le,
      field_patch_of_ge, drop_patch, -List.reduceReplicate, -length_patch]

/-! ### What wrapping makes of a header -/

theorem length_normalisedHeader {bytes : List UInt8} (hlen : 24 ≤ bytes.length) :
    (normalisedHeader bytes).length = headerSize := by
  have hcopy : (bytes.take 24).length = 24 := length_take_of_le hlen
  rw [normalisedHeader]
  refine length_patch_of_eq (length_patch_of_eq (length_patch_of_eq (length_patch_of_eq
    (length_patch_of_eq length_replicate ?_) ?_) ?_) ?_) ?_
  all_goals simp [hcopy, headerSize]

/-- **The fields of a wrapped message's header.**  The common part is copied,
the request id is the incoming one where there is one, and the rest is what
this code always writes. -/
theorem field_normalisedHeader {bytes : List UInt8} (hlen : 24 ≤ bytes.length) :
    field (normalisedHeader bytes) 0 4 = field bytes 0 4 ∧
      field (normalisedHeader bytes) 4 4 = 2 ∧
      (∀ pos, 8 ≤ pos → pos + 4 ≤ 24 →
        field (normalisedHeader bytes) pos 4 = field bytes pos 4) ∧
      field (normalisedHeader bytes) 24 8 =
        (if 1 ≤ field bytes 4 4 then field bytes 24 8 else 0) ∧
      field (normalisedHeader bytes) 32 8 = kV2PayloadOffset ∧
      field (normalisedHeader bytes) 40 8 = 0 := by
  have hcopy : (bytes.take 24).length = 24 := length_take_of_le hlen
  have hrequest : (if 1 ≤ field bytes 4 4 then field bytes 24 8 else 0) < 2 ^ 64 := by
    have hlt := field_lt bytes 24 8
    split <;> omega
  have hcommon (pos : Nat) (hpos : pos + 4 ≤ 24) :
      field (patch (List.replicate headerSize 0) 0 (bytes.take 24)) pos 4 = field bytes pos 4 := by
    rw [field_patch_inside (Nat.zero_le _) (Nat.zero_le _) (by omega), Nat.sub_zero]
    conv_rhs => rw [← take_append_drop 24 bytes]
    rw [field, field, slice_append_left _ (by omega)]
  -- the stores lie side by side: each field is read back from the one that wrote it
  refine ⟨?_, ?_, fun pos h₁ h₂ => ?_, ?_, ?_, ?_⟩ <;>
    simp (disch := (repeat apply le_length_patch) <;> try simp [headerSize, *] <;> omega)
      [normalisedHeader, kV2PayloadOffset, field_patch_store, field_patch_of_le,
        field_patch_of_ge, hcommon, -List.reduceReplicate, -length_patch]
  exact lt_of_lt_of_eq hrequest (by norm_num)

theorem field_normalised {bytes : List UInt8} (hlen : 24 ≤ bytes.length) (slack : Nat)
    (payload : List UInt8) :
    headerSize ≤ (normalised slack bytes payload).length ∧
      (normalised slack bytes payload).drop headerSize = payload ∧
      field (normalised slack bytes payload) 0 4 =
        (if slack < payload.length then field bytes 0 4
        else (headerSize + payload.length) % 2 ^ 32) ∧
      ∀ pos k, 4 ≤ pos → pos + k ≤ headerSize →
        field (normalised slack bytes payload) pos k = field (normalisedHeader bytes) pos k := by
  have hheader := length_normalisedHeader hlen
  have hlength : (normalisedHeader bytes ++ payload).length = headerSize + payload.length := by
    rw [length_append, hheader]
  have hfield (pos k : Nat) (hpos : pos + k ≤ headerSize) :
      field (normalisedHeader bytes ++ payload) pos k = field (normalisedHeader bytes) pos k := by
    rw [field, field, slice_append_left _ (by omega)]
  have hdrop : (normalisedHeader bytes ++ payload).drop headerSize = payload := by
    rw [← hheader, drop_left]
  rw [normalised]
  split
  case isTrue =>
    refine ⟨by omega, hdrop, ?_, fun pos k _ h => hfield pos k h⟩
    rw [hfield 0 4 (by decide), (field_normalisedHeader hlen).1]
  case isFalse =>
    have hstore : (store 4 ((normalisedHeader bytes ++ payload).length % 2 ^ 32)).length = 4 :=
      length_store 4 _
    refine ⟨le_length_patch _ _ (by omega), ?_, ?_, fun pos k h₁ h₂ => ?_⟩
    · rw [drop_patch _ (Nat.zero_le _) (by rw [hstore]; decide), hdrop]
    · rw [field_patch_store _ (Nat.zero_le _), hlength]
      omega
    · rw [field_patch_of_ge _ (Nat.zero_le _) (by omega), hfield pos k h₂]

theorem eq_of_fields {as bs : List UInt8} (ha : headerSize ≤ as.length)
    (hb : headerSize ≤ bs.length) (h0 : field as 0 4 = field bs 0 4)
    (h4 : field as 4 4 = field bs 4 4)
    (hcommon : ∀ pos, 8 ≤ pos → pos + 4 ≤ 24 → field as pos 4 = field bs pos 4)
    (h24 : field as 24 8 = field bs 24 8) (h32 : field as 32 8 = field bs 32 8)
    (h40 : field as 40 8 = field bs 40 8) (hdrop : as.drop headerSize = bs.drop headerSize) :
    as = bs := by
  unfold headerSize at ha hb hdrop
  have hslice {pos w : Nat} (hpos : pos + w ≤ 48) (h : field as pos w = field bs pos w) :
      slice as pos w = slice bs pos w := slice_eq_of_field_eq (by omega) (by omega) h
  have hsplit (xs : List UInt8) : slice xs 0 4 ++ slice xs 4 4 ++ slice xs 8 4 ++ slice xs 12 4 ++
      slice xs 16 4 ++ slice xs 20 4 ++ slice xs 24 8 ++ slice xs 32 8 ++ slice xs 40 8 ++
      xs.drop 48 = xs := by
    have h := slice_append_slice xs
    rw [h 0 4 4, h 0 8 4, h 0 12 4, h 0 16 4, h 0 20 4, h 0 24 8, h 0 32 8, h 0 40 8, slice,
      drop_zero, take_append_drop]
  rw [← hsplit as, ← hsplit bs, hslice (by omega) h0, hslice (by omega) h4,
    hslice (by omega) (hcommon 8 (by omega) (by omega)),
    hslice (by omega) (hcommon 12 (by omega) (by omega)),
    hslice (by omega) (hcommon 16 (by omega) (by omega)),
    hslice (by omega) (hcommon 20 (by omega) (by omega)),
    hslice (by omega) h24, hslice (by omega) h32, hslice (by omega) h40, hdrop]

/-- **Normalising is idempotent.** -/
theorem normalised_normalised {bytes : List UInt8} (hlen : 24 ≤ bytes.length) (slack : Nat)
    (payload : List UInt8) :
    normalised slack (normalised slack bytes payload) payload =
      normalised slack bytes payload := by
  obtain ⟨hsize, hdrop, h0, hrest⟩ := field_normalised hlen slack payload
  have hsize' : 24 ≤ (normalised slack bytes payload).length := le_trans (by decide) hsize
  obtain ⟨hsize₂, hdrop₂, h0₂, hrest₂⟩ := field_normalised hsize' slack payload
  obtain ⟨_, h4, hcommon, h24, h32, h40⟩ := field_normalisedHeader hlen
  obtain ⟨_, h4₂, hcommon₂, h24₂, h32₂, h40₂⟩ := field_normalisedHeader hsize'
  refine eq_of_fields hsize₂ hsize ?_ ?_ (fun pos h₁ h₂ => ?_) ?_ ?_ ?_ (by rw [hdrop, hdrop₂])
  · rw [h0₂, h0]
    split
    · rfl
    · rfl
  · rw [hrest₂ 4 4 (by decide) (by decide), hrest 4 4 (by decide) (by decide), h4, h4₂]
  · rw [hrest₂ pos 4 (by omega) (by unfold headerSize; omega), hcommon₂ pos h₁ h₂]
  · rw [hrest₂ 24 8 (by decide) (by decide), h24₂, hrest 4 4 (by decide) (by decide), h4,
      if_pos (by decide)]
  · rw [hrest₂ 32 8 (by decide) (by decide), hrest 32 8 (by decide) (by decide), h32, h32₂]
  · rw [hrest₂ 40 8 (by decide) (by decide), hrest 40 8 (by decide) (by decide), h40, h40₂]

/-! ### Wrapping what this code lays out -/

theorem incomingHeader_eq_some {bytes : List UInt8} {header : Nat}
    (h : incomingHeader bytes = some header) :
    24 ≤ bytes.length ∧ field bytes 4 4 ≤ 2 ∧ header = headerSizeForVersion (field bytes 4 4) ∧
      header ≤ bytes.length := by
  unfold incomingHeader at h
  split at h
  case isTrue => cases h
  case isFalse hshort =>
    split at h
    case isTrue => cases h
    case isFalse hversion =>
      split at h
      case isTrue => cases h
      case isFalse hheader =>
        cases h
        exact ⟨by omega, by omega, rfl, by omega⟩

theorem wrapWireBytes_of_none {b : Buffer w} (slack : Nat) (handles : List H)
    (h : incomingPayload b = none) : wrapWireBytes slack b handles = {} := by
  rw [wrapWireBytes, h]

theorem wrapWireBytes_of_some {b : Buffer w} {payload size : Nat} (slack : Nat)
    (handles : List H) (h : incomingPayload b = some (payload, size)) :
    wrapWireBytes slack b handles =
      { buffer := normalised slack b.bytes (slice b.bytes (payload - b.base) size)
        handles := handles } := by
  rw [wrapWireBytes, h]

/-- The layout this code gives every message it makes. -/
def Laid (bytes : List UInt8) : Prop :=
  headerSize ≤ bytes.length ∧ field bytes 4 4 = 2 ∧ field bytes 32 8 = kV2PayloadOffset

theorem Message.Carries.laid {m : Message H} {c : Contents H} (h : m.Carries c) : Laid m.buffer :=
  ⟨h.size, h.version, h.offset⟩

theorem laid_normalised {bytes : List UInt8} (hlen : 24 ≤ bytes.length) (slack : Nat)
    (payload : List UInt8) : Laid (normalised slack bytes payload) := by
  obtain ⟨hsize, _, _, hrest⟩ := field_normalised hlen slack payload
  obtain ⟨_, h4, _, _, h32, _⟩ := field_normalisedHeader hlen
  exact ⟨hsize, (hrest 4 4 (by decide) (by decide)).trans h4,
    (hrest 32 8 (by decide) (by decide)).trans h32⟩

theorem ne_nil_of_laid {bytes : List UInt8} (h : Laid bytes) : bytes ≠ [] := by
  intro hnil
  have hsize := h.1
  rw [hnil] at hsize
  exact absurd hsize (by decide)

theorem incomingPayload_of_laid {b : Buffer w} (h : Laid b.bytes) :
    incomingPayload b =
      some (b.base + headerSize, (b.bytes.length - headerSize) % 2 ^ 32) := by
  obtain ⟨hsize, hversion, hoffset⟩ := h
  have hfits := b.fits
  have hheader : incomingHeader b.bytes = some headerSize := by
    unfold headerSize at hsize
    rw [incomingHeader, if_neg (by omega), if_neg (by omega), hversion]
    exact if_neg (by rw [show headerSizeForVersion 2 = 48 from rfl]; omega)
  have hpointer : payloadPointer b = some (b.base + 32, 16) := by
    rw [payloadPointer, if_pos ⟨by omega, by rw [hoffset]; decide⟩, hoffset]
    rfl
  have hmod : (b.base + 32 + 16) % 2 ^ w = b.base + headerSize :=
    Nat.mod_eq_of_lt (by unfold headerSize at hsize; omega)
  rw [incomingPayload, hheader, Option.bind_some, hpointer]
  dsimp only
  rw [hmod, if_neg (by omega), show b.base + b.bytes.length - (b.base + headerSize) =
    b.bytes.length - headerSize by omega]

theorem wrapWireBytes_of_laid {b : Buffer w} (h : Laid b.bytes) (hlt : b.bytes.length < 2 ^ 32)
    (slack : Nat) (handles : List H) :
    wrapWireBytes slack b handles =
      { buffer := normalised slack b.bytes (b.bytes.drop headerSize), handles := handles } := by
  have hwrap := wrapWireBytes_of_some slack handles (incomingPayload_of_laid h)
  rwa [Nat.add_sub_cancel_left, Nat.mod_eq_of_lt (by omega), slice_to_end _ le_rfl] at hwrap

theorem payloadBytes_of_laid {b : Buffer w} (h : Laid b.bytes)
    (hlt : b.bytes.length - headerSize < 2 ^ 32) : b.payloadBytes = b.bytes.drop headerSize := by
  have ⟨hsize, hversion, hoffset⟩ := h
  have hfits := b.fits
  have hne := ne_nil_of_laid h
  have hpayload : b.payload = b.base + headerSize := by
    rw [Buffer.payload, if_neg hne, hversion, if_neg (by decide), hoffset,
      if_neg (show kV2PayloadOffset ≠ 0 by decide)]
    exact Nat.mod_eq_of_lt (by unfold headerSize at hsize; unfold kV2PayloadOffset; omega)
  have hsub : 2 ^ w + (b.base + b.bytes.length) - (b.base + headerSize) =
      2 ^ w + (b.bytes.length - headerSize) := by omega
  have hnum : b.payloadNumBytes = b.bytes.length - headerSize := by
    rw [Buffer.payloadNumBytes, if_neg hne, hpayload, hsub, Nat.add_mod_left,
      Nat.mod_eq_of_lt (show b.bytes.length - headerSize < 2 ^ w by omega), Nat.mod_eq_of_lt hlt]
  rw [Buffer.payloadBytes, hnum, hpayload, Nat.add_sub_cancel_left, slice_to_end _ le_rfl]

/-- What a receiver finds in a message: it is not null, its accessors give what
was put in, wherever its buffer stands. -/
def Restores (w : Nat) (m : Message H) (c : Contents H) : Prop :=
  m.isNull = false ∧ m.name = c.name ∧ m.flags = c.flags ∧ m.interfaceId = c.interfaceId ∧
    m.requestId = c.requestId ∧ m.handles = c.handles ∧
    ∀ b : Buffer w, b.bytes = m.buffer → b.payloadBytes = c.payload

/-- A message that carries `c`, wrapped from its own bytes, restores `c`. -/
theorem restores_wrapWireBytes {m : Message H} {c : Contents H} (h : m.Carries c) (slack : Nat)
    (b : Buffer w) (hb : b.bytes = m.buffer) (hlt : m.buffer.length < 2 ^ 32) :
    Restores w (wrapWireBytes slack b m.handles) c := by
  have hlaid : Laid b.bytes := hb ▸ h.laid
  have hpayload : b.bytes.drop headerSize = c.payload := hb ▸ h.payload
  have hlen : b.bytes.length < 2 ^ 32 := hb ▸ hlt
  have h24 : 24 ≤ b.bytes.length := le_trans (by decide) hlaid.1
  have hwrap := wrapWireBytes_of_laid hlaid hlen slack m.handles
  rw [hpayload] at hwrap
  obtain ⟨hsize', hdrop, _, hrest⟩ := field_normalised h24 slack c.payload
  obtain ⟨_, _, hcommon, hid, _, _⟩ := field_normalisedHeader h24
  rw [hwrap]
  refine ⟨?_, ?_, ?_, ?_, ?_, h.handles, fun b' hb' => ?_⟩
  · cases hnil : normalised slack b.bytes c.payload with
    | nil => rw [hnil] at hsize'; exact absurd hsize' (by decide)
    | cons _ _ => rfl
  · exact (hrest 12 4 (by decide) (by decide)).trans
      ((hcommon 12 (by decide) (by decide)).trans (hb ▸ h.name))
  · exact (hrest 16 4 (by decide) (by decide)).trans
      ((hcommon 16 (by decide) (by decide)).trans (hb ▸ h.flags))
  · exact (hrest 8 4 (by decide) (by decide)).trans
      ((hcommon 8 (by decide) (by decide)).trans (hb ▸ h.interfaceId))
  · refine (hrest 24 8 (by decide) (by decide)).trans (hid.trans ?_)
    rw [hlaid.2.1, if_pos (by decide)]
    exact hb ▸ h.requestId
  · dsimp only at hb'
    have hlength : (normalised slack b.bytes c.payload).length - headerSize = c.payload.length := by
      rw [← length_drop, hdrop]
    have hpayloadLength : c.payload.length < 2 ^ 32 := by
      rw [← hpayload, length_drop]
      omega
    rw [← hdrop, ← hb']
    refine payloadBytes_of_laid (hb' ▸ laid_normalised h24 slack c.payload) ?_
    rw [hb', hlength]
    exact hpayloadLength

/-! ### Messages too long for their size field -/

theorem length_normalised_drop {bytes : List UInt8} (h : Laid bytes) (slack : Nat) :
    (normalised slack bytes (bytes.drop headerSize)).length = bytes.length := by
  have h24 : 24 ≤ bytes.length := le_trans (by decide) h.1
  obtain ⟨hsize, hdrop, _, _⟩ := field_normalised h24 slack (bytes.drop headerSize)
  have hdropLength := congrArg List.length hdrop
  rw [length_drop, length_drop] at hdropLength
  have hlong := h.1
  omega

theorem length_of_incomingPayload {b : Buffer w} {range : Nat × Nat}
    (h : incomingPayload b = some range) : 24 ≤ b.bytes.length := by
  unfold incomingPayload at h
  obtain ⟨header, hheader, _⟩ := Option.bind_eq_some_iff.mp h
  exact (incomingHeader_eq_some hheader).1

theorem dataBytes_of_lt {m : Message H} (h : m.buffer.length < 2 ^ 32) :
    m.dataBytes = m.buffer := by
  rw [Message.dataBytes, Message.dataNumBytes, Nat.mod_eq_of_lt h, take_length]

theorem length_dataBytes (m : Message H) : m.dataBytes.length = m.buffer.length % 2 ^ 32 := by
  rw [Message.dataBytes, Message.dataNumBytes, length_take,
    min_eq_left (Nat.mod_le _ _)]

/-- Wrapping what a laid out message hands to the pipe: the size in
`data_num_bytes()` has cut the header, or the header is whole and what follows
it is the payload. -/
theorem wrapWireBytes_dataBytes {m : Message H} (h : Laid m.buffer) (slack : Nat) (b : Buffer w)
    (handles : List H) (hb : b.bytes = m.dataBytes) :
    (wrapWireBytes slack b handles).isNull = true ∨
      Laid b.bytes ∧ wrapWireBytes slack b handles =
        { buffer := normalised slack b.bytes (b.bytes.drop headerSize), handles := handles } := by
  obtain ⟨hsize, hversion, hoffset⟩ := h
  have hlt : b.bytes.length < 2 ^ 32 := by
    rw [hb, length_dataBytes]
    exact Nat.mod_lt _ (by norm_num)
  have hfield (pos k : Nat) (hpos : pos + k ≤ b.bytes.length) :
      field b.bytes pos k = field m.buffer pos k := by
    rw [hb, Message.dataBytes] at hpos
    conv_rhs => rw [← take_append_drop m.dataNumBytes m.buffer]
    rw [hb, field, field, slice_append_left _ hpos, Message.dataBytes]
  by_cases hlong : headerSize ≤ b.bytes.length
  · right
    unfold headerSize at hlong
    have hlaid : Laid b.bytes :=
      ⟨hlong, (hfield 4 4 (by omega)).trans hversion, (hfield 32 8 (by omega)).trans hoffset⟩
    exact ⟨hlaid, wrapWireBytes_of_laid hlaid hlt slack handles⟩
  · left
    have hnone : incomingHeader b.bytes = none := by
      cases hheader : incomingHeader b.bytes with
      | none => rfl
      | some header =>
        obtain ⟨h24, _, rfl, hle⟩ := incomingHeader_eq_some hheader
        rw [hfield 4 4 (by omega), hversion] at hle
        exact absurd hle hlong
    rw [wrapWireBytes_of_none slack handles (by rw [incomingPayload, hnone, Option.bind_none])]
    rfl

theorem length_lt_of_restores {m : Message H} {c : Contents H} (h : m.Carries c) (slack : Nat)
    (b : Buffer w) (hb : b.bytes = m.dataBytes)
    (hr : Restores w (wrapWireBytes slack b m.handles) c) : m.buffer.length < 2 ^ 32 := by
  obtain ⟨hnull, _, _, _, _, _, hread⟩ := hr
  obtain hnull' | ⟨hlaid, hwrap⟩ := wrapWireBytes_dataBytes h.laid slack b m.handles hb
  · rw [hnull] at hnull'
    cases hnull'
  · have h24 : 24 ≤ b.bytes.length := le_trans (by decide) hlaid.1
    obtain ⟨hsize, hdrop, _, _⟩ := field_normalised h24 slack (b.bytes.drop headerSize)
    have hlength := length_normalised_drop hlaid slack
    have hlt : b.bytes.length < 2 ^ 32 := by
      rw [hb, length_dataBytes]
      exact Nat.mod_lt _ (by norm_num)
    rw [hwrap] at hread
    -- the wrapped message may stand where the received bytes stood
    have hpayload := hread ⟨b.base, _, hlength ▸ b.fits⟩ rfl
    rw [payloadBytes_of_laid (laid_normalised h24 slack _) (by dsimp only; omega)] at hpayload
    dsimp only at hpayload
    rw [hdrop] at hpayload
    have hpayloadLength := congrArg List.length hpayload
    rw [length_drop, hb, length_dataBytes] at hpayloadLength
    have hm := h.length
    have hlong := hlaid.1
    rw [hb, length_dataBytes] at hlong
    omega

/-- The bytes of a version 0 message to endpoint 5 with two bytes of payload. -/
def oldMessage : Buffer 32 where
  base := 4096
  bytes := [26, 0, 0, 0, 0, 0, 0, 0, 5, 0, 0, 0, 9, 0, 0, 0, 1, 0, 0, 0, 0, 0, 0, 0, 65, 66]
  fits := by decide

theorem not_restores_of_long {payload : List UInt8} (hlong : 2 ^ 32 ≤ headerSize + payload.length)
    (slack : Nat) (b : Buffer w)
    (hb : b.bytes =
      (Message.build 3 1 5 77 [Op.writePayload payload] : Message H).dataBytes) :
    ¬ Restores w (wrapWireBytes slack b ([] : List H))
      { name := 3, flags := 1, interfaceId := 5, requestId := 77
        payload := payload, handles := [] } := by
  have hcarries := (carries_new (H := H) 3 1 5 77).foldl [Op.writePayload payload]
  rw [nil_append, nil_append, written, written, append_nil] at hcarries
  intro h
  have hlt := length_lt_of_restores hcarries slack b hb
    (by rw [hcarries.handles]; exact h)
  rw [hcarries.length] at hlt
  exact absurd hlt (not_lt_of_ge hlong)

/-- As many bytes as take a message to 2^32. -/
@[irreducible]
def hugePayload : List UInt8 := List.replicate (2 ^ 32 - 48) 0

theorem length_hugePayload : hugePayload.length = 2 ^ 32 - 48 := by
  rw [hugePayload, length_replicate]

/-- What a message that carries them hands to the pipe. -/
def hugeBytes : Buffer 64 where
  base := 4096
  bytes := (Message.build 3 1 5 77 [Op.writePayload hugePayload] : Message Nat).dataBytes
  fits := by
    have hlt := Nat.mod_lt (Message.build 3 1 5 77
      [Op.writePayload hugePayload] : Message Nat).buffer.length (show 0 < 2 ^ 32 by decide)
    rw [length_dataBytes]
    exact lt_trans (Nat.add_lt_add_left hlt 4096) (by decide)

end Voodoo.Bindings
