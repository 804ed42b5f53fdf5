import Voodoo.Lib.LittleEndian
import Voodoo.Lib.EState
import Voodoo.Wire.Value

/-!
# Messages and the primitive reads and writes

A message under construction is its payload bytes and the handles attached so far.  Writing appends;
the sizes in front of structs and unions are patched in afterwards.

A generated reader walks over a received message with the byte offset and the index into the taken
handle vector, and stops for one of three reasons: it returned `false`, it indexed the handle vector
past its end (the behaviour is undefined from there on), or the recursion bound was too small.  The
cursor also records which bytes were loaded and where the offset was set without loading.

`size_t` is the 64-bit one: only what the source casts to `uint32_t` is cut down to 32 bits.
-/

namespace Voodoo

open LittleEndian EState

/-! ### Writing -/

structure Message where
  payload : List UInt8 := []
  handles : List Handle := []

namespace Message

/-- `payload_num_bytes()`, which returns a `uint32_t`. -/
def payloadNumBytes (msg : Message) : Nat := msg.payload.length % 2 ^ 32

def writePayload (msg : Message) (bytes : List UInt8) : Message :=
  { msg with payload := msg.payload ++ bytes }

def attachHandle (msg : Message) (handle : Handle) : Message :=
  { msg with handles := msg.handles ++ [handle] }

/-- `WriteScalar` of a value of `width` bytes. -/
def writeScalar (msg : Message) (width value : Nat) : Message :=
  msg.writePayload (store width value)

def writeStructHeader (msg : Message) (numBytes version : Nat) : Message :=
  (msg.writeScalar 4 numBytes).writeScalar 4 version

def writeString (msg : Message) (bytes : List UInt8) : Message :=
  let msg := msg.writeScalar 4 (bytes.length % 2 ^ 32)
  if bytes = [] then msg else msg.writePayload bytes

/-- `PatchUint32` at `mutable_payload() + pos`. -/
def patchUint32 (msg : Message) (pos value : Nat) : Message :=
  { msg with payload := patch msg.payload pos (store 4 value) }

/-- `PatchStructHeader` at `mutable_payload() + pos`. -/
def patchStructHeader (msg : Message) (pos numBytes version : Nat) : Message :=
  (msg.patchUint32 pos numBytes).patchUint32 (pos + 4) version

/-- What has been written since the payload was `start` long: the difference cast to `uint32_t`. -/
def bytesSince (msg : Message) (start : Nat) : Nat :=
  (msg.payloadNumBytes + 2 ^ 32 - start) % 2 ^ 32

/-- A message continued by the bytes and handles of another. -/
instance : Append Message := ⟨fun a b => ⟨a.payload ++ b.payload, a.handles ++ b.handles⟩⟩

@[simp] theorem payload_append (a b : Message) : (a ++ b).payload = a.payload ++ b.payload := rfl

@[simp] theorem handles_append (a b : Message) : (a ++ b).handles = a.handles ++ b.handles := rfl

@[ext] protected theorem ext {a b : Message} (hp : a.payload = b.payload)
    (hh : a.handles = b.handles) : a = b := by
  cases a; cases b; cases hp; cases hh; rfl

protected theorem append_assoc (a b c : Message) : a ++ b ++ c = a ++ (b ++ c) :=
  Message.ext (List.append_assoc _ _ _) (List.append_assoc _ _ _)

@[simp] protected theorem append_empty (a : Message) : a ++ ({} : Message) = a :=
  Message.ext (List.append_nil _) (List.append_nil _)

@[simp] protected theorem empty_append (a : Message) : ({} : Message) ++ a = a := rfl

/-- Several pieces one after the other. -/
def concat (parts : List Message) : Message := parts.foldr (· ++ ·) {}

@[simp] theorem concat_nil : concat [] = {} := rfl

@[simp] theorem concat_cons (a : Message) (as : List Message) :
    concat (a :: as) = a ++ concat as := rfl

end Message

/-! ### Reading -/

/-- What a reader did to the payload. -/
inductive Event where
  /-- `width` bytes were loaded from `start` on, and the offset moved past them. -/
  | load (start width : Nat)
  /-- The offset was set from `start` to `stop`. -/
  | jump (start stop : Nat)
  deriving DecidableEq

structure Cursor where
  offset : Nat := 0
  /-- `wvc_handle_idx`. -/
  handleIdx : Nat := 0
  trace : List Event := []

/-- Why a reader did not get to its end. -/
inductive Stop where
  | returnFalse
  /-- `(*wvc_handles)[i]` with `i` at or past the size. -/
  | outOfRange
  /-- The bound on nested `ReadX` calls the reader was run with was too small. -/
  | outOfFuel

abbrev Reader := EStateM Stop Cursor

def returnFalse {α : Type} : Reader α := fun c => .error .returnFalse c

def outOfFuel {α : Type} : Reader α := fun c => .error .outOfFuel c

/-- `ReadScalar` of a value of `width` bytes. -/
def readScalar (msg : Message) (width : Nat) : Reader Nat := fun c =>
  if c.offset + width > msg.payloadNumBytes then .error .returnFalse c
  else .ok (load ((msg.payload.drop c.offset).take width))
    { c with offset := c.offset + width, trace := c.trace ++ [.load c.offset width] }

/-- `ReadScalar` of a `bool`: any byte but zero is `true`. -/
def readBool (msg : Message) : Reader Bool := (fun n => decide (n ≠ 0)) <$> readScalar msg 1

/-- The bytes of a string of length `len`: the second half of `ReadString`. -/
def readBytes (msg : Message) (len : Nat) : Reader (List UInt8) := fun c =>
  if c.offset + len > msg.payloadNumBytes then .error .returnFalse c
  else .ok ((msg.payload.drop c.offset).take len)
    { c with offset := c.offset + len, trace := c.trace ++ [.load c.offset len] }

def readString (msg : Message) : Reader (List UInt8) := readScalar msg 4 >>= readBytes msg

/-- `(*wvc_handles)[(*wvc_handle_idx)++]`, with no check of the index. -/
def takeHandle (msg : Message) : Reader Handle := fun c =>
  match msg.handles[c.handleIdx]? with
  | some h => .ok h { c with handleIdx := c.handleIdx + 1 }
  | none => .error .outOfRange c

/-- `*offset = stop`. -/
def jumpTo (stop : Nat) : Reader Unit := fun c =>
  .ok () { c with offset := stop, trace := c.trace ++ [.jump c.offset stop] }

/-- The offset a reader is at. -/
def currentOffset : Reader Nat := fun c => .ok c.offset c

/-! ### What the primitives do -/

theorem readScalar_ok {msg : Message} {width : Nat} {c : Cursor}
    (h : c.offset + width ≤ msg.payloadNumBytes) :
    readScalar msg width c = .ok (load ((msg.payload.drop c.offset).take width))
      { c with offset := c.offset + width, trace := c.trace ++ [.load c.offset width] } :=
  if_neg (Nat.not_lt.mpr h)

theorem readScalar_eq_ok {msg : Message} {width : Nat} {c c' : Cursor} {n : Nat}
    (h : readScalar msg width c = .ok n c') :
    c.offset + width ≤ msg.payloadNumBytes ∧ n = load ((msg.payload.drop c.offset).take width) ∧
      c' = { c with offset := c.offset + width, trace := c.trace ++ [.load c.offset width] } := by
  unfold readScalar at h
  split at h
  · cases h
  · obtain ⟨rfl, rfl⟩ := EStateM.Result.ok.inj h
    exact ⟨Nat.le_of_not_lt ‹_›, rfl, rfl⟩

theorem takeHandle_eq_ok {msg : Message} {c c' : Cursor} {h : Handle}
    (hr : takeHandle msg c = .ok h c') :
    msg.handles[c.handleIdx]? = some h ∧ c' = { c with handleIdx := c.handleIdx + 1 } := by
  unfold takeHandle at hr
  split at hr
  · obtain ⟨rfl, rfl⟩ := EStateM.Result.ok.inj hr
    exact ⟨‹_›, rfl⟩
  · cases hr

end Voodoo
