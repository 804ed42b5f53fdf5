import Voodoo.Whp.Messages

/-!
# Data pipes, shared buffers and platform handles

The functions of `core.cc` on data pipes, which move bytes through a ring, and on
the objects without signals: shared buffers and platform handles.  The type of a
platform handle is checked as on a host that is not Windows.  Mapping a buffer does
not touch the handle table and is left out.
-/

namespace Voodoo.Whp

namespace DataPipeState

/-- A new state; an option that is `0` or not given leaves the default. -/
def make (elementSize capacity : UInt32) : DataPipeState :=
  let capacity := if capacity = 0 then 65536 else capacity
  { elementSize := if elementSize = 0 then 1 else elementSize
    capacity := capacity
    buf := List.replicate capacity.toNat 0 }

/-- One turn of the loop of `WhpWriteData`. -/
def put (s : DataPipeState) (byte : UInt8) : DataPipeState :=
  { s with buf := s.buf.set s.w.toNat byte, w := (s.w + 1) % s.capacity }

/-- The loop of `WhpReadData`. -/
def get : Nat → DataPipeState → List UInt8 × DataPipeState
  | 0, s => ([], s)
  | n + 1, s =>
    let (bytes, s') := get n { s with r := (s.r + 1) % s.capacity }
    (s.buf.getD s.r.toNat 0 :: bytes, s')

end DataPipeState

namespace Core

/-! ### Data pipes -/

/-- A new data pipe state, under the next number. -/
def newDataPipe (c : Core) (s : DataPipeState) : Core :=
  { c.setDataPipe c.dataPipeCount s with dataPipeCount := c.dataPipeCount + 1 }

/-- `WhpCreateDataPipe`. -/
def createDataPipe (c : Core) (elementSize capacity : UInt32) : Reply × Core :=
  let c₀ := c.newDataPipe (.make elementSize capacity)
  let c₁ := c₀.alloc (.dataPipeProducer c.dataPipeCount)
  ({ result := .ok, handles := [c₀.nextHandle, c₁.nextHandle] },
    c₁.alloc (.dataPipeConsumer c.dataPipeCount))

/-- `WhpWriteData`. -/
def writeData (c : Core) (producer : Handle) (elements : List UInt8) : Reply × Core :=
  match c.lookup producer with
  | some (.dataPipeProducer i) =>
    let s := c.dataPipes i
    let want := UInt32.ofNat elements.length
    if s.consumerClosed then c.refuse .failedPrecondition
    else if want % s.elementSize ≠ 0 then c.refuse .invalidArgument
    else
      let n := min want (s.capacity - s.available)
      let n := n - n % s.elementSize
      if n = 0 then ({ result := .shouldWait, counts := [0] }, c)
      else
        let s' := (elements.take n.toNat).foldl DataPipeState.put s
        ({ result := .ok, counts := [n.toNat] },
          (c.setDataPipe i { s' with available := s.available + n }).collectTrapEvents)
  | _ => c.refuse .invalidArgument

/-- `WhpReadData`. -/
def readData (c : Core) (consumer : Handle) (numBytes : UInt32) : Reply × Core :=
  match c.lookup consumer with
  | some (.dataPipeConsumer i) =>
    let s := c.dataPipes i
    if numBytes % s.elementSize ≠ 0 then c.refuse .invalidArgument
    else
      let n := min numBytes s.available
      let n := n - n % s.elementSize
      if n = 0 then
        ({ result := if s.producerClosed then .failedPrecondition else .shouldWait, counts := [0] },
          c)
      else
        let (bytes, s') := DataPipeState.get n.toNat s
        ({ result := .ok, buffer := bytes, counts := [n.toNat] },
          (c.setDataPipe i { s' with available := s.available - n }).collectTrapEvents)
  | _ => c.refuse .invalidArgument

/-- `WhpBeginWriteData`. -/
def beginWriteData (c : Core) (producer : Handle) (numBytes : UInt32) : Reply × Core :=
  match c.lookup producer with
  | some (.dataPipeProducer i) =>
    let s := c.dataPipes i
    if s.twoPhaseWrite ≠ none then c.refuse .busy
    else
      let n := min (min (s.capacity - s.available) (s.capacity - s.w)) numBytes
      let n := n - n % s.elementSize
      if n = 0 then c.refuse .shouldWait
      else
        ({ result := .ok, counts := [n.toNat] },
          c.setDataPipe i { s with twoPhaseWrite := some s.w, twoPhaseWriteMax := n })
  | _ => c.refuse .invalidArgument

/-- The producer writes into the buffer that `WhpBeginWriteData` handed out. -/
def fillWriteBuffer (c : Core) (producer : Handle) (data : List UInt8) : Reply × Core :=
  match c.lookup producer with
  | some (.dataPipeProducer i) =>
    let s := c.dataPipes i
    match s.twoPhaseWrite with
    | some start =>
      let data := data.take s.twoPhaseWriteMax.toNat
      ({ result := .ok }, c.setDataPipe i { s with buf := overwrite s.buf start.toNat data })
    | none => c.refuse .failedPrecondition
  | _ => c.refuse .invalidArgument

/-- `WhpEndWriteData`. -/
def endWriteData (c : Core) (producer : Handle) (written : UInt32) : Reply × Core :=
  match c.lookup producer with
  | some (.dataPipeProducer i) =>
    let s := c.dataPipes i
    if s.twoPhaseWrite = none then c.refuse .failedPrecondition
    else if s.twoPhaseWriteMax < written ∨ written % s.elementSize ≠ 0 then
      ({ result := .invalidArgument }, c.setDataPipe i { s with twoPhaseWrite := none })
    else
      ({ result := .ok },
        (c.setDataPipe i
          { s with
            w := (s.w + written) % s.capacity
            available := s.available + written
            twoPhaseWrite := none }).collectTrapEvents)
  | _ => c.refuse .invalidArgument

/-- `WhpBeginReadData`. -/
def beginReadData (c : Core) (consumer : Handle) (numBytes : UInt32) : Reply × Core :=
  match c.lookup consumer with
  | some (.dataPipeConsumer i) =>
    let s := c.dataPipes i
    if s.twoPhaseRead ≠ none then c.refuse .busy
    else
      let n := min (min s.available (s.capacity - s.r)) numBytes
      let n := n - n % s.elementSize
      if n = 0 then c.refuse (if s.producerClosed then .failedPrecondition else .shouldWait)
      else
        ({ result := .ok, counts := [n.toNat]
           buffer := (s.buf.drop s.r.toNat).take n.toNat },
          c.setDataPipe i { s with twoPhaseRead := some s.r, twoPhaseReadMax := n })
  | _ => c.refuse .invalidArgument

/-- `WhpEndReadData`. -/
def endReadData (c : Core) (consumer : Handle) (read : UInt32) : Reply × Core :=
  match c.lookup consumer with
  | some (.dataPipeConsumer i) =>
    let s := c.dataPipes i
    if s.twoPhaseRead = none then c.refuse .failedPrecondition
    else if s.twoPhaseReadMax < read ∨ read % s.elementSize ≠ 0 then
      ({ result := .invalidArgument }, c.setDataPipe i { s with twoPhaseRead := none })
    else
      ({ result := .ok },
        (c.setDataPipe i
          { s with
            r := (s.r + read) % s.capacity
            available := s.available - read
            twoPhaseRead := none }).collectTrapEvents)
  | _ => c.refuse .invalidArgument

/-! ### Shared buffers and platform handles -/

def setBuffer (c : Core) (i : Nat) (buffer : SharedBufferObj) : Core :=
  { c with buffers := Function.update c.buffers i buffer }

/-- A new shared buffer, under the next number. -/
def newBuffer (c : Core) (buffer : SharedBufferObj) : Core :=
  { c.setBuffer c.bufferCount buffer with bufferCount := c.bufferCount + 1 }

/-- `WhpCreateSharedBuffer`. -/
def createSharedBuffer (c : Core) (numBytes : UInt64) : Reply × Core :=
  if numBytes = 0 then c.refuse .invalidArgument
  else
    ({ result := .ok, handles := [c.nextHandle] },
      (c.newBuffer { size := numBytes.toNat }).alloc (.sharedBuffer c.bufferCount))

/-- `WhpDuplicateBufferHandle`. -/
def duplicateBufferHandle (c : Core) (buffer : Handle) : Reply × Core :=
  match c.lookup buffer with
  | some (.sharedBuffer i) =>
    ({ result := .ok, handles := [c.nextHandle] }, c.alloc (.sharedBuffer i))
  | _ => c.refuse .invalidArgument

/-- `WhpGetBufferInfo`. -/
def getBufferInfo (c : Core) (buffer : Handle) : Reply × Core :=
  match c.lookup buffer with
  | some (.sharedBuffer i) => ({ result := .ok, counts := [(c.buffers i).size] }, c)
  | _ => c.refuse .invalidArgument

def fileDescriptor : UInt32 := 1
def machPort : UInt32 := 3

/-- `PlatformTypeOkForHost`. -/
def platformTypeOkForHost (type : UInt32) : Bool := type == machPort || type == fileDescriptor

/-- The check both ways of wrapping make for a native handle. -/
def wrappable (native : UInt32 × Nat) : Bool :=
  platformTypeOkForHost native.1 && !(native.1 == machPort && native.2 == 0)

/-- `WhpWrapPlatformHandle`. -/
def wrapPlatformHandle (c : Core) (type : UInt32) (value : Nat) : Reply × Core :=
  if wrappable (type, value) then
    ({ result := .ok, handles := [c.nextHandle] },
      c.alloc (.platform { type := type, value := value }))
  else c.refuse .invalidArgument

/-- `WhpUnwrapPlatformHandle`. -/
def unwrapPlatformHandle (c : Core) (h : Handle) : Reply × Core :=
  match c.lookup h with
  | some (.platform p) => ({ result := .ok, natives := [(p.type, p.value)] }, c.free h)
  | _ => c.refuse .invalidArgument

/-- `WhpWrapPlatformSharedMemoryRegion`. -/
def wrapPlatformSharedMemoryRegion (c : Core) (natives : List (UInt32 × Nat)) (numBytes : UInt64)
    (guid : Nat × Nat) (accessMode : UInt32) : Reply × Core :=
  if numBytes = 0 ∨ natives.length = 0 ∨ 2 < natives.length then c.refuse .invalidArgument
  else if natives.all wrappable then
    ({ result := .ok, handles := [c.nextHandle] },
      (c.newBuffer
        { size := numBytes.toNat, platforms := natives, platOwns := true, guid := guid
          accessMode := accessMode }).alloc (.sharedBuffer c.bufferCount))
  else c.refuse .invalidArgument

/-- `WhpUnwrapPlatformSharedMemoryRegion`: `room` is what `num_handles` points to, `wanted`
whether there are arrays for the native handles. -/
def unwrapPlatformSharedMemoryRegion (c : Core) (h : Handle) (room : Nat) (wanted : Bool) :
    Reply × Core :=
  match c.lookup h with
  | some (.sharedBuffer i) =>
    let b := c.buffers i
    let have_ := b.platforms.length
    if have_ = 0 then c.refuse .failedPrecondition
    else if wanted = false ∨ room < have_ then
      ({ result := .resourceExhausted, counts := [have_] }, c)
    else
      ({ result := .ok, natives := b.platforms
         counts := [have_, b.size, b.guid.1, b.guid.2, b.accessMode.toNat] },
        (c.setBuffer i { b with platOwns := false }).free h)
  | _ => c.refuse .invalidArgument

end Core

end Voodoo.Whp
