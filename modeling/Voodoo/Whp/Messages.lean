import Voodoo.Whp.Signals

/-!
# Messages and message pipes

The functions of `core.cc` on messages and message pipes.  Each is a function of
the core and its arguments to what the caller gets back and the core it leaves;
the pointers a caller passes for results are taken to be there, except where the
source asks (`handles` and `num_handles` of `WhpGetMessageData`).

Each definition is one region under the mutex, and a run of the core is any order
of such regions.  `WhpWriteMessage` is three of them: `serializeMessage` takes the
serializer, which then runs outside the mutex and may call anything,
`messageSerialized` commits the message, and `writeMessage` queues it.
-/

namespace Voodoo.Whp

/-- What a caller gets back. -/
structure Reply where
  result : Result
  handles : List Handle := []
  /-- The buffer handed out, as it stands. -/
  buffer : List UInt8 := []
  counts : List Nat := []
  signals : SignalsState := {}
  events : List PendingEvent := []
  /-- The callbacks run after the mutex is released, each with its context. -/
  calls : List (Nat × Nat) := []
  /-- The native handles the core closes or gives back, as types and values. -/
  natives : List (UInt32 × Nat) := []

namespace Core

def refuse (c : Core) (result : Result) : Reply × Core := ({ result := result }, c)

/-! ### Messages -/

/-- `WhpCreateMessage`. -/
def createMessage (c : Core) : Reply × Core :=
  ({ result := .ok, handles := [c.nextHandle] }, c.alloc (.message {}))

/-- `WhpAppendMessageData`. -/
def appendMessageData (c : Core) (message : Handle) (additional : UInt32) (handles : List Handle)
    (commit : Bool) : Reply × Core :=
  match c.lookup message with
  | some (.message msg) =>
    if msg.committed ∧ additional ≠ 0 then c.refuse .failedPrecondition
    else
      let msg' : MessageObj :=
        { msg with
          bytes := msg.bytes ++ List.replicate additional.toNat 0
          handles := msg.handles ++ handles
          committed := msg.committed || commit }
      ({ result := .ok, buffer := msg'.bytes, counts := [msg'.bytes.length % 2 ^ 32] },
        c.setObj message (.message msg'))
  | _ => c.refuse .invalidArgument

/-- `data` in place of what the bytes hold from `offset` on; there are as many as before. -/
def overwrite (bytes : List UInt8) (offset : Nat) (data : List UInt8) : List UInt8 :=
  (bytes.take offset ++ data ++ bytes.drop (offset + data.length)).take bytes.length

/-- The holder of a message writes into the buffer it was handed out. -/
def fillMessage (c : Core) (message : Handle) (offset : Nat) (data : List UInt8) : Reply × Core :=
  match c.lookup message with
  | some (.message msg) =>
    ({ result := .ok },
      c.setObj message (.message { msg with bytes := overwrite msg.bytes offset data }))
  | _ => c.refuse .invalidArgument

/-- `WhpGetMessageData`: `room` is what `num_handles` points to, `wanted` whether there is an
array for the handles. -/
def getMessageData (c : Core) (message : Handle) (room : Option Nat) (wanted : Bool) :
    Reply × Core :=
  match c.lookup message with
  | some (.message msg) =>
    let have_ := msg.handles.length % 2 ^ 32
    let size := msg.bytes.length % 2 ^ 32
    match room, wanted with
    | some _, false =>
      if 0 < have_ then ({ result := .resourceExhausted, counts := [have_, size] }, c)
      else ({ result := .ok, buffer := msg.bytes, counts := [0, size] }, c)
    | some n, true =>
      if n < have_ then ({ result := .resourceExhausted, counts := [have_] }, c)
      else
        ({ result := .ok, buffer := msg.bytes, counts := [have_, size],
           handles := msg.handles.take have_ },
          c.setObj message (.message { msg with handles := [] }))
    | none, _ => ({ result := .ok, buffer := msg.bytes, counts := [size] }, c)
  | _ => c.refuse .invalidArgument

/-- `WhpSerializeMessage` up to the call of the serializer. -/
def serializeMessage (c : Core) (message : Handle) : Reply × Core :=
  match c.lookup message with
  | some (.message msg) =>
    if msg.committed ∧ msg.serializer = none then c.refuse .ok
    else
      ({ result := .ok, calls := (msg.serializer.map (·, msg.context)).toList },
        c.setObj message (.message { msg with serializer := none }))
  | _ => c.refuse .invalidArgument

/-- `WhpSerializeMessage` after the call of the serializer.  It does not come to this for a
message that was committed and had none. -/
def messageSerialized (c : Core) (message : Handle) : Reply × Core :=
  match c.lookup message with
  | some (.message msg) =>
    ({ result := .ok, calls := (msg.destructor.map (·, msg.context)).toList },
      c.setObj message (.message
        { msg with committed := true, destructor := none, context := 0, serializer := none }))
  | _ => c.refuse .invalidArgument

/-- `WhpReserveMessageCapacity`. -/
def reserveMessageCapacity (c : Core) (message : Handle) (size : UInt32) : Reply × Core :=
  match c.lookup message with
  | some (.message msg) =>
    if msg.committed then
      ({ result := .failedPrecondition, counts := [msg.bytes.length % 2 ^ 32] }, c)
    else
      let bytes := msg.bytes ++ List.replicate (size.toNat - msg.bytes.length) 0
      ({ result := .ok, counts := [bytes.length % 2 ^ 32] },
        c.setObj message (.message { msg with bytes := bytes }))
  | _ => c.refuse .invalidArgument

/-- `WhpSetMessageContext`. -/
def setMessageContext (c : Core) (message : Handle) (context : Nat)
    (serializer destructor : Option Nat) : Reply × Core :=
  match c.lookup message with
  | some (.message msg) =>
    ({ result := .ok, calls := (msg.destructor.map (·, msg.context)).toList },
      c.setObj message (.message
        { msg with context := context, serializer := serializer, destructor := destructor }))
  | _ => c.refuse .invalidArgument

/-- `WhpGetMessageContext`. -/
def getMessageContext (c : Core) (message : Handle) : Reply × Core :=
  match c.lookup message with
  | some (.message msg) => ({ result := .ok, counts := [msg.context] }, c)
  | _ => c.refuse .invalidArgument

/-! ### Message pipes -/

/-- A new pipe state, under the next number. -/
def newPipe (c : Core) (s : PipeState) : Core :=
  { c.setPipe c.pipeCount s with pipeCount := c.pipeCount + 1 }

/-- `WhpCreateMessagePipe`. -/
def createMessagePipe (c : Core) : Reply × Core :=
  let c₀ := c.newPipe {}
  let c₁ := c₀.alloc (.messagePipe ⟨c.pipeCount, false⟩)
  ({ result := .ok, handles := [c₀.nextHandle, c₁.nextHandle] },
    c₁.alloc (.messagePipe ⟨c.pipeCount, true⟩))

def setQueue (c : Core) (e : PipeEnd) (queue : List MessageObj) : Core :=
  let s := c.pipes e.state
  c.setPipe e.state { s with queues := Function.update s.queues e.side queue }

/-- `WhpWriteMessage` once the message is serialized. -/
def writeMessage (c : Core) (pipe message : Handle) : Reply × Core :=
  match c.lookup pipe, c.lookup message with
  | some (.messagePipe e), some (.message msg) =>
    let s := c.pipes e.state
    let peer := e.other
    let inbound := s.queues peer.side
    if s.closed peer.side ∨ s.closed e.side then
      ({ result := .failedPrecondition }, (c.free message).collectTrapEvents)
    else if s.quotaCount peer.side ≤ inbound.length ∨
        s.quotaBytes peer.side < queueBytes inbound + msg.bytes.length then
      c.refuse .resourceExhausted
    else
      ({ result := .ok },
        ((c.setQueue peer (inbound ++ [{ msg with committed := true }])).free
          message).collectTrapEvents)
  | _, _ => c.refuse .invalidArgument

/-- `WhpReadMessage`. -/
def readMessage (c : Core) (pipe : Handle) : Reply × Core :=
  match c.lookup pipe with
  | some (.messagePipe e) =>
    let s := c.pipes e.state
    match s.queues e.side with
    | [] => c.refuse (if s.closed (!e.side) then .failedPrecondition else .shouldWait)
    | msg :: rest =>
      ({ result := .ok, handles := [c.nextHandle] }, (c.setQueue e rest).alloc (.message msg))
  | _ => c.refuse .invalidArgument

/-- The test `WhpFuseMessagePipes` makes for the peer of `e` at every other handle. -/
def peerAt (c : Core) (e : PipeEnd) (h : Handle) : Option (Handle × PipeEnd) :=
  match c.lookup h with
  | some (.messagePipe e') => if e'.state = e.state ∧ e'.side ≠ e.side then some (h, e') else none
  | _ => none

/-- The scan for the peer of `e` past the handles to fuse; the last one found stays. -/
def findPeer (c : Core) (handle0 handle1 : Handle) (e : PipeEnd) : Option (Handle × PipeEnd) :=
  (List.range c.slots.length).reverse.findSome? fun h =>
    if h = handle0 ∨ h = handle1 then none else c.peerAt e h

/-- The state that takes the place of two, between the peers of the ends that are given up. -/
def fuse (c : Core) (e0 e1 peer0 peer1 : PipeEnd) : PipeState :=
  let queue (e : PipeEnd) := (c.pipes e.state).queues e.side
  { queues := fun side => if side then queue peer1 ++ queue e0 else queue peer0 ++ queue e1
    quotaCount := fun side =>
      if side then (c.pipes peer1.state).quotaCount peer1.side
      else (c.pipes peer0.state).quotaCount peer0.side
    quotaBytes := fun side =>
      if side then (c.pipes peer1.state).quotaBytes peer1.side
      else (c.pipes peer0.state).quotaBytes peer0.side }

/-- `WhpFuseMessagePipes`. -/
def fuseMessagePipes (c : Core) (handle0 handle1 : Handle) : Reply × Core :=
  match c.lookup handle0, c.lookup handle1 with
  | some (.messagePipe e0), some (.messagePipe e1) =>
    if handle0 = handle1 ∨ e0.state = e1.state then c.refuse .invalidArgument
    else
      match c.findPeer handle0 handle1 e0, c.findPeer handle0 handle1 e1 with
      | some (h0, peer0), some (h1, peer1) =>
        let fused := (c.newPipe (c.fuse e0 e1 peer0 peer1)).setObj h0
          (.messagePipe ⟨c.pipeCount, false⟩) |>.setObj h1 (.messagePipe ⟨c.pipeCount, true⟩)
        ({ result := .ok }, ((fused.free handle0).free handle1).collectTrapEvents)
      | _, _ => c.refuse .failedPrecondition
  | _, _ => c.refuse .invalidArgument

/-- `WhpSetQuota`; `0` limits the count of unread messages, `1` their size. -/
def setQuota (c : Core) (pipe : Handle) (type : UInt32) (limit : UInt64) : Reply × Core :=
  match c.lookup pipe with
  | some (.messagePipe e) =>
    let s := c.pipes e.state
    if type = 0 then
      ({ result := .ok }, c.setPipe e.state
        { s with quotaCount := Function.update s.quotaCount e.side limit.toNat })
    else if type = 1 then
      ({ result := .ok }, c.setPipe e.state
        { s with quotaBytes := Function.update s.quotaBytes e.side limit.toNat })
    else c.refuse .invalidArgument
  | _ => c.refuse .invalidArgument

/-- `WhpQueryQuota`. -/
def queryQuota (c : Core) (pipe : Handle) (type : UInt32) : Reply × Core :=
  match c.lookup pipe with
  | some (.messagePipe e) =>
    let s := c.pipes e.state
    let queue := s.queues e.side
    if type = 0 then ({ result := .ok, counts := [s.quotaCount e.side, queue.length] }, c)
    else if type = 1 then ({ result := .ok, counts := [s.quotaBytes e.side, queueBytes queue] }, c)
    else c.refuse .invalidArgument
  | _ => c.refuse .invalidArgument

end Core

end Voodoo.Whp
