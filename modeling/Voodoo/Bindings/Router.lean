import Voodoo.Lib.Machine
import Mathlib.Data.List.Basic

/-!
# The multiplexing router

`MultiplexRouter` fans the messages of one pipe out to the endpoints on it.  An entry of `endpoints_`
counts the `ScopedInterfaceEndpointHandle`s of its id and holds what arrived while no client was
attached.

A client may call the router again before it returns.  Only the loop of `AttachEndpointClient` goes
on after such a call, so the state of a run has a stack of the loops that have been entered and not
left, and a turn of the innermost one is an action like the others.

A run also keeps the ids of the handles that are alive, the messages that arrived and the ones handed
to clients.
-/

namespace Voodoo.Bindings

abbrev InterfaceId := UInt32

def kPrimaryInterfaceId : InterfaceId := 0

def kInvalidInterfaceId : InterfaceId := 0xFFFFFFFF

def kInterfaceIdNamespaceMask : InterfaceId := 0x80000000

/-- What the router reads of a message; `content` stands for the rest. -/
structure Incoming where
  interfaceId : InterfaceId
  name : UInt32 := 0
  isResponse : Bool := false
  requestId : UInt64 := 0
  /-- The closed id of a pipe-control message with its reason and description, where they can be
  read. -/
  closed : Option (InterfaceId × UInt32 × String) := none
  content : Nat := 0
  deriving DecidableEq

/-- The messages the router itself sends. -/
inductive Outgoing where
  | endpointClosed (id : InterfaceId) (customReason : UInt32) (description : String)
  | flushResponse (requestId : UInt64)

/-- A `MessageReceiver*` or a callback, by number. -/
abbrev Receiver := Nat

structure Endpoint where
  client : Option Receiver := none
  queuedMessages : List Incoming := []
  peerClosedHandler : Option Nat := none
  peerClosedWithReasonHandler : Option Nat := none
  refs : Nat := 0
  deriving DecidableEq

structure Router where
  endpoints : InterfaceId → Option Endpoint := fun _ => none
  nextIdValue : UInt32 := 1
  namespaceBit : Bool := false
  primaryClient : Option Receiver := none
  disconnectCustomReason : UInt32 := 0
  disconnectDescription : String := ""
  flushDone : Bool := false
  /-- `connector_` has raised an error: its pipe is closed. -/
  error : Bool := false
  /-- What `connector_` wrote to the pipe. -/
  sent : List Outgoing := []

namespace Router

/-! ### Entries -/

/-- `endpoints_[id]`, before it is changed. -/
def findOrCreateEndpoint (r : Router) (id : InterfaceId) : Endpoint := (r.endpoints id).getD {}

def setEndpoint (r : Router) (id : InterfaceId) (ep : Endpoint) : Router :=
  { r with endpoints := Function.update r.endpoints id (some ep) }

def eraseEndpoint (r : Router) (id : InterfaceId) : Router :=
  { r with endpoints := Function.update r.endpoints id none }

/-- `connector_.Accept` of a message of the router's own. -/
def send (r : Router) (message : Outgoing) : Router :=
  if r.error then r else { r with sent := r.sent ++ [message] }

def raiseError (r : Router) : Router := { r with error := true }

def retainEndpoint (r : Router) (id : InterfaceId) : Router :=
  let ep := r.findOrCreateEndpoint id
  r.setEndpoint id { ep with refs := ep.refs + 1 }

def maybeEraseEndpoint (r : Router) (id : InterfaceId) : Router :=
  match r.endpoints id with
  | none => r
  | some ep =>
    if ep.refs = 0 ∧ ep.client = none ∧ ep.queuedMessages = [] then r.eraseEndpoint id else r

def dropEndpointHandle (r : Router) (id : InterfaceId) : Router :=
  match r.endpoints id with
  | none => r
  | some ep => (r.setEndpoint id { ep with refs := ep.refs - 1 }).maybeEraseEndpoint id

/-- `it->second.client = nullptr`, where there is an entry. -/
def clearClient (r : Router) (id : InterfaceId) : Router :=
  match r.endpoints id with
  | none => r
  | some ep => r.setEndpoint id { ep with client := none }

def detachEndpointClient (r : Router) (id : InterfaceId) : Router :=
  (r.clearClient id).maybeEraseEndpoint id

def notifyPeerEndpointClosed (r : Router) (id : InterfaceId) (customReason : UInt32)
    (description : String) : Router :=
  r.send (.endpointClosed id customReason description)

def closeEndpoint (r : Router) (id : InterfaceId) : Router :=
  ((r.notifyPeerEndpointClosed id 0 "").clearClient id).dropEndpointHandle id

/-- `MintInterfaceId`: the id and the router that has given it. -/
def mintInterfaceId (r : Router) : InterfaceId × Router :=
  let id := if r.namespaceBit then r.nextIdValue ||| kInterfaceIdNamespaceMask else r.nextIdValue
  (id, { r with nextIdValue := r.nextIdValue + 1 })

/-- `CreateLocalEndpointHandle`, the constructor of the handle included. -/
def createLocalEndpointHandle (r : Router) (id : InterfaceId) : Router :=
  (r.setEndpoint id (r.findOrCreateEndpoint id)).retainEndpoint id

/-- `CreatePairPendingAssociation`. -/
def createPairPendingAssociation (r : Router) : InterfaceId × Router :=
  let (id, r) := r.mintInterfaceId
  (id, r.createLocalEndpointHandle id)

def setPeerClosedHandler (r : Router) (id : InterfaceId) (handler : Nat) : Router :=
  r.setEndpoint id { r.findOrCreateEndpoint id with peerClosedHandler := some handler }

def setPeerClosedWithReasonHandler (r : Router) (id : InterfaceId) (handler : Nat) : Router :=
  r.setEndpoint id { r.findOrCreateEndpoint id with peerClosedWithReasonHandler := some handler }

/-- `AttachEndpointClient` up to its loop, and the messages the loop is to deliver. -/
def attachEndpointClient (r : Router) (id : InterfaceId) (client : Option Receiver) :
    Router × List Incoming :=
  let ep := { r.findOrCreateEndpoint id with client }
  if ep.queuedMessages = [] ∨ client = none then (r.setEndpoint id ep, [])
  else (r.setEndpoint id { ep with queuedMessages := [] }, ep.queuedMessages)

/-! ### Arrivals -/

/-- The handler for a closed peer endpoint is moved out of its entry and run. -/
def runPeerClosedHandler (r : Router) (id : InterfaceId) : Router :=
  match r.endpoints id with
  | none => r
  | some ep =>
    if ep.peerClosedWithReasonHandler.isSome then
      r.setEndpoint id { ep with peerClosedWithReasonHandler := none }
    else if ep.peerClosedHandler.isSome then r.setEndpoint id { ep with peerClosedHandler := none }
    else r

def kPipeControlFlushName : UInt32 := 1

def handlePipeControlMessage (r : Router) (m : Incoming) : Router :=
  if m.name = kPipeControlFlushName then
    if m.isResponse then { r with flushDone := true } else r.send (.flushResponse m.requestId)
  else
    match m.closed with
    -- A payload that cannot be read is a protocol error of the connector.
    | none => r.raiseError
    | some (closedId, customReason, description) =>
      let r :=
        if closedId = kPrimaryInterfaceId then
          { r with disconnectCustomReason := customReason, disconnectDescription := description }
        else r
      r.runPeerClosedHandler closedId

/-- `Accept`, and the client the message is handed to, if it is. -/
def accept (r : Router) (m : Incoming) : Router × Option Receiver :=
  if m.interfaceId = kInvalidInterfaceId then (r.handlePipeControlMessage m, none)
  else if m.interfaceId = kPrimaryInterfaceId then (r, r.primaryClient)
  else
    let ep := r.findOrCreateEndpoint m.interfaceId
    match ep.client with
    | some client => (r.setEndpoint m.interfaceId ep, some client)
    | none =>
      (r.setEndpoint m.interfaceId { ep with queuedMessages := ep.queuedMessages ++ [m] }, none)

end Router

/-! ### Runs -/

/-- A run of one router. -/
structure World where
  router : Router := {}
  /-- The ids of the live handles. -/
  handles : List InterfaceId := []
  /-- The loops of `AttachEndpointClient` that are not left, the innermost first: the id and the
  messages still to deliver. -/
  loops : List (InterfaceId × List Incoming) := []
  arrived : List Incoming := []
  handed : List (Receiver × Incoming) := []

inductive RouterOp where
  | createPair
  | createLocalEndpointHandle (id : InterfaceId)
  /-- Through a live handle of the id. -/
  | attachEndpointClient (id : InterfaceId) (client : Option Receiver)
  /-- A turn of the innermost loop, the call before having returned `true`. -/
  | loopTurn
  /-- The last call of the innermost loop returned `false`. -/
  | loopRefused
  | detachEndpointClient (id : InterfaceId)
  /-- A live handle is reset, destroyed or assigned to. -/
  | closeHandle (id : InterfaceId)
  | releaseWithoutClosing (id : InterfaceId)
  | setPeerClosedHandler (id : InterfaceId) (handler : Nat)
  | setPeerClosedWithReasonHandler (id : InterfaceId) (handler : Nat)
  | notifyPeerEndpointClosed (id : InterfaceId) (customReason : UInt32) (description : String)
  | attachPrimaryClient (client : Receiver)
  | detachPrimaryClient
  | accept (m : Incoming)

namespace World

/-- A turn of the innermost loop: leave it, give it up or hand over the next message.  The loop
reads the client through a reference to the entry; an entry that is erased meanwhile is read here
as one without a client. -/
def loopTurn (s : World) : World :=
  match s.loops with
  | [] => s
  | (_, []) :: loops => { s with loops }
  | (id, m :: rest) :: loops =>
    match (s.router.endpoints id).bind (·.client) with
    | none => { s with loops, router := s.router.raiseError }
    | some client => { s with loops := (id, rest) :: loops, handed := s.handed ++ [(client, m)] }

def step (s : World) : RouterOp → World
  | .createPair =>
    let (id, router) := s.router.createPairPendingAssociation
    { s with router, handles := id :: s.handles }
  | .createLocalEndpointHandle id =>
    { s with router := s.router.createLocalEndpointHandle id, handles := id :: s.handles }
  | .attachEndpointClient id client =>
    let (router, queued) := s.router.attachEndpointClient id client
    { s with router, loops := if queued = [] then s.loops else (id, queued) :: s.loops }
  | .loopTurn => s.loopTurn
  | .loopRefused => { s with loops := s.loops.tail, router := s.router.raiseError }
  | .detachEndpointClient id => { s with router := s.router.detachEndpointClient id }
  | .closeHandle id =>
    { s with router := s.router.closeEndpoint id, handles := s.handles.erase id }
  | .releaseWithoutClosing id =>
    { s with router := s.router.dropEndpointHandle id, handles := s.handles.erase id }
  | .setPeerClosedHandler id handler =>
    { s with router := s.router.setPeerClosedHandler id handler }
  | .setPeerClosedWithReasonHandler id handler =>
    { s with router := s.router.setPeerClosedWithReasonHandler id handler }
  | .notifyPeerEndpointClosed id customReason description =>
    { s with router := s.router.notifyPeerEndpointClosed id customReason description }
  | .attachPrimaryClient client =>
    { s with router := { s.router with primaryClient := some client } }
  | .detachPrimaryClient => { s with router := { s.router with primaryClient := none } }
  | .accept m =>
    let (router, client) := s.router.accept m
    { s with
      router
      arrived := s.arrived ++ [m]
      handed := s.handed ++ (client.map (·, m)).toList }

/-- What is done through a handle is done through a live one. -/
def HasHandle (s : World) : RouterOp → Prop
  | .attachEndpointClient id _ | .closeHandle id | .releaseWithoutClosing id
  | .setPeerClosedHandler id _ | .setPeerClosedWithReasonHandler id _ => id ∈ s.handles
  | _ => True

end World

end Voodoo.Bindings
