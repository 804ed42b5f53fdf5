import Voodoo.Whp.Messages

/-!
# Traps and closing

The functions of `core.cc` on traps, and `WhpClose`, which ends with a look at the
traps like every function that changes signals should.
-/

namespace Voodoo.Whp.Core

/-- `WhpCreateTrap`. -/
def createTrap (c : Core) (handler : Option Nat) : Reply × Core :=
  match handler with
  | none => c.refuse .invalidArgument
  | some handler =>
    ({ result := .ok, handles := [c.nextHandle] },
      { c.alloc (.trap { handler := handler }) with traps := c.traps ++ [c.nextHandle] })

/-- `WhpAddTrigger`. -/
def addTrigger (c : Core) (trap handle : Handle) (signals : Signals) (condition : UInt32)
    (context : Nat) : Reply × Core :=
  match c.lookup trap, c.lookup handle with
  | some (.trap t), some _ =>
    let trig : TrapTrigger :=
      { watched := handle, signals := signals, condition := condition, context := context
        object := c.serial handle }
    ({ result := .ok }, c.setObj trap (.trap { t with triggers := t.triggers ++ [trig] }))
  | _, _ => c.refuse .invalidArgument

/-- The event `WhpRemoveTrigger` queues. -/
def cancelledEvent (c : Core) (trap : Handle) (t : TrapObj) (context : Nat) : PendingEvent :=
  { handler := t.handler
    event := { triggerContext := context, result := .cancelled }
    trap := c.serial trap }

/-- `WhpRemoveTrigger`. -/
def removeTrigger (c : Core) (trap : Handle) (context : Nat) : Reply × Core :=
  match c.lookup trap with
  | some (.trap t) =>
    if ∀ trig ∈ t.triggers, trig.context ≠ context then c.refuse .notFound
    else
      ({ result := .ok },
        (c.post (c.cancelledEvent trap t context)).setObj trap
          (.trap { t with triggers := t.triggers.filter (·.context ≠ context) }))
  | _ => c.refuse .invalidArgument

/-- What `WhpArmTrap` tells about a trigger that keeps it from arming; the result is always `OK`. -/
def blockingEvent (c : Core) (trap : Handle) (handler : Nat) (trig : TrapTrigger) : PendingEvent :=
  let e := c.eventFor trap handler trig
  { e with event := { e.event with result := .ok } }

/-- `WhpArmTrap`: `room` is what `num_blocking_events` points to, `wanted` whether there is an
array for the events. -/
def armTrap (c : Core) (trap : Handle) (room : Option Nat) (wanted : Bool) : Reply × Core :=
  match c.lookup trap with
  | some (.trap t) =>
    let blocking := t.triggers.filter c.fires
    if blocking = [] then
      ({ result := .ok }, c.setObj trap (.trap { t with armed := true }))
    else
      ({ result := .failedPrecondition
         counts := (room.map fun _ => blocking.length).toList
         events := if wanted then (blocking.take (room.getD 0)).map (c.blockingEvent trap t.handler)
           else [] }, c)
  | _ => c.refuse .invalidArgument

/-- `WhpPumpEvents` up to the calls of the handlers. -/
def pumpEvents (c : Core) : Reply × Core :=
  ({ result := .ok, events := c.pendingEvents }, { c with pendingEvents := [] })

/-- `WhpQueryHandleSignalsState`. -/
def queryHandleSignalsState (c : Core) (h : Handle) : Reply × Core :=
  match c.lookup h with
  | none => c.refuse .invalidArgument
  | some _ => ({ result := .ok, signals := c.query h }, c)

/-! ### Closing -/

/-- Drops the pending events with the context of one of the triggers. -/
def purge (c : Core) (triggers : List TrapTrigger) : List PendingEvent :=
  c.pendingEvents.filter fun e => e.event.triggerContext ∉ triggers.map (·.context)

/-- What `WhpClose` does to the object before it frees the slot. -/
def release (c : Core) (h : Handle) : Obj → Core
  | .messagePipe e =>
    let s := c.pipes e.state
    c.setPipe e.state { s with closed := Function.update s.closed e.side true }
  | .dataPipeProducer i => c.setDataPipe i { c.dataPipes i with producerClosed := true }
  | .dataPipeConsumer i => c.setDataPipe i { c.dataPipes i with consumerClosed := true }
  | .trap t =>
    { c with pendingEvents := c.purge t.triggers, traps := c.traps.filter (· ≠ h) }
  | .message _ | .platform _ | .sharedBuffer _ => c

/-- What `WhpClose` tells the caller, and calls. -/
def released : Obj → Reply
  | .message msg =>
    { result := .ok, calls := (msg.destructor.map (·, msg.context)).toList }
  | .platform p => { result := .ok, natives := if p.owns then [(p.type, p.value)] else [] }
  | _ => { result := .ok }

/-- `WhpClose`. -/
def close (c : Core) (h : Handle) : Reply × Core :=
  match c.lookup h with
  | none => c.refuse .invalidArgument
  | some obj => (released obj, ((c.release h obj).free h).collectTrapEvents)

end Voodoo.Whp.Core
