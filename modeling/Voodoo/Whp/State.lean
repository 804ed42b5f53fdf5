import Mathlib.Algebra.GroupWithZero.Nat
import Mathlib.Data.Bool.Basic
import Voodoo.Wire.Value

/-!
# The state of the core

What `Core` in `core.cc` holds: the table of slots, its free list, the traps and the events waiting
to be delivered.  An object lives in the slot of its handle.  What several objects share by pointer
is kept apart and named by a number: pipes, data pipes and the memory of shared buffers.

Not in the source is the serial number of every object, which stands for its address; a trigger
remembers that of the object it was registered for, and a pending event those of the trap it comes
from and of the object it reports.  Nothing the core does depends on them.
-/

namespace Voodoo.Whp

open List

/-! ### Results and signals -/

/-- The `WHP_RESULT_` values the core returns. -/
inductive Result where
  | ok | cancelled | invalidArgument | notFound | resourceExhausted | failedPrecondition
  | outOfRange | busy | shouldWait
  deriving DecidableEq

abbrev Signals := BitVec 32

def readable : Signals := 1
def writable : Signals := 2
def peerClosed : Signals := 4

structure SignalsState where
  satisfied : Signals := 0
  satisfiable : Signals := 0

/-- `WHP_TRIGGER_CONDITION_SIGNALS_UNSATISFIABLE`; any other value asks for satisfied signals. -/
def unsatisfiable : UInt32 := 1

/-! ### Objects -/

structure MessageObj where
  bytes : List UInt8 := []
  handles : List Handle := []
  committed : Bool := false
  context : Nat := 0
  serializer : Option Nat := none
  destructor : Option Nat := none
  deriving DecidableEq

/-- `PipeEnd`: one of the two ends, `0` (`false`) or `1` (`true`), of a pipe state. -/
structure PipeEnd where
  state : Nat
  side : Bool
  deriving DecidableEq

/-- The other end of the same pipe. -/
def PipeEnd.other (e : PipeEnd) : PipeEnd := ⟨e.state, !e.side⟩

theorem PipeEnd.ne_other (e : PipeEnd) : e ≠ e.other := fun h =>
  Bool.not_ne_self e.side (congrArg PipeEnd.side h).symm

@[simp] theorem PipeEnd.other_other (e : PipeEnd) : e.other.other = e := by
  unfold other
  rw [Bool.not_not]

/-- `PipeState`: what is queued for each end, whether it is closed, and its quotas. -/
structure PipeState where
  queues : Bool → List MessageObj := fun _ => []
  closed : Bool → Bool := fun _ => false
  quotaCount : Bool → Nat := fun _ => 2 ^ 64 - 1
  quotaBytes : Bool → Nat := fun _ => 2 ^ 64 - 1

/-- `QueueBytes`. -/
def queueBytes (queue : List MessageObj) : Nat := (queue.map (·.bytes.length)).sum

structure TrapTrigger where
  watched : Handle
  signals : Signals
  condition : UInt32
  context : Nat
  /-- The object `watched` stood for when the trigger was added. -/
  object : Nat
  deriving DecidableEq

structure TrapObj where
  handler : Nat
  triggers : List TrapTrigger := []
  armed : Bool := false
  deriving DecidableEq

structure DataPipeState where
  elementSize : UInt32 := 1
  capacity : UInt32 := 65536
  buf : List UInt8
  r : UInt32 := 0
  w : UInt32 := 0
  available : UInt32 := 0
  producerClosed : Bool := false
  consumerClosed : Bool := false
  /-- Where the buffer handed out by `WhpBeginWriteData` starts, and how long it is. -/
  twoPhaseWrite : Option UInt32 := none
  twoPhaseWriteMax : UInt32 := 0
  twoPhaseRead : Option UInt32 := none
  twoPhaseReadMax : UInt32 := 0

structure PlatformObj where
  type : UInt32
  value : Nat
  owns : Bool := true
  deriving DecidableEq

structure SharedBufferObj where
  size : Nat
  /-- The platform handles of a wrapped region, as types and values. -/
  platforms : List (UInt32 × Nat) := []
  platOwns : Bool := false
  guid : Nat × Nat := (0, 0)
  accessMode : UInt32 := 0

/-- `HandleKind` and the object of that kind; a free slot has none. -/
inductive Obj where
  | messagePipe (pipe : PipeEnd)
  | message (msg : MessageObj)
  | trap (trap : TrapObj)
  | dataPipeProducer (state : Nat)
  | dataPipeConsumer (state : Nat)
  | sharedBuffer (buffer : Nat)
  | platform (platform : PlatformObj)
  deriving DecidableEq

structure Slot where
  obj : Option Obj := none
  /-- When the object was allocated. -/
  serial : Nat := 0

/-! ### The core -/

structure TrapEvent where
  triggerContext : Nat
  result : Result
  signalsState : SignalsState := {}

structure PendingEvent where
  handler : Nat
  event : TrapEvent
  /-- The trap it comes from. -/
  trap : Nat
  /-- The object the trigger was registered for. -/
  registered : Option Nat := none
  /-- The object whose signals the event reports, if there was one. -/
  reported : Option Nat := none

structure Core where
  /-- The first slot is not used. -/
  slots : List Slot := [{}]
  /-- The last one freed comes first. -/
  freeList : List Handle := []
  traps : List Handle := []
  pendingEvents : List PendingEvent := []
  pipes : Nat → PipeState := fun _ => {}
  pipeCount : Nat := 0
  dataPipes : Nat → DataPipeState := fun _ => { buf := [] }
  dataPipeCount : Nat := 0
  buffers : Nat → SharedBufferObj := fun _ => { size := 0 }
  bufferCount : Nat := 0
  /-- The serial number of the next object. -/
  nextSerial : Nat := 0

namespace Core

/-- `Lookup`: what the handle stands for, if anything. -/
def lookup (c : Core) (h : Handle) : Option Obj :=
  if h = 0 then none else c.slots[h]?.bind (·.obj)

def serial (c : Core) (h : Handle) : Nat := (c.slots[h]?.map (·.serial)).getD 0

/-- The number `Alloc` gives out. -/
def nextHandle (c : Core) : Handle := c.freeList.headD c.slots.length

/-- `Alloc`. -/
def alloc (c : Core) (obj : Obj) : Core :=
  match c.freeList with
  | h :: rest =>
    { c with
      freeList := rest
      slots := c.slots.set h ⟨some obj, c.nextSerial⟩
      nextSerial := c.nextSerial + 1 }
  | [] =>
    { c with
      slots := c.slots ++ [⟨some obj, c.nextSerial⟩]
      nextSerial := c.nextSerial + 1 }

/-- `Free`. -/
def free (c : Core) (h : Handle) : Core :=
  if h = 0 ∨ c.slots.length ≤ h then c
  else
    { c with
      slots := c.slots.modify h (fun s => { s with obj := none })
      freeList := h :: c.freeList }

section fields

variable (c : Core) (h : Handle) (obj : Obj)

@[simp] theorem alloc_traps : (c.alloc obj).traps = c.traps := by unfold alloc; split <;> rfl
@[simp] theorem alloc_pendingEvents : (c.alloc obj).pendingEvents = c.pendingEvents := by unfold alloc; split <;> rfl
@[simp] theorem alloc_pipes : (c.alloc obj).pipes = c.pipes := by unfold alloc; split <;> rfl
@[simp] theorem alloc_pipeCount : (c.alloc obj).pipeCount = c.pipeCount := by unfold alloc; split <;> rfl
@[simp] theorem alloc_dataPipes : (c.alloc obj).dataPipes = c.dataPipes := by unfold alloc; split <;> rfl
@[simp] theorem alloc_dataPipeCount : (c.alloc obj).dataPipeCount = c.dataPipeCount := by unfold alloc; split <;> rfl
@[simp] theorem alloc_buffers : (c.alloc obj).buffers = c.buffers := by unfold alloc; split <;> rfl
@[simp] theorem alloc_bufferCount : (c.alloc obj).bufferCount = c.bufferCount := by unfold alloc; split <;> rfl
@[simp] theorem alloc_nextSerial : (c.alloc obj).nextSerial = c.nextSerial + 1 := by unfold alloc; split <;> rfl

@[simp] theorem free_traps : (c.free h).traps = c.traps := by unfold free; split <;> rfl
@[simp] theorem free_pendingEvents : (c.free h).pendingEvents = c.pendingEvents := by unfold free; split <;> rfl
@[simp] theorem free_pipes : (c.free h).pipes = c.pipes := by unfold free; split <;> rfl
@[simp] theorem free_pipeCount : (c.free h).pipeCount = c.pipeCount := by unfold free; split <;> rfl
@[simp] theorem free_dataPipes : (c.free h).dataPipes = c.dataPipes := by unfold free; split <;> rfl
@[simp] theorem free_dataPipeCount : (c.free h).dataPipeCount = c.dataPipeCount := by unfold free; split <;> rfl
@[simp] theorem free_buffers : (c.free h).buffers = c.buffers := by unfold free; split <;> rfl
@[simp] theorem free_bufferCount : (c.free h).bufferCount = c.bufferCount := by unfold free; split <;> rfl
@[simp] theorem free_nextSerial : (c.free h).nextSerial = c.nextSerial := by unfold free; split <;> rfl

end fields

/-- A change to the object of a live handle, which stays the same object. -/
def setObj (c : Core) (h : Handle) (obj : Obj) : Core :=
  { c with slots := c.slots.modify h (fun s => { s with obj := some obj }) }

def setPipe (c : Core) (i : Nat) (s : PipeState) : Core :=
  { c with pipes := Function.update c.pipes i s }

def setDataPipe (c : Core) (i : Nat) (s : DataPipeState) : Core :=
  { c with dataPipes := Function.update c.dataPipes i s }

@[simp] theorem setPipe_self (c : Core) (i : Nat) (s : PipeState) : (c.setPipe i s).pipes i = s :=
  Function.update_self ..

theorem setPipe_of_ne (c : Core) {i j : Nat} (s : PipeState) (h : j ≠ i) :
    (c.setPipe i s).pipes j = c.pipes j := Function.update_of_ne h ..

@[simp] theorem setDataPipe_self (c : Core) (i : Nat) (s : DataPipeState) :
    (c.setDataPipe i s).dataPipes i = s := Function.update_self ..

theorem setDataPipe_of_ne (c : Core) {i j : Nat} (s : DataPipeState) (h : j ≠ i) :
    (c.setDataPipe i s).dataPipes j = c.dataPipes j := Function.update_of_ne h ..

/-! ### The handle table -/

/-- The free list holds the free numbers, each once. -/
structure Table (c : Core) : Prop where
  length_pos : 0 < c.slots.length
  nodup : c.freeList.Nodup
  mem_iff : ∀ h, h ∈ c.freeList ↔ 0 < h ∧ h < c.slots.length ∧ c.lookup h = none

section table

variable {c : Core} {h g : Handle} {obj : Obj}

@[simp] theorem lookup_zero (c : Core) : c.lookup 0 = none := if_pos rfl

theorem lookup_pos (h0 : h ≠ 0) : c.lookup h = c.slots[h]?.bind (·.obj) := if_neg h0

theorem lookup_of_length_le (hle : c.slots.length ≤ h) : c.lookup h = none := by
  unfold lookup
  split
  · rfl
  · rw [getElem?_eq_none hle, Option.bind_none]

theorem ne_zero_of_lookup {o : Obj} (h' : c.lookup h = some o) : h ≠ 0 := by
  rintro rfl
  rw [lookup_zero] at h'
  cases h'

theorem lt_length_of_lookup {o : Obj} (h' : c.lookup h = some o) : h < c.slots.length := by
  by_contra hle
  rw [lookup_of_length_le (Nat.le_of_not_lt hle)] at h'
  cases h'

theorem lookup_modify {f : Slot → Slot} (h0 : h ≠ 0) (hlt : h < c.slots.length) (g : Handle) :
    ({ c with slots := c.slots.modify h f } : Core).lookup g =
      if g = h then (f c.slots[h]).obj else c.lookup g := by
  by_cases hg : g = h
  · subst hg
    rw [if_pos rfl, lookup_pos h0]
    dsimp only
    rw [getElem?_modify_eq, getElem?_eq_getElem hlt]
    rfl
  · rw [if_neg hg, lookup, lookup]
    dsimp only
    rw [getElem?_modify_ne _ _ (Ne.symm hg)]

theorem lookup_setObj {o : Obj} (hlive : c.lookup h = some o) (obj : Obj) (g : Handle) :
    (c.setObj h obj).lookup g = if g = h then some obj else c.lookup g := by
  have hlt := lt_length_of_lookup hlive
  rw [setObj, lookup_modify (ne_zero_of_lookup hlive) hlt]

theorem lookup_free (c : Core) (h g : Handle) :
    (c.free h).lookup g = if g = h then none else c.lookup g := by
  unfold free
  split
  · rename_i hout
    split
    · rename_i hg
      subst hg
      rcases hout with rfl | hle
      · exact lookup_zero c
      · exact lookup_of_length_le hle
    · rfl
  · rename_i hin
    obtain ⟨h0, hlt⟩ := not_or.mp hin
    have hlt := Nat.lt_of_not_le hlt
    exact lookup_modify (f := fun s => { s with obj := none }) h0 hlt g

theorem Table.nextHandle_free (ht : c.Table) : c.lookup c.nextHandle = none := by
  unfold nextHandle
  cases hf : c.freeList with
  | nil => exact lookup_of_length_le (Nat.le_refl _)
  | cons h rest => exact ((ht.mem_iff h).mp (by rw [hf]; exact mem_cons_self)).2.2

theorem Table.nextHandle_pos (ht : c.Table) : 0 < c.nextHandle := by
  unfold nextHandle
  cases hf : c.freeList with
  | nil => exact ht.length_pos
  | cons h rest => exact ((ht.mem_iff h).mp (by rw [hf]; exact mem_cons_self)).1

theorem Table.lookup_alloc (ht : c.Table) (obj : Obj) (g : Handle) :
    (c.alloc obj).lookup g = if g = c.nextHandle then some obj else c.lookup g := by
  unfold alloc nextHandle
  cases hf : c.freeList with
  | nil =>
    have h0 : c.slots.length ≠ 0 := Nat.ne_of_gt ht.length_pos
    by_cases hg : g = c.slots.length
    · rw [hg, headD_nil, if_pos rfl, lookup_pos h0]
      dsimp only
      rw [getElem?_concat_length]
      rfl
    · rw [headD_nil, if_neg hg, lookup, lookup]
      dsimp only
      rcases Nat.lt_or_gt_of_ne hg with hlt | hgt
      · rw [getElem?_append_left hlt]
      · rw [getElem?_eq_none (Nat.le_of_lt hgt), getElem?_eq_none (by
          rw [length_append]
          exact hgt)]
  | cons h rest =>
    obtain ⟨hpos, hlt, -⟩ := (ht.mem_iff h).mp (by rw [hf]; exact mem_cons_self)
    by_cases hg : g = h
    · rw [hg, headD_cons, if_pos rfl, lookup_pos (Nat.ne_of_gt hpos)]
      dsimp only
      rw [getElem?_set_self hlt]
      rfl
    · rw [headD_cons, if_neg hg, lookup, lookup]
      dsimp only
      rw [getElem?_set_ne (Ne.symm hg)]

end table

end Core

end Voodoo.Whp
