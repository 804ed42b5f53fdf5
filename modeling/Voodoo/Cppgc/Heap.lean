import Voodoo.Cppgc.FreeList
import Voodoo.Lib.Machine

/-!
# The heap

Small objects are cut from a linear allocation buffer, which is a block of the free list or a new
page; a large one has a block of its own.  A collection marks what the persistents reach, and then
walks the pages from header to header: what is not marked is finalized, and neighbours are joined
into one free block.  A page with nothing left is destroyed.

The memory of the host comes in numbered blocks with arbitrary contents; the sandbox takes no page
back.  A destructor does nothing to the heap; one that drops a persistent does what an `assign` behind
the collection does, since the sweep reads no persistent.  `PostJob` runs its job on the calling
thread.
-/

namespace Voodoo.Cppgc

/-- `NormalPage::PayloadSize`. -/
def payloadSize (a : Arch) : Nat := kPageSize - a.granularity

/-- `RoundUp`, for an alignment that is a power of two. -/
def roundUp (value alignment : Nat) : Nat := (value + alignment - 1) / alignment * alignment

/-- What there is for a page: no memory, a block of the host, or one of the current sandbox. -/
inductive Host where
  | exhausted
  | plain
  | sandbox
  deriving DecidableEq

structure LinearAllocationBuffer where
  start : Address := ⟨0, 0⟩
  size : Nat := 0

/-- The members of `Heap` that have to do with memory. -/
structure Space where
  memory : Memory
  normalPages : List Nat := []
  /-- The blocks of the large objects. -/
  largeObjects : List Nat := []
  nextBlock : Nat := 0
  /-- The pages whose payload is in a sandbox. -/
  sandboxed : List Nat := []
  /-- The blocks that have been given back to the host. -/
  returned : List Nat := []
  freeList : FreeList := {}
  lab : LinearAllocationBuffer := {}
  /-- The objects whose destructors have run, in their order. -/
  finalized : List Address := []
  /-- The objects that `Allocate` has returned and whose destructors have not run. -/
  live : List Address := []

namespace Space

/-! ### Allocation -/

/-- `FreeList::Add` on the free list of the heap. -/
def addFree (a : Arch) (s : Space) (block : FreeBlock) : Space :=
  let (freeList, memory) := s.freeList.add a s.memory block
  { s with freeList, memory }

def replaceLinearAllocationBuffer (a : Arch) (s : Space) (start : Address) (size : Nat) : Space :=
  let s := if 0 < s.lab.size then s.addFree a ⟨s.lab.start, s.lab.size⟩ else s
  { s with lab := ⟨start, size⟩ }

/-- `NormalPage::Create`, with the page pushed. -/
def createPage (s : Space) (host : Host) : Space :=
  { s with
    normalPages := s.normalPages ++ [s.nextBlock]
    nextBlock := s.nextBlock + 1
    sandboxed := if host = .sandbox then s.nextBlock :: s.sandboxed else s.sandboxed }

/-- `RefillLinearAllocationBuffer`. -/
def refillLinearAllocationBuffer (a : Arch) (s : Space) (size : Nat) (host : Host) : Bool × Space :=
  match s.freeList.allocate a s.memory size with
  | (some block, freeList) =>
    (true, replaceLinearAllocationBuffer a { s with freeList } block.address block.size)
  | (none, freeList) =>
    if host = .exhausted then (false, { s with freeList })
    else
      (true, replaceLinearAllocationBuffer a (createPage { s with freeList } host) ⟨s.nextBlock, 0⟩
        (payloadSize a))

/-- `LinearAllocationBuffer::Allocate`, with the header of the object. -/
def place (a : Arch) (s : Space) (size gcInfoIndex : Nat) : Space :=
  { s with
    memory := Function.update s.memory s.lab.start (.create a size gcInfoIndex)
    lab := ⟨⟨s.lab.start.block, s.lab.start.offset + size⟩, s.lab.size - size⟩
    live := s.live ++ [s.lab.start] }

/-- `AllocateLarge`, where the host has memory. -/
def allocateLarge (a : Arch) (s : Space) (size gcInfoIndex : Nat) : Space :=
  { s with
    memory := Function.update s.memory ⟨s.nextBlock, 0⟩ (.create a size gcInfoIndex)
    largeObjects := s.largeObjects ++ [s.nextBlock]
    nextBlock := s.nextBlock + 1
    live := s.live ++ [⟨s.nextBlock, 0⟩] }

/-! ### Sweeping -/

/-- `HeapObjectHeader::Finalize`. -/
def finalize (s : Space) (object : Address) : Space :=
  { s with finalized := s.finalized ++ [object], live := s.live.erase object }

def unmark (s : Space) (object : Address) : Space :=
  { s with memory := Function.update s.memory object (s.memory object).unmark }

/-- `delete[]` of a block of the host. -/
def release (s : Space) (block : Nat) : Space := { s with returned := s.returned ++ [block] }

/-- `NormalPage::Destroy`: the payload in a sandbox stays there. -/
def destroyPage (s : Space) (page : Nat) : Space :=
  if page ∈ s.sandboxed then s else s.release page

/-- The variables of `SweepNormalPage`. -/
structure PageWalk where
  space : Space
  current : Nat := 0
  freeRunStart : Option Nat := none
  liveBytes : Nat := 0
  freeRuns : List FreeBlock := []

namespace PageWalk

/-- The run that is being joined, if there is one, up to `stop`. -/
def run (page stop : Nat) (w : PageWalk) : List FreeBlock :=
  w.freeRunStart.toList.map fun start => ⟨⟨page, start⟩, stop - start⟩

/-- A turn of the loop of `SweepNormalPage`. -/
def turn (a : Arch) (page : Nat) (w : PageWalk) : PageWalk :=
  let header := w.space.memory ⟨page, w.current⟩
  if header.isFree || !header.marked then
    { w with
      space := if header.isFree then w.space else w.space.finalize ⟨page, w.current⟩
      freeRunStart := some (w.freeRunStart.getD w.current)
      current := w.current + header.allocatedSize a }
  else
    { space := w.space.unmark ⟨page, w.current⟩
      liveBytes := w.liveBytes + header.allocatedSize a
      freeRuns := w.freeRuns ++ w.run page w.current
      freeRunStart := none
      current := w.current + header.allocatedSize a }

/-- The loop of `SweepNormalPage`. -/
def loop (a : Arch) (page : Nat) : Nat → PageWalk → Option PageWalk
  | 0, w => if w.current < payloadSize a then none else some w
  | fuel + 1, w => if w.current < payloadSize a then loop a page fuel (w.turn a page) else some w

end PageWalk

/-- `SweepNormalPage`. -/
def sweepNormalPage (a : Arch) (s : Space) (page : Nat) : Option PageWalk :=
  (PageWalk.loop a page (payloadSize a) { space := s }).map fun w =>
    { w with freeRuns := w.freeRuns ++ w.run page (payloadSize a) }

/-- The loop of `Sweep` over the pages, which returns those that survive. -/
def sweepNormalPages (a : Arch) : List Nat → Space → Option (List Nat × Space)
  | [], s => some ([], s)
  | page :: pages, s => do
    let w ← sweepNormalPage a s page
    if w.liveBytes = 0 then sweepNormalPages a pages (w.space.destroyPage page)
    else
      let (surviving, s) ← sweepNormalPages a pages (w.freeRuns.foldl (addFree a) w.space)
      return (page :: surviving, s)

/-- The loop of `Sweep` over the large objects. -/
def sweepLargeObjects : List Nat → Space → List Nat × Space
  | [], s => ([], s)
  | block :: blocks, s =>
    if (s.memory ⟨block, 0⟩).marked then
      let (surviving, s) := sweepLargeObjects blocks (s.unmark ⟨block, 0⟩)
      (block :: surviving, s)
    else sweepLargeObjects blocks ((s.finalize ⟨block, 0⟩).release block)

def sweep (a : Arch) (s : Space) : Option Space := do
  let s := replaceLinearAllocationBuffer a s ⟨0, 0⟩ 0
  let s := { s with freeList := {} }
  let (normalPages, s) ← sweepNormalPages a s.normalPages s
  let (largeObjects, s) := sweepLargeObjects s.largeObjects s
  return { s with normalPages, largeObjects }

end Space

/-! ### Persistents -/

/-- `PersistentRegion`: the nodes of all slabs, each with its owner while it is used, and the free
ones from the head of their list. -/
structure PersistentRegion where
  nodes : List (Option Nat) := []
  freeList : List Nat := []

namespace PersistentRegion

/-- `AllocateNode`, which adds a slab of 256 nodes where none is free. -/
def allocateNode (r : PersistentRegion) (owner : Nat) : Nat × PersistentRegion :=
  match r.freeList with
  | node :: rest => (node, { nodes := r.nodes.set node (some owner), freeList := rest })
  | [] =>
    let nodes := r.nodes ++ List.replicate 256 none
    let node := r.nodes.length + 255
    (node, { nodes := nodes.set node (some owner)
             freeList := (List.range' r.nodes.length 255).reverse })

def freeNode (r : PersistentRegion) (node : Nat) : PersistentRegion :=
  { nodes := r.nodes.set node none, freeList := node :: r.freeList }

/-- The owners that `Iterate` traces, in its order. -/
def owners (r : PersistentRegion) : List Nat := r.nodes.filterMap id

/-- The free list that `Iterate` leaves behind. -/
def iterate (r : PersistentRegion) : PersistentRegion :=
  { r with freeList := ((List.range r.nodes.length).filter fun i => r.nodes[i]? == some none).reverse }

end PersistentRegion

/-- `BasicPersistent`. -/
structure BasicPersistent where
  value : Option Address := none
  node : Option Nat := none

/-- The persistents of one kind, with their region. -/
structure Persistents where
  region : PersistentRegion := {}
  handles : Nat → BasicPersistent := fun _ => {}

namespace Persistents

/-- `Assign`; `Clear` and the destructor assign null. -/
def assign (p : Persistents) (owner : Nat) (raw : Option Address) : Persistents :=
  let region := match (p.handles owner).node with
    | none => p.region
    | some node => p.region.freeNode node
  match raw with
  | none => { region, handles := Function.update p.handles owner {} }
  | some object =>
    let (node, region) := region.allocateNode owner
    { region, handles := Function.update p.handles owner ⟨some object, some node⟩ }

/-- The move constructor: the node of `source` gets the new owner. -/
def move (p : Persistents) (owner source : Nat) : Persistents :=
  let region := match (p.handles source).node with
    | none => p.region
    | some node => { p.region with nodes := p.region.nodes.set node (some owner) }
  { region
    handles := Function.update (Function.update p.handles owner (p.handles source)) source {} }

/-- What `Iterate` finds to trace: the owners whose value is not null. -/
def traced (p : Persistents) : List (Nat × Address) :=
  p.region.owners.filterMap fun owner => (p.handles owner).value.map (owner, ·)

/-- `ClearFromGC`. -/
def clear (p : Persistents) (owner : Nat) : Persistents :=
  { p with handles := Function.update p.handles owner { p.handles owner with value := none } }

end Persistents

/-! ### Marking -/

/-- What `Trace` visits in an object. -/
inductive Field where
  | member (target : Option Address)
  | weakMember (target : Option Address)

/-- The object that a field refers to. -/
def Field.target : Field → Option Address
  | .member target => target
  | .weakMember target => target

/-- Where a weak reference is. -/
inductive Slot where
  | weakMember (object : Address) (index : Nat)
  | weakPersistent (owner : Nat)
  deriving DecidableEq

/-- `MarkingVisitor`, with the memory its marks are in. -/
structure MarkingVisitor where
  memory : Memory
  worklist : List Address := []
  weakEdges : List (Address × Slot) := []

namespace MarkingVisitor

/-- `Visit`. -/
def visit (v : MarkingVisitor) (target : Address) : MarkingVisitor :=
  if (v.memory target).marked then v
  else { v with
    memory := Function.update v.memory target (v.memory target).mark
    worklist := target :: v.worklist }

/-- `VisitWeak`. -/
def visitWeak (v : MarkingVisitor) (target : Address) (slot : Slot) : MarkingVisitor :=
  { v with weakEdges := v.weakEdges ++ [(target, slot)] }

/-- `Visitor::Trace` of one field. -/
def traceField (object : Address) (v : MarkingVisitor) (field : Field × Nat) : MarkingVisitor :=
  match field.1 with
  | .member (some target) => v.visit target
  | .weakMember (some target) => v.visitWeak target (.weakMember object field.2)
  | .member none => v
  | .weakMember none => v

/-- The trace function of an object. -/
def trace (contents : Address → List Field) (v : MarkingVisitor) (object : Address) :
    MarkingVisitor :=
  (contents object).zipIdx.foldl (traceField object) v

def runToFixpoint (contents : Address → List Field) : Nat → MarkingVisitor → Option MarkingVisitor
  | 0, v => if v.worklist.isEmpty then some v else none
  | fuel + 1, v =>
    match v.worklist with
    | [] => some v
    | object :: rest => runToFixpoint contents fuel (trace contents { v with worklist := rest } object)

end MarkingVisitor

/-! ### The heap -/

structure Heap where
  space : Space
  /-- What is in an object. -/
  contents : Address → List Field := fun _ => []
  strongPersistents : Persistents := {}
  weakPersistents : Persistents := {}

namespace Heap

/-- The callback of a weak edge. -/
def clear (h : Heap) : Slot → Heap
  | .weakMember object index =>
    { h with
      contents := Function.update h.contents object
        ((h.contents object).set index (.weakMember none)) }
  | .weakPersistent owner => { h with weakPersistents := h.weakPersistents.clear owner }

/-- `ProcessWeakEdges` of one edge. -/
def processWeakEdge (h : Heap) (edge : Address × Slot) : Heap :=
  if (h.space.memory edge.1).marked then h else h.clear edge.2

/-- `Mark`. -/
def mark (h : Heap) : Option Heap := do
  let v : MarkingVisitor := { memory := h.space.memory }
  let v := h.strongPersistents.traced.foldl (fun v p => v.visit p.2) v
  let v ← v.runToFixpoint h.contents h.space.live.length
  let v := h.weakPersistents.traced.foldl (fun v p => v.visitWeak p.2 (.weakPersistent p.1)) v
  let h := { h with
    space := { h.space with memory := v.memory }
    strongPersistents := { h.strongPersistents with region := h.strongPersistents.region.iterate }
    weakPersistents := { h.weakPersistents with region := h.weakPersistents.region.iterate } }
  return v.weakEdges.foldl processWeakEdge h

def sweep (a : Arch) (h : Heap) : Option Heap := do
  let space ← h.space.sweep a
  return { h with space }

def collectGarbage (a : Arch) (h : Heap) : Option Heap := do
  let h ← h.mark
  h.sweep a

/-- An object in the linear allocation buffer; its constructor has not run yet. -/
def place (a : Arch) (h : Heap) (size gcInfoIndex : Nat) : Heap :=
  { h with
    space := h.space.place a size gcInfoIndex
    contents := Function.update h.contents h.space.lab.start [] }

/-- `AllocateNormal`; `host` and `retry` are what there is for a page before and behind a collection.
Where it is nothing twice, the process is aborted. -/
def allocateNormal (a : Arch) (h : Heap) (size gcInfoIndex : Nat) (host retry : Host) :
    Option Heap := do
  if h.space.lab.size < size then
    let (ok, space) := h.space.refillLinearAllocationBuffer a size host
    let h := { h with space }
    if ok then return h.place a size gcInfoIndex
    else
      let h ← h.collectGarbage a
      let (ok, space) := h.space.refillLinearAllocationBuffer a size retry
      let h := { h with space }
      if ok then return h.place a size gcInfoIndex else return h
  else return h.place a size gcInfoIndex

/-- `AllocateLarge`. -/
def allocateLarge (a : Arch) (h : Heap) (size gcInfoIndex : Nat) (host : Host) : Heap :=
  if host = .exhausted then h
  else
    { h with
      space := h.space.allocateLarge a size gcInfoIndex
      contents := Function.update h.contents ⟨h.space.nextBlock, 0⟩ [] }

/-- `Allocate`; an object that is too large aborts the process. -/
def allocate (a : Arch) (h : Heap) (objectSize gcInfoIndex : Nat) (host retry : Host) :
    Option Heap :=
  let allocationSize := roundUp (a.granularity + objectSize) a.granularity
  if HeapObjectHeader.kMaxSize < allocationSize then some h
  else if kLargeObjectSizeThreshold ≤ allocationSize then
    some (h.allocateLarge a allocationSize gcInfoIndex host)
  else h.allocateNormal a allocationSize gcInfoIndex host retry

/-- What the program does with the heap. -/
inductive Action where
  | allocate (objectSize gcInfoIndex : Nat) (host retry : Host)
  /-- The members of an object are set. -/
  | write (object : Address) (fields : List Field)
  | assign (owner : Nat) (raw : Option Address)
  | move (owner source : Nat)
  | assignWeak (owner : Nat) (raw : Option Address)
  | moveWeak (owner source : Nat)
  | collectGarbage

/-- One action; where it has no result the heap stays as it is. -/
def step (a : Arch) (h : Heap) : Action → Heap
  | .allocate objectSize gcInfoIndex host retry =>
    (h.allocate a objectSize gcInfoIndex host retry).getD h
  | .write object fields => { h with contents := Function.update h.contents object fields }
  | .assign owner raw => { h with strongPersistents := h.strongPersistents.assign owner raw }
  | .move owner source => { h with strongPersistents := h.strongPersistents.move owner source }
  | .assignWeak owner raw => { h with weakPersistents := h.weakPersistents.assign owner raw }
  | .moveWeak owner source => { h with weakPersistents := h.weakPersistents.move owner source }
  | .collectGarbage => (h.collectGarbage a).getD h

end Heap

end Voodoo.Cppgc
