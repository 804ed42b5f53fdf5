import Mathlib.Data.Sum.Basic
import Voodoo.Lib.SharedPtr
import Voodoo.Whp.Run

/-!
# Mapping shared buffers

`WhpMapBuffer` and `WhpUnmapBuffer`, and what the memory of the buffers adds to the other functions of
`core.cc`.  Beside the core there are the places of the buffers, the table `Core::maps`, and the buffers
whose destructor has run: when the last `shared_ptr` to one goes, out of a slot or out of the table.

Where memory is put, and whether `mmap` fails, is the system's choice (`System`).  The host has
addresses of 64 bits and is not Windows.

* `mapBuffer_inside_iff`: a buffer is mapped beyond its end exactly if `offset + num_bytes` wraps to
  something that is in it;
* `not_mapBuffer_inside`: eight bytes in front of a buffer.
-/

namespace Voodoo.Whp

open List Option Function

/-! ### The memory -/

/-- Where the memory of a buffer is. -/
structure Backing where
  /-- The address and the length of `bytes`, when it is not empty. -/
  bytes : Option (Nat × Nat) := none
  osBase : Option Nat := none

structure MappedRegion where
  buf : Nat
  refs : Int32 := 0

structure Memory where
  core : Core := {}
  backing : Nat → Backing := fun _ => {}
  /-- `Core::maps`, with each address once. -/
  maps : List (Nat × MappedRegion) := []
  destroyed : List Nat := []

/-- Where memory is put if it is asked for, and whether `mmap` fails. -/
structure System where
  place : Nat
  mapFails : Bool := false

inductive MemOp where
  | createSharedBuffer (numBytes : UInt64) (system : System)
  | duplicateBufferHandle (buffer : Handle)
  | mapBuffer (buffer : Handle) (offset numBytes : UInt64) (system : System)
  | unmapBuffer (data : Nat)
  | wrapPlatformHandle (type : UInt32) (value : Nat)
  | unwrapPlatformHandle (handle : Handle)
  | wrapPlatformSharedMemoryRegion (natives : List (UInt32 × Nat)) (numBytes : UInt64)
      (guid : Nat × Nat) (accessMode : UInt32) (system : System)
  | unwrapPlatformSharedMemoryRegion (handle : Handle) (room : Nat) (wanted : Bool)
  | close (handle : Handle)

namespace Memory

def refuse (m : Memory) (result : Result) : Reply × Memory := ({ result := result }, m)

/-- A `shared_ptr` to the buffer is in a slot or in the table. -/
def held (m : Memory) (i : Nat) : Bool :=
  (List.range m.core.slots.length).any (fun h => m.core.lookup h = some (.sharedBuffer i)) ||
    m.maps.any (fun e => e.2.buf = i)

def back (m : Memory) (i : Nat) (b : Backing) : Memory :=
  { m with backing := Function.update m.backing i b }

/-- `~SharedBufferObj`, with the native handles it closes. -/
def destroy (m : Memory) (i : Nat) : List (UInt32 × Nat) × Memory :=
  let s := m.core.buffers i
  (if s.platOwns then s.platforms else [],
    { m.back i {} with
      core := m.core.setBuffer i { s with platOwns := false }
      destroyed := i :: m.destroyed })

/-- A `shared_ptr` to the buffer has gone. -/
def drop (m : Memory) (i : Nat) : List (UInt32 × Nat) × Memory :=
  if m.held i then ([], m) else m.destroy i

/-- `WhpCreateSharedBuffer`. -/
def createSharedBuffer (m : Memory) (numBytes : UInt64) (system : System) : Reply × Memory :=
  if numBytes = 0 then m.refuse .invalidArgument
  else
    let (reply, core) := m.core.createSharedBuffer numBytes
    (reply, { m.back m.core.bufferCount { bytes := some (system.place, numBytes.toNat) } with
      core })

/-- `WhpDuplicateBufferHandle`. -/
def duplicateBufferHandle (m : Memory) (buffer : Handle) : Reply × Memory :=
  let (reply, core) := m.core.duplicateBufferHandle buffer
  (reply, { m with core })

/-- `EnsureMapped`; `none` where it fails. -/
def ensureMapped (m : Memory) (i : Nat) (system : System) : Option Memory :=
  let b := m.backing i
  let s := m.core.buffers i
  if b.osBase.isSome ∨ b.bytes.isSome then some m
  else
    match s.platforms with
    | [] => none
    | (type, _) :: _ =>
      if s.size = 0 then none
      else if type = Core.machPort then
        some (m.back i { b with bytes := some (system.place, s.size) })
      else if type ≠ Core.fileDescriptor then none
      else if system.mapFails then none
      else some (m.back i { b with osBase := some system.place })

/-- The size `WhpMapBuffer` checks against. -/
def span (m : Memory) (i : Nat) : Nat :=
  match (m.backing i).osBase with
  | some _ => (m.core.buffers i).size
  | none => ((m.backing i).bytes.map (·.2)).getD 0

/-- `os_base`, or else `bytes.data()`. -/
def base (m : Memory) (i : Nat) : Nat :=
  (m.backing i).osBase.getD (((m.backing i).bytes.map (·.1)).getD 0)

/-- `c.maps[p]` is made to hold the buffer, once more. -/
def enter (m : Memory) (p i : Nat) : List (UInt32 × Nat) × Memory :=
  match m.maps.lookup p with
  | none => ([], { m with maps := (p, ⟨i, 0 + 1⟩) :: m.maps })
  | some r =>
    drop { m with maps := (p, ⟨i, r.refs + 1⟩) :: m.maps.filter (·.1 ≠ p) } r.buf

/-- `WhpMapBuffer`. -/
def mapBuffer (m : Memory) (buffer : Handle) (offset numBytes : UInt64) (system : System) :
    Reply × Memory :=
  match m.core.lookup buffer with
  | some (.sharedBuffer i) =>
    match m.ensureMapped i system with
    | none => m.refuse .failedPrecondition
    | some m =>
      if m.span i < (offset + numBytes).toNat then m.refuse .outOfRange
      else
        let p := (m.base i + offset.toNat) % 2 ^ 64
        let (natives, m') := m.enter p i
        ({ result := .ok, counts := [p], natives := natives }, m')
  | _ => m.refuse .invalidArgument

/-- `WhpUnmapBuffer`. -/
def unmapBuffer (m : Memory) (data : Nat) : Reply × Memory :=
  match m.maps.lookup data with
  | none => m.refuse .invalidArgument
  | some r =>
    if r.refs ≤ 0 then m.refuse .invalidArgument
    else if r.refs - 1 = 0 then
      let (natives, m') := drop { m with maps := m.maps.filter (·.1 ≠ data) } r.buf
      ({ result := .ok, natives := natives }, m')
    else
      ({ result := .ok },
        { m with maps := (data, { r with refs := r.refs - 1 }) :: m.maps.filter (·.1 ≠ data) })

/-- `WhpWrapPlatformHandle`. -/
def wrapPlatformHandle (m : Memory) (type : UInt32) (value : Nat) : Reply × Memory :=
  let (reply, core) := m.core.wrapPlatformHandle type value
  (reply, { m with core })

/-- `WhpUnwrapPlatformHandle`. -/
def unwrapPlatformHandle (m : Memory) (handle : Handle) : Reply × Memory :=
  let (reply, core) := m.core.unwrapPlatformHandle handle
  (reply, { m with core })

/-- `WhpWrapPlatformSharedMemoryRegion`; a Mach port is given memory at once. -/
def wrapPlatformSharedMemoryRegion (m : Memory) (natives : List (UInt32 × Nat)) (numBytes : UInt64)
    (guid : Nat × Nat) (accessMode : UInt32) (system : System) : Reply × Memory :=
  let (reply, core) := m.core.wrapPlatformSharedMemoryRegion natives numBytes guid accessMode
  if reply.result = .ok then
    let bytes := if natives.head?.any (·.1 = Core.machPort) then
      some (system.place, numBytes.toNat) else none
    (reply, { m.back m.core.bufferCount { bytes } with core })
  else (reply, m)

/-- `WhpUnwrapPlatformSharedMemoryRegion`. -/
def unwrapPlatformSharedMemoryRegion (m : Memory) (handle : Handle) (room : Nat) (wanted : Bool) :
    Reply × Memory :=
  let (reply, core) := m.core.unwrapPlatformSharedMemoryRegion handle room wanted
  match m.core.lookup handle with
  | some (.sharedBuffer i) =>
    if reply.result = .ok then (reply, (drop { m with core } i).2) else (reply, m)
  | _ => (reply, m)

/-- `WhpClose`. -/
def close (m : Memory) (handle : Handle) : Reply × Memory :=
  let (reply, core) := m.core.close handle
  match m.core.lookup handle with
  | some (.sharedBuffer i) =>
    let (natives, m') := drop { m with core } i
    ({ reply with natives := natives }, m')
  | _ => (reply, { m with core })

def perform (m : Memory) : MemOp → Reply × Memory
  | .createSharedBuffer n system => m.createSharedBuffer n system
  | .duplicateBufferHandle b => m.duplicateBufferHandle b
  | .mapBuffer b offset n system => m.mapBuffer b offset n system
  | .unmapBuffer data => m.unmapBuffer data
  | .wrapPlatformHandle type value => m.wrapPlatformHandle type value
  | .unwrapPlatformHandle h => m.unwrapPlatformHandle h
  | .wrapPlatformSharedMemoryRegion ns n guid mode system =>
    m.wrapPlatformSharedMemoryRegion ns n guid mode system
  | .unwrapPlatformSharedMemoryRegion h room wanted =>
    m.unwrapPlatformSharedMemoryRegion h room wanted
  | .close h => m.close h

def step (m : Memory) (op : MemOp) : Memory := (m.perform op).2

/-! ### Where memory is put -/

/-- The addresses of a buffer: the first, and how many. -/
def range (m : Memory) (i : Nat) : Option (Nat × Nat) :=
  match (m.backing i).osBase with
  | some a => some (a, (m.core.buffers i).size)
  | none => (m.backing i).bytes

/-- No buffer has any of the addresses. -/
def Unused (m : Memory) (place size : Nat) : Prop :=
  0 < place ∧ place + size < 2 ^ 64 ∧
    ∀ i a n, m.range i = some (a, n) → place + size ≤ a ∨ a + n ≤ place

/-- The memory an operation asks the system for. -/
def asks (m : Memory) : MemOp → Option (Nat × System)
  | .createSharedBuffer n system => some (n.toNat, system)
  | .wrapPlatformSharedMemoryRegion ns n _ _ system =>
    if ns.head?.any (·.1 = Core.machPort) then some (n.toNat, system) else none
  | .mapBuffer b _ _ system =>
    match m.core.lookup b with
    | some (.sharedBuffer i) =>
      if m.range i = none then some ((m.core.buffers i).size, system) else none
    | _ => none
  | _ => none

/-- The system gives out unused memory. -/
def Placed (m : Memory) (op : MemOp) : Prop :=
  ∀ size system, m.asks op = some (size, system) → m.Unused system.place size

/-! ### Who keeps a buffer -/

end Memory

/-- The buffer a handle is to. -/
def Obj.buffer : Obj → Option Nat
  | .sharedBuffer i => some i
  | _ => none

namespace Core

variable {c c' : Core} {h : Handle} {o obj : Obj} {i : Nat}

def bufferAt (c : Core) (h : Handle) : Option Nat := (c.lookup h).bind Obj.buffer

theorem bufferAt_eq_some : c.bufferAt h = some i ↔ c.lookup h = some (.sharedBuffer i) := by
  unfold bufferAt
  constructor
  · intro hb
    cases hl : c.lookup h with
    | none =>
      rw [hl] at hb
      cases hb
    | some o =>
      rw [hl, bind_some] at hb
      cases o with
      | sharedBuffer j => rw [some.inj hb]
      | messagePipe e => cases hb
      | message m => cases hb
      | trap t => cases hb
      | dataPipeProducer j => cases hb
      | dataPipeConsumer j => cases hb
      | platform p => cases hb
  · intro hl
    rw [hl]
    rfl

theorem bufferAt_alloc (ht : c.Table) (obj : Obj) :
    (c.alloc obj).bufferAt = Function.update c.bufferAt c.nextHandle obj.buffer := by
  funext g
  rw [bufferAt, ht.lookup_alloc, update_apply]
  by_cases hg : g = c.nextHandle
  · rw [if_pos hg, if_pos hg, bind_some]
  · rw [if_neg hg, if_neg hg, bufferAt]

theorem bufferAt_free (c : Core) (h : Handle) :
    (c.free h).bufferAt = Function.update c.bufferAt h none := by
  funext g
  rw [bufferAt, lookup_free, update_apply]
  by_cases hg : g = h
  · rw [if_pos hg, if_pos hg, bind_none]
  · rw [if_neg hg, if_neg hg, bufferAt]

theorem bufferAt_congr (hslots : c'.slots = c.slots) : c'.bufferAt = c.bufferAt := by
  funext g
  rw [bufferAt, bufferAt, lookup, lookup, hslots]

theorem Collected.bufferAt_eq (hc : Collected c c') : c'.bufferAt = c.bufferAt := by
  funext g
  rw [bufferAt, bufferAt]
  rcases hc.obj g with heq | ⟨t, hold, hnew⟩
  · rw [heq]
  · rw [hold, hnew]
    rfl

theorem Collected.buffers_eq (hc : Collected c c') :
    c'.buffers = c.buffers ∧ c'.bufferCount = c.bufferCount := by
  obtain ⟨slots, events, rfl, -⟩ := hc.rest
  exact ⟨rfl, rfl⟩

theorem release_slots (c : Core) (h : Handle) (o : Obj) : (c.release h o).slots = c.slots := by
  cases o <;> rfl

theorem release_freeList (c : Core) (h : Handle) (o : Obj) :
    (c.release h o).freeList = c.freeList := by
  cases o <;> rfl

theorem release_buffers (c : Core) (h : Handle) (o : Obj) :
    (c.release h o).buffers = c.buffers ∧ (c.release h o).bufferCount = c.bufferCount := by
  cases o <;> exact ⟨rfl, rfl⟩

theorem duplicateBufferHandle_cases (c : Core) (h : Handle) :
    (∃ i, c.lookup h = some (.sharedBuffer i) ∧ c.duplicateBufferHandle h =
      ({ result := .ok, handles := [c.nextHandle] }, c.alloc (.sharedBuffer i))) ∨
    c.duplicateBufferHandle h = c.refuse .invalidArgument := by
  unfold Core.duplicateBufferHandle
  split
  · rename_i i hl
    exact Or.inl ⟨i, hl, rfl⟩
  · exact Or.inr rfl

theorem wrapPlatformHandle_cases (c : Core) (type : UInt32) (value : Nat) :
    (wrappable (type, value) = true ∧ c.wrapPlatformHandle type value =
      ({ result := .ok, handles := [c.nextHandle] },
        c.alloc (.platform { type := type, value := value }))) ∨
    c.wrapPlatformHandle type value = c.refuse .invalidArgument := by
  unfold Core.wrapPlatformHandle
  split
  · rename_i hw
    exact Or.inl ⟨hw, rfl⟩
  · exact Or.inr rfl

theorem unwrapPlatformHandle_cases (c : Core) (h : Handle) :
    (∃ p, c.lookup h = some (.platform p) ∧ c.unwrapPlatformHandle h =
      ({ result := .ok, natives := [(p.type, p.value)] }, c.free h)) ∨
    c.unwrapPlatformHandle h = c.refuse .invalidArgument := by
  unfold Core.unwrapPlatformHandle
  split
  · rename_i p hl
    exact Or.inl ⟨p, hl, rfl⟩
  · exact Or.inr rfl

theorem wrapPlatformSharedMemoryRegion_cases (c : Core) (ns : List (UInt32 × Nat)) (n : UInt64)
    (guid : Nat × Nat) (mode : UInt32) :
    (n ≠ 0 ∧ ns ≠ [] ∧ ns.all wrappable = true ∧ c.wrapPlatformSharedMemoryRegion ns n guid mode =
      ({ result := .ok, handles := [c.nextHandle] },
        (c.newBuffer
          { size := n.toNat, platforms := ns, platOwns := true, guid := guid
            accessMode := mode }).alloc (.sharedBuffer c.bufferCount))) ∨
    c.wrapPlatformSharedMemoryRegion ns n guid mode = c.refuse .invalidArgument := by
  unfold Core.wrapPlatformSharedMemoryRegion
  split
  · exact Or.inr rfl
  · rename_i hbad
    obtain ⟨hn, hlen⟩ := not_or.mp hbad
    split
    · rename_i hall
      exact Or.inl ⟨hn, fun hnil => hlen (Or.inl (by rw [hnil, length_nil])), hall, rfl⟩
    · exact Or.inr rfl

theorem unwrapPlatformSharedMemoryRegion_cases (c : Core) (h : Handle) (room : Nat)
    (wanted : Bool) :
    (∃ i counts, c.lookup h = some (.sharedBuffer i) ∧ wanted = true ∧
      (c.buffers i).platforms.length ≤ room ∧ c.unwrapPlatformSharedMemoryRegion h room wanted =
        ({ result := .ok, natives := (c.buffers i).platforms, counts := counts },
          (c.setBuffer i { c.buffers i with platOwns := false }).free h)) ∨
    ∃ reply, c.unwrapPlatformSharedMemoryRegion h room wanted = (reply, c) ∧
      reply.result ≠ .ok ∧ reply.natives = [] := by
  unfold Core.unwrapPlatformSharedMemoryRegion
  split
  · rename_i i hl
    dsimp only
    split
    · exact Or.inr ⟨_, rfl, nofun, rfl⟩
    · split
      · exact Or.inr ⟨_, rfl, nofun, rfl⟩
      · rename_i hroom
        obtain ⟨hwanted, hroom⟩ := not_or.mp hroom
        exact Or.inl ⟨i, _, hl, Bool.eq_true_of_not_eq_false hwanted, Nat.le_of_not_lt hroom, rfl⟩
  · exact Or.inr ⟨_, rfl, nofun, rfl⟩

/-- What `WhpClose` does to the handles of buffers. -/
theorem close_bufferAt (ht : c.Table) (h : Handle) : (c.close h).2.Table ∧
    (c.close h).2.bufferAt = Function.update c.bufferAt h none ∧
      (c.close h).2.buffers = c.buffers ∧ (c.close h).2.bufferCount = c.bufferCount := by
  unfold close
  cases hl : c.lookup h with
  | none =>
    have hnone : c.bufferAt h = none := by rw [bufferAt, hl, bind_none]
    exact ⟨ht, (update_eq_self_iff.mpr hnone.symm).symm, rfl, rfl⟩
  | some o =>
    have hrel : (c.release h o).lookup h = some o := by
      rw [lookup, release_slots]
      exact hl
    have hcol := collected_collectTrapEvents ((c.release h o).free h)
    have htrel : (c.release h o).Table := ht.congr (by rw [release_slots])
      (release_freeList c h o) fun g => by rw [lookup, lookup, release_slots]
    refine ⟨(htrel.free hrel).collected hcol, ?_, ?_, ?_⟩
    · rw [hcol.bufferAt_eq, bufferAt_free, bufferAt_congr (release_slots c h o)]
    · rw [hcol.buffers_eq.1, free_buffers, (release_buffers c h o).1]
    · rw [hcol.buffers_eq.2, free_bufferCount, (release_buffers c h o).2]

end Core

namespace Memory

variable {m m' m₁ : Memory} {h : Handle} {i j p : Nat} {x : Handle ⊕ Nat} {v : Option Nat}
  {r : MappedRegion} {system : System}

/-- The `shared_ptr`s to the buffers: those in the slots, and those in the table of addresses. -/
def points (m : Memory) : Handle ⊕ Nat → Option Nat :=
  Sum.elim m.core.bufferAt fun p => (m.maps.lookup p).map (·.buf)

theorem lookup_cons (maps : List (Nat × MappedRegion)) (p q : Nat) (r : MappedRegion) :
    ((p, r) :: maps).lookup q = if q = p then some r else maps.lookup q := by
  by_cases hq : q = p
  · rw [if_pos hq, hq, lookup_cons_self]
  · rw [if_neg hq, List.lookup_cons, beq_false_of_ne hq]

theorem lookup_filter_ne (maps : List (Nat × MappedRegion)) (p q : Nat) :
    (maps.filter (·.1 ≠ p)).lookup q = if q = p then none else maps.lookup q := by
  induction maps with
  | nil => rw [filter_nil, lookup_nil, ite_self]
  | cons e maps ih =>
    obtain ⟨a, r⟩ := e
    by_cases hap : a = p
    · subst hap
      rw [filter_cons_of_neg (by simp), ih, lookup_cons]
      by_cases hq : q = a
      · rw [if_pos hq, if_pos hq]
      · rw [if_neg hq, if_neg hq, if_neg hq]
    · rw [filter_cons_of_pos (by simpa using hap), lookup_cons, lookup_cons, ih]
      by_cases hqa : q = a
      · rw [if_pos hqa, if_pos hqa, if_neg (hqa ▸ hap)]
      · rw [if_neg hqa, if_neg hqa]

theorem lookup_put (maps : List (Nat × MappedRegion)) (p q : Nat) (r : MappedRegion) :
    ((p, r) :: maps.filter (·.1 ≠ p)).lookup q = if q = p then some r else maps.lookup q := by
  rw [lookup_cons, lookup_filter_ne]
  by_cases hq : q = p
  · rw [if_pos hq, if_pos hq]
  · rw [if_neg hq, if_neg hq, if_neg hq]

theorem mem_iff_lookup {maps : List (Nat × MappedRegion)} (hkeys : (maps.map (·.1)).Nodup) :
    (p, r) ∈ maps ↔ maps.lookup p = some r := by
  induction maps with
  | nil => simp
  | cons e maps ih =>
    obtain ⟨a, s⟩ := e
    rw [map_cons, nodup_cons] at hkeys
    rw [mem_cons, lookup_cons, Prod.mk.injEq]
    by_cases hpa : p = a
    · subst hpa
      have hno : (p, r) ∉ maps := fun hmem => hkeys.1 (List.mem_map_of_mem (f := (·.1)) hmem)
      rw [if_pos rfl, or_iff_left hno, Option.some.injEq, and_iff_right rfl]
      exact eq_comm
    · rw [if_neg hpa, or_iff_right (fun hand => hpa hand.1), ih hkeys.2]

theorem keys_filter {maps : List (Nat × MappedRegion)} (hkeys : (maps.map (·.1)).Nodup) (p : Nat) :
    ((maps.filter (·.1 ≠ p)).map (·.1)).Nodup :=
  hkeys.sublist (filter_sublist.map _)

theorem keys_put {maps : List (Nat × MappedRegion)} (hkeys : (maps.map (·.1)).Nodup) (p : Nat)
    (r : MappedRegion) : (((p, r) :: maps.filter (·.1 ≠ p)).map (·.1)).Nodup := by
  rw [map_cons]
  refine nodup_cons.mpr ⟨fun hmem => ?_, keys_filter hkeys p⟩
  obtain ⟨e, he, heq⟩ := List.mem_map.mp hmem
  exact of_decide_eq_true (mem_filter.mp he).2 heq

theorem points_put (m : Memory) (p : Nat) (r : MappedRegion) :
    points { m with maps := (p, r) :: m.maps.filter (·.1 ≠ p) } =
      Function.update m.points (.inr p) (some r.buf) := by
  unfold points
  rw [Sum.update_elim_inr]
  congr 1
  funext q
  dsimp only
  rw [lookup_put, update_apply]
  by_cases hq : q = p
  · rw [if_pos hq, if_pos hq, map_some]
  · rw [if_neg hq, if_neg hq]

theorem points_erase (m : Memory) (p : Nat) :
    points { m with maps := m.maps.filter (·.1 ≠ p) } = Function.update m.points (.inr p) none := by
  unfold points
  rw [Sum.update_elim_inr]
  congr 1
  funext q
  dsimp only
  rw [lookup_filter_ne, update_apply]
  by_cases hq : q = p
  · rw [if_pos hq, if_pos hq, map_none]
  · rw [if_neg hq, if_neg hq]

theorem points_slot (hmaps : m'.maps = m.maps)
    (hslot : m'.core.bufferAt = Function.update m.core.bufferAt h v) :
    m'.points = Function.update m.points (.inl h) v := by
  unfold points
  rw [Sum.update_elim_inl, hslot, hmaps]

theorem points_congr (hmaps : m'.maps = m.maps) (hslots : m'.core.slots = m.core.slots) :
    m'.points = m.points := by
  unfold points
  rw [Core.bufferAt_congr hslots, hmaps]

theorem held_iff (hkeys : (m.maps.map (·.1)).Nodup) :
    m.held i = true ↔ SharedPtr.Held m.points i := by
  unfold held
  rw [Bool.or_eq_true, List.any_eq_true, List.any_eq_true]
  constructor
  · rintro (⟨g, -, hg⟩ | ⟨e, he, hbuf⟩)
    · exact ⟨.inl g, Core.bufferAt_eq_some.mpr (of_decide_eq_true hg)⟩
    · refine ⟨.inr e.1, ?_⟩
      show (m.maps.lookup e.1).map (·.buf) = some i
      rw [(mem_iff_lookup hkeys).mp he, map_some, of_decide_eq_true hbuf]
  · rintro ⟨g | q, hx⟩
    · have hg := Core.bufferAt_eq_some.mp hx
      exact Or.inl ⟨g, mem_range.mpr (Core.lt_length_of_lookup hg), decide_eq_true hg⟩
    · obtain ⟨r, hr, hbuf⟩ := map_eq_some_iff.mp hx
      exact Or.inr ⟨(q, r), (mem_iff_lookup hkeys).mpr hr, decide_eq_true hbuf⟩

@[simp] theorem back_self (m : Memory) (i : Nat) (b : Backing) : (m.back i b).backing i = b :=
  update_self ..

theorem back_of_ne (m : Memory) (b : Backing) (h : j ≠ i) : (m.back i b).backing j = m.backing j :=
  update_of_ne h ..

theorem range_eq_none : m.range i = none ↔
    (m.backing i).osBase = none ∧ (m.backing i).bytes = none := by
  unfold range
  cases (m.backing i).osBase with
  | none => exact (and_iff_right rfl).symm
  | some a => exact ⟨nofun, fun hand => nomatch hand.1⟩

/-- `EnsureMapped` only sees to the memory of the buffer. -/
theorem ensureMapped_cases (h : m.ensureMapped i system = some m₁) :
    (m₁ = m ∧ m.range i ≠ none) ∨
    (m.range i = none ∧
      (m₁ = m.back i { bytes := some (system.place, (m.core.buffers i).size) } ∨
        m₁ = m.back i { osBase := some system.place })) := by
  unfold ensureMapped at h
  dsimp only at h
  by_cases hback : (m.backing i).osBase.isSome ∨ (m.backing i).bytes.isSome
  · rw [if_pos hback, Option.some.injEq] at h
    refine Or.inl ⟨h.symm, fun hnone => ?_⟩
    rw [range_eq_none] at hnone
    rw [hnone.1, hnone.2] at hback
    rcases hback with hb | hb <;> cases hb
  · rw [if_neg hback] at h
    have hnone : (m.backing i).osBase = none ∧ (m.backing i).bytes = none := by
      rwa [not_or, not_isSome_iff_eq_none, not_isSome_iff_eq_none] at hback
    refine Or.inr ⟨range_eq_none.mpr hnone, ?_⟩
    rw [show m.backing i = {} from Backing.mk.injEq .. ▸ ⟨hnone.2, hnone.1⟩] at h
    split at h
    · cases h
    · split at h
      · cases h
      · split at h
        · exact Or.inl (some.inj h).symm
        · split at h
          · cases h
          · split at h
            · cases h
            · exact Or.inr (some.inj h).symm

/-- `WhpMapBuffer` refuses, and may have seen to the memory, or makes the buffer one entry of the
table more. -/
theorem mapBuffer_cases (m : Memory) (b : Handle) (offset n : UInt64) (system : System) :
    (∃ i m₁ natives m₂, m.core.lookup b = some (.sharedBuffer i) ∧
      m.ensureMapped i system = some m₁ ∧ (offset + n).toNat ≤ m₁.span i ∧
      m₁.enter ((m₁.base i + offset.toNat) % 2 ^ 64) i = (natives, m₂) ∧
      m.mapBuffer b offset n system =
        ({ result := .ok, counts := [(m₁.base i + offset.toNat) % 2 ^ 64], natives := natives },
          m₂)) ∨
    ∃ result, (m.mapBuffer b offset n system).1 = { result := result } ∧ result ≠ .ok ∧
      ((m.mapBuffer b offset n system).2 = m ∨ ∃ i, m.core.lookup b = some (.sharedBuffer i) ∧
        m.ensureMapped i system = some (m.mapBuffer b offset n system).2) := by
  unfold mapBuffer
  split
  · rename_i i hl
    split
    · exact Or.inr ⟨_, rfl, nofun, Or.inl rfl⟩
    · rename_i m₁ hm₁
      split
      · exact Or.inr ⟨_, rfl, nofun, Or.inr ⟨i, hl, hm₁⟩⟩
      · rename_i hfits
        exact Or.inl ⟨i, m₁, _, _, hl, hm₁, Nat.le_of_not_lt hfits, rfl, rfl⟩
  · exact Or.inr ⟨_, rfl, nofun, Or.inl rfl⟩

theorem unmapBuffer_cases (m : Memory) (p : Nat) :
    (∃ r natives m₂, m.maps.lookup p = some r ∧ 0 < r.refs ∧ r.refs - 1 = 0 ∧
      drop { m with maps := m.maps.filter (·.1 ≠ p) } r.buf = (natives, m₂) ∧
      m.unmapBuffer p = ({ result := .ok, natives := natives }, m₂)) ∨
    (∃ r, m.maps.lookup p = some r ∧ 0 < r.refs ∧ r.refs - 1 ≠ 0 ∧
      m.unmapBuffer p = ({ result := .ok },
        { m with maps := (p, { r with refs := r.refs - 1 }) :: m.maps.filter (·.1 ≠ p) })) ∨
    ((∀ r, m.maps.lookup p = some r → r.refs ≤ 0) ∧
      m.unmapBuffer p = m.refuse .invalidArgument) := by
  unfold unmapBuffer
  cases hp : m.maps.lookup p with
  | none => exact Or.inr (Or.inr ⟨nofun, rfl⟩)
  | some r =>
    dsimp only
    by_cases hle : r.refs ≤ 0
    · rw [if_pos hle]
      exact Or.inr (Or.inr ⟨fun r' hr' => some.inj hr' ▸ hle, rfl⟩)
    · have hpos : 0 < r.refs := Int32.not_le.mp hle
      rw [if_neg hle]
      by_cases hone : r.refs - 1 = 0
      · rw [if_pos hone]
        exact Or.inl ⟨r, _, _, rfl, hpos, hone, rfl, rfl⟩
      · rw [if_neg hone]
        exact Or.inr (Or.inl ⟨r, rfl, hpos, hone, rfl⟩)

/-- Each address is in the table once, and the buffers that have ended are those nothing is left
to. -/
structure Kept (m : Memory) : Prop where
  table : m.core.Table
  keys : (m.maps.map (·.1)).Nodup
  settled : SharedPtr.Settled m.points m.core.bufferCount m.destroyed

theorem drop_maps (m : Memory) (i : Nat) : (m.drop i).2.maps = m.maps := by
  unfold drop
  split <;> rfl

theorem drop_slots (m : Memory) (i : Nat) : (m.drop i).2.core.slots = m.core.slots := by
  unfold drop
  split <;> rfl

theorem drop_freeList (m : Memory) (i : Nat) : (m.drop i).2.core.freeList = m.core.freeList := by
  unfold drop
  split <;> rfl

theorem drop_bufferCount (m : Memory) (i : Nat) :
    (m.drop i).2.core.bufferCount = m.core.bufferCount := by
  unfold drop
  split <;> rfl

theorem dropped_drop (hkeys : (m.maps.map (·.1)).Nodup) (i : Nat) :
    SharedPtr.Dropped m.points (some i) m.destroyed (m.drop i).2.destroyed := by
  unfold drop
  by_cases hheld : m.held i
  · rw [if_pos hheld]
    exact .kept _ ((held_iff hkeys).mp hheld)
  · rw [if_neg hheld]
    exact .last _ fun hyes => hheld ((held_iff hkeys).mpr hyes)

theorem table_congr (ht : m.core.Table) (hslots : m'.core.slots = m.core.slots)
    (hfree : m'.core.freeList = m.core.freeList) : m'.core.Table :=
  ht.congr (by rw [hslots]) hfree fun g => by rw [Core.lookup, Core.lookup, hslots]

namespace Kept

theorem congr (hk : m.Kept) (hslots : m'.core.slots = m.core.slots)
    (hfree : m'.core.freeList = m.core.freeList)
    (hcount : m'.core.bufferCount = m.core.bufferCount) (hmaps : m'.maps = m.maps)
    (hdestroyed : m'.destroyed = m.destroyed) : m'.Kept where
  table := table_congr hk.table hslots hfree
  keys := hmaps ▸ hk.keys
  settled := by
    rw [points_congr hmaps hslots, hcount, hdestroyed]
    exact hk.settled

theorem assignable (hk : m.Kept) (hv : ∀ i, v = some i → SharedPtr.Held m.points i) (i : Nat)
    (hi : v = some i) : i < m.core.bufferCount ∧ i ∉ m.destroyed := by
  obtain ⟨y, hy⟩ := hv i hi
  exact ⟨hk.settled.made_of_points y i hy, hk.settled.not_mem hy⟩

theorem assign_none (hk : m.Kept) (htable : m'.core.Table) (hkeys : (m'.maps.map (·.1)).Nodup)
    (hcount : m'.core.bufferCount = m.core.bufferCount) (hdestroyed : m'.destroyed = m.destroyed)
    (hpoints : m'.points = Function.update m.points x v) (hx : m.points x = none)
    (hv : ∀ i, v = some i → SharedPtr.Held m.points i) : m'.Kept where
  table := htable
  keys := hkeys
  settled := by
    rw [hpoints, hcount, hdestroyed]
    refine hk.settled.assign (hk.assignable hv) ?_
    rw [hx]
    exact .null _

theorem assign_some (hk : m.Kept) (htable : m'.core.Table) (hkeys : (m'.maps.map (·.1)).Nodup)
    (hcount : m'.core.bufferCount = m.core.bufferCount) (hdestroyed : m'.destroyed = m.destroyed)
    (hpoints : m'.points = Function.update m.points x v) (hx : m.points x = some i)
    (hv : ∀ i, v = some i → SharedPtr.Held m.points i) : (m'.drop i).2.Kept where
  table := table_congr htable (drop_slots m' i) (drop_freeList m' i)
  keys := by
    rw [drop_maps]
    exact hkeys
  settled := by
    have hdrop := dropped_drop hkeys i
    rw [hpoints, hdestroyed] at hdrop
    rw [points_congr (drop_maps m' i) (drop_slots m' i), drop_bufferCount, hpoints, hcount]
    refine hk.settled.assign (hk.assignable hv) ?_
    rw [hx]
    exact hdrop

theorem made (hk : m.Kept) (htable : m'.core.Table) (hmaps : m'.maps = m.maps)
    (hcount : m'.core.bufferCount = m.core.bufferCount + 1)
    (hdestroyed : m'.destroyed = m.destroyed)
    (hpoints : m'.points = Function.update m.points x (some m.core.bufferCount))
    (hx : m.points x = none) : m'.Kept where
  table := htable
  keys := hmaps ▸ hk.keys
  settled := by
    rw [hpoints, hcount, hdestroyed]
    exact hk.settled.new hx

theorem points_nextHandle (hk : m.Kept) : m.points (.inl m.core.nextHandle) = none := by
  show (m.core.lookup m.core.nextHandle).bind Obj.buffer = none
  rw [hk.table.nextHandle_free, bind_none]

theorem newBuffer (hk : m.Kept) (s : SharedBufferObj) (b : Backing) : Kept
    { m.back m.core.bufferCount b with
      core := (m.core.newBuffer s).alloc (.sharedBuffer m.core.bufferCount) } := by
  have htable : (m.core.newBuffer s).Table :=
    hk.table.congr rfl rfl fun _ => Iff.rfl
  exact hk.made (htable.alloc _) rfl (Core.alloc_bufferCount ..) rfl
    (points_slot rfl (Core.bufferAt_alloc htable _)) hk.points_nextHandle

theorem createSharedBuffer (hk : m.Kept) (n : UInt64) (system : System) :
    (m.createSharedBuffer n system).2.Kept := by
  unfold Memory.createSharedBuffer Core.createSharedBuffer
  by_cases hn : n = 0
  · rw [if_pos hn]
    exact hk
  · rw [if_neg hn, if_neg hn]
    exact hk.newBuffer _ _

theorem duplicateBufferHandle (hk : m.Kept) (b : Handle) : (m.duplicateBufferHandle b).2.Kept := by
  unfold Memory.duplicateBufferHandle
  rcases m.core.duplicateBufferHandle_cases b with ⟨i, hl, heq⟩ | heq
  · rw [heq]
    refine hk.assign_none (hk.table.alloc _) hk.keys (Core.alloc_bufferCount ..) rfl
      (points_slot rfl (Core.bufferAt_alloc hk.table _)) hk.points_nextHandle fun j hj => ?_
    exact ⟨.inl b, (Core.bufferAt_eq_some.mpr hl).trans hj⟩
  · rw [heq]
    exact hk

theorem enter (hk : m.Kept) (hi : SharedPtr.Held m.points i) (p : Nat) : (m.enter p i).2.Kept := by
  unfold Memory.enter
  have hheld (j : Nat) (hj : some i = some j) : SharedPtr.Held m.points j := some.inj hj ▸ hi
  cases hp : m.maps.lookup p with
  | none =>
    have hx : m.points (.inr p) = none := by
      show (m.maps.lookup p).map _ = none
      rw [hp, map_none]
    have hkeep : m.maps.filter (·.1 ≠ p) = m.maps := by
      refine filter_eq_self.mpr fun e he => decide_eq_true fun heq => ?_
      rw [← heq, (mem_iff_lookup hk.keys).mp he] at hp
      cases hp
    have hput := points_put m p ⟨i, 0 + 1⟩
    have hkeys := keys_put hk.keys p ⟨i, 0 + 1⟩
    rw [hkeep] at hput hkeys
    have hk' : Kept { m with maps := (p, ⟨i, 0 + 1⟩) :: m.maps } :=
      hk.assign_none hk.table hkeys rfl rfl hput hx hheld
    exact hk'
  | some r =>
    have hx : m.points (.inr p) = some r.buf := by
      show (m.maps.lookup p).map _ = _
      rw [hp, map_some]
    have hk' : (Memory.drop
        { m with maps := (p, ⟨i, r.refs + 1⟩) :: m.maps.filter (·.1 ≠ p) } r.buf).2.Kept :=
      hk.assign_some hk.table (keys_put hk.keys p _) rfl rfl (points_put m p _) hx hheld
    exact hk'

theorem back (hk : m.Kept) (i : Nat) (b : Backing) : (m.back i b).Kept :=
  hk.congr rfl rfl rfl rfl rfl

theorem ensureMapped (hk : m.Kept) (h : m.ensureMapped i system = some m₁) :
    m₁.Kept ∧ m₁.points = m.points := by
  rcases ensureMapped_cases h with ⟨rfl, -⟩ | ⟨-, rfl | rfl⟩
  · exact ⟨hk, rfl⟩
  · exact ⟨hk.back _ _, rfl⟩
  · exact ⟨hk.back _ _, rfl⟩

theorem mapBuffer (hk : m.Kept) (b : Handle) (offset n : UInt64) (system : System) :
    (m.mapBuffer b offset n system).2.Kept := by
  rcases m.mapBuffer_cases b offset n system with
    ⟨i, m₁, natives, m₂, hl, hm₁, -, henter, heq⟩ | ⟨result, -, -, heq | ⟨i, -, hm₁⟩⟩
  · obtain ⟨hk₁, hpoints⟩ := hk.ensureMapped hm₁
    have hheld : SharedPtr.Held m₁.points i := ⟨.inl b, hpoints ▸ Core.bufferAt_eq_some.mpr hl⟩
    have hk₂ := hk₁.enter hheld ((m₁.base i + offset.toNat) % 2 ^ 64)
    rw [henter] at hk₂
    rw [heq]
    exact hk₂
  · rw [heq]
    exact hk
  · exact (hk.ensureMapped hm₁).1

theorem unmapBuffer (hk : m.Kept) (p : Nat) : (m.unmapBuffer p).2.Kept := by
  have hx {r : MappedRegion} (hr : m.maps.lookup p = some r) : m.points (.inr p) = some r.buf := by
    show (m.maps.lookup p).map _ = _
    rw [hr, map_some]
  rcases m.unmapBuffer_cases p with
    ⟨r, natives, m₂, hr, -, -, hdrop, heq⟩ | ⟨r, hr, -, -, heq⟩ | ⟨-, heq⟩
  · have hk₂ : (Memory.drop { m with maps := m.maps.filter (·.1 ≠ p) } r.buf).2.Kept :=
      hk.assign_some hk.table (keys_filter hk.keys p) rfl rfl (points_erase m p) (hx hr) nofun
    rw [hdrop] at hk₂
    rw [heq]
    exact hk₂
  · -- The entry stays one of the same buffer.
    rw [heq]
    have hpoints := points_put m p { r with refs := r.refs - 1 }
    rw [← hx hr, update_eq_self] at hpoints
    exact ⟨hk.table, keys_put hk.keys p _, hpoints ▸ hk.settled⟩
  · rw [heq]
    exact hk

theorem wrapPlatformHandle (hk : m.Kept) (type : UInt32) (value : Nat) :
    (m.wrapPlatformHandle type value).2.Kept := by
  unfold Memory.wrapPlatformHandle
  rcases m.core.wrapPlatformHandle_cases type value with ⟨-, heq⟩ | heq
  · rw [heq]
    exact hk.assign_none (hk.table.alloc _) hk.keys (Core.alloc_bufferCount ..) rfl
      (points_slot rfl (Core.bufferAt_alloc hk.table _)) hk.points_nextHandle nofun
  · rw [heq]
    exact hk

theorem unwrapPlatformHandle (hk : m.Kept) (h : Handle) : (m.unwrapPlatformHandle h).2.Kept := by
  unfold Memory.unwrapPlatformHandle
  rcases m.core.unwrapPlatformHandle_cases h with ⟨p, hl, heq⟩ | heq
  · have hx : m.points (.inl h) = none := by
      show (m.core.lookup h).bind Obj.buffer = none
      rw [hl]
      rfl
    rw [heq]
    exact hk.assign_none (hk.table.free hl) hk.keys (Core.free_bufferCount ..) rfl
      (points_slot rfl (Core.bufferAt_free ..)) hx nofun
  · rw [heq]
    exact hk

theorem wrapPlatformSharedMemoryRegion (hk : m.Kept) (ns : List (UInt32 × Nat)) (n : UInt64)
    (guid : Nat × Nat) (mode : UInt32) (system : System) :
    (m.wrapPlatformSharedMemoryRegion ns n guid mode system).2.Kept := by
  unfold Memory.wrapPlatformSharedMemoryRegion
  rcases m.core.wrapPlatformSharedMemoryRegion_cases ns n guid mode with ⟨-, -, -, heq⟩ | heq
  · rw [heq]
    exact hk.newBuffer _ _
  · rw [heq]
    exact hk

theorem unwrapPlatformSharedMemoryRegion (hk : m.Kept) (h : Handle) (room : Nat) (wanted : Bool) :
    (m.unwrapPlatformSharedMemoryRegion h room wanted).2.Kept := by
  unfold Memory.unwrapPlatformSharedMemoryRegion
  rcases m.core.unwrapPlatformSharedMemoryRegion_cases h room wanted with
    ⟨i, counts, hl, -, -, heq⟩ | ⟨reply, heq, hno, -⟩
  · have htable : (m.core.setBuffer i { m.core.buffers i with platOwns := false }).Table :=
      hk.table.congr rfl rfl fun _ => Iff.rfl
    rw [heq, hl]
    exact hk.assign_some (htable.free hl) hk.keys (Core.free_bufferCount ..) rfl
      (points_slot rfl (Core.bufferAt_free ..)) (Core.bufferAt_eq_some.mpr hl) nofun
  · rw [heq]
    dsimp only
    split
    · rw [if_neg hno]
      exact hk
    · exact hk

theorem close (hk : m.Kept) (h : Handle) : (m.close h).2.Kept := by
  unfold Memory.close
  obtain ⟨htable, hbufferAt, -, hcount⟩ := Core.close_bufferAt hk.table h
  have hpoints : points { m with core := (m.core.close h).2 } =
      Function.update m.points (.inl h) none := points_slot rfl hbufferAt
  split
  · rename_i reply core hclose
    rw [hclose] at htable hcount hpoints
    cases hb : m.core.bufferAt h with
    | none =>
      split
      · rename_i i hl
        rw [Core.bufferAt_eq_some.mpr hl] at hb
        cases hb
      · exact hk.assign_none htable hk.keys hcount rfl hpoints hb nofun
    | some i =>
      rw [Core.bufferAt_eq_some.mp hb]
      exact hk.assign_some htable hk.keys hcount rfl hpoints hb nofun

theorem step (hk : m.Kept) (op : MemOp) : (m.step op).Kept := by
  cases op with
  | createSharedBuffer n system => exact hk.createSharedBuffer n system
  | duplicateBufferHandle b => exact hk.duplicateBufferHandle b
  | mapBuffer b offset n system => exact hk.mapBuffer b offset n system
  | unmapBuffer p => exact hk.unmapBuffer p
  | wrapPlatformHandle type value => exact hk.wrapPlatformHandle type value
  | unwrapPlatformHandle h => exact hk.unwrapPlatformHandle h
  | wrapPlatformSharedMemoryRegion ns n guid mode system =>
    exact hk.wrapPlatformSharedMemoryRegion ns n guid mode system
  | unwrapPlatformSharedMemoryRegion h room wanted =>
    exact hk.unwrapPlatformSharedMemoryRegion h room wanted
  | close h => exact hk.close h

end Kept

theorem kept_start : ({} : Memory).Kept where
  table := Core.sound_start.table
  keys := nodup_nil
  settled := SharedPtr.settled_empty.congr fun x => by
    cases x with
    | inl h =>
      show (({} : Core).lookup h).bind Obj.buffer = none
      cases hl : ({} : Core).lookup h with
      | none => rfl
      | some o =>
        have hlt := Core.lt_length_of_lookup hl
        exact absurd (Nat.lt_one_iff.mp hlt) (Core.ne_zero_of_lookup hl)
    | inr p => rfl

/-! ### Where a mapping is -/

/-- The sizes of the buffers are what they were, and memory was at most given back. -/
structure Frame (m m' : Memory) : Prop where
  backing : ∀ i, m'.backing i = m.backing i ∨ m'.backing i = {}
  size : ∀ i, (m'.core.buffers i).size = (m.core.buffers i).size

/-- The memory of a buffer is of its size, and does not go beyond the last address. -/
structure Sized (m : Memory) : Prop where
  size_lt : ∀ i, (m.core.buffers i).size < 2 ^ 64
  range_fits : ∀ i a n, m.range i = some (a, n) → n = (m.core.buffers i).size ∧ a + n < 2 ^ 64

namespace Frame

protected theorem refl (m : Memory) : Frame m m := ⟨fun _ => Or.inl rfl, fun _ => rfl⟩

theorem of_eq (hback : m'.backing = m.backing) (hbuf : m'.core.buffers = m.core.buffers) :
    Frame m m' :=
  ⟨fun i => Or.inl (congrFun hback i), fun i => by rw [hbuf]⟩

protected theorem trans {m'' : Memory} (h : Frame m m') (h' : Frame m' m'') : Frame m m'' where
  backing i := by
    rcases h'.backing i with heq | heq
    · rw [heq]
      exact h.backing i
    · exact Or.inr heq
  size i := (h'.size i).trans (h.size i)

theorem disown (m : Memory) (i : Nat) : Frame m
    { m with core := m.core.setBuffer i { m.core.buffers i with platOwns := false } } where
  backing _ := Or.inl rfl
  size j := by
    show (Function.update m.core.buffers i _ j).size = _
    by_cases hj : j = i
    · rw [hj, update_self]
    · rw [update_of_ne hj]

theorem drop (m : Memory) (i : Nat) : Frame m (m.drop i).2 := by
  unfold Memory.drop
  split
  · exact .refl m
  · refine (disown m i).trans ⟨fun j => ?_, fun _ => rfl⟩
    show Function.update m.backing i {} j = m.backing j ∨ _
    by_cases hj : j = i
    · rw [hj]
      exact Or.inr (update_self ..)
    · exact Or.inl (update_of_ne hj ..)

theorem enter (m : Memory) (p i : Nat) : Frame m (m.enter p i).2 := by
  unfold Memory.enter
  split
  · exact .of_eq rfl rfl
  · rename_i r _
    have hput : Frame m { m with maps := (p, ⟨i, r.refs + 1⟩) :: m.maps.filter (·.1 ≠ p) } :=
      .of_eq rfl rfl
    exact hput.trans (.drop _ r.buf)

theorem duplicateBufferHandle (m : Memory) (b : Handle) :
    Frame m (m.duplicateBufferHandle b).2 := by
  unfold Memory.duplicateBufferHandle
  rcases m.core.duplicateBufferHandle_cases b with ⟨i, -, heq⟩ | heq <;> rw [heq]
  · exact .of_eq rfl (Core.alloc_buffers ..)
  · exact .refl m

theorem unmapBuffer (m : Memory) (p : Nat) : Frame m (m.unmapBuffer p).2 := by
  rcases m.unmapBuffer_cases p with
    ⟨r, natives, m₂, -, -, -, hdrop, heq⟩ | ⟨r, -, -, -, heq⟩ | ⟨-, heq⟩
  · have herase : Frame m { m with maps := m.maps.filter (·.1 ≠ p) } := .of_eq rfl rfl
    have hframe := herase.trans (.drop _ r.buf)
    rw [hdrop] at hframe
    rw [heq]
    exact hframe
  · rw [heq]
    exact .of_eq rfl rfl
  · rw [heq]
    exact .refl m

theorem wrapPlatformHandle (m : Memory) (type : UInt32) (value : Nat) :
    Frame m (m.wrapPlatformHandle type value).2 := by
  unfold Memory.wrapPlatformHandle
  rcases m.core.wrapPlatformHandle_cases type value with ⟨-, heq⟩ | heq <;> rw [heq]
  · exact .of_eq rfl (Core.alloc_buffers ..)
  · exact .refl m

theorem unwrapPlatformHandle (m : Memory) (h : Handle) : Frame m (m.unwrapPlatformHandle h).2 := by
  unfold Memory.unwrapPlatformHandle
  rcases m.core.unwrapPlatformHandle_cases h with ⟨p, -, heq⟩ | heq <;> rw [heq]
  · exact .of_eq rfl (Core.free_buffers ..)
  · exact .refl m

theorem unwrapPlatformSharedMemoryRegion (m : Memory) (h : Handle) (room : Nat) (wanted : Bool) :
    Frame m (m.unwrapPlatformSharedMemoryRegion h room wanted).2 := by
  unfold Memory.unwrapPlatformSharedMemoryRegion
  rcases m.core.unwrapPlatformSharedMemoryRegion_cases h room wanted with
    ⟨i, counts, hl, -, -, heq⟩ | ⟨reply, heq, hno, -⟩
  · rw [heq, hl]
    have hfree : Frame
        { m with core := m.core.setBuffer i { m.core.buffers i with platOwns := false } }
        { m with core :=
            (m.core.setBuffer i { m.core.buffers i with platOwns := false }).free h } :=
      .of_eq rfl (Core.free_buffers ..)
    exact ((disown m i).trans hfree).trans (.drop _ i)
  · rw [heq]
    dsimp only
    split
    · rw [if_neg hno]
      exact .refl m
    · exact .refl m

theorem close (hk : m.Kept) (h : Handle) : Frame m (m.close h).2 := by
  unfold Memory.close
  obtain ⟨-, -, hbuf, -⟩ := Core.close_bufferAt hk.table h
  have hframe : Frame m { m with core := (m.core.close h).2 } := .of_eq rfl hbuf
  split
  · rename_i reply core hclose
    rw [hclose] at hframe
    split
    · exact hframe.trans (.drop _ _)
    · exact hframe

theorem range (h : Frame m m') (i : Nat) : m'.range i = m.range i ∨ m'.range i = none := by
  unfold Memory.range
  rcases h.backing i with heq | heq
  · rw [heq, h.size]
    exact Or.inl rfl
  · rw [heq]
    exact Or.inr rfl

theorem sized (h : Frame m m') (hs : m.Sized) : m'.Sized where
  size_lt i := h.size i ▸ hs.size_lt i
  range_fits i a n hr := by
    rw [h.size]
    rcases h.range i with heq | heq
    · exact hs.range_fits i a n (heq ▸ hr)
    · rw [heq] at hr
      cases hr

end Frame

namespace Sized

theorem back (hs : m.Sized) {b : Backing}
    (hbytes : ∀ a n, b.bytes = some (a, n) → n = (m.core.buffers i).size ∧ a + n < 2 ^ 64)
    (hbase : ∀ a, b.osBase = some a → a + (m.core.buffers i).size < 2 ^ 64) :
    (m.back i b).Sized where
  size_lt := hs.size_lt
  range_fits j a n hr := by
    by_cases hj : j = i
    · subst hj
      unfold Memory.range at hr
      rw [back_self] at hr
      cases hb : b.osBase with
      | none =>
        rw [hb] at hr
        exact hbytes a n hr
      | some base =>
        rw [hb] at hr
        obtain ⟨rfl, rfl⟩ := Prod.mk.inj (some.inj hr)
        exact ⟨rfl, hbase base hb⟩
    · unfold Memory.range at hr
      rw [back_of_ne m b hj] at hr
      exact hs.range_fits j a n hr

theorem newBuffer (hs : m.Sized) (s : SharedBufferObj) (hsize : s.size < 2 ^ 64) {b : Backing}
    (hbytes : ∀ a n, b.bytes = some (a, n) → n = s.size ∧ a + n < 2 ^ 64)
    (hbase : b.osBase = none) : Sized
      { m.back m.core.bufferCount b with
        core := (m.core.newBuffer s).alloc (.sharedBuffer m.core.bufferCount) } := by
  have hs' : Sized { m.back m.core.bufferCount {} with core := m.core.newBuffer s } := by
    refine ⟨fun i => ?_, fun i a n hr => ?_⟩
    · show (Function.update m.core.buffers m.core.bufferCount s i).size < _
      by_cases hi : i = m.core.bufferCount
      · rw [hi, update_self]
        exact hsize
      · rw [update_of_ne hi]
        exact hs.size_lt i
    · unfold Memory.range at hr
      dsimp only [Memory.back, Core.newBuffer, Core.setBuffer] at hr ⊢
      by_cases hi : i = m.core.bufferCount
      · rw [hi, update_self] at hr
        cases hr
      · rw [update_of_ne hi, update_of_ne hi] at hr
        rw [update_of_ne hi]
        exact hs.range_fits i a n hr
  have hself : ((m.core.newBuffer s).buffers m.core.bufferCount) = s := update_self ..
  have hs'' := hs'.back (i := m.core.bufferCount) (b := b)
    (fun a n h => by rw [show _ = s from hself]; exact hbytes a n h)
    (fun a h => by rw [hbase] at h; cases h)
  refine (Frame.of_eq ?_ ?_).sized hs''
  · exact (update_idem ..).symm
  · exact Core.alloc_buffers ..

theorem ensureMapped (hs : m.Sized) (h : m.ensureMapped i system = some m₁)
    (hplaced : m.range i = none → m.Unused system.place (m.core.buffers i).size) : m₁.Sized := by
  rcases ensureMapped_cases h with ⟨rfl, -⟩ | ⟨hnone, hm₁⟩
  · exact hs
  · obtain ⟨-, hfits, -⟩ := hplaced hnone
    rcases hm₁ with rfl | rfl
    · refine hs.back (fun a n hb => ?_) nofun
      obtain ⟨rfl, rfl⟩ := Prod.mk.inj (some.inj hb)
      exact ⟨rfl, hfits⟩
    · exact hs.back nofun fun a ha => some.inj ha ▸ hfits

theorem unused_of_placed {b : Handle} {offset n : UInt64}
    (hl : m.core.lookup b = some (.sharedBuffer i))
    (hplaced : m.Placed (.mapBuffer b offset n system)) (hnone : m.range i = none) :
    m.Unused system.place (m.core.buffers i).size := by
  refine hplaced _ _ ?_
  show (match m.core.lookup b with
    | some (.sharedBuffer i) =>
      if m.range i = none then some ((m.core.buffers i).size, system) else none
    | _ => none) = _
  rw [hl]
  exact if_pos hnone

/-- What one step does to the memory. -/
theorem step (hs : m.Sized) (hk : m.Kept) (op : MemOp) (hplaced : m.Placed op) :
    (m.step op).Sized := by
  cases op with
  | createSharedBuffer n system =>
    show (m.createSharedBuffer n system).2.Sized
    obtain ⟨-, hfits, -⟩ := hplaced _ _ rfl
    unfold Memory.createSharedBuffer Core.createSharedBuffer
    by_cases hn : n = 0
    · rw [if_pos hn]
      exact hs
    · rw [if_neg hn, if_neg hn]
      refine hs.newBuffer { size := n.toNat } n.toNat_lt (fun a k hb => ?_) rfl
      obtain ⟨rfl, rfl⟩ := Prod.mk.inj (some.inj hb)
      exact ⟨rfl, hfits⟩
  | duplicateBufferHandle b => exact (Frame.duplicateBufferHandle m b).sized hs
  | mapBuffer b offset n system =>
    show (m.mapBuffer b offset n system).2.Sized
    rcases m.mapBuffer_cases b offset n system with
      ⟨i, m₁, natives, m₂, hl, hm₁, -, henter, heq⟩ | ⟨result, -, -, heq | ⟨i, hl, hm₁⟩⟩
    · have hframe := Frame.enter m₁ ((m₁.base i + offset.toNat) % 2 ^ 64) i
      rw [henter] at hframe
      rw [heq]
      exact hframe.sized (hs.ensureMapped hm₁ (unused_of_placed hl hplaced))
    · rw [heq]
      exact hs
    · exact hs.ensureMapped hm₁ (unused_of_placed hl hplaced)
  | unmapBuffer p => exact (Frame.unmapBuffer m p).sized hs
  | wrapPlatformHandle type value => exact (Frame.wrapPlatformHandle m type value).sized hs
  | unwrapPlatformHandle h => exact (Frame.unwrapPlatformHandle m h).sized hs
  | wrapPlatformSharedMemoryRegion ns n guid mode system =>
    show (m.wrapPlatformSharedMemoryRegion ns n guid mode system).2.Sized
    unfold Memory.wrapPlatformSharedMemoryRegion
    rcases m.core.wrapPlatformSharedMemoryRegion_cases ns n guid mode with ⟨-, -, -, heq⟩ | heq
    · rw [heq]
      refine hs.newBuffer _ n.toNat_lt (fun a k hb => ?_) rfl
      by_cases hmach : ns.head?.any (·.1 = Core.machPort)
      · obtain ⟨-, hfits, -⟩ := hplaced _ _ (if_pos hmach)
        dsimp only at hb
        rw [if_pos hmach] at hb
        obtain ⟨rfl, rfl⟩ := Prod.mk.inj (some.inj hb)
        exact ⟨rfl, hfits⟩
      · dsimp only at hb
        rw [if_neg hmach] at hb
        cases hb
    · rw [heq]
      exact hs
  | unwrapPlatformSharedMemoryRegion h room wanted =>
    exact (Frame.unwrapPlatformSharedMemoryRegion m h room wanted).sized hs
  | close h => exact (Frame.close hk h).sized hs

end Sized

theorem kept_sized (h : Machine.Reaches {} step Placed m) : m.Kept ∧ m.Sized := by
  refine h.invariant (I := fun m => m.Kept ∧ m.Sized)
    ⟨kept_start, fun _ => Nat.two_pow_pos 64, nofun⟩ ?_
  exact fun m op hm hplaced => ⟨hm.1.step op, hm.2.step hm.1 op hplaced⟩

theorem range_drop (hij : i = j → m.held i = true) : (m.drop j).2.range i = m.range i := by
  unfold drop
  by_cases hheld : m.held j
  · rw [if_pos hheld]
  · rw [if_neg hheld]
    have hne : i ≠ j := fun heq => hheld (heq ▸ hij heq)
    unfold range
    dsimp only [destroy, back, Core.setBuffer]
    rw [update_of_ne hne, update_of_ne hne]

theorem range_enter (m : Memory) (p i : Nat) : (m.enter p i).2.range i = m.range i := by
  unfold enter
  split
  · rfl
  · exact range_drop fun _ => Bool.or_eq_true _ _ ▸ Or.inr (by
      rw [any_cons, decide_eq_true rfl, Bool.true_or])

theorem span_base {a n : Nat} (hs : m.Sized) (hr : m.range i = some (a, n)) :
    m.span i = n ∧ m.base i = a := by
  have hn := (hs.range_fits i a n hr).1
  unfold range at hr
  unfold span base
  cases hb : (m.backing i).osBase with
  | none =>
    rw [hb] at hr
    dsimp only at hr ⊢
    rw [hr]
    exact ⟨rfl, rfl⟩
  | some base =>
    rw [hb] at hr
    exact ⟨hn.symm, (Prod.mk.inj (some.inj hr)).1⟩

theorem core_ensureMapped (h : m.ensureMapped i system = some m₁) : m₁.core = m.core := by
  rcases ensureMapped_cases h with ⟨rfl, -⟩ | ⟨-, rfl | rfl⟩ <;> rfl

theorem maps_ensureMapped (h : m.ensureMapped i system = some m₁) : m₁.maps = m.maps := by
  rcases ensureMapped_cases h with ⟨rfl, -⟩ | ⟨-, rfl | rfl⟩ <;> rfl

theorem range_ensureMapped (h : m.ensureMapped i system = some m₁) : m₁.range i ≠ none := by
  rcases ensureMapped_cases h with ⟨rfl, hr⟩ | ⟨-, rfl | rfl⟩
  · exact hr
  · rw [Ne, range_eq_none, back_self]
    exact fun hand => nomatch hand.2
  · rw [Ne, range_eq_none, back_self]
    exact fun hand => nomatch hand.1

/-- The buffer is mapped only if the part asked for is in it, and then it is what is returned. -/
def MapsInside (m : Memory) (buffer : Handle) (offset numBytes : UInt64) (system : System) : Prop :=
  ∀ i, m.core.lookup buffer = some (.sharedBuffer i) →
    (m.mapBuffer buffer offset numBytes system).1.result = .ok →
      offset.toNat + numBytes.toNat ≤ (m.core.buffers i).size ∧
      ∃ p a size, (m.mapBuffer buffer offset numBytes system).1.counts = [p] ∧
        (m.mapBuffer buffer offset numBytes system).2.range i = some (a, size) ∧
        a ≤ p ∧ p + numBytes.toNat ≤ a + size

/-- `MapsInside` fails exactly if the sum wraps to no more than the size. -/
theorem mapBuffer_inside_iff (h : Machine.Reaches {} step Placed m) {buffer : Handle}
    {offset numBytes : UInt64} (hl : m.core.lookup buffer = some (.sharedBuffer i))
    (hplaced : m.Placed (.mapBuffer buffer offset numBytes system)) :
    m.MapsInside buffer offset numBytes system ↔
      offset.toNat + numBytes.toNat < 2 ^ 64 ∨
      (m.core.buffers i).size < offset.toNat + numBytes.toNat - 2 ^ 64 ∨
      m.ensureMapped i system = none := by
  obtain ⟨hk, hs⟩ := kept_sized h
  have hsum : (offset + numBytes).toNat = (offset.toNat + numBytes.toNat) % 2 ^ 64 :=
    UInt64.toNat_add offset numBytes
  have hoffset := offset.toNat_lt
  have hnum := numBytes.toNat_lt
  cases hens : m.ensureMapped i system with
  | none =>
    refine iff_of_true (fun j hj hok => ?_) (Or.inr (Or.inr rfl))
    obtain rfl : i = j := Obj.sharedBuffer.inj (some.inj (hl.symm.trans hj))
    unfold mapBuffer at hok
    rw [hl] at hok
    dsimp only at hok
    rw [hens] at hok
    cases hok
  | some m₁ =>
    have hs₁ := hs.ensureMapped hens (Sized.unused_of_placed hl hplaced)
    obtain ⟨⟨a, n⟩, hr⟩ := ne_none_iff_exists'.mp (range_ensureMapped hens)
    obtain ⟨hn, hfits⟩ := hs₁.range_fits i a n hr
    obtain ⟨hspan, hbase⟩ := span_base hs₁ hr
    rw [core_ensureMapped hens] at hn
    have hsize := hs.size_lt i
    have hmap : m.mapBuffer buffer offset numBytes system =
        if n < (offset + numBytes).toNat then m₁.refuse .outOfRange
        else
          ({ result := .ok, counts := [(a + offset.toNat) % 2 ^ 64]
             natives := (m₁.enter ((a + offset.toNat) % 2 ^ 64) i).1 },
            (m₁.enter ((a + offset.toNat) % 2 ^ 64) i).2) := by
      unfold mapBuffer
      rw [hl]
      dsimp only
      rw [hens]
      dsimp only
      rw [hspan, hbase]
    rw [or_iff_left (nofun : ¬ (some m₁ = none))]
    constructor
    · intro hin
      by_contra hout
      obtain ⟨hwrap, hle⟩ := not_or.mp hout
      have hok : ¬ n < (offset + numBytes).toNat := by omega
      have := (hin i hl (by rw [hmap, if_neg hok])).1
      omega
    · intro hcond j hj hok
      obtain rfl : i = j := Obj.sharedBuffer.inj (some.inj (hl.symm.trans hj))
      by_cases hlt : n < (offset + numBytes).toNat
      · rw [hmap, if_pos hlt] at hok
        cases hok
      · have hle : offset.toNat + numBytes.toNat ≤ n := by omega
        have hp : (a + offset.toNat) % 2 ^ 64 = a + offset.toNat := Nat.mod_eq_of_lt (by omega)
        rw [hmap, if_neg hlt, hp]
        refine ⟨hn ▸ hle, a + offset.toNat, a, n, rfl, ?_, Nat.le_add_right .., by omega⟩
        rw [← hr]
        exact range_enter ..

/-- A buffer of a hundred bytes, the handle `1` to it. -/
def oneBuffer : Memory := Memory.step {} (.createSharedBuffer 100 { place := 64 })

theorem reaches_oneBuffer : Machine.Reaches {} step Placed oneBuffer := by
  refine .step _ .start fun size system hasks => ?_
  obtain ⟨rfl, rfl⟩ := Prod.mk.inj (some.inj hasks)
  exact ⟨by decide, by decide, nofun⟩

theorem placed_oneBuffer (offset n : UInt64) (system : System) :
    oneBuffer.Placed (.mapBuffer 1 offset n system) := by
  intro size sys hasks
  have hnone : oneBuffer.asks (.mapBuffer 1 offset n system) = none := rfl
  rw [hnone] at hasks
  cases hasks

theorem mapBuffer_inside_oneBuffer : oneBuffer.MapsInside 1 8 16 { place := 0 } :=
  (mapBuffer_inside_iff reaches_oneBuffer rfl (placed_oneBuffer 8 16 _)).mpr (Or.inl (by decide))

/-- Eight bytes in front of a buffer. -/
theorem not_mapBuffer_inside : Machine.Reaches {} step Placed oneBuffer ∧
    oneBuffer.Placed (.mapBuffer 1 (-8) 16 { place := 0 }) ∧
    (oneBuffer.mapBuffer 1 (-8) 16 { place := 0 }).1.counts = [56] ∧
    ¬ oneBuffer.MapsInside 1 (-8) 16 { place := 0 } := by
  refine ⟨reaches_oneBuffer, placed_oneBuffer _ _ _, by decide, fun hin => ?_⟩
  exact absurd (hin 0 rfl (by decide)).1 (by decide)

end Memory

end Voodoo.Whp
