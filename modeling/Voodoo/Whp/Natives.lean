import Voodoo.Lib.LastUse
import Voodoo.Whp.Mapping

/-!
# Native handles that were wrapped

A native handle is wrapped on its own or as one of a shared memory region, and then given up by
`WhpUnwrap…`, which returns it, or by the core, which closes it.  The flag `plat_owns` of the region is
not looked at by `WhpUnwrapPlatformSharedMemoryRegion` and `EnsureMapped`: through a second handle to
the region the native handles are returned again, and mapped after they were returned.

* `given_up_once`: if regions are unwrapped, and mapped for the first time, only while they own
  their native handles, each is given up at most once and not mapped after that;
* `not_given_up_once`: a region with two handles.
-/

namespace Voodoo.Whp

open Option Function

/-- A native handle that was accepted: by the serial number of the object it was wrapped in, or as
one of those of a region. -/
inductive Native where
  | platform (serial : Nat)
  | region (buffer index : Nat)
  deriving DecidableEq

inductive Deed where
  | returned
  | closed
  | mapped
  deriving DecidableEq

namespace Memory

/-- `EnsureMapped` comes to `mmap`. -/
def mmaps (m : Memory) (i : Nat) : Bool :=
  (m.range i).isNone && (m.core.buffers i).size != 0 &&
    (m.core.buffers i).platforms.head?.any (·.1 = Core.fileDescriptor)

/-- The native handles of a buffer, as many as are listed. -/
def deedsOn (deed : Deed) (i : Nat) (natives : List (UInt32 × Nat)) : List (Deed × Native) :=
  (List.range natives.length).map fun k => (deed, .region i k)

/-- What an operation does with native handles, one after another. -/
def deeds (m : Memory) (op : MemOp) : List (Deed × Native) :=
  let reply := (m.perform op).1
  match op with
  | .unwrapPlatformHandle h => reply.natives.map fun _ => (.returned, .platform (m.core.serial h))
  | .unwrapPlatformSharedMemoryRegion h _ _ =>
    match m.core.bufferAt h with
    | some i => deedsOn .returned i reply.natives
    | none => []
  | .mapBuffer b _ _ _ =>
    match m.core.bufferAt b with
    | some i =>
      (if m.mmaps i then [(.mapped, .region i 0)] else []) ++
        match reply.counts.head?.bind (fun p => m.maps.lookup p) with
        | some r => deedsOn .closed r.buf reply.natives
        | none => []
    | none => []
  | .unmapBuffer p =>
    match m.maps.lookup p with
    | some r => deedsOn .closed r.buf reply.natives
    | none => []
  | .close h =>
    match m.core.bufferAt h with
    | some i => deedsOn .closed i reply.natives
    | none => reply.natives.map fun _ => (.closed, .platform (m.core.serial h))
  | _ => []

/-- The native handle is given up. -/
def givesUp (d : Deed × Native) : Prop := d.1 = .returned ∨ d.1 = .closed

/-- The region owns its native handles when it is unwrapped, and when they are mapped. -/
def Owning (m : Memory) : MemOp → Prop
  | .unwrapPlatformSharedMemoryRegion h room wanted =>
    ∀ i, m.core.lookup h = some (.sharedBuffer i) → wanted = true →
      (m.core.buffers i).platforms.length ≤ room → (m.core.buffers i).platforms ≠ [] →
        (m.core.buffers i).platOwns = true
  | .mapBuffer b _ _ _ =>
    ∀ i, m.core.lookup b = some (.sharedBuffer i) → m.mmaps i = true →
      (m.core.buffers i).platOwns = true
  | _ => True

/-- No native handle is given up and then returned, closed or mapped. -/
def GivenUpOnce (log : List (Deed × Native)) : Prop :=
  log.Pairwise fun d d' => givesUp d → d'.2 ≠ d.2

/-- A native handle the core does not own any more. -/
def Gone (m : Memory) : Native → Prop
  | .platform s => s < m.core.nextSerial ∧ ∀ h o, m.core.lookup h = some o → m.core.serial h ≠ s
  | .region i _ => i < m.core.bufferCount ∧ (m.core.buffers i).platOwns = false

abbrev Uses (m m' : Memory) (ds : List (Deed × Native)) : Prop :=
  LastUse.Uses Gone Prod.snd givesUp m m' ds

end Memory

/-! ### Serial numbers -/

namespace Core

variable {c c' : Core} {h g : Handle} {o obj : Obj}

/-- `WhpClose` ends the object of its handle only, and numbers nothing. -/
theorem close_lookup (c : Core) (h : Handle) :
    (∀ g, ((c.close h).2.lookup g).isSome → g ≠ h ∧ (c.lookup g).isSome) ∧
      (c.close h).2.serial = c.serial ∧ (c.close h).2.nextSerial = c.nextSerial := by
  unfold Core.close
  cases hl : c.lookup h with
  | none =>
    refine ⟨fun g hg => ⟨fun hgh => ?_, hg⟩, rfl, rfl⟩
    rw [hgh] at hg
    change (c.lookup h).isSome = true at hg
    rw [hl] at hg
    cases hg
  | some o =>
    have hcol := collected_collectTrapEvents ((c.release h o).free h)
    have hrel (g : Handle) : (c.release h o).lookup g = c.lookup g := by
      rw [lookup, release_slots, lookup]
    refine ⟨fun g hg => ?_, ?_, ?_⟩
    · have hfree : (((c.release h o).free h).lookup g).isSome := by
        rcases hcol.obj g with heq | ⟨t, hold, -⟩
        · exact heq ▸ hg
        · rw [hold]
          rfl
      rw [lookup_free, hrel] at hfree
      by_cases hgh : g = h
      · rw [if_pos hgh] at hfree
        cases hfree
      · rw [if_neg hgh] at hfree
        exact ⟨hgh, hfree⟩
    · dsimp only
      rw [hcol.serial_eq, serial_free]
      funext g
      rw [serial, release_slots, serial]
    · obtain ⟨slots, events, heq, -⟩ := hcol.rest
      dsimp only
      rw [heq]
      show ((c.release h o).free h).nextSerial = _
      rw [free_nextSerial]
      cases o <;> rfl

theorem close_natives (c : Core) (h : Handle) : (c.close h).1.natives = [] ∨
    ∃ p o, c.lookup h = some o ∧ (c.close h).1.natives = [p] := by
  unfold Core.close
  cases hl : c.lookup h with
  | none => exact Or.inl rfl
  | some o =>
    cases o with
    | platform p =>
      dsimp only [released]
      by_cases hp : p.owns
      · rw [if_pos hp]
        exact Or.inr ⟨_, _, rfl, rfl⟩
      · rw [if_neg hp]
        exact Or.inl rfl
    | messagePipe e => exact Or.inl rfl
    | message msg => exact Or.inl rfl
    | trap t => exact Or.inl rfl
    | dataPipeProducer i => exact Or.inl rfl
    | dataPipeConsumer i => exact Or.inl rfl
    | sharedBuffer i => exact Or.inl rfl

/-- The objects have different numbers, all given out before. -/
structure Serials (c : Core) : Prop where
  lt_next : ∀ h o, c.lookup h = some o → c.serial h < c.nextSerial
  inj : ∀ h g o o', c.lookup h = some o → c.lookup g = some o' → c.serial h = c.serial g → h = g

namespace Serials

theorem congr (hs : c.Serials) (hlookup : ∀ h, (c'.lookup h).isSome → (c.lookup h).isSome)
    (hserial : c'.serial = c.serial) (hnext : c'.nextSerial = c.nextSerial) : c'.Serials where
  lt_next h o hl := by
    obtain ⟨o', hl'⟩ := isSome_iff_exists.mp (hlookup h (by rw [hl]; rfl))
    rw [hserial, hnext]
    exact hs.lt_next h o' hl'
  inj h g o o' hl hg heq := by
    obtain ⟨o₁, hl₁⟩ := isSome_iff_exists.mp (hlookup h (by rw [hl]; rfl))
    obtain ⟨o₂, hg₂⟩ := isSome_iff_exists.mp (hlookup g (by rw [hg]; rfl))
    rw [hserial] at heq
    exact hs.inj h g o₁ o₂ hl₁ hg₂ heq

theorem alloc (hs : c.Serials) (ht : c.Table) (obj : Obj) : (c.alloc obj).Serials where
  lt_next h o hl := by
    rw [ht.lookup_alloc] at hl
    rw [ht.serial_alloc, alloc_nextSerial]
    by_cases hh : h = c.nextHandle
    · rw [if_pos hh]
      exact Nat.lt_succ_self _
    · rw [if_neg hh] at hl ⊢
      exact Nat.lt_succ_of_lt (hs.lt_next h o hl)
  inj h g o o' hl hg heq := by
    rw [ht.lookup_alloc] at hl hg
    rw [ht.serial_alloc, ht.serial_alloc] at heq
    by_cases hh : h = c.nextHandle
    · by_cases hgn : g = c.nextHandle
      · rw [hh, hgn]
      · rw [if_neg hgn] at hg
        rw [if_pos hh, if_neg hgn] at heq
        exact absurd heq (Nat.ne_of_gt (hs.lt_next g o' hg))
    · rw [if_neg hh] at hl heq
      by_cases hgn : g = c.nextHandle
      · rw [if_pos hgn] at heq
        exact absurd heq (Nat.ne_of_lt (hs.lt_next h o hl))
      · rw [if_neg hgn] at hg heq
        exact hs.inj h g o o' hl hg heq

theorem free (hs : c.Serials) (h : Handle) : (c.free h).Serials := by
  refine hs.congr (fun g hg => ?_) (serial_free c h) (free_nextSerial c h)
  rw [lookup_free] at hg
  by_cases hgh : g = h
  · rw [if_pos hgh] at hg
    cases hg
  · rwa [if_neg hgh] at hg

theorem close (hs : c.Serials) (h : Handle) : (c.close h).2.Serials := by
  obtain ⟨hlive, hserial, hnext⟩ := close_lookup c h
  exact hs.congr (fun g hg => (hlive g hg).2) hserial hnext

end Serials

end Core

namespace Memory

variable {m m' m₁ : Memory} {n : Native} {i : Nat} {system : System}

/-! ### What is gone -/

theorem gone_mono (hnext : m.core.nextSerial ≤ m'.core.nextSerial)
    (hlive : ∀ h o, m'.core.lookup h = some o → m.core.nextSerial ≤ m'.core.serial h ∨
      (m.core.lookup h).isSome ∧ m'.core.serial h = m.core.serial h)
    (hcount : m.core.bufferCount ≤ m'.core.bufferCount)
    (howns : ∀ i < m.core.bufferCount, (m.core.buffers i).platOwns = false →
      (m'.core.buffers i).platOwns = false) (hgone : m.Gone n) : m'.Gone n := by
  cases n with
  | platform s =>
    refine ⟨Nat.lt_of_lt_of_le hgone.1 hnext, fun h o hl => ?_⟩
    rcases hlive h o hl with hle | ⟨hsome, heq⟩
    · exact Nat.ne_of_gt (Nat.lt_of_lt_of_le hgone.1 hle)
    · obtain ⟨o', hl'⟩ := isSome_iff_exists.mp hsome
      rw [heq]
      exact hgone.2 h o' hl'
  | region i k => exact ⟨Nat.lt_of_lt_of_le hgone.1 hcount, howns i hgone.1 hgone.2⟩

theorem gone_of_core (hcore : m'.core = m.core) : m'.Gone n ↔ m.Gone n := by
  cases n <;> unfold Gone <;> rw [hcore]

theorem gone_alloc {c : Core} {o : Obj} (ht : m.core.Table) (hslots : c.slots = m.core.slots)
    (hfree : c.freeList = m.core.freeList) (hnext : c.nextSerial = m.core.nextSerial)
    (hcount : m.core.bufferCount ≤ c.bufferCount)
    (howns : ∀ i < m.core.bufferCount, (m.core.buffers i).platOwns = false →
      (c.buffers i).platOwns = false) (hcore : m'.core = c.alloc o) (hgone : m.Gone n) :
    m'.Gone n := by
  have htc : c.Table := ht.congr (by rw [hslots]) hfree fun g => by
    rw [Core.lookup, Core.lookup, hslots]
  refine gone_mono ?_ (fun h o' hl => ?_) ?_ (fun i hi hown => ?_) hgone
  · rw [hcore, Core.alloc_nextSerial, hnext]
    exact Nat.le_succ _
  · rw [hcore, htc.lookup_alloc] at hl
    rw [hcore, htc.serial_alloc]
    by_cases hh : h = c.nextHandle
    · rw [if_pos hh]
      exact Or.inl (Nat.le_of_eq hnext.symm)
    · rw [if_neg hh] at hl ⊢
      rw [Core.lookup, hslots] at hl
      refine Or.inr ⟨?_, by rw [Core.serial, hslots, Core.serial]⟩
      rw [Core.lookup, hl]
      rfl
  · rw [hcore, Core.alloc_bufferCount]
    exact hcount
  · rw [hcore, Core.alloc_buffers]
    exact howns i hi hown

theorem gone_newBuffer (hk : m.Kept) (s : SharedBufferObj) (b : Backing) (hgone : m.Gone n) : Gone
    { m.back m.core.bufferCount b with
      core := (m.core.newBuffer s).alloc (.sharedBuffer m.core.bufferCount) } n := by
  refine gone_alloc (c := m.core.newBuffer s) hk.table rfl rfl rfl (Nat.le_succ _)
    (fun i hi hown => ?_) rfl hgone
  show (Function.update m.core.buffers m.core.bufferCount s i).platOwns = false
  rw [update_of_ne (Nat.ne_of_lt hi), hown]

theorem gone_free {c : Core} {h : Handle} (hslots : c.slots = m.core.slots)
    (hnext : c.nextSerial = m.core.nextSerial) (hcount : c.bufferCount = m.core.bufferCount)
    (howns : ∀ i < m.core.bufferCount, (m.core.buffers i).platOwns = false →
      (c.buffers i).platOwns = false) (hcore : m'.core = c.free h) (hgone : m.Gone n) :
    m'.Gone n := by
  refine gone_mono ?_ (fun g o' hl => Or.inr ?_) ?_ (fun i hi hown => ?_) hgone
  · exact Nat.le_of_eq (by rw [hcore, Core.free_nextSerial, hnext])
  · rw [hcore, Core.lookup_free] at hl
    by_cases hg : g = h
    · rw [if_pos hg] at hl
      cases hl
    · rw [if_neg hg, Core.lookup, hslots] at hl
      refine ⟨?_, by rw [hcore, Core.serial_free, Core.serial, hslots, Core.serial]⟩
      rw [Core.lookup, hl]
      rfl
  · exact Nat.le_of_eq (by rw [hcore, Core.free_bufferCount, hcount])
  · rw [hcore, Core.free_buffers]
    exact howns i hi hown

/-! ### The deeds -/

theorem mem_deedsOn {deed : Deed} {natives : List (UInt32 × Nat)} {d : Deed × Native}
    (hd : d ∈ deedsOn deed i natives) : natives ≠ [] ∧ ∃ k, d = (deed, .region i k) := by
  obtain ⟨k, hk, rfl⟩ := List.mem_map.mp hd
  refine ⟨fun hnil => ?_, k, rfl⟩
  rw [hnil] at hk
  exact absurd (List.mem_range.mp hk) (Nat.not_lt_zero k)

theorem uses_deedsOn {deed : Deed} {natives : List (UInt32 × Nat)}
    (hstays : ∀ n, m.Gone n → m'.Gone n) (howns : natives ≠ [] → (m.core.buffers i).platOwns = true)
    (hleaves : natives ≠ [] → i < m'.core.bufferCount ∧ (m'.core.buffers i).platOwns = false) :
    Uses m m' (deedsOn deed i natives) where
  stays := hstays
  fresh d hd := by
    obtain ⟨hne, k, rfl⟩ := mem_deedsOn hd
    intro hgone
    exact Bool.false_ne_true (hgone.2.symm.trans (howns hne))
  pairwise := by
    refine List.pairwise_map.mpr (List.Pairwise.imp (fun hlt _ heq => ?_) List.pairwise_lt_range)
    exact absurd (Native.region.inj heq).2 (Nat.ne_of_gt hlt)
  leaves d hd _ := by
    obtain ⟨hne, k, rfl⟩ := mem_deedsOn hd
    exact hleaves hne

theorem uses_drop (hi : i < m.core.bufferCount) :
    Uses m (m.drop i).2 (deedsOn .closed i (m.drop i).1) := by
  unfold drop
  by_cases hheld : m.held i
  · rw [if_pos hheld]
    exact .nil fun _ => id
  · rw [if_neg hheld]
    have hself : ((m.destroy i).2.core.buffers i).platOwns = false := by
      show (Function.update m.core.buffers i _ i).platOwns = _
      rw [update_self]
    refine uses_deedsOn (fun n => gone_mono (Nat.le_refl _) (fun h o hl => Or.inr ⟨?_, rfl⟩)
      (Nat.le_refl _) fun j _ hown => ?_) (fun hne => ?_) fun _ => ⟨hi, hself⟩
    · rw [show m.core.lookup h = some o from hl]
      rfl
    · by_cases hj : j = i
      · rw [hj, hself]
      · show (Function.update m.core.buffers i _ j).platOwns = _
        rw [update_of_ne hj, hown]
    · by_contra hno
      exact hne (if_neg hno)

theorem uses_close (hk : m.Kept) (hs : m.core.Serials) (h : Handle) :
    Uses m (m.close h).2 (m.deeds (.close h)) := by
  obtain ⟨hlive, hserial, hnext⟩ := Core.close_lookup m.core h
  obtain ⟨-, -, hbuf, hcount⟩ := Core.close_bufferAt hk.table h
  have hstays (n : Native) : m.Gone n → Gone { m with core := (m.core.close h).2 } n := by
    refine gone_mono (Nat.le_of_eq hnext.symm) (fun g o hl => Or.inr ?_) (Nat.le_of_eq hcount.symm)
      fun i _ hown => ?_
    · exact ⟨(hlive g (by rw [show (m.core.close h).2.lookup g = some o from hl]; rfl)).2,
        congrFun hserial g⟩
    · rw [show (m.core.close h).2.buffers = _ from hbuf]
      exact hown
  unfold deeds
  dsimp only [perform]
  unfold Memory.close
  dsimp only
  cases hb : m.core.bufferAt h with
  | some i =>
    have hi : i < m.core.bufferCount := hk.settled.made_of_points (.inl h) i hb
    rw [Core.bufferAt_eq_some.mp hb]
    have hclosed : Uses m { m with core := (m.core.close h).2 } [] := .nil hstays
    exact hclosed.trans (uses_drop (hcount ▸ hi))
  | none =>
    split
    · rename_i i hl
      rw [Core.bufferAt_eq_some.mpr hl] at hb
      cases hb
    · dsimp only
      rcases Core.close_natives m.core h with hnil | ⟨p, o, hl, heq⟩
      · rw [hnil]
        exact .nil hstays
      · rw [heq]
        refine .single hstays (fun hgone => hgone.2 h o hl rfl) fun _ => ?_
        refine ⟨hnext.symm ▸ hs.lt_next h o hl, fun g o' hg heq => ?_⟩
        obtain ⟨hgh, hg'⟩ := hlive g
          (by rw [show (m.core.close h).2.lookup g = some o' from hg]; rfl)
        obtain ⟨o'', hg'⟩ := isSome_iff_exists.mp hg'
        exact hgh (hs.inj g h o'' o hg' hl ((congrFun hserial g).symm.trans heq))

theorem uses_unwrapPlatformHandle (hs : m.core.Serials) (h : Handle) :
    Uses m (m.unwrapPlatformHandle h).2 (m.deeds (.unwrapPlatformHandle h)) := by
  unfold deeds
  dsimp only [perform]
  unfold Memory.unwrapPlatformHandle
  rcases m.core.unwrapPlatformHandle_cases h with ⟨p, hl, heq⟩ | heq
  · rw [heq]
    refine .single (fun n => gone_free rfl rfl rfl (fun _ _ => id) rfl)
      (fun hgone => hgone.2 h _ hl rfl) fun _ => ?_
    refine ⟨(Core.free_nextSerial m.core h).symm ▸ hs.lt_next h _ hl, fun g o' hg hser => ?_⟩
    rw [Core.serial_free] at hser
    rw [Core.lookup_free] at hg
    by_cases hgh : g = h
    · rw [if_pos hgh] at hg
      cases hg
    · rw [if_neg hgh] at hg
      exact hgh (hs.inj g h o' _ hg hl hser)
  · rw [heq]
    exact .nil fun _ => id

theorem uses_unwrapPlatformSharedMemoryRegion (hk : m.Kept) (h : Handle) (room : Nat)
    (wanted : Bool)
    (hown : m.Owning (.unwrapPlatformSharedMemoryRegion h room wanted)) :
    Uses m (m.unwrapPlatformSharedMemoryRegion h room wanted).2
      (m.deeds (.unwrapPlatformSharedMemoryRegion h room wanted)) := by
  unfold deeds
  dsimp only [perform]
  unfold Memory.unwrapPlatformSharedMemoryRegion
  rcases m.core.unwrapPlatformSharedMemoryRegion_cases h room wanted with
    ⟨i, counts, hl, hwanted, hroom, heq⟩ | ⟨reply, heq, hno, hnatives⟩
  · have hi : i < m.core.bufferCount :=
      hk.settled.made_of_points (.inl h) i (Core.bufferAt_eq_some.mpr hl)
    -- The region is disowned, the slot freed, and the pointer of the slot goes.
    have howns (j : Nat) (hj : (m.core.buffers j).platOwns = false) :
        ((m.core.setBuffer i { m.core.buffers i with platOwns := false }).buffers j).platOwns =
          false := by
      show (Function.update m.core.buffers i _ j).platOwns = false
      by_cases hji : j = i
      · rw [hji, update_self]
      · rw [update_of_ne hji, hj]
    have hself :
        ((m.core.setBuffer i { m.core.buffers i with platOwns := false }).buffers i).platOwns
        = false := by
      show (Function.update m.core.buffers i _ i).platOwns = false
      rw [update_self]
    rw [heq, hl, Core.bufferAt_eq_some.mpr hl]
    dsimp only
    rw [if_pos rfl, ← List.append_nil (deedsOn _ _ _)]
    have hreturned : Uses m { m with
        core := (m.core.setBuffer i { m.core.buffers i with platOwns := false }).free h }
        (deedsOn .returned i (m.core.buffers i).platforms) := by
      refine uses_deedsOn (fun n => gone_free
          (c := m.core.setBuffer i { m.core.buffers i with platOwns := false })
          rfl rfl rfl (fun j _ => howns j) rfl)
        (fun hne => ?_) fun _ => ⟨?_, ?_⟩
      · exact hown i hl hwanted hroom hne
      · rw [Core.free_bufferCount]
        exact hi
      · rw [Core.free_buffers]
        exact hself
    refine hreturned.trans (.nil (uses_drop ?_).stays)
    · rw [Core.free_bufferCount]
      exact hi
  · rw [heq]
    cases hb : m.core.bufferAt h with
    | some i =>
      rw [Core.bufferAt_eq_some.mp hb]
      dsimp only
      rw [if_neg hno, hnatives]
      exact .nil fun _ => id
    | none =>
      dsimp only
      split
      · rename_i i hl
        rw [Core.bufferAt_eq_some.mpr hl] at hb
        cases hb
      · exact .nil fun _ => id

theorem uses_unmapBuffer (hk : m.Kept) (p : Nat) :
    Uses m (m.unmapBuffer p).2 (m.deeds (.unmapBuffer p)) := by
  unfold deeds
  dsimp only [perform]
  rcases m.unmapBuffer_cases p with
    ⟨r, natives, m₂, hr, -, -, hdrop, heq⟩ | ⟨r, hr, -, -, heq⟩ | ⟨-, heq⟩
  · have hi : r.buf < m.core.bufferCount := by
      refine hk.settled.made_of_points (.inr p) r.buf ?_
      show (m.maps.lookup p).map _ = _
      rw [hr, map_some]
    have huses := uses_drop (m := { m with maps := m.maps.filter (·.1 ≠ p) }) hi
    rw [hdrop] at huses
    rw [heq, hr]
    exact huses.congr_left fun n => (gone_of_core rfl).symm
  · rw [heq, hr]
    exact .nil fun n => (gone_of_core rfl).mpr
  · rw [heq]
    split <;> exact .nil fun _ => id

theorem uses_enter (hk : m.Kept) (p : Nat) : Uses m (m.enter p i).2
    (match m.maps.lookup p with
      | some r => deedsOn .closed r.buf (m.enter p i).1
      | none => []) := by
  unfold enter
  cases hp : m.maps.lookup p with
  | none => exact .nil fun n => (gone_of_core rfl).mpr
  | some r =>
    have hi : r.buf < m.core.bufferCount := by
      refine hk.settled.made_of_points (.inr p) r.buf ?_
      show (m.maps.lookup p).map _ = _
      rw [hp, map_some]
    have huses := uses_drop
      (m := { m with maps := (p, ⟨i, r.refs + 1⟩) :: m.maps.filter (·.1 ≠ p) }) hi
    exact huses.congr_left fun n => (gone_of_core rfl).symm

theorem uses_ensureMapped (hcore : m'.core = m.core)
    (hown : m.mmaps i = true → (m.core.buffers i).platOwns = true) :
    Uses m m' (if m.mmaps i then [(.mapped, .region i 0)] else []) := by
  have hstays (n : Native) : m.Gone n → m'.Gone n := (gone_of_core hcore).mpr
  by_cases hmm : m.mmaps i
  · rw [if_pos hmm]
    refine .single hstays (fun hgone => ?_) ?_
    · exact Bool.false_ne_true (hgone.2.symm.trans (hown hmm))
    · rintro (hd | hd) <;> cases hd
  · rw [if_neg hmm]
    exact .nil hstays

theorem uses_mapBuffer (hk : m.Kept) (b : Handle) (offset n : UInt64) (system : System)
    (hown : m.Owning (.mapBuffer b offset n system)) :
    Uses m (m.mapBuffer b offset n system).2 (m.deeds (.mapBuffer b offset n system)) := by
  unfold deeds
  dsimp only [perform]
  rcases m.mapBuffer_cases b offset n system with
    ⟨i, m₁, natives, m₂, hl, hm₁, -, henter, heq⟩ | ⟨result, hreply, hno, hm⟩
  · have huses := uses_enter (i := i) (hk.ensureMapped hm₁).1 ((m₁.base i + offset.toNat) % 2 ^ 64)
    rw [maps_ensureMapped hm₁, henter] at huses
    rw [heq, Core.bufferAt_eq_some.mpr hl]
    exact (uses_ensureMapped (core_ensureMapped hm₁) (hown i hl)).trans huses
  · have hcore : (m.mapBuffer b offset n system).2.core = m.core := by
      rcases hm with heq | ⟨i, -, hm₁⟩
      · rw [heq]
      · exact core_ensureMapped hm₁
    cases hb : m.core.bufferAt b with
    | some i =>
      rw [hreply]
      exact (uses_ensureMapped hcore (hown i (Core.bufferAt_eq_some.mp hb))).trans
        (.nil fun _ => id)
    | none => exact .nil fun n => (gone_of_core hcore).mpr

/-! ### The promise -/

theorem uses_step (hk : m.Kept) (hs : m.core.Serials) (op : MemOp) (hown : m.Owning op) :
    Uses m (m.step op) (m.deeds op) := by
  cases op with
  | createSharedBuffer n system =>
    refine .nil fun x hgone => ?_
    show (m.createSharedBuffer n system).2.Gone x
    unfold createSharedBuffer Core.createSharedBuffer
    split
    · exact hgone
    · exact gone_newBuffer hk _ _ hgone
  | duplicateBufferHandle b =>
    refine .nil fun x hgone => ?_
    show (m.duplicateBufferHandle b).2.Gone x
    unfold duplicateBufferHandle
    rcases m.core.duplicateBufferHandle_cases b with ⟨i, -, heq⟩ | heq <;> rw [heq]
    · exact gone_alloc hk.table rfl rfl rfl (Nat.le_refl _) (fun _ _ => id) rfl hgone
    · exact hgone
  | mapBuffer b offset n system => exact uses_mapBuffer hk b offset n system hown
  | unmapBuffer p => exact uses_unmapBuffer hk p
  | wrapPlatformHandle type value =>
    refine .nil fun x hgone => ?_
    show (m.wrapPlatformHandle type value).2.Gone x
    unfold wrapPlatformHandle
    rcases m.core.wrapPlatformHandle_cases type value with ⟨-, heq⟩ | heq <;> rw [heq]
    · exact gone_alloc hk.table rfl rfl rfl (Nat.le_refl _) (fun _ _ => id) rfl hgone
    · exact hgone
  | unwrapPlatformHandle h => exact uses_unwrapPlatformHandle hs h
  | wrapPlatformSharedMemoryRegion ns n guid mode system =>
    refine .nil fun x hgone => ?_
    show (m.wrapPlatformSharedMemoryRegion ns n guid mode system).2.Gone x
    unfold wrapPlatformSharedMemoryRegion
    rcases m.core.wrapPlatformSharedMemoryRegion_cases ns n guid mode with ⟨-, -, -, heq⟩ | heq
    · rw [heq]
      exact gone_newBuffer hk _ _ hgone
    · rw [heq]
      exact hgone
  | unwrapPlatformSharedMemoryRegion h room wanted =>
    exact uses_unwrapPlatformSharedMemoryRegion hk h room wanted hown
  | close h => exact uses_close hk hs h

theorem serials_of_slots {c : Core} (hs : m.core.Serials) (hslots : c.slots = m.core.slots)
    (hnext : c.nextSerial = m.core.nextSerial) : c.Serials := by
  refine hs.congr (fun g hg => ?_) ?_ hnext
  · rwa [Core.lookup, hslots] at hg
  · funext g
    rw [Core.serial, hslots, Core.serial]

theorem serials_drop (hs : m.core.Serials) (i : Nat) : (m.drop i).2.core.Serials := by
  unfold drop
  split
  · exact hs
  · exact serials_of_slots hs rfl rfl

theorem serials_enter (hs : m.core.Serials) (p i : Nat) : (m.enter p i).2.core.Serials := by
  unfold enter
  split
  · exact hs
  · rename_i r _
    exact serials_drop
      (m := { m with maps := (p, ⟨i, r.refs + 1⟩) :: m.maps.filter (·.1 ≠ p) }) hs r.buf

theorem serials_start : ({} : Memory).core.Serials where
  lt_next h o hl := by
    have hlt := Core.lt_length_of_lookup hl
    exact absurd (Nat.lt_one_iff.mp hlt) (Core.ne_zero_of_lookup hl)
  inj h g o o' hl hg _ := by
    have hlt := Core.lt_length_of_lookup hl
    exact absurd (Nat.lt_one_iff.mp hlt) (Core.ne_zero_of_lookup hl)

theorem serials_newBuffer (hk : m.Kept) (hs : m.core.Serials) (s : SharedBufferObj) :
    ((m.core.newBuffer s).alloc (.sharedBuffer m.core.bufferCount)).Serials := by
  have htable : (m.core.newBuffer s).Table :=
    hk.table.congr rfl rfl fun _ => Iff.rfl
  have hserials : (m.core.newBuffer s).Serials := serials_of_slots hs rfl rfl
  exact hserials.alloc htable _

theorem serials_step (hk : m.Kept) (hs : m.core.Serials) (op : MemOp) :
    (m.step op).core.Serials := by
  cases op with
  | createSharedBuffer n system =>
    show (m.createSharedBuffer n system).2.core.Serials
    unfold createSharedBuffer Core.createSharedBuffer
    split
    · exact hs
    · exact serials_newBuffer hk hs _
  | duplicateBufferHandle b =>
    show (m.core.duplicateBufferHandle b).2.Serials
    rcases m.core.duplicateBufferHandle_cases b with ⟨i, -, heq⟩ | heq <;> rw [heq]
    · exact hs.alloc hk.table _
    · exact hs
  | mapBuffer b offset n system =>
    show (m.mapBuffer b offset n system).2.core.Serials
    rcases m.mapBuffer_cases b offset n system with
      ⟨i, m₁, natives, m₂, -, hm₁, -, henter, heq⟩ | ⟨result, -, -, heq | ⟨i, -, hm₁⟩⟩
    · have hs₂ := serials_enter (core_ensureMapped hm₁ ▸ hs) ((m₁.base i + offset.toNat) % 2 ^ 64) i
      rw [henter] at hs₂
      rw [heq]
      exact hs₂
    · rw [heq]
      exact hs
    · exact core_ensureMapped hm₁ ▸ hs
  | unmapBuffer p =>
    show (m.unmapBuffer p).2.core.Serials
    rcases m.unmapBuffer_cases p with
      ⟨r, natives, m₂, -, -, -, hdrop, heq⟩ | ⟨r, -, -, -, heq⟩ | ⟨-, heq⟩
    · have hs₂ := serials_drop (m := { m with maps := m.maps.filter (·.1 ≠ p) }) hs r.buf
      rw [hdrop] at hs₂
      rw [heq]
      exact hs₂
    · rw [heq]
      exact hs
    · rw [heq]
      exact hs
  | wrapPlatformHandle type value =>
    show (m.core.wrapPlatformHandle type value).2.Serials
    rcases m.core.wrapPlatformHandle_cases type value with ⟨-, heq⟩ | heq <;> rw [heq]
    · exact hs.alloc hk.table _
    · exact hs
  | unwrapPlatformHandle h =>
    show (m.core.unwrapPlatformHandle h).2.Serials
    rcases m.core.unwrapPlatformHandle_cases h with ⟨p, -, heq⟩ | heq <;> rw [heq]
    · exact hs.free h
    · exact hs
  | wrapPlatformSharedMemoryRegion ns n guid mode system =>
    show (m.wrapPlatformSharedMemoryRegion ns n guid mode system).2.core.Serials
    unfold wrapPlatformSharedMemoryRegion
    rcases m.core.wrapPlatformSharedMemoryRegion_cases ns n guid mode with ⟨-, -, -, heq⟩ | heq
    · rw [heq]
      exact serials_newBuffer hk hs _
    · rw [heq]
      exact hs
  | unwrapPlatformSharedMemoryRegion h room wanted =>
    show (m.unwrapPlatformSharedMemoryRegion h room wanted).2.core.Serials
    unfold unwrapPlatformSharedMemoryRegion
    rcases m.core.unwrapPlatformSharedMemoryRegion_cases h room wanted with
      ⟨i, counts, hl, -, -, heq⟩ | ⟨reply, heq, hno, -⟩
    · rw [heq, hl]
      have hs₁ : (m.core.setBuffer i { m.core.buffers i with platOwns := false }).Serials :=
        serials_of_slots hs rfl rfl
      exact serials_drop (m := { m with core := _ }) (hs₁.free h) i
    · rw [heq]
      dsimp only
      split
      · rw [if_neg hno]
        exact hs
      · exact hs
  | close h =>
    show (m.close h).2.core.Serials
    unfold close
    dsimp only
    split
    · exact serials_drop (m := { m with core := _ }) (hs.close h) _
    · exact hs.close h

/-- **Native handles are given up at most once**, and not used after that, in every run in which a
region that has been unwrapped is neither unwrapped again nor mapped for the first time. -/
theorem given_up_once {s : Memory × List (Deed × Native)}
    (h : Machine.Reaches ({}, []) (LastUse.logged step deeds) (fun s op => s.1.Owning op) s) :
    GivenUpOnce s.2 := by
  have hinv := LastUse.uses_of_reaches (J := fun m => m.Kept ∧ m.core.Serials)
    ⟨kept_start, serials_start⟩
    (fun m op hm hown => ⟨⟨hm.1.step op, serials_step hm.1 hm.2 op⟩, uses_step hm.1 hm.2 op hown⟩) h
  exact hinv.2.pairwise

/-- A native handle on its own and one of a region, which is mapped and then unwrapped. -/
def tidy : List MemOp :=
  [.wrapPlatformHandle 1 5, .wrapPlatformSharedMemoryRegion [(1, 6)] 100 (0, 0) 0 { place := 64 },
    .duplicateBufferHandle 2, .mapBuffer 3 0 100 { place := 64 },
    .unwrapPlatformSharedMemoryRegion 2 1 true, .close 3, .unmapBuffer 64, .close 1]

theorem owning_tidy :
    Machine.Along (LastUse.logged step deeds) (fun s op => s.1.Owning op) ({}, []) tidy := by
  refine ⟨trivial, trivial, trivial, fun i hl _ => ?_, fun i hl _ _ _ => ?_, trivial,
    trivial, trivial, trivial⟩
  · obtain rfl : 0 = i := Obj.sharedBuffer.inj (some.inj hl)
    decide
  · obtain rfl : 0 = i := Obj.sharedBuffer.inj (some.inj hl)
    decide

theorem given_up_once_tidy :
    (tidy.foldl (LastUse.logged step deeds) ({}, [])).2 =
      [(.mapped, .region 0 0), (.returned, .region 0 0), (.closed, .platform 0)] ∧
    GivenUpOnce (tidy.foldl (LastUse.logged step deeds) ({}, [])).2 :=
  ⟨by decide, given_up_once (.along .start owning_tidy)⟩

/-- A region with two handles is unwrapped through one, and then mapped and unwrapped through the
other. -/
def untidy : List MemOp :=
  [.wrapPlatformSharedMemoryRegion [(1, 6)] 100 (0, 0) 0 { place := 64 }, .duplicateBufferHandle 1,
    .unwrapPlatformSharedMemoryRegion 1 1 true, .mapBuffer 2 0 100 { place := 64 },
    .unwrapPlatformSharedMemoryRegion 2 1 true]

theorem not_given_up_once :
    (untidy.foldl (LastUse.logged step deeds) ({}, [])).2 =
      [(.returned, .region 0 0), (.mapped, .region 0 0), (.returned, .region 0 0)] ∧
    ¬ GivenUpOnce (untidy.foldl (LastUse.logged step deeds) ({}, [])).2 := by
  have hlog : (untidy.foldl (LastUse.logged step deeds) ({}, [])).2 =
      [(.returned, .region 0 0), (.mapped, .region 0 0), (.returned, .region 0 0)] := by
    decide
  refine ⟨hlog, ?_⟩
  rw [hlog]
  intro h
  exact (List.pairwise_cons.mp h).1 (.mapped, .region 0 0) (by decide) (Or.inl rfl) rfl

end Memory

end Voodoo.Whp
