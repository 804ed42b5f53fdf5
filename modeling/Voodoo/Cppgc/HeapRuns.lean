import Voodoo.Cppgc.Collect

/-!
# Runs of the heap

The program allocates, writes members, assigns and moves persistents, and collects.  A run starts
with an empty heap whose memory is arbitrary.  Every action has a result, and the heap is consistent
in every state (`consistent_step`, `consistent_of_reachable`).
-/

namespace Voodoo.Cppgc

open Machine Tiles List Function

variable {a : Arch} {h : Heap} {layout : Nat → List (Block Use)} {size index : Nat} {host : Host}

/-! ### Allocation -/

section Space

variable {s : Space} {z : Address}

theorem refill_frame (size : Nat) (host : Host) (hs : Formatted a s layout) :
    (s.refillLinearAllocationBuffer a size host).2.live = s.live ∧
      ∀ z ∈ s.live, (s.refillLinearAllocationBuffer a size host).2.memory z = s.memory z := by
  rw [Space.refillLinearAllocationBuffer]
  rcases formatted_allocate size hs with ⟨list, heq, hlist⟩ | ⟨block, list, x, heq, hlist, -⟩
  · rw [heq]
    dsimp only
    by_cases hhost : host = .exhausted
    · rw [if_pos hhost]
      exact ⟨rfl, fun _ _ => rfl⟩
    · rw [if_neg hhost]
      show (Space.replaceLinearAllocationBuffer a _ _ _).live = _ ∧
        ∀ z ∈ s.live, (Space.replaceLinearAllocationBuffer a _ _ _).memory z = _
      rw [replace_createPage]
      obtain ⟨-, -, -, hlive, -⟩ := flush_members (a := a) { s with freeList := list }
      exact ⟨hlive, fun z hz => memory_flush hlist hz⟩
  · rw [heq]
    obtain ⟨-, -, -, hlive, -⟩ := flush_members (a := a) { s with freeList := list }
    exact ⟨hlive, fun z hz => memory_flush hlist hz⟩

end Space

theorem Heap.Consistent.congr {space : Space} (hh : h.Consistent a)
    (hformatted : ∃ layout, Formatted a space layout) (hlive : space.live = h.space.live)
    (hmemory : ∀ z ∈ h.space.live, space.memory z = h.space.memory z) :
    { h with space : Heap }.Consistent a where
  formatted := hformatted
  unmarked z hz := by
    have hz : z ∈ h.space.live := hlive ▸ hz
    show (space.memory z).marked = false
    rw [hmemory z hz]
    exact hh.unmarked z hz
  closed z hz field hfield target htarget := by
    have hz : z ∈ h.space.live := hlive ▸ hz
    show target ∈ space.live
    rw [hlive]
    exact hh.closed z hz field hfield target htarget
  strong := by
    show h.strongPersistents.Attached space.live
    rw [hlive]
    exact hh.strong
  weak := by
    show h.weakPersistents.Attached space.live
    rw [hlive]
    exact hh.weak

/-- **A new object**, which has no members yet. -/
theorem Heap.Consistent.insert {space : Space} {z : Address} (hh : h.Consistent a)
    (hformatted : ∃ layout, Formatted a space layout) (hlive : space.live = h.space.live ++ [z])
    (hmemory : space.memory = Function.update h.space.memory z (.create a size index)) :
    { h with space, contents := Function.update h.contents z [] : Heap }.Consistent a where
  formatted := hformatted
  unmarked y hy := by
    show (space.memory y).marked = false
    have hy : y ∈ space.live := hy
    rw [hlive, mem_append, mem_singleton] at hy
    rw [hmemory]
    by_cases hyz : y = z
    · rw [hyz, update_self]
      rfl
    · rw [update_of_ne hyz]
      exact hh.unmarked y (hy.resolve_right hyz)
  closed y hy field hfield target htarget := by
    have hy : y ∈ space.live := hy
    have hfield : field ∈ Function.update h.contents z [] y := hfield
    show target ∈ space.live
    rw [hlive, mem_append, mem_singleton] at hy
    rw [hlive]
    by_cases hyz : y = z
    · rw [hyz, update_self] at hfield
      exact (not_mem_nil hfield).elim
    · rw [update_of_ne hyz] at hfield
      exact mem_append_left _ (hh.closed y (hy.resolve_right hyz) field hfield target htarget)
  strong := by
    refine hh.strong.mono fun y hy => ?_
    show y ∈ space.live
    rw [hlive]
    exact mem_append_left _ hy
  weak := by
    refine hh.weak.mono fun y hy => ?_
    show y ∈ space.live
    rw [hlive]
    exact mem_append_left _ hy

/-- What is asked of the size of an object of a page. -/
structure Placeable (a : Arch) (size index : Nat) : Prop where
  pos : 0 < size
  dvd : a.granularity ∣ size
  le : size ≤ payloadSize a
  indexPos : 0 < index
  indexLt : index < 2 ^ 14

theorem Heap.Consistent.place (hh : h.Consistent a) (hsize : Placeable a size index)
    (hlab : size ≤ h.space.lab.size) : (h.place a size index).Consistent a := by
  obtain ⟨layout, hformatted⟩ := hh.formatted
  exact hh.insert (formatted_place hformatted hsize.pos hlab hsize.dvd hsize.indexPos hsize.indexLt)
    rfl rfl

theorem Heap.Consistent.refill (hh : h.Consistent a) (host : Host) (hsize : Placeable a size index) :
    { h with space := (h.space.refillLinearAllocationBuffer a size host).2 : Heap }.Consistent a ∧
      ((h.space.refillLinearAllocationBuffer a size host).1 = true →
        size ≤ (h.space.refillLinearAllocationBuffer a size host).2.lab.size) := by
  obtain ⟨layout, hformatted⟩ := hh.formatted
  obtain ⟨layout', hrefill, hlab⟩ := formatted_refill host hformatted hsize.le
  obtain ⟨hlive, hmemory⟩ := refill_frame size host hformatted
  exact ⟨hh.congr ⟨layout', hrefill⟩ hlive hmemory, hlab⟩

/-- **`AllocateNormal`.** -/
theorem allocateNormal_eq {retry : Host} (hh : h.Consistent a) (hsize : Placeable a size index) :
    ∃ t, h.allocateNormal a size index host retry = some t ∧ t.Consistent a := by
  rw [Heap.allocateNormal]
  by_cases hlab : h.space.lab.size < size
  · rw [if_pos hlab]
    obtain ⟨hrefill, hfits⟩ := hh.refill host hsize
    generalize h.space.refillLinearAllocationBuffer a size host = refilled at hrefill hfits ⊢
    obtain ⟨ok, space⟩ := refilled
    cases ok with
    | true => exact ⟨_, rfl, hrefill.place hsize (hfits rfl)⟩
    | false =>
      obtain ⟨t, hcollect, -, hconsistent, -⟩ := collectGarbage_eq hrefill
      obtain ⟨hrefill', hfits'⟩ := hconsistent.refill retry hsize
      dsimp only
      rw [if_neg Bool.false_ne_true, hcollect, Option.bind_eq_bind, Option.bind_some]
      generalize t.space.refillLinearAllocationBuffer a size retry = refilled at hrefill' hfits' ⊢
      obtain ⟨ok, space'⟩ := refilled
      cases ok with
      | true => exact ⟨_, rfl, hrefill'.place hsize (hfits' rfl)⟩
      | false => exact ⟨_, rfl, hrefill'⟩
  · rw [if_neg hlab]
    exact ⟨_, rfl, hh.place hsize (Nat.le_of_not_lt hlab)⟩

theorem allocateLarge_consistent (hh : h.Consistent a) :
    (h.allocateLarge a size index host).Consistent a := by
  rw [Heap.allocateLarge]
  split
  · exact hh
  · obtain ⟨layout, hformatted⟩ := hh.formatted
    exact hh.insert ⟨layout, formatted_allocateLarge hformatted⟩ rfl rfl

theorem roundUp_granularity (n : Nat) :
    0 < roundUp (a.granularity + n) a.granularity ∧
      a.granularity ∣ roundUp (a.granularity + n) a.granularity := by
  have hpos := granularity_pos a
  refine ⟨Nat.mul_pos (Nat.div_pos (by omega) hpos) hpos, Nat.dvd_mul_left ..⟩

/-- **`Allocate`.** -/
theorem allocate_eq (objectSize : Nat) (host retry : Host) (hh : h.Consistent a) (hpos : 0 < index)
    (hlt : index < 2 ^ 14) :
    ∃ t, h.allocate a objectSize index host retry = some t ∧ t.Consistent a := by
  rw [Heap.allocate]
  split
  · exact ⟨h, rfl, hh⟩
  · split
    · exact ⟨_, rfl, allocateLarge_consistent hh⟩
    · rename_i hsmall
      obtain ⟨hsize, hdvd⟩ := roundUp_granularity (a := a) objectSize
      refine allocateNormal_eq hh ⟨hsize, hdvd, ?_, hpos, hlt⟩
      have hthreshold : kLargeObjectSizeThreshold ≤ payloadSize a := by cases a <;> decide
      omega

/-! ### Runs -/

/-- The heap before the first action; what is in the memory of the host is arbitrary. -/
def Heap.start (memory : Memory) : Heap := { space := { memory } }

/-- What the program may do: it has references only to objects, and a persistent is moved into a new
one. -/
def Heap.Allowed (h : Heap) : Heap.Action → Prop
  | .allocate _ gcInfoIndex _ _ => 0 < gcInfoIndex ∧ gcInfoIndex < 2 ^ 14
  | .write object fields => object ∈ h.space.live ∧
      ∀ field ∈ fields, ∀ target, field.target = some target → target ∈ h.space.live
  | .assign _ raw => ∀ target, raw = some target → target ∈ h.space.live
  | .move owner source => owner ≠ source ∧ (h.strongPersistents.handles owner).node = none
  | .assignWeak _ raw => ∀ target, raw = some target → target ∈ h.space.live
  | .moveWeak owner source => owner ≠ source ∧ (h.weakPersistents.handles owner).node = none
  | .collectGarbage => True

/-- The heaps of the runs. -/
def Heap.Reachable (a : Arch) (memory : Memory) : Heap → Prop :=
  Reaches (Heap.start memory) (Heap.step a) Heap.Allowed

theorem consistent_start (memory : Memory) : (Heap.start memory).Consistent a where
  formatted := by
    refine ⟨fun _ => [], ⟨fun p hp => (not_mem_nil hp).elim,
      fun p hp => (not_mem_nil hp).elim, fun p hp => (not_mem_nil hp).elim⟩,
      ⟨fun i e he => (not_mem_nil he).elim, fun i => nodup_nil, fun i _ => rfl⟩,
      fun p hp => (not_mem_nil hp).elim, fun hpos => absurd hpos (Nat.lt_irrefl 0),
      fun z => iff_of_false not_mem_nil ?_, nodup_nil, nodup_nil,
      fun b hb => (not_mem_nil hb).elim⟩
    rintro (⟨hp, -⟩ | ⟨hb, -⟩)
    · exact not_mem_nil hp
    · exact not_mem_nil hb
  unmarked z hz := (not_mem_nil hz).elim
  closed z hz := (not_mem_nil hz).elim
  strong := Persistents.attached_empty
  weak := Persistents.attached_empty

/-- **An action** keeps the heap consistent. -/
theorem consistent_step {action : Heap.Action} (hh : h.Consistent a) (hallowed : h.Allowed action) :
    (h.step a action).Consistent a := by
  cases action with
  | allocate objectSize gcInfoIndex host retry =>
    obtain ⟨t, heq, ht⟩ := allocate_eq objectSize host retry hh hallowed.1 hallowed.2
    rw [Heap.step, heq]
    exact ht
  | write object fields =>
    refine ⟨hh.formatted, hh.unmarked, fun z hz field hfield target htarget => ?_, hh.strong, hh.weak⟩
    have hfield : field ∈ Function.update h.contents object fields z := hfield
    by_cases hzo : z = object
    · rw [hzo, update_self] at hfield
      exact hallowed.2 field hfield target htarget
    · rw [update_of_ne hzo] at hfield
      exact hh.closed z hz field hfield target htarget
  | assign owner raw =>
    exact ⟨hh.formatted, hh.unmarked, hh.closed, hh.strong.assign owner hallowed, hh.weak⟩
  | move owner source =>
    exact ⟨hh.formatted, hh.unmarked, hh.closed, hh.strong.move hallowed.1 hallowed.2, hh.weak⟩
  | assignWeak owner raw =>
    exact ⟨hh.formatted, hh.unmarked, hh.closed, hh.strong, hh.weak.assign owner hallowed⟩
  | moveWeak owner source =>
    exact ⟨hh.formatted, hh.unmarked, hh.closed, hh.strong, hh.weak.move hallowed.1 hallowed.2⟩
  | collectGarbage =>
    obtain ⟨t, heq, -, ht, -⟩ := collectGarbage_eq hh
    rw [Heap.step, heq]
    exact ht

/-- **The heap is consistent** in every state of every run. -/
theorem consistent_of_reachable {memory : Memory} (hh : Heap.Reachable a memory h) : h.Consistent a :=
  hh.invariant (consistent_start memory) fun _ _ hs hallowed => consistent_step hs hallowed

/-! ### Collections of a run -/

/-- **Mark and sweep**: a collection keeps what the strong persistents reach and does away with the
rest.  Memory that is not released is that of a page in a sandbox with nothing left on it. -/
theorem Heap.Reachable.collects {memory : Memory} (hh : Heap.Reachable a memory h) :
    ∃ t, h.collectGarbage a = some t ∧ h.Collected t ∧
      ∀ z ∈ h.space.live, ¬ h.Reached z → (h.Released a t z ↔ ¬ h.Stranded z) := by
  obtain ⟨t, heq, hcollected, -, hreleased⟩ := collectGarbage_eq (consistent_of_reachable hh)
  exact ⟨t, heq, hcollected, hreleased⟩

/-- Memory of the host, in which each header is of a free block of size zero. -/
def blank : Memory := fun _ => ⟨0, false, 0⟩

/-- The heap with one object, on a page that comes from `host`. -/
def oneObject (host : Host) : Heap :=
  (Heap.start blank).step .bits64 (.allocate 8 1 host host)

theorem reachable_oneObject (host : Host) : Heap.Reachable .bits64 blank (oneObject host) := by
  have hallowed : (Heap.start blank).Allowed (.allocate 8 1 host host) := ⟨by decide, by decide⟩
  exact Reaches.step _ Reaches.start hallowed

theorem Heap.Reachable.collects_oneObject :
    ∃ t, (oneObject .plain).collectGarbage .bits64 = some t ∧ (oneObject .plain).Collected t ∧
      ∀ z ∈ (oneObject .plain).space.live, ¬ (oneObject .plain).Reached z →
        ((oneObject .plain).Released .bits64 t z ↔ ¬ (oneObject .plain).Stranded z) :=
  Heap.Reachable.collects (reachable_oneObject .plain)

/-- **A page of a sandbox** is dropped with its last object, and the memory stays in the sandbox. -/
theorem not_released_sandbox : ∃ h t z, Heap.Reachable .bits64 blank h ∧
    h.collectGarbage .bits64 = some t ∧ z ∈ h.space.live ∧ ¬ h.Reached z ∧
    ¬ h.Released .bits64 t z := by
  obtain ⟨t, heq, -, -, hreleased⟩ :=
    collectGarbage_eq (consistent_of_reachable (reachable_oneObject .sandbox))
  have hunreached : ∀ y, ¬ (oneObject .sandbox).Reached y := by
    rintro y ⟨r, ⟨owner, hvalue⟩, -⟩
    exact nomatch hvalue
  have hlive : (⟨0, 0⟩ : Address) ∈ (oneObject .sandbox).space.live := mem_singleton_self _
  refine ⟨_, t, ⟨0, 0⟩, reachable_oneObject .sandbox, heq, hlive, hunreached _, fun hnot => ?_⟩
  refine (hreleased _ hlive (hunreached _)).mp hnot ⟨?_, ?_, fun y _ _ => hunreached y⟩
  · exact mem_singleton_self 0
  · exact mem_singleton_self 0

/-! ### Two collections -/

theorem eq_of_cleared {kept : Address → Prop} {fields fields' : List Field}
    (h : Forall₂ (Field.ClearedTo kept) fields fields')
    (hkept : ∀ field ∈ fields, ∀ target, field.target = some target → kept target) :
    fields' = fields := by
  induction h with
  | nil => rfl
  | @cons field field' fields fields' hfield _ ih =>
    rw [ih fun f hf => hkept f (mem_cons_of_mem _ hf)]
    have htarget := hkept field mem_cons_self
    cases field with
    | member target => rw [(hfield : field' = .member target)]
    | weakMember target =>
      obtain ⟨target', hcleared, rfl⟩ := hfield
      cases target with
      | none => rw [(hcleared : target' = none)]
      | some object =>
        rcases hcleared with ⟨-, rfl⟩ | ⟨hno, -⟩
        · rfl
        · exact absurd (htarget object rfl) hno

/-- What a collection keeps is reached behind it. -/
theorem Heap.Collected.reached {t : Heap} {z : Address} (hc : h.Collected t) (hh : h.Consistent a)
    (hz : h.Reached z) : t.Reached z := by
  obtain ⟨r, ⟨owner, hvalue⟩, hpath⟩ := hz
  induction hpath with
  | refl => exact .root ⟨owner, hc.strong ▸ hvalue⟩
  | @tail y z hpath hy ih =>
    have hreached : h.Reached y := ⟨r, ⟨owner, hvalue⟩, hpath⟩
    have hkept := (hc.kept y).mpr ⟨hh.live_of_reached hreached, hreached⟩
    have hcontents : Forall₂ (flip (Field.ClearedTo h.Reached)) (t.contents y) (h.contents y) :=
      (hc.contents y hkept).flip
    obtain ⟨field, hfield, hcleared⟩ := exists_of_mem_right hcontents (mem_successors.mp hy)
    rw [(hcleared : field = .member (some z))] at hfield
    exact ih.step (mem_successors.mpr hfield)

/-- **A second collection changes nothing**: no destructor runs, and what is kept has the members it
had. -/
theorem Heap.Reachable.collects_again {memory : Memory} (hh : Heap.Reachable a memory h) :
    ∃ t u, h.collectGarbage a = some t ∧ t.collectGarbage a = some u ∧
      u.space.finalized = t.space.finalized ∧ (∀ z, z ∈ u.space.live ↔ z ∈ t.space.live) ∧
      ∀ z ∈ u.space.live, u.contents z = t.contents z := by
  have hconsistent := consistent_of_reachable hh
  obtain ⟨t, hfirst, hc, ht, -⟩ := collectGarbage_eq hconsistent
  obtain ⟨u, hsecond, hc', -, -⟩ := collectGarbage_eq ht
  have hall : ∀ z ∈ t.space.live, t.Reached z := fun z hz =>
    hc.reached hconsistent ((hc.kept z).mp hz).2
  refine ⟨t, u, hfirst, hsecond, ?_, fun z => ?_, fun z hz => ?_⟩
  · obtain ⟨dead, hdead, -, hiff⟩ := hc'.finalized
    have hnone : dead = [] := eq_nil_iff_forall_not_mem.mpr fun z hz =>
      ((hiff z).mp hz).2 (hall z ((hiff z).mp hz).1)
    rw [hdead, hnone, append_nil]
  · rw [hc'.kept z, and_iff_left_of_imp (hall z)]
  · have hz' := ((hc'.kept z).mp hz).1
    exact eq_of_cleared (hc'.contents z hz) fun field hfield target htarget =>
      hall target (ht.closed z hz' field hfield target htarget)

theorem Heap.Reachable.collects_again_oneObject :
    ∃ t u, (oneObject .plain).collectGarbage .bits64 = some t ∧ t.collectGarbage .bits64 = some u ∧
      u.space.finalized = t.space.finalized ∧ (∀ z, z ∈ u.space.live ↔ z ∈ t.space.live) ∧
      ∀ z ∈ u.space.live, u.contents z = t.contents z :=
  Heap.Reachable.collects_again (reachable_oneObject .plain)

end Voodoo.Cppgc
