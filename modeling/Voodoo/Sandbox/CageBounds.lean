import Voodoo.Sandbox.Cage

/-!
# What the cage hands out lies inside it

The blocks of a cage, free or out, end at the frontier or before it, whatever sizes are asked for, as
long as no request is served from a free block that passes because `head + size` wraps.

* `tryAllocate_contained_iff`: a request is served inside the cage, and refused without a trace
  where it is larger than that, if and only if it is not served in this way; one exception is a free
  block whose aligned address is null, as what is handed out is then nothing.
-/

namespace Voodoo.Sandbox

open Machine Spans List Option

variable {w : Nat}

namespace Cage

variable (c : Cage w)

/-- A power of two and any size, or a block that is out. -/
def Asked (x : CageRun w) : Op w → Prop
  | .allocate _ alignment _ => ∃ k, alignment.toNat = 2 ^ k
  | .free b => b ∈ x.live

/-- The free block that serves a request: the first one that passes the comparison. -/
def served (s : SandboxState w) (size alignment : BitVec w) : Option (FreeBlock w) :=
  s.freeList.find? fun b => c.head b alignment + size ≤ b.size

/-- The free block that serves the request does not pass because `head + size` wraps. -/
def Unwrapped (x : CageRun w) : Op w → Prop
  | .allocate size alignment _ => ∀ b, c.served x.state size alignment = some b →
    (c.head b alignment).toNat + size.toNat < 2 ^ w
  | .free _ => True

/-- The states of the runs in which no request is served so. -/
abbrev ReachableUnwrapped : Option (CageRun w) → Prop :=
  Reaches (some ⟨c.initialState, []⟩) (fun s a => s.bind fun x => c.step x a)
    (fun s a => ∀ x, s = some x → Asked x a ∧ c.Unwrapped x a)

/-- What is handed out lies in the cage, and a request that is larger than the cage is refused and
changes neither the free list nor the frontier. -/
structure Contained (s : SandboxState w) (size alignment : BitVec w) (granted : Bool) : Prop where
  inside : ∀ p, (c.tryAllocate s size alignment granted).1 = some p →
    c.base ≤ p ∧ p.toNat + size.toNat ≤ c.endAddress.toNat
  refused : c.size < size → (c.tryAllocate s size alignment granted).1 = none ∧
    (c.tryAllocate s size alignment granted).2.freeList = s.freeList ∧
    (c.tryAllocate s size alignment granted).2.bumpOffset = s.bumpOffset

/-- What holds between two operations, whatever sizes are asked for. -/
structure Bounds (x : CageRun w) : Prop where
  nonempty : ∀ b ∈ x.state.freeList, 0 < b.size.toNat
  free_le : ∀ b ∈ x.state.freeList, b.offset.toNat + b.size.toNat ≤ x.state.bumpOffset.toNat
  base_le : ∀ b ∈ x.live, c.base.toNat ≤ b.address.toNat
  live_le : ∀ b ∈ x.live, b.address.toNat + b.size.toNat ≤
    c.base.toNat + x.state.bumpOffset.toNat
  bump_le : x.state.bumpOffset.toNat ≤ c.size.toNat

variable {c} {x : CageRun w} {s : SandboxState w} {size alignment : BitVec w} {granted : Bool}

/-! ### The free list -/

theorem served_eq_none (h : c.served s size alignment = none) :
    c.allocateFromFreeList s size alignment = none := by
  rw [served, find?_eq_none] at h
  refine eq_none_iff_forall_ne_some.mpr fun (p, freeList) hsome => ?_
  obtain ⟨before, b, after, hlist, -, hpass, -⟩ := allocateFromFreeListLoop_eq_some hsome
  refine h b ?_ (decide_eq_true hpass)
  rw [hlist]
  exact mem_append_right _ mem_cons_self

/-- What is handed out of the block that serves the request, and what the free list then has. -/
theorem served_eq_some {b : FreeBlock w} (h : c.served s size alignment = some b) :
    b ∈ s.freeList ∧ c.head b alignment + size ≤ b.size ∧
      ∃ freeList, c.allocateFromFreeList s size alignment =
          some (c.base + (b.offset + c.head b alignment), freeList) ∧
        (0 < c.head b alignment → ⟨b.offset, c.head b alignment⟩ ∈ freeList) ∧
        ∀ a ∈ freeList, a ∈ s.freeList ∨
          0 < c.head b alignment ∧ a = ⟨b.offset, c.head b alignment⟩ ∨
          0 < b.size - c.head b alignment - size ∧
            a = ⟨b.offset + c.head b alignment + size, b.size - c.head b alignment - size⟩ := by
  have hmem := mem_of_find?_eq_some h
  have hfound := find?_some (p := fun b => decide (c.head b alignment + size ≤ b.size)) h
  have hpass := of_decide_eq_true hfound
  refine ⟨hmem, hpass, ?_⟩
  cases hresult : c.allocateFromFreeList s size alignment with
  | none => exact absurd (lt_of_allocateFromFreeListLoop hresult b hmem) (BitVec.not_lt.mpr hpass)
  | some r =>
    obtain ⟨p, freeList⟩ := r
    obtain ⟨before, b', after, hlist, hbefore, hpass', rfl, hperm, -⟩ :=
      allocateFromFreeListLoop_eq_some hresult
    have hfirst : c.served s size alignment = some b' := by
      refine find?_eq_some_iff_append.mpr ⟨decide_eq_true hpass', before, after, hlist,
        fun a ha => ?_⟩
      rw [decide_eq_false (BitVec.not_le.mpr (hbefore a ha))]
      rfl
    obtain rfl := some.inj (h.symm.trans hfirst)
    refine ⟨freeList, rfl, fun hhead => hperm.mem_iff.mpr ?_, fun a ha => ?_⟩
    · rw [if_pos hhead]
      exact mem_append_left _ (mem_append_right _ (mem_singleton.mpr rfl))
    · rcases mem_append.mp (hperm.mem_iff.mp ha) with ha | ha
      · rcases mem_append.mp ha with ha | ha
        · left
          rw [hlist]
          rcases mem_append.mp ha with ha | ha
          · exact mem_append_left _ ha
          · exact mem_append_right _ (mem_cons_of_mem _ ha)
        · split at ha
          · exact .inr (.inl ⟨‹_›, mem_singleton.mp ha⟩)
          · exact (not_mem_nil ha).elim
      · split at ha
        · exact .inr (.inr ⟨‹_›, mem_singleton.mp ha⟩)
        · exact (not_mem_nil ha).elim

theorem tryAllocate_served {b : FreeBlock w} {freeList : List (FreeBlock w)}
    (h : c.allocateFromFreeList s size alignment =
      some (c.base + (b.offset + c.head b alignment), freeList))
    (hne : c.base + (b.offset + c.head b alignment) ≠ 0) :
    c.tryAllocate s size alignment granted =
      (some (c.base + (b.offset + c.head b alignment)), { s with freeList }) := by
  simp only [tryAllocate, h, if_neg hne]

theorem tryAllocate_bump (granted : Bool) (h : c.served s size alignment = none) :
    c.tryAllocate s size alignment granted = c.bumpAllocate s size alignment granted := by
  simp only [tryAllocate, served_eq_none h]

theorem served_address {b : FreeBlock w} :
    c.base + (b.offset + c.head b alignment) = alignUp (c.base + b.offset) alignment := by
  rw [head, ← BitVec.add_assoc, BitVec.add_comm, BitVec.sub_add_cancel]

/-! ### Runs -/

theorem bounds_start : c.Bounds ⟨c.initialState, []⟩ where
  nonempty _ hb := (not_mem_nil hb).elim
  free_le _ hb := (not_mem_nil hb).elim
  base_le _ hb := (not_mem_nil hb).elim
  live_le _ hb := (not_mem_nil hb).elim
  bump_le := (Nat.le_of_eq (Nat.zero_mod _)).trans (Nat.zero_le _)

theorem Bounds.free_stop_le (h : c.Bounds x) {b : FreeBlock w} (hb : b ∈ x.state.freeList) :
    b.offset.toNat + b.size.toNat ≤ c.size.toNat := (h.free_le b hb).trans h.bump_le

theorem Bounds.of_state {live : List (Block w)} {s' : SandboxState w}
    (h : c.Bounds ⟨s, live⟩) (hlist : s'.freeList = s.freeList)
    (hbump : s'.bumpOffset = s.bumpOffset) : c.Bounds ⟨s', live⟩ := by
  refine ⟨?_, ?_, h.base_le, ?_, ?_⟩
  · rw [hlist]
    exact h.nonempty
  · rw [hlist, hbump]
    exact h.free_le
  · rw [hbump]
    exact h.live_le
  · rw [hbump]
    exact h.bump_le

theorem Bounds.extend {live : List (Block w)} {s' : SandboxState w} (h : c.Bounds ⟨s, live⟩)
    (hlist : s'.freeList = s.freeList) {offset : BitVec w}
    (hbump : s.bumpOffset.toNat ≤ offset.toNat)
    (hstop : offset.toNat + size.toNat ≤ c.size.toNat) :
    c.Bounds ⟨{ s' with bumpOffset := offset + size },
      ⟨c.base + offset, size, alignment⟩ :: live⟩ := by
  have hend := c.end_lt
  have hsum : (offset + size).toNat = offset.toNat + size.toNat :=
    BitVec.toNat_add_of_lt (by omega)
  have haddress : (c.base + offset).toNat = c.base.toNat + offset.toNat :=
    BitVec.toNat_add_of_lt (by omega)
  have hle : s.bumpOffset.toNat ≤ (offset + size).toNat := by omega
  refine ⟨?_, ?_, forall_mem_cons.mpr ⟨?_, h.base_le⟩, forall_mem_cons.mpr ⟨?_, ?_⟩, ?_⟩
  · show ∀ b ∈ s'.freeList, _
    rw [hlist]
    exact h.nonempty
  · show ∀ b ∈ s'.freeList, _
    rw [hlist]
    exact fun b hb => (h.free_le b hb).trans hle
  · rw [haddress]
    exact Nat.le_add_right _ _
  · show (c.base + offset).toNat + size.toNat ≤ c.base.toNat + (offset + size).toNat
    omega
  · exact fun b hb => (h.live_le b hb).trans (Nat.add_le_add_left hle _)
  · show (offset + size).toNat ≤ c.size.toNat
    omega

/-- A block of the free list that does not pass by a wrap. -/
theorem Bounds.carve (h : c.Bounds x) (granted : Bool) {k : Nat} (ha : alignment.toNat = 2 ^ k) {b : FreeBlock w}
    (hserved : c.served x.state size alignment = some b)
    (hlt : (c.head b alignment).toNat + size.toNat < 2 ^ w) :
    ∃ p freeList, c.tryAllocate x.state size alignment granted =
        (some p, { x.state with freeList }) ∧ c.base ≤ p ∧
      p.toNat + size.toNat ≤ c.endAddress.toNat ∧ size.toNat ≤ c.size.toNat ∧
      c.Bounds ⟨{ x.state with freeList }, ⟨p, size, alignment⟩ :: x.live⟩ := by
  obtain ⟨hb, hpass, freeList, hresult, -, hparts⟩ := served_eq_some hserved
  have hstop := h.free_stop_le hb
  have hbump := h.free_le b hb
  have hend := c.end_lt
  have hpos := c.base_pos
  obtain ⟨-, hle⟩ := head_spec hstop ha hpass hlt
  have hoffset : (b.offset + c.head b alignment).toNat =
      b.offset.toNat + (c.head b alignment).toNat := BitVec.toNat_add_of_lt (by omega)
  have haddress : (c.base + (b.offset + c.head b alignment)).toNat =
      c.base.toNat + (b.offset.toNat + (c.head b alignment).toNat) := by
    rw [← hoffset]
    exact BitVec.toNat_add_of_lt (by omega)
  have hne : c.base + (b.offset + c.head b alignment) ≠ 0 := by
    intro hzero
    rw [hzero] at haddress
    have hnull : (0 : BitVec w).toNat = 0 := Nat.zero_mod _
    omega
  have htail : (b.size - c.head b alignment - size).toNat =
      b.size.toNat - (c.head b alignment).toNat - size.toNat := by
    have hhead : (b.size - c.head b alignment).toNat =
        b.size.toNat - (c.head b alignment).toNat := by
      refine BitVec.toNat_sub_of_le ?_
      rw [BitVec.le_def]
      omega
    rw [← hhead]
    refine BitVec.toNat_sub_of_le ?_
    rw [BitVec.le_def, hhead]
    omega
  have hbehind : (b.offset + c.head b alignment + size).toNat =
      b.offset.toNat + (c.head b alignment).toNat + size.toNat := by
    rw [← hoffset]
    exact BitVec.toNat_add_of_lt (by omega)
  refine ⟨_, freeList, tryAllocate_served hresult hne, ?_, ?_, by omega, ?_, ?_, ?_, ?_, h.bump_le⟩
  · rw [BitVec.le_def, haddress]
    exact Nat.le_add_right _ _
  · rw [haddress, toNat_endAddress]
    omega
  · intro a hafree
    rcases hparts a hafree with hmem | ⟨hhead, rfl⟩ | ⟨hrest, rfl⟩
    · exact h.nonempty a hmem
    · exact Nat.lt_of_le_of_lt (Nat.zero_le _) hhead
    · exact Nat.lt_of_le_of_lt (Nat.zero_le _) hrest
  · intro a hafree
    rcases hparts a hafree with hmem | ⟨-, rfl⟩ | ⟨-, rfl⟩
    · exact h.free_le a hmem
    · show b.offset.toNat + (c.head b alignment).toNat ≤ x.state.bumpOffset.toNat
      omega
    · show (b.offset + c.head b alignment + size).toNat +
        (b.size - c.head b alignment - size).toNat ≤ x.state.bumpOffset.toNat
      omega
  · refine forall_mem_cons.mpr ⟨?_, h.base_le⟩
    rw [haddress]
    exact Nat.le_add_right _ _
  · refine forall_mem_cons.mpr ⟨?_, h.live_le⟩
    show (c.base + (b.offset + c.head b alignment)).toNat + size.toNat ≤
      c.base.toNat + x.state.bumpOffset.toNat
    omega

/-- **One request.** -/
theorem Bounds.allocate (h : c.Bounds x) (hasked : Asked x (.allocate size alignment granted))
    (hwrap : c.Unwrapped x (.allocate size alignment granted)) :
    ∃ y, c.step x (.allocate size alignment granted) = some y ∧ c.Bounds y := by
  obtain ⟨k, ha⟩ := hasked
  cases hserved : c.served x.state size alignment with
  | some b =>
    obtain ⟨p, freeList, heq, -, -, -, hbounds⟩ := h.carve granted ha hserved
      (hwrap b hserved)
    refine ⟨_, ?_, hbounds⟩
    simp only [step, heq]
  | none =>
    have hbump := tryAllocate_bump granted hserved
    rcases bumpAllocate_spec h.bump_le size ha granted with
      ⟨s', heq, hlist, hoffset⟩ | ⟨s', offset, heq, hlist, hle, hstop, -⟩
    · refine ⟨_, ?_, h.of_state hlist hoffset⟩
      simp only [step, hbump, heq]
    · have hbounds : c.Bounds ⟨{ s' with bumpOffset := offset + size },
          ⟨c.base + offset, size, alignment⟩ :: x.live⟩ := h.extend hlist hle hstop
      refine ⟨_, ?_, hbounds⟩
      simp only [step, hbump, heq]

/-- **Giving a block back.** -/
theorem Bounds.free (h : c.Bounds x) {b : Block w} (hb : b ∈ x.live) :
    ∃ y, c.step x (.free b) = some y ∧ c.Bounds y := by
  have hpos := c.base_pos
  have hend := c.end_lt
  have hbase := h.base_le b hb
  have hstop := h.live_le b hb
  have hbump := h.bump_le
  have herase : ∀ a ∈ x.live.erase b, a ∈ x.live := fun a ha => mem_of_mem_erase ha
  rw [step, Cage.free]
  split
  · exact ⟨_, rfl, h.nonempty, h.free_le, fun a ha => h.base_le a (herase a ha),
      fun a ha => h.live_le a (herase a ha), h.bump_le⟩
  · rename_i hne
    have hsize : 0 < b.size.toNat := by
      refine Nat.pos_of_ne_zero fun hzero => hne (.inr (BitVec.toNat_inj.mp ?_))
      rw [hzero]
      exact (Nat.zero_mod _).symm
    have hcontains : c.contains b.address = true := by
      rw [contains, decide_eq_true_iff, BitVec.le_def, BitVec.lt_def, toNat_endAddress]
      exact ⟨hbase, by omega⟩
    have hoffset : (b.address - c.base).toNat = b.address.toNat - c.base.toNat :=
      BitVec.toNat_sub_of_le hbase
    have hnonempty : ∀ a ∈ x.state.freeList.map FreeBlock.span, a.Nonempty :=
      List.forall_mem_map.mpr fun a ha => Nat.lt_add_of_pos_right (h.nonempty a ha)
    have hbelow : ∀ a ∈ x.state.freeList.map FreeBlock.span, a.stop ≤ x.state.bumpOffset.toNat :=
      List.forall_mem_map.mpr h.free_le
    have hspan : (FreeBlock.span ⟨b.address - c.base, b.size⟩).Nonempty :=
      Nat.lt_add_of_pos_right hsize
    have hlast : (FreeBlock.span ⟨b.address - c.base, b.size⟩).stop ≤ x.state.bumpOffset.toNat := by
      show (b.address - c.base).toNat + b.size.toNat ≤ _
      omega
    have hlist := insertBlock_span (b := ⟨b.address - c.base, b.size⟩) (show (b.address - c.base).toNat +
      b.size.toNat < 2 ^ w by omega) fun a ha => Nat.lt_of_le_of_lt (h.free_stop_le ha) (by omega)
    have hkept := insert_forall (P := Span.Nonempty) (fun _ _ _ hab hbc _ _ => Nat.lt_trans hab hbc)
      hnonempty hspan hspan hnonempty
    have hinside := insert_forall (joinable_stop_le x.state.bumpOffset.toNat) hnonempty hspan hlast
      hbelow
    rw [← hlist] at hkept hinside
    rw [if_pos hcontains]
    refine ⟨_, rfl, fun a ha => ?_, fun a ha => ?_, fun a ha => h.base_le a (herase a ha),
      fun a ha => h.live_le a (herase a ha), h.bump_le⟩
    · have hlt : a.offset.toNat < a.offset.toNat + a.size.toNat :=
        hkept _ (List.mem_map_of_mem ha)
      omega
    · exact hinside _ (List.mem_map_of_mem ha)

theorem Bounds.step (h : c.Bounds x) {a : Op w} (hasked : Asked x a) (hwrap : c.Unwrapped x a) :
    ∃ y, c.step x a = some y ∧ c.Bounds y := by
  cases a with
  | allocate size alignment granted => exact h.allocate hasked hwrap
  | free b => exact h.free hasked

theorem bounds_of_reachable {r : Option (CageRun w)} (h : c.ReachableUnwrapped r) :
    ∃ x, r = some x ∧ c.Bounds x := by
  induction h with
  | start => exact ⟨_, rfl, bounds_start⟩
  | step a _ ha ih =>
    obtain ⟨x, rfl, hbounds⟩ := ih
    obtain ⟨hasked, hwrap⟩ := ha x rfl
    exact hbounds.step hasked hwrap

/-! ### A request -/

theorem bumpAllocate_inside (hbump : s.bumpOffset.toNat ≤ c.size.toNat) {k : Nat}
    (ha : alignment.toNat = 2 ^ k) {p : BitVec w}
    (h : (c.bumpAllocate s size alignment granted).1 = some p) :
    c.base ≤ p ∧ p.toNat + size.toNat ≤ c.endAddress.toNat := by
  have hend := c.end_lt
  rcases bumpAllocate_spec hbump size ha granted with
    ⟨s', heq, -⟩ | ⟨s', offset, heq, -, -, hstop, -⟩
  · rw [heq] at h
    cases h
  · rw [heq] at h
    obtain rfl := some.inj h
    have haddress : (c.base + offset).toNat = c.base.toNat + offset.toNat :=
      BitVec.toNat_add_of_lt (by omega)
    rw [BitVec.le_def, haddress, toNat_endAddress]
    exact ⟨Nat.le_add_right _ _, by omega⟩

theorem bumpAllocate_refused (hbump : s.bumpOffset.toNat ≤ c.size.toNat) {k : Nat}
    (ha : alignment.toNat = 2 ^ k) (hlarge : c.size < size) :
    (c.bumpAllocate s size alignment granted).1 = none ∧
      (c.bumpAllocate s size alignment granted).2.freeList = s.freeList ∧
      (c.bumpAllocate s size alignment granted).2.bumpOffset = s.bumpOffset := by
  rcases bumpAllocate_spec hbump size ha granted with
    ⟨s', heq, hlist, hoffset⟩ | ⟨s', offset, heq, -, -, hstop, -⟩
  · rw [heq]
    exact ⟨rfl, hlist, hoffset⟩
  · rw [BitVec.lt_def] at hlarge
    omega

theorem Bounds.contained (h : c.Bounds x) {k : Nat} (ha : alignment.toNat = 2 ^ k)
    (hwrap : c.Unwrapped x (.allocate size alignment granted)) :
    c.Contained x.state size alignment granted := by
  cases hserved : c.served x.state size alignment with
  | some b =>
    obtain ⟨p, freeList, heq, hbase, hstop, hsize, -⟩ := h.carve granted ha hserved
      (hwrap b hserved)
    refine ⟨fun p' hp => ?_, fun hlarge => absurd hsize (Nat.not_le.mpr hlarge)⟩
    rw [heq] at hp
    obtain rfl := some.inj hp
    exact ⟨hbase, hstop⟩
  | none =>
    refine ⟨fun p hp => ?_, fun hlarge => ?_⟩
    · rw [tryAllocate_bump granted hserved] at hp
      exact bumpAllocate_inside h.bump_le ha hp
    · rw [tryAllocate_bump granted hserved]
      exact bumpAllocate_refused h.bump_le ha hlarge

/-- A free block that passes by a wrap, and what becomes of the request. -/
theorem Bounds.contained_wrapped_iff (h : c.Bounds x) {k : Nat} (ha : alignment.toNat = 2 ^ k)
    {b : FreeBlock w} (hserved : c.served x.state size alignment = some b)
    (hwrap : 2 ^ w ≤ (c.head b alignment).toNat + size.toNat) :
    c.Contained x.state size alignment granted ↔
      alignUp (c.base + b.offset) alignment = 0 ∧ size ≤ c.size := by
  obtain ⟨hb, -, freeList, hresult, hhead, -⟩ := served_eq_some hserved
  have hstop := h.free_stop_le hb
  have hend := c.end_lt
  have hpos := c.base_pos
  have hstart : (c.base + b.offset).toNat = c.base.toNat + b.offset.toNat :=
    BitVec.toNat_add_of_lt (by omega)
  have hnull : (0 : BitVec w).toNat = 0 := Nat.zero_mod _
  by_cases hzero : alignUp (c.base + b.offset) alignment = 0
  · have htry : c.tryAllocate x.state size alignment granted =
        c.bumpAllocate { x.state with freeList } size alignment granted := by
      simp only [tryAllocate, hresult, served_address, hzero, if_true]
    rw [and_iff_right hzero]
    refine ⟨fun hcontained => ?_, fun hsize => ⟨fun p hp => ?_, fun hlarge => ?_⟩⟩
    · -- the part in front of the aligned address stays in the list, and ends behind the cage
      by_contra hlarge
      obtain ⟨-, hlist, -⟩ := hcontained.refused (BitVec.not_le.mp hlarge)
      rw [htry, (bumpAllocate_refused (s := { x.state with freeList }) h.bump_le ha
        (BitVec.not_le.mp hlarge)).2.1] at hlist
      have hheadValue : (c.head b alignment).toNat = 2 ^ w - (c.base + b.offset).toNat := by
        rw [head, hzero, BitVec.toNat_sub, hnull, Nat.add_zero, Nat.mod_eq_of_lt (by omega)]
      have hmem : (⟨b.offset, c.head b alignment⟩ : FreeBlock w) ∈ x.state.freeList := by
        rw [← show freeList = x.state.freeList from hlist]
        refine hhead ?_
        rw [BitVec.lt_def, hnull]
        omega
      have hle : b.offset.toNat + (c.head b alignment).toNat ≤ c.size.toNat := h.free_stop_le hmem
      omega
    · rw [htry] at hp
      exact bumpAllocate_inside (s := { x.state with freeList }) h.bump_le ha hp
    · exact absurd hsize (BitVec.not_le.mpr hlarge)
  · refine ⟨fun hcontained => ?_, fun hboth => absurd hboth.1 hzero⟩
    have hne : c.base + (b.offset + c.head b alignment) ≠ 0 := by rwa [served_address]
    have hinside := (hcontained.inside _ (congrArg Prod.fst (tryAllocate_served hresult hne))).2
    rw [served_address, toNat_endAddress] at hinside
    rcases alignUp_spec (v := c.base + b.offset) ha with ⟨hge, -, -⟩ | ⟨heq, -⟩
    · have hheadValue : (c.head b alignment).toNat =
          (alignUp (c.base + b.offset) alignment).toNat - (c.base + b.offset).toNat :=
        BitVec.toNat_sub_of_le hge
      omega
    · exact absurd (BitVec.toNat_inj.mp (heq.trans hnull.symm)) hzero

end Cage

end Voodoo.Sandbox
