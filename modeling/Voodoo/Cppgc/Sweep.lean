import Mathlib.Data.List.Nodup
import Voodoo.Cppgc.Pages

/-!
# Sweeping

The walk over a page does to each object what it does to a large one (`sweepObject`), and finds the
blocks that `Tiles.join` makes of the rest (`sweepNormalPage_eq`).  A sweep of a well-formed heap
ends, and what it does to the objects and their memory is `Cleaned` (`sweep_eq`).
-/

namespace Voodoo.Cppgc

open Tiles List Function

variable {a : Arch}

namespace Space

/-- What a sweep does to an object. -/
def sweepObject (s : Space) (object : Address) : Space :=
  if (s.memory object).marked then s.unmark object else s.finalize object

end Space

/-- The buffer while it is flushed. -/
def noBuffer : LinearAllocationBuffer := ⟨⟨0, 0⟩, 0⟩

/-- A block of a page that a sweep keeps. -/
def keep (memory : Memory) (page : Nat) (x : Block Use) : Bool :=
  x.kind == .object && (memory ⟨page, x.start⟩).marked

/-- The addresses of the objects of a page. -/
def objects (page : Nat) (l : List (Block Use)) : List Address :=
  (l.filter fun x => x.kind == .object).map fun x => ⟨page, x.start⟩

/-- The free blocks of a page. -/
def freeBlocks (page : Nat) (l : List (Block Use)) : List FreeBlock :=
  (l.filter fun x => x.kind == .free).map fun x => ⟨⟨page, x.start⟩, x.size⟩

/-! ### A page -/

section Walk

variable {s : Space} {page cur fuel : Nat} {w : Space.PageWalk} {x : Block Use} {l : List (Block Use)}

/-- A turn at a block of the page. -/
theorem turn_eq (hdescribed : Described a w.space.memory noBuffer page x) (hlt : x.start < x.stop)
    (hcurrent : w.current = x.start) :
    (x.kind = .object ∧ (w.space.memory ⟨page, x.start⟩).marked = true ∧ w.turn a page =
      { space := w.space.sweepObject ⟨page, x.start⟩
        liveBytes := w.liveBytes + x.size
        freeRuns := w.freeRuns ++ w.run page x.start
        freeRunStart := none
        current := x.stop }) ∨
    (x.kind = .object ∧ (w.space.memory ⟨page, x.start⟩).marked = false ∧ w.turn a page =
      { w with
        space := w.space.sweepObject ⟨page, x.start⟩
        freeRunStart := some (w.freeRunStart.getD x.start)
        current := x.stop }) ∨
    (x.kind = .free ∧ w.turn a page =
      { w with
        freeRunStart := some (w.freeRunStart.getD x.start)
        current := x.stop }) := by
  have hstop : x.start + x.size = x.stop := Nat.add_sub_cancel' (Nat.le_of_lt hlt)
  rw [Described] at hdescribed
  rw [Space.PageWalk.turn, hcurrent]
  cases hkind : x.kind with
  | object =>
    rw [hkind] at hdescribed
    obtain ⟨hsize, hfree⟩ := hdescribed
    cases hmarked : (w.space.memory ⟨page, x.start⟩).marked with
    | true =>
      refine .inl ⟨rfl, rfl, ?_⟩
      simp only [hfree, hmarked, hsize, hstop, Space.sweepObject, Bool.not_true, Bool.or_self,
        Bool.false_eq_true, if_false, if_true]
    | false =>
      refine .inr (.inl ⟨rfl, rfl, ?_⟩)
      simp only [hfree, hmarked, hsize, hstop, Space.sweepObject, Bool.not_false, Bool.or_true,
        Bool.false_eq_true, if_false, if_true]
  | free =>
    rw [hkind] at hdescribed
    obtain ⟨hsize, hfree⟩ := hdescribed
    refine .inr (.inr ⟨rfl, ?_⟩)
    simp only [hfree, hsize, hstop, Bool.true_or, if_true]
  | buffer =>
    rw [hkind] at hdescribed
    injection hdescribed with _ hsize
    have hsize : 0 = x.size := hsize
    omega

theorem memory_sweepObject_of_ne {object z : Address} (hne : z ≠ object) :
    (s.sweepObject object).memory z = s.memory z := by
  rw [Space.sweepObject]
  split
  · exact update_of_ne hne ..
  · rfl

theorem loop_done (hcurrent : w.current = payloadSize a) :
    Space.PageWalk.loop a page fuel w = some w := by
  have hnot : ¬ w.current < payloadSize a := by omega
  cases fuel with
  | zero => exact if_neg hnot
  | succ fuel => exact if_neg hnot

/-- **The walk ends at the end of the page**, and what it has done. -/
theorem loop_eq {memory : Memory} (htile : Tile cur l (payloadSize a)) (hcurrent : w.current = cur)
    (hfuel : payloadSize a ≤ cur + fuel)
    (hmemory : ∀ x ∈ l, w.space.memory ⟨page, x.start⟩ = memory ⟨page, x.start⟩)
    (hdescribed : ∀ x ∈ l, Described a memory noBuffer page x) :
    ∃ w', Space.PageWalk.loop a page fuel w = some w' ∧ w'.current = payloadSize a ∧
      w'.space = (objects page l).foldl Space.sweepObject w.space ∧
      (w'.liveBytes = 0 ↔ w.liveBytes = 0 ∧ ∀ x ∈ l, keep memory page x = false) ∧
      w'.freeRuns ++ w'.run page (payloadSize a) = w.freeRuns ++ freeBlocks page
        (join (keep memory page) .free (payloadSize a) w.freeRunStart l) := by
  induction l generalizing cur w fuel with
  | nil =>
    have hend : w.current = payloadSize a := hcurrent.trans htile
    refine ⟨w, loop_done hend, hend, rfl, ⟨fun h => ⟨h, fun x hx => ?_⟩, And.left⟩, ?_⟩
    · exact (not_mem_nil hx).elim
    · rw [Space.PageWalk.run]
      cases w.freeRunStart <;> rfl
  | cons x l ih =>
    obtain ⟨hstart, hlt, htail⟩ := htile
    have hle := htail.le
    have hcurrent : w.current = x.start := hcurrent.trans hstart.symm
    have hx := hmemory x mem_cons_self
    have hdescribed' := fun y hy => hdescribed y (mem_cons_of_mem x hy)
    cases fuel with
    | zero => omega
    | succ fuel =>
      have hloop : Space.PageWalk.loop a page (fuel + 1) w =
          Space.PageWalk.loop a page fuel (w.turn a page) := if_pos (by omega)
      have hfuel : payloadSize a ≤ x.stop + fuel := by omega
      have hswept : ∀ y ∈ l, (w.space.sweepObject ⟨page, x.start⟩).memory ⟨page, y.start⟩ =
          memory ⟨page, y.start⟩ := by
        intro y hy
        have hge := (htail.mem hy).1
        refine (memory_sweepObject_of_ne fun heq => ?_).trans (hmemory y (mem_cons_of_mem x hy))
        injection heq with _ heq
        omega
      have hdescribedx : Described a w.space.memory noBuffer page x :=
        (hdescribed x mem_cons_self).congr hx fun _ => rfl
      rw [hloop]
      rcases turn_eq hdescribedx hlt hcurrent with
        ⟨hkind, hmarked, hturn⟩ | ⟨hkind, hmarked, hturn⟩ | ⟨hkind, hturn⟩
      · have hkeep : keep memory page x = true := by
          rw [keep, hkind, ← hx, hmarked]
          rfl
        have hobjects : objects page (x :: l) = ⟨page, x.start⟩ :: objects page l := by
          rw [objects, filter_cons_of_pos (by rw [hkind]; rfl), map_cons]
          rfl
        obtain ⟨w', hw', hend, hspace, hbytes, hruns⟩ :=
          ih (w := w.turn a page) htail (by rw [hturn]) hfuel (by rw [hturn]; exact hswept) hdescribed'
        refine ⟨w', hw', hend, ?_, ?_, ?_⟩
        · rw [hspace, hturn, hobjects]
          rfl
        · have hpos : 0 < x.size := Nat.sub_pos_of_lt hlt
          rw [hbytes, hturn]
          refine iff_of_false (fun hand => ?_) fun hand => ?_
          · have hzero : w.liveBytes + x.size = 0 := hand.1
            omega
          · cases hkeep.symm.trans (hand.2 x mem_cons_self)
        · have hfilter : (join (keep memory page) .free (payloadSize a) w.freeRunStart (x :: l)).filter
              (fun y => y.kind == .free) = (w.freeRunStart.toList.map fun s => ⟨s, x.start, .free⟩) ++
              (join (keep memory page) .free (payloadSize a) none l).filter fun y => y.kind == .free := by
            rw [join_keep hkeep, filter_append, filter_cons_of_neg (by rw [hkind]; decide)]
            cases w.freeRunStart <;> rfl
          rw [hruns, hturn, freeBlocks, freeBlocks, hfilter, map_append, List.append_assoc]
          rw [Space.PageWalk.run]
          cases w.freeRunStart <;> rfl
      · have hkeep : keep memory page x = false := by
          rw [keep, ← hx, hmarked, Bool.and_false]
        have hobjects : objects page (x :: l) = ⟨page, x.start⟩ :: objects page l := by
          rw [objects, filter_cons_of_pos (by rw [hkind]; rfl), map_cons]
          rfl
        obtain ⟨w', hw', hend, hspace, hbytes, hruns⟩ :=
          ih (w := w.turn a page) htail (by rw [hturn]) hfuel (by rw [hturn]; exact hswept) hdescribed'
        refine ⟨w', hw', hend, ?_, ?_, ?_⟩
        · rw [hspace, hturn, hobjects]
          rfl
        · rw [hbytes, hturn, forall_mem_cons, and_iff_right hkeep]
        · rw [hruns, hturn, join_drop hkeep]
      · have hkeep : keep memory page x = false := by
          rw [keep, hkind]
          rfl
        have hobjects : objects page (x :: l) = objects page l := by
          rw [objects, filter_cons_of_neg (by rw [hkind]; decide)]
          rfl
        obtain ⟨w', hw', hend, hspace, hbytes, hruns⟩ :=
          ih (w := w.turn a page) htail (by rw [hturn]) hfuel
            (by rw [hturn]; exact fun y hy => hmemory y (mem_cons_of_mem x hy)) hdescribed'
        refine ⟨w', hw', hend, ?_, ?_, ?_⟩
        · rw [hspace, hturn, hobjects]
        · rw [hbytes, hturn, forall_mem_cons, and_iff_right hkeep]
        · rw [hruns, hturn, join_drop hkeep]

/-- **`SweepNormalPage`** of a page with this layout. -/
theorem sweepNormalPage_eq (page : Nat) (htile : Tile 0 l (payloadSize a))
    (hdescribed : ∀ x ∈ l, Described a s.memory noBuffer page x) :
    ∃ w, s.sweepNormalPage a page = some w ∧ w.current = payloadSize a ∧
      w.space = (objects page l).foldl Space.sweepObject s ∧
      (w.liveBytes = 0 ↔ ∀ x ∈ l, keep s.memory page x = false) ∧
      w.freeRuns =
        freeBlocks page (join (keep s.memory page) .free (payloadSize a) none l) := by
  obtain ⟨w, hw, hend, hspace, hbytes, hruns⟩ := loop_eq (w := { space := s }) htile rfl
    (Nat.le_add_left ..) (fun _ _ => rfl) hdescribed
  refine ⟨_, congrArg (Option.map _) hw, hend, hspace, ?_, hruns⟩
  rw [hbytes]
  exact and_iff_right rfl

end Walk

/-! ### The objects -/

section Objects

variable {s t u : Space} {z object : Address} {zs ys : List Address} {gone gone' : List Nat}

/-- **The objects `zs` are swept**: what is marked is unmarked, and the rest is finalized; the blocks
`gone` are given back to the host. -/
structure Swept (s t : Space) (zs : List Address) (gone : List Nat) : Prop where
  kept : ∀ z ∈ zs, (s.memory z).marked = true → t.memory z = (s.memory z).unmark
  finalized : t.finalized = s.finalized ++ zs.filter fun z => !(s.memory z).marked
  live : s.live.Nodup → t.live.Nodup ∧
    ∀ z, z ∈ t.live ↔ z ∈ s.live ∧ (z ∈ zs → (s.memory z).marked = true)
  largeObjects : t.largeObjects = s.largeObjects
  nextBlock : t.nextBlock = s.nextBlock
  lab : t.lab = s.lab
  sandboxed : t.sandboxed = s.sandboxed
  returned : t.returned = s.returned ++ gone

theorem Swept.refl (s : Space) : Swept s s [] [] where
  kept _ hz := (not_mem_nil hz).elim
  finalized := (append_nil _).symm
  live h := ⟨h, fun _ => (and_iff_left fun hz => (not_mem_nil hz).elim).symm⟩
  largeObjects := rfl
  nextBlock := rfl
  lab := rfl
  sandboxed := rfl
  returned := (append_nil _).symm

theorem Swept.trans (h : Swept s t zs gone) (h' : Swept t u ys gone')
    (hys : ∀ z ∈ ys, t.memory z = s.memory z) (hzs : ∀ z ∈ zs, u.memory z = t.memory z) :
    Swept s u (zs ++ ys) (gone ++ gone') where
  kept z hz hmarked := by
    rcases mem_append.mp hz with hz | hz
    · exact (hzs z hz).trans (h.kept z hz hmarked)
    · have hmarked' : (t.memory z).marked = true := by rwa [hys z hz]
      rw [h'.kept z hz hmarked', hys z hz]
  finalized := by
    have hfilter : (ys.filter fun z => !(t.memory z).marked) = ys.filter fun z =>
        !(s.memory z).marked := filter_congr fun z hz => by rw [hys z hz]
    rw [h'.finalized, h.finalized, hfilter, filter_append, List.append_assoc]
  live hnodup := by
    obtain ⟨hnodup', hlive⟩ := h.live hnodup
    obtain ⟨hnodup'', hlive'⟩ := h'.live hnodup'
    refine ⟨hnodup'', fun z => ?_⟩
    rw [hlive', hlive, and_assoc, and_congr_right_iff]
    intro _
    constructor
    · rintro ⟨hzs, hys'⟩ hz
      rcases mem_append.mp hz with hz | hz
      · exact hzs hz
      · rw [← hys z hz]
        exact hys' hz
    · intro hmarked
      refine ⟨fun hz => hmarked (mem_append_left _ hz), fun hz => ?_⟩
      rw [hys z hz]
      exact hmarked (mem_append_right _ hz)
  largeObjects := h'.largeObjects.trans h.largeObjects
  nextBlock := h'.nextBlock.trans h.nextBlock
  lab := h'.lab.trans h.lab
  sandboxed := h'.sandboxed.trans h.sandboxed
  returned := by rw [h'.returned, h.returned, List.append_assoc]

theorem Swept.release (h : Swept s t zs gone) (block : Nat) :
    Swept s (t.release block) zs (gone ++ [block]) where
  kept := h.kept
  finalized := h.finalized
  live := h.live
  largeObjects := h.largeObjects
  nextBlock := h.nextBlock
  lab := h.lab
  sandboxed := h.sandboxed
  returned := by rw [Space.release, h.returned, List.append_assoc]

theorem Swept.destroyPage (h : Swept s t zs []) (page : Nat) :
    ∃ gone, Swept s (t.destroyPage page) zs gone ∧ gone.Nodup ∧
      ∀ p, p ∈ gone ↔ p = page ∧ p ∉ s.sandboxed := by
  rw [Space.destroyPage, h.sandboxed]
  by_cases hpage : page ∈ s.sandboxed
  · rw [if_pos hpage]
    refine ⟨[], h, nodup_nil, fun p => iff_of_false not_mem_nil ?_⟩
    rintro ⟨rfl, hp⟩
    exact hp hpage
  · rw [if_neg hpage]
    refine ⟨[page], h.release page, pairwise_singleton _ _, fun p => ?_⟩
    rw [mem_singleton, iff_self_and]
    rintro rfl
    exact hpage

theorem swept_sweepObject (s : Space) (object : Address) :
    Swept s (s.sweepObject object) [object] [] := by
  rw [Space.sweepObject]
  cases hmarked : (s.memory object).marked with
  | true =>
    rw [if_pos rfl]
    refine ⟨fun z hz _ => ?_, ?_, fun hnodup => ⟨hnodup, fun z => ?_⟩, rfl, rfl, rfl, rfl,
      (append_nil _).symm⟩
    · rw [mem_singleton.mp hz]
      exact update_self ..
    · rw [filter_cons_of_neg (by rw [hmarked]; decide), filter_nil, append_nil]
      rfl
    · refine (and_iff_left fun hz => ?_).symm
      rw [mem_singleton.mp hz]
      exact hmarked
  | false =>
    rw [if_neg Bool.false_ne_true]
    refine ⟨fun z hz hyes => ?_, ?_, fun hnodup => ⟨hnodup.erase _, fun z => ?_⟩, rfl, rfl, rfl, rfl,
      (append_nil _).symm⟩
    · rw [mem_singleton.mp hz] at hyes
      cases hmarked.symm.trans hyes
    · rw [filter_cons_of_pos (by rw [hmarked]; rfl), filter_nil]
      rfl
    · show z ∈ s.live.erase object ↔ _
      rw [hnodup.mem_erase_iff, and_comm, and_congr_right_iff]
      intro _
      refine ⟨fun hne hz => absurd (mem_singleton.mp hz) hne, ?_⟩
      rintro hyes rfl
      cases hmarked.symm.trans (hyes (mem_singleton_self z))

theorem memory_sweepObjects (hz : z ∉ zs) :
    (zs.foldl Space.sweepObject s).memory z = s.memory z := by
  induction zs generalizing s with
  | nil => rfl
  | cons object zs ih =>
    rw [mem_cons, not_or] at hz
    rw [foldl_cons, ih hz.2]
    exact memory_sweepObject_of_ne hz.1

theorem freeList_sweepObjects : (zs.foldl Space.sweepObject s).freeList = s.freeList := by
  induction zs generalizing s with
  | nil => rfl
  | cons object zs ih =>
    rw [foldl_cons, ih, Space.sweepObject]
    split <;> rfl

theorem swept_sweepObjects (hnodup : zs.Nodup) :
    Swept s (zs.foldl Space.sweepObject s) zs [] := by
  induction zs generalizing s with
  | nil => exact Swept.refl s
  | cons object zs ih =>
    obtain ⟨hnew, hnodup⟩ := nodup_cons.mp hnodup
    refine (swept_sweepObject s object).trans (ih hnodup) (fun z hz => ?_) fun z hz => ?_
    · refine memory_sweepObject_of_ne ?_
      rintro rfl
      exact hnew hz
    · rw [mem_singleton.mp hz]
      exact memory_sweepObjects hnew

/-- **The large objects are swept.** -/
theorem sweepLargeObjects_eq (blocks : List Nat) (s : Space) (hnodup : blocks.Nodup) :
    ∃ t, s.sweepLargeObjects blocks = (blocks.filter fun b => (s.memory ⟨b, 0⟩).marked, t) ∧
      Swept s t (blocks.map fun b => ⟨b, 0⟩) (blocks.filter fun b => !(s.memory ⟨b, 0⟩).marked) ∧
      (∀ z : Address, z.block ∉ blocks → t.memory z = s.memory z) ∧ t.freeList = s.freeList := by
  induction blocks generalizing s with
  | nil => exact ⟨s, rfl, Swept.refl s, fun _ _ => rfl, rfl⟩
  | cons block blocks ih =>
    obtain ⟨hnew, hnodup⟩ := nodup_cons.mp hnodup
    -- what the turn at `block` leaves for the rest
    have hrest : ∀ {t : Space} {gone : List Nat}, t.memory = (s.sweepObject ⟨block, 0⟩).memory →
        t.freeList = s.freeList → Swept s t [⟨block, 0⟩] gone →
        ∃ u, t.sweepLargeObjects blocks = (blocks.filter fun b => (s.memory ⟨b, 0⟩).marked, u) ∧
          Swept s u ((block :: blocks).map fun b => ⟨b, 0⟩)
            (gone ++ blocks.filter fun b => !(s.memory ⟨b, 0⟩).marked) ∧
          (∀ z : Address, z.block ∉ block :: blocks → u.memory z = s.memory z) ∧
          u.freeList = s.freeList := by
      intro t gone hmemory hlist hst
      have hother : ∀ z : Address, z.block ≠ block → t.memory z = s.memory z := by
        intro z hz
        rw [hmemory]
        exact memory_sweepObject_of_ne fun heq => hz (congrArg Address.block heq)
      have hsame : ∀ b ∈ blocks, t.memory ⟨b, 0⟩ = s.memory ⟨b, 0⟩ := by
        intro b hb
        refine hother _ ?_
        rintro rfl
        exact hnew hb
      obtain ⟨u, hu, htu, hmem, hfree⟩ := ih t hnodup
      have hmarked : (blocks.filter fun b => (t.memory ⟨b, 0⟩).marked) =
          blocks.filter fun b => (s.memory ⟨b, 0⟩).marked :=
        filter_congr fun b hb => by rw [hsame b hb]
      have hdead : (blocks.filter fun b => !(t.memory ⟨b, 0⟩).marked) =
          blocks.filter fun b => !(s.memory ⟨b, 0⟩).marked :=
        filter_congr fun b hb => by rw [hsame b hb]
      rw [hmarked] at hu
      rw [hdead] at htu
      refine ⟨u, hu, hst.trans htu (fun z hz => ?_) (fun z hz => ?_), fun z hz => ?_,
        hfree.trans hlist⟩
      · obtain ⟨b, hb, rfl⟩ := List.mem_map.mp hz
        exact hsame b hb
      · rw [mem_singleton.mp hz]
        exact hmem _ hnew
      · rw [mem_cons, not_or] at hz
        exact (hmem z hz.2).trans (hother z hz.1)
    rw [Space.sweepLargeObjects]
    have hswept := swept_sweepObject s ⟨block, 0⟩
    cases hmarked : (s.memory ⟨block, 0⟩).marked with
    | true =>
      have hobject : s.sweepObject ⟨block, 0⟩ = s.unmark ⟨block, 0⟩ := if_pos hmarked
      have hkept : ((block :: blocks).filter fun b => (s.memory ⟨b, 0⟩).marked) =
          block :: blocks.filter fun b => (s.memory ⟨b, 0⟩).marked := filter_cons_of_pos hmarked
      have hdead : ((block :: blocks).filter fun b => !(s.memory ⟨b, 0⟩).marked) =
          blocks.filter fun b => !(s.memory ⟨b, 0⟩).marked :=
        filter_cons_of_neg (by rw [hmarked]; exact Bool.false_ne_true)
      rw [hobject] at hrest hswept
      obtain ⟨u, hu, hsu, hother⟩ := hrest rfl rfl hswept
      rw [if_pos rfl, hu, hkept, hdead]
      exact ⟨u, rfl, hsu, hother⟩
    | false =>
      have hobject : s.sweepObject ⟨block, 0⟩ = s.finalize ⟨block, 0⟩ :=
        if_neg (by rw [hmarked]; exact Bool.false_ne_true)
      have hkept : ((block :: blocks).filter fun b => (s.memory ⟨b, 0⟩).marked) =
          blocks.filter fun b => (s.memory ⟨b, 0⟩).marked :=
        filter_cons_of_neg (by rw [hmarked]; exact Bool.false_ne_true)
      have hdead : ((block :: blocks).filter fun b => !(s.memory ⟨b, 0⟩).marked) =
          block :: blocks.filter fun b => !(s.memory ⟨b, 0⟩).marked :=
        filter_cons_of_pos (by rw [hmarked]; rfl)
      rw [hobject] at hrest hswept
      obtain ⟨u, hu, hsu, hother⟩ := hrest (t := (s.finalize ⟨block, 0⟩).release block) rfl rfl
        (hswept.release block)
      rw [if_neg Bool.false_ne_true, hu, hkept, hdead]
      exact ⟨u, rfl, hsu, hother⟩

end Objects

/-! ### The free blocks -/

section FreeBlocks

variable {s t : Space} {page : Nat} {l : List (Block Use)} {blocks : List FreeBlock}
  {pages gone : List Nat} {layout : Nat → List (Block Use)} {zs : List Address} {z : Address}

theorem memory_addFree (s : Space) (block : FreeBlock) : (s.addFree a block).memory =
    Function.update s.memory block.address (.create a block.size kFreeListGCInfoIndex) :=
  memory_add ..

theorem memory_addFrees_of_notMem (hz : ∀ block ∈ blocks, z ≠ block.address) :
    (blocks.foldl (Space.addFree a) s).memory z = s.memory z := by
  induction blocks generalizing s with
  | nil => rfl
  | cons block blocks ih =>
    rw [foldl_cons, ih fun b hb => hz b (mem_cons_of_mem _ hb), memory_addFree,
      update_of_ne (hz block mem_cons_self)]

theorem memory_addFrees_of_mem {block : FreeBlock} (hblock : block ∈ blocks)
    (hnodup : blocks.Pairwise fun b c => b.address ≠ c.address) :
    (blocks.foldl (Space.addFree a) s).memory block.address =
      .create a block.size kFreeListGCInfoIndex := by
  induction blocks generalizing s with
  | nil => exact (not_mem_nil hblock).elim
  | cons b blocks ih =>
    obtain ⟨hb, hnodup⟩ := pairwise_cons.mp hnodup
    rcases mem_cons.mp hblock with rfl | hblock
    · rw [foldl_cons, memory_addFrees_of_notMem hb, memory_addFree, update_self]
    · rw [foldl_cons]
      exact ih hblock hnodup

theorem Swept.addFrees (h : Swept s t zs gone) (hz : ∀ z ∈ zs, (s.memory z).marked = true →
    ∀ block ∈ blocks, z ≠ block.address) :
    Swept s (blocks.foldl (Space.addFree a) t) zs gone := by
  induction blocks generalizing t with
  | nil => exact h
  | cons block blocks ih =>
    refine ih (t := t.addFree a block) ⟨fun z hzs hmarked => ?_, h.finalized, h.live, h.largeObjects,
      h.nextBlock, h.lab, h.sandboxed, h.returned⟩ fun z hzs hmarked b hb => hz z hzs hmarked b (mem_cons_of_mem _ hb)
    rw [memory_addFree, update_of_ne (hz z hzs hmarked block mem_cons_self)]
    exact h.kept z hzs hmarked

theorem listed_addFrees (h : Listed a s.freeList pages layout) (hpage : page ∈ pages)
    (hl : ∀ x ∈ l, x ∈ layout page ∧ x.kind = .free)
    (hnodup : l.Pairwise fun x y => x.start ≠ y.start)
    (hnew : ∀ x ∈ l, ∀ i, ⟨page, x.start⟩ ∉ s.freeList.heads i) :
    Listed a ((l.map fun x => ⟨⟨page, x.start⟩, x.size⟩).foldl (Space.addFree a) s).freeList pages
      layout := by
  induction l generalizing s with
  | nil => exact h
  | cons x l ih =>
    obtain ⟨hx, hnodup⟩ := pairwise_cons.mp hnodup
    obtain ⟨hmem, hfree⟩ := hl x mem_cons_self
    have hadd : Listed a (s.addFree a ⟨⟨page, x.start⟩, x.size⟩).freeList pages layout :=
      h.add (e := ⟨page, x.start⟩) hpage hmem rfl hfree (hnew x mem_cons_self)
    refine ih hadd (fun y hy => hl y (mem_cons_of_mem _ hy)) hnodup fun y hy i he => ?_
    rcases mem_heads_add he with he | he
    · exact hnew y (mem_cons_of_mem _ hy) i he
    · injection he with _ he
      exact hx y hy he.symm

theorem mem_heads_addFrees {i : Nat} {e : Address} (he : e ∈ s.freeList.heads i) :
    e ∈ (blocks.foldl (Space.addFree a) s).freeList.heads i := by
  induction blocks generalizing s with
  | nil => exact he
  | cons block blocks ih =>
    refine ih (s := s.addFree a block) ?_
    show e ∈ (s.freeList.add a s.memory block).1.heads i
    rw [heads_add]
    split
    · exact mem_cons_of_mem _ he
    · exact he

theorem mem_heads_addFrees_of_mem (block : FreeBlock) (hblock : block ∈ blocks)
    (hsize : a.entrySize ≤ block.size) : block.address ∈
      (blocks.foldl (Space.addFree a) s).freeList.heads (bucketIndexForSize block.size) := by
  induction blocks generalizing s with
  | nil => exact (not_mem_nil hblock).elim
  | cons b blocks ih =>
    rcases mem_cons.mp hblock with rfl | hblock
    · refine mem_heads_addFrees (s := s.addFree a block) ?_
      show block.address ∈ (s.freeList.add a s.memory block).1.heads _
      rw [heads_add, if_pos ⟨hsize, rfl⟩]
      exact mem_cons_self
    · exact ih hblock

end FreeBlocks

/-! ### The pages -/

section Pages

variable {s : Space} {page : Nat} {l : List (Block Use)} {pages done : List Nat}
  {layout new : Nat → List (Block Use)}

theorem mem_objects {z : Address} : z ∈ objects page l ↔
    z.block = page ∧ ∃ x ∈ l, x.start = z.offset ∧ x.kind = .object := by
  rw [objects, List.mem_map]
  constructor
  · rintro ⟨x, hx, rfl⟩
    obtain ⟨hx, hkind⟩ := mem_filter.mp hx
    exact ⟨rfl, x, hx, rfl, eq_of_beq hkind⟩
  · rintro ⟨hblock, x, hx, hstart, hkind⟩
    refine ⟨x, mem_filter.mpr ⟨hx, by rw [hkind]; rfl⟩, ?_⟩
    cases z
    exact congrArg₂ Address.mk hblock.symm hstart

theorem mem_freeBlocks {block : FreeBlock} (h : block ∈ freeBlocks page l) :
    ∃ x ∈ l, x.kind = .free ∧ block = ⟨⟨page, x.start⟩, x.size⟩ := by
  obtain ⟨x, hx, rfl⟩ := List.mem_map.mp h
  obtain ⟨hx, hkind⟩ := mem_filter.mp hx
  exact ⟨x, hx, eq_of_beq hkind, rfl⟩

theorem nodup_objects {b : Nat} (htile : Tile 0 l b) : (objects page l).Nodup := by
  refine pairwise_map.mpr (List.Pairwise.filter _ (htile.pairwise.imp_of_mem ?_))
  intro x y hx _ hle heq
  have hlt := (htile.mem hx).2.1
  injection heq with _ heq
  omega

theorem keep_iff {memory : Memory} {x : Block Use} : keep memory page x = true ↔
    x.kind = .object ∧ (memory ⟨page, x.start⟩).marked = true := by
  rw [keep, Bool.and_eq_true, beq_iff_eq]

/-- The blocks of a page behind a sweep. -/
def sweptLayout (a : Arch) (memory : Memory) (page : Nat) (l : List (Block Use)) : List (Block Use) :=
  join (keep memory page) .free (payloadSize a) none l

theorem mem_sweptLayout {memory : Memory} {x : Block Use} (hx : x ∈ sweptLayout a memory page l) :
    x ∈ l ∧ keep memory page x = true ∨ x.kind = .free := by
  rcases mem_join hx with hkeep | ⟨hfree, -⟩
  · exact .inl hkeep
  · exact .inr hfree

/-- **A page that survives** is laid out again, and its free blocks are in their buckets. -/
theorem sweptPage (hlaid : Laid a s.memory noBuffer [page] fun _ => l)
    (hdone : Laid a s.memory noBuffer done new) (hlisted : Listed a s.freeList done new)
    (hpage : page ∉ done) :
    let t := (freeBlocks page (sweptLayout a s.memory page l)).foldl (Space.addFree a)
      ((objects page l).foldl Space.sweepObject s)
    Swept s t (objects page l) [] ∧ (∀ z : Address, z.block ≠ page → t.memory z = s.memory z) ∧
      Laid a t.memory noBuffer (done ++ [page])
        (Function.update new page (sweptLayout a s.memory page l)) ∧
      Listed a t.freeList (done ++ [page])
        (Function.update new page (sweptLayout a s.memory page l)) := by
  intro t
  have hself : page ∈ [page] := mem_singleton_self page
  have htile : Tile 0 l (payloadSize a) := hlaid.tile page hself
  have hjoin : Tile 0 (sweptLayout a s.memory page l) (payloadSize a) :=
    tile_join htile fun s (hs : s ∈ (none : Option Nat)) => nomatch hs
  have hstarts : (sweptLayout a s.memory page l).Pairwise fun x y => x.start ≠ y.start := by
    refine hjoin.pairwise.imp_of_mem fun {x y} hx _ hle heq => ?_
    have hlt := (hjoin.mem hx).2.1
    omega
  -- a free block does not start where a kept one does
  have hfree : ∀ x ∈ l, keep s.memory page x = true → ∀ block ∈ freeBlocks page
      (sweptLayout a s.memory page l), (⟨page, x.start⟩ : Address) ≠ block.address := by
    intro x hx hkeep block hblock heq
    obtain ⟨y, hy, hykind, rfl⟩ := mem_freeBlocks hblock
    injection heq with _ heq
    rw [hjoin.eq_of_start (mem_join_of_keep hx hkeep) hy heq] at hkeep
    rw [keep_iff, hykind] at hkeep
    exact nomatch hkeep.1
  have hswept : Swept s t (objects page l) [] := by
    refine (swept_sweepObjects (nodup_objects htile)).addFrees fun z hz hmarked block hblock => ?_
    obtain ⟨hzblock, x, hx, hstart, hkind⟩ := mem_objects.mp hz
    have hz : z = ⟨page, x.start⟩ := by
      cases z
      exact congrArg₂ Address.mk hzblock hstart.symm
    rw [hz] at hmarked ⊢
    exact hfree x hx (keep_iff.mpr ⟨hkind, hmarked⟩) block hblock
  have hother : ∀ z : Address, z.block ≠ page → t.memory z = s.memory z := by
    intro z hz
    refine (memory_addFrees_of_notMem fun block hblock heq => ?_).trans
      (memory_sweepObjects fun hmem => hz (mem_objects.mp hmem).1)
    obtain ⟨y, -, -, rfl⟩ := mem_freeBlocks hblock
    exact hz (congrArg Address.block heq)
  have hpageSelf : Function.update new page (sweptLayout a s.memory page l) page =
      sweptLayout a s.memory page l := update_self ..
  have hnew : ∀ q ∈ done, Function.update new page (sweptLayout a s.memory page l) q = new q := by
    intro q hq
    refine update_of_ne ?_ ..
    rintro rfl
    exact hpage hq
  have hsplit : ∀ {q}, q ∈ done ++ [page] → q ∈ done ∨ q = page := by
    intro q hq
    rwa [mem_append, mem_singleton] at hq
  have haligned : ∀ x ∈ sweptLayout a s.memory page l, a.granularity ∣ x.size := by
    intro x hx
    have hl := fun {y} hy => htile.dvd (x := y) (Nat.dvd_zero a.granularity)
      (hlaid.aligned page hself) hy
    rcases mem_join hx with ⟨hx, -⟩ | ⟨-, hstart, hstop⟩
    · exact hlaid.aligned page hself x hx
    · obtain ⟨y, hy, hystart⟩ := hstart.resolve_left fun hnone => nomatch hnone
      refine Nat.dvd_sub ?_ (hystart ▸ (hl hy).1)
      rcases hstop with hstop | ⟨y, hy, hystop⟩
      · rw [hstop]
        cases a <;> decide
      · exact hystop ▸ (hl hy).1
  refine ⟨hswept, hother, ⟨fun q hq => ?_, fun q hq x hx => ?_, fun q hq x hx => ?_⟩, ?_⟩
  · rcases hsplit hq with hq | rfl
    · rw [hnew q hq]
      exact hdone.tile q hq
    · rw [hpageSelf]
      exact hjoin
  · rcases hsplit hq with hq | rfl
    · rw [hnew q hq] at hx
      have hne : q ≠ page := fun heq => hpage (heq ▸ hq)
      exact (hdone.described q hq x hx).congr (hother _ hne) fun _ => rfl
    · rw [hpageSelf] at hx
      rcases mem_sweptLayout hx with ⟨hxl, hkeep⟩ | hkind
      · obtain ⟨hkind, hmarked⟩ := keep_iff.mp hkeep
        have hmemory := hswept.kept _ (mem_objects.mpr ⟨rfl, x, hxl, rfl, hkind⟩) hmarked
        have hdescribed := hlaid.described q hself x hxl
        rw [Described, hkind] at hdescribed ⊢
        rw [hmemory]
        exact hdescribed
      · have hblock : (⟨⟨q, x.start⟩, x.size⟩ : FreeBlock) ∈
            freeBlocks q (sweptLayout a s.memory q l) :=
          List.mem_map.mpr ⟨x, mem_filter.mpr ⟨hx, by rw [hkind]; rfl⟩, rfl⟩
        have hmemory : t.memory ⟨q, x.start⟩ = .create a x.size kFreeListGCInfoIndex := by
          refine memory_addFrees_of_mem hblock (pairwise_map.mpr ?_)
          refine List.Pairwise.filter _ (hstarts.imp fun hne heq => hne ?_)
          injection heq
        have hlt : x.size < kPageSize := by
          have hstop := (hjoin.mem hx).2.2
          have hle : x.size ≤ x.stop := Nat.sub_le ..
          have hpayload : payloadSize a < kPageSize := by cases a <;> decide
          omega
        rw [Described, hkind, hmemory]
        exact ⟨allocatedSize_create (haligned x hx) hlt, rfl⟩
  · rcases hsplit hq with hq | rfl
    · rw [hnew q hq] at hx
      exact hdone.aligned q hq x hx
    · rw [hpageSelf] at hx
      exact haligned x hx
  · have hlist : ((objects page l).foldl Space.sweepObject s).freeList = s.freeList :=
      freeList_sweepObjects
    have hold : Listed a ((objects page l).foldl Space.sweepObject s).freeList (done ++ [page])
        (Function.update new page (sweptLayout a s.memory page l)) := by
      rw [hlist]
      refine ⟨fun i e he => ?_, hlisted.nodup, hlisted.biggest⟩
      obtain ⟨hdone, x, hx⟩ := hlisted.entry i e he
      refine ⟨mem_append_left _ hdone, x, ?_, hx.start, hx.free, hx.size, hx.bucket⟩
      rw [hnew _ hdone]
      exact hx.mem
    refine listed_addFrees (l := (sweptLayout a s.memory page l).filter fun x => x.kind == .free) hold
      (mem_append_right _ hself) (fun x hx => ?_) (List.Pairwise.filter _ hstarts)
      fun x hx i he => ?_
    · obtain ⟨hx, hkind⟩ := mem_filter.mp hx
      rw [hpageSelf]
      exact ⟨hx, eq_of_beq hkind⟩
    · rw [hlist] at he
      exact hpage (hlisted.entry i _ he).1

theorem keep_congr {memory memory' : Memory} {q : Nat}
    (h : ∀ z : Address, z.block = q → memory' z = memory z) : keep memory' q = keep memory q := by
  funext x
  rw [keep, keep, h ⟨q, x.start⟩ rfl]

/-- The sweep of `pages` behind that of `done`, which has made `surviving` of them. -/
structure PagesSwept (a : Arch) (s t : Space) (done pages surviving gone : List Nat)
    (layout new new' : Nat → List (Block Use)) : Prop where
  laid : Laid a t.memory noBuffer (done ++ surviving) new'
  listed : Listed a t.freeList (done ++ surviving) new'
  sublist : surviving.Sublist pages
  swept : Swept s t (pages.flatMap fun p => objects p (layout p)) gone
  memory : ∀ z : Address, z.block ∉ pages → t.memory z = s.memory z
  heads : ∀ i, ∀ e ∈ s.freeList.heads i, e ∈ t.freeList.heads i
  old : ∀ p ∈ done, new' p = new p
  new : ∀ p ∈ surviving, new' p = sweptLayout a s.memory p (layout p)
  available : ∀ p ∈ surviving, ∀ x ∈ new' p, x.kind = .free → a.entrySize ≤ x.size →
    ⟨p, x.start⟩ ∈ t.freeList.heads (bucketIndexForSize x.size)
  survives : ∀ p ∈ pages, p ∈ surviving ↔ ∃ x ∈ layout p, keep s.memory p x = true
  goneNodup : gone.Nodup
  mem_gone : ∀ p, p ∈ gone ↔ p ∈ pages ∧ p ∉ surviving ∧ p ∉ s.sandboxed

variable {t u : Space} {surviving gone gone' : List Nat} {new' : Nat → List (Block Use)}

theorem laid_of_cons (hlaid : Laid a s.memory noBuffer (page :: pages) layout) (hnew : page ∉ pages)
    (ht : ∀ z : Address, z.block ≠ page → t.memory z = s.memory z) :
    Laid a t.memory noBuffer pages layout := by
  have hpages : ∀ q ∈ pages, q ∈ page :: pages := fun q hq => mem_cons_of_mem _ hq
  refine ⟨fun q hq => hlaid.tile q (hpages q hq), fun q hq x hx => ?_,
    fun q hq => hlaid.aligned q (hpages q hq)⟩
  refine (hlaid.described q (hpages q hq) x hx).congr (ht _ ?_) fun _ => rfl
  rintro rfl
  exact hnew hq

theorem keep_of_cons (hnew : page ∉ pages)
    (ht : ∀ z : Address, z.block ≠ page → t.memory z = s.memory z) {q : Nat} (hq : q ∈ pages) :
    keep t.memory q = keep s.memory q := by
  refine keep_congr fun z hz => ht z ?_
  rintro rfl
  exact hnew (hz ▸ hq)

theorem Swept.pageCons (hnew : page ∉ pages) (hst : Swept s t (objects page (layout page)) gone)
    (ht : ∀ z : Address, z.block ≠ page → t.memory z = s.memory z)
    (htu : Swept t u (pages.flatMap fun p => objects p (layout p)) gone')
    (hu : ∀ z : Address, z.block ∉ pages → u.memory z = t.memory z) :
    Swept s u ((page :: pages).flatMap fun p => objects p (layout p)) (gone ++ gone') := by
  refine hst.trans htu (fun z hz => ?_) fun z hz => ?_
  · obtain ⟨q, hq, hz⟩ := mem_flatMap.mp hz
    refine ht z ?_
    rw [(mem_objects.mp hz).1]
    rintro rfl
    exact hnew hq
  · refine hu z ?_
    rw [(mem_objects.mp hz).1]
    exact hnew

theorem PagesSwept.destroyed (hnew : page ∉ pages)
    (hdead : ∀ x ∈ layout page, keep s.memory page x = false)
    (hst : Swept s t (objects page (layout page)) gone)
    (ht : ∀ z : Address, z.block ≠ page → t.memory z = s.memory z)
    (hlist : t.freeList = s.freeList) (hgoneNodup : gone.Nodup)
    (hgone : ∀ p, p ∈ gone ↔ p = page ∧ p ∉ s.sandboxed)
    (hu : PagesSwept a t u done pages surviving gone' layout new new') :
    PagesSwept a s u done (page :: pages) surviving (gone ++ gone') layout new new' := by
  have hsub := fun {p} hp => hu.sublist.subset (a := p) hp
  refine ⟨hu.laid, hu.listed, hu.sublist.cons _, hst.pageCons hnew ht hu.swept hu.memory,
    fun z hz => ?_, fun i e he => hu.heads i e (hlist ▸ he), hu.old, fun p hp => ?_, hu.available,
    fun p hp => ?_, ?_, fun p => ?_⟩
  · rw [mem_cons, not_or] at hz
    exact (hu.memory z hz.2).trans (ht z hz.1)
  · rw [hu.new p hp, sweptLayout, sweptLayout, keep_of_cons hnew ht (hsub hp)]
  · rcases mem_cons.mp hp with rfl | hp
    · refine iff_of_false (fun hp => hnew (hsub hp)) ?_
      rintro ⟨x, hx, hyes⟩
      cases (hdead x hx).symm.trans hyes
    · rw [hu.survives p hp, keep_of_cons hnew ht hp]
  · refine List.nodup_append.mpr ⟨hgoneNodup, hu.goneNodup, ?_⟩
    rintro p hp _ hq rfl
    rw [((hgone p).mp hp).1] at hq
    exact hnew ((hu.mem_gone page).mp hq).1
  · rw [mem_append, hgone, hu.mem_gone, hst.sandboxed, mem_cons]
    constructor
    · rintro (⟨rfl, hp⟩ | ⟨hp, hout⟩)
      · exact ⟨.inl rfl, fun hmem => hnew (hsub hmem), hp⟩
      · exact ⟨.inr hp, hout⟩
    · rintro ⟨rfl | hp, hout⟩
      · exact .inl ⟨rfl, hout.2⟩
      · exact .inr ⟨hp, hout⟩

/-- A page with a marked object survives, with its free blocks in their buckets. -/
theorem PagesSwept.kept (hnew : page ∉ pages) (hnotDone : page ∉ done)
    (hlive : ∃ x ∈ layout page, keep s.memory page x = true)
    (hst : Swept s t (objects page (layout page)) [])
    (ht : ∀ z : Address, z.block ≠ page → t.memory z = s.memory z)
    (hheads : ∀ i, ∀ e ∈ s.freeList.heads i, e ∈ t.freeList.heads i)
    (hfreed : ∀ x ∈ sweptLayout a s.memory page (layout page), x.kind = .free →
      a.entrySize ≤ x.size → ⟨page, x.start⟩ ∈ t.freeList.heads (bucketIndexForSize x.size))
    (hu : PagesSwept a t u (done ++ [page]) pages surviving gone layout
      (Function.update new page (sweptLayout a s.memory page (layout page))) new') :
    PagesSwept a s u done (page :: pages) (page :: surviving) gone layout new new' := by
  have hsub := fun {p} hp => hu.sublist.subset (a := p) hp
  have hlaidu := hu.laid
  have hlistedu := hu.listed
  rw [List.append_assoc] at hlaidu hlistedu
  have hpageNew : new' page = sweptLayout a s.memory page (layout page) := by
    rw [hu.old page (mem_append_right _ (mem_singleton_self _)), update_self]
  refine ⟨hlaidu, hlistedu, hu.sublist.cons_cons _, hst.pageCons hnew ht hu.swept hu.memory,
    fun z hz => ?_, fun i e he => hu.heads i e (hheads i e he), fun p hp => ?_, fun p hp => ?_,
    fun p hp x hx hfree hsize => ?_, fun p hp => ?_, hu.goneNodup, fun p => ?_⟩
  · rw [mem_cons, not_or] at hz
    exact (hu.memory z hz.2).trans (ht z hz.1)
  · rw [hu.old p (mem_append_left _ hp), update_of_ne]
    rintro rfl
    exact hnotDone hp
  · rcases mem_cons.mp hp with rfl | hp
    · exact hpageNew
    · rw [hu.new p hp, sweptLayout, sweptLayout, keep_of_cons hnew ht (hsub hp)]
  · rcases mem_cons.mp hp with rfl | hp
    · rw [hpageNew] at hx
      exact hu.heads _ _ (hfreed x hx hfree hsize)
    · exact hu.available p hp x hx hfree hsize
  · rcases mem_cons.mp hp with rfl | hin
    · exact iff_of_true mem_cons_self hlive
    · have hne : p ≠ page := by
        rintro rfl
        exact hnew hin
      rw [mem_cons, or_iff_right hne, hu.survives p hin, keep_of_cons hnew ht hin]
  · rw [hu.mem_gone, hst.sandboxed, mem_cons, mem_cons, not_or]
    constructor
    · rintro ⟨hp, hout⟩
      refine ⟨.inr hp, ⟨?_, hout.1⟩, hout.2⟩
      rintro rfl
      exact hnew hp
    · rintro ⟨hp, ⟨hne, hsurviving⟩, hsandboxed⟩
      exact ⟨hp.resolve_left hne, hsurviving, hsandboxed⟩

/-- **The pages are swept.** -/
theorem sweepNormalPages_eq (hlaid : Laid a s.memory noBuffer pages layout)
    (hdone : Laid a s.memory noBuffer done new) (hlisted : Listed a s.freeList done new)
    (hnodup : (done ++ pages).Nodup) :
    ∃ surviving t new' gone, s.sweepNormalPages a pages = some (surviving, t) ∧
      PagesSwept a s t done pages surviving gone layout new new' := by
  induction pages generalizing s done new with
  | nil =>
    refine ⟨[], s, new, [], rfl, ?_, ?_, List.Sublist.slnil, Swept.refl s, fun _ _ => rfl,
      fun _ _ he => he, fun _ _ => rfl, fun p hp => (not_mem_nil hp).elim,
      fun p hp => (not_mem_nil hp).elim, fun p hp => (not_mem_nil hp).elim,
      nodup_nil, fun p => ?_⟩
    · rw [append_nil]
      exact hdone
    · rw [append_nil]
      exact hlisted
    · exact iff_of_false not_mem_nil fun hp => not_mem_nil hp.1
  | cons page pages ih =>
    have hself : page ∈ page :: pages := mem_cons_self
    obtain ⟨-, hpagesNodup, hdisjoint⟩ := List.nodup_append.mp hnodup
    obtain ⟨hnew, -⟩ := nodup_cons.mp hpagesNodup
    have hnotDone : page ∉ done := fun hpage => hdisjoint page hpage page hself rfl
    obtain ⟨w, hw, -, hspace, hbytes, hruns⟩ :=
      sweepNormalPage_eq page (hlaid.tile page hself) (hlaid.described page hself)
    have hlist : w.space.freeList = s.freeList := by
      rw [hspace]
      exact freeList_sweepObjects
    rw [Space.sweepNormalPages, hw]
    by_cases hdead : w.liveBytes = 0
    · -- the page is destroyed
      have hwalk : Swept s w.space (objects page (layout page)) [] := by
        rw [hspace]
        exact swept_sweepObjects (nodup_objects (hlaid.tile page hself))
      obtain ⟨gone, hst, hgoneNodup, hgone⟩ := hwalk.destroyPage page
      obtain ⟨hmemory, hlist'⟩ : (w.space.destroyPage page).memory = w.space.memory ∧
          (w.space.destroyPage page).freeList = s.freeList := by
        rw [Space.destroyPage]
        split <;> exact ⟨rfl, hlist⟩
      have ht : ∀ z : Address, z.block ≠ page →
          (w.space.destroyPage page).memory z = s.memory z := by
        intro z hz
        rw [hmemory, hspace]
        exact memory_sweepObjects fun hmem => hz (mem_objects.mp hmem).1
      have hdone' : Laid a (w.space.destroyPage page).memory noBuffer done new := by
        refine hdone.congr fun z hz => ht z ?_
        rintro rfl
        exact hnotDone hz
      obtain ⟨surviving, u, new', gone', heq, hu⟩ := ih (laid_of_cons hlaid hnew ht) hdone'
        (hlist' ▸ hlisted)
        (hnodup.sublist (Sublist.append_left (sublist_cons_self page pages) done))
      refine ⟨surviving, u, new', gone ++ gone', ?_,
        hu.destroyed hnew (hbytes.mp hdead) hst ht hlist' hgoneNodup hgone⟩
      show (if w.liveBytes = 0 then Space.sweepNormalPages a pages (w.space.destroyPage page)
        else _) = _
      rw [if_pos hdead]
      exact heq
    · -- its free blocks are given to the free list
      have hpage : Laid a s.memory noBuffer [page] fun _ => layout page := by
        refine ⟨fun q _ => hlaid.tile page hself, fun q hq x hx => ?_,
          fun q _ => hlaid.aligned page hself⟩
        rw [mem_singleton.mp hq]
        exact hlaid.described page hself x hx
      obtain ⟨hst, ht, hlaidt, hlistedt⟩ := sweptPage hpage hdone hlisted hnotDone
      rw [sweptLayout, ← hspace, ← hruns] at hst ht hlaidt hlistedt
      have hnodup' : (done ++ [page] ++ pages).Nodup := by
        rw [List.append_assoc]
        exact hnodup
      obtain ⟨surviving, u, new', gone, heq, hu⟩ :=
        ih (laid_of_cons hlaid hnew ht) hlaidt hlistedt hnodup'
      have hlive : ∃ x ∈ layout page, keep s.memory page x = true := by
        by_contra hnone
        refine hdead (hbytes.mpr fun x hx => ?_)
        rw [← Bool.not_eq_true]
        exact fun hyes => hnone ⟨x, hx, hyes⟩
      refine ⟨page :: surviving, u, new', gone, ?_, hu.kept hnew hnotDone hlive hst ht
        (fun i e he => mem_heads_addFrees (hlist ▸ he)) fun x hx hfree hsize => ?_⟩
      · show (if w.liveBytes = 0 then _ else (Space.sweepNormalPages a pages _).bind _) = _
        rw [if_neg hdead, heq]
        rfl
      · refine mem_heads_addFrees_of_mem ⟨⟨page, x.start⟩, x.size⟩ ?_ hsize
        rw [hruns]
        exact List.mem_map.mpr ⟨x, mem_filter.mpr ⟨hx, by rw [hfree]; rfl⟩, rfl⟩

end Pages

/-! ### The heap -/

section Heap

variable {s t : Space} {layout : Nat → List (Block Use)} {z : Address}

theorem memory_flush {spare : Option Address} (h : Formatted a s layout spare) (hz : z ∈ s.live) :
    (s.replaceLinearAllocationBuffer a ⟨0, 0⟩ 0).memory z = s.memory z := by
  rw [Space.replaceLinearAllocationBuffer]
  split
  · rename_i hpos
    refine (congrFun (memory_addFree s _) z).trans (update_of_ne ?_ ..)
    obtain ⟨hpage, hbuffer⟩ := h.buffer hpos
    rintro rfl
    rcases (h.live _).mp hz with ⟨-, y, hy, hstart, hkind⟩ | ⟨hlarge, -⟩
    · rw [(h.laid.tile _ hpage).eq_of_start hy hbuffer hstart] at hkind
      cases hkind
    · exact (List.nodup_append.mp h.blocks).2.2 _ hpage _ hlarge rfl
  · rfl

/-- The memory of an object of `s` is in a free block of a page of `t`, which is in the free list
unless it is a filler. -/
def Freed (a : Arch) (s t : Space) (layout : Nat → List (Block Use)) (z : Address) : Prop :=
  ∃ x ∈ layout z.block, x.kind = .free ∧ x.start ≤ z.offset ∧
    z.offset + (s.memory z).allocatedSize a ≤ x.stop ∧
    (a.entrySize ≤ x.size → ⟨z.block, x.start⟩ ∈ t.freeList.heads (bucketIndexForSize x.size))

/-- What a sweep does to the marked objects and to the others. -/
structure Cleaned (a : Arch) (s t : Space) (layout : Nat → List (Block Use)) : Prop where
  formatted : Formatted a t layout
  live : ∀ z, z ∈ t.live ↔ z ∈ s.live ∧ (s.memory z).marked = true
  memory : ∀ z ∈ t.live, t.memory z = (s.memory z).unmark
  finalized : ∃ dead, t.finalized = s.finalized ++ dead ∧ dead.Nodup ∧
    ∀ z, z ∈ dead ↔ z ∈ s.live ∧ (s.memory z).marked = false
  normalPages : ∀ p, p ∈ t.normalPages ↔
    p ∈ s.normalPages ∧ ∃ z ∈ s.live, z.block = p ∧ (s.memory z).marked = true
  largeObjects : ∀ b, b ∈ t.largeObjects ↔ b ∈ s.largeObjects ∧ (s.memory ⟨b, 0⟩).marked = true
  freed : ∀ z ∈ s.live, (s.memory z).marked = false → z.block ∈ t.normalPages →
    Freed a s t layout z
  returned : ∃ gone, t.returned = s.returned ++ gone ∧ gone.Nodup ∧
    ∀ b, b ∈ gone ↔ b ∉ t.normalPages ++ t.largeObjects ∧
      (b ∈ s.normalPages ∧ b ∉ s.sandboxed ∨ b ∈ s.largeObjects)

theorem live_iff (h : Formatted a s layout) : z ∈ s.live ↔
    z ∈ (s.normalPages.flatMap fun p => objects p (layout p)) ++
      s.largeObjects.map fun b => ⟨b, 0⟩ := by
  rw [h.live, mem_append, mem_flatMap, List.mem_map]
  refine or_congr ?_ ?_
  · constructor
    · rintro ⟨hpage, hobject⟩
      exact ⟨z.block, hpage, mem_objects.mpr ⟨rfl, hobject⟩⟩
    · rintro ⟨p, hp, hz⟩
      obtain ⟨rfl, hobject⟩ := mem_objects.mp hz
      exact ⟨hp, hobject⟩
  · constructor
    · rintro ⟨hlarge, hoffset⟩
      refine ⟨z.block, hlarge, ?_⟩
      cases z
      exact congrArg _ hoffset.symm
    · rintro ⟨b, hb, rfl⟩
      exact ⟨hb, rfl⟩

theorem nodup_allObjects (h : Formatted a s layout) :
    ((s.normalPages.flatMap fun p => objects p (layout p)) ++
      s.largeObjects.map fun b => (⟨b, 0⟩ : Address)).Nodup := by
  obtain ⟨hpages, hlarge, hdisjoint⟩ := List.nodup_append.mp h.blocks
  refine List.nodup_append.mpr ⟨nodup_flatMap.mpr ⟨fun p hp => nodup_objects (h.laid.tile p hp),
    hpages.imp fun {p q} hne z hp hq => ?_⟩, List.Nodup.map (fun b c heq => ?_) hlarge,
    fun z hz w hw => ?_⟩
  · exact hne ((mem_objects.mp hp).1.symm.trans (mem_objects.mp hq).1)
  · injection heq
  · obtain ⟨p, hp, hz⟩ := mem_flatMap.mp hz
    obtain ⟨b, hb, rfl⟩ := List.mem_map.mp hw
    rintro rfl
    exact hdisjoint p hp b hb (mem_objects.mp hz).1.symm

theorem object_sweptLayout_iff {memory : Memory} {blocks : List (Block Use)} (z : Address) :
    (∃ y ∈ sweptLayout a memory z.block blocks, y.start = z.offset ∧ y.kind = .object) ↔
      (∃ y ∈ blocks, y.start = z.offset ∧ y.kind = .object) ∧ (memory z).marked = true := by
  have hstart : ∀ y : Block Use, y.start = z.offset → (⟨z.block, y.start⟩ : Address) = z := by
    intro y hy
    cases z
    exact congrArg _ hy
  constructor
  · rintro ⟨y, hy, hoffset, hkind⟩
    rcases mem_sweptLayout hy with ⟨hy, hkeep⟩ | hfree
    · have hmarked := (keep_iff.mp hkeep).2
      rw [hstart y hoffset] at hmarked
      exact ⟨⟨y, hy, hoffset, hkind⟩, hmarked⟩
    · exact nomatch hkind.symm.trans hfree
  · rintro ⟨⟨y, hy, hoffset, hkind⟩, hmarked⟩
    rw [← hstart y hoffset] at hmarked
    exact ⟨y, mem_join_of_keep hy (keep_iff.mpr ⟨hkind, hmarked⟩), hoffset, hkind⟩

/-- A sweep behind the flush of the buffer. -/
theorem sweep_flushed (h : Formatted a s layout) (hlab : s.lab = noBuffer) :
    ∃ surviving t large u layout',
      Space.sweepNormalPages a s.normalPages { s with freeList := {} } = some (surviving, t) ∧
      t.sweepLargeObjects t.largeObjects = (large, u) ∧
      u.sandboxed = s.sandboxed ∧
      Cleaned a s { u with normalPages := surviving, largeObjects := large } layout' := by
  obtain ⟨hpagesNodup, hlargeNodup, hdisjoint⟩ := List.nodup_append.mp h.blocks
  have hlaid : Laid a s.memory noBuffer [] layout :=
    ⟨fun p hp => (not_mem_nil hp).elim, fun p hp => (not_mem_nil hp).elim,
      fun p hp => (not_mem_nil hp).elim⟩
  have hlisted : Listed a {} [] layout :=
    ⟨fun i e he => (not_mem_nil he).elim, fun i => nodup_nil, fun i _ => rfl⟩
  obtain ⟨surviving, t, layout', gone, hsweep, hp⟩ := sweepNormalPages_eq
    (s := { s with freeList := {} }) (hlab ▸ h.laid) hlaid hlisted hpagesNodup
  have hlargeEq : t.largeObjects = s.largeObjects := hp.swept.largeObjects
  obtain ⟨u, hlarge, hl, hmemory, hlist⟩ := sweepLargeObjects_eq s.largeObjects t hlargeNodup
  have hsub := fun {p} hmem => hp.sublist.subset (a := p) hmem
  have hsame : ∀ b ∈ s.largeObjects, t.memory ⟨b, 0⟩ = s.memory ⟨b, 0⟩ :=
    fun b hb => hp.memory ⟨b, 0⟩ fun hpage => hdisjoint b hpage b hb rfl
  have hall : Swept { s with freeList := {} } u
      ((s.normalPages.flatMap fun p => objects p (layout p)) ++ s.largeObjects.map fun b => ⟨b, 0⟩)
      (gone ++ s.largeObjects.filter fun b => !(t.memory ⟨b, 0⟩).marked) := by
    refine hp.swept.trans hl (fun z hz => ?_) fun z hz => ?_
    · obtain ⟨b, hb, rfl⟩ := List.mem_map.mp hz
      exact hsame b hb
    · obtain ⟨p, hpage, hz⟩ := mem_flatMap.mp hz
      refine hmemory z fun hlarge => hdisjoint p hpage _ hlarge ?_
      exact (mem_objects.mp hz).1.symm
  obtain ⟨hnodup, hlive⟩ := hall.live h.liveNodup
  have hlive : ∀ z, z ∈ u.live ↔ z ∈ s.live ∧ (s.memory z).marked = true := by
    intro z
    rw [hlive z, ← live_iff h]
    exact and_congr_right fun hz => forall_prop_of_true hz
  have hlargeIff : ∀ b, b ∈ (s.largeObjects.filter fun b => (t.memory ⟨b, 0⟩).marked) ↔
      b ∈ s.largeObjects ∧ (s.memory ⟨b, 0⟩).marked = true := by
    intro b
    rw [mem_filter]
    exact and_congr_right fun hb => by rw [hsame b hb]
  -- the objects of the pages that survive
  have hobject : ∀ z : Address, z.block ∈ surviving → ((∃ y ∈ layout' z.block, y.start = z.offset ∧
      y.kind = .object) ↔ (∃ y ∈ layout z.block, y.start = z.offset ∧ y.kind = .object) ∧
        (s.memory z).marked = true) := by
    intro z hz
    rw [hp.new _ hz]
    exact object_sweptLayout_iff z
  have hpageIff : ∀ p, p ∈ surviving ↔
      p ∈ s.normalPages ∧ ∃ z ∈ s.live, z.block = p ∧ (s.memory z).marked = true := by
    intro p
    constructor
    · intro hmem
      obtain ⟨y, hy, hkeep⟩ := (hp.survives p (hsub hmem)).mp hmem
      obtain ⟨hkind, hmarked⟩ := keep_iff.mp hkeep
      exact ⟨hsub hmem, ⟨p, y.start⟩, (h.live _).mpr (.inl ⟨hsub hmem, y, hy, rfl, hkind⟩), rfl,
        hmarked⟩
    · rintro ⟨hpage, z, hz, rfl, hmarked⟩
      rcases (h.live z).mp hz with ⟨-, y, hy, hoffset, hkind⟩ | ⟨hlarge, -⟩
      · refine (hp.survives _ hpage).mpr ⟨y, hy, keep_iff.mpr ⟨hkind, ?_⟩⟩
        rw [hoffset]
        exact hmarked
      · exact absurd rfl (hdisjoint _ hpage _ hlarge)
  rw [← hlargeEq] at hlarge
  refine ⟨surviving, t, _, u, layout', hsweep, hlarge, hall.sandboxed, ?_⟩
  rw [hlargeEq]
  constructor
  · exact {
      laid := hall.lab.trans hlab ▸ hp.laid.congr fun z hz => hmemory z fun hz' =>
        hdisjoint _ (hsub hz) _ hz' rfl
      listed := hlist ▸ hp.listed
      available := fun p hmem x hx hfree hsize _ => hlist ▸ hp.available p hmem x hx hfree hsize
      buffer := fun hpos => by
        rw [hall.lab, hlab] at hpos
        exact absurd hpos (Nat.lt_irrefl 0)
      live := fun z => by
        rw [hlive, h.live, hlargeIff, or_and_right]
        refine or_congr ⟨?_, ?_⟩ ?_
        · rintro ⟨⟨hpage, hz⟩, hmarked⟩
          have hmem := (hpageIff z.block).mpr
            ⟨hpage, z, (h.live z).mpr (.inl ⟨hpage, hz⟩), rfl, hmarked⟩
          exact ⟨hmem, (hobject z hmem).mpr ⟨hz, hmarked⟩⟩
        · rintro ⟨hmem, hz⟩
          obtain ⟨hz, hmarked⟩ := (hobject z hmem).mp hz
          exact ⟨⟨hsub hmem, hz⟩, hmarked⟩
        · rw [and_right_comm, and_congr_left_iff]
          intro hoffset
          rw [← hoffset]
      liveNodup := hnodup
      blocks := h.blocks.sublist (hp.sublist.append filter_sublist)
      fresh := fun b hb => by
        rw [hall.nextBlock]
        exact h.fresh b ((hp.sublist.append filter_sublist).subset hb) }
  · exact hlive
  · intro z hz
    obtain ⟨hz, hmarked⟩ := (hlive z).mp hz
    exact hall.kept z ((live_iff h).mp hz) hmarked
  · refine ⟨_, hall.finalized, (nodup_allObjects h).filter _, fun z => ?_⟩
    rw [mem_filter, ← live_iff h, Bool.not_eq_true']
  · exact hpageIff
  · exact hlargeIff
  · intro z hz hmarked hmem
    have hpage := hsub hmem
    rcases (h.live z).mp hz with ⟨-, y, hy, hoffset, hkind⟩ | ⟨hlarge, -⟩
    · have hz : (⟨z.block, y.start⟩ : Address) = z := by
        cases z
        exact congrArg _ hoffset
      have hkeep : keep s.memory z.block y = false := by
        rw [keep, hz, hmarked, Bool.and_false]
      have hdescribed := h.laid.described _ hpage y hy
      rw [Described, hkind] at hdescribed
      have hjoin : ∃ x ∈ sweptLayout a s.memory z.block (layout z.block),
          x.kind = .free ∧ y.Within x :=
        mem_join_of_not_keep (h.laid.tile _ hpage) (fun s hs => by cases hs) hy hkeep
      obtain ⟨x, hx, hfree, hwithin⟩ := hjoin
      have hx : x ∈ layout' z.block := by
        rw [hp.new _ hmem]
        exact hx
      have hstop : y.start + y.size = y.stop :=
        Nat.add_sub_cancel' (Nat.le_of_lt ((h.laid.tile _ hpage).mem hy).2.1)
      refine ⟨x, hx, hfree, hoffset ▸ hwithin.1, ?_, fun hsize => ?_⟩
      · rw [← hz, hdescribed.1]
        exact hstop ▸ hwithin.2
      · show _ ∈ u.freeList.heads _
        rw [hlist]
        exact hp.available _ hmem x hx hfree hsize
    · exact absurd rfl (hdisjoint _ hpage _ hlarge)
  · have hgoneLarge : ∀ b, b ∈ (s.largeObjects.filter fun b => !(t.memory ⟨b, 0⟩).marked) ↔
        b ∈ s.largeObjects ∧ (s.memory ⟨b, 0⟩).marked = false := by
      intro b
      rw [mem_filter, Bool.not_eq_true']
      exact and_congr_right fun hb => by rw [hsame b hb]
    refine ⟨_, hall.returned, List.nodup_append.mpr ⟨hp.goneNodup, hlargeNodup.filter _, ?_⟩,
      fun b => ?_⟩
    · intro p hgone b hb
      exact hdisjoint p ((hp.mem_gone p).mp hgone).1 b ((hgoneLarge b).mp hb).1
    · show _ ↔ b ∉ surviving ++ List.filter _ _ ∧ _
      rw [mem_append, hp.mem_gone, hgoneLarge, mem_append, hlargeIff, not_or, not_and,
        Bool.not_eq_true]
      constructor
      · rintro (⟨hb, hnone, hsandboxed⟩ | ⟨hb, hmarked⟩)
        · exact ⟨⟨hnone, fun hb' => absurd rfl (hdisjoint b hb b hb')⟩, .inl ⟨hb, hsandboxed⟩⟩
        · exact ⟨⟨fun hb' => absurd rfl (hdisjoint b (hsub hb') b hb), fun _ => hmarked⟩, .inr hb⟩
      · rintro ⟨⟨hnone, hmarked⟩, ⟨hb, hsandboxed⟩ | hb⟩
        · exact .inl ⟨hb, hnone, hsandboxed⟩
        · exact .inr ⟨hb, hmarked hb⟩

/-- **A sweep** of a well-formed heap ends, and cleans it. -/
theorem sweep_eq (h : Formatted a s layout) : ∃ t layout', s.sweep a = some t ∧
    t.sandboxed = s.sandboxed ∧ Cleaned a s t layout' := by
  obtain ⟨flushed, hflush, -⟩ := formatted_flush h
  obtain ⟨hpages, hlarge, -, hlive, hfinalized, hsandboxed, hreturned⟩ := flush_members (a := a) s
  have hmemory := fun {z} hz => memory_flush (a := a) (z := z) h hz
  obtain ⟨surviving, t, large, u, layout', hsweep, hsweepLarge, hkept, hclean⟩ :=
    sweep_flushed hflush rfl
  refine ⟨{ u with normalPages := surviving, largeObjects := large }, layout', ?_,
    hkept.trans hsandboxed, ?_⟩
  · show (Space.sweepNormalPages a _ _).bind _ = _
    rw [hsweep]
    show some { (t.sweepLargeObjects t.largeObjects).2 with
      normalPages := surviving
      largeObjects := (t.sweepLargeObjects t.largeObjects).1 } = _
    rw [hsweepLarge]
  · constructor
    · exact hclean.formatted
    · intro z
      rw [hclean.live, hlive]
      exact and_congr_right fun hz => by rw [hmemory hz]
    · intro z hz
      have hz' := ((hclean.live z).mp hz).1
      rw [hlive] at hz'
      rw [hclean.memory z hz, hmemory hz']
    · obtain ⟨dead, hdead, hnodup, hiff⟩ := hclean.finalized
      refine ⟨dead, hfinalized ▸ hdead, hnodup, fun z => ?_⟩
      rw [hiff, hlive]
      exact and_congr_right fun hz => by rw [hmemory hz]
    · intro p
      rw [hclean.normalPages, hpages, hlive]
      exact and_congr_right fun _ => exists_congr fun z =>
        and_congr_right fun hz => by rw [hmemory hz]
    · intro b
      rw [hclean.largeObjects, hlarge]
      refine and_congr_right fun hb => ?_
      rw [hmemory ((h.live _).mpr (.inr ⟨hb, rfl⟩))]
    · intro z hz hmarked hpage
      obtain ⟨x, hx, hfree, hstart, hstop, hlist⟩ := hclean.freed z (hlive ▸ hz)
        (by rw [hmemory hz]; exact hmarked) hpage
      exact ⟨x, hx, hfree, hstart, hmemory hz ▸ hstop, hlist⟩
    · obtain ⟨gone, hgone, hnodup, hiff⟩ := hclean.returned
      refine ⟨gone, hreturned ▸ hgone, hnodup, fun b => ?_⟩
      rw [hiff, hpages, hlarge, hsandboxed]

end Heap

end Voodoo.Cppgc
