import Voodoo.Whp.Mapping

/-!
# The lifetime of a mapping

The table of mappings is keyed by the address that was returned, and an entry counts the mappings
there, whichever buffer they are of: it keeps the buffer of the last one only.  Two buffers share
an address where one begins at the end of the other, since the end of a buffer may be mapped with
length zero.  `Tracked` notes the mappings that were handed out and not taken back.

* `alive_of_reaches`: if no address is handed out for one buffer while a mapping of another is left
  there, a buffer lives as long as a handle or a mapping is left, and each mapping ends by itself;
* `not_alive_adjacent`: two adjacent buffers.
-/

namespace Voodoo.Whp

open Option

/-- The memory, with the mappings that are left: the address and the buffer of each. -/
structure Tracked where
  memory : Memory := {}
  mappings : List (Nat × Nat) := []

namespace Tracked

variable {t : Tracked} {op : MemOp} {i p : Nat}

/-- The mappings that are left once the operation has been answered. -/
def noted (t : Tracked) (op : MemOp) (reply : Reply) : List (Nat × Nat) :=
  if reply.result = .ok then
    match op with
    | .mapBuffer b _ _ _ =>
      match t.memory.core.lookup b, reply.counts with
      | some (.sharedBuffer i), [p] => (p, i) :: t.mappings
      | _, _ => t.mappings
    | .unmapBuffer p => t.mappings.eraseP (·.1 = p)
    | _ => t.mappings
  else t.mappings

def step (t : Tracked) (op : MemOp) : Tracked where
  memory := t.memory.step op
  mappings := t.noted op (t.memory.perform op).1

/-- How many mappings are left at an address. -/
def count (t : Tracked) (p : Nat) : Nat := t.mappings.countP (·.1 = p)

/-- What the code relies on when it maps: the mappings left at the address are of the same buffer,
and an `int` can count them and one more. -/
def Unshared (t : Tracked) : MemOp → Prop
  | .mapBuffer b offset _ system =>
    ∀ i m, t.memory.core.lookup b = some (.sharedBuffer i) →
      t.memory.ensureMapped i system = some m →
      (∀ j, ((m.base i + offset.toNat) % 2 ^ 64, j) ∈ t.mappings → j = i) ∧
        t.count ((m.base i + offset.toNat) % 2 ^ 64) + 1 < 2 ^ 31
  | _ => True

/-- Exactly those buffers have ended to which neither a handle nor a mapping is left, each once,
and a mapping can be ended exactly where one is left. -/
structure Alive (t : Tracked) : Prop where
  ended : ∀ i < t.memory.core.bufferCount, i ∈ t.memory.destroyed ↔
    (∀ h, t.memory.core.lookup h ≠ some (.sharedBuffer i)) ∧ ∀ p, (p, i) ∉ t.mappings
  once : t.memory.destroyed.Nodup
  unmaps : ∀ p, (t.memory.unmapBuffer p).1.result = .ok ↔ ∃ i, (p, i) ∈ t.mappings

/-- Each entry of the table counts the mappings left at its address, and is of their buffer. -/
structure Counts (t : Tracked) : Prop where
  of_none : ∀ p, t.memory.maps.lookup p = none → t.count p = 0
  of_some : ∀ p r, t.memory.maps.lookup p = some r →
    r.refs.toInt = t.count p ∧ 0 < t.count p ∧ ∀ j, (p, j) ∈ t.mappings → j = r.buf

theorem count_pos_iff : 0 < t.count p ↔ ∃ i, (p, i) ∈ t.mappings := by
  rw [count, List.countP_pos_iff]
  constructor
  · rintro ⟨⟨q, i⟩, hmem, hq⟩
    exact ⟨i, of_decide_eq_true hq ▸ hmem⟩
  · rintro ⟨i, hmem⟩
    exact ⟨(p, i), hmem, decide_eq_true rfl⟩

theorem count_cons (mappings : List (Nat × Nat)) (p i q : Nat) :
    ((p, i) :: mappings).countP (·.1 = q) =
      mappings.countP (·.1 = q) + if q = p then 1 else 0 := by
  rw [List.countP_cons]
  by_cases hq : q = p
  · rw [if_pos hq, if_pos (decide_eq_true hq.symm)]
  · rw [if_neg hq, if_neg (fun h => hq (of_decide_eq_true h).symm)]

theorem count_eraseP (mappings : List (Nat × Nat)) (p q : Nat) :
    (mappings.eraseP (·.1 = p)).countP (·.1 = q) =
      mappings.countP (·.1 = q) - if q = p then 1 else 0 := by
  induction mappings with
  | nil => exact (Nat.zero_sub _).symm
  | cons e mappings ih =>
    obtain ⟨a, i⟩ := e
    rw [count_cons]
    by_cases ha : a = p
    · rw [List.eraseP_cons_of_pos (by simpa using ha), ha, Nat.add_sub_cancel]
    · rw [List.eraseP_cons_of_neg (by simpa using ha), count_cons, ih]
      by_cases hq : q = p
      · rw [if_pos hq, if_neg (fun h => ha (h.symm.trans hq))]
        rfl
      · rw [if_neg hq]
        rfl

/-! ### The entries -/

/-- What an entry holds when its buffer is mapped. -/
def entered (m : Memory) (p i : Nat) : MappedRegion :=
  match m.maps.lookup p with
  | none => ⟨i, 0 + 1⟩
  | some r => ⟨i, r.refs + 1⟩

theorem lookup_enter (m : Memory) (p i q : Nat) :
    (m.enter p i).2.maps.lookup q = if q = p then some (entered m p i) else m.maps.lookup q := by
  unfold Memory.enter entered
  cases hp : m.maps.lookup p with
  | none => exact Memory.lookup_cons ..
  | some r =>
    dsimp only
    rw [Memory.drop_maps]
    exact Memory.lookup_put ..

theorem toInt_succ {x : Int32} {n : Nat} (hx : x.toInt = n) (hn : n + 1 < 2 ^ 31) :
    (x + 1).toInt = (n + 1 : Nat) := by
  rw [Int32.toInt_add, hx, Int32.toInt_one, Int.bmod_eq_of_le (by omega) (by omega)]
  omega

/-- A mapping more, of the buffer the others at the address are of. -/
theorem Counts.enter {m : Memory} {t' : Tracked} (hc : t.Counts) (hm : m.maps = t.memory.maps)
    (hsame : ∀ j, (p, j) ∈ t.mappings → j = i) (hroom : t.count p + 1 < 2 ^ 31)
    (hmaps : t'.memory.maps = (m.enter p i).2.maps)
    (hmappings : t'.mappings = (p, i) :: t.mappings) :
    t'.Counts := by
  have hlookup (q : Nat) : t'.memory.maps.lookup q =
      if q = p then some (entered m p i) else t.memory.maps.lookup q := by
    rw [hmaps, lookup_enter, hm]
  have hcount (q : Nat) : t'.count q = t.count q + if q = p then 1 else 0 := by
    rw [count, hmappings, count_cons, count]
  refine ⟨fun q hq => ?_, fun q r hr => ?_⟩
  · rw [hlookup] at hq
    by_cases hqp : q = p
    · rw [if_pos hqp] at hq
      cases hq
    · rw [if_neg hqp] at hq
      rw [hcount, if_neg hqp, hc.of_none q hq]
  · rw [hlookup] at hr
    rw [hcount, hmappings]
    by_cases hqp : q = p
    · subst hqp
      rw [if_pos rfl] at hr ⊢
      obtain rfl := some.inj hr
      refine ⟨?_, Nat.succ_pos _, fun j hj => ?_⟩
      · unfold entered
        rw [hm]
        cases hq : t.memory.maps.lookup q with
        | none =>
          rw [hc.of_none q hq]
          rfl
        | some r => exact toInt_succ (hc.of_some q r hq).1 hroom
      · have hbuf : (entered m q i).buf = i := by
          unfold entered
          split <;> rfl
        rw [hbuf]
        rcases List.mem_cons.mp hj with heq | hmem
        · exact (Prod.mk.inj heq).2
        · exact hsame j hmem
    · rw [if_neg hqp] at hr ⊢
      obtain ⟨hrefs, hpos, hbuf⟩ := hc.of_some q r hr
      refine ⟨hrefs, hpos, fun j hj => ?_⟩
      rcases List.mem_cons.mp hj with heq | hmem
      · exact absurd (Prod.mk.inj heq).1 hqp
      · exact hbuf j hmem

theorem Counts.congr {t' : Tracked} (hc : t.Counts) (hmaps : t'.memory.maps = t.memory.maps)
    (hmappings : t'.mappings = t.mappings) : t'.Counts := by
  refine ⟨fun p hp => ?_, fun p r hr => ?_⟩
  · rw [count, hmappings]
    exact hc.of_none p (hmaps ▸ hp)
  · rw [count, hmappings]
    exact hc.of_some p r (hmaps ▸ hr)

/-- A mapping less. -/
theorem Counts.erase {t' : Tracked} {r : MappedRegion} (hc : t.Counts)
    (hr : t.memory.maps.lookup p = some r)
    (hmaps : ∀ q, t'.memory.maps.lookup q =
      if q = p then (if r.refs - 1 = 0 then none else some { r with refs := r.refs - 1 })
      else t.memory.maps.lookup q)
    (hmappings : t'.mappings = t.mappings.eraseP (·.1 = p)) : t'.Counts := by
  have hcount (q : Nat) : t'.count q = t.count q - if q = p then 1 else 0 := by
    rw [count, hmappings, count_eraseP, count]
  have hsub {e : Nat × Nat} (he : e ∈ t'.mappings) : e ∈ t.mappings :=
    List.mem_of_mem_eraseP (hmappings ▸ he)
  obtain ⟨hrefs, hpos, hbuf⟩ := hc.of_some p r hr
  have hone : (1 : Int32) ≤ r.refs := Int32.le_iff_toInt_le.mpr (by rw [Int32.toInt_one]; omega)
  have hpred : (r.refs - 1).toInt = (t.count p - 1 : Nat) := by
    rw [Int32.toInt_sub_of_le _ _ (by decide) hone, hrefs, Int32.toInt_one]
    omega
  have hzero : r.refs - 1 = 0 ↔ t.count p = 1 := by
    rw [← Int32.toInt_inj, hpred, Int32.toInt_zero]
    omega
  refine ⟨fun q hq => ?_, fun q r' hr' => ?_⟩
  · rw [hmaps] at hq
    rw [hcount]
    by_cases hqp : q = p
    · subst hqp
      rw [if_pos rfl] at hq ⊢
      by_cases hz : r.refs - 1 = 0
      · rw [hzero.mp hz]
      · rw [if_neg hz] at hq
        cases hq
    · rw [if_neg hqp] at hq ⊢
      exact hc.of_none q hq
  · rw [hmaps] at hr'
    rw [hcount]
    by_cases hqp : q = p
    · subst hqp
      rw [if_pos rfl] at hr' ⊢
      by_cases hz : r.refs - 1 = 0
      · rw [if_pos hz] at hr'
        cases hr'
      · rw [if_neg hz] at hr'
        obtain rfl := some.inj hr'
        have hne := mt hzero.mpr hz
        exact ⟨hpred, by omega, fun j hj => hbuf j (hsub hj)⟩
    · rw [if_neg hqp] at hr' ⊢
      obtain ⟨hrefs', hpos', hbuf'⟩ := hc.of_some q r' hr'
      exact ⟨hrefs', hpos', fun j hj => hbuf' j (hsub hj)⟩

theorem maps_close (m : Memory) (h : Handle) : (m.close h).2.maps = m.maps := by
  unfold Memory.close
  dsimp only
  split
  · exact Memory.drop_maps ..
  · rfl

theorem maps_unwrapPlatformSharedMemoryRegion (m : Memory) (h : Handle) (room : Nat)
    (wanted : Bool) : (m.unwrapPlatformSharedMemoryRegion h room wanted).2.maps = m.maps := by
  unfold Memory.unwrapPlatformSharedMemoryRegion
  dsimp only
  split
  · split
    · exact Memory.drop_maps ..
    · rfl
  · rfl

theorem maps_wrapPlatformSharedMemoryRegion (m : Memory) (ns : List (UInt32 × Nat)) (n : UInt64)
    (guid : Nat × Nat) (mode : UInt32) (system : System) :
    (m.wrapPlatformSharedMemoryRegion ns n guid mode system).2.maps = m.maps := by
  unfold Memory.wrapPlatformSharedMemoryRegion
  dsimp only
  split <;> rfl

theorem maps_createSharedBuffer (m : Memory) (n : UInt64) (system : System) :
    (m.createSharedBuffer n system).2.maps = m.maps := by
  unfold Memory.createSharedBuffer
  split <;> rfl

theorem Counts.mapBuffer (hc : t.Counts) (b : Handle) (offset n : UInt64) (system : System)
    (hok : t.Unshared (.mapBuffer b offset n system)) :
    (t.step (.mapBuffer b offset n system)).Counts := by
  rcases t.memory.mapBuffer_cases b offset n system with
    ⟨i, m₁, natives, m₂, hl, hm₁, -, henter, heq⟩ | ⟨result, hreply, hno, hm⟩
  · obtain ⟨hsame, hroom⟩ := hok i m₁ hl hm₁
    refine hc.enter (Memory.maps_ensureMapped hm₁) hsame hroom ?_ ?_
    · show (t.memory.mapBuffer b offset n system).2.maps = _
      rw [heq, henter]
    · show t.noted (.mapBuffer b offset n system) (t.memory.mapBuffer b offset n system).1 = _
      rw [heq, noted, if_pos rfl]
      dsimp only
      rw [hl]
  · refine hc.congr ?_ ?_
    · show (t.memory.mapBuffer b offset n system).2.maps = _
      rcases hm with heq | ⟨i, -, hm₁⟩
      · rw [heq]
      · exact Memory.maps_ensureMapped hm₁
    · show t.noted (.mapBuffer b offset n system) (t.memory.mapBuffer b offset n system).1 = _
      rw [hreply, noted, if_neg hno]

theorem Counts.unmapBuffer (hc : t.Counts) (p : Nat) : (t.step (.unmapBuffer p)).Counts := by
  rcases t.memory.unmapBuffer_cases p with
    ⟨r, natives, m₂, hr, -, hone, hdrop, heq⟩ | ⟨r, hr, -, hone, heq⟩ | ⟨-, heq⟩
  · refine hc.erase hr (fun q => ?_) ?_
    · show (t.memory.unmapBuffer p).2.maps.lookup q = _
      have hmaps := Memory.drop_maps { t.memory with maps := t.memory.maps.filter (·.1 ≠ p) } r.buf
      rw [hdrop] at hmaps
      rw [heq, if_pos hone]
      dsimp only at hmaps ⊢
      rw [hmaps, Memory.lookup_filter_ne]
    · show t.noted (.unmapBuffer p) (t.memory.unmapBuffer p).1 = _
      rw [heq]
      rfl
  · refine hc.erase hr (fun q => ?_) ?_
    · show (t.memory.unmapBuffer p).2.maps.lookup q = _
      rw [heq, if_neg hone]
      exact Memory.lookup_put ..
    · show t.noted (.unmapBuffer p) (t.memory.unmapBuffer p).1 = _
      rw [heq]
      rfl
  · refine hc.congr ?_ ?_
    · show (t.memory.unmapBuffer p).2.maps = _
      rw [heq]
      rfl
    · show t.noted (.unmapBuffer p) (t.memory.unmapBuffer p).1 = _
      rw [heq]
      rfl

theorem Counts.step (hc : t.Counts) (op : MemOp) (hok : t.Unshared op) : (t.step op).Counts := by
  cases op with
  | createSharedBuffer n system =>
    exact hc.congr (maps_createSharedBuffer ..) (ite_self _)
  | duplicateBufferHandle b => exact hc.congr rfl (ite_self _)
  | mapBuffer b offset n system => exact hc.mapBuffer b offset n system hok
  | unmapBuffer p => exact hc.unmapBuffer p
  | wrapPlatformHandle type value => exact hc.congr rfl (ite_self _)
  | unwrapPlatformHandle h => exact hc.congr rfl (ite_self _)
  | wrapPlatformSharedMemoryRegion ns n guid mode system =>
    exact hc.congr (maps_wrapPlatformSharedMemoryRegion ..) (ite_self _)
  | unwrapPlatformSharedMemoryRegion h room wanted =>
    exact hc.congr (maps_unwrapPlatformSharedMemoryRegion ..) (ite_self _)
  | close h => exact hc.congr (maps_close ..) (ite_self _)

/-! ### The promise -/

theorem alive_of_counts (hk : t.memory.Kept) (hc : t.Counts) : t.Alive where
  ended i hi := by
    rw [hk.settled.mem_iff, and_iff_right hi]
    constructor
    · intro hno
      refine ⟨fun h hl => hno ⟨.inl h, Core.bufferAt_eq_some.mpr hl⟩, fun p hmem => ?_⟩
      -- A mapping has its entry.
      cases hp : t.memory.maps.lookup p with
      | none => exact absurd (hc.of_none p hp) (Nat.ne_of_gt (count_pos_iff.mpr ⟨i, hmem⟩))
      | some r =>
        refine hno ⟨.inr p, ?_⟩
        show (t.memory.maps.lookup p).map _ = _
        rw [hp, map_some, ((hc.of_some p r hp).2.2 i hmem)]
    · rintro ⟨hhandles, hmappings⟩ ⟨h | p, hx⟩
      · exact hhandles h (Core.bufferAt_eq_some.mp hx)
      · obtain ⟨r, hr, hbuf⟩ := map_eq_some_iff.mp hx
        obtain ⟨-, hpos, hsame⟩ := hc.of_some p r hr
        obtain ⟨j, hj⟩ := count_pos_iff.mp hpos
        obtain rfl := (hsame j hj).trans hbuf
        exact hmappings p hj
  once := hk.settled.nodup
  unmaps p := by
    rw [← count_pos_iff]
    rcases t.memory.unmapBuffer_cases p with
      ⟨r, natives, m₂, hr, -, -, -, heq⟩ | ⟨r, hr, -, -, heq⟩ | ⟨hno, heq⟩
    · exact iff_of_true (by rw [heq]) (hc.of_some p r hr).2.1
    · exact iff_of_true (by rw [heq]) (hc.of_some p r hr).2.1
    · refine iff_of_false (by rw [heq]; nofun) fun hpos => ?_
      cases hp : t.memory.maps.lookup p with
      | none => exact absurd (hc.of_none p hp) (Nat.ne_of_gt hpos)
      | some r =>
        have hle := Int32.le_iff_toInt_le.mp (hno r hp)
        rw [(hc.of_some p r hp).1, Int32.toInt_zero] at hle
        omega

/-- **Lifetimes.**  In every run in which no address is handed out for a buffer while a mapping of
another is left there. -/
theorem alive_of_reaches (h : Machine.Reaches {} step Unshared t) : t.Alive := by
  have hinv : t.memory.Kept ∧ t.Counts := by
    refine h.invariant (I := fun t => t.memory.Kept ∧ t.Counts) ?_ ?_
    · exact ⟨Memory.kept_start, fun _ _ => rfl, nofun⟩
    · exact fun t op ht hok => ⟨ht.1.step op, ht.2.step op hok⟩
  exact alive_of_counts hinv.1 hinv.2

/-- One address, mapped twice. -/
def twice : List MemOp :=
  [.createSharedBuffer 100 { place := 64 }, .mapBuffer 1 8 16 { place := 0 },
    .mapBuffer 1 8 4 { place := 0 }]

theorem along_twice : Machine.Along step Unshared {} twice := by
  refine ⟨trivial, ?_, ?_, trivial⟩
  · intro i m hl hm
    obtain rfl : 0 = i := Obj.sharedBuffer.inj (some.inj hl)
    obtain rfl := some.inj hm
    exact ⟨nofun, by decide⟩
  · intro i m hl hm
    obtain rfl : 0 = i := Obj.sharedBuffer.inj (some.inj hl)
    obtain rfl := some.inj hm
    exact ⟨fun j hj => (Prod.mk.inj (List.mem_singleton.mp hj)).2, by decide⟩

theorem alive_twice : (twice.foldl step {}).Alive :=
  alive_of_reaches (.along .start along_twice)

/-- A buffer right behind another: the end of the first and the start of the second are mapped, and
the handle to the first is closed. -/
def adjacent : List MemOp :=
  [.createSharedBuffer 100 { place := 64 }, .createSharedBuffer 64 { place := 164 },
    .mapBuffer 1 100 0 { place := 0 }, .mapBuffer 2 0 64 { place := 0 }, .close 1]

theorem placed_adjacent : Machine.Along step (fun t op => t.memory.Placed op) {} adjacent := by
  refine ⟨fun size system hasks => ?_, fun size system hasks => ?_, nofun, nofun, nofun, trivial⟩
  · obtain ⟨rfl, rfl⟩ := Prod.mk.inj (some.inj hasks)
    exact ⟨by decide, by decide, nofun⟩
  · obtain ⟨rfl, rfl⟩ := Prod.mk.inj (some.inj hasks)
    refine ⟨by decide, by decide, fun i a n hr => ?_⟩
    by_cases hi : i = 0
    · subst hi
      obtain ⟨rfl, rfl⟩ := Prod.mk.inj (some.inj hr)
      exact Or.inr (by decide)
    · have hback : (step {} (.createSharedBuffer 100 { place := 64 })).memory.backing i = {} :=
        Function.update_of_ne hi ..
      unfold Memory.range at hr
      rw [hback] at hr
      cases hr

/-- The first buffer is destroyed, though it is still mapped. -/
theorem not_alive_adjacent :
    Machine.Reaches {} step (fun t op => t.memory.Placed op) (adjacent.foldl step {}) ∧
    (164, 0) ∈ (adjacent.foldl step {}).mappings ∧
    0 ∈ (adjacent.foldl step {}).memory.destroyed ∧ ¬ (adjacent.foldl step {}).Alive := by
  refine ⟨.along .start placed_adjacent, by decide, by decide, fun h => ?_⟩
  exact ((h.ended 0 (by decide)).mp (by decide)).2 164 (by decide)

end Tracked

end Voodoo.Whp
