import Voodoo.Whp.Signals

/-!
# What the functions leave alone

The handle table stays well formed under every change the functions of the core
make to it (`Table.alloc`, `Table.free`, `Table.setObj`, `Table.collected`), and
every trap stays listed (`Sound`).

Most functions are about objects that have no signals and are no traps: messages,
shared buffers and platform handles.  What they leave alone is said once
(`Silent`), and with it they drop out of every proof about pipes and traps.
-/

namespace Voodoo.Whp

open List Option

/-- The object has no signals and is no trap. -/
def Obj.silent : Obj → Bool
  | .message _ | .sharedBuffer _ | .platform _ => true
  | _ => false

/-- The state of a pipe it belongs to is one of the first. -/
def Obj.Numbered (pipes dataPipes : Nat) : Obj → Prop
  | .messagePipe e => e.state < pipes
  | .dataPipeProducer i | .dataPipeConsumer i => i < dataPipes
  | _ => True

theorem Obj.Numbered.mono {o : Obj} {p q p' q' : Nat} (h : o.Numbered p q) (hp : p ≤ p')
    (hq : q ≤ q') : o.Numbered p' q' := by
  cases o with
  | messagePipe e => exact Nat.lt_of_lt_of_le h hp
  | dataPipeProducer i => exact Nat.lt_of_lt_of_le h hq
  | dataPipeConsumer i => exact Nat.lt_of_lt_of_le h hq
  | _ => trivial

theorem Obj.numbered_of_silent {o : Obj} (h : o.silent = true) (p q : Nat) : o.Numbered p q := by
  cases o with
  | message _ | sharedBuffer _ | platform _ => trivial
  | messagePipe _ | trap _ | dataPipeProducer _ | dataPipeConsumer _ => cases h

namespace Core

variable {c c' c'' : Core} {h g : Handle} {o obj : Obj}

/-! ### The handle table -/

theorem Table.congr (ht : c.Table) (hlen : c'.slots.length = c.slots.length)
    (hfree : c'.freeList = c.freeList) (hnone : ∀ h, c'.lookup h = none ↔ c.lookup h = none) :
    c'.Table where
  length_pos := hlen ▸ ht.length_pos
  nodup := hfree ▸ ht.nodup
  mem_iff h := by rw [hfree, hlen, hnone]; exact ht.mem_iff h

theorem Table.not_mem_of_lookup (ht : c.Table) (hlive : c.lookup h = some o) : h ∉ c.freeList := by
  intro hmem
  rw [((ht.mem_iff h).mp hmem).2.2] at hlive
  cases hlive

theorem Table.nextHandle_ne (ht : c.Table) (hlive : c.lookup h = some o) : h ≠ c.nextHandle := by
  rintro rfl
  rw [ht.nextHandle_free] at hlive
  cases hlive

theorem Table.alloc (ht : c.Table) (obj : Obj) : (c.alloc obj).Table := by
  have hlookup := fun g => ht.lookup_alloc obj g
  cases hf : c.freeList with
  | nil =>
    have halloc : c.alloc obj =
        { c with slots := c.slots ++ [⟨some obj, c.nextSerial⟩], nextSerial := c.nextSerial + 1 } := by
      rw [Core.alloc, hf]
    have hnext : c.nextHandle = c.slots.length := by rw [nextHandle, hf, headD_nil]
    have hlen : (c.alloc obj).slots.length = c.slots.length + 1 := by
      rw [halloc]
      exact length_append
    refine ⟨hlen ▸ Nat.succ_pos _, by rw [halloc]; exact ht.nodup, fun h => ?_⟩
    rw [hlen, hlookup, hnext, show (c.alloc obj).freeList = [] from by rw [halloc]; exact hf]
    refine ⟨nofun, fun ⟨hpos, hlt, hnone⟩ => ?_⟩
    split at hnone
    · cases hnone
    · rename_i hne
      have hlt' : h < c.slots.length := Nat.lt_of_le_of_ne (Nat.le_of_lt_succ hlt) hne
      have hmem := (ht.mem_iff h).mpr ⟨hpos, hlt', hnone⟩
      rwa [hf] at hmem
  | cons h₀ rest =>
    have halloc : c.alloc obj =
        { c with
          freeList := rest
          slots := c.slots.set h₀ ⟨some obj, c.nextSerial⟩
          nextSerial := c.nextSerial + 1 } := by
      rw [Core.alloc, hf]
    have hnext : c.nextHandle = h₀ := by rw [nextHandle, hf, headD_cons]
    have hlen : (c.alloc obj).slots.length = c.slots.length := by
      rw [halloc]
      exact length_set
    have hfree : (c.alloc obj).freeList = rest := by rw [halloc]
    have hnodup : h₀ ∉ rest ∧ rest.Nodup := nodup_cons.mp (hf ▸ ht.nodup)
    refine ⟨hlen ▸ ht.length_pos, hfree ▸ hnodup.2, fun h => ?_⟩
    rw [hfree, hlen, hlookup, hnext]
    by_cases hh : h = h₀
    · rw [if_pos hh, hh]
      exact ⟨fun hmem => absurd hmem hnodup.1, fun ⟨_, _, hnone⟩ => nomatch hnone⟩
    · rw [if_neg hh, ← ht.mem_iff, hf, mem_cons, or_iff_right hh]

/-- The two numbers that two calls of `Alloc` give out. -/
def nextHandles (c : Core) : Handle × Handle :=
  match c.freeList with
  | [] => (c.slots.length, c.slots.length + 1)
  | [h] => (h, c.slots.length)
  | h :: h' :: _ => (h, h')

theorem nextHandles_fst (c : Core) : c.nextHandles.1 = c.nextHandle := by
  rcases hf : c.freeList with _ | ⟨h, _ | ⟨h', rest⟩⟩ <;> simp [nextHandles, nextHandle, hf]

theorem nextHandle_alloc (c : Core) (obj : Obj) : (c.alloc obj).nextHandle = c.nextHandles.2 := by
  rcases hf : c.freeList with _ | ⟨h, _ | ⟨h', rest⟩⟩ <;>
    simp [nextHandles, nextHandle, Core.alloc, hf]

theorem Table.lookup_nextHandles (ht : c.Table) :
    c.lookup c.nextHandles.1 = none ∧ c.lookup c.nextHandles.2 = none ∧
      c.nextHandles.1 ≠ c.nextHandles.2 := by
  have hsnd := (ht.alloc (.message {})).nextHandle_free
  rw [nextHandle_alloc, ht.lookup_alloc, ← nextHandles_fst] at hsnd
  split at hsnd
  · cases hsnd
  · rename_i hne
    exact ⟨nextHandles_fst c ▸ ht.nextHandle_free, hsnd, Ne.symm hne⟩

theorem Table.lookup_alloc_alloc (ht : c.Table) (o obj : Obj) (g : Handle) :
    ((c.alloc o).alloc obj).lookup g =
      if g = c.nextHandles.2 then some obj
      else if g = c.nextHandles.1 then some o else c.lookup g := by
  rw [(ht.alloc o).lookup_alloc, nextHandle_alloc, ht.lookup_alloc, nextHandles_fst]

theorem Table.free (ht : c.Table) (hlive : c.lookup h = some o) : (c.free h).Table := by
  have h0 := ne_zero_of_lookup hlive
  have hlt := lt_length_of_lookup hlive
  have hfree : c.free h =
      { c with
        slots := c.slots.modify h (fun s => { s with obj := none })
        freeList := h :: c.freeList } := by
    rw [Core.free, if_neg (not_or.mpr ⟨h0, Nat.not_le.mpr hlt⟩)]
  have hlen : (c.free h).slots.length = c.slots.length := by
    rw [hfree]
    exact length_modify ..
  have hlist : (c.free h).freeList = h :: c.freeList := by rw [hfree]
  refine ⟨hlen ▸ ht.length_pos, ?_, fun g => ?_⟩
  · rw [hlist]
    exact nodup_cons.mpr ⟨ht.not_mem_of_lookup hlive, ht.nodup⟩
  · rw [hlist, hlen, lookup_free, mem_cons, ht.mem_iff]
    by_cases hg : g = h
    · rw [if_pos hg, hg]
      exact ⟨fun _ => ⟨Nat.pos_of_ne_zero h0, hlt, rfl⟩, fun _ => Or.inl rfl⟩
    · rw [if_neg hg, or_iff_right hg]

theorem Table.setObj (ht : c.Table) (hlive : c.lookup h = some o) (obj : Obj) :
    (c.setObj h obj).Table := by
  refine ht.congr (length_modify ..) rfl fun g => ?_
  rw [lookup_setObj hlive]
  split
  · rename_i hg
    rw [hg, hlive]
    exact ⟨nofun, nofun⟩
  · rfl

theorem Table.collected (ht : c.Table) (hc : Collected c c') : c'.Table := by
  obtain ⟨slots, events, hc', hlen, -⟩ := hc.rest
  refine ht.congr (by rw [hc']; exact hlen) (by rw [hc']) fun h => ?_
  rcases hc.obj h with heq | ⟨t, hold, hnew⟩
  · rw [heq]
  · rw [hold, hnew]
    exact ⟨nofun, nofun⟩

/-! ### Serial numbers -/

theorem serial_free (c : Core) (h : Handle) : (c.free h).serial = c.serial := by
  unfold free
  split
  · rfl
  · funext g
    unfold serial
    dsimp only
    by_cases hg : h = g
    · rw [hg, getElem?_modify_eq]
      cases c.slots[g]? with
      | none => rfl
      | some slot => rfl
    · rw [getElem?_modify_ne _ _ hg]

theorem Table.serial_alloc (ht : c.Table) (g : Handle) :
    (c.alloc obj).serial g = if g = c.nextHandle then c.nextSerial else c.serial g := by
  unfold Core.alloc nextHandle serial
  cases hf : c.freeList with
  | nil =>
    rw [headD_nil]
    dsimp only
    by_cases hg : g = c.slots.length
    · rw [if_pos hg, hg, getElem?_concat_length]
      rfl
    · rw [if_neg hg]
      rcases Nat.lt_or_gt_of_ne hg with hlt | hgt
      · rw [getElem?_append_left hlt]
      · rw [getElem?_eq_none (Nat.le_of_lt hgt), getElem?_eq_none (by
          rw [length_append]
          exact hgt)]
  | cons h₀ rest =>
    obtain ⟨-, hlt, -⟩ := (ht.mem_iff h₀).mp (by rw [hf]; exact mem_cons_self)
    rw [headD_cons]
    dsimp only
    by_cases hg : g = h₀
    · rw [if_pos hg, hg, getElem?_set_self hlt]
      rfl
    · rw [if_neg hg, getElem?_set_ne (Ne.symm hg)]

/-! ### What holds of every core -/

/-- The table is well formed, every trap is in the list of traps, and every end of a pipe has a
state. -/
structure Sound (c : Core) : Prop where
  table : c.Table
  listed : ∀ h t, c.lookup h = some (.trap t) → h ∈ c.traps
  numbered : ∀ h o, c.lookup h = some o → o.Numbered c.pipeCount c.dataPipeCount

namespace Sound

theorem more (hs : c.Sound) (hslots : c'.slots = c.slots) (hfree : c'.freeList = c.freeList)
    (htraps : c'.traps = c.traps) (hpipes : c.pipeCount ≤ c'.pipeCount)
    (hdata : c.dataPipeCount ≤ c'.dataPipeCount) : c'.Sound where
  table := hs.table.congr (by rw [hslots]) hfree fun h => by rw [lookup, lookup, hslots]
  listed h t ht := by
    rw [lookup, hslots] at ht
    exact htraps ▸ hs.listed h t ht
  numbered h o ho := by
    rw [lookup, hslots] at ho
    exact (hs.numbered h o ho).mono hpipes hdata

theorem same (hs : c.Sound) (hslots : c'.slots = c.slots) (hfree : c'.freeList = c.freeList)
    (htraps : c'.traps = c.traps) (hpipes : c'.pipeCount = c.pipeCount)
    (hdata : c'.dataPipeCount = c.dataPipeCount) : c'.Sound :=
  hs.more hslots hfree htraps (Nat.le_of_eq hpipes.symm) (Nat.le_of_eq hdata.symm)

theorem alloc (hs : c.Sound) (hobj : ∀ t, obj ≠ .trap t)
    (hnum : obj.Numbered c.pipeCount c.dataPipeCount) : (c.alloc obj).Sound where
  table := hs.table.alloc obj
  listed h t ht := by
    rw [hs.table.lookup_alloc] at ht
    split at ht
    · exact absurd (some.inj ht) (hobj t)
    · exact (alloc_traps c obj).symm ▸ hs.listed h t ht
  numbered h o ho := by
    rw [alloc_pipeCount, alloc_dataPipeCount]
    rw [hs.table.lookup_alloc] at ho
    split at ho
    · exact some.inj ho ▸ hnum
    · exact hs.numbered h o ho

theorem alloc_alloc (hs : c.Sound) (ho : ∀ t, o ≠ .trap t) (hobj : ∀ t, obj ≠ .trap t)
    (hnum : o.Numbered c.pipeCount c.dataPipeCount)
    (hnum' : obj.Numbered c.pipeCount c.dataPipeCount) : ((c.alloc o).alloc obj).Sound :=
  (hs.alloc ho hnum).alloc hobj (by rw [alloc_pipeCount, alloc_dataPipeCount]; exact hnum')

theorem free (hs : c.Sound) (hlive : c.lookup h = some o) : (c.free h).Sound where
  table := hs.table.free hlive
  listed g t ht := by
    rw [lookup_free] at ht
    split at ht
    · cases ht
    · exact (free_traps c h).symm ▸ hs.listed g t ht
  numbered g o ho := by
    rw [free_pipeCount, free_dataPipeCount]
    rw [lookup_free] at ho
    split at ho
    · cases ho
    · exact hs.numbered g o ho

theorem setObj (hs : c.Sound) (hlive : c.lookup h = some o)
    (hobj : ∀ t, obj = .trap t → ∃ t', o = .trap t')
    (hnum : obj.Numbered c.pipeCount c.dataPipeCount) : (c.setObj h obj).Sound where
  table := hs.table.setObj hlive obj
  listed g t ht := by
    rw [lookup_setObj hlive] at ht
    split at ht
    · rename_i hg
      obtain ⟨t', rfl⟩ := hobj t (some.inj ht)
      exact hg ▸ hs.listed h t' hlive
    · exact hs.listed g t ht
  numbered g o' ho := by
    rw [lookup_setObj hlive] at ho
    split at ho
    · exact some.inj ho ▸ hnum
    · exact hs.numbered g o' ho

theorem collected (hs : c.Sound) (hc : Collected c c') : c'.Sound where
  table := hs.table.collected hc
  listed h t ht := by
    obtain ⟨slots, events, hc', -⟩ := hc.rest
    obtain ⟨t', ht', -⟩ := hc.of_trap ht
    rw [hc']
    exact hs.listed h t' ht'
  numbered h o ho := by
    obtain ⟨slots, events, hc', -⟩ := hc.rest
    rcases hc.obj h with heq | ⟨t, -, hnew⟩
    · rw [heq] at ho
      rw [hc']
      exact hs.numbered h o ho
    · rw [hnew] at ho
      rw [← some.inj ho]
      trivial

theorem collectTrapEvents (hs : c.Sound) : c.collectTrapEvents.Sound :=
  hs.collected (collected_collectTrapEvents c)

theorem quiet_collectTrapEvents (hs : c.Sound) : c.collectTrapEvents.Quiet := by
  intro th t ht
  obtain ⟨t', ht', -⟩ := (collected_collectTrapEvents c).of_trap ht
  exact quietAt_collectTrapEvents (hs.listed th t' ht') t ht

end Sound

/-! ### Objects without signals -/

/-- Only objects that have no signals and are no traps come, go or change. -/
structure Silent (c c' : Core) : Prop where
  sound : c'.Sound
  lookup : ∀ h o, o.silent = false → (c'.lookup h = some o ↔ c.lookup h = some o)
  serial : ∀ h o, o.silent = false → c.lookup h = some o → c'.serial h = c.serial h
  pipes : c'.pipes = c.pipes
  pipeCount : c'.pipeCount = c.pipeCount
  dataPipes : c'.dataPipes = c.dataPipes
  pendingEvents : c'.pendingEvents = c.pendingEvents

namespace Silent

protected theorem refl (hs : c.Sound) : Silent c c :=
  ⟨hs, fun _ _ _ => Iff.rfl, fun _ _ _ _ => rfl, rfl, rfl, rfl, rfl⟩

protected theorem trans (h₁ : Silent c c') (h₂ : Silent c' c'') : Silent c c'' where
  sound := h₂.sound
  lookup h o ho := (h₂.lookup h o ho).trans (h₁.lookup h o ho)
  serial h o ho hlive :=
    (h₂.serial h o ho ((h₁.lookup h o ho).mpr hlive)).trans (h₁.serial h o ho hlive)
  pipes := h₂.pipes.trans h₁.pipes
  pipeCount := h₂.pipeCount.trans h₁.pipeCount
  dataPipes := h₂.dataPipes.trans h₁.dataPipes
  pendingEvents := h₂.pendingEvents.trans h₁.pendingEvents

theorem alloc (hs : c.Sound) (hobj : obj.silent = true) : Silent c (c.alloc obj) where
  sound := hs.alloc (by rintro t rfl; cases hobj) (Obj.numbered_of_silent hobj _ _)
  lookup h o ho := by
    rw [hs.table.lookup_alloc]
    split
    · rename_i hh
      rw [hh, hs.table.nextHandle_free]
      exact ⟨fun heq => absurd (some.inj heq ▸ hobj) (by rw [ho]; decide), nofun⟩
    · rfl
  serial h o ho hlive := by rw [hs.table.serial_alloc, if_neg (hs.table.nextHandle_ne hlive)]
  pipes := alloc_pipes ..
  pipeCount := alloc_pipeCount ..
  dataPipes := alloc_dataPipes ..
  pendingEvents := alloc_pendingEvents ..

theorem free (hs : c.Sound) (hlive : c.lookup h = some obj) (hobj : obj.silent = true) :
    Silent c (c.free h) where
  sound := hs.free hlive
  lookup g o ho := by
    rw [lookup_free]
    split
    · rename_i hg
      rw [hg, hlive]
      exact ⟨nofun, fun heq => absurd (some.inj heq ▸ hobj) (by rw [ho]; decide)⟩
    · rfl
  serial _ _ _ _ := by rw [serial_free]
  pipes := free_pipes ..
  pipeCount := free_pipeCount ..
  dataPipes := free_dataPipes ..
  pendingEvents := free_pendingEvents ..

theorem setObj (hs : c.Sound) (hlive : c.lookup h = some o) (ho : o.silent = true)
    (hobj : obj.silent = true) : Silent c (c.setObj h obj) where
  sound := hs.setObj hlive (by rintro t rfl; cases hobj) (Obj.numbered_of_silent hobj _ _)
  lookup g o' ho' := by
    rw [lookup_setObj hlive]
    split
    · rename_i hg
      rw [hg, hlive]
      exact ⟨fun heq => absurd (some.inj heq ▸ hobj) (by rw [ho']; decide),
        fun heq => absurd (some.inj heq ▸ ho) (by rw [ho']; decide)⟩
    · rfl
  serial _ _ _ _ := by rw [serial_setObj]
  pipes := rfl
  pipeCount := rfl
  dataPipes := rfl
  pendingEvents := rfl

end Silent

end Core

end Voodoo.Whp
