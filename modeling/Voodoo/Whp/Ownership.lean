import Mathlib.Algebra.BigOperators.Group.Finset.Basic
import Voodoo.Whp.Fifo

/-!
# Who owns a handle

A handle is owned by the program that holds it, or by the message it is attached to,
which a slot or the queue of an open end holds.  A ledger beside the core notes what
the program holds (`Ledger`).  When every number that is in use has exactly one owner
(`Owned`), nothing is used after it was given away and nothing is forgotten.

The core does not look into the messages it drops: closing a message or an end, and a
write that is refused, leave what is attached in use and owned by nobody.
-/

namespace Voodoo.Whp

open List Option

namespace Core

variable {c c' : Core} {g h x : Handle} {o obj : Obj} {e : PipeEnd} {op : Op}

/-! ### What messages carry -/

/-- The handles that are attached to what the handle stands for: to the message, or to the messages
in the queue of the end. -/
def cargo (c : Core) (h : Handle) : List Handle :=
  match c.lookup h with
  | some (.message m) => m.handles
  | some (.messagePipe e) => (c.queue e).flatMap (·.handles)
  | _ => []

/-- All attached handles. -/
def carried (c : Core) : List Handle := (List.range c.slots.length).flatMap c.cargo

theorem cargo_message {m : MessageObj} (hm : c.lookup h = some (.message m)) :
    c.cargo h = m.handles := by
  rw [cargo, hm]

theorem cargo_end (he : c.IsEnd h e) : c.cargo h = (c.queue e).flatMap (·.handles) := by
  rw [cargo, he]

theorem cargo_none (hnone : c.lookup h = none) : c.cargo h = [] := by
  rw [cargo, hnone]

theorem cargo_congr (hlook : c'.lookup h = c.lookup h) (hqueue : ∀ e, c.IsEnd h e →
    c'.queue e = c.queue e) : c'.cargo h = c.cargo h := by
  rw [cargo, cargo, hlook]
  split
  · rfl
  · rename_i e he
    rw [hqueue e he]
  · rfl

theorem count_carried (c : Core) (x : Handle) {s : Finset Handle}
    (hs : ∀ h, h < c.slots.length → h ∈ s) :
    c.carried.count x = ∑ h ∈ s, (c.cargo h).count x := by
  have hrange : Finset.range c.slots.length ⊆ s := fun h hh => hs h (Finset.mem_range.mp hh)
  rw [carried, count_flatMap, ← Finset.sum_subset hrange]
  · rfl
  · intro h _ hh
    rw [cargo_none (lookup_of_length_le (Nat.le_of_not_lt (mt Finset.mem_range.mpr hh)))]
    rfl

theorem count_carried_add (s : Finset Handle) (hs : ∀ h, h ∉ s → c'.cargo h = c.cargo h)
    (x : Handle) :
    c'.carried.count x + ∑ h ∈ s, (c.cargo h).count x =
      c.carried.count x + ∑ h ∈ s, (c'.cargo h).count x := by
  have hall : ∀ d : Core, d.slots.length ≤ max c.slots.length c'.slots.length →
      ∀ h, h < d.slots.length → h ∈ Finset.range (max c.slots.length c'.slots.length) ∪ s :=
    fun d hd h hh => Finset.mem_union_left _ (Finset.mem_range.mpr (by omega))
  have hsub : s ⊆ Finset.range (max c.slots.length c'.slots.length) ∪ s :=
    Finset.subset_union_right
  have hsplit := fun f : Handle → Nat => Finset.sum_sdiff hsub (f := f)
  rw [count_carried c' x (hall c' (le_max_right _ _)), count_carried c x (hall c (le_max_left _ _)),
    ← hsplit, ← hsplit, Finset.sum_congr rfl fun h hh => by rw [hs h (Finset.mem_sdiff.mp hh).2]]
  omega

/-- `1` for a number in use. -/
def live (c : Core) (x : Handle) : Nat := if c.lookup x = none then 0 else 1

theorem live_eq_zero (hx : c.lookup x = none) : c.live x = 0 := if_pos hx

/-- Of the handles, those that are in use. -/
def keep (c : Core) (held : List Handle) : List Handle := held.filter fun x => (c.lookup x).isSome

/-- Nothing is attached, taken off, freed or given out. -/
structure Unmoved (c c' : Core) : Prop where
  cargo : ∀ h, c'.cargo h = c.cargo h
  lookup : ∀ h, c'.lookup h = none ↔ c.lookup h = none

namespace Unmoved

protected theorem refl (c : Core) : Unmoved c c := ⟨fun _ => rfl, fun _ => Iff.rfl⟩

protected theorem trans {c'' : Core} (h₁ : Unmoved c c') (h₂ : Unmoved c' c'') : Unmoved c c'' :=
  ⟨fun h => (h₂.cargo h).trans (h₁.cargo h), fun h => (h₂.lookup h).trans (h₁.lookup h)⟩

theorem same (hslots : c'.slots = c.slots) (hqueue : ∀ h e, c.IsEnd h e → c'.queue e = c.queue e) :
    Unmoved c c' := by
  have hlook : ∀ h, c'.lookup h = c.lookup h := fun h => by rw [Core.lookup, hslots, Core.lookup]
  exact ⟨fun h => cargo_congr (hlook h) (hqueue h), fun h => by rw [hlook]⟩

theorem samePipes (hslots : c'.slots = c.slots) (hpipes : c'.pipes = c.pipes) : Unmoved c c' :=
  same hslots fun _ _ _ => by rw [queue, hpipes, queue]

theorem setObj (hlive : c.lookup h = some o) (hcargo : (c.setObj h obj).cargo h = c.cargo h) :
    Unmoved c (c.setObj h obj) := by
  refine ⟨fun g => ?_, fun g => ?_⟩
  · by_cases hg : g = h
    · rw [hg, hcargo]
    · exact cargo_congr (by rw [lookup_setObj hlive, if_neg hg]) fun _ _ => rfl
  · rw [lookup_setObj hlive]
    split
    · rename_i hg
      rw [hg, hlive]
      exact ⟨nofun, nofun⟩
    · rfl

theorem setMessage {m m' : MessageObj} (hm : c.lookup h = some (.message m))
    (hhandles : m'.handles = m.handles) : Unmoved c (c.setObj h (.message m')) := by
  refine setObj hm ?_
  rw [cargo_message hm, ← hhandles]
  exact cargo_message (by rw [lookup_setObj hm, if_pos rfl])

theorem setTrap {t t' : TrapObj} (ht : c.lookup h = some (.trap t)) :
    Unmoved c (c.setObj h (.trap t')) := by
  refine setObj ht ?_
  rw [Core.cargo, Core.cargo, lookup_setObj ht, if_pos rfl, ht]

theorem collected (hc : Collected c c') : Unmoved c c' := by
  refine ⟨fun h => ?_, fun h => ?_⟩
  · rcases hc.obj h with heq | ⟨t, hold, hnew⟩
    · exact cargo_congr heq fun e _ => by rw [queue, hc.pipes_eq, queue]
    · rw [Core.cargo, Core.cargo, hold, hnew]
  · rcases hc.obj h with heq | ⟨t, hold, hnew⟩
    · rw [heq]
    · rw [hold, hnew]
      exact ⟨(by rintro ⟨⟩), (by rintro ⟨⟩)⟩

theorem collectTrapEvents (hu : Unmoved c c') : Unmoved c c'.collectTrapEvents :=
  hu.trans (collected (collected_collectTrapEvents c'))

theorem keep (hu : Unmoved c c') (held : List Handle) : c'.keep held = c.keep held := by
  refine filter_congr fun x _ => ?_
  rw [Bool.eq_iff_iff, isSome_iff_ne_none, isSome_iff_ne_none, not_iff_not]
  exact hu.lookup x

theorem live (hu : Unmoved c c') (x : Handle) : c'.live x = c.live x := by
  unfold Core.live
  by_cases hx : c.lookup x = none
  · rw [if_pos hx, if_pos ((hu.lookup x).mpr hx)]
  · rw [if_neg hx, if_neg (mt (hu.lookup x).mp hx)]

end Unmoved

theorem cargo_free (c : Core) (h g : Handle) :
    (c.free h).cargo g = if g = h then [] else c.cargo g := by
  split
  · rename_i hg
    exact cargo_none (by rw [lookup_free, if_pos hg])
  · rename_i hg
    exact cargo_congr (by rw [lookup_free, if_neg hg]) fun e _ => by rw [queue, free_pipes, queue]

theorem Table.lookup_alloc_none (ht : c.Table) (obj : Obj) (x : Handle) :
    (c.alloc obj).lookup x = none ↔ x ≠ c.nextHandle ∧ c.lookup x = none := by
  rw [ht.lookup_alloc]
  split
  · rename_i hx
    exact ⟨nofun, fun h => absurd hx h.1⟩
  · rename_i hx
    exact (and_iff_right hx).symm

theorem Table.cargo_alloc (ht : c.Table) (obj : Obj) (hg : g ≠ c.nextHandle) :
    (c.alloc obj).cargo g = c.cargo g :=
  cargo_congr (by rw [ht.lookup_alloc, if_neg hg]) fun e _ => by rw [queue, alloc_pipes, queue]

theorem count_keep (c : Core) (held : List Handle) (x : Handle) :
    (c.keep held).count x = if c.lookup x = none then 0 else held.count x := by
  split
  · rename_i hx
    refine count_eq_zero_of_not_mem fun hmem => ?_
    have hsome := (mem_filter.mp hmem).2
    rw [hx] at hsome
    cases hsome
  · rename_i hx
    exact count_filter (isSome_iff_ne_none.mpr hx)

/-! ### What the calls on messages do -/

theorem appendMessageData_cases (c : Core) (m : Handle) (additional : UInt32) (handles : List Handle)
    (commit : Bool) :
    (∃ r, r ≠ .ok ∧ c.appendMessageData m additional handles commit = c.refuse r) ∨
      ∃ msg msg' reply, c.lookup m = some (.message msg) ∧
        ¬ (msg.committed = true ∧ additional ≠ 0) ∧ msg'.handles = msg.handles ++ handles ∧
        reply.result = .ok ∧ reply.handles = [] ∧
        c.appendMessageData m additional handles commit = (reply, c.setObj m (.message msg')) := by
  unfold appendMessageData
  split
  · rename_i msg hm
    split
    · exact Or.inl ⟨.failedPrecondition, nofun, rfl⟩
    · exact Or.inr ⟨msg, _, _, hm, ‹_›, rfl, rfl, rfl, rfl⟩
  · exact Or.inl ⟨.invalidArgument, nofun, rfl⟩

theorem handles_performData (c : Core) (op : DataOp) : (c.performData op).1.handles = [] := by
  cases op <;>
  · simp only [performData, writeData, readData, beginWriteData, fillWriteBuffer, endWriteData,
      beginReadData, endReadData]
    repeat' split
    all_goals rfl

theorem getMessageData_cases (c : Core) (m : Handle) (room : Option Nat) (wanted : Bool) :
    (∃ reply, reply.handles = [] ∧ c.getMessageData m room wanted = (reply, c)) ∨
      ∃ msg reply, c.lookup m = some (.message msg) ∧
        (msg.handles.length < 2 ^ 32 → reply.handles = msg.handles) ∧
        c.getMessageData m room wanted =
          (reply, c.setObj m (.message { msg with handles := [] })) := by
  unfold getMessageData
  split
  · rename_i msg hm
    dsimp only
    split
    · split
      · exact Or.inl ⟨_, rfl, rfl⟩
      · exact Or.inl ⟨_, rfl, rfl⟩
    · split
      · exact Or.inl ⟨_, rfl, rfl⟩
      · refine Or.inr ⟨msg, _, hm, fun hlt => ?_, rfl⟩
        dsimp only
        rw [Nat.mod_eq_of_lt hlt, take_length]
    · exact Or.inl ⟨_, rfl, rfl⟩
  · exact Or.inl ⟨_, rfl, rfl⟩

/-- `WriteMessageRaw` of the kernel: a message is made, filled, committed and written. -/
def writeMessageRaw (c : Core) (pipe : Handle) (bytes : List UInt8) (handles : List Handle) :
    Reply × Core :=
  let message := c.nextHandle
  let c₀ := c.createMessage.2
  let r := c₀.appendMessageData message (UInt32.ofNat bytes.length) handles true
  if r.1.result ≠ .ok then ({ result := r.1.result }, (r.2.close message).2)
  else
    let c₁ := (r.2.fillMessage message 0 bytes).2
    (c₁.serializeMessage message).2.writeMessage pipe message

/-- `WriteMessageRaw` writes a new message that carries the handles. -/
theorem writeMessageRaw_eq (hs : c.Sound) (pipe : Handle) (bytes : List UInt8)
    (handles : List Handle) :
    ∃ msg msg' : MessageObj, msg.handles = handles ∧ msg'.handles = handles ∧
      msg'.bytes.length = bytes.length % 2 ^ 32 ∧
      c.writeMessageRaw pipe bytes handles =
        (((c.alloc (.message {})).setObj c.nextHandle (.message msg)).setObj c.nextHandle
          (.message msg')).writeMessage pipe c.nextHandle := by
  have hm : c.createMessage.2.lookup c.nextHandle = some (.message {}) := by
    rw [createMessage, hs.table.lookup_alloc, if_pos rfl]
  have hset := fun (d : Core) (o : Obj) (hd : d.lookup c.nextHandle = some o) (msg : MessageObj) =>
    (lookup_setObj hd (.message msg) c.nextHandle).trans (if_pos rfl)
  let msg : MessageObj :=
    { bytes := List.replicate (UInt32.ofNat bytes.length).toNat 0, handles := handles,
      committed := true }
  let msg' : MessageObj := { msg with bytes := overwrite msg.bytes 0 bytes }
  refine ⟨msg, msg', rfl, rfl, ?_, ?_⟩
  · show (overwrite (List.replicate (UInt32.ofNat bytes.length).toNat 0) 0 bytes).length = _
    rw [overwrite, length_take, length_append, length_append, length_take,
      length_drop, length_replicate, UInt32.toNat_ofNat']
    omega
  · have happend : c.createMessage.2.appendMessageData c.nextHandle (UInt32.ofNat bytes.length) handles
        true = ({ result := .ok, buffer := msg.bytes, counts := [msg.bytes.length % 2 ^ 32] },
          c.createMessage.2.setObj c.nextHandle (.message msg)) := by
      rw [appendMessageData, hm]
      rfl
    have hm₁ := hset _ _ hm msg
    have hfill : (c.createMessage.2.setObj c.nextHandle (.message msg)).fillMessage c.nextHandle 0
        bytes = ({ result := .ok },
          (c.createMessage.2.setObj c.nextHandle (.message msg)).setObj c.nextHandle
            (.message msg')) := by
      rw [fillMessage, hm₁]
    have hm₂ := hset _ _ hm₁ msg'
    rw [writeMessageRaw]
    dsimp only
    rw [happend]
    dsimp only
    rw [hfill, if_neg (by decide), serializeMessage, hm₂]
    rfl

theorem lookup_close_iff (c : Core) (h x : Handle) :
    (c.step (.close h)).lookup x = none ↔ x = h ∨ c.lookup x = none := by
  rw [step, perform, close]
  split
  · rename_i hnone
    exact ⟨Or.inr, fun hx => hx.elim (fun heq => heq ▸ hnone) id⟩
  · rename_i o hlive
    have hslots : (c.release h o).slots = c.slots := by cases o <;> rfl
    rw [(Unmoved.collectTrapEvents (.refl ((c.release h o).free h))).lookup, lookup_free]
    split
    · exact ⟨fun _ => Or.inl ‹_›, fun _ => rfl⟩
    · rw [or_iff_right ‹_›, lookup, hslots, lookup]

theorem lookup_refused {p m : Handle} (hbad : (c.writeMessage p m).1.result ≠ .ok)
    (hx : (c.step (.writeMessage p m)).lookup x = none) : x = m ∨ c.lookup x = none := by
  rw [step, perform] at hx
  rcases writeMessage_cases c p m with ⟨r, -, heq⟩ | ⟨e, msg, -, -, -, heq⟩ |
    ⟨e, msg, -, -, -, heq⟩ <;> rw [heq] at hx hbad
  · exact Or.inr hx
  · rw [(Unmoved.collectTrapEvents (.refl (c.free m))).lookup, lookup_free] at hx
    split at hx
    · exact Or.inl ‹_›
    · exact Or.inr hx
  · exact absurd rfl hbad

theorem lookup_writeMessage {p m : Handle} {msg : MessageObj} (hp : c.IsEnd p e)
    (hm : c.lookup m = some (.message msg))
    (hroom : ¬ ((c.pipes e.state).closed e.other.side = true ∨ (c.pipes e.state).closed e.side = true) →
      (c.queue e.other).length < (c.pipes e.state).quotaCount e.other.side ∧
        queueBytes (c.queue e.other) + msg.bytes.length ≤ (c.pipes e.state).quotaBytes e.other.side) :
    (c.writeMessage p m).2.lookup m = none := by
  unfold writeMessage
  rw [hp, hm]
  dsimp only
  split
  · rw [(Unmoved.collectTrapEvents (.refl (c.free m))).lookup, lookup_free, if_pos rfl]
  · obtain ⟨hcount, hbytes⟩ := hroom ‹_›
    split
    · rename_i hfull
      exact absurd hfull (not_or.mpr ⟨Nat.not_le.mpr hcount, Nat.not_lt.mpr hbytes⟩)
    · dsimp only
      rw [(Unmoved.collectTrapEvents (.refl _)).lookup, lookup_free, if_pos rfl]

end Core

/-! ### The ledger -/

/-- What an operation attaches, if it is not refused. -/
def Op.attaches (op : Op) (reply : Reply) : List Handle :=
  match op with
  | .silent (.appendMessageData _ _ handles _) => if reply.result = .ok then handles else []
  | _ => []

/-- The core, and the handles that the program holds. -/
structure Ledger where
  core : Core := {}
  held : List Handle := []

namespace Ledger

variable {s : Ledger} {c c' : Core} {held held' : List Handle} {g x h m : Handle} {obj o : Obj}

/-- Every number in use has exactly one owner, and no other number has one. -/
def Owned (s : Ledger) : Prop := ∀ x, (s.held ++ s.core.carried).count x = s.core.live x

/-- The program gives up what it attached and what was freed, and gets what is returned. -/
def settle (s : Ledger) (r : Reply × Core) (attached : List Handle) : Ledger where
  core := r.2
  held := r.2.keep (s.held.diff attached) ++ r.1.handles

def call (s : Ledger) (op : Op) : Ledger :=
  s.settle (s.core.perform op) (op.attaches (s.core.perform op).1)

namespace Owned

theorem moved (ho : Owned ⟨c, held⟩) (t : Finset Handle) (ht : ∀ h, h ∉ t → c'.cargo h = c.cargo h)
    (h : ∀ x, held'.count x + ∑ h ∈ t, (c'.cargo h).count x + c.live x =
      held.count x + ∑ h ∈ t, (c.cargo h).count x + c'.live x) : Owned ⟨c', held'⟩ := by
  intro x
  have hcarried := Core.count_carried_add t ht x
  have hbefore := ho x
  have hx := h x
  rw [count_append] at hbefore ⊢
  dsimp only at hbefore ⊢
  omega

theorem count_held (ho : Owned ⟨c, held⟩) (x : Handle) : held.count x ≤ c.live x := by
  have hx := ho x
  rw [count_append] at hx
  exact hx ▸ Nat.le_add_right _ _

theorem live_of_mem (ho : Owned ⟨c, held⟩) (hx : x ∈ held) : c.lookup x ≠ none := by
  intro hnone
  have hle := ho.count_held x
  rw [Core.live_eq_zero hnone] at hle
  exact absurd (List.count_pos_iff.mpr hx) (Nat.not_lt.mpr hle)

theorem count_keep (ho : Owned ⟨c, held⟩) {c' : Core} {x : Handle}
    (hx : c'.lookup x = none → c.lookup x = none) : (c'.keep held).count x = held.count x := by
  rw [Core.count_keep]
  split
  · rename_i hnone
    have hle := ho.count_held x
    rw [Core.live_eq_zero (hx hnone)] at hle
    omega
  · rfl

theorem freed (ho : Owned ⟨c, held⟩) (f t : Finset Handle) (hf : ∀ h ∈ f, h ∈ held)
    (hlook : ∀ x, c'.lookup x = none ↔ x ∈ f ∨ c.lookup x = none)
    (ht : ∀ h, h ∉ t → c'.cargo h = c.cargo h)
    (hsum : ∀ x, ∑ h ∈ t, (c'.cargo h).count x = ∑ h ∈ t, (c.cargo h).count x) :
    Owned ⟨c', c'.keep held⟩ := by
  refine ho.moved t ht fun x => ?_
  rw [hsum]
  by_cases hx : x ∈ f
  · have hnone := (hlook x).mpr (Or.inl hx)
    have hlive : c.live x = 1 := if_neg (ho.live_of_mem (hf x hx))
    have hpos := List.count_pos_iff.mpr (hf x hx)
    have hle := ho.count_held x
    rw [Core.count_keep, if_pos hnone, Core.live_eq_zero hnone]
    omega
  · have hiff : c'.lookup x = none ↔ c.lookup x = none := by
      rw [hlook]
      exact or_iff_right hx
    have hlive : c'.live x = c.live x := by simp only [Core.live, hiff]
    rw [ho.count_keep hiff.mp, hlive]

theorem unmoved (ho : Owned ⟨c, held⟩) (hu : Core.Unmoved c c') : Owned ⟨c', held⟩ :=
  ho.moved ∅ (fun h _ => hu.cargo h) fun x => by
    rw [hu.live]
    rfl

theorem keep_eq (ho : Owned ⟨c, held⟩) : c.keep held = held :=
  filter_eq_self.mpr fun _ hx => isSome_iff_ne_none.mpr (ho.live_of_mem hx)

theorem keep_eq_of (ho : Owned ⟨c, held⟩) (h : ∀ x, c'.lookup x = none → c.lookup x = none) :
    c'.keep held = held :=
  filter_eq_self.mpr fun x hx =>
    isSome_iff_ne_none.mpr fun hnone => ho.live_of_mem hx (h x hnone)

theorem given (ho : Owned ⟨c, held⟩) {n : Handle} (hn : c.lookup n = none) (t : Finset Handle)
    (hlook : ∀ x, c'.lookup x = none ↔ x ≠ n ∧ c.lookup x = none)
    (ht : ∀ h, h ∉ t → c'.cargo h = c.cargo h)
    (hsum : ∀ x, ∑ h ∈ t, (c'.cargo h).count x = ∑ h ∈ t, (c.cargo h).count x) :
    Owned ⟨c', held ++ [n]⟩ := by
  refine ho.moved t ht fun x => ?_
  rw [count_append, hsum, count_singleton]
  by_cases hx : x = n
  · have hlive : c'.live x = 1 := if_neg fun h => ((hlook x).mp h).1 hx
    have hzero : c.live x = 0 := by rw [hx, Core.live_eq_zero hn]
    rw [hlive, hzero, hx, beq_self_eq_true, if_pos rfl]
    omega
  · have hlive : c'.live x = c.live x := by
      simp only [Core.live, hlook, hx, ne_eq, not_false_eq_true, true_and]
    rw [hlive, beq_false_of_ne (Ne.symm hx), if_neg Bool.false_ne_true]
    omega

theorem alloc (ho : Owned ⟨c, held⟩) (ht : c.Table)
    (hcargo : (c.alloc obj).cargo c.nextHandle = []) :
    Owned ⟨c.alloc obj, held ++ [c.nextHandle]⟩ := by
  refine ho.given ht.nextHandle_free ∅ (ht.lookup_alloc_none obj) (fun g _ => ?_) fun _ => rfl
  by_cases hg : g = c.nextHandle
  · rw [hg, hcargo, Core.cargo_none ht.nextHandle_free]
  · exact ht.cargo_alloc obj hg

theorem free (ho : Owned ⟨c, held⟩) (hmem : h ∈ held) (hcargo : c.cargo h = []) :
    Owned ⟨c.free h, (c.free h).keep held⟩ := by
  refine ho.freed {h} ∅ (fun g hg => Finset.mem_singleton.mp hg ▸ hmem) (fun x => ?_) (fun g _ => ?_)
    fun _ => rfl
  · rw [Core.lookup_free, Finset.mem_singleton]
    split
    · rename_i hx
      exact ⟨fun _ => Or.inl hx, fun _ => rfl⟩
    · rename_i hx
      exact (or_iff_right hx).symm
  · rw [Core.cargo_free]
    split
    · rename_i hg
      rw [hg, hcargo]
    · rfl

end Owned

/-- The calls that an accountable program makes: it attaches and gives up what it holds, once, and
what the core drops carries nothing. -/
def Accounts (s : Ledger) : Op → Prop
  | .silent (.appendMessageData m additional handles _) =>
    ∀ msg, s.core.lookup m = some (.message msg) → ¬ (msg.committed = true ∧ additional ≠ 0) →
      handles.Subperm s.held
  | .silent (.getMessageData m _ _) =>
    ∀ msg, s.core.lookup m = some (.message msg) → msg.handles.length < 2 ^ 32
  | .silent (.unwrapPlatformHandle h) => ∀ p, s.core.lookup h = some (.platform p) → h ∈ s.held
  | .silent (.unwrapPlatformSharedMemoryRegion h _ _) =>
    ∀ i, s.core.lookup h = some (.sharedBuffer i) → h ∈ s.held
  | .writeMessage p m =>
    ∀ e msg, s.core.IsEnd p e → s.core.lookup m = some (.message msg) → m ∈ s.held ∧
      ((s.core.pipes e.state).closed e.other.side = true ∨
        (s.core.pipes e.state).closed e.side = true → msg.handles = [])
  | .fuseMessagePipes a b =>
    ∀ e0 e1, s.core.IsEnd a e0 → s.core.IsEnd b e1 → a ∈ s.held ∧ b ∈ s.held
  | .close h => s.core.lookup h ≠ none → h ∈ s.held ∧ s.core.cargo h = []
  | _ => True

theorem owned_unmoved (ho : s.Owned) {r : Reply × Core} (hu : Core.Unmoved s.core r.2)
    (hreply : r.1.handles = []) : (s.settle r []).Owned := by
  have hheld : (s.settle r []).held = s.held := by
    rw [settle, hreply, append_nil, diff_nil]
    exact (hu.keep s.held).trans ho.keep_eq
  have howned := Owned.unmoved ho hu
  rw [← hheld] at howned
  exact howned

theorem owned_refuse (ho : s.Owned) (r : Result) : (s.settle (s.core.refuse r) []).Owned :=
  owned_unmoved ho (.refl _) rfl

theorem owned_setMessage (ho : Owned ⟨c, held⟩) {msg msg' : MessageObj}
    (hm : c.lookup m = some (.message msg))
    (hcount : ∀ x, held'.count x + msg'.handles.count x = held.count x + msg.handles.count x) :
    Owned ⟨c.setObj m (.message msg'), held'⟩ := by
  have hlook := Core.lookup_setObj hm (.message msg')
  refine ho.moved {m} (fun g hg => ?_) fun x => ?_
  · rw [Finset.mem_singleton] at hg
    exact Core.cargo_congr (by rw [hlook, if_neg hg]) fun _ _ => rfl
  · have hlive : (c.setObj m (.message msg')).live x = c.live x := by
      rw [Core.live, Core.live, hlook]
      split
      · rename_i hx
        rw [hx, hm]
        rfl
      · rfl
    rw [Finset.sum_singleton, Finset.sum_singleton, Core.cargo_message hm, hlive,
      Core.cargo_message (by rw [hlook, if_pos rfl])]
    have := hcount x
    omega

theorem owned_appendMessageData (ho : s.Owned) {additional : UInt32} {handles : List Handle}
    {commit : Bool} (ha : s.Accounts (.silent (.appendMessageData m additional handles commit))) :
    (s.call (.silent (.appendMessageData m additional handles commit))).Owned := by
  rw [call, Core.perform, Core.performSilent]
  rcases Core.appendMessageData_cases s.core m additional handles commit with ⟨r, hr, heq⟩ |
    ⟨msg, msg', reply, hm, hguard, hhandles, hok, hreply, heq⟩ <;> rw [heq]
  · have hattach : (Op.silent (.appendMessageData m additional handles commit)).attaches
        (s.core.refuse r).1 = [] := if_neg hr
    rw [hattach]
    exact owned_refuse ho r
  · have hattach : (Op.silent (.appendMessageData m additional handles commit)).attaches reply =
        handles := if_pos hok
    rw [hattach, settle]
    dsimp only
    rw [hreply, append_nil]
    refine owned_setMessage ho hm fun x => ?_
    have hsub := (ha msg hm hguard).count_le x
    have hkeep : (s.core.setObj m (.message msg')).lookup x = none → s.core.lookup x = none := by
      rw [Core.lookup_setObj hm]
      split
      · rintro ⟨⟩
      · exact id
    have hheld := Owned.count_held ho x
    rw [Core.count_keep, count_diff, hhandles, count_append]
    split
    · rename_i hnone
      rw [Core.live_eq_zero (hkeep hnone)] at hheld
      omega
    · omega

theorem owned_getMessageData (ho : s.Owned) {room : Option Nat} {wanted : Bool}
    (ha : s.Accounts (.silent (.getMessageData m room wanted))) :
    (s.call (.silent (.getMessageData m room wanted))).Owned := by
  rw [call, Core.perform, Core.performSilent]
  rcases Core.getMessageData_cases s.core m room wanted with ⟨reply, hreply, heq⟩ |
    ⟨msg, reply, hm, hreply, heq⟩ <;> rw [heq]
  · exact owned_unmoved ho (.refl _) hreply
  · show Owned (s.settle _ [])
    rw [settle]
    dsimp only
    rw [hreply (ha msg hm), diff_nil]
    refine owned_setMessage ho hm fun x => ?_
    have hkeep : (s.core.setObj m (.message { msg with handles := [] })).lookup x = none →
        s.core.lookup x = none := by
      rw [Core.lookup_setObj hm]
      split
      · rintro ⟨⟩
      · exact id
    rw [count_append, Owned.count_keep ho hkeep]
    rfl

theorem owned_settle (ho : s.Owned) {r : Reply × Core} (hr : Owned ⟨r.2, s.held ++ r.1.handles⟩)
    (hlook : ∀ x, r.2.lookup x = none → s.core.lookup x = none) : (s.settle r []).Owned := by
  rw [settle, diff_nil, Owned.keep_eq_of ho hlook]
  exact hr

theorem owned_alloc (hs : s.core.Sound) (ho : s.Owned) (d : Core) (hslots : d.slots = s.core.slots)
    (hfree : d.freeList = s.core.freeList) (hpipes : d.pipes = s.core.pipes)
    (hobj : ∀ d : Core, d.lookup h = some obj → d.cargo h = []) (hn : h = s.core.nextHandle) :
    (s.settle ({ result := .ok, handles := [h] }, d.alloc obj) []).Owned := by
  subst hn
  have htable : d.Table := hs.table.congr (by rw [hslots]) hfree fun h => by
    rw [Core.lookup, Core.lookup, hslots]
  have hnext : d.nextHandle = s.core.nextHandle := by
    rw [Core.nextHandle, Core.nextHandle, hslots, hfree]
  have hd : Core.Unmoved s.core d := .samePipes hslots hpipes
  have hlook := htable.lookup_alloc obj s.core.nextHandle
  rw [if_pos hnext.symm] at hlook
  have halloc := (Owned.unmoved ho hd).alloc htable (by rw [hnext]; exact hobj _ hlook)
  rw [hnext] at halloc
  refine owned_settle ho halloc fun x hx => ?_
  exact (hd.lookup x).mp ((htable.lookup_alloc_none obj x).mp hx).2

theorem owned_alloc_alloc (ho : s.Owned) (d : Core) {o : Obj} (htable : d.Table)
    (hd : Core.Unmoved s.core d) (hcargo : (d.alloc o).cargo d.nextHandle = [])
    (hcargo' : ((d.alloc o).alloc obj).cargo (d.alloc o).nextHandle = []) :
    (s.settle ({ result := .ok, handles := [d.nextHandle, (d.alloc o).nextHandle] },
      (d.alloc o).alloc obj) []).Owned := by
  have halloc := ((Owned.unmoved ho hd).alloc htable hcargo).alloc (htable.alloc o) hcargo'
  rw [List.append_assoc] at halloc
  refine owned_settle ho halloc fun x hx => ?_
  have hx' := ((htable.alloc o).lookup_alloc_none obj x).mp hx
  exact (hd.lookup x).mp ((htable.lookup_alloc_none o x).mp hx'.2).2

theorem owned_freed {r : Reply × Core} (hr : Owned ⟨c', c'.keep s.held⟩)
    (hu : Core.Unmoved c' r.2) (hreply : r.1.handles = []) : (s.settle r []).Owned := by
  rw [settle, diff_nil, hreply, append_nil, hu.keep]
  exact hr.unmoved hu

theorem owned_performSilent (hs : s.core.Sound) (ho : s.Owned) {op : SilentOp}
    (ha : s.Accounts (.silent op)) : (s.call (.silent op)).Owned := by
  cases op with
  | createMessage =>
    exact owned_alloc hs ho s.core rfl rfl rfl (fun d hd => Core.cargo_message hd) rfl
  | appendMessageData m additional handles commit => exact owned_appendMessageData ho ha
  | getMessageData m room wanted => exact owned_getMessageData ho ha
  | createSharedBuffer n =>
    show (s.settle (s.core.createSharedBuffer n) []).Owned
    unfold Core.createSharedBuffer
    split
    · exact owned_refuse ho _
    · exact owned_alloc hs ho (s.core.newBuffer _) rfl rfl rfl
        (fun d hd => by rw [Core.cargo, hd]) rfl
  | duplicateBufferHandle b =>
    show (s.settle (s.core.duplicateBufferHandle b) []).Owned
    unfold Core.duplicateBufferHandle
    split
    · exact owned_alloc hs ho s.core rfl rfl rfl (fun d hd => by rw [Core.cargo, hd]) rfl
    · exact owned_refuse ho _
  | wrapPlatformHandle type value =>
    show (s.settle (s.core.wrapPlatformHandle type value) []).Owned
    unfold Core.wrapPlatformHandle
    split
    · exact owned_alloc hs ho s.core rfl rfl rfl (fun d hd => by rw [Core.cargo, hd]) rfl
    · exact owned_refuse ho _
  | wrapPlatformSharedMemoryRegion ns n guid mode =>
    show (s.settle (s.core.wrapPlatformSharedMemoryRegion ns n guid mode) []).Owned
    unfold Core.wrapPlatformSharedMemoryRegion
    split
    · exact owned_refuse ho _
    · split
      · exact owned_alloc hs ho (s.core.newBuffer _) rfl rfl rfl
          (fun d hd => by rw [Core.cargo, hd]) rfl
      · exact owned_refuse ho _
  | unwrapPlatformHandle h =>
    show (s.settle (s.core.unwrapPlatformHandle h) []).Owned
    unfold Core.unwrapPlatformHandle
    split
    · rename_i p hlive
      exact owned_freed (Owned.free ho (ha p hlive) (by rw [Core.cargo, hlive])) (.refl _) rfl
    · exact owned_refuse ho _
  | unwrapPlatformSharedMemoryRegion h room wanted =>
    show (s.settle (s.core.unwrapPlatformSharedMemoryRegion h room wanted) []).Owned
    unfold Core.unwrapPlatformSharedMemoryRegion
    split
    · rename_i i hlive
      dsimp only
      split
      · exact owned_refuse ho _
      · split
        · exact owned_unmoved ho (.refl _) rfl
        · have hset : Owned ⟨s.core.setBuffer i { s.core.buffers i with platOwns := false }, s.held⟩ :=
            Owned.unmoved ho (.samePipes rfl rfl)
          have hlive' : (s.core.setBuffer i { s.core.buffers i with platOwns := false }).lookup h =
            some (.sharedBuffer i) := hlive
          exact owned_freed (hset.free (ha i hlive) (by rw [Core.cargo, hlive'])) (.refl _) rfl
    · exact owned_refuse ho _
  | fillMessage m offset data =>
    show (s.settle (s.core.fillMessage m offset data) []).Owned
    unfold Core.fillMessage
    split
    · rename_i msg hm
      exact owned_unmoved ho (.setMessage hm rfl) rfl
    · exact owned_refuse ho _
  | serializeMessage m =>
    show (s.settle (s.core.serializeMessage m) []).Owned
    unfold Core.serializeMessage
    split
    · rename_i msg hm
      split
      · exact owned_refuse ho _
      · exact owned_unmoved ho (.setMessage hm rfl) rfl
    · exact owned_refuse ho _
  | messageSerialized m =>
    show (s.settle (s.core.messageSerialized m) []).Owned
    unfold Core.messageSerialized
    split
    · rename_i msg hm
      exact owned_unmoved ho (.setMessage hm rfl) rfl
    · exact owned_refuse ho _
  | reserveMessageCapacity m size =>
    show (s.settle (s.core.reserveMessageCapacity m size) []).Owned
    unfold Core.reserveMessageCapacity
    split
    · rename_i msg hm
      split
      · exact owned_unmoved ho (.refl _) rfl
      · exact owned_unmoved ho (.setMessage hm rfl) rfl
    · exact owned_refuse ho _
  | setMessageContext m context serializer destructor =>
    show (s.settle (s.core.setMessageContext m context serializer destructor) []).Owned
    unfold Core.setMessageContext
    split
    · rename_i msg hm
      exact owned_unmoved ho (.setMessage hm rfl) rfl
    · exact owned_refuse ho _
  | _ =>
    simp only [call, Core.perform, Core.performSilent, Op.attaches, Core.getMessageContext,
      Core.getBufferInfo, Core.queryQuota, Core.queryHandleSignalsState]
    repeat' split
    all_goals exact owned_unmoved ho (.refl _) rfl

/-! ### Messages on their way -/

section wired

variable {w : Wiring Handle Content}

theorem cargo_setQueue (hw : Core.Wired c w) {e : PipeEnd} (he : c.IsEnd h e) (l : List MessageObj)
    (g : Handle) :
    (c.setQueue e l).cargo g = if g = h then l.flatMap (·.handles) else c.cargo g := by
  split
  · rename_i hg
    rw [hg, Core.cargo_end (show (c.setQueue e l).IsEnd h e from he), Core.queue_setQueue_self]
  · rename_i hg
    refine Core.cargo_congr rfl fun e' he' => Core.queue_setQueue_of_ne c l ?_
    rintro rfl
    exact hg (hw.unique he' he)

theorem owned_writeMessage (hw : Core.Wired s.core w) (ho : s.Owned) {p : Handle}
    (ha : s.Accounts (.writeMessage p m)) : (s.call (.writeMessage p m)).Owned := by
  show (s.settle (s.core.writeMessage p m) []).Owned
  rcases Core.writeMessage_cases s.core p m with ⟨r, -, heq⟩ | ⟨e, msg, hp, hm, hclosed, heq⟩ |
    ⟨e, msg, hp, hm, hopen, heq⟩ <;> rw [heq]
  · exact owned_refuse ho r
  · obtain ⟨hmem, hnil⟩ := ha e msg hp hm
    have hcargo : s.core.cargo m = [] := (Core.cargo_message hm).trans (hnil hclosed)
    exact owned_freed (Owned.free ho hmem hcargo) (.collectTrapEvents (.refl _)) rfl
  · obtain ⟨y, hy⟩ := hw.peer_open hp hopen
    have hne : m ≠ y := by
      rintro rfl
      exact nomatch hm.symm.trans hy
    have hcargo := cargo_setQueue hw hy (s.core.queue e.other ++ [{ msg with committed := true }])
    have hfreed : Owned ⟨(s.core.setQueue e.other
        (s.core.queue e.other ++ [{ msg with committed := true }])).free m,
        ((s.core.setQueue e.other
          (s.core.queue e.other ++ [{ msg with committed := true }])).free m).keep s.held⟩ := by
      refine Owned.freed ho {m} {m, y} (fun g hg => Finset.mem_singleton.mp hg ▸ (ha e msg hp hm).1)
        (fun x => ?_) (fun g hg => ?_) fun x => ?_
      · rw [Core.lookup_free, Finset.mem_singleton]
        split
        · exact ⟨fun _ => Or.inl ‹_›, fun _ => rfl⟩
        · exact (or_iff_right ‹_›).symm
      · rw [Finset.mem_insert, Finset.mem_singleton] at hg
        obtain ⟨hgm, hgy⟩ := not_or.mp hg
        rw [Core.cargo_free, if_neg hgm, hcargo, if_neg hgy]
      · rw [Finset.sum_pair hne, Finset.sum_pair hne, Core.cargo_free, if_pos rfl, Core.cargo_free,
          if_neg hne.symm, hcargo, if_pos rfl, flatMap_append, count_append,
          Core.cargo_message hm, Core.cargo_end hy]
        simp only [count_nil, flatMap_singleton]
        omega
    exact owned_freed hfreed (.collectTrapEvents (.refl _)) rfl

theorem owned_readMessage (hs : s.core.Sound) (hw : Core.Wired s.core w) (ho : s.Owned) (p : Handle) :
    (s.call (.readMessage p)).Owned := by
  show (s.settle (s.core.readMessage p) []).Owned
  rcases Core.readMessage_cases s.core p with ⟨-, heq⟩ | ⟨e, r, -, -, -, heq⟩ |
    ⟨e, msg, rest, hp, hqueue, heq⟩ <;> rw [heq]
  · exact owned_refuse ho _
  · exact owned_refuse ho _
  · have htable : (s.core.setQueue e rest).Table := hs.table.congr rfl rfl fun _ => Iff.rfl
    have hnext : (s.core.setQueue e rest).nextHandle = s.core.nextHandle := rfl
    have hne : p ≠ s.core.nextHandle := hs.table.nextHandle_ne hp
    have hlook := htable.lookup_alloc_none (.message msg)
    have hgiven : Owned ⟨(s.core.setQueue e rest).alloc (.message msg), s.held ++ [s.core.nextHandle]⟩ := by
      refine Owned.given ho hs.table.nextHandle_free {p, s.core.nextHandle} hlook (fun g hg => ?_)
        fun x => ?_
      · rw [Finset.mem_insert, Finset.mem_singleton] at hg
        obtain ⟨hgp, hgn⟩ := not_or.mp hg
        rw [htable.cargo_alloc _ hgn, cargo_setQueue hw hp, if_neg hgp]
      · have hnew := htable.lookup_alloc (.message msg) s.core.nextHandle
        rw [if_pos hnext.symm] at hnew
        rw [Finset.sum_pair hne, Finset.sum_pair hne, htable.cargo_alloc _ hne, cargo_setQueue hw hp,
          if_pos rfl, Core.cargo_message hnew, Core.cargo_end hp, hqueue,
          Core.cargo_none hs.table.nextHandle_free, flatMap_cons, count_append]
        simp only [count_nil]
        omega
    exact owned_settle ho hgiven fun x hx => ((hlook x).mp hx).2

theorem owned_fuseMessagePipes (hs : s.core.Sound) (ho : s.Owned) {a b : Handle}
    (ha : s.Accounts (.fuseMessagePipes a b)) : (s.call (.fuseMessagePipes a b)).Owned := by
  show (s.settle (s.core.fuseMessagePipes a b) []).Owned
  rcases Core.fuseMessagePipes_cases s.core a b with ⟨r, -, heq⟩ | ⟨e0, e1, h0, h1, hf, heq⟩ <;>
    rw [heq]
  · exact owned_refuse ho r
  · obtain ⟨ha, hb⟩ := ha e0 e1 hf.lookup_a hf.lookup_b
    have hpipes : (s.core.fused a b e0 e1 h0 h1).pipes =
        (s.core.newPipe (s.core.fuse e0 e1 e0.other e1.other)).pipes := by
      rw [Core.fused, Core.free_pipes, Core.free_pipes]
      rfl
    have hnew : (s.core.fused a b e0 e1 h0 h1).pipes s.core.pipeCount =
        s.core.fuse e0 e1 e0.other e1.other := by
      rw [hpipes]
      exact Core.setPipe_self s.core _ _
    have hcargo : ∀ g, (s.core.fused a b e0 e1 h0 h1).cargo g =
        if g = a ∨ g = b then []
        else if g = h1 then (s.core.queue e1.other ++ s.core.queue e0).flatMap (·.handles)
        else if g = h0 then (s.core.queue e0.other ++ s.core.queue e1).flatMap (·.handles)
        else s.core.cargo g := by
      intro g
      have hlook := hf.lookup_fused g
      split at hlook
      · exact (Core.cargo_none hlook).trans (if_pos ‹_›).symm
      · rw [if_neg ‹_›]
        split at hlook
        · rw [if_pos ‹_›, Core.cargo_end hlook, Core.queue, hnew]
          rfl
        · rw [if_neg ‹_›]
          split at hlook
          · rw [if_pos ‹_›, Core.cargo_end hlook, Core.queue, hnew]
            rfl
          · rw [if_neg ‹_›]
            refine Core.cargo_congr hlook fun e he => ?_
            have hne : e.state ≠ s.core.pipeCount := Nat.ne_of_lt (hs.numbered _ _ he)
            rw [Core.queue, hpipes, Core.queue]
            exact congrArg (fun p => PipeState.queues p e.side) (Core.setPipe_of_ne s.core _ hne)
    have hfreed : Owned ⟨s.core.fused a b e0 e1 h0 h1,
        (s.core.fused a b e0 e1 h0 h1).keep s.held⟩ := by
      refine Owned.freed ho {a, b} {a, b, h0, h1} (fun g hg => ?_) (fun x => ?_) (fun g hg => ?_)
        fun x => ?_
      · rcases Finset.mem_insert.mp hg with rfl | hg
        · exact ha
        · exact Finset.mem_singleton.mp hg ▸ hb
      · have hlook := hf.lookup_fused x
        rw [Finset.mem_insert, Finset.mem_singleton, hlook]
        split
        · exact ⟨fun _ => Or.inl ‹_›, fun _ => rfl⟩
        · rw [or_iff_right ‹_›]
          split
          · rename_i hx
            rw [hx, hf.lookup_h1]
            exact ⟨(by rintro ⟨⟩), (by rintro ⟨⟩)⟩
          · split
            · rename_i hx
              rw [hx, hf.lookup_h0]
              exact ⟨(by rintro ⟨⟩), (by rintro ⟨⟩)⟩
            · rfl
      · simp only [Finset.mem_insert, Finset.mem_singleton, not_or] at hg
        obtain ⟨hga, hgb, hg0, hg1⟩ := hg
        rw [hcargo, if_neg (not_or.mpr ⟨hga, hgb⟩), if_neg hg1, if_neg hg0]
      · have hsum : ∀ f : Handle → Nat, ∑ g ∈ ({a, b, h0, h1} : Finset Handle), f g =
            f a + (f b + (f h0 + f h1)) := fun f => by
          rw [Finset.sum_insert, Finset.sum_insert, Finset.sum_pair hf.h0_ne_h1]
          · simp only [Finset.mem_insert, Finset.mem_singleton, not_or]
            exact ⟨hf.h0_ne_b.symm, hf.b_ne_h1⟩
          · simp only [Finset.mem_insert, Finset.mem_singleton, not_or]
            exact ⟨hf.a_ne_b, hf.a_ne_h0, hf.a_ne_h1⟩
        rw [hsum, hsum, hcargo, if_pos (Or.inl rfl), hcargo, if_pos (Or.inr rfl), hcargo h0,
          if_neg (not_or.mpr ⟨hf.a_ne_h0.symm, hf.h0_ne_b⟩), if_neg hf.h0_ne_h1, if_pos rfl, hcargo h1,
          if_neg (not_or.mpr ⟨hf.a_ne_h1.symm, hf.b_ne_h1.symm⟩), if_pos rfl,
          Core.cargo_end hf.lookup_a, Core.cargo_end hf.lookup_b, Core.cargo_end hf.lookup_h0,
          Core.cargo_end hf.lookup_h1]
        simp only [flatMap_append, count_append, count_nil]
        omega
    exact owned_freed hfreed (.collectTrapEvents (.refl _)) rfl

end wired

theorem owned_close (ho : s.Owned) (ha : s.Accounts (.close h)) : (s.call (.close h)).Owned := by
  show (s.settle (s.core.close h) []).Owned
  unfold Core.close
  split
  · exact owned_refuse ho _
  · rename_i o hlive
    obtain ⟨hmem, hcargo⟩ := ha (by rw [hlive]; nofun)
    have hu : Core.Unmoved s.core (s.core.release h o) := by
      cases o with
      | messagePipe e =>
        refine .same rfl fun g e' _ => ?_
        unfold Core.queue Core.release
        dsimp only
        by_cases hi : e'.state = e.state
        · rw [hi, Core.setPipe_self]
        · rw [Core.setPipe_of_ne _ _ hi]
      | _ => exact .samePipes rfl rfl
    have hreply : (Core.released o).handles = [] := by cases o <;> rfl
    have hfreed := (Owned.unmoved ho hu).free hmem ((hu.cargo h).trans hcargo)
    exact owned_freed hfreed (.collectTrapEvents (.refl _)) hreply

theorem owned_createMessagePipe (hs : s.core.Sound) (ho : s.Owned) :
    (s.call .createMessagePipe).Owned := by
  have htable : (s.core.newPipe {}).Table := (hs.newPipe {}).table
  have hu : Core.Unmoved s.core (s.core.newPipe {}) := by
    refine .same rfl fun g e he => ?_
    have hne : e.state ≠ s.core.pipeCount := Nat.ne_of_lt (hs.numbered _ _ he)
    exact congrArg (fun p => PipeState.queues p e.side) (Core.setPipe_of_ne s.core _ hne)
  have hempty : ∀ (d : Core) (h : Handle) (side : Bool), d.pipes = (s.core.newPipe {}).pipes →
      d.IsEnd h ⟨s.core.pipeCount, side⟩ → d.cargo h = [] := by
    intro d h side hpipes hend
    rw [Core.cargo_end hend, Core.queue, hpipes]
    show (((s.core.setPipe s.core.pipeCount {}).pipes s.core.pipeCount).queues side).flatMap _ = []
    rw [Core.setPipe_self]
    rfl
  refine owned_alloc_alloc ho (s.core.newPipe {}) htable hu (hempty _ _ false ?_ ?_)
    (hempty _ _ true ?_ ?_)
  · exact Core.alloc_pipes _ _
  · rw [Core.IsEnd, htable.lookup_alloc, if_pos rfl]
  · rw [Core.alloc_pipes, Core.alloc_pipes]
  · rw [Core.IsEnd, (htable.alloc _).lookup_alloc, if_pos rfl]

theorem owned_call {w : Wiring Handle Content} (hs : s.core.Sound) (hw : Core.Wired s.core w)
    (ho : s.Owned) {op : Op} (ha : s.Accounts op) : (s.call op).Owned := by
  cases op with
  | silent op => exact owned_performSilent hs ho ha
  | data op =>
    have hu : Core.Unmoved s.core (s.core.performData op).2 := by
      have hd := Core.dataEffect_performData s.core op
      generalize (s.core.performData op).2 = c' at hd
      cases hd with
      | nothing => exact .refl _
      | quietly i t _ _ => exact .samePipes rfl rfl
      | collecting i t =>
        have hset : Core.Unmoved s.core (s.core.setDataPipe i t) := .samePipes rfl rfl
        exact hset.collectTrapEvents
    exact owned_unmoved ho hu (Core.handles_performData s.core op)
  | createMessagePipe => exact owned_createMessagePipe hs ho
  | writeMessage p m => exact owned_writeMessage hw ho ha
  | readMessage p => exact owned_readMessage hs hw ho p
  | fuseMessagePipes a b => exact owned_fuseMessagePipes hs ho ha
  | close h => exact owned_close ho ha
  | createDataPipe elementSize capacity =>
    have htable := (hs.newDataPipe (.make elementSize capacity)).table
    refine owned_alloc_alloc ho (s.core.newDataPipe (.make elementSize capacity)) htable
      (.samePipes rfl rfl) ?_ ?_
    · rw [Core.cargo, htable.lookup_alloc, if_pos rfl]
    · rw [Core.cargo, (htable.alloc _).lookup_alloc, if_pos rfl]
  | createTrap handler =>
    cases handler with
    | none => exact owned_refuse ho _
    | some handler =>
      have hcargo : (s.core.alloc (.trap { handler := handler })).cargo s.core.nextHandle = [] := by
        rw [Core.cargo, hs.table.lookup_alloc, if_pos rfl]
      have hu : Core.Unmoved (s.core.alloc (.trap { handler := handler }))
          (s.core.createTrap (some handler)).2 := .samePipes rfl rfl
      have halloc := (Owned.alloc ho hs.table hcargo).unmoved hu
      refine owned_settle ho halloc fun x hx => ?_
      exact ((hs.table.lookup_alloc_none (.trap { handler := handler }) x).mp hx).2
  | setQuota p type limit =>
    show (s.settle (s.core.setQuota p type limit) []).Owned
    have hquota : ∀ (e : PipeEnd) (t : PipeState), t.queues = (s.core.pipes e.state).queues →
        Core.Unmoved s.core (s.core.setPipe e.state t) := by
      refine fun e t ht => .same rfl fun g e' _ => ?_
      unfold Core.queue
      by_cases hi : e'.state = e.state
      · rw [hi, Core.setPipe_self, ht]
      · rw [Core.setPipe_of_ne _ _ hi]
    unfold Core.setQuota
    dsimp only
    repeat' split
    all_goals first
      | exact owned_refuse ho _
      | exact owned_unmoved ho (hquota _ _ rfl) rfl
  | addTrigger t h signals condition context =>
    show (s.settle (s.core.addTrigger t h signals condition context) []).Owned
    unfold Core.addTrigger
    split
    · rename_i tr _ ht _
      exact owned_unmoved ho (.setTrap ht) rfl
    · exact owned_refuse ho _
  | removeTrigger t context =>
    show (s.settle (s.core.removeTrigger t context) []).Owned
    unfold Core.removeTrigger
    split
    · rename_i tr ht
      split
      · exact owned_refuse ho _
      · have hpost : Core.Unmoved s.core (s.core.post (s.core.cancelledEvent t tr context)) :=
          .samePipes rfl rfl
        exact owned_unmoved ho (hpost.trans (.setTrap ht)) rfl
    · exact owned_refuse ho _
  | armTrap t room wanted =>
    show (s.settle (s.core.armTrap t room wanted) []).Owned
    unfold Core.armTrap
    split
    · rename_i tr ht
      dsimp only
      split
      · exact owned_unmoved ho (.setTrap ht) rfl
      · exact owned_unmoved ho (.refl _) rfl
    · exact owned_refuse ho _
  | pumpEvents => exact owned_unmoved ho (.samePipes rfl rfl) rfl

/-! ### `Connector::Accept` -/

/-- What is sent is given up, whatever becomes of it: `Connector::Accept` releases the handles of the
message before it calls `WriteMessageRaw`. -/
def accept (s : Ledger) (pipe : Handle) (bytes : List UInt8) (handles : List Handle) : Ledger where
  core := (s.core.writeMessageRaw pipe bytes handles).2
  held := (s.core.writeMessageRaw pipe bytes handles).2.keep (s.held.diff handles)

/-- The program sends what it holds, into a message pipe with room, or sends nothing into one that is
closed. -/
def AcceptsSafely (s : Ledger) (pipe : Handle) (bytes : List UInt8) (handles : List Handle) : Prop :=
  handles.Subperm s.held ∧ ∃ e, s.core.IsEnd pipe e ∧
    if (s.core.pipes e.state).closed e.other.side = true ∨ (s.core.pipes e.state).closed e.side = true
    then handles = []
    else (s.core.queue e.other).length < (s.core.pipes e.state).quotaCount e.other.side ∧
      queueBytes (s.core.queue e.other) + bytes.length % 2 ^ 32 ≤
        (s.core.pipes e.state).quotaBytes e.other.side

theorem wired_attach {w : Wiring Handle Content} (hs : c.Sound) (hw : Core.Wired c w)
    (msg msg' : MessageObj) :
    (((c.alloc (.message {})).setObj c.nextHandle (.message msg)).setObj c.nextHandle
      (.message msg')).Sound ∧
    Core.Wired (((c.alloc (.message {})).setObj c.nextHandle (.message msg)).setObj c.nextHandle
      (.message msg')) w := by
  have hm : (c.alloc (.message {})).lookup c.nextHandle = some (.message {}) := by
    rw [hs.table.lookup_alloc, if_pos rfl]
  have hm' : ((c.alloc (.message {})).setObj c.nextHandle (.message msg)).lookup c.nextHandle =
      some (.message msg) := by
    rw [Core.lookup_setObj hm, if_pos rfl]
  have halloc : (c.alloc (.message {})).Sound := hs.alloc (by nofun) trivial
  have hset : ((c.alloc (.message {})).setObj c.nextHandle (.message msg)).Sound :=
    halloc.setObj hm (by nofun) trivial
  exact ⟨hset.setObj hm' (by nofun) trivial,
    ((hw.kept (.alloc hs (by nofun))).kept (.setObj hm (by nofun) (by nofun))).kept
      (.setObj hm' (by nofun) (by nofun))⟩

theorem owned_accept {w : Wiring Handle Content} (hs : s.core.Sound) (hw : Core.Wired s.core w)
    (ho : s.Owned) {pipe : Handle} {bytes : List UInt8} {handles : List Handle}
    (ha : s.AcceptsSafely pipe bytes handles) : (s.accept pipe bytes handles).Owned := by
  obtain ⟨hsub, e, hp, hroom⟩ := ha
  obtain ⟨msg, msg', hmsg, hmsg', hlen, heq⟩ := Core.writeMessageRaw_eq hs pipe bytes handles
  have hm : (s.core.alloc (.message {})).lookup s.core.nextHandle = some (.message {}) := by
    rw [hs.table.lookup_alloc, if_pos rfl]
  have hm₁ : ((s.core.alloc (.message {})).setObj s.core.nextHandle (.message msg)).lookup
      s.core.nextHandle = some (.message msg) := by
    rw [Core.lookup_setObj hm, if_pos rfl]
  have hm₂ : (((s.core.alloc (.message {})).setObj s.core.nextHandle (.message msg)).setObj
      s.core.nextHandle (.message msg')).lookup s.core.nextHandle = some (.message msg') := by
    rw [Core.lookup_setObj hm₁, if_pos rfl]
  -- the message is made, takes the handles and is filled
  have howned : Owned ⟨((s.core.alloc (.message {})).setObj s.core.nextHandle (.message msg)).setObj
      s.core.nextHandle (.message msg'), s.held.diff handles ++ [s.core.nextHandle]⟩ := by
    have halloc := Owned.alloc ho hs.table (Core.cargo_message hm)
    refine (owned_setMessage halloc hm fun x => ?_).unmoved (.setMessage hm₁ (hmsg'.trans hmsg.symm))
    have hle := hsub.count_le x
    rw [count_append, count_append, count_diff, hmsg]
    simp only [count_nil]
    omega
  have hpipes : (((s.core.alloc (.message {})).setObj s.core.nextHandle (.message msg)).setObj
      s.core.nextHandle (.message msg')).pipes = s.core.pipes := Core.alloc_pipes _ _
  have hw' := (wired_attach hs hw msg msg').2
  have hne : pipe ≠ s.core.nextHandle := hs.table.nextHandle_ne hp
  have hp' : (((s.core.alloc (.message {})).setObj s.core.nextHandle (.message msg)).setObj
      s.core.nextHandle (.message msg')).IsEnd pipe e := by
    rw [Core.IsEnd, Core.lookup_setObj hm₁, if_neg hne, Core.lookup_setObj hm, if_neg hne,
      hs.table.lookup_alloc, if_neg hne]
    exact hp
  unfold accept
  rw [heq]
  generalize ((s.core.alloc (.message {})).setObj s.core.nextHandle (.message msg)).setObj
    s.core.nextHandle (.message msg') = d at hm₂ howned hpipes hw' hp' ⊢
  -- it is written, and gone
  have haccounts : (⟨d, s.held.diff handles ++ [s.core.nextHandle]⟩ : Ledger).Accounts
      (.writeMessage pipe s.core.nextHandle) := by
    intro e' m' he' hm'
    obtain rfl := Obj.messagePipe.inj (some.inj (hp'.symm.trans he'))
    obtain rfl := Obj.message.inj (some.inj (hm₂.symm.trans hm'))
    refine ⟨mem_append_right _ mem_cons_self, fun hclosed => ?_⟩
    dsimp only at hclosed
    rw [hpipes] at hclosed
    rw [if_pos hclosed] at hroom
    exact hmsg'.trans hroom
  have hgone : (d.writeMessage pipe s.core.nextHandle).2.lookup s.core.nextHandle = none := by
    refine Core.lookup_writeMessage hp' hm₂ fun hopen => ?_
    rw [hpipes] at hopen
    rw [if_neg hopen] at hroom
    rw [Core.queue, hpipes, hlen]
    exact hroom
  have hwritten := owned_writeMessage hw' howned haccounts
  have hreply : (d.writeMessage pipe s.core.nextHandle).1.handles = [] := by
    rcases Core.writeMessage_cases d pipe s.core.nextHandle with ⟨r, -, h⟩ | ⟨_, _, -, -, -, h⟩ |
      ⟨_, _, -, -, -, h⟩
    · rw [h]
      rfl
    · rw [h]
    · rw [h]
  have hheld : ((⟨d, s.held.diff handles ++ [s.core.nextHandle]⟩ : Ledger).call
      (.writeMessage pipe s.core.nextHandle)).held =
        (d.writeMessage pipe s.core.nextHandle).2.keep (s.held.diff handles) := by
    show (d.writeMessage pipe s.core.nextHandle).2.keep
      ((s.held.diff handles ++ [s.core.nextHandle]).diff []) ++
        (d.writeMessage pipe s.core.nextHandle).1.handles = _
    rw [hreply, append_nil, diff_nil, Core.keep, filter_append,
      filter_cons_of_neg (by rw [hgone]; exact Bool.false_ne_true), filter_nil,
      append_nil]
    rfl
  intro x
  have hx := hwritten x
  rw [hheld] at hx
  exact hx

inductive Act where
  | call (op : Op)
  | accept (pipe : Handle) (bytes : List UInt8) (handles : List Handle)

def step (s : Ledger) : Act → Ledger
  | .call op => s.call op
  | .accept pipe bytes handles => s.accept pipe bytes handles

def Accountable (s : Ledger) : Act → Prop
  | .call op => s.Accounts op
  | .accept pipe bytes handles => s.AcceptsSafely pipe bytes handles

/-- What a ledger is worth: every number in use has exactly one owner, and what is attached to a
message that is dropped is closed exactly if nothing is attached. -/
structure Settled (s : Ledger) : Prop where
  owned : s.Owned
  closed : ∀ h ∈ s.held,
    (∀ x ∈ s.core.cargo h, (s.core.step (.close h)).lookup x = none) ↔ s.core.cargo h = []
  refused : ∀ p, ∀ m ∈ s.held, ∀ msg, s.core.lookup m = some (.message msg) →
    (s.core.writeMessage p m).1.result ≠ .ok →
      ((∀ x ∈ msg.handles, (s.core.step (.writeMessage p m)).lookup x = none) ↔ msg.handles = [])

theorem Owned.not_mem_cargo (ho : s.Owned) (hx : x ∈ s.held) (h : Handle) : x ∉ s.core.cargo h := by
  intro hmem
  have hlt : h < s.core.slots.length := by
    by_contra hle
    rw [Core.cargo_none (Core.lookup_of_length_le (Nat.le_of_not_lt hle))] at hmem
    cases hmem
  have hcarried : x ∈ s.core.carried :=
    mem_flatMap.mpr ⟨h, mem_range.mpr hlt, hmem⟩
  have hcount := ho x
  rw [count_append, Core.live] at hcount
  have := List.count_pos_iff.mpr hx
  have := List.count_pos_iff.mpr hcarried
  split at hcount <;> omega

theorem Owned.lookup_cargo (ho : s.Owned) (hx : x ∈ s.core.cargo h) : s.core.lookup x ≠ none := by
  intro hnone
  have hlt : h < s.core.slots.length := by
    by_contra hle
    rw [Core.cargo_none (Core.lookup_of_length_le (Nat.le_of_not_lt hle))] at hx
    cases hx
  have hcarried : x ∈ s.core.carried := mem_flatMap.mpr ⟨h, mem_range.mpr hlt, hx⟩
  have hcount := ho x
  rw [count_append, Core.live_eq_zero hnone] at hcount
  have := List.count_pos_iff.mpr hcarried
  omega

theorem settled_of_owned (ho : s.Owned) : s.Settled where
  owned := ho
  closed h hh := by
    constructor
    · intro hclosed
      refine eq_nil_iff_forall_not_mem.mpr fun x hx => ?_
      rcases (Core.lookup_close_iff s.core h x).mp (hclosed x hx) with rfl | hnone
      · exact Owned.not_mem_cargo ho hh _ hx
      · exact Owned.lookup_cargo ho hx hnone
    · intro hnil x hx
      rw [hnil] at hx
      cases hx
  refused p m hm msg hmsg hbad := by
    have hcargo := Core.cargo_message hmsg
    constructor
    · intro hclosed
      refine eq_nil_iff_forall_not_mem.mpr fun x hx => ?_
      rcases Core.lookup_refused hbad (hclosed x hx) with rfl | hnone
      · exact Owned.not_mem_cargo ho hm _ (hcargo ▸ hx)
      · exact Owned.lookup_cargo ho (hcargo ▸ hx) hnone
    · intro hnil x hx
      rw [hnil] at hx
      cases hx

/-- **Every number in use has exactly one owner** in a run of accountable calls, where messages are
dropped only when nothing is attached to them; it is then that all that is attached is closed. -/
theorem settled_of_reaches (h : Machine.Reaches ({} : Ledger) step Accountable s) : s.Settled := by
  have hstart : Owned {} := fun x => by
    rw [Core.live_eq_zero (by rcases x with _ | x <;> rfl)]
    rfl
  have hinv : s.core.Sound ∧ (∃ w, Core.Wired s.core w) ∧ s.Owned := by
    refine h.invariant (I := fun s => s.core.Sound ∧ (∃ w, Core.Wired s.core w) ∧ s.Owned)
      ⟨Core.sound_start, ⟨_, Core.wired_start⟩, hstart⟩ fun s a ⟨hs, ⟨w, hw⟩, ho⟩ ha => ?_
    cases a with
    | call op =>
      exact ⟨Core.sound_step hs op, ⟨_, Core.wired_step hs hw op⟩, owned_call hs hw ho ha⟩
    | accept pipe bytes handles =>
      obtain ⟨msg, msg', -, -, -, heq⟩ := Core.writeMessageRaw_eq hs pipe bytes handles
      obtain ⟨hs', hw'⟩ := wired_attach hs hw msg msg'
      have hcore : (s.step (.accept pipe bytes handles)).core =
          (((s.core.alloc (.message {})).setObj s.core.nextHandle (.message msg)).setObj
            s.core.nextHandle (.message msg')).step (.writeMessage pipe s.core.nextHandle) :=
        congrArg Prod.snd heq
      rw [hcore]
      exact ⟨Core.sound_step hs' _, ⟨_, Core.wired_step hs' hw' _⟩, owned_accept hs hw ho ha⟩
  exact settled_of_owned hinv.2.2

/-- An end of a pipe is sent through another pipe and received. -/
def sentOn : List Act :=
  [.call .createMessagePipe, .call .createMessagePipe, .accept 1 [7] [3], .call (.readMessage 2),
    .call (.silent (.getMessageData 5 (some 1) true)), .call (.close 5)]

/-- A message with an end of a pipe attached is dropped unread. -/
def droppedMessage : List Act :=
  [.call .createMessagePipe, .call (.silent .createMessage),
    .call (.silent (.appendMessageData 3 0 [1] false)), .call (.close 3)]

/-- A pipe is closed while a message with an end of another pipe is queued. -/
def droppedPipe : List Act :=
  [.call .createMessagePipe, .call .createMessagePipe, .accept 1 [] [3], .call (.close 1),
    .call (.close 2)]

/-- An end of a pipe is sent to a pipe whose other end is closed. -/
def refusedClosed : List Act :=
  [.call .createMessagePipe, .call .createMessagePipe, .call (.close 2), .accept 1 [] [3]]

/-- A message is sent to a pipe that has no room. -/
def refusedFull : List Act :=
  [.call .createMessagePipe, .call (.setQuota 2 0 0), .accept 1 [] []]

theorem settled_sentOn : (sentOn.foldl step {}).Settled := by
  refine settled_of_reaches (Machine.Reaches.start.along ?_)
  refine ⟨trivial, trivial, ⟨by decide, ⟨0, false⟩, rfl, by decide⟩, trivial, fun msg hm => ?_,
    fun _ => by decide, trivial⟩
  obtain rfl := Obj.message.inj (some.inj hm)
  decide

theorem not_owned_dropped :
    ¬ (droppedMessage.foldl step {}).Owned ∧ ¬ (droppedPipe.foldl step {}).Owned ∧
      ¬ (refusedClosed.foldl step {}).Owned ∧ ¬ (refusedFull.foldl step {}).Owned := by
  refine ⟨fun h => absurd (h 1) ?_, fun h => absurd (h 3) ?_, fun h => absurd (h 3) ?_,
    fun h => absurd (h 3) ?_⟩ <;> decide

end Ledger

end Voodoo.Whp
