import Voodoo.Whp.Run

/-!
# Handle numbers

What `Alloc` and `Free` give out and take back over whole runs.  A number is given
out only while nothing lives under it, an object keeps its number until it is
freed, and a number that has been closed stays closed until it is given out again.
Numbers have no bound here: a table of `2 ^ 32` slots, where those of the source wrap,
is not looked at.
-/

namespace Voodoo.Whp

/-- The operation calls `Alloc`, if it is not refused. -/
def Op.allocates : Op → Bool
  | .silent .createMessage | .silent (.createSharedBuffer _) | .silent (.duplicateBufferHandle _)
  | .silent (.wrapPlatformHandle ..) | .silent (.wrapPlatformSharedMemoryRegion ..)
  | .createMessagePipe | .readMessage _ | .createDataPipe .. | .createTrap _ => true
  | _ => false

namespace Core

variable {c c' c'' : Core} {g h : Handle} {o obj : Obj} {op : Op} {news news' : List Handle}

/-- The numbers that an operation gives out. -/
def given (c : Core) (op : Op) : List Handle :=
  if op.allocates then (c.perform op).1.handles else []

/-- Only numbers of the list are given out, none of them was in use, and no object changes its
number. -/
structure Gives (c : Core) (news : List Handle) (c' : Core) : Prop where
  unused : ∀ g ∈ news, c.lookup g = none
  free : ∀ g, c.lookup g = none → g ∉ news → c'.lookup g = none
  serial : ∀ g, c.lookup g ≠ none → c'.serial g = c.serial g

namespace Gives

theorem same (hslots : c'.slots = c.slots) : Gives c [] c' where
  unused := nofun
  free g hg _ := by rw [lookup, hslots]; exact hg
  serial g _ := by rw [Core.serial, hslots, Core.serial]

protected theorem refl (c : Core) : Gives c [] c := same rfl

theorem after (h₁ : Gives c news c') (hserial : c''.serial = c'.serial)
    (hfree : ∀ g, c'.lookup g = none → c''.lookup g = none) : Gives c news c'' where
  unused := h₁.unused
  free g hg hnew := hfree g (h₁.free g hg hnew)
  serial g hlive := by rw [hserial, h₁.serial g hlive]

theorem sameAfter (h₁ : Gives c news c') (hslots : c''.slots = c'.slots) : Gives c news c'' :=
  h₁.after (funext fun g => by rw [Core.serial, hslots, Core.serial]) fun g hg => by
    rw [lookup, hslots]
    exact hg

theorem freed (h₁ : Gives c news c') (h : Handle) : Gives c news (c'.free h) :=
  h₁.after (serial_free c' h) fun g hg => by
    rw [lookup_free]
    split
    · rfl
    · exact hg

theorem setObj (h₁ : Gives c news c') (hlive : c'.lookup h = some o) (obj : Obj) :
    Gives c news (c'.setObj h obj) :=
  h₁.after (serial_setObj c' h obj) fun g hg => by
    rw [lookup_setObj hlive]
    split
    · rename_i hgh
      rw [hgh, hlive] at hg
      cases hg
    · exact hg

theorem collectTrapEvents (h₁ : Gives c news c') : Gives c news c'.collectTrapEvents := by
  have hc := collected_collectTrapEvents c'
  refine h₁.after hc.serial_eq fun g hg => ?_
  rw [hc.lookup_eq (fun t ht => nomatch hg.symm.trans ht)]
  exact hg

theorem alloc (h₁ : Gives c news c') (ht : c'.Table)
    (hkept : ∀ g, c.lookup g ≠ none → c'.lookup g ≠ none) (obj : Obj) :
    Gives c (news ++ [c'.nextHandle]) (c'.alloc obj) where
  unused g hg := by
    rcases List.mem_append.mp hg with hg | hg
    · exact h₁.unused g hg
    · obtain rfl := List.mem_singleton.mp hg
      exact not_not.mp fun hlive => hkept _ hlive ht.nextHandle_free
  free g hg hnew := by
    obtain ⟨hnew, hne⟩ := not_or.mp (mt List.mem_append.mpr hnew)
    rw [ht.lookup_alloc, if_neg (mt List.mem_singleton.mpr hne)]
    exact h₁.free g hg hnew
  serial g hlive := by
    have hne : g ≠ c'.nextHandle := fun heq => hkept g hlive (heq ▸ ht.nextHandle_free)
    rw [ht.serial_alloc, if_neg hne, h₁.serial g hlive]

end Gives

theorem gives_alloc (hs : c.Sound) (d : Core) (hslots : d.slots = c.slots)
    (hfree : d.freeList = c.freeList) (obj : Obj) : Gives c [c.nextHandle] (d.alloc obj) := by
  have htable : d.Table := hs.table.congr (by rw [hslots]) hfree fun h => by
    rw [lookup, lookup, hslots]
  have hnext : d.nextHandle = c.nextHandle := by rw [nextHandle, nextHandle, hslots, hfree]
  have halloc := (Gives.same hslots).alloc htable
    (fun g hg => by rw [lookup, hslots]; exact hg) obj
  rwa [List.nil_append, hnext] at halloc

theorem gives_alloc_alloc (hs : c.Sound) (d : Core) (hslots : d.slots = c.slots)
    (hfree : d.freeList = c.freeList) (o obj : Obj) :
    Gives c [d.nextHandle, (d.alloc o).nextHandle] ((d.alloc o).alloc obj) := by
  have htable : d.Table := hs.table.congr (by rw [hslots]) hfree fun h => by
    rw [lookup, lookup, hslots]
  have hnext : d.nextHandle = c.nextHandle := by rw [nextHandle, nextHandle, hslots, hfree]
  rw [hnext]
  refine (gives_alloc hs d hslots hfree o).alloc (htable.alloc o) (fun g hg => ?_) obj
  rw [htable.lookup_alloc]
  split
  · rintro ⟨⟩
  · rw [lookup, hslots]
    exact hg

theorem gives_performSilent (hs : c.Sound) (op : SilentOp) :
    Gives c (c.given (.silent op)) (c.performSilent op).2 := by
  cases op with
  | createMessage => exact gives_alloc hs c rfl rfl _
  | createSharedBuffer n =>
    simp only [given, Op.allocates, if_true, perform, performSilent, createSharedBuffer]
    split
    · exact .refl c
    · exact gives_alloc hs (c.newBuffer _) rfl rfl _
  | duplicateBufferHandle b =>
    simp only [given, Op.allocates, if_true, perform, performSilent, duplicateBufferHandle]
    split
    · exact gives_alloc hs c rfl rfl _
    · exact .refl c
  | wrapPlatformHandle type value =>
    simp only [given, Op.allocates, if_true, perform, performSilent, wrapPlatformHandle]
    split
    · exact gives_alloc hs c rfl rfl _
    · exact .refl c
  | wrapPlatformSharedMemoryRegion ns n guid mode =>
    simp only [given, Op.allocates, if_true, perform, performSilent, wrapPlatformSharedMemoryRegion]
    split
    · exact .refl c
    · split
      · exact gives_alloc hs (c.newBuffer _) rfl rfl _
      · exact .refl c
  | unwrapPlatformHandle h =>
    simp only [performSilent, unwrapPlatformHandle]
    split
    · exact (Gives.refl c).freed _
    · exact .refl c
  | unwrapPlatformSharedMemoryRegion h room wanted =>
    simp only [performSilent, unwrapPlatformSharedMemoryRegion]
    split
    · split
      · exact .refl c
      · split
        · exact .refl c
        · rename_i i _ _ _
          have hset : Gives c [] (c.setBuffer i { c.buffers i with platOwns := false }) := .same rfl
          exact hset.freed _
    · exact .refl c
  | _ =>
    simp only [performSilent, appendMessageData, fillMessage, getMessageData, serializeMessage,
      messageSerialized, reserveMessageCapacity, setMessageContext, getMessageContext, getBufferInfo,
      queryQuota, queryHandleSignalsState]
    repeat' split
    all_goals first
      | exact .refl c
      | exact (Gives.refl c).setObj ‹_› _

/-- **What an operation gives out was not in use, and is all that comes into use.** -/
theorem gives_step (hs : c.Sound) (op : Op) : Gives c (c.given op) (c.step op) := by
  cases op with
  | silent op => exact gives_performSilent hs op
  | data op =>
    have hd := dataEffect_performData c op
    show Gives c [] (c.performData op).2
    generalize (c.performData op).2 = c' at hd
    cases hd with
    | nothing => exact .refl c
    | quietly i s _ _ => exact .same rfl
    | collecting i s =>
      have hset : Gives c [] (c.setDataPipe i s) := .same rfl
      exact hset.collectTrapEvents
  | createMessagePipe => exact gives_alloc_alloc hs (c.newPipe {}) rfl rfl _ _
  | writeMessage p m =>
    show Gives c [] (c.writeMessage p m).2
    rcases writeMessage_cases c p m with ⟨r, -, heq⟩ | ⟨e, msg, -, hm, -, heq⟩ |
      ⟨e, msg, -, hm, -, heq⟩ <;> rw [heq]
    · exact .refl c
    · exact ((Gives.refl c).freed m).collectTrapEvents
    · have hset : Gives c []
          (c.setQueue e.other (c.queue e.other ++ [{ msg with committed := true }])) := .same rfl
      exact (hset.freed m).collectTrapEvents
  | readMessage p =>
    show Gives c (c.readMessage p).1.handles (c.readMessage p).2
    rcases readMessage_cases c p with ⟨-, heq⟩ | ⟨e, r, -, -, -, heq⟩ |
      ⟨e, msg, rest, -, -, heq⟩ <;> rw [heq]
    · exact .refl c
    · exact .refl c
    · exact gives_alloc hs (c.setQueue e rest) rfl rfl _
  | fuseMessagePipes a b =>
    show Gives c [] (c.fuseMessagePipes a b).2
    rcases fuseMessagePipes_cases c a b with ⟨r, -, heq⟩ | ⟨e0, e1, h0, h1, hf, heq⟩ <;> rw [heq]
    · exact .refl c
    · have hnew : Gives c [] (c.newPipe (c.fuse e0 e1 e0.other e1.other)) := .same rfl
      have hset := hnew.setObj (h := h0) hf.lookup_h0 (.messagePipe ⟨c.pipeCount, false⟩)
      have hset' := hset.setObj (h := h1) (o := .messagePipe e1.other)
        (by rw [lookup_setObj (c := c.newPipe _) hf.lookup_h0, if_neg (Ne.symm hf.h0_ne_h1)]
            exact hf.lookup_h1)
        (.messagePipe ⟨c.pipeCount, true⟩)
      exact ((hset'.freed a).freed b).collectTrapEvents
  | setQuota p type limit =>
    show Gives c [] (c.setQuota p type limit).2
    simp only [setQuota]
    repeat' split
    all_goals exact .same rfl
  | createDataPipe elementSize capacity => exact gives_alloc_alloc hs (c.newDataPipe _) rfl rfl _ _
  | createTrap handler =>
    cases handler with
    | none => exact .refl c
    | some handler => exact (gives_alloc hs c rfl rfl _).sameAfter rfl
  | addTrigger t h signals condition context =>
    show Gives c [] (c.addTrigger t h signals condition context).2
    simp only [addTrigger]
    split
    · exact (Gives.refl c).setObj ‹_› _
    · exact .refl c
  | removeTrigger t context =>
    show Gives c [] (c.removeTrigger t context).2
    simp only [removeTrigger]
    split
    · rename_i tr htrap
      split
      · exact .refl c
      · have hpost : Gives c [] (c.post (c.cancelledEvent t tr context)) := .same rfl
        exact hpost.setObj htrap _
    · exact .refl c
  | armTrap t room wanted =>
    show Gives c [] (c.armTrap t room wanted).2
    simp only [armTrap]
    split
    · split
      · exact (Gives.refl c).setObj ‹_› _
      · exact .refl c
    · exact .refl c
  | pumpEvents => exact .same rfl
  | close h =>
    show Gives c [] (c.close h).2
    rw [close]
    split
    · exact .refl c
    · rename_i o hlive
      have hslots : (c.release h o).slots = c.slots := by cases o <;> rfl
      exact ((Gives.same hslots).freed h).collectTrapEvents

/-! ### Over whole runs -/

theorem lookup_close (c : Core) (h : Handle) : (c.step (.close h)).lookup h = none := by
  rw [step, perform, close]
  split
  · exact ‹_›
  · rename_i o hlive
    have hc := collected_collectTrapEvents ((c.release h o).free h)
    have hnone : ((c.release h o).free h).lookup h = none := by rw [lookup_free, if_pos rfl]
    rw [hc.lookup_eq (fun t ht => by cases hnone.symm.trans ht)]
    exact hnone

theorem lookup_along (hs : c.Sound) (hnone : c.lookup h = none) {ops : List Op}
    (hops : Machine.Along step (fun c op => h ∉ c.given op) c ops) :
    (ops.foldl step c).lookup h = none := by
  induction ops generalizing c with
  | nil => exact hnone
  | cons op ops ih =>
    exact ih (sound_step hs op) ((gives_step hs op).free h hnone hops.1) hops.2

theorem close_of_lookup (hnone : c.lookup h = none) : c.close h = c.refuse .invalidArgument := by
  rw [close, hnone]

/-- A pipe is made, one end of it closed and its number given out again. -/
def reused : List Op := [.createMessagePipe, .close 1, .close 2, .createTrap (some 0)]

end Core

end Voodoo.Whp
