import Voodoo.Whp.Run

/-!
# What raises an event

A function of the core that is none of those on traps leaves the traps with the triggers they have,
and queues events for these only (`raises_step`).  `WhpClose` of a trap ends it and drops the events
with the contexts of its triggers (`closesTrap_close`).
-/

namespace Voodoo.Whp

/-- The triggers, if it is a trap. -/
def Obj.triggers : Obj → Option (List TrapTrigger)
  | .trap t => some t.triggers
  | _ => none

theorem Obj.triggers_of_not_trap {o : Obj} (ho : ∀ t, o ≠ .trap t) : o.triggers = none := by
  cases o with
  | trap t => exact absurd rfl (ho t)
  | _ => rfl

namespace Core

variable {c c' c'' : Core} {h g : Handle} {o obj : Obj} {op : Op} {ts : List TrapTrigger}
  {t t' : TrapObj}

/-- The triggers of the trap a handle stands for. -/
def triggersAt (c : Core) (h : Handle) : Option (List TrapTrigger) :=
  (c.lookup h).bind Obj.triggers

theorem triggersAt_of_trap (ht : c.lookup h = some (.trap t)) :
    c.triggersAt h = some t.triggers := by
  rw [triggersAt, ht]
  rfl

theorem trap_of_triggersAt (hts : c.triggersAt h = some ts) :
    ∃ t, c.lookup h = some (.trap t) ∧ t.triggers = ts := by
  obtain ⟨o, ho, hts⟩ := Option.bind_eq_some_iff.mp hts
  cases o with
  | trap t => exact ⟨t, ho, Option.some.inj hts⟩
  | messagePipe e => cases hts
  | message m => cases hts
  | dataPipeProducer i => cases hts
  | dataPipeConsumer i => cases hts
  | sharedBuffer i => cases hts
  | platform p => cases hts

theorem triggersAt_of_eq (heq : c'.lookup h = c.lookup h) : c'.triggersAt h = c.triggersAt h := by
  rw [triggersAt, triggersAt, heq]

/-- The event is one for a trigger of a trap. -/
def From (c : Core) (e : PendingEvent) : Prop :=
  ∃ h ts trig, c.triggersAt h = some ts ∧ trig ∈ ts ∧ e.event.triggerContext = trig.context ∧
    e.trap = c.serial h

/-- The traps stay, and events are queued for them only. -/
structure Raises (c c' : Core) : Prop where
  triggersAt : c'.triggersAt = c.triggersAt
  serial : ∀ h, c.triggersAt h ≠ none → c'.serial h = c.serial h
  events : ∀ e ∈ c'.pendingEvents, e ∈ c.pendingEvents ∨ c.From e

namespace Raises

protected theorem refl (c : Core) : Raises c c := ⟨rfl, fun _ _ => rfl, fun _ => Or.inl⟩

protected theorem trans (h₁ : Raises c c') (h₂ : Raises c' c'') : Raises c c'' where
  triggersAt := h₂.triggersAt.trans h₁.triggersAt
  serial h hts := (h₂.serial h (h₁.triggersAt ▸ hts)).trans (h₁.serial h hts)
  events e he := by
    rcases h₂.events e he with he | ⟨h, ts, trig, hts, hmem, hcontext, htrap⟩
    · exact h₁.events e he
    · rw [h₁.triggersAt] at hts
      refine Or.inr ⟨h, ts, trig, hts, hmem, hcontext, htrap.trans (h₁.serial h ?_)⟩
      rw [hts]
      nofun

theorem same (hslots : c'.slots = c.slots) (hevents : c'.pendingEvents ⊆ c.pendingEvents) :
    Raises c c' where
  triggersAt := funext fun h => triggersAt_of_eq (by rw [lookup, lookup, hslots])
  serial h _ := by rw [Core.serial, hslots, Core.serial]
  events e he := Or.inl (hevents he)

theorem silent (hq : Silent c c') : Raises c c' where
  triggersAt := by
    funext h
    cases hts : c.triggersAt h with
    | some ts =>
      obtain ⟨t, ht, rfl⟩ := trap_of_triggersAt hts
      exact triggersAt_of_trap ((hq.lookup h (.trap t) rfl).mpr ht)
    | none =>
      cases hts' : c'.triggersAt h with
      | none => rfl
      | some ts =>
        obtain ⟨t, ht, -⟩ := trap_of_triggersAt hts'
        rw [triggersAt_of_trap ((hq.lookup h (.trap t) rfl).mp ht)] at hts
        cases hts
  serial h hts := by
    obtain ⟨ts, hts⟩ := Option.ne_none_iff_exists'.mp hts
    obtain ⟨t, ht, -⟩ := trap_of_triggersAt hts
    exact hq.serial h (.trap t) rfl ht
  events e he := Or.inl (hq.pendingEvents ▸ he)

theorem collected (hc : Collected c c') : Raises c c' where
  triggersAt := by
    funext h
    rcases hc.obj h with heq | ⟨t, hold, hnew⟩
    · exact triggersAt_of_eq heq
    · rw [triggersAt_of_trap hold, triggersAt_of_trap hnew]
  serial h _ := by rw [hc.serial_eq]
  events e he := by
    obtain ⟨slots, events, hc', -, -, hevents⟩ := hc.rest
    rw [hc'] at he
    rcases List.mem_append.mp he with he | he
    · exact Or.inl he
    · obtain ⟨th, t, trig, ht, hmem, -, rfl⟩ := hevents e he
      exact Or.inr ⟨th, t.triggers, trig, triggersAt_of_trap ht, hmem, rfl, rfl⟩

theorem collectTrapEvents (hp : Raises c c') : Raises c c'.collectTrapEvents :=
  hp.trans (collected (collected_collectTrapEvents c'))

theorem alloc (hs : c.Sound) (hobj : ∀ t, obj ≠ .trap t) : Raises c (c.alloc obj) where
  triggersAt := by
    funext h
    by_cases hh : h = c.nextHandle
    · rw [Core.triggersAt, hs.table.lookup_alloc, if_pos hh, Core.triggersAt, hh,
        hs.table.nextHandle_free]
      exact Obj.triggers_of_not_trap hobj
    · exact triggersAt_of_eq (by rw [hs.table.lookup_alloc, if_neg hh])
  serial h hts := by
    have hne : h ≠ c.nextHandle := by
      rintro rfl
      rw [Core.triggersAt, hs.table.nextHandle_free] at hts
      exact hts rfl
    rw [hs.table.serial_alloc, if_neg hne]
  events e he := Or.inl (alloc_pendingEvents c obj ▸ he)

theorem free (hlive : c.lookup h = some o) (ho : ∀ t, o ≠ .trap t) : Raises c (c.free h) where
  triggersAt := by
    funext g
    by_cases hg : g = h
    · rw [Core.triggersAt, lookup_free, if_pos hg, Core.triggersAt, hg, hlive]
      exact (Obj.triggers_of_not_trap ho).symm
    · exact triggersAt_of_eq (by rw [lookup_free, if_neg hg])
  serial g _ := by rw [serial_free]
  events e he := Or.inl (free_pendingEvents c h ▸ he)

theorem setTrap (hlive : c.lookup h = some (.trap t)) (hts : t'.triggers = t.triggers) :
    Raises c (c.setObj h (.trap t')) where
  triggersAt := by
    funext g
    by_cases hg : g = h
    · rw [Core.triggersAt, lookup_setObj hlive, if_pos hg, hg, triggersAt_of_trap hlive, ← hts]
      rfl
    · exact triggersAt_of_eq (by rw [lookup_setObj hlive, if_neg hg])
  serial g _ := by rw [serial_setObj]
  events e he := Or.inl he

theorem fused {a b h0 h1 : Handle} {e0 e1 : PipeEnd} (hf : Fusion c a b e0 e1 h0 h1) :
    Raises c (c.fused a b e0 e1 h0 h1) where
  triggersAt := by
    have hpipe {x : Handle} {e : PipeEnd} (hx : c.lookup x = some (.messagePipe e)) :
        c.triggersAt x = none := by
      rw [Core.triggersAt, hx]
      rfl
    funext g
    rw [Core.triggersAt, hf.lookup_fused]
    by_cases hab : g = a ∨ g = b
    · rw [if_pos hab]
      rcases hab with rfl | rfl
      · exact (hpipe hf.lookup_a).symm
      · exact (hpipe hf.lookup_b).symm
    · rw [if_neg hab]
      by_cases h1' : g = h1
      · rw [if_pos h1', h1', hpipe hf.lookup_h1]
        rfl
      · rw [if_neg h1']
        by_cases h0' : g = h0
        · rw [if_pos h0', h0', hpipe hf.lookup_h0]
          rfl
        · rw [if_neg h0', Core.triggersAt]
  serial g _ := by
    rw [Core.fused, serial_free, serial_free, serial_setObj, serial_setObj]
    rfl
  events e he := by
    rw [Core.fused, free_pendingEvents, free_pendingEvents] at he
    exact Or.inl he

end Raises

/-- A function that is none of those on traps, nor closes one. -/
def Trapless (c : Core) : Op → Prop
  | .createTrap _ | .addTrigger .. | .removeTrigger .. | .armTrap .. | .pumpEvents => False
  | .close h => ∀ t, c.lookup h ≠ some (.trap t)
  | _ => True

theorem raises_step (hs : c.Sound) (hop : c.Trapless op) : Raises c (c.step op) := by
  cases op with
  | silent op => exact .silent (silent_performSilent hs op)
  | data op =>
    have hd := dataEffect_performData c op
    rw [step, perform]
    generalize (c.performData op).2 = c' at hd
    cases hd with
    | nothing => exact .refl c
    | quietly i s _ _ => exact .same rfl fun _ => id
    | collecting i s =>
      have hset : Raises c (c.setDataPipe i s) := .same rfl fun _ => id
      exact hset.collectTrapEvents
  | createMessagePipe =>
    have hnew : Raises c (c.newPipe {}) := .same rfl fun _ => id
    exact (hnew.trans (.alloc (hs.newPipe {}) (by rintro _ ⟨⟩))).trans
      (.alloc ((hs.newPipe {}).alloc (by rintro _ ⟨⟩) (Nat.lt_succ_self _)) (by rintro _ ⟨⟩))
  | createDataPipe elementSize capacity =>
    have hnew : Raises c (c.newDataPipe (.make elementSize capacity)) := .same rfl fun _ => id
    exact (hnew.trans (.alloc (hs.newDataPipe _) (by rintro _ ⟨⟩))).trans
      (.alloc ((hs.newDataPipe _).alloc (by rintro _ ⟨⟩) (Nat.lt_succ_self _)) (by rintro _ ⟨⟩))
  | writeMessage p m =>
    rw [step, perform]
    rcases writeMessage_cases c p m with ⟨r, -, heq⟩ | ⟨e, msg, -, hm, -, heq⟩ |
      ⟨e, msg, -, hm, -, heq⟩ <;> rw [heq]
    · exact .refl c
    · exact (Raises.free hm (by rintro _ ⟨⟩)).collectTrapEvents
    · have hset : Raises c (c.setQueue e.other
        (c.queue e.other ++ [{ msg with committed := true }])) :=
        .same rfl fun _ => id
      exact (hset.trans (.free hm (by rintro _ ⟨⟩))).collectTrapEvents
  | readMessage p =>
    rw [step, perform]
    rcases readMessage_cases c p with ⟨-, heq⟩ | ⟨e, r, -, -, -, heq⟩ |
      ⟨e, msg, rest, -, -, heq⟩ <;> rw [heq]
    · exact .refl c
    · exact .refl c
    · have hset : Raises c (c.setQueue e rest) := .same rfl fun _ => id
      have hsound : (c.setQueue e rest).Sound := hs.same rfl rfl rfl rfl rfl
      exact hset.trans (.alloc hsound (by rintro _ ⟨⟩))
  | fuseMessagePipes a b =>
    rw [step, perform]
    rcases fuseMessagePipes_cases c a b with ⟨r, -, heq⟩ | ⟨e0, e1, h0, h1, hf, heq⟩ <;> rw [heq]
    · exact .refl c
    · exact (Raises.fused hf).collectTrapEvents
  | setQuota p type limit =>
    simp only [step, perform, setQuota]
    repeat' split
    all_goals first
      | exact .refl c
      | exact .same rfl fun _ => id
  | createTrap handler => cases hop
  | addTrigger t h signals condition context => cases hop
  | removeTrigger t context => cases hop
  | armTrap t room wanted => cases hop
  | pumpEvents => cases hop
  | close h =>
    rw [step, perform, close]
    split
    · exact .refl c
    · rename_i o hlive
      have ho : ∀ t, o ≠ .trap t := fun t h' => hop t (h' ▸ hlive)
      have hslots : (c.release h o).slots = c.slots := by cases o <;> rfl
      have hevents : (c.release h o).pendingEvents ⊆ c.pendingEvents := by
        cases o with
        | trap t => exact absurd rfl (ho t)
        | _ => exact fun _ => id
      have hlive' : (c.release h o).lookup h = some o := by rw [lookup, hslots]; exact hlive
      exact ((Raises.same hslots hevents).trans (.free hlive' ho)).collectTrapEvents

theorem raises_armTrap (c : Core) (h : Handle) (room : Option Nat) (wanted : Bool) :
    Raises c (c.armTrap h room wanted).2 := by
  unfold armTrap
  split
  · rename_i t hlive
    dsimp only
    split
    · exact .setTrap hlive rfl
    · exact .refl c
  · exact .refl c

/-- The trap ends, and with it the events with the contexts of its triggers. -/
structure ClosesTrap (c : Core) (h : Handle) (ts : List TrapTrigger) (c' : Core) : Prop where
  triggersAt : ∀ g, c'.triggersAt g = if g = h then none else c.triggersAt g
  serial : ∀ g, g ≠ h → c.triggersAt g ≠ none → c'.serial g = c.serial g
  events : ∀ e ∈ c'.pendingEvents,
    (e ∈ c.pendingEvents ∧ e.event.triggerContext ∉ ts.map (·.context)) ∨ c'.From e

theorem closesTrap_close (hlive : c.lookup h = some (.trap t)) :
    ClosesTrap c h t.triggers (c.close h).2 := by
  have hclose : (c.close h).2 = ((c.release h (.trap t)).free h).collectTrapEvents := by
    rw [close, hlive]
  have hcol := Raises.collected (collected_collectTrapEvents ((c.release h (.trap t)).free h))
  rw [hclose]
  refine ⟨fun g => ?_, fun g _ hts => ?_, fun e he => ?_⟩
  · rw [hcol.triggersAt, Core.triggersAt, lookup_free]
    by_cases hg : g = h
    · rw [if_pos hg, if_pos hg, Option.bind_none]
    · rw [if_neg hg, if_neg hg]
      rfl
  · rw [(collected_collectTrapEvents _).serial_eq, serial_free]
    rfl
  · rcases hcol.events e he with hold | hfrom
    · rw [free_pendingEvents] at hold
      obtain ⟨hmem, hcontext⟩ := List.mem_filter.mp hold
      exact Or.inl ⟨hmem, of_decide_eq_true hcontext⟩
    · obtain ⟨g, ts, trig, hts, hmem, hcontext, htrap⟩ := hfrom
      refine Or.inr ⟨g, ts, trig, ?_, hmem, hcontext, htrap.trans ?_⟩
      · rw [hcol.triggersAt]
        exact hts
      · exact (hcol.serial g (by rw [hts]; simp)).symm

/-- A new trap. -/
structure OpensTrap (c : Core) (ts : List TrapTrigger) (c' : Core) : Prop where
  triggersAt : ∀ g, c'.triggersAt g = if g = c.nextHandle then some ts else c.triggersAt g
  serial : ∀ g, g ≠ c.nextHandle → c'.serial g = c.serial g
  pendingEvents : c'.pendingEvents = c.pendingEvents

theorem triggersAt_nextHandle (hs : c.Sound) : c.triggersAt c.nextHandle = none := by
  rw [triggersAt, hs.table.nextHandle_free, Option.bind_none]

theorem lookup_createTrap (hs : c.Sound) (handler : Nat) (g : Handle) :
    (c.createTrap (some handler)).2.lookup g =
      if g = c.nextHandle then some (.trap { handler := handler }) else c.lookup g :=
  hs.table.lookup_alloc ..

theorem opensTrap_createTrap (hs : c.Sound) (handler : Nat) :
    OpensTrap c [] (c.createTrap (some handler)).2 where
  triggersAt g := by
    rw [triggersAt, lookup_createTrap hs]
    by_cases hg : g = c.nextHandle
    · rw [if_pos hg, if_pos hg]
      rfl
    · rw [if_neg hg, if_neg hg]
      rfl
  serial g hg := by
    have hserial : (c.alloc (.trap { handler := handler })).serial g = _ := hs.table.serial_alloc g
    rw [if_neg hg] at hserial
    exact hserial
  pendingEvents := alloc_pendingEvents ..

theorem addTrigger_createTrap (hs : c.Sound) (handler : Nat) (handle : Handle) (signals : Signals)
    (condition : UInt32) (context : Nat) :
    (∃ trig c', trig.context = context ∧ OpensTrap c [trig] c' ∧
      (c.createTrap (some handler)).2.addTrigger c.nextHandle handle signals condition context =
        ({ result := .ok }, c')) ∨
    ∃ r, r ≠ .ok ∧
      (c.createTrap (some handler)).2.addTrigger c.nextHandle handle signals condition context =
        ({ result := r }, (c.createTrap (some handler)).2) := by
  have hlive : (c.createTrap (some handler)).2.lookup c.nextHandle =
      some (.trap { handler := handler }) := by
    rw [lookup_createTrap hs, if_pos rfl]
  have hopens := opensTrap_createTrap hs handler
  generalize (c.createTrap (some handler)).2 = c₁ at hlive hopens
  unfold addTrigger
  cases hl : c₁.lookup handle with
  | none =>
    rw [hlive]
    exact Or.inr ⟨.invalidArgument, nofun, rfl⟩
  | some o =>
    rw [hlive]
    let trig : TrapTrigger := { watched := handle, signals := signals, condition := condition
                                context := context, object := c₁.serial handle }
    refine Or.inl ⟨trig, _, rfl, ⟨fun g => ?_, fun g hg => ?_, ?_⟩, rfl⟩
    · by_cases hg : g = c.nextHandle
      · rw [triggersAt, lookup_setObj hlive, if_pos hg, if_pos hg]
        rfl
      · have hsame := (hopens.triggersAt g).trans (if_neg hg)
        rw [if_neg hg, ← hsame]
        exact triggersAt_of_eq (by rw [lookup_setObj hlive, if_neg hg])
    · rw [serial_setObj, hopens.serial g hg]
    · exact hopens.pendingEvents

theorem raises_close_createTrap (hs : c.Sound) (handler : Nat) :
    Raises c ((c.createTrap (some handler)).2.close c.nextHandle).2 := by
  have hlive : (c.createTrap (some handler)).2.lookup c.nextHandle =
      some (.trap { handler := handler }) := by
    rw [lookup_createTrap hs, if_pos rfl]
  have hopens := opensTrap_createTrap hs handler
  obtain ⟨hat, hserial, hevents⟩ := closesTrap_close hlive
  have hsame (g : Handle) : ((c.createTrap (some handler)).2.close c.nextHandle).2.triggersAt g =
      c.triggersAt g := by
    rw [hat]
    by_cases hg : g = c.nextHandle
    · rw [if_pos hg, hg, triggersAt_nextHandle hs]
    · rw [if_neg hg, hopens.triggersAt, if_neg hg]
  have hne {g : Handle} (hts : c.triggersAt g ≠ none) : g ≠ c.nextHandle := by
    rintro rfl
    exact hts (triggersAt_nextHandle hs)
  have hser {g : Handle} (hts : c.triggersAt g ≠ none) :
      ((c.createTrap (some handler)).2.close c.nextHandle).2.serial g = c.serial g := by
    rw [hserial g (hne hts), hopens.serial g (hne hts)]
    rw [hopens.triggersAt, if_neg (hne hts)]
    exact hts
  refine ⟨funext hsame, fun g hts => hser hts, fun e he => ?_⟩
  rcases hevents e he with ⟨hold, -⟩ | ⟨g, ts, trig, hts, hmem, hcontext, htrap⟩
  · rw [hopens.pendingEvents] at hold
    exact Or.inl hold
  · rw [hsame] at hts
    exact Or.inr ⟨g, ts, trig, hts, hmem, hcontext, htrap.trans (hser (by rw [hts]; nofun))⟩

end Core

end Voodoo.Whp
