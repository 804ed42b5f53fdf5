import Voodoo.Whp.Wakeup

/-!
# What a trigger reports

A trigger names its object by the number of a handle, and the number can be given
to another object.  The trigger remembers the serial number of the object it was
registered for and a pending event that of the object it reports, so whether the
two are one can be asked.  They are, as long as no pipe is made under a number that
a trigger still names (`Unnamed`).
-/

namespace Voodoo.Whp

open Option

/-- In some state the object makes the trigger fire. -/
def TrapTrigger.Hears (trig : TrapTrigger) : Obj → Prop
  | .messagePipe _ =>
    ∃ s side, signalsMatch (pipeSignals s side) trig.signals trig.condition = true
  | .dataPipeProducer _ =>
    ∃ s, signalsMatch (producerSignals s) trig.signals trig.condition = true
  | .dataPipeConsumer _ =>
    ∃ s, signalsMatch (consumerSignals s) trig.signals trig.condition = true
  | _ => False

theorem TrapTrigger.Hears.signalling {trig : TrapTrigger} {o : Obj} (h : trig.Hears o) :
    o.signalling = true := by
  cases o <;> first | rfl | cases h

namespace Core

variable {c c' c'' : Core} {h th : Handle} {o obj : Obj} {op : Op} {trig : TrapTrigger}

/-- What the events and the traps say is about the objects the triggers were registered for. -/
structure TriggersTrue (c : Core) : Prop where
  /-- An event reports the signals of the object its trigger was registered for, or of none. -/
  events : ∀ e ∈ c.pendingEvents, e.event.result ≠ .cancelled →
    e.reported = none ∨ e.reported = e.registered
  /-- So does a trigger that keeps its trap from being armed. -/
  arming : ∀ th t, c.lookup th = some (.trap t) → ∀ trig ∈ t.triggers, c.fires trig = true →
    c.reporter trig.watched = none ∨ c.reporter trig.watched = some trig.object

/-- No pipe is made under a number that a trigger names which could hear it. -/
def Unnamed (c : Core) : Op → Prop
  | .createMessagePipe =>
    ∀ th t, c.lookup th = some (.trap t) → ∀ trig ∈ t.triggers,
      trig.watched = c.nextHandles.1 ∨ trig.watched = c.nextHandles.2 →
        ¬ trig.Hears (.messagePipe ⟨c.pipeCount, false⟩)
  | .createDataPipe _ _ =>
    ∀ th t, c.lookup th = some (.trap t) → ∀ trig ∈ t.triggers,
      (trig.watched = c.nextHandles.1 → ¬ trig.Hears (.dataPipeProducer c.dataPipeCount)) ∧
      (trig.watched = c.nextHandles.2 → ¬ trig.Hears (.dataPipeConsumer c.dataPipeCount))
  | _ => True

/-! ### Triggers stay tied to their objects -/

/-- A trigger that can hear what its number stands for was registered for it. -/
def Tied (c : Core) : Prop :=
  ∀ th t, c.lookup th = some (.trap t) → ∀ trig ∈ t.triggers,
    ∀ o, c.lookup trig.watched = some o → trig.Hears o → c.serial trig.watched = trig.object

theorem hears_of_fires (hfire : c.fires trig = true) (ho : c.lookup trig.watched = some o)
    (hsig : o.signalling = true) : trig.Hears o := by
  rw [fires, query, ho] at hfire
  cases o with
  | messagePipe e => exact ⟨_, _, hfire⟩
  | dataPipeProducer i => exact ⟨_, hfire⟩
  | dataPipeConsumer i => exact ⟨_, hfire⟩
  | message _ | trap _ | sharedBuffer _ | platform _ => cases hsig

theorem Tied.reporter (htied : c.Tied) {t : TrapObj} (ht : c.lookup th = some (.trap t))
    (htrig : trig ∈ t.triggers) (hfire : c.fires trig = true) :
    c.reporter trig.watched = none ∨ c.reporter trig.watched = some trig.object := by
  by_cases hsig : ∃ o, o.signalling = true ∧ c.lookup trig.watched = some o
  · obtain ⟨o, ho, hlook⟩ := hsig
    have hserial := htied th t ht trig htrig o hlook (hears_of_fires hfire hlook ho)
    right
    unfold Core.reporter
    rw [hlook, hserial]
    cases o with
    | messagePipe _ | dataPipeProducer _ | dataPipeConsumer _ => rfl
    | message _ | trap _ | sharedBuffer _ | platform _ => cases ho
  · exact Or.inl (reporter_of_not_signalling fun o ho hlook => hsig ⟨o, ho, hlook⟩)

/-- Objects with signals, and triggers, were there before. -/
structure Traced (c c' : Core) : Prop where
  obj : ∀ h o', c'.lookup h = some o' → o'.signalling = true →
    ∃ o, c.lookup h = some o ∧ o.signalling = true ∧
      (∀ trig : TrapTrigger, trig.Hears o' → trig.Hears o) ∧ c'.serial h = c.serial h
  trigger : ∀ th t', c'.lookup th = some (.trap t') → ∀ trig ∈ t'.triggers,
    ∃ th t, c.lookup th = some (.trap t) ∧ trig ∈ t.triggers

namespace Traced

protected theorem trans (h₁ : Traced c c') (h₂ : Traced c' c'') : Traced c c'' where
  obj h o'' ho'' hsig := by
    obtain ⟨o', ho', hsig', hhears', hserial'⟩ := h₂.obj h o'' ho'' hsig
    obtain ⟨o, ho, hsig, hhears, hserial⟩ := h₁.obj h o' ho' hsig'
    exact ⟨o, ho, hsig, fun trig => hhears trig ∘ hhears' trig, hserial'.trans hserial⟩
  trigger th t'' ht'' trig htrig := by
    obtain ⟨th', t', ht', htrig'⟩ := h₂.trigger th t'' ht'' trig htrig
    exact h₁.trigger th' t' ht' trig htrig'

theorem kept (hk : SignalsKept c c') (htrigger : ∀ th t', c'.lookup th = some (.trap t') →
    ∀ trig ∈ t'.triggers, ∃ th t, c.lookup th = some (.trap t) ∧ trig ∈ t.triggers) :
    Traced c c' where
  obj h o' ho' hsig := by
    have ho := (hk.lookup h o' hsig).mp ho'
    exact ⟨o', ho, hsig, fun _ => id, hk.serial h o' hsig ho⟩
  trigger := htrigger

theorem same (hslots : c'.slots = c.slots) : Traced c c' where
  obj h o' ho' hsig := by
    rw [lookup, hslots] at ho'
    exact ⟨o', ho', hsig, fun _ => id, by rw [Core.serial, hslots, Core.serial]⟩
  trigger th t' ht' trig htrig := by
    rw [lookup, hslots] at ht'
    exact ⟨th, t', ht', htrig⟩

theorem silent (hq : Silent c c') : Traced c c' :=
  kept (.silent hq) fun th t ht _ htrig => ⟨th, t, (hq.lookup th (.trap t) rfl).mp ht, htrig⟩

theorem free (c : Core) (h : Handle) : Traced c (c.free h) where
  obj g o' ho' hsig := by
    rw [lookup_free] at ho'
    split at ho'
    · cases ho'
    · exact ⟨o', ho', hsig, fun _ => id, by rw [serial_free]⟩
  trigger th t' ht' trig htrig := by
    rw [lookup_free] at ht'
    split at ht'
    · cases ht'
    · exact ⟨th, t', ht', htrig⟩

theorem collected (hc : Collected c c') : Traced c c' where
  obj h o' ho' hsig := by
    rcases hc.obj h with heq | ⟨t, -, hnew⟩
    · exact ⟨o', heq ▸ ho', hsig, fun _ => id, by rw [hc.serial_eq]⟩
    · rw [hnew] at ho'
      rw [← some.inj ho'] at hsig
      cases hsig
  trigger th t' ht' trig htrig := by
    obtain ⟨t, ht, htriggers, -⟩ := hc.of_trap ht'
    exact ⟨th, t, ht, htriggers ▸ htrig⟩

theorem fused {a b h0 h1 : Handle} {e0 e1 : PipeEnd} (hf : Fusion c a b e0 e1 h0 h1) :
    Traced c (c.fused a b e0 e1 h0 h1) where
  obj g o' ho' hsig := by
    have hserial : (c.fused a b e0 e1 h0 h1).serial = c.serial := by
      rw [Core.fused, serial_free, serial_free, serial_setObj, serial_setObj]
      rfl
    rw [hf.lookup_fused] at ho'
    split at ho'
    · cases ho'
    · split at ho'
      · rename_i hg
        obtain rfl := some.inj ho'
        exact ⟨.messagePipe e1.other, by rw [hg, hf.lookup_h1], rfl, fun _ => id, by rw [hserial]⟩
      · split at ho'
        · rename_i hg
          obtain rfl := some.inj ho'
          exact ⟨.messagePipe e0.other, by rw [hg, hf.lookup_h0], rfl, fun _ => id, by rw [hserial]⟩
        · exact ⟨o', ho', hsig, fun _ => id, by rw [hserial]⟩
  trigger th t' ht' trig htrig := by
    rw [hf.lookup_fused] at ht'
    split at ht'
    · cases ht'
    · split at ht'
      · cases ht'
      · split at ht'
        · cases ht'
        · exact ⟨th, t', ht', htrig⟩

end Traced

theorem Tied.traced (htied : c.Tied) (ht : Traced c c') : c'.Tied := by
  intro th t' ht' trig htrig o' ho' hhears
  obtain ⟨th₀, t, ht₀, htrig₀⟩ := ht.trigger th t' ht' trig htrig
  obtain ⟨o, ho, -, hback, hserial⟩ := ht.obj trig.watched o' ho' hhears.signalling
  rw [hserial]
  exact htied th₀ t ht₀ trig htrig₀ o ho (hback trig hhears)

/-! ### The invariant -/

/-- The triggers are tied to their objects, and so are the events on their way. -/
structure Faithful (c : Core) : Prop where
  tied : c.Tied
  events : ∀ e ∈ c.pendingEvents, e.reported = none ∨ e.reported = e.registered

theorem Faithful.traced (hf : c.Faithful) (ht : Traced c c')
    (hevents : c'.pendingEvents ⊆ c.pendingEvents) : c'.Faithful :=
  ⟨hf.tied.traced ht, fun e he => hf.events e (hevents he)⟩

theorem Faithful.collectTrapEvents (hf : c.Faithful) : c.collectTrapEvents.Faithful := by
  have hc := collected_collectTrapEvents c
  refine ⟨hf.tied.traced (.collected hc), fun e he => ?_⟩
  obtain ⟨slots, events, hc', -, -, hevents⟩ := hc.rest
  rw [hc'] at he
  rcases List.mem_append.mp he with he | he
  · exact hf.events e he
  · obtain ⟨th, t, trig, ht, htrig, hfire, rfl⟩ := hevents e he
    exact hf.tied.reporter ht htrig hfire

theorem Faithful.data (hf : c.Faithful) (hd : DataEffect c c') : c'.Faithful := by
  cases hd with
  | nothing => exact hf
  | quietly i s _ _ => exact hf.traced (.same rfl) fun _ => id
  | collecting i s =>
    have hset : (c.setDataPipe i s).Faithful := hf.traced (.same rfl) fun _ => id
    exact hset.collectTrapEvents

theorem faithful_release (hf : c.Faithful) (h : Handle) (o : Obj) :
    ((c.release h o).free h).Faithful := by
  have hslots : (c.release h o).slots = c.slots := by cases o <;> rfl
  refine hf.traced ((Traced.same hslots).trans (.free _ h)) fun e he => ?_
  rw [free_pendingEvents] at he
  cases o with
  | trap t => exact List.mem_of_mem_filter he
  | _ => exact he

/-- Two objects are made that no trigger of their numbers hears. -/
theorem Faithful.alloc_alloc (hf : c.Faithful) {n : Core} (hn : n.Sound)
    (hslots : n.slots = c.slots) (hfree : n.freeList = c.freeList)
    (hevents : n.pendingEvents = c.pendingEvents) (ho : ∀ t, o ≠ .trap t)
    (hobj : ∀ t, obj ≠ .trap t)
    (hunnamed : ∀ th t, c.lookup th = some (.trap t) → ∀ trig ∈ t.triggers,
      (trig.watched = c.nextHandles.1 → ¬ trig.Hears o) ∧
      (trig.watched = c.nextHandles.2 → ¬ trig.Hears obj)) :
    ((n.alloc o).alloc obj).Faithful := by
  have hnext : n.nextHandles = c.nextHandles := by unfold nextHandles; rw [hslots, hfree]
  have hlook : ∀ g, ((n.alloc o).alloc obj).lookup g =
      if g = c.nextHandles.2 then some obj
      else if g = c.nextHandles.1 then some o else c.lookup g := by
    intro g
    have hold : n.lookup g = c.lookup g := by rw [lookup, hslots, lookup]
    rw [hn.table.lookup_alloc_alloc, hnext, hold]
  have hserial : ∀ g, g ≠ c.nextHandles.1 → g ≠ c.nextHandles.2 →
      ((n.alloc o).alloc obj).serial g = c.serial g := by
    intro g h1 h2
    have hold : n.serial g = c.serial g := by rw [Core.serial, hslots, Core.serial]
    rw [(hn.table.alloc o).serial_alloc, nextHandle_alloc, hnext, if_neg h2, hn.table.serial_alloc,
      ← nextHandles_fst, hnext, if_neg h1, hold]
  refine ⟨fun th t ht trig htrig o' ho' hhears => ?_, fun e he => ?_⟩
  · rw [hlook] at ht
    split at ht
    · exact absurd (some.inj ht) (hobj t)
    · split at ht
      · exact absurd (some.inj ht) (ho t)
      · obtain ⟨hno1, hno2⟩ := hunnamed th t ht trig htrig
        rw [hlook] at ho'
        split at ho'
        · exact absurd (some.inj ho' ▸ hhears) (hno2 ‹_›)
        · split at ho'
          · exact absurd (some.inj ho' ▸ hhears) (hno1 ‹_›)
          · rw [hserial _ ‹_› ‹_›]
            exact hf.tied th t ht trig htrig o' ho' hhears
  · rw [alloc_pendingEvents, alloc_pendingEvents, hevents] at he
    exact hf.events e he

theorem faithful_step (hs : c.Sound) (hf : c.Faithful) (hu : c.Unnamed op) :
    (c.step op).Faithful := by
  cases op with
  | silent op =>
    have hsilent := silent_performSilent hs op
    exact hf.traced (.silent hsilent) fun e he => hsilent.pendingEvents ▸ he
  | data op => exact hf.data (dataEffect_performData c op)
  | createMessagePipe =>
    exact hf.alloc_alloc (hs.newPipe {}) rfl rfl rfl (by rintro _ ⟨⟩) (by rintro _ ⟨⟩) fun th t ht trig htrig =>
      ⟨fun h => hu th t ht trig htrig (Or.inl h), fun h => hu th t ht trig htrig (Or.inr h)⟩
  | createDataPipe elementSize capacity =>
    exact hf.alloc_alloc (hs.newDataPipe _) rfl rfl rfl (by rintro _ ⟨⟩) (by rintro _ ⟨⟩) hu
  | readMessage p =>
    rw [step, perform]
    rcases readMessage_cases c p with ⟨-, heq⟩ | ⟨e, r, -, -, -, heq⟩ |
      ⟨e, msg, rest, hp, hcons, heq⟩ <;> rw [heq]
    · exact hf
    · exact hf
    · have hset : (c.setQueue e rest).Sound := hs.same rfl rfl rfl rfl rfl
      have htraced : Traced c (c.setQueue e rest) := .same rfl
      refine hf.traced (htraced.trans (.silent (.alloc hset rfl))) fun e he => ?_
      rwa [alloc_pendingEvents] at he
  | writeMessage p m =>
    rw [step, perform]
    rcases writeMessage_cases c p m with ⟨r, -, heq⟩ | ⟨e, msg, -, hm, -, heq⟩ |
      ⟨e, msg, -, hm, -, heq⟩ <;> rw [heq]
    · exact hf
    · have hfree : (c.free m).Faithful := hf.traced (.free c m) fun e he => by
        rwa [free_pendingEvents] at he
      exact hfree.collectTrapEvents
    · have hset : (c.setQueue e.other (c.queue e.other ++ [{ msg with committed := true }])).Faithful :=
        hf.traced (.same rfl) fun _ => id
      have hfree := hset.traced (.free _ m) fun e he => by rwa [free_pendingEvents] at he
      exact hfree.collectTrapEvents
  | fuseMessagePipes a b =>
    rw [step, perform]
    rcases fuseMessagePipes_cases c a b with ⟨r, -, heq⟩ | ⟨e0, e1, h0, h1, hfu, heq⟩ <;> rw [heq]
    · exact hf
    · have hfused : (c.fused a b e0 e1 h0 h1).Faithful := hf.traced (.fused hfu) fun e he => by
        rw [fused, free_pendingEvents, free_pendingEvents] at he
        exact he
      exact hfused.collectTrapEvents
  | setQuota p type limit =>
    simp only [step, perform, setQuota]
    repeat' split
    all_goals first
      | exact hf
      | exact hf.traced (.same rfl) fun _ => id
  | createTrap handler =>
    cases handler with
    | none => exact hf
    | some handler =>
      have hlook := fun h => hs.table.lookup_alloc (.trap { handler := handler }) h
      have hkept : SignalsKept c (c.alloc (.trap { handler := handler })) := .alloc hs rfl
      have htraced : Traced c (c.alloc (.trap { handler := handler })) := by
        refine .kept hkept fun th t ht trig htrig => ?_
        rw [hlook] at ht
        split at ht
        · rw [← Obj.trap.inj (some.inj ht)] at htrig
          cases htrig
        · exact ⟨th, t, ht, htrig⟩
      refine hf.traced (htraced.trans (.same rfl)) fun e he => ?_
      exact alloc_pendingEvents c _ ▸ he
  | addTrigger t h signals condition context =>
    simp only [step, perform, addTrigger]
    split
    · rename_i tr o htrap hlive
      have hkept : SignalsKept c (c.setObj t (.trap { tr with triggers := tr.triggers ++
        [⟨h, signals, condition, context, c.serial h⟩] })) := .setObj htrap rfl rfl
      refine ⟨fun th t' ht' trig htrig o' ho' hhears => ?_, hf.events⟩
      have hsig := hhears.signalling
      have hold := (hkept.lookup trig.watched o' hsig).mp ho'
      rw [hkept.serial trig.watched o' hsig hold]
      rw [lookup_setObj htrap] at ht'
      split at ht'
      · obtain rfl := Obj.trap.inj (some.inj ht')
        rcases List.mem_append.mp htrig with htrig | htrig
        · exact hf.tied t tr htrap trig htrig o' hold hhears
        · obtain rfl := List.mem_singleton.mp htrig
          rfl
      · exact hf.tied th t' ht' trig htrig o' hold hhears
    · exact hf
  | removeTrigger t context =>
    simp only [step, perform, removeTrigger]
    split
    · rename_i tr htrap
      split
      · exact hf
      · have hpost : SignalsKept c (c.post (c.cancelledEvent t tr context)) :=
          .same rfl rfl rfl
        refine ⟨hf.tied.traced (.kept (hpost.trans (.setObj htrap rfl rfl)) ?_), fun e he => ?_⟩
        · intro th t' ht' trig htrig
          rw [lookup_setObj (c := c.post _) htrap] at ht'
          split at ht'
          · obtain rfl := Obj.trap.inj (some.inj ht')
            exact ⟨t, tr, htrap, List.mem_of_mem_filter htrig⟩
          · exact ⟨th, t', ht', htrig⟩
        · rcases List.mem_append.mp he with he | he
          · exact hf.events e he
          · obtain rfl := List.mem_singleton.mp he
            exact Or.inl rfl
    · exact hf
  | armTrap t room wanted =>
    simp only [step, perform, armTrap]
    split
    · rename_i tr htrap
      split
      · refine hf.traced (.kept (.setObj htrap rfl rfl) fun th t' ht' trig htrig => ?_) fun _ => id
        rw [lookup_setObj htrap] at ht'
        split at ht'
        · obtain rfl := Obj.trap.inj (some.inj ht')
          exact ⟨t, tr, htrap, htrig⟩
        · exact ⟨th, t', ht', htrig⟩
      · exact hf
    · exact hf
  | pumpEvents => exact hf.traced (.same rfl) (by rintro _ ⟨⟩)
  | close h =>
    rw [step, perform, close]
    split
    · exact hf
    · exact (faithful_release hf h _).collectTrapEvents

/-- **In a run that makes no pipe under a number a trigger still names, every event and every
refusal to arm is about the object its trigger was registered for.** -/
theorem triggersTrue_of_reaches (h : Machine.Reaches ({} : Core) step Unnamed c) :
    c.TriggersTrue := by
  have hstart : Faithful {} := by
    refine ⟨?_, nofun⟩
    rintro (_ | th) t ht <;> cases ht
  have hf : c.Faithful := h.invariant_under (fun _ => sound_of_reaches) hstart
    fun _ op hs hf hu => faithful_step hs hf hu
  exact ⟨fun e he _ => hf.events e he, fun th t ht trig htrig => hf.tied.reporter ht htrig⟩

/-- An end is watched and closed. -/
def leftOver : List Op :=
  [.createMessagePipe, .createTrap (some 0), .addTrigger 3 1 readable 0 5, .armTrap 3 none false,
    .close 1]

theorem triggersTrue_leftOver : (leftOver.foldl step {}).TriggersTrue := by
  refine triggersTrue_of_reaches (Machine.Reaches.start.along ?_)
  refine ⟨?_, trivial, trivial, trivial, trivial, trivial⟩
  rintro (_ | th) t ht <;> cases ht

/-- Its number is given to an end of a new pipe, which a message is written to. -/
theorem not_triggersTrue_reused :
    ¬ ((leftOver ++ [Op.createMessagePipe, .silent .createMessage, .writeMessage 4 5]).foldl step
      {}).TriggersTrue := by
  intro h
  rcases h.events _ (List.mem_singleton.mpr rfl) (by decide) with h | h <;> cases h

end Core

end Voodoo.Whp
