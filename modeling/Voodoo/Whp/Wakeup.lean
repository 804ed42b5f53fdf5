import Voodoo.Whp.Run

/-!
# Wake-ups

Whether an armed trap can have a trigger whose condition holds.  The operations
that end with a look at the traps leave none behind.  Of those that do not look,
most change no signal (`SignalsKept`); a read can make one unsatisfiable and a new
pipe can take a number that a trigger still names, and then the trap sleeps on.
-/

namespace Voodoo.Whp

open Option

/-- The object has signals. -/
def Obj.signalling : Obj → Bool
  | .messagePipe _ | .dataPipeProducer _ | .dataPipeConsumer _ => true
  | _ => false

theorem Obj.silent_of_signalling {o : Obj} (h : o.signalling = true) : o.silent = false := by
  cases o <;> first | rfl | cases h

namespace Core

variable {c c' : Core} {h th : Handle} {o obj : Obj} {op : Op}

/-! ### Changes that no signal shows -/

/-- The objects with signals are what they were, and their signals too. -/
structure SignalsKept (c c' : Core) : Prop where
  lookup : ∀ h o, o.signalling = true → (c'.lookup h = some o ↔ c.lookup h = some o)
  serial : ∀ h o, o.signalling = true → c.lookup h = some o → c'.serial h = c.serial h
  pipe : ∀ i side, pipeSignals (c'.pipes i) side = pipeSignals (c.pipes i) side
  producer : ∀ i, producerSignals (c'.dataPipes i) = producerSignals (c.dataPipes i)
  consumer : ∀ i, consumerSignals (c'.dataPipes i) = consumerSignals (c.dataPipes i)

theorem query_of_not_signalling (hno : ∀ o, o.signalling = true → c.lookup h ≠ some o) :
    c.query h = {} := by
  unfold query
  split
  · exact absurd ‹_› (hno _ rfl)
  · exact absurd ‹_› (hno _ rfl)
  · exact absurd ‹_› (hno _ rfl)
  · rfl

theorem reporter_of_not_signalling (hno : ∀ o, o.signalling = true → c.lookup h ≠ some o) :
    c.reporter h = none := by
  unfold reporter
  split
  · exact absurd ‹_› (hno _ rfl)
  · exact absurd ‹_› (hno _ rfl)
  · exact absurd ‹_› (hno _ rfl)
  · rfl

namespace SignalsKept

theorem query_eq (hk : SignalsKept c c') (h : Handle) : c'.query h = c.query h := by
  by_cases hsig : ∃ o, o.signalling = true ∧ c.lookup h = some o
  · obtain ⟨o, ho, hlook⟩ := hsig
    have hlook' := (hk.lookup h o ho).mpr hlook
    unfold query
    rw [hlook, hlook']
    cases o with
    | messagePipe e => exact hk.pipe e.state e.side
    | dataPipeProducer i => exact hk.producer i
    | dataPipeConsumer i => exact hk.consumer i
    | message _ | trap _ | sharedBuffer _ | platform _ => cases ho
  · rw [query_of_not_signalling fun o ho hlook => hsig ⟨o, ho, hlook⟩,
      query_of_not_signalling fun o ho hlook => hsig ⟨o, ho, (hk.lookup h o ho).mp hlook⟩]

theorem fires_eq (hk : SignalsKept c c') (trig : TrapTrigger) : c'.fires trig = c.fires trig := by
  rw [fires, hk.query_eq, fires]

theorem same (hslots : c'.slots = c.slots) (hpipes : c'.pipes = c.pipes)
    (hdata : c'.dataPipes = c.dataPipes) : SignalsKept c c' where
  lookup h o _ := by rw [Core.lookup, Core.lookup, hslots]
  serial h o _ _ := by rw [Core.serial, Core.serial, hslots]
  pipe i side := by rw [hpipes]
  producer i := by rw [hdata]
  consumer i := by rw [hdata]

protected theorem trans {c'' : Core} (h₁ : SignalsKept c c') (h₂ : SignalsKept c' c'') :
    SignalsKept c c'' where
  lookup h o ho := (h₂.lookup h o ho).trans (h₁.lookup h o ho)
  serial h o ho hlive :=
    (h₂.serial h o ho ((h₁.lookup h o ho).mpr hlive)).trans (h₁.serial h o ho hlive)
  pipe i side := (h₂.pipe i side).trans (h₁.pipe i side)
  producer i := (h₂.producer i).trans (h₁.producer i)
  consumer i := (h₂.consumer i).trans (h₁.consumer i)

theorem silent (hq : Silent c c') : SignalsKept c c' where
  lookup h o ho := hq.lookup h o (Obj.silent_of_signalling ho)
  serial h o ho := hq.serial h o (Obj.silent_of_signalling ho)
  pipe i side := by rw [hq.pipes]
  producer i := by rw [hq.dataPipes]
  consumer i := by rw [hq.dataPipes]

theorem alloc (hs : c.Sound) (hobj : obj.signalling = false) : SignalsKept c (c.alloc obj) where
  lookup h o ho := by
    rw [hs.table.lookup_alloc]
    split
    · rename_i hh
      rw [hh, hs.table.nextHandle_free]
      refine ⟨fun heq => ?_, nofun⟩
      rw [← some.inj heq, hobj] at ho
      cases ho
    · rfl
  serial h o _ hlive := by rw [hs.table.serial_alloc, if_neg (hs.table.nextHandle_ne hlive)]
  pipe i side := by rw [alloc_pipes]
  producer i := by rw [alloc_dataPipes]
  consumer i := by rw [alloc_dataPipes]

theorem setObj (hlive : c.lookup h = some o) (ho : o.signalling = false)
    (hobj : obj.signalling = false) : SignalsKept c (c.setObj h obj) where
  lookup g o' ho' := by
    rw [lookup_setObj hlive]
    split
    · rename_i hg
      rw [hg, hlive]
      constructor
      · intro heq
        rw [← some.inj heq, hobj] at ho'
        cases ho'
      · intro heq
        rw [← some.inj heq, ho] at ho'
        cases ho'
    · rfl
  serial _ _ _ _ := by rw [serial_setObj]
  pipe _ _ := rfl
  producer _ := rfl
  consumer _ := rfl

theorem setDataPipe {i : Nat} {s : DataPipeState}
    (hproducer : producerSignals s = producerSignals (c.dataPipes i))
    (hconsumer : consumerSignals s = consumerSignals (c.dataPipes i)) :
    SignalsKept c (c.setDataPipe i s) := by
  refine ⟨fun _ _ _ => Iff.rfl, fun _ _ _ _ => rfl, fun _ _ => rfl, fun j => ?_, fun j => ?_⟩
  · by_cases hj : j = i
    · rw [hj, setDataPipe_self, hproducer]
    · rw [setDataPipe_of_ne _ _ hj]
  · by_cases hj : j = i
    · rw [hj, setDataPipe_self, hconsumer]
    · rw [setDataPipe_of_ne _ _ hj]

theorem setPipe {i : Nat} {s : PipeState} (hqueues : s.queues = (c.pipes i).queues)
    (hclosed : s.closed = (c.pipes i).closed) : SignalsKept c (c.setPipe i s) := by
  refine ⟨fun _ _ _ => Iff.rfl, fun _ _ _ _ => rfl, fun j side => ?_, fun _ => rfl, fun _ => rfl⟩
  by_cases hj : j = i
  · rw [hj, setPipe_self, pipeSignals, hqueues, hclosed, pipeSignals]
  · rw [setPipe_of_ne _ _ hj]

end SignalsKept

theorem signalsKept_setQuota (c : Core) (p : Handle) (type : UInt32) (limit : UInt64) :
    SignalsKept c (c.setQuota p type limit).2 := by
  simp only [setQuota]
  repeat' split
  all_goals first
    | exact .same rfl rfl rfl
    | exact .setPipe rfl rfl

/-! ### Armed traps -/

/-- Some armed trap has a trigger of this kind. -/
def Waits (c : Core) (P : TrapTrigger → Prop) : Prop :=
  ∃ th t, c.lookup th = some (.trap t) ∧ t.armed = true ∧ ∃ trig ∈ t.triggers, P trig

theorem Quiet.carry (hq : c.Quiet)
    (htraps : ∀ th t', c'.lookup th = some (.trap t') → t'.armed = true →
      ∃ t, c.lookup th = some (.trap t) ∧ t.armed = true ∧ t'.triggers ⊆ t.triggers)
    (hfires : ∀ trig, c.Waits (· = trig) → c'.fires trig = true → c.fires trig = true) :
    c'.Quiet := by
  intro th t' ht' harmed trig htrig
  obtain ⟨t, ht, harmed', hsub⟩ := htraps th t' ht' harmed
  have hno := hq th t ht harmed' trig (hsub htrig)
  cases hfire : c'.fires trig with
  | false => rfl
  | true =>
    have hfire' := hfires trig ⟨th, t, ht, harmed', trig, hsub htrig, rfl⟩ hfire
    rw [hno] at hfire'
    cases hfire'

theorem Quiet.kept (hq : c.Quiet) (hk : SignalsKept c c')
    (htraps : ∀ th t, c'.lookup th = some (.trap t) → c.lookup th = some (.trap t)) : c'.Quiet :=
  hq.carry (fun th t' ht' harmed => ⟨t', htraps th t' ht', harmed, fun _ h => h⟩)
    fun trig _ hfire => (hk.fires_eq trig).symm.trans hfire

/-! ### Wake-ups -/

/-- An armed trap with a trigger whose condition holds has an event for it waiting to be
delivered. -/
def NoLostWakeup (c : Core) : Prop :=
  ∀ th t, c.lookup th = some (.trap t) → t.armed = true →
    ∀ trig ∈ t.triggers, c.fires trig = true →
      ∃ e ∈ c.pendingEvents, e.handler = t.handler ∧ e.event.triggerContext = trig.context ∧
        e.event.result ≠ .cancelled

/-- Triggers are added while the trap is disarmed. -/
def AddsDisarmed (c : Core) : Op → Prop
  | .addTrigger trap _ _ _ _ => ∀ t, c.lookup trap = some (.trap t) → t.armed = false
  | _ => True

/-- The operation does not make a trigger of an armed trap fire without a look at the traps. -/
def Rouses (c : Core) : Op → Prop
  | .readMessage p =>
    -- the last message of a pipe whose other end is closed
    ∀ e msg, c.IsEnd p e → c.queue e = [msg] → (c.pipes e.state).closed e.other.side = true →
      ¬ c.Waits fun trig => c.IsEnd trig.watched e ∧ trig.condition = unsatisfiable ∧
        trig.signals &&& peerClosed = 0
  | .createMessagePipe =>
    ¬ c.Waits fun trig =>
      (trig.watched = c.nextHandles.1 ∨ trig.watched = c.nextHandles.2) ∧
        signalsMatch (pipeSignals {} false) trig.signals trig.condition = true
  | .createDataPipe elementSize capacity =>
    ¬ c.Waits fun trig =>
      (trig.watched = c.nextHandles.1 ∧
        signalsMatch (producerSignals (.make elementSize capacity)) trig.signals
          trig.condition = true) ∨
      (trig.watched = c.nextHandles.2 ∧
        signalsMatch (consumerSignals (.make elementSize capacity)) trig.signals
          trig.condition = true)
  | _ => True

theorem Waits.of_trap {P : TrapTrigger → Prop} {t : TrapObj} {trig : TrapTrigger}
    (ht : c.lookup th = some (.trap t)) (harmed : t.armed = true) (htrig : trig ∈ t.triggers)
    (hP : P trig) : c.Waits P := ⟨th, t, ht, harmed, trig, htrig, hP⟩

theorem query_congr (hs : c.Sound) (hlook : c'.lookup h = c.lookup h)
    (hpipes : ∀ i, i ≠ c.pipeCount → c'.pipes i = c.pipes i)
    (hdata : ∀ i, i ≠ c.dataPipeCount → c'.dataPipes i = c.dataPipes i) :
    c'.query h = c.query h := by
  unfold query
  rw [hlook]
  cases hobj : c.lookup h with
  | none => rfl
  | some o =>
    have hnum := hs.numbered h o hobj
    cases o with
    | messagePipe e => exact congrArg (pipeSignals · e.side) (hpipes _ (Nat.ne_of_lt hnum))
    | dataPipeProducer i => exact congrArg producerSignals (hdata _ (Nat.ne_of_lt hnum))
    | dataPipeConsumer i => exact congrArg consumerSignals (hdata _ (Nat.ne_of_lt hnum))
    | _ => rfl

theorem Quiet.alloc_alloc (hq : c.Quiet) (ho : ∀ t, o ≠ .trap t) (hobj : ∀ t, obj ≠ .trap t)
    (hlook : ∀ g, c'.lookup g =
      if g = c.nextHandles.2 then some obj
      else if g = c.nextHandles.1 then some o else c.lookup g)
    (hquery : ∀ g, c'.lookup g = c.lookup g → c'.query g = c.query g)
    (hmet : ∀ trig, c.Waits (· = trig) → trig.watched = c.nextHandles.1 ∨
      trig.watched = c.nextHandles.2 → c'.fires trig ≠ true) : c'.Quiet := by
  refine hq.carry (fun th t' ht' harmed => ⟨t', ?_, harmed, fun _ h => h⟩) fun trig hw hfire => ?_
  · rw [hlook] at ht'
    split at ht'
    · exact absurd (some.inj ht') (hobj t')
    · split at ht'
      · exact absurd (some.inj ht') (ho t')
      · exact ht'
  · by_cases hnew : trig.watched = c.nextHandles.1 ∨ trig.watched = c.nextHandles.2
    · exact absurd hfire (hmet trig hw hnew)
    · obtain ⟨h1, h2⟩ := not_or.mp hnew
      have hold := hlook trig.watched
      rw [if_neg h2, if_neg h1] at hold
      rw [fires, hquery _ hold] at hfire
      exact hfire

theorem quiet_createMessagePipe (hs : c.Sound) (hq : c.Quiet) (hr : c.Rouses .createMessagePipe) :
    c.createMessagePipe.2.Quiet := by
  obtain ⟨-, hlook⟩ := createMessagePipe_eq hs
  obtain ⟨-, -, hne⟩ := hs.table.lookup_nextHandles
  have hpipes := createMessagePipe_pipes c
  have hdata : c.createMessagePipe.2.dataPipes = c.dataPipes := by
    simp only [createMessagePipe, alloc_dataPipes]
    rfl
  have hnew : c.createMessagePipe.2.pipes c.pipeCount = {} := by
    rw [hpipes]
    exact setPipe_self c _ _
  refine hq.alloc_alloc (by rintro _ ⟨⟩) (by rintro _ ⟨⟩) hlook (fun g hg => ?_) fun trig hw hnew' hfire => ?_
  · refine query_congr hs hg (fun i hi => ?_) fun i _ => by rw [hdata]
    rw [hpipes]
    exact setPipe_of_ne c _ hi
  · -- both ends of a new pipe have the same signals
    have hquery : c.createMessagePipe.2.query trig.watched = pipeSignals {} false := by
      unfold query
      rw [hlook]
      rcases hnew' with h1 | h2
      · rw [if_neg (h1 ▸ hne), if_pos h1]
        exact congrArg (pipeSignals · false) hnew
      · rw [if_pos h2]
        exact congrArg (pipeSignals · true) hnew
    obtain ⟨th, t, ht, harmed, trig', htrig, rfl⟩ := hw
    rw [fires, hquery] at hfire
    exact hr (.of_trap ht harmed htrig ⟨hnew', hfire⟩)

theorem quiet_createDataPipe (hs : c.Sound) (hq : c.Quiet) {elementSize capacity : UInt32}
    (hr : c.Rouses (.createDataPipe elementSize capacity)) :
    (c.createDataPipe elementSize capacity).2.Quiet := by
  obtain ⟨-, hlook⟩ := createDataPipe_eq hs elementSize capacity
  obtain ⟨-, -, hne⟩ := hs.table.lookup_nextHandles
  have hdata := createDataPipe_dataPipes c elementSize capacity
  have hpipes : (c.createDataPipe elementSize capacity).2.pipes = c.pipes := by
    simp only [createDataPipe, alloc_pipes]
    rfl
  have hnew : (c.createDataPipe elementSize capacity).2.dataPipes c.dataPipeCount =
      .make elementSize capacity := by
    rw [hdata]
    exact setDataPipe_self c _ _
  refine hq.alloc_alloc (by rintro _ ⟨⟩) (by rintro _ ⟨⟩) hlook (fun g hg => ?_) fun trig hw hnew' hfire => ?_
  · refine query_congr hs hg (fun i _ => by rw [hpipes]) fun i hi => ?_
    rw [hdata]
    exact setDataPipe_of_ne c _ hi
  · obtain ⟨th, t, ht, harmed, trig', htrig, rfl⟩ := hw
    rw [fires, query, hlook] at hfire
    rcases hnew' with h1 | h2
    · rw [if_neg (h1 ▸ hne), if_pos h1] at hfire
      dsimp only at hfire
      rw [hnew] at hfire
      exact hr (.of_trap ht harmed htrig (Or.inl ⟨h1, hfire⟩))
    · rw [if_pos h2] at hfire
      dsimp only at hfire
      rw [hnew] at hfire
      exact hr (.of_trap ht harmed htrig (Or.inr ⟨h2, hfire⟩))

/-! ### Reading -/

theorem and_eq_of_or {a b want : Signals} (h : a &&& want = want) : (b ||| a) &&& want = want := by
  ext i hi
  have hbit : (a &&& want)[i] = want[i] := by rw [h]
  rw [BitVec.getElem_and] at hbit
  rw [BitVec.getElem_and, BitVec.getElem_or]
  cases hw : want[i] with
  | false => rw [Bool.and_false]
  | true =>
    rw [hw, Bool.and_true] at hbit
    rw [hbit, Bool.or_true, Bool.and_true]

/-- Taking messages satisfies nothing, and makes nothing unsatisfiable but reading from a pipe whose
other end is closed. -/
theorem signalsMatch_setQueue {l : List MessageObj} {e : PipeEnd} (hne : c.queue e ≠ [])
    {want : Signals} {condition : UInt32}
    (hmatch : signalsMatch (pipeSignals ((c.setQueue e l).pipes e.state) e.side) want
      condition = true)
    (hlast : l = [] → (c.pipes e.state).closed e.other.side = true →
      ¬ (condition = unsatisfiable ∧ want &&& peerClosed = 0)) :
    signalsMatch (pipeSignals (c.pipes e.state) e.side) want condition = true := by
  have hqueue : ((c.setQueue e l).pipes e.state).queues e.side = l := queue_setQueue_self c e l
  have hold : (c.pipes e.state).queues e.side ≠ [] := hne
  unfold pipeSignals at hmatch ⊢
  rw [closed_setQueue, hqueue] at hmatch
  rw [if_neg hold]
  by_cases hl : l = []
  · rw [if_pos hl] at hmatch
    unfold signalsMatch at hmatch ⊢
    by_cases hcond : condition = unsatisfiable
    · rw [if_pos hcond] at hmatch ⊢
      cases hclosed : (c.pipes e.state).closed (!e.side) with
      | false =>
        rw [hclosed] at hmatch
        exact hmatch
      | true =>
        rw [hclosed] at hmatch
        have hand : peerClosed &&& want = 0 := eq_of_beq hmatch
        exact absurd ⟨hcond, BitVec.and_comm .. |>.trans hand⟩ (hlast hl hclosed)
    · rw [if_neg hcond] at hmatch ⊢
      cases hclosed : (c.pipes e.state).closed (!e.side) with
      | false =>
        rw [hclosed] at hmatch
        have hand : writable &&& want = want := eq_of_beq hmatch
        exact beq_iff_eq.mpr (and_eq_of_or hand)
      | true =>
        rw [hclosed] at hmatch
        have hand : peerClosed &&& want = want := eq_of_beq hmatch
        exact beq_iff_eq.mpr (and_eq_of_or hand)
  · rw [if_neg hl] at hmatch
    exact hmatch

theorem quiet_readMessage (hs : c.Sound) (hq : c.Quiet) {p : Handle} (hr : c.Rouses (.readMessage p)) :
    (c.readMessage p).2.Quiet := by
  rcases readMessage_cases c p with ⟨-, heq⟩ | ⟨e, r, -, -, -, heq⟩ | ⟨e, msg, rest, hp, hcons, heq⟩ <;>
    rw [heq]
  · exact hq
  · exact hq
  · have hset : (c.setQueue e rest).Sound := hs.same rfl rfl rfl rfl rfl
    have halloc : SignalsKept (c.setQueue e rest) ((c.setQueue e rest).alloc (.message msg)) :=
      .alloc hset rfl
    refine hq.carry (fun th t' ht' harmed => ⟨t', ?_, harmed, fun _ h => h⟩) fun trig hw hfire => ?_
    · have hlook := (hset.table.lookup_alloc (.message msg) th).symm.trans ht'
      split at hlook
      · cases hlook
      · exact hlook
    · rw [halloc.fires_eq] at hfire
      by_cases hend : c.IsEnd trig.watched e
      · obtain ⟨th, t, ht, harmed, trig', htrig, rfl⟩ := hw
        have hend' : (c.setQueue e rest).IsEnd trig'.watched e := hend
        rw [fires, query, hend'] at hfire
        rw [fires, query, hend]
        refine signalsMatch_setQueue (by rw [hcons]; rintro ⟨⟩) hfire ?_
        rintro rfl hclosed ⟨hcond, hwant⟩
        exact hr e msg hp hcons hclosed (.of_trap ht harmed htrig ⟨hend, hcond, hwant⟩)
      · have hquery : (c.setQueue e rest).query trig.watched = c.query trig.watched := by
          unfold query
          have hlook : (c.setQueue e rest).lookup trig.watched = c.lookup trig.watched := rfl
          rw [hlook]
          cases hobj : c.lookup trig.watched with
          | none => rfl
          | some o =>
            cases o with
            | messagePipe e' =>
              have hne : e' ≠ e := by
                rintro rfl
                exact hend hobj
              have hqueue := queue_setQueue_of_ne c rest hne
              unfold queue at hqueue
              dsimp only
              unfold pipeSignals
              rw [hqueue, closed_setQueue]
            | _ => rfl
        rw [fires, hquery] at hfire
        exact hfire

/-! ### No wake-up is lost -/

theorem Quiet.data (hq : c.Quiet) (hs : c.Sound) (hd : DataEffect c c') : c'.Quiet := by
  cases hd with
  | nothing => exact hq
  | quietly i s hproducer hconsumer => exact hq.kept (.setDataPipe hproducer hconsumer) fun _ _ => id
  | collecting i s =>
    have hset : (c.setDataPipe i s).Sound := hs.same rfl rfl rfl rfl rfl
    exact hset.quiet_collectTrapEvents

theorem quiet_step (hs : c.Sound) (hq : c.Quiet) (hadd : c.AddsDisarmed op) (hr : c.Rouses op) :
    (c.step op).Quiet := by
  cases op with
  | silent op =>
    have hsilent := silent_performSilent hs op
    exact hq.kept (.silent hsilent) fun th t => (hsilent.lookup th (.trap t) rfl).mp
  | data op => exact hq.data hs (dataEffect_performData c op)
  | createMessagePipe => exact quiet_createMessagePipe hs hq hr
  | createDataPipe elementSize capacity => exact quiet_createDataPipe hs hq hr
  | readMessage p => exact quiet_readMessage hs hq hr
  | writeMessage p m =>
    rw [step, perform]
    rcases writeMessage_cases c p m with ⟨r, -, heq⟩ | ⟨e, msg, -, hm, -, heq⟩ |
      ⟨e, msg, -, hm, -, heq⟩ <;> rw [heq]
    · exact hq
    · exact (hs.free hm).quiet_collectTrapEvents
    · have hset : (c.setQueue e.other (c.queue e.other ++ [{ msg with committed := true }])).Sound :=
        hs.same rfl rfl rfl rfl rfl
      exact (hset.free hm).quiet_collectTrapEvents
  | fuseMessagePipes a b =>
    rw [step, perform]
    rcases fuseMessagePipes_cases c a b with ⟨r, -, heq⟩ | ⟨e0, e1, h0, h1, hf, heq⟩ <;> rw [heq]
    · exact hq
    · exact (hf.sound_fused hs).quiet_collectTrapEvents
  | setQuota p type limit =>
    refine hq.kept (signalsKept_setQuota c p type limit) fun th t => ?_
    simp only [step, perform, setQuota]
    repeat' split
    all_goals exact id
  | createTrap handler =>
    cases handler with
    | none => exact hq
    | some handler =>
      have hlook := fun h => hs.table.lookup_alloc (.trap { handler := handler }) h
      have hkept : SignalsKept c (c.alloc (.trap { handler := handler })) := .alloc hs rfl
      refine hq.carry (fun th t' ht' harmed => ⟨t', ?_, harmed, fun _ h => h⟩)
        fun trig _ hfire => (hkept.fires_eq trig).symm.trans hfire
      have ht := (hlook th).symm.trans ht'
      split at ht
      · rw [← Obj.trap.inj (some.inj ht)] at harmed
        cases harmed
      · exact ht
  | addTrigger t h signals condition context =>
    simp only [step, perform, addTrigger]
    split
    · rename_i tr _ htrap _
      refine hq.carry (fun th t' ht' harmed => ?_)
        fun trig _ hfire => (SignalsKept.fires_eq (.setObj htrap rfl rfl) trig).symm.trans hfire
      rw [lookup_setObj htrap] at ht'
      split at ht'
      · rw [← Obj.trap.inj (some.inj ht')] at harmed
        rw [hadd tr htrap] at harmed
        cases harmed
      · exact ⟨t', ht', harmed, fun _ h => h⟩
    · exact hq
  | removeTrigger t context =>
    simp only [step, perform, removeTrigger]
    split
    · rename_i tr htrap
      split
      · exact hq
      · have hpost : SignalsKept c (c.post (c.cancelledEvent t tr context)) :=
          .same rfl rfl rfl
        refine hq.carry (fun th t' ht' harmed => ?_) fun trig _ hfire =>
          ((hpost.trans (.setObj htrap rfl rfl)).fires_eq trig).symm.trans hfire
        rw [lookup_setObj (c := c.post _) htrap] at ht'
        split at ht'
        · rename_i hth
          obtain rfl := Obj.trap.inj (some.inj ht')
          exact ⟨tr, hth ▸ htrap, harmed, List.filter_subset_self _⟩
        · exact ⟨t', ht', harmed, fun _ h => h⟩
    · exact hq
  | armTrap t room wanted =>
    simp only [step, perform, armTrap]
    split
    · rename_i tr htrap
      split
      · rename_i hnone
        have hkept : SignalsKept c (c.setObj t (.trap { tr with armed := true })) :=
          .setObj htrap rfl rfl
        intro th t' ht' harmed trig htrig
        rw [hkept.fires_eq]
        rw [lookup_setObj htrap] at ht'
        split at ht'
        · obtain rfl := Obj.trap.inj (some.inj ht')
          exact Bool.eq_false_iff.mpr (List.filter_eq_nil_iff.mp hnone trig htrig)
        · exact hq th t' ht' harmed trig htrig
      · exact hq
    · exact hq
  | pumpEvents => exact hq.kept (.same rfl rfl rfl) fun _ _ => id
  | close h =>
    rw [step, perform, close]
    split
    · exact hq
    · exact (hs.release ‹_›).quiet_collectTrapEvents

/-- **In a run whose operations all rouse, no armed trap sleeps on a trigger that fires.** -/
theorem noLostWakeup_of_reaches
    (h : Machine.Reaches ({} : Core) step (fun c op => c.AddsDisarmed op ∧ c.Rouses op) c) :
    c.NoLostWakeup := by
  have hstart : Quiet {} := by rintro (_ | th) t ht <;> cases ht
  have hq : c.Quiet := h.invariant_under (fun _ => sound_of_reaches) hstart
    fun _ op hs hq ha => quiet_step hs hq ha.1 ha.2
  intro th t ht harmed trig htrig hfire
  rw [hq th t ht harmed trig htrig] at hfire
  cases hfire

/-- A trap waits for a pipe to have nothing to read any more, ever. -/
def waiting : List Op :=
  [.createMessagePipe, .createTrap (some 0), .addTrigger 3 1 readable unsatisfiable 5,
    .silent .createMessage, .writeMessage 2 4, .close 2, .armTrap 3 none false]

theorem noLostWakeup_waiting : (waiting.foldl step {}).NoLostWakeup := by
  have hnone : ∀ P, ¬ Waits {} P := by
    rintro P ⟨_ | th, t, ht, -⟩ <;> cases ht
  refine noLostWakeup_of_reaches (Machine.Reaches.start.along ?_)
  refine ⟨⟨trivial, hnone _⟩, ⟨trivial, trivial⟩, ⟨fun t ht => ?_, trivial⟩, ⟨trivial, trivial⟩,
    ⟨trivial, trivial⟩, ⟨trivial, trivial⟩, ⟨trivial, trivial⟩, trivial⟩
  obtain rfl := Obj.trap.inj (some.inj ht)
  rfl

/-- The last message is read, and the trap is not told. -/
theorem lostWakeup_waiting_read :
    Machine.Reaches ({} : Core) step AddsDisarmed ((waiting ++ [Op.readMessage 1]).foldl step {}) ∧
      ¬ ((waiting ++ [Op.readMessage 1]).foldl step {}).NoLostWakeup := by
  constructor
  · refine Machine.Reaches.start.along ⟨trivial, trivial, fun t ht => ?_, trivial, trivial, trivial,
      trivial, trivial, trivial⟩
    obtain rfl := Obj.trap.inj (some.inj ht)
    rfl
  · intro h
    obtain ⟨e, he, -⟩ := h 3 _ rfl rfl _ (List.mem_singleton.mpr rfl) rfl
    cases he

end Core

end Voodoo.Whp
