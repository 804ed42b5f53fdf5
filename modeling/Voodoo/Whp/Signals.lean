import Voodoo.Whp.State

/-!
# Signals and traps

The signals of a handle are computed from the state of its pipe when they are
asked for.  `collectTrapEvents` looks through the armed traps and queues an event
for each that has a trigger whose condition holds, disarming it; that is all it does
(`Collected`), and it leaves no armed trap with such a trigger
(`quietAt_collectTrapEvents`).
-/

namespace Voodoo.Whp

open List

/-- `PipeSignals`. -/
def pipeSignals (s : PipeState) (side : Bool) : SignalsState :=
  let have_ : Signals := if s.queues side = [] then 0 else readable
  if s.closed (!side) = false then ⟨have_ ||| writable, writable ||| readable ||| peerClosed⟩
  else ⟨have_ ||| peerClosed, peerClosed ||| have_⟩

/-- `DataPipeSignals` of a producer. -/
def producerSignals (s : DataPipeState) : SignalsState :=
  if s.consumerClosed = false then
    ⟨if s.available < s.capacity then writable else 0, writable ||| peerClosed⟩
  else ⟨peerClosed, peerClosed⟩

/-- `DataPipeSignals` of a consumer. -/
def consumerSignals (s : DataPipeState) : SignalsState :=
  let have_ : Signals := if 0 < s.available then readable else 0
  if s.producerClosed = false then ⟨have_, readable ||| peerClosed⟩
  else ⟨have_ ||| peerClosed, peerClosed ||| have_⟩

/-- `SignalsMatch`. -/
def signalsMatch (st : SignalsState) (want : Signals) (condition : UInt32) : Bool :=
  if condition = unsatisfiable then st.satisfiable &&& want == 0 else st.satisfied &&& want == want

namespace Core

/-- `QueryLocked`. -/
def query (c : Core) (h : Handle) : SignalsState :=
  match c.lookup h with
  | some (.messagePipe e) => pipeSignals (c.pipes e.state) e.side
  | some (.dataPipeProducer i) => producerSignals (c.dataPipes i)
  | some (.dataPipeConsumer i) => consumerSignals (c.dataPipes i)
  | _ => {}

/-- The object whose signals `query` reports. -/
def reporter (c : Core) (h : Handle) : Option Nat :=
  match c.lookup h with
  | some (.messagePipe _) | some (.dataPipeProducer _) | some (.dataPipeConsumer _) =>
    some (c.serial h)
  | _ => none

/-- The condition of the trigger holds. -/
def fires (c : Core) (trig : TrapTrigger) : Bool :=
  signalsMatch (c.query trig.watched) trig.signals trig.condition

/-- The event for a trigger of the trap `th` that fires. -/
def eventFor (c : Core) (th : Handle) (handler : Nat) (trig : TrapTrigger) : PendingEvent :=
  let st := c.query trig.watched
  { handler := handler
    event :=
      { triggerContext := trig.context
        result := if trig.condition = unsatisfiable ∨ st.satisfiable &&& trig.signals = 0
          then .failedPrecondition else .ok
        signalsState := st }
    trap := c.serial th
    registered := some trig.object
    reported := c.reporter trig.watched }

def post (c : Core) (e : PendingEvent) : Core :=
  { c with pendingEvents := c.pendingEvents ++ [e] }

/-- The body of the loop of `CollectTrapEvents`. -/
def collectTrap (c : Core) (th : Handle) : Core :=
  match c.lookup th with
  | some (.trap t) =>
    if t.armed then
      match t.triggers.find? c.fires with
      | some trig =>
        (c.post (c.eventFor th t.handler trig)).setObj th (.trap { t with armed := false })
      | none => c
    else c
  | _ => c

/-- `CollectTrapEvents`. -/
def collectTrapEvents (c : Core) : Core := c.traps.foldl collectTrap c

/-! ### What collecting does -/

/-- All that collecting does: traps are disarmed, and events queued for triggers of traps. -/
structure Collected (c c' : Core) : Prop where
  obj : ∀ h, c'.lookup h = c.lookup h ∨ ∃ t, c.lookup h = some (.trap t) ∧
    c'.lookup h = some (.trap { t with armed := false })
  rest : ∃ slots events, c' = { c with slots := slots, pendingEvents := c.pendingEvents ++ events } ∧
    slots.length = c.slots.length ∧ c'.serial = c.serial ∧
    ∀ e ∈ events, ∃ th t trig, c.lookup th = some (.trap t) ∧ trig ∈ t.triggers ∧
      c.fires trig = true ∧ e = c.eventFor th t.handler trig

namespace Collected

variable {c c' c'' : Core} {h : Handle}

theorem lookup_eq (hc : Collected c c') (hno : ∀ t, c.lookup h ≠ some (.trap t)) :
    c'.lookup h = c.lookup h := by
  rcases hc.obj h with heq | ⟨t, ht, -⟩
  · exact heq
  · exact absurd ht (hno t)

theorem of_trap (hc : Collected c c') {t' : TrapObj} (ht : c'.lookup h = some (.trap t')) :
    ∃ t, c.lookup h = some (.trap t) ∧ t'.triggers = t.triggers ∧ t'.handler = t.handler ∧
      (t'.armed = true → t.armed = true) := by
  rcases hc.obj h with heq | ⟨t, hold, hnew⟩
  · exact ⟨t', heq ▸ ht, rfl, rfl, id⟩
  · obtain rfl := Obj.trap.inj (Option.some.inj (ht.symm.trans hnew))
    exact ⟨t, hold, rfl, rfl, nofun⟩

theorem pipes_eq (hc : Collected c c') : c'.pipes = c.pipes := by
  obtain ⟨slots, events, rfl, -⟩ := hc.rest
  rfl

theorem dataPipes_eq (hc : Collected c c') : c'.dataPipes = c.dataPipes := by
  obtain ⟨slots, events, rfl, -⟩ := hc.rest
  rfl

theorem serial_eq (hc : Collected c c') : c'.serial = c.serial := by
  obtain ⟨slots, events, -, -, hserial, -⟩ := hc.rest
  exact hserial

theorem query_eq (hc : Collected c c') (h : Handle) : c'.query h = c.query h := by
  unfold query
  rw [hc.pipes_eq, hc.dataPipes_eq]
  rcases hc.obj h with heq | ⟨t, hold, hnew⟩
  · rw [heq]
  · rw [hold, hnew]

theorem reporter_eq (hc : Collected c c') (h : Handle) : c'.reporter h = c.reporter h := by
  unfold reporter
  rw [hc.serial_eq]
  rcases hc.obj h with heq | ⟨t, hold, hnew⟩
  · rw [heq]
  · rw [hold, hnew]

theorem fires_eq (hc : Collected c c') (trig : TrapTrigger) : c'.fires trig = c.fires trig := by
  rw [fires, hc.query_eq, fires]

theorem eventFor_eq (hc : Collected c c') (th : Handle) (handler : Nat) (trig : TrapTrigger) :
    c'.eventFor th handler trig = c.eventFor th handler trig := by
  rw [eventFor, eventFor, hc.query_eq, hc.reporter_eq, hc.serial_eq]

protected theorem refl (c : Core) : Collected c c where
  obj _ := Or.inl rfl
  rest := ⟨c.slots, [], by rw [append_nil], rfl, rfl, nofun⟩

protected theorem trans (h₁ : Collected c c') (h₂ : Collected c' c'') : Collected c c'' where
  obj h := by
    rcases h₂.obj h with heq | ⟨t', hold, hnew⟩
    · rw [heq]
      exact h₁.obj h
    · right
      rcases h₁.obj h with heq | ⟨t, hold', hnew'⟩
      · exact ⟨t', heq ▸ hold, hnew⟩
      · obtain rfl := Obj.trap.inj (Option.some.inj (hold.symm.trans hnew'))
        exact ⟨t, hold', hnew⟩
  rest := by
    obtain ⟨slots₁, es, hc', hlen₁, hserial₁, hes⟩ := h₁.rest
    obtain ⟨slots₂, fs, hc'', hlen₂, hserial₂, hfs⟩ := h₂.rest
    refine ⟨slots₂, es ++ fs, ?_, ?_, hserial₂.trans hserial₁, ?_⟩
    · rw [hc'', hc', List.append_assoc]
    · rw [hlen₂, hc', hlen₁]
    · intro e he
      rcases mem_append.mp he with he | he
      · exact hes e he
      · obtain ⟨th, t', trig, ht', htrig, hfire, rfl⟩ := hfs e he
        obtain ⟨t, ht, htriggers, hhandler, -⟩ := h₁.of_trap ht'
        exact ⟨th, t, trig, ht, htriggers ▸ htrig, (h₁.fires_eq trig).symm.trans hfire,
          by rw [h₁.eventFor_eq, hhandler]⟩

end Collected

section collect

variable {c c' : Core} {th : Handle}

theorem serial_setObj (c : Core) (h : Handle) (obj : Obj) : (c.setObj h obj).serial = c.serial := by
  funext g
  unfold serial setObj
  dsimp only
  by_cases hg : h = g
  · rw [hg, getElem?_modify_eq]
    cases c.slots[g]? with
    | none => rfl
    | some slot => rfl
  · rw [getElem?_modify_ne _ _ hg]

theorem collected_collectTrap (c : Core) (th : Handle) : Collected c (c.collectTrap th) := by
  unfold collectTrap
  split
  · rename_i t ht
    split
    · rename_i harmed
      split
      · rename_i trig hfind
        have hlive : (c.post (c.eventFor th t.handler trig)).lookup th = some (.trap t) := ht
        constructor
        · intro h
          rw [lookup_setObj hlive]
          by_cases hh : h = th
          · rw [if_pos hh, hh]
            exact Or.inr ⟨t, ht, rfl⟩
          · rw [if_neg hh]
            exact Or.inl rfl
        · refine ⟨_, [c.eventFor th t.handler trig], rfl, length_modify .., serial_setObj _ _ _, ?_⟩
          intro e he
          obtain rfl := mem_singleton.mp he
          exact ⟨th, t, trig, ht, mem_of_find?_eq_some hfind, find?_some hfind, rfl⟩
      · exact Collected.refl c
    · exact Collected.refl c
  · exact Collected.refl c

theorem collected_foldl (ths : List Handle) (c : Core) : Collected c (ths.foldl collectTrap c) := by
  induction ths generalizing c with
  | nil => exact Collected.refl c
  | cons th ths ih => exact (collected_collectTrap c th).trans (ih _)

theorem collected_collectTrapEvents (c : Core) : Collected c c.collectTrapEvents :=
  collected_foldl c.traps c

/-! ### What it achieves -/

/-- The trap, if it is armed, has no trigger that fires. -/
def QuietAt (c : Core) (th : Handle) : Prop :=
  ∀ t, c.lookup th = some (.trap t) → t.armed = true → ∀ trig ∈ t.triggers, c.fires trig = false

/-- No armed trap has a trigger that fires. -/
def Quiet (c : Core) : Prop := ∀ th, c.QuietAt th

theorem QuietAt.collected (hc : Collected c c') (h : c.QuietAt th) : c'.QuietAt th := by
  intro t' ht' harmed trig htrig
  obtain ⟨t, ht, htriggers, -, himp⟩ := hc.of_trap ht'
  rw [hc.fires_eq]
  exact h t ht (himp harmed) trig (htriggers ▸ htrig)

theorem quietAt_collectTrap (c : Core) (th : Handle) : (c.collectTrap th).QuietAt th := by
  intro t' ht' harmed trig htrig
  rw [(collected_collectTrap c th).fires_eq]
  obtain ⟨t, ht, htriggers, -, himp⟩ := (collected_collectTrap c th).of_trap ht'
  rw [htriggers] at htrig
  rw [collectTrap, ht] at ht'
  dsimp only at ht'
  rw [if_pos (himp harmed)] at ht'
  cases hfind : t.triggers.find? c.fires with
  | none => simpa using find?_eq_none.mp hfind trig htrig
  | some found =>
    rw [hfind] at ht'
    dsimp only at ht'
    have hlive : (c.post (c.eventFor th t.handler found)).lookup th = some (.trap t) := ht
    rw [lookup_setObj hlive, if_pos rfl] at ht'
    obtain rfl := Obj.trap.inj (Option.some.inj ht')
    cases harmed

/-- **Collecting leaves no armed trap with a trigger that fires**, as far as it goes through the
traps. -/
theorem quietAt_collectTrapEvents (hth : th ∈ c.traps) : c.collectTrapEvents.QuietAt th := by
  unfold collectTrapEvents
  generalize c.traps = ths at hth
  induction ths generalizing c with
  | nil => exact absurd hth not_mem_nil
  | cons th' ths ih =>
    rw [foldl_cons]
    rcases mem_cons.mp hth with rfl | hth
    · exact (quietAt_collectTrap c th).collected (collected_foldl ths _)
    · exact ih hth

end collect

end Core

end Voodoo.Whp
