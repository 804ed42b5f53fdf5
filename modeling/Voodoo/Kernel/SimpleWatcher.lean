import Voodoo.Whp.Raises

/-!
# Watchers

A `SimpleWatcher` has a trap of its own.  Through the context of its trigger `OnTrapEvent` finds the
watcher again; it posts a task that runs the callback later, unless the watcher has another trap by
then.  Traps are compared by their handles, and the handle of a closed trap is given out again.

The executor pumps the core and runs its tasks in order; what a callback does is the steps until
`finish`.  Callbacks are numbered as they are given to `Watch`.

* `obeyed_of_reaches`: if no `Watch` gets the handle that a task of the watcher was posted with,
  only installed callbacks run, and events come to the watcher whose trap raised them;
* `not_obeyed_again`: a watcher is cancelled and watches again.
-/

namespace Voodoo.Kernel

open Voodoo.Whp List Option Function

structure SimpleWatcher where
  /-- The policy is `kAutomatic`. -/
  automatic : Bool := true
  trap : Handle := 0
  handle : Handle := 0
  callback : Option Nat := none
  alive : Bool := true
  /-- `watcher_handle_`. -/
  entry : Nat := 0

/-- What `Notify` posts. -/
structure Task where
  watcher : Nat
  trapAtPost : Handle
  callback : Option Nat
  automaticRearm : Bool
  result : Result

/-- A callback that was run, and the one the watcher had then. -/
structure Ran where
  watcher : Nat
  callback : Nat
  installed : Option Nat
  deriving DecidableEq

/-- An event that was dispatched: the trap that raised it, and the trap of the watcher. -/
structure Dispatch where
  raised : Nat
  watcher : Nat
  own : Nat

structure World where
  core : Core := {}
  watchers : Nat → SimpleWatcher
  /-- `WatcherHandleTable`. -/
  table : Nat → Option Nat := fun _ => none
  tasks : List Task := []
  /-- The tasks whose callbacks are running, the last one first. -/
  running : List Task := []
  /-- How many callbacks there were. -/
  watches : Nat := 0
  ran : List Ran := []
  dispatched : List Dispatch := []

inductive WatcherOp where
  /-- `entry` is what the table gives out. -/
  | watch (w : Nat) (handle : Handle) (signals : Signals) (entry : Nat)
  | cancel (w : Nat)
  | arm (w : Nat)
  | destroy (w : Nat)
  /-- `WhpPumpEvents`. -/
  | pump
  | runTask
  /-- The callback of a task returns. -/
  | finish
  | host (op : Op)

namespace World

/-- The handler of the traps of watchers, `OnTrapEvent`, and
`MOJO_TRIGGER_CONDITION_SIGNALS_SATISFIED`. -/
def trapHandler : Nat := 0
def satisfied : UInt32 := 0

def set (s : World) (w : Nat) (x : SimpleWatcher) : World :=
  { s with watchers := Function.update s.watchers w x }

/-- `Cancel`. -/
def cancel (s : World) (w : Nat) : World :=
  let x := s.watchers w
  if x.trap = 0 then s.set w { x with handle := 0, callback := none }
  else
    { s.set w { x with entry := 0, trap := 0, handle := 0, callback := none } with
      table := if x.entry = 0 then s.table else Function.update s.table x.entry none
      core := s.core.step (.close x.trap) }

/-- `Notify`. -/
def notify (s : World) (w : Nat) (result : Result) : World :=
  let x := s.watchers w
  { s with tasks := s.tasks ++ [⟨w, x.trap, x.callback, x.automatic, result⟩] }

/-- `Arm`. -/
def arm (s : World) (w : Nat) : World :=
  let x := s.watchers w
  if x.trap = 0 then s
  else
    let (reply, core) := s.core.armTrap x.trap (some 1) true
    if reply.result = .failedPrecondition then
      match reply.events with
      | blocking :: _ => { s with core }.notify w blocking.event.result
      | [] => { s with core }
    else { s with core }

/-- `Watch`. -/
def watch (s : World) (w : Nat) (handle : Handle) (signals : Signals) (entry : Nat) : World :=
  let s := s.cancel w
  let x := { s.watchers w with callback := some s.watches }
  let s := { s with watches := s.watches + 1 }
  let trap := s.core.nextHandle
  let (reply, core) :=
    (s.core.createTrap (some trapHandler)).2.addTrigger trap handle signals satisfied entry
  if reply.result = .ok then
    let s := { s.set w { x with handle, trap, entry } with
      core := core, table := Function.update s.table entry (some w) }
    if x.automatic then s.arm w else s
  else { s.set w x with core := core.step (.close trap) }

/-- `~SimpleWatcher`. -/
def destroy (s : World) (w : Nat) : World :=
  (s.set w { s.watchers w with alive := false }).cancel w

/-- `OnTrapEvent`. -/
def onTrapEvent (s : World) (e : PendingEvent) : World :=
  if e.handler = trapHandler then
    match s.table e.event.triggerContext with
    | none => s
    | some w =>
      { s.notify w e.event.result with
        dispatched := s.dispatched ++ [⟨e.trap, w, s.core.serial (s.watchers w).trap⟩] }
  else s

def pump (s : World) : World :=
  s.core.pendingEvents.foldl onTrapEvent { s with core := s.core.step .pumpEvents }

/-- The watcher is there, and has the trap it had when the task was posted. -/
def current (s : World) (t : Task) : Bool :=
  (s.watchers t.watcher).alive && (s.watchers t.watcher).trap == t.trapAtPost

/-- The next task, up to what its callback does. -/
def runTask (s : World) : World :=
  match s.tasks with
  | [] => s
  | t :: rest =>
    if s.current t then
      { s with
        tasks := rest
        running := t :: s.running
        ran := s.ran ++
          (t.callback.map fun k => ⟨t.watcher, k, (s.watchers t.watcher).callback⟩).toList }
    else { s with tasks := rest }

def finish (s : World) : World :=
  match s.running with
  | [] => s
  | t :: rest =>
    if s.current t && t.automaticRearm then { s with running := rest }.arm t.watcher
    else { s with running := rest }

def step (s : World) : WatcherOp → World
  | .watch w handle signals entry => s.watch w handle signals entry
  | .cancel w => s.cancel w
  | .arm w => s.arm w
  | .destroy w => s.destroy w
  | .pump => s.pump
  | .runTask => s.runTask
  | .finish => s.finish
  | .host op => { s with core := s.core.step op }

/-- What is assumed of a step: the watcher is there, the table gives out a free entry, and the traps
are left to the watchers. -/
def Proper (s : World) : WatcherOp → Prop
  | .watch w _ _ entry =>
    (s.watchers w).alive = true ∧ entry ≠ 0 ∧ (s.cancel w).table entry = none
  | .cancel w | .arm w | .destroy w => (s.watchers w).alive = true
  | .host op => s.core.Trapless op
  | _ => True

/-- No task of the watcher was posted with the handle its new trap gets. -/
def Unqueued (s : World) : WatcherOp → Prop
  | .watch w _ _ _ =>
    ∀ t ∈ s.tasks, t.watcher = w → t.trapAtPost ≠ (s.cancel w).core.nextHandle
  | _ => True

/-- Callbacks ran only while they were installed, events were dispatched to the watcher whose trap
raised them, and a trap is of one watcher. -/
structure Obeyed (s : World) : Prop where
  ran : ∀ r ∈ s.ran, r.installed = some r.callback
  dispatched : ∀ d ∈ s.dispatched, d.raised = d.own
  apart : ∀ v w, (s.watchers v).trap ≠ 0 → (s.watchers v).trap = (s.watchers w).trap → v = w

/-! ### What holds of every world -/

/-- An event of the trap a watcher has, for the trigger with its entry. -/
def Mine (s : World) (e : PendingEvent) : Prop :=
  ∃ w, (s.watchers w).trap ≠ 0 ∧ e.event.triggerContext = (s.watchers w).entry ∧
    e.trap = s.core.serial (s.watchers w).trap

/-- Each trap is of a watcher, whose entry is the context of its one trigger; pending events are of
these traps, and a task posted with the present trap has the present callback. -/
structure Tied (s : World) : Prop where
  sound : s.core.Sound
  held : ∀ w, (s.watchers w).trap ≠ 0 →
    ∃ trig, s.core.triggersAt (s.watchers w).trap = some [trig] ∧
    trig.context = (s.watchers w).entry ∧ s.table (s.watchers w).entry = some w
  entry_ne : ∀ w, (s.watchers w).trap ≠ 0 → (s.watchers w).entry ≠ 0
  owned : ∀ h ts, s.core.triggersAt h = some ts → ∃ w, (s.watchers w).trap = h
  table : ∀ e w, s.table e = some w → (s.watchers w).trap ≠ 0 ∧ (s.watchers w).entry = e
  pending : ∀ e ∈ s.core.pendingEvents, s.Mine e
  tasks : ∀ t ∈ s.tasks, t.trapAtPost ≠ 0 ∧ ((s.watchers t.watcher).trap = t.trapAtPost →
    (s.watchers t.watcher).callback = t.callback)
  ran : ∀ r ∈ s.ran, r.installed = some r.callback
  dispatched : ∀ d ∈ s.dispatched, d.raised = d.own

variable {s s' : World} {w v : Nat} {c : Core} {e : PendingEvent}

theorem triggersAt_ne_zero {h : Handle} (hts : c.triggersAt h ≠ none) : h ≠ 0 := by
  rintro rfl
  exact hts (by rw [Core.triggersAt, Core.lookup_zero, bind_none])

@[simp] theorem set_self (s : World) (w : Nat) (x : SimpleWatcher) : (s.set w x).watchers w = x :=
  update_self ..

theorem set_of_ne (s : World) (x : SimpleWatcher) (h : v ≠ w) :
    (s.set w x).watchers v = s.watchers v :=
  update_of_ne h ..

namespace Tied

theorem apart (ht : s.Tied) (hv : (s.watchers v).trap ≠ 0)
    (heq : (s.watchers v).trap = (s.watchers w).trap) : v = w := by
  obtain ⟨trig, hts, hcontext, htable⟩ := ht.held v hv
  obtain ⟨trig', hts', hcontext', htable'⟩ := ht.held w (heq ▸ hv)
  rw [heq, hts'] at hts
  obtain rfl : trig' = trig := (List.cons.inj (some.inj hts)).1
  rw [← hcontext, hcontext', htable'] at htable
  exact (some.inj htable).symm

theorem obeyed (ht : s.Tied) : s.Obeyed := ⟨ht.ran, ht.dispatched, fun _ _ => ht.apart⟩

theorem mine_of_from (ht : s.Tied) (hfrom : s.core.From e) : s.Mine e := by
  obtain ⟨h, ts, trig, hts, hmem, hcontext, htrap⟩ := hfrom
  obtain ⟨w, rfl⟩ := ht.owned h ts hts
  have hw : (s.watchers w).trap ≠ 0 := triggersAt_ne_zero (by rw [hts]; nofun)
  obtain ⟨trig', hts', hcontext', -⟩ := ht.held w hw
  rw [hts, Option.some.injEq] at hts'
  rw [hts'] at hmem
  rw [mem_singleton.mp hmem] at hcontext
  exact ⟨w, hw, hcontext.trans hcontext', htrap⟩

theorem raises (ht : s.Tied) (hc : c.Sound) (hr : Core.Raises s.core c) :
    Tied { s with core := c } where
  sound := hc
  held w hw := by
    rw [hr.triggersAt]
    exact ht.held w hw
  entry_ne := ht.entry_ne
  owned h ts hts := ht.owned h ts (hr.triggersAt ▸ hts)
  table := ht.table
  pending e he := by
    have hmine : s.Mine e := by
      rcases hr.events e he with hold | hfrom
      · exact ht.pending e hold
      · exact ht.mine_of_from hfrom
    obtain ⟨w, hw, hcontext, htrap⟩ := hmine
    obtain ⟨trig, hts, -⟩ := ht.held w hw
    exact ⟨w, hw, hcontext, htrap.trans (hr.serial _ (by rw [hts]; nofun)).symm⟩
  tasks := ht.tasks
  ran := ht.ran
  dispatched := ht.dispatched

theorem notify (ht : s.Tied) (hw : (s.watchers w).trap ≠ 0) (result : Result) :
    (s.notify w result).Tied where
  sound := ht.sound
  held := ht.held
  entry_ne := ht.entry_ne
  owned := ht.owned
  table := ht.table
  pending := ht.pending
  tasks t hmem := by
    rcases mem_append.mp hmem with hold | hnew
    · exact ht.tasks t hold
    · obtain rfl := mem_singleton.mp hnew
      exact ⟨hw, fun _ => rfl⟩
  ran := ht.ran
  dispatched := ht.dispatched

theorem arm (ht : s.Tied) (w : Nat) : (s.arm w).Tied := by
  unfold World.arm
  by_cases hw : (s.watchers w).trap = 0
  · dsimp only
    rw [if_pos hw]
    exact ht
  · have hsound := Core.sound_step ht.sound (.armTrap (s.watchers w).trap (some 1) true)
    have ht' := ht.raises hsound (Core.raises_armTrap s.core (s.watchers w).trap (some 1) true)
    dsimp only
    rw [if_neg hw]
    split
    · split
      · exact ht'.notify hw _
      · exact ht'
    · exact ht'

theorem congr (ht : s.Tied) (hcore : s'.core = s.core) (htable : s'.table = s.table)
    (htrap : ∀ v, (s'.watchers v).trap = (s.watchers v).trap ∧
      (s'.watchers v).entry = (s.watchers v).entry ∧
      ((s.watchers v).trap ≠ 0 → (s'.watchers v).callback = (s.watchers v).callback))
    (htasks : s'.tasks ⊆ s.tasks) (hran : ∀ r ∈ s'.ran, r.installed = some r.callback)
    (hdispatched : ∀ d ∈ s'.dispatched, d.raised = d.own) : s'.Tied where
  sound := hcore ▸ ht.sound
  held w hw := by
    obtain ⟨heq, hentry, -⟩ := htrap w
    rw [heq] at hw
    rw [heq, hentry, hcore, htable]
    exact ht.held w hw
  entry_ne w hw := by
    obtain ⟨heq, hentry, -⟩ := htrap w
    rw [heq] at hw
    rw [hentry]
    exact ht.entry_ne w hw
  owned h ts hts := by
    obtain ⟨w, hw⟩ := ht.owned h ts (hcore ▸ hts)
    exact ⟨w, (htrap w).1.trans hw⟩
  table e w he := by
    rw [(htrap w).1, (htrap w).2.1]
    exact ht.table e w (htable ▸ he)
  pending e he := by
    obtain ⟨w, hw, hcontext, hraised⟩ := ht.pending e (hcore ▸ he)
    obtain ⟨heq, hentry, -⟩ := htrap w
    exact ⟨w, heq ▸ hw, hcontext.trans hentry.symm, by rw [hraised, hcore, heq]⟩
  tasks t hmem := by
    obtain ⟨hne, hcallback⟩ := ht.tasks t (htasks hmem)
    obtain ⟨heq, -, hsame⟩ := htrap t.watcher
    refine ⟨hne, fun hcur => ?_⟩
    rw [heq] at hcur
    rw [hsame (hcur ▸ hne), hcallback hcur]
  ran := hran
  dispatched := hdispatched

theorem set (ht : s.Tied) (x : SimpleWatcher) (htrap : x.trap = (s.watchers w).trap)
    (hentry : x.entry = (s.watchers w).entry)
    (hcallback : x.trap ≠ 0 → x.callback = (s.watchers w).callback) : (s.set w x).Tied := by
  refine ht.congr rfl rfl (fun v => ?_) (fun _ => id) ht.ran ht.dispatched
  by_cases hv : v = w
  · rw [hv, set_self]
    exact ⟨htrap, hentry, fun hne => hcallback (htrap ▸ hne)⟩
  · rw [set_of_ne s x hv]
    exact ⟨rfl, rfl, fun _ => rfl⟩

/-- `Cancel` of a watcher that has a trap. -/
theorem close (ht : s.Tied) (hw : (s.watchers w).trap ≠ 0) (x : SimpleWatcher) (hx : x.trap = 0) :
    Tied { s.set w x with
      table := Function.update s.table (s.watchers w).entry none
      core := s.core.step (.close (s.watchers w).trap) } := by
  obtain ⟨trig, hts, hcontext, htable⟩ := ht.held w hw
  obtain ⟨t, hlive, htrigs⟩ := Core.trap_of_triggersAt hts
  obtain ⟨hat, hserial, hevents⟩ := Core.closesTrap_close hlive
  rw [htrigs] at hevents
  -- The other watchers keep their traps and entries.
  have hother {v : Nat} (hv : v ≠ w) (htrap : (s.watchers v).trap ≠ 0) :
      (s.watchers v).trap ≠ (s.watchers w).trap ∧ (s.watchers v).entry ≠ (s.watchers w).entry := by
    refine ⟨fun heq => hv (ht.apart htrap heq), fun heq => ?_⟩
    obtain ⟨-, -, -, htable'⟩ := ht.held v htrap
    rw [heq, htable] at htable'
    exact hv (some.inj htable').symm
  have hkept {v : Nat} (hv : v ≠ w) : (s.set w x).watchers v = s.watchers v := set_of_ne s x hv
  have hne {v : Nat} (hv : ((s.set w x).watchers v).trap ≠ 0) : v ≠ w := by
    rintro rfl
    rw [set_self] at hv
    exact hv hx
  have howned (h : Handle) (ts : List TrapTrigger)
      (hts : (s.core.step (.close (s.watchers w).trap)).triggersAt h = some ts) :
      ∃ v, v ≠ w ∧ (s.watchers v).trap = h := by
    rw [Core.step, Core.perform, hat] at hts
    split at hts
    · cases hts
    · rename_i hh
      obtain ⟨v, hv⟩ := ht.owned h ts hts
      exact ⟨v, fun hvw => hh (hvw ▸ hv.symm), hv⟩
  have hheld {v : Nat} (hv : v ≠ w) (htrap : (s.watchers v).trap ≠ 0) : ∃ trig,
      (s.core.step (.close (s.watchers w).trap)).triggersAt (s.watchers v).trap = some [trig] ∧
      trig.context = (s.watchers v).entry ∧ s.table (s.watchers v).entry = some v := by
    rw [Core.step, Core.perform, hat, if_neg (hother hv htrap).1]
    exact ht.held v htrap
  refine ⟨Core.sound_step ht.sound _, fun v hv => ?_, fun v hv => ?_, fun h ts hts => ?_,
    fun e v he => ?_, fun e he => ?_, fun t hmem => ?_, ht.ran, ht.dispatched⟩
  · have hvw := hne hv
    dsimp only at hv ⊢
    rw [hkept hvw] at hv ⊢
    obtain ⟨trig, hts, hcontext, htable⟩ := hheld hvw hv
    exact ⟨trig, hts, hcontext, by rw [update_of_ne (hother hvw hv).2, htable]⟩
  · have hvw := hne hv
    dsimp only at hv ⊢
    rw [hkept hvw] at hv ⊢
    exact ht.entry_ne v hv
  · obtain ⟨v, hvw, hv⟩ := howned h ts hts
    exact ⟨v, by rw [← hv]; exact congrArg _ (hkept hvw)⟩
  · dsimp only at he
    have hew : e ≠ (s.watchers w).entry := by
      rintro rfl
      rw [update_self] at he
      cases he
    rw [update_of_ne hew] at he
    obtain ⟨htrap, hentry⟩ := ht.table e v he
    have hvw : v ≠ w := by
      rintro rfl
      exact hew hentry.symm
    dsimp only
    rw [hkept hvw]
    exact ⟨htrap, hentry⟩
  · rcases hevents e he with ⟨hold, hpurged⟩ | ⟨h, ts, trig', hts', hmem, hcontext, hraised⟩
    · obtain ⟨v, hv, hentry, hraised⟩ := ht.pending e hold
      have hvw : v ≠ w := by
        rintro rfl
        exact hpurged (mem_singleton.mpr (hentry.trans hcontext.symm))
      obtain ⟨trig', hts', -⟩ := ht.held v hv
      refine ⟨v, ?_, ?_, ?_⟩
      · exact (hkept hvw).symm ▸ hv
      · exact (hkept hvw).symm ▸ hentry
      · refine hraised.trans ((hserial _ (hother hvw hv).1 (by rw [hts']; simp)).symm.trans ?_)
        exact congrArg _ (congrArg _ (hkept hvw).symm)
    · obtain ⟨v, hvw, rfl⟩ := howned h ts hts'
      have hv : (s.watchers v).trap ≠ 0 := triggersAt_ne_zero (by rw [hts']; simp)
      obtain ⟨trig'', hts'', hcontext', -⟩ := hheld hvw hv
      rw [show (s.core.step (.close (s.watchers w).trap)).triggersAt (s.watchers v).trap = some ts
        from hts', Option.some.injEq] at hts''
      rw [hts''] at hmem
      rw [mem_singleton.mp hmem] at hcontext
      refine ⟨v, ?_, ?_, ?_⟩
      · exact (hkept hvw).symm ▸ hv
      · exact (hkept hvw).symm ▸ hcontext.trans hcontext'
      · exact hraised.trans (congrArg _ (congrArg _ (hkept hvw).symm))
  · obtain ⟨htrap, hcallback⟩ := ht.tasks t hmem
    refine ⟨htrap, fun hcur => ?_⟩
    by_cases hvw : t.watcher = w
    · dsimp only at hcur
      rw [hvw, set_self, hx] at hcur
      exact absurd hcur.symm htrap
    · dsimp only at hcur ⊢
      rw [hkept hvw] at hcur ⊢
      exact hcallback hcur

theorem cancel (ht : s.Tied) (w : Nat) : (s.cancel w).Tied := by
  unfold World.cancel
  dsimp only
  by_cases hw : (s.watchers w).trap = 0
  · rw [if_pos hw]
    exact ht.set _ rfl rfl fun hne => absurd hw hne
  · rw [if_neg hw, if_neg (ht.entry_ne w hw)]
    exact ht.close hw _ rfl

/-- A watcher without a trap gets a new one, and a new callback. -/
theorem opens (ht : s.Tied) {c : Core} {trig : TrapTrigger} {x : SimpleWatcher} {entry : Nat}
    (hsound : c.Sound) (hw : (s.watchers w).trap = 0) (ho : Core.OpensTrap s.core [trig] c)
    (hx : x.trap = s.core.nextHandle) (hentry : x.entry = entry) (hcontext : trig.context = entry)
    (hpos : entry ≠ 0) (hfree : s.table entry = none)
    (hqueued : ∀ t ∈ s.tasks, t.watcher = w → t.trapAtPost ≠ s.core.nextHandle) (n : Nat) :
    Tied { s.set w x with
      core := c, table := Function.update s.table entry (some w), watches := n } := by
  have hnone := Core.triggersAt_nextHandle ht.sound
  have hkept {v : Nat} (hv : v ≠ w) : (s.set w x).watchers v = s.watchers v := set_of_ne s x hv
  -- The others have had their traps before, and other entries.
  have hold {v : Nat} (hv : (s.watchers v).trap ≠ 0) :
      (s.watchers v).trap ≠ s.core.nextHandle ∧ (s.watchers v).entry ≠ entry := by
    obtain ⟨trig', hts, -, htable⟩ := ht.held v hv
    refine ⟨fun heq => ?_, fun heq => ?_⟩
    · rw [heq, hnone] at hts
      cases hts
    · rw [heq, hfree] at htable
      cases htable
  refine ⟨hsound, fun v hv => ?_, fun v hv => ?_, fun h ts hts => ?_, fun e v he => ?_,
    fun e he => ?_, fun t hmem => ?_, ht.ran, ht.dispatched⟩
  · dsimp only at hv ⊢
    by_cases hvw : v = w
    · rw [hvw, set_self, hx, ho.triggersAt, if_pos rfl, hentry, update_self]
      exact ⟨trig, rfl, hcontext, rfl⟩
    · rw [hkept hvw] at hv ⊢
      rw [ho.triggersAt, if_neg (hold hv).1, update_of_ne (hold hv).2]
      exact ht.held v hv
  · dsimp only at hv ⊢
    by_cases hvw : v = w
    · rw [hvw, set_self, hentry]
      exact hpos
    · rw [hkept hvw] at hv ⊢
      exact ht.entry_ne v hv
  · dsimp only at hts ⊢
    rw [ho.triggersAt] at hts
    by_cases hh : h = s.core.nextHandle
    · exact ⟨w, by rw [set_self, hx, hh]⟩
    · rw [if_neg hh] at hts
      obtain ⟨v, hv⟩ := ht.owned h ts hts
      have hvw : v ≠ w := by
        rintro rfl
        rw [hw] at hv
        exact triggersAt_ne_zero (by rw [hts]; nofun) hv.symm
      exact ⟨v, by rw [hkept hvw, hv]⟩
  · dsimp only at he ⊢
    by_cases hee : e = entry
    · rw [hee, update_self] at he
      obtain rfl := some.inj he
      rw [set_self, hentry, hx]
      exact ⟨Nat.ne_of_gt ht.sound.table.nextHandle_pos, hee.symm⟩
    · rw [update_of_ne hee] at he
      obtain ⟨hv, heq⟩ := ht.table e v he
      have hvw : v ≠ w := fun hvw => hv (hvw ▸ hw)
      rw [hkept hvw]
      exact ⟨hv, heq⟩
  · dsimp only at he
    rw [ho.pendingEvents] at he
    obtain ⟨v, hv, heq, hraised⟩ := ht.pending e he
    have hvw : v ≠ w := fun hvw => hv (hvw ▸ hw)
    refine ⟨v, (hkept hvw).symm ▸ hv, (hkept hvw).symm ▸ heq, ?_⟩
    dsimp only
    rw [hkept hvw, ho.serial _ (hold hv).1, hraised]
  · obtain ⟨htrap, hcallback⟩ := ht.tasks t hmem
    refine ⟨htrap, fun hcur => ?_⟩
    dsimp only at hcur ⊢
    by_cases hvw : t.watcher = w
    · rw [hvw, set_self, hx] at hcur
      exact absurd hcur.symm (hqueued t hmem hvw)
    · rw [hkept hvw] at hcur ⊢
      exact hcallback hcur

theorem trap_cancel (s : World) (w : Nat) : ((s.cancel w).watchers w).trap = 0 := by
  unfold World.cancel
  dsimp only
  by_cases hw : (s.watchers w).trap = 0
  · rw [if_pos hw, set_self]
    exact hw
  · rw [if_neg hw]
    show (Function.update s.watchers w _ w).trap = 0
    rw [update_self]

theorem tasks_cancel (s : World) (w : Nat) : (s.cancel w).tasks = s.tasks := by
  unfold World.cancel
  dsimp only
  split <;> rfl

theorem watch (ht : s.Tied) {handle : Handle} {signals : Signals} {entry : Nat}
    (hp : s.Proper (.watch w handle signals entry))
    (hq : s.Unqueued (.watch w handle signals entry)) :
    (s.watch w handle signals entry).Tied := by
  obtain ⟨-, hpos, hfree⟩ := hp
  have hqueued : ∀ t ∈ (s.cancel w).tasks, t.watcher = w →
      t.trapAtPost ≠ (s.cancel w).core.nextHandle := by
    rw [tasks_cancel]
    exact hq
  have htrap := trap_cancel s w
  have ht' := ht.cancel w
  unfold World.watch
  generalize s.cancel w = s' at hfree hqueued htrap ht'
  dsimp only
  have hcreate := Core.sound_step ht'.sound (.createTrap (some trapHandler))
  rcases Core.addTrigger_createTrap ht'.sound trapHandler handle signals satisfied entry with
    ⟨trig, c, hcontext, ho, heq⟩ | ⟨r, hr, heq⟩
  · have hsound := Core.sound_step hcreate
      (.addTrigger s'.core.nextHandle handle signals satisfied entry)
    rw [Core.step, Core.perform, Core.step, Core.perform, heq] at hsound
    rw [heq]
    dsimp only
    rw [if_pos rfl]
    have hopens := ht'.opens (x := { s'.watchers w with
        callback := some s'.watches, handle := handle, trap := s'.core.nextHandle, entry := entry })
      hsound htrap ho rfl rfl hcontext hpos hfree hqueued (s'.watches + 1)
    split
    · exact hopens.arm w
    · exact hopens
  · have hsound := Core.sound_step hcreate (.close s'.core.nextHandle)
    rw [heq]
    dsimp only
    rw [if_neg hr]
    have hraises := ht'.raises hsound (Core.raises_close_createTrap ht'.sound trapHandler)
    exact (hraises.set (w := w) { s'.watchers w with callback := some s'.watches } rfl rfl
      fun hne => absurd htrap hne).congr rfl rfl (fun _ => ⟨rfl, rfl, fun _ => rfl⟩) (fun _ => id)
      ht'.ran ht'.dispatched

theorem onTrapEvent (ht : s.Tied) (he : s.Mine e) : (s.onTrapEvent e).Tied := by
  obtain ⟨w, hw, hcontext, hraised⟩ := he
  obtain ⟨-, -, -, htable⟩ := ht.held w hw
  unfold World.onTrapEvent
  split
  · rw [hcontext, htable]
    refine (ht.notify hw e.event.result).congr rfl rfl (fun _ => ⟨rfl, rfl, fun _ => rfl⟩)
      (fun _ => id) ht.ran fun d hd => ?_
    rcases mem_append.mp hd with hold | hnew
    · exact ht.dispatched d hold
    · rw [mem_singleton.mp hnew]
      exact hraised
  · exact ht

theorem mine_onTrapEvent {e' : PendingEvent} (he : s.Mine e) : (s.onTrapEvent e').Mine e := by
  unfold World.onTrapEvent
  split
  · split
    · exact he
    · exact he
  · exact he

theorem foldl_onTrapEvent (ht : s.Tied) {events : List PendingEvent} (he : ∀ e ∈ events, s.Mine e) :
    (events.foldl World.onTrapEvent s).Tied := by
  induction events generalizing s with
  | nil => exact ht
  | cons e events ih =>
    exact ih (ht.onTrapEvent (he e mem_cons_self)) fun e' he' =>
      mine_onTrapEvent (he e' (mem_cons_of_mem e he'))

theorem pump (ht : s.Tied) : s.pump.Tied := by
  refine foldl_onTrapEvent (ht.raises (Core.sound_step ht.sound .pumpEvents) (.same rfl nofun))
    fun e he => ?_
  exact ht.pending e he

theorem runTask (ht : s.Tied) : s.runTask.Tied := by
  unfold World.runTask
  cases htasks : s.tasks with
  | nil => exact ht
  | cons t rest =>
    have hsub : rest ⊆ s.tasks := fun t' ht' => htasks ▸ mem_cons_of_mem t ht'
    dsimp only
    by_cases hcur : s.current t
    · rw [if_pos hcur]
      refine ht.congr rfl rfl (fun _ => ⟨rfl, rfl, fun _ => rfl⟩) hsub
        (fun r hr => ?_) ht.dispatched
      rcases mem_append.mp hr with hold | hnew
      · exact ht.ran r hold
      · obtain ⟨k, hk, rfl⟩ := map_eq_some_iff.mp (mem_toList.mp hnew)
        obtain ⟨-, hcallback⟩ := ht.tasks t (htasks ▸ mem_cons_self)
        rw [current, Bool.and_eq_true, beq_iff_eq] at hcur
        rw [hcallback hcur.2, hk]
    · rw [if_neg hcur]
      exact ht.congr rfl rfl (fun _ => ⟨rfl, rfl, fun _ => rfl⟩) hsub ht.ran ht.dispatched

theorem finish (ht : s.Tied) : s.finish.Tied := by
  unfold World.finish
  split
  · exact ht
  · rename_i t rest _
    have ht' : Tied { s with running := rest } :=
      ht.congr rfl rfl (fun _ => ⟨rfl, rfl, fun _ => rfl⟩) (fun _ => id) ht.ran ht.dispatched
    split
    · exact ht'.arm t.watcher
    · exact ht'

theorem destroy (ht : s.Tied) (w : Nat) : (s.destroy w).Tied :=
  (ht.set { s.watchers w with alive := false } rfl rfl fun _ => rfl).cancel w

theorem step (ht : s.Tied) (op : WatcherOp) (hp : s.Proper op) (hq : s.Unqueued op) :
    (s.step op).Tied := by
  cases op with
  | watch w handle signals entry => exact ht.watch hp hq
  | cancel w => exact ht.cancel w
  | arm w => exact ht.arm w
  | destroy w => exact ht.destroy w
  | pump => exact ht.pump
  | runTask => exact ht.runTask
  | finish => exact ht.finish
  | host op => exact ht.raises (Core.sound_step ht.sound op) (Core.raises_step ht.sound hp)

end Tied

/-- At first no watcher has a trap. -/
def fresh (policies : Nat → Bool) : World where
  watchers w := { automatic := policies w }

theorem tied_fresh (policies : Nat → Bool) : (fresh policies).Tied where
  sound := Core.sound_start
  held _ hw := absurd rfl hw
  entry_ne _ hw := absurd rfl hw
  owned h ts hts := by
    obtain ⟨t, ht, -⟩ := Core.trap_of_triggersAt hts
    have hlt := Core.lt_length_of_lookup ht
    exact absurd (Nat.lt_one_iff.mp hlt) (Core.ne_zero_of_lookup ht)
  table _ _ := nofun
  pending := nofun
  tasks := nofun
  ran := nofun
  dispatched := nofun

/-- **Cancellation**, in every run in which no watcher gets a trap handle that a task of it still
waits for. -/
theorem obeyed_of_reaches {policies : Nat → Bool} {s : World}
    (h : Machine.Reaches (fresh policies) step (fun s op => s.Proper op ∧ s.Unqueued op) s) :
    s.Obeyed := by
  have ht : s.Tied := h.invariant (tied_fresh policies) fun s op ht hop => ht.step op hop.1 hop.2
  exact ht.obeyed

/-- A watcher watches a pipe that is written to, and its callback runs. -/
def watchesOnce : List WatcherOp :=
  [.host .createMessagePipe, .watch 0 1 readable 8, .host (.silent .createMessage),
    .host (.writeMessage 2 4), .pump, .runTask, .finish]

theorem along_watchesOnce : Machine.Along step (fun s op => s.Proper op ∧ s.Unqueued op)
    (fresh fun _ => true) watchesOnce := by
  refine ⟨⟨trivial, trivial⟩, ⟨⟨rfl, by decide, rfl⟩, nofun⟩, ⟨trivial, trivial⟩,
    ⟨trivial, trivial⟩, ⟨trivial, trivial⟩, ⟨trivial, trivial⟩, ⟨trivial, trivial⟩, trivial⟩

theorem obeyed_watchesOnce :
    (watchesOnce.foldl step (fresh fun _ => true)).ran = [⟨0, 0, some 0⟩] ∧
      (watchesOnce.foldl step (fresh fun _ => true)).Obeyed :=
  ⟨by decide, obeyed_of_reaches (.along .start along_watchesOnce)⟩

/-- With the task of the first callback posted, the watcher is cancelled and watches again. -/
def watchesAgain : List WatcherOp :=
  [.host .createMessagePipe, .watch 0 1 readable 8, .host (.silent .createMessage),
    .host (.writeMessage 2 4), .pump, .cancel 0, .watch 0 1 readable 8, .runTask]

/-- The first callback runs, though the second is installed. -/
theorem not_obeyed_again :
    Machine.Reaches (fresh fun _ => true) step Proper
      (watchesAgain.foldl step (fresh fun _ => true)) ∧
    (watchesAgain.foldl step (fresh fun _ => true)).ran = [⟨0, 0, some 1⟩] ∧
    ¬ (watchesAgain.foldl step (fresh fun _ => true)).Obeyed := by
  have hran : (watchesAgain.foldl step (fresh fun _ => true)).ran = [⟨0, 0, some 1⟩] := by decide
  refine ⟨.along .start ?_, hran, fun h => ?_⟩
  · exact ⟨trivial, ⟨rfl, by decide, rfl⟩, trivial, trivial, trivial, rfl, ⟨rfl, by decide, rfl⟩,
      trivial, trivial⟩
  · have hrun := h.ran ⟨0, 0, some 1⟩ (by rw [hran]; exact mem_singleton_self _)
    exact absurd hrun (by decide)

end World

end Voodoo.Kernel
