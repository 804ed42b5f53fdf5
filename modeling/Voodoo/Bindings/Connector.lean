import Mathlib.Data.List.Basic
import Voodoo.Lib.Machine

/-!
# The connector

A `Connector` reads its end of a pipe when one of two `SimpleWatcher`s says so, one on `READABLE`
and one on `PEER_CLOSED`.  What their traps tell waits in the core until the executor is pumped, and
then as a task.  In the handler of a message anything may happen: messages arrive, the peer closes,
the connector is paused, and the executor is pumped again, so that one callback runs inside another.

`OnPeerClosed` raises the error behind its drain in any case, also where the drain ended because a
handler paused the connector.

* `drained_before_error`: in every run in which no handler returns to the drain of `OnPeerClosed` with
  the connector paused, the messages are dispatched in order and each once, and the error after them;
* `not_drained_before_error`: a handler that pauses in that drain.
-/

namespace Voodoo.Bindings

open Machine List Function

/-- What a watcher of the connector waits for. -/
inductive Watched where
  | readable
  | peerClosed
  deriving DecidableEq

/-- A `SimpleWatcher`.  The `id` stands for the object, its trap and its entry in the handle table,
which no other watcher has while one of them is in use. -/
structure Watcher where
  id : Nat
  /-- The trap is valid: the watcher is not cancelled. -/
  watching : Bool
  armed : Bool

/-- What a trap tells a watcher; `ok` is the result. -/
structure Notice where
  watched : Watched
  id : Nat
  ok : Bool

/-- What the user of a connector sees of it, with the state of `paused_` then. -/
inductive Entry (μ : Type) where
  | dispatched (message : μ) (paused : Bool)
  | error (paused : Bool)
  deriving DecidableEq

/-- A connector with its end of the pipe, its watchers and the calls into it. -/
structure Connector (μ : Type) where
  /-- The messages that have reached the pipe and are not read. -/
  queue : List μ := []
  peerClosed : Bool := false
  /-- `pipe_` is valid. -/
  pipe : Bool := true
  watchers : Watched → Option Watcher := fun _ => none
  nextId : Nat := 0
  /-- The events of the core that are not pumped. -/
  pending : List Notice := []
  /-- The tasks of the executor. -/
  tasks : List Notice := []
  paused : Bool := false
  error : Bool := false
  /-- The callbacks that run, the innermost first. -/
  callbacks : List Notice := []
  log : List (Entry μ) := []
  /-- All messages that have reached the pipe. -/
  arrived : List μ := []

namespace Connector

variable {μ : Type}

/-! ### The pipe and the traps -/

/-- The signal is satisfied. -/
def satisfied (s : Connector μ) : Watched → Bool
  | .readable => !s.queue.isEmpty
  | .peerClosed => s.peerClosed

/-- The signal can be satisfied. -/
def satisfiable (s : Connector μ) : Watched → Bool
  | .readable => !s.peerClosed || !s.queue.isEmpty
  | .peerClosed => true

/-- The trap of a watcher fires. -/
def fires (s : Connector μ) (w : Watched) (x : Watcher) : Bool :=
  x.watching && x.armed && s.satisfied w

/-- The events of one trap. -/
def fired (s : Connector μ) (w : Watched) : List Notice :=
  match s.watchers w with
  | none => []
  | some x => if s.fires w x then [⟨w, x.id, s.satisfiable w⟩] else []

/-- `CollectTrapEvents`; the trap of the read watcher is the older one. -/
def collectTrapEvents (s : Connector μ) : Connector μ :=
  { s with
    watchers := fun w => (s.watchers w).map fun x =>
      if s.fires w x then { x with armed := false } else x
    pending := s.pending ++ s.fired .readable ++ s.fired .peerClosed }

/-! ### The watchers -/

/-- `SimpleWatcher::Arm`: with the signal satisfied already, the watcher posts its callback. -/
def arm (s : Connector μ) (w : Watched) : Connector μ :=
  match s.watchers w with
  | none => s
  | some x =>
    if x.watching then
      if s.satisfied w then { s with tasks := s.tasks ++ [⟨w, x.id, true⟩] }
      else { s with watchers := Function.update s.watchers w (some { x with armed := true }) }
    else s

/-- `SimpleWatcher::Watch`, on a new watcher. -/
def watch (s : Connector μ) (w : Watched) : Connector μ :=
  arm { s with
    watchers := Function.update s.watchers w (some ⟨s.nextId, true, false⟩)
    nextId := s.nextId + 1 } w

/-- The events that closing the trap of a watcher leaves in the core. -/
def purge (s : Connector μ) (w : Watched) : List Notice :=
  match s.watchers w with
  | none => s.pending
  | some x => s.pending.filter fun n => ¬ (n.watched = w ∧ n.id = x.id)

/-- `SimpleWatcher::Cancel`. -/
def cancel (s : Connector μ) (w : Watched) : Connector μ :=
  { s with
    pending := s.purge w
    watchers := Function.update s.watchers w
      ((s.watchers w).map fun x => { x with watching := false, armed := false }) }

/-- The watcher of a notice is there, with the trap it had. -/
def current (s : Connector μ) (n : Notice) : Bool :=
  match s.watchers n.watched with
  | none => false
  | some x => x.watching && x.id = n.id

/-! ### The connector -/

/-- `CancelWatchers`. -/
def cancelWatchers (s : Connector μ) : Connector μ :=
  { (s.cancel .readable).cancel .peerClosed with watchers := fun _ => none }

/-- `StartReceiving`. -/
def startReceiving (s : Connector μ) : Connector μ :=
  if !s.pipe || (s.watchers .readable).isSome then s else (s.watch .readable).watch .peerClosed

/-- `PauseIncomingMethodCallProcessing`. -/
def pauseIncomingMethodCallProcessing (s : Connector μ) : Connector μ :=
  { s.cancelWatchers with paused := true }

/-- `ResumeIncomingMethodCallProcessing`. -/
def resumeIncomingMethodCallProcessing (s : Connector μ) : Connector μ :=
  if s.paused then startReceiving { s with paused := false } else s

/-- `RaiseError`. -/
def raiseError (s : Connector μ) : Connector μ :=
  if s.error then s
  else { s.cancelWatchers with error := true, pipe := false, log := s.log ++ [.error s.paused] }

/-- The end of the innermost callback, with the task it is called from: `OnPeerClosed` raises the
error, and a watcher that is left as it was is armed again. -/
def leave (s : Connector μ) : Connector μ :=
  match s.callbacks with
  | [] => s
  | n :: rest =>
    let s := { s with callbacks := rest }
    let s := if n.watched = .peerClosed then s.raiseError else s
    if s.current n then s.arm n.watched else s

/-- `ReadAllAvailableMessages` up to the next handler, or its end. -/
def readNext (s : Connector μ) : Connector μ :=
  match s.queue with
  | m :: rest => { s with queue := rest, log := s.log ++ [.dispatched m s.paused] }
  | [] => leave (if s.peerClosed then s.raiseError else s)

/-- The task of a notice, with `OnReadable` or `OnPeerClosed`. -/
def runTask (s : Connector μ) (n : Notice) : Connector μ :=
  if s.current n then
    let s := { s with callbacks := n :: s.callbacks }
    match n.watched with
    | .readable =>
      if s.paused || s.error then s.leave
      else if n.ok then s.readNext
      else s.raiseError.leave
    | .peerClosed =>
      let s := s.cancel .peerClosed
      if s.paused || s.error then { s with callbacks := s.callbacks.tail } else s.readNext
  else s

/-! ### Runs -/

/-- What happens to a connector. -/
inductive Action (μ : Type) where
  /-- A message reaches the pipe. -/
  | arrive (message : μ)
  | closePeer
  | pause
  | resume
  /-- A turn of `Executor::RunUntilIdle`. -/
  | pump
  /-- The handler that runs returns; it has accepted its message. -/
  | handlerReturns

/-- One action.  A pipe that is closed on either end takes no messages. -/
def step (s : Connector μ) : Action μ → Connector μ
  | .arrive m =>
    if s.peerClosed || !s.pipe then s
    else collectTrapEvents { s with queue := s.queue ++ [m], arrived := s.arrived ++ [m] }
  | .closePeer => collectTrapEvents { s with peerClosed := true }
  | .pause => s.pauseIncomingMethodCallProcessing
  | .resume => s.resumeIncomingMethodCallProcessing
  | .pump =>
    match s.tasks ++ s.pending with
    | [] => s
    | n :: rest => runTask { s with tasks := rest, pending := [] } n
  | .handlerReturns =>
    match s.callbacks with
    | [] => s
    | _ :: _ => if s.error || s.paused then s.leave else s.readNext

/-- A connector that starts to receive on a pipe with messages in it. -/
def started (buffered : List μ) (peerClosed : Bool) : Connector μ :=
  startReceiving { queue := buffered, arrived := buffered, peerClosed }

/-- No handler returns to the drain of `OnPeerClosed` with the connector paused. -/
def StaysOpen (s : Connector μ) : Action μ → Prop
  | .handlerReturns => ∀ n rest, s.callbacks = n :: rest → n.watched = .peerClosed →
    s.paused = true → s.error = true
  | _ => True

/-- What the user of a connector relies on. -/
structure Sound (s : Connector μ) : Prop where
  /-- The messages are dispatched in order and each once, and none while the connector is paused;
  the error is reported once, behind them, and not while the connector is paused. -/
  log : ∃ dispatched, dispatched ++ s.queue = s.arrived ∧
    s.log = dispatched.map (Entry.dispatched · false) ++ if s.error then [.error false] else []
  /-- With the error reported, every message is dispatched. -/
  drained : s.error = true → s.queue = []
  /-- With nothing left to run and the connector not paused, everything is dispatched, and a closed
  peer reported. -/
  idle : s.callbacks = [] → s.tasks = [] → s.pending = [] → s.paused = false →
    s.queue = [] ∧ (s.peerClosed = true → s.error = true)

/-! ### The invariant -/

/-- Something is there that will call the watcher back. -/
def Due (s : Connector μ) (w : Watched) (id : Nat) : Prop :=
  ∃ n ∈ s.pending ++ s.tasks ++ s.callbacks, n.watched = w ∧ n.id = id

/-- What holds of a connector whatever its watchers do. -/
structure Base (s : Connector μ) : Prop where
  log : ∃ dispatched, dispatched ++ s.queue = s.arrived ∧
    s.log = dispatched.map (Entry.dispatched · false) ++ if s.error then [.error false] else []
  drained : s.error = true → s.queue = []
  pipe : s.pipe = !s.error
  notices : ∀ n ∈ s.pending ++ s.tasks ++ s.callbacks,
    n.ok = true ∧ (n.watched = .peerClosed → s.peerClosed = true)
  stopped : s.paused = true ∨ s.error = true → ∀ w, s.watchers w = none

/-- A watcher whose trap is not armed is called back, or it is the one that `OnPeerClosed` has
cancelled, and runs. -/
structure Called (s : Connector μ) (w : Watched) (x : Watcher) : Prop where
  due : x.watching = true → x.armed = false → s.Due w x.id
  cancelled : x.watching = false → w = .peerClosed ∧
    ∃ n ∈ s.callbacks, n.watched = .peerClosed ∧ n.id = x.id

/-- There is a watcher, and its trap is not armed with the signal satisfied. -/
def Settled (s : Connector μ) (w : Watched) : Prop :=
  ∃ x, s.watchers w = some x ∧ s.Called w x ∧
    (x.watching = true → x.armed = true → s.satisfied w = false)

/-- The invariant of the runs. -/
structure Valid (s : Connector μ) : Prop extends Base s where
  settled : s.paused = false → s.error = false → ∀ w, s.Settled w

variable {s : Connector μ}

theorem sound_of_valid (h : s.Valid) : s.Sound where
  log := h.log
  drained := h.drained
  idle hcallbacks htasks hpending hpaused := by
    cases herror : s.error with
    | true => exact ⟨h.drained herror, fun _ => rfl⟩
    | false =>
      have hunsatisfied : ∀ w, s.satisfied w = false := by
        intro w
        obtain ⟨x, -, hcalled, harmed⟩ := h.settled hpaused herror w
        cases hwatching : x.watching with
        | false =>
          obtain ⟨-, n, hn, -⟩ := hcalled.cancelled hwatching
          rw [hcallbacks] at hn
          exact (not_mem_nil hn).elim
        | true =>
          cases hx : x.armed with
          | false =>
            obtain ⟨n, hn, -⟩ := hcalled.due hwatching hx
            rw [hcallbacks, htasks, hpending] at hn
            exact (not_mem_nil hn).elim
          | true => exact harmed hwatching hx
      have hqueue : s.queue = [] := by
        have hreadable : (!s.queue.isEmpty) = false := hunsatisfied .readable
        rwa [Bool.not_eq_false', List.isEmpty_iff] at hreadable
      have hopen : s.peerClosed = false := hunsatisfied .peerClosed
      exact ⟨hqueue, fun hclosed => absurd hclosed (by rw [hopen]; exact Bool.false_ne_true)⟩

theorem Due.mono {t : Connector μ} {w : Watched} {id : Nat} (h : s.Due w id)
    (hmore : ∀ n ∈ s.pending ++ s.tasks ++ s.callbacks, n ∈ t.pending ++ t.tasks ++ t.callbacks) :
    t.Due w id := by
  obtain ⟨n, hn, hkey⟩ := h
  exact ⟨n, hmore n hn, hkey⟩

/-! ### The traps -/

theorem mem_fired {w : Watched} {n : Notice} (hn : n ∈ s.fired w) :
    n.watched = w ∧ n.ok = s.satisfiable w ∧ s.satisfied w = true := by
  rw [fired] at hn
  split at hn
  · exact (not_mem_nil hn).elim
  · rename_i x hx
    split at hn
    · rename_i hfires
      obtain rfl := mem_singleton.mp hn
      rw [fires, Bool.and_eq_true] at hfires
      exact ⟨rfl, rfl, hfires.2⟩
    · exact (not_mem_nil hn).elim

theorem satisfiable_of_satisfied {w : Watched} (h : s.satisfied w = true) :
    s.satisfiable w = true := by
  cases w with
  | readable =>
    show (!s.peerClosed || !s.queue.isEmpty) = true
    have h : (!s.queue.isEmpty) = true := h
    rw [h, Bool.or_true]
  | peerClosed => rfl

theorem mem_pending_collectTrapEvents {n : Notice} :
    n ∈ s.collectTrapEvents.pending ↔ n ∈ s.pending ∨ ∃ w, n ∈ s.fired w := by
  show n ∈ s.pending ++ s.fired .readable ++ s.fired .peerClosed ↔ _
  rw [mem_append, mem_append, or_assoc]
  refine or_congr Iff.rfl ⟨fun h => ?_, fun ⟨w, hw⟩ => ?_⟩
  · exact h.elim (⟨_, ·⟩) (⟨_, ·⟩)
  · cases w with
    | readable => exact .inl hw
    | peerClosed => exact .inr hw

/-- **A look at the traps**: none is left armed with its signal satisfied. -/
theorem valid_collectTrapEvents (h : s.Base)
    (hcalled : s.paused = false → s.error = false → ∀ w, ∃ x, s.watchers w = some x ∧
      s.Called w x) : s.collectTrapEvents.Valid where
  log := h.log
  drained := h.drained
  pipe := h.pipe
  notices n hn := by
    rw [List.append_assoc, mem_append, mem_pending_collectTrapEvents] at hn
    rcases hn with (hn | ⟨w, hn⟩) | hn
    · exact h.notices n (mem_append_left _ (mem_append_left _ hn))
    · obtain ⟨hw, hok, hsatisfied⟩ := mem_fired hn
      refine ⟨hok.trans (satisfiable_of_satisfied hsatisfied), fun hclosed => ?_⟩
      rw [← hw, hclosed] at hsatisfied
      exact hsatisfied
    · have hn : n ∈ s.tasks ++ s.callbacks := hn
      refine h.notices n ?_
      rw [List.append_assoc]
      exact mem_append_right _ hn
  stopped hor w := by
    show (s.watchers w).map _ = none
    rw [h.stopped hor w]
    rfl
  settled hpaused herror w := by
    obtain ⟨y, hy, hcalled⟩ := hcalled hpaused herror w
    have hmore : ∀ n ∈ s.pending ++ s.tasks ++ s.callbacks,
        n ∈ s.collectTrapEvents.pending ++ s.tasks ++ s.callbacks := by
      intro n hn
      rw [List.append_assoc, mem_append] at hn ⊢
      exact hn.imp_left fun hn => mem_pending_collectTrapEvents.mpr (.inl hn)
    have hwatchers : s.collectTrapEvents.watchers w =
        some (if s.fires w y then { y with armed := false } else y) :=
      Option.map_eq_some_iff.mpr ⟨y, hy, rfl⟩
    refine ⟨_, hwatchers, ?_⟩
    cases hfires : s.fires w y with
    | true =>
      have hwatching : y.watching = true := by
        rw [fires, Bool.and_eq_true, Bool.and_eq_true] at hfires
        exact hfires.1.1
      have hfired : (⟨w, y.id, s.satisfiable w⟩ : Notice) ∈ s.fired w := by
        rw [fired, hy]
        simp only [hfires, if_true, mem_singleton]
      rw [if_pos rfl]
      refine ⟨⟨fun _ _ => ?_, fun hnot => ?_⟩, fun _ harmed => absurd harmed Bool.false_ne_true⟩
      · exact ⟨_, mem_append_left _ (mem_append_left _
          (mem_pending_collectTrapEvents.mpr (.inr ⟨w, hfired⟩))), rfl, rfl⟩
      · exact hcalled.cancelled hnot
    | false =>
      rw [if_neg Bool.false_ne_true]
      refine ⟨⟨fun hwatching harmed => (hcalled.due hwatching harmed).mono hmore,
        hcalled.cancelled⟩, fun hwatching harmed => ?_⟩
      rw [fires, hwatching, harmed, Bool.true_and, Bool.true_and] at hfires
      exact hfires

/-! ### The watchers -/

theorem mem_of_mem_purge {w : Watched} {n : Notice} (hn : n ∈ s.purge w) : n ∈ s.pending := by
  rw [purge] at hn
  split at hn
  · exact hn
  · exact mem_of_mem_filter hn

theorem watchers_cancel (w : Watched) : (s.cancel w).watchers = Function.update s.watchers w
    ((s.watchers w).map fun x => { x with watching := false, armed := false }) := rfl

theorem notices_cancelWatchers (h : s.Base) :
    ∀ n ∈ s.cancelWatchers.pending ++ s.tasks ++ s.callbacks,
      n.ok = true ∧ (n.watched = .peerClosed → s.peerClosed = true) := by
  intro n hn
  refine h.notices n ?_
  rw [List.append_assoc, mem_append] at hn ⊢
  exact hn.imp_left fun hn => mem_of_mem_purge (mem_of_mem_purge (s := s.cancel .readable) hn)

/-- **Pausing.** -/
theorem valid_pause (h : s.Base) : s.pauseIncomingMethodCallProcessing.Valid where
  log := h.log
  drained := h.drained
  pipe := h.pipe
  notices := notices_cancelWatchers h
  stopped _ _ := rfl
  settled hpaused := by cases (show true = false from hpaused)

theorem valid_of_error (h : s.Base) (herror : s.error = true) : s.Valid where
  toBase := h
  settled _ hnone := by cases (show true = false from herror.symm.trans hnone)

/-- **An error**, when all messages are dispatched and the connector is not paused. -/
theorem valid_raiseError (h : s.Base) (hraise : s.error = true ∨ s.queue = [] ∧ s.paused = false) :
    s.raiseError.Valid := by
  rw [raiseError]
  by_cases herror : s.error = true
  · rw [if_pos herror]
    exact valid_of_error h herror
  · rw [if_neg herror]
    obtain ⟨hqueue, hpaused⟩ := hraise.resolve_left herror
    rw [Bool.not_eq_true] at herror
    obtain ⟨dispatched, harrived, hlog⟩ := h.log
    rw [herror, if_neg Bool.false_ne_true, append_nil] at hlog
    refine valid_of_error ⟨⟨dispatched, harrived, ?_⟩, fun _ => hqueue, rfl,
      notices_cancelWatchers h, fun _ _ => rfl⟩ rfl
    show s.log ++ [Entry.error s.paused] = _
    rw [hlog, hpaused]
    rfl

/-! ### Arming -/

theorem Settled.mono {t : Connector μ} {w : Watched} (h : s.Settled w)
    (hwatchers : t.watchers w = s.watchers w) (hsatisfied : t.satisfied w = s.satisfied w)
    (hmore : ∀ n ∈ s.pending ++ s.tasks ++ s.callbacks, n.watched = w →
      n ∈ t.pending ++ t.tasks ++ t.callbacks)
    (hcallbacks : ∀ n ∈ s.callbacks, n.watched = .peerClosed → n ∈ t.callbacks) :
    t.Settled w := by
  obtain ⟨x, hx, hcalled, harmed⟩ := h
  refine ⟨x, hwatchers.trans hx, ⟨fun hwatching hnot => ?_, fun hnot => ?_⟩,
    fun hwatching hyes => hsatisfied.trans (harmed hwatching hyes)⟩
  · obtain ⟨n, hn, hw, hid⟩ := hcalled.due hwatching hnot
    exact ⟨n, hmore n hn hw, hw, hid⟩
  · obtain ⟨hw, n, hn, hkey, hid⟩ := hcalled.cancelled hnot
    exact ⟨hw, n, hcallbacks n hn hkey, hkey, hid⟩

theorem base_arm (h : s.Base) (w : Watched) : (s.arm w).Base := by
  rw [arm]
  split
  · exact h
  · rename_i x hx
    have hopen : ¬ (s.paused = true ∨ s.error = true) := by
      intro hor
      rw [h.stopped hor w] at hx
      exact nomatch hx
    split
    · split
      · rename_i hsatisfied
        refine ⟨h.log, h.drained, h.pipe, fun n hn => ?_, fun hor => absurd hor hopen⟩
        simp only [mem_append, mem_singleton] at hn
        rcases hn with (hn | hn | rfl) | hn
        · exact h.notices n (mem_append_left _ (mem_append_left _ hn))
        · exact h.notices n (mem_append_left _ (mem_append_right _ hn))
        · refine ⟨rfl, fun hw => ?_⟩
          have hw : w = .peerClosed := hw
          rw [hw] at hsatisfied
          exact hsatisfied
        · exact h.notices n (mem_append_right _ hn)
      · exact ⟨h.log, h.drained, h.pipe, h.notices, fun hor => absurd hor hopen⟩
    · exact h

theorem settled_arm_self {w : Watched} {x : Watcher} (hx : s.watchers w = some x)
    (hwatching : x.watching = true) (harmed : x.armed = true → s.satisfied w = false) :
    (s.arm w).Settled w := by
  have harm : s.arm w = if s.satisfied w then { s with tasks := s.tasks ++ [⟨w, x.id, true⟩] }
      else { s with watchers := Function.update s.watchers w (some { x with armed := true }) } := by
    rw [arm, hx]
    exact if_pos hwatching
  rw [harm]
  cases hsatisfied : s.satisfied w with
  | true =>
    rw [if_pos rfl]
    refine ⟨x, hx, ⟨fun _ _ => ⟨⟨w, x.id, true⟩, ?_, rfl, rfl⟩, fun hnot => ?_⟩,
      fun _ hyes => harmed hyes⟩
    · exact mem_append_left _ (mem_append_right _
        (mem_append_right _ (mem_singleton.mpr rfl)))
    · cases (show true = false from hwatching.symm.trans hnot)
  | false =>
    rw [if_neg Bool.false_ne_true]
    refine ⟨{ x with armed := true }, update_self .., ⟨fun _ hnot => ?_, fun hnot => ?_⟩,
      fun _ _ => hsatisfied⟩
    · cases hnot
    · cases (show true = false from hwatching.symm.trans hnot)

theorem settled_arm_other {v w : Watched} (hne : v ≠ w) (h : s.Settled v) :
    (s.arm w).Settled v := by
  rw [arm]
  split
  · exact h
  · split
    · split
      · refine h.mono rfl rfl (fun n hn _ => ?_) (fun n hn _ => hn)
        simp only [mem_append] at hn ⊢
        exact hn.imp_left fun hn => hn.imp_right .inl
      · exact h.mono (update_of_ne hne ..) rfl (fun n hn _ => hn) (fun n hn _ => hn)
    · exact h

theorem base_watch (h : s.Base) (hpaused : s.paused = false) (herror : s.error = false)
    (w : Watched) : (s.watch w).Base := by
  have hnew : Base { s with
      watchers := Function.update s.watchers w (some ⟨s.nextId, true, false⟩)
      nextId := s.nextId + 1 } := by
    refine ⟨h.log, h.drained, h.pipe, h.notices, fun hor => ?_⟩
    rcases hor with hor | hor
    · cases (show false = true from hpaused.symm.trans hor)
    · cases (show false = true from herror.symm.trans hor)
  exact base_arm hnew w

theorem settled_watch_self (w : Watched) : (s.watch w).Settled w :=
  settled_arm_self (update_self ..) rfl fun harmed => nomatch harmed

theorem settled_watch_other {v w : Watched} (hne : v ≠ w) (h : s.Settled v) :
    (s.watch w).Settled v :=
  settled_arm_other hne <|
    h.mono (update_of_ne hne ..) rfl (fun _ hn _ => hn) (fun _ hn _ => hn)

@[simp]
theorem paused_arm (w : Watched) : (s.arm w).paused = s.paused := by
  rw [arm]
  split
  · rfl
  · split
    · split <;> rfl
    · rfl

@[simp]
theorem error_arm (w : Watched) : (s.arm w).error = s.error := by
  rw [arm]
  split
  · rfl
  · split
    · split <;> rfl
    · rfl

/-- **Starting to receive.** -/
theorem valid_startReceiving (h : s.Base) (hpaused : s.paused = false)
    (hnone : ∀ w, s.watchers w = none) : s.startReceiving.Valid := by
  have hreadable : (s.watchers .readable).isSome = false := by rw [hnone]; rfl
  rw [startReceiving, hreadable, Bool.or_false, h.pipe, Bool.not_not]
  cases herror : s.error with
  | true => exact valid_of_error h herror
  | false =>
    rw [if_neg Bool.false_ne_true]
    have hpaused' : (s.watch .readable).paused = false := (paused_arm _).trans hpaused
    have herror' : (s.watch .readable).error = false := (error_arm _).trans herror
    refine ⟨base_watch (base_watch h hpaused herror _) hpaused' herror' _, fun _ _ w => ?_⟩
    cases w with
    | readable => exact settled_watch_other (by decide) (settled_watch_self _)
    | peerClosed => exact settled_watch_self _

/-! ### Callbacks -/

theorem error_raiseError : s.raiseError.error = true := by
  rw [raiseError]
  split
  · assumption
  · rfl

theorem watchers_of_current {n : Notice} (h : s.current n = true) :
    ∃ x, s.watchers n.watched = some x ∧ x.watching = true ∧ x.id = n.id := by
  rw [current] at h
  split at h
  · cases h
  · rename_i x hx
    rw [Bool.and_eq_true, decide_eq_true_eq] at h
    exact ⟨x, hx, h.1, h.2⟩

theorem current_of_watchers {n : Notice} {x : Watcher} (hx : s.watchers n.watched = some x)
    (hwatching : x.watching = true) (hid : n.id = x.id) : s.current n = true := by
  rw [current, hx]
  show (x.watching && decide (x.id = n.id)) = true
  rw [hwatching, hid, decide_eq_true rfl, Bool.true_and]

theorem open_of_current {n : Notice} (hb : s.Base) (h : s.current n = true) :
    s.paused = false ∧ s.error = false := by
  obtain ⟨x, hx, -⟩ := watchers_of_current h
  constructor
  · cases hpaused : s.paused with
    | false => rfl
    | true => exact nomatch (hb.stopped (.inl hpaused) _).symm.trans hx
  · cases herror : s.error with
    | false => rfl
    | true => exact nomatch (hb.stopped (.inr herror) _).symm.trans hx

theorem Settled.drop {t : Connector μ} {w : Watched} {n : Notice} (h : s.Settled w)
    (hwatchers : t.watchers = s.watchers) (hsatisfied : t.satisfied w = s.satisfied w)
    (hmore : ∀ m ∈ s.pending ++ s.tasks ++ s.callbacks, m = n ∨
      m ∈ t.pending ++ t.tasks ++ t.callbacks)
    (hcallbacks : ∀ m ∈ s.callbacks, m.watched = .peerClosed → m ∈ t.callbacks)
    (hcurrent : n.watched = w → s.current n = false) : t.Settled w := by
  obtain ⟨x, hx, hcalled, harmed⟩ := h
  refine ⟨x, (congrFun hwatchers w).trans hx, ⟨fun hwatching hnot => ?_, fun hnot => ?_⟩,
    fun hwatching hyes => hsatisfied.trans (harmed hwatching hyes)⟩
  · obtain ⟨m, hm, hw, hid⟩ := hcalled.due hwatching hnot
    rcases hmore m hm with rfl | hm
    · have hcurrent' := current_of_watchers (hw ▸ hx) hwatching hid
      cases (show true = false from hcurrent'.symm.trans (hcurrent hw))
    · exact ⟨m, hm, hw, hid⟩
  · obtain ⟨hw, m, hm, hkey, hid⟩ := hcalled.cancelled hnot
    exact ⟨hw, m, hcallbacks m hm hkey, hkey, hid⟩

/-- **The end of a callback.** -/
theorem valid_leave (h : s.Valid)
    (hclosed : ∀ n rest, s.callbacks = n :: rest → n.watched = .peerClosed →
      s.error = true ∨ s.queue = [] ∧ s.paused = false) : s.leave.Valid := by
  rw [leave]
  split
  · exact h
  · rename_i n rest hcallbacks
    have hrest : ∀ m ∈ rest, m ∈ s.callbacks := by
      intro m hm
      rw [hcallbacks]
      exact mem_cons_of_mem _ hm
    have hbase : Base { s with callbacks := rest } := by
      refine ⟨h.log, h.drained, h.pipe, fun m hm => h.notices m ?_, h.stopped⟩
      rw [mem_append] at hm ⊢
      exact hm.imp_right (hrest m)
    cases hn : n.watched with
    | peerClosed =>
      have hvalid := valid_raiseError hbase (hclosed n rest hcallbacks hn)
      simp only [if_true]
      rw [if_neg]
      · exact hvalid
      · intro hcurrent
        have herror := (open_of_current hvalid.toBase hcurrent).2
        cases (show true = false from error_raiseError.symm.trans herror)
    | readable =>
      have hdrop : ∀ w, s.Settled w → (n.watched = w → s.current n = false) →
          Settled { s with callbacks := rest } w := by
        refine fun w hw hcurrent => hw.drop (n := n) rfl rfl (fun m hm => ?_) (fun m hm hkey => ?_)
          hcurrent
        · rw [hcallbacks, mem_append, mem_cons] at hm
          rw [mem_append]
          exact hm.elim (.inr ∘ .inl) (.imp_right .inr)
        · rw [hcallbacks, mem_cons] at hm
          refine hm.resolve_left fun heq => ?_
          rw [heq, hn] at hkey
          cases hkey
      simp only [reduceCtorEq, if_false]
      split
      · rename_i hcurrent
        refine ⟨base_arm hbase _, fun hpaused herror w => ?_⟩
        rw [paused_arm] at hpaused
        rw [error_arm] at herror
        cases w with
        | readable =>
          obtain ⟨x, hx, hwatching, -⟩ := watchers_of_current hcurrent
          obtain ⟨y, hy, -, harmed⟩ := h.settled hpaused herror .readable
          rw [hn] at hx
          obtain rfl : x = y := Option.some.inj (hx.symm.trans hy)
          exact settled_arm_self hx hwatching fun hyes => harmed hwatching hyes
        | peerClosed =>
          refine settled_arm_other (by decide) (hdrop _ (h.settled hpaused herror _) fun hw => ?_)
          cases hn.symm.trans hw
      · rename_i hcurrent
        exact ⟨hbase, fun hpaused herror w => hdrop w (h.settled hpaused herror w)
          fun _ => (Bool.not_eq_true _).mp hcurrent⟩

/-- **The drain**, one message further or to its end. -/
theorem valid_readNext (h : s.Valid) (hpaused : s.paused = false) (herror : s.error = false) :
    s.readNext.Valid := by
  rw [readNext]
  split
  · rename_i m rest hqueue
    obtain ⟨dispatched, harrived, hlog⟩ := h.log
    rw [herror, if_neg Bool.false_ne_true, append_nil] at hlog
    refine ⟨⟨⟨dispatched ++ [m], ?_, ?_⟩, fun hyes => ?_, h.pipe, h.notices, h.stopped⟩,
      fun _ _ w => ?_⟩
    · show dispatched ++ [m] ++ rest = s.arrived
      rw [List.append_assoc, ← harrived, hqueue]
      rfl
    · show s.log ++ [Entry.dispatched m s.paused] = _
      simp only [hlog, hpaused, herror, map_append, map_singleton, append_nil,
        Bool.false_eq_true, if_false]
    · cases (show false = true from herror.symm.trans hyes)
    · -- an armed trap waits for a signal that reading does not bring
      obtain ⟨x, hx, hcalled, harmed⟩ := h.settled hpaused herror w
      refine ⟨x, hx, ⟨hcalled.due, hcalled.cancelled⟩, fun hwatching hyes => ?_⟩
      have hunsatisfied := harmed hwatching hyes
      cases w with
      | peerClosed => exact hunsatisfied
      | readable =>
        have hnone : (!s.queue.isEmpty) = false := hunsatisfied
        rw [hqueue] at hnone
        cases hnone
  · rename_i hqueue
    cases hclosed : s.peerClosed with
    | true =>
      refine valid_leave (valid_raiseError h.toBase (.inr ⟨hqueue, hpaused⟩)) fun _ _ _ _ => ?_
      exact .inl error_raiseError
    | false => exact valid_leave h fun _ _ _ _ => .inr ⟨hqueue, hpaused⟩

/-- What `OnPeerClosed` does first: its watcher is cancelled while it runs. -/
theorem valid_cancel_peerClosed (h : s.Valid) {n : Notice} (hn : n ∈ s.callbacks)
    (hw : n.watched = .peerClosed) (hcurrent : s.current n = true) (hpending : s.pending = []) :
    (s.cancel .peerClosed).Valid := by
  obtain ⟨hpaused, herror⟩ := open_of_current h.toBase hcurrent
  obtain ⟨x, hx, -, hid⟩ := watchers_of_current hcurrent
  rw [hw] at hx
  have hpurge : s.purge .peerClosed = [] := by
    rw [purge, hx, hpending]
    rfl
  have hpending' : (s.cancel .peerClosed).pending = s.pending := hpurge.trans hpending.symm
  refine ⟨⟨h.log, h.drained, h.pipe, fun m hm => ?_, fun hor => ?_⟩, fun _ _ w => ?_⟩
  · rw [hpending'] at hm
    exact h.notices m hm
  · rcases hor with hor | hor
    · cases (show false = true from hpaused.symm.trans hor)
    · cases (show false = true from herror.symm.trans hor)
  · cases w with
    | readable =>
      have hwatchers : (s.cancel .peerClosed).watchers .readable = s.watchers .readable := by
        rw [watchers_cancel, update_of_ne (by decide)]
      refine (h.settled hpaused herror .readable).mono hwatchers rfl (fun m hm _ => ?_)
        (fun m hm _ => hm)
      rw [hpending']
      exact hm
    | peerClosed =>
      refine ⟨{ x with watching := false, armed := false }, ?_, ⟨fun hnot => ?_, fun _ => ?_⟩,
        fun hnot => ?_⟩
      · rw [watchers_cancel, update_self, hx]
        rfl
      · cases hnot
      · exact ⟨rfl, n, hn, hw, hid.symm⟩
      · cases hnot

/-- **A task of the executor.** -/
theorem valid_pump (h : s.Valid) {n : Notice} {rest : List Notice}
    (htasks : s.tasks ++ s.pending = n :: rest) :
    (runTask { s with tasks := rest, pending := [] } n).Valid := by
  have hmem : ∀ m, m ∈ s.pending ++ s.tasks ++ s.callbacks ↔ m = n ∨ m ∈ rest ∨ m ∈ s.callbacks := by
    intro m
    rw [mem_append, mem_append, or_comm (a := m ∈ s.pending), ← mem_append, htasks,
      mem_cons, or_assoc]
  rw [runTask]
  split
  · rename_i hcurrent
    -- the notice is a callback now
    let t : Connector μ := { s with tasks := rest, pending := [], callbacks := n :: s.callbacks }
    have hmem' : ∀ m, m ∈ t.pending ++ t.tasks ++ t.callbacks ↔
        m ∈ s.pending ++ s.tasks ++ s.callbacks := by
      intro m
      show m ∈ [] ++ rest ++ n :: s.callbacks ↔ _
      rw [hmem, nil_append, mem_append, mem_cons, or_left_comm]
    have hvalid : t.Valid := by
      refine ⟨⟨h.log, h.drained, h.pipe, fun m hm => h.notices m ((hmem' m).mp hm), h.stopped⟩,
        fun hpaused herror w => ?_⟩
      exact (h.settled hpaused herror w).mono rfl rfl (fun m hm _ => (hmem' m).mpr hm)
        (fun m hm _ => mem_cons_of_mem _ hm)
    have hcurrent : t.current n = true := hcurrent
    obtain ⟨hpaused, herror⟩ := open_of_current hvalid.toBase hcurrent
    have hgo : (s.paused || s.error) = false := by
      rw [Bool.or_eq_false_iff]
      exact ⟨hpaused, herror⟩
    have hok := (h.notices n ((hmem n).mpr (.inl rfl))).1
    show Valid (match n.watched with
      | .readable => if s.paused || s.error then t.leave else if n.ok then t.readNext
        else t.raiseError.leave
      | .peerClosed => if s.paused || s.error then
          { t.cancel .peerClosed with callbacks := t.callbacks.tail }
        else (t.cancel .peerClosed).readNext)
    rw [hgo, hok]
    cases hw : n.watched with
    | readable => exact valid_readNext hvalid hpaused herror
    | peerClosed =>
      have hn : n ∈ t.callbacks := mem_cons_self
      exact valid_readNext (valid_cancel_peerClosed hvalid hn hw hcurrent rfl) hpaused herror
  · rename_i hcurrent
    have hmem' : ∀ m, m ∈ s.pending ++ s.tasks ++ s.callbacks →
        m = n ∨ m ∈ [] ++ rest ++ s.callbacks := by
      intro m hm
      rw [nil_append, mem_append]
      exact (hmem m).mp hm
    refine ⟨⟨h.log, h.drained, h.pipe, fun m hm => ?_, h.stopped⟩, fun hpaused herror w => ?_⟩
    · have hm : m ∈ [] ++ rest ++ s.callbacks := hm
      rw [nil_append, mem_append] at hm
      exact h.notices m ((hmem m).mpr (.inr hm))
    · exact (h.settled hpaused herror w).drop rfl rfl hmem' (fun m hm _ => hm)
        fun _ => (Bool.not_eq_true _).mp hcurrent

/-! ### Runs of a connector -/

theorem valid_arrive (h : s.Valid) (hpipe : s.pipe = true) (m : μ) :
    (collectTrapEvents { s with queue := s.queue ++ [m], arrived := s.arrived ++ [m] }).Valid := by
  have herror : s.error = false := by
    rw [h.pipe] at hpipe
    exact (Bool.not_eq_true' _).mp hpipe
  obtain ⟨dispatched, harrived, hlog⟩ := h.log
  refine valid_collectTrapEvents ⟨⟨dispatched, ?_, hlog⟩, fun hyes => ?_, h.pipe, h.notices,
    h.stopped⟩ fun hpaused herror w => ?_
  · show dispatched ++ (s.queue ++ [m]) = s.arrived ++ [m]
    rw [← List.append_assoc, harrived]
  · cases (show false = true from herror.symm.trans hyes)
  · obtain ⟨x, hx, hcalled, -⟩ := h.settled hpaused herror w
    exact ⟨x, hx, hcalled.due, hcalled.cancelled⟩

theorem valid_closePeer (h : s.Valid) :
    (collectTrapEvents { s with peerClosed := true }).Valid := by
  refine valid_collectTrapEvents ⟨h.log, h.drained, h.pipe, fun n hn => ?_, h.stopped⟩
    fun hpaused herror w => ?_
  · exact ⟨(h.notices n hn).1, fun _ => rfl⟩
  · obtain ⟨x, hx, hcalled, -⟩ := h.settled hpaused herror w
    exact ⟨x, hx, hcalled.due, hcalled.cancelled⟩

theorem valid_resume (h : s.Valid) : s.resumeIncomingMethodCallProcessing.Valid := by
  rw [resumeIncomingMethodCallProcessing]
  split
  · rename_i hpaused
    have hnone := h.stopped (.inl hpaused)
    exact valid_startReceiving ⟨h.log, h.drained, h.pipe, h.notices, fun _ => hnone⟩ rfl hnone
  · exact h

theorem step_valid (h : s.Valid) (a : Action μ) (ha : s.StaysOpen a) : (s.step a).Valid := by
  cases a with
  | arrive m =>
    rw [step]
    split
    · exact h
    · rename_i hopen
      rw [Bool.or_eq_true, not_or, Bool.not_eq_true, Bool.not_eq_true', Bool.not_eq_false] at hopen
      exact valid_arrive h hopen.2 m
  | closePeer => exact valid_closePeer h
  | pause => exact valid_pause h.toBase
  | resume => exact valid_resume h
  | pump =>
    rw [step]
    split
    · exact h
    · rename_i htasks
      exact valid_pump h htasks
  | handlerReturns =>
    rw [step]
    split
    · exact h
    · split
      · rename_i hstop
        refine valid_leave h fun n rest hcallbacks hw => .inl ?_
        rw [Bool.or_eq_true] at hstop
        exact hstop.elim id (ha n rest hcallbacks hw)
      · rename_i hgo
        rw [Bool.not_eq_true, Bool.or_eq_false_iff] at hgo
        exact valid_readNext h hgo.2 hgo.1

theorem valid_started (buffered : List μ) (peerClosed : Bool) :
    (started buffered peerClosed).Valid := by
  refine valid_startReceiving ⟨⟨[], rfl, rfl⟩, ?_, rfl, ?_, ?_⟩ rfl fun _ => rfl
  · exact fun hyes => nomatch hyes
  · exact fun n hn => (not_mem_nil hn).elim
  · exact fun _ _ => rfl

/-- **Every message is dispatched before the error is reported**, in every run in which no handler
returns to the drain of `OnPeerClosed` with the connector paused. -/
theorem drained_before_error (buffered : List μ) (peerClosed : Bool) (s : Connector μ)
    (h : Reaches (started buffered peerClosed) step StaysOpen s) : s.Sound :=
  sound_of_valid (h.invariant (valid_started buffered peerClosed) fun _ a ht ha =>
    step_valid ht a ha)

/-- Two messages and a close, with a pause between the two handlers. -/
theorem drained_before_error_paused :
    Sound ([.arrive 1, .arrive 2, .closePeer, .pump, .pause, .handlerReturns, .resume, .pump,
      .pump, .handlerReturns].foldl step (started ([] : List ℕ) false)) := by
  refine drained_before_error [] false _ (Reaches.along .start ?_)
  refine ⟨trivial, trivial, trivial, trivial, trivial, ?_, trivial, trivial, trivial, ?_, trivial⟩
  · intro n rest hcallbacks hw
    obtain ⟨rfl, -⟩ := List.cons.inj hcallbacks
    exact nomatch hw
  · intro n rest hcallbacks hw
    obtain ⟨rfl, -⟩ := List.cons.inj hcallbacks
    exact nomatch hw

/-- The handler of the first message pumps the executor; the one of the second message, called from
`OnPeerClosed`, pauses. -/
theorem not_drained_before_error : ∃ s : Connector ℕ,
    Reaches (started [] false) step (fun _ _ => True) s ∧
      s.queue = [3] ∧ .error true ∈ s.log ∧ ¬ s.Sound := by
  refine ⟨_, Reaches.run .start [.arrive 1, .arrive 2, .arrive 3, .closePeer, .pump, .pump, .pause,
    .handlerReturns], by decide, by decide, fun h => ?_⟩
  have hqueue := h.drained (by decide)
  exact absurd hqueue (by decide)

end Connector

end Voodoo.Bindings
