import Voodoo.Whp.Run

/-!
# Running until idle

`Executor::RunUntilIdle` is a loop that first pumps the events of the core, as `WhpInit` has set it
up to, and then takes one task off the queue and runs it; it returns when it finds no task.  Tasks
and handlers are programs of the embedder, that call the core and post tasks.

The loop pumps once before it looks for a task.  An event that a handler of that batch has queued
stays in the core if there is no task.

* `idle_of_runUntilIdle`: when the loop returns the queue is empty, and no event is left if no
  handler leaves one behind without a task;
* `not_idle`: a handler that writes to a pipe another trap watches.
-/

namespace Voodoo.Whp

/-- A call of the core other than `WhpPumpEvents`, which the executor makes. -/
abbrev PlainOp := { op : Op // op ≠ .pumpEvents }

/-- What a task or a handler does, until it leaves the state of the embedder as `env`. -/
inductive Prog (E : Type) where
  | done (env : E)
  | call (op : PlainOp) (next : Reply → Prog E)
  | post (task : E → Prog E) (next : Prog E)

abbrev OnceClosure (E : Type) := E → Prog E

/-- The functions that traps were created with, by number. -/
abbrev Handlers (E : Type) := Nat → TrapEvent → E → Prog E

structure Executor (E : Type) where
  core : Core
  queue : List (OnceClosure E)
  env : E

namespace Executor

variable {E : Type}

def run : Prog E → Executor E → Executor E
  | .done env, s => { s with env }
  | .call op next, s => run (next (s.core.perform op).1) { s with core := (s.core.perform op).2 }
  | .post task next, s => run next { s with queue := s.queue ++ [task] }

/-- The handler of an event is called. -/
def deliver (handlers : Handlers E) (s : Executor E) (e : PendingEvent) : Executor E :=
  run (handlers e.handler e.event s.env) s

/-- The events are taken out of the core. -/
def taken (s : Executor E) : Executor E := { s with core := s.core.pumpEvents.2 }

/-- `WhpPumpEvents`. -/
def pumpEvents (handlers : Handlers E) (s : Executor E) : Executor E :=
  s.core.pumpEvents.1.events.foldl (deliver handlers) s.taken

/-- `RunUntilIdle`; `none` where it has not returned after `fuel` tasks. -/
def runUntilIdle (handlers : Handlers E) : Nat → Executor E → Option (Executor E)
  | 0, _ => none
  | fuel + 1, s =>
    match (s.pumpEvents handlers).queue with
    | [] => some (s.pumpEvents handlers)
    | task :: rest =>
      runUntilIdle handlers fuel
        (run (task (s.pumpEvents handlers).env) { s.pumpEvents handlers with queue := rest })

/-! ### The promise -/

/-- Either no event is queued, or a task: the loop will come round to the event. -/
def Minded (s : Executor E) : Prop := s.core.pendingEvents = [] ∨ s.queue.isEmpty = false

/-- No handler called for one of the events leaves an event queued, and no task, where it was not so
before. -/
def Considerate (handlers : Handlers E) : List PendingEvent → Executor E → Prop
  | [], _ => True
  | e :: events, s =>
    (s.Minded → (s.deliver handlers e).Minded) ∧ Considerate handlers events (s.deliver handlers e)

/-- So do the handlers in each turn of the loop. -/
def RunsConsiderately (handlers : Handlers E) : Nat → Executor E → Prop
  | 0, _ => True
  | fuel + 1, s =>
    Considerate handlers s.core.pendingEvents s.taken ∧
      match (s.pumpEvents handlers).queue with
      | [] => True
      | task :: rest =>
        RunsConsiderately handlers fuel
          (run (task (s.pumpEvents handlers).env) { s.pumpEvents handlers with queue := rest })

variable {handlers : Handlers E} {fuel : Nat} {s s' : Executor E} {events : List PendingEvent}

theorem minded_foldl (hs : s.Minded) (hc : Considerate handlers events s) :
    (events.foldl (deliver handlers) s).Minded := by
  induction events generalizing s with
  | nil => exact hs
  | cons e events ih => exact ih (hc.1 hs) hc.2

theorem minded_pumpEvents (hc : Considerate handlers s.core.pendingEvents s.taken) :
    (s.pumpEvents handlers).Minded :=
  minded_foldl (Or.inl rfl) hc

/-- **Idle.**  On return there is no task, and no event if no handler left one without a task. -/
theorem idle_of_runUntilIdle (h : runUntilIdle handlers fuel s = some s') :
    s'.queue = [] ∧ (RunsConsiderately handlers fuel s → s'.core.pendingEvents = []) := by
  induction fuel generalizing s with
  | zero => cases h
  | succ fuel ih =>
    rw [runUntilIdle] at h
    cases hq : (s.pumpEvents handlers).queue with
    | nil =>
      rw [hq] at h
      obtain rfl := Option.some.inj h
      refine ⟨hq, fun hc => ?_⟩
      rcases minded_pumpEvents hc.1 with hnone | htask
      · exact hnone
      · rw [hq] at htask
        cases htask
    | cons task rest =>
      rw [hq] at h
      obtain ⟨hqueue, hevents⟩ := ih h
      refine ⟨hqueue, fun hc => hevents ?_⟩
      have hrest := hc.2
      rw [hq] at hrest
      exact hrest

/-! ### Two traps -/

/-- A message is written to the pipe end. -/
def writeTo (pipe message : Handle) (next : Prog Unit) : Prog Unit :=
  .call ⟨.silent .createMessage, nofun⟩ fun _ =>
    .call ⟨.writeMessage pipe message, nofun⟩ fun _ => next

/-- Two pipes, and an armed trap on an end of each; a message has come to the first. -/
def twoTraps : Core :=
  [.createMessagePipe, .createMessagePipe, .createTrap (some 0), .createTrap (some 1),
    .addTrigger 5 1 readable 0 7, .addTrigger 6 3 readable 0 8, .armTrap 5 none false,
    .armTrap 6 none false, .silent .createMessage, .writeMessage 2 7].foldl Core.step {}

/-- The first handler writes to the second pipe. -/
def forwards : Handlers Unit := fun handler _ _ =>
  if handler = 0 then writeTo 4 7 (.done ()) else .done ()

/-- It posts a task as well. -/
def forwardsAndPosts : Handlers Unit := fun handler _ _ =>
  if handler = 0 then writeTo 4 7 (.post (fun _ => .done ()) (.done ())) else .done ()

theorem considerate_forwardsAndPosts :
    RunsConsiderately forwardsAndPosts 2 { core := twoTraps, queue := [], env := () } :=
  ⟨⟨fun _ => Or.inr (by decide), trivial⟩, ⟨fun _ => Or.inl (by decide), trivial⟩, trivial⟩

theorem idle_forwardsAndPosts : ∃ s',
    runUntilIdle forwardsAndPosts 2 { core := twoTraps, queue := [], env := () } = some s' ∧
      s'.queue = [] ∧ s'.core.pendingEvents = [] := by
  have hsome : (runUntilIdle forwardsAndPosts 2
      { core := twoTraps, queue := [], env := () }).isSome := by
    decide
  obtain ⟨s', hs'⟩ := Option.isSome_iff_exists.mp hsome
  have hidle := idle_of_runUntilIdle hs'
  exact ⟨s', hs', hidle.1, hidle.2 considerate_forwardsAndPosts⟩

/-- The event for the second pipe stays. -/
theorem not_idle : ∃ s',
    runUntilIdle forwards 1 { core := twoTraps, queue := [], env := () } = some s' ∧
      s'.queue = [] ∧ s'.core.pendingEvents.map (·.handler) = [1] := by
  have hany : (runUntilIdle forwards 1 { core := twoTraps, queue := [], env := () }).any
      (fun s => s.queue.isEmpty && s.core.pendingEvents.map (·.handler) = [1]) := by
    decide
  obtain ⟨s', hs', hboth⟩ := (Option.any_eq_true _ _).mp hany
  obtain ⟨hqueue, hevents⟩ := (Bool.and_eq_true _ _).mp hboth
  exact ⟨s', hs', List.isEmpty_iff.mp hqueue, of_decide_eq_true hevents⟩

end Executor

end Voodoo.Whp
