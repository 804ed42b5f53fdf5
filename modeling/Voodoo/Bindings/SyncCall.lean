import Voodoo.Bindings.ResponseDispatcher

/-!
# The blocking call of a `[Sync]` method

The generated overload registers a handler that writes into its own frame, sends
the request and pumps the executor until the handler has run or the connector
has an error.  A handler leaves the dispatcher by being dispatched and in no
other way, so behind a request that was not sent, or an error that came before
the response, it stays in the map when the frame is gone.

What keeps it from running is the connector: both exits leave it without a pipe,
and a connector without a pipe reads nothing.  `syncProxyMethod_returns` says
what a call leaves and `not_syncProxyMethod_clean` that it leaves something.
-/

namespace Voodoo.Bindings

open List

namespace Calls

/-! ### Handlers in the map -/

/-- The handler is in `pending_`. -/
def Pending (s : Calls) (handler : Nat) : Prop :=
  ∃ requestId, s.dispatcher.pending requestId = some handler

variable {s : Calls} {handler : Nat} {requestId : UInt64}

theorem Valid.not_pending_of_ran (h : s.Valid) (hran : handler ∈ ranHandlers s.log) :
    ¬ s.Pending handler := by
  rintro ⟨requestId, hpending⟩
  exact (h.ran handler hran).2 (List.mem_map_of_mem (h.mem_outstanding hpending))

theorem pending_register (s : Calls) (id : UInt64) :
    (s.step .register).dispatcher.pending id =
      if id = s.dispatcher.nextRequestId then
        (s.dispatcher.pending id).or (some s.registered)
      else s.dispatcher.pending id := by
  change (if (s.dispatcher.pending s.dispatcher.nextRequestId).isSome then s.dispatcher.pending
    else Function.update s.dispatcher.pending s.dispatcher.nextRequestId
      (some s.registered)) id = _
  by_cases hid : id = s.dispatcher.nextRequestId
  · subst hid
    rw [if_pos rfl]
    cases hpending : s.dispatcher.pending s.dispatcher.nextRequestId with
    | none =>
      rw [Option.isSome_none, if_neg Bool.false_ne_true, Function.update_self]
      rfl
    | some other =>
      rw [Option.isSome_some, if_pos rfl, hpending]
      rfl
  · rw [if_neg hid]
    split
    · rfl
    · exact Function.update_of_ne hid _ _

theorem pending_dispatch (s : Calls) (requestId id : UInt64) :
    (s.step (.dispatch requestId)).dispatcher.pending id =
      if id = requestId then none else s.dispatcher.pending id := by
  cases hpending : s.dispatcher.pending requestId with
  | none =>
    rw [step_dispatch_none hpending]
    split
    case isTrue hid => rw [hid, hpending]
    case isFalse => rfl
  | some handler =>
    rw [step_dispatch_some hpending]
    change Function.update s.dispatcher.pending requestId none id = _
    split
    case isTrue hid => rw [hid, Function.update_self]
    case isFalse hid => rw [Function.update_of_ne hid]

theorem dispatcher_finish (s : Calls) (result : Bool) :
    (s.step (.finish result)).dispatcher = s.dispatcher := by
  cases hrunning : s.running with
  | nil => rw [step_finish_nil hrunning]
  | cons handler running => rw [step_finish_cons hrunning]

theorem exists_log_step (s : Calls) (c : Call) : ∃ events, (s.step c).log = s.log ++ events ∧
    s.registered ≤ (s.step c).registered ∧
    (∀ id ran, .dispatched id ran ∈ events → c = .dispatch id) := by
  cases c with
  | register =>
    refine ⟨_, log_register s, Nat.le_succ _, fun id ran hmem => ?_⟩
    cases mem_singleton.mp hmem
  | dispatch requestId =>
    cases hpending : s.dispatcher.pending requestId with
    | none =>
      rw [step_dispatch_none hpending]
      refine ⟨_, rfl, Nat.le_refl _, fun id ran hmem => ?_⟩
      cases mem_singleton.mp hmem
      rfl
    | some handler =>
      rw [step_dispatch_some hpending]
      refine ⟨_, rfl, Nat.le_refl _, fun id ran hmem => ?_⟩
      cases mem_singleton.mp hmem
      rfl
  | finish result =>
    cases hrunning : s.running with
    | nil =>
      rw [step_finish_nil hrunning]
      exact ⟨[], (append_nil _).symm, Nat.le_refl _, fun id ran hmem => nomatch hmem⟩
    | cons handler running =>
      rw [step_finish_cons hrunning]
      refine ⟨_, rfl, Nat.le_refl _, fun id ran hmem => ?_⟩
      cases mem_singleton.mp hmem

theorem pending_of_step {c : Call} (hlt : handler < s.registered)
    (h : (s.step c).Pending handler) : s.Pending handler := by
  obtain ⟨id, hid⟩ := h
  cases c with
  | register =>
    rw [pending_register] at hid
    split at hid
    · cases hold : s.dispatcher.pending id with
      | none =>
        rw [hold] at hid
        cases hid
        exact absurd hlt (Nat.lt_irrefl _)
      | some other =>
        rw [hold] at hid
        exact ⟨id, hold.trans hid⟩
    · exact ⟨id, hid⟩
  | dispatch requestId =>
    rw [pending_dispatch] at hid
    split at hid
    · cases hid
    · exact ⟨id, hid⟩
  | finish result =>
    rw [dispatcher_finish] at hid
    exact ⟨id, hid⟩

theorem pending_step {c : Call} (h : s.dispatcher.pending requestId = some handler)
    (hc : c ≠ .dispatch requestId) : (s.step c).dispatcher.pending requestId = some handler := by
  cases c with
  | register =>
    rw [pending_register, h]
    split <;> rfl
  | dispatch id =>
    rw [pending_dispatch, if_neg (fun heq => hc (by rw [heq])), h]
  | finish result => rw [dispatcher_finish, h]

/-- From a state on in which a handler waits, it is in the map until a response with its id is
dispatched, and not behind that. -/
theorem pending_foldl (h : s.Valid) (hpending : s.dispatcher.pending requestId = some handler)
    (cs : List Call) :
    ∃ events, (cs.foldl step s).log = s.log ++ events ∧
      ((cs.foldl step s).Pending handler ↔ ∀ ran, .dispatched requestId ran ∉ events) ∧
      ((∀ ran, .dispatched requestId ran ∉ events) →
        (cs.foldl step s).dispatcher.pending requestId = some handler) ∧
      (cs.foldl step s).Valid ∧ handler < (cs.foldl step s).registered := by
  induction cs using List.reverseRecOn with
  | nil =>
    exact ⟨[], (append_nil _).symm,
      ⟨fun _ ran => not_mem_nil, fun _ => ⟨requestId, hpending⟩⟩, fun _ => hpending, h,
      (h.numbered _ (h.mem_outstanding hpending)).1⟩
  | append_singleton cs c ih =>
    rw [foldl_append]
    change ∃ events, ((cs.foldl step s).step c).log = s.log ++ events ∧
      (((cs.foldl step s).step c).Pending handler ↔ _) ∧
      (_ → ((cs.foldl step s).step c).dispatcher.pending requestId = some handler) ∧
      ((cs.foldl step s).step c).Valid ∧ handler < ((cs.foldl step s).step c).registered
    generalize cs.foldl step s = t at ih ⊢
    obtain ⟨events, hlog, hiff, hat, hvalid, hlt⟩ := ih
    obtain ⟨new, hnew, hle, hdispatched⟩ := exists_log_step t c
    have hall : (t.step c).log = s.log ++ (events ++ new) := by
      rw [hnew, hlog, List.append_assoc]
    by_cases hbefore : ∀ ran, .dispatched requestId ran ∉ events
    · by_cases hc : c = .dispatch requestId
      · subst hc
        have hstep := step_dispatch_some (hat hbefore)
        have hran : handler ∈ ranHandlers (t.step (.dispatch requestId)).log := by
          rw [hstep, ranHandlers, filterMap_append]
          exact mem_append_right _ (mem_singleton.mpr rfl)
        have hmem : .dispatched requestId (some handler) ∈ events ++ new := by
          have heq : s.log ++ (events ++ new) =
              s.log ++ (events ++ [.dispatched requestId (some handler)]) := by
            rw [← hall, hstep, hlog, List.append_assoc]
          rw [append_cancel_left heq]
          exact mem_append_right _ (mem_singleton.mpr rfl)
        refine ⟨events ++ new, hall, ⟨fun hp => ?_, fun hnot => ?_⟩, fun hnot => ?_,
          hvalid.step _, Nat.lt_of_lt_of_le hlt hle⟩
        · exact absurd hp ((hvalid.step _).not_pending_of_ran hran)
        · exact absurd hmem (hnot _)
        · exact absurd hmem (hnot _)
      · have hstill := pending_step (hat hbefore) hc
        have hnone : ∀ ran, .dispatched requestId ran ∉ events ++ new := by
          intro ran hmem
          rcases mem_append.mp hmem with hold | hadded
          · exact hbefore ran hold
          · exact hc (hdispatched requestId ran hadded)
        exact ⟨events ++ new, hall, ⟨fun _ => hnone, fun _ => ⟨requestId, hstill⟩⟩, fun _ => hstill,
          hvalid.step c, Nat.lt_of_lt_of_le hlt hle⟩
    · have hgone : ¬ (t.step c).Pending handler :=
        fun hp => hbefore (hiff.mp (pending_of_step hlt hp))
      have hsome : ¬ ∀ ran, .dispatched requestId ran ∉ events ++ new :=
        fun hnot => hbefore fun ran hmem => hnot ran (mem_append_left _ hmem)
      exact ⟨events ++ new, hall, ⟨fun hp => absurd hp hgone, fun hnot => absurd hnot hsome⟩,
        fun hnot => absurd hnot hsome, hvalid.step c, Nat.lt_of_lt_of_le hlt hle⟩

theorem not_pending_foldl (hlt : handler < s.registered) (h : ¬ s.Pending handler)
    (cs : List Call) :
    ¬ (cs.foldl step s).Pending handler ∧ ∃ events, (cs.foldl step s).log = s.log ++ events := by
  induction cs generalizing s with
  | nil => exact ⟨h, [], (append_nil _).symm⟩
  | cons c cs ih =>
    obtain ⟨new, hnew, hle, -⟩ := exists_log_step s c
    obtain ⟨hnot, events, hevents⟩ :=
      ih (Nat.lt_of_lt_of_le hlt hle) fun hp => h (pending_of_step hlt hp)
    refine ⟨hnot, new ++ events, ?_⟩
    rw [foldl_cons, hevents, hnew, List.append_assoc]

/-- What runs or has finished was run. -/
structure Entered (s : Calls) : Prop where
  running : ∀ handler ∈ s.running, handler ∈ ranHandlers s.log
  finished : ∀ handler result, .finished handler result ∈ s.log → handler ∈ ranHandlers s.log

theorem Entered.step (h : s.Entered) (c : Call) : (s.step c).Entered := by
  have hold (e : CallEvent) {handler : Nat} (hmem : handler ∈ ranHandlers s.log) :
      handler ∈ ranHandlers (s.log ++ [e]) := by
    rw [ranHandlers, filterMap_append]
    exact mem_append_left _ hmem
  have hfinished (e : CallEvent) (he : ∀ handler result, e ≠ .finished handler result) (handler)
      (result) (hmem : .finished handler result ∈ s.log ++ [e]) :
      handler ∈ ranHandlers (s.log ++ [e]) := by
    rcases mem_append.mp hmem with hbefore | hnew
    · exact hold e (h.finished handler result hbefore)
    · exact absurd (mem_singleton.mp hnew).symm (he handler result)
  cases c with
  | register =>
    exact ⟨fun handler hmem => hold _ (h.running handler hmem),
      hfinished _ fun handler result heq => by cases heq⟩
  | dispatch requestId =>
    cases hpending : s.dispatcher.pending requestId with
    | none =>
      rw [step_dispatch_none hpending]
      exact ⟨fun handler hmem => hold _ (h.running handler hmem),
        hfinished _ fun handler result heq => by cases heq⟩
    | some handler =>
      rw [step_dispatch_some hpending]
      refine ⟨fun other hmem => ?_, hfinished _ fun handler result heq => by cases heq⟩
      rcases mem_cons.mp hmem with rfl | hbefore
      · rw [ranHandlers, filterMap_append]
        exact mem_append_right _ (mem_singleton.mpr rfl)
      · exact hold _ (h.running other hbefore)
  | finish result =>
    cases hrunning : s.running with
    | nil =>
      rw [step_finish_nil hrunning]
      exact h
    | cons handler running =>
      rw [step_finish_cons hrunning]
      refine ⟨fun other hmem => hold _ (h.running other ?_), fun other result' hmem => ?_⟩
      · rw [hrunning]
        exact mem_cons_of_mem _ hmem
      · rcases mem_append.mp hmem with hbefore | hnew
        · exact hold _ (h.finished other result' hbefore)
        · cases mem_singleton.mp hnew
          refine hold _ (h.running handler ?_)
          rw [hrunning]
          exact mem_cons_self

theorem entered_run (calls : List Call) : (run calls).Entered := by
  induction calls using List.reverseRecOn with
  | nil => exact ⟨fun handler hmem => absurd hmem not_mem_nil,
      fun handler result hmem => absurd hmem not_mem_nil⟩
  | append_singleton calls c ih =>
    rw [run_append]
    exact ih.step c

end Calls

/-! ### The proxy -/

/-- A `Proxy_` with the connector of its router. -/
structure Proxy where
  calls : Calls := {}
  /-- `pipe_` of the connector is valid. -/
  pipe : Bool := true
  error : Bool := false

/-- What happens to a proxy. -/
inductive ProxyAct where
  /-- A call that expects a response registers its handler. -/
  | register
  /-- The connector reads a response. -/
  | receive (requestId : UInt64)
  /-- The innermost handler returns. -/
  | finish (result : Bool)
  | raiseError
  /-- `CloseMessagePipe` or `PassMessagePipe`. -/
  | closePipe

namespace Proxy

/-- The connector can read and write. -/
def isOpen (s : Proxy) : Bool := s.pipe && !s.error

def raiseError (s : Proxy) : Proxy := { s with pipe := false, error := true }

def call (s : Proxy) (c : Call) : Proxy := { s with calls := s.calls.step c }

/-- `Accept` returns what `DispatchResponse` does, which is false for an id that is not there and
else the result of the handler; on false the connector raises its error. -/
def step (s : Proxy) : ProxyAct → Proxy
  | .register => s.call .register
  | .receive requestId =>
    if s.isOpen then
      if (s.calls.dispatcher.pending requestId).isSome then s.call (.dispatch requestId)
      else (s.call (.dispatch requestId)).raiseError
    else s
  | .finish result =>
    if s.calls.running = [] then s
    else if result then s.call (.finish result)
    else (s.call (.finish result)).raiseError
  | .raiseError => s.raiseError
  | .closePipe => { s with pipe := false }

def run (acts : List ProxyAct) (s : Proxy) : Proxy := acts.foldl step s

/-! ### The call -/

/-- A turn of the loop of `SyncWaitJob`: what the tasks do while the executor runs, and the two
answers that count where the wait has a timeout. -/
structure Turn where
  acts : List ProxyAct
  /-- The deadline has passed. -/
  late : Bool := false
  /-- `WaitForWork` has seen a task. -/
  work : Bool := true

/-- `SyncWaitJob::Run`, on the turns it takes; none where it takes others.  Nobody has the handle
of the job to cancel it, so `ShouldYield` is false. -/
def syncWaitJob (predicate : Proxy → Bool) (isMax : Bool) : List Turn → Proxy → Option Proxy
  | [], s => if predicate s || s.error then some s else none
  | turn :: turns, s =>
    if predicate s || s.error then none
    else
      let s := s.run turn.acts
      if predicate s || s.error || (!isMax && (turn.late || !turn.work)) then
        if turns.isEmpty then some s else none
      else syncWaitJob predicate isMax turns s

def syncWaitFor (s : Proxy) (predicate : Proxy → Bool) (isMax : Bool) (turns : List Turn) :
    Option (Bool × Proxy) :=
  if predicate s then if turns.isEmpty then some (true, s) else none
  else (syncWaitJob predicate isMax turns s).map fun s => (predicate s && !s.error, s)

/-- The result of `WriteMessageRaw`; where it is an error, with what `RaiseError` makes the
connection error handler do. -/
inductive Written where
  | ok
  | failed (acts : List ProxyAct)

/-- `SendMessage`. -/
def sendMessage (s : Proxy) (written : Written) : Bool × Proxy :=
  if s.isOpen then
    match written with
    | .ok => (true, s)
    | .failed acts => (false, s.raiseError.run acts)
  else (false, s)

/-- `wvc_sync_done`, which the handler sets before it returns true. -/
def syncDone (handler : Nat) (s : Proxy) : Bool := .finished handler true ∈ s.calls.log

/-- The body `EmitSyncProxyMethod` writes: the value it returns and the proxy it leaves, on the
turns its wait takes. -/
def syncProxyMethod (s : Proxy) (written : Written) (turns : List Turn) : Option (Bool × Proxy) :=
  let handler := s.calls.registered
  let (sent, s) := (s.step .register).sendMessage written
  if sent then s.syncWaitFor (syncDone handler) true turns
  else if turns.isEmpty then some (false, s) else none

/-! ### What a run does to the dispatcher -/

variable {s t : Proxy} {handler : Nat} {requestId : UInt64}

theorem exists_calls_step (s : Proxy) (a : ProxyAct) :
    ∃ cs : List Call, (s.step a).calls = cs.foldl Calls.step s.calls := by
  cases a with
  | register => exact ⟨[.register], rfl⟩
  | receive requestId =>
    unfold step
    dsimp only
    split
    · split
      · exact ⟨[.dispatch requestId], rfl⟩
      · exact ⟨[.dispatch requestId], rfl⟩
    · exact ⟨[], rfl⟩
  | finish result =>
    unfold step
    dsimp only
    split
    · exact ⟨[], rfl⟩
    · split
      · exact ⟨[.finish result], rfl⟩
      · exact ⟨[.finish result], rfl⟩
  | raiseError => exact ⟨[], rfl⟩
  | closePipe => exact ⟨[], rfl⟩

theorem exists_calls_run (acts : List ProxyAct) (s : Proxy) :
    ∃ cs : List Call, (s.run acts).calls = cs.foldl Calls.step s.calls := by
  induction acts generalizing s with
  | nil => exact ⟨[], rfl⟩
  | cons a acts ih =>
    obtain ⟨first, hfirst⟩ := exists_calls_step s a
    obtain ⟨rest, hrest⟩ := ih (s.step a)
    refine ⟨first ++ rest, ?_⟩
    rw [foldl_append, ← hfirst, ← hrest]
    rfl

theorem step_of_closed (h : s.isOpen = false) (a : ProxyAct) :
    (s.step a).isOpen = false ∧ ranHandlers (s.step a).calls.log = ranHandlers s.calls.log := by
  have hfinish (result : Bool) :
      ranHandlers (s.calls.step (.finish result)).log = ranHandlers s.calls.log := by
    cases hrunning : s.calls.running with
    | nil => rw [Calls.step_finish_nil hrunning]
    | cons handler running =>
      rw [Calls.step_finish_cons hrunning, ranHandlers, filterMap_append]
      exact append_nil _
  cases a with
  | register =>
    refine ⟨h, ?_⟩
    change ranHandlers (s.calls.step .register).log = _
    rw [Calls.log_register, ranHandlers, filterMap_append]
    exact append_nil _
  | receive requestId =>
    have hstep : s.step (.receive requestId) = s := by
      unfold step
      dsimp only
      rw [h]
      rfl
    rw [hstep]
    exact ⟨h, rfl⟩
  | finish result =>
    unfold step
    dsimp only
    split
    · exact ⟨h, rfl⟩
    · split
      · exact ⟨h, hfinish result⟩
      · exact ⟨rfl, hfinish result⟩
  | raiseError => exact ⟨rfl, rfl⟩
  | closePipe => exact ⟨rfl, rfl⟩

theorem run_of_closed (h : s.isOpen = false) (acts : List ProxyAct) :
    (s.run acts).isOpen = false ∧
      ranHandlers (s.run acts).calls.log = ranHandlers s.calls.log := by
  induction acts generalizing s with
  | nil => exact ⟨h, rfl⟩
  | cons a acts ih =>
    obtain ⟨hclosed, hran⟩ := step_of_closed h a
    obtain ⟨hend, hrest⟩ := ih hclosed
    exact ⟨hend, hrest.trans hran⟩

theorem isOpen_of_error (h : s.error = true) : s.isOpen = false := by
  rw [isOpen, h, Bool.not_true, Bool.and_false]

/-! ### What the call does -/

theorem syncWaitJob_eq_some {predicate : Proxy → Bool} {turns : List Turn} {t : Proxy}
    (h : syncWaitJob predicate true turns s = some t) :
    (predicate t = true ∨ t.error = true) ∧
      ∃ cs : List Call, t.calls = cs.foldl Calls.step s.calls := by
  induction turns generalizing s with
  | nil =>
    unfold syncWaitJob at h
    split at h
    case isTrue hleft =>
      cases h
      exact ⟨Bool.or_eq_true_iff.mp hleft, [], rfl⟩
    case isFalse => cases h
  | cons turn turns ih =>
    unfold syncWaitJob at h
    split at h
    case isTrue => cases h
    case isFalse =>
      obtain ⟨first, hfirst⟩ := exists_calls_run turn.acts s
      dsimp only at h
      split at h
      case isTrue hleft =>
        rw [Bool.not_true, Bool.false_and, Bool.or_false] at hleft
        split at h
        · cases h
          exact ⟨Bool.or_eq_true_iff.mp hleft, first, hfirst⟩
        · cases h
      case isFalse =>
        obtain ⟨hleft, rest, hrest⟩ := ih h
        refine ⟨hleft, first ++ rest, ?_⟩
        rw [hrest, hfirst, foldl_append]

/-- The call returns true with its handler finished, and false with its handler finished or with
the connector closed. -/
theorem syncProxyMethod_eq_some {written : Written} {turns : List Turn} {result : Bool} {t : Proxy}
    (h : s.syncProxyMethod written turns = some (result, t)) :
    (syncDone s.calls.registered t = true ∨ result = false ∧ t.isOpen = false) ∧
      ∃ cs : List Call, t.calls = cs.foldl Calls.step (s.calls.step .register) := by
  have hcalls : (s.step .register).calls = s.calls.step .register := rfl
  unfold syncProxyMethod at h
  dsimp only at h
  cases hopen : (s.step .register).isOpen with
  | false =>
    have hsend : (s.step .register).sendMessage written = (false, s.step .register) := by
      unfold sendMessage
      rw [hopen]
      rfl
    rw [hsend] at h
    dsimp only at h
    rw [if_neg Bool.false_ne_true] at h
    split at h
    · cases h
      exact ⟨Or.inr ⟨rfl, hopen⟩, [], hcalls⟩
    · cases h
  | true =>
    cases written with
    | failed acts =>
      have hsend : (s.step .register).sendMessage (.failed acts) =
          (false, (s.step .register).raiseError.run acts) := by
        unfold sendMessage
        rw [hopen]
        rfl
      rw [hsend] at h
      dsimp only at h
      rw [if_neg Bool.false_ne_true] at h
      split at h
      · cases h
        obtain ⟨cs, hcs⟩ := exists_calls_run acts (s.step .register).raiseError
        exact ⟨Or.inr ⟨rfl, (run_of_closed rfl acts).1⟩, cs, hcs⟩
      · cases h
    | ok =>
      have hsend : (s.step .register).sendMessage .ok = (true, s.step .register) := by
        unfold sendMessage
        rw [hopen]
        rfl
      rw [hsend] at h
      dsimp only at h
      rw [if_pos rfl, syncWaitFor] at h
      split at h
      case isTrue hdone =>
        split at h
        · cases h
          exact ⟨Or.inl hdone, [], hcalls⟩
        · cases h
      case isFalse =>
        obtain ⟨t', hjob, heq⟩ := Option.map_eq_some_iff.mp h
        cases heq
        obtain ⟨hleft, cs, hcs⟩ := syncWaitJob_eq_some hjob
        refine ⟨?_, cs, hcs⟩
        rcases hleft with hdone | herror
        · exact Or.inl hdone
        · refine Or.inr ⟨?_, isOpen_of_error herror⟩
          rw [herror, Bool.not_true, Bool.and_false]

/-- A proxy after what has happened to it. -/
def after (acts : List ProxyAct) : Proxy := run acts {}

theorem exists_calls_after (acts : List ProxyAct) :
    ∃ cs : List Call, (after acts).calls = Calls.run cs :=
  exists_calls_run acts {}

/-- What a handler registered in a call is when the call is over. -/
theorem pending_iff_of_calls {c : Calls} (hvalid : c.Valid) (cs : List Call) :
    (cs.foldl Calls.step (c.step .register)).Pending c.registered ↔
      c.dispatcher.nextRequestId ∉ (outstanding c.log).map Prod.snd ∧
        ∀ ran, .dispatched c.dispatcher.nextRequestId ran ∉
          (cs.foldl Calls.step (c.step .register)).log.drop c.log.length := by
  have hregister := hvalid.register
  have hat := Calls.pending_register c c.dispatcher.nextRequestId
  rw [if_pos rfl] at hat
  cases hold : c.dispatcher.pending c.dispatcher.nextRequestId with
  | none =>
    rw [hold, Option.none_or] at hat
    obtain ⟨events, hlog, hiff, -, -, -⟩ := Calls.pending_foldl hregister hat cs
    have hdrop : (cs.foldl Calls.step (c.step .register)).log.drop c.log.length =
        .registered c.registered c.dispatcher.nextRequestId :: events := by
      rw [hlog, Calls.log_register, List.append_assoc, drop_left]
      rfl
    rw [hiff, hdrop]
    constructor
    · intro hnone
      refine ⟨hvalid.pending_eq_none_iff.mp hold, fun ran hmem => ?_⟩
      rcases mem_cons.mp hmem with heq | hevent
      · cases heq
      · exact hnone ran hevent
    · rintro ⟨-, hnone⟩ ran hmem
      exact hnone ran (mem_cons_of_mem _ hmem)
  | some other =>
    -- The id was given before: `emplace` has dropped the handler.
    have hwaits : c.dispatcher.nextRequestId ∈ (outstanding c.log).map Prod.snd :=
      List.mem_map_of_mem (hvalid.mem_outstanding hold)
    have hnot : ¬ (c.step .register).Pending c.registered := by
      rintro ⟨id, hid⟩
      rw [Calls.pending_register] at hid
      have hhere : c.dispatcher.pending id = some c.registered := by
        split at hid
        case isTrue heq =>
          rw [heq, hold] at hid
          rw [heq, hold]
          exact hid
        case isFalse => exact hid
      exact Nat.lt_irrefl _ (hvalid.numbered _ (hvalid.mem_outstanding hhere)).1
    have hlt : c.registered < (c.step .register).registered := Nat.lt_succ_self _
    constructor
    · exact fun hp => absurd hp (Calls.not_pending_foldl hlt hnot cs).1
    · exact fun h => absurd hwaits h.1

/-- **What a blocking call leaves.**  It returns true only with its handler run to the end.  The
handler is left in the map exactly if no response with its id was dispatched in the call, unless a
request with the id waited already.  Then the call has returned false and the connector is closed,
so that nothing that comes later runs the handler. -/
theorem syncProxyMethod_returns (acts : List ProxyAct) (written : Written) (turns : List Turn)
    {result : Bool} {t : Proxy}
    (h : (after acts).syncProxyMethod written turns = some (result, t)) :
    (result = true → .finished (after acts).calls.registered true ∈ t.calls.log) ∧
    (t.calls.Pending (after acts).calls.registered ↔
      (after acts).calls.dispatcher.nextRequestId ∉
          (outstanding (after acts).calls.log).map Prod.snd ∧
        ∀ ran, .dispatched (after acts).calls.dispatcher.nextRequestId ran ∉
          t.calls.log.drop (after acts).calls.log.length) ∧
    (t.calls.Pending (after acts).calls.registered →
      result = false ∧ t.isOpen = false ∧
        ∀ later, (after acts).calls.registered ∉ ranHandlers (t.run later).calls.log) := by
  obtain ⟨hends, cs, hcs⟩ := syncProxyMethod_eq_some h
  obtain ⟨before, hbefore⟩ := exists_calls_after acts
  have hvalid : (after acts).calls.Valid := by
    rw [hbefore]
    exact Calls.valid_run before
  have hrun : t.calls = Calls.run (before ++ .register :: cs) := by
    rw [hcs, hbefore, Calls.run, Calls.run, foldl_append]
    rfl
  refine ⟨fun hresult => ?_, ?_, fun hpending => ?_⟩
  · rcases hends with hdone | ⟨hfalse, -⟩
    · exact of_decide_eq_true hdone
    · rw [hfalse] at hresult
      cases hresult
  · rw [hcs]
    exact pending_iff_of_calls hvalid cs
  · have hnot : (after acts).calls.registered ∉ ranHandlers t.calls.log := by
      intro hran
      have ht : t.calls.Valid := by
        rw [hrun]
        exact Calls.valid_run _
      exact ht.not_pending_of_ran hran hpending
    rcases hends with hdone | ⟨hfalse, hclosed⟩
    · have hentered : t.calls.Entered := by
        rw [hrun]
        exact Calls.entered_run _
      exact absurd (hentered.finished _ _ (of_decide_eq_true hdone)) hnot
    · refine ⟨hfalse, hclosed, fun later => ?_⟩
      rw [(run_of_closed hclosed later).2]
      exact hnot

theorem syncProxyMethod_returns_failed :
    let t : Proxy := ((after []).step .register).raiseError
    t.calls.Pending 0 ∧ t.isOpen = false ∧ ∀ later, 0 ∉ ranHandlers (t.run later).calls.log := by
  intro t
  have h : (after []).syncProxyMethod (.failed []) [] = some (false, t) := rfl
  obtain ⟨-, hiff, hlater⟩ := syncProxyMethod_returns [] (.failed []) [] h
  have hpending : t.calls.Pending 0 := by
    refine hiff.mpr ⟨by decide, fun ran hmem => ?_⟩
    cases mem_singleton.mp hmem
  exact ⟨hpending, (hlater hpending).2⟩

/-- A request that cannot be written leaves its handler in the map. -/
theorem not_syncProxyMethod_clean :
    ¬ ∀ (acts : List ProxyAct) (written : Written) (turns : List Turn) (result : Bool) (t : Proxy),
      (after acts).syncProxyMethod written turns = some (result, t) →
        ¬ t.calls.Pending (after acts).calls.registered := by
  intro h
  exact h [] (.failed []) [] false ((after []).step .register).raiseError rfl ⟨1, rfl⟩

end Proxy

end Voodoo.Bindings
