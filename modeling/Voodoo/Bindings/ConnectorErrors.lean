import Voodoo.Bindings.Connector

/-!
# Errors of the connector

`RaiseError`, `CloseMessagePipe`, `Accept` and the two callbacks of a `Connector`, in any order, also
from the handlers that run inside of them.  When the watchers call back and whether a write succeeds
is left open.

`RaiseError` asks whether there was an error, and not whether the pipe is still there.  A handler that
closes the pipe returns to a drain that reads on, from no pipe.

* `quiet_of_reaches`: the error handler runs at most once, and behind an error nothing is dispatched
  or written and the pipe is closed;
* `lawful_of_reaches`: in every run where behind `CloseMessagePipe` nobody calls `RaiseError` and no
  handler returns to a drain, it does not run behind `CloseMessagePipe`;
* `not_lawful_closed`: a handler that closes the pipe.
-/

namespace Voodoo.Bindings

open Machine List

/-- What a connector does, and what is done to it. -/
inductive Deed (μ : Type) where
  | dispatched (message : μ)
  | written (message : μ)
  /-- The error, when it is raised. -/
  | error
  /-- The connection error handler, when it is run. -/
  | errorHandler
  /-- `CloseMessagePipe`. -/
  | closed
  deriving DecidableEq

/-- A call that a handler returns to: the drain of a callback, or `RaiseError`. -/
inductive Caller where
  | drain (callback : Watched)
  | raiseError

structure ConnectorState (μ : Type) where
  /-- The messages on the pipe; `none` is one that `WrapWireBytes` refuses. -/
  queue : List (Option μ) := []
  peerClosed : Bool := false
  /-- `pipe_` is valid. -/
  pipe : Bool := true
  readWatcher : Bool := false
  /-- There is a `closed_watcher_`, and it is not cancelled. -/
  closedWatcher : Bool := false
  receiver : Bool := false
  errorHandler : Bool := false
  error : Bool := false
  paused : Bool := false
  /-- The handlers that run, the innermost first. -/
  callers : List Caller := []
  log : List (Deed μ) := []

namespace ConnectorState

variable {μ : Type}

def cancelWatchers (s : ConnectorState μ) : ConnectorState μ :=
  { s with readWatcher := false, closedWatcher := false }

/-- `StartReceiving`. -/
def startReceiving (s : ConnectorState μ) : ConnectorState μ :=
  if !s.pipe || s.readWatcher then s else { s with readWatcher := true, closedWatcher := true }

/-- `PauseIncomingMethodCallProcessing`. -/
def pauseIncomingMethodCallProcessing (s : ConnectorState μ) : ConnectorState μ :=
  { s with paused := true }.cancelWatchers

/-- `ResumeIncomingMethodCallProcessing`. -/
def resumeIncomingMethodCallProcessing (s : ConnectorState μ) : ConnectorState μ :=
  if s.paused then { s with paused := false }.startReceiving else s

/-- `RaiseError`, up to the handler. -/
def raiseError (s : ConnectorState μ) : ConnectorState μ :=
  if s.error then s
  else
    let s := { s.cancelWatchers with error := true, pipe := false, log := s.log ++ [Deed.error] }
    if s.errorHandler then
      { s with
        errorHandler := false
        callers := .raiseError :: s.callers
        log := s.log ++ [Deed.errorHandler] }
    else s

/-- `CloseMessagePipe`. -/
def closeMessagePipe (s : ConnectorState μ) : ConnectorState μ :=
  { s.cancelWatchers with pipe := false, log := s.log ++ [.closed] }

/-- `Accept`, with what `WriteMessageRaw` gives. -/
def accept (s : ConnectorState μ) (message : μ) (ok : Bool) : ConnectorState μ :=
  if !s.pipe || s.error then s
  else if ok then { s with log := s.log ++ [.written message] }
  else s.raiseError

/-- The end of a callback: `OnPeerClosed` raises the error.  Where the drain has raised it, the
handler of that has not returned yet, and `RaiseError` does nothing any more. -/
def finish (callback : Watched) (s : ConnectorState μ) : ConnectorState μ :=
  match callback with
  | .readable => s
  | .peerClosed => s.raiseError

/-- `ReadAllAvailableMessages` on this queue, up to the next handler or to its end. -/
def readFrom (callback : Watched) : List (Option μ) → ConnectorState μ → ConnectorState μ
  | [], s => finish callback (if !s.pipe || s.peerClosed then s.raiseError else s)
  | m :: rest, s =>
    if !s.pipe then finish callback s.raiseError
    else
      let s := { s with queue := rest }
      match m with
      | none => finish callback s.raiseError
      | some message =>
        if s.receiver then
          { s with callers := .drain callback :: s.callers, log := s.log ++ [.dispatched message] }
        else if s.error || s.paused then finish callback s
        else readFrom callback rest s

def readAllAvailableMessages (callback : Watched) (s : ConnectorState μ) : ConnectorState μ :=
  readFrom callback s.queue s

/-- `OnReadable`. -/
def onReadable (s : ConnectorState μ) (ok : Bool) : ConnectorState μ :=
  if s.paused || s.error then s
  else if ok then s.readAllAvailableMessages .readable
  else s.raiseError

/-- `OnPeerClosed`. -/
def onPeerClosed (s : ConnectorState μ) : ConnectorState μ :=
  let s := { s with closedWatcher := false }
  if s.paused || s.error then s else s.readAllAvailableMessages .peerClosed

/-- The innermost handler returns; a message handler says whether it accepts. -/
def handlerReturns (s : ConnectorState μ) (accepts : Bool) : ConnectorState μ :=
  match s.callers with
  | [] => s
  | .raiseError :: rest => { s with callers := rest }
  | .drain callback :: rest =>
    let s := { s with callers := rest }
    if !accepts then finish callback s.raiseError
    else if s.error || s.paused then finish callback s
    else s.readAllAvailableMessages callback

/-! ### Runs -/

/-- What happens to a connector. -/
inductive Happening (μ : Type) where
  | accept (message : μ) (ok : Bool)
  | startReceiving
  | pause
  | resume
  | closeMessagePipe
  | raiseError
  | setIncomingReceiver (receiver : Bool)
  | setConnectionErrorHandler (handler : Bool)
  | arrive (message : Option μ)
  | closePeer
  /-- The read watcher calls back. -/
  | readable (ok : Bool)
  | peerClosed
  | handlerReturns (accepts : Bool)

def step (s : ConnectorState μ) : Happening μ → ConnectorState μ
  | .accept m ok => s.accept m ok
  | .startReceiving => s.startReceiving
  | .pause => s.pauseIncomingMethodCallProcessing
  | .resume => s.resumeIncomingMethodCallProcessing
  | .closeMessagePipe => s.closeMessagePipe
  | .raiseError => s.raiseError
  | .setIncomingReceiver receiver => { s with receiver }
  | .setConnectionErrorHandler handler => { s with errorHandler := handler }
  | .arrive m => if s.peerClosed then s else { s with queue := s.queue ++ [m] }
  | .closePeer => { s with peerClosed := true }
  | .readable ok => if s.readWatcher then s.onReadable ok else s
  | .peerClosed => if s.closedWatcher then s.onPeerClosed else s
  | .handlerReturns accepts => s.handlerReturns accepts

/-- A new connector, on a pipe or on none. -/
def fresh (pipe : Bool) (queue : List (Option μ)) (peerClosed : Bool) : ConnectorState μ :=
  { pipe, queue, peerClosed }

/-- What holds of the errors in any case. -/
structure Quiet (s : ConnectorState μ) : Prop where
  once : ∀ before after, s.log = before ++ .errorHandler :: after → .errorHandler ∉ after
  silent : ∀ before after, s.log = before ++ .error :: after →
    ∀ m, .dispatched m ∉ after ∧ .written m ∉ after
  pipe : .error ∈ s.log → s.pipe = false

structure Lawful (s : ConnectorState μ) : Prop extends Quiet s where
  /-- Behind `CloseMessagePipe` the error handler runs only for an earlier error. -/
  closed : ∀ before after, s.log = before ++ .closed :: after → .error ∉ before →
    .errorHandler ∉ after

/-- The error handler would not run, or the pipe was not closed by `CloseMessagePipe`. -/
def Unclosed (s : ConnectorState μ) : Prop :=
  s.error = false → s.errorHandler = true → .closed ∉ s.log

/-- Behind `CloseMessagePipe`, without an error and with an error handler, nobody calls
`RaiseError`, and no message handler returns to its drain, unless to the one of `OnReadable` and
with the connector paused. -/
def Careful (s : ConnectorState μ) : Happening μ → Prop
  | .raiseError => s.Unclosed
  | .handlerReturns accepts => ∀ callback rest, s.callers = .drain callback :: rest →
    s.Unclosed ∨ callback = .readable ∧ accepts = true ∧ s.paused = true
  | _ => True

variable {s : ConnectorState μ} {I : ConnectorState μ → Prop}

/-! ### The drain -/

/-- What the steps of a drain keep. -/
structure Stable (I : ConnectorState μ → Prop) : Prop where
  raiseError : ∀ s, I s → I s.raiseError
  queue : ∀ s queue, I s → I { s with queue }
  dispatch : ∀ s callback message, I s → s.error = false →
    I { s with callers := .drain callback :: s.callers, log := s.log ++ [.dispatched message] }

theorem Stable.finish (hI : Stable I) (callback : Watched) (h : I s) : I (finish callback s) := by
  cases callback with
  | readable => exact h
  | peerClosed => exact hI.raiseError s h

theorem Stable.readFrom (hI : Stable I) (callback : Watched) (queue : List (Option μ)) (h : I s)
    (herror : s.error = false) : I (readFrom callback queue s) := by
  induction queue generalizing s with
  | nil =>
    unfold ConnectorState.readFrom
    refine hI.finish callback ?_
    split
    · exact hI.raiseError s h
    · exact h
  | cons m rest ih =>
    unfold ConnectorState.readFrom
    have hread : I { s with queue := rest } := hI.queue s rest h
    split
    · exact hI.finish callback (hI.raiseError s h)
    · cases m with
      | none => exact hI.finish callback (hI.raiseError _ hread)
      | some message =>
        dsimp only
        split
        · exact hI.dispatch _ callback message hread herror
        · split
          · exact hI.finish callback hread
          · exact ih hread herror

theorem Stable.onReadable (hI : Stable I) (ok : Bool) (h : I s) : I (s.onReadable ok) := by
  unfold ConnectorState.onReadable
  split
  · exact h
  · rename_i hopen
    split
    · refine hI.readFrom .readable s.queue h ?_
      exact (Bool.or_eq_false_iff.mp (eq_false_of_ne_true hopen)).2
    · exact hI.raiseError s h

theorem Stable.onPeerClosed (hI : Stable I) (h : I { s with closedWatcher := false }) :
    I s.onPeerClosed := by
  unfold ConnectorState.onPeerClosed
  dsimp only
  split
  · exact h
  · rename_i hopen
    refine hI.readFrom .peerClosed s.queue h ?_
    exact (Bool.or_eq_false_iff.mp (eq_false_of_ne_true hopen)).2

theorem Stable.returns (hI : Stable I) (callback : Watched) (accepts : Bool) (h : I s) :
    I (if !accepts then ConnectorState.finish callback s.raiseError
      else if s.error || s.paused then ConnectorState.finish callback s
      else s.readAllAvailableMessages callback) := by
  split
  · exact hI.finish callback (hI.raiseError s h)
  · split
    · exact hI.finish callback h
    · rename_i hopen
      refine hI.readFrom callback s.queue h ?_
      exact (Bool.or_eq_false_iff.mp (eq_false_of_ne_true hopen)).1

/-! ### In any case -/

/-- The second may come behind the first. -/
def Follows : Deed μ → Deed μ → Prop
  | .errorHandler, .errorHandler => False
  | .error, .dispatched _ => False
  | .error, .written _ => False
  | _, _ => True

structure Valid (s : ConnectorState μ) : Prop where
  follows : s.log.Pairwise Follows
  clean : s.error = false → .error ∉ s.log ∧ .errorHandler ∉ s.log
  pipe : s.error = true → s.pipe = false

theorem pairwise_snoc {R : Deed μ → Deed μ → Prop} {log : List (Deed μ)} {d : Deed μ}
    (h : log.Pairwise R) (hd : ∀ x ∈ log, R x d) : (log ++ [d]).Pairwise R := by
  refine pairwise_append.mpr ⟨h, pairwise_singleton .., fun x hx y hy => ?_⟩
  rw [mem_singleton.mp hy]
  exact hd x hx

theorem pairwise_behind {R : Deed μ → Deed μ → Prop} {before after : List (Deed μ)} {d : Deed μ}
    (h : (before ++ d :: after).Pairwise R) : ∀ y ∈ after, R d y :=
  (pairwise_cons.mp (pairwise_append.mp h).2.1).1

theorem quiet_of_valid (h : Valid s) : Quiet s where
  once before after hlog hmem := by
    have hfollows := h.follows
    rw [hlog] at hfollows
    exact pairwise_behind hfollows _ hmem
  silent before after hlog m := by
    have hfollows := h.follows
    rw [hlog] at hfollows
    exact ⟨fun hmem => pairwise_behind hfollows _ hmem, fun hmem => pairwise_behind hfollows _ hmem⟩
  pipe hmem := by
    refine h.pipe ?_
    by_contra hno
    exact (h.clean (eq_false_of_ne_true hno)).1 hmem

theorem valid_raiseError (h : Valid s) : Valid s.raiseError := by
  unfold raiseError
  split
  · exact h
  · rename_i hno
    obtain ⟨-, hclean⟩ := h.clean (eq_false_of_ne_true hno)
    have hlog : (s.log ++ [Deed.error]).Pairwise Follows :=
      pairwise_snoc h.follows fun x _ => by cases x <;> trivial
    dsimp only
    split
    · refine ⟨pairwise_snoc hlog fun x hx => ?_, nofun, fun _ => rfl⟩
      cases x with
      | errorHandler =>
        rcases mem_append.mp hx with hx | hx
        · exact hclean hx
        · cases mem_singleton.mp hx
      | _ => trivial
    · exact ⟨hlog, nofun, fun _ => rfl⟩

theorem Valid.deed {d : Deed μ} (h : Valid s) (herror : s.error = false) (hd : d ≠ .error)
    (hd' : d ≠ .errorHandler) : (s.log ++ [d]).Pairwise Follows ∧
      .error ∉ s.log ++ [d] ∧ .errorHandler ∉ s.log ++ [d] := by
  obtain ⟨hno, hno'⟩ := h.clean herror
  refine ⟨pairwise_snoc h.follows fun x hx => ?_, fun hmem => ?_, fun hmem => ?_⟩
  · cases x with
    | error => exact absurd hx hno
    | errorHandler => exact absurd hx hno'
    | _ => trivial
  · rcases mem_append.mp hmem with hmem | hmem
    · exact hno hmem
    · exact hd (mem_singleton.mp hmem).symm
  · rcases mem_append.mp hmem with hmem | hmem
    · exact hno' hmem
    · exact hd' (mem_singleton.mp hmem).symm

theorem stable_valid : Stable (Valid (μ := μ)) where
  raiseError _ := valid_raiseError
  queue _ _ h := ⟨h.follows, h.clean, h.pipe⟩
  dispatch _ _ message h herror := by
    obtain ⟨hfollows, hclean⟩ := h.deed (d := .dispatched message) herror nofun nofun
    exact ⟨hfollows, fun _ => hclean, h.pipe⟩

theorem valid_step (h : Valid s) (a : Happening μ) : Valid (s.step a) := by
  have hstart {t : ConnectorState μ} (ht : Valid t) : Valid t.startReceiving := by
    unfold startReceiving
    split
    · exact ht
    · exact ⟨ht.follows, ht.clean, ht.pipe⟩
  cases a with
  | accept m ok =>
    show Valid (s.accept m ok)
    unfold accept
    split
    · exact h
    · rename_i hopen
      split
      · have herror := (Bool.or_eq_false_iff.mp (eq_false_of_ne_true hopen)).2
        obtain ⟨hfollows, hclean⟩ := h.deed (d := .written m) herror nofun nofun
        exact ⟨hfollows, fun _ => hclean, h.pipe⟩
      · exact valid_raiseError h
  | startReceiving => exact hstart h
  | pause => exact ⟨h.follows, h.clean, h.pipe⟩
  | resume =>
    show Valid s.resumeIncomingMethodCallProcessing
    unfold resumeIncomingMethodCallProcessing
    split
    · exact hstart ⟨h.follows, h.clean, h.pipe⟩
    · exact h
  | closeMessagePipe =>
    refine ⟨pairwise_snoc h.follows fun x _ => by cases x <;> trivial, fun herror => ?_,
      fun _ => rfl⟩
    exact (h.deed (d := .closed) herror nofun nofun).2
  | raiseError => exact valid_raiseError h
  | setIncomingReceiver receiver => exact ⟨h.follows, h.clean, h.pipe⟩
  | setConnectionErrorHandler handler => exact ⟨h.follows, h.clean, h.pipe⟩
  | arrive m =>
    show Valid (if s.peerClosed then s else { s with queue := s.queue ++ [m] })
    split
    · exact h
    · exact ⟨h.follows, h.clean, h.pipe⟩
  | closePeer => exact ⟨h.follows, h.clean, h.pipe⟩
  | readable ok =>
    show Valid (if s.readWatcher then s.onReadable ok else s)
    split
    · exact stable_valid.onReadable ok h
    · exact h
  | peerClosed =>
    show Valid (if s.closedWatcher then s.onPeerClosed else s)
    split
    · exact stable_valid.onPeerClosed ⟨h.follows, h.clean, h.pipe⟩
    · exact h
  | handlerReturns accepts =>
    show Valid (s.handlerReturns accepts)
    unfold handlerReturns
    split
    · exact h
    · exact ⟨h.follows, h.clean, h.pipe⟩
    · exact stable_valid.returns _ accepts ⟨h.follows, h.clean, h.pipe⟩

theorem valid_fresh (pipe : Bool) (queue : List (Option μ)) (peerClosed : Bool) :
    Valid (fresh pipe queue peerClosed) :=
  ⟨.nil, fun _ => ⟨not_mem_nil, not_mem_nil⟩, nofun⟩

/-- **The error handler runs at most once, and behind an error nothing more happens.** -/
theorem quiet_of_reaches {pipe peerClosed : Bool} {queue : List (Option μ)}
    (h : Reaches (fresh pipe queue peerClosed) step (fun _ _ => True) s) : Quiet s :=
  quiet_of_valid (h.invariant (valid_fresh pipe queue peerClosed) fun _ a hs _ => valid_step hs a)

/-! ### Behind `CloseMessagePipe` -/

structure Tame (s : ConnectorState μ) : Prop where
  closed : .closed ∈ s.log → s.pipe = false ∧ s.readWatcher = false ∧ s.closedWatcher = false
  follows : s.log.Pairwise fun d d' : Deed μ => d = .closed → d' ≠ .errorHandler

theorem tame_raiseError (h : Tame s) (hu : s.Unclosed) : Tame s.raiseError := by
  unfold raiseError
  split
  · exact h
  · rename_i hno
    have hlog : (s.log ++ [Deed.error]).Pairwise fun d d' => d = Deed.closed →
      d' ≠ Deed.errorHandler :=
      pairwise_snoc h.follows fun _ _ _ hd => nomatch hd
    dsimp only
    split
    · rename_i hhandler
      refine ⟨fun _ => ⟨rfl, rfl, rfl⟩, pairwise_snoc hlog fun d hd hclosed => ?_⟩
      subst hclosed
      rcases mem_append.mp hd with hd | hd
      · exact absurd hd (hu (eq_false_of_ne_true hno) hhandler)
      · cases mem_singleton.mp hd
    · exact ⟨fun _ => ⟨rfl, rfl, rfl⟩, hlog⟩

theorem error_raiseError (s : ConnectorState μ) : s.raiseError.error = true := by
  unfold raiseError
  split
  · assumption
  · dsimp only
    split <;> rfl

theorem stable_tame : Stable fun s : ConnectorState μ => Tame s ∧ s.Unclosed where
  raiseError s h := by
    refine ⟨tame_raiseError h.1 h.2, fun hno => ?_⟩
    rw [error_raiseError] at hno
    cases hno
  queue _ _ h := ⟨⟨h.1.closed, h.1.follows⟩, h.2⟩
  dispatch s callback message h herror := by
    have hmem (hclosed : Deed.closed ∈ s.log ++ [.dispatched message]) : .closed ∈ s.log := by
      rcases mem_append.mp hclosed with hclosed | hclosed
      · exact hclosed
      · cases mem_singleton.mp hclosed
    refine ⟨⟨fun hclosed => h.1.closed (hmem hclosed),
      pairwise_snoc h.1.follows fun _ _ _ => nofun⟩, ?_⟩
    exact fun herror hhandler hclosed => h.2 herror hhandler (hmem hclosed)

theorem tame_startReceiving (h : Tame s) : Tame s.startReceiving := by
  unfold startReceiving
  split
  · exact h
  · rename_i hopen
    refine ⟨fun hclosed => ?_, h.follows⟩
    rw [(h.closed hclosed).1] at hopen
    exact absurd rfl hopen

theorem tame_step (h : Tame s) (a : Happening μ) (ha : s.Careful a) : Tame (s.step a) := by
  have hwatched (hwatcher : s.readWatcher = true ∨ s.closedWatcher = true) : .closed ∉ s.log := by
    intro hclosed
    obtain ⟨-, hread, hclosed⟩ := h.closed hclosed
    rcases hwatcher with hwatcher | hwatcher
    · exact Bool.noConfusion (hread.symm.trans hwatcher)
    · exact Bool.noConfusion (hclosed.symm.trans hwatcher)
  cases a with
  | accept m ok =>
    show Tame (s.accept m ok)
    unfold accept
    split
    · exact h
    · rename_i hopen
      have hpipe := (Bool.or_eq_false_iff.mp (eq_false_of_ne_true hopen)).1
      have hno : .closed ∉ s.log := by
        intro hclosed
        rw [(h.closed hclosed).1] at hpipe
        cases hpipe
      split
      · refine ⟨fun hclosed => ?_, pairwise_snoc h.follows fun _ _ _ => nofun⟩
        rcases mem_append.mp hclosed with hclosed | hclosed
        · exact absurd hclosed hno
        · cases mem_singleton.mp hclosed
      · exact tame_raiseError h fun _ _ => hno
  | startReceiving => exact tame_startReceiving h
  | pause => exact ⟨fun hclosed => ⟨(h.closed hclosed).1, rfl, rfl⟩, h.follows⟩
  | resume =>
    show Tame s.resumeIncomingMethodCallProcessing
    unfold resumeIncomingMethodCallProcessing
    split
    · exact tame_startReceiving ⟨h.closed, h.follows⟩
    · exact h
  | closeMessagePipe => exact ⟨fun _ => ⟨rfl, rfl, rfl⟩, pairwise_snoc h.follows fun _ _ _ => nofun⟩
  | raiseError => exact tame_raiseError h ha
  | setIncomingReceiver receiver => exact ⟨h.closed, h.follows⟩
  | setConnectionErrorHandler handler => exact ⟨h.closed, h.follows⟩
  | arrive m =>
    show Tame (if s.peerClosed then s else { s with queue := s.queue ++ [m] })
    split
    · exact h
    · exact ⟨h.closed, h.follows⟩
  | closePeer => exact ⟨h.closed, h.follows⟩
  | readable ok =>
    show Tame (if s.readWatcher then s.onReadable ok else s)
    split
    · rename_i hwatcher
      exact (stable_tame.onReadable ok ⟨h, fun _ _ => hwatched (.inl hwatcher)⟩).1
    · exact h
  | peerClosed =>
    show Tame (if s.closedWatcher then s.onPeerClosed else s)
    split
    · rename_i hwatcher
      have hno := hwatched (.inr hwatcher)
      exact (stable_tame.onPeerClosed ⟨⟨fun hclosed => absurd hclosed hno, h.follows⟩,
        fun _ _ => hno⟩).1
    · exact h
  | handlerReturns accepts =>
    show Tame (s.handlerReturns accepts)
    unfold handlerReturns
    split
    · exact h
    · exact ⟨h.closed, h.follows⟩
    · rename_i callback rest hcallers
      have ht : Tame { s with callers := rest } := ⟨h.closed, h.follows⟩
      rcases ha callback rest hcallers with hu | ⟨rfl, rfl, hpaused⟩
      · exact (stable_tame.returns callback accepts ⟨ht, hu⟩).1
      · -- `OnReadable` of a paused connector
        dsimp only
        rw [if_neg nofun, hpaused, Bool.or_true, if_pos rfl]
        rw [← hpaused]
        exact ht

/-- **The error handler does not run behind `CloseMessagePipe`** without an error before, in every
run where nobody calls `RaiseError` behind it and no handler returns to a drain. -/
theorem lawful_of_reaches {pipe peerClosed : Bool} {queue : List (Option μ)}
    (h : Reaches (fresh pipe queue peerClosed) step Careful s) : Lawful s where
  toQuiet := quiet_of_reaches (h.mono fun _ _ _ => trivial)
  closed before after hlog _ hmem := by
    have hs := h.invariant (I := Tame) ⟨fun hclosed => absurd hclosed not_mem_nil, .nil⟩
      fun _ a hs ha => tame_step hs a ha
    have hfollows := hs.follows
    rw [hlog] at hfollows
    exact pairwise_behind hfollows _ hmem rfl rfl

/-- The second message arrives behind a pause; its handler has the write fail. -/
theorem lawful_paused : Lawful ([.setIncomingReceiver true, .setConnectionErrorHandler true,
    .startReceiving, .arrive (some 1), .readable true, .pause, .handlerReturns true,
    .arrive (some 2), .closePeer, .resume, .peerClosed, .accept 3 false, .handlerReturns true,
    .handlerReturns true, .closeMessagePipe].foldl step
      (fresh true ([] : List (Option ℕ)) false)) := by
  refine lawful_of_reaches (Reaches.along .start ?_)
  refine ⟨trivial, trivial, trivial, trivial, trivial, trivial, ?_, trivial, trivial, trivial,
    trivial, trivial, ?_, ?_, trivial, trivial⟩
  · exact fun _ _ _ => .inl fun _ _ => by decide
  · exact fun _ _ _ => .inl fun _ _ => by decide
  · exact fun _ _ _ => .inl fun _ _ => by decide

/-- A message handler closes the pipe. -/
theorem not_lawful_closed : ∃ s : ConnectorState ℕ,
    Reaches (fresh true [] false) step (fun _ _ => True) s ∧
      s.log = [.dispatched 1, .closed, .error, .errorHandler] ∧ ¬ Lawful s := by
  refine ⟨_, Reaches.run .start [.setIncomingReceiver true, .setConnectionErrorHandler true,
    .startReceiving, .arrive (some 1), .readable true, .closeMessagePipe, .handlerReturns true],
    rfl, fun h => ?_⟩
  exact h.closed [.dispatched 1] [.error, .errorHandler] rfl (by decide) (by decide)

end ConnectorState

end Voodoo.Bindings
