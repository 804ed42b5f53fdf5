import Voodoo.Bindings.CloseNotice
import Voodoo.Bindings.Endpoints

/-!
# Who hears of a closed endpoint

A notice that arrives runs the handler that is installed for its id, and that handler is gone then.
The router keeps nothing of a notice for which there is no handler, so one that is installed later
is not run for it; `SetPeerClosedHandler` says so.

`Closing` is a run in which one handler is installed for an id and one notice for it arrives, in
either order, while other things happen in between and afterwards.  A step that installs nothing
for the id and is no notice for it leaves the handlers of its entry, as long as the entry is held
(`handlers_step`).
-/

namespace Voodoo.Bindings

open Machine List

/-- The characters of a string of bytes. -/
def text (bytes : List UInt8) : String := String.ofList (bytes.map fun b => Char.ofNat b.toNat)

/-- The message as the router takes it. -/
def Control.incoming (c : Control) : Incoming where
  interfaceId := kInvalidInterfaceId
  name := c.name
  closed := c.payload.decode.map fun (closedId, customReason, description) =>
    (closedId, customReason, text description)

/-- A handler that is run for an id; one of `SetPeerClosedHandler` is told nothing. -/
structure ClosedCall where
  id : InterfaceId
  handler : Nat
  told : Option (UInt32 × String)
  deriving DecidableEq

namespace Router

/-- The handlers of an entry, the one that is told the reason last. -/
def handlersOf (o : Option Endpoint) : Option Nat × Option Nat :=
  (o.map fun ep => (ep.peerClosedHandler, ep.peerClosedWithReasonHandler)).getD (none, none)

/-- The call of `runPeerClosedHandler`. -/
def peerClosedCall (r : Router) (id : InterfaceId) (customReason : UInt32) (description : String) :
    Option ClosedCall :=
  match handlersOf (r.endpoints id) with
  | (_, some handler) => some ⟨id, handler, some (customReason, description)⟩
  | (some handler, none) => some ⟨id, handler, none⟩
  | (none, none) => none

end Router

/-- The closed endpoint that a message tells of, with the reason and the description. -/
def Incoming.notice (m : Incoming) : Option (InterfaceId × UInt32 × String) :=
  if m.interfaceId = kInvalidInterfaceId ∧ m.name ≠ Router.kPipeControlFlushName then m.closed
  else none

namespace World

/-- The handlers for closed endpoints that a step runs. -/
def calls (s : World) : RouterOp → Option ClosedCall
  | .accept m => m.notice.bind fun (closedId, customReason, description) =>
      s.router.peerClosedCall closedId customReason description
  | _ => none

/-- The calls of a run, in order. -/
def callsAlong : World → List RouterOp → List ClosedCall
  | _, [] => []
  | s, a :: as => (s.calls a).toList ++ callsAlong (s.step a) as

/-- The step installs no handler for the id and brings no notice of it. -/
def Leaves (id : InterfaceId) : RouterOp → Prop
  | .setPeerClosedHandler j _ | .setPeerClosedWithReasonHandler j _ => j ≠ id
  | .accept m => ∀ closed, m.notice = some closed → closed.1 ≠ id
  | _ => True

/-- The handlers for an id. -/
def handlers (s : World) (id : InterfaceId) : Option Nat × Option Nat :=
  Router.handlersOf (s.router.endpoints id)

end World

/-! ### A step that leaves an id alone -/

namespace Router

variable {r : Router} {id j : InterfaceId}

/-- What becomes of the handlers of an entry: nothing, unless it is erased. -/
def SameOrErased (before after : Option Endpoint) : Prop :=
  after = none ∨ handlersOf after = handlersOf before

theorem handlersOf_map (o : Option Endpoint) {f : Endpoint → Endpoint}
    (hplain : ∀ ep, (f ep).peerClosedHandler = ep.peerClosedHandler)
    (hreason : ∀ ep, (f ep).peerClosedWithReasonHandler = ep.peerClosedWithReasonHandler) :
    handlersOf (o.map f) = handlersOf o := by
  cases o with
  | none => rfl
  | some ep => exact congrArg₂ Prod.mk (hplain ep) (hreason ep)

theorem handlersOf_getD (o : Option Endpoint) {f : Endpoint → Endpoint}
    (hplain : ∀ ep, (f ep).peerClosedHandler = ep.peerClosedHandler)
    (hreason : ∀ ep, (f ep).peerClosedWithReasonHandler = ep.peerClosedWithReasonHandler) :
    handlersOf (some (f (o.getD {}))) = handlersOf o := by
  cases o with
  | none => exact congrArg₂ Prod.mk (hplain {}) (hreason {})
  | some ep => exact congrArg₂ Prod.mk (hplain ep) (hreason ep)

theorem sameOrErased_of_ite {after : Router} {e : Option Endpoint}
    (hr : ∀ k, after.endpoints k = if k = j then e else r.endpoints k)
    (he : SameOrErased (r.endpoints j) e) :
    SameOrErased (r.endpoints id) (after.endpoints id) := by
  rw [hr id]
  split
  case isTrue hid => rwa [hid]
  case isFalse => exact Or.inr rfl

theorem sameOrErased_of_filter {after : Router} {f : Endpoint → Endpoint} {p : Endpoint → Bool}
    (hr : ∀ k, after.endpoints k =
      if k = j then ((r.endpoints j).map f).filter p else r.endpoints k)
    (hplain : ∀ ep, (f ep).peerClosedHandler = ep.peerClosedHandler)
    (hreason : ∀ ep, (f ep).peerClosedWithReasonHandler = ep.peerClosedWithReasonHandler) :
    SameOrErased (r.endpoints id) (after.endpoints id) := by
  refine sameOrErased_of_ite hr ?_
  cases h : ((r.endpoints j).map f).filter p with
  | none => exact Or.inl rfl
  | some ep =>
    have hmap : (r.endpoints j).map f = some ep := (Option.filter_eq_some_iff.mp h).1
    exact Or.inr (hmap ▸ handlersOf_map _ hplain hreason)

theorem sameOrErased_of_ne {after : Router} {e : Option Endpoint} (hne : j ≠ id)
    (hr : ∀ k, after.endpoints k = if k = j then e else r.endpoints k) :
    SameOrErased (r.endpoints id) (after.endpoints id) := by
  rw [hr id, if_neg (Ne.symm hne)]
  exact Or.inr rfl

theorem sameOrErased_accept {m : Incoming} (hcontrol : m.interfaceId ≠ kInvalidInterfaceId)
    (hprimary : m.interfaceId ≠ kPrimaryInterfaceId) :
    SameOrErased (r.endpoints id) ((r.accept m).1.endpoints id) := by
  unfold accept
  rw [if_neg hcontrol, if_neg hprimary]
  dsimp only
  split
  · exact sameOrErased_of_ite (fun k => endpoints_setEndpoint r m.interfaceId k _)
      (Or.inr (handlersOf_getD (f := fun ep => ep) _ (fun _ => rfl) fun _ => rfl))
  · exact sameOrErased_of_ite (fun k => endpoints_setEndpoint r m.interfaceId k _)
      (Or.inr (handlersOf_getD
        (f := fun ep => { ep with queuedMessages := ep.queuedMessages ++ [m] }) _
        (fun _ => rfl) fun _ => rfl))

theorem sameOrErased_runPeerClosedHandler (hne : j ≠ id) :
    SameOrErased (r.endpoints id) ((r.runPeerClosedHandler j).endpoints id) := by
  obtain ⟨_, _, hr⟩ := endpoints_runPeerClosedHandler r j
  exact sameOrErased_of_ne hne hr

end Router

namespace World

variable {s : World} {id : InterfaceId}

/-- **What a step does to the handlers of an id that it leaves alone.** -/
theorem handlers_step (a : RouterOp) (h : Leaves id a) :
    Router.SameOrErased (s.router.endpoints id) ((s.step a).router.endpoints id) := by
  cases a with
  | createPair =>
    exact Router.sameOrErased_of_ite (Router.endpoints_createPairPendingAssociation s.router)
      (Or.inr (Router.handlersOf_getD (f := fun ep => { ep with refs := ep.refs + 1 }) _
        (fun _ => rfl) fun _ => rfl))
  | createLocalEndpointHandle j =>
    exact Router.sameOrErased_of_ite (Router.endpoints_createLocalEndpointHandle s.router j)
      (Or.inr (Router.handlersOf_getD (f := fun ep => { ep with refs := ep.refs + 1 }) _
        (fun _ => rfl) fun _ => rfl))
  | attachEndpointClient j client =>
    obtain ⟨queued, hr⟩ := Router.endpoints_attachEndpointClient s.router j client
    exact Router.sameOrErased_of_ite hr (Or.inr (Router.handlersOf_getD
      (f := fun ep => { ep with client := client, queuedMessages := queued }) _
      (fun _ => rfl) fun _ => rfl))
  | loopTurn =>
    have hsame : (s.step .loopTurn).router.endpoints = s.router.endpoints := by
      dsimp only [step, loopTurn]
      split
      · rfl
      · rfl
      · split <;> rfl
    exact Or.inr (congrArg (fun entries => Router.handlersOf (entries id)) hsame)
  | loopRefused => exact Or.inr rfl
  | detachEndpointClient j =>
    exact Router.sameOrErased_of_filter (Router.endpoints_detachEndpointClient s.router j)
      (fun _ => rfl)
      fun _ => rfl
  | closeHandle j =>
    exact Router.sameOrErased_of_filter (Router.endpoints_closeEndpoint s.router j) (fun _ => rfl)
      fun _ => rfl
  | releaseWithoutClosing j =>
    exact Router.sameOrErased_of_filter (Router.endpoints_dropEndpointHandle s.router j)
      (fun _ => rfl)
      fun _ => rfl
  | setPeerClosedHandler j handler =>
    exact Router.sameOrErased_of_ne h fun k => Router.endpoints_setEndpoint s.router j k _
  | setPeerClosedWithReasonHandler j handler =>
    exact Router.sameOrErased_of_ne h fun k => Router.endpoints_setEndpoint s.router j k _
  | notifyPeerEndpointClosed j customReason description =>
    exact Or.inr (congrArg (fun entries => Router.handlersOf (entries id))
      (Router.endpoints_send s.router _))
  | attachPrimaryClient client => exact Or.inr rfl
  | detachPrimaryClient => exact Or.inr rfl
  | accept m =>
    change Router.SameOrErased _ ((s.router.accept m).1.endpoints id)
    by_cases hcontrol : m.interfaceId = kInvalidInterfaceId
    · rw [Router.accept, if_pos hcontrol]
      dsimp only [Router.handlePipeControlMessage]
      by_cases hflush : m.name = Router.kPipeControlFlushName
      · rw [if_pos hflush]
        split
        · exact Or.inr rfl
        · exact Or.inr (congrArg (fun entries => Router.handlersOf (entries id))
            (Router.endpoints_send s.router _))
      · rw [if_neg hflush]
        split
        case h_1 => exact Or.inr rfl
        case h_2 closedId customReason description hclosed =>
          have hnotice : m.notice = some (closedId, customReason, description) := by
            rw [Incoming.notice, if_pos ⟨hcontrol, hflush⟩, hclosed]
          have hne : closedId ≠ id := h _ hnotice
          split
          · exact Router.sameOrErased_runPeerClosedHandler hne
          · exact Router.sameOrErased_runPeerClosedHandler hne
    by_cases hprimary : m.interfaceId = kPrimaryInterfaceId
    · rw [Router.accept, if_neg hcontrol, if_pos hprimary]
      exact Or.inr rfl
    exact Router.sameOrErased_accept hcontrol hprimary

theorem endpoints_ne_none (hs : s.Kept) (h : id ∈ s.handles) : s.router.endpoints id ≠ none :=
  fun hnone => not_mem_handles hs hnone h

theorem calls_ne {a : RouterOp} (h : Leaves id a) (call : ClosedCall)
    (hcall : s.calls a = some call) :
    call.id ≠ id := by
  cases a with
  | accept m =>
    obtain ⟨⟨closedId, customReason, description⟩, hnotice, hrun⟩ :=
      Option.bind_eq_some_iff.mp hcall
    have hne : closedId ≠ id := h _ hnotice
    dsimp only [Router.peerClosedCall] at hrun
    split at hrun
    · cases hrun
      exact hne
    · cases hrun
      exact hne
    · cases hrun
  | _ => cases hcall

/-- The calls of the handlers of an id. -/
def callsFor (s : World) (id : InterfaceId) (as : List RouterOp) : List ClosedCall :=
  (callsAlong s as).filter (·.id = id)

theorem callsAlong_append (s : World) (as bs : List RouterOp) :
    callsAlong s (as ++ bs) = callsAlong s as ++ callsAlong (as.foldl step s) bs := by
  induction as generalizing s with
  | nil => rfl
  | cons a as ih => rw [cons_append, callsAlong, ih, callsAlong, foldl_cons,
      List.append_assoc]

theorem callsFor_append (s : World) (id : InterfaceId) (as bs : List RouterOp) :
    s.callsFor id (as ++ bs) = s.callsFor id as ++ callsFor (as.foldl step s) id bs := by
  rw [callsFor, callsAlong_append, filter_append, callsFor, callsFor]

theorem callsFor_eq_nil (s : World) {as : List RouterOp} (h : ∀ a ∈ as, Leaves id a) :
    s.callsFor id as = [] := by
  induction as generalizing s with
  | nil => rfl
  | cons a as ih =>
    have htail := ih (s.step a) fun b hb => h b (mem_cons_of_mem a hb)
    have hhead : (s.calls a).toList.filter (·.id = id) = [] := by
      refine filter_eq_nil_iff.mpr fun call hcall => ?_
      have hne := calls_ne (h a mem_cons_self) call (Option.mem_toList.mp hcall)
      simpa using hne
    rw [callsFor, callsAlong, filter_append, hhead, nil_append]
    exact htail

/-- A handle of the id stays alive. -/
def Holds (id : InterfaceId) (s : World) (a : RouterOp) : Prop :=
  s.HasHandle a ∧ Leaves id a ∧ id ∈ (s.step a).handles

theorem handlers_along {as : List RouterOp} (h : Along step (Holds id) s as) (hs : s.Kept) :
    handlers (as.foldl step s) id = s.handlers id := by
  induction as generalizing s with
  | nil => rfl
  | cons a as ih =>
    obtain ⟨⟨hhas, hleaves, hheld⟩, hrest⟩ := h
    have hkept := step_kept hs a hhas
    have hsame := (handlers_step (s := s) a hleaves).resolve_left (endpoints_ne_none hkept hheld)
    exact (ih hrest hkept).trans hsame

end World

/-! ### One handler and one notice -/

/-- The two ways to install a handler. -/
inductive HandlerKind where
  | plain
  | withReason

def HandlerKind.install (kind : HandlerKind) (id : InterfaceId) (handler : Nat) : RouterOp :=
  match kind with
  | .plain => .setPeerClosedHandler id handler
  | .withReason => .setPeerClosedWithReasonHandler id handler

inductive ClosingOrder where
  | handlerFirst
  | noticeFirst

/-- A handler and a notice of its id, with what else happens between the two and afterwards. -/
structure Scene where
  start : World
  id : InterfaceId
  customReason : UInt32
  description : Description
  kind : HandlerKind
  handler : Nat
  order : ClosingOrder
  between : List RouterOp
  after : List RouterOp

namespace Scene

variable (x : Scene)

/-- The peer's notice. -/
def notice : Control := .closed x.id x.customReason x.description

def install : RouterOp := x.kind.install x.id x.handler

def arrival : RouterOp := .accept x.notice.incoming

def first : RouterOp :=
  match x.order with
  | .handlerFirst => x.install
  | .noticeFirst => x.arrival

def second : RouterOp :=
  match x.order with
  | .handlerFirst => x.arrival
  | .noticeFirst => x.install

def ops : List RouterOp := x.first :: x.between ++ x.second :: x.after

/-- The handler is run with the reason and the description, where it is one that is told. -/
def call : ClosedCall where
  id := x.id
  handler := x.handler
  told :=
    match x.kind with
    | .plain => none
    | .withReason => some (x.customReason, text x.description.bytes)

end Scene

/-- It is the only handler and the only notice of the id, and the id is held until both are
there. -/
structure Closing extends Scene where
  namespaceBit : Bool
  reached : Reaches (World.fresh namespaceBit) World.step World.HasHandle start
  held : id ∈ start.handles
  alone : start.handlers id = (none, none)
  between_holds : Along World.step (World.Holds id) (start.step toScene.first) between
  after_leaves : ∀ a ∈ after, World.Leaves id a

theorem notice_closed (id : InterfaceId) (customReason : UInt32) (description : Description) :
    (Control.closed id customReason description).incoming.notice =
      some (id, customReason, text description.bytes) := by
  have hcontrol : kInvalidInterfaceId = kInvalidInterfaceId ∧
      (0 : UInt32) ≠ Router.kPipeControlFlushName := ⟨rfl, by decide⟩
  have hdecode : (Control.closed id customReason description).incoming.closed =
      some (id, customReason, text description.bytes) := by
    rw [Control.incoming, decode_closed]
    rfl
  exact (if_pos hcontrol).trans hdecode

namespace World

theorem along_leaves {s : World} {id : InterfaceId} {as : List RouterOp}
    (h : Along step (Holds id) s as) : ∀ a ∈ as, Leaves id a := by
  induction as generalizing s with
  | nil => intro a ha; cases ha
  | cons a as ih =>
    intro b hb
    rcases mem_cons.mp hb with rfl | hb
    · exact h.1.2.1
    · exact ih h.2 b hb

theorem handlers_install {s : World} {id : InterfaceId} (h : s.handlers id = (none, none))
    (kind : HandlerKind) (handler : Nat) :
    handlers (s.step (kind.install id handler)) id =
      match kind with
      | .plain => (some handler, none)
      | .withReason => (none, some handler) := by
  have hfound : (s.router.findOrCreateEndpoint id).peerClosedHandler = none ∧
      (s.router.findOrCreateEndpoint id).peerClosedWithReasonHandler = none := by
    unfold handlers Router.handlersOf at h
    unfold Router.findOrCreateEndpoint
    cases hep : s.router.endpoints id with
    | none => exact ⟨rfl, rfl⟩
    | some ep =>
      rw [hep] at h
      exact ⟨congrArg Prod.fst h, congrArg Prod.snd h⟩
  cases kind with
  | plain =>
    change Router.handlersOf ((s.router.setPeerClosedHandler id handler).endpoints id) = _
    rw [Router.setPeerClosedHandler, Router.endpoints_setEndpoint, if_pos rfl]
    exact congrArg (fun o => (some handler, o)) hfound.2
  | withReason =>
    change Router.handlersOf ((s.router.setPeerClosedWithReasonHandler id handler).endpoints id) = _
    rw [Router.setPeerClosedWithReasonHandler, Router.endpoints_setEndpoint, if_pos rfl]
    exact congrArg (fun o => (o, some handler)) hfound.1

end World

namespace Closing

variable (x : Closing)

theorem kept_first : (x.start.step x.first).Kept := by
  refine World.step_kept (World.kept_of_reaches x.reached) _ ?_
  unfold Scene.first
  cases x.order with
  | noticeFirst => trivial
  | handlerFirst =>
    unfold Scene.install
    cases x.kind with
    | plain => exact x.held
    | withReason => exact x.held

theorem calls_install (s : World) : s.calls x.install = none := by
  unfold Scene.install
  cases x.kind <;> rfl

theorem calls_arrival (s : World) :
    s.calls x.arrival =
      s.router.peerClosedCall x.id x.customReason (text x.description.bytes) := by
  have hnotice : x.notice.incoming.notice = some (x.id, x.customReason, text x.description.bytes) :=
    notice_closed x.id x.customReason x.description
  exact congrArg (fun o => o.bind fun (closedId, customReason, description) =>
    s.router.peerClosedCall closedId customReason description) hnotice

theorem callsFor_ops :
    x.start.callsFor x.id x.ops =
      (x.start.calls x.first).toList.filter (·.id = x.id) ++
        (World.calls (x.between.foldl World.step (x.start.step x.first)) x.second).toList.filter
          (·.id = x.id) := by
  have hbetween := World.callsFor_eq_nil (x.start.step x.first) (World.along_leaves x.between_holds)
  have hafter := World.callsFor_eq_nil
    ((x.between.foldl World.step (x.start.step x.first)).step x.second) x.after_leaves
  have hcons : ∀ (s : World) (a : RouterOp) (as : List RouterOp), s.callsFor x.id (a :: as) =
      (s.calls a).toList.filter (·.id = x.id) ++ (s.step a).callsFor x.id as := fun s a as =>
    filter_append _ _
  have hops : x.ops = x.first :: (x.between ++ x.second :: x.after) := rfl
  rw [hops, hcons, World.callsFor_append, hbetween, nil_append, hcons, hafter, append_nil]

/-- **A handler that is there is run once, with what the notice says.** -/
theorem callsFor_handlerFirst (h : x.order = .handlerFirst) :
    x.start.callsFor x.id x.ops = [x.call] := by
  have hfirst : x.first = x.install := by rw [Scene.first, h]
  have hsecond : x.second = x.arrival := by rw [Scene.second, h]
  have hhandlers := World.handlers_along x.between_holds x.kept_first
  rw [x.callsFor_ops, hsecond, calls_arrival, hfirst, calls_install]
  rw [hfirst, Scene.install, World.handlers_install x.alone] at hhandlers
  unfold World.handlers at hhandlers
  rw [Scene.install, Router.peerClosedCall, hhandlers, Scene.call]
  have hself : ∀ told, [(⟨x.id, x.handler, told⟩ : ClosedCall)].filter (·.id = x.id) =
      [⟨x.id, x.handler, told⟩] := fun told => filter_cons_of_pos (decide_eq_true rfl)
  cases x.kind with
  | plain => exact hself _
  | withReason => exact hself _

/-- **A handler that comes too late is not run.** -/
theorem callsFor_noticeFirst (h : x.order = .noticeFirst) :
    x.start.callsFor x.id x.ops = [] := by
  have hfirst : x.first = x.arrival := by rw [Scene.first, h]
  have hsecond : x.second = x.install := by rw [Scene.second, h]
  have halone : Router.handlersOf (x.start.router.endpoints x.id) = (none, none) := x.alone
  rw [x.callsFor_ops, hsecond, calls_install, hfirst, calls_arrival, Router.peerClosedCall, halone]
  rfl

end Closing

/-! ### Other payloads -/

theorem accept_not_parses (c : Control) (h : ¬ c.payload.Parses)
    (hfits : SumFits 12 c.payload.descriptionLength c.payload.bytes.length) (r : Router) :
    (r.accept c.incoming).1.endpoints = r.endpoints ∧
      (c.name ≠ Router.kPipeControlFlushName → (r.accept c.incoming).1 = r.raiseError) := by
  have haccept : (r.accept c.incoming).1 = r.handlePipeControlMessage c.incoming := by
    have hcontrol : c.incoming.interfaceId = kInvalidInterfaceId := rfl
    rw [Router.accept, if_pos hcontrol]
  have hclosed : c.incoming.closed = none := by
    rw [Control.incoming, Payload.decode_eq_none_of_not_parses _ h hfits]
    rfl
  rw [haccept, Router.handlePipeControlMessage, hclosed]
  by_cases hflush : c.name = Router.kPipeControlFlushName
  · have hname : c.incoming.name = Router.kPipeControlFlushName := hflush
    rw [if_pos hname]
    exact ⟨Router.endpoints_send r _, fun hne => absurd hflush hne⟩
  · have hname : ¬ c.incoming.name = Router.kPipeControlFlushName := hflush
    rw [if_neg hname]
    exact ⟨rfl, fun _ => rfl⟩

/-- **Close notices.**  The peer reads the id, the reason and the description that were written, and
runs the handler of the id once with them if it is there when the notice arrives, and not at all
if it comes later.  A payload that parses is read.  One that ends before its id or before the reason
and the description behind the id, with no sum that wraps around, is refused, and no endpoint is
touched. -/
theorem closeNotices_delivered (x : Closing) (c : Control) :
    x.notice.payload.decode = some (x.id, x.customReason, x.description.bytes) ∧
      (x.order = .handlerFirst → x.start.callsFor x.id x.ops = [x.call]) ∧
      (x.order = .noticeFirst → x.start.callsFor x.id x.ops = []) ∧
      (c.payload.Parses → c.payload.decode ≠ none) ∧
      (¬ c.payload.Parses → SumFits 12 c.payload.descriptionLength c.payload.bytes.length →
        ∀ r : Router, (r.accept c.incoming).1.endpoints = r.endpoints ∧
          (c.name ≠ Router.kPipeControlFlushName → (r.accept c.incoming).1 = r.raiseError)) :=
  ⟨decode_closed x.id x.customReason x.description, x.callsFor_handlerFirst,
    x.callsFor_noticeFirst, c.payload.decode_ne_none_of_parses, accept_not_parses c⟩

/-- One endpoint with a handle. -/
def heldWorld : World := (World.fresh false).step (.createLocalEndpointHandle 5)

/-- A handler that is installed when the notice has arrived. -/
def lateHandler : Closing where
  start := heldWorld
  id := 5
  customReason := 7
  description := ⟨[], by decide⟩
  kind := .withReason
  handler := 1
  order := .noticeFirst
  between := []
  after := []
  namespaceBit := false
  reached := .step (RouterOp.createLocalEndpointHandle 5) .start trivial
  held := List.mem_singleton.mpr rfl
  alone := rfl
  between_holds := trivial
  after_leaves := fun a ha => nomatch ha

/-- The id with a reason of zero and an empty description written out. -/
def zeroReason : Control where
  name := 0
  payload :=
    { base := headerSize
      bytes := [5, 0, 0, 0, 0, 0, 0, 0, 0, 0, 0, 0]
      behind := le_rfl
      fits := by decide }

/-- The same handler, installed before the notice arrives. -/
def earlyHandler : Closing :=
  { lateHandler with
    order := .handlerFirst
    between_holds := trivial }

/-- A message without a payload. -/
def emptyControl : Control where
  name := 0
  payload :=
    { base := headerSize
      bytes := []
      behind := le_rfl
      fits := by decide }

theorem earlyHandler_run :
    earlyHandler.start.callsFor 5 earlyHandler.ops = [earlyHandler.call] ∧
      (({} : Router).accept emptyControl.incoming).1 = ({} : Router).raiseError := by
  obtain ⟨-, hearly, -, -, hrefused⟩ := closeNotices_delivered earlyHandler emptyControl
  exact ⟨hearly rfl, (hrefused (by decide +kernel) (by decide +kernel) {}).2 (by decide)⟩

/-- The late handler is not run, and a handler is run for a message that
`NotifyPeerEndpointClosed` never builds. -/
theorem lateHandler_not_run :
    lateHandler.start.callsFor 5 lateHandler.ops ≠ [lateHandler.call] ∧
      (∀ id customReason description,
        zeroReason.payload.bytes ≠ (Control.closed id customReason description).payload.bytes) ∧
      (heldWorld.step (.setPeerClosedWithReasonHandler 5 1)).calls
        (.accept zeroReason.incoming) = some ⟨5, 1, some (0, "")⟩ := by
  have hcalls : lateHandler.start.callsFor 5 lateHandler.ops = [] := by decide +kernel
  refine ⟨?_, ?_, by decide +kernel⟩
  · rw [hcalls]
    exact (cons_ne_nil _ _).symm
  · intro id customReason description hbytes
    have hpayload : zeroReason.payload =
        (Control.closed id customReason description).payload := by
      have hsame : ∀ p q : Payload, p.base = q.base → p.bytes = q.bytes → p = q := by
        rintro ⟨base, bytes, _, _⟩ ⟨_, _, _, _⟩ rfl rfl
        rfl
      exact hsame _ _ rfl hbytes
    have hread : zeroReason.payload.decode = some (5, 0, []) := by decide +kernel
    rw [hpayload, decode_closed] at hread
    have hreason : customReason = 0 := congrArg (fun read => read.2.1) (Option.some.inj hread)
    have hdescription : description.bytes = [] :=
      congrArg (fun read => read.2.2) (Option.some.inj hread)
    have hlength := congrArg List.length hbytes
    have hshort : (Control.closed id customReason description).payload.bytes.length = 4 := by
      refine (length_noticeBytes id customReason description.bytes).trans (if_neg ?_)
      rw [hreason, hdescription]
      decide
    rw [hshort] at hlength
    exact absurd hlength (by decide)

end Voodoo.Bindings
