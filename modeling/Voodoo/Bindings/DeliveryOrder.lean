import Voodoo.Bindings.Endpoints

/-!
# The order of delivery

What has arrived for an interface id is, in this order, what its clients were
handed, what a loop of `AttachEndpointClient` has still to hand over and what
waits in the entry.  Each step keeps that as long as nothing overtakes a loop.

The loop has taken the waiting messages out of the entry before it hands over
the first.  From then on a message that arrives finds a client and an empty
queue and is handed over at once, before the rest of the loop; and a loop that
stops loses what it had.  `Orderly` says which steps do neither
(`delivered_of_reaches`).
-/

namespace Voodoo.Bindings

open List

/-! ### What an entry holds -/

def attachedOf (o : Option Endpoint) : Option Receiver := o.bind (·.client)

def waitingOf (o : Option Endpoint) : List Incoming := (o.map (·.queuedMessages)).getD []

/-- `e` keeps the messages that wait in `o` and has no client of its own. -/
structure Keeps (o e : Option Endpoint) : Prop where
  waiting : waitingOf e = waitingOf o
  attached : attachedOf e = none ∨ attachedOf e = attachedOf o

namespace Keeps

variable {o e : Option Endpoint}

theorem refl (o : Option Endpoint) : Keeps o o := ⟨rfl, Or.inr rfl⟩

theorem filter_needed (h : Keeps o e) : Keeps o (e.filter (fun ep => decide ep.Needed)) := by
  cases e with
  | none => exact h
  | some ep =>
    by_cases hneeded : ep.Needed
    · rw [Option.filter_some, decide_eq_true hneeded]
      exact h
    · rw [Option.filter_some, decide_eq_false hneeded]
      have hqueue : ep.queuedMessages = [] := by
        by_contra hne
        exact hneeded (Or.inr (Or.inr hne))
      have hwaiting := h.waiting
      exact ⟨hqueue.symm.trans hwaiting, Or.inl rfl⟩

theorem created (refs : Nat) : Keeps o (some { o.getD {} with refs }) := by
  cases o with
  | none => exact ⟨rfl, Or.inr rfl⟩
  | some ep => exact ⟨rfl, Or.inr rfl⟩

theorem cleared : Keeps o (o.map (fun ep => { ep with client := none })) := by
  cases o with
  | none => exact refl none
  | some ep => exact ⟨rfl, Or.inl rfl⟩

theorem dropped : Keeps o (o.map (fun ep => { ep with refs := ep.refs - 1 })) := by
  cases o with
  | none => exact refl none
  | some ep => exact ⟨rfl, Or.inr rfl⟩

theorem closed : Keeps o (o.map (fun ep => { ep with client := none, refs := ep.refs - 1 })) := by
  cases o with
  | none => exact refl none
  | some ep => exact ⟨rfl, Or.inl rfl⟩

theorem handlers (handler withReason : Option Nat) :
    Keeps o (o.map (fun ep =>
      { ep with peerClosedHandler := handler, peerClosedWithReasonHandler := withReason })) := by
  cases o with
  | none => exact refl none
  | some ep => exact ⟨rfl, Or.inr rfl⟩

theorem handler (handler : Option Nat) :
    Keeps o (some { o.getD {} with peerClosedHandler := handler }) := by
  cases o with
  | none => exact ⟨rfl, Or.inr rfl⟩
  | some ep => exact ⟨rfl, Or.inr rfl⟩

theorem handlerWithReason (handler : Option Nat) :
    Keeps o (some { o.getD {} with peerClosedWithReasonHandler := handler }) := by
  cases o with
  | none => exact ⟨rfl, Or.inr rfl⟩
  | some ep => exact ⟨rfl, Or.inr rfl⟩

end Keeps

/-! ### What a run has done with the messages for an id -/

/-- The messages for `id`. -/
def forId (id : InterfaceId) (ms : List Incoming) : List Incoming :=
  ms.filter (fun m => decide (m.interfaceId = id))

theorem forId_append (id : InterfaceId) (ms ns : List Incoming) :
    forId id (ms ++ ns) = forId id ms ++ forId id ns :=
  filter_append ms ns

theorem forId_singleton {id : InterfaceId} {m : Incoming} (h : m.interfaceId = id) :
    forId id [m] = [m] := by
  simp [forId, h]

theorem forId_singleton_of_ne {id : InterfaceId} {m : Incoming} (h : m.interfaceId ≠ id) :
    forId id [m] = [] := by
  simp [forId, h]

/-- The operations that move messages. -/
def RouterOp.Moves : RouterOp → Prop
  | .attachEndpointClient _ _ | .loopTurn | .loopRefused | .accept _ => True
  | _ => False

/-- What `loops` have still to hand over for `id`, the innermost first. -/
def underwayIn (id : InterfaceId) (loops : List (InterfaceId × List Incoming)) : List Incoming :=
  (loops.filter (fun l => decide (l.1 = id))).flatMap (·.2)

@[simp] theorem underwayIn_cons_self (id : InterfaceId) (ms : List Incoming)
    (loops : List (InterfaceId × List Incoming)) :
    underwayIn id ((id, ms) :: loops) = ms ++ underwayIn id loops := by
  simp [underwayIn]

theorem underwayIn_cons_of_ne {id j : InterfaceId} (h : id ≠ j) (ms : List Incoming)
    (loops : List (InterfaceId × List Incoming)) :
    underwayIn id ((j, ms) :: loops) = underwayIn id loops := by
  simp [underwayIn, Ne.symm h]

theorem underwayIn_cons_nil (id j : InterfaceId) (loops : List (InterfaceId × List Incoming)) :
    underwayIn id ((j, []) :: loops) = underwayIn id loops := by
  by_cases h : id = j
  · rw [h, underwayIn_cons_self, nil_append]
  · exact underwayIn_cons_of_ne h [] loops

namespace World

variable (s t : World) (id : InterfaceId)

def arrivedFor : List Incoming := forId id s.arrived

def handedFor : List Incoming := forId id (s.handed.map (·.2))

def underway : List Incoming := underwayIn id s.loops

def waiting : List Incoming := waitingOf (s.router.endpoints id)

/-- The client that is handed the messages for `id`. -/
def clientOf : Option Receiver :=
  if id = kPrimaryInterfaceId then s.router.primaryClient else attachedOf (s.router.endpoints id)

/-- The messages for `id` have been handed over in the order of their arrival, each once, and with a
client and no loop in progress all of them have. -/
def Delivered : Prop :=
  s.handedFor id <+: s.arrivedFor id ∧
    (s.clientOf id ≠ none → s.underway id = [] → s.handedFor id = s.arrivedFor id)

/-- The steps that neither overtake a loop for `id` nor stop it. -/
def Orderly : RouterOp → Prop
  | .accept m => m.interfaceId = id →
      if id = kPrimaryInterfaceId then s.router.primaryClient ≠ none
      else s.clientOf id = none ∨ s.underway id = []
  | .attachEndpointClient j client => j = id →
      client = none ∨ s.waiting id = [] ∨ s.underway id = []
  | .loopTurn => ∀ m rest loops, s.loops = (id, m :: rest) :: loops → s.clientOf id ≠ none
  | .loopRefused => ∀ rest loops, s.loops = (id, rest) :: loops → rest = []
  -- The loop has a reference to the entry, which must not be erased under it.
  | .detachEndpointClient j => j = id → s.underway id = [] ∨ id ∈ s.handles
  | .closeHandle j | .releaseWithoutClosing j => j = id →
      s.underway id = [] ∨ 1 < s.handles.count id
  | _ => True

/-- Nothing is lost and nothing overtakes. -/
structure InOrder : Prop where
  conserved : s.handedFor id ++ s.underway id ++ s.waiting id = s.arrivedFor id
  /-- Messages wait only where no client is attached. -/
  idle : attachedOf (s.router.endpoints id) ≠ none → s.waiting id = []
  /-- The primary interface has no queue. -/
  primary : id = kPrimaryInterfaceId → s.waiting id = [] ∧ s.underway id = []

/-- The step does nothing to the messages for `id`. -/
structure Calm : Prop where
  keeps : Keeps (s.router.endpoints id) (t.router.endpoints id)
  underway : t.underway id = s.underway id
  handed : t.handedFor id = s.handedFor id
  arrived : t.arrivedFor id = s.arrivedFor id

variable {s t : World} {id : InterfaceId}

theorem InOrder.calm (h : s.InOrder id) (hc : s.Calm t id) : t.InOrder id := by
  have hwaiting : t.waiting id = s.waiting id := hc.keeps.waiting
  refine ⟨?_, fun hclient => ?_, fun hid => ?_⟩
  · rw [hc.handed, hc.underway, hwaiting, hc.arrived]
    exact h.conserved
  · rw [hwaiting]
    rcases hc.keeps.attached with hnone | hsame
    · exact absurd hnone hclient
    · exact h.idle (hsame ▸ hclient)
  · rw [hwaiting, hc.underway]
    exact h.primary hid

theorem Calm.mem_iff (hc : s.Calm t id) {m : Incoming} :
    m ∈ t.underway id ++ t.waiting id ↔ m ∈ s.underway id ++ s.waiting id := by
  have hwaiting : t.waiting id = s.waiting id := hc.keeps.waiting
  rw [hc.underway, hwaiting]

theorem InOrder.delivered (h : s.InOrder id) : s.Delivered id := by
  have hconserved := h.conserved
  refine ⟨⟨s.underway id ++ s.waiting id, ?_⟩, fun hclient hunderway => ?_⟩
  · rw [← List.append_assoc]
    exact hconserved
  · have hwaiting : s.waiting id = [] := by
      by_cases hid : id = kPrimaryInterfaceId
      · exact (h.primary hid).1
      · rw [clientOf, if_neg hid] at hclient
        exact h.idle hclient
    rwa [hunderway, hwaiting, append_nil, append_nil] at hconserved

/-! ### Steps that leave the messages alone -/

theorem calm_of_changed {r : Router} {j : InterfaceId} {e : Option Endpoint}
    (hr : ∀ i, r.endpoints i = if i = j then e else s.router.endpoints i)
    (he : Keeps (s.router.endpoints j) e) (ht : t.router = r)
    (hloops : t.loops = s.loops) (hhanded : t.handed = s.handed) (harrived : t.arrived = s.arrived) :
    s.Calm t id where
  keeps := by
    rw [ht, hr id]
    split
    case isTrue hid => rwa [hid]
    case isFalse => exact Keeps.refl _
  underway := by rw [World.underway, hloops, World.underway]
  handed := by rw [handedFor, hhanded, handedFor]
  arrived := by rw [arrivedFor, harrived, arrivedFor]

theorem calm_of_entry (hr : t.router.endpoints id = s.router.endpoints id)
    (hunderway : t.underway id = s.underway id) (hhanded : t.handedFor id = s.handedFor id)
    (harrived : t.arrivedFor id = s.arrivedFor id) : s.Calm t id where
  keeps := by
    rw [hr]
    exact Keeps.refl _
  underway := hunderway
  handed := hhanded
  arrived := harrived

theorem calm_step {a : RouterOp} (ha : ¬ a.Moves) : s.Calm (s.step a) id := by
  cases a with
  | createPair =>
    exact calm_of_changed (Router.endpoints_createPairPendingAssociation s.router)
      (Keeps.created _) rfl rfl rfl rfl
  | createLocalEndpointHandle j =>
    exact calm_of_changed (Router.endpoints_createLocalEndpointHandle s.router j)
      (Keeps.created _) rfl rfl rfl rfl
  | detachEndpointClient j =>
    exact calm_of_changed (Router.endpoints_detachEndpointClient s.router j)
      Keeps.cleared.filter_needed rfl rfl rfl rfl
  | closeHandle j =>
    exact calm_of_changed (Router.endpoints_closeEndpoint s.router j)
      Keeps.closed.filter_needed rfl rfl rfl rfl
  | releaseWithoutClosing j =>
    exact calm_of_changed (Router.endpoints_dropEndpointHandle s.router j)
      Keeps.dropped.filter_needed rfl rfl rfl rfl
  | setPeerClosedHandler j handler =>
    exact calm_of_changed (fun i => Router.endpoints_setEndpoint s.router j i _)
      (Keeps.handler _) rfl rfl rfl rfl
  | setPeerClosedWithReasonHandler j handler =>
    exact calm_of_changed (fun i => Router.endpoints_setEndpoint s.router j i _)
      (Keeps.handlerWithReason _) rfl rfl rfl rfl
  | notifyPeerEndpointClosed j customReason description =>
    exact calm_of_entry (congrFun (Router.endpoints_send s.router _) id) rfl rfl rfl
  | attachPrimaryClient client => exact calm_of_entry rfl rfl rfl rfl
  | detachPrimaryClient => exact calm_of_entry rfl rfl rfl rfl
  | attachEndpointClient j client => exact absurd trivial ha
  | loopTurn => exact absurd trivial ha
  | loopRefused => exact absurd trivial ha
  | accept m => exact absurd trivial ha

/-! ### Attaching -/

theorem queuedMessages_findOrCreateEndpoint (r : Router) (id : InterfaceId) :
    (r.findOrCreateEndpoint id).queuedMessages = waitingOf (r.endpoints id) := by
  unfold Router.findOrCreateEndpoint
  cases r.endpoints id with
  | none => rfl
  | some ep => rfl

theorem client_findOrCreateEndpoint (r : Router) (id : InterfaceId) :
    (r.findOrCreateEndpoint id).client = attachedOf (r.endpoints id) := by
  unfold Router.findOrCreateEndpoint
  cases r.endpoints id with
  | none => rfl
  | some ep => rfl

theorem step_attach_of_idle {j : InterfaceId} {client : Option Receiver}
    (h : s.waiting j = [] ∨ client = none) :
    s.step (.attachEndpointClient j client) = { s with
      router := s.router.setEndpoint j { s.router.findOrCreateEndpoint j with client } } := by
  have hqueue : (s.router.findOrCreateEndpoint j).queuedMessages = [] ∨ client = none := by
    rw [queuedMessages_findOrCreateEndpoint]
    exact h
  have hattach : s.router.attachEndpointClient j client =
      (s.router.setEndpoint j { s.router.findOrCreateEndpoint j with client }, []) :=
    if_pos hqueue
  simp only [step, hattach, if_true]

theorem step_attach_of_waiting {j : InterfaceId} {client : Option Receiver}
    (h : ¬ (s.waiting j = [] ∨ client = none)) :
    s.step (.attachEndpointClient j client) = { s with
      router := s.router.setEndpoint j
        { s.router.findOrCreateEndpoint j with client, queuedMessages := [] }
      loops := (j, s.waiting j) :: s.loops } := by
  have hqueue : ¬ ((s.router.findOrCreateEndpoint j).queuedMessages = [] ∨ client = none) := by
    rw [queuedMessages_findOrCreateEndpoint]
    exact h
  have hattach : s.router.attachEndpointClient j client =
      (s.router.setEndpoint j
        { s.router.findOrCreateEndpoint j with client, queuedMessages := [] }, s.waiting j) :=
    (if_neg hqueue).trans (by rw [queuedMessages_findOrCreateEndpoint]; rfl)
  have hne : s.waiting j ≠ [] := fun hnil => h (Or.inl hnil)
  simp only [step, hattach, if_neg hne]

theorem endpoints_setEndpoint_of_ne {j : InterfaceId} (hid : id ≠ j) (r : Router) (ep : Endpoint) :
    (r.setEndpoint j ep).endpoints id = r.endpoints id := by
  rw [Router.endpoints_setEndpoint, if_neg hid]

theorem endpoints_setEndpoint_self (r : Router) (ep : Endpoint) :
    (r.setEndpoint id ep).endpoints id = some ep := by
  rw [Router.endpoints_setEndpoint, if_pos rfl]

theorem calm_attach_of_ne {j : InterfaceId} (hid : id ≠ j) (client : Option Receiver) :
    s.Calm (s.step (.attachEndpointClient j client)) id := by
  by_cases hidle : s.waiting j = [] ∨ client = none
  · rw [step_attach_of_idle hidle]
    exact calm_of_entry (endpoints_setEndpoint_of_ne hid _ _) rfl rfl rfl
  · rw [step_attach_of_waiting hidle]
    exact calm_of_entry (endpoints_setEndpoint_of_ne hid _ _) (underwayIn_cons_of_ne hid _ _)
      rfl rfl

theorem waiting_attach_of_idle {client : Option Receiver} (h : s.waiting id = [] ∨ client = none) :
    (s.step (.attachEndpointClient id client)).waiting id = s.waiting id := by
  rw [step_attach_of_idle h]
  exact (congrArg waitingOf (endpoints_setEndpoint_self s.router _)).trans
    (queuedMessages_findOrCreateEndpoint s.router id)

theorem underway_attach_of_idle {client : Option Receiver} (h : s.waiting id = [] ∨ client = none) :
    (s.step (.attachEndpointClient id client)).underway id = s.underway id := by
  rw [step_attach_of_idle h]
  rfl

theorem waiting_attach_of_waiting {client : Option Receiver}
    (h : ¬ (s.waiting id = [] ∨ client = none)) :
    (s.step (.attachEndpointClient id client)).waiting id = [] := by
  rw [step_attach_of_waiting h]
  exact congrArg waitingOf (endpoints_setEndpoint_self s.router _)

theorem underway_attach_of_waiting {client : Option Receiver}
    (h : ¬ (s.waiting id = [] ∨ client = none)) :
    (s.step (.attachEndpointClient id client)).underway id = s.waiting id ++ s.underway id := by
  rw [step_attach_of_waiting h]
  exact underwayIn_cons_self id (s.waiting id) s.loops

theorem attachedOf_attach (client : Option Receiver) :
    attachedOf ((s.step (.attachEndpointClient id client)).router.endpoints id) = client := by
  by_cases hidle : s.waiting id = [] ∨ client = none
  · rw [step_attach_of_idle hidle]
    exact congrArg attachedOf (endpoints_setEndpoint_self s.router _)
  · rw [step_attach_of_waiting hidle]
    exact congrArg attachedOf (endpoints_setEndpoint_self s.router _)

theorem inOrder_attach (hs : s.InOrder id) {j : InterfaceId} {client : Option Receiver}
    (ha : s.Orderly id (.attachEndpointClient j client)) :
    (s.step (.attachEndpointClient j client)).InOrder id := by
  by_cases hid : id = j
  swap
  · exact hs.calm (calm_attach_of_ne hid client)
  subst hid
  by_cases hidle : s.waiting id = [] ∨ client = none
  · refine ⟨?_, fun hclient => ?_, fun hprimary => ?_⟩
    · rw [waiting_attach_of_idle hidle, underway_attach_of_idle hidle]
      exact hs.conserved
    · rw [attachedOf_attach] at hclient
      rw [waiting_attach_of_idle hidle]
      exact hidle.resolve_right hclient
    · rw [waiting_attach_of_idle hidle, underway_attach_of_idle hidle]
      exact hs.primary hprimary
  · obtain ⟨hne, hclient⟩ := not_or.mp hidle
    have hunderway : s.underway id = [] := ((ha rfl).resolve_left hclient).resolve_left hne
    have hconserved := hs.conserved
    rw [hunderway, append_nil] at hconserved
    refine ⟨?_, fun _ => waiting_attach_of_waiting hidle,
      fun hprimary => absurd (hs.primary hprimary).1 hne⟩
    rw [waiting_attach_of_waiting hidle, underway_attach_of_waiting hidle, hunderway,
      append_nil, append_nil]
    exact hconserved

/-! ### The loop -/

/-- Every message that waits or is underway is for its id. -/
def Addressed (s : World) : Prop :=
  ∀ id, ∀ m ∈ s.underway id ++ s.waiting id, m.interfaceId = id

theorem forId_handed (client : Receiver) {m : Incoming} (hm : m.interfaceId = id) :
    forId id ((s.handed ++ [(client, m)]).map (·.2)) = s.handedFor id ++ [m] := by
  rw [map_append, forId_append]
  exact congrArg _ (forId_singleton hm)

theorem forId_handed_of_ne (client : Receiver) {m : Incoming} (hm : m.interfaceId ≠ id) :
    forId id ((s.handed ++ [(client, m)]).map (·.2)) = s.handedFor id := by
  rw [map_append, forId_append]
  exact (congrArg _ (forId_singleton_of_ne hm)).trans (append_nil _)

theorem inOrder_loopTurn (hs : s.InOrder id) (haddressed : s.Addressed)
    (ha : s.Orderly id .loopTurn) : (s.step .loopTurn).InOrder id := by
  dsimp only [step, loopTurn]
  split
  case h_1 => exact hs
  case h_2 j loops hloops =>
    refine hs.calm (calm_of_entry rfl ?_ rfl rfl)
    rw [underway, underway, hloops, underwayIn_cons_nil]
  case h_3 j m rest loops hloops =>
    split
    case h_1 hclient =>
      have hid : id ≠ j := by
        rintro rfl
        have hprimary : id ≠ kPrimaryInterfaceId := by
          intro hprimary
          have hunderway := (hs.primary hprimary).2
          rw [underway, hloops, underwayIn_cons_self] at hunderway
          cases hunderway
        refine ha m rest loops hloops ?_
        rw [clientOf, if_neg hprimary]
        exact hclient
      refine hs.calm (calm_of_entry rfl ?_ rfl rfl)
      rw [underway, underway, hloops, underwayIn_cons_of_ne hid]
    case h_2 client hclient =>
      have hm : m.interfaceId = j := by
        refine haddressed j m (mem_append_left _ ?_)
        rw [underway, hloops, underwayIn_cons_self]
        exact mem_append_left _ mem_cons_self
      by_cases hid : id = j
      · subst hid
        have hconserved := hs.conserved
        rw [underway, hloops, underwayIn_cons_self] at hconserved
        refine ⟨?_, hs.idle, fun hprimary => ?_⟩
        · rw [handedFor, forId_handed client hm, underway, underwayIn_cons_self]
          rw [cons_append] at hconserved
          rw [List.append_assoc (s.handedFor id) [m], singleton_append]
          exact hconserved
        · have hunderway := (hs.primary hprimary).2
          rw [underway, hloops, underwayIn_cons_self] at hunderway
          cases hunderway
      · refine hs.calm (calm_of_entry rfl ?_ ?_ rfl)
        · rw [underway, underway, hloops, underwayIn_cons_of_ne hid, underwayIn_cons_of_ne hid]
        · exact forId_handed_of_ne client fun h => hid (h.symm.trans hm)

theorem inOrder_loopRefused (hs : s.InOrder id) (ha : s.Orderly id .loopRefused) :
    (s.step .loopRefused).InOrder id := by
  refine hs.calm (calm_of_entry rfl ?_ rfl rfl)
  dsimp only [step, underway]
  cases hloops : s.loops with
  | nil => rfl
  | cons loop loops =>
    obtain ⟨j, rest⟩ := loop
    rw [tail_cons]
    by_cases hid : id = j
    · subst hid
      rw [ha rest loops hloops, underwayIn_cons_nil]
    · exact (underwayIn_cons_of_ne hid rest loops).symm

/-! ### Arrivals -/

theorem keeps_accept_of_control (r : Router) {m : Incoming}
    (hcontrol : m.interfaceId = kInvalidInterfaceId) :
    Keeps (r.endpoints id) ((r.accept m).1.endpoints id) := by
  rw [Router.accept, if_pos hcontrol]
  rcases Router.endpoints_handlePipeControlMessage r m with h | ⟨j, handler, withReason, h⟩
  · rw [h]
    exact Keeps.refl _
  · rw [h id]
    split
    case isTrue hid =>
      rw [hid]
      exact Keeps.handlers handler withReason
    case isFalse => exact Keeps.refl _

theorem keeps_accept_of_primary (r : Router) {m : Incoming}
    (hcontrol : m.interfaceId ≠ kInvalidInterfaceId)
    (hprimary : m.interfaceId = kPrimaryInterfaceId) :
    Keeps (r.endpoints id) ((r.accept m).1.endpoints id) := by
  rw [Router.accept, if_neg hcontrol, if_pos hprimary]
  exact Keeps.refl _

theorem keeps_accept_of_ne (r : Router) {m : Incoming} (hm : m.interfaceId ≠ id) :
    Keeps (r.endpoints id) ((r.accept m).1.endpoints id) := by
  by_cases hcontrol : m.interfaceId = kInvalidInterfaceId
  · exact keeps_accept_of_control r hcontrol
  by_cases hprimary : m.interfaceId = kPrimaryInterfaceId
  · exact keeps_accept_of_primary r hcontrol hprimary
  rw [Router.accept, if_neg hcontrol, if_neg hprimary]
  dsimp only
  split
  all_goals
    rw [endpoints_setEndpoint_of_ne (Ne.symm hm)]
    exact Keeps.refl _

theorem calm_accept_of_ne {m : Incoming} (hm : m.interfaceId ≠ id) :
    s.Calm (s.step (.accept m)) id where
  keeps := keeps_accept_of_ne s.router hm
  underway := rfl
  handed := by
    dsimp only [step]
    cases (s.router.accept m).2 with
    | none => exact congrArg (fun l => forId id (l.map (·.2))) (append_nil s.handed)
    | some client => exact forId_handed_of_ne client hm
  arrived := by
    dsimp only [step, arrivedFor]
    rw [forId_append, forId_singleton_of_ne hm, append_nil]

theorem accept_of_attached (r : Router) {m : Incoming} {client : Receiver}
    (hcontrol : m.interfaceId ≠ kInvalidInterfaceId) (hprimary : m.interfaceId ≠ kPrimaryInterfaceId)
    (hclient : attachedOf (r.endpoints m.interfaceId) = some client) :
    r.accept m = (r.setEndpoint m.interfaceId (r.findOrCreateEndpoint m.interfaceId),
      some client) := by
  rw [← client_findOrCreateEndpoint] at hclient
  rw [Router.accept, if_neg hcontrol, if_neg hprimary]
  dsimp only
  rw [hclient]

theorem accept_of_detached (r : Router) {m : Incoming}
    (hcontrol : m.interfaceId ≠ kInvalidInterfaceId) (hprimary : m.interfaceId ≠ kPrimaryInterfaceId)
    (hclient : attachedOf (r.endpoints m.interfaceId) = none) :
    r.accept m = (r.setEndpoint m.interfaceId { r.findOrCreateEndpoint m.interfaceId with
      queuedMessages := (r.findOrCreateEndpoint m.interfaceId).queuedMessages ++ [m] }, none) := by
  rw [← client_findOrCreateEndpoint] at hclient
  rw [Router.accept, if_neg hcontrol, if_neg hprimary]
  dsimp only
  rw [hclient]

theorem inOrder_accept (hs : s.InOrder id) (hid : id ≠ kInvalidInterfaceId) {m : Incoming}
    (ha : s.Orderly id (.accept m)) : (s.step (.accept m)).InOrder id := by
  by_cases hm : m.interfaceId = id
  swap
  · exact hs.calm (calm_accept_of_ne hm)
  subst hm
  have horderly := ha rfl
  have harrived : forId m.interfaceId (s.arrived ++ [m]) = s.arrivedFor m.interfaceId ++ [m] := by
    rw [forId_append, forId_singleton rfl]
    rfl
  have hconserved := hs.conserved
  by_cases hprimary : m.interfaceId = kPrimaryInterfaceId
  · rw [if_pos hprimary] at horderly
    obtain ⟨client, hclient⟩ := Option.ne_none_iff_exists'.mp horderly
    have haccept : s.router.accept m = (s.router, some client) := by
      rw [Router.accept, if_neg hid, if_pos hprimary, hclient]
    obtain ⟨hwaiting, hunderway⟩ := hs.primary hprimary
    rw [hwaiting, hunderway, append_nil, append_nil] at hconserved
    dsimp only [step]
    rw [haccept]
    refine ⟨?_, hs.idle, hs.primary⟩
    change forId m.interfaceId ((s.handed ++ [(client, m)]).map (·.2)) ++ s.underway m.interfaceId ++
      s.waiting m.interfaceId = forId m.interfaceId (s.arrived ++ [m])
    rw [forId_handed client rfl, harrived, hunderway, hwaiting, append_nil, append_nil,
      hconserved]
  rw [if_neg hprimary, clientOf, if_neg hprimary] at horderly
  cases hclient : attachedOf (s.router.endpoints m.interfaceId) with
  | some client =>
    have hunderway : s.underway m.interfaceId = [] := by
      refine horderly.resolve_left ?_
      rw [hclient]
      exact Option.some_ne_none client
    have hwaiting : s.waiting m.interfaceId = [] := by
      refine hs.idle ?_
      rw [hclient]
      exact Option.some_ne_none client
    dsimp only [step]
    rw [accept_of_attached s.router hid hprimary hclient]
    have hqueue : waitingOf ((s.router.setEndpoint m.interfaceId
        (s.router.findOrCreateEndpoint m.interfaceId)).endpoints m.interfaceId) = [] := by
      rw [endpoints_setEndpoint_self]
      exact (queuedMessages_findOrCreateEndpoint s.router m.interfaceId).trans hwaiting
    refine ⟨?_, fun _ => hqueue, fun h => absurd h hprimary⟩
    change forId m.interfaceId ((s.handed ++ [(client, m)]).map (·.2)) ++ s.underway m.interfaceId ++
      waitingOf ((s.router.setEndpoint m.interfaceId
        (s.router.findOrCreateEndpoint m.interfaceId)).endpoints m.interfaceId) =
      forId m.interfaceId (s.arrived ++ [m])
    rw [hwaiting, hunderway, append_nil, append_nil] at hconserved
    rw [forId_handed client rfl, harrived, hunderway, hqueue, append_nil, append_nil,
      hconserved]
  | none =>
    dsimp only [step]
    rw [accept_of_detached s.router hid hprimary hclient]
    have hqueue : waitingOf ((s.router.setEndpoint m.interfaceId
        { s.router.findOrCreateEndpoint m.interfaceId with
          queuedMessages := (s.router.findOrCreateEndpoint m.interfaceId).queuedMessages ++
            [m] }).endpoints m.interfaceId) = s.waiting m.interfaceId ++ [m] := by
      rw [endpoints_setEndpoint_self, queuedMessages_findOrCreateEndpoint]
      rfl
    refine ⟨?_, fun h => absurd ?_ h, fun h => absurd h hprimary⟩
    · change forId m.interfaceId ((s.handed ++ []).map Prod.snd) ++ s.underway m.interfaceId ++
        waitingOf _ = forId m.interfaceId (s.arrived ++ [m])
      rw [hqueue, harrived, append_nil, ← List.append_assoc, ← hconserved]
      rfl
    · rw [endpoints_setEndpoint_self]
      exact (client_findOrCreateEndpoint s.router m.interfaceId).trans hclient

/-! ### Messages and their ids -/

theorem addressed_of {s t : World} (hs : s.Addressed)
    (h : ∀ id, ∀ m ∈ t.underway id ++ t.waiting id,
      m ∈ s.underway id ++ s.waiting id ∨ m.interfaceId = id) : t.Addressed :=
  fun id m hm => (h id m hm).elim (hs id m) (fun hid => hid)

theorem addressed_attach (hs : s.Addressed) (j : InterfaceId) (client : Option Receiver) :
    (s.step (.attachEndpointClient j client)).Addressed := by
  refine addressed_of hs fun id m hm => Or.inl ?_
  by_cases hid : id = j
  swap
  · exact (calm_attach_of_ne hid client).mem_iff.mp hm
  subst hid
  by_cases hidle : s.waiting id = [] ∨ client = none
  · rwa [waiting_attach_of_idle hidle, underway_attach_of_idle hidle] at hm
  · rw [waiting_attach_of_waiting hidle, underway_attach_of_waiting hidle, append_nil] at hm
    exact mem_append.mpr (mem_append.mp hm).symm

theorem addressed_loops (hs : s.Addressed) {j : InterfaceId} {ms rest : List Incoming}
    {loops : List (InterfaceId × List Incoming)} (hloops : s.loops = (j, ms) :: loops)
    (hrest : ∀ m ∈ rest, m ∈ ms) {t : World} (ht : t.loops = (j, rest) :: loops)
    (hr : t.router.endpoints = s.router.endpoints) : t.Addressed := by
  refine addressed_of hs fun id m hm => Or.inl ?_
  rw [underway, ht, waiting, hr] at hm
  rw [underway, hloops, waiting]
  by_cases hid : id = j
  · subst hid
    rw [underwayIn_cons_self, List.append_assoc] at hm ⊢
    exact (mem_append.mp hm).elim (fun h => mem_append_left _ (hrest m h))
      (mem_append_right _)
  · rwa [underwayIn_cons_of_ne hid] at hm ⊢

theorem addressed_tail (hs : s.Addressed) {t : World} (ht : t.loops = s.loops.tail)
    (hr : t.router.endpoints = s.router.endpoints) : t.Addressed := by
  refine addressed_of hs fun id m hm => Or.inl ?_
  rw [underway, ht, waiting, hr] at hm
  cases hloops : s.loops with
  | nil =>
    rw [hloops] at hm
    rwa [underway, hloops]
  | cons loop loops =>
    obtain ⟨j, ms⟩ := loop
    rw [hloops, tail_cons] at hm
    rw [underway, hloops]
    by_cases hid : id = j
    · subst hid
      rw [underwayIn_cons_self, List.append_assoc]
      exact mem_append_right _ hm
    · rwa [underwayIn_cons_of_ne hid]

theorem addressed_loopTurn (hs : s.Addressed) : (s.step .loopTurn).Addressed := by
  dsimp only [step, loopTurn]
  split
  case h_1 => exact hs
  case h_2 j loops hloops => exact addressed_tail hs (by rw [hloops]; rfl) rfl
  case h_3 j m rest loops hloops =>
    split
    case h_1 => exact addressed_tail hs (by rw [hloops]; rfl) rfl
    case h_2 =>
      exact addressed_loops hs hloops (fun _ => mem_cons_of_mem m) rfl rfl

theorem addressed_accept (hs : s.Addressed) (m : Incoming) : (s.step (.accept m)).Addressed := by
  refine addressed_of hs fun id m' hm' => ?_
  by_cases hm : m.interfaceId = id
  swap
  · exact Or.inl ((calm_accept_of_ne hm).mem_iff.mp hm')
  subst hm
  have hkept : Keeps (s.router.endpoints m.interfaceId)
      ((s.router.accept m).1.endpoints m.interfaceId) →
      m' ∈ s.underway m.interfaceId ++ s.waiting m.interfaceId := by
    intro hkeeps
    have hwaiting : (s.step (.accept m)).waiting m.interfaceId = s.waiting m.interfaceId :=
      hkeeps.waiting
    rwa [hwaiting] at hm'
  by_cases hcontrol : m.interfaceId = kInvalidInterfaceId
  · exact Or.inl (hkept (keeps_accept_of_control s.router hcontrol))
  by_cases hprimary : m.interfaceId = kPrimaryInterfaceId
  · exact Or.inl (hkept (keeps_accept_of_primary s.router hcontrol hprimary))
  cases hclient : attachedOf (s.router.endpoints m.interfaceId) with
  | some client =>
    refine Or.inl (hkept ?_)
    rw [accept_of_attached s.router hcontrol hprimary hclient, endpoints_setEndpoint_self]
    exact Keeps.created _
  | none =>
    have hwaiting : (s.step (.accept m)).waiting m.interfaceId =
        s.waiting m.interfaceId ++ [m] := by
      dsimp only [step]
      rw [accept_of_detached s.router hcontrol hprimary hclient, waiting,
        endpoints_setEndpoint_self, queuedMessages_findOrCreateEndpoint]
      rfl
    rw [hwaiting, ← List.append_assoc] at hm'
    rcases mem_append.mp hm' with hm' | hm'
    · exact Or.inl hm'
    · exact Or.inr (congrArg _ (mem_singleton.mp hm'))

theorem step_addressed (hs : s.Addressed) (a : RouterOp) : (s.step a).Addressed := by
  by_cases hmoves : a.Moves
  swap
  · exact addressed_of hs fun id m hm => Or.inl ((calm_step hmoves).mem_iff.mp hm)
  cases a with
  | attachEndpointClient j client => exact addressed_attach hs j client
  | loopTurn => exact addressed_loopTurn hs
  | loopRefused => exact addressed_tail hs rfl rfl
  | accept m => exact addressed_accept hs m
  | _ => exact hmoves.elim

/-! ### Every run -/

theorem addressed_of_reaches {namespaceBit : Bool} {allowed : World → RouterOp → Prop}
    (h : Machine.Reaches (fresh namespaceBit) step allowed s) : s.Addressed :=
  h.invariant (I := Addressed) (fun _ _ hm => absurd hm not_mem_nil)
    fun _ a hs _ => step_addressed hs a

theorem step_inOrder (hs : s.InOrder id) (haddressed : s.Addressed)
    (hid : id ≠ kInvalidInterfaceId) (a : RouterOp) (ha : s.Orderly id a) :
    (s.step a).InOrder id := by
  by_cases hmoves : a.Moves
  swap
  · exact hs.calm (calm_step hmoves)
  cases a with
  | attachEndpointClient j client => exact inOrder_attach hs ha
  | loopTurn => exact inOrder_loopTurn hs haddressed ha
  | loopRefused => exact inOrder_loopRefused hs ha
  | accept m => exact inOrder_accept hs hid ha
  | _ => exact hmoves.elim

/-- In a run whose steps are all orderly for `id` its messages are delivered in order, each once. -/
theorem delivered_of_reaches {namespaceBit : Bool} (hid : id ≠ kInvalidInterfaceId)
    (h : Machine.Reaches (fresh namespaceBit) step (fun t a => t.HasHandle a ∧ t.Orderly id a) s) :
    s.Delivered id := by
  refine InOrder.delivered ?_
  refine h.invariant_under (J := Addressed) (I := fun t => t.InOrder id)
    (fun _ => addressed_of_reaches) ?_ ?_
  · exact ⟨rfl, fun h => absurd rfl h, fun _ => ⟨rfl, rfl⟩⟩
  · intro t a haddressed ht ha
    exact step_inOrder ht haddressed hid a ha.2

/-- Two messages wait and are handed to the client that is attached. -/
def flushing : List RouterOp :=
  [.createLocalEndpointHandle 5, .accept { interfaceId := 5, content := 1 },
    .accept { interfaceId := 5, content := 2 }, .attachEndpointClient 5 (some 9), .loopTurn,
    .loopTurn, .loopTurn]

theorem delivered_of_reaches_flushing : (flushing.foldl step (fresh false)).Delivered 5 := by
  refine delivered_of_reaches (by decide) (Machine.Reaches.along .start ?_)
  refine ⟨⟨trivial, trivial⟩, ⟨trivial, fun _ => Or.inl rfl⟩, ⟨trivial, fun _ => Or.inl rfl⟩,
    ⟨mem_singleton.mpr rfl, fun _ => Or.inr (Or.inr rfl)⟩, ⟨trivial, fun _ _ _ _ => ?_⟩,
    ⟨trivial, fun _ _ _ _ => ?_⟩, ⟨trivial, fun _ _ _ _ => ?_⟩, trivial⟩
  all_goals decide

/-- A message that arrives while the loop hands over the first is handed over before the second. -/
theorem not_delivered_overtaken :
    let ops : List RouterOp :=
      [.createLocalEndpointHandle 5, .accept { interfaceId := 5, content := 1 },
        .accept { interfaceId := 5, content := 2 }, .attachEndpointClient 5 (some 9), .loopTurn,
        .accept { interfaceId := 5, content := 3 }, .loopTurn]
    let s := ops.foldl step (fresh false)
    Machine.Along step HasHandle (fresh false) ops ∧ ¬ s.Delivered 5 ∧
      s.handedFor 5 = [{ interfaceId := 5, content := 1 }, { interfaceId := 5, content := 3 },
        { interfaceId := 5, content := 2 }] := by
  refine ⟨⟨trivial, trivial, trivial, mem_singleton.mpr rfl, trivial, trivial, trivial,
    trivial⟩, fun h => ?_, by decide⟩
  exact absurd h.1 (by decide)

end World

end Voodoo.Bindings
