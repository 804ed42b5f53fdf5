import Voodoo.Bindings.Router

/-!
# The entries of the router

Each operation changes the entry of one id, and what it makes of that entry
depends on the entry alone.  The first section says so for every operation of
the router.  From it come the two invariants of a run: the reference count of
an entry is the number of live handles of its id, and an entry is there for a
reason, a handle, a client or messages that wait.

An id whose last handle is gone and whose entry is erased is not remembered.
What brings an entry back is a message for the id or a new handle, and nothing
else (`endpoints_of_reaches`).
-/

namespace Voodoo.Bindings

open Option

/-- Something holds the entry. -/
def Endpoint.Needed (ep : Endpoint) : Prop :=
  ep.refs ≠ 0 ∨ ep.client ≠ none ∨ ep.queuedMessages ≠ []

instance (ep : Endpoint) : Decidable ep.Needed := inferInstanceAs (Decidable (_ ∨ _))

namespace Router

variable (r : Router) (id j : InterfaceId)

/-! ### What an operation does to an entry -/

@[simp] theorem endpoints_setEndpoint (ep : Endpoint) :
    (r.setEndpoint id ep).endpoints j = if j = id then some ep else r.endpoints j := by
  by_cases h : j = id
  · rw [if_pos h, h]
    exact Function.update_self id _ _
  · rw [if_neg h]
    exact Function.update_of_ne h _ _

@[simp] theorem endpoints_eraseEndpoint :
    (r.eraseEndpoint id).endpoints j = if j = id then none else r.endpoints j := by
  by_cases h : j = id
  · rw [if_pos h, h]
    exact Function.update_self id _ _
  · rw [if_neg h]
    exact Function.update_of_ne h _ _

@[simp] theorem endpoints_send (message : Outgoing) :
    (r.send message).endpoints = r.endpoints := by
  unfold send
  split <;> rfl

theorem endpoints_eq_ite {o : Option Endpoint} (h : r.endpoints id = o) :
    r.endpoints j = if j = id then o else r.endpoints j := by
  split
  case isTrue hj => rw [hj, h]
  case isFalse => rfl

@[simp] theorem endpoints_notifyPeerEndpointClosed (customReason : UInt32) (description : String) :
    (r.notifyPeerEndpointClosed id customReason description).endpoints = r.endpoints :=
  endpoints_send r _

theorem endpoints_retainEndpoint :
    (r.retainEndpoint id).endpoints j =
      if j = id then
        some { r.findOrCreateEndpoint id with refs := (r.findOrCreateEndpoint id).refs + 1 }
      else r.endpoints j :=
  endpoints_setEndpoint r id j _

theorem endpoints_maybeEraseEndpoint :
    (r.maybeEraseEndpoint id).endpoints j =
      if j = id then (r.endpoints id).filter (fun ep => decide ep.Needed) else r.endpoints j := by
  unfold maybeEraseEndpoint
  cases hep : r.endpoints id with
  | none => exact endpoints_eq_ite r id j hep
  | some ep =>
    dsimp only
    split
    case isTrue hnot =>
      have hneeded : ¬ ep.Needed := by
        unfold Endpoint.Needed
        simp [hnot]
      have hfilter : (some ep).filter (fun ep => decide ep.Needed) = none := by
        rw [filter_some, decide_eq_false hneeded]
        rfl
      rw [endpoints_eraseEndpoint, hfilter]
    case isFalse hnot =>
      have hneeded : ep.Needed := by
        unfold Endpoint.Needed
        tauto
      have hfilter : (some ep).filter (fun ep => decide ep.Needed) = some ep := by
        rw [filter_some, decide_eq_true hneeded]
        rfl
      rw [hfilter]
      exact endpoints_eq_ite r id j hep

theorem endpoints_clearClient :
    (r.clearClient id).endpoints j =
      if j = id then (r.endpoints id).map (fun ep => { ep with client := none })
      else r.endpoints j := by
  unfold clearClient
  cases hep : r.endpoints id with
  | none => exact endpoints_eq_ite r id j hep
  | some ep => exact endpoints_setEndpoint r id j _

theorem endpoints_dropEndpointHandle :
    (r.dropEndpointHandle id).endpoints j =
      if j = id then
        ((r.endpoints id).map (fun ep => { ep with refs := ep.refs - 1 })).filter
          (fun ep => decide ep.Needed)
      else r.endpoints j := by
  unfold dropEndpointHandle
  cases hep : r.endpoints id with
  | none => exact endpoints_eq_ite r id j hep
  | some ep =>
    dsimp only
    rw [endpoints_maybeEraseEndpoint, endpoints_setEndpoint, endpoints_setEndpoint, if_pos rfl,
      map_some]
    split <;> rfl

theorem endpoints_detachEndpointClient :
    (r.detachEndpointClient id).endpoints j =
      if j = id then
        ((r.endpoints id).map (fun ep => { ep with client := none })).filter
          (fun ep => decide ep.Needed)
      else r.endpoints j := by
  rw [detachEndpointClient, endpoints_maybeEraseEndpoint, endpoints_clearClient,
    endpoints_clearClient, if_pos rfl]
  split <;> rfl

theorem endpoints_closeEndpoint :
    (r.closeEndpoint id).endpoints j =
      if j = id then
        ((r.endpoints id).map (fun ep => { ep with client := none, refs := ep.refs - 1 })).filter
          (fun ep => decide ep.Needed)
      else r.endpoints j := by
  rw [closeEndpoint, endpoints_dropEndpointHandle, endpoints_clearClient, endpoints_clearClient,
    if_pos rfl, endpoints_notifyPeerEndpointClosed, Option.map_map]
  split <;> rfl

theorem endpoints_createLocalEndpointHandle :
    (r.createLocalEndpointHandle id).endpoints j =
      if j = id then
        some { r.findOrCreateEndpoint id with refs := (r.findOrCreateEndpoint id).refs + 1 }
      else r.endpoints j := by
  have hfound : (r.setEndpoint id (r.findOrCreateEndpoint id)).findOrCreateEndpoint id =
      r.findOrCreateEndpoint id := by
    rw [findOrCreateEndpoint, endpoints_setEndpoint, if_pos rfl, getD_some]
  rw [createLocalEndpointHandle, endpoints_retainEndpoint, endpoints_setEndpoint, hfound]
  split <;> rfl

theorem endpoints_createPairPendingAssociation :
    r.createPairPendingAssociation.2.endpoints j =
      if j = r.mintInterfaceId.1 then
        some { r.findOrCreateEndpoint r.mintInterfaceId.1 with
          refs := (r.findOrCreateEndpoint r.mintInterfaceId.1).refs + 1 }
      else r.endpoints j :=
  endpoints_createLocalEndpointHandle _ _ j

theorem endpoints_attachEndpointClient (client : Option Receiver) :
    ∃ queued, ∀ j, (r.attachEndpointClient id client).1.endpoints j =
      if j = id then
        some { r.findOrCreateEndpoint id with client := client, queuedMessages := queued }
      else r.endpoints j := by
  unfold attachEndpointClient
  dsimp only
  split
  · exact ⟨_, fun j => endpoints_setEndpoint r id j _⟩
  · exact ⟨_, fun j => endpoints_setEndpoint r id j _⟩

theorem endpoints_runPeerClosedHandler :
    ∃ handler withReason, ∀ j, (r.runPeerClosedHandler id).endpoints j =
      if j = id then
        (r.endpoints id).map (fun ep =>
          { ep with peerClosedHandler := handler, peerClosedWithReasonHandler := withReason })
      else r.endpoints j := by
  unfold runPeerClosedHandler
  cases hep : r.endpoints id with
  | none => exact ⟨none, none, fun j => endpoints_eq_ite r id j hep⟩
  | some ep =>
    dsimp only
    split
    · exact ⟨ep.peerClosedHandler, none, fun j => endpoints_setEndpoint r id j _⟩
    · split
      · exact ⟨none, ep.peerClosedWithReasonHandler, fun j => endpoints_setEndpoint r id j _⟩
      · exact ⟨ep.peerClosedHandler, ep.peerClosedWithReasonHandler,
          fun j => endpoints_eq_ite r id j hep⟩

theorem endpoints_handlePipeControlMessage (m : Incoming) :
    (r.handlePipeControlMessage m).endpoints = r.endpoints ∨
      ∃ id handler withReason, ∀ j, (r.handlePipeControlMessage m).endpoints j =
        if j = id then
          (r.endpoints id).map (fun ep =>
            { ep with peerClosedHandler := handler, peerClosedWithReasonHandler := withReason })
        else r.endpoints j := by
  unfold handlePipeControlMessage
  split
  · split
    · exact Or.inl rfl
    · exact Or.inl (endpoints_send r _)
  · cases m.closed with
    | none => exact Or.inl rfl
    | some closed =>
      obtain ⟨closedId, customReason, description⟩ := closed
      refine Or.inr ⟨closedId, ?_⟩
      dsimp only
      split
      · exact endpoints_runPeerClosedHandler _ closedId
      · exact endpoints_runPeerClosedHandler _ closedId

end Router

/-! ### An entry and the handles of its id -/

/-- The reference count of an entry, none for no entry. -/
def refsOf (o : Option Endpoint) : Nat := (o.map (·.refs)).getD 0

/-- `o` is the entry of an id with `n` live handles. -/
structure Fits (n : Nat) (o : Option Endpoint) : Prop where
  counted : refsOf o = n
  needed : ∀ ep, o = some ep → ep.Needed

namespace Fits

variable {n : Nat} {o : Option Endpoint}

theorem refs_getD (h : Fits n o) : (o.getD {}).refs = n := by
  cases o with
  | none => exact h.counted
  | some ep => exact h.counted

theorem of_refs {ep : Endpoint} (h : ep.refs = n + 1) : Fits (n + 1) (some ep) where
  counted := h
  needed ep' hep' := by
    cases hep'
    exact Or.inl (by omega)

theorem created (h : Fits n o) :
    Fits (n + 1) (some { o.getD {} with refs := (o.getD {}).refs + 1 }) :=
  of_refs (by rw [h.refs_getD])

theorem filter_needed (h : refsOf o = n) : Fits n (o.filter (fun ep => decide ep.Needed)) := by
  cases o with
  | none => exact ⟨h, fun ep hep => nomatch hep⟩
  | some ep =>
    by_cases hneeded : ep.Needed
    · rw [filter_some, decide_eq_true hneeded]
      refine ⟨h, fun ep' hep' => ?_⟩
      cases hep'
      exact hneeded
    · rw [filter_some, decide_eq_false hneeded]
      have hrefs : ep.refs = 0 := by
        by_contra hne
        exact hneeded (Or.inl hne)
      have hn : ep.refs = n := h
      exact ⟨show 0 = n by omega, fun ep' hep' => nomatch hep'⟩

theorem cleared (h : Fits n o) :
    Fits n ((o.map (fun ep => { ep with client := none })).filter
      (fun ep => decide ep.Needed)) := by
  refine filter_needed ?_
  rw [← h.counted]
  cases o <;> rfl

theorem dropped (h : Fits (n + 1) o) :
    Fits n ((o.map (fun ep => { ep with refs := ep.refs - 1 })).filter
      (fun ep => decide ep.Needed)) := by
  refine filter_needed ?_
  have hcounted := h.counted
  cases o with
  | none => cases hcounted
  | some ep =>
    have hrefs : ep.refs = n + 1 := hcounted
    exact show ep.refs - 1 = n by omega

theorem closed (h : Fits (n + 1) o) :
    Fits n ((o.map (fun ep => { ep with client := none, refs := ep.refs - 1 })).filter
      (fun ep => decide ep.Needed)) := by
  refine filter_needed ?_
  have hcounted := h.counted
  cases o with
  | none => cases hcounted
  | some ep =>
    have hrefs : ep.refs = n + 1 := hcounted
    exact show ep.refs - 1 = n by omega

theorem handlers (h : Fits n o) (handler withReason : Option Nat) :
    Fits n (o.map (fun ep =>
      { ep with peerClosedHandler := handler, peerClosedWithReasonHandler := withReason })) := by
  cases o with
  | none => exact h
  | some ep =>
    refine ⟨h.counted, fun ep' hep' => ?_⟩
    cases hep'
    exact h.needed ep rfl

end Fits

namespace World

/-- Every entry fits the live handles of its id. -/
def Kept (s : World) : Prop := ∀ id, Fits (s.handles.count id) (s.router.endpoints id)

variable {s : World}

theorem exists_count {id : InterfaceId} (h : id ∈ s.handles) :
    ∃ n, s.handles.count id = n + 1 :=
  Nat.exists_eq_add_one.mpr (List.count_pos_iff.mpr h)

theorem kept_created (hs : s.Kept) (id : InterfaceId) {r : Router}
    (hr : ∀ j, r.endpoints j =
      if j = id then some { s.router.findOrCreateEndpoint id with
        refs := (s.router.findOrCreateEndpoint id).refs + 1 }
      else s.router.endpoints j) :
    Kept { s with router := r, handles := id :: s.handles } := by
  intro j
  dsimp only
  rw [hr j]
  split
  case isTrue hj =>
    rw [hj, List.count_cons_self]
    exact (hs id).created
  case isFalse hj =>
    rw [List.count_cons_of_ne (Ne.symm hj)]
    exact hs j

theorem kept_erased (hs : s.Kept) {id : InterfaceId} (hid : id ∈ s.handles)
    {o : Option Endpoint → Option Endpoint}
    (ho : ∀ n e, Fits (n + 1) e → Fits n (o e)) {r : Router}
    (hr : ∀ j, r.endpoints j = if j = id then o (s.router.endpoints id) else s.router.endpoints j) :
    Kept { s with router := r, handles := s.handles.erase id } := by
  intro j
  dsimp only
  rw [hr j]
  split
  case isTrue hj =>
    obtain ⟨n, hn⟩ := exists_count hid
    have hfits := hs id
    rw [hn] at hfits
    rw [hj, List.count_erase_self, hn]
    exact ho n _ hfits
  case isFalse hj =>
    rw [List.count_erase_of_ne hj]
    exact hs j

theorem kept_changed (hs : s.Kept) (id : InterfaceId) {e : Option Endpoint}
    (he : Fits (s.handles.count id) e) {r : Router}
    (hr : ∀ j, r.endpoints j = if j = id then e else s.router.endpoints j) (t : World)
    (ht : t.router = r) (hhandles : t.handles = s.handles) : t.Kept := by
  intro j
  rw [ht, hhandles, hr j]
  split
  case isTrue hj => rwa [hj]
  case isFalse => exact hs j

theorem kept_of_eq (hs : s.Kept) {t : World} (ht : t.router.endpoints = s.router.endpoints)
    (hhandles : t.handles = s.handles) : t.Kept := by
  intro j
  rw [ht, hhandles]
  exact hs j

/-! ### A step keeps them -/

theorem endpoints_accept {m : Incoming} (hcontrol : m.interfaceId ≠ kInvalidInterfaceId)
    (hprimary : m.interfaceId ≠ kPrimaryInterfaceId) (r : Router) {n : Nat}
    (h : Fits n (r.endpoints m.interfaceId)) :
    ∃ ep, Fits n (some ep) ∧ ∀ j, (r.accept m).1.endpoints j =
      if j = m.interfaceId then some ep else r.endpoints j := by
  unfold Router.accept
  rw [if_neg hcontrol, if_neg hprimary]
  have hrefs : (r.findOrCreateEndpoint m.interfaceId).refs = n := h.refs_getD
  dsimp only
  cases hclient : (r.findOrCreateEndpoint m.interfaceId).client with
  | some client =>
    refine ⟨_, ⟨?_, ?_⟩, fun j => Router.endpoints_setEndpoint r m.interfaceId j _⟩
    · exact hrefs
    · rintro ep hep
      cases hep
      exact Or.inr (Or.inl (by simp [hclient]))
  | none =>
    refine ⟨_, ⟨?_, ?_⟩, fun j => Router.endpoints_setEndpoint r m.interfaceId j _⟩
    · exact hrefs
    · rintro ep hep
      cases hep
      exact Or.inr (Or.inr (by simp))

/-- A step keeps the entries and the handles together. -/
theorem step_kept (hs : s.Kept) (a : RouterOp) (ha : s.HasHandle a) : (s.step a).Kept := by
  cases a with
  | createPair =>
    exact kept_created hs _ (Router.endpoints_createPairPendingAssociation s.router)
  | createLocalEndpointHandle id =>
    exact kept_created hs id (Router.endpoints_createLocalEndpointHandle s.router id)
  | attachEndpointClient id client =>
    obtain ⟨queued, hr⟩ := Router.endpoints_attachEndpointClient s.router id client
    obtain ⟨n, hn⟩ := exists_count ha
    refine kept_changed hs id ?_ hr _ rfl rfl
    rw [hn]
    exact Fits.of_refs ((hs id).refs_getD.trans hn)
  | loopTurn =>
    refine kept_of_eq hs ?_ ?_
    all_goals
      dsimp only [step, loopTurn]
      split
      · rfl
      · rfl
      · split <;> rfl
  | loopRefused => exact kept_of_eq hs rfl rfl
  | detachEndpointClient id =>
    exact kept_changed hs id (hs id).cleared
      (fun j => Router.endpoints_detachEndpointClient s.router id j) _ rfl rfl
  | closeHandle id =>
    exact kept_erased hs ha (fun _ _ => Fits.closed)
      (fun j => Router.endpoints_closeEndpoint s.router id j)
  | releaseWithoutClosing id =>
    exact kept_erased hs ha (fun _ _ => Fits.dropped)
      (fun j => Router.endpoints_dropEndpointHandle s.router id j)
  | setPeerClosedHandler id handler =>
    obtain ⟨n, hn⟩ := exists_count ha
    refine kept_changed hs id ?_ (fun j => Router.endpoints_setEndpoint s.router id j _) _ rfl rfl
    rw [hn]
    exact Fits.of_refs ((hs id).refs_getD.trans hn)
  | setPeerClosedWithReasonHandler id handler =>
    obtain ⟨n, hn⟩ := exists_count ha
    refine kept_changed hs id ?_ (fun j => Router.endpoints_setEndpoint s.router id j _) _ rfl rfl
    rw [hn]
    exact Fits.of_refs ((hs id).refs_getD.trans hn)
  | notifyPeerEndpointClosed id customReason description =>
    exact kept_of_eq hs (Router.endpoints_send s.router _) rfl
  | attachPrimaryClient client => exact kept_of_eq hs rfl rfl
  | detachPrimaryClient => exact kept_of_eq hs rfl rfl
  | accept m =>
    by_cases hcontrol : m.interfaceId = kInvalidInterfaceId
    · have haccept : (s.router.accept m).1 = s.router.handlePipeControlMessage m := by
        rw [Router.accept, if_pos hcontrol]
      rcases Router.endpoints_handlePipeControlMessage s.router m with h |
        ⟨id, handler, withReason, h⟩
      · exact kept_of_eq hs ((congrArg Router.endpoints haccept).trans h) rfl
      · exact kept_changed hs id ((hs id).handlers handler withReason) h _ haccept rfl
    by_cases hprimary : m.interfaceId = kPrimaryInterfaceId
    · have haccept : (s.router.accept m).1 = s.router := by
        rw [Router.accept, if_neg hcontrol, if_pos hprimary]
      exact kept_of_eq hs (congrArg Router.endpoints haccept) rfl
    obtain ⟨ep, hep, hr⟩ := endpoints_accept hcontrol hprimary s.router (hs m.interfaceId)
    exact kept_changed hs m.interfaceId hep hr _ rfl rfl

/-! ### An entry that is gone -/

/-- What makes an entry for an id that has none: a new handle or a message. -/
def Revives (id : InterfaceId) (s : World) : RouterOp → Prop
  | .createPair => id = s.router.mintInterfaceId.1
  | .createLocalEndpointHandle j => id = j
  | .accept m => id = m.interfaceId ∧ id ≠ kInvalidInterfaceId ∧ id ≠ kPrimaryInterfaceId
  | _ => False

theorem not_mem_handles (hs : s.Kept) {id : InterfaceId} (hid : s.router.endpoints id = none) :
    id ∉ s.handles := by
  have hcounted := (hs id).counted
  rw [hid] at hcounted
  exact List.count_eq_zero.mp hcounted.symm

theorem endpoints_eq_none {r : Router} {id j : InterfaceId}
    (hid : s.router.endpoints id = none) {e : Option Endpoint}
    (he : s.router.endpoints j = none → e = none)
    (hr : r.endpoints id = if id = j then e else s.router.endpoints id) :
    r.endpoints id = none := by
  rw [hr]
  split
  case isTrue hj => exact he (hj ▸ hid)
  case isFalse => exact hid

theorem endpoints_eq_none_of_mem (hs : s.Kept) {r : Router} {id j : InterfaceId}
    (hid : s.router.endpoints id = none) (hj : j ∈ s.handles) {e : Option Endpoint}
    (hr : r.endpoints id = if id = j then e else s.router.endpoints id) :
    r.endpoints id = none := by
  have hne : id ≠ j := by
    rintro rfl
    exact not_mem_handles hs hid hj
  rw [hr, if_neg hne]
  exact hid

theorem endpoints_isSome_iff {r : Router} {id j : InterfaceId} (hid : s.router.endpoints id = none)
    {ep : Endpoint} (hr : r.endpoints id = if id = j then some ep else s.router.endpoints id) :
    (r.endpoints id).isSome ↔ id = j := by
  rw [hr]
  split
  case isTrue hj => exact iff_of_true rfl hj
  case isFalse hj =>
    rw [hid]
    exact iff_of_false Bool.false_ne_true hj

/-- The step that brings an entry back. -/
theorem endpoints_step_isSome_iff (hs : s.Kept) {id : InterfaceId}
    (hid : s.router.endpoints id = none) (a : RouterOp) (ha : s.HasHandle a) :
    ((s.step a).router.endpoints id).isSome ↔ s.Revives id a := by
  have hnone : ∀ {t : World}, t.router.endpoints id = none →
      ((t.router.endpoints id).isSome ↔ False) := by
    intro t ht
    simp [ht]
  cases a with
  | createPair =>
    exact endpoints_isSome_iff hid (Router.endpoints_createPairPendingAssociation s.router id)
  | createLocalEndpointHandle j =>
    exact endpoints_isSome_iff hid (Router.endpoints_createLocalEndpointHandle s.router j id)
  | attachEndpointClient j client =>
    obtain ⟨queued, hr⟩ := Router.endpoints_attachEndpointClient s.router j client
    exact hnone (endpoints_eq_none_of_mem hs hid ha (hr id))
  | loopTurn =>
    refine hnone ?_
    dsimp only [step, loopTurn]
    split
    · exact hid
    · exact hid
    · split <;> exact hid
  | loopRefused => exact hnone hid
  | detachEndpointClient j =>
    refine hnone (endpoints_eq_none hid ?_ (Router.endpoints_detachEndpointClient s.router j id))
    intro hj
    rw [hj]
    rfl
  | closeHandle j =>
    refine hnone (endpoints_eq_none hid ?_ (Router.endpoints_closeEndpoint s.router j id))
    intro hj
    rw [hj]
    rfl
  | releaseWithoutClosing j =>
    refine hnone (endpoints_eq_none hid ?_ (Router.endpoints_dropEndpointHandle s.router j id))
    intro hj
    rw [hj]
    rfl
  | setPeerClosedHandler j handler =>
    exact hnone (endpoints_eq_none_of_mem hs hid ha (Router.endpoints_setEndpoint s.router j id _))
  | setPeerClosedWithReasonHandler j handler =>
    exact hnone (endpoints_eq_none_of_mem hs hid ha (Router.endpoints_setEndpoint s.router j id _))
  | notifyPeerEndpointClosed j customReason description =>
    exact hnone ((congrFun (Router.endpoints_send s.router _) id).trans hid)
  | attachPrimaryClient client => exact hnone hid
  | detachPrimaryClient => exact hnone hid
  | accept m =>
    by_cases hcontrol : m.interfaceId = kInvalidInterfaceId
    · have haccept : (s.step (.accept m)).router = s.router.handlePipeControlMessage m := by
        dsimp only [step]
        rw [Router.accept, if_pos hcontrol]
      have hnot : ¬ s.Revives id (.accept m) := fun h => h.2.1 (h.1.trans hcontrol)
      rw [iff_false_right hnot]
      refine (hnone ?_).mp
      rw [haccept]
      rcases Router.endpoints_handlePipeControlMessage s.router m with h |
        ⟨j, handler, withReason, h⟩
      · exact (congrFun h id).trans hid
      · refine endpoints_eq_none hid ?_ (h id)
        intro hj
        rw [hj]
        rfl
    by_cases hprimary : m.interfaceId = kPrimaryInterfaceId
    · have haccept : (s.step (.accept m)).router = s.router := by
        dsimp only [step]
        rw [Router.accept, if_neg hcontrol, if_pos hprimary]
      have hnot : ¬ s.Revives id (.accept m) := fun h => h.2.2 (h.1.trans hprimary)
      rw [iff_false_right hnot]
      refine (hnone ?_).mp
      rw [haccept]
      exact hid
    obtain ⟨ep, -, hr⟩ := endpoints_accept hcontrol hprimary s.router (hs m.interfaceId)
    refine (endpoints_isSome_iff hid (hr id)).trans ⟨fun h => ?_, fun h => h.1⟩
    exact ⟨h, h ▸ hcontrol, h ▸ hprimary⟩

theorem endpoints_along_eq_none (hs : s.Kept) {id : InterfaceId}
    (hid : s.router.endpoints id = none) {as : List RouterOp}
    (has : Machine.Along step (fun t a => t.HasHandle a ∧ ¬ t.Revives id a) s as) :
    (as.foldl step s).router.endpoints id = none := by
  induction as generalizing s with
  | nil => exact hid
  | cons a as ih =>
    obtain ⟨⟨ha, hnot⟩, has⟩ := has
    have hstep : ¬ ((s.step a).router.endpoints id).isSome :=
      fun h => hnot ((endpoints_step_isSome_iff hs hid a ha).mp h)
    exact ih (step_kept hs a ha) (not_isSome_iff_eq_none.mp hstep) has

/-! ### Every run -/

/-- The router of a new pipe. -/
def fresh (namespaceBit : Bool) : World := { router := { namespaceBit } }

theorem kept_fresh (namespaceBit : Bool) : (fresh namespaceBit).Kept :=
  fun _ => ⟨rfl, fun _ h => nomatch h⟩

theorem kept_of_reaches {namespaceBit : Bool}
    (h : Machine.Reaches (fresh namespaceBit) step HasHandle s) : s.Kept :=
  h.invariant (kept_fresh namespaceBit) fun _ a hs ha => step_kept hs a ha

end World

end Voodoo.Bindings
