import Mathlib.Algebra.Group.Nat.Defs
import Mathlib.Data.List.Induction
import Mathlib.Data.List.Nodup

/-!
# The response dispatcher

A `ResponseDispatcher` keeps the handlers of the requests that wait for a response, under the ids it
gave them.  `DispatchResponse` takes a handler out before it runs it and does nothing behind it, so
whatever the handler calls is the next operation: a run is a list of calls, and the handlers that
have been entered and not left are a stack.

From the log of a run alone `outstanding` reads the requests no response has come for, and
`Calls.Valid` says that the map of the dispatcher is those requests, where the oldest of an id counts:
`emplace` keeps what is there.

The counter of the ids wraps around after `2 ^ 64` requests, which matters only where the first of
two requests with one id still waits as the second is registered (`dispatch_matches`).
-/

namespace Voodoo.Bindings

open List Option

structure ResponseDispatcher (η : Type) where
  nextRequestId : UInt64 := 1
  pending : UInt64 → Option η := fun _ => none

namespace ResponseDispatcher

variable {η : Type} (d : ResponseDispatcher η)

/-- The id for the request, and the dispatcher that waits for its response.  A handler that is
there already stays. -/
def registerPendingResponse (handler : η) : UInt64 × ResponseDispatcher η :=
  (d.nextRequestId,
    { nextRequestId := d.nextRequestId + 1
      pending :=
        if (d.pending d.nextRequestId).isSome then d.pending
        else Function.update d.pending d.nextRequestId (some handler) })

/-- The handler to run, with the dispatcher it runs on; nothing for an id nobody waits for. -/
def dispatchResponse (requestId : UInt64) : Option (η × ResponseDispatcher η) :=
  (d.pending requestId).map fun handler =>
    (handler, { d with pending := Function.update d.pending requestId none })

end ResponseDispatcher

/-! ### Runs -/

/-- A call of the dispatcher, from wherever, or the end of the innermost handler. -/
inductive Call where
  | register
  | dispatch (requestId : UInt64)
  | finish (result : Bool)
  deriving DecidableEq

/-- What happens in a run.  Handlers are numbered as they are registered. -/
inductive CallEvent where
  | registered (handler : Nat) (requestId : UInt64)
  | dispatched (requestId : UInt64) (ran : Option Nat)
  | finished (handler : Nat) (result : Bool)
  deriving DecidableEq

/-- A dispatcher with the calls on it so far. -/
structure Calls where
  dispatcher : ResponseDispatcher Nat := {}
  registered : Nat := 0
  /-- The handlers that run, the innermost first. -/
  running : List Nat := []
  log : List CallEvent := []

namespace Calls

def step (s : Calls) : Call → Calls
  | .register =>
    let (requestId, dispatcher) := s.dispatcher.registerPendingResponse s.registered
    { s with
      dispatcher
      registered := s.registered + 1
      log := s.log ++ [.registered s.registered requestId] }
  | .dispatch requestId =>
    match s.dispatcher.dispatchResponse requestId with
    | none => { s with log := s.log ++ [.dispatched requestId none] }
    | some (handler, dispatcher) =>
      { s with
        dispatcher
        running := handler :: s.running
        log := s.log ++ [.dispatched requestId (some handler)] }
  | .finish result =>
    match s.running with
    | [] => s
    | handler :: running => { s with running, log := s.log ++ [.finished handler result] }

def run (calls : List Call) : Calls := calls.foldl step {}

theorem run_append (calls : List Call) (c : Call) : run (calls ++ [c]) = (run calls).step c := by
  rw [run, foldl_append]
  rfl

variable {s : Calls} {requestId : UInt64} {handler : Nat}

theorem step_dispatch_none (h : s.dispatcher.pending requestId = none) :
    s.step (.dispatch requestId) = { s with log := s.log ++ [.dispatched requestId none] } := by
  simp only [step, ResponseDispatcher.dispatchResponse, h, map_none]

theorem step_dispatch_some (h : s.dispatcher.pending requestId = some handler) :
    s.step (.dispatch requestId) =
      { s with
        dispatcher :=
          { s.dispatcher with pending := Function.update s.dispatcher.pending requestId none }
        running := handler :: s.running
        log := s.log ++ [.dispatched requestId (some handler)] } := by
  simp only [step, ResponseDispatcher.dispatchResponse, h, map_some]

theorem step_finish_nil (h : s.running = []) (result : Bool) : s.step (.finish result) = s := by
  simp only [step, h]

theorem step_finish_cons {running : List Nat} (h : s.running = handler :: running)
    (result : Bool) :
    s.step (.finish result) =
      { s with running := running, log := s.log ++ [.finished handler result] } := by
  simp only [step, h]

end Calls

/-! ### The requests that wait -/

/-- What an event makes of the requests that wait. -/
def CallEvent.settle (waiting : List (Nat × UInt64)) : CallEvent → List (Nat × UInt64)
  | .registered handler requestId => waiting ++ [(handler, requestId)]
  | .dispatched requestId _ => waiting.filter (·.2 ≠ requestId)
  | .finished _ _ => waiting

/-- The requests of the log that no response has been dispatched for, the oldest first. -/
def outstanding (log : List CallEvent) : List (Nat × UInt64) := log.foldl CallEvent.settle []

/-- The handlers the log says were run. -/
def ranHandlers (log : List CallEvent) : List Nat :=
  log.filterMap fun
    | .dispatched _ ran => ran
    | _ => none

theorem outstanding_append (log : List CallEvent) (e : CallEvent) :
    outstanding (log ++ [e]) = e.settle (outstanding log) := by
  rw [outstanding, foldl_append]
  rfl

theorem exists_of_mem_outstanding {log : List CallEvent} {p : Nat × UInt64}
    (h : p ∈ outstanding log) :
    ∃ before after, log = before ++ .registered p.1 p.2 :: after ∧
      ∀ ran, .dispatched p.2 ran ∉ after := by
  induction log using List.reverseRecOn with
  | nil => cases h
  | append_singleton log e ih =>
    rw [outstanding_append] at h
    -- An event that does not end the wait of a request goes behind the ones before.
    have hbehind (hp : p ∈ outstanding log) (he : ∀ ran, .dispatched p.2 ran ≠ e) :
        ∃ before after, log ++ [e] = before ++ .registered p.1 p.2 :: after ∧
          ∀ ran, .dispatched p.2 ran ∉ after := by
      obtain ⟨before, after, rfl, hafter⟩ := ih hp
      refine ⟨before, after ++ [e], by rw [List.append_assoc, cons_append], ?_⟩
      intro ran hmem
      rcases mem_append.mp hmem with hold | hnew
      · exact hafter ran hold
      · exact he ran (mem_singleton.mp hnew)
    cases e with
    | registered handler requestId =>
      rcases mem_append.mp h with hold | hnew
      · exact hbehind hold fun ran hran => nomatch hran
      · cases mem_singleton.mp hnew
        exact ⟨log, [], rfl, fun ran hmem => nomatch hmem⟩
    | dispatched requestId ran =>
      obtain ⟨hold, hne⟩ := mem_filter.mp h
      refine hbehind hold fun ran' hran => ?_
      cases hran
      exact of_decide_eq_true hne rfl
    | finished handler result => exact hbehind h fun ran hran => nomatch hran

namespace Calls

/-- What holds between the dispatcher and the log. -/
structure Valid (s : Calls) : Prop where
  counter : s.dispatcher.nextRequestId = UInt64.ofNat (s.registered + 1)
  numbered : ∀ p ∈ outstanding s.log, p.1 < s.registered ∧ p.2 = UInt64.ofNat (p.1 + 1)
  pending (requestId : UInt64) : s.dispatcher.pending requestId =
    ((outstanding s.log).find? (·.2 == requestId)).map Prod.fst
  ran : ∀ handler ∈ ranHandlers s.log, handler < s.registered ∧
    handler ∉ (outstanding s.log).map Prod.fst
  once : (ranHandlers s.log).Nodup
  answered : ∀ log requestId handler, log ++ [.dispatched requestId (some handler)] <+: s.log →
    (handler, requestId) ∈ outstanding log

namespace Valid

variable {s : Calls} (h : s.Valid)
include h

theorem mem_outstanding {requestId : UInt64} {handler : Nat}
    (hpending : s.dispatcher.pending requestId = some handler) :
    (handler, requestId) ∈ outstanding s.log := by
  rw [h.pending] at hpending
  obtain ⟨p, hfind, rfl⟩ := map_eq_some_iff.mp hpending
  have hid : p.2 = requestId :=
    eq_of_beq (find?_some (p := fun q : Nat × UInt64 => q.2 == requestId) hfind)
  rw [← hid]
  exact mem_of_find?_eq_some hfind

theorem pending_eq_none_iff {requestId : UInt64} :
    s.dispatcher.pending requestId = none ↔ requestId ∉ (outstanding s.log).map Prod.snd := by
  rw [h.pending, map_eq_none_iff, find?_eq_none, List.mem_map]
  constructor
  · rintro hnone ⟨p, hp, rfl⟩
    exact hnone p hp (beq_self_eq_true p.2)
  · intro hnot p hp hid
    exact hnot ⟨p, hp, eq_of_beq hid⟩

omit h in
theorem answered_append {log : List CallEvent} {e : CallEvent}
    (ha : ∀ log' requestId handler, log' ++ [.dispatched requestId (some handler)] <+: log →
      (handler, requestId) ∈ outstanding log')
    (he : ∀ requestId handler, e = .dispatched requestId (some handler) →
      (handler, requestId) ∈ outstanding log) :
    ∀ log' requestId handler,
      log' ++ [.dispatched requestId (some handler)] <+: log ++ [e] →
      (handler, requestId) ∈ outstanding log' := by
  intro log' requestId handler hprefix
  rcases prefix_concat_iff.mp hprefix with heq | hold
  · obtain ⟨rfl, hlast⟩ := append_inj' heq rfl
    exact he requestId handler (List.cons.inj hlast).1.symm
  · exact ha log' requestId handler hold

theorem register : (s.step .register).Valid := by
  have hlog : (s.step .register).log =
      s.log ++ [.registered s.registered s.dispatcher.nextRequestId] := rfl
  have hwaiting : outstanding (s.step .register).log =
      outstanding s.log ++ [(s.registered, s.dispatcher.nextRequestId)] := by
    rw [hlog, outstanding_append]
    rfl
  have hran : ranHandlers (s.step .register).log = ranHandlers s.log := by
    rw [hlog, ranHandlers, filterMap_append]
    exact append_nil _
  constructor
  · change s.dispatcher.nextRequestId + 1 = UInt64.ofNat (s.registered + 1 + 1)
    rw [h.counter, UInt64.ofNat_add (s.registered + 1) 1]
    rfl
  · intro p hp
    rw [hwaiting] at hp
    rcases mem_append.mp hp with hold | hnew
    · obtain ⟨hlt, hid⟩ := h.numbered p hold
      exact ⟨Nat.lt_succ_of_lt hlt, hid⟩
    · cases mem_singleton.mp hnew
      exact ⟨Nat.lt_succ_self _, h.counter⟩
  · intro requestId
    rw [hwaiting, find?_append]
    change (if (s.dispatcher.pending s.dispatcher.nextRequestId).isSome then s.dispatcher.pending
      else Function.update s.dispatcher.pending s.dispatcher.nextRequestId
        (some s.registered)) requestId = _
    rw [map_or, ← h.pending]
    by_cases hid : requestId = s.dispatcher.nextRequestId
    · subst hid
      have hnew : (([(s.registered, s.dispatcher.nextRequestId)] : List (Nat × UInt64)).find?
          (·.2 == s.dispatcher.nextRequestId)).map Prod.fst = some s.registered := by
        simp
      rw [hnew]
      cases hpending : s.dispatcher.pending s.dispatcher.nextRequestId with
      | some handler =>
        rw [isSome_some, if_pos rfl, hpending]
        rfl
      | none =>
        rw [isSome_none, if_neg Bool.false_ne_true, Function.update_self]
        rfl
    · have hnew : (([(s.registered, s.dispatcher.nextRequestId)] : List (Nat × UInt64)).find?
          (·.2 == requestId)).map Prod.fst = none := by
        simpa using Ne.symm hid
      rw [hnew, or_none]
      split
      · rfl
      · exact Function.update_of_ne hid _ _
  · intro handler hmem
    rw [hran] at hmem
    obtain ⟨hlt, hnot⟩ := h.ran handler hmem
    refine ⟨Nat.lt_succ_of_lt hlt, ?_⟩
    rw [hwaiting, map_append, mem_append]
    rintro (hold | hnew)
    · exact hnot hold
    · have heq : handler = s.registered := mem_singleton.mp hnew
      omega
  · rw [hran]
    exact h.once
  · rw [hlog]
    exact answered_append h.answered fun requestId handler he => nomatch he

theorem outstanding_dispatched (requestId : UInt64) (ran : Option Nat) :
    ∀ id, ((outstanding (s.log ++ [.dispatched requestId ran])).find? (·.2 == id)).map Prod.fst =
      if id = requestId then none else s.dispatcher.pending id := by
  intro id
  rw [outstanding_append]
  change (((outstanding s.log).filter (·.2 ≠ requestId)).find? (·.2 == id)).map Prod.fst = _
  rw [find?_filter]
  by_cases hid : id = requestId
  · subst hid
    rw [if_pos rfl, map_eq_none_iff, find?_eq_none]
    intro p _ hp
    simp at hp
  · rw [if_neg hid, h.pending]
    congr 2
    funext p
    by_cases hp : p.2 = id
    · simp [hp, hid]
    · simp [hp]

theorem dispatch (requestId : UInt64) : (s.step (.dispatch requestId)).Valid := by
  have hsub (ran : Option Nat) :
      ∀ p ∈ outstanding (s.log ++ [.dispatched requestId ran]),
        p ∈ outstanding s.log ∧ p.2 ≠ requestId := by
    intro p hp
    rw [outstanding_append] at hp
    obtain ⟨hold, hne⟩ := mem_filter.mp hp
    exact ⟨hold, of_decide_eq_true hne⟩
  cases hpending : s.dispatcher.pending requestId with
  | none =>
    have hran : ranHandlers (s.log ++ [.dispatched requestId none]) = ranHandlers s.log := by
      rw [ranHandlers, filterMap_append]
      exact append_nil _
    rw [step_dispatch_none hpending]
    constructor
    · exact h.counter
    · exact fun p hp => h.numbered p (hsub none p hp).1
    · intro id
      rw [h.outstanding_dispatched requestId none id]
      split
      case isTrue hid => rw [hid, hpending]
      case isFalse => rfl
    · intro handler hmem
      rw [hran] at hmem
      obtain ⟨hlt, hnot⟩ := h.ran handler hmem
      refine ⟨hlt, fun hwaits => ?_⟩
      obtain ⟨p, hp, rfl⟩ := List.mem_map.mp hwaits
      exact hnot (List.mem_map_of_mem (hsub none p hp).1)
    · rw [hran]
      exact h.once
    · exact answered_append h.answered fun requestId handler he => nomatch he
  | some handler =>
    have hran : ranHandlers (s.log ++ [.dispatched requestId (some handler)]) =
        ranHandlers s.log ++ [handler] := by
      rw [ranHandlers, filterMap_append]
      rfl
    have hmem := h.mem_outstanding hpending
    obtain ⟨hlt, hid⟩ := h.numbered _ hmem
    -- The number of a request gives its id, so the one that is answered waits no more.
    have hgone : handler ∉
        (outstanding (s.log ++ [.dispatched requestId (some handler)])).map Prod.fst := by
      intro hwaits
      obtain ⟨p, hp, hfst⟩ := List.mem_map.mp hwaits
      obtain ⟨hold, hne⟩ := hsub _ p hp
      have hpid := (h.numbered p hold).2
      rw [hfst] at hpid
      exact hne (hpid.trans hid.symm)
    rw [step_dispatch_some hpending]
    constructor
    · exact h.counter
    · exact fun p hp => h.numbered p (hsub _ p hp).1
    · intro id
      rw [h.outstanding_dispatched requestId _ id]
      change Function.update s.dispatcher.pending requestId none id = _
      split
      case isTrue heq => rw [heq, Function.update_self]
      case isFalse hne => rw [Function.update_of_ne hne]
    · intro other hother
      rw [hran] at hother
      rcases mem_append.mp hother with hold | hnew
      · obtain ⟨hlt, hnot⟩ := h.ran other hold
        refine ⟨hlt, fun hwaits => ?_⟩
        obtain ⟨p, hp, rfl⟩ := List.mem_map.mp hwaits
        exact hnot (List.mem_map_of_mem (hsub _ p hp).1)
      · cases mem_singleton.mp hnew
        exact ⟨hlt, hgone⟩
    · rw [hran]
      refine List.nodup_append.mpr ⟨h.once, nodup_singleton _, ?_⟩
      intro other hother new hnew heq
      rw [mem_singleton.mp hnew] at heq
      rw [heq] at hother
      exact (h.ran handler hother).2 (List.mem_map_of_mem hmem)
    · refine answered_append h.answered fun id other he => ?_
      cases he
      exact hmem

theorem finish (result : Bool) : (s.step (.finish result)).Valid := by
  cases hrunning : s.running with
  | nil =>
    rw [step_finish_nil hrunning]
    exact h
  | cons handler running =>
    have hwaiting : outstanding (s.log ++ [.finished handler result]) = outstanding s.log := by
      rw [outstanding_append]
      rfl
    have hran : ranHandlers (s.log ++ [.finished handler result]) = ranHandlers s.log := by
      rw [ranHandlers, filterMap_append]
      exact append_nil _
    rw [step_finish_cons hrunning]
    constructor
    · exact h.counter
    · rw [hwaiting]
      exact h.numbered
    · rw [hwaiting]
      exact h.pending
    · rw [hwaiting, hran]
      exact h.ran
    · rw [hran]
      exact h.once
    · exact answered_append h.answered fun requestId handler he => nomatch he

theorem step (c : Call) : (s.step c).Valid := by
  cases c with
  | register => exact h.register
  | dispatch requestId => exact h.dispatch requestId
  | finish result => exact h.finish result

end Valid

theorem valid_run (calls : List Call) : (run calls).Valid := by
  induction calls using List.reverseRecOn with
  | nil =>
    refine ⟨rfl, ?_, fun _ => rfl, ?_, nodup_nil, ?_⟩
    · exact fun p hp => nomatch hp
    · exact fun handler hmem => nomatch hmem
    · intro log requestId handler hprefix
      exact absurd (prefix_nil.mp hprefix)
        (append_ne_nil_of_right_ne_nil _ (cons_ne_nil _ _))
  | append_singleton calls c ih =>
    rw [run_append]
    exact ih.step c

/-! ### The ids -/

theorem log_register (s : Calls) : (s.step .register).log =
    s.log ++ [.registered s.registered s.dispatcher.nextRequestId] := rfl

theorem outstanding_register (s : Calls) : outstanding (s.step .register).log =
    outstanding s.log ++ [(s.registered, s.dispatcher.nextRequestId)] := by
  rw [log_register, outstanding_append]
  rfl

theorem step_of_ne_register (s : Calls) {c : Call} (hc : c ≠ .register) :
    (s.step c).registered = s.registered ∧
      (outstanding (s.step c).log).Sublist (outstanding s.log) := by
  cases c with
  | register => exact absurd rfl hc
  | dispatch requestId =>
    cases hpending : s.dispatcher.pending requestId with
    | none =>
      rw [step_dispatch_none hpending]
      refine ⟨rfl, ?_⟩
      rw [outstanding_append]
      exact filter_sublist
    | some handler =>
      rw [step_dispatch_some hpending]
      refine ⟨rfl, ?_⟩
      rw [outstanding_append]
      exact filter_sublist
  | finish result =>
    cases hrunning : s.running with
    | nil =>
      rw [step_finish_nil hrunning]
      exact ⟨rfl, List.Sublist.refl _⟩
    | cons handler running =>
      rw [step_finish_cons hrunning]
      refine ⟨rfl, ?_⟩
      rw [outstanding_append]
      exact List.Sublist.refl _

theorem exists_waiting {calls : List Call} {p : Nat × UInt64} {j : Nat}
    (hp : p ∈ outstanding (run calls).log) (hlt : p.1 < j) (hj : j < (run calls).registered) :
    ∃ pre, pre ++ [.register] <+: calls ∧ (run pre).registered = j ∧
      p ∈ outstanding (run pre).log := by
  induction calls using List.reverseRecOn with
  | nil => cases hp
  | append_singleton calls c ih =>
    rw [run_append] at hp hj
    have hearlier (hp : p ∈ outstanding (run calls).log) (hj : j < (run calls).registered) :
        ∃ pre, pre ++ [.register] <+: calls ++ [c] ∧ (run pre).registered = j ∧
          p ∈ outstanding (run pre).log := by
      obtain ⟨pre, hpre, hat⟩ := ih hp hj
      exact ⟨pre, hpre.trans (prefix_append _ _), hat⟩
    by_cases hc : c = .register
    · subst hc
      rw [outstanding_register] at hp
      have hj : j < (run calls).registered + 1 := hj
      rcases mem_append.mp hp with hold | hnew
      · rcases Nat.lt_succ_iff_lt_or_eq.mp hj with hbefore | hnow
        · exact hearlier hold hbefore
        · exact ⟨calls, prefix_rfl, hnow.symm, hold⟩
      · cases mem_singleton.mp hnew
        have hlt : (run calls).registered < j := hlt
        omega
    · obtain ⟨hregistered, hsub⟩ := step_of_ne_register (run calls) hc
      rw [hregistered] at hj
      exact hearlier (hsub.subset hp) hj

/-- No request waits while `2 ^ 64` others are registered behind it. -/
def Turnover (calls : List Call) : Prop :=
  ∀ pre, pre ++ [.register] <+: calls → ∀ p ∈ outstanding (run pre).log,
    p.1 + 2 ^ 64 ≠ (run pre).registered

theorem nodup_register_iff (pre : List Call)
    (h : ((outstanding (run pre).log).map Prod.snd).Nodup) :
    ((outstanding (run (pre ++ [.register])).log).map Prod.snd).Nodup ↔
      (run pre).dispatcher.nextRequestId ∉ (outstanding (run pre).log).map Prod.snd := by
  rw [run_append, outstanding_register, map_append, List.nodup_append]
  constructor
  · rintro ⟨-, -, hne⟩ hmem
    exact hne _ hmem _ (mem_singleton.mpr rfl) rfl
  · intro hnot
    refine ⟨h, nodup_singleton _, ?_⟩
    intro requestId hmem new hnew heq
    rw [heq, mem_singleton.mp hnew] at hmem
    exact hnot hmem

theorem nodup_ids_iff (calls : List Call) :
    (∀ pre, pre <+: calls → ((outstanding (run pre).log).map Prod.snd).Nodup) ↔
      Turnover calls := by
  constructor
  · intro h pre hpre p hp hround
    have hold := h pre ((prefix_append _ _).trans hpre)
    refine (nodup_register_iff pre hold).mp (h _ hpre) (List.mem_map.mpr ⟨p, hp, ?_⟩)
    rw [(valid_run pre).counter, ← hround, ((valid_run pre).numbered p hp).2]
    apply UInt64.toNat_inj.mp
    rw [UInt64.toNat_ofNat', UInt64.toNat_ofNat']
    omega
  · intro h pre hpre
    induction pre using List.reverseRecOn with
    | nil => exact nodup_nil
    | append_singleton pre c ih =>
      have hold := ih ((prefix_append _ _).trans hpre)
      by_cases hc : c = .register
      · subst hc
        refine (nodup_register_iff pre hold).mpr fun hmem => ?_
        obtain ⟨p, hp, hid⟩ := List.mem_map.mp hmem
        obtain ⟨hlt, hnum⟩ := (valid_run pre).numbered p hp
        rw [hnum, (valid_run pre).counter] at hid
        have hmod := congrArg UInt64.toNat hid
        rw [UInt64.toNat_ofNat', UInt64.toNat_ofNat'] at hmod
        rcases Nat.lt_trichotomy (p.1 + 2 ^ 64) (run pre).registered with hround | hround | hround
        -- The counter has gone around more than once: it met the request the first time.
        · obtain ⟨pre', hpre', hat, hp'⟩ := exists_waiting hp (by omega) hround
          have hcalls : pre' ++ [.register] <+: calls :=
            (hpre'.trans (prefix_append _ _)).trans hpre
          exact h pre' hcalls p hp' hat.symm
        · exact h pre hpre p hp hround
        · omega
      · rw [run_append]
        exact hold.sublist ((step_of_ne_register (run pre) hc).2.map Prod.snd)

/-- **Response matching.**  In every run, with calls from inside handlers: a handler is run at most
once, and only with the first response that carries its id behind its registration; a response
with an id nobody waits for runs nothing; and while no request waits for `2 ^ 64` registrations,
the requests that wait have different ids. -/
theorem dispatch_matches (calls : List Call) :
    (∀ handler, (ranHandlers (run calls).log).count handler ≤ 1) ∧
    (∀ log requestId handler,
      log ++ [.dispatched requestId (some handler)] <+: (run calls).log →
      ∃ before after, log = before ++ .registered handler requestId :: after ∧
        ∀ ran, .dispatched requestId ran ∉ after) ∧
    (∀ requestId, requestId ∉ (outstanding (run calls).log).map Prod.snd →
      run (calls ++ [.dispatch requestId]) =
        { run calls with log := (run calls).log ++ [.dispatched requestId none] }) ∧
    ((∀ pre, pre <+: calls → ((outstanding (run pre).log).map Prod.snd).Nodup) ↔
      Turnover calls) := by
  refine ⟨fun handler => ?_, fun log requestId handler hprefix => ?_, fun requestId hnot => ?_,
    nodup_ids_iff calls⟩
  · exact nodup_iff_count_le_one.mp (valid_run calls).once handler
  · exact exists_of_mem_outstanding ((valid_run calls).answered log requestId handler hprefix)
  · rw [run_append]
    exact step_dispatch_none ((valid_run calls).pending_eq_none_iff.mpr hnot)

theorem registered_replicate (n : Nat) :
    (run (List.replicate n .register)).registered = n := by
  induction n with
  | zero => rfl
  | succ n ih =>
    rw [replicate_succ', run_append]
    exact congrArg (· + 1) ih

theorem mem_outstanding_replicate {n i : Nat} (hi : i < n) :
    (i, UInt64.ofNat (i + 1)) ∈ outstanding (run (List.replicate n .register)).log := by
  induction n with
  | zero => exact absurd hi (Nat.not_lt_zero i)
  | succ n ih =>
    rw [replicate_succ', run_append, outstanding_register, registered_replicate,
      (valid_run _).counter, registered_replicate, mem_append]
    rcases Nat.lt_succ_iff_lt_or_eq.mp hi with hbefore | rfl
    · exact Or.inl (ih hbefore)
    · exact Or.inr (mem_singleton.mpr rfl)

/-- Request number `2 ^ 64` gets the id of the first, which may still wait; and a handler can run
behind an earlier response with its id, one that came before it was registered. -/
theorem not_dispatch_matches :
    (¬ ∀ calls, ((outstanding (run calls).log).map Prod.snd).Nodup) ∧
    (¬ ∀ calls log requestId handler,
      log ++ [.dispatched requestId (some handler)] <+: (run calls).log →
        ∀ ran, .dispatched requestId ran ∉ log) := by
  constructor
  · intro h
    have hfirst := mem_outstanding_replicate (n := 2 ^ 64 + 1) (i := 0) (by omega)
    have hagain := mem_outstanding_replicate (n := 2 ^ 64 + 1) (i := 2 ^ 64) (by omega)
    have hid : UInt64.ofNat (0 + 1) = UInt64.ofNat (2 ^ 64 + 1) := by
      have hwrap : (0 + 1) % 2 ^ 64 = (2 ^ 64 + 1) % 2 ^ 64 := by omega
      apply UInt64.toNat_inj.mp
      exact UInt64.toNat_ofNat'.trans (hwrap.trans UInt64.toNat_ofNat'.symm)
    have hsame := inj_on_of_nodup_map (h _) hfirst hagain hid
    have hzero : 0 = 2 ^ 64 := congrArg Prod.fst hsame
    omega
  · intro h
    refine h [.dispatch 1, .register, .dispatch 1] [.dispatched 1 none, .registered 0 1] 1 0 ?_
      none ?_
    · exact ⟨[], by decide⟩
    · decide

end Calls

end Voodoo.Bindings
