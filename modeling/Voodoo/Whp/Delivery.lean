import Voodoo.Whp.Raises

/-!
# The events of a closed trap

`WhpPumpEvents` takes the pending events out of the core and calls their handlers
afterwards, and a handler may call anything, so a batch of events can be on its way
while the core goes on (`Loop`).  Closing a trap drops the pending events with the
contexts its triggers have: not those of a trigger removed before, not those on
their way, and those of other traps too where a context is shared.
-/

namespace Voodoo.Whp

open List

/-- The core, and what every call of `WhpPumpEvents` in progress has still to deliver. -/
structure Loop where
  core : Core := {}
  batches : List (List PendingEvent) := []

inductive LoopOp where
  | call (op : Op)
  /-- The next handler of a call in progress is called. -/
  | deliver (i : Nat)

namespace Core

variable {c c' c'' : Core} {h : Handle} {o obj : Obj} {op : Op} {n : Nat} {t : TrapObj}

/-- The trap with this serial number is open. -/
def OpenTrap (c : Core) (n : Nat) : Prop := ∃ h t, c.lookup h = some (.trap t) ∧ c.serial h = n

/-- Closing the trap leaves the pending events of the others as they were; new ones come after
them. -/
def KeepsOthers (c : Core) (h : Handle) (t : TrapObj) : Prop :=
  (c.release h (.trap t)).pendingEvents.filter (·.trap ≠ c.serial h) =
      c.pendingEvents.filter (·.trap ≠ c.serial h) ∧
    ∃ new, (c.close h).2.pendingEvents = (c.release h (.trap t)).pendingEvents ++ new

/-- No pending event of another trap has the context of a trigger of this one. -/
def SharesNoContext (c : Core) (h : Handle) (t : TrapObj) : Prop :=
  ∀ e ∈ c.pendingEvents, e.trap ≠ c.serial h → e.event.triggerContext ∉ t.triggers.map (·.context)

/-! ### The traps that events come from -/

/-- Open traps stay open, and events are posted for open traps only. -/
structure Posts (c c' : Core) : Prop where
  opened : ∀ n, c.OpenTrap n → c'.OpenTrap n
  events : ∀ e ∈ c'.pendingEvents, e ∈ c.pendingEvents ∨ c'.OpenTrap e.trap

namespace Posts

protected theorem refl (c : Core) : Posts c c := ⟨fun _ => id, fun _ => Or.inl⟩

protected theorem trans (h₁ : Posts c c') (h₂ : Posts c' c'') : Posts c c'' where
  opened n := h₂.opened n ∘ h₁.opened n
  events e he := by
    rcases h₂.events e he with he | hopen
    · exact (h₁.events e he).imp_right (h₂.opened _)
    · exact Or.inr hopen

theorem raises (hr : Raises c c') : Posts c c' where
  opened := by
    rintro n ⟨h, t, ht, hn⟩
    have hts := triggersAt_of_trap ht
    obtain ⟨t', ht', -⟩ := trap_of_triggersAt ((congrFun hr.triggersAt h).trans hts)
    exact ⟨h, t', ht', (hr.serial h (by rw [hts]; nofun)).trans hn⟩
  events e he := by
    rcases hr.events e he with hold | ⟨h, ts, trig, hts, -, -, htrap⟩
    · exact Or.inl hold
    · obtain ⟨t', ht', -⟩ := trap_of_triggersAt ((congrFun hr.triggersAt h).trans hts)
      exact Or.inr ⟨h, t', ht', (hr.serial h (by rw [hts]; nofun)).trans htrap.symm⟩

theorem alloc (hs : c.Sound) (obj : Obj) : Posts c (c.alloc obj) where
  opened := by
    rintro n ⟨h, t, ht, hn⟩
    have hne := hs.table.nextHandle_ne ht
    exact ⟨h, t, by rw [hs.table.lookup_alloc, if_neg hne]; exact ht,
      by rw [hs.table.serial_alloc, if_neg hne]; exact hn⟩
  events e he := Or.inl (alloc_pendingEvents c obj ▸ he)

theorem setTrap {t' : TrapObj} (hlive : c.lookup h = some (.trap t)) :
    Posts c (c.setObj h (.trap t')) where
  opened := by
    rintro n ⟨g, tg, ht, hn⟩
    by_cases hg : g = h
    · exact ⟨g, t', by rw [lookup_setObj hlive, if_pos hg], by rw [serial_setObj]; exact hn⟩
    · exact ⟨g, tg, by rw [lookup_setObj hlive, if_neg hg]; exact ht,
        by rw [serial_setObj]; exact hn⟩
  events e he := Or.inl he

theorem post {e : PendingEvent} (hlive : c.lookup h = some (.trap t)) (he : e.trap = c.serial h) :
    Posts c (c.post e) where
  opened n := id
  events e' he' := by
    rcases mem_append.mp he' with he' | he'
    · exact Or.inl he'
    · obtain rfl := mem_singleton.mp he'
      exact Or.inr ⟨h, t, hlive, he.symm⟩

end Posts

theorem posts_step (hs : c.Sound) (hop : ∀ h t, op = .close h → c.lookup h ≠ some (.trap t)) :
    Posts c (c.step op) := by
  cases op with
  | createTrap handler =>
    cases handler with
    | none => exact .refl c
    | some handler =>
      have halloc : Posts c (c.alloc (.trap { handler := handler })) := .alloc hs _
      exact halloc.trans (.raises (.same rfl fun _ => id))
  | addTrigger t h signals condition context =>
    simp only [step, perform, addTrigger]
    split
    · exact .setTrap ‹_›
    · exact .refl c
  | removeTrigger t context =>
    simp only [step, perform, removeTrigger]
    split
    · rename_i tr htrap
      split
      · exact .refl c
      · have hpost : Posts c (c.post (c.cancelledEvent t tr context)) := .post htrap rfl
        exact hpost.trans (.setTrap htrap)
    · exact .refl c
  | armTrap t room wanted => exact .raises (raises_armTrap c t room wanted)
  | pumpEvents => exact .raises (.same rfl (by rintro _ ⟨⟩))
  | close h => exact .raises (raises_step hs fun t => hop h t rfl)
  | _ => exact .raises (raises_step hs trivial)

theorem openTrap_close (hlive : c.lookup h = some (.trap t)) :
    (∀ n, n ≠ c.serial h → c.OpenTrap n → (c.step (.close h)).OpenTrap n) ∧
      ∀ e ∈ (c.step (.close h)).pendingEvents,
        e ∈ c.purge t.triggers ∨ (c.step (.close h)).OpenTrap e.trap := by
  have hstep : c.step (.close h) = ((c.release h (.trap t)).free h).collectTrapEvents := by
    rw [step, perform, close, hlive]
  have hcollected :=
    Posts.raises (.collected (collected_collectTrapEvents ((c.release h (.trap t)).free h)))
  rw [hstep]
  refine ⟨fun n hn hopen => hcollected.opened n ?_, fun e he => ?_⟩
  · obtain ⟨g, tg, hg, hserial⟩ := hopen
    have hne : g ≠ h := by
      rintro rfl
      exact hn hserial.symm
    refine ⟨g, tg, ?_, ?_⟩
    · rw [lookup_free, if_neg hne]
      exact hg
    · rw [serial_free]
      exact hserial
  · refine (hcollected.events e he).imp_left fun he' => ?_
    rw [free_pendingEvents] at he'
    exact he'

theorem filter_purge_iff {events : List PendingEvent} {contexts : List Nat} {n : Nat} :
    (events.filter fun e => e.event.triggerContext ∉ contexts).filter (·.trap ≠ n) =
        events.filter (·.trap ≠ n) ↔
      ∀ e ∈ events, e.trap ≠ n → e.event.triggerContext ∉ contexts := by
  rw [List.filter_filter]
  constructor
  · intro heq e he hn hmem
    have hin : e ∈ events.filter (·.trap ≠ n) := mem_filter.mpr ⟨he, decide_eq_true hn⟩
    rw [← heq] at hin
    have hand := (mem_filter.mp hin).2
    rw [Bool.and_eq_true, decide_eq_true_iff, decide_eq_true_iff] at hand
    exact hand.2 hmem
  · intro hno
    refine filter_congr fun e he => ?_
    by_cases hn : e.trap = n
    · simp [hn]
    · simp [hn, hno e he hn]

/-- **Closing a trap keeps the events of the others** exactly if it shares no context with one that
is waiting. -/
theorem keepsOthers_iff (hlive : c.lookup h = some (.trap t)) :
    c.KeepsOthers h t ↔ c.SharesNoContext h t := by
  have hnew : ∃ new, (c.close h).2.pendingEvents =
      (c.release h (.trap t)).pendingEvents ++ new := by
    obtain ⟨slots, events, hc', -⟩ :=
      (collected_collectTrapEvents ((c.release h (.trap t)).free h)).rest
    refine ⟨events, ?_⟩
    rw [close, hlive]
    dsimp only
    rw [hc', ← free_pendingEvents (c.release h (.trap t)) h]
  exact (and_iff_left hnew).trans filter_purge_iff

end Core

/-! ### Delivery -/

namespace Loop

variable {s : Loop} {op : LoopOp}

def step (s : Loop) : LoopOp → Loop
  | .call op =>
    { core := s.core.step op
      batches := match op with
        | .pumpEvents => s.batches ++ [s.core.pendingEvents]
        | _ => s.batches }
  | .deliver i => { s with batches := s.batches.modify i List.tail }

/-- The event is pending, or taken and not delivered yet. -/
def Undelivered (s : Loop) (e : PendingEvent) : Prop :=
  e ∈ s.core.pendingEvents ∨ ∃ batch ∈ s.batches, e ∈ batch

/-- Only events of open traps will be delivered. -/
def Isolated (s : Loop) : Prop := ∀ e, s.Undelivered e → s.core.OpenTrap e.trap

/-- A trap is closed when none of its events is on the way, and those that are pending are for
triggers it still has. -/
def ClosesCleanly (s : Loop) : LoopOp → Prop
  | .call (.close h) =>
    ∀ t, s.core.lookup h = some (.trap t) →
      (∀ e ∈ s.core.pendingEvents, e.trap = s.core.serial h →
        e.event.triggerContext ∈ t.triggers.map (·.context)) ∧
      ∀ batch ∈ s.batches, ∀ e ∈ batch, e.trap ≠ s.core.serial h
  | _ => True

theorem subset_of_mem_modify_tail {batches : List (List PendingEvent)} {i : Nat}
    {batch : List PendingEvent} (h : batch ∈ batches.modify i List.tail) :
    ∃ batch' ∈ batches, batch ⊆ batch' := by
  induction batches generalizing i with
  | nil => cases i <;> cases h
  | cons b bs ih =>
    cases i with
    | zero =>
      rcases mem_cons.mp h with rfl | h
      · exact ⟨b, mem_cons_self, fun _ => mem_of_mem_tail⟩
      · exact ⟨batch, mem_cons_of_mem _ h, fun _ => id⟩
    | succ i =>
      rcases mem_cons.mp h with rfl | h
      · exact ⟨batch, mem_cons_self, fun _ => id⟩
      · obtain ⟨batch', hmem, hsub⟩ := ih h
        exact ⟨batch', mem_cons_of_mem _ hmem, hsub⟩

theorem isolated_posts (hi : s.Isolated) {c : Core} (hp : Core.Posts s.core c)
    {batches : List (List PendingEvent)}
    (hbatches : ∀ batch ∈ batches, ∀ e ∈ batch, s.Undelivered e) :
    (⟨c, batches⟩ : Loop).Isolated := by
  rintro e (he | ⟨batch, hbatch, he⟩)
  · rcases hp.events e he with he | hopen
    · exact hp.opened _ (hi e (Or.inl he))
    · exact hopen
  · exact hp.opened _ (hi e (hbatches batch hbatch e he))

theorem isolated_step (hs : s.core.Sound) (hi : s.Isolated) (hc : s.ClosesCleanly op) :
    (s.step op).Isolated := by
  have hold : ∀ batch ∈ s.batches, ∀ e ∈ batch, s.Undelivered e := fun batch hbatch e he =>
    Or.inr ⟨batch, hbatch, he⟩
  cases op with
  | deliver i =>
    rintro e (he | ⟨batch, hbatch, he⟩)
    · exact hi e (Or.inl he)
    · obtain ⟨batch', hmem, hsub⟩ := subset_of_mem_modify_tail hbatch
      exact hi e (Or.inr ⟨batch', hmem, hsub he⟩)
  | call op =>
    by_cases htrap : ∃ h t, op = .close h ∧ s.core.lookup h = some (.trap t)
    · obtain ⟨h, t, rfl, hlive⟩ := htrap
      obtain ⟨hpending, hbatches⟩ := hc t hlive
      obtain ⟨hopen, hevents⟩ := Core.openTrap_close hlive
      rintro e (he | ⟨batch, hbatch, he⟩)
      · rcases hevents e he with he | hopened
        · obtain ⟨he, hcontext⟩ := mem_filter.mp he
          refine hopen _ (fun heq => ?_) (hi e (Or.inl he))
          exact of_decide_eq_true hcontext (hpending e he heq)
        · exact hopened
      · exact hopen _ (hbatches batch hbatch e he) (hi e (Or.inr ⟨batch, hbatch, he⟩))
    · have hposts : Core.Posts s.core (s.core.step op) :=
        Core.posts_step hs fun h t h₁ h₂ => htrap ⟨h, t, h₁, h₂⟩
      refine isolated_posts hi hposts ?_
      cases op with
      | pumpEvents =>
        intro batch hbatch e he
        rcases mem_append.mp hbatch with hbatch | hbatch
        · exact hold batch hbatch e he
        · obtain rfl := mem_singleton.mp hbatch
          exact Or.inl he
      | _ => exact hold

/-- **No event of a trap is delivered after it was closed**, in a run that closes traps cleanly, and
closing one keeps the events of the others where it shares no context with them. -/
theorem isolated_of_reaches (h : Machine.Reaches ({} : Loop) step ClosesCleanly s) :
    s.Isolated ∧ ∀ th t, s.core.lookup th = some (.trap t) →
      (s.core.KeepsOthers th t ↔ s.core.SharesNoContext th t) := by
  have hsound : ∀ s, Machine.Reaches ({} : Loop) step ClosesCleanly s → s.core.Sound := by
    intro s h
    refine h.invariant (I := fun s => s.core.Sound) Core.sound_start fun s op hs _ => ?_
    cases op with
    | call op => exact Core.sound_step hs op
    | deliver i => exact hs
  have hstart : Isolated {} := by
    rintro e (he | ⟨batch, hbatch, he⟩)
    · cases he
    · cases hbatch
  exact ⟨h.invariant_under hsound hstart fun s op hs hi hc => isolated_step hs hi hc,
    fun th t hlive => Core.keepsOthers_iff hlive⟩

/-- A trap is closed while its event is pending. -/
def closedFired : List LoopOp :=
  [.call .createMessagePipe, .call (.createTrap (some 0)), .call (.addTrigger 3 1 readable 0 5),
    .call (.armTrap 3 none false), .call (.silent .createMessage), .call (.writeMessage 2 4),
    .call (.close 3)]

theorem isolated_closedFired : (closedFired.foldl step {}).Isolated := by
  refine (isolated_of_reaches (Machine.Reaches.start.along ?_)).1
  refine ⟨trivial, trivial, trivial, trivial, trivial, trivial, fun t ht => ⟨?_, nofun⟩, trivial⟩
  obtain rfl := Obj.trap.inj (Option.some.inj ht)
  intro e he _
  obtain rfl := mem_singleton.mp he
  decide

/-- The trigger is removed before its trap is closed. -/
def closedRemoved : List LoopOp :=
  [.call .createMessagePipe, .call (.createTrap (some 0)), .call (.addTrigger 3 1 readable 0 5),
    .call (.removeTrigger 3 5), .call (.close 3)]

/-- The event has been taken by `WhpPumpEvents` when its trap is closed. -/
def closedTaken : List LoopOp := closedFired.dropLast ++ [.call .pumpEvents, .call (.close 3)]

/-- Two traps have triggers with one context; an event of the second is pending. -/
def sharedContext : List LoopOp :=
  [.call .createMessagePipe, .call (.createTrap (some 0)), .call (.createTrap (some 1)),
    .call (.addTrigger 3 1 readable 0 5), .call (.addTrigger 4 1 readable 0 5),
    .call (.removeTrigger 4 5)]

/-- Events are delivered for traps that are closed, and closing a trap drops one of another. -/
theorem not_isolated_closed :
    ¬ (closedRemoved.foldl step {}).Isolated ∧ ¬ (closedTaken.foldl step {}).Isolated ∧
      ∃ t, (sharedContext.foldl step {}).core.lookup 3 = some (.trap t) ∧
        ¬ (sharedContext.foldl step {}).core.KeepsOthers 3 t := by
  refine ⟨fun h => ?_, fun h => ?_, _, rfl, fun h => ?_⟩
  · obtain ⟨g, t, ht, -⟩ := h _ (Or.inl (mem_singleton.mpr rfl))
    rcases g with _ | _ | _ | _ | g <;> cases ht
  · obtain ⟨g, t, ht, -⟩ := h _ (Or.inr ⟨_, mem_singleton.mpr rfl, mem_singleton.mpr rfl⟩)
    rcases g with _ | _ | _ | _ | _ | g <;> cases ht
  · exact absurd (congrArg List.length h.1) (by decide)

end Loop

end Voodoo.Whp
