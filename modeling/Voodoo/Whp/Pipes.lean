import Voodoo.Whp.Frame
import Voodoo.Whp.Messages

/-!
# What the functions on message pipes do

Every call of `createMessagePipe`, `writeMessage`, `readMessage` and
`fuseMessagePipes`, case by case.  `fuseMessagePipes` either refuses or finds the two
peers (`Fusion`) and puts a new state between them (`fused`).
-/

namespace Voodoo.Whp.Core

variable {c : Core} {a b g h h0 h1 x : Handle} {e e' e0 e1 : PipeEnd}

/-! ### Ends and queues -/

/-- The handle is open, and is this end of a message pipe. -/
abbrev IsEnd (c : Core) (x : Handle) (e : PipeEnd) : Prop := c.lookup x = some (.messagePipe e)

theorem not_isEnd (hx : c.lookup x = none) : ¬ c.IsEnd x e := by
  rw [IsEnd, hx]
  exact nofun

def queue (c : Core) (e : PipeEnd) : List MessageObj := (c.pipes e.state).queues e.side

theorem queue_setQueue_self (c : Core) (e : PipeEnd) (l : List MessageObj) :
    (c.setQueue e l).queue e = l := by
  unfold queue setQueue
  rw [setPipe_self]
  exact Function.update_self ..

theorem queue_setQueue_of_ne (c : Core) (l : List MessageObj) (h : e' ≠ e) :
    (c.setQueue e l).queue e' = c.queue e' := by
  unfold queue setQueue
  by_cases hi : e'.state = e.state
  · have hside : e'.side ≠ e.side := by
      intro hside
      cases e'
      cases e
      exact h (congrArg₂ PipeEnd.mk hi hside)
    rw [hi, setPipe_self]
    exact Function.update_of_ne hside ..
  · rw [setPipe_of_ne _ _ hi]

theorem closed_setQueue (c : Core) (e : PipeEnd) (l : List MessageObj) (i : Nat) :
    ((c.setQueue e l).pipes i).closed = (c.pipes i).closed := by
  unfold setQueue
  by_cases hi : i = e.state
  · rw [hi, setPipe_self]
  · rw [setPipe_of_ne _ _ hi]

/-! ### Making, writing and reading -/

theorem Sound.newPipe (hs : c.Sound) (s : PipeState) : (c.newPipe s).Sound :=
  hs.more rfl rfl rfl (Nat.le_succ _) (Nat.le_refl _)

theorem createMessagePipe_eq (hs : c.Sound) :
    c.createMessagePipe.1 =
        { result := .ok, handles := [c.nextHandles.1, c.nextHandles.2] } ∧
      ∀ x, c.createMessagePipe.2.lookup x =
        if x = c.nextHandles.2 then some (.messagePipe ⟨c.pipeCount, true⟩)
        else if x = c.nextHandles.1 then some (.messagePipe ⟨c.pipeCount, false⟩)
        else c.lookup x := by
  have hnew : (c.newPipe {}).Sound := hs.newPipe {}
  refine ⟨?_, fun x => hnew.table.lookup_alloc_alloc _ _ x⟩
  have hsnd := nextHandle_alloc (c.newPipe {}) (.messagePipe ⟨c.pipeCount, false⟩)
  unfold createMessagePipe
  dsimp only
  rw [hsnd, ← nextHandles_fst]
  rfl

theorem createMessagePipe_pipes (c : Core) : c.createMessagePipe.2.pipes = (c.newPipe {}).pipes := by
  simp only [createMessagePipe, alloc_pipes]

theorem writeMessage_cases (c : Core) (p m : Handle) :
    (∃ r, r ≠ .ok ∧ c.writeMessage p m = c.refuse r) ∨
    (∃ e msg, c.IsEnd p e ∧ c.lookup m = some (.message msg) ∧
      ((c.pipes e.state).closed e.other.side = true ∨ (c.pipes e.state).closed e.side = true) ∧
      c.writeMessage p m = ({ result := .failedPrecondition }, (c.free m).collectTrapEvents)) ∨
    ∃ e msg, c.IsEnd p e ∧ c.lookup m = some (.message msg) ∧
      (c.pipes e.state).closed e.other.side = false ∧
      c.writeMessage p m = ({ result := .ok },
        ((c.setQueue e.other (c.queue e.other ++ [{ msg with committed := true }])).free
          m).collectTrapEvents) := by
  unfold writeMessage
  split
  · rename_i e msg hp hm
    dsimp only
    split
    · exact Or.inr (Or.inl ⟨e, msg, hp, hm, ‹_›, rfl⟩)
    · rename_i hopen
      split
      · exact Or.inl ⟨.resourceExhausted, nofun, rfl⟩
      · refine Or.inr (Or.inr ⟨e, msg, hp, hm, ?_, rfl⟩)
        exact Bool.eq_false_iff.mpr (not_or.mp hopen).1
  · exact Or.inl ⟨.invalidArgument, nofun, rfl⟩

theorem readMessage_cases (c : Core) (p : Handle) :
    ((∀ e, ¬ c.IsEnd p e) ∧ c.readMessage p = c.refuse .invalidArgument) ∨
    (∃ e r, c.IsEnd p e ∧ c.queue e = [] ∧ r ≠ .ok ∧ c.readMessage p = c.refuse r) ∨
    ∃ e msg rest, c.IsEnd p e ∧ c.queue e = msg :: rest ∧ c.readMessage p =
      ({ result := .ok, handles := [c.nextHandle] }, (c.setQueue e rest).alloc (.message msg)) := by
  unfold readMessage
  split
  · rename_i e hp
    dsimp only
    split
    · rename_i hnil
      refine Or.inr (Or.inl ⟨e, _, hp, hnil, ?_, rfl⟩)
      split <;> exact nofun
    · rename_i msg rest hcons
      exact Or.inr (Or.inr ⟨e, msg, rest, hp, hcons, rfl⟩)
  · rename_i hno
    exact Or.inl ⟨hno, rfl⟩

/-! ### The scan for the peer -/

theorem peerAt_eq_some {p : Handle × PipeEnd} :
    c.peerAt e h = some p ↔ p = (h, e.other) ∧ c.lookup h = some (.messagePipe p.2) := by
  unfold peerAt PipeEnd.other
  split
  · rename_i e' hlook
    constructor
    · intro hp
      split at hp
      · rename_i hcond
        obtain rfl := Option.some.inj hp
        refine ⟨Prod.ext rfl ?_, hlook⟩
        obtain ⟨hstate, hside⟩ := hcond
        cases e'
        cases e
        dsimp only at *
        rw [hstate, Bool.eq_not.mpr hside]
      · cases hp
    · rintro ⟨rfl, hp⟩
      obtain rfl := Obj.messagePipe.inj (Option.some.inj (hlook.symm.trans hp))
      exact if_pos ⟨rfl, Bool.not_ne_self _⟩
  · rename_i hno
    exact ⟨nofun, fun ⟨_, hp⟩ => absurd hp (hno _)⟩

theorem findPeer_eq_some {p : Handle × PipeEnd} (hp : c.findPeer a b e = some p) :
    p.2 = e.other ∧ c.lookup p.1 = some (.messagePipe e.other) := by
  obtain ⟨h, -, hh⟩ := List.exists_of_findSome?_eq_some hp
  split at hh
  · cases hh
  · obtain ⟨rfl, hlook⟩ := peerAt_eq_some.mp hh
    exact ⟨rfl, hlook⟩

/-! ### Fusing -/

/-- The two handles are ends of different pipes, and these are their peers. -/
structure Fusion (c : Core) (a b : Handle) (e0 e1 : PipeEnd) (h0 h1 : Handle) : Prop where
  state_ne : e0.state ≠ e1.state
  lookup_a : c.lookup a = some (.messagePipe e0)
  lookup_b : c.lookup b = some (.messagePipe e1)
  lookup_h0 : c.lookup h0 = some (.messagePipe e0.other)
  lookup_h1 : c.lookup h1 = some (.messagePipe e1.other)

/-- The core with the new state, before the traps are looked at. -/
def fused (c : Core) (a b : Handle) (e0 e1 : PipeEnd) (h0 h1 : Handle) : Core :=
  ((((c.newPipe (c.fuse e0 e1 e0.other e1.other)).setObj h0
    (.messagePipe ⟨c.pipeCount, false⟩)).setObj h1
    (.messagePipe ⟨c.pipeCount, true⟩)).free a).free b

/-- **Fusing changes nothing, or joins the peers of the two handles.** -/
theorem fuseMessagePipes_cases (c : Core) (a b : Handle) :
    (∃ r, r ≠ .ok ∧ c.fuseMessagePipes a b = c.refuse r) ∨
    ∃ e0 e1 h0 h1, Fusion c a b e0 e1 h0 h1 ∧
      c.fuseMessagePipes a b = ({ result := .ok }, (c.fused a b e0 e1 h0 h1).collectTrapEvents) := by
  unfold fuseMessagePipes
  split
  · rename_i e0 e1 ha hb
    split
    · exact Or.inl ⟨.invalidArgument, nofun, rfl⟩
    · rename_i hne
      split
      · rename_i h0 peer0 h1 peer1 hp0 hp1
        obtain ⟨hpeer0, hlook0⟩ := findPeer_eq_some hp0
        obtain ⟨hpeer1, hlook1⟩ := findPeer_eq_some hp1
        dsimp only at hpeer0 hpeer1
        rw [hpeer0, hpeer1]
        exact Or.inr ⟨e0, e1, h0, h1, ⟨(not_or.mp hne).2, ha, hb, hlook0, hlook1⟩, rfl⟩
      · exact Or.inl ⟨.failedPrecondition, nofun, rfl⟩
  · exact Or.inl ⟨.invalidArgument, nofun, rfl⟩

theorem ne_of_lookup_ne (ha : c.lookup a = some (.messagePipe e))
    (hb : c.lookup b = some (.messagePipe e')) (hne : e ≠ e') : a ≠ b := by
  rintro rfl
  exact hne (Obj.messagePipe.inj (Option.some.inj (ha.symm.trans hb)))

namespace Fusion

variable (hf : Fusion c a b e0 e1 h0 h1)

include hf

theorem ends_ne {x y : PipeEnd} (hx : x.state = e0.state) (hy : y.state = e1.state) : x ≠ y := by
  rintro rfl
  exact hf.state_ne (hx.symm.trans hy)

theorem a_ne_b : a ≠ b := ne_of_lookup_ne hf.lookup_a hf.lookup_b (hf.ends_ne rfl rfl)
theorem a_ne_h0 : a ≠ h0 := ne_of_lookup_ne hf.lookup_a hf.lookup_h0 (e0.ne_other)
theorem a_ne_h1 : a ≠ h1 := ne_of_lookup_ne hf.lookup_a hf.lookup_h1 (hf.ends_ne rfl rfl)
theorem h0_ne_b : h0 ≠ b := ne_of_lookup_ne hf.lookup_h0 hf.lookup_b (hf.ends_ne rfl rfl)
theorem h0_ne_h1 : h0 ≠ h1 := ne_of_lookup_ne hf.lookup_h0 hf.lookup_h1 (hf.ends_ne rfl rfl)
theorem b_ne_h1 : b ≠ h1 := ne_of_lookup_ne hf.lookup_b hf.lookup_h1 (e1.ne_other)

theorem lookup_setObj_setObj (g : Handle) :
    (((c.newPipe (c.fuse e0 e1 e0.other e1.other)).setObj h0
      (.messagePipe ⟨c.pipeCount, false⟩)).setObj h1 (.messagePipe ⟨c.pipeCount, true⟩)).lookup g =
      if g = h1 then some (.messagePipe ⟨c.pipeCount, true⟩)
      else if g = h0 then some (.messagePipe ⟨c.pipeCount, false⟩) else c.lookup g := by
  have hlive0 : (c.newPipe (c.fuse e0 e1 e0.other e1.other)).lookup h0 =
    some (.messagePipe e0.other) := hf.lookup_h0
  have hset := fun g => lookup_setObj hlive0 (.messagePipe ⟨c.pipeCount, false⟩) g
  have hlive1 := hset h1
  rw [if_neg hf.h0_ne_h1.symm] at hlive1
  rw [lookup_setObj (hlive1.trans hf.lookup_h1), hset]
  rfl

theorem lookup_fused (g : Handle) :
    (c.fused a b e0 e1 h0 h1).lookup g =
      if g = a ∨ g = b then none
      else if g = h1 then some (.messagePipe ⟨c.pipeCount, true⟩)
      else if g = h0 then some (.messagePipe ⟨c.pipeCount, false⟩) else c.lookup g := by
  rw [fused, lookup_free, lookup_free, hf.lookup_setObj_setObj]
  by_cases hb : g = b
  · rw [if_pos hb, if_pos (Or.inr hb)]
  · rw [if_neg hb]
    by_cases ha : g = a
    · rw [if_pos ha, if_pos (Or.inl ha)]
    · rw [if_neg ha, if_neg (not_or.mpr ⟨ha, hb⟩)]

theorem sound_fused (hs : c.Sound) : (c.fused a b e0 e1 h0 h1).Sound := by
  have hnew := hs.newPipe (c.fuse e0 e1 e0.other e1.other)
  have hset : ((c.newPipe (c.fuse e0 e1 e0.other e1.other)).setObj h0
      (.messagePipe ⟨c.pipeCount, false⟩)).Sound :=
    hnew.setObj hf.lookup_h0 (fun _ h => nomatch h) (Nat.lt_succ_self _)
  have hlive0 : (c.newPipe (c.fuse e0 e1 e0.other e1.other)).lookup h0 =
    some (.messagePipe e0.other) := hf.lookup_h0
  have hlive1 := lookup_setObj hlive0 (.messagePipe ⟨c.pipeCount, false⟩) h1
  rw [if_neg hf.h0_ne_h1.symm] at hlive1
  have hset' : (((c.newPipe (c.fuse e0 e1 e0.other e1.other)).setObj h0
      (.messagePipe ⟨c.pipeCount, false⟩)).setObj h1 (.messagePipe ⟨c.pipeCount, true⟩)).Sound :=
    hset.setObj (hlive1.trans hf.lookup_h1) (fun _ h => nomatch h) (Nat.lt_succ_self _)
  have hlook := hf.lookup_setObj_setObj
  have ha := hlook a
  rw [if_neg hf.a_ne_h1, if_neg hf.a_ne_h0, hf.lookup_a] at ha
  have hb := hlook b
  rw [if_neg hf.b_ne_h1, if_neg hf.h0_ne_b.symm, hf.lookup_b] at hb
  exact (hset'.free ha).free (by rw [lookup_free, if_neg hf.a_ne_b.symm]; exact hb)

end Fusion

end Voodoo.Whp.Core
