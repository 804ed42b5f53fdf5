import Voodoo.Lib.Wiring
import Voodoo.Whp.Run

/-!
# Message pipes deliver in order

The core refines the abstract channels of `Wiring`.  A wiring is kept beside the
core and follows the calls from outside: a write that returns `OK` is for the end
the written one is connected to, a read that returns `OK` is taken at its word, and
fusing and closing rewire (`observe`).  The invariant (`Wired`) says that every open
end is connected as the wiring has it and that its queue holds exactly what it has
still to receive.
-/

namespace Voodoo.Whp

open List Option Function

/-- The bytes and the handles of a message. -/
abbrev Content := List UInt8 × List Handle

def MessageObj.content (m : MessageObj) : Content := (m.bytes, m.handles)

/-- The operations that make message pipes, move messages or close an end. -/
def Op.onPipes : Op → Bool
  | .createMessagePipe | .writeMessage .. | .readMessage .. | .fuseMessagePipes .. | .close .. => true
  | _ => false

namespace Core

variable {c c' : Core} {h g x y p : Handle} {o obj : Obj} {e e' : PipeEnd}

/-! ### What a caller sees -/

/-- What the message behind a handle carries. -/
def content (c : Core) (h : Handle) : Option Content :=
  match c.lookup h with
  | some (.message m) => some m.content
  | _ => none

/-- The message that a write on `pipe` sends, if it returns `OK`. -/
def sent (c : Core) (pipe message : Handle) : Option Content :=
  if (c.writeMessage pipe message).1.result = .ok then c.content message else none

/-- The message that a read on `pipe` returns, if it returns `OK`. -/
def received (c : Core) (pipe : Handle) : Option Content :=
  if (c.readMessage pipe).1.result = .ok then
    (c.readMessage pipe).1.handles.head?.bind (c.readMessage pipe).2.content
  else none

/-- What an operation does to the wiring, told from what the caller sees. -/
def observe (c : Core) (w : Wiring Handle Content) : Op → Wiring Handle Content
  | .createMessagePipe =>
    match c.createMessagePipe.1.handles with
    | [a, b] => w.connect a b
    | _ => w
  | .writeMessage p m => (c.sent p m).elim w (w.send p)
  | .readMessage p => (c.received p).elim w (w.receive p)
  | .fuseMessagePipes a b => if (c.fuseMessagePipes a b).1.result = .ok then w.fuse a b else w
  | .close h => if (c.close h).1.result = .ok then w.disconnect h else w
  | _ => w

/-! ### Operations that leave the message pipes alone -/

/-- The message pipes are what they were. -/
structure PipesKept (c c' : Core) : Prop where
  isEnd : ∀ x e, c'.IsEnd x e ↔ c.IsEnd x e
  queue : ∀ e, c'.queue e = c.queue e
  closed : ∀ i, (c'.pipes i).closed = (c.pipes i).closed
  count : c'.pipeCount = c.pipeCount

namespace PipesKept

protected theorem refl (c : Core) : PipesKept c c :=
  ⟨fun _ _ => Iff.rfl, fun _ => rfl, fun _ => rfl, rfl⟩

protected theorem trans {c'' : Core} (h₁ : PipesKept c c') (h₂ : PipesKept c' c'') :
    PipesKept c c'' :=
  ⟨fun x e => (h₂.isEnd x e).trans (h₁.isEnd x e), fun e => (h₂.queue e).trans (h₁.queue e),
    fun i => (h₂.closed i).trans (h₁.closed i), h₂.count.trans h₁.count⟩

theorem ofPipes (hend : ∀ x e, c'.IsEnd x e ↔ c.IsEnd x e) (hpipes : c'.pipes = c.pipes)
    (hcount : c'.pipeCount = c.pipeCount) : PipesKept c c' :=
  ⟨hend, fun e => by rw [Core.queue, hpipes, Core.queue], fun i => by rw [hpipes], hcount⟩

theorem same (hslots : c'.slots = c.slots) (hpipes : c'.pipes = c.pipes)
    (hcount : c'.pipeCount = c.pipeCount) : PipesKept c c' :=
  ofPipes (fun x e => by rw [IsEnd, IsEnd, lookup, lookup, hslots]) hpipes hcount

theorem alloc (hs : c.Sound) (hobj : ∀ e, obj ≠ .messagePipe e) : PipesKept c (c.alloc obj) := by
  refine ofPipes (fun x e => ?_) (alloc_pipes c obj) (alloc_pipeCount c obj)
  rw [IsEnd, hs.table.lookup_alloc]
  split
  · rename_i hx
    rw [hx, IsEnd, hs.table.nextHandle_free]
    exact ⟨fun heq => absurd (some.inj heq) (hobj e), (by rintro ⟨⟩)⟩
  · rfl

theorem free (hlive : c.lookup h = some o) (ho : ∀ e, o ≠ .messagePipe e) :
    PipesKept c (c.free h) := by
  refine ofPipes (fun x e => ?_) (free_pipes c h) (free_pipeCount c h)
  rw [IsEnd, lookup_free]
  split
  · rename_i hx
    rw [hx, IsEnd, hlive]
    exact ⟨(by rintro ⟨⟩), fun heq => absurd (some.inj heq) (ho e)⟩
  · rfl

theorem setObj (hlive : c.lookup h = some o) (ho : ∀ e, o ≠ .messagePipe e)
    (hobj : ∀ e, obj ≠ .messagePipe e) : PipesKept c (c.setObj h obj) := by
  refine ofPipes (fun x e => ?_) rfl rfl
  rw [IsEnd, lookup_setObj hlive]
  split
  · rename_i hx
    rw [hx, IsEnd, hlive]
    exact ⟨fun heq => absurd (some.inj heq) (hobj e),
      fun heq => absurd (some.inj heq) (ho e)⟩
  · rfl

theorem silent (hq : Silent c c') : PipesKept c c' :=
  ofPipes (fun x e => hq.lookup x (.messagePipe e) rfl) hq.pipes hq.pipeCount

theorem collected (hc : Collected c c') : PipesKept c c' := by
  refine ofPipes (fun x e => ?_) hc.pipes_eq ?_
  · rcases hc.obj x with heq | ⟨t, hold, hnew⟩
    · rw [IsEnd, heq]
    · rw [IsEnd, IsEnd, hold, hnew]
      exact ⟨(by rintro ⟨⟩), (by rintro ⟨⟩)⟩
  · obtain ⟨slots, events, rfl, -⟩ := hc.rest
    rfl

theorem collectTrapEvents (hk : PipesKept c c') : PipesKept c c'.collectTrapEvents :=
  hk.trans (collected (collected_collectTrapEvents c'))

theorem data (hd : DataEffect c c') : PipesKept c c' := by
  cases hd with
  | nothing => exact .refl c
  | quietly i s _ _ => exact .same rfl rfl rfl
  | collecting i s =>
    have hset : PipesKept c (c.setDataPipe i s) := .same rfl rfl rfl
    exact hset.collectTrapEvents

theorem setQuota (c : Core) (e : PipeEnd) (s : PipeState)
    (hqueues : s.queues = (c.pipes e.state).queues) (hclosed : s.closed = (c.pipes e.state).closed) :
    PipesKept c (c.setPipe e.state s) := by
  refine ⟨fun _ _ => Iff.rfl, fun e' => ?_, fun i => ?_, rfl⟩
  · unfold Core.queue
    by_cases he : e'.state = e.state
    · rw [he, setPipe_self, hqueues]
    · rw [setPipe_of_ne _ _ he]
  · by_cases hi : i = e.state
    · rw [hi, setPipe_self, hclosed]
    · rw [setPipe_of_ne _ _ hi]

end PipesKept

theorem pipesKept_step (hs : c.Sound) {op : Op} (hop : op.onPipes = false) :
    PipesKept c (c.step op) := by
  cases op with
  | silent op => exact .silent (silent_performSilent hs op)
  | data op => exact .data (dataEffect_performData c op)
  | setQuota p type limit =>
    simp only [step, perform, setQuota]
    repeat' split
    all_goals first
      | exact .refl c
      | exact .setQuota c _ _ rfl rfl
  | createDataPipe elementSize capacity =>
    have hset : (c.newDataPipe (.make elementSize capacity)).Sound := hs.newDataPipe _
    have hnew : PipesKept c (c.newDataPipe (.make elementSize capacity)) := .same rfl rfl rfl
    exact (hnew.trans (.alloc hset (by rintro _ ⟨⟩))).trans
      (.alloc (hset.alloc (by rintro _ ⟨⟩) (Nat.lt_succ_self _)) (by rintro _ ⟨⟩))
  | createTrap handler =>
    cases handler with
    | none => exact .refl c
    | some handler =>
      have halloc : PipesKept c (c.alloc (.trap { handler := handler })) := .alloc hs (by rintro _ ⟨⟩)
      exact halloc.trans (.same rfl rfl rfl)
  | addTrigger t h signals condition context =>
    simp only [step, perform, addTrigger]
    split
    · exact .setObj ‹_› (by rintro _ ⟨⟩) (by rintro _ ⟨⟩)
    · exact .refl c
  | removeTrigger t context =>
    simp only [step, perform, removeTrigger]
    split
    · rename_i tr htrap
      split
      · exact .refl c
      · have hpost : PipesKept c (c.post (c.cancelledEvent t tr context)) :=
          .same rfl rfl rfl
        exact hpost.trans (.setObj htrap (by rintro _ ⟨⟩) (by rintro _ ⟨⟩))
    · exact .refl c
  | armTrap t room wanted =>
    simp only [step, perform, armTrap]
    split
    · split
      · exact .setObj ‹_› (by rintro _ ⟨⟩) (by rintro _ ⟨⟩)
      · exact .refl c
    · exact .refl c
  | pumpEvents => exact .same rfl rfl rfl
  | createMessagePipe | writeMessage _ _ | readMessage _ | fuseMessagePipes _ _ | close _ => cases hop

/-! ### The invariant -/

/-- The core keeps its message pipes as the wiring has them. -/
structure Wired (c : Core) (w : Wiring Handle Content) : Prop where
  unique : ∀ {x y e}, c.IsEnd x e → c.IsEnd y e → x = y
  not_closed : ∀ {x e}, c.IsEnd x e → (c.pipes e.state).closed e.side = false
  peer_open : ∀ {x e}, c.IsEnd x e → (c.pipes e.state).closed e.other.side = false →
    ∃ y, c.IsEnd y e.other
  peer_iff : ∀ x y, w.peer x = some y ↔ ∃ e, c.IsEnd x e ∧ c.IsEnd y e.other
  queue_eq : ∀ {x e}, c.IsEnd x e →
    w.expected x = w.delivered x ++ (c.queue e).map MessageObj.content

namespace Wired

variable {w w' : Wiring Handle Content}

theorem kept (hw : Wired c w) (hk : PipesKept c c') : Wired c' w where
  unique hx hy := hw.unique ((hk.isEnd _ _).mp hx) ((hk.isEnd _ _).mp hy)
  not_closed hx := by
    rw [hk.closed]
    exact hw.not_closed ((hk.isEnd _ _).mp hx)
  peer_open hx hopen := by
    rw [hk.closed] at hopen
    obtain ⟨y, hy⟩ := hw.peer_open ((hk.isEnd _ _).mp hx) hopen
    exact ⟨y, (hk.isEnd _ _).mpr hy⟩
  peer_iff x y := by simp only [hk.isEnd, hw.peer_iff]
  queue_eq hx := by
    rw [hk.queue]
    exact hw.queue_eq ((hk.isEnd _ _).mp hx)

theorem setQueue (hw : Wired c w) {l : List MessageObj} (hy : c.IsEnd y e)
    (hpeer : w'.peer = w.peer)
    (hothers : ∀ x, x ≠ y → w'.expected x = w.expected x ∧ w'.delivered x = w.delivered x)
    (hqueue : w'.expected y = w'.delivered y ++ l.map MessageObj.content) :
    Wired (c.setQueue e l) w' := by
  refine ⟨hw.unique, fun hx => ?_, fun hx hopen => ?_, fun x y => ?_, fun {x e'} hx => ?_⟩
  · rw [closed_setQueue]
    exact hw.not_closed hx
  · rw [closed_setQueue] at hopen
    exact hw.peer_open hx hopen
  · rw [hpeer]
    exact hw.peer_iff x y
  · by_cases he : e' = e
    · subst he
      obtain rfl := hw.unique hx hy
      rw [hqueue, queue_setQueue_self]
    · have hne : x ≠ y := by
        rintro rfl
        exact he (Obj.messagePipe.inj (some.inj (hx.symm.trans hy)))
      rw [queue_setQueue_of_ne _ _ he, (hothers x hne).1, (hothers x hne).2]
      exact hw.queue_eq hx

/-- Two handles become the ends of a new pipe, others are given up, and the rest stay as they
were.  The peer of a handle that is not touched is not touched either. -/
theorem join (hs : c.Sound) (hw : Wired c w) (touched : Handle → Prop) {h0 h1 : Handle} (hne : h0 ≠ h1)
    (hclosed : ∀ x y, w.peer x = some y → touched x → touched y)
    (hend : ∀ x e, c'.IsEnd x e ↔
      (x = h0 ∧ e = ⟨c.pipeCount, false⟩) ∨ (x = h1 ∧ e = ⟨c.pipeCount, true⟩) ∨
        (¬ touched x ∧ c.IsEnd x e))
    (h0t : touched h0) (h1t : touched h1)
    (hpipes : ∀ i, i ≠ c.pipeCount → c'.pipes i = c.pipes i)
    (hopen : ∀ side, (c'.pipes c.pipeCount).closed side = false)
    (hpeer0 : w'.peer h0 = some h1) (hpeer1 : w'.peer h1 = some h0)
    (hpeer : ∀ x, x ≠ h0 → x ≠ h1 → touched x → w'.peer x = none)
    (hrest : ∀ x, ¬ touched x → w'.peer x = w.peer x ∧ w'.expected x = w.expected x ∧
      w'.delivered x = w.delivered x)
    (hqueue0 : w'.expected h0 =
      w'.delivered h0 ++ (c'.queue ⟨c.pipeCount, false⟩).map MessageObj.content)
    (hqueue1 : w'.expected h1 =
      w'.delivered h1 ++ (c'.queue ⟨c.pipeCount, true⟩).map MessageObj.content) :
    Wired c' w' := by
  have hend0 : c'.IsEnd h0 ⟨c.pipeCount, false⟩ := (hend _ _).mpr (Or.inl ⟨rfl, rfl⟩)
  have hend1 : c'.IsEnd h1 ⟨c.pipeCount, true⟩ := (hend _ _).mpr (Or.inr (Or.inl ⟨rfl, rfl⟩))
  have hold : ∀ {x e}, c.IsEnd x e → e.state ≠ c.pipeCount := fun hx =>
    Nat.ne_of_lt (hs.numbered _ _ hx)
  have hback : ∀ x y, w.peer x = some y → touched y → touched x := by
    intro x y hxy hy
    obtain ⟨e, hx, hy'⟩ := (hw.peer_iff x y).mp hxy
    refine hclosed y x ((hw.peer_iff y x).mpr ⟨e.other, hy', ?_⟩) hy
    rw [PipeEnd.other_other]
    exact hx
  refine ⟨fun {x y e} hx hy => ?_, fun {x e} hx => ?_, fun {x e} hx hother => ?_, fun x y => ?_,
    fun {x e} hx => ?_⟩
  · rcases (hend x e).mp hx with ⟨rfl, rfl⟩ | ⟨rfl, rfl⟩ | ⟨-, hx⟩ <;>
      rcases (hend y _).mp hy with ⟨rfl, he⟩ | ⟨rfl, he⟩ | ⟨-, hy⟩
    · rfl
    · cases he
    · exact absurd rfl (hold hy)
    · cases he
    · rfl
    · exact absurd rfl (hold hy)
    · exact absurd (congrArg PipeEnd.state he) (hold hx)
    · exact absurd (congrArg PipeEnd.state he) (hold hx)
    · exact hw.unique hx hy
  · rcases (hend x e).mp hx with ⟨-, rfl⟩ | ⟨-, rfl⟩ | ⟨-, hx⟩
    · exact hopen _
    · exact hopen _
    · rw [hpipes _ (hold hx)]
      exact hw.not_closed hx
  · rcases (hend x e).mp hx with ⟨-, rfl⟩ | ⟨-, rfl⟩ | ⟨hxt, hx⟩
    · exact ⟨h1, hend1⟩
    · exact ⟨h0, hend0⟩
    · rw [hpipes _ (hold hx)] at hother
      obtain ⟨y, hy⟩ := hw.peer_open hx hother
      have hyt : ¬ touched y := fun h => hxt (hback x y ((hw.peer_iff x y).mpr ⟨e, hx, hy⟩) h)
      exact ⟨y, (hend y e.other).mpr (Or.inr (Or.inr ⟨hyt, hy⟩))⟩
  · constructor
    · intro hxy
      by_cases hx0 : x = h0
      · rw [hx0, hpeer0] at hxy
        obtain rfl := some.inj hxy
        exact ⟨⟨c.pipeCount, false⟩, hx0 ▸ hend0, hend1⟩
      · by_cases hx1 : x = h1
        · rw [hx1, hpeer1] at hxy
          obtain rfl := some.inj hxy
          exact ⟨⟨c.pipeCount, true⟩, hx1 ▸ hend1, hend0⟩
        · by_cases hxt : touched x
          · rw [hpeer x hx0 hx1 hxt] at hxy
            cases hxy
          · rw [(hrest x hxt).1] at hxy
            obtain ⟨e, hx, hy⟩ := (hw.peer_iff x y).mp hxy
            have hyt : ¬ touched y := fun h => hxt (hback x y hxy h)
            exact ⟨e, (hend x e).mpr (Or.inr (Or.inr ⟨hxt, hx⟩)),
              (hend y _).mpr (Or.inr (Or.inr ⟨hyt, hy⟩))⟩
    · rintro ⟨e, hx, hy⟩
      rcases (hend x e).mp hx with ⟨rfl, rfl⟩ | ⟨rfl, rfl⟩ | ⟨hxt, hx⟩ <;>
        rcases (hend y _).mp hy with ⟨rfl, he⟩ | ⟨rfl, he⟩ | ⟨hyt, hy⟩
      · cases he
      · exact hpeer0
      · exact absurd rfl (hold hy)
      · exact hpeer1
      · cases he
      · exact absurd rfl (hold hy)
      · exact absurd (congrArg (fun e => e.state) he) (hold hx)
      · exact absurd (congrArg (fun e => e.state) he) (hold hx)
      · rw [(hrest x hxt).1]
        exact (hw.peer_iff x y).mpr ⟨e, hx, hy⟩
  · rcases (hend x e).mp hx with ⟨rfl, rfl⟩ | ⟨rfl, rfl⟩ | ⟨hxt, hx⟩
    · exact hqueue0
    · exact hqueue1
    · rw [(hrest x hxt).2.1, (hrest x hxt).2.2, hw.queue_eq hx, Core.queue, Core.queue,
        hpipes _ (hold hx)]

end Wired

/-! ### The operations on message pipes -/

section wired

variable {w : Wiring Handle Content}

theorem wired_createMessagePipe (hs : c.Sound) (hw : Wired c w) :
    Wired (c.step .createMessagePipe) (c.observe w .createMessagePipe) := by
  obtain ⟨hreply, hlook⟩ := createMessagePipe_eq hs
  obtain ⟨ha, hb, hne⟩ := hs.table.lookup_nextHandles
  generalize c.nextHandles.1 = a at *
  generalize c.nextHandles.2 = b at *
  have hpipes := createMessagePipe_pipes c
  have hnew : c.createMessagePipe.2.pipes c.pipeCount = {} := by
    rw [hpipes]
    exact setPipe_self c _ _
  have hno : ∀ x y, w.peer x = some y → x ≠ a ∧ x ≠ b := by
    intro x y hxy
    obtain ⟨e, hx, -⟩ := (hw.peer_iff x y).mp hxy
    exact ⟨fun h => not_isEnd ha (h ▸ hx), fun h => not_isEnd hb (h ▸ hx)⟩
  rw [observe, hreply]
  change Wired c.createMessagePipe.2 _
  refine hw.join hs (fun x => x = a ∨ x = b) hne ?_ ?_
    (Or.inl rfl) (Or.inr rfl) ?_ ?_ ?_ ?_ ?_ ?_ ?_ ?_
  · rintro x y hxy (rfl | rfl)
    · exact absurd rfl (hno _ _ hxy).1
    · exact absurd rfl (hno _ _ hxy).2
  · intro x e
    rw [IsEnd, hlook]
    by_cases hxb : x = b
    · subst hxb
      rw [if_pos rfl]
      constructor
      · intro h
        exact Or.inr (Or.inl ⟨rfl, (Obj.messagePipe.inj (some.inj h)).symm⟩)
      · rintro (⟨rfl, -⟩ | ⟨-, rfl⟩ | ⟨hnt, -⟩)
        · exact absurd rfl hne
        · rfl
        · exact absurd (Or.inr rfl) hnt
    · rw [if_neg hxb]
      by_cases hxa : x = a
      · subst hxa
        rw [if_pos rfl]
        constructor
        · intro h
          exact Or.inl ⟨rfl, (Obj.messagePipe.inj (some.inj h)).symm⟩
        · rintro (⟨-, rfl⟩ | ⟨h, -⟩ | ⟨hnt, -⟩)
          · rfl
          · exact absurd h hne
          · exact absurd (Or.inl rfl) hnt
      · rw [if_neg hxa]
        constructor
        · exact fun h => Or.inr (Or.inr ⟨not_or.mpr ⟨hxa, hxb⟩, h⟩)
        · rintro (⟨h, -⟩ | ⟨h, -⟩ | ⟨-, h⟩)
          · exact absurd h hxa
          · exact absurd h hxb
          · exact h
  · intro i hi
    rw [hpipes]
    exact setPipe_of_ne c _ hi
  · intro side
    rw [hnew]
  · exact (update_of_ne hne _ _).trans (update_self ..)
  · exact update_self ..
  · rintro x hxa hxb (h | h)
    · exact absurd h hxa
    · exact absurd h hxb
  · intro x hx
    obtain ⟨hxa, hxb⟩ := not_or.mp hx
    refine ⟨?_, Wiring.expected_connect hxa hxb, Wiring.delivered_connect hxa hxb⟩
    exact (update_of_ne hxb _ _).trans (update_of_ne hxa _ _)
  · rw [Core.queue, hnew]
    unfold Wiring.connect
    dsimp only
    rw [update_of_ne hne, update_self, update_of_ne hne,
      update_self]
    rfl
  · rw [Core.queue, hnew]
    unfold Wiring.connect
    dsimp only
    rw [update_self, update_self]
    rfl

theorem wired_writeMessage (hw : Wired c w) (p m : Handle) :
    Wired (c.step (.writeMessage p m)) (c.observe w (.writeMessage p m)) := by
  rw [step, perform, observe, sent]
  rcases writeMessage_cases c p m with ⟨r, hr, heq⟩ | ⟨e, msg, hp, hm, -, heq⟩ |
    ⟨e, msg, hp, hm, hopen, heq⟩ <;> rw [heq]
  · rw [if_neg (show (c.refuse r).1.result ≠ .ok from hr)]
    exact hw
  · rw [if_neg (by rintro ⟨⟩)]
    exact hw.kept (PipesKept.free hm (by rintro _ ⟨⟩)).collectTrapEvents
  · obtain ⟨y, hy⟩ := hw.peer_open hp hopen
    have hpeer : w.peer p = some y := (hw.peer_iff p y).mpr ⟨e, hp, hy⟩
    have hcontent : c.content m = some msg.content := by rw [content, hm]
    rw [if_pos rfl, hcontent, elim_some, Wiring.send, hpeer]
    have hsend : Wired (c.setQueue e.other (c.queue e.other ++ [{ msg with committed := true }]))
        { w with expected := Function.update w.expected y (w.expected y ++ [msg.content]) } :=
      hw.setQueue hy rfl (fun x hx => ⟨update_of_ne hx .., rfl⟩) (by
        dsimp only
        rw [update_self, hw.queue_eq hy, map_append, List.append_assoc]
        rfl)
    have hm' : (c.setQueue e.other (c.queue e.other ++ [{ msg with committed := true }])).lookup m =
      some (.message msg) := hm
    exact hsend.kept (PipesKept.free hm' (by rintro _ ⟨⟩)).collectTrapEvents

theorem received_cons (hs : c.Sound) {msg : MessageObj} {rest : List MessageObj}
    (hp : c.IsEnd p e) (hqueue : c.queue e = msg :: rest) :
    c.received p = some msg.content := by
  have hset : (c.setQueue e rest).Sound := hs.same rfl rfl rfl rfl rfl
  rcases readMessage_cases c p with ⟨hno, -⟩ | ⟨e', r, hp', hnil, -⟩ | ⟨e', msg', rest', hp', hcons, heq⟩
  · exact absurd hp (hno e)
  · obtain rfl := Obj.messagePipe.inj (some.inj (hp.symm.trans hp'))
    rw [hqueue] at hnil
    cases hnil
  · obtain rfl := Obj.messagePipe.inj (some.inj (hp.symm.trans hp'))
    rw [hqueue] at hcons
    cases hcons
    have hlook := hset.table.lookup_alloc (.message msg) c.nextHandle
    rw [if_pos (show c.nextHandle = (c.setQueue e rest).nextHandle from rfl)] at hlook
    rw [received, heq, if_pos rfl, head?_cons, bind_some, content, hlook]

theorem wired_readMessage (hs : c.Sound) (hw : Wired c w) (p : Handle) :
    Wired (c.step (.readMessage p)) (c.observe w (.readMessage p)) := by
  rw [step, perform, observe]
  rcases readMessage_cases c p with ⟨-, heq⟩ | ⟨e, r, -, -, hr, heq⟩ | ⟨e, msg, rest, hp, hcons, heq⟩
  · rw [received, heq, if_neg (by rintro ⟨⟩)]
    exact hw
  · rw [received, heq, if_neg (show (c.refuse r).1.result ≠ .ok from hr)]
    exact hw
  · rw [received_cons hs hp hcons, heq, elim_some]
    have hset : (c.setQueue e rest).Sound := hs.same rfl rfl rfl rfl rfl
    have hread : Wired (c.setQueue e rest) (w.receive p msg.content) :=
      hw.setQueue hp rfl (fun x hx => ⟨rfl, update_of_ne hx ..⟩) (by
        rw [Wiring.receive]
        dsimp only
        rw [update_self, hw.queue_eq hp, hcons, List.append_assoc]
        rfl)
    exact hread.kept (.alloc hset (by rintro _ ⟨⟩))

theorem fuse_eq {a b h0 h1 : Handle} (hpeer0 : w.peer a = some h0) (hpeer1 : w.peer b = some h1) :
    w.fuse a b = { w with
      peer := fun x =>
        if x = a ∨ x = b then none
        else if x = h0 then some h1 else if x = h1 then some h0 else w.peer x
      expected := Function.update
        (Function.update w.expected h0 (w.expected h0 ++ w.undelivered b))
        h1 (w.expected h1 ++ w.undelivered a) } := by
  rw [Wiring.fuse, hpeer0, hpeer1]

theorem wired_fused (hs : c.Sound) (hw : Wired c w) {a b h0 h1 : Handle} {e0 e1 : PipeEnd}
    (hf : Fusion c a b e0 e1 h0 h1) : Wired (c.fused a b e0 e1 h0 h1) (w.fuse a b) := by
  have hpeer0 : w.peer a = some h0 := (hw.peer_iff a h0).mpr ⟨e0, hf.lookup_a, hf.lookup_h0⟩
  have hpeer1 : w.peer b = some h1 := (hw.peer_iff b h1).mpr ⟨e1, hf.lookup_b, hf.lookup_h1⟩
  have hpipes : (c.fused a b e0 e1 h0 h1).pipes =
      (c.newPipe (c.fuse e0 e1 e0.other e1.other)).pipes := by
    rw [fused, free_pipes, free_pipes]
    rfl
  have hnew : (c.fused a b e0 e1 h0 h1).pipes c.pipeCount = c.fuse e0 e1 e0.other e1.other := by
    rw [hpipes]
    exact setPipe_self c _ _
  have hundelivered_a : w.undelivered a = (c.queue e0).map MessageObj.content :=
    Wiring.undelivered_eq (hw.queue_eq hf.lookup_a)
  have hundelivered_b : w.undelivered b = (c.queue e1).map MessageObj.content :=
    Wiring.undelivered_eq (hw.queue_eq hf.lookup_b)
  have hqueue0 : (c.fused a b e0 e1 h0 h1).queue ⟨c.pipeCount, false⟩ =
      c.queue e0.other ++ c.queue e1 := by
    rw [Core.queue, hnew]
    rfl
  have hqueue1 : (c.fused a b e0 e1 h0 h1).queue ⟨c.pipeCount, true⟩ =
      c.queue e1.other ++ c.queue e0 := by
    rw [Core.queue, hnew]
    rfl
  rw [fuse_eq hpeer0 hpeer1]
  refine hw.join hs (fun x => x = a ∨ x = b ∨ x = h0 ∨ x = h1) hf.h0_ne_h1 ?_ ?_
    (by simp) (by simp) ?_ ?_ ?_ ?_ ?_ ?_ ?_ ?_
  · -- the peers of the four are among the four
    intro x y hxy hx
    obtain ⟨e, hex, hey⟩ := (hw.peer_iff x y).mp hxy
    have hsame : ∀ {z e'}, c.IsEnd z e' → z = x → e' = e := by
      rintro z e' hz rfl
      exact Obj.messagePipe.inj (some.inj (hz.symm.trans hex))
    rcases hx with rfl | rfl | rfl | rfl
    · obtain rfl := hsame hf.lookup_a rfl
      exact Or.inr (Or.inr (Or.inl (hw.unique hey hf.lookup_h0)))
    · obtain rfl := hsame hf.lookup_b rfl
      exact Or.inr (Or.inr (Or.inr (hw.unique hey hf.lookup_h1)))
    · obtain rfl := hsame hf.lookup_h0 rfl
      rw [PipeEnd.other_other] at hey
      exact Or.inl (hw.unique hey hf.lookup_a)
    · obtain rfl := hsame hf.lookup_h1 rfl
      rw [PipeEnd.other_other] at hey
      exact Or.inr (Or.inl (hw.unique hey hf.lookup_b))
  · intro x e
    rw [IsEnd, hf.lookup_fused]
    by_cases hxab : x = a ∨ x = b
    · rw [if_pos hxab]
      refine ⟨(by rintro ⟨⟩), ?_⟩
      rintro (⟨rfl, -⟩ | ⟨rfl, -⟩ | ⟨hx, -⟩)
      · exact absurd hxab (not_or.mpr ⟨hf.a_ne_h0.symm, hf.h0_ne_b⟩)
      · exact absurd hxab (not_or.mpr ⟨hf.a_ne_h1.symm, hf.b_ne_h1.symm⟩)
      · exact absurd (hxab.elim Or.inl fun h => Or.inr (Or.inl h)) hx
    · obtain ⟨hxa, hxb⟩ := not_or.mp hxab
      rw [if_neg hxab]
      by_cases hx1 : x = h1
      · rw [if_pos hx1]
        constructor
        · intro h
          exact Or.inr (Or.inl ⟨hx1, (Obj.messagePipe.inj (some.inj h)).symm⟩)
        · rintro (⟨hx0, -⟩ | ⟨-, rfl⟩ | ⟨hx, -⟩)
          · exact absurd (hx0.symm.trans hx1) hf.h0_ne_h1
          · rfl
          · exact absurd (Or.inr (Or.inr (Or.inr hx1))) hx
      · rw [if_neg hx1]
        by_cases hx0 : x = h0
        · rw [if_pos hx0]
          constructor
          · intro h
            exact Or.inl ⟨hx0, (Obj.messagePipe.inj (some.inj h)).symm⟩
          · rintro (⟨-, rfl⟩ | ⟨h, -⟩ | ⟨hx, -⟩)
            · rfl
            · exact absurd h hx1
            · exact absurd (Or.inr (Or.inr (Or.inl hx0))) hx
        · rw [if_neg hx0]
          constructor
          · intro h
            exact Or.inr (Or.inr ⟨by simp [hxa, hxb, hx0, hx1], h⟩)
          · rintro (⟨h, -⟩ | ⟨h, -⟩ | ⟨-, h⟩)
            · exact absurd h hx0
            · exact absurd h hx1
            · exact h
  · intro i hi
    rw [hpipes]
    exact setPipe_of_ne c _ hi
  · intro side
    rw [hnew]
    rfl
  · exact (if_neg (not_or.mpr ⟨hf.a_ne_h0.symm, hf.h0_ne_b⟩)).trans (if_pos rfl)
  · refine (if_neg (not_or.mpr ⟨hf.a_ne_h1.symm, hf.b_ne_h1.symm⟩)).trans ?_
    exact (if_neg hf.h0_ne_h1.symm).trans (if_pos rfl)
  · rintro x hx0 hx1 (h | h | h | h)
    · exact if_pos (Or.inl h)
    · exact if_pos (Or.inr h)
    · exact absurd h hx0
    · exact absurd h hx1
  · intro x hx
    simp only [not_or] at hx
    obtain ⟨hxa, hxb, hx0, hx1⟩ := hx
    refine ⟨?_, (update_of_ne hx1 ..).trans (update_of_ne hx0 ..), rfl⟩
    exact (if_neg (not_or.mpr ⟨hxa, hxb⟩)).trans ((if_neg hx0).trans (if_neg hx1))
  · -- what was queued for `h0` comes before what was queued at `b`
    dsimp only
    rw [update_of_ne hf.h0_ne_h1, update_self, hw.queue_eq hf.lookup_h0,
      hundelivered_b, hqueue0, map_append, List.append_assoc]
  · dsimp only
    rw [update_self, hw.queue_eq hf.lookup_h1, hundelivered_a, hqueue1,
      map_append, List.append_assoc]

theorem wired_fuseMessagePipes (hs : c.Sound) (hw : Wired c w) (a b : Handle) :
    Wired (c.step (.fuseMessagePipes a b)) (c.observe w (.fuseMessagePipes a b)) := by
  rw [step, perform, observe]
  rcases fuseMessagePipes_cases c a b with ⟨r, hr, heq⟩ | ⟨e0, e1, h0, h1, hf, heq⟩ <;> rw [heq]
  · rw [if_neg (show (c.refuse r).1.result ≠ .ok from hr)]
    exact hw
  · rw [if_pos rfl]
    exact (wired_fused hs hw hf).kept (PipesKept.refl _).collectTrapEvents

/-- Closing an end takes it out of the wiring and tells its peer. -/
theorem wired_release (hw : Wired c w) (hx : c.IsEnd h e) :
    Wired ((c.release h (.messagePipe e)).free h) (w.disconnect h) := by
  have hlook : ∀ g, ((c.release h (.messagePipe e)).free h).lookup g =
      if g = h then none else c.lookup g := fun g => lookup_free (c.release h (.messagePipe e)) h g
  have hend : ∀ {g e'}, ((c.release h (.messagePipe e)).free h).IsEnd g e' → g ≠ h ∧ c.IsEnd g e' := by
    intro g e' hg
    rw [IsEnd, hlook] at hg
    split at hg
    · cases hg
    · exact ⟨‹_›, hg⟩
  have hend' : ∀ {g e'}, g ≠ h → c.IsEnd g e' →
      ((c.release h (.messagePipe e)).free h).IsEnd g e' := by
    intro g e' hg hge
    rw [IsEnd, hlook, if_neg hg]
    exact hge
  have hpipes := free_pipes (c.release h (.messagePipe e)) h
  have hqueues : ∀ i, (((c.release h (.messagePipe e)).free h).pipes i).queues =
      (c.pipes i).queues := by
    intro i
    rw [hpipes, release]
    by_cases hi : i = e.state
    · rw [hi, setPipe_self]
    · rw [setPipe_of_ne _ _ hi]
  have hclosed_self : (((c.release h (.messagePipe e)).free h).pipes e.state).closed e.side = true := by
    rw [hpipes, release, setPipe_self]
    exact update_self ..
  have hclosed : ∀ e' : PipeEnd, e' ≠ e →
      (((c.release h (.messagePipe e)).free h).pipes e'.state).closed e'.side =
        (c.pipes e'.state).closed e'.side := by
    intro e' hne
    rw [hpipes, release]
    by_cases hi : e'.state = e.state
    · have hside : e'.side ≠ e.side := by
        intro hside
        cases e'
        cases e
        exact hne (congrArg₂ PipeEnd.mk hi hside)
      rw [hi, setPipe_self]
      exact update_of_ne hside ..
    · rw [setPipe_of_ne _ _ hi]
  have hne : ∀ {g e'}, g ≠ h → c.IsEnd g e' → e' ≠ e := by
    rintro g e' hg hge rfl
    exact hg (hw.unique hge hx)
  refine ⟨fun hg hg' => hw.unique (hend hg).2 (hend hg').2, fun {g e'} hg => ?_,
    fun {g e'} hg hopen => ?_, fun g g' => ?_, fun {g e'} hg => ?_⟩
  · rw [hclosed e' (hne (hend hg).1 (hend hg).2)]
    exact hw.not_closed (hend hg).2
  · by_cases he : e'.other = e
    · subst he
      exact Bool.noConfusion (hclosed_self.symm.trans hopen)
    · have hopen' := (hclosed e'.other he).symm.trans hopen
      obtain ⟨y, hy⟩ := hw.peer_open (hend hg).2 hopen'
      refine ⟨y, hend' ?_ hy⟩
      rintro rfl
      exact he (Obj.messagePipe.inj (some.inj (hy.symm.trans hx)))
  · unfold Wiring.disconnect
    dsimp only
    constructor
    · intro hgg
      split at hgg
      · cases hgg
      · rename_i hno
        obtain ⟨hgh, hpeer⟩ := not_or.mp hno
        obtain ⟨e', hge, hge'⟩ := (hw.peer_iff g g').mp hgg
        refine ⟨e', hend' hgh hge, hend' ?_ hge'⟩
        rintro rfl
        exact hpeer hgg
    · rintro ⟨e', hg, hg'⟩
      have hgg := (hw.peer_iff g g').mpr ⟨e', (hend hg).2, (hend hg').2⟩
      rw [if_neg (not_or.mpr ⟨(hend hg).1, fun h => ?_⟩)]
      · exact hgg
      · exact (hend hg').1 (some.inj (hgg.symm.trans h))
  · rw [Core.queue, hqueues]
    exact hw.queue_eq (hend hg).2

theorem disconnect_of_not_isEnd (hw : Wired c w) (hx : ∀ e, ¬ c.IsEnd h e) : w.disconnect h = w := by
  have hpeer : (fun g => if g = h ∨ w.peer g = some h then none else w.peer g) = w.peer := by
    funext g
    split
    · rename_i hg
      cases hpeer : w.peer g with
      | none => rfl
      | some y =>
        obtain ⟨e, hg', hy⟩ := (hw.peer_iff g y).mp hpeer
        rcases hg with rfl | hgh
        · exact absurd hg' (hx e)
        · obtain rfl := some.inj (hpeer.symm.trans hgh)
          exact absurd hy (hx e.other)
    · rfl
  rw [Wiring.disconnect, hpeer]

theorem wired_close (hw : Wired c w) (h : Handle) :
    Wired (c.step (.close h)) (c.observe w (.close h)) := by
  rw [step, perform, observe, close]
  split
  · rw [if_neg (show (c.refuse .invalidArgument).1.result ≠ .ok from (by rintro ⟨⟩))]
    exact hw
  · rename_i o hlive
    have hok : (released o).result = .ok := by cases o <;> rfl
    rw [if_pos hok]
    have hother : (∀ e, o ≠ .messagePipe e) → PipesKept c ((c.release h o).free h) →
        Wired ((c.release h o).free h).collectTrapEvents (w.disconnect h) := by
      intro ho hk
      have hno : ∀ e, ¬ c.IsEnd h e := fun e he => ho e (some.inj (hlive.symm.trans he))
      rw [disconnect_of_not_isEnd hw hno]
      exact hw.kept hk.collectTrapEvents
    cases o with
    | messagePipe e => exact (wired_release hw hlive).kept (PipesKept.refl _).collectTrapEvents
    | dataPipeProducer i =>
      have hset : PipesKept c (c.release h (.dataPipeProducer i)) := .same rfl rfl rfl
      exact hother (by rintro _ ⟨⟩) (hset.trans (.free hlive (by rintro _ ⟨⟩)))
    | dataPipeConsumer i =>
      have hset : PipesKept c (c.release h (.dataPipeConsumer i)) := .same rfl rfl rfl
      exact hother (by rintro _ ⟨⟩) (hset.trans (.free hlive (by rintro _ ⟨⟩)))
    | trap t =>
      have hset : PipesKept c (c.release h (.trap t)) := .same rfl rfl rfl
      exact hother (by rintro _ ⟨⟩) (hset.trans (.free hlive (by rintro _ ⟨⟩)))
    | message m => exact hother (by rintro _ ⟨⟩) (.free hlive (by rintro _ ⟨⟩))
    | sharedBuffer i => exact hother (by rintro _ ⟨⟩) (.free hlive (by rintro _ ⟨⟩))
    | platform p => exact hother (by rintro _ ⟨⟩) (.free hlive (by rintro _ ⟨⟩))

theorem wired_step (hs : c.Sound) (hw : Wired c w) (op : Op) :
    Wired (c.step op) (c.observe w op) := by
  cases op with
  | createMessagePipe => exact wired_createMessagePipe hs hw
  | writeMessage p m => exact wired_writeMessage hw p m
  | readMessage p => exact wired_readMessage hs hw p
  | fuseMessagePipes a b => exact wired_fuseMessagePipes hs hw a b
  | close h => exact wired_close hw h
  | _ => exact hw.kept (pipesKept_step hs rfl)

end wired

/-! ### In order, over every run -/

/-- The core with the wiring beside it. -/
def watch (s : Core × Wiring Handle Content) (op : Op) : Core × Wiring Handle Content :=
  (s.1.step op, s.1.observe s.2 op)

/-- What a message pipe promises for its end `x`. -/
structure InOrder (c : Core) (w : Wiring Handle Content) (x : Handle) : Prop where
  /-- A read returns the first message not received yet, and fails if there is none. -/
  reads : ∃ pending, w.expected x = w.delivered x ++ pending ∧
    c.received x = pending.head? ∧ ((c.readMessage x).1.result = .ok ↔ pending ≠ [])
  /-- A write that returns `OK` is for the end that `x` is connected to, which is open. -/
  writes : ∀ m, (c.writeMessage x m).1.result = .ok →
    ∃ y e content, w.peer x = some y ∧ c.IsEnd y e ∧ c.sent x m = some content
  /-- Fusing connects the two outer ends. -/
  fuses : ∀ b, (c.fuseMessagePipes x b).1.result = .ok →
    ∃ y z, w.peer x = some y ∧ w.peer b = some z ∧ y ≠ z
  /-- While `x` stays open nothing is taken back. -/
  keeps : ∀ op e, (c.step op).IsEnd x e → w.expected x <+: (c.observe w op).expected x ∧
    w.delivered x <+: (c.observe w op).delivered x

variable {w : Wiring Handle Content}

theorem reads_queue (hs : c.Sound) (hx : c.IsEnd x e) :
    c.received x = ((c.queue e).map MessageObj.content).head? ∧
      ((c.readMessage x).1.result = .ok ↔ (c.queue e).map MessageObj.content ≠ []) := by
  rcases readMessage_cases c x with ⟨hno, -⟩ | ⟨e', r, hx', hnil, hr, heq⟩ | ⟨e', msg, rest, hx', hcons, heq⟩
  · exact absurd hx (hno e)
  · obtain rfl := Obj.messagePipe.inj (some.inj (hx.symm.trans hx'))
    have hrefused : (c.refuse r).1.result ≠ .ok := hr
    rw [received, heq, hnil, if_neg hrefused]
    exact ⟨rfl, fun h => absurd h hrefused, fun h => absurd rfl h⟩
  · obtain rfl := Obj.messagePipe.inj (some.inj (hx.symm.trans hx'))
    rw [received_cons hs hx hcons, heq, hcons]
    exact ⟨rfl, fun _ => nofun, fun _ => rfl⟩

theorem keeps_of_wired (hs : c.Sound) (hw : Wired c w) (hx : c.IsEnd x e) (op : Op) :
    w.expected x <+: (c.observe w op).expected x ∧
      w.delivered x <+: (c.observe w op).delivered x := by
  cases op with
  | createMessagePipe =>
    obtain ⟨ha, hb, -⟩ := hs.table.lookup_nextHandles
    have hxa : x ≠ c.nextHandles.1 := fun h => not_isEnd ha (h ▸ hx)
    have hxb : x ≠ c.nextHandles.2 := fun h => not_isEnd hb (h ▸ hx)
    rw [observe, (createMessagePipe_eq hs).1]
    dsimp only
    rw [Wiring.expected_connect hxa hxb, Wiring.delivered_connect hxa hxb]
    exact ⟨prefix_refl _, prefix_refl _⟩
  | writeMessage p m =>
    rw [observe]
    cases c.sent p m with
    | none => exact ⟨prefix_refl _, prefix_refl _⟩
    | some content =>
      refine ⟨Wiring.expected_send w p content x, ?_⟩
      rw [elim_some, Wiring.delivered_send]
  | readMessage p =>
    rw [observe]
    cases c.received p with
    | none => exact ⟨prefix_refl _, prefix_refl _⟩
    | some content => exact ⟨prefix_refl _, Wiring.prefix_update _ _ _ _⟩
  | fuseMessagePipes a b =>
    rw [observe]
    rcases fuseMessagePipes_cases c a b with ⟨r, hr, heq⟩ | ⟨e0, e1, h0, h1, hf, heq⟩ <;> rw [heq]
    · rw [if_neg (show (c.refuse r).1.result ≠ .ok from hr)]
      exact ⟨prefix_refl _, prefix_refl _⟩
    · have hpeer0 : w.peer a = some h0 := (hw.peer_iff a h0).mpr ⟨e0, hf.lookup_a, hf.lookup_h0⟩
      have hpeer1 : w.peer b = some h1 := (hw.peer_iff b h1).mpr ⟨e1, hf.lookup_b, hf.lookup_h1⟩
      rw [if_pos rfl, Wiring.delivered_fuse]
      refine ⟨Wiring.expected_fuse w (fun p q hp hq => ?_) x, prefix_refl _⟩
      rw [← some.inj (hpeer0.symm.trans hp), ← some.inj (hpeer1.symm.trans hq)]
      exact hf.h0_ne_h1
  | close h =>
    rw [observe]
    split <;> exact ⟨prefix_refl _, prefix_refl _⟩
  | _ => exact ⟨prefix_refl _, prefix_refl _⟩

theorem wired_start : Wired {} {} := by
  have hno : ∀ y e, ¬ ({} : Core).IsEnd y e := by rintro (_ | y) e h <;> cases h
  exact ⟨fun h => absurd h (hno _ _), fun h => absurd h (hno _ _), fun h => absurd h (hno _ _),
    fun y z => ⟨nofun, fun ⟨e, hy, _⟩ => absurd hy (hno y e)⟩, fun h => absurd h (hno _ _)⟩

/-- **In every run every open end of a message pipe receives the messages written for it, in order
and each once, across any number of fusions.** -/
theorem inOrder_of_reaches {s : Core × Wiring Handle Content}
    (h : Machine.Reaches (({}, {}) : Core × Wiring Handle Content) watch (fun _ _ => True) s)
    (hx : s.1.IsEnd x e) : s.1.InOrder s.2 x := by
  have hsound : ∀ s, Machine.Reaches (({}, {}) : Core × Wiring Handle Content) watch
      (fun _ _ => True) s → s.1.Sound := fun s h =>
    h.invariant (I := fun s => s.1.Sound) sound_start fun _ op hs _ => sound_step hs op
  have hw : Wired s.1 s.2 := h.invariant_under (I := fun s => Wired s.1 s.2) hsound wired_start
    fun _ op hs hw _ => wired_step hs hw op
  have hs := hsound s h
  refine ⟨⟨_, hw.queue_eq hx, reads_queue hs hx⟩, fun m hm => ?_, fun b hb => ?_,
    fun op e' _ => keeps_of_wired hs hw hx op⟩
  · rcases writeMessage_cases s.1 x m with ⟨r, hr, heq⟩ | ⟨e', msg, -, -, -, heq⟩ |
      ⟨e', msg, hx', hmsg, hopen, heq⟩
    · rw [heq] at hm
      exact absurd hm hr
    · rw [heq] at hm
      cases hm
    · obtain ⟨y, hy⟩ := hw.peer_open hx' hopen
      refine ⟨y, _, msg.content, (hw.peer_iff x y).mpr ⟨e', hx', hy⟩, hy, ?_⟩
      rw [sent, if_pos hm, content, hmsg]
  · rcases fuseMessagePipes_cases s.1 x b with ⟨r, hr, heq⟩ | ⟨e0, e1, h0, h1, hf, -⟩
    · rw [heq] at hb
      exact absurd hb hr
    · exact ⟨h0, h1, (hw.peer_iff x h0).mpr ⟨e0, hf.lookup_a, hf.lookup_h0⟩,
        (hw.peer_iff b h1).mpr ⟨e1, hf.lookup_b, hf.lookup_h1⟩, hf.h0_ne_h1⟩

/-- A message is written at one end of a pipe; then its other end is fused with an end of a second
pipe. -/
def splice : List Op :=
  [.createMessagePipe, .createMessagePipe, .silent .createMessage,
    .silent (.appendMessageData 5 2 [7] true), .silent (.fillMessage 5 0 [1, 2]), .writeMessage 1 5,
    .fuseMessagePipes 2 3]

/-- What was queued at the fused end is received at the outer end. -/
theorem inOrder_splice :
    (splice.foldl watch ({}, {})).1.InOrder (splice.foldl watch ({}, {})).2 4 ∧
      (splice.foldl watch ({}, {})).2.expected 4 = [([1, 2], [7])] :=
  ⟨inOrder_of_reaches (e := ⟨2, true⟩) (Machine.Reaches.start.run splice) rfl, rfl⟩

end Core

end Voodoo.Whp
