import Voodoo.Lib.Boxes
import Voodoo.Lib.LastUse
import Voodoo.Whp.Fifo

/-!
# Contexts of messages

`WhpSetMessageContext` gives a message a context with a serializer and a destructor.  A context that
is not null is named here by the number of the call it came with, and the log has what the core does
with it, a callback as it is called.  `WhpSerializeMessage` and `WhpWriteMessage` are their regions
under the mutex, and the callbacks may do anything between these.

A message that was committed without a serializer goes through `WhpWriteMessage` with its context
and its destructor; a write that finds the pipe closed, and the end of a queue, drop it without
running the destructor.

* `lawful_contexts_of_reaches`: if neither drops a message with a destructor, the destructor of each
  context runs exactly once, after the last use, and the serializer at most once;
* `not_lawful_dropped`: a message that is written to a closed pipe.
-/

namespace Voodoo.Whp

open Machine List Function

/-- A context that is not null, by the number of the call of `WhpSetMessageContext`. -/
structure Supply where
  context : Nat
  serializer : Option Nat
  destructor : Option Nat
  deriving DecidableEq

inductive ContextUse where
  | serialized (serializer context : Nat)
  /-- `WhpGetMessageContext` returns the context. -/
  | handedOut (context : Nat)
  | destroyed (destructor context : Nat)
  deriving DecidableEq

namespace ContextUse

def context : ContextUse → Nat
  | serialized _ x => x
  | handedOut x => x
  | destroyed _ x => x

def IsDestroyed (u : ContextUse) : Prop := ∃ f x, u = destroyed f x

def IsSerialized (u : ContextUse) : Prop := ∃ f x, u = serialized f x

end ContextUse

/-- The functions on messages, in regions as in `Op`. -/
inductive ContextOp where
  | createMessage
  | createMessagePipe
  | appendMessageData (message : Handle) (additional : UInt32) (handles : List Handle)
    (commit : Bool)
  | setMessageContext (message : Handle) (null : Bool) (serializer destructor : Option Nat)
  | serializeMessage (message : Handle)
  | messageSerialized (message : Handle)
  | getMessageContext (message : Handle)
  | writeMessage (pipe message : Handle)
  | readMessage (pipe : Handle)
  | close (handle : Handle)

structure Contexts where
  core : Core := {}
  supplied : List Supply := []
  log : List ContextUse := []

namespace Contexts

def op (s : Contexts) : ContextOp → Op
  | .createMessage => .silent .createMessage
  | .createMessagePipe => .createMessagePipe
  | .appendMessageData m additional handles commit =>
    .silent (.appendMessageData m additional handles commit)
  | .setMessageContext m null serializer destructor =>
    .silent (.setMessageContext m (if null then 0 else s.supplied.length + 1) serializer destructor)
  | .serializeMessage m => .silent (.serializeMessage m)
  | .messageSerialized m => .silent (.messageSerialized m)
  | .getMessageContext m => .silent (.getMessageContext m)
  | .writeMessage p m => .writeMessage p m
  | .readMessage p => .readMessage p
  | .close h => .close h

def reply (s : Contexts) (a : ContextOp) : Reply := (s.core.perform (s.op a)).1

/-- The calls that are made with contexts. -/
def named (calls : List (Nat × Nat)) : List (Nat × Nat) := calls.filter (·.2 ≠ 0)

/-- What is done with contexts. -/
def uses (s : Contexts) (a : ContextOp) : List ContextUse :=
  match a with
  | .serializeMessage _ => (named (s.reply a).calls).map fun call => .serialized call.1 call.2
  | .setMessageContext .. | .messageSerialized _ | .close _ =>
    (named (s.reply a).calls).map fun call => .destroyed call.1 call.2
  | .getMessageContext _ => ((s.reply a).counts.filter (· ≠ 0)).map .handedOut
  | _ => []

def supplies (s : Contexts) (a : ContextOp) : List Supply :=
  match a with
  | .setMessageContext _ false serializer destructor =>
    if (s.reply a).result = .ok then [⟨s.supplied.length + 1, serializer, destructor⟩] else []
  | _ => []

def step (s : Contexts) (a : ContextOp) : Contexts where
  core := s.core.step (s.op a)
  supplied := s.supplies a ++ s.supplied
  log := s.log ++ s.uses a

end Contexts

namespace Core

/-- The messages one can get at through a handle: the message, or those that can be read. -/
def messages (c : Core) (h : Handle) : List MessageObj :=
  match c.lookup h with
  | some (.message m) => [m]
  | some (.messagePipe e) => c.queue e
  | _ => []

variable {c c' : Core} {h y : Handle} {e : PipeEnd} {o : Obj} {m m' : MessageObj}

theorem messages_message (hm : c.lookup h = some (.message m)) : c.messages h = [m] := by
  rw [messages, hm]

theorem messages_end (he : c.IsEnd h e) : c.messages h = c.queue e := by
  rw [messages, he]

theorem messages_none (hnone : c.lookup h = none) : c.messages h = [] := by
  rw [messages, hnone]

theorem messages_congr (hlookup : c'.lookup h = c.lookup h)
    (hqueue : ∀ e, c.IsEnd h e → c'.queue e = c.queue e) : c'.messages h = c.messages h := by
  rw [messages, messages, hlookup]
  split
  · rfl
  · rename_i e he
    exact hqueue e he
  · rfl

theorem messages_collectTrapEvents (c : Core) : c.collectTrapEvents.messages = c.messages := by
  funext h
  have hc := collected_collectTrapEvents c
  rcases hc.obj h with heq | ⟨t, hold, hnew⟩
  · exact messages_congr heq fun e _ => by rw [queue, hc.pipes_eq, queue]
  · rw [messages, messages, hold, hnew]

theorem messages_free (c : Core) (h : Handle) :
    (c.free h).messages = Function.update c.messages h [] := by
  refine eq_update_iff.mpr
    ⟨messages_none (by rw [lookup_free, if_pos rfl]), fun g hg => ?_⟩
  exact messages_congr (by rw [lookup_free, if_neg hg]) fun e _ => by rw [queue, free_pipes, queue]

theorem messages_alloc (ht : c.Table) (m : MessageObj) :
    (c.alloc (.message m)).messages = Function.update c.messages c.nextHandle [m] := by
  refine eq_update_iff.mpr
    ⟨messages_message (by rw [ht.lookup_alloc, if_pos rfl]), fun g hg => ?_⟩
  exact messages_congr (by rw [ht.lookup_alloc, if_neg hg]) fun e _ => by
    rw [queue, alloc_pipes, queue]

theorem messages_setObj (hm : c.lookup h = some (.message m)) (m' : MessageObj) :
    (c.setObj h (.message m')).messages = Function.update c.messages h [m'] := by
  refine eq_update_iff.mpr
    ⟨messages_message (by rw [lookup_setObj hm, if_pos rfl]), fun g hg => ?_⟩
  exact messages_congr (by rw [lookup_setObj hm, if_neg hg]) fun _ _ => rfl

theorem messages_setQueue {w : Wiring Handle Content} (hw : Wired c w) (hy : c.IsEnd y e)
    (l : List MessageObj) : (c.setQueue e l).messages = Function.update c.messages y l := by
  refine eq_update_iff.mpr
    ⟨(messages_end (c := c.setQueue e l) hy).trans (queue_setQueue_self c e l), fun g hg => ?_⟩
  refine messages_congr rfl fun e' he' => queue_setQueue_of_ne c l ?_
  rintro rfl
  exact hg (hw.unique he' hy)

theorem messages_release (hlive : c.lookup h = some o) :
    ((c.release h o).free h).messages = Function.update c.messages h [] := by
  rw [messages_free]
  have hrel : (c.release h o).messages = c.messages := by
    funext g
    cases o with
    | messagePipe e =>
      refine messages_congr rfl fun e' _ => ?_
      dsimp only [release]
      unfold queue
      by_cases he : e'.state = e.state
      · rw [he, setPipe_self]
      · rw [setPipe_of_ne _ _ he]
    | _ => exact messages_congr rfl fun _ _ => rfl
  rw [hrel]

theorem messages_createMessagePipe (hs : c.Sound) :
    c.createMessagePipe.2.messages = c.messages := by
  funext g
  obtain ⟨-, hlookup⟩ := createMessagePipe_eq hs
  obtain ⟨hfst, hsnd, -⟩ := hs.table.lookup_nextHandles
  have hpipes := createMessagePipe_pipes c
  have hnew (side : Bool) : c.createMessagePipe.2.queue ⟨c.pipeCount, side⟩ = [] := by
    rw [queue, hpipes]
    unfold newPipe
    exact congrArg (fun s : PipeState => s.queues side) (setPipe_self c c.pipeCount {})
  have hg := hlookup g
  split at hg
  · rename_i heq
    rw [messages_end hg, hnew, heq, messages_none hsnd]
  · split at hg
    · rename_i heq
      rw [messages_end hg, hnew, heq, messages_none hfst]
    · refine messages_congr hg fun e he => ?_
      rw [queue, hpipes, queue]
      unfold newPipe
      rw [show ({ c.setPipe c.pipeCount {} with pipeCount := c.pipeCount + 1 } : Core).pipes
        e.state = (c.setPipe c.pipeCount {}).pipes e.state from rfl, setPipe_of_ne]
      exact Nat.ne_of_lt (hs.numbered g _ he)

end Core

namespace Contexts

/-- What is promised about the contexts. -/
structure Lawful (s : Contexts) : Prop where
  /-- The destructor is the one that was supplied, and so is the serializer. -/
  destructor : ∀ f x, .destroyed f x ∈ s.log → ∃ supply ∈ s.supplied, supply.context = x ∧
    supply.destructor = some f
  serializer : ∀ f x, .serialized f x ∈ s.log → ∃ supply ∈ s.supplied, supply.context = x ∧
    supply.serializer = some f
  /-- Behind its destructor a context is not used, serialized or destroyed. -/
  last : s.log.Pairwise fun u v => u.IsDestroyed → v.context ≠ u.context
  once : s.log.Pairwise fun u v => u.IsSerialized → v.IsSerialized → v.context ≠ u.context
  /-- With the message gone, or another context in it, the destructor has run. -/
  gone : ∀ supply ∈ s.supplied, ∀ f, supply.destructor = some f →
    (∀ h, ∀ m ∈ s.core.messages h, m.context ≠ supply.context) → .destroyed f supply.context ∈ s.log

/-- No message with a destructor is dropped by a write to a closed pipe or with a queue. -/
def Careful (s : Contexts) : ContextOp → Prop
  | .writeMessage p m => ∀ e msg, s.core.IsEnd p e → s.core.lookup m = some (.message msg) →
    (s.core.pipes e.state).closed e.other.side = true ∨
      (s.core.pipes e.state).closed e.side = true →
    msg.context ≠ 0 → msg.destructor = none
  | .close h => ∀ e, s.core.IsEnd h e → ∀ msg ∈ s.core.queue e, msg.context ≠ 0 →
    msg.destructor = none
  | _ => True

/-! ### What a function does with the messages -/

/-- The context of a message, if it is not null. -/
def named? (m : MessageObj) : Option Nat := if m.context = 0 then none else some m.context

abbrev Boxes := Handle → List MessageObj

/-- A use, and what it leaves: no message with a destroyed context, and none that is serialized
again. -/
def Leaves (box' : Boxes) (m : MessageObj) : ContextUse → Prop
  | .serialized f x => m.serializer = some f ∧ ∀ h, ∀ m' ∈ box' h, m'.context = x →
    m'.serializer = none
  | .handedOut _ => True
  | .destroyed f x => m.destructor = some f ∧ ∀ h, ∀ m' ∈ box' h, m'.context ≠ x

/-- Messages go from box to box, and contexts are used at most once. -/
structure Effect (box box' : Boxes) (us : List ContextUse) : Prop where
  apart : Boxes.Apart named? box → Boxes.Apart named? box'
  comes : ∀ h, ∀ m' ∈ box' h, m'.context ≠ 0 → ∃ g, ∃ m ∈ box g, m.context = m'.context ∧
    m'.destructor = m.destructor ∧ (m'.serializer = none ∨ m'.serializer = m.serializer)
  goes : ∀ g, ∀ m ∈ box g, m.context ≠ 0 → (∃ h, ∃ m' ∈ box' h, m'.context = m.context) ∨
    ∀ f, m.destructor = some f → .destroyed f m.context ∈ us
  uses : us = [] ∨ ∃ u, us = [u] ∧ u.context ≠ 0 ∧
    ∃ g, ∃ m ∈ box g, m.context = u.context ∧ Leaves box' m u

/-- The invariant, of the messages that one can get at. -/
structure Held (box : Boxes) (supplied : List Supply) (log : List ContextUse) : Prop where
  apart : Boxes.Apart named? box
  known : ∀ h, ∀ m ∈ box h, m.context ≠ 0 → ∃ supply ∈ supplied, supply.context = m.context ∧
    m.destructor = supply.destructor ∧
    (m.serializer = none ∨ m.serializer = supply.serializer ∧ ∀ f, .serialized f m.context ∉ log)
  numbered : ∀ supply ∈ supplied, 0 < supply.context ∧ supply.context ≤ supplied.length
  distinct : ∀ a ∈ supplied, ∀ b ∈ supplied, a.context = b.context → a = b
  gone : ∀ supply ∈ supplied, ∀ f, supply.destructor = some f →
    (∃ h, ∃ m ∈ box h, m.context = supply.context) ∨ .destroyed f supply.context ∈ log
  destructor : ∀ f x, .destroyed f x ∈ log → ∃ supply ∈ supplied, supply.context = x ∧
    supply.destructor = some f
  serializer : ∀ f x, .serialized f x ∈ log → ∃ supply ∈ supplied, supply.context = x ∧
    supply.serializer = some f
  once : log.Pairwise fun u v => u.IsSerialized → v.IsSerialized → v.context ≠ u.context

/-- A context that was supplied, and that no message has any more. -/
def Gone (s : Boxes × List Supply) (x : Nat) : Prop :=
  0 < x ∧ x ≤ s.2.length ∧ ∀ h, ∀ m ∈ s.1 h, m.context ≠ x

abbrev Uses (s s' : Boxes × List Supply) (us : List ContextUse) : Prop :=
  LastUse.Uses Gone ContextUse.context ContextUse.IsDestroyed s s' us

variable {box box' : Boxes} {supplied : List Supply} {log us : List ContextUse} {g h : Handle}
  {m m' : MessageObj}

theorem uses_of_effect (hh : Held box supplied log) (he : Effect box box' us) :
    Uses (box, supplied) (box', supplied) us := by
  have hstays (x : Nat) (hx : Gone (box, supplied) x) : Gone (box', supplied) x := by
    refine ⟨hx.1, hx.2.1, fun h m' hm' heq => ?_⟩
    obtain ⟨g, m, hm, hcontext, -⟩ := he.comes h m' hm' (heq ▸ Nat.pos_iff_ne_zero.mp hx.1)
    exact hx.2.2 g m hm (hcontext.trans heq)
  rcases he.uses with rfl | ⟨u, rfl, hu, g, m, hm, hcontext, hleaves⟩
  · exact .nil hstays
  · obtain ⟨supply, hsupply, hsup, -⟩ := hh.known g m hm (hcontext ▸ hu)
    refine .single hstays (fun hgone => hgone.2.2 g m hm hcontext) ?_
    rintro ⟨f, x, rfl⟩
    have hx : supply.context = x := hsup.trans hcontext
    obtain ⟨hpos, hle⟩ := hh.numbered supply hsupply
    exact ⟨hx ▸ hpos, hx ▸ hle, hleaves.2⟩

theorem held_effect (hh : Held box supplied log) (he : Effect box box' us) :
    Held box' supplied (log ++ us) where
  apart := he.apart hh.apart
  known h m' hm' hne := by
    obtain ⟨g, m, hm, hcontext, hdtor, hser⟩ := he.comes h m' hm' hne
    obtain ⟨supply, hsupply, hsup, hdtor', hser'⟩ := hh.known g m hm (hcontext ▸ hne)
    refine ⟨supply, hsupply, hsup.trans hcontext, hdtor.trans hdtor', ?_⟩
    rcases hser with hser | hser
    · exact .inl hser
    rcases hser' with hser' | ⟨hser', hno⟩
    · exact .inl (hser.trans hser')
    rcases he.uses with rfl | ⟨u, rfl, -, g', m₁, hm₁, -, hleaves⟩
    · refine .inr ⟨hser.trans hser', fun f hmem => hno f ?_⟩
      rw [append_nil, ← hcontext] at hmem
      exact hmem
    · by_cases hu : ∃ f, u = .serialized f m'.context
      · obtain ⟨f, rfl⟩ := hu
        exact .inl (hleaves.2 h m' hm' rfl)
      · refine .inr ⟨hser.trans hser', fun f hmem => ?_⟩
        rcases mem_append.mp hmem with hmem | hmem
        · exact hno f (hcontext ▸ hmem)
        · exact hu ⟨f, (mem_singleton.mp hmem).symm⟩
  numbered := hh.numbered
  distinct := hh.distinct
  gone supply hsupply f hf := by
    rcases hh.gone supply hsupply f hf with ⟨g, m, hm, hcontext⟩ | hdestroyed
    · have hne : m.context ≠ 0 := hcontext ▸ Nat.pos_iff_ne_zero.mp (hh.numbered supply hsupply).1
      rcases he.goes g m hm hne with ⟨h, m', hm', heq⟩ | hlost
      · exact .inl ⟨h, m', hm', heq.trans hcontext⟩
      · obtain ⟨supply', hsupply', hsup, hdtor, -⟩ := hh.known g m hm hne
        obtain rfl := hh.distinct supply' hsupply' supply hsupply (hsup.trans hcontext)
        rw [← hcontext]
        exact .inr (mem_append_right _ (hlost f (hdtor.trans hf)))
    · exact .inr (mem_append_left _ hdestroyed)
  destructor f x hmem := by
    rcases mem_append.mp hmem with hmem | hmem
    · exact hh.destructor f x hmem
    rcases he.uses with rfl | ⟨u, rfl, hu, g, m, hm, hcontext, hleaves⟩
    · cases hmem
    · cases mem_singleton.mp hmem
      obtain ⟨supply, hsupply, hsup, hdtor, -⟩ := hh.known g m hm (hcontext ▸ hu)
      exact ⟨supply, hsupply, hsup.trans hcontext, hdtor.symm.trans hleaves.1⟩
  serializer f x hmem := by
    rcases mem_append.mp hmem with hmem | hmem
    · exact hh.serializer f x hmem
    rcases he.uses with rfl | ⟨u, rfl, hu, g, m, hm, hcontext, hleaves⟩
    · cases hmem
    · cases mem_singleton.mp hmem
      obtain ⟨supply, hsupply, hsup, -, hser⟩ := hh.known g m hm (hcontext ▸ hu)
      refine ⟨supply, hsupply, hsup.trans hcontext, ?_⟩
      rcases hser with hser | ⟨hser, -⟩
      · rw [hleaves.1] at hser
        cases hser
      · exact hser.symm.trans hleaves.1
  once := by
    refine pairwise_append.mpr ⟨hh.once, ?_, ?_⟩
    · rcases he.uses with rfl | ⟨u, rfl, -⟩
      · exact .nil
      · exact pairwise_singleton ..
    · rintro u hu v hv ⟨f, x, rfl⟩ ⟨f', x', rfl⟩ heq
      rcases he.uses with rfl | ⟨w, rfl, hw, g, m, hm, hcontext, hleaves⟩
      · cases hv
      · cases mem_singleton.mp hv
        obtain ⟨supply, -, -, -, hser⟩ := hh.known g m hm (hcontext ▸ hw)
        rcases hser with hser | ⟨-, hno⟩
        · rw [hleaves.1] at hser
          cases hser
        · refine hno f ?_
          rw [hcontext]
          exact heq ▸ hu

/-! ### The ways of a message -/

theorem mem_names {l : List MessageObj} {x : Nat} :
    x ∈ l.filterMap named? ↔ x ≠ 0 ∧ ∃ m ∈ l, m.context = x := by
  rw [mem_filterMap]
  constructor
  · rintro ⟨m, hm, hx⟩
    unfold named? at hx
    split at hx
    · cases hx
    · rename_i hne
      cases hx
      exact ⟨hne, m, hm, rfl⟩
  · rintro ⟨hne, m, hm, rfl⟩
    exact ⟨m, hm, if_neg hne⟩

theorem box_eq (hapart : Boxes.Apart named? box) (hm : m ∈ box g) (hm' : m' ∈ box h)
    (heq : m.context = m'.context) (hne : m.context ≠ 0) : g = h :=
  hapart.unique g h m.context (mem_names.mpr ⟨hne, m, hm, rfl⟩)
    (mem_names.mpr ⟨hne, m', hm', heq.symm⟩)

theorem names_of_null {l : List MessageObj} (hl : ∀ m ∈ l, m.context = 0) :
    l.filterMap named? = [] := by
  refine filterMap_eq_nil_iff.mpr fun m hm => ?_
  exact if_pos (hl m hm)

theorem mem_update {l : List MessageObj} (hm : m ∈ Function.update box h l g) :
    g = h ∧ m ∈ l ∨ g ≠ h ∧ m ∈ box g := by
  by_cases hg : g = h
  · rw [hg, update_self] at hm
    exact .inl ⟨hg, hm⟩
  · rw [update_of_ne hg] at hm
    exact .inr ⟨hg, hm⟩

theorem mem_update_self {l : List MessageObj} (hm : m ∈ l) : m ∈ Function.update box h l h := by
  rw [update_self]
  exact hm

theorem mem_update_of_ne {l : List MessageObj} (hg : g ≠ h) (hm : m ∈ box g) :
    m ∈ Function.update box h l g := by
  rw [update_of_ne hg]
  exact hm

theorem effect_refl (box : Boxes) : Effect box box [] where
  apart := id
  comes h m hm _ := ⟨h, m, hm, rfl, rfl, .inr rfl⟩
  goes g m hm _ := .inl ⟨g, m, hm, rfl⟩
  uses := .inl rfl

theorem effect_handedOut {x : Nat} (hm : m ∈ box h) (hx : m.context = x) (hne : x ≠ 0) :
    Effect box box [.handedOut x] where
  apart := id
  comes h m hm _ := ⟨h, m, hm, rfl, rfl, .inr rfl⟩
  goes g m hm _ := .inl ⟨g, m, hm, rfl⟩
  uses := .inr ⟨_, rfl, hne, h, m, hm, hx, trivial⟩

theorem effect_replace (hapart : Boxes.Apart named? box) (hbox : box h = [m])
    (hcontext : m'.context = m.context) (hdtor : m'.destructor = m.destructor)
    (hser : m'.serializer = none ∨ m'.serializer = m.serializer)
    (hus : us = [] ∨ ∃ f, m.serializer = some f ∧ m.context ≠ 0 ∧ m'.serializer = none ∧
      us = [.serialized f m.context]) :
    Effect box (Function.update box h [m']) us where
  apart hapart := by
    refine hapart.update ?_
    have hname : named? m' = named? m := by rw [named?, named?, hcontext]
    rw [hbox, filterMap_cons, filterMap_cons, hname]
  comes g n hn _ := by
    rcases mem_update hn with ⟨-, hn⟩ | ⟨-, hn⟩
    · cases mem_singleton.mp hn
      exact ⟨h, m, hbox ▸ mem_singleton_self m, hcontext.symm, hdtor, hser⟩
    · exact ⟨g, n, hn, rfl, rfl, .inr rfl⟩
  goes g n hn _ := by
    by_cases hg : g = h
    · rw [hg, hbox] at hn
      cases mem_singleton.mp hn
      exact .inl ⟨h, m', mem_update_self (mem_singleton_self m'), hcontext⟩
    · exact .inl ⟨g, n, mem_update_of_ne hg hn, rfl⟩
  uses := by
    rcases hus with rfl | ⟨f, hf, hne, hnone, rfl⟩
    · exact .inl rfl
    have hm : m ∈ box h := hbox ▸ mem_singleton_self m
    refine .inr ⟨_, rfl, hne, h, m, hm, rfl, hf, fun g n hn heq => ?_⟩
    rcases mem_update hn with ⟨-, hn⟩ | ⟨hg, hn⟩
    · cases mem_singleton.mp hn
      exact hnone
    · exact absurd (box_eq hapart hn hm heq (heq ▸ hne)) hg

theorem effect_drop {l : List MessageObj} (hapart : Boxes.Apart named? box)
    (hl : ∀ m' ∈ l, m'.context = 0)
    (hus : (∀ m ∈ box h, m.context ≠ 0 → m.destructor = none) ∧ us = [] ∨
      ∃ m f, box h = [m] ∧ m.context ≠ 0 ∧ m.destructor = some f ∧ us = [.destroyed f m.context]) :
    Effect box (Function.update box h l) us where
  apart hapart := by
    refine hapart.update ?_
    rw [names_of_null hl]
    exact nil_sublist _
  comes g n hn hne := by
    rcases mem_update hn with ⟨-, hn⟩ | ⟨-, hn⟩
    · exact absurd (hl n hn) hne
    · exact ⟨g, n, hn, rfl, rfl, .inr rfl⟩
  goes g n hn hne := by
    by_cases hg : g = h
    · subst hg
      right
      intro f hf
      rcases hus with ⟨hnone, rfl⟩ | ⟨m, f', hbox, -, hf', rfl⟩
      · rw [hnone n hn hne] at hf
        cases hf
      · rw [hbox] at hn
        cases mem_singleton.mp hn
        cases hf.symm.trans hf'
        exact mem_singleton_self _
    · exact .inl ⟨g, n, mem_update_of_ne hg hn, rfl⟩
  uses := by
    rcases hus with ⟨-, rfl⟩ | ⟨m, f, hbox, hne, hf, rfl⟩
    · exact .inl rfl
    have hm : m ∈ box h := hbox ▸ mem_singleton_self m
    refine .inr ⟨_, rfl, hne, h, m, hm, rfl, hf, fun g n hn heq => ?_⟩
    rcases mem_update hn with ⟨-, hn⟩ | ⟨hg, hn⟩
    · exact hne (heq.symm.trans (hl n hn))
    · exact hg (box_eq hapart hn hm heq (heq ▸ hne))

/-- The first message of a box goes behind those of another one. -/
theorem effect_shift {rest : List MessageObj} (hbox : box g = m :: rest)
    (hcontext : m'.context = m.context) (hdtor : m'.destructor = m.destructor)
    (hser : m'.serializer = m.serializer) :
    Effect box (Function.update (Function.update box g rest) h
      (Function.update box g rest h ++ [m'])) [] where
  apart hapart := by
    have hname : named? m' = named? m := by rw [named?, named?, hcontext]
    refine hapart.shift (show box g = [m] ++ rest from hbox) ?_
    rw [filterMap_cons, filterMap_cons, hname]
  comes x n hn _ := by
    have hrest {y : Handle} (hn : n ∈ Function.update box g rest y) : n ∈ box y := by
      rcases mem_update hn with ⟨rfl, hin⟩ | ⟨-, hin⟩
      · exact hbox ▸ mem_cons_of_mem m hin
      · exact hin
    rcases mem_update hn with ⟨rfl, hn⟩ | ⟨-, hn⟩
    · rcases mem_append.mp hn with hn | hn
      · exact ⟨x, n, hrest hn, rfl, rfl, .inr rfl⟩
      · cases mem_singleton.mp hn
        exact ⟨g, m, hbox ▸ mem_cons_self, hcontext.symm, hdtor, .inr hser⟩
    · exact ⟨x, n, hrest hn, rfl, rfl, .inr rfl⟩
  goes x n hn _ := by
    have hnew : m' ∈ Function.update box g rest h ++ [m'] :=
      mem_append_right _ (mem_singleton_self m')
    have hkept {y : Handle} (hn : n ∈ Function.update box g rest y) :
        ∃ h', ∃ n' ∈ Function.update (Function.update box g rest) h
          (Function.update box g rest h ++ [m']) h', n'.context = n.context := by
      by_cases hy : y = h
      · exact ⟨h, n, mem_update_self (mem_append_left _ (hy ▸ hn)), rfl⟩
      · exact ⟨y, n, mem_update_of_ne hy hn, rfl⟩
    left
    by_cases hx : x = g
    · rw [hx, hbox] at hn
      rcases mem_cons.mp hn with rfl | hn
      · exact ⟨h, m', mem_update_self hnew, hcontext⟩
      · exact hkept (mem_update_self hn)
    · exact hkept (mem_update_of_ne hx hn)
  uses := .inl rfl

/-- A message gets a new context. -/
theorem held_supply (m' : MessageObj) (hh : Held box supplied log)
    (hm' : m'.context = supplied.length + 1) (hbox : box h = [m]) (hm : m.context = 0) :
    Held (Function.update box h [m'])
      (⟨supplied.length + 1, m'.serializer, m'.destructor⟩ :: supplied) log where
  apart := by
    have hempty : Boxes.Apart named? (Function.update box h []) :=
      hh.apart.update (nil_sublist _)
    have hname : [m'].filterMap named? = [supplied.length + 1] := by
      refine filterMap_cons_some ?_
      rw [named?, hm', if_neg (Nat.succ_ne_zero _)]
    have hput := hempty.put (h := h) (hname ▸ nodup_singleton _) fun x hx g hmem => ?_
    · rw [update_self, nil_append, update_idem] at hput
      exact hput
    · rw [hname, mem_singleton] at hx
      obtain ⟨hne, n, hn, hcontext⟩ := mem_names.mp hmem
      rcases mem_update hn with ⟨-, hn⟩ | ⟨-, hn⟩
      · cases hn
      · obtain ⟨supply, hsupply, hsup, -⟩ := hh.known g n hn (hcontext ▸ hne)
        have hle := (hh.numbered supply hsupply).2
        omega
  known g n hn hne := by
    rcases mem_update hn with ⟨-, hn⟩ | ⟨-, hn⟩
    · cases mem_singleton.mp hn
      refine ⟨_, mem_cons_self, hm'.symm, rfl, .inr ⟨rfl, fun f hmem => ?_⟩⟩
      obtain ⟨supply, hsupply, hsup, -⟩ := hh.serializer f _ hmem
      have hle := (hh.numbered supply hsupply).2
      omega
    · obtain ⟨supply, hsupply, hrest⟩ := hh.known g n hn hne
      exact ⟨supply, mem_cons_of_mem _ hsupply, hrest⟩
  numbered supply hsupply := by
    rcases mem_cons.mp hsupply with rfl | hsupply
    · exact ⟨Nat.succ_pos _, Nat.le_refl _⟩
    · exact ⟨(hh.numbered supply hsupply).1, Nat.le_succ_of_le (hh.numbered supply hsupply).2⟩
  distinct a ha b hb heq := by
    rcases mem_cons.mp ha with rfl | ha
    · rcases mem_cons.mp hb with rfl | hb
      · rfl
      · have hle := (hh.numbered b hb).2
        dsimp only at heq
        omega
    · rcases mem_cons.mp hb with rfl | hb
      · have hle := (hh.numbered a ha).2
        dsimp only at heq
        omega
      · exact hh.distinct a ha b hb heq
  gone supply hsupply f hf := by
    rcases mem_cons.mp hsupply with rfl | hsupply
    · exact .inl ⟨h, m', mem_update_self (mem_singleton_self m'), hm'⟩
    · rcases hh.gone supply hsupply f hf with ⟨g, n, hn, hcontext⟩ | hdestroyed
      · refine .inl ⟨g, n, mem_update_of_ne ?_ hn, hcontext⟩
        rintro rfl
        rw [hbox] at hn
        cases mem_singleton.mp hn
        have hpos := (hh.numbered supply hsupply).1
        omega
      · exact .inr hdestroyed
  destructor f x hmem := by
    obtain ⟨supply, hsupply, hrest⟩ := hh.destructor f x hmem
    exact ⟨supply, mem_cons_of_mem _ hsupply, hrest⟩
  serializer f x hmem := by
    obtain ⟨supply, hsupply, hrest⟩ := hh.serializer f x hmem
    exact ⟨supply, mem_cons_of_mem _ hsupply, hrest⟩
  once := hh.once

theorem uses_supply (box : Boxes) (h : Handle) (m' : MessageObj)
    (hm' : m'.context = supplied.length + 1) (supply : Supply) :
    Uses (box, supplied) (Function.update box h [m'], supply :: supplied) [] := by
  refine .nil fun x hx => ⟨hx.1, Nat.le_succ_of_le hx.2.1, fun g n hn heq => ?_⟩
  rcases mem_update hn with ⟨-, hn⟩ | ⟨-, hn⟩
  · cases mem_singleton.mp hn
    have hle : x ≤ supplied.length := hx.2.1
    omega
  · exact hx.2.2 g n hn heq

/-! ### The functions -/

section functions

variable {c : Core} {w : Wiring Handle Content}

theorem named_cons {f x : Nat} (hne : x ≠ 0) : named [(f, x)] = [(f, x)] :=
  filter_cons_of_pos (decide_eq_true hne)

/-- The call of the destructor, if there is one and the context is not null. -/
def destroys (m : MessageObj) : List ContextUse :=
  (named (m.destructor.map (·, m.context)).toList).map fun call => .destroyed call.1 call.2

theorem destroys_cases (hbox : box h = [m]) :
    (∀ m' ∈ box h, m'.context ≠ 0 → m'.destructor = none) ∧ destroys m = [] ∨
      ∃ m' f, box h = [m'] ∧ m'.context ≠ 0 ∧ m'.destructor = some f ∧
        destroys m = [.destroyed f m'.context] := by
  cases hf : m.destructor with
  | none =>
    refine .inl ⟨fun m' hm' _ => ?_, ?_⟩
    · rw [hbox] at hm'
      cases mem_singleton.mp hm'
      exact hf
    · rw [destroys, hf]
      rfl
  | some f =>
    by_cases hne : m.context = 0
    · refine .inl ⟨fun m' hm' hne' => ?_, ?_⟩
      · rw [hbox] at hm'
        cases mem_singleton.mp hm'
        exact absurd hne hne'
      · rw [destroys, hf, hne]
        rfl
    · refine .inr ⟨m, f, hbox, hne, hf, ?_⟩
      rw [destroys, hf]
      show (List.filter _ [(f, m.context)]).map _ = _
      show (named [(f, m.context)]).map _ = _
      rw [named_cons hne]
      rfl

theorem effect_writeMessage (hw : Core.Wired c w) (hapart : Boxes.Apart named? c.messages)
    (p m : Handle)
    (hok : ∀ e msg, c.IsEnd p e → c.lookup m = some (.message msg) →
      (c.pipes e.state).closed e.other.side = true ∨ (c.pipes e.state).closed e.side = true →
        msg.context ≠ 0 → msg.destructor = none) :
    Effect c.messages (c.writeMessage p m).2.messages [] := by
  rcases Core.writeMessage_cases c p m with
    ⟨r, -, heq⟩ | ⟨e, msg, hp, hm, hshut, heq⟩ | ⟨e, msg, hp, hm, hopen, heq⟩
  · rw [heq]
    exact effect_refl _
  · rw [heq]
    dsimp only
    rw [Core.messages_collectTrapEvents, Core.messages_free]
    refine effect_drop hapart nofun (.inl ⟨fun m' hm' hne => ?_, rfl⟩)
    rw [Core.messages_message hm] at hm'
    cases mem_singleton.mp hm'
    exact hok e msg hp hm hshut hne
  · obtain ⟨y, hy⟩ := hw.peer_open hp hopen
    have hne : y ≠ m := by
      rintro rfl
      cases hy.symm.trans hm
    rw [heq]
    dsimp only
    rw [Core.messages_collectTrapEvents, Core.messages_free, Core.messages_setQueue hw hy,
      update_comm hne]
    have hbox := Core.messages_message hm
    have hqueue : Function.update c.messages m [] y = c.queue e.other := by
      rw [update_of_ne hne, Core.messages_end hy]
    rw [← hqueue]
    exact effect_shift hbox rfl rfl rfl

theorem effect_readMessage (hs : c.Sound) (hw : Core.Wired c w) (p : Handle) :
    Effect c.messages (c.readMessage p).2.messages [] := by
  rcases Core.readMessage_cases c p with ⟨-, heq⟩ | ⟨e, r, -, -, -, heq⟩ |
    ⟨e, msg, rest, hp, hqueue, heq⟩
  · rw [heq]
    exact effect_refl _
  · rw [heq]
    exact effect_refl _
  · have hset : (c.setQueue e rest).Sound := hs.same rfl rfl rfl rfl rfl
    have hne : c.nextHandle ≠ p := (hs.table.nextHandle_ne hp).symm
    rw [heq]
    dsimp only
    rw [Core.messages_alloc hset.table, Core.messages_setQueue hw hp]
    have hempty : Function.update c.messages p rest c.nextHandle = [] := by
      rw [update_of_ne hne]
      exact Core.messages_none hs.table.nextHandle_free
    have hshift : Effect c.messages
        (Function.update (Function.update c.messages p rest) c.nextHandle
          (Function.update c.messages p rest c.nextHandle ++ [msg])) [] :=
      effect_shift ((Core.messages_end hp).trans hqueue) rfl rfl rfl
    rw [hempty] at hshift
    exact hshift

theorem effect_close (hapart : Boxes.Apart named? c.messages) (h : Handle)
    (hok : ∀ e, c.IsEnd h e → ∀ msg ∈ c.queue e, msg.context ≠ 0 → msg.destructor = none) :
    Effect c.messages (c.close h).2.messages
      ((named (c.close h).1.calls).map fun call => .destroyed call.1 call.2) := by
  unfold Core.close
  cases hlive : c.lookup h with
  | none => exact effect_refl _
  | some o =>
    dsimp only
    rw [Core.messages_collectTrapEvents, Core.messages_release hlive]
    cases o with
    | message m => exact effect_drop hapart nofun (destroys_cases (Core.messages_message hlive))
    | messagePipe e =>
      refine effect_drop hapart nofun (.inl ⟨?_, rfl⟩)
      rw [Core.messages_end hlive]
      exact hok e hlive
    | _ =>
      -- no message is there
      refine effect_drop hapart nofun (.inl ⟨fun m hm => ?_, rfl⟩)
      rw [Core.messages, hlive] at hm
      cases hm

theorem setMessageContext_cases (c : Core) (m : Handle) (x : Nat)
    (serializer destructor : Option Nat) :
    c.setMessageContext m x serializer destructor = c.refuse .invalidArgument ∨
      ∃ msg, c.lookup m = some (.message msg) ∧ c.setMessageContext m x serializer destructor =
        ({ result := .ok, calls := (msg.destructor.map (·, msg.context)).toList },
          c.setObj m (.message { msg with
            context := x, serializer := serializer, destructor := destructor })) := by
  unfold Core.setMessageContext
  split
  · rename_i msg hm
    exact .inr ⟨msg, hm, rfl⟩
  · exact .inl rfl

/-- A call that supplies no context. -/
theorem effect_step {s : Contexts} (hs : s.core.Sound) (hw : Core.Wired s.core w)
    (hapart : Boxes.Apart named? s.core.messages) (a : ContextOp) (hok : s.Careful a)
    (hset : s.supplies a = []) :
    Effect s.core.messages (s.core.step (s.op a)).messages (s.uses a) := by
  cases a with
  | createMessage =>
    show Effect s.core.messages (s.core.alloc (.message {})).messages []
    rw [Core.messages_alloc hs.table]
    refine effect_drop hapart (fun m hm => ?_) (.inl ⟨fun m hm => ?_, rfl⟩)
    · rw [mem_singleton.mp hm]
    · rw [Core.messages_none hs.table.nextHandle_free] at hm
      cases hm
  | createMessagePipe =>
    show Effect s.core.messages s.core.createMessagePipe.2.messages []
    rw [Core.messages_createMessagePipe hs]
    exact effect_refl _
  | appendMessageData m additional handles commit =>
    show Effect s.core.messages (s.core.appendMessageData m additional handles commit).2.messages []
    unfold Core.appendMessageData
    split
    · rename_i msg hm
      dsimp only
      split
      · exact effect_refl _
      · rw [Core.messages_setObj hm]
        exact effect_replace hapart (Core.messages_message hm) rfl rfl (.inr rfl) (.inl rfl)
    · exact effect_refl _
  | setMessageContext m null serializer destructor =>
    show Effect s.core.messages (s.core.setMessageContext m _ serializer destructor).2.messages
      ((named (s.core.setMessageContext m _ serializer destructor).1.calls).map fun call =>
        .destroyed call.1 call.2)
    rcases setMessageContext_cases s.core m (if null then 0 else s.supplied.length + 1) serializer
      destructor with heq | ⟨msg, hm, heq⟩
    · rw [heq]
      exact effect_refl _
    · cases null with
      | false =>
        have hok : (s.reply (.setMessageContext m false serializer destructor)).result = .ok :=
          congrArg (fun r : Reply × Core => r.1.result) heq
        have hsupplies : s.supplies (.setMessageContext m false serializer destructor) = [_] :=
          if_pos hok
        rw [hsupplies] at hset
        cases hset
      | true =>
        rw [heq]
        dsimp only
        rw [Core.messages_setObj hm]
        refine effect_drop hapart (fun m' hm' => ?_) (destroys_cases (Core.messages_message hm))
        rw [mem_singleton.mp hm']
        rfl
  | serializeMessage m =>
    show Effect s.core.messages (s.core.serializeMessage m).2.messages
      ((named (s.core.serializeMessage m).1.calls).map fun call => .serialized call.1 call.2)
    unfold Core.serializeMessage
    split
    · rename_i msg hm
      split
      · exact effect_refl _
      · dsimp only
        rw [Core.messages_setObj hm]
        refine effect_replace hapart (Core.messages_message hm) rfl rfl (.inl rfl) ?_
        cases hf : msg.serializer with
        | none => exact .inl rfl
        | some f =>
          by_cases hne : msg.context = 0
          · left
            rw [hne]
            rfl
          · refine .inr ⟨f, rfl, hne, rfl, ?_⟩
            show (named [(f, msg.context)]).map _ = _
            rw [named_cons hne]
            rfl
    · exact effect_refl _
  | messageSerialized m =>
    show Effect s.core.messages (s.core.messageSerialized m).2.messages
      ((named (s.core.messageSerialized m).1.calls).map fun call => .destroyed call.1 call.2)
    unfold Core.messageSerialized
    split
    · rename_i msg hm
      dsimp only
      rw [Core.messages_setObj hm]
      refine effect_drop hapart (fun m' hm' => ?_) (destroys_cases (Core.messages_message hm))
      rw [mem_singleton.mp hm']
    · exact effect_refl _
  | getMessageContext m =>
    show Effect s.core.messages (s.core.getMessageContext m).2.messages
      (((s.core.getMessageContext m).1.counts.filter (· ≠ 0)).map .handedOut)
    unfold Core.getMessageContext
    split
    · rename_i msg hm
      dsimp only
      by_cases hne : msg.context = 0
      · rw [hne]
        exact effect_refl _
      · have hkept : [msg.context].filter (· ≠ 0) = [msg.context] :=
          filter_cons_of_pos (decide_eq_true hne)
        rw [hkept]
        refine effect_handedOut (h := m) (m := msg) ?_ rfl hne
        rw [Core.messages_message hm]
        exact mem_singleton_self msg
    · exact effect_refl _
  | writeMessage p m => exact effect_writeMessage hw hapart p m hok
  | readMessage p => exact effect_readMessage hs hw p
  | close h => exact effect_close hapart h hok

/-- What holds of every run. -/
structure Valid (s : Contexts) : Prop where
  sound : s.core.Sound
  wired : ∃ w, Core.Wired s.core w
  held : Held s.core.messages s.supplied s.log
  uses : Uses (fun _ => [], []) (s.core.messages, s.supplied) s.log

theorem held_setMessageContext {supplied : List Supply} {log : List ContextUse}
    {msg : MessageObj} {m : Handle}
    (hh : Held c.messages supplied log) (hm : c.lookup m = some (.message msg))
    (serializer destructor : Option Nat) :
    Held (c.setObj m (.message { msg with
        context := supplied.length + 1
        serializer := serializer
        destructor := destructor })).messages
      (⟨supplied.length + 1, serializer, destructor⟩ :: supplied) (log ++ destroys msg) ∧
    Uses (c.messages, supplied) ((c.setObj m (.message { msg with
        context := supplied.length + 1
        serializer := serializer
        destructor := destructor })).messages,
      ⟨supplied.length + 1, serializer, destructor⟩ :: supplied) (destroys msg) := by
  have hbox := Core.messages_message hm
  have hdrop : Effect c.messages (Function.update c.messages m [{ msg with context := 0 }])
    (destroys msg) := by
    refine effect_drop hh.apart (fun m' hm' => ?_) (destroys_cases hbox)
    rw [mem_singleton.mp hm']
  have hheld := held_supply
    { msg with context := supplied.length + 1, serializer := serializer, destructor := destructor }
    (held_effect hh hdrop) rfl (update_self ..) rfl
  have huses := uses_supply (Function.update c.messages m [{ msg with context := 0 }]) m
    { msg with
      context := supplied.length + 1, serializer := serializer, destructor := destructor } rfl
    ⟨supplied.length + 1, serializer, destructor⟩
  have hall := (uses_of_effect hh hdrop).trans huses
  rw [update_idem] at hheld hall
  rw [append_nil] at hall
  rw [Core.messages_setObj hm]
  exact ⟨hheld, hall⟩

theorem valid_step {s : Contexts} (hv : Valid s) (a : ContextOp) (hok : s.Careful a) :
    Valid (s.step a) := by
  obtain ⟨hs, ⟨w, hw⟩, hh, hu⟩ := hv
  have hsound := Core.sound_step hs (s.op a)
  have hwired : ∃ w, Core.Wired (s.core.step (s.op a)) w := ⟨_, Core.wired_step hs hw (s.op a)⟩
  cases hset : s.supplies a with
  | nil =>
    have he := effect_step hs hw hh.apart a hok hset
    have hsupplied : (s.step a).supplied = s.supplied := by rw [step, hset, nil_append]
    refine ⟨hsound, hwired, ?_, ?_⟩
    · rw [hsupplied]
      exact held_effect hh he
    · rw [hsupplied]
      exact hu.trans (uses_of_effect hh he)
  | cons supply rest =>
    cases a with
    | setMessageContext m null serializer destructor =>
      cases null with
      | true => cases hset
      | false =>
        rcases setMessageContext_cases s.core m (s.supplied.length + 1) serializer destructor with
          heq | ⟨msg, hm, heq⟩
        · have hno : s.supplies (.setMessageContext m false serializer destructor) = [] := by
            refine if_neg ?_
            have hreply : (s.reply (.setMessageContext m false serializer destructor)).result =
              .invalidArgument :=
              congrArg (fun r : Reply × Core => r.1.result) heq
            rw [hreply]
            exact nofun
          rw [hno] at hset
          cases hset
        · have hcore : s.core.step (s.op (.setMessageContext m false serializer destructor)) = _ :=
            congrArg Prod.snd heq
          have huses : s.uses (.setMessageContext m false serializer destructor) = destroys msg :=
            congrArg (fun r : Reply × Core => (named r.1.calls).map fun call : Nat × Nat =>
              ContextUse.destroyed call.1 call.2) heq
          have hok : (s.reply (.setMessageContext m false serializer destructor)).result = .ok :=
            congrArg (fun r : Reply × Core => r.1.result) heq
          have hsupplies : s.supplies (.setMessageContext m false serializer destructor) =
            [⟨s.supplied.length + 1, serializer, destructor⟩] := if_pos hok
          obtain ⟨hheld, hall⟩ := held_setMessageContext hh hm serializer destructor
          refine ⟨hsound, hwired, ?_, ?_⟩
          · rw [step, hcore, hsupplies, huses]
            exact hheld
          · rw [step, hcore, hsupplies, huses]
            exact hu.trans hall
    | _ => cases hset

theorem valid_nil : Valid {} := by
  have hnone : ({} : Core).messages = fun _ => [] := by
    funext h
    refine Core.messages_none ?_
    by_cases h0 : h = 0
    · rw [h0, Core.lookup_zero]
    · exact Core.lookup_of_length_le (Nat.one_le_iff_ne_zero.mpr h0)
  refine ⟨Core.sound_start, ⟨_, Core.wired_start⟩, ?_, ?_⟩
  · show Held ({} : Core).messages [] []
    rw [hnone]
    exact ⟨⟨fun _ => nodup_nil, fun _ _ _ => nofun⟩, nofun, nofun, nofun, nofun,
      nofun, nofun, .nil⟩
  · show Uses (fun _ => [], []) (({} : Core).messages, []) []
    rw [hnone]
    exact .nil fun _ => id

theorem lawful_of_valid {s : Contexts} (hv : Valid s) : Lawful s where
  destructor := hv.held.destructor
  serializer := hv.held.serializer
  last := hv.uses.pairwise
  once := hv.held.once
  gone supply hsupply f hf hno := by
    rcases hv.held.gone supply hsupply f hf with ⟨h, m, hm, hcontext⟩ | hdestroyed
    · exact absurd hcontext (hno h m hm)
    · exact hdestroyed

end functions

/-- **The destructor of each context runs exactly once, after its last use, and the serializer at
most once**, in every run where no message with a destructor is dropped. -/
theorem lawful_contexts_of_reaches {s : Contexts} (h : Reaches {} step Careful s) : Lawful s :=
  lawful_of_valid (h.invariant valid_nil fun _ a hv hok => valid_step hv a hok)

/-- A context is replaced, the next one serialized for a write, and one more read and closed. -/
def serving : List ContextOp :=
  [.createMessagePipe, .createMessage, .setMessageContext 3 false (some 1) (some 2),
    .setMessageContext 3 false (some 1) (some 2), .serializeMessage 3, .messageSerialized 3,
    .writeMessage 1 3, .createMessage, .appendMessageData 3 0 [] true,
    .setMessageContext 3 false none (some 2), .writeMessage 1 3, .readMessage 2, .close 3,
    .readMessage 2, .getMessageContext 3, .close 3, .close 2]

theorem lawful_serving : Lawful (serving.foldl step {}) := by
  refine lawful_contexts_of_reaches (Reaches.start.along ?_)
  refine ⟨trivial, trivial, trivial, trivial, trivial, trivial, ?_, trivial, trivial, trivial,
    ?_, trivial, ?_, trivial, trivial, ?_, ?_, trivial⟩
  · intro e msg he _ hshut
    cases he
    exact absurd hshut (by decide)
  · intro e msg he _ hshut
    cases he
    exact absurd hshut (by decide)
  · intro e he
    cases he
  · intro e he
    cases he
  · intro e he
    cases he
    exact nofun

/-- A committed message with a context is written to a closed pipe. -/
def dropped : List ContextOp :=
  [.createMessagePipe, .createMessage, .appendMessageData 3 0 [] true,
    .setMessageContext 3 false none (some 1), .close 2, .serializeMessage 3, .writeMessage 1 3]

theorem not_lawful_dropped : ¬ Lawful (dropped.foldl step {}) := by
  intro h
  have hdestroyed := h.gone ⟨1, none, some 1⟩ (by decide) 1 rfl ?_
  · exact absurd hdestroyed (by decide)
  · intro handle m hm
    have hlen : (dropped.foldl step {}).core.slots.length = 4 := by decide
    have hempty : ∀ handle < 4, (dropped.foldl step {}).core.messages handle = [] := by decide
    by_cases hlt : handle < 4
    · rw [hempty handle hlt] at hm
      cases hm
    · rw [Core.messages_none (Core.lookup_of_length_le (hlen ▸ Nat.le_of_not_lt hlt))] at hm
      cases hm

end Contexts

end Voodoo.Whp
