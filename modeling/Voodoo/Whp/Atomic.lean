import Voodoo.Whp.Run

/-!
# Errors of the message functions

What a message and a queue are after a call that returns an error.  `WhpSerializeMessage` and
`WhpWriteMessage` are put together from their regions; the callbacks that run between these do to
the core what they like.

`WhpAppendMessageData` and `WhpGetMessageData` ask first and change afterwards.  `WhpWriteMessage`
serializes the message before it looks at the pipe, and where the pipe is closed it frees the
message without closing the handles in it and without calling a destructor that is still there.

* `atomic_iff`: exactly when the calls leave the message as it was or free it with all it holds;
* `not_atomic`: a full queue, a closed pipe with a handle in the message, and one with a destructor.
-/

namespace Voodoo.Whp

/-- What the callbacks do: a serializer, with its context and the message, and a destructor. -/
structure Callbacks where
  serialize : Nat → Nat → Handle → Core → Core
  destroy : Nat → Nat → Core → Core

/-- What is compared of a message. -/
def MessageObj.shown (m : MessageObj) : List UInt8 × List Handle × Nat × Bool :=
  (m.bytes, m.handles, m.context, m.committed)

namespace Core

def messageAt (c : Core) (h : Handle) : Option MessageObj :=
  match c.lookup h with
  | some (.message m) => some m
  | _ => none

/-- `WhpSerializeMessage` returns at once. -/
def Settled (m : MessageObj) : Prop := m.committed ∧ m.serializer = none

instance (m : MessageObj) : Decidable (Settled m) := inferInstanceAs (Decidable (_ ∧ _))

/-- The pipe is closed on one side. -/
def Shut (c : Core) (e : PipeEnd) : Prop :=
  (c.pipes e.state).closed e.other.side ∨ (c.pipes e.state).closed e.side

instance (c : Core) (e : PipeEnd) : Decidable (c.Shut e) := inferInstanceAs (Decidable (_ ∨ _))

/-- The queue of the peer takes the message. -/
def HasRoom (c : Core) (e : PipeEnd) (m : MessageObj) : Prop :=
  ((c.pipes e.state).queues e.other.side).length < (c.pipes e.state).quotaCount e.other.side ∧
    queueBytes ((c.pipes e.state).queues e.other.side) + m.bytes.length ≤
      (c.pipes e.state).quotaBytes e.other.side

/-- The message holds no live handle but its own, and no destructor. -/
def Bare (c : Core) (message : Handle) (m : MessageObj) : Prop :=
  m.destructor = none ∧ ∀ h ∈ m.handles, h ≠ message → c.lookup h = none

/-- The queue of the peer of this pipe is the same. -/
def SameQueue (c c' : Core) (pipe : Handle) : Prop :=
  ∀ e, c.lookup pipe = some (.messagePipe e) →
    (c'.pipes e.state).queues e.other.side = (c.pipes e.state).queues e.other.side

def Unchanged (c c' : Core) (message : Handle) : Prop :=
  (c'.messageAt message).map MessageObj.shown = (c.messageAt message).map MessageObj.shown

instance (c c' : Core) (message : Handle) : Decidable (Unchanged c c' message) :=
  inferInstanceAs (Decidable (_ = _))

end Core

namespace Callbacks

variable (k : Callbacks)

/-- `WhpSerializeMessage`. -/
def serializeMessage (c : Core) (message : Handle) : Result × Core :=
  match c.messageAt message with
  | none => (.invalidArgument, c)
  | some m =>
    if Core.Settled m then (.ok, c)
    else
      let (reply, c) := c.serializeMessage message
      let c := reply.calls.foldl (fun c (f, context) => k.serialize f context message c) c
      let (reply, c) := c.messageSerialized message
      (reply.result, reply.calls.foldl (fun c (f, context) => k.destroy f context c) c)

/-- `WhpWriteMessage`, with the message that it frees. -/
def writeMessage (c : Core) (pipe message : Handle) : Result × Core × Option MessageObj :=
  let (result, c) := k.serializeMessage c message
  if result ≠ .ok then (result, c, none)
  else
    let (reply, c') := c.writeMessage pipe message
    (reply.result, c', if reply.result = .failedPrecondition then c.messageAt message else none)

end Callbacks

open Voodoo.Whp.Core

/-- After a write: the message and the queue are as they were, or the message is freed with all it
holds. -/
def LeftOrFreed (c : Core) (pipe message : Handle) (w : Result × Core × Option MessageObj) : Prop :=
  Unchanged c w.2.1 message ∧ SameQueue c w.2.1 pipe ∨
    ∃ m, w.2.2 = some m ∧ w.2.1.lookup message = none ∧ m.destructor = none ∧
      ∀ h ∈ m.handles, w.2.1.lookup h = none

/-- The arguments of the calls. -/
structure MessageCall where
  pipe : Handle
  message : Handle
  additional : UInt32
  handles : List Handle
  commit : Bool
  room : Option Nat
  wanted : Bool

/-- A call that returns an error leaves the message as it was, or frees it with all it holds. -/
structure Atomic (k : Callbacks) (c : Core) (a : MessageCall) : Prop where
  append : (c.appendMessageData a.message a.additional a.handles a.commit).1.result ≠ .ok →
    Unchanged c (c.appendMessageData a.message a.additional a.handles a.commit).2 a.message
  getData : (c.getMessageData a.message a.room a.wanted).1.result ≠ .ok →
    Unchanged c (c.getMessageData a.message a.room a.wanted).2 a.message
  serialize : (k.serializeMessage c a.message).1 ≠ .ok →
    Unchanged c (k.serializeMessage c a.message).2 a.message
  write : (k.writeMessage c a.pipe a.message).1 ≠ .ok →
    LeftOrFreed c a.pipe a.message (k.writeMessage c a.pipe a.message)

/-- A serializer leaves its message under the handle. -/
def Stays (k : Callbacks) (c : Core) (message : Handle) : Prop :=
  ∀ m f, c.messageAt message = some m → m.serializer = some f →
    (k.serialize f m.context message
      (c.setObj message (.message { m with serializer := none }))).messageAt message ≠ none

/-- With the callbacks behind it, the core has this message, and it goes to the queue; or the pipe
is shut and the message holds nothing; or the call fails and nothing has happened. -/
def Ready (c d : Core) (pipe message : Handle) (m m' : MessageObj) : Prop :=
  match d.lookup pipe with
  | some (.messagePipe e) =>
    if d.Shut e then d.Bare message m'
    else d.HasRoom e m' ∨ m'.shown = m.shown ∧ SameQueue c d pipe
  | _ => m'.shown = m.shown ∧ SameQueue c d pipe

/-- A settled message holds nothing when the pipe is shut.  Another one is there and ready when its
callbacks have run. -/
def Writes (k : Callbacks) (c : Core) (pipe message : Handle) : Prop :=
  ∀ m, c.messageAt message = some m →
    if Settled m then ∀ e, c.lookup pipe = some (.messagePipe e) → c.Shut e → c.Bare message m
    else ∃ m', (k.serializeMessage c message).2.messageAt message = some m' ∧
      Ready c (k.serializeMessage c message).2 pipe message m m'

/-! ### The regions -/

section regions

variable {c d : Core} {pipe message : Handle} {m : MessageObj} {e : PipeEnd}

theorem messageAt_eq_some :
    c.messageAt message = some m ↔ c.lookup message = some (.message m) := by
  unfold messageAt
  split
  · rename_i m' hl
    rw [hl]
    exact ⟨fun h => by rw [Option.some.inj h], fun h => by rw [Obj.message.inj (Option.some.inj h)]⟩
  · rename_i hno
    exact ⟨nofun, fun h => absurd h (hno m)⟩

theorem messageAt_setObj (h : c.messageAt message = some m) (m' : MessageObj) :
    (c.setObj message (.message m')).messageAt message = some m' := by
  rw [messageAt_eq_some, lookup_setObj (messageAt_eq_some.mp h), if_pos rfl]

theorem writeMessage_of_shut (hm : d.messageAt message = some m)
    (he : d.lookup pipe = some (.messagePipe e)) (hshut : d.Shut e) :
    d.writeMessage pipe message =
      ({ result := .failedPrecondition }, (d.free message).collectTrapEvents) := by
  unfold Core.writeMessage
  rw [he, messageAt_eq_some.mp hm]
  exact if_pos hshut

theorem writeMessage_of_room (hm : d.messageAt message = some m)
    (he : d.lookup pipe = some (.messagePipe e)) (hopen : ¬ d.Shut e) (hroom : d.HasRoom e m) :
    (d.writeMessage pipe message).1.result = .ok := by
  unfold Core.writeMessage
  rw [he, messageAt_eq_some.mp hm]
  dsimp only
  rw [if_neg (show ¬ (_ ∨ _) from hopen), if_neg]
  rintro (hfull | hfull)
  · exact Nat.not_lt.mpr hfull hroom.1
  · exact Nat.not_le.mpr hfull hroom.2

theorem writeMessage_of_full (hm : d.messageAt message = some m)
    (he : d.lookup pipe = some (.messagePipe e)) (hopen : ¬ d.Shut e) (hfull : ¬ d.HasRoom e m) :
    d.writeMessage pipe message = d.refuse .resourceExhausted := by
  unfold Core.writeMessage
  rw [he, messageAt_eq_some.mp hm]
  dsimp only
  rw [if_neg (show ¬ (_ ∨ _) from hopen), if_pos]
  by_contra hno
  obtain ⟨hcount, hbytes⟩ := not_or.mp hno
  exact hfull ⟨Nat.lt_of_not_le hcount, Nat.le_of_not_lt hbytes⟩

theorem writeMessage_of_none
    (hno : d.messageAt message = none ∨ ∀ e, d.lookup pipe ≠ some (.messagePipe e)) :
    d.writeMessage pipe message = d.refuse .invalidArgument := by
  unfold Core.writeMessage
  split
  · rename_i e m he hm
    rcases hno with hno | hno
    · rw [messageAt_eq_some.mpr hm] at hno
      cases hno
    · exact absurd he (hno e)
  · rfl

theorem lookup_free_collect_eq_none (d : Core) (message h : Handle) :
    (d.free message).collectTrapEvents.lookup h = none ↔ h = message ∨ d.lookup h = none := by
  have hc := collected_collectTrapEvents (d.free message)
  have hiff : (d.free message).collectTrapEvents.lookup h = none ↔
      (d.free message).lookup h = none := by
    rcases hc.obj h with heq | ⟨t, hold, hnew⟩
    · rw [heq]
    · rw [hold, hnew]
      exact ⟨nofun, nofun⟩
  rw [hiff, lookup_free]
  split
  · rename_i heq
    exact iff_of_true rfl (.inl heq)
  · rename_i hne
    rw [or_iff_right hne]

end regions

/-! ### The functions -/

section functions

variable {k : Callbacks} {c d : Core} {pipe message : Handle} {m m' : MessageObj}

theorem serializeMessage_of_none (h : c.messageAt message = none) :
    k.serializeMessage c message = (.invalidArgument, c) := by
  rw [Callbacks.serializeMessage, h]

theorem serializeMessage_of_settled (h : c.messageAt message = some m) (hs : Settled m) :
    k.serializeMessage c message = (.ok, c) := by
  rw [Callbacks.serializeMessage, h]
  exact if_pos hs

/-- The core when the serializer has returned. -/
def Callbacks.serialized (k : Callbacks) (c : Core) (message : Handle) (m : MessageObj) : Core :=
  (m.serializer.map (·, m.context)).toList.foldl
    (fun c (f, context) => k.serialize f context message c)
    (c.setObj message (.message { m with serializer := none }))

theorem serializeMessage_of_message (h : c.messageAt message = some m) (hs : ¬ Settled m) :
    k.serializeMessage c message =
      (((k.serialized c message m).messageSerialized message).1.result,
        ((k.serialized c message m).messageSerialized message).1.calls.foldl
          (fun c (f, context) => k.destroy f context c)
          ((k.serialized c message m).messageSerialized message).2) := by
  have hregion : c.serializeMessage message =
      ({ result := .ok, calls := (m.serializer.map (·, m.context)).toList },
        c.setObj message (.message { m with serializer := none })) := by
    unfold Core.serializeMessage
    rw [messageAt_eq_some.mp h]
    exact if_neg hs
  rw [Callbacks.serializeMessage, h]
  dsimp only
  rw [if_neg hs, hregion]
  rfl

theorem messageSerialized_of_none (h : d.messageAt message = none) :
    d.messageSerialized message = d.refuse .invalidArgument := by
  unfold Core.messageSerialized
  split
  · rename_i m hm
    rw [messageAt_eq_some.mpr hm] at h
    cases h
  · rfl

theorem result_messageSerialized (h : d.messageAt message = some m) :
    (d.messageSerialized message).1.result = .ok := by
  unfold Core.messageSerialized
  rw [messageAt_eq_some.mp h]

theorem serialize_iff :
    ((k.serializeMessage c message).1 ≠ .ok →
      Unchanged c (k.serializeMessage c message).2 message) ↔
      Stays k c message := by
  cases hm : c.messageAt message with
  | none =>
    rw [serializeMessage_of_none hm]
    refine iff_of_true (fun _ => rfl) fun m f hm' => ?_
    rw [hm] at hm'
    cases hm'
  | some m =>
    by_cases hs : Settled m
    · rw [serializeMessage_of_settled hm hs]
      refine iff_of_true (fun h => absurd rfl h) fun m' f hm' hf => ?_
      cases hm.symm.trans hm'
      rw [hs.2] at hf
      cases hf
    rw [serializeMessage_of_message hm hs]
    cases hf : m.serializer with
    | none =>
      have hd : (k.serialized c message m).messageAt message =
          some { m with serializer := none } := by
        rw [Callbacks.serialized, hf]
        exact messageAt_setObj hm _
      refine iff_of_true (fun h => absurd (result_messageSerialized hd) h) fun m' f hm' hf' => ?_
      cases hm.symm.trans hm'
      rw [hf] at hf'
      cases hf'
    | some f =>
      have hserialized : k.serialized c message m = k.serialize f m.context message
          (c.setObj message (.message { m with serializer := none })) := by
        rw [Callbacks.serialized, hf]
        rfl
      cases hd : (k.serialized c message m).messageAt message with
      | none =>
        rw [messageSerialized_of_none hd]
        refine iff_of_false (fun h => ?_) fun h => h m f hm hf (hserialized ▸ hd)
        have hsame : ((k.serialized c message m).messageAt message).map MessageObj.shown = _ :=
          h nofun
        rw [hd, hm] at hsame
        cases hsame
      | some m' =>
        refine iff_of_true (fun h => absurd (result_messageSerialized hd) h) fun m₁ f₁ hm₁ hf₁ => ?_
        cases hm.symm.trans hm₁
        cases hf.symm.trans hf₁
        rw [← hserialized, hd]
        exact Option.some_ne_none _

theorem messageAt_of_refused (h : (k.serializeMessage c message).1 ≠ .ok) :
    (k.serializeMessage c message).2.messageAt message = none := by
  cases hm : c.messageAt message with
  | none =>
    rw [serializeMessage_of_none hm]
    exact hm
  | some m =>
    by_cases hs : Settled m
    · rw [serializeMessage_of_settled hm hs] at h
      exact absurd rfl h
    rw [serializeMessage_of_message hm hs] at h ⊢
    cases hd : (k.serialized c message m).messageAt message with
    | none =>
      rw [messageSerialized_of_none hd]
      exact hd
    | some m' => exact absurd (result_messageSerialized hd) h

/-- The write of a message that is there when it is serialized. -/
theorem write_iff_of_message (hm : c.messageAt message = some m)
    (hser : k.serializeMessage c message = (.ok, d)) (hm' : d.messageAt message = some m') :
    ((k.writeMessage c pipe message).1 ≠ .ok →
      LeftOrFreed c pipe message (k.writeMessage c pipe message)) ↔
      Ready c d pipe message m m' := by
  have hwrite : k.writeMessage c pipe message = ((d.writeMessage pipe message).1.result,
      (d.writeMessage pipe message).2,
        if (d.writeMessage pipe message).1.result = .failedPrecondition
        then d.messageAt message else none) := by
    rw [Callbacks.writeMessage, hser]
    rfl
  have hsame : Unchanged c d message ↔ m'.shown = m.shown := by
    rw [Unchanged, hm, hm']
    exact Option.some_inj
  -- the core is left as the callbacks left it
  have hrefused (r : Result) (hok : r ≠ .ok) (hno : r ≠ .failedPrecondition)
      (hw : d.writeMessage pipe message = d.refuse r) :
      ((k.writeMessage c pipe message).1 ≠ .ok →
        LeftOrFreed c pipe message (k.writeMessage c pipe message)) ↔
        m'.shown = m.shown ∧ SameQueue c d pipe := by
    have hw' : k.writeMessage c pipe message = (r, d, none) := by
      rw [hwrite, hw]
      show (r, d, if r = .failedPrecondition then d.messageAt message else none) = _
      rw [if_neg hno]
    rw [hw', ← hsame]
    refine ⟨fun h => (h hok).resolve_right ?_, fun h _ => .inl h⟩
    rintro ⟨m₁, h, -⟩
    cases h
  unfold Ready
  split
  · rename_i e he
    split
    · rename_i hshut
      have hdead := lookup_free_collect_eq_none d message
      have hw' : k.writeMessage c pipe message =
          (.failedPrecondition, (d.free message).collectTrapEvents, some m') := by
        rw [hwrite, writeMessage_of_shut hm' he hshut]
        dsimp only
        rw [if_pos rfl, hm']
      rw [hw']
      constructor
      · intro h
        rcases h nofun with ⟨h, -⟩ | ⟨m₁, h, -, hdtor, hhandles⟩
        · have hgone : (d.free message).collectTrapEvents.messageAt message = none := by
            rw [messageAt, (hdead message).mpr (.inl rfl)]
          rw [Unchanged, hgone, hm] at h
          cases h
        · cases h
          exact ⟨hdtor, fun h hmem hne => ((hdead h).mp (hhandles h hmem)).resolve_left hne⟩
      · intro ⟨hdtor, hhandles⟩ _
        refine .inr ⟨m', rfl, (hdead message).mpr (.inl rfl), hdtor, fun h hmem => (hdead h).mpr ?_⟩
        by_cases hh : h = message
        · exact .inl hh
        · exact .inr (hhandles h hmem hh)
    · rename_i hopen
      by_cases hroom : d.HasRoom e m'
      · have hw' : (k.writeMessage c pipe message).1 = .ok := by
          rw [hwrite, writeMessage_of_room hm' he hopen hroom]
        exact iff_of_true (fun h => absurd hw' h) (.inl hroom)
      · rw [or_iff_right hroom]
        exact hrefused .resourceExhausted nofun nofun (writeMessage_of_full hm' he hopen hroom)
  · rename_i hno
    exact hrefused .invalidArgument nofun nofun (writeMessage_of_none (.inr fun e he => hno e he))

theorem write_of_none (hm : c.messageAt message = some m)
    (hd : (k.serializeMessage c message).2.messageAt message = none) :
    ¬ ((k.writeMessage c pipe message).1 ≠ .ok →
      LeftOrFreed c pipe message (k.writeMessage c pipe message)) := by
  have hw : ∃ r, r ≠ .ok ∧
      k.writeMessage c pipe message = (r, (k.serializeMessage c message).2, none) := by
    rw [Callbacks.writeMessage]
    dsimp only
    split
    · rename_i hr
      exact ⟨_, hr, rfl⟩
    · rw [writeMessage_of_none (.inl hd)]
      exact ⟨.invalidArgument, nofun, rfl⟩
  obtain ⟨r, hr, hw⟩ := hw
  rw [hw]
  intro h
  rcases h hr with ⟨h, -⟩ | ⟨_, h, -⟩
  · rw [Unchanged, hm, hd] at h
    cases h
  · cases h

theorem writes_iff_of_unsettled (hm : c.messageAt message = some m) (hs : ¬ Settled m) :
    Writes k c pipe message ↔ ∃ m', (k.serializeMessage c message).2.messageAt message = some m' ∧
      Ready c (k.serializeMessage c message).2 pipe message m m' := by
  refine ⟨fun h => ?_, fun h m₁ hm₁ => ?_⟩
  · have h := h m hm
    rw [if_neg hs] at h
    exact h
  · cases hm.symm.trans hm₁
    rw [if_neg hs]
    exact h

theorem write_iff : ((k.writeMessage c pipe message).1 ≠ .ok →
      LeftOrFreed c pipe message (k.writeMessage c pipe message)) ↔ Writes k c pipe message := by
  cases hm : c.messageAt message with
  | none =>
    refine iff_of_true (fun _ => .inl ?_) fun m hm' => ?_
    · rw [Callbacks.writeMessage, serializeMessage_of_none hm]
      exact ⟨rfl, fun _ _ => rfl⟩
    · rw [hm] at hm'
      cases hm'
  | some m =>
    by_cases hs : Settled m
    · rw [write_iff_of_message hm (serializeMessage_of_settled hm hs) hm]
      unfold Ready
      constructor
      · intro h m₁ hm₁
        cases hm.symm.trans hm₁
        rw [if_pos hs]
        intro e he hshut
        rw [he] at h
        exact (if_pos hshut).mp h
      · intro h
        have hbare := h m hm
        rw [if_pos hs] at hbare
        split
        · rename_i e he
          split
          · rename_i hshut
            exact hbare e he hshut
          · exact .inr ⟨rfl, fun _ _ => rfl⟩
        · exact ⟨rfl, fun _ _ => rfl⟩
    · rw [writes_iff_of_unsettled hm hs]
      cases hd : (k.serializeMessage c message).2.messageAt message with
      | none => exact iff_of_false (write_of_none hm hd) fun ⟨_, h, _⟩ => nomatch h
      | some m' =>
        have hok : (k.serializeMessage c message).1 = .ok := by
          by_contra hno
          rw [messageAt_of_refused hno] at hd
          cases hd
        rw [write_iff_of_message hm (Prod.ext hok rfl) hd]
        exact ⟨fun h => ⟨m', rfl, h⟩, fun ⟨_, h, hready⟩ => Option.some.inj h ▸ hready⟩

theorem appendMessageData_error {additional : UInt32} {handles : List Handle} {commit : Bool}
    (h : (c.appendMessageData message additional handles commit).1.result ≠ .ok) :
    (c.appendMessageData message additional handles commit).2 = c := by
  unfold Core.appendMessageData at h ⊢
  cases hl : c.lookup message with
  | none => rfl
  | some o =>
    rw [hl] at h
    cases o with
    | message m =>
      dsimp only at h ⊢
      split
      · rfl
      · rename_i hno
        rw [if_neg hno] at h
        exact absurd rfl h
    | _ => rfl

theorem getMessageData_error {room : Option Nat} {wanted : Bool}
    (h : (c.getMessageData message room wanted).1.result ≠ .ok) :
    (c.getMessageData message room wanted).2 = c := by
  unfold Core.getMessageData at h ⊢
  cases hl : c.lookup message with
  | none => rfl
  | some o =>
    rw [hl] at h
    cases o with
    | message m =>
      dsimp only at h ⊢
      cases room with
      | none => exact absurd rfl h
      | some n =>
        cases wanted with
        | false =>
          dsimp only at h ⊢
          split <;> rfl
        | true =>
          dsimp only at h ⊢
          split
          · rfl
          · rename_i hno
            rw [if_neg hno] at h
            exact absurd rfl h
    | _ => rfl

end functions

/-- Callbacks that do nothing. -/
def idle : Callbacks := ⟨fun _ _ _ c => c, fun _ _ c => c⟩

def writing (pipe message : Handle) : MessageCall := ⟨pipe, message, 0, [], false, none, false⟩

/-- A new message, and a pipe whose other end takes none. -/
def full : Core :=
  [.createMessagePipe, .setQuota 2 0 0, .silent .createMessage].foldl step {}

/-- The message holds the end of another pipe, and the pipe is shut. -/
def carrying : Core :=
  [.createMessagePipe, .createMessagePipe, .silent .createMessage,
    .silent (.appendMessageData 5 0 [3] false), .close 2].foldl step {}

/-- The message is committed and has a destructor, and the pipe is shut. -/
def owning : Core :=
  [.createMessagePipe, .silent .createMessage, .silent (.appendMessageData 3 0 [] true),
    .silent (.setMessageContext 3 7 none (some 1)), .close 2].foldl step {}

end Voodoo.Whp
