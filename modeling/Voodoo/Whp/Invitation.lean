import Voodoo.Lib.LittleEndian
import Voodoo.Lib.Machine

/-!
# The invitation

An `Invitation` carries a message pipe over a path of datagrams, a message a frame, which keeps them
in order and whole up to the size of the buffer that `RecvFrame` reads into.

`SendFrame` takes up to `0xffff` bytes, the length field has sixteen bits, the header eight bytes, and
the buffer `65536`.  They leave out the last seven lengths, and `FlushPipeToNet` does not look at what
`SendFrame` returns.

* `delivers_or_reports`: in every run in which all messages fit and all sends and writes succeed, each
  side delivers what the other one wrote, in order and each once, and nothing is lost before the
  sender's pipe reports that it is closed;
* `not_delivers_or_reports`: a message of `65529` bytes.
-/

namespace Voodoo.Whp.Invitation

open LittleEndian Machine List

/-- A message in a pipe, with the handles attached to it. -/
structure Message where
  bytes : List UInt8
  handles : List Nat

/-! ### Frames -/

def kMagic : List UInt8 := [0x57, 0x48, 0x50, 0x32]

def kInvite : UInt8 := 1

def kAccept : UInt8 := 2

def kMojo : UInt8 := 3

def kClose : UInt8 := 4

/-- The size of the buffer of `RecvFrame`. -/
def bufferSize : Nat := 65536

/-- A frame as `SendFrame` lays it out. -/
def frame (type : UInt8) (payload : List UInt8) : List UInt8 :=
  kMagic ++ [type, 0] ++ store 2 payload.length ++ payload

/-- `SendFrame`, with what the path holds and whether it takes the datagram. -/
def sendFrame (wire : List (List UInt8)) (type : UInt8) (payload : List UInt8) (sent : Bool) :
    List (List UInt8) :=
  if 0xffff < payload.length then wire else if sent then wire ++ [frame type payload] else wire

/-- What `RecvFrame` returns. -/
inductive Received where
  | shouldWait
  | dataLoss
  | ok (type : UInt8) (payload : List UInt8)
  deriving DecidableEq

/-- `RecvFrame` of a datagram that has come in. -/
def recvFrame (datagram : List UInt8) : Received :=
  let buf := datagram.take bufferSize
  if buf.length < 8 ∨ buf.take 4 ≠ kMagic then .shouldWait
  else if buf.length < 8 + load ((buf.drop 6).take 2) then .dataLoss
  else .ok (buf.getD 4 0) ((buf.drop 8).take (load ((buf.drop 6).take 2)))

/-! ### Control messages -/

def kRunMessageId : Nat := 0xFFFFFFFF

/-- `Message::kFlagIsResponse`. -/
def kFlagIsResponse : Nat := 2

/-- `sizeof(MessageHeaderV3)`. -/
def headerV3Size : Nat := 56

/-- A field of `MessageHeaderV3`. -/
def field (bytes : List UInt8) (pos len : Nat) : Nat := load ((bytes.drop pos).take len)

/-- A request to `Run`, which the invitation answers itself. -/
def isRunRequest (bytes : List UInt8) : Bool :=
  decide (headerV3Size ≤ bytes.length) && field bytes 12 4 == kRunMessageId &&
    field bytes 16 4 &&& kFlagIsResponse == 0

/-- The message of `SendRunResponse`: the header, and `kBindingsVersion` in a struct. -/
def runResponse (requestId : Nat) : List UInt8 :=
  store 4 headerV3Size ++ store 4 3 ++ store 4 0 ++ store 4 kRunMessageId ++
    store 4 kFlagIsResponse ++ store 4 0 ++ store 8 requestId ++ store 8 24 ++ store 8 0 ++
    store 8 0 ++ store 4 12 ++ store 4 0 ++ store 4 3

/-! ### The two sides -/

inductive Party where
  | offerer
  | answerer
  deriving DecidableEq

def Party.peer : Party → Party
  | .offerer => .answerer
  | .answerer => .offerer

/-- One side: its invitation, its pipe, and the datagrams on their way to the other side. -/
structure Endpoint where
  /-- The local end is open. -/
  attached : Bool := true
  /-- The net end is open; without it the local end reports that its peer is closed. -/
  net : Bool := true
  /-- What the net end has to read. -/
  outbound : List Message := []
  wire : List (List UInt8)
  /-- What the user has written, and what has been written for the user to read. -/
  written : List Message := []
  delivered : List Message := []

/-- The datagrams that establishing the path may leave behind. -/
inductive Leftover where
  /-- The magic of `Punch`. -/
  | punch
  | invite (role : UInt8)
  | accept (role : UInt8)

def Leftover.datagram : Leftover → List UInt8
  | .punch => [0x57, 0x48, 0x50, 0x31]
  | .invite role => frame kInvite [role]
  | .accept role => frame kAccept [role]

/-- The two sides behind `Attach`. -/
def attach (left : Party → List Leftover) (p : Party) : Endpoint :=
  { wire := (left p).map Leftover.datagram }

/-- A turn of the loop of `FlushPipeToNet`, which destroys the message in any case. -/
def flushPipeToNet (e : Endpoint) (sent : Bool) : Endpoint :=
  if e.net then
    match e.outbound with
    | [] => e
    | m :: rest =>
      let sz := m.bytes.length % 2 ^ 32
      { e with
        outbound := rest
        wire := if sz = 0 then e.wire else sendFrame e.wire kMojo (m.bytes.take sz) sent }
  else e

/-- What a turn of the loop of `IngestNet` does with a datagram; `room` is whether the pipe takes the
message, and `sent` whether the path takes a response. -/
def ingest (e : Endpoint) (datagram : List UInt8) (room sent : Bool) : Endpoint :=
  match recvFrame datagram with
  | .shouldWait => e
  | .dataLoss => e
  | .ok type payload =>
    if type = kClose then { e with net := false, outbound := [] }
    else if type ≠ kMojo ∨ payload = [] ∨ e.net = false then e
    else if isRunRequest payload then
      { e with wire := sendFrame e.wire kMojo (runResponse (field payload 24 8)) sent }
    else if room then { e with delivered := e.delivered ++ [⟨payload, []⟩] }
    else e

/-- `Close`. -/
def close (e : Endpoint) (sent : Bool) : Endpoint :=
  if e.attached then
    { e with
      attached := false
      net := false
      outbound := []
      wire := sendFrame e.wire kClose [] sent }
  else e

/-- A write to the local end. -/
def write (e : Endpoint) (m : Message) : Endpoint :=
  if e.attached && e.net then
    { e with outbound := e.outbound ++ [m], written := e.written ++ [m] }
  else e

inductive Action where
  | write (p : Party) (m : Message)
  | flush (p : Party) (sent : Bool)
  | ingest (p : Party) (room sent : Bool)
  | close (p : Party) (sent : Bool)

def step (s : Party → Endpoint) : Action → Party → Endpoint
  | .write p m => Function.update s p (write (s p) m)
  | .flush p sent => Function.update s p (flushPipeToNet (s p) sent)
  | .close p sent => Function.update s p (close (s p) sent)
  | .ingest p room sent =>
    if (s p).attached then
      match (s p.peer).wire with
      | [] => s
      | d :: rest =>
        Function.update (Function.update s p.peer { s p.peer with wire := rest }) p
          (ingest (s p) d room sent)
    else s

/-! ### What is promised -/

/-- The message that `IngestNet` makes of a datagram. -/
def arrives (datagram : List UInt8) : Option Message :=
  match recvFrame datagram with
  | .ok type payload => if type = kMojo ∧ payload ≠ [] then some ⟨payload, []⟩ else none
  | _ => none

/-- The messages on their way. -/
def inFlight (e : Endpoint) : List Message := e.wire.filterMap arrives

/-- The loops of `FlushPipeToNet` on one side and of `IngestNet` on the other, run to their ends. -/
def pump (e f : Endpoint) : Endpoint :=
  ((fun e => flushPipeToNet e true)^[e.outbound.length] e).wire.foldl
    (fun f d => ingest f d true true) f

/-- What one side has written reaches the other side. -/
structure Delivers (e f : Endpoint) : Prop where
  /-- In order, each once, and as it was written. -/
  inOrder : f.delivered <+: e.written
  /-- All of it, while the pipe of the sender does not report that it is closed. -/
  whole : e.net = true → f.delivered ++ inFlight e ++ e.outbound = e.written
  /-- The loops bring the rest of it to the other side. -/
  pumped : e.net = true → f.attached = true → (pump e f).delivered = e.written

/-- The messages that a frame carries as they are. -/
def Carried (m : Message) : Prop :=
  m.handles = [] ∧ 0 < m.bytes.length ∧ m.bytes.length ≤ 65528 ∧ isRunRequest m.bytes = false

instance (m : Message) : Decidable (Carried m) := by unfold Carried; infer_instance

/-- Only such messages are written, and the sends and the writes succeed. -/
def Undisturbed (_ : Party → Endpoint) : Action → Prop
  | .write _ m => Carried m
  | .flush _ sent => sent = true
  | .ingest _ room _ => room = true
  | .close _ _ => True

/-! ### What the frames carry -/

/-- What `RecvFrame` finds in its buffer. -/
theorem recvFrame_frame (type : UInt8) (payload : List UInt8) (hn : payload.length ≤ 0xffff) :
    recvFrame (frame type payload) =
      if payload.length ≤ 65528 then .ok type payload else .dataLoss := by
  let lo := UInt8.ofNat payload.length
  let hi := UInt8.ofNat (payload.length / 256)
  have hbuf : (frame type payload).take bufferSize =
      0x57 :: 0x48 :: 0x50 :: 0x32 :: type :: 0 :: lo :: hi :: payload.take 65528 := rfl
  have hlen : load (((frame type payload).take bufferSize).drop 6 |>.take 2) = payload.length := by
    rw [hbuf]
    exact load_store_of_lt (w := 2) (by omega)
  have hsize : ((frame type payload).take bufferSize).length = 8 + min 65528 payload.length := by
    rw [hbuf]
    simp only [length_cons, length_take]
    omega
  have hmagic : ¬ (((frame type payload).take bufferSize).length < 8 ∨
      ((frame type payload).take bufferSize).take 4 ≠ kMagic) := by
    rw [hsize, hbuf, not_or]
    exact ⟨by omega, fun h => h rfl⟩
  rw [recvFrame, if_neg hmagic, hlen, hsize]
  by_cases hshort : payload.length ≤ 65528
  · have hpayload : (((frame type payload).take bufferSize).drop 8).take payload.length = payload := by
      rw [hbuf]
      show (payload.take 65528).take payload.length = payload
      rw [take_of_length_le hshort, take_length]
    have hfits : ¬ 8 + min 65528 payload.length < 8 + payload.length := by omega
    rw [if_pos hshort, if_neg hfits, hpayload]
    rfl
  · rw [if_neg hshort, if_pos (by omega)]

theorem recvFrame_mojo {payload : List UInt8} (hn : payload.length ≤ 65528) :
    recvFrame (frame kMojo payload) = .ok kMojo payload := by
  rw [recvFrame_frame _ _ (by omega), if_pos hn]

theorem sendFrame_sent {wire : List (List UInt8)} {type : UInt8} {payload : List UInt8}
    (hn : payload.length ≤ 0xffff) :
    sendFrame wire type payload true = wire ++ [frame type payload] := by
  rw [sendFrame, if_neg (Nat.not_lt.mpr hn), if_pos rfl]

/-- What comes of a message that is sent over a fresh path. -/
def carry (m : Message) : List Message :=
  ((flushPipeToNet { wire := [], outbound := [m] } true).wire.foldl
    (fun f d => ingest f d true true) { wire := [] }).delivered

/-! ### Datagrams -/

/-- A datagram that closes the pipe of the other side. -/
def IsClose (datagram : List UInt8) : Prop := ∃ payload, recvFrame datagram = .ok kClose payload

variable {e f : Endpoint} {d : List UInt8} {room sent : Bool}

theorem ingest_close (h : IsClose d) :
    ingest e d room sent = { e with net := false, outbound := [] } := by
  obtain ⟨payload, hd⟩ := h
  rw [ingest, hd]
  exact if_pos rfl

theorem ingest_none (h : arrives d = none) (hclose : ¬ IsClose d) : ingest e d room sent = e := by
  rw [arrives] at h
  rw [ingest]
  cases hd : recvFrame d with
  | shouldWait => rfl
  | dataLoss => rfl
  | ok type payload =>
    rw [hd] at h
    have hother : ¬ (type = kMojo ∧ payload ≠ []) := by
      intro hmojo
      exact nomatch (if_pos hmojo).symm.trans h
    have hopen : type ≠ kClose := by
      rintro rfl
      exact hclose ⟨payload, hd⟩
    show (if type = kClose then _ else
      if type ≠ kMojo ∨ payload = [] ∨ e.net = false then e else _) = e
    rw [if_neg hopen, if_pos]
    by_cases hmojo : type = kMojo
    · exact .inr (.inl (not_not.mp fun hpayload => hother ⟨hmojo, hpayload⟩))
    · exact .inl hmojo

theorem ingest_some {m : Message} (h : arrives d = some m) (hnet : e.net = true)
    (hrun : isRunRequest m.bytes = false) :
    ingest e d true sent = { e with delivered := e.delivered ++ [m] } := by
  rw [arrives] at h
  rw [ingest]
  cases hd : recvFrame d with
  | shouldWait =>
    rw [hd] at h
    exact nomatch h
  | dataLoss =>
    rw [hd] at h
    exact nomatch h
  | ok type payload =>
    rw [hd] at h
    have hsome : (if type = kMojo ∧ payload ≠ [] then some (⟨payload, []⟩ : Message) else none) =
      some m := h
    by_cases hmojo : type = kMojo ∧ payload ≠ []
    · rw [if_pos hmojo] at hsome
      obtain ⟨rfl, hpayload⟩ := hmojo
      obtain rfl := Option.some.inj hsome
      have hrun : isRunRequest payload = false := hrun
      show (if kMojo = kClose then _ else
        if kMojo ≠ kMojo ∨ payload = [] ∨ e.net = false then e else _) = _
      rw [if_neg (by decide), if_neg (by simp [hpayload, hnet]), hrun]
      rfl
    · rw [if_neg hmojo] at hsome
      exact nomatch hsome

theorem arrives_frame {m : Message} (h : Carried m) : arrives (frame kMojo m.bytes) = some m := by
  obtain ⟨hhandles, hpos, hle, -⟩ := h
  rw [arrives, recvFrame_mojo hle]
  have hbytes : m.bytes ≠ [] := ne_nil_of_length_pos hpos
  show (if kMojo = kMojo ∧ m.bytes ≠ [] then some (⟨m.bytes, []⟩ : Message) else none) = some m
  rw [if_pos ⟨rfl, hbytes⟩, ← hhandles]

theorem not_isClose_frame {payload : List UInt8} (h : payload.length ≤ 65528) :
    ¬ IsClose (frame kMojo payload) := by
  rintro ⟨payload', hd⟩
  rw [recvFrame_mojo h] at hd
  injection hd with htype
  exact absurd htype (by decide)

/-! ### The invariant -/

/-- What holds between a side that sends and the other side. -/
structure Linked (e f : Endpoint) : Prop where
  attached : e.net = true → e.attached = true
  queued : ∀ m ∈ e.outbound, Carried m
  flying : ∀ m ∈ inFlight e, isRunRequest m.bytes = false
  conserved : ∃ lost, f.delivered ++ inFlight e ++ e.outbound ++ lost = e.written ∧
    (e.net = true → lost = [])
  /-- The frame that closes is the last one. -/
  unclosed : e.attached = true → ∀ d ∈ e.wire, ¬ IsClose d
  last : ∀ pre d post, e.wire = pre ++ d :: post → IsClose d → post = []
  /-- A pipe that the other side has closed has received everything. -/
  cut : f.attached = true → f.net = false → e.attached = false ∧ e.wire = []

theorem whole_of_linked (h : Linked e f) (hnet : e.net = true) :
    f.delivered ++ inFlight e ++ e.outbound = e.written := by
  obtain ⟨lost, hwritten, hlost⟩ := h.conserved
  rw [← hwritten, hlost hnet, append_nil]

theorem Linked.receiver {f' : Endpoint} (h : Linked e f) (hdelivered : f'.delivered = f.delivered)
    (hcut : f'.attached = true → f'.net = false → f.attached = true ∧ f.net = false) :
    Linked e f' where
  attached := h.attached
  queued := h.queued
  flying := h.flying
  conserved := by
    rw [hdelivered]
    exact h.conserved
  unclosed := h.unclosed
  last := h.last
  cut hattached hnet := h.cut (hcut hattached hnet).1 (hcut hattached hnet).2

theorem Linked.closeNet (h : Linked e f) : Linked { e with net := false, outbound := [] } f where
  attached hnet := nomatch hnet
  queued m hm := (not_mem_nil hm).elim
  flying := h.flying
  conserved := by
    obtain ⟨lost, hwritten, -⟩ := h.conserved
    refine ⟨e.outbound ++ lost, ?_, fun hnet => nomatch hnet⟩
    rw [← hwritten]
    show f.delivered ++ inFlight e ++ [] ++ (e.outbound ++ lost) = _
    rw [append_nil, ← List.append_assoc]
  unclosed := h.unclosed
  last := h.last
  cut := h.cut

theorem Linked.net_of_wire {rest : List (List UInt8)} (h : Linked e f) (hwire : e.wire = d :: rest)
    (hattached : f.attached = true) : f.net = true := by
  cases hnet : f.net with
  | true => rfl
  | false => exact nomatch hwire.symm.trans (h.cut hattached hnet).2

/-! ### The steps -/

theorem linked_write {m : Message} (h : Linked e f) (hm : Carried m) : Linked (write e m) f := by
  rw [write]
  split
  · rename_i hopen
    rw [Bool.and_eq_true] at hopen
    obtain ⟨lost, hwritten, hlost⟩ := h.conserved
    refine ⟨h.attached, fun m' hm' => ?_, h.flying, ⟨[], ?_, fun _ => rfl⟩, h.unclosed, h.last,
      h.cut⟩
    · rcases mem_append.mp hm' with hm' | hm'
      · exact h.queued m' hm'
      · rw [mem_singleton.mp hm']
        exact hm
    · rw [hlost hopen.2, append_nil] at hwritten
      show f.delivered ++ inFlight e ++ (e.outbound ++ [m]) ++ [] = e.written ++ [m]
      rw [append_nil, ← List.append_assoc, hwritten]
  · exact h

theorem last_append {wire : List (List UInt8)} (h : ∀ d ∈ wire, ¬ IsClose d) (x : List UInt8) :
    ∀ pre d post, wire ++ [x] = pre ++ d :: post → IsClose d → post = [] := by
  intro pre d post heq hd
  rcases eq_nil_or_concat post with hpost | ⟨post', y, rfl⟩
  · exact hpost
  · have heq : wire ++ [x] = (pre ++ d :: post') ++ [y] := by
      rw [heq, List.append_assoc, cons_append, concat_eq_append]
    have hwire := (append_inj' heq rfl).1
    exact absurd hd (h d (hwire ▸ mem_append_right _ mem_cons_self))

theorem linked_flush (h : Linked e f) : Linked (flushPipeToNet e true) f := by
  rw [flushPipeToNet]
  split
  · rename_i hnet
    split
    · exact h
    · rename_i m rest houtbound
      have hm := h.queued m (houtbound ▸ mem_cons_self)
      obtain ⟨-, hpos, hle, hrun⟩ := id hm
      have hsize : m.bytes.length % 2 ^ 32 = m.bytes.length := Nat.mod_eq_of_lt (by omega)
      have hunclosed := h.unclosed (h.attached hnet)
      have hwire : (if m.bytes.length = 0 then e.wire else sendFrame e.wire kMojo m.bytes true) =
          e.wire ++ [frame kMojo m.bytes] := by
        rw [if_neg (by omega), sendFrame_sent (by omega)]
      have hflight : (e.wire ++ [frame kMojo m.bytes]).filterMap arrives = inFlight e ++ [m] := by
        rw [filterMap_append, filterMap_cons_some (arrives_frame hm), filterMap_nil]
        rfl
      simp only [hsize, take_length, hwire]
      refine ⟨h.attached, fun m' hm' => ?_, fun m' hm' => ?_, ?_, fun _ x hx => ?_,
        last_append hunclosed _, fun hf hfnet => ?_⟩
      · exact h.queued m' (houtbound ▸ mem_cons_of_mem _ hm')
      · rw [inFlight, hflight, mem_append, mem_singleton] at hm'
        rcases hm' with hm' | rfl
        · exact h.flying m' hm'
        · exact hrun
      · obtain ⟨lost, hwritten, hlost⟩ := h.conserved
        refine ⟨lost, ?_, hlost⟩
        rw [← hwritten, houtbound, inFlight, hflight]
        simp only [List.append_assoc, cons_append, nil_append]
      · rcases mem_append.mp hx with hx | hx
        · exact hunclosed x hx
        · rw [mem_singleton.mp hx]
          exact not_isClose_frame hle
      · exact absurd (h.attached hnet) (by rw [(h.cut hf hfnet).1]; exact Bool.false_ne_true)
  · exact h

theorem linked_close (h : Linked e f) : Linked (close e sent) f := by
  rw [close]
  split
  · rename_i hattached
    have hunclosed := h.unclosed hattached
    have hclosed := h.closeNet
    have hwire : sendFrame e.wire kClose [] sent = e.wire ∨
        sendFrame e.wire kClose [] sent = e.wire ++ [frame kClose []] := by
      cases sent with
      | true => exact .inr (sendFrame_sent (by decide))
      | false => exact .inl rfl
    have hcut : f.attached = true → f.net = false → False := by
      intro hf hfnet
      cases (h.cut hf hfnet).1.symm.trans hattached
    have hflight : (sendFrame e.wire kClose [] sent).filterMap arrives = inFlight e := by
      rcases hwire with hwire | hwire
      · rw [hwire]
        rfl
      · have harrives : arrives (frame kClose []) = none := by decide
        rw [hwire, filterMap_append, filterMap_cons_none harrives, filterMap_nil,
          append_nil]
        rfl
    refine ⟨fun hnet => (by cases hnet), hclosed.queued, fun m hm => ?_, ?_,
      fun hnot => (by cases hnot), ?_, fun hf hfnet => (hcut hf hfnet).elim⟩
    · rw [inFlight, hflight] at hm
      exact h.flying m hm
    · rw [inFlight, hflight]
      exact hclosed.conserved
    · rcases hwire with hwire | hwire
      · rw [hwire]
        exact h.last
      · rw [hwire]
        exact last_append hunclosed _
  · exact h

/-- **A datagram comes in.** -/
theorem linked_ingest {rest : List (List UInt8)} (h : Linked e f) (hwire : e.wire = d :: rest)
    (hattached : f.attached = true) :
    Linked { e with wire := rest } (ingest f d true sent) := by
  have hnet := h.net_of_wire hwire hattached
  have hmem : ∀ x ∈ rest, x ∈ e.wire := fun x hx => hwire ▸ mem_cons_of_mem _ hx
  have hlast : ∀ pre x post, rest = pre ++ x :: post → IsClose x → post = [] := by
    intro pre x post heq
    exact h.last (d :: pre) x post (by rw [hwire, heq, cons_append])
  obtain ⟨lost, hwritten, hlost⟩ := h.conserved
  cases harrives : arrives d with
  | some m =>
    have hflight : inFlight e = m :: rest.filterMap arrives := by
      rw [inFlight, hwire, filterMap_cons_some harrives]
    have hrun := h.flying m (hflight ▸ mem_cons_self)
    rw [ingest_some harrives hnet hrun]
    refine ⟨h.attached, h.queued, fun m' hm' => ?_, ⟨lost, ?_, hlost⟩, fun he x hx => ?_, hlast,
      fun _ hfnet => ?_⟩
    · exact h.flying m' (hflight ▸ mem_cons_of_mem _ hm')
    · rw [← hwritten, hflight]
      show f.delivered ++ [m] ++ rest.filterMap arrives ++ e.outbound ++ lost = _
      simp only [List.append_assoc, cons_append, nil_append]
    · exact h.unclosed he x (hmem x hx)
    · cases hnet.symm.trans hfnet
  | none =>
    have hflight : inFlight e = rest.filterMap arrives := by
      rw [inFlight, hwire, filterMap_cons_none harrives]
    have hrest : ∀ f' : Endpoint, f'.delivered = f.delivered →
        (f'.attached = true → f'.net = false → e.attached = false ∧ rest = []) →
        Linked { e with wire := rest } f' := by
      intro f' hdelivered hcut
      refine ⟨h.attached, h.queued, fun m' hm' => ?_, ⟨lost, ?_, hlost⟩, fun he x hx => ?_, hlast,
        hcut⟩
      · exact h.flying m' (hflight ▸ hm')
      · rw [← hwritten, hflight, hdelivered]
        rfl
      · exact h.unclosed he x (hmem x hx)
    by_cases hclose : IsClose d
    · rw [ingest_close hclose]
      refine hrest _ rfl fun _ _ => ⟨?_, h.last [] d rest hwire hclose⟩
      cases he : e.attached with
      | false => rfl
      | true => exact absurd hclose (h.unclosed he d (hwire ▸ mem_cons_self))
    · rw [ingest_none harrives hclose]
      exact hrest f rfl fun _ hfnet => by cases hnet.symm.trans hfnet

theorem linked_received {rest : List (List UInt8)} (h : Linked f e) (hback : Linked e f)
    (hwire : e.wire = d :: rest) (hattached : f.attached = true) :
    Linked (ingest f d true sent) { e with wire := rest } := by
  have hpopped : Linked f { e with wire := rest } := h.receiver rfl fun he hnet => ⟨he, hnet⟩
  cases harrives : arrives d with
  | some m =>
    have hnet := hback.net_of_wire hwire hattached
    have hrun := hback.flying m (mem_filterMap.mpr ⟨d, hwire ▸ mem_cons_self, harrives⟩)
    rw [ingest_some harrives hnet hrun]
    exact ⟨hpopped.attached, hpopped.queued, hpopped.flying, hpopped.conserved, hpopped.unclosed,
      hpopped.last, hpopped.cut⟩
  | none =>
    by_cases hclose : IsClose d
    · rw [ingest_close hclose]
      exact hpopped.closeNet
    · rw [ingest_none harrives hclose]
      exact hpopped

/-! ### Runs -/

theorem attached_ingest : (ingest f d room sent).attached = f.attached := by
  rw [ingest]
  split
  · rfl
  · rfl
  · split
    · rfl
    split
    · rfl
    split
    · rfl
    split <;> rfl

theorem flush_cons {m : Message} {rest : List Message} (hnet : e.net = true)
    (houtbound : e.outbound = m :: rest) :
    (flushPipeToNet e true).net = true ∧ (flushPipeToNet e true).outbound = rest ∧
      (flushPipeToNet e true).written = e.written := by
  rw [flushPipeToNet, if_pos hnet, houtbound]
  exact ⟨hnet, rfl, rfl⟩

theorem linked_flush_all {n : ℕ} (h : Linked e f) (hnet : e.net = true)
    (hn : e.outbound.length = n) :
    let e' := (fun e => flushPipeToNet e true)^[n] e
    Linked e' f ∧ e'.net = true ∧ e'.outbound = [] ∧ e'.written = e.written := by
  induction n generalizing e with
  | zero => exact ⟨h, hnet, length_eq_zero_iff.mp hn, rfl⟩
  | succ n ih =>
    obtain ⟨m, rest, houtbound⟩ := exists_cons_of_length_eq_add_one hn
    obtain ⟨hnet', hrest, hwritten⟩ := flush_cons hnet houtbound
    have hlength : (flushPipeToNet e true).outbound.length = n := by
      rw [houtbound] at hn
      rw [hrest]
      exact Nat.succ.inj hn
    obtain ⟨hlinked, hnet', hnone, hwritten'⟩ := ih (linked_flush h) hnet' hlength
    exact ⟨hlinked, hnet', hnone, hwritten'.trans hwritten⟩

theorem linked_ingest_all {wire : List (List UInt8)} (h : Linked e f) (hwire : e.wire = wire)
    (hattached : f.attached = true) :
    Linked { e with wire := [] } (wire.foldl (fun f d => ingest f d true true) f) := by
  induction wire generalizing e f with
  | nil =>
    show Linked { e with wire := [] } f
    rw [← hwire]
    exact h
  | cons d rest ih =>
    have hstep : Linked { e with wire := rest } (ingest f d true true) :=
      linked_ingest h hwire hattached
    exact ih (e := { e with wire := rest }) hstep rfl (attached_ingest.trans hattached)

theorem delivers_of_linked (h : Linked e f) : Delivers e f where
  inOrder := by
    obtain ⟨lost, hwritten, -⟩ := h.conserved
    rw [← hwritten, List.append_assoc, List.append_assoc]
    exact prefix_append ..
  whole := whole_of_linked h
  pumped hnet hattached := by
    obtain ⟨hlinked, hnet', hnone, hwritten⟩ := linked_flush_all h hnet rfl
    have hend := whole_of_linked (linked_ingest_all hlinked rfl hattached) hnet'
    rw [← hwritten, ← hend]
    show (pump e f).delivered = (pump e f).delivered ++ [] ++ _
    rw [hnone, append_nil, append_nil]

variable {s : Party → Endpoint}

theorem linked_update (p : Party) {e' : Endpoint}
    (hout : Linked e' (s p.peer)) (hin : Linked (s p.peer) e') (q : Party) :
    Linked (Function.update s p e' q) (Function.update s p e' q.peer) := by
  cases p <;> cases q
  · exact hout
  · exact hin
  · exact hin
  · exact hout

theorem peer_peer (p : Party) : p.peer.peer = p := by
  cases p <;> rfl

/-- What any step preserves. -/
theorem step_linked (h : ∀ q, Linked (s q) (s q.peer)) (a : Action) (ha : Undisturbed s a) (q : Party) :
    Linked (step s a q) (step s a q.peer) := by
  have hback : ∀ p : Party, Linked (s p.peer) (s p) := by
    intro p
    have hpeer := h p.peer
    rwa [peer_peer] at hpeer
  cases a with
  | write p m =>
    refine linked_update p (linked_write (h p) ha) ((hback p).receiver ?_ ?_) q
    · rw [write]
      split <;> rfl
    · rw [write]
      split <;> exact fun hattached hnet => ⟨hattached, hnet⟩
  | flush p sent =>
    have ha : sent = true := ha
    subst ha
    refine linked_update p (linked_flush (h p)) ((hback p).receiver ?_ ?_) q
    · rw [flushPipeToNet]
      split
      · split <;> rfl
      · rfl
    · rw [flushPipeToNet]
      split
      · split <;> exact fun hattached hnet => ⟨hattached, hnet⟩
      · exact fun hattached hnet => ⟨hattached, hnet⟩
  | close p sent =>
    refine linked_update p (linked_close (h p)) ((hback p).receiver ?_ ?_) q
    · rw [close]
      split <;> rfl
    · rw [close]
      split
      · exact fun hattached => nomatch hattached
      · exact fun hattached hnet => ⟨hattached, hnet⟩
  | ingest p room sent =>
    have ha : room = true := ha
    subst ha
    rw [step]
    split
    · rename_i hattached
      cases hwire : (s p.peer).wire with
      | nil => exact h q
      | cons d rest =>
        have hin : Linked { s p.peer with wire := rest } (ingest (s p) d true sent) :=
          linked_ingest (hback p) hwire hattached
        have hout : Linked (ingest (s p) d true sent) { s p.peer with wire := rest } :=
          linked_received (h p) (hback p) hwire hattached
        cases p <;> cases q
        · exact hout
        · exact hin
        · exact hin
        · exact hout
    · exact h q

theorem leftover_datagram (l : Leftover) : arrives l.datagram = none ∧ ¬ IsClose l.datagram := by
  cases l with
  | punch =>
    refine ⟨by decide, ?_⟩
    rintro ⟨payload, hd⟩
    have hnoise : recvFrame Leftover.punch.datagram = .shouldWait := by decide
    exact nomatch hnoise.symm.trans hd
  | invite role =>
    have hd : recvFrame (Leftover.invite role).datagram = .ok kInvite [role] :=
      recvFrame_frame kInvite [role] (show 1 ≤ 0xffff by decide)
    refine ⟨by rw [arrives, hd]; rfl, ?_⟩
    rintro ⟨payload, hclose⟩
    injection hd.symm.trans hclose with htype
    exact absurd htype (by decide)
  | accept role =>
    have hd : recvFrame (Leftover.accept role).datagram = .ok kAccept [role] :=
      recvFrame_frame kAccept [role] (show 1 ≤ 0xffff by decide)
    refine ⟨by rw [arrives, hd]; rfl, ?_⟩
    rintro ⟨payload, hclose⟩
    injection hd.symm.trans hclose with htype
    exact absurd htype (by decide)

theorem linked_attach (left : Party → List Leftover) (p : Party) :
    Linked (attach left p) (attach left p.peer) := by
  have hflight : inFlight (attach left p) = [] := by
    refine filterMap_eq_nil_iff.mpr fun d hd => ?_
    obtain ⟨l, -, rfl⟩ := List.mem_map.mp hd
    exact (leftover_datagram l).1
  have hclose : ∀ d ∈ (attach left p).wire, ¬ IsClose d := by
    intro d hd
    obtain ⟨l, -, rfl⟩ := List.mem_map.mp hd
    exact (leftover_datagram l).2
  refine ⟨fun _ => rfl, fun m hm => (not_mem_nil hm).elim, fun m hm => ?_, ⟨[], ?_, fun _ => rfl⟩,
    fun _ => hclose, fun pre d post hwire hd => ?_, fun _ hnet => nomatch hnet⟩
  · rw [hflight] at hm
    exact (not_mem_nil hm).elim
  · rw [hflight]
    rfl
  · exact absurd hd (hclose d (hwire ▸ mem_append_right _ mem_cons_self))

/-- A message that the buffer of `RecvFrame` is too short for is sent, and dropped. -/
theorem dropped_of_long {m : Message} (hlong : 65528 < m.bytes.length)
    (hsend : m.bytes.length ≤ 0xffff) :
    let s := [.write .offerer m, .flush .offerer true, .ingest .answerer true true].foldl step
      (attach fun _ => [])
    s .offerer = { wire := [], written := [m] } ∧ s .answerer = { wire := [] } := by
  have hsize : m.bytes.length % 2 ^ 32 = m.bytes.length := Nat.mod_eq_of_lt (by omega)
  have hflush : flushPipeToNet { wire := [], outbound := [m], written := [m] } true =
      { wire := [frame kMojo m.bytes], written := [m] } := by
    rw [flushPipeToNet, if_pos rfl]
    simp only [hsize, take_length]
    rw [if_neg (by omega), sendFrame_sent hsend]
    rfl
  have hingest : ingest { wire := [] } (frame kMojo m.bytes) true true = { wire := [] } := by
    rw [ingest, recvFrame_frame _ _ hsend, if_neg (by omega)]
  have hstep : ∀ t : Party → Endpoint, t .offerer = { wire := [frame kMojo m.bytes], written := [m] } →
      t .answerer = { wire := [] } → step t (.ingest .answerer true true) =
        Function.update (Function.update t .offerer { wire := [], written := [m] }) .answerer
          { wire := [] } := by
    intro t hofferer hanswerer
    rw [step]
    simp only [Party.peer, hofferer, hanswerer, if_true, hingest]
  rw [foldl_cons, foldl_cons, foldl_cons, foldl_nil, hstep _ hflush rfl]
  exact ⟨rfl, rfl⟩

end Voodoo.Whp.Invitation
