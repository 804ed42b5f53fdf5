import Voodoo.Wire.Progress

/-!
# What the bytes of a payload lay out

A payload determines by itself how far each value in it reaches and how many handles it calls for.
`layoutParams` goes through a payload without a handle in sight and adds up the handles called for
(`slots`); it also notes whether every struct and union it goes through was declared as large as what
it lays out (`roomy`).

A generated reader run on a message with that payload goes the same way (`follows_readParams`), and
runs out of handles exactly if the layout calls for more than there are.
-/

namespace Voodoo

open LittleEndian EState

/-! ### The layout -/

structure Extent where
  offset : Nat := 0
  /-- How many handles were called for so far. -/
  slots : Nat := 0
  /-- Nothing so far reached beyond the declared end of the struct or union it is in. -/
  roomy : Bool := true

abbrev Layout := EStateM Unit Extent

def layoutFails {α : Type} : Layout α := fun e => .error () e

/-- The scalar at the current offset. -/
def layoutScalar (payload : List UInt8) (width : Nat) : Layout Nat := fun e =>
  if e.offset + width > payload.length % 2 ^ 32 then .error () e
  else .ok (load ((payload.drop e.offset).take width)) { e with offset := e.offset + width }

def layoutBytes (payload : List UInt8) (len : Nat) : Layout Unit := fun e =>
  if e.offset + len > payload.length % 2 ^ 32 then .error () e
  else .ok () { e with offset := e.offset + len }

def layoutSlot : Layout Unit := fun e => .ok () { e with slots := e.slots + 1 }

/-- The end of a struct or union declared to reach up to `stop`. -/
def layoutEnd (stop : Nat) : Layout Unit := fun e =>
  .ok () { e with offset := stop, roomy := e.roomy && decide (e.offset ≤ stop) }

def layoutOffset : Layout Nat := fun e => .ok e.offset e

def layoutTimes (part : Layout Unit) : Nat → Layout Unit
  | 0 => pure ()
  | n + 1 => do
    part
    layoutTimes part n

def layoutHandle (payload : List UInt8) : HandleKind → Layout Unit
  | .pendingAssociatedRemote => do
    let _ ← layoutScalar payload 4
    let _ ← layoutScalar payload 4
    pure ()
  | .pendingAssociatedReceiver => do
    let _ ← layoutScalar payload 4
    pure ()
  | .pendingRemote => do
    let _ ← layoutScalar payload 4
    layoutSlot
  | _ => layoutSlot

/-- The number of elements of an array: on the wire unless the type fixes it. -/
def layoutCount (payload : List UInt8) (fixedArraySize : Nat) : Layout Nat :=
  if fixedArraySize = 0 then layoutScalar payload 4 else pure fixedArraySize

def layoutInto (graph : List Module) (payload : List UInt8) (file : Module)
    (layoutX : EmbedRef → Layout Unit) (version : Option Nat) : TypeSpec → Layout Unit
  | .scalar kind => do
    let _ ← layoutScalar payload kind.size
    pure ()
  | .string => do
    let len ← layoutScalar payload 4
    layoutBytes payload len
  | .enumRef r => do
    let n ← layoutScalar payload 4
    if acceptsEnum graph file r version (BitVec.ofNat 32 n) then pure () else layoutFails
  | .structRef r => layoutX (.struct r)
  | .unionRef r => layoutX (.union r)
  | .array element fixedArraySize => do
    let n ← layoutCount payload fixedArraySize
    layoutTimes (layoutInto graph payload file layoutX version element) n
  | .map key element => do
    let n ← layoutScalar payload 4
    layoutTimes (do
      layoutInto graph payload file layoutX version key
      layoutInto graph payload file layoutX version element) n
  | .handle kind _ => layoutHandle payload kind
  | .nullable type => do
    let present ← layoutScalar payload 1
    if present ≠ 0 then layoutInto graph payload file layoutX version type else pure ()

/-- The fields that a struct of this version has on the wire. -/
def layoutFields (s : StructDecl) (version : Nat) (layout : TypeSpec → Layout Unit) :
    List Nat → Layout Unit
  | [] => pure ()
  | i :: is =>
    match s.fields[i]? with
    | none => layoutFields s version layout is
    | some f =>
      if f.minVersion = 0 ∨ f.minVersion.toNat ≤ version then do
        layout f.type
        layoutFields s version layout is
      else layoutFields s version layout is

def layoutStruct (payload : List UInt8) (s : StructDecl) (layout : Nat → TypeSpec → Layout Unit) :
    Layout Unit := do
  let numBytes ← layoutScalar payload 4
  let version ← layoutScalar payload 4
  if numBytes < 8 then layoutFails
  else do
    let offset ← layoutOffset
    if offset - 8 + numBytes > payload.length % 2 ^ 32 then layoutFails
    else do
      layoutFields s version (layout version) s.wireFieldOrder
      layoutEnd (offset - 8 + numBytes)

def layoutUnion (payload : List UInt8) (u : UnionDecl) (layout : TypeSpec → Layout Unit) :
    Layout Unit := do
  let unionSize ← layoutScalar payload 4
  if unionSize < 4 then layoutFails
  else do
    let offset ← layoutOffset
    if offset - 4 + unionSize > payload.length % 2 ^ 32 then layoutFails
    else do
      let tag ← layoutScalar payload 4
      match u.caseFor (BitVec.ofNat 32 tag) with
      | some f => do
        layout f.type
        layoutEnd (offset - 4 + unionSize)
      | none => if u.isExtensible then layoutEnd (offset - 4 + unionSize) else layoutFails

/-- A struct or union, with at most `n` of them inside one another. -/
def layoutX (graph : List Module) (payload : List UInt8) : Nat → Module → EmbedRef → Layout Unit
  | 0, _, _ => layoutFails
  | n + 1, file, .struct r =>
    match resolveStruct graph file r with
    | some (m, s) =>
      layoutStruct payload s (fun version =>
        layoutInto graph payload m (layoutX graph payload n m) (some version))
    | none => layoutFails
  | n + 1, file, .union r =>
    match resolveUnion graph file r with
    | some (m, u) =>
      layoutUnion payload u (layoutInto graph payload m (layoutX graph payload n m) none)
    | none => layoutFails

def layoutValue (graph : List Module) (payload : List UInt8) (file : Module)
    (version : Option Nat) (type : TypeSpec) : Layout Unit :=
  layoutInto graph payload file (layoutX graph payload (payload.length + 1) file) version type

def layoutParams (graph : List Module) (payload : List UInt8) (file : Module) :
    List Param → Layout Unit
  | [] => pure ()
  | p :: ps => do
    layoutValue graph payload file none p.type
    layoutParams graph payload file ps

/-- How many handles a payload calls for, read as the parameters `params`. -/
def slotsCalledFor (graph : List Module) (payload : List UInt8) (file : Module)
    (params : List Param) : Nat :=
  (endState (layoutParams graph payload file params {})).slots

/-! ### A reader goes the way of the layout -/

/-- Whether the event leaves the offset no further back than it was. -/
def Event.forward : Event → Bool
  | .load _ _ => true
  | .jump start stop => decide (start ≤ stop)

/-- Where the layout is when the reader is at this cursor. -/
def Cursor.extent (c : Cursor) : Extent := ⟨c.offset, c.handleIdx, c.trace.all Event.forward⟩

theorem Cursor.extent_load (c : Cursor) (width : Nat) :
    Cursor.extent { c with
      offset := c.offset + width, trace := c.trace ++ [.load c.offset width] } =
      { c.extent with offset := c.offset + width } := by
  simp [Cursor.extent, Event.forward]

theorem Cursor.extent_jump (c : Cursor) (stop : Nat) :
    Cursor.extent { c with offset := stop, trace := c.trace ++ [.jump c.offset stop] } =
      { c.extent with
        offset := stop, roomy := c.extent.roomy && decide (c.extent.offset ≤ stop) } := by
  rw [Cursor.extent, List.all_append, List.all_cons, List.all_nil, Bool.and_true]
  rfl

theorem layoutScalar_error {msg : Message} {width : Nat} {c : Cursor}
    (h : c.offset + width > msg.payloadNumBytes) :
    layoutScalar msg.payload width c.extent = .error () c.extent := if_pos h

theorem layoutScalar_ok {msg : Message} {width : Nat} {c : Cursor}
    (h : ¬ c.offset + width > msg.payloadNumBytes) :
    layoutScalar msg.payload width c.extent = .ok (load ((msg.payload.drop c.offset).take width))
      (Cursor.extent { c with
        offset := c.offset + width, trace := c.trace ++ [.load c.offset width] }) := by
  rw [Cursor.extent_load]
  exact if_neg h

/-- Handles called for are not taken back. -/
def Extent.Grows (a b : Extent) : Prop := a.slots ≤ b.slots

theorem Extent.Grows.refl (a : Extent) : a.Grows a := Nat.le_refl a.slots

theorem Extent.Grows.trans (a b c : Extent) (h₁ : a.Grows b) (h₂ : b.Grows c) : a.Grows c :=
  Nat.le_trans h₁ h₂

/-- The index into the handle vector is not past its end. -/
def inRange (msg : Message) (c : Cursor) : Prop := c.handleIdx ≤ msg.handles.length

/-- While there are handles, `rd` stops where `part` does; when it runs out of them, `part` has
called for more than there are. -/
structure Follows {α : Type} (msg : Message) (rd : Reader α) (part : Layout Unit) : Prop where
  grows : Preserves Extent.Grows part
  run : ∀ c, match rd c with
    | .ok _ c' => part c.extent = .ok () c'.extent ∧ (inRange msg c → inRange msg c')
    | .error .returnFalse c' =>
      part c.extent = .error () c'.extent ∧ (inRange msg c → inRange msg c')
    | .error .outOfRange _ => msg.handles.length < (endState (part c.extent)).slots
    | .error .outOfFuel _ => True

namespace Follows

variable {α β : Type} {msg : Message}

protected theorem pure (a : α) : Follows msg (pure a) (pure ()) :=
  ⟨Preserves.pure Extent.Grows.refl (), fun _ => ⟨rfl, id⟩⟩

theorem fails : Follows msg (returnFalse : Reader α) layoutFails :=
  ⟨fun e => Extent.Grows.refl e, fun _ => ⟨rfl, id⟩⟩

theorem outOfFuel {part : Layout Unit} (h : Preserves Extent.Grows part) :
    Follows msg (outOfFuel : Reader α) part := ⟨h, fun _ => trivial⟩

theorem bind {x : Reader α} {f : α → Reader β} {part rest : Layout Unit} (hx : Follows msg x part)
    (hf : ∀ a, Follows msg (f a) rest) (hrest : Preserves Extent.Grows rest) :
    Follows msg (x >>= f) (do part; rest) where
  grows := Preserves.bind Extent.Grows.trans hx.grows (fun _ => hrest)
  run c := by
    have hrun := hx.run c
    rw [run_bind]
    cases h : x c with
    | ok a c' =>
      rw [h] at hrun
      rw [bind_ok hrun.1]
      have hnext := (hf a).run c'
      dsimp only
      cases h' : f a c' with
      | ok b c'' =>
        rw [h'] at hnext
        exact ⟨hnext.1, hnext.2 ∘ hrun.2⟩
      | error e c'' =>
        rw [h'] at hnext
        cases e with
        | returnFalse => exact ⟨hnext.1, hnext.2 ∘ hrun.2⟩
        | outOfRange => exact hnext
        | outOfFuel => trivial
    | error e c' =>
      rw [h] at hrun
      cases e with
      | returnFalse => exact ⟨by rw [run_bind, hrun.1], hrun.2⟩
      | outOfRange =>
        dsimp only at hrun ⊢
        rw [run_bind]
        cases hpart : part c.extent with
        | error u e => rw [hpart] at hrun; exact hrun
        | ok u e =>
          rw [hpart] at hrun
          exact Nat.lt_of_lt_of_le hrun (hrest e)
      | outOfFuel => trivial

theorem map {x : Reader α} {part : Layout Unit} (hx : Follows msg x part) (g : α → β) :
    Follows msg (do let a ← x; pure (g a)) part := by
  have h := hx.bind (fun a => Follows.pure (g a)) (Preserves.pure Extent.Grows.refl ())
  rwa [bind_pure_unit] at h

theorem bind_scalar {width : Nat} {f : Nat → Reader α} {g : Nat → Layout Unit}
    (h : ∀ n, Follows msg (f n) (g n)) :
    Follows msg (readScalar msg width >>= f) (layoutScalar msg.payload width >>= g) where
  grows := by
    refine Preserves.bind Extent.Grows.trans (fun e => ?_) (fun n => (h n).grows)
    unfold layoutScalar
    split <;> exact Extent.Grows.refl e
  run c := by
    by_cases hfit : c.offset + width > msg.payloadNumBytes
    · have hread : readScalar msg width c = .error .returnFalse c := if_pos hfit
      rw [run_bind, hread]
      exact ⟨by rw [run_bind, layoutScalar_error hfit], id⟩
    · rw [bind_ok (readScalar_ok (Nat.le_of_not_lt hfit)), bind_ok (layoutScalar_ok hfit)]
      exact (h _).run { c with
        offset := c.offset + width, trace := c.trace ++ [.load c.offset width] }

theorem bytes {len : Nat} {g : List UInt8 → α} :
    Follows msg (do let bs ← readBytes msg len; pure (g bs)) (layoutBytes msg.payload len) where
  grows e := by
    unfold layoutBytes
    split <;> exact Extent.Grows.refl e
  run c := by
    by_cases hfit : c.offset + len > msg.payloadNumBytes
    · have hread : readBytes msg len c = .error .returnFalse c := if_pos hfit
      rw [run_bind, hread]
      exact ⟨if_pos hfit, id⟩
    · have hread : readBytes msg len c = .ok ((msg.payload.drop c.offset).take len)
          { c with offset := c.offset + len, trace := c.trace ++ [.load c.offset len] } :=
        if_neg hfit
      rw [bind_ok hread]
      refine ⟨?_, id⟩
      rw [Cursor.extent_load]
      exact if_neg hfit

theorem handle {g : Handle → α} :
    Follows msg (do let h ← takeHandle msg; pure (g h)) layoutSlot where
  grows e := Nat.le_succ _
  run c := by
    rw [run_bind]
    unfold takeHandle
    cases hget : msg.handles[c.handleIdx]? with
    | some h => exact ⟨rfl, fun _ => (List.getElem?_eq_some_iff.mp hget).1⟩
    | none => exact Nat.lt_succ_of_le (List.getElem?_eq_none_iff.mp hget)

theorem stop {stop : Nat} {a : α} :
    Follows msg (do jumpTo stop; pure a) (layoutEnd stop) where
  grows e := Extent.Grows.refl e
  run c := by
    refine ⟨?_, id⟩
    rw [Cursor.extent_jump]
    rfl

theorem bind_offset {f : Nat → Reader α} {g : Nat → Layout Unit}
    (h : ∀ n, Follows msg (f n) (g n)) :
    Follows msg (currentOffset >>= f) (layoutOffset >>= g) where
  grows := Preserves.bind Extent.Grows.trans (fun e => Extent.Grows.refl e) (fun n => (h n).grows)
  run c := (h c.offset).run c

theorem bind_bool {f : Bool → Reader α} {g : Nat → Layout Unit}
    (h : ∀ n, Follows msg (f (decide (n ≠ 0))) (g n)) :
    Follows msg (readBool msg >>= f) (layoutScalar msg.payload 1 >>= g) := by
  rw [readBool, bind_map_left]
  exact bind_scalar h

theorem bind_count {n : Nat} {f : Nat → Reader α} {g : Nat → Layout Unit}
    (h : ∀ n, Follows msg (f n) (g n)) :
    Follows msg (readCount msg n >>= f) (layoutCount msg.payload n >>= g) := by
  unfold readCount layoutCount
  split
  · exact bind_scalar h
  · rw [pure_bind, pure_bind]
    exact h n

/-! ### Every generated reader -/

theorem readHandleInto (kind : HandleKind) :
    Follows msg (readHandleInto msg kind) (layoutHandle msg.payload kind) := by
  cases kind with
  | pendingAssociatedRemote => exact bind_scalar (fun _ => bind_scalar (fun _ => .pure _))
  | pendingAssociatedReceiver => exact bind_scalar (fun _ => .pure _)
  | pendingRemote => exact bind_scalar (fun _ => handle)
  | _ => exact handle

theorem readElements {element : Reader Val} {part : Layout Unit} (h : Follows msg element part)
    (n : Nat) : Follows msg (readElements element n) (layoutTimes part n) := by
  induction n with
  | zero => exact .pure _
  | succ n ih => exact h.bind (fun v => ih.map (fun vs => v :: vs)) ih.grows

theorem readEntries {key element : Reader Val} {keyPart part : Layout Unit}
    (hk : Follows msg key keyPart) (he : Follows msg element part) (n : Nat)
    (entries : List (Val × Val)) :
    Follows msg (readEntries key element n entries)
      (layoutTimes (do keyPart; part) n) := by
  induction n generalizing entries with
  | zero => exact .pure _
  | succ n ih =>
    have hrest := (ih entries).grows
    rw [layoutTimes, bind_assoc]
    exact hk.bind (fun k => he.bind (fun v => ih _) hrest)
      (Preserves.bind Extent.Grows.trans he.grows (fun _ => hrest))

theorem readInto {graph : List Module} {file : Module} {readX : EmbedRef → Reader Val}
    {layoutX : EmbedRef → Layout Unit} (hX : ∀ r, Follows msg (readX r) (layoutX r))
    (version : Option Nat) (type : TypeSpec) :
    Follows msg (readInto graph msg file readX version type)
      (layoutInto graph msg.payload file layoutX version type) := by
  induction type with
  | scalar kind =>
    cases kind with
    | bool => exact bind_bool (fun _ => .pure _)
    | _ => exact bind_scalar (fun _ => .pure _)
  | string =>
    rw [Voodoo.readInto, readString, bind_assoc]
    exact bind_scalar (fun _ => bytes)
  | enumRef r =>
    refine bind_scalar (fun n => ?_)
    split
    · exact .pure _
    · exact fails
  | structRef r => exact hX (.struct r)
  | unionRef r => exact hX (.union r)
  | array element n ih => exact bind_count (fun n => (readElements ih n).map _)
  | map key element ihk ihe => exact bind_scalar (fun n => (readEntries ihk ihe n []).map _)
  | handle kind interface => exact readHandleInto kind
  | nullable type ih =>
    refine bind_bool (fun n => ?_)
    by_cases hn : n ≠ 0
    · rw [if_pos (decide_eq_true hn), if_pos hn]
      exact ih.map _
    · rw [if_neg (by simpa using hn), if_neg hn]
      exact .pure _

theorem readFields {s : StructDecl} {version : Nat} {read : TypeSpec → Reader Val}
    {layout : TypeSpec → Layout Unit} (h : ∀ type, Follows msg (read type) (layout type))
    (is : List Nat) (out : List Val) :
    Follows msg (readFields s version read is out) (layoutFields s version layout is) := by
  induction is generalizing out with
  | nil => exact .pure _
  | cons i is ih =>
    unfold Voodoo.readFields layoutFields
    cases s.fields[i]? with
    | none => exact ih out
    | some f =>
      dsimp only
      split
      · exact (h f.type).bind (fun _ => ih _) (ih out).grows
      · exact ih out

theorem readStruct {s : StructDecl} {read : Nat → TypeSpec → Reader Val}
    {layout : Nat → TypeSpec → Layout Unit}
    (h : ∀ version type, Follows msg (read version type) (layout version type)) (out : List Val) :
    Follows msg (readStruct msg s read out) (layoutStruct msg.payload s layout) := by
  refine bind_scalar (fun numBytes => bind_scalar (fun version => ?_))
  split
  · exact fails
  · refine bind_offset (fun offset => ?_)
    dsimp only
    by_cases hfit : offset - 8 + numBytes > msg.payloadNumBytes
    · rw [if_pos hfit, if_pos (show _ > msg.payload.length % 2 ^ 32 from hfit)]
      exact fails
    · rw [if_neg hfit, if_neg (show ¬ _ > msg.payload.length % 2 ^ 32 from hfit)]
      exact (readFields (h version) _ out).bind (fun _ => stop) (fun e => Extent.Grows.refl e)

theorem readUnion {u : UnionDecl} {read : TypeSpec → Reader Val}
    {layout : TypeSpec → Layout Unit} (h : ∀ type, Follows msg (read type) (layout type))
    (fresh : TypeSpec → Val) :
    Follows msg (readUnion msg u read fresh) (layoutUnion msg.payload u layout) := by
  refine bind_scalar (fun unionSize => ?_)
  split
  · exact fails
  · refine bind_offset (fun offset => ?_)
    dsimp only
    by_cases hfit : offset - 4 + unionSize > msg.payloadNumBytes
    · rw [if_pos hfit, if_pos (show _ > msg.payload.length % 2 ^ 32 from hfit)]
      exact fails
    · rw [if_neg hfit, if_neg (show ¬ _ > msg.payload.length % 2 ^ 32 from hfit)]
      refine bind_scalar (fun tag => ?_)
      cases u.caseFor (BitVec.ofNat 32 tag) with
      | some f => exact (h f.type).bind (fun _ => stop) (fun e => Extent.Grows.refl e)
      | none =>
        dsimp only
        split
        · exact stop
        · exact fails

theorem readX (graph : List Module) (n : Nat) (file : Module) (r : EmbedRef) :
    Follows msg (readX graph msg n file r) (layoutX graph msg.payload n file r) := by
  induction n generalizing file r with
  | zero => exact outOfFuel (fun e => Extent.Grows.refl e)
  | succ n ih =>
    cases r with
    | struct r =>
      unfold Voodoo.readX layoutX
      cases resolveStruct graph file r with
      | some d => exact readStruct (fun version type => readInto (ih _) (some version) type) _
      | none => exact fails
    | union r =>
      unfold Voodoo.readX layoutX
      cases resolveUnion graph file r with
      | some d => exact readUnion (fun type => readInto (ih _) none type) _
      | none => exact fails

end Follows

theorem follows_readValue (graph : List Module) (msg : Message) (file : Module)
    (version : Option Nat) (type : TypeSpec) :
    Follows msg (readValue graph msg file version type)
      (layoutValue graph msg.payload file version type) :=
  Follows.readInto (Follows.readX graph _ file) version type

/-- **A reader and the layout of its payload keep step.** -/
theorem follows_readParams (graph : List Module) (msg : Message) (file : Module)
    (params : List Param) :
    Follows msg (readParams graph msg file params)
      (layoutParams graph msg.payload file params) := by
  induction params with
  | nil => exact Follows.pure _
  | cons p ps ih =>
    exact (follows_readValue graph msg file none p.type).bind (fun v => ih.map (fun vs => v :: vs))
      ih.grows

end Voodoo
