import Voodoo.Lib.Machine
import Voodoo.Whp.DataPipes
import Voodoo.Whp.Pipes
import Voodoo.Whp.Traps

/-!
# Runs of the core

The operations in three groups: those on objects without signals, which are
`Silent`, those on data pipes, which change the state of one data pipe
(`DataEffect`), and the rest.  `perform` is what an operation does, `step` the core
it leaves.  The handle table is well formed and every trap listed in every state
of every run (`sound_of_reaches`).
-/

namespace Voodoo.Whp

/-- The functions on messages, shared buffers and platform handles, and those that only look. -/
inductive SilentOp where
  | createMessage
  | appendMessageData (message : Handle) (additional : UInt32) (handles : List Handle)
      (commit : Bool)
  | fillMessage (message : Handle) (offset : Nat) (data : List UInt8)
  | getMessageData (message : Handle) (room : Option Nat) (wanted : Bool)
  | serializeMessage (message : Handle)
  | messageSerialized (message : Handle)
  | reserveMessageCapacity (message : Handle) (size : UInt32)
  | setMessageContext (message : Handle) (context : Nat) (serializer destructor : Option Nat)
  | getMessageContext (message : Handle)
  | createSharedBuffer (numBytes : UInt64)
  | duplicateBufferHandle (buffer : Handle)
  | getBufferInfo (buffer : Handle)
  | wrapPlatformHandle (type : UInt32) (value : Nat)
  | unwrapPlatformHandle (handle : Handle)
  | wrapPlatformSharedMemoryRegion (natives : List (UInt32 × Nat)) (numBytes : UInt64)
      (guid : Nat × Nat) (accessMode : UInt32)
  | unwrapPlatformSharedMemoryRegion (handle : Handle) (room : Nat) (wanted : Bool)
  | queryQuota (pipe : Handle) (type : UInt32)
  | queryHandleSignalsState (handle : Handle)

/-- The functions on a data pipe, once it is made. -/
inductive DataOp where
  | writeData (producer : Handle) (elements : List UInt8)
  | readData (consumer : Handle) (numBytes : UInt32)
  | beginWriteData (producer : Handle) (numBytes : UInt32)
  | fillWriteBuffer (producer : Handle) (data : List UInt8)
  | endWriteData (producer : Handle) (written : UInt32)
  | beginReadData (consumer : Handle) (numBytes : UInt32)
  | endReadData (consumer : Handle) (read : UInt32)

inductive Op where
  | silent (op : SilentOp)
  | data (op : DataOp)
  | createMessagePipe
  | writeMessage (pipe message : Handle)
  | readMessage (pipe : Handle)
  | fuseMessagePipes (handle0 handle1 : Handle)
  | setQuota (pipe : Handle) (type : UInt32) (limit : UInt64)
  | createDataPipe (elementSize capacity : UInt32)
  | createTrap (handler : Option Nat)
  | addTrigger (trap handle : Handle) (signals : Signals) (condition : UInt32) (context : Nat)
  | removeTrigger (trap : Handle) (context : Nat)
  | armTrap (trap : Handle) (room : Option Nat) (wanted : Bool)
  | pumpEvents
  | close (handle : Handle)

namespace Core

def performSilent (c : Core) : SilentOp → Reply × Core
  | .createMessage => c.createMessage
  | .appendMessageData m n hs commit => c.appendMessageData m n hs commit
  | .fillMessage m offset data => c.fillMessage m offset data
  | .getMessageData m room wanted => c.getMessageData m room wanted
  | .serializeMessage m => c.serializeMessage m
  | .messageSerialized m => c.messageSerialized m
  | .reserveMessageCapacity m size => c.reserveMessageCapacity m size
  | .setMessageContext m context s d => c.setMessageContext m context s d
  | .getMessageContext m => c.getMessageContext m
  | .createSharedBuffer n => c.createSharedBuffer n
  | .duplicateBufferHandle b => c.duplicateBufferHandle b
  | .getBufferInfo b => c.getBufferInfo b
  | .wrapPlatformHandle type value => c.wrapPlatformHandle type value
  | .unwrapPlatformHandle h => c.unwrapPlatformHandle h
  | .wrapPlatformSharedMemoryRegion ns n guid mode =>
    c.wrapPlatformSharedMemoryRegion ns n guid mode
  | .unwrapPlatformSharedMemoryRegion h room wanted =>
    c.unwrapPlatformSharedMemoryRegion h room wanted
  | .queryQuota p type => c.queryQuota p type
  | .queryHandleSignalsState h => c.queryHandleSignalsState h

def performData (c : Core) : DataOp → Reply × Core
  | .writeData p elements => c.writeData p elements
  | .readData h n => c.readData h n
  | .beginWriteData p n => c.beginWriteData p n
  | .fillWriteBuffer p data => c.fillWriteBuffer p data
  | .endWriteData p n => c.endWriteData p n
  | .beginReadData h n => c.beginReadData h n
  | .endReadData h n => c.endReadData h n

def perform (c : Core) : Op → Reply × Core
  | .silent op => c.performSilent op
  | .data op => c.performData op
  | .createMessagePipe => c.createMessagePipe
  | .writeMessage p m => c.writeMessage p m
  | .readMessage p => c.readMessage p
  | .fuseMessagePipes h₀ h₁ => c.fuseMessagePipes h₀ h₁
  | .setQuota p type limit => c.setQuota p type limit
  | .createDataPipe elementSize capacity => c.createDataPipe elementSize capacity
  | .createTrap handler => c.createTrap handler
  | .addTrigger t h signals condition context => c.addTrigger t h signals condition context
  | .removeTrigger t context => c.removeTrigger t context
  | .armTrap t room wanted => c.armTrap t room wanted
  | .pumpEvents => c.pumpEvents
  | .close h => c.close h

def step (c : Core) (op : Op) : Core := (c.perform op).2

variable {c c' : Core} {h : Handle} {o obj : Obj}

/-! ### What the groups do -/

theorem silent_setBuffer (hs : c.Sound) (i : Nat) (b : SharedBufferObj) :
    Silent c (c.setBuffer i b) :=
  ⟨hs.same rfl rfl rfl rfl rfl, fun _ _ _ => Iff.rfl, fun _ _ _ _ => rfl, rfl, rfl, rfl, rfl⟩

theorem silent_newBuffer (hs : c.Sound) (b : SharedBufferObj) : Silent c (c.newBuffer b) :=
  ⟨hs.same rfl rfl rfl rfl rfl, fun _ _ _ => Iff.rfl, fun _ _ _ _ => rfl, rfl, rfl, rfl, rfl⟩

theorem silent_performSilent (hs : c.Sound) (op : SilentOp) : Silent c (c.performSilent op).2 := by
  cases op with
  | createMessage => exact .alloc hs rfl
  | createSharedBuffer n =>
    simp only [performSilent, createSharedBuffer]
    split
    · exact .refl hs
    · exact (silent_newBuffer hs _).trans (.alloc (silent_newBuffer hs _).sound rfl)
  | duplicateBufferHandle b =>
    simp only [performSilent, duplicateBufferHandle]
    split
    · exact .alloc hs rfl
    · exact .refl hs
  | wrapPlatformHandle type value =>
    simp only [performSilent, wrapPlatformHandle]
    split
    · exact .alloc hs rfl
    · exact .refl hs
  | unwrapPlatformHandle h =>
    simp only [performSilent, unwrapPlatformHandle]
    split
    · exact .free hs ‹_› rfl
    · exact .refl hs
  | wrapPlatformSharedMemoryRegion ns n guid mode =>
    simp only [performSilent, wrapPlatformSharedMemoryRegion]
    split
    · exact .refl hs
    · split
      · exact (silent_newBuffer hs _).trans (.alloc (silent_newBuffer hs _).sound rfl)
      · exact .refl hs
  | unwrapPlatformSharedMemoryRegion h room wanted =>
    simp only [performSilent, unwrapPlatformSharedMemoryRegion]
    split
    · split
      · exact .refl hs
      · split
        · exact .refl hs
        · rename_i i hlive _ _
          have hb := silent_setBuffer hs i { c.buffers i with platOwns := false }
          exact hb.trans (.free hb.sound hlive rfl)
    · exact .refl hs
  | _ =>
    simp only [performSilent, appendMessageData, fillMessage, getMessageData, serializeMessage,
      messageSerialized, reserveMessageCapacity, setMessageContext, getMessageContext, getBufferInfo,
      queryQuota, queryHandleSignalsState]
    repeat' split
    all_goals first
      | exact .refl hs
      | exact .setObj hs ‹_› rfl rfl

/-- All that the functions on data pipes do. -/
inductive DataEffect (c : Core) : Core → Prop
  | nothing : DataEffect c c
  /-- The signals are what they were. -/
  | quietly (i : Nat) (s : DataPipeState)
      (hproducer : producerSignals s = producerSignals (c.dataPipes i))
      (hconsumer : consumerSignals s = consumerSignals (c.dataPipes i)) :
      DataEffect c (c.setDataPipe i s)
  /-- The traps are looked at afterwards. -/
  | collecting (i : Nat) (s : DataPipeState) :
      DataEffect c (c.setDataPipe i s).collectTrapEvents

theorem dataEffect_performData (c : Core) (op : DataOp) : DataEffect c (c.performData op).2 := by
  cases op <;>
  · simp only [performData, writeData, readData, beginWriteData, fillWriteBuffer, endWriteData,
      beginReadData, endReadData]
    repeat' split
    all_goals first
      | exact .nothing
      | exact .quietly _ _ rfl rfl
      | exact .collecting _ _

theorem Sound.newDataPipe (hs : c.Sound) (s : DataPipeState) : (c.newDataPipe s).Sound :=
  hs.more rfl rfl rfl (Nat.le_refl _) (Nat.le_succ _)

theorem createDataPipe_eq (hs : c.Sound) (elementSize capacity : UInt32) :
    (c.createDataPipe elementSize capacity).1 =
        { result := .ok, handles := [c.nextHandles.1, c.nextHandles.2] } ∧
      ∀ x, (c.createDataPipe elementSize capacity).2.lookup x =
        if x = c.nextHandles.2 then some (.dataPipeConsumer c.dataPipeCount)
        else if x = c.nextHandles.1 then some (.dataPipeProducer c.dataPipeCount)
        else c.lookup x := by
  have hnew := hs.newDataPipe (.make elementSize capacity)
  refine ⟨?_, fun x => hnew.table.lookup_alloc_alloc _ _ x⟩
  have hsnd := nextHandle_alloc (c.newDataPipe (.make elementSize capacity))
    (.dataPipeProducer c.dataPipeCount)
  unfold createDataPipe
  dsimp only
  rw [hsnd, ← nextHandles_fst]
  rfl

theorem createDataPipe_dataPipes (c : Core) (elementSize capacity : UInt32) :
    (c.createDataPipe elementSize capacity).2.dataPipes =
      (c.newDataPipe (.make elementSize capacity)).dataPipes := by
  simp only [createDataPipe, alloc_dataPipes]

/-! ### The table and the traps in every state -/

theorem sound_start : ({} : Core).Sound where
  table :=
    { length_pos := Nat.zero_lt_one
      nodup := List.nodup_nil
      mem_iff := fun h => ⟨nofun, fun ⟨hpos, hlt, _⟩ => absurd hlt (Nat.not_lt.mpr hpos)⟩ }
  listed h t ht := by rcases h with _ | h <;> cases ht
  numbered h o ho := by rcases h with _ | h <;> cases ho

theorem DataEffect.sound (hs : c.Sound) (hd : DataEffect c c') : c'.Sound := by
  cases hd with
  | nothing => exact hs
  | quietly i s _ _ => exact hs.same rfl rfl rfl rfl rfl
  | collecting i s =>
    have hset : (c.setDataPipe i s).Sound := hs.same rfl rfl rfl rfl rfl
    exact hset.collectTrapEvents

theorem Sound.release (hs : c.Sound) (hlive : c.lookup h = some o) :
    ((c.release h o).free h).Sound := by
  cases o with
  | messagePipe e =>
    have hset : (c.release h (.messagePipe e)).Sound := hs.same rfl rfl rfl rfl rfl
    exact hset.free hlive
  | dataPipeProducer i =>
    have hset : (c.release h (.dataPipeProducer i)).Sound := hs.same rfl rfl rfl rfl rfl
    exact hset.free hlive
  | dataPipeConsumer i =>
    have hset : (c.release h (.dataPipeConsumer i)).Sound := hs.same rfl rfl rfl rfl rfl
    exact hset.free hlive
  | trap t =>
    have htable : (c.release h (.trap t)).Table := hs.table.congr rfl rfl fun _ => Iff.rfl
    refine ⟨htable.free hlive, fun g t' ht' => ?_, fun g o ho => ?_⟩
    · rw [lookup_free] at ht'
      split at ht'
      · cases ht'
      · rename_i hne
        rw [free_traps]
        exact List.mem_filter.mpr ⟨hs.listed g t' ht', decide_eq_true hne⟩
    · rw [free_pipeCount, free_dataPipeCount]
      rw [lookup_free] at ho
      split at ho
      · cases ho
      · exact hs.numbered g o ho
  | message m => exact hs.free hlive
  | sharedBuffer i => exact hs.free hlive
  | platform p => exact hs.free hlive

theorem sound_step (hs : c.Sound) (op : Op) : (c.step op).Sound := by
  cases op with
  | silent op => exact (silent_performSilent hs op).sound
  | data op => exact (dataEffect_performData c op).sound hs
  | createMessagePipe =>
    have hnum : c.pipeCount < c.pipeCount + 1 := Nat.lt_succ_self _
    exact (hs.newPipe {}).alloc_alloc nofun nofun hnum hnum
  | writeMessage p m =>
    simp only [step, perform, writeMessage]
    split
    · rename_i e msg _ hmsg
      split
      · exact (hs.free hmsg).collectTrapEvents
      · split
        · exact hs
        · have hset : (c.setQueue e.other ((c.pipes e.state).queues e.other.side ++
              [{ msg with committed := true }])).Sound := hs.same rfl rfl rfl rfl rfl
          exact (hset.free hmsg).collectTrapEvents
    · exact hs
  | readMessage p =>
    simp only [step, perform, readMessage]
    split
    · split
      · exact hs
      · rename_i e _ _ msg rest _
        have hset : (c.setQueue e rest).Sound := hs.same rfl rfl rfl rfl rfl
        exact hset.alloc (by nofun) trivial
    · exact hs
  | fuseMessagePipes a b =>
    rw [step, perform]
    rcases fuseMessagePipes_cases c a b with ⟨r, -, hr⟩ | ⟨e0, e1, h0, h1, hf, hr⟩
    · rw [hr]
      exact hs
    · rw [hr]
      exact (hf.sound_fused hs).collectTrapEvents
  | setQuota p type limit =>
    simp only [step, perform, setQuota]
    repeat' split
    all_goals first
      | exact hs
      | exact hs.same rfl rfl rfl rfl rfl
  | createDataPipe elementSize capacity =>
    have hnum : c.dataPipeCount < c.dataPipeCount + 1 := Nat.lt_succ_self _
    exact (hs.newDataPipe (.make elementSize capacity)).alloc_alloc nofun nofun hnum hnum
  | createTrap handler =>
    cases handler with
    | none => exact hs
    | some handler =>
      have hlook := fun h => hs.table.lookup_alloc (.trap { handler := handler }) h
      refine ⟨(hs.table.alloc (.trap { handler := handler })).congr rfl rfl fun _ => Iff.rfl,
        fun h t ht => ?_, fun h o ho => ?_⟩
      · have ht' := (hlook h).symm.trans ht
        split at ht'
        · rename_i hh
          exact List.mem_append_right _ (List.mem_singleton.mpr hh)
        · exact List.mem_append_left _ (hs.listed h t ht')
      · have ho' := (hlook h).symm.trans ho
        have hpipes := alloc_pipeCount c (.trap { handler := handler })
        have hdata := alloc_dataPipeCount c (.trap { handler := handler })
        split at ho'
        · rw [← Option.some.inj ho']
          trivial
        · exact (hs.numbered h o ho').mono (Nat.le_of_eq hpipes.symm) (Nat.le_of_eq hdata.symm)
  | addTrigger t h signals condition context =>
    simp only [step, perform, addTrigger]
    split
    · rename_i tr _ htrap _
      exact hs.setObj htrap (fun _ _ => ⟨tr, rfl⟩) trivial
    · exact hs
  | removeTrigger t context =>
    simp only [step, perform, removeTrigger]
    split
    · rename_i tr htrap
      split
      · exact hs
      · have hpost : (c.post (c.cancelledEvent t tr context)).Sound :=
          hs.same rfl rfl rfl rfl rfl
        exact hpost.setObj htrap (fun _ _ => ⟨tr, rfl⟩) trivial
    · exact hs
  | armTrap t room wanted =>
    simp only [step, perform, armTrap]
    split
    · rename_i tr htrap
      split
      · exact hs.setObj htrap (fun _ _ => ⟨tr, rfl⟩) trivial
      · exact hs
    · exact hs
  | pumpEvents => exact hs.same rfl rfl rfl rfl rfl
  | close h =>
    rw [step, perform, close]
    split
    · exact hs
    · rename_i o hlive
      exact (hs.release hlive).collectTrapEvents

/-- **In every state of every run the handle table is well formed and every trap is listed.** -/
theorem sound_of_reaches {allowed : Core → Op → Prop}
    (h : Machine.Reaches ({} : Core) step allowed c) : c.Sound :=
  h.invariant sound_start fun _ op hs _ => sound_step hs op

end Core

end Voodoo.Whp
