import Mathlib.Logic.Relation
import Voodoo.Whp.Mapping

/-!
# Invitations

An invitation holds ends of message pipes under names.  Sent on a channel it waits there for
`MojoAcceptInvitation`, which makes a new invitation of it.  The channels are in-process ones.

`ThunkInvitation` has a destructor, that closes what it still holds, and `SentInvitation` has none:
one that is replaced on its channel drops its ends, open.  `MojoExtractMessagePipeFromInvitation`
does not ask whether the end has been sent.

* `orderly_of_reaches`: if neither happens, an end is extracted at most once, under its name and
  from an invitation it was sent to, and one that is never extracted is in an invitation or closed;
* `not_orderly_replaced_or_unsent`: what happens else.

Invitations are numbered as they are made, and an attached end is named by the number of its pipe.
-/

namespace Voodoo.Thunk

open Voodoo.Whp List Option Function

/-- An entry of `attached`. -/
structure Attached where
  name : List UInt8
  handle : Handle
  pipe : Nat

structure ThunkInvitation where
  attached : List Attached := []
  serial : Nat

structure SentInvitation where
  attached : List Attached
  /-- The invitation that was sent. -/
  sender : Nat

inductive Place where
  | invitation (handle : UInt32)
  | sent (channel : UInt64)
  | extracted
  | dropped
  deriving DecidableEq

/-- An end under a name in an invitation. -/
structure Entry where
  pipe : Nat
  name : List UInt8
  invitation : Nat
  deriving DecidableEq

inductive MojoResult where
  | ok | invalidArgument | alreadyExists | notFound

structure Registry where
  core : Core := {}
  /-- `g_invitations`. -/
  invitations : UInt32 → Option ThunkInvitation := fun _ => none
  /-- `g_sent_invitations`. -/
  sent : UInt64 → Option SentInvitation := fun _ => none
  nextInvitationHandle : UInt32 := 0xF0000000
  /-- How many invitations were made. -/
  serials : Nat := 0
  place : Nat → Option Place := fun _ => none
  attachments : List Entry := []
  sends : List (Nat × UInt64) := []
  accepts : List (Nat × UInt64 × Nat) := []
  extracted : List Entry := []

inductive InvitationOp where
  | create
  | attach (invitation : UInt32) (name : List UInt8)
  | extract (invitation : UInt32) (name : List UInt8)
  | send (invitation : UInt32) (channel : UInt64)
  | accept (channel : UInt64)
  | close (handle : UInt32)

namespace Registry

def kInvitationHandleBase : UInt32 := 0xF0000000

def moved (place : Nat → Option Place) (attached : List Attached) (p : Place) :
    Nat → Option Place :=
  fun i => if i ∈ attached.map (·.pipe) then some p else place i

/-- `~ThunkInvitation`. -/
def destroy (s : Registry) (invitation : ThunkInvitation) : Registry :=
  { s with
    core := invitation.attached.foldl (fun c a => (c.close a.handle).2) s.core
    place := moved s.place invitation.attached .dropped }

def erase (s : Registry) (h : UInt32) : Registry :=
  match s.invitations h with
  | some old => { s.destroy old with invitations := Function.update s.invitations h none }
  | none => s

/-- A new invitation under the next handle; what is there is destroyed. -/
def add (s : Registry) (attached : List Attached) : Registry :=
  let h := s.nextInvitationHandle
  let s := s.erase h
  { s with
    invitations := Function.update s.invitations h (some { attached, serial := s.serials })
    place := moved s.place attached (.invitation h)
    nextInvitationHandle := h + 1
    serials := s.serials + 1 }

/-- `MojoCreateInvitation`, with the handle it gives out, as the other functions. -/
def createInvitation (s : Registry) : MojoResult × Nat × Registry :=
  (.ok, s.nextInvitationHandle.toNat, s.add [])

/-- `MojoAttachMessagePipeToInvitation`. -/
def attachMessagePipe (s : Registry) (h : UInt32) (name : List UInt8) :
    MojoResult × Nat × Registry :=
  match s.invitations h with
  | none => (.invalidArgument, 0, s)
  | some inv =>
    if inv.attached.any (·.name = name) then (.alreadyExists, 0, s)
    else
      let (reply, core) := s.core.createMessagePipe
      let localEnd := reply.handles.headD 0
      let peer := reply.handles.getLastD 0
      let pipe := s.core.pipeCount
      (.ok, localEnd,
        { s with
          core
          invitations := Function.update s.invitations h
            (some { inv with attached := ⟨name, peer, pipe⟩ :: inv.attached })
          place := Function.update s.place pipe (some (.invitation h))
          attachments := ⟨pipe, name, inv.serial⟩ :: s.attachments })

/-- `MojoExtractMessagePipeFromInvitation`. -/
def extractMessagePipe (s : Registry) (h : UInt32) (name : List UInt8) :
    MojoResult × Nat × Registry :=
  match s.invitations h with
  | none => (.invalidArgument, 0, s)
  | some inv =>
    match inv.attached.find? (·.name = name) with
    | none => (.notFound, 0, s)
    | some a =>
      (.ok, a.handle,
        { s with
          invitations := Function.update s.invitations h
            (some { inv with attached := inv.attached.filter (·.name ≠ name) })
          place := Function.update s.place a.pipe (some .extracted)
          extracted := ⟨a.pipe, name, inv.serial⟩ :: s.extracted })

/-- The ends of the invitation that waits on the channel are let go of. -/
def forget (s : Registry) (channel : UInt64) : Registry :=
  match s.sent channel with
  | some old => { s with place := moved s.place old.attached .dropped }
  | none => s

/-- `MojoSendInvitation`. -/
def sendInvitation (s : Registry) (h : UInt32) (channel : UInt64) : MojoResult × Nat × Registry :=
  match s.invitations h with
  | none => (.invalidArgument, 0, s)
  | some inv =>
    let s := s.forget channel
    (.ok, 0,
      { s with
        sent := Function.update s.sent channel
          (some { attached := inv.attached, sender := inv.serial })
        invitations := Function.update s.invitations h none
        place := moved s.place inv.attached (.sent channel)
        sends := (inv.serial, channel) :: s.sends })

/-- `MojoAcceptInvitation`. -/
def acceptInvitation (s : Registry) (channel : UInt64) : MojoResult × Nat × Registry :=
  match s.sent channel with
  | none => (.notFound, 0, s)
  | some inv =>
    (.ok, s.nextInvitationHandle.toNat,
      { s.add inv.attached with
        sent := Function.update s.sent channel none
        accepts := (inv.sender, channel, s.serials) :: s.accepts })

/-- `MojoClose`. -/
def close (s : Registry) (h : UInt32) : MojoResult × Nat × Registry :=
  if kInvitationHandleBase ≤ h then
    (if (s.invitations h).isSome then .ok else .invalidArgument, 0, s.erase h)
  else
    let (reply, core) := s.core.close h.toNat
    (if reply.result = .ok then .ok else .invalidArgument, 0, { s with core })

def perform (s : Registry) : InvitationOp → MojoResult × Nat × Registry
  | .create => s.createInvitation
  | .attach h name => s.attachMessagePipe h name
  | .extract h name => s.extractMessagePipe h name
  | .send h channel => s.sendInvitation h channel
  | .accept channel => s.acceptInvitation channel
  | .close h => s.close h

def step (s : Registry) (op : InvitationOp) : Registry := (s.perform op).2.2

/-! ### What is promised -/

/-- Sent, and accepted. -/
def Passed (s : Registry) (k k' : Nat) : Prop := ∃ channel, (k, channel, k') ∈ s.accepts

structure Orderly (s : Registry) : Prop where
  once : (s.extracted.map (·.pipe)).Nodup
  /-- An extracted end was attached under that name, and it came with the invitation. -/
  origin : ∀ x ∈ s.extracted, ∃ k, (⟨x.pipe, x.name, k⟩ : Entry) ∈ s.attachments ∧
    Relation.TransGen s.Passed k x.invitation
  channel : ∀ k channel k', (k, channel, k') ∈ s.accepts → (k, channel) ∈ s.sends
  /-- An attached end that is not extracted is in an invitation, or waits, or is closed. -/
  closed : ∀ e ∈ s.attachments, e.pipe ∉ s.extracted.map (·.pipe) →
    (∃ h inv, s.invitations h = some inv ∧ e.pipe ∈ inv.attached.map (·.pipe)) ∨
      (∃ channel inv, s.sent channel = some inv ∧ e.pipe ∈ inv.attached.map (·.pipe)) ∨
      (s.core.pipes e.pipe).closed true = true

/-- No invitation is sent on a channel where ends wait, and no end extracted from the invitation it
was attached to. -/
def Careful (s : Registry) : InvitationOp → Prop
  | .send h channel => s.invitations h ≠ none → ∀ inv, s.sent channel = some inv → inv.attached = []
  | .extract h name => ∀ inv a, s.invitations h = some inv →
    inv.attached.find? (·.name = name) = some a →
    (⟨a.pipe, name, inv.serial⟩ : Entry) ∉ s.attachments
  | _ => True

/-! ### Closing -/

variable {c c' : Core} {s s' : Registry} {a : Attached} {attached : List Attached} {k k' : Nat}
  {p q : Place}

/-- The end is under its handle, or it is closed. -/
def Live (c : Core) (a : Attached) : Prop :=
  (c.pipes a.pipe).closed true = true ∨ c.lookup a.handle = some (.messagePipe ⟨a.pipe, true⟩)

/-- A core without traps goes on: ends stay live, and closed ones closed. -/
structure Goes (c c' : Core) : Prop where
  table : c'.Table
  traps : c'.traps = []
  pipeCount : c.pipeCount ≤ c'.pipeCount
  live : ∀ a, a.pipe < c.pipeCount → Live c a → Live c' a
  closed : ∀ i side, i < c.pipeCount → (c.pipes i).closed side = true →
    (c'.pipes i).closed side = true

theorem Goes.refl (ht : c.Table) (htraps : c.traps = []) : Goes c c :=
  ⟨ht, htraps, Nat.le_refl _, fun _ _ => id, fun _ _ _ => id⟩

theorem Goes.trans {c'' : Core} (h : Goes c c') (h' : Goes c' c'') : Goes c c'' where
  table := h'.table
  traps := h'.traps
  pipeCount := Nat.le_trans h.pipeCount h'.pipeCount
  live a ha hlive := h'.live a (Nat.lt_of_lt_of_le ha h.pipeCount) (h.live a ha hlive)
  closed i side hi hclosed := h'.closed i side (Nat.lt_of_lt_of_le hi h.pipeCount)
    (h.closed i side hi hclosed)

theorem collectTrapEvents_of_traps (htraps : c.traps = []) : c.collectTrapEvents = c := by
  rw [Core.collectTrapEvents, htraps, foldl_nil]

theorem closed_release (c : Core) (h : Handle) (o : Obj) {i : Nat} {side : Bool}
    (hclosed : (c.pipes i).closed side = true) : ((c.release h o).pipes i).closed side = true := by
  cases o with
  | messagePipe e =>
    dsimp only [Core.release]
    by_cases hi : i = e.state
    · subst hi
      rw [Core.setPipe_self]
      show Function.update (c.pipes e.state).closed e.side true side = true
      by_cases hside : side = e.side
      · rw [hside, update_self]
      · rw [update_of_ne hside, hclosed]
    · rw [Core.setPipe_of_ne c _ hi, hclosed]
  | message m => exact hclosed
  | trap t => exact hclosed
  | dataPipeProducer j => exact hclosed
  | dataPipeConsumer j => exact hclosed
  | sharedBuffer j => exact hclosed
  | platform p => exact hclosed

theorem closed_close {e : PipeEnd} {h : Handle} (htraps : c.traps = [])
    (hl : c.lookup h = some (.messagePipe e)) :
    ((c.close h).2.pipes e.state).closed e.side = true := by
  have htraps' : ((c.release h (.messagePipe e)).free h).traps = [] := by
    rw [Core.free_traps]
    exact htraps
  unfold Core.close
  rw [hl]
  dsimp only
  rw [collectTrapEvents_of_traps htraps', Core.free_pipes]
  dsimp only [Core.release]
  rw [Core.setPipe_self]
  exact update_self ..

theorem goes_close (ht : c.Table) (htraps : c.traps = []) (h : Handle) : Goes c (c.close h).2 := by
  cases hl : c.lookup h with
  | none =>
    unfold Core.close
    rw [hl]
    exact .refl ht htraps
  | some o =>
    have hrel (g : Handle) : (c.release h o).lookup g = c.lookup g := by
      rw [Core.lookup, Core.release_slots, Core.lookup]
    have htrel : (c.release h o).Table := by
      refine ht.congr (by rw [Core.release_slots]) (Core.release_freeList c h o) fun g => ?_
      rw [hrel g]
    have htraps' : ((c.release h o).free h).traps = [] := by
      rw [Core.free_traps]
      cases o with
      | trap t =>
        show c.traps.filter _ = []
        rw [htraps, filter_nil]
      | _ => exact htraps
    have heq : (c.close h).2 = (c.release h o).free h := by
      unfold Core.close
      rw [hl]
      exact collectTrapEvents_of_traps htraps'
    have hclosed (i : Nat) (side : Bool) (hclosed : (c.pipes i).closed side = true) :
        ((c.close h).2.pipes i).closed side = true := by
      rw [heq, Core.free_pipes]
      exact closed_release c h o hclosed
    refine ⟨?_, ?_, ?_, fun a _ hlive => ?_, fun i side _ => hclosed i side⟩
    · rw [heq]
      exact htrel.free ((hrel h).trans hl)
    · rw [heq, htraps']
    · rw [heq, Core.free_pipeCount]
      cases o <;> exact Nat.le_refl _
    · rcases hlive with hlive | hlive
      · exact .inl (hclosed _ _ hlive)
      · by_cases hah : a.handle = h
        · exact .inl (closed_close htraps (hah ▸ hlive))
        · right
          rw [heq, Core.lookup_free, if_neg hah, hrel, hlive]

theorem goes_closeAll (ht : c.Table) (htraps : c.traps = [])
    (hpipes : ∀ a ∈ attached, a.pipe < c.pipeCount ∧ Live c a) :
    Goes c (attached.foldl (fun c a => (c.close a.handle).2) c) ∧
      ∀ a ∈ attached, ((attached.foldl (fun c a => (c.close a.handle).2) c).pipes a.pipe).closed
        true = true := by
  induction attached generalizing c with
  | nil => exact ⟨.refl ht htraps, nofun⟩
  | cons a rest ih =>
    have hcl := goes_close ht htraps a.handle
    obtain ⟨hgoes, hclosed⟩ := ih hcl.table hcl.traps fun b hb => by
      obtain ⟨hlt, hlive⟩ := hpipes b (mem_cons_of_mem a hb)
      exact ⟨Nat.lt_of_lt_of_le hlt hcl.pipeCount, hcl.live b hlt hlive⟩
    refine ⟨hcl.trans hgoes, fun b hb => ?_⟩
    rcases mem_cons.mp hb with rfl | hb
    · obtain ⟨hlt, hlive⟩ := hpipes b mem_cons_self
      refine hgoes.closed _ _ (Nat.lt_of_lt_of_le hlt hcl.pipeCount) ?_
      rcases hlive with hlive | hlive
      · exact hcl.closed _ _ hlt hlive
      · exact closed_close htraps hlive
    · exact hclosed b hb

theorem goes_createMessagePipe (ht : c.Table) (htraps : c.traps = []) :
    Goes c c.createMessagePipe.2 := by
  have ht' : (c.newPipe {}).Table := ⟨ht.length_pos, ht.nodup, ht.mem_iff⟩
  have hpipes (i : Nat) (hi : i < c.pipeCount) : c.createMessagePipe.2.pipes i = c.pipes i := by
    unfold Core.createMessagePipe
    dsimp only
    rw [Core.alloc_pipes, Core.alloc_pipes]
    exact Core.setPipe_of_ne c {} (Nat.ne_of_lt hi)
  refine ⟨(ht'.alloc _).alloc _, ?_, ?_, fun a ha hlive => ?_, fun i side hi hclosed => ?_⟩
  · unfold Core.createMessagePipe
    dsimp only
    rw [Core.alloc_traps, Core.alloc_traps]
    exact htraps
  · unfold Core.createMessagePipe
    dsimp only
    rw [Core.alloc_pipeCount, Core.alloc_pipeCount]
    exact Nat.le_succ _
  · rcases hlive with hlive | hlive
    · left
      rw [hpipes _ ha, hlive]
    · right
      obtain ⟨hfst, hsnd, -⟩ := ht'.lookup_nextHandles
      refine (ht'.lookup_alloc_alloc _ _ a.handle).trans ?_
      rw [if_neg, if_neg]
      · exact hlive
      · rintro heq
        rw [← heq] at hfst
        exact absurd (hfst.symm.trans hlive) nofun
      · rintro heq
        rw [← heq] at hsnd
        exact absurd (hsnd.symm.trans hlive) nofun
  · rw [hpipes i hi, hclosed]

theorem live_createMessagePipe (ht : c.Table) (name : List UInt8) :
    Live c.createMessagePipe.2 ⟨name, c.createMessagePipe.1.handles.getLastD 0, c.pipeCount⟩ := by
  have ht' : (c.newPipe {}).Table := ⟨ht.length_pos, ht.nodup, ht.mem_iff⟩
  right
  refine (ht'.lookup_alloc_alloc _ _ _).trans (if_pos ?_)
  exact Core.nextHandle_alloc _ _

/-! ### Who has an end -/

/-- Who sent or made the invitation there, and its ends. -/
def holder (s : Registry) : Place → Option (Nat × List Attached)
  | .invitation h => (s.invitations h).map fun inv => (inv.serial, inv.attached)
  | .sent channel => (s.sent channel).map fun inv => (inv.sender, inv.attached)
  | _ => none

/-- The end is there. -/
def Has (s : Registry) (i : Nat) : Place → Prop
  | .extracted => i ∈ s.extracted.map (·.pipe)
  | .dropped => (s.core.pipes i).closed true = true
  | p => ∃ k attached, s.holder p = some (k, attached) ∧ i ∈ attached.map (·.pipe)

/-- The ends an invitation has. -/
structure Holds (s : Registry) (p : Place) (k : Nat) (attached : List Attached) : Prop where
  pipes : (attached.map (·.pipe)).Nodup
  names : (attached.map (·.name)).Nodup
  place : ∀ a ∈ attached, s.place a.pipe = some p
  live : ∀ a ∈ attached, Live s.core a
  origin : ∀ a ∈ attached, ∃ k₀, (⟨a.pipe, a.name, k₀⟩ : Entry) ∈ s.attachments ∧
    Relation.ReflTransGen s.Passed k₀ k

structure Held (s : Registry) : Prop where
  core : Goes s.core s.core
  fresh : ∀ i, s.core.pipeCount ≤ i → s.place i = none
  holds : ∀ p k attached, s.holder p = some (k, attached) → Holds s p k attached
  has : ∀ i p, s.place i = some p → s.Has i p
  attached : ∀ e ∈ s.attachments, s.place e.pipe ≠ none
  extracted : ∀ x ∈ s.extracted, s.place x.pipe = some .extracted
  once : (s.extracted.map (·.pipe)).Nodup
  origin : ∀ x ∈ s.extracted, ∃ k, (⟨x.pipe, x.name, k⟩ : Entry) ∈ s.attachments ∧
    Relation.TransGen s.Passed k x.invitation

theorem holder_invitation {h : UInt32} {inv : ThunkInvitation} (hinv : s.invitations h = some inv) :
    s.holder (.invitation h) = some (inv.serial, inv.attached) := by
  rw [holder, hinv]
  rfl

theorem holder_sent {channel : UInt64} {inv : SentInvitation} (hinv : s.sent channel = some inv) :
    s.holder (.sent channel) = some (inv.sender, inv.attached) := by
  rw [holder, hinv]
  rfl

theorem holder_congr (hinv : ∀ h, p = .invitation h → s'.invitations h = s.invitations h)
    (hsent : ∀ channel, p = .sent channel → s'.sent channel = s.sent channel) :
    s'.holder p = s.holder p := by
  cases p with
  | invitation h => rw [holder, holder, hinv h rfl]
  | sent channel => rw [holder, holder, hsent channel rfl]
  | extracted => rfl
  | dropped => rfl

theorem holder_of_ne {h : UInt32} {v : Option ThunkInvitation}
    (hinv : s'.invitations = Function.update s.invitations h v) (hp : p ≠ .invitation h)
    (hsent : ∀ channel, p = .sent channel → s'.sent channel = s.sent channel) :
    s'.holder p = s.holder p := by
  refine holder_congr (fun h' hr => ?_) hsent
  rw [hinv]
  exact update_of_ne (fun heq => hp (hr.trans (congrArg Place.invitation heq))) ..

theorem has_of_holder (h : s.holder p = some (k, attached)) {i : Nat} :
    s.Has i p ↔ i ∈ attached.map (·.pipe) := by
  have hiff : (∃ k attached, s.holder p = some (k, attached) ∧ i ∈ attached.map (·.pipe)) ↔
      i ∈ attached.map (·.pipe) := by
    refine ⟨fun ⟨k', attached', h', hi⟩ => ?_, fun hi => ⟨k, attached, h, hi⟩⟩
    cases h.symm.trans h'
    exact hi
  cases p with
  | invitation handle => exact hiff
  | sent channel => exact hiff
  | extracted => cases h
  | dropped => cases h

theorem Held.elsewhere (hs : Held s) (h : s.holder p = some (k, attached)) (hne : q ≠ p) {i : Nat}
    (hi : s.place i = some q) : i ∉ attached.map (·.pipe) := by
  intro hmem
  obtain ⟨a, ha, rfl⟩ := List.mem_map.mp hmem
  exact hne (some.inj (hi.symm.trans ((hs.holds p k attached h).place a ha)))

theorem Held.lt (hs : Held s) {i : Nat} (hi : s.place i ≠ none) : i < s.core.pipeCount :=
  Nat.lt_of_not_le fun hle => hi (hs.fresh i hle)

theorem Held.lt_of_holder (hs : Held s) (h : s.holder p = some (k, attached)) (ha : a ∈ attached) :
    a.pipe < s.core.pipeCount := by
  refine hs.lt ?_
  rw [(hs.holds p k attached h).place a ha]
  exact some_ne_none p

theorem passed_mono (haccepts : ∀ x ∈ s.accepts, x ∈ s'.accepts) (k k' : Nat) (h : s.Passed k k') :
    s'.Passed k k' := by
  obtain ⟨channel, hx⟩ := h
  exact ⟨channel, haccepts _ hx⟩

theorem Has.kept {i : Nat} (h : s.Has i p) (hholder : s'.holder p = s.holder p)
    (hextracted : ∀ x ∈ s.extracted, x ∈ s'.extracted)
    (hclosed : (s.core.pipes i).closed true = true → (s'.core.pipes i).closed true = true) :
    s'.Has i p := by
  have hiff (h : ∃ k attached, s.holder p = some (k, attached) ∧ i ∈ attached.map (·.pipe)) :
      ∃ k attached, s'.holder p = some (k, attached) ∧ i ∈ attached.map (·.pipe) := by
    rw [hholder]
    exact h
  cases p with
  | invitation handle => exact hiff h
  | sent channel => exact hiff h
  | extracted =>
    obtain ⟨x, hx, rfl⟩ := List.mem_map.mp h
    exact List.mem_map.mpr ⟨x, hextracted x hx, rfl⟩
  | dropped => exact hclosed h

theorem Holds.kept (h : Holds s p k attached)
    (hplace : ∀ a ∈ attached, s'.place a.pipe = s.place a.pipe)
    (hlive : ∀ a ∈ attached, Live s.core a → Live s'.core a)
    (hattachments : ∀ e ∈ s.attachments, e ∈ s'.attachments)
    (haccepts : ∀ x ∈ s.accepts, x ∈ s'.accepts) : Holds s' p k attached where
  pipes := h.pipes
  names := h.names
  place a ha := (hplace a ha).trans (h.place a ha)
  live a ha := hlive a ha (h.live a ha)
  origin a ha := by
    obtain ⟨k₀, he, hpassed⟩ := h.origin a ha
    exact ⟨k₀, hattachments _ he, Relation.ReflTransGen.mono (passed_mono haccepts) _ _ hpassed⟩

/-! ### From place to place -/

/-- All ends of an invitation change their place. -/
structure Moves (s s' : Registry) (p q : Place) (k : Nat) (attached : List Attached) : Prop where
  source : s.holder p = some (k, attached)
  ne : q ≠ p
  empty : ∀ k' attached', s.holder q = some (k', attached') → attached' = []
  core : s'.core = s.core
  attachments : s'.attachments = s.attachments
  extracted : s'.extracted = s.extracted
  accepts : ∀ x ∈ s.accepts, x ∈ s'.accepts
  place : s'.place = moved s.place attached q
  has : ∀ i ∈ attached.map (·.pipe), s'.Has i q
  gone : s'.holder p = none
  held : ∀ k' attached', s'.holder q = some (k', attached') →
    attached' = attached ∧ Relation.ReflTransGen s'.Passed k k'
  rest : ∀ r, r ≠ p → r ≠ q → s'.holder r = s.holder r

theorem held_moves (hs : Held s) (hm : Moves s s' p q k attached) : Held s' where
  core := hm.core ▸ hs.core
  fresh i hi := by
    rw [hm.core] at hi
    rw [hm.place, moved, if_neg]
    · exact hs.fresh i hi
    · intro hmem
      obtain ⟨a, ha, rfl⟩ := List.mem_map.mp hmem
      exact Nat.not_lt.mpr hi (hs.lt_of_holder hm.source ha)
  holds r k' attached' hr := by
    by_cases hrp : r = p
    · rw [hrp, hm.gone] at hr
      cases hr
    by_cases hrq : r = q
    · subst hrq
      obtain ⟨rfl, hpassed⟩ := hm.held k' attached' hr
      have hold := hs.holds p k attached' hm.source
      refine ⟨hold.pipes, hold.names, fun a ha => ?_, fun a ha => ?_, fun a ha => ?_⟩
      · rw [hm.place, moved, if_pos (List.mem_map_of_mem ha)]
      · rw [hm.core]
        exact hold.live a ha
      · obtain ⟨k₀, he, hold⟩ := hold.origin a ha
        rw [hm.attachments]
        exact ⟨k₀, he, (Relation.ReflTransGen.mono (passed_mono hm.accepts) _ _ hold).trans hpassed⟩
    · rw [hm.rest r hrp hrq] at hr
      have hold := hs.holds r k' attached' hr
      refine hold.kept (fun a ha => ?_) (fun a _ => ?_) ?_ hm.accepts
      · rw [hm.place, moved, if_neg (hs.elsewhere hm.source hrp (hold.place a ha))]
      · rw [hm.core]
        exact id
      · rw [hm.attachments]
        exact fun _ => id
  has i r hi := by
    rw [hm.place, moved] at hi
    by_cases hmem : i ∈ attached.map (·.pipe)
    · rw [if_pos hmem] at hi
      cases hi
      exact hm.has i hmem
    · rw [if_neg hmem] at hi
      have hhas := hs.has i r hi
      by_cases hrp : r = p
      · subst hrp
        exact absurd ((has_of_holder hm.source).mp hhas) hmem
      by_cases hrq : r = q
      · subst hrq
        cases r with
        | invitation handle =>
          obtain ⟨k', attached', hholder, hi⟩ := hhas
          rw [hm.empty k' attached' hholder] at hi
          cases hi
        | sent channel =>
          obtain ⟨k', attached', hholder, hi⟩ := hhas
          rw [hm.empty k' attached' hholder] at hi
          cases hi
        | extracted => exact hhas.kept rfl (hm.extracted ▸ fun _ => id) (hm.core ▸ id)
        | dropped => exact hhas.kept rfl (hm.extracted ▸ fun _ => id) (hm.core ▸ id)
      · exact hhas.kept (hm.rest r hrp hrq) (hm.extracted ▸ fun _ => id) (hm.core ▸ id)
  attached e he := by
    rw [hm.attachments] at he
    rw [hm.place, moved]
    split
    · exact some_ne_none q
    · exact hs.attached e he
  extracted x hx := by
    rw [hm.extracted] at hx
    have hplace := hs.extracted x hx
    have hne : Place.extracted ≠ p := by
      rintro rfl
      cases hm.source
    rw [hm.place, moved, if_neg (hs.elsewhere hm.source hne hplace), hplace]
  once := hm.extracted ▸ hs.once
  origin x hx := by
    rw [hm.extracted] at hx
    obtain ⟨k₀, he, hpassed⟩ := hs.origin x hx
    rw [hm.attachments]
    exact ⟨k₀, he, Relation.TransGen.mono (passed_mono hm.accepts) _ _ hpassed⟩

/-- One end changes its place, and one invitation its ends. -/
structure Changes (s s' : Registry) (h : UInt32) (i : Nat) (q : Place) (k : Nat)
    (attached attached' : List Attached) : Prop where
  source : s.holder (.invitation h) = some (k, attached)
  target : s'.holder (.invitation h) = some (k, attached')
  rest : ∀ r, r ≠ .invitation h → s'.holder r = s.holder r
  core : Goes s.core s'.core
  bound : i < s'.core.pipeCount
  place : s'.place = Function.update s.place i (some q)
  leaves : ∀ r, r ≠ .invitation h → s.place i ≠ some r
  keeps : ∀ j ∈ attached.map (·.pipe), j ≠ i → j ∈ attached'.map (·.pipe)
  attachments : ∀ e ∈ s.attachments, e ∈ s'.attachments
  extracted : ∀ x ∈ s.extracted, x ∈ s'.extracted
  accepts : s'.accepts = s.accepts
  holds : Holds s' (.invitation h) k attached'
  has : s'.Has i q

theorem held_changes {h : UInt32} {i : Nat} {attached' : List Attached} (hs : Held s)
    (hc : Changes s s' h i q k attached attached')
    (hattached : ∀ e ∈ s'.attachments, e ∈ s.attachments ∨ e.pipe = i)
    (hextracted : ∀ x ∈ s'.extracted, x ∈ s.extracted ∨ x.pipe = i ∧ q = .extracted)
    (honce : (s'.extracted.map (·.pipe)).Nodup)
    (horigin : ∀ x ∈ s'.extracted, ∃ k, (⟨x.pipe, x.name, k⟩ : Entry) ∈ s'.attachments ∧
      Relation.TransGen s'.Passed k x.invitation) : Held s' := by
  have helsewhere {j : Nat} {r : Place} (hr : r ≠ .invitation h) (hj : s.place j = some r) :
      s'.place j = s.place j := by
    rw [hc.place]
    refine update_of_ne ?_ ..
    rintro rfl
    exact hc.leaves r hr hj
  refine ⟨.refl hc.core.table hc.core.traps, fun j hj => ?_, fun r k' attached₁ hr => ?_,
    fun j r hj => ?_, fun e he => ?_, fun x hx => ?_, honce, horigin⟩
  · rw [hc.place, update_of_ne (Nat.ne_of_lt (Nat.lt_of_lt_of_le hc.bound hj)).symm]
    exact hs.fresh j (Nat.le_trans hc.core.pipeCount hj)
  · by_cases hrh : r = .invitation h
    · subst hrh
      cases hc.target.symm.trans hr
      exact hc.holds
    · rw [hc.rest r hrh] at hr
      have hthere := hs.holds r k' attached₁ hr
      exact hthere.kept (fun a ha => helsewhere hrh (hthere.place a ha))
        (fun a ha => hc.core.live a (hs.lt_of_holder hr ha)) hc.attachments
        (hc.accepts ▸ fun _ => id)
  · rw [hc.place] at hj
    by_cases hji : j = i
    · subst hji
      cases (update_self ..).symm.trans hj
      exact hc.has
    · rw [update_of_ne hji] at hj
      have hhas := hs.has j r hj
      by_cases hrh : r = .invitation h
      · subst hrh
        exact (has_of_holder hc.target).mpr (hc.keeps j ((has_of_holder hc.source).mp hhas) hji)
      · refine hhas.kept (hc.rest r hrh) hc.extracted (hc.core.closed j true (hs.lt ?_))
        rw [hj]
        exact some_ne_none r
  · by_cases hei : e.pipe = i
    · rw [hc.place, hei, update_self]
      exact some_ne_none q
    · rw [hc.place, update_of_ne hei]
      exact hs.attached e ((hattached e he).resolve_right hei)
  · rcases hextracted x hx with hold | ⟨hxi, rfl⟩
    · have hne : Place.extracted ≠ .invitation h := nofun
      exact (helsewhere hne (hs.extracted x hold)).trans (hs.extracted x hold)
    · rw [hc.place, hxi, update_self]

theorem held_core (hs : Held s) (hcore : Goes s.core c) : Held { s with core := c } where
  core := .refl hcore.table hcore.traps
  fresh i hi := hs.fresh i (Nat.le_trans hcore.pipeCount hi)
  holds p k attached h := by
    refine (hs.holds p k attached h).kept (fun _ _ => rfl) (fun a ha => ?_)
      (fun _ => id) fun _ => id
    exact hcore.live a (hs.lt_of_holder h ha)
  has i p hi := by
    refine (hs.has i p hi).kept rfl (fun _ => id) (hcore.closed i true (hs.lt ?_))
    rw [hi]
    exact some_ne_none p
  attached := hs.attached
  extracted := hs.extracted
  once := hs.once
  origin := hs.origin

theorem held_erase (hs : Held s) (h : UInt32) : Held (s.erase h) := by
  cases hinv : s.invitations h with
  | none =>
    rw [erase, hinv]
    exact hs
  | some inv =>
    have hsource := holder_invitation hinv
    obtain ⟨hgoes, hclosed⟩ := goes_closeAll hs.core.table hs.core.traps fun a ha =>
      ⟨hs.lt_of_holder hsource ha, (hs.holds _ _ _ hsource).live a ha⟩
    rw [erase, hinv]
    refine held_moves (held_core hs hgoes)
      (?_ : Moves _ _ (.invitation h) .dropped inv.serial inv.attached)
    refine ⟨hsource, nofun, nofun, rfl, rfl, rfl, fun _ => id, rfl, fun i hi => ?_, ?_, nofun,
      fun r hr _ => ?_⟩
    · obtain ⟨a, ha, rfl⟩ := List.mem_map.mp hi
      exact hclosed a ha
    · show Option.map _ (Function.update s.invitations h none h) = none
      rw [update_self]
      rfl
    · exact holder_of_ne rfl hr fun _ _ => rfl

theorem erase_self (s : Registry) (h : UInt32) : (s.erase h).invitations h = none := by
  unfold erase
  split
  · exact update_self ..
  · assumption

theorem erase_sent (s : Registry) (h : UInt32) : (s.erase h).sent = s.sent := by
  unfold erase
  split <;> rfl

theorem erase_sends (s : Registry) (h : UInt32) : (s.erase h).sends = s.sends := by
  unfold erase
  split <;> rfl

theorem erase_accepts (s : Registry) (h : UInt32) : (s.erase h).accepts = s.accepts := by
  unfold erase
  split <;> rfl

theorem moved_nil (place : Nat → Option Place) (p : Place) : moved place [] p = place := by
  funext i
  exact if_neg not_mem_nil

/-! ### The functions -/

theorem held_createInvitation (hs : Held s) : Held s.createInvitation.2.2 := by
  have ht := held_erase hs s.nextInvitationHandle
  have hnone := erase_self s s.nextInvitationHandle
  show Held (s.add [])
  unfold add
  dsimp only
  rw [moved_nil]
  generalize s.erase s.nextInvitationHandle = t at ht hnone
  generalize s.nextInvitationHandle = h at hnone
  have hself (p : Place) (hp : p = .invitation h) : t.holder p = none := by
    rw [hp, holder, hnone]
    rfl
  have hrest (p : Place) (hp : p ≠ .invitation h) : ({ t with
      invitations := Function.update t.invitations h (some { attached := [], serial := t.serials })
      nextInvitationHandle := h + 1
      serials := t.serials + 1 } : Registry).holder p = t.holder p :=
    holder_of_ne rfl hp fun _ _ => rfl
  refine ⟨ht.core, ht.fresh, fun p k attached hp => ?_, fun i p hi => ?_, ht.attached, ht.extracted,
    ht.once, ht.origin⟩
  · by_cases hph : p = .invitation h
    · subst hph
      rw [holder_invitation (update_self ..)] at hp
      cases hp
      exact ⟨nodup_nil, nodup_nil, nofun, nofun, nofun⟩
    · rw [hrest p hph] at hp
      exact (ht.holds p k attached hp).kept (fun _ _ => rfl) (fun _ _ => id)
        (fun _ => id) fun _ => id
  · have hhas := ht.has i p hi
    by_cases hph : p = .invitation h
    · subst hph
      obtain ⟨k, attached, hholder, -⟩ := hhas
      rw [hself _ rfl] at hholder
      cases hholder
    · exact hhas.kept (hrest p hph) (fun _ => id) id

theorem held_acceptInvitation (hs : Held s) (channel : UInt64) :
    Held (s.acceptInvitation channel).2.2 := by
  unfold acceptInvitation
  cases hinv : s.sent channel with
  | none => exact hs
  | some inv =>
    have ht := held_erase hs s.nextInvitationHandle
    have hnone := erase_self s s.nextInvitationHandle
    have hsent : (s.erase s.nextInvitationHandle).sent channel = some inv := by
      rw [erase_sent, hinv]
    have haccepts := erase_accepts s s.nextInvitationHandle
    have hserials : (s.erase s.nextInvitationHandle).serials = s.serials := by
      unfold erase
      split <;> rfl
    dsimp only
    unfold add
    dsimp only
    rw [← erase_sent s s.nextInvitationHandle, ← haccepts, ← hserials]
    generalize s.erase s.nextInvitationHandle = t at *
    generalize s.nextInvitationHandle = h at *
    refine held_moves ht (?_ : Moves _ _ (.sent channel) (.invitation h) inv.sender inv.attached)
    refine ⟨?_, nofun, ?_, rfl, rfl, rfl, fun _ => mem_cons_of_mem _, rfl, ?_, ?_, ?_, ?_⟩
    · exact holder_sent hsent
    · intro k' attached' hk
      rw [holder, hnone] at hk
      cases hk
    · intro i hi
      exact ⟨_, _, holder_invitation (update_self ..), hi⟩
    · show Option.map _ (Function.update t.sent channel none channel) = none
      rw [update_self]
      rfl
    · intro k' attached' hk
      rw [holder_invitation (update_self ..)] at hk
      cases hk
      exact ⟨rfl, .single ⟨channel, mem_cons_self⟩⟩
    · intro r hrp hrq
      refine holder_of_ne rfl hrq fun channel' hr => ?_
      exact update_of_ne (fun heq => hrp (hr.trans (congrArg Place.sent heq))) ..

theorem forget_of_empty {channel : UInt64}
    (h : ∀ inv, s.sent channel = some inv → inv.attached = []) :
    s.forget channel = s := by
  unfold forget
  split
  · rename_i inv hinv
    rw [h inv hinv, moved_nil]
  · rfl

theorem held_sendInvitation (hs : Held s) (h : UInt32) (channel : UInt64)
    (hok : s.Careful (.send h channel)) : Held (s.sendInvitation h channel).2.2 := by
  unfold sendInvitation
  cases hinv : s.invitations h with
  | none => exact hs
  | some inv =>
    have hempty := hok (hinv ▸ some_ne_none inv)
    dsimp only
    rw [forget_of_empty hempty]
    refine held_moves hs (?_ : Moves _ _ (.invitation h) (.sent channel) inv.serial inv.attached)
    refine ⟨holder_invitation hinv, nofun, ?_, rfl, rfl, rfl, fun _ => id, rfl, ?_, ?_, ?_, ?_⟩
    · intro k' attached' hk
      cases hsent : s.sent channel with
      | none =>
        rw [holder, hsent] at hk
        cases hk
      | some old =>
        rw [holder_sent hsent] at hk
        cases hk
        exact hempty old hsent
    · intro i hi
      exact ⟨_, _, holder_sent (update_self ..), hi⟩
    · show Option.map _ (Function.update s.invitations h none h) = none
      rw [update_self]
      rfl
    · intro k' attached' hk
      rw [holder_sent (update_self ..)] at hk
      cases hk
      exact ⟨rfl, .refl⟩
    · intro r hrp hrq
      refine holder_of_ne rfl hrp fun channel' hr => ?_
      exact update_of_ne (fun heq => hrq (hr.trans (congrArg Place.sent heq))) ..

theorem held_close (hs : Held s) (h : UInt32) : Held (s.close h).2.2 := by
  unfold close
  split
  · exact held_erase hs h
  · exact held_core hs (goes_close hs.core.table hs.core.traps h.toNat)

theorem held_attachMessagePipe (hs : Held s) (h : UInt32) (name : List UInt8) :
    Held (s.attachMessagePipe h name).2.2 := by
  unfold attachMessagePipe
  cases hinv : s.invitations h with
  | none => exact hs
  | some inv =>
    dsimp only
    split
    · exact hs
    rename_i hname
    have hgoes := goes_createMessagePipe hs.core.table hs.core.traps
    have hlive := live_createMessagePipe hs.core.table name
    have hcount : s.core.createMessagePipe.2.pipeCount = s.core.pipeCount + 1 := by
      unfold Core.createMessagePipe
      dsimp only
      rw [Core.alloc_pipeCount, Core.alloc_pipeCount]
      rfl
    have hsource := holder_invitation hinv
    have hold := hs.holds _ _ _ hsource
    have hne {a : Attached} (ha : a ∈ inv.attached) : a.pipe ≠ s.core.pipeCount :=
      Nat.ne_of_lt (hs.lt_of_holder hsource ha)
    refine held_changes hs (?_ : Changes _ _ h s.core.pipeCount (.invitation h) inv.serial
      inv.attached (⟨name, s.core.createMessagePipe.1.handles.getLastD 0, s.core.pipeCount⟩ ::
        inv.attached)) (fun e he => ?_) (fun x hx => .inl hx) hs.once fun x hx => ?_
    · refine ⟨hsource, ?_, fun r hr => ?_, hgoes, ?_, rfl, fun r _ => ?_,
        fun j hj _ => mem_cons_of_mem _ hj, fun _ => mem_cons_of_mem _, fun _ => id, rfl,
        ⟨?_, ?_, fun a ha => ?_, fun a ha => ?_, fun a ha => ?_⟩, ?_⟩
      · show Option.map _ (Function.update s.invitations h _ h) = _
        rw [update_self]
        rfl
      · exact holder_of_ne rfl hr fun _ _ => rfl
      · exact hcount ▸ Nat.lt_succ_self _
      · rw [hs.fresh _ (Nat.le_refl _)]
        nofun
      · refine nodup_cons.mpr ⟨fun hmem => ?_, hold.pipes⟩
        obtain ⟨a, ha, heq⟩ := List.mem_map.mp hmem
        exact hne ha heq
      · refine nodup_cons.mpr ⟨fun hmem => hname ?_, hold.names⟩
        obtain ⟨a, ha, heq⟩ := List.mem_map.mp hmem
        exact List.any_eq_true.mpr ⟨a, ha, decide_eq_true heq⟩
      · rcases mem_cons.mp ha with rfl | ha
        · exact update_self ..
        · exact (update_of_ne (hne ha) ..).trans (hold.place a ha)
      · rcases mem_cons.mp ha with rfl | ha
        · exact hlive
        · exact hgoes.live a (hs.lt_of_holder hsource ha) (hold.live a ha)
      · rcases mem_cons.mp ha with rfl | ha
        · exact ⟨inv.serial, mem_cons_self, .refl⟩
        · obtain ⟨k₀, he, hpassed⟩ := hold.origin a ha
          exact ⟨k₀, mem_cons_of_mem _ he, hpassed⟩
      · exact ⟨_, _, holder_invitation (update_self ..), mem_cons_self⟩
    · rcases mem_cons.mp he with rfl | he
      · exact .inr rfl
      · exact .inl he
    · obtain ⟨k, he, hpassed⟩ := hs.origin x hx
      exact ⟨k, mem_cons_of_mem _ he, hpassed⟩

theorem held_extractMessagePipe (hs : Held s) (h : UInt32) (name : List UInt8)
    (hok : s.Careful (.extract h name)) : Held (s.extractMessagePipe h name).2.2 := by
  unfold extractMessagePipe
  cases hinv : s.invitations h with
  | none => exact hs
  | some inv =>
    dsimp only
    cases hfind : inv.attached.find? (·.name = name) with
    | none => exact hs
    | some a =>
      dsimp only
      have ha := mem_of_find?_eq_some hfind
      have haname : a.name = name :=
        of_decide_eq_true (find?_some (p := fun b : Attached => decide (b.name = name)) hfind)
      have hsource := holder_invitation hinv
      have hold := hs.holds _ _ _ hsource
      have hsub := filter_sublist (l := inv.attached) (p := fun b => decide (b.name ≠ name))
      have hother {b : Attached} (hb : b ∈ inv.attached.filter (·.name ≠ name)) :
          b ∈ inv.attached ∧ b.pipe ≠ a.pipe := by
        obtain ⟨hb, hbname⟩ := mem_filter.mp hb
        refine ⟨hb, fun heq => of_decide_eq_true hbname ?_⟩
        rw [inj_on_of_nodup_map hold.pipes hb ha heq, haname]
      refine held_changes hs (?_ : Changes _ _ h a.pipe .extracted inv.serial inv.attached
        (inv.attached.filter (·.name ≠ name))) (fun e he => .inl he) (fun x hx => ?_) ?_
        fun x hx => ?_
      · refine ⟨hsource, ?_, fun r hr => ?_, hs.core, hs.lt_of_holder hsource ha, rfl,
          fun r hr => ?_, fun j hj hja => ?_, fun _ => id, fun _ => mem_cons_of_mem _, rfl,
          ⟨(hsub.map _).nodup hold.pipes, (hsub.map _).nodup hold.names, fun b hb => ?_,
            fun b hb => hold.live b (hother hb).1, fun b hb => hold.origin b (hother hb).1⟩,
          mem_cons_self⟩
        · show Option.map _ (Function.update s.invitations h _ h) = _
          rw [update_self]
          rfl
        · exact holder_of_ne rfl hr fun _ _ => rfl
        · rw [hold.place a ha]
          exact fun heq => hr (some.inj heq).symm
        · obtain ⟨b, hb, rfl⟩ := List.mem_map.mp hj
          refine List.mem_map_of_mem (mem_filter.mpr ⟨hb, decide_eq_true fun hbname => hja ?_⟩)
          rw [inj_on_of_nodup_map hold.names hb ha (hbname.trans haname.symm)]
        · exact (update_of_ne (hother hb).2 ..).trans (hold.place b (hother hb).1)
      · rcases mem_cons.mp hx with rfl | hx
        · exact .inr ⟨rfl, rfl⟩
        · exact .inl hx
      · refine nodup_cons.mpr ⟨fun hmem => ?_, hs.once⟩
        obtain ⟨x, hx, heq⟩ := List.mem_map.mp hmem
        have hplace := hs.extracted x hx
        rw [show x.pipe = a.pipe from heq, hold.place a ha] at hplace
        cases hplace
      · rcases mem_cons.mp hx with rfl | hx
        · obtain ⟨k₀, he, hpassed⟩ := hold.origin a ha
          rw [haname] at he
          refine ⟨k₀, he, ?_⟩
          -- the invitation is not the one it was attached to, so it has been sent
          rcases Relation.reflTransGen_iff_eq_or_transGen.mp hpassed with heq | hpassed
          · exact absurd (heq ▸ he) (hok inv a hinv hfind)
          · exact hpassed
        · exact hs.origin x hx

theorem held_step (hs : Held s) (op : InvitationOp) (hok : s.Careful op) : Held (s.step op) := by
  cases op with
  | create => exact held_createInvitation hs
  | attach h name => exact held_attachMessagePipe hs h name
  | extract h name => exact held_extractMessagePipe hs h name hok
  | send h channel => exact held_sendInvitation hs h channel hok
  | accept channel => exact held_acceptInvitation hs channel
  | close h => exact held_close hs h

theorem held_nil : Held {} where
  core := .refl Core.sound_start.table rfl
  fresh _ _ := rfl
  holds p := by cases p <;> nofun
  has := nofun
  attached := nofun
  extracted := nofun
  once := nodup_nil
  origin := nofun

/-- The waiting invitations, and the accepted ones, were sent on their channels. -/
structure Channels (s : Registry) : Prop where
  sent : ∀ channel inv, s.sent channel = some inv → (inv.sender, channel) ∈ s.sends
  accepted : ∀ k channel k', (k, channel, k') ∈ s.accepts → (k, channel) ∈ s.sends

theorem Channels.congr (hs : Channels s) (hsent : s'.sent = s.sent) (hsends : s'.sends = s.sends)
    (haccepts : s'.accepts = s.accepts) : Channels s' where
  sent channel inv h := by
    rw [hsent] at h
    rw [hsends]
    exact hs.sent channel inv h
  accepted k channel k' h := by
    rw [haccepts] at h
    rw [hsends]
    exact hs.accepted k channel k' h

theorem channels_sendInvitation (hs : Channels s) (h : UInt32) (channel : UInt64) :
    Channels (s.sendInvitation h channel).2.2 := by
  unfold sendInvitation
  cases hinv : s.invitations h with
  | none => exact hs
  | some inv =>
    have ht : Channels (s.forget channel) := by
      unfold forget
      split
      · exact hs.congr rfl rfl rfl
      · exact hs
    dsimp only
    refine ⟨fun channel' inv' hsent => ?_, fun k channel' k' hx =>
      mem_cons_of_mem _ (ht.accepted k channel' k' hx)⟩
    by_cases hc : channel' = channel
    · subst hc
      cases (update_self ..).symm.trans hsent
      exact mem_cons_self
    · exact mem_cons_of_mem _
        (ht.sent channel' inv' ((update_of_ne hc ..).symm.trans hsent))

theorem channels_acceptInvitation (hs : Channels s) (channel : UInt64) :
    Channels (s.acceptInvitation channel).2.2 := by
  unfold acceptInvitation
  cases hinv : s.sent channel with
  | none => exact hs
  | some inv =>
    have hsends := erase_sends s s.nextInvitationHandle
    dsimp only
    unfold add
    dsimp only
    refine ⟨fun channel' inv' hsent => ?_, fun k channel' k' hx => ?_⟩
    · by_cases hc : channel' = channel
      · subst hc
        cases (update_self ..).symm.trans hsent
      · rw [hsends]
        exact hs.sent channel' inv' ((update_of_ne hc ..).symm.trans hsent)
    · rw [hsends]
      rcases mem_cons.mp hx with heq | hx
      · cases heq
        exact hs.sent channel inv hinv
      · exact hs.accepted k channel' k' hx

theorem channels_step (hs : Channels s) (op : InvitationOp) : Channels (s.step op) := by
  have herase (h : UInt32) : Channels (s.erase h) :=
    hs.congr (erase_sent s h) (erase_sends s h) (erase_accepts s h)
  cases op with
  | create => exact (herase _).congr rfl rfl rfl
  | attach h name =>
    show Channels (s.attachMessagePipe h name).2.2
    unfold attachMessagePipe
    split
    · exact hs
    · dsimp only
      split
      · exact hs
      · exact hs.congr rfl rfl rfl
  | extract h name =>
    show Channels (s.extractMessagePipe h name).2.2
    unfold extractMessagePipe
    split
    · exact hs
    · split
      · exact hs
      · exact hs.congr rfl rfl rfl
  | send h channel => exact channels_sendInvitation hs h channel
  | accept channel => exact channels_acceptInvitation hs channel
  | close h =>
    show Channels (s.close h).2.2
    unfold close
    split
    · exact herase h
    · exact hs.congr rfl rfl rfl

theorem orderly_of_held (hs : Held s) (hc : Channels s) : Orderly s where
  once := hs.once
  origin := hs.origin
  channel := hc.accepted
  closed e he hno := by
    obtain ⟨p, hp⟩ := ne_none_iff_exists'.mp (hs.attached e he)
    have hhas := hs.has e.pipe p hp
    cases p with
    | invitation h =>
      obtain ⟨k, attached, hholder, hi⟩ := hhas
      obtain ⟨inv, hinv, heq⟩ := map_eq_some_iff.mp hholder
      cases heq
      exact .inl ⟨h, inv, hinv, hi⟩
    | sent channel =>
      obtain ⟨k, attached, hholder, hi⟩ := hhas
      obtain ⟨inv, hinv, heq⟩ := map_eq_some_iff.mp hholder
      cases heq
      exact .inr (.inl ⟨channel, inv, hinv, hi⟩)
    | extracted => exact absurd hhas hno
    | dropped => exact .inr (.inr hhas)

/-- In every run where no end is dropped by a second `MojoSendInvitation` and none is extracted from
the invitation it was attached to. -/
theorem orderly_of_reaches (h : Machine.Reaches {} step Careful s) : Orderly s := by
  have hboth : Held s ∧ Channels s := by
    refine h.invariant (I := fun s => Held s ∧ Channels s) ⟨held_nil, nofun, nofun⟩ ?_
    intro s op hs hok
    exact ⟨held_step hs.1 op hok, channels_step hs.2 op⟩
  exact orderly_of_held hboth.1 hboth.2

/-- Two ends are sent; one is extracted, and the other goes with the accepted invitation. -/
def passedOn : List InvitationOp :=
  [.create, .attach 0xF0000000 [1], .attach 0xF0000000 [2], .send 0xF0000000 7, .accept 7,
    .extract 0xF0000001 [1], .close 0xF0000001]

theorem orderly_passedOn : Orderly (passedOn.foldl step {}) := by
  refine orderly_of_reaches (Machine.Reaches.start.along ?_)
  refine ⟨trivial, trivial, trivial, fun _ => nofun, trivial, ?_, trivial, trivial⟩
  intro inv a hinv ha
  cases hinv
  cases ha
  decide

/-- Two invitations are sent on a channel, and nobody accepts. -/
def replaced : List InvitationOp :=
  [.create, .attach 0xF0000000 [1], .send 0xF0000000 7, .create, .send 0xF0000001 7]

def unsent : List InvitationOp :=
  [.create, .attach 0xF0000000 [1], .extract 0xF0000000 [1]]

theorem not_orderly_replaced_or_unsent :
    ¬ Orderly (replaced.foldl step {}) ∧ ¬ Orderly (unsent.foldl step {}) := by
  constructor
  · intro h
    obtain ⟨handle, inv, hinv, hi⟩ | ⟨channel, inv, hsent, hi⟩ | hclosed :=
      h.closed ⟨0, [1], 0⟩ (by decide) (by decide)
    · have hnone : (replaced.foldl step {}).invitations handle = none := by
        by_cases h1 : handle = 0xF0000001
        · subst h1
          rfl
        by_cases h0 : handle = 0xF0000000
        · subst h0
          rfl
        iterate 2 refine (update_of_ne h1 ..).trans ?_
        iterate 3 refine (update_of_ne h0 ..).trans ?_
        rfl
      cases hnone.symm.trans hinv
    · by_cases hc : channel = 7
      · subst hc
        cases hsent
        cases hi
      · cases (update_of_ne hc ..).symm.trans
          ((update_of_ne hc ..).symm.trans hsent)
    · exact absurd hclosed (by decide)
  · intro h
    obtain ⟨k, -, hpassed⟩ := h.origin ⟨0, [1], 0⟩ (by decide)
    obtain ⟨_, -, channel, hx⟩ := Relation.TransGen.tail'_iff.mp hpassed
    cases hx

end Registry

end Voodoo.Thunk
