import Mathlib.Algebra.Group.Nat.Defs
import Mathlib.Data.List.Nodup
import Mathlib.Data.List.Range
import Voodoo.Bindings.Endpoints

/-!
# The ids the two routers of a pipe mint

Each router has a counter of its own and a namespace bit, which is the top bit of every id it mints;
a `Remote` creates its router without the bit and a `Receiver` with it.  The comment on
`kInterfaceIdNamespaceMask` gives the counter 31 bits; the counter has 32.

`minted_run`: the `n`-th id of a side is `mintedId` of the bit and `n`, whatever else happens.
`separate_iff` says how long the two sides stay apart: the side with the bit reaches
`kInvalidInterfaceId` at its id number `2 ^ 31 - 1`, and the other reaches the ids of the first once
its counter passes the bit.
-/

namespace Voodoo.Bindings

open List

namespace Router

/-! ### The counter -/

/-- What minting depends on. -/
def minter (r : Router) : UInt32 × Bool := (r.nextIdValue, r.namespaceBit)

variable (r : Router) (id : InterfaceId)

@[simp] theorem minter_setEndpoint (ep : Endpoint) : (r.setEndpoint id ep).minter = r.minter := rfl

@[simp] theorem minter_raiseError : r.raiseError.minter = r.minter := rfl

@[simp] theorem minter_send (message : Outgoing) : (r.send message).minter = r.minter := by
  unfold send
  split <;> rfl

@[simp] theorem minter_retainEndpoint : (r.retainEndpoint id).minter = r.minter := rfl

@[simp] theorem minter_maybeEraseEndpoint : (r.maybeEraseEndpoint id).minter = r.minter := by
  unfold maybeEraseEndpoint
  cases r.endpoints id with
  | none => rfl
  | some ep =>
    dsimp only
    split <;> rfl

@[simp] theorem minter_dropEndpointHandle : (r.dropEndpointHandle id).minter = r.minter := by
  unfold dropEndpointHandle
  cases r.endpoints id with
  | none => rfl
  | some ep => exact minter_maybeEraseEndpoint _ id

@[simp] theorem minter_clearClient : (r.clearClient id).minter = r.minter := by
  unfold clearClient
  cases r.endpoints id <;> rfl

theorem minter_detachEndpointClient : (r.detachEndpointClient id).minter = r.minter := by
  rw [detachEndpointClient, minter_maybeEraseEndpoint, minter_clearClient]

theorem minter_closeEndpoint : (r.closeEndpoint id).minter = r.minter := by
  rw [closeEndpoint, minter_dropEndpointHandle, minter_clearClient, notifyPeerEndpointClosed,
    minter_send]

theorem minter_attachEndpointClient (client : Option Receiver) :
    (r.attachEndpointClient id client).1.minter = r.minter := by
  unfold attachEndpointClient
  dsimp only
  split <;> rfl

@[simp] theorem minter_runPeerClosedHandler : (r.runPeerClosedHandler id).minter = r.minter := by
  unfold runPeerClosedHandler
  cases r.endpoints id with
  | none => rfl
  | some ep =>
    dsimp only
    split
    · rfl
    · split <;> rfl

theorem minter_handlePipeControlMessage (m : Incoming) :
    (r.handlePipeControlMessage m).minter = r.minter := by
  unfold handlePipeControlMessage
  split
  · split
    · rfl
    · exact minter_send r _
  · cases m.closed with
    | none => rfl
    | some closed =>
      dsimp only
      rw [minter_runPeerClosedHandler]
      split <;> rfl

theorem minter_accept (m : Incoming) : (r.accept m).1.minter = r.minter := by
  unfold accept
  split
  · exact minter_handlePipeControlMessage r m
  · split
    · rfl
    · dsimp only
      cases (r.findOrCreateEndpoint m.interfaceId).client <;> rfl

end Router

/-- The operations that mint. -/
def RouterOp.mints : RouterOp → Bool
  | .createPair => true
  | _ => false

theorem World.minter_loopTurn (s : World) : s.loopTurn.router.minter = s.router.minter := by
  obtain ⟨router, handles, loops, arrived, handed⟩ := s
  match loops with
  | [] => rfl
  | (_, []) :: _ => rfl
  | (id, m :: rest) :: _ =>
    unfold World.loopTurn
    dsimp only
    cases (router.endpoints id).bind (·.client) <;> rfl

theorem World.minter_step (s : World) (op : RouterOp) :
    (s.step op).router.minter =
      if op.mints then (s.router.nextIdValue + 1, s.router.namespaceBit) else s.router.minter := by
  cases op with
  | createPair => rfl
  | createLocalEndpointHandle id => rfl
  | attachEndpointClient id client => exact s.router.minter_attachEndpointClient id client
  | loopTurn => exact s.minter_loopTurn
  | loopRefused => rfl
  | detachEndpointClient id => exact s.router.minter_detachEndpointClient id
  | closeHandle id => exact s.router.minter_closeEndpoint id
  | releaseWithoutClosing id => exact s.router.minter_dropEndpointHandle id
  | setPeerClosedHandler id handler => rfl
  | setPeerClosedWithReasonHandler id handler => rfl
  | notifyPeerEndpointClosed id customReason description => exact s.router.minter_send _
  | attachPrimaryClient client => rfl
  | detachPrimaryClient => rfl
  | accept m => exact s.router.minter_accept m

/-! ### The two ends of a pipe -/

/-- The router at either end of a pipe, by its namespace bit, and the ids it has minted, the
oldest first. -/
structure PipeEnds where
  world : Bool → World := World.fresh
  minted : Bool → List InterfaceId := fun _ => []

namespace PipeEnds

/-- An operation on the router with the bit. -/
def step (p : PipeEnds) (a : Bool × RouterOp) : PipeEnds where
  world := Function.update p.world a.1 ((p.world a.1).step a.2)
  minted :=
    if a.2.mints then
      Function.update p.minted a.1 (p.minted a.1 ++ [(p.world a.1).router.mintInterfaceId.1])
    else p.minted

/-- The state of a pipe after the operations on its two routers. -/
def run (ops : List (Bool × RouterOp)) : PipeEnds := ops.foldl step {}

/-- The two sides mint different ids, neither mints one twice, and no reserved id is minted. -/
structure Separate (p : PipeEnds) : Prop where
  disjoint : (p.minted false).Disjoint (p.minted true)
  nodup (namespaceBit : Bool) : (p.minted namespaceBit).Nodup
  primary (namespaceBit : Bool) : kPrimaryInterfaceId ∉ p.minted namespaceBit
  invalid (namespaceBit : Bool) : kInvalidInterfaceId ∉ p.minted namespaceBit

end PipeEnds

/-- How many ids the operations mint at the router with the bit. -/
def mints (namespaceBit : Bool) (ops : List (Bool × RouterOp)) : Nat :=
  ops.countP fun a => a.1 == namespaceBit && a.2.mints

/-- The id a router mints after `n` others. -/
def mintedId (namespaceBit : Bool) (n : Nat) : InterfaceId :=
  if namespaceBit then UInt32.ofNat (n + 1) ||| kInterfaceIdNamespaceMask else UInt32.ofNat (n + 1)

namespace PipeEnds

/-- What the router with the bit knows of minting after `n` ids. -/
structure Counts (p : PipeEnds) (namespaceBit : Bool) (n : Nat) : Prop where
  minter : (p.world namespaceBit).router.minter = (UInt32.ofNat (n + 1), namespaceBit)
  minted : p.minted namespaceBit = (List.range n).map (mintedId namespaceBit)

variable {p : PipeEnds} {namespaceBit : Bool} {n : Nat}

theorem Counts.mintInterfaceId (h : p.Counts namespaceBit n) :
    (p.world namespaceBit).router.mintInterfaceId.1 = mintedId namespaceBit n := by
  have hnext : (p.world namespaceBit).router.nextIdValue = UInt32.ofNat (n + 1) :=
    congrArg Prod.fst h.minter
  have hbit : (p.world namespaceBit).router.namespaceBit = namespaceBit :=
    congrArg Prod.snd h.minter
  simp only [Router.mintInterfaceId, hnext, hbit, mintedId]

theorem Counts.step_self (h : p.Counts namespaceBit n) (op : RouterOp) :
    (p.step (namespaceBit, op)).Counts namespaceBit (if op.mints then n + 1 else n) := by
  have hworld : (p.step (namespaceBit, op)).world namespaceBit = (p.world namespaceBit).step op :=
    Function.update_self _ _ _
  have hnext : (p.world namespaceBit).router.nextIdValue = UInt32.ofNat (n + 1) :=
    congrArg Prod.fst h.minter
  have hbit : (p.world namespaceBit).router.namespaceBit = namespaceBit :=
    congrArg Prod.snd h.minter
  cases hop : op.mints with
  | true =>
    constructor
    · rw [hworld, World.minter_step, hop, if_pos rfl, if_pos rfl, hnext, hbit, ← UInt32.ofNat_one,
        ← UInt32.ofNat_add]
    · have hminted : (p.step (namespaceBit, op)).minted namespaceBit =
          p.minted namespaceBit ++ [(p.world namespaceBit).router.mintInterfaceId.1] := by
        unfold PipeEnds.step
        dsimp only
        rw [hop, if_pos rfl, Function.update_self]
      rw [hminted, h.mintInterfaceId, h.minted, if_pos rfl, range_succ, map_append]
      rfl
  | false =>
    constructor
    · rw [hworld, World.minter_step, hop]
      exact h.minter
    · have hminted : (p.step (namespaceBit, op)).minted = p.minted := by
        unfold PipeEnds.step
        dsimp only
        rw [hop]
        rfl
      rw [hminted]
      exact h.minted

theorem Counts.step_other (h : p.Counts namespaceBit n) {bit : Bool} (hbit : bit ≠ namespaceBit)
    (op : RouterOp) : (p.step (bit, op)).Counts namespaceBit n := by
  constructor
  · have hworld : (p.step (bit, op)).world namespaceBit = p.world namespaceBit :=
      Function.update_of_ne hbit.symm _ _
    rw [hworld]
    exact h.minter
  · have hminted : (p.step (bit, op)).minted namespaceBit = p.minted namespaceBit := by
      unfold PipeEnds.step
      dsimp only
      split
      · exact Function.update_of_ne hbit.symm _ _
      · rfl
    rw [hminted]
    exact h.minted

theorem counts_run (namespaceBit : Bool) (ops : List (Bool × RouterOp)) :
    (run ops).Counts namespaceBit (mints namespaceBit ops) := by
  induction ops using List.reverseRecOn with
  | nil => exact ⟨rfl, rfl⟩
  | append_singleton ops a ih =>
    obtain ⟨bit, op⟩ := a
    have hrun : run (ops ++ [(bit, op)]) = (run ops).step (bit, op) := by
      rw [run, foldl_append]
      rfl
    rw [hrun]
    by_cases hbit : bit = namespaceBit
    · subst hbit
      have hmints : mints bit (ops ++ [(bit, op)]) =
          if op.mints then mints bit ops + 1 else mints bit ops := by
        rw [mints, countP_append, countP_singleton, beq_self_eq_true, Bool.true_and]
        split <;> rfl
      rw [hmints]
      exact ih.step_self op
    · have hmints : mints namespaceBit (ops ++ [(bit, op)]) = mints namespaceBit ops := by
        rw [mints, countP_append, countP_singleton, beq_false_of_ne hbit, Bool.false_and]
        rfl
      rw [hmints]
      exact ih.step_other hbit op

theorem minted_run (namespaceBit : Bool) (ops : List (Bool × RouterOp)) :
    (run ops).minted namespaceBit =
      (List.range (mints namespaceBit ops)).map (mintedId namespaceBit) :=
  (counts_run namespaceBit ops).minted

theorem mem_minted_run {ops : List (Bool × RouterOp)} {id : InterfaceId} :
    id ∈ (run ops).minted namespaceBit ↔
      ∃ i < mints namespaceBit ops, mintedId namespaceBit i = id := by
  rw [minted_run, List.mem_map]
  simp only [mem_range]

end PipeEnds

/-! ### The ids as numbers -/

theorem toNat_mintedId_false (n : Nat) : (mintedId false n).toNat = (n + 1) % 2 ^ 32 :=
  UInt32.toNat_ofNat'

theorem toNat_mintedId_true (n : Nat) :
    (mintedId true n).toNat = 2 ^ 31 + (n + 1) % 2 ^ 31 := by
  have htag (x : Nat) (h : x < 2 ^ 31) : x ||| 2 ^ 31 = 2 ^ 31 + x := by
    rw [Nat.or_comm]
    have h1 := Nat.two_pow_add_eq_or_of_lt h 1
    rw [Nat.mul_one] at h1
    exact h1.symm
  have hor : (mintedId true n).toNat = (n + 1) % 2 ^ 32 ||| 2 ^ 31 := by
    rw [mintedId, if_pos rfl, UInt32.toNat_or, UInt32.toNat_ofNat']
    rfl
  rw [hor]
  rcases Nat.lt_or_ge ((n + 1) % 2 ^ 32) (2 ^ 31) with hlt | hge
  · rw [htag _ hlt]
    omega
  · obtain ⟨x, hx⟩ := Nat.exists_eq_add_of_le hge
    have hx31 : x < 2 ^ 31 := by omega
    rw [hx, ← htag x hx31, Nat.or_assoc, Nat.or_self, htag x hx31]
    omega

theorem mintedId_true_invalid : mintedId true (2 ^ 31 - 2) = kInvalidInterfaceId :=
  UInt32.toNat_inj.mp (by rw [toNat_mintedId_true]; rfl)

theorem mintedId_false_invalid : mintedId false (2 ^ 32 - 2) = kInvalidInterfaceId :=
  UInt32.toNat_inj.mp (by rw [toNat_mintedId_false]; rfl)

theorem mintedId_meet : mintedId false (2 ^ 31) = mintedId true 0 :=
  have hmeet : (2 ^ 31 + 1) % 2 ^ 32 = 2 ^ 31 + (0 + 1) % 2 ^ 31 := by omega
  UInt32.toNat_inj.mp
    ((toNat_mintedId_false _).trans (hmeet.trans (toNat_mintedId_true _).symm))

namespace PipeEnds

variable {ops : List (Bool × RouterOp)}

theorem exists_of_mem_minted (hfalse : mints false ops + 1 < 2 ^ 32)
    (htrue : mints true ops + 1 < 2 ^ 31) {namespaceBit : Bool} {id : InterfaceId}
    (h : id ∈ (run ops).minted namespaceBit) :
    ∃ i < mints namespaceBit ops, id = mintedId namespaceBit i ∧
      id.toNat = (if namespaceBit then 2 ^ 31 else 0) + (i + 1) := by
  obtain ⟨i, hi, rfl⟩ := mem_minted_run.mp h
  refine ⟨i, hi, rfl, ?_⟩
  cases namespaceBit with
  | false =>
    rw [toNat_mintedId_false, Nat.mod_eq_of_lt (by omega)]
    exact (Nat.zero_add _).symm
  | true =>
    rw [toNat_mintedId_true, Nat.mod_eq_of_lt (by omega)]
    rfl

theorem separate_of_mints (htrue : mints true ops + 1 < 2 ^ 31)
    (hfalse : mints false ops ≤ 2 ^ 31 ∨ mints true ops = 0 ∧ mints false ops + 1 < 2 ^ 32) :
    (run ops).Separate where
  disjoint := by
    intro id hidf hidt
    obtain ⟨i, hi, -, hieq⟩ := exists_of_mem_minted (by omega) htrue hidf
    obtain ⟨j, hj, -, hjeq⟩ := exists_of_mem_minted (by omega) htrue hidt
    rw [if_neg Bool.false_ne_true] at hieq
    rw [if_pos rfl] at hjeq
    omega
  nodup namespaceBit := by
    rw [minted_run]
    refine Nodup.map_on ?_ nodup_range
    intro i hi j hj hij
    have hnum := congrArg UInt32.toNat hij
    rw [mem_range] at hi hj
    cases namespaceBit with
    | false =>
      rw [toNat_mintedId_false, toNat_mintedId_false] at hnum
      omega
    | true =>
      rw [toNat_mintedId_true, toNat_mintedId_true] at hnum
      omega
  primary namespaceBit := by
    intro hmem
    obtain ⟨i, -, -, heq⟩ := exists_of_mem_minted (by omega) htrue hmem
    have hzero : kPrimaryInterfaceId.toNat = 0 := rfl
    omega
  invalid namespaceBit := by
    intro hmem
    obtain ⟨i, hi, -, heq⟩ := exists_of_mem_minted (by omega) htrue hmem
    have hall : kInvalidInterfaceId.toNat = 2 ^ 32 - 1 := rfl
    cases namespaceBit with
    | false =>
      rw [if_neg Bool.false_ne_true] at heq
      omega
    | true =>
      rw [if_pos rfl] at heq
      omega

/-- The two sides stay apart exactly while the side with the bit has minted fewer than
`2 ^ 31 - 1` ids and the other no more than `2 ^ 31`, or where the first has minted none, fewer
than `2 ^ 32 - 1`. -/
theorem separate_iff (ops : List (Bool × RouterOp)) :
    (run ops).Separate ↔
      mints true ops + 1 < 2 ^ 31 ∧
        (mints false ops ≤ 2 ^ 31 ∨ mints true ops = 0 ∧ mints false ops + 1 < 2 ^ 32) := by
  constructor
  · intro h
    have htrue : mints true ops + 1 < 2 ^ 31 := by
      by_contra hlong
      exact h.invalid true (mem_minted_run.mpr ⟨2 ^ 31 - 2, by omega, mintedId_true_invalid⟩)
    have hfalse : mints false ops + 1 < 2 ^ 32 := by
      by_contra hlong
      exact h.invalid false (mem_minted_run.mpr ⟨2 ^ 32 - 2, by omega, mintedId_false_invalid⟩)
    refine ⟨htrue, ?_⟩
    by_contra hmeet
    have hmem : mintedId true 0 ∈ (run ops).minted false :=
      mem_minted_run.mpr ⟨2 ^ 31, by omega, mintedId_meet⟩
    exact h.disjoint hmem (mem_minted_run.mpr ⟨0, by omega, rfl⟩)
  · rintro ⟨htrue, hfalse⟩
    exact separate_of_mints htrue hfalse

/-- The run that only creates pairs at the side with the bit, up to the id that is reserved. -/
theorem not_separate :
    ¬ ∀ ops : List (Bool × RouterOp), (run ops).Separate := by
  intro h
  have hmints : mints true (List.replicate (2 ^ 31 - 1) (true, RouterOp.createPair)) =
      2 ^ 31 - 1 := by
    rw [mints, countP_replicate]
    rfl
  refine (h (List.replicate (2 ^ 31 - 1) (true, .createPair))).invalid true
    (mem_minted_run.mpr ⟨2 ^ 31 - 2, ?_, mintedId_true_invalid⟩)
  rw [hmints]
  decide

end PipeEnds

end Voodoo.Bindings
