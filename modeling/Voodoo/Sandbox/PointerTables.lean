import Voodoo.Lib.Machine
import Voodoo.Sandbox.EntityTable
import Voodoo.Sandbox.TaggedPayload

/-!
# The pointer tables

`TrustedPointerTable`, `ExternalPointerTable`, `IndirectPointerTable` and `CppHeapPointerTable` are one
table over different layouts of the tagged payload; `CodePointerTable` has entries of its own.  The
states are the runs of the tables' clients; a failed check would end a run in `none`.

* `entityTables_sound`: in every state of every run of the five tables the freelist visits exactly
  the free entries, a handle that is held reads back what it was given, any other handle reads
  null, no handle is given out twice, and compacting leaves a table that ends with an entry in use.
* `tagConfinement`: the tag check of an entry is the one of the tag it was given **exactly for the
  pointers that fit the payload**; any other bit of the pointer runs into the mark bit or the tag.
-/

namespace Voodoo.Sandbox

open Machine List Option Function

/-- An entry of a pointer table. -/
structure PayloadEntry (l : Layout) where
  payload : Word

instance {l : Layout} : TableEntry (PayloadEntry l) where
  makeFreelistEntry n := ⟨l.tag (BitVec.ofNat 64 n) l.freeEntryTag⟩
  containsFreelistLink e := l.containsFreelistLink e.payload
  extractFreelistLink e := l.extractFreelistLink e.payload
  blank := ⟨0⟩

instance {l : Layout} : LawfulTableEntry (PayloadEntry l) where
  contains_make _ hn := l.containsFreelistLink_free hn
  extract_make _ hn := l.extractFreelistLink_free hn

/-- A pointer table over the layout `l`. -/
abbrev PointerTable (l : Layout) := ExternalEntityTable (PayloadEntry l)

/-- `TrustedPointerTable`. -/
abbrev TrustedPointerTable := PointerTable trustedLayout

/-- `ExternalPointerTable`. -/
abbrev ExternalPointerTable := PointerTable externalLayout

/-- `IndirectPointerTable`. -/
abbrev IndirectPointerTable := PointerTable indirectLayout

/-- `CppHeapPointerTable`. -/
abbrev CppHeapPointerTable := PointerTable cppHeapLayout

/-- What the clients of a table hold beside it: `live h` is what the handle `h` was given, if it
was and is not freed. -/
structure Held (τ V : Type) where
  table : τ
  live : Nat → Option V := fun _ => none

namespace PointerTable

variable {l : Layout}

/-- `AllocateAndInitializeEntry`. -/
def allocateAndInitializeEntry (t : PointerTable l) (pointer : Word) (tag : Tag) :
    Option (Nat × PointerTable l) := do
  let (index, t) ← t.allocateEntry ⟨l.tag pointer tag⟩
  return (indexToHandle index, t)

/-- `Get`. -/
def get (t : PointerTable l) (handle : Nat) (range : TagRange) : Word :=
  if handle = 0 then 0
  else
    match t.entries[handleToIndex handle]? with
    | none => 0
    | some e => l.untagAllowNullHandle e.payload range

/-- `Set`. -/
def set (t : PointerTable l) (handle : Nat) (pointer : Word) (tag : Tag) :
    Option (PointerTable l) :=
  if handle = 0 then none
  else t.update (handleToIndex handle) fun _ => ⟨l.tag pointer tag⟩

/-- `FreeEntry`. -/
def freeEntry (t : PointerTable l) (handle : Nat) : Option (PointerTable l) :=
  if handle = 0 then some t else ExternalEntityTable.freeEntry t (handleToIndex handle)

/-- `Contains`. -/
def contains (t : PointerTable l) (handle : Nat) : Bool :=
  if handle = 0 then false
  else
    match t.entries[handleToIndex handle]? with
    | none => false
    | some e => !l.containsFreelistLink e.payload

/-! ### The clients -/

/-- What a client does. -/
inductive Op where
  | allocate (pointer : Word) (tag : Tag)
  | set (handle : Nat) (pointer : Word) (tag : Tag)
  | free (handle : Nat)
  | compact

/-- The handle an operation is about. -/
def Op.handle? : Op → Option Nat
  | .set handle _ _ | .free handle => some handle
  | .allocate _ _ | .compact => none

/-- One operation, and what its client holds after it. -/
def step (x : Held (PointerTable l) (Word × Tag)) :
    Op → Option (Held (PointerTable l) (Word × Tag))
  | .allocate pointer tag => do
    let (handle, t) ← allocateAndInitializeEntry x.table pointer tag
    return { table := t, live := Function.update x.live handle (some (pointer, tag)) }
  | .set handle pointer tag => do
    let t ← set x.table handle pointer tag
    return { table := t, live := Function.update x.live handle (some (pointer, tag)) }
  | .free handle => do
    let t ← freeEntry x.table handle
    return { table := t, live := Function.update x.live handle none }
  | .compact => some { x with table := x.table.compact }

/-- An allocation leaves fewer than `2 ^ 32 - 1` entries. -/
def Room (t : PointerTable l) : Prop :=
  ∀ r, t.takeEntry = some r → r.2.entries.length < nullIndex

/-- A client writes pointers that fit under tags of its own, through handles it holds. -/
def Allowed (x : Held (PointerTable l) (Word × Tag)) : Op → Prop
  | .allocate pointer tag => l.Fits pointer ∧ l.Assignable tag ∧ Room x.table
  | .set handle pointer tag => (∃ v, x.live handle = some v) ∧ l.Fits pointer ∧ l.Assignable tag
  | .free handle => ∃ v, x.live handle = some v
  | .compact => True

/-- The states of the runs of a table; `none` is one that has failed a check. -/
abbrev Reachable (l : Layout) : Option (Held (PointerTable l) (Word × Tag)) → Prop :=
  Reaches (some ⟨{}, fun _ => none⟩) (fun s a => s.bind fun x => step x a)
    (fun s a => ∀ x, s = some x → Allowed x a)

/-- What the clients of a table can rely on. -/
structure Sound (x : Held (PointerTable l) (Word × Tag)) : Prop where
  freelist : ∃ free, Chain.Visits (ExternalEntityTable.next x.table.entries) nullIndex
    x.table.freeListHead free ∧ free.Nodup ∧
      ∀ i, i ∈ free ↔ i < x.table.entries.length ∧ x.live (i + 1) = none
  get_live : ∀ handle p t, x.live handle = some (p, t) →
    ∀ range, get x.table handle range = if range.contains t then p else 0
  get_dead : ∀ handle < 2 ^ 32, x.live handle = none →
    ∀ range, l.AssignableRange range → get x.table handle range = 0
  contains_iff : ∀ handle < 2 ^ 32,
    contains x.table handle = true ↔ ∃ v, x.live handle = some v
  fresh : ∀ p t, Allowed x (.allocate p t) → ∃ handle u,
    allocateAndInitializeEntry x.table p t = some (handle, u) ∧ handle ≠ 0 ∧ x.live handle = none
  others : ∀ a y, Allowed x a → step x a = some y → ∀ handle, a.handle? ≠ some handle →
    (∃ v, x.live handle = some v) → y.live handle = x.live handle ∧
      ∀ range, get y.table handle range = get x.table handle range
  compact : x.table.compact.entries = [] ∨
    ∃ v, x.live x.table.compact.entries.length = some v

/-- The entry for a pointer and its tag. -/
def entryOf (l : Layout) (v : Word × Tag) : PayloadEntry l := ⟨l.tag v.1 v.2⟩

/-- The pointer fits and the tag is one of the embedder's. -/
def Admissible (l : Layout) (v : Word × Tag) : Prop := l.Fits v.1 ∧ l.Assignable v.2

theorem used_of_admissible (v : Word × Tag) (hv : Admissible l v) :
    TableEntry.containsFreelistLink (entryOf l v) = false :=
  l.containsFreelistLink_tag hv.1 hv.2

/-- The invariant of the runs. -/
abbrev Valid (x : Held (PointerTable l) (Word × Tag)) : Prop :=
  ExternalEntityTable.Holds (entryOf l) (Admissible l) x.table x.live

variable {x y : Held (PointerTable l) (Word × Tag)}

theorem ne_zero_of_live (h : Valid x) {handle : Nat} {v : Word × Tag}
    (hv : x.live handle = some v) : handle ≠ 0 :=
  Nat.ne_of_gt (h.inside handle v hv).1

theorem get_of_live (h : Valid x) {handle : Nat} {p : Word} {t : Tag}
    (hv : x.live handle = some (p, t)) (range : TagRange) :
    get x.table handle range = if range.contains t then p else 0 := by
  obtain ⟨-, -, hadmissible, he⟩ := h.entry_of_live hv
  rw [get, if_neg (ne_zero_of_live h hv), he]
  exact l.untag_tag hadmissible.1 hadmissible.2 range

theorem payload_of_dead (h : Valid x) {handle : Nat} (hne : handle ≠ 0) (hlt : handle < 2 ^ 32)
    (hv : x.live handle = none) {e : PayloadEntry l}
    (he : x.table.entries[handleToIndex handle]? = some e) :
    ∃ n < 2 ^ 32, e.payload = l.tag (BitVec.ofNat 64 n) l.freeEntryTag := by
  have hpos := Nat.pos_of_ne_zero hne
  rw [ExternalEntityTable.handleToIndex_eq hpos hlt] at he
  rw [← Nat.sub_add_cancel hpos] at hv
  obtain ⟨n, hn, rfl⟩ := h.entry_of_not_live he hv
  exact ⟨n, hn, rfl⟩

theorem get_of_dead (h : Valid x) {handle : Nat} (hlt : handle < 2 ^ 32)
    (hv : x.live handle = none) {range : TagRange} (hrange : l.AssignableRange range) :
    get x.table handle range = 0 := by
  rw [get]
  split
  · rfl
  · rename_i hne
    split
    · rfl
    · rename_i e he
      obtain ⟨n, hn, hpayload⟩ := payload_of_dead h hne hlt hv he
      rw [hpayload]
      exact l.untag_free hn hrange

theorem contains_iff_live (h : Valid x) {handle : Nat} (hlt : handle < 2 ^ 32) :
    contains x.table handle = true ↔ ∃ v, x.live handle = some v := by
  cases hv : x.live handle with
  | some v =>
    obtain ⟨-, -, hadmissible, he⟩ := h.entry_of_live hv
    rw [contains, if_neg (ne_zero_of_live h hv), he]
    simp only [entryOf, l.containsFreelistLink_tag hadmissible.1 hadmissible.2, Bool.not_false,
      Option.some.injEq, exists_eq']
  | none =>
    refine iff_of_false (fun hcontains => ?_) fun ⟨v, hsome⟩ => nomatch hsome
    rw [contains] at hcontains
    split at hcontains
    · cases hcontains
    · rename_i hne
      split at hcontains
      · cases hcontains
      · rename_i e he
        obtain ⟨n, hn, hpayload⟩ := payload_of_dead h hne hlt hv he
        rw [hpayload, l.containsFreelistLink_free hn] at hcontains
        cases hcontains

theorem allocate_of_valid (h : Valid x) {p : Word} {t : Tag} (ha : Allowed x (.allocate p t)) :
    ∃ handle u, allocateAndInitializeEntry x.table p t = some (handle, u) ∧ handle ≠ 0 ∧
      x.live handle = none ∧ Valid ⟨u, Function.update x.live handle (some (p, t))⟩ := by
  obtain ⟨i, u, hresult, hi, hnone, hvalid⟩ :=
    h.allocateEntry used_of_admissible ha.2.2 (v := (p, t)) ⟨ha.1, ha.2.1⟩
  refine ⟨i + 1, u, ?_, Nat.succ_ne_zero i, hnone, hvalid⟩
  rw [allocateAndInitializeEntry, show x.table.allocateEntry ⟨l.tag p t⟩ = some (i, u) from hresult]
  exact congrArg (fun handle => some (handle, u)) (ExternalEntityTable.indexToHandle_eq hi)

theorem allocate_of_full {t : PointerTable l} (hhead : t.freeListHead = nullIndex)
    (hlength : t.entries.length < nullIndex) (p : Word) (tag : Tag) :
    allocateAndInitializeEntry t p tag = some (t.entries.length + 1,
      { entries := t.entries ++ [entryOf l (p, tag)], freeListHead := nullIndex }) := by
  have hindex : t.entries.length % 2 ^ 32 = t.entries.length :=
    Nat.mod_eq_of_lt (by unfold nullIndex at hlength; omega)
  have hset : (t.entries ++ [TableEntry.blank]).set t.entries.length (entryOf l (p, tag)) =
      t.entries ++ [entryOf l (p, tag)] := by
    rw [set_append_right _ _ (Nat.le_refl _), Nat.sub_self, set_cons_zero]
  have htaken : t.takeEntry =
      some (t.entries.length, { t with entries := t.entries ++ [TableEntry.blank] }) := by
    rw [ExternalEntityTable.takeEntry, if_neg (not_not_intro hhead), hindex]
  rw [allocateAndInitializeEntry, ExternalEntityTable.allocateEntry, htaken]
  show some (indexToHandle t.entries.length, ExternalEntityTable.mk _ _) = some (_, _)
  rw [ExternalEntityTable.indexToHandle_eq hlength, hhead]
  exact congrArg (fun entries => some (t.entries.length + 1, ExternalEntityTable.mk entries _)) hset

/-- **One operation**: no check fails, and the invariant is kept. -/
theorem step_valid (h : Valid x) {a : Op} (ha : Allowed x a) : ∃ y, step x a = some y ∧ Valid y := by
  cases a with
  | allocate p t =>
    obtain ⟨handle, u, hresult, -, -, hvalid⟩ := allocate_of_valid h ha
    refine ⟨_, ?_, hvalid⟩
    rw [step, hresult]
    rfl
  | set handle p t =>
    obtain ⟨⟨v, hv⟩, hp, ht⟩ := ha
    obtain ⟨u, hresult, hvalid⟩ := h.update used_of_admissible (f := fun _ => entryOf l (p, t)) hv rfl
      ⟨hp, ht⟩
    refine ⟨⟨u, Function.update x.live handle (some (p, t))⟩, ?_, hvalid⟩
    rw [step, set, if_neg (ne_zero_of_live h hv),
      show x.table.update (handleToIndex handle) (fun _ => ⟨l.tag p t⟩) = some u from hresult]
    rfl
  | free handle =>
    obtain ⟨v, hv⟩ := ha
    obtain ⟨u, hresult, hvalid⟩ := h.freeEntry used_of_admissible hv
    refine ⟨⟨u, Function.update x.live handle none⟩, ?_, hvalid⟩
    rw [step, freeEntry, if_neg (ne_zero_of_live h hv), hresult]
    rfl
  | compact => exact ⟨_, rfl, h.compact used_of_admissible⟩

theorem step_live (h : Valid x) {a : Op} (ha : Allowed x a) (hstep : step x a = some y)
    {handle : Nat} (hne : a.handle? ≠ some handle) {v : Word × Tag}
    (hv : x.live handle = some v) : y.live handle = x.live handle := by
  cases a with
  | allocate p t =>
    obtain ⟨given, u, hresult, -, hnone, -⟩ := allocate_of_valid h ha
    rw [step, hresult] at hstep
    obtain rfl := some.inj hstep
    refine update_of_ne ?_ _ _
    rintro rfl
    rw [hnone] at hv
    cases hv
  | set other p t =>
    obtain ⟨u, -, hstep⟩ := bind_eq_some_iff.mp hstep
    obtain rfl := some.inj hstep
    exact update_of_ne (fun heq => hne (congrArg some heq.symm)) _ _
  | free other =>
    obtain ⟨u, -, hstep⟩ := bind_eq_some_iff.mp hstep
    obtain rfl := some.inj hstep
    exact update_of_ne (fun heq => hne (congrArg some heq.symm)) _ _
  | compact =>
    obtain rfl := some.inj hstep
    rfl

theorem compact_of_valid (h : Valid x) : x.table.compact.entries = [] ∨
    ∃ v, x.live x.table.compact.entries.length = some v := by
  rcases eq_nil_or_concat x.table.compact.entries with hnil | ⟨entries, e, hlast⟩
  · exact .inl hnil
  · right
    have hlen : x.table.compact.entries.length = entries.length + 1 := by
      rw [hlast, concat_eq_append, length_append, length_singleton]
    have he : x.table.compact.entries.getLast? = some e := by
      rw [hlast, concat_eq_append, getLast?_concat]
    have hused := ExternalEntityTable.getLast_compact h.length_lt he
    have hget : x.table.compact.entries[entries.length]? = some e := by
      rw [hlast, concat_eq_append, getElem?_concat_length]
    rw [hlen]
    rcases (h.compact used_of_admissible).entry _ e hget with ⟨-, n, hn, rfl⟩ | ⟨v, -, hv, -⟩
    · rw [LawfulTableEntry.contains_make n hn] at hused
      cases hused
    · exact ⟨v, hv⟩

theorem sound_of_valid (h : Valid x) : Sound x where
  freelist := h.chain used_of_admissible
  get_live _ _ _ hv := get_of_live h hv
  get_dead _ hlt hv _ hrange := get_of_dead h hlt hv hrange
  contains_iff _ hlt := contains_iff_live h hlt
  fresh p t ha := by
    obtain ⟨handle, u, hresult, hne, hnone, -⟩ := allocate_of_valid h ha
    exact ⟨handle, u, hresult, hne, hnone⟩
  others a y ha hstep handle hne hv := by
    obtain ⟨⟨p, t⟩, hv⟩ := hv
    have hlive := step_live h ha hstep hne hv
    refine ⟨hlive, fun range => ?_⟩
    obtain ⟨z, hz, hvalid⟩ := step_valid h ha
    obtain rfl := some.inj (hz.symm.trans hstep)
    rw [get_of_live hvalid (hlive.trans hv), get_of_live h hv]
  compact := compact_of_valid h

theorem valid_start : Valid (⟨{}, fun _ => none⟩ : Held (PointerTable l) (Word × Tag)) where
  length_lt := show 0 < nullIndex by decide
  head_lt := show nullIndex < 2 ^ 32 by decide
  threaded := ExternalEntityTable.threaded_nil
  entry _ _ he := nomatch he
  inside _ _ hv := nomatch hv

theorem valid_of_reachable {s : Option (Held (PointerTable l) (Word × Tag))} (h : Reachable l s) :
    ∃ x, s = some x ∧ Valid x := by
  induction h with
  | start => exact ⟨_, rfl, valid_start⟩
  | step a _ ha ih =>
    obtain ⟨x, rfl, hvalid⟩ := ih
    exact step_valid hvalid (ha x rfl)

/-- **Every state of every run of a pointer table is sound.** -/
theorem sound_of_reachable {s : Option (Held (PointerTable l) (Word × Tag))} (h : Reachable l s) :
    ∃ x, s = some x ∧ Sound x := by
  obtain ⟨x, hx, hvalid⟩ := valid_of_reachable h
  exact ⟨x, hx, sound_of_valid hvalid⟩

end PointerTable

/-! ### The code pointer table -/

/-- `CodePointerTableEntry`; an `Address` is a word of the host. -/
structure CodePointerTableEntry where
  isFree : Bool := true
  marked : Bool := false
  nextFree : Nat := 0
  codeObject : Nat := 0
  entrypoint : Nat := 0

/-- `CodePointerTableEntry::MakeCodePointerEntry`. -/
def CodePointerTableEntry.makeCodePointerEntry (codeObject entrypoint : Nat) :
    CodePointerTableEntry :=
  { isFree := false, codeObject := codeObject, entrypoint := entrypoint }

instance : TableEntry CodePointerTableEntry where
  makeFreelistEntry n := { isFree := true, nextFree := n }
  containsFreelistLink e := e.isFree
  extractFreelistLink e := if e.isFree then some e.nextFree else none
  blank := {}

instance : LawfulTableEntry CodePointerTableEntry where
  contains_make _ _ := rfl
  extract_make _ _ := rfl

/-- `CodePointerTable`. -/
abbrev CodePointerTable := ExternalEntityTable CodePointerTableEntry

namespace CodePointerTable

/-- `AllocateAndInitializeEntry`. -/
def allocateAndInitializeEntry (t : CodePointerTable) (codeObject entrypoint : Nat) :
    Option (Nat × CodePointerTable) := do
  let (index, t) ← t.allocateEntry (.makeCodePointerEntry codeObject entrypoint)
  return (indexToHandle index, t)

/-- What `GetEntrypoint` and `GetCodeObject` do, for the field `f`. -/
def getField (t : CodePointerTable) (f : CodePointerTableEntry → Nat) (handle : Nat) : Nat :=
  if handle = 0 then 0
  else
    match t.entries[handleToIndex handle]? with
    | none => 0
    | some e => if e.isFree then 0 else f e

/-- `GetEntrypoint`. -/
def getEntrypoint (t : CodePointerTable) (handle : Nat) : Nat :=
  getField t CodePointerTableEntry.entrypoint handle

/-- `GetCodeObject`. -/
def getCodeObject (t : CodePointerTable) (handle : Nat) : Nat :=
  getField t CodePointerTableEntry.codeObject handle

/-- What `SetEntrypoint` and `SetCodeObject` do, for the change `f`. -/
def setField (t : CodePointerTable) (handle : Nat)
    (f : CodePointerTableEntry → CodePointerTableEntry) : Option CodePointerTable :=
  if handle = 0 then none else t.update (handleToIndex handle) f

/-- `SetEntrypoint`. -/
def setEntrypoint (t : CodePointerTable) (handle value : Nat) : Option CodePointerTable :=
  setField t handle fun e => { e with entrypoint := value }

/-- `SetCodeObject`. -/
def setCodeObject (t : CodePointerTable) (handle value : Nat) : Option CodePointerTable :=
  setField t handle fun e => { e with codeObject := value }

/-- `FreeEntry`. -/
def freeEntry (t : CodePointerTable) (handle : Nat) : Option CodePointerTable :=
  if handle = 0 then some t else ExternalEntityTable.freeEntry t (handleToIndex handle)

/-- `Contains`. -/
def contains (t : CodePointerTable) (handle : Nat) : Bool :=
  if handle = 0 then false
  else
    match t.entries[handleToIndex handle]? with
    | none => false
    | some e => !e.isFree

/-- What a client does.  The table keeps `Compact` to itself. -/
inductive Op where
  | allocate (codeObject entrypoint : Nat)
  | setEntrypoint (handle value : Nat)
  | setCodeObject (handle value : Nat)
  | free (handle : Nat)

/-- The handle an operation is about. -/
def Op.handle? : Op → Option Nat
  | .setEntrypoint handle _ | .setCodeObject handle _ | .free handle => some handle
  | .allocate _ _ => none

/-- One operation, and what its client holds after it: a code object and its entrypoint. -/
def step (x : Held CodePointerTable (Nat × Nat)) : Op → Option (Held CodePointerTable (Nat × Nat))
  | .allocate codeObject entrypoint => do
    let (handle, t) ← allocateAndInitializeEntry x.table codeObject entrypoint
    return { table := t, live := Function.update x.live handle (some (codeObject, entrypoint)) }
  | .setEntrypoint handle value => do
    let t ← setEntrypoint x.table handle value
    return { table := t
             live := Function.update x.live handle
              ((x.live handle).map fun v => (v.1, value)) }
  | .setCodeObject handle value => do
    let t ← setCodeObject x.table handle value
    return { table := t
             live := Function.update x.live handle
              ((x.live handle).map fun v => (value, v.2)) }
  | .free handle => do
    let t ← freeEntry x.table handle
    return { table := t, live := Function.update x.live handle none }

/-- A client writes through handles it holds, and leaves fewer than `2 ^ 32 - 1` entries. -/
def Allowed (x : Held CodePointerTable (Nat × Nat)) : Op → Prop
  | .allocate _ _ => ∀ r, x.table.takeEntry = some r → r.2.entries.length < nullIndex
  | .setEntrypoint handle _ | .setCodeObject handle _ | .free handle => ∃ v, x.live handle = some v

/-- The states of the runs of the table; `none` is one that has failed a check. -/
abbrev Reachable : Option (Held CodePointerTable (Nat × Nat)) → Prop :=
  Reaches (some ⟨{}, fun _ => none⟩) (fun s a => s.bind fun x => step x a)
    (fun s a => ∀ x, s = some x → Allowed x a)

/-- What the clients of the table can rely on. -/
structure Sound (x : Held CodePointerTable (Nat × Nat)) : Prop where
  freelist : ∃ free, Chain.Visits (ExternalEntityTable.next x.table.entries) nullIndex
    x.table.freeListHead free ∧ free.Nodup ∧
      ∀ i, i ∈ free ↔ i < x.table.entries.length ∧ x.live (i + 1) = none
  get_live : ∀ handle codeObject entrypoint, x.live handle = some (codeObject, entrypoint) →
    getCodeObject x.table handle = codeObject ∧ getEntrypoint x.table handle = entrypoint
  get_dead : ∀ handle < 2 ^ 32, x.live handle = none →
    getCodeObject x.table handle = 0 ∧ getEntrypoint x.table handle = 0
  contains_iff : ∀ handle < 2 ^ 32,
    contains x.table handle = true ↔ ∃ v, x.live handle = some v
  fresh : ∀ c e, Allowed x (.allocate c e) → ∃ handle u,
    allocateAndInitializeEntry x.table c e = some (handle, u) ∧ handle ≠ 0 ∧ x.live handle = none
  others : ∀ a y, Allowed x a → step x a = some y → ∀ handle, a.handle? ≠ some handle →
    (∃ v, x.live handle = some v) → y.live handle = x.live handle ∧
      getCodeObject y.table handle = getCodeObject x.table handle ∧
      getEntrypoint y.table handle = getEntrypoint x.table handle

/-- The entry for a code object and its entrypoint. -/
def entryOf (v : Nat × Nat) : CodePointerTableEntry := .makeCodePointerEntry v.1 v.2

theorem used_entryOf (v : Nat × Nat) (_ : True) :
    TableEntry.containsFreelistLink (entryOf v) = false := rfl

/-- The invariant of the runs. -/
abbrev Valid (x : Held CodePointerTable (Nat × Nat)) : Prop :=
  ExternalEntityTable.Holds entryOf (fun _ => True) x.table x.live

variable {x y : Held CodePointerTable (Nat × Nat)}

theorem ne_zero_of_live (h : Valid x) {handle : Nat} {v : Nat × Nat}
    (hv : x.live handle = some v) : handle ≠ 0 :=
  Nat.ne_of_gt (h.inside handle v hv).1

theorem getField_of_live (h : Valid x) {handle : Nat} {v : Nat × Nat}
    (hv : x.live handle = some v) (f : CodePointerTableEntry → Nat) :
    getField x.table f handle = f (entryOf v) := by
  obtain ⟨-, -, -, he⟩ := h.entry_of_live hv
  rw [getField, if_neg (ne_zero_of_live h hv), he]
  rfl

theorem isFree_of_dead (h : Valid x) {handle : Nat} (hne : handle ≠ 0) (hlt : handle < 2 ^ 32)
    (hv : x.live handle = none) {e : CodePointerTableEntry}
    (he : x.table.entries[handleToIndex handle]? = some e) : e.isFree = true := by
  rw [ExternalEntityTable.handleToIndex_eq (Nat.pos_of_ne_zero hne) hlt] at he
  obtain ⟨n, -, rfl⟩ := h.entry_of_not_live he (by
    rwa [Nat.sub_add_cancel (Nat.pos_of_ne_zero hne)])
  rfl

theorem getField_of_dead (h : Valid x) {handle : Nat} (hlt : handle < 2 ^ 32)
    (hv : x.live handle = none) (f : CodePointerTableEntry → Nat) :
    getField x.table f handle = 0 := by
  rw [getField]
  split
  · rfl
  · rename_i hne
    split
    · rfl
    · rename_i e he
      rw [if_pos (isFree_of_dead h hne hlt hv he)]

theorem contains_iff_live (h : Valid x) {handle : Nat} (hlt : handle < 2 ^ 32) :
    contains x.table handle = true ↔ ∃ v, x.live handle = some v := by
  cases hv : x.live handle with
  | some v =>
    obtain ⟨-, -, -, he⟩ := h.entry_of_live hv
    rw [contains, if_neg (ne_zero_of_live h hv), he]
    exact iff_of_true rfl ⟨v, rfl⟩
  | none =>
    refine iff_of_false (fun hcontains => ?_) fun ⟨v, hsome⟩ => nomatch hsome
    rw [contains] at hcontains
    split at hcontains
    · cases hcontains
    · rename_i hne
      split at hcontains
      · cases hcontains
      · rename_i e he
        rw [isFree_of_dead h hne hlt hv he] at hcontains
        cases hcontains

theorem allocate_of_valid (h : Valid x) {c e : Nat} (ha : Allowed x (.allocate c e)) :
    ∃ handle u, allocateAndInitializeEntry x.table c e = some (handle, u) ∧ handle ≠ 0 ∧
      x.live handle = none ∧ Valid ⟨u, Function.update x.live handle (some (c, e))⟩ := by
  obtain ⟨i, u, hresult, hi, hnone, hvalid⟩ :=
    h.allocateEntry used_entryOf ha (v := (c, e)) trivial
  refine ⟨i + 1, u, ?_, Nat.succ_ne_zero i, hnone, hvalid⟩
  rw [allocateAndInitializeEntry,
    show x.table.allocateEntry (.makeCodePointerEntry c e) = some (i, u) from hresult]
  exact congrArg (fun handle => some (handle, u)) (ExternalEntityTable.indexToHandle_eq hi)

theorem setField_of_valid (h : Valid x) {handle : Nat} {v w : Nat × Nat}
    (hv : x.live handle = some v) {f : CodePointerTableEntry → CodePointerTableEntry}
    (hf : f (entryOf v) = entryOf w) :
    ∃ u, setField x.table handle f = some u ∧
      Valid ⟨u, Function.update x.live handle (some w)⟩ := by
  obtain ⟨u, hresult, hvalid⟩ := h.update used_entryOf hv hf trivial
  refine ⟨u, ?_, hvalid⟩
  rw [setField, if_neg (ne_zero_of_live h hv)]
  exact hresult

/-- **One operation**: no check fails, and the invariant is kept. -/
theorem step_valid (h : Valid x) {a : Op} (ha : Allowed x a) : ∃ y, step x a = some y ∧ Valid y := by
  cases a with
  | allocate c e =>
    obtain ⟨handle, u, hresult, -, -, hvalid⟩ := allocate_of_valid h ha
    refine ⟨_, ?_, hvalid⟩
    rw [step, hresult]
    rfl
  | setEntrypoint handle value =>
    obtain ⟨v, hv⟩ := ha
    obtain ⟨u, hresult, hvalid⟩ := setField_of_valid h hv (w := (v.1, value))
      (f := fun e => { e with entrypoint := value }) rfl
    refine ⟨_, ?_, hvalid⟩
    rw [step, setEntrypoint, hresult, hv]
    rfl
  | setCodeObject handle value =>
    obtain ⟨v, hv⟩ := ha
    obtain ⟨u, hresult, hvalid⟩ := setField_of_valid h hv (w := (value, v.2))
      (f := fun e => { e with codeObject := value }) rfl
    refine ⟨_, ?_, hvalid⟩
    rw [step, setCodeObject, hresult, hv]
    rfl
  | free handle =>
    obtain ⟨v, hv⟩ := ha
    obtain ⟨u, hresult, hvalid⟩ := h.freeEntry used_entryOf hv
    refine ⟨⟨u, Function.update x.live handle none⟩, ?_, hvalid⟩
    rw [step, freeEntry, if_neg (ne_zero_of_live h hv), hresult]
    rfl

theorem step_live (h : Valid x) {a : Op} (ha : Allowed x a) (hstep : step x a = some y)
    {handle : Nat} (hne : a.handle? ≠ some handle) {v : Nat × Nat}
    (hv : x.live handle = some v) : y.live handle = x.live handle := by
  cases a with
  | allocate c e =>
    obtain ⟨given, u, hresult, -, hnone, -⟩ := allocate_of_valid h ha
    rw [step, hresult] at hstep
    obtain rfl := some.inj hstep
    refine update_of_ne ?_ _ _
    rintro rfl
    rw [hnone] at hv
    cases hv
  | setEntrypoint other value | setCodeObject other value | free other =>
    obtain ⟨u, -, hstep⟩ := bind_eq_some_iff.mp hstep
    obtain rfl := some.inj hstep
    exact update_of_ne (fun heq => hne (congrArg some heq.symm)) _ _

theorem sound_of_valid (h : Valid x) : Sound x where
  freelist := h.chain used_entryOf
  get_live _ _ _ hv := ⟨getField_of_live h hv _, getField_of_live h hv _⟩
  get_dead _ hlt hv := ⟨getField_of_dead h hlt hv _, getField_of_dead h hlt hv _⟩
  contains_iff _ hlt := contains_iff_live h hlt
  fresh c e ha := by
    obtain ⟨handle, u, hresult, hne, hnone, -⟩ := allocate_of_valid h ha
    exact ⟨handle, u, hresult, hne, hnone⟩
  others a y ha hstep handle hne hv := by
    obtain ⟨v, hv⟩ := hv
    have hlive := step_live h ha hstep hne hv
    obtain ⟨z, hz, hvalid⟩ := step_valid h ha
    obtain rfl := some.inj (hz.symm.trans hstep)
    refine ⟨hlive, ?_, ?_⟩
    · rw [getCodeObject, getCodeObject, getField_of_live hvalid (hlive.trans hv),
        getField_of_live h hv]
    · rw [getEntrypoint, getEntrypoint, getField_of_live hvalid (hlive.trans hv),
        getField_of_live h hv]

theorem valid_start : Valid (⟨{}, fun _ => none⟩ : Held CodePointerTable (Nat × Nat)) where
  length_lt := show 0 < nullIndex by decide
  head_lt := show nullIndex < 2 ^ 32 by decide
  threaded := ExternalEntityTable.threaded_nil
  entry _ _ he := nomatch he
  inside _ _ hv := nomatch hv

/-- **Every state of every run of the code pointer table is sound.** -/
theorem sound_of_reachable {s : Option (Held CodePointerTable (Nat × Nat))} (h : Reachable s) :
    ∃ x, s = some x ∧ Sound x := by
  have hvalid : ∃ x, s = some x ∧ Valid x := by
    induction h with
    | start => exact ⟨_, rfl, valid_start⟩
    | step a _ ha ih =>
      obtain ⟨x, rfl, hvalid⟩ := ih
      exact step_valid hvalid (ha x rfl)
  obtain ⟨x, hx, hvalid⟩ := hvalid
  exact ⟨x, hx, sound_of_valid hvalid⟩

end CodePointerTable

/-! ### The five tables -/

/-- **The tables of entries are sound in every state of every run.**  No check of a table fails,
and the freelist, the handles that are held and what is read through any handle are as `Sound`
says. -/
theorem entityTables_sound :
    (∀ s, PointerTable.Reachable trustedLayout s → ∃ x, s = some x ∧ PointerTable.Sound x) ∧
    (∀ s, PointerTable.Reachable externalLayout s → ∃ x, s = some x ∧ PointerTable.Sound x) ∧
    (∀ s, PointerTable.Reachable indirectLayout s → ∃ x, s = some x ∧ PointerTable.Sound x) ∧
    (∀ s, PointerTable.Reachable cppHeapLayout s → ∃ x, s = some x ∧ PointerTable.Sound x) ∧
    (∀ s, CodePointerTable.Reachable s → ∃ x, s = some x ∧ CodePointerTable.Sound x) :=
  ⟨fun _ => PointerTable.sound_of_reachable, fun _ => PointerTable.sound_of_reachable,
    fun _ => PointerTable.sound_of_reachable, fun _ => PointerTable.sound_of_reachable,
    fun _ => CodePointerTable.sound_of_reachable⟩

/-! ### Whose tag is checked -/

namespace PointerTable

variable {l : Layout}

/-- The entry made with a pointer and a tag reads as the pointer under the ranges with the tag,
and as null under all others. -/
def Confined (t : PointerTable l) (p : Word) (tag : Tag) : Prop :=
  ∃ handle u, allocateAndInitializeEntry t p tag = some (handle, u) ∧
    ∀ range, get u handle range = if range.contains tag then p else 0

theorem get_allocated {x : Held (PointerTable l) (Word × Tag)} (h : Valid x) (hroom : Room x.table)
    (p : Word) (t : Tag) : ∃ handle u, allocateAndInitializeEntry x.table p t = some (handle, u) ∧
      ∀ range, get u handle range = l.untagAllowNullHandle (l.tag p t) range := by
  obtain ⟨i, u, hresult, hi, he⟩ := h.exists_allocateEntry used_of_admissible hroom ⟨l.tag p t⟩
  refine ⟨i + 1, u, ?_, fun range => ?_⟩
  · rw [allocateAndInitializeEntry, hresult]
    exact congrArg (fun handle => some (handle, u)) (ExternalEntityTable.indexToHandle_eq hi)
  · have hindex : handleToIndex (i + 1) = i :=
      ExternalEntityTable.handleToIndex_eq (Nat.succ_pos i) (by unfold nullIndex at hi; omega)
    rw [get, if_neg (Nat.succ_ne_zero i), hindex, he]

theorem confined_iff {x : Held (PointerTable l) (Word × Tag)} (h : Reachable l (some x))
    (hroom : Room x.table) (p : Word) {t : Tag} (ht : l.Assignable t) :
    Confined x.table p t ↔ l.Fits p := by
  obtain ⟨y, hy, hvalid⟩ := valid_of_reachable h
  obtain rfl := some.inj hy
  obtain ⟨handle, u, hresult, hget⟩ := get_allocated hvalid hroom p t
  constructor
  · rintro ⟨handle', u', hresult', hget'⟩
    obtain ⟨rfl, rfl⟩ := Prod.mk.inj (some.inj (hresult.symm.trans hresult'))
    have hread := (hget (.single t)).symm.trans (hget' (.single t))
    rw [if_pos ((TagRange.contains_single t t).mpr rfl)] at hread
    rw [← hread]
    exact l.untag_lt _ _
  · exact fun hp => ⟨handle, u, hresult, fun range => (hget range).trans (l.untag_tag hp ht range)⟩

end PointerTable

/-- **The tag of an entry is confined exactly for the pointers that fit the payload field**: 55
bits in the indirect pointer table, 47 bits in the external one, in every state of a run. -/
theorem tagConfinement (p : Word) (t : Tag) :
    (∀ x, indirectLayout.Assignable t → PointerTable.Reachable indirectLayout (some x) →
      PointerTable.Room x.table → (PointerTable.Confined x.table p t ↔ p.toNat < 2 ^ 55)) ∧
    (∀ x, externalLayout.Assignable t → PointerTable.Reachable externalLayout (some x) →
      PointerTable.Room x.table → (PointerTable.Confined x.table p t ↔ p.toNat < 2 ^ 47)) :=
  ⟨fun _ ht hx hroom => PointerTable.confined_iff hx hroom p ht,
    fun _ ht hx hroom => PointerTable.confined_iff hx hroom p ht⟩

/-- A guest address whose bit 57 is set, under tag 1: the entry is read as null under tag 1, and
as the address without the bit under tag 3. -/
theorem not_tagConfinement_forged :
    ¬PointerTable.Confined ({} : IndirectPointerTable) 0x0200000000001000 1 ∧
    ((PointerTable.allocateAndInitializeEntry ({} : IndirectPointerTable)
      0x0200000000001000 1).map fun r =>
        (PointerTable.get r.2 r.1 (.single 1), PointerTable.get r.2 r.1 (.single 3))) =
      some (0, 0x1000) := by
  refine ⟨?_, by decide⟩
  rintro ⟨handle, u, hresult, hget⟩
  have hread : (PointerTable.allocateAndInitializeEntry ({} : IndirectPointerTable)
      0x0200000000001000 1).map (fun r => PointerTable.get r.2 r.1 (.single 1)) = some 0 := by decide
  rw [hresult, map_some, hget] at hread
  exact absurd hread (by decide)

end Voodoo.Sandbox
