import Mathlib.Data.List.Range
import Voodoo.Sandbox.PointerTables

/-!
# Type tags

One counter of 16 bits feeds every tag of the `CppHeapPointerTable`s of a process: single tags,
ranges for the interfaces of a generated header, and one tag for each type that is interned.
`type_intern.cc` names an object with the tag of its type and gives it back under that tag.

Nothing looks at the counter, so it runs into the tags the table keeps for itself, past the 15 bits
an entry has for a tag, and around.  A `Roomy` step is one after which it has not passed the last tag
an embedder may have.

* `typeTags_unique`: in every run of roomy steps all blocks of tags are disjoint and inside the
  embedder's tags, an object is found under the key it was named with and under no other, and the
  record of a type is the one it was interned with.
* `not_typeTags_unique_wrapped`: what happens behind 32767 tags.
-/

namespace Voodoo.Sandbox

open Machine List Option Function

/-- `kLastObjectWrappableTag` plus one: the first tag the tables keep for themselves. -/
def firstReservedTag : Nat := 0x7ffd

/-- `AllocateCppHeapPointerTag` on the counter: the tag, and the counter after it. -/
def allocateCppHeapPointerTag (next : Tag) : Tag × Tag := (next, next + 1)

/-- `AllocateCppHeapPointerTagRange`. -/
def allocateCppHeapPointerTagRange (next count : Tag) : Tag × Tag := (next, next + count)

/-- The counter, and the `InternState`. -/
structure TypeIntern (κ : Type) where
  nextTag : Tag := 1
  heap : CppHeapPointerTable := {}
  types : TrustedPointerTable := {}
  byKey : List (κ × Nat) := []
  tags : List Tag := []
  tpt : List Nat := []

/-- `kGenericTrustedObjectTag`. -/
def genericTrustedObjectTag : Tag := 1

namespace TypeIntern

variable {κ : Type} [DecidableEq κ]

/-- `InternType`; `record` is where the cage puts the record of a new type. -/
def internType (s : TypeIntern κ) (key : κ) (record : Word) : Option (Nat × TypeIntern κ) :=
  match s.byKey.lookup key with
  | some id => some (id, s)
  | none => do
    let id := (s.tags.length + 1) % 2 ^ 32
    let (tag, next) := allocateCppHeapPointerTag s.nextTag
    let (handle, types) ←
      PointerTable.allocateAndInitializeEntry s.types record genericTrustedObjectTag
    return (id, { s with
      nextTag := next, types := types, byKey := (key, id) :: s.byKey
      tags := s.tags ++ [tag], tpt := s.tpt ++ [handle] })

/-- `TypeTag`. -/
def typeTag (s : TypeIntern κ) (key : κ) (record : Word) : Option (Tag × TypeIntern κ) := do
  let (id, s) ← s.internType key record
  let tag ← s.tags[id - 1]?
  return (tag, s)

/-- `InternedType`, as the address of the record. -/
def internedType (s : TypeIntern κ) (key : κ) (record : Word) : Option (Word × TypeIntern κ) := do
  let (id, s) ← s.internType key record
  let handle ← s.tpt[id - 1]?
  return (PointerTable.get s.types handle (.single genericTrustedObjectTag), s)

/-- `NameObject`. -/
def nameObject (s : TypeIntern κ) (p : Word) (key : κ) (record : Word) :
    Option (Nat × TypeIntern κ) := do
  let (tag, s) ← s.typeTag key record
  let (handle, heap) ← PointerTable.allocateAndInitializeEntry s.heap p tag
  return (handle, { s with heap := heap })

/-- `GetObject`. -/
def getObject (s : TypeIntern κ) (handle : Nat) (key : κ) (record : Word) :
    Option (Word × TypeIntern κ) := do
  let (tag, s) ← s.typeTag key record
  return (PointerTable.get s.heap handle (.single tag), s)

/-- `FreeObject`. -/
def freeObject (s : TypeIntern κ) (handle : Nat) : Option (TypeIntern κ) := do
  let heap ← PointerTable.freeEntry s.heap handle
  return { s with heap := heap }

end TypeIntern

/-- A process: its tables, the blocks of tags it has handed out, the newest first, the objects
that are named, and the records of the types that are interned. -/
structure TypeProcess (κ : Type) where
  intern : TypeIntern κ := {}
  blocks : List (Tag × Nat) := []
  named : Nat → Option (Word × κ) := fun _ => none
  records : κ → Option Word := fun _ => none

namespace TypeProcess

variable {κ : Type} [DecidableEq κ]

/-- What the code of a process may do. -/
inductive Op (κ : Type) where
  | allocateTag
  | allocateRange (count : Tag)
  | typeTag (key : κ) (record : Word)
  | internedType (key : κ) (record : Word)
  | nameObject (p : Word) (key : κ) (record : Word)
  | getObject (handle : Nat) (key : κ) (record : Word)
  | freeObject (handle : Nat)

/-- How many tags an operation hands out. -/
def count (x : TypeProcess κ) : Op κ → Nat
  | .allocateTag => 1
  | .allocateRange count => count.toNat
  | .freeObject _ => 0
  | .typeTag key _ | .internedType key _ | .nameObject _ key _ | .getObject _ key _ =>
    if (x.intern.byKey.lookup key).isSome then 0 else 1

/-- What interning a key changes beside the tables. -/
def interned (x : TypeProcess κ) (key : κ) (record : Word) (s : TypeIntern κ) : TypeProcess κ :=
  if (x.intern.byKey.lookup key).isSome then { x with intern := s }
  else
    { x with
      intern := s, blocks := (x.intern.nextTag, 1) :: x.blocks
      records := Function.update x.records key (some record) }

/-- One operation. -/
def step (x : TypeProcess κ) : Op κ → Option (TypeProcess κ)
  | .allocateTag =>
    let (tag, next) := allocateCppHeapPointerTag x.intern.nextTag
    some { x with intern := { x.intern with nextTag := next }, blocks := (tag, 1) :: x.blocks }
  | .allocateRange count =>
    let (base, next) := allocateCppHeapPointerTagRange x.intern.nextTag count
    some { x with
      intern := { x.intern with nextTag := next }, blocks := (base, count.toNat) :: x.blocks }
  | .typeTag key record => do
    let (_, s) ← x.intern.typeTag key record
    return x.interned key record s
  | .internedType key record => do
    let (_, s) ← x.intern.internedType key record
    return x.interned key record s
  | .nameObject p key record => do
    let (handle, s) ← x.intern.nameObject p key record
    let y := x.interned key record s
    return { y with named := Function.update y.named handle (some (p, key)) }
  | .getObject handle key record => do
    let (_, s) ← x.intern.getObject handle key record
    return x.interned key record s
  | .freeObject handle => do
    let s ← x.intern.freeObject handle
    return { x with intern := s, named := Function.update x.named handle none }

/-- The counter has not passed the embedder's tags after the operation. -/
def Roomy (x : TypeProcess κ) (a : Op κ) : Prop :=
  x.intern.nextTag.toNat + x.count a ≤ firstReservedTag

instance (x : TypeProcess κ) (a : Op κ) : Decidable (Roomy x a) :=
  inferInstanceAs (Decidable (_ ≤ _))

/-- What the table of the objects asks of its clients: an object fits the 48 bits of a payload, the
table has room, and what is freed is named. -/
def Allowed (x : TypeProcess κ) : Op κ → Prop
  | .nameObject p _ _ => cppHeapLayout.Fits p ∧ PointerTable.Room x.intern.heap
  | .freeObject handle => ∃ v, x.named handle = some v
  | .allocateTag | .allocateRange _ | .typeTag _ _ | .internedType _ _ | .getObject _ _ _ => True

/-- The states of the runs whose steps are all roomy. -/
abbrev Reachable : Option (TypeProcess κ) → Prop :=
  Reaches (some {}) (fun s a => s.bind fun x => step x a)
    (fun s a => ∀ x, s = some x → Allowed x a ∧ Roomy x a)

/-- The tag a key is interned under. -/
def tagOf (s : TypeIntern κ) (key : κ) : Option Tag :=
  (s.byKey.lookup key).bind fun id => s.tags[id - 1]?

/-- What the table of the objects holds for its handles. -/
def live (x : TypeProcess κ) (handle : Nat) : Option (Word × Tag) :=
  (x.named handle).bind fun v => (tagOf x.intern v.2).map fun t => (v.1, t)

/-- What a process can rely on. -/
structure Sound (x : TypeProcess κ) : Prop where
  disjoint : x.blocks.Pairwise fun b a => a.1.toNat + a.2 ≤ b.1.toNat
  inside : ∀ b ∈ x.blocks, 1 ≤ b.1.toNat ∧ b.1.toNat + b.2 ≤ firstReservedTag
  typeTag : ∀ key record, Roomy x (.typeTag key record) →
    ∃ t s, x.intern.typeTag key record = some (t, s) ∧ (t, 1) ∈ (x.interned key record s).blocks
  getObject : ∀ handle p key, x.named handle = some (p, key) → ∀ other record,
    Roomy x (.getObject handle other record) →
    ∃ s, x.intern.getObject handle other record = some (if other = key then p else 0, s)
  internedType : ∀ key w, x.records key = some w → trustedLayout.Fits w → ∀ record,
    x.intern.internedType key record = some (w, x.intern)

/-- The invariant of the runs of roomy steps. -/
structure Valid (x : TypeProcess κ) : Prop where
  next_pos : 1 ≤ x.intern.nextTag.toNat
  next_le : x.intern.nextTag.toNat ≤ firstReservedTag
  disjoint : x.blocks.Pairwise fun b a => a.1.toNat + a.2 ≤ b.1.toNat
  inside : ∀ b ∈ x.blocks, 1 ≤ b.1.toNat ∧ b.1.toNat + b.2 ≤ x.intern.nextTag.toNat
  ids : x.intern.byKey.map Prod.snd = (List.range' 1 x.intern.tags.length).reverse
  increasing : x.intern.tags.Pairwise fun t u => t.toNat < u.toNat
  tag_block : ∀ t ∈ x.intern.tags, (t, 1) ∈ x.blocks
  types_head : x.intern.types.freeListHead = nullIndex
  types_length : x.intern.types.entries.length = x.intern.tags.length
  tpt : x.intern.tpt = List.range' 1 x.intern.tags.length
  record : ∀ key id, x.intern.byKey.lookup key = some id → ∃ w, x.records key = some w ∧
    x.intern.types.entries[id - 1]? =
      some (PointerTable.entryOf trustedLayout (w, genericTrustedObjectTag))
  no_record : ∀ key, x.intern.byKey.lookup key = none → x.records key = none
  named : ∀ handle p key, x.named handle = some (p, key) →
    (x.intern.byKey.lookup key).isSome = true
  heap : ExternalEntityTable.Holds (PointerTable.entryOf cppHeapLayout)
    (PointerTable.Admissible cppHeapLayout) x.intern.heap (live x)

variable {x y : TypeProcess κ}

/-! ### Interning -/

theorem mem_of_lookup {key : κ} {id : Nat} {l : List (κ × Nat)} (h : l.lookup key = some id) :
    (key, id) ∈ l := by
  induction l with
  | nil => cases h
  | cons e l ih =>
    obtain ⟨other, n⟩ := e
    rw [List.lookup_cons] at h
    cases heq : key == other with
    | true =>
      rw [heq] at h
      obtain rfl := eq_of_beq heq
      obtain rfl := some.inj h
      exact mem_cons_self
    | false =>
      rw [heq] at h
      exact mem_cons_of_mem _ (ih h)

namespace Valid

theorem id_range (h : Valid x) {key : κ} {id : Nat} (hid : x.intern.byKey.lookup key = some id) :
    1 ≤ id ∧ id ≤ x.intern.tags.length := by
  have hmem : id ∈ x.intern.byKey.map Prod.snd :=
    List.mem_map.mpr ⟨(key, id), mem_of_lookup hid, rfl⟩
  rw [h.ids, mem_reverse, mem_range'_1] at hmem
  omega

theorem key_eq (h : Valid x) {key other : κ} {id : Nat}
    (hid : x.intern.byKey.lookup key = some id) (hother : x.intern.byKey.lookup other = some id) :
    key = other := by
  have hnodup : (x.intern.byKey.map Prod.snd).Nodup := by
    rw [h.ids, nodup_reverse]
    exact nodup_range'
  have hpair := inj_on_of_nodup_map hnodup (mem_of_lookup hid) (mem_of_lookup hother) rfl
  exact congrArg Prod.fst hpair

theorem exists_tag (h : Valid x) {key : κ} {id : Nat}
    (hid : x.intern.byKey.lookup key = some id) :
    ∃ t, x.intern.tags[id - 1]? = some t ∧ (t, 1) ∈ x.blocks := by
  have hrange := h.id_range hid
  have hlt : id - 1 < x.intern.tags.length := by omega
  exact ⟨_, getElem?_eq_getElem hlt, h.tag_block _ (getElem_mem hlt)⟩

theorem tag_ne (h : Valid x) {key other : κ} {id id' : Nat} {t t' : Tag}
    (hid : x.intern.byKey.lookup key = some id) (hid' : x.intern.byKey.lookup other = some id')
    (ht : x.intern.tags[id - 1]? = some t) (ht' : x.intern.tags[id' - 1]? = some t')
    (hne : key ≠ other) : t ≠ t' := by
  have hrange := h.id_range hid
  have hrange' := h.id_range hid'
  have hids : id ≠ id' := by
    rintro rfl
    exact hne (h.key_eq hid hid')
  obtain ⟨hlt, rfl⟩ := List.getElem?_eq_some_iff.mp ht
  obtain ⟨hlt', rfl⟩ := List.getElem?_eq_some_iff.mp ht'
  have hpairwise := pairwise_iff_getElem.mp h.increasing
  intro heq
  rcases Nat.lt_or_gt_of_ne hids with hord | hord
  · have hstrict := hpairwise (id - 1) (id' - 1) hlt hlt' (by omega)
    rw [heq] at hstrict
    exact Nat.lt_irrefl _ hstrict
  · have hstrict := hpairwise (id' - 1) (id - 1) hlt' hlt (by omega)
    rw [heq] at hstrict
    exact Nat.lt_irrefl _ hstrict

theorem assignable (h : Valid x) {t : Tag} (ht : (t, 1) ∈ x.blocks) : cppHeapLayout.Assignable t := by
  obtain ⟨hpos, hle⟩ : 1 ≤ t.toNat ∧ t.toNat + 1 ≤ x.intern.nextTag.toNat := h.inside _ ht
  have hnext := h.next_le
  unfold firstReservedTag at hnext
  refine ⟨hpos, ?_⟩
  show t.toNat ≤ 0x7ffc
  omega

theorem tagOf_eq {s : TypeIntern κ} {key : κ} {id : Nat} {t : Tag}
    (hid : s.byKey.lookup key = some id) (ht : s.tags[id - 1]? = some t) : tagOf s key = some t := by
  rw [tagOf, hid, bind_some, ht]

theorem isSome_tagOf (h : Valid x) {key : κ} (hkey : (x.intern.byKey.lookup key).isSome = true) :
    ∃ t, tagOf x.intern key = some t := by
  obtain ⟨id, hid⟩ := isSome_iff_exists.mp hkey
  obtain ⟨t, ht, -⟩ := h.exists_tag hid
  exact ⟨t, tagOf_eq hid ht⟩

theorem live_of_named (h : Valid x) {handle : Nat} {p : Word} {key : κ}
    (hnamed : x.named handle = some (p, key)) :
    ∃ t, tagOf x.intern key = some t ∧ live x handle = some (p, t) := by
  obtain ⟨t, ht⟩ := h.isSome_tagOf (h.named handle p key hnamed)
  exact ⟨t, ht, by rw [live, hnamed, bind_some, ht, map_some]⟩

theorem toNat_add {next count : Tag} (h : next.toNat + count.toNat ≤ firstReservedTag) :
    (next + count).toNat = next.toNat + count.toNat := by
  rw [BitVec.toNat_add, Nat.mod_eq_of_lt (h.trans_lt (by decide))]

theorem take (h : Valid x) (count : Tag)
    (hroom : x.intern.nextTag.toNat + count.toNat ≤ firstReservedTag) :
    (∀ b ∈ x.blocks, b.1.toNat + b.2 ≤ x.intern.nextTag.toNat) ∧
    (∀ b ∈ (x.intern.nextTag, count.toNat) :: x.blocks,
      1 ≤ b.1.toNat ∧ b.1.toNat + b.2 ≤ (x.intern.nextTag + count).toNat) := by
  refine ⟨fun b hb => (h.inside b hb).2, fun b hb => ?_⟩
  rw [toNat_add hroom]
  rcases mem_cons.mp hb with rfl | hb
  · exact ⟨h.next_pos, Nat.le_refl _⟩
  · exact ⟨(h.inside b hb).1, (h.inside b hb).2.trans (Nat.le_add_right _ _)⟩

/-- **Handing out a block.** -/
theorem allocate (h : Valid x) (count : Tag)
    (hroom : x.intern.nextTag.toNat + count.toNat ≤ firstReservedTag) :
    Valid { x with
      intern := { x.intern with nextTag := x.intern.nextTag + count }
      blocks := (x.intern.nextTag, count.toNat) :: x.blocks } where
  next_pos := by
    show 1 ≤ (x.intern.nextTag + count).toNat
    rw [toNat_add hroom]
    exact h.next_pos.trans (Nat.le_add_right _ _)
  next_le := by
    show (x.intern.nextTag + count).toNat ≤ firstReservedTag
    rw [toNat_add hroom]
    exact hroom
  disjoint := pairwise_cons.mpr ⟨(h.take count hroom).1, h.disjoint⟩
  inside := (h.take count hroom).2
  ids := h.ids
  increasing := h.increasing
  tag_block t ht := mem_cons_of_mem _ (h.tag_block t ht)
  types_head := h.types_head
  types_length := h.types_length
  tpt := h.tpt
  record := h.record
  no_record := h.no_record
  named := h.named
  heap := h.heap

theorem tag_lt_next (h : Valid x) {t : Tag} (ht : t ∈ x.intern.tags) :
    t.toNat < x.intern.nextTag.toNat :=
  (h.inside _ (h.tag_block t ht)).2

theorem length_tags (h : Valid x) : x.intern.tags.length < 2 ^ 16 := by
  have hnodup : (x.intern.tags.map BitVec.toNat).Nodup :=
    List.Pairwise.imp (fun hlt => Nat.ne_of_lt hlt) (pairwise_map.mpr h.increasing)
  have hsubset : x.intern.tags.map BitVec.toNat ⊆ List.range x.intern.nextTag.toNat := by
    intro n hn
    obtain ⟨t, ht, rfl⟩ := List.mem_map.mp hn
    exact mem_range.mpr (h.tag_lt_next ht)
  have hle := (hnodup.subperm hsubset).length_le
  rw [length_map, length_range] at hle
  exact hle.trans_lt x.intern.nextTag.isLt

/-- **Interning a new type.** -/
theorem internNew (h : Valid x) {key : κ} (record : Word)
    (hkey : x.intern.byKey.lookup key = none)
    (hroom : x.intern.nextTag.toNat + 1 ≤ firstReservedTag) :
    ∃ s, x.intern.internType key record = some (x.intern.tags.length + 1, s) ∧
      s.tags = x.intern.tags ++ [x.intern.nextTag] ∧
      s.byKey = (key, x.intern.tags.length + 1) :: x.intern.byKey ∧ s.heap = x.intern.heap ∧
      Valid { x with
        intern := s, blocks := (x.intern.nextTag, 1) :: x.blocks
        records := Function.update x.records key (some record) } := by
  have hnext := h.next_le
  have hadd : (x.intern.nextTag + 1).toNat = x.intern.nextTag.toNat + 1 := toNat_add hroom
  have hcount := h.length_tags
  have hid : (x.intern.tags.length + 1) % 2 ^ 32 = x.intern.tags.length + 1 :=
    Nat.mod_eq_of_lt (by omega)
  have hlength : x.intern.types.entries.length < nullIndex := by
    rw [h.types_length]
    unfold nullIndex
    omega
  have hallocate := PointerTable.allocate_of_full h.types_head hlength record
    genericTrustedObjectTag
  refine ⟨{ x.intern with
    nextTag := x.intern.nextTag + 1
    types := { entries := x.intern.types.entries ++
                [PointerTable.entryOf trustedLayout (record, genericTrustedObjectTag)]
               freeListHead := nullIndex }
    byKey := (key, x.intern.tags.length + 1) :: x.intern.byKey
    tags := x.intern.tags ++ [x.intern.nextTag]
    tpt := x.intern.tpt ++ [x.intern.types.entries.length + 1] }, ?_, rfl, rfl, rfl, ?_⟩
  · rw [TypeIntern.internType, hkey]
    show (PointerTable.allocateAndInitializeEntry x.intern.types record
      genericTrustedObjectTag).bind _ = _
    rw [hallocate, bind_some, hid]
    rfl
  have hother {k : κ} {id : Nat} (hk : x.intern.byKey.lookup k = some id) :
      List.lookup k ((key, x.intern.tags.length + 1) :: x.intern.byKey) = some id := by
    rw [List.lookup_cons]
    cases heq : k == key with
    | true =>
      rw [eq_of_beq heq, hkey] at hk
      cases hk
    | false => exact hk
  have htags {id : Nat} {t : Tag} (ht : x.intern.tags[id - 1]? = some t) :
      (x.intern.tags ++ [x.intern.nextTag])[id - 1]? = some t := by
    rw [getElem?_append_left (List.getElem?_eq_some_iff.mp ht).1]
    exact ht
  have htake := h.take 1 hroom
  refine ⟨?_, ?_, pairwise_cons.mpr ⟨htake.1, h.disjoint⟩, htake.2, ?_, ?_, fun t ht => ?_, rfl,
    ?_, ?_, fun k id hk => ?_, fun k hk => ?_, fun handle p k hnamed => ?_, ?_⟩
  · show 1 ≤ (x.intern.nextTag + 1).toNat
    omega
  · show (x.intern.nextTag + 1).toNat ≤ firstReservedTag
    omega
  · show _ :: x.intern.byKey.map Prod.snd = _
    rw [h.ids, length_append, length_singleton, range'_1_concat, reverse_append,
      Nat.add_comm 1]
    rfl
  · refine pairwise_append.mpr ⟨h.increasing, pairwise_singleton _ _, fun t ht u hu => ?_⟩
    rw [mem_singleton.mp hu]
    exact h.tag_lt_next ht
  · rcases mem_append.mp ht with ht | ht
    · exact mem_cons_of_mem _ (h.tag_block t ht)
    · rw [mem_singleton.mp ht]
      exact mem_cons_self
  · show (x.intern.types.entries ++ [_]).length = (x.intern.tags ++ [_]).length
    rw [length_append, length_append, h.types_length]
    rfl
  · show x.intern.tpt ++ [x.intern.types.entries.length + 1] = _
    rw [h.tpt, h.types_length, length_append, length_singleton, range'_1_concat,
      Nat.add_comm 1]
  · by_cases heq : k = key
    · subst heq
      have hnew : id = x.intern.tags.length + 1 := by
        have hk' : List.lookup k ((k, x.intern.tags.length + 1) :: x.intern.byKey) = some id := hk
        rw [List.lookup_cons, beq_self_eq_true] at hk'
        exact (some.inj hk').symm
      refine ⟨record, update_self _ _ _, ?_⟩
      rw [hnew, Nat.add_sub_cancel, ← h.types_length]
      exact getElem?_concat_length
    · have hold : x.intern.byKey.lookup k = some id := by
        have hk' : List.lookup k ((key, x.intern.tags.length + 1) :: x.intern.byKey) = some id := hk
        rw [List.lookup_cons, beq_false_of_ne heq] at hk'
        exact hk'
      obtain ⟨w, hw, he⟩ := h.record k id hold
      refine ⟨w, (update_of_ne heq _ _).trans hw, ?_⟩
      show (x.intern.types.entries ++ [_])[id - 1]? = _
      rw [getElem?_append_left (List.getElem?_eq_some_iff.mp he).1]
      exact he
  · have hk' : List.lookup k ((key, x.intern.tags.length + 1) :: x.intern.byKey) = none := hk
    rw [List.lookup_cons] at hk'
    cases heq : k == key with
    | true =>
      rw [heq] at hk'
      cases hk'
    | false =>
      rw [heq] at hk'
      exact (update_of_ne (ne_of_beq_false heq) _ _).trans (h.no_record k hk')
  · obtain ⟨id, hk⟩ := isSome_iff_exists.mp (h.named handle p k hnamed)
    exact isSome_iff_exists.mpr ⟨id, hother hk⟩
  · refine Eq.subst (motive := ExternalEntityTable.Holds _ _ x.intern.heap) (funext fun handle => ?_)
      h.heap
    cases hnamed : x.named handle with
    | none =>
      rw [live, live]
      show _ = (x.named handle).bind _
      rw [hnamed]
      rfl
    | some v =>
      obtain ⟨p, k⟩ := v
      obtain ⟨id, hk⟩ := isSome_iff_exists.mp (h.named handle p k hnamed)
      obtain ⟨t, ht, -⟩ := h.exists_tag hk
      rw [live, live]
      show _ = (x.named handle).bind _
      rw [hnamed, bind_some, bind_some, tagOf_eq hk ht]
      exact (congrArg (Option.map _) (tagOf_eq (hother hk) (htags ht))).symm

/-- **Interning a key**, new or not. -/
theorem intern (h : Valid x) (key : κ) (record : Word)
    (hroom : x.intern.nextTag.toNat + (if (x.intern.byKey.lookup key).isSome then 0 else 1) ≤
      firstReservedTag) :
    ∃ id s, x.intern.internType key record = some (id, s) ∧ s.byKey.lookup key = some id ∧
      s.heap = x.intern.heap ∧ Valid (x.interned key record s) := by
  cases hkey : x.intern.byKey.lookup key with
  | some id =>
    refine ⟨id, x.intern, ?_, hkey, rfl, ?_⟩
    · rw [TypeIntern.internType, hkey]
    · rw [interned, hkey, isSome_some, if_pos rfl]
      exact h
  | none =>
    rw [hkey] at hroom
    obtain ⟨s, hresult, -, hbyKey, hheap, hvalid⟩ := h.internNew record hkey hroom
    refine ⟨_, s, hresult, ?_, hheap, ?_⟩
    · rw [hbyKey, List.lookup_cons, beq_self_eq_true]
    · rw [interned, hkey, isSome_none, if_neg Bool.false_ne_true]
      exact hvalid

theorem intern_interned (x : TypeProcess κ) (key : κ) (record : Word) (s : TypeIntern κ) :
    (x.interned key record s).intern = s ∧ (x.interned key record s).named = x.named := by
  rw [interned]
  split <;> exact ⟨rfl, rfl⟩

theorem typeTag (h : Valid x) (key : κ) (record : Word)
    (hroom : x.intern.nextTag.toNat + (if (x.intern.byKey.lookup key).isSome then 0 else 1) ≤
      firstReservedTag) :
    ∃ t s, x.intern.typeTag key record = some (t, s) ∧ tagOf s key = some t ∧
      s.heap = x.intern.heap ∧ (t, 1) ∈ (x.interned key record s).blocks ∧
      Valid (x.interned key record s) := by
  obtain ⟨id, s, hresult, hid, hheap, hvalid⟩ := h.intern key record hroom
  have hs := (intern_interned x key record s).1
  rw [← hs] at hid
  obtain ⟨t, ht, hblock⟩ := hvalid.exists_tag hid
  rw [hs] at hid ht
  refine ⟨t, s, ?_, tagOf_eq hid ht, hheap, hblock, hvalid⟩
  rw [TypeIntern.typeTag, hresult]
  show (s.tags[id - 1]?).bind _ = _
  rw [ht]
  rfl

/-- **An object is found under its own key.** -/
theorem get_named (h : Valid x) (handle : Nat) (p : Word) (key other : κ) (t : Tag)
    (hnamed : x.named handle = some (p, key)) (ht : tagOf x.intern other = some t) :
    PointerTable.get x.intern.heap handle (.single t) = if other = key then p else 0 := by
  obtain ⟨u, hu, hlive⟩ := h.live_of_named hnamed
  obtain ⟨id, hid, ht'⟩ := bind_eq_some_iff.mp ht
  obtain ⟨id', hid', hu'⟩ := bind_eq_some_iff.mp hu
  rw [PointerTable.get_of_live (x := ⟨x.intern.heap, live x⟩) h.heap hlive]
  by_cases heq : other = key
  · subst heq
    rw [hu] at ht
    rw [some.inj ht, if_pos ((TagRange.contains_single t t).mpr rfl), if_pos rfl]
  · have hne : t ≠ u := h.tag_ne hid hid' ht' hu' heq
    rw [if_neg heq, if_neg]
    rw [TagRange.contains_single]
    exact hne.symm

/-- **Naming an object.** -/
theorem nameObject (h : Valid x) (p : Word) (key : κ) (t : Tag) (hfits : cppHeapLayout.Fits p)
    (hroom : PointerTable.Room x.intern.heap) (ht : tagOf x.intern key = some t) :
    ∃ handle heap, PointerTable.allocateAndInitializeEntry x.intern.heap p t = some (handle, heap) ∧
      Valid { x with
        intern := { x.intern with heap := heap }
        named := Function.update x.named handle (some (p, key)) } := by
  obtain ⟨id, hid, ht'⟩ := bind_eq_some_iff.mp ht
  obtain ⟨u, hu, hblock⟩ := h.exists_tag hid
  obtain rfl : t = u := some.inj (ht'.symm.trans hu)
  obtain ⟨handle, heap, hresult, -, -, hvalid⟩ :=
    PointerTable.allocate_of_valid (x := ⟨x.intern.heap, live x⟩) h.heap (p := p) (t := t)
      ⟨hfits, h.assignable hblock, hroom⟩
  refine ⟨handle, heap, hresult, ⟨h.next_pos, h.next_le, h.disjoint, h.inside, h.ids, h.increasing,
    h.tag_block, h.types_head, h.types_length, h.tpt, h.record, h.no_record, fun k q key' hk => ?_,
    ?_⟩⟩
  · replace hk : Function.update x.named handle (some (p, key)) k = some (q, key') := hk
    by_cases heq : k = handle
    · subst heq
      rw [update_self] at hk
      obtain ⟨-, rfl⟩ := Prod.mk.inj (some.inj hk)
      exact isSome_iff_exists.mpr ⟨id, hid⟩
    · rw [update_of_ne heq] at hk
      exact h.named k q key' hk
  · refine Eq.subst (motive := ExternalEntityTable.Holds _ _ heap) (funext fun k => ?_) hvalid
    by_cases heq : k = handle
    · subst heq
      show Function.update (live x) k (some (p, t)) k =
        (Function.update x.named k (some (p, key)) k).bind _
      rw [update_self, update_self, bind_some]
      exact (congrArg (Option.map _) ht).symm
    · show Function.update (live x) handle (some (p, t)) k =
        (Function.update x.named handle (some (p, key)) k).bind _
      rw [update_of_ne heq, update_of_ne heq]
      rfl

/-- **Freeing an object.** -/
theorem freeObject (h : Valid x) {handle : Nat} {v : Word × κ} (hv : x.named handle = some v) :
    ∃ s, x.intern.freeObject handle = some s ∧
      Valid { x with intern := s, named := Function.update x.named handle none } := by
  obtain ⟨p, key⟩ := v
  obtain ⟨t, ht, hlive⟩ := h.live_of_named hv
  obtain ⟨heap, hresult, hvalid⟩ := h.heap.freeEntry PointerTable.used_of_admissible hlive
  have hne : handle ≠ 0 :=
    PointerTable.ne_zero_of_live (x := ⟨x.intern.heap, live x⟩) h.heap hlive
  refine ⟨{ x.intern with heap := heap }, ?_, ⟨h.next_pos, h.next_le, h.disjoint, h.inside, h.ids,
    h.increasing, h.tag_block, h.types_head, h.types_length, h.tpt, h.record, h.no_record,
    fun k q key' hk => ?_, ?_⟩⟩
  · rw [TypeIntern.freeObject, PointerTable.freeEntry, if_neg hne, hresult]
    rfl
  · replace hk : Function.update x.named handle none k = some (q, key') := hk
    by_cases heq : k = handle
    · subst heq
      rw [update_self] at hk
      cases hk
    · rw [update_of_ne heq] at hk
      exact h.named k q key' hk
  · refine Eq.subst (motive := ExternalEntityTable.Holds _ _ heap) (funext fun k => ?_) hvalid
    by_cases heq : k = handle
    · subst heq
      show Function.update (live x) k none k = (Function.update x.named k none k).bind _
      rw [update_self, update_self, bind_none]
    · show Function.update (live x) handle none k = (Function.update x.named handle none k).bind _
      rw [update_of_ne heq, update_of_ne heq]
      rfl

theorem start : Valid ({} : TypeProcess κ) where
  next_pos := show 1 ≤ 1 by decide
  next_le := show 1 ≤ firstReservedTag by decide
  disjoint := .nil
  inside _ hb := nomatch hb
  ids := rfl
  increasing := .nil
  tag_block _ ht := nomatch ht
  types_head := rfl
  types_length := rfl
  tpt := rfl
  record _ _ hid := nomatch hid
  no_record _ _ := rfl
  named _ _ _ hn := nomatch hn
  heap := PointerTable.valid_start

end Valid

/-! ### Runs -/

/-- **One roomy operation.** -/
theorem step_valid (h : Valid x) {a : Op κ} (ha : Allowed x a) (hroom : Roomy x a) :
    ∃ y, step x a = some y ∧ Valid y := by
  cases a with
  | allocateTag => exact ⟨_, rfl, h.allocate 1 hroom⟩
  | allocateRange count => exact ⟨_, rfl, h.allocate count hroom⟩
  | typeTag key record =>
    obtain ⟨t, s, hresult, -, -, -, hvalid⟩ := h.typeTag key record hroom
    refine ⟨_, ?_, hvalid⟩
    rw [step, hresult]
    rfl
  | internedType key record =>
    obtain ⟨id, s, hresult, hid, -, hvalid⟩ := h.intern key record hroom
    have hs := (Valid.intern_interned x key record s).1
    have hrange := hvalid.id_range (hs.symm ▸ hid)
    have htpt := hvalid.tpt
    rw [hs] at hrange htpt
    have hhandle : ∃ n, s.tpt[id - 1]? = some n := by
      rw [htpt]
      exact ⟨_, getElem?_eq_getElem (by rw [length_range']; omega)⟩
    obtain ⟨n, hn⟩ := hhandle
    refine ⟨_, ?_, hvalid⟩
    rw [step, TypeIntern.internedType, hresult]
    show ((s.tpt[id - 1]?).bind _).bind _ = _
    rw [hn]
    rfl
  | nameObject p key record =>
    obtain ⟨hfits, hheapRoom⟩ := ha
    obtain ⟨t, s, hresult, htag, hheap, -, hvalid⟩ := h.typeTag key record hroom
    obtain ⟨hs, hn⟩ := Valid.intern_interned x key record s
    obtain ⟨handle, heap, hallocated, hnamed⟩ := hvalid.nameObject p key t
      hfits (by rwa [hs, hheap]) (by rwa [hs])
    rw [hs] at hallocated hnamed
    refine ⟨_, ?_, hnamed⟩
    rw [step, TypeIntern.nameObject, hresult]
    show (((PointerTable.allocateAndInitializeEntry s.heap p t).bind _).bind _) = _
    rw [hallocated]
    show some _ = some _
    unfold interned
    split <;> rfl
  | getObject handle key record =>
    obtain ⟨t, s, hresult, -, -, -, hvalid⟩ := h.typeTag key record hroom
    refine ⟨_, ?_, hvalid⟩
    rw [step, TypeIntern.getObject, hresult]
    rfl
  | freeObject handle =>
    obtain ⟨v, hv⟩ := ha
    obtain ⟨s, hresult, hvalid⟩ := h.freeObject hv
    refine ⟨_, ?_, hvalid⟩
    rw [step, hresult]
    rfl

theorem internedType_of_valid (h : Valid x) {key : κ} {w : Word} (hw : x.records key = some w)
    (hfits : trustedLayout.Fits w) (record : Word) :
    x.intern.internedType key record = some (w, x.intern) := by
  cases hid : x.intern.byKey.lookup key with
  | none =>
    rw [h.no_record key hid] at hw
    cases hw
  | some id =>
    obtain ⟨v, hv, he⟩ := h.record key id hid
    obtain rfl : w = v := some.inj (hw.symm.trans hv)
    have hrange := h.id_range hid
    have hlt : id - 1 < (List.range' 1 x.intern.tags.length).length := by
      rw [length_range']
      omega
    have hhandle : x.intern.tpt[id - 1]? = some id := by
      rw [h.tpt, getElem?_eq_getElem hlt, getElem_range']
      exact congrArg some (by omega)
    have hlength := (List.getElem?_eq_some_iff.mp he).1
    have hindex : handleToIndex id = id - 1 := by
      -- an id is one of 16 bits, as the tags are
      refine ExternalEntityTable.handleToIndex_eq hrange.1 ?_
      have hbound := h.length_tags
      omega
    have hget : PointerTable.get x.intern.types id (.single genericTrustedObjectTag) = w := by
      rw [PointerTable.get, if_neg (by omega), hindex, he]
      have htag : trustedLayout.Assignable genericTrustedObjectTag := by decide
      refine (trustedLayout.untag_tag hfits htag _).trans ?_
      rw [if_pos ((TagRange.contains_single _ _).mpr rfl)]
    rw [TypeIntern.internedType, TypeIntern.internType, hid]
    show (x.intern.tpt[id - 1]?).bind _ = _
    rw [hhandle]
    exact congrArg (fun w => some (w, x.intern)) hget

theorem sound_of_valid (h : Valid x) : Sound x where
  disjoint := h.disjoint
  inside b hb := ⟨(h.inside b hb).1, (h.inside b hb).2.trans h.next_le⟩
  typeTag key record hroom := by
    obtain ⟨t, s, hresult, -, -, hblock, -⟩ := h.typeTag key record hroom
    exact ⟨t, s, hresult, hblock⟩
  getObject handle p key hnamed other record hroom := by
    obtain ⟨t, s, hresult, ht, hheap, -, hvalid⟩ := h.typeTag other record hroom
    obtain ⟨hs, hn⟩ := Valid.intern_interned x other record s
    have hget := hvalid.get_named handle p key other t
      (by rw [hn, hnamed]) (by rw [hs, ht])
    rw [hs] at hget
    refine ⟨s, ?_⟩
    rw [TypeIntern.getObject, hresult]
    exact congrArg (fun w => some (w, s)) hget
  internedType _ _ hw hfits record := internedType_of_valid h hw hfits record

/-- **The tags of a process are unique in every run of roomy steps.**  The blocks handed out are
disjoint and inside the embedder's tags, every type has a tag of its own, and an object is found
under the key it was named with and under no other. -/
theorem typeTags_unique {s : Option (TypeProcess κ)} (h : Reachable s) :
    ∃ x, s = some x ∧ Sound x := by
  have hvalid : ∃ x, s = some x ∧ Valid x := by
    induction h with
    | start => exact ⟨_, rfl, Valid.start⟩
    | step a _ ha ih =>
      obtain ⟨x, rfl, hvalid⟩ := ih
      exact step_valid hvalid (ha x rfl).1 (ha x rfl).2
  obtain ⟨x, hx, hvalid⟩ := hvalid
  exact ⟨x, hx, sound_of_valid hvalid⟩

/-- A run of operations. -/
def run (x : Option (TypeProcess κ)) (as : List (Op κ)) : Option (TypeProcess κ) :=
  as.foldl (fun s a => s.bind fun x => step x a) x

/-- Two types, an object named with the second one, and a range of 4 tags between them. -/
theorem typeTags_unique_twoTypes : ∃ x : TypeProcess Bool,
    run (some {}) [.typeTag true 0x100, .allocateRange 4, .nameObject 0x1000 false 0x200] = some x ∧
      Sound x := by
  have h : Reachable (run (some ({} : TypeProcess Bool))
      [.typeTag true 0x100, .allocateRange 4, .nameObject 0x1000 false 0x200]) := by
    refine Reaches.along .start ⟨?_, ?_, ?_, trivial⟩
    · rintro x hx
      obtain rfl := some.inj hx
      exact ⟨trivial, by decide⟩
    · rintro x hx
      obtain rfl := some.inj hx
      exact ⟨trivial, by decide⟩
    · rintro x hx
      obtain rfl := some.inj hx
      refine ⟨⟨by decide, fun r hr => ?_⟩, by decide⟩
      obtain rfl := some.inj hr
      decide
  exact typeTags_unique h

/-- **Behind 32767 tags an object is found under another type's key.**  The second type's tag has
a 16th bit that the entry has no room for; its object passes for one of the first type, and is not
found under its own key. -/
theorem not_typeTags_unique_wrapped :
    (run (some ({} : TypeProcess Bool))
      [.typeTag true 0x100, .allocateRange 0x7fff, .nameObject 0x1000 false 0x200]).map
        (fun x => (x.blocks.map (·.1.toNat), (x.intern.getObject 1 true 0x300).map (·.1),
          (x.intern.getObject 1 false 0x300).map (·.1), decide ((x.named 1).map (·.2) = some false))) =
      some ([0x8001, 2, 1], some 0x1000, some 0, true) := by
  decide

end TypeProcess

end Voodoo.Sandbox
