import Mathlib.Algebra.Group.Nat.Defs
import Mathlib.Data.List.DropRight
import Voodoo.Lib.Chain

/-!
# The table of entries

`ExternalEntityTable` keeps its entries in one vector and threads a freelist through the free
ones, from `free_list_head_` to `kNullIndex`.  A `TableEntry` says how a link is written and read.

A failed `DCHECK`, a read of a link that is not there, and an index out of bounds are `none`:
`Holds` is the invariant under which none of the functions comes to that.  It ties a table to
what its clients hold: `live h` is what the handle `h` was given, if it was and is not freed.

* `Holds.chain`: the freelist visits exactly the entries no handle is held on.
* `Holds.allocateEntry`, `Holds.update`, `Holds.freeEntry`, `Holds.compact`: what the functions
  of the table keep.
-/

namespace Voodoo.Sandbox

open List Option Function

/-- What `ExternalEntityTable` asks of the entries: `MakeFreelistEntry`, `ContainsFreelistLink`,
`ExtractFreelistLink`, and the entry `emplace_back()` makes. -/
class TableEntry (ε : Type) where
  makeFreelistEntry : Nat → ε
  containsFreelistLink : ε → Bool
  extractFreelistLink : ε → Option Nat
  blank : ε

/-- A link is read back, whatever 32 bits it has. -/
class LawfulTableEntry (ε : Type) [TableEntry ε] : Prop where
  contains_make : ∀ n < 2 ^ 32,
    TableEntry.containsFreelistLink (TableEntry.makeFreelistEntry n : ε) = true
  extract_make : ∀ n < 2 ^ 32,
    TableEntry.extractFreelistLink (TableEntry.makeFreelistEntry n : ε) = some n

/-- `kNullIndex`. -/
def nullIndex : Nat := 2 ^ 32 - 1

/-- `ExternalEntityTable`. -/
structure ExternalEntityTable (ε : Type) where
  entries : List ε := []
  freeListHead : Nat := nullIndex

/-- `HandleToIndex`: a handle is the index of its entry plus one, and 0 is the null handle. -/
def handleToIndex (handle : Nat) : Nat := (handle + (2 ^ 32 - 1)) % 2 ^ 32

/-- `IndexToHandle`. -/
def indexToHandle (index : Nat) : Nat := (index + 1) % 2 ^ 32

namespace ExternalEntityTable

open TableEntry (makeFreelistEntry containsFreelistLink extractFreelistLink blank)

variable {ε : Type} [TableEntry ε]

/-- `IsInBounds`. -/
def isInBounds (t : ExternalEntityTable ε) (index : Nat) : Bool := index < t.entries.length

/-- The entry a new index is given. -/
def takeEntry (t : ExternalEntityTable ε) : Option (Nat × ExternalEntityTable ε) :=
  if t.freeListHead ≠ nullIndex then do
    let entry ← t.entries[t.freeListHead]?
    let next ← extractFreelistLink entry
    return (t.freeListHead, { t with freeListHead := next })
  else
    some (t.entries.length % 2 ^ 32, { t with entries := t.entries ++ [blank] })

/-- `AllocateEntry`; `entry` is what `init` writes. -/
def allocateEntry (t : ExternalEntityTable ε) (entry : ε) :
    Option (Nat × ExternalEntityTable ε) := do
  let (index, t) ← t.takeEntry
  return (index, { t with entries := t.entries.set index entry })

/-- Writing through `at`. -/
def update (t : ExternalEntityTable ε) (index : Nat) (f : ε → ε) :
    Option (ExternalEntityTable ε) := do
  let entry ← t.entries[index]?
  return { t with entries := t.entries.set index (f entry) }

/-- `FreeEntry`. -/
def freeEntry (t : ExternalEntityTable ε) (index : Nat) : Option (ExternalEntityTable ε) :=
  if t.isInBounds index then
    some { entries := t.entries.set index (makeFreelistEntry t.freeListHead)
           freeListHead := index }
  else none

/-- The loop of `Compact` that links the free entries again, from index `i` on. -/
def relink : List ε → Nat → Nat → List ε × Nat
  | [], _, head => ([], head)
  | entry :: entries, i, head =>
    if containsFreelistLink entry then
      let (entries, last) := relink entries (i + 1) i
      (makeFreelistEntry head :: entries, last)
    else
      let (entries, last) := relink entries (i + 1) head
      (entry :: entries, last)

/-- `Compact`. -/
def compact (t : ExternalEntityTable ε) : ExternalEntityTable ε :=
  let kept := t.entries.rdropWhile containsFreelistLink
  let (entries, head) := relink kept 0 nullIndex
  { entries := entries, freeListHead := head }

/-! ### The freelist -/

/-- The link entry `i` holds. -/
def next (entries : List ε) (i : Nat) : Option Nat := entries[i]?.bind extractFreelistLink

/-- Entry `i` is free. -/
def FreeAt (entries : List ε) (i : Nat) : Prop :=
  ∃ entry, entries[i]? = some entry ∧ containsFreelistLink entry = true

/-- The freelist from `head` visits exactly the free entries. -/
def Threaded (entries : List ε) (head : Nat) : Prop :=
  ∃ free, Chain.Visits (next entries) nullIndex head free ∧ ∀ i, i ∈ free ↔ FreeAt entries i

theorem next_of_lt {entries : List ε} {i : Nat} (h : entries.length ≤ i) : next entries i = none := by
  rw [next, getElem?_eq_none h, bind_none]

theorem next_set_self {entries : List ε} {i : Nat} (hi : i < entries.length) (entry : ε) :
    next (entries.set i entry) i = extractFreelistLink entry := by
  rw [next, getElem?_set_self hi, bind_some]

theorem next_set_of_ne {entries : List ε} {i j : Nat} (hne : i ≠ j) (entry : ε) :
    next (entries.set i entry) j = next entries j := by
  rw [next, next, getElem?_set_ne hne]

theorem freeAt_set_self {entries : List ε} {i : Nat} (hi : i < entries.length) (entry : ε) :
    FreeAt (entries.set i entry) i ↔ containsFreelistLink entry = true := by
  constructor
  · rintro ⟨e, he, hfree⟩
    rw [getElem?_set_self hi] at he
    rwa [some.inj he]
  · exact fun h => ⟨entry, getElem?_set_self hi, h⟩

theorem freeAt_set_of_ne {entries : List ε} {i j : Nat} (hne : i ≠ j) (entry : ε) :
    FreeAt (entries.set i entry) j ↔ FreeAt entries j := by
  rw [FreeAt, FreeAt, getElem?_set_ne hne]

theorem FreeAt.lt {entries : List ε} {i : Nat} (h : FreeAt entries i) : i < entries.length := by
  obtain ⟨entry, hentry, -⟩ := h
  exact (List.getElem?_eq_some_iff.mp hentry).1

namespace Threaded

variable {entries : List ε} {head : Nat}

theorem exists_unique (h : Threaded entries head) (hlength : entries.length ≤ nullIndex) :
    ∃ free, Chain.Visits (next entries) nullIndex head free ∧ free.Nodup ∧
      ∀ i, i ∈ free ↔ FreeAt entries i := by
  obtain ⟨free, hvisits, hmem⟩ := h
  exact ⟨free, hvisits, hvisits.nodup (next_of_lt hlength), hmem⟩

theorem head_free (h : Threaded entries head) (hne : head ≠ nullIndex) :
    FreeAt entries head ∧ ∃ n, next entries head = some n := by
  obtain ⟨free, hvisits, hmem⟩ := h
  obtain ⟨n, js, rfl, hn, -⟩ := hvisits.pop hne
  exact ⟨(hmem head).mp mem_cons_self, n, hn⟩

theorem take (h : Threaded entries head) (hlength : entries.length ≤ nullIndex) {n : Nat}
    (hn : next entries head = some n) {entry : ε} (hused : containsFreelistLink entry = false) :
    Threaded (entries.set head entry) n := by
  have hhead : head < entries.length := by
    by_contra hge
    rw [next_of_lt (Nat.le_of_not_lt hge)] at hn
    cases hn
  obtain ⟨free, hvisits, hmem⟩ := h
  obtain ⟨m, js, rfl, hm, hjs⟩ := hvisits.pop (by omega)
  obtain rfl : n = m := some.inj (hn.symm.trans hm)
  have hnotMem : head ∉ js :=
    (nodup_cons.mp (hvisits.nodup (next_of_lt hlength))).1
  refine ⟨js, hjs.congr fun j hj => next_set_of_ne ?_ entry, fun i => ?_⟩
  · rintro rfl
    exact hnotMem hj
  · by_cases hi : head = i
    · subst hi
      rw [freeAt_set_self hhead, hused]
      simp only [hnotMem, Bool.false_eq_true]
    · rw [freeAt_set_of_ne hi, ← hmem i, mem_cons]
      exact (or_iff_right (Ne.symm hi)).symm

theorem set (h : Threaded entries head) {i : Nat} (hi : ¬FreeAt entries i) {entry : ε}
    (hused : containsFreelistLink entry = false) : Threaded (entries.set i entry) head := by
  obtain ⟨free, hvisits, hmem⟩ := h
  have hne (j : Nat) (hj : FreeAt entries j) : i ≠ j := by
    rintro rfl
    exact hi hj
  refine ⟨free, hvisits.congr fun j hj => next_set_of_ne (hne j ((hmem j).mp hj)) entry,
    fun j => ?_⟩
  rw [hmem]
  by_cases hij : i = j
  · subst hij
    refine iff_of_false hi ?_
    rintro ⟨e, he, hfree⟩
    by_cases hlt : i < entries.length
    · rw [getElem?_set_self hlt] at he
      rw [← some.inj he, hused] at hfree
      cases hfree
    · rw [getElem?_eq_none (by rw [length_set]; omega)] at he
      cases he
  · rw [freeAt_set_of_ne hij]

theorem push [LawfulTableEntry ε] (h : Threaded entries head) {i : Nat} (hi : i < entries.length)
    (hused : ¬FreeAt entries i) (hhead : head < 2 ^ 32) :
    Threaded (entries.set i (makeFreelistEntry head)) i := by
  obtain ⟨free, hvisits, hmem⟩ := h
  refine ⟨i :: free, hvisits.push ?_ fun j hj => next_set_of_ne ?_ _, fun j => ?_⟩
  · rw [next_set_self hi]
    exact LawfulTableEntry.extract_make head hhead
  · rintro rfl
    exact hused ((hmem i).mp hj)
  · rw [mem_cons, hmem]
    by_cases hij : j = i
    · subst hij
      rw [freeAt_set_self hi]
      exact iff_of_true (.inl rfl) (LawfulTableEntry.contains_make head hhead)
    · rw [freeAt_set_of_ne (Ne.symm hij)]
      exact or_iff_right hij

theorem snoc (h : Threaded entries head) {entry : ε} (hused : containsFreelistLink entry = false) :
    Threaded (entries ++ [entry]) head := by
  obtain ⟨free, hvisits, hmem⟩ := h
  have hold (j : Nat) (hj : j < entries.length) : (entries ++ [entry])[j]? = entries[j]? :=
    getElem?_append_left hj
  refine ⟨free, hvisits.congr fun j hj => ?_, fun j => ?_⟩
  · rw [next, hold j ((hmem j).mp hj).lt, next]
  · rw [hmem]
    by_cases hj : j < entries.length
    · rw [FreeAt, FreeAt, hold j hj]
    · refine iff_of_false (fun hfree => hj hfree.lt) ?_
      rintro ⟨e, he, hfree⟩
      rw [getElem?_append_right (Nat.le_of_not_lt hj)] at he
      rw [mem_singleton.mp (mem_of_getElem? he), hused] at hfree
      cases hfree

theorem snoc_free [LawfulTableEntry ε] (h : Threaded entries head) (hhead : head < 2 ^ 32) :
    Threaded (entries ++ [makeFreelistEntry head]) entries.length := by
  obtain ⟨free, hvisits, hmem⟩ := h
  have hold (j : Nat) (hj : j < entries.length) :
      (entries ++ [makeFreelistEntry head])[j]? = entries[j]? := getElem?_append_left hj
  have hlast : (entries ++ [makeFreelistEntry head])[entries.length]? =
      some (makeFreelistEntry head) := getElem?_concat_length
  refine ⟨entries.length :: free, hvisits.push ?_ fun j hj => ?_, fun j => ?_⟩
  · rw [next, hlast, bind_some]
    exact LawfulTableEntry.extract_make head hhead
  · rw [next, hold j ((hmem j).mp hj).lt, next]
  · rw [mem_cons, hmem]
    rcases Nat.lt_trichotomy j entries.length with hj | rfl | hj
    · rw [FreeAt, FreeAt, hold j hj]
      exact or_iff_right (Nat.ne_of_lt hj)
    · exact iff_of_true (.inl rfl) ⟨_, hlast, LawfulTableEntry.contains_make head hhead⟩
    · refine iff_of_false ?_ fun hfree => ?_
      · rintro (rfl | hfree)
        · exact absurd hj (Nat.lt_irrefl _)
        · exact absurd hfree.lt (Nat.not_lt_of_gt hj)
      · have hlt := hfree.lt
        rw [length_append, length_singleton] at hlt
        omega

end Threaded

/-! ### Compacting -/

/-- What the loop of `Compact` does to an entry. -/
inductive Relinked : ε → ε → Prop
  | used {entry : ε} (h : containsFreelistLink entry = false) : Relinked entry entry
  | free {entry : ε} {n : Nat} (h : containsFreelistLink entry = true) (hn : n < 2 ^ 32) :
      Relinked entry (makeFreelistEntry n)

theorem relinked_relink (entries : List ε) (i head : Nat) (hhead : head < 2 ^ 32)
    (hi : i + entries.length < 2 ^ 32) :
    List.Forall₂ Relinked entries (relink entries i head).1 := by
  induction entries generalizing i head with
  | nil => exact .nil
  | cons entry entries ih =>
    rw [length_cons] at hi
    rw [relink]
    cases hfree : containsFreelistLink entry with
    | true => exact .cons (.free hfree hhead) (ih (i + 1) i (by omega) (by omega))
    | false => exact .cons (.used hfree) (ih (i + 1) head hhead (by omega))

/-- The loop of `Compact` after the entries `done`, which it has linked already. -/
theorem threaded_relink [LawfulTableEntry ε] (entries : List ε) {done : List ε} {head : Nat}
    (h : Threaded done head) (hhead : head < 2 ^ 32) (hlength : done.length + entries.length < 2 ^ 32) :
    Threaded (done ++ (relink entries done.length head).1) (relink entries done.length head).2 ∧
      (relink entries done.length head).2 < 2 ^ 32 := by
  induction entries generalizing done head with
  | nil =>
    rw [relink, append_nil]
    exact ⟨h, hhead⟩
  | cons entry entries ih =>
    rw [length_cons] at hlength
    rw [relink]
    cases hfree : containsFreelistLink entry with
    | true =>
      have hstep := ih (h.snoc_free hhead) (by omega) (by
        rw [length_append, length_singleton]
        omega)
      rw [length_append, length_singleton, List.append_assoc] at hstep
      exact hstep
    | false =>
      have hstep := ih (h.snoc hfree) hhead (by
        rw [length_append, length_singleton]
        omega)
      rw [length_append, length_singleton, List.append_assoc] at hstep
      exact hstep

theorem threaded_nil : Threaded ([] : List ε) nullIndex :=
  ⟨[], .nil, fun _ => iff_of_false not_mem_nil fun h => absurd h.lt (Nat.not_lt_zero _)⟩

theorem threaded_compact [LawfulTableEntry ε] (t : ExternalEntityTable ε)
    (hlength : t.entries.length < nullIndex) :
    Threaded t.compact.entries t.compact.freeListHead ∧ t.compact.freeListHead < 2 ^ 32 := by
  have hkept := ( rdropWhile_prefix (p := containsFreelistLink) t.entries).length_le
  exact threaded_relink _ (threaded_nil : Threaded ([] : List ε) nullIndex) (by decide) (by
    rw [length_nil]
    unfold nullIndex at hlength
    omega)

theorem relinked_compact (t : ExternalEntityTable ε) (hlength : t.entries.length < nullIndex) :
    List.Forall₂ Relinked (t.entries.rdropWhile containsFreelistLink) t.compact.entries := by
  have hkept := ( rdropWhile_prefix (p := containsFreelistLink) t.entries).length_le
  exact relinked_relink _ 0 nullIndex (by decide) (by unfold nullIndex at hlength; omega)

theorem exists_relinked {old new : List ε} (h : List.Forall₂ Relinked old new) {i : Nat} {e : ε}
    (he : new[i]? = some e) : ∃ d, old[i]? = some d ∧ Relinked d e := by
  obtain ⟨hlt, rfl⟩ := List.getElem?_eq_some_iff.mp he
  have hlt' : i < old.length := h.length_eq ▸ hlt
  exact ⟨_, getElem?_eq_getElem hlt', h.get hlt' hlt⟩

theorem lt_rdropWhile {entries : List ε} {i : Nat} {e : ε} (he : entries[i]? = some e)
    (hused : containsFreelistLink e = false) :
    i < (entries.rdropWhile containsFreelistLink).length := by
  induction entries using List.reverseRecOn with
  | nil => cases he
  | append_singleton entries last ih =>
    rw [rdropWhile_concat]
    cases hlast : containsFreelistLink last with
    | false =>
      rw [if_neg Bool.false_ne_true]
      exact (List.getElem?_eq_some_iff.mp he).1
    | true =>
      rw [if_pos rfl]
      refine ih ?_
      have hlt := (List.getElem?_eq_some_iff.mp he).1
      rw [length_append, length_singleton] at hlt
      rcases Nat.lt_or_eq_of_le (Nat.le_of_lt_succ hlt) with hi | rfl
      · rwa [getElem?_append_left hi] at he
      · rw [getElem?_concat_length] at he
        rw [some.inj he, hused] at hlast
        cases hlast

theorem getLast_compact {t : ExternalEntityTable ε} (hlength : t.entries.length < nullIndex) {e : ε}
    (he : t.compact.entries.getLast? = some e) : containsFreelistLink e = false := by
  have hrelinked := relinked_compact t hlength
  rw [getLast?_eq_getElem?] at he
  obtain ⟨d, hd, hde⟩ := exists_relinked hrelinked he
  rw [← hrelinked.length_eq, ← getLast?_eq_getElem?] at hd
  have hne : t.entries.rdropWhile containsFreelistLink ≠ [] := by
    rintro hnil
    rw [hnil] at hd
    cases hd
  have hlast := rdropWhile_last_not containsFreelistLink t.entries hne
  rw [getLast?_eq_some_getLast hne] at hd
  rw [some.inj hd] at hlast
  cases hde with
  | used hused => exact hused
  | free hfree _ => exact absurd hfree hlast

/-! ### What the clients hold -/

variable {V : Type} {enc : V → ε} {Ok : V → Prop} {t : ExternalEntityTable ε}
  {live : Nat → Option V}

/-- The table holds what its clients were given: behind handle `h` stands the entry `enc v` for
`live h = some v`, and every other entry is free. -/
structure Holds (enc : V → ε) (Ok : V → Prop) (t : ExternalEntityTable ε)
    (live : Nat → Option V) : Prop where
  length_lt : t.entries.length < nullIndex
  head_lt : t.freeListHead < 2 ^ 32
  threaded : Threaded t.entries t.freeListHead
  entry : ∀ i e, t.entries[i]? = some e →
    (live (i + 1) = none ∧ ∃ n < 2 ^ 32, e = makeFreelistEntry n) ∨
      ∃ v, Ok v ∧ live (i + 1) = some v ∧ e = enc v
  inside : ∀ h v, live h = some v → 0 < h ∧ h ≤ t.entries.length

theorem indexToHandle_eq {i : Nat} (h : i < nullIndex) : indexToHandle i = i + 1 :=
  Nat.mod_eq_of_lt (by unfold nullIndex at h; omega)

theorem handleToIndex_eq {h : Nat} (hpos : 0 < h) (hlt : h < 2 ^ 32) :
    handleToIndex h = h - 1 := by
  unfold handleToIndex
  omega

namespace Holds

variable [LawfulTableEntry ε] (henc : ∀ v, Ok v → containsFreelistLink (enc v) = false)

include henc

theorem freeAt_iff (h : Holds enc Ok t live) (i : Nat) :
    FreeAt t.entries i ↔ i < t.entries.length ∧ live (i + 1) = none := by
  constructor
  · rintro ⟨e, he, hfree⟩
    refine ⟨(List.getElem?_eq_some_iff.mp he).1, ?_⟩
    rcases h.entry i e he with ⟨hnone, -⟩ | ⟨v, hv, -, rfl⟩
    · exact hnone
    · rw [henc v hv] at hfree
      cases hfree
  · rintro ⟨hlt, hnone⟩
    have he := getElem?_eq_getElem hlt
    rcases h.entry i _ he with ⟨-, n, hn, heq⟩ | ⟨v, -, hsome, -⟩
    · exact ⟨_, he, heq ▸ LawfulTableEntry.contains_make n hn⟩
    · rw [hnone] at hsome
      cases hsome

/-- **The freelist visits exactly the entries no handle is held on, and each once.** -/
theorem chain (h : Holds enc Ok t live) :
    ∃ free, Chain.Visits (next t.entries) nullIndex t.freeListHead free ∧ free.Nodup ∧
      ∀ i, i ∈ free ↔ i < t.entries.length ∧ live (i + 1) = none := by
  obtain ⟨free, hvisits, hnodup, hmem⟩ := h.threaded.exists_unique h.length_lt.le
  exact ⟨free, hvisits, hnodup, fun i => (hmem i).trans (h.freeAt_iff henc i)⟩

omit [LawfulTableEntry ε] henc in
theorem entry_of_live (h : Holds enc Ok t live) {handle : Nat} {v : V}
    (hv : live handle = some v) :
    handleToIndex handle < t.entries.length ∧ handleToIndex handle + 1 = handle ∧ Ok v ∧
      t.entries[handleToIndex handle]? = some (enc v) := by
  obtain ⟨hpos, hle⟩ := h.inside handle v hv
  have hlength := h.length_lt
  have hindex : handleToIndex handle = handle - 1 :=
    handleToIndex_eq hpos (by unfold nullIndex at hlength; omega)
  have hlt : handle - 1 < t.entries.length := by omega
  have hsucc : handle - 1 + 1 = handle := by omega
  have he := getElem?_eq_getElem hlt
  rw [hindex]
  refine ⟨hlt, hsucc, ?_⟩
  rcases h.entry _ _ he with ⟨hnone, -⟩ | ⟨w, hw, hsome, heq⟩
  · rw [hsucc, hv] at hnone
    cases hnone
  · rw [hsucc, hv] at hsome
    obtain rfl := some.inj hsome
    exact ⟨hw, by rw [he, heq]⟩

omit [LawfulTableEntry ε] henc in
theorem entry_of_not_live (h : Holds enc Ok t live) {i : Nat} {e : ε}
    (he : t.entries[i]? = some e) (hnone : live (i + 1) = none) :
    ∃ n < 2 ^ 32, e = makeFreelistEntry n := by
  rcases h.entry i e he with ⟨-, hfree⟩ | ⟨v, -, hsome, -⟩
  · exact hfree
  · rw [hnone] at hsome
    cases hsome

omit [LawfulTableEntry ε] henc in
theorem write (h : Holds enc Ok t live) {i head : Nat} {v : V} {entries : List ε}
    (hentries : entries.length < nullIndex) (hle : t.entries.length ≤ entries.length)
    (hi : entries[i]? = some (enc v)) (hv : Ok v)
    (hother : ∀ j e, j ≠ i → entries[j]? = some e → t.entries[j]? = some e)
    (hhead : head < 2 ^ 32) (hthreaded : Threaded entries head) :
    Holds enc Ok { entries := entries, freeListHead := head }
      (Function.update live (i + 1) (some v)) where
  length_lt := hentries
  head_lt := hhead
  threaded := hthreaded
  entry j e he := by
    by_cases hj : j = i
    · subst hj
      rw [update_self]
      exact .inr ⟨v, hv, rfl, some.inj (he.symm.trans hi)⟩
    · rw [update_of_ne (fun heq => hj (Nat.succ_injective heq))]
      exact h.entry j e (hother j e hj he)
  inside k w hk := by
    have hlt := (List.getElem?_eq_some_iff.mp hi).1
    by_cases heq : k = i + 1
    · subst heq
      exact ⟨Nat.succ_pos i, hlt⟩
    · rw [update_of_ne heq] at hk
      obtain ⟨hpos, hbound⟩ := h.inside k w hk
      exact ⟨hpos, hbound.trans hle⟩

/-- The index a new entry is given. -/
theorem takeEntry (h : Holds enc Ok t live) (hroom : ∀ r, t.takeEntry = some r →
    r.2.entries.length < nullIndex) :
    ∃ i u, t.takeEntry = some (i, u) ∧ i < u.entries.length ∧ u.entries.length < nullIndex ∧
      live (i + 1) = none ∧ t.entries.length ≤ u.entries.length ∧ u.freeListHead < 2 ^ 32 ∧
      (∀ j e, j ≠ i → u.entries[j]? = some e → t.entries[j]? = some e) ∧
      ∀ e, containsFreelistLink e = false → Threaded (u.entries.set i e) u.freeListHead := by
  have hlength := h.length_lt
  by_cases hhead : t.freeListHead = nullIndex
  · have hthreaded := h.threaded
    have hindex : t.entries.length % 2 ^ 32 = t.entries.length :=
      Nat.mod_eq_of_lt (by unfold nullIndex at hlength; omega)
    have hresult : t.takeEntry =
        some (t.entries.length, { t with entries := t.entries ++ [blank] }) := by
      rw [ExternalEntityTable.takeEntry, if_neg (not_not_intro hhead), hindex]
    have hlen : (t.entries ++ [(blank : ε)]).length = t.entries.length + 1 := by
      rw [length_append, length_singleton]
    refine ⟨_, _, hresult, ?_, hroom _ hresult, ?_, ?_, h.head_lt, fun j e hj he => ?_,
      fun e he => ?_⟩
    · show t.entries.length < (t.entries ++ [blank]).length
      omega
    · by_contra hsome
      obtain ⟨w, hw⟩ := ne_none_iff_exists'.mp hsome
      exact absurd (h.inside _ w hw).2 (Nat.not_succ_le_self _)
    · show t.entries.length ≤ (t.entries ++ [blank]).length
      omega
    · have hlt : j < (t.entries ++ [blank]).length := (List.getElem?_eq_some_iff.mp he).1
      rwa [getElem?_append_left (by omega)] at he
    · show Threaded ((t.entries ++ [blank]).set t.entries.length e) t.freeListHead
      rw [set_append_right _ _ (Nat.le_refl _), Nat.sub_self, set_cons_zero]
      exact hthreaded.snoc he
  · obtain ⟨hfree, n, hn⟩ := h.threaded.head_free hhead
    obtain ⟨hlt, hnone⟩ := (h.freeAt_iff henc _).mp hfree
    obtain ⟨e, he, hlink⟩ := bind_eq_some_iff.mp hn
    have hlt32 : n < 2 ^ 32 := by
      obtain ⟨m, hm, rfl⟩ := h.entry_of_not_live he hnone
      rw [LawfulTableEntry.extract_make m hm] at hlink
      obtain rfl := some.inj hlink
      exact hm
    have hresult : t.takeEntry = some (t.freeListHead, { t with freeListHead := n }) := by
      rw [ExternalEntityTable.takeEntry, if_pos hhead, he, bind_eq_bind, bind_some,
        hlink]
      rfl
    exact ⟨_, _, hresult, hlt, hlength, hnone, Nat.le_refl _, hlt32, fun _ _ _ he => he,
      fun e he => h.threaded.take hlength.le hn he⟩

theorem exists_allocateEntry (h : Holds enc Ok t live)
    (hroom : ∀ r, t.takeEntry = some r → r.2.entries.length < nullIndex) (entry : ε) :
    ∃ i u, t.allocateEntry entry = some (i, u) ∧ i < nullIndex ∧ u.entries[i]? = some entry := by
  obtain ⟨i, u, hresult, hlt, hlength, -⟩ := h.takeEntry henc hroom
  refine ⟨i, { u with entries := u.entries.set i entry }, ?_, hlt.trans hlength,
    getElem?_set_self hlt⟩
  rw [ExternalEntityTable.allocateEntry, hresult]
  rfl

/-- **Allocating**: the handle given out was not held, and is held from then on. -/
theorem allocateEntry (h : Holds enc Ok t live)
    (hroom : ∀ r, t.takeEntry = some r → r.2.entries.length < nullIndex) {v : V} (hv : Ok v) :
    ∃ i u, t.allocateEntry (enc v) = some (i, u) ∧ i < nullIndex ∧ live (i + 1) = none ∧
      Holds enc Ok u (Function.update live (i + 1) (some v)) := by
  obtain ⟨i, u, hresult, hlt, hlength, hnone, hle, hhead, hother, hthreaded⟩ :=
    h.takeEntry henc hroom
  refine ⟨i, { u with entries := u.entries.set i (enc v) }, ?_, hlt.trans hlength, hnone, ?_⟩
  · rw [ExternalEntityTable.allocateEntry, hresult]
    rfl
  · refine h.write ?_ ?_ (getElem?_set_self hlt) hv (fun j e hj he => ?_) hhead
      (hthreaded _ (henc v hv))
    · rw [length_set]
      exact hlength
    · rw [length_set]
      exact hle
    · rw [getElem?_set_ne (Ne.symm hj)] at he
      exact hother j e hj he

/-- **Writing an entry** through a handle that is held. -/
theorem update (h : Holds enc Ok t live) {handle : Nat} {v w : V} {f : ε → ε}
    (hlive : live handle = some v) (hf : f (enc v) = enc w) (hw : Ok w) :
    ∃ u, t.update (handleToIndex handle) f = some u ∧
      Holds enc Ok u (Function.update live handle (some w)) := by
  obtain ⟨hlt, hsucc, hv, he⟩ := h.entry_of_live hlive
  have hresult : t.update (handleToIndex handle) f =
      some { t with entries := t.entries.set (handleToIndex handle) (enc w) } := by
    rw [ExternalEntityTable.update, he, bind_eq_bind, bind_some, hf]
    rfl
  refine ⟨_, hresult, ?_⟩
  have hused : ¬FreeAt t.entries (handleToIndex handle) := by
    rw [h.freeAt_iff henc, hsucc, hlive]
    rintro ⟨-, hnone⟩
    cases hnone
  have hlength : (t.entries.set (handleToIndex handle) (enc w)).length < nullIndex := by
    rw [length_set]
    exact h.length_lt
  have hwrite := h.write (i := handleToIndex handle) hlength (by rw [length_set])
    (getElem?_set_self hlt) hw
    (fun j e hj he => by rwa [getElem?_set_ne (Ne.symm hj)] at he) h.head_lt
    (h.threaded.set hused (henc w hw))
  rwa [hsucc] at hwrite

/-- **Freeing** a handle that is held. -/
theorem freeEntry (h : Holds enc Ok t live) {handle : Nat} {v : V}
    (hlive : live handle = some v) :
    ∃ u, t.freeEntry (handleToIndex handle) = some u ∧
      Holds enc Ok u (Function.update live handle none) := by
  obtain ⟨hlt, hsucc, hv, he⟩ := h.entry_of_live hlive
  have hused : ¬FreeAt t.entries (handleToIndex handle) := by
    rw [h.freeAt_iff henc, hsucc, hlive]
    rintro ⟨-, hnone⟩
    cases hnone
  have hlength := h.length_lt
  refine ⟨_, if_pos (decide_eq_true hlt), ⟨?_, ?_, h.threaded.push hlt hused h.head_lt, ?_, ?_⟩⟩
  · show (t.entries.set _ _).length < nullIndex
    rw [length_set]
    exact hlength
  · show handleToIndex handle < 2 ^ 32
    unfold nullIndex at hlength
    omega
  · intro j e hj
    by_cases heq : handleToIndex handle = j
    · subst heq
      rw [hsucc, update_self]
      rw [getElem?_set_self hlt] at hj
      exact .inl ⟨rfl, _, h.head_lt, (some.inj hj).symm⟩
    · rw [update_of_ne (by rw [← hsucc]; exact fun h => heq (Nat.succ_injective h).symm)]
      rw [getElem?_set_ne heq] at hj
      exact h.entry j e hj
  · intro k w hk
    by_cases heq : k = handle
    · subst heq
      rw [update_self] at hk
      cases hk
    · rw [update_of_ne heq] at hk
      show 0 < k ∧ k ≤ (t.entries.set _ _).length
      rw [length_set]
      exact h.inside k w hk

/-- **Compacting** moves no entry that is held. -/
theorem compact (h : Holds enc Ok t live) : Holds enc Ok t.compact live := by
  have hprefix := rdropWhile_prefix (p := containsFreelistLink) t.entries
  have hlength := h.length_lt
  have hkept := hprefix.length_le
  have hrelinked := relinked_compact t hlength
  obtain ⟨hthreaded, hhead⟩ := threaded_compact t hlength
  have hlen := hrelinked.length_eq
  refine ⟨by omega, hhead, hthreaded, fun i e he => ?_, fun k w hk => ?_⟩
  · obtain ⟨d, hd, hde⟩ := exists_relinked hrelinked he
    obtain ⟨hlt, hget⟩ := List.getElem?_eq_some_iff.mp hd
    have hold := h.entry i d (hget ▸ prefix_iff_getElem?.mp hprefix i hlt)
    cases hde with
    | used _ => exact hold
    | free hfree hn =>
      refine .inl ⟨?_, _, hn, rfl⟩
      rcases hold with ⟨hnone, -⟩ | ⟨v, hv, -, rfl⟩
      · exact hnone
      · rw [henc v hv] at hfree
        cases hfree
  · obtain ⟨hlt, hsucc, hw, he⟩ := h.entry_of_live hk
    have hinside := lt_rdropWhile he (henc w hw)
    refine ⟨(h.inside k w hk).1, ?_⟩
    omega

end Holds

end ExternalEntityTable

end Voodoo.Sandbox
