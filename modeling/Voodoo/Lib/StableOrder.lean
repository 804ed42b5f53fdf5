import Mathlib.Data.List.Sort

/-!
# Sorting by a key, stably

`sortBy key l` is `l` in non-decreasing order of `key`, elements of equal key staying in the order
they had.  So a sorted list may be cut down before or after sorting (`filter_sortBy`), and the
elements below a bound stand in front (`sortBy_split`).

`positions keys` is the same order as a list of positions, the form a program keeps when it sorts an
array of indices (`positions_eq`).  A loop that stores one result at each position is a fold over the
sorted entries, and `foldl_set_of_mem`, `foldl_set_of_notMem` say what the results are at the end.
-/

namespace StableOrder

open List

variable {α β : Type*}

/-- `a` may stand before `b`: its key is no larger. -/
abbrev KeyLe (key : α → Nat) (a b : α) : Prop := key a ≤ key b

/-- `l` sorted by `key`, equal keys keeping their order. -/
def sortBy (key : α → Nat) (l : List α) : List α :=
  l.insertionSort (KeyLe key)

theorem perm_sortBy (key : α → Nat) (l : List α) : (sortBy key l).Perm l :=
  perm_insertionSort _ l

@[simp] theorem mem_sortBy {key : α → Nat} {l : List α} {a : α} : a ∈ sortBy key l ↔ a ∈ l :=
  (perm_sortBy key l).mem_iff

@[simp] theorem length_sortBy (key : α → Nat) (l : List α) : (sortBy key l).length = l.length :=
  (perm_sortBy key l).length_eq

theorem pairwise_sortBy (key : α → Nat) (l : List α) :
    (sortBy key l).Pairwise (KeyLe key) := by
  have : Std.Total (KeyLe key) := ⟨fun a b => Nat.le_total (key a) (key b)⟩
  have : IsTrans α (KeyLe key) := ⟨fun _ _ _ => Nat.le_trans⟩
  exact pairwise_insertionSort _ l

/-! ### Cutting down and renaming -/

/-- Inserting before or after a pass over the list that keeps the keys of what it keeps. -/
theorem filterMap_orderedInsert {key : α → Nat} {key' : β → Nat} {g : α → Option β}
    (hg : ∀ a b, g a = some b → key' b = key a) (a : α) {l : List α}
    (hl : l.Pairwise (KeyLe key)) :
    (l.orderedInsert (KeyLe key) a).filterMap g =
      match g a with
      | some b => (l.filterMap g).orderedInsert (KeyLe key') b
      | none => l.filterMap g := by
  induction l with
  | nil => cases h : g a <;> simp [h]
  | cons c l ih =>
    obtain ⟨hc, hl⟩ := pairwise_cons.mp hl
    by_cases hac : KeyLe key a c
    · rw [orderedInsert_cons_of_le (KeyLe key) _ hac]
      cases hga : g a with
      | none => simp [hga]
      | some b =>
        have hfront : ∀ d ∈ (c :: l).filterMap g, KeyLe key' b d := by
          intro d hd
          obtain ⟨e, he, hed⟩ := mem_filterMap.mp hd
          show key' b ≤ key' d
          rw [hg a b hga, hg e d hed]
          rcases mem_cons.mp he with rfl | he
          · exact hac
          · exact Nat.le_trans hac (hc e he)
        rw [filterMap_cons_some hga]
        cases hf : (c :: l).filterMap g with
        | nil => rfl
        | cons d m =>
          exact (orderedInsert_cons_of_le (KeyLe key') _
            (hfront d (by rw [hf]; exact mem_cons_self))).symm
    · rw [orderedInsert_of_not_le (KeyLe key) _ hac]
      cases hgc : g c with
      | none => rw [filterMap_cons_none hgc, filterMap_cons_none hgc, ih hl]
      | some d =>
        rw [filterMap_cons_some hgc, filterMap_cons_some hgc, ih hl]
        cases hga : g a with
        | none => rfl
        | some b =>
          have hbd : ¬ KeyLe key' b d := by
            show ¬ key' b ≤ key' d
            rw [hg a b hga, hg c d hgc]
            exact hac
          exact (orderedInsert_of_not_le (KeyLe key') _ hbd).symm

/-- **A stable sort may be cut down and renamed before or after sorting.** -/
theorem filterMap_sortBy {key : α → Nat} {key' : β → Nat} {g : α → Option β}
    (hg : ∀ a b, g a = some b → key' b = key a) (l : List α) :
    (sortBy key l).filterMap g = sortBy key' (l.filterMap g) := by
  induction l with
  | nil => rfl
  | cons a l ih =>
    have hcons : sortBy key (a :: l) = (sortBy key l).orderedInsert (KeyLe key) a := rfl
    rw [hcons, filterMap_orderedInsert hg a (pairwise_sortBy key l), ih]
    cases hga : g a with
    | none => rw [filterMap_cons_none hga]
    | some b =>
      rw [filterMap_cons_some hga]
      rfl

theorem filter_sortBy (key : α → Nat) (p : α → Bool) (l : List α) :
    (sortBy key l).filter p = sortBy key (l.filter p) := by
  rw [← filterMap_eq_filter]
  refine filterMap_sortBy (fun a b hab => ?_) l
  rw [(Option.guard_eq_some_iff.mp hab).1]

theorem map_sortBy (f : α → β) (key : β → Nat) (l : List α) :
    (sortBy (fun a => key (f a)) l).map f = sortBy key (l.map f) := by
  rw [← filterMap_eq_map]
  refine filterMap_sortBy (fun a b hab => ?_) l
  rw [← Option.some.inj hab]

theorem split_of_pairwise {key : α → Nat} {p : α → Bool} {l : List α}
    (hl : l.Pairwise (KeyLe key))
    (hp : ∀ a ∈ l, ∀ b ∈ l, key a ≤ key b → p b = true → p a = true) :
    l = l.filter p ++ l.filter (fun a => !p a) := by
  induction l with
  | nil => rfl
  | cons a l ih =>
    obtain ⟨ha, hl⟩ := pairwise_cons.mp hl
    have ih := ih hl (fun b hb c hc =>
      hp b (mem_cons_of_mem _ hb) c (mem_cons_of_mem _ hc))
    cases hpa : p a with
    | true =>
      rw [filter_cons_of_pos hpa, filter_cons_of_neg (by simp [hpa]), cons_append,
        ← ih]
    | false =>
      have hnone : l.filter p = [] := by
        rw [filter_eq_nil_iff]
        intro b hb hpb
        have := hp a mem_cons_self b (mem_cons_of_mem _ hb) (ha b hb) hpb
        rw [hpa] at this
        exact Bool.noConfusion this
      rw [hnone, nil_append] at ih
      rw [filter_cons_of_neg (by simp [hpa]), hnone, nil_append,
        filter_cons_of_pos (by simp [hpa]), ← ih]

/-- **The front of a sorted list**: what a downward closed test passes, then the rest. -/
theorem sortBy_split {key : α → Nat} {p : α → Bool} {l : List α}
    (hp : ∀ a ∈ l, ∀ b ∈ l, key a ≤ key b → p b = true → p a = true) :
    sortBy key l = sortBy key (l.filter p) ++ sortBy key (l.filter (fun a => !p a)) := by
  have h := split_of_pairwise (pairwise_sortBy key l)
    (fun a ha b hb => hp a (mem_sortBy.mp ha) b (mem_sortBy.mp hb))
  rw [filter_sortBy, filter_sortBy] at h
  exact h

/-! ### Sorting positions -/

/-- Position `a` goes before position `b`: by the key, then by the position itself. -/
def before (keys : List Nat) (a b : Nat) : Prop :=
  keys.getD a 0 < keys.getD b 0 ∨ keys.getD a 0 = keys.getD b 0 ∧ a ≤ b

instance (keys : List Nat) : DecidableRel (before keys) := fun _ _ => by
  unfold before; infer_instance

/-- The positions of `keys` in the order of their keys, ties broken by the position. -/
def positions (keys : List Nat) : List Nat :=
  (List.range keys.length).insertionSort (before keys)

theorem orderedInsert_congr {r r' : α → α → Prop} [DecidableRel r] [DecidableRel r'] {a : α}
    {l : List α} (h : ∀ b ∈ l, r a b ↔ r' a b) : l.orderedInsert r a = l.orderedInsert r' a := by
  induction l with
  | nil => rfl
  | cons b l ih =>
    rw [orderedInsert_cons, orderedInsert_cons,
      ih (fun c hc => h c (mem_cons_of_mem _ hc))]
    simp only [h b mem_cons_self]

theorem insertionSort_congr {r r' : α → α → Prop} [DecidableRel r] [DecidableRel r'] {l : List α}
    (h : l.Pairwise (fun a b => r a b ↔ r' a b)) : l.insertionSort r = l.insertionSort r' := by
  induction l with
  | nil => rfl
  | cons a l ih =>
    obtain ⟨ha, hl⟩ := pairwise_cons.mp h
    rw [insertionSort_cons, insertionSort_cons, ih hl]
    exact orderedInsert_congr (fun b hb => ha b ((mem_insertionSort _).mp hb))

theorem pairwise_zipIdx (l : List α) : l.zipIdx.Pairwise (fun a b => a.2 < b.2) := by
  rw [← pairwise_map, zipIdx_map_snd]
  exact pairwise_lt_range'

/-- **Sorting positions is sorting the entries they point at.** -/
theorem positions_eq (key : α → Nat) (l : List α) :
    positions (l.map key) = (sortBy (fun a => key a.1) l.zipIdx).map Prod.snd := by
  have hkey : ∀ a ∈ l.zipIdx, (l.map key).getD a.2 0 = key a.1 := by
    intro a ha
    have : l[a.2]? = some a.1 := mem_zipIdx_iff_getElem?.mp ha
    rw [getD_eq_getElem?_getD, getElem?_map, this]
    rfl
  have hstable : l.zipIdx.insertionSort (fun a b => before (l.map key) a.2 b.2) =
      sortBy (fun a => key a.1) l.zipIdx := by
    refine insertionSort_congr (Pairwise.imp_of_mem ?_ (pairwise_zipIdx l))
    intro a b ha hb hab
    rw [before, hkey a ha, hkey b hb, KeyLe]
    omega
  rw [← hstable, map_insertionSort _ (before (l.map key)) Prod.snd _ (fun _ _ _ _ => Iff.rfl),
    positions, length_map, zipIdx_map_snd, range_eq_range']

theorem map_fst_sortBy_zipIdx (key : α → Nat) (l : List α) :
    (sortBy (fun a => key a.1) l.zipIdx).map Prod.fst = sortBy key l := by
  rw [map_sortBy Prod.fst key, zipIdx_map_fst]

/-! ### Storing results by position -/

variable {bs : List β} {es : List (β × Nat)}

@[simp] theorem length_foldl_set (bs : List β) (es : List (β × Nat)) :
    (es.foldl (fun acc e => acc.set e.2 e.1) bs).length = bs.length := by
  induction es generalizing bs with
  | nil => rfl
  | cons e es ih => rw [foldl_cons, ih, length_set]

theorem foldl_set_of_notMem {i : Nat} (h : i ∉ es.map Prod.snd) :
    (es.foldl (fun acc e => acc.set e.2 e.1) bs)[i]? = bs[i]? := by
  induction es generalizing bs with
  | nil => rfl
  | cons e es ih =>
    rw [map_cons, mem_cons, not_or] at h
    rw [foldl_cons, ih h.2, getElem?_set_ne (Ne.symm h.1)]

theorem foldl_set_of_mem {b : β} {i : Nat} (hnd : (es.map Prod.snd).Nodup) (h : (b, i) ∈ es)
    (hi : i < bs.length) : (es.foldl (fun acc e => acc.set e.2 e.1) bs)[i]? = some b := by
  induction es generalizing bs with
  | nil => exact absurd h not_mem_nil
  | cons e es ih =>
    rw [map_cons, nodup_cons] at hnd
    rw [foldl_cons]
    rcases mem_cons.mp h with rfl | h
    · rw [foldl_set_of_notMem hnd.1, getElem?_set_self hi]
    · exact ih hnd.2 h (by rw [length_set]; exact hi)

end StableOrder
