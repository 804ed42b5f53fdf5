import Mathlib.Data.List.Infix
import Mathlib.Data.List.Nodup
import Mathlib.Logic.Relation

/-!
# Putting bases first

Items of which each has at most one base, known by their keys.  `sort` goes over the items; from
each it climbs to its bases as far as they are not put out yet, and puts out what it has climbed
over, the highest base first.

* `Rooted`: the bases of an item end;
* `sort_spec`: with distinct keys every item is put out once, and in front of an item stand its
  bases and what is above an item that comes earlier than all the items it is above.
-/

namespace BaseFirst

open List Option

variable {α κ : Type*} [DecidableEq κ] (key : α → κ)

/-- The base of an item; `none` is a base that is not found. -/
abbrev Up (α : Type*) := α → Option (Option α)

variable (up : Up α)

/-- The items from one on that are not put out, up to the first that is. -/
def climb (out : List α) : Nat → α → Option (List α)
  | 0, _ => none
  | n + 1, a =>
    if key a ∈ out.map key then some []
    else
      match up a with
      | none => none
      | some none => some [a]
      | some (some b) => (climb out n b).map (a :: ·)

/-- Puts out an item, unless one with its key is out. -/
def put (out : List α) (a : α) : List α := if key a ∈ out.map key then out else out ++ [a]

def sortFrom (fuel : Nat) : List α → List α → Option (List α)
  | [], out => some out
  | a :: rest, out => do
    let chain ← climb key up out fuel a
    sortFrom fuel rest (chain.reverse.foldl (put key) out)

def sort (fuel : Nat) (items : List α) : Option (List α) := sortFrom key up fuel items []

variable {key up}

/-! ### Keys -/

theorem nodup_put {out : List α} (h : (out.map key).Nodup) (a : α) :
    ((put key out a).map key).Nodup := by
  rw [put]
  split
  · exact h
  · rename_i ha
    rw [map_append, map_singleton]
    rw [← concat_eq_append]
    exact h.concat ha

theorem nodup_foldl_put (items out : List α) (h : (out.map key).Nodup) :
    ((items.foldl (put key) out).map key).Nodup := by
  induction items generalizing out with
  | nil => exact h
  | cons a rest ih => exact ih _ (nodup_put h a)

theorem nodup_sortFrom {fuel : Nat} {items out sorted : List α} (h : (out.map key).Nodup)
    (hs : sortFrom key up fuel items out = some sorted) : (sorted.map key).Nodup := by
  induction items generalizing out with
  | nil =>
    obtain rfl := some.inj hs
    exact h
  | cons a rest ih =>
    obtain ⟨chain, -, hs⟩ := bind_eq_some_iff.mp hs
    exact ih (nodup_foldl_put _ _ h) hs

theorem nodup_sort {fuel : Nat} {items sorted : List α}
    (hs : sort key up fuel items = some sorted) : (sorted.map key).Nodup :=
  nodup_sortFrom (map_nil (f := key) ▸ nodup_nil) hs

/-! ### Bases -/

variable (up)

/-- The bases of an item end behind `d` of them. -/
inductive Rooted : α → Nat → Prop
  | root {a : α} (h : up a = some none) : Rooted a 0
  | step {a b : α} {d : Nat} (h : up a = some (some b)) (hb : Rooted b d) : Rooted a (d + 1)

/-- `a` is the item `b` or a base of it, at whatever remove. -/
inductive Above : α → α → Prop
  | refl (a : α) : Above a a
  | step {a b c : α} (h : up c = some (some b)) (hab : Above a b) : Above a c

/-- `a` is a base of `b`, at whatever remove. -/
def Base (a b : α) : Prop := ∃ c, up b = some (some c) ∧ Above up a c

variable {up}

theorem above_iff {a b : α} : Above up a b ↔ a = b ∨ Base up a b := by
  constructor
  · intro h
    cases h with
    | refl => exact .inl rfl
    | step h hab => exact .inr ⟨_, h, hab⟩
  · rintro (rfl | ⟨c, h, hac⟩)
    · exact .refl _
    · exact .step h hac

theorem Above.trans {a b c : α} (hab : Above up a b) (hbc : Above up b c) : Above up a c := by
  induction hbc with
  | refl => exact hab
  | step h _ ih => exact .step h ih

theorem Rooted.of_above {a b : α} {d : Nat} (hb : Rooted up b d) (hab : Above up a b) :
    ∃ e ≤ d, Rooted up a e := by
  induction hab generalizing d with
  | refl => exact ⟨d, Nat.le_refl d, hb⟩
  | step h _ ih =>
    cases hb with
    | root h' => cases h'.symm.trans h
    | step h' hb =>
      obtain rfl := some.inj (some.inj (h'.symm.trans h))
      obtain ⟨e, he, hrooted⟩ := ih hb
      exact ⟨e, Nat.le_succ_of_le he, hrooted⟩

theorem Rooted.unique {a : α} {d e : Nat} (hd : Rooted up a d) (he : Rooted up a e) : d = e := by
  induction hd generalizing e with
  | root h =>
    cases he with
    | root => rfl
    | step h' => cases h.symm.trans h'
  | step h _ ih =>
    cases he with
    | root h' => cases h.symm.trans h'
    | step h' he =>
      obtain rfl := some.inj (some.inj (h.symm.trans h'))
      exact congrArg (· + 1) (ih he)

theorem Rooted.not_base {a : α} {d : Nat} (h : Rooted up a d) : ¬ Base up a a := by
  rintro ⟨c, hc, hac⟩
  cases h with
  | root h' => cases h'.symm.trans hc
  | step h' hb =>
    obtain rfl := some.inj (some.inj (h'.symm.trans hc))
    obtain ⟨e, he, hrooted⟩ := hb.of_above hac
    have := hrooted.unique (.step h' hb)
    omega

/-- What puts bases first has to be told: distinct keys, and bases that are items and end. -/
structure Based (key : α → κ) (up : Up α) (fuel : Nat) (items : List α) : Prop where
  nodup : (items.map key).Nodup
  closed : ∀ a ∈ items, ∀ b, up a = some (some b) → b ∈ items
  rooted : ∀ a ∈ items, ∃ d < fuel, Rooted up a d

section

variable {fuel : Nat} {items : List α}

omit [DecidableEq κ] in
theorem Based.mem_of_above (h : Based key up fuel items) {a b : α} (hb : b ∈ items)
    (hab : Above up a b) : a ∈ items := by
  induction hab with
  | refl => exact hb
  | step hup _ ih => exact ih (h.closed _ hb _ hup)

omit [DecidableEq κ] in
theorem Based.mem_map_iff (h : Based key up fuel items) {out : List α} (hout : out ⊆ items) {a : α}
    (ha : a ∈ items) : key a ∈ out.map key ↔ a ∈ out := by
  refine ⟨fun hmem => ?_, List.mem_map_of_mem⟩
  obtain ⟨b, hb, heq⟩ := List.mem_map.mp hmem
  rwa [← inj_on_of_nodup_map h.nodup (hout hb) ha heq]

/-! ### One climb -/

/-- What is climbed over from `a`: what is above it and is not out, the nearest first. -/
structure Climbed (up : Up α) (out : List α) (a : α) (chain : List α) : Prop where
  mem_iff : ∀ b, b ∈ chain ↔ Above up b a ∧ b ∉ out
  behind : ∀ l b r, chain = l ++ b :: r → ∀ c, c ∈ r ↔ Base up c b ∧ c ∉ out
  nodup : chain.Nodup

theorem climbed_nil {out : List α} (hclosed : ∀ b ∈ out, ∀ c, Above up c b → c ∈ out) {a : α}
    (ha : a ∈ out) : Climbed up out a [] where
  mem_iff b := iff_of_false not_mem_nil fun hb => hb.2 (hclosed a ha b hb.1)
  behind l b r h := by simp at h
  nodup := nodup_nil

theorem Climbed.cons {out : List α} {a : α} {rest : List α} (ha : a ∉ out)
    (hbase : ¬ Base up a a) (hrest : ∀ c, c ∈ rest ↔ Base up c a ∧ c ∉ out)
    (hbehind : ∀ l b r, rest = l ++ b :: r → ∀ c, c ∈ r ↔ Base up c b ∧ c ∉ out)
    (hnodup : rest.Nodup) : Climbed up out a (a :: rest) where
  mem_iff b := by
    rw [mem_cons, above_iff, hrest, or_and_right]
    exact or_congr_left ⟨fun hb => ⟨hb, hb ▸ ha⟩, And.left⟩
  behind l b r h c := by
    cases l with
    | nil =>
      obtain ⟨rfl, rfl⟩ := List.cons.inj h
      exact hrest c
    | cons x l => exact hbehind l b r (List.cons.inj h).2 c
  nodup := nodup_cons.mpr ⟨fun hmem => hbase ((hrest a).mp hmem).1, hnodup⟩

theorem Based.climb (h : Based key up fuel items) {out : List α} (hout : out ⊆ items)
    (hclosed : ∀ b ∈ out, ∀ c, Above up c b → c ∈ out) {n d : Nat} {a : α} (ha : a ∈ items)
    (hd : Rooted up a d) (hn : d < n) :
    ∃ chain, climb key up out n a = some chain ∧ Climbed up out a chain := by
  induction n generalizing a d with
  | zero => omega
  | succ n ih =>
    rw [BaseFirst.climb]
    by_cases hmem : a ∈ out
    · rw [if_pos ((h.mem_map_iff hout ha).mpr hmem)]
      exact ⟨[], rfl, climbed_nil hclosed hmem⟩
    · rw [if_neg (mt (h.mem_map_iff hout ha).mp hmem)]
      have hself := hd.not_base
      cases hd with
      | root hup =>
        have hnone : ∀ c, ¬ Base up c a := by
          rintro c ⟨b, hb, -⟩
          cases hup.symm.trans hb
        rw [hup]
        refine ⟨[a], rfl, .cons hmem hself (fun c => ?_) (fun l b r hl => ?_) nodup_nil⟩
        · exact iff_of_false not_mem_nil fun hc => hnone c hc.1
        · simp at hl
      | @step _ b d hup hb =>
        obtain ⟨chain, hchain, hspec⟩ := ih (h.closed a ha b hup) hb (by omega)
        rw [hup]
        refine ⟨a :: chain, congrArg (Option.map (a :: ·)) hchain,
          .cons hmem hself (fun c => ?_) hspec.behind hspec.nodup⟩
        have hbase : Base up c a ↔ Above up c b := by
          constructor
          · rintro ⟨b', hb', hc⟩
            obtain rfl := some.inj (some.inj (hup.symm.trans hb'))
            exact hc
          · exact fun hc => ⟨b, hup, hc⟩
        rw [hspec.mem_iff, hbase]

/-! ### The order -/

variable (up)

/-- `a` is above an item that comes earlier than all the items `b` is above. -/
def Earlier (items : List α) (a b : α) : Prop :=
  ∃ front c back, items = front ++ c :: back ∧ Above up a c ∧
    ∀ x ∈ front ++ [c], ¬ Above up b x

/-- What has been put out for the items. -/
structure Sorted (items out : List α) : Prop where
  nodup : out.Nodup
  mem_iff : ∀ a, a ∈ out ↔ ∃ x ∈ items, Above up a x
  front : ∀ l b r, out = l ++ b :: r → ∀ a, a ∈ l ↔ Earlier up items a b ∨ Base up a b

variable {up}

theorem earlier_concat {pre : List α} {x a b : α} :
    Earlier up (pre ++ [x]) a b ↔
      Earlier up pre a b ∨ Above up a x ∧ ∀ y ∈ pre ++ [x], ¬ Above up b y := by
  constructor
  · rintro ⟨front, c, back, heq, hac, hb⟩
    rcases eq_nil_or_concat back with rfl | ⟨back, y, rfl⟩
    · obtain ⟨rfl, hc⟩ := append_inj' heq rfl
      obtain rfl := (List.cons.inj hc).1
      exact .inr ⟨hac, hb⟩
    · rw [concat_eq_append, ← cons_append, ← List.append_assoc] at heq
      obtain ⟨rfl, -⟩ := append_inj' heq rfl
      exact .inl ⟨front, c, back, rfl, hac, hb⟩
  · rintro (⟨front, c, back, rfl, hac, hb⟩ | ⟨hax, hb⟩)
    · exact ⟨front, c, back ++ [x], by simp, hac, hb⟩
    · exact ⟨pre, x, [], rfl, hax, hb⟩

theorem sorted_nil : Sorted up [] [] where
  nodup := nodup_nil
  mem_iff a := by simp
  front l b r h := by simp at h

theorem foldl_put_of_nodup (h : Based key up fuel items) {chain out : List α}
    (hsub : out ++ chain ⊆ items) (hnodup : (out ++ chain).Nodup) :
    chain.foldl (put key) out = out ++ chain := by
  induction chain generalizing out with
  | nil => exact (append_nil out).symm
  | cons a chain ih =>
    have ha : a ∈ items := hsub (mem_append_right _ mem_cons_self)
    have hout : out ⊆ items := fun x hx => hsub (mem_append_left _ hx)
    have hnew : a ∉ out := fun hmem =>
      (List.nodup_append.mp hnodup).2.2 a hmem a mem_cons_self rfl
    rw [foldl_cons, put, if_neg (mt (h.mem_map_iff hout ha).mp hnew), ih]
    · rw [List.append_assoc, singleton_append]
    · rwa [List.append_assoc, singleton_append]
    · rwa [List.append_assoc, singleton_append]

/-- What was put out stays sorted when the climb from the next item is added to it. -/
theorem Sorted.climbed {pre out chain : List α} {x : α} (hs : Sorted up pre out)
    (hc : Climbed up out x chain) : Sorted up (pre ++ [x]) (out ++ chain.reverse) where
  nodup := by
    refine List.nodup_append.mpr ⟨hs.nodup, nodup_reverse.mpr hc.nodup, ?_⟩
    rintro a ha b hb rfl
    exact ((hc.mem_iff a).mp (mem_reverse.mp hb)).2 ha
  mem_iff a := by
    have hnew : a ∈ out ∨ a ∈ chain ↔ a ∈ out ∨ Above up a x := by
      rw [hc.mem_iff]
      by_cases ha : a ∈ out <;> simp [ha]
    rw [mem_append, mem_reverse, hnew, hs.mem_iff]
    simp only [mem_append, mem_singleton, or_and_right, exists_or, exists_eq_left]
  front l b r heq a := by
    rw [earlier_concat]
    -- where `b` is climbed over: in front of it is all that was out, and its bases that were not
    have hnew : ∀ mid, l = out ++ mid → chain.reverse = mid ++ b :: r →
        (a ∈ l ↔ (Earlier up pre a b ∨ Above up a x ∧ ∀ y ∈ pre ++ [x], ¬ Above up b y) ∨
          Base up a b) := by
      intro mid hl hchain
      have hsplit : chain = r.reverse ++ b :: mid.reverse := by
        rw [← reverse_reverse chain, hchain]
        simp
      have hb : Above up b x ∧ b ∉ out := (hc.mem_iff b).mp (by rw [hsplit]; simp)
      have hold : Earlier up pre a b ↔ a ∈ out := by
        rw [hs.mem_iff]
        constructor
        · rintro ⟨front, c, back, rfl, hac, -⟩
          exact ⟨c, by simp, hac⟩
        · rintro ⟨c, hcpre, hac⟩
          obtain ⟨front, back, rfl⟩ := append_of_mem hcpre
          refine ⟨front, c, back, rfl, hac, fun y hy hby => hb.2 ((hs.mem_iff b).mpr ⟨y, ?_, hby⟩)⟩
          exact append_cons front c back ▸ mem_append_left _ hy
      have hlast : ¬ (Above up a x ∧ ∀ y ∈ pre ++ [x], ¬ Above up b y) := fun hno =>
        hno.2 x (mem_append_right _ (mem_singleton_self x)) hb.1
      have hmid : a ∈ mid ↔ Base up a b ∧ a ∉ out := by
        rw [← hc.behind _ _ _ hsplit a, mem_reverse]
      rw [hl, mem_append, hmid, hold, or_iff_left hlast]
      by_cases ha : a ∈ out <;> simp [ha]
    rcases append_eq_append_iff.mp heq with ⟨mid, hl, hchain⟩ | ⟨mid, hout, hr⟩
    · exact hnew mid hl hchain
    · cases mid with
      | nil => exact hnew [] (by rw [hout, append_nil, append_nil]) hr.symm
      | cons y mid =>
        obtain ⟨rfl, -⟩ := List.cons.inj hr
        have hmem : b ∈ out := hout ▸ mem_append_right _ mem_cons_self
        have hlast : ¬ (Above up a x ∧ ∀ y ∈ pre ++ [x], ¬ Above up b y) := by
          rintro ⟨-, hno⟩
          obtain ⟨y, hy, hby⟩ := (hs.mem_iff b).mp hmem
          exact hno y (mem_append_left _ hy) hby
        rw [or_iff_left hlast]
        exact hs.front l b mid hout a

/-! ### The whole -/

theorem sortFrom_spec (h : Based key up fuel items) {rest pre out : List α}
    (hitems : items = pre ++ rest) (hs : Sorted up pre out) (hout : out ⊆ items) :
    ∃ sorted, sortFrom key up fuel rest out = some sorted ∧ Sorted up items sorted := by
  induction rest generalizing pre out with
  | nil => exact ⟨out, rfl, by rwa [hitems, append_nil]⟩
  | cons a rest ih =>
    have ha : a ∈ items := hitems ▸ mem_append_right _ mem_cons_self
    have hclosed : ∀ b ∈ out, ∀ c, Above up c b → c ∈ out := by
      intro b hb c hcb
      obtain ⟨x, hx, hbx⟩ := (hs.mem_iff b).mp hb
      exact (hs.mem_iff c).mpr ⟨x, hx, hcb.trans hbx⟩
    obtain ⟨d, hd, hrooted⟩ := h.rooted a ha
    obtain ⟨chain, hchain, hspec⟩ := h.climb hout hclosed ha hrooted hd
    have hnext := hs.climbed hspec
    have hsub : out ++ chain.reverse ⊆ items := by
      refine append_subset.mpr ⟨hout, fun b hb => ?_⟩
      exact h.mem_of_above ha ((hspec.mem_iff b).mp (mem_reverse.mp hb)).1
    rw [sortFrom, hchain, bind_eq_bind, bind_some,
      foldl_put_of_nodup h hsub hnext.nodup]
    exact ih (by rw [hitems, List.append_assoc, singleton_append]) hnext hsub

/-- **Every item is put out once, behind its bases and what comes earlier.** -/
theorem sort_spec (h : Based key up fuel items) :
    ∃ sorted, sort key up fuel items = some sorted ∧ sorted.Perm items ∧
      ∀ l b r, sorted = l ++ b :: r → ∀ a, a ∈ l ↔ Earlier up items a b ∨ Base up a b := by
  obtain ⟨sorted, hsort, hspec⟩ := sortFrom_spec h (nil_append items).symm sorted_nil
    (nil_subset items)
  refine ⟨sorted, hsort, ?_, hspec.front⟩
  refine (perm_ext_iff_of_nodup hspec.nodup h.nodup.of_map).mpr fun a => ?_
  rw [hspec.mem_iff]
  exact ⟨fun ⟨x, hx, hax⟩ => h.mem_of_above hx hax, fun ha => ⟨a, ha, .refl a⟩⟩

end

end BaseFirst
