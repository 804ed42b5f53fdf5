import Voodoo.Compiler.Embeds

/-!
# What the order of the definitions keeps

`SortEmbeds` on the structs and unions of any parsed file, under any set of enabled
flags: it never throws, and `sortEmbeds_ordered` says which order it gives.

A dependency is a name, and the sort looks names up in a map that keeps one place for
each of them, the last: `Waits` is what a place waits for.  `Names` is the plainer
reading, under which a dependency is on every struct or union of that name.  They
differ where a file declares one name twice, and there the order keeps the first and
not the second (`not_sortEmbeds_ordered_twice`).
-/

namespace Voodoo.Compiler

open Kahn List

section

variable (embeds : List Embed)

/-- `i` waits for `j`: `index` has `j` for a name `i` depends on. -/
def Waits (i j : Fin embeds.length) : Prop :=
  ∃ name ∈ (embeds.get i).deps, embedIndex embeds name = some j

/-- `j` has a name `i` depends on. -/
def Names (i j : Fin embeds.length) : Prop := (embeds.get j).key ∈ (embeds.get i).deps

/-- The places in `order`, all of them once, each after what it depends on and of the least
`decl_index` among those that could have gone out in its stead. -/
structure Ordered (depends : Fin embeds.length → Fin embeds.length → Prop)
    (order : List (Fin embeds.length)) : Prop where
  perm : order.Perm (List.finRange embeds.length)
  after : ∀ i j, depends i j → order.idxOf j < order.idxOf i
  least : ∀ out i rest, order = out ++ i :: rest → ∀ j, j ∉ out →
    (∀ k, depends j k → k ∈ out) → (embeds.get i).declIndex ≤ (embeds.get j).declIndex

end

section

variable {embeds : List Embed}

theorem waits_iff {i j : Fin embeds.length} : Waits embeds i j ↔ j ∈ (embedGraph embeds).deps i := by
  unfold Waits embedGraph
  rw [mem_filterMap]
  simp only [mem_dedup]

/-- **The order is right** when no place waits for itself through others. -/
theorem ordered_embedOrder (hg : (embedGraph embeds).Acyclic) :
    Ordered embeds (Waits embeds) (embedOrder embeds) where
  perm := by
    refine (perm_ext_iff_of_nodup embedOrder_greedy.nodup (nodup_finRange _)).mpr ?_
    intro i
    exact ⟨fun _ => mem_finRange i, fun _ => mem_embedOrder hg i⟩
  after i j hij := embedOrder_greedy.dep_before (mem_embedOrder hg i) (waits_iff.mp hij)
  least out i rest heq j hj hready := by
    have hleast := (embedOrder_greedy.ready_of_eq heq).2 j
      ⟨mem_finRange j, hj, fun k hk => hready k (waits_iff.mpr hk)⟩
    rcases Prod.Lex.le_iff.mp hleast with hlt | ⟨heq', -⟩
    · exact hlt.le
    · exact heq'.le

end

/-- **Topological emission never fails.**  For every file `ParseBody` accepts and every set of
enabled flags `SortEmbeds` returns, and what it returns is in order. -/
theorem sortEmbeds_ordered {scanned : Scanned} {moduleName : String} {p : Prelude} {m : Module}
    {s s' : Parser} (h : parseBody scanned moduleName p s = .ok m s') (enabled : List String) :
    ∃ order, sortEmbeds (applyEnableIf enabled m).embeds =
        some (order.map (applyEnableIf enabled m).embeds.get) ∧
      Ordered (applyEnableIf enabled m).embeds (Waits (applyEnableIf enabled m).embeds) order := by
  have hg : (embedGraph (applyEnableIf enabled m).embeds).Acyclic :=
    embedGraph_acyclic (acyclic_of_parseBody h) (fun _ => mem_embeds_applyEnableIf)
  exact ⟨_, sortEmbeds_eq hg, ordered_embedOrder hg⟩

theorem sortEmbeds_ordered_pair :
    ∃ m, parseText "struct A \x7b B b; \x7d; struct B \x7b int32 x; \x7d;" = .ok m ∧
      ∃ order, sortEmbeds (applyEnableIf [] m).embeds =
          some (order.map (applyEnableIf [] m).embeds.get) ∧
        Ordered (applyEnableIf [] m).embeds (Waits (applyEnableIf [] m).embeds) order := by
  obtain ⟨m, hm, -⟩ := exists_ok_of_any
    (x := parseText "struct A \x7b B b; \x7d; struct B \x7b int32 x; \x7d;") (p := fun _ => true)
    (by decide +kernel)
  obtain ⟨tokens, s', -, hfile⟩ := parseFile_of_parseText hm
  obtain ⟨scanned, m', t, hbody, heq⟩ := parseBody_of_parseFile hfile
  refine ⟨m, hm, ?_⟩
  rw [heq]
  exact sortEmbeds_ordered hbody []

theorem idxOf_map_of_injective {α β : Type*} [DecidableEq α] [DecidableEq β] {f : α → β}
    (hf : Function.Injective f) (l : List α) (a : α) : (l.map f).idxOf (f a) = l.idxOf a := by
  induction l with
  | nil => rfl
  | cons b l ih =>
    by_cases h : b = a
    · rw [h, map_cons, idxOf_cons_self, idxOf_cons_self]
    · rw [map_cons, idxOf_cons_ne _ (fun e => h (hf e)), idxOf_cons_ne _ h, ih]

/-- `sortEmbeds` puts something in front of what it depends on by name. -/
def strays (embeds : List Embed) : Bool :=
  decide embeds.Nodup && (sortEmbeds embeds).any (fun sorted =>
    embeds.any (fun e => embeds.any (fun d =>
      decide (d.key ∈ e.deps) && decide (sorted.idxOf e ≤ sorted.idxOf d))))

theorem not_ordered_of_strays {embeds : List Embed} (h : strays embeds = true) :
    ¬∃ order, sortEmbeds embeds = some (order.map embeds.get) ∧
      Ordered embeds (Names embeds) order := by
  rintro ⟨order, hsort, hord⟩
  rw [strays, hsort] at h
  simp only [Bool.and_eq_true, decide_eq_true_eq, Option.any_some, List.any_eq_true] at h
  obtain ⟨hnodup, e, he, d, hd, hdep, hle⟩ := h
  obtain ⟨i, rfl⟩ := mem_iff_get.mp he
  obtain ⟨j, rfl⟩ := mem_iff_get.mp hd
  have hinj : Function.Injective embeds.get := nodup_iff_injective_get.mp hnodup
  rw [idxOf_map_of_injective hinj, idxOf_map_of_injective hinj] at hle
  exact absurd (hord.after i j hdep) (Nat.not_lt.mpr hle)

/-- `B` goes out between the two structs named `A`. -/
theorem not_sortEmbeds_ordered_twice :
    ∃ m, parseText ("struct A \x7b C c; \x7d; struct B \x7b A a; \x7d; " ++
        "struct A \x7b int32 x; \x7d; struct C \x7b int32 y; \x7d;") = .ok m ∧
      ¬∃ order, sortEmbeds (applyEnableIf [] m).embeds =
          some (order.map (applyEnableIf [] m).embeds.get) ∧
        Ordered (applyEnableIf [] m).embeds (Names (applyEnableIf [] m).embeds) order := by
  obtain ⟨m, hm, htest⟩ := exists_ok_of_any
    (x := parseText ("struct A \x7b C c; \x7d; struct B \x7b A a; \x7d; " ++
        "struct A \x7b int32 x; \x7d; struct C \x7b int32 y; \x7d;"))
    (p := fun m => strays (applyEnableIf [] m).embeds) (by decide +kernel)
  exact ⟨m, hm, not_ordered_of_strays htest⟩

end Voodoo.Compiler
