import Voodoo.Cppgc.Pages
import Voodoo.Cppgc.Persistents
import Voodoo.Lib.Worklist

/-!
# Marking

`MarkingVisitor` marks with a worklist, whose elements are the objects and whose output is the weak
edges (`state_runToFixpoint`); it writes nothing but mark bits (`SameButMarks`).  The weak edges are
looked at when all is marked: those whose target has no mark are cleared
(`processWeakEdges_eq`).
-/

namespace Voodoo.Cppgc

open List Option Function

/-- The object that is visited for a field. -/
def Field.strong : Field → Option Address
  | .member target => target
  | .weakMember _ => none

/-- The weak edge of a field. -/
def Field.weakEdge (object : Address) : Field × Nat → Option (Address × Slot)
  | (.member _, _) => none
  | (.weakMember target, index) => target.map (·, .weakMember object index)

/-- The objects that are visited for an object. -/
def successors (contents : Address → List Field) (object : Address) : List Address :=
  (contents object).filterMap Field.strong

/-- The weak edges of the fields of an object. -/
def weakReferences (contents : Address → List Field) (object : Address) : List (Address × Slot) :=
  (contents object).zipIdx.filterMap (Field.weakEdge object)

/-- Only mark bits differ. -/
def SameButMarks (memory memory' : Memory) : Prop :=
  ∀ z, memory' z = { memory z with marked := (memory' z).marked }

namespace SameButMarks

variable {memory memory' memory'' : Memory}

theorem refl (memory : Memory) : SameButMarks memory memory := fun _ => rfl

theorem trans (h : SameButMarks memory memory') (h' : SameButMarks memory' memory'') :
    SameButMarks memory memory'' := by
  intro z
  rw [h' z, h z]

end SameButMarks

namespace MarkingVisitor

variable {v : MarkingVisitor} {contents : Address → List Field} {object target : Address}

/-- The visitor as a worklist. -/
def state (v : MarkingVisitor) : Worklist.State Address (Address × Slot) :=
  ⟨fun z => (v.memory z).marked, v.worklist, v.weakEdges⟩

theorem state_visit : (v.visit target).state = Worklist.visit v.state target := by
  rw [visit, Worklist.visit]
  show (if (v.memory target).marked then v else _).state =
    if (v.memory target).marked then v.state else _
  split
  · rfl
  · refine congrArg (fun m => Worklist.State.mk m (target :: v.worklist) v.weakEdges) ?_
    funext z
    show (Function.update v.memory target (v.memory target).mark z).marked = _
    by_cases hz : z = target
    · rw [hz, update_self, update_self]
      rfl
    · rw [update_of_ne hz, update_of_ne hz]
      rfl

theorem sameButMarks_visit : SameButMarks v.memory (v.visit target).memory := by
  rw [visit]
  split
  · exact .refl v.memory
  · intro z
    show Function.update v.memory target (v.memory target).mark z = { v.memory z with
      marked := (Function.update v.memory target (v.memory target).mark z).marked }
    by_cases hz : z = target
    · rw [hz, update_self]
      rfl
    · rw [update_of_ne hz]

theorem state_traceFields (v : MarkingVisitor) (object : Address) (fields : List (Field × Nat)) :
    SameButMarks v.memory (fields.foldl (traceField object) v).memory ∧
      (fields.foldl (traceField object) v).state =
        (fields.filterMap fun field => field.1.strong).foldl Worklist.visit
          { v.state with out := v.state.out ++ fields.filterMap (Field.weakEdge object) } := by
  induction fields generalizing v with
  | nil =>
    refine ⟨.refl v.memory, ?_⟩
    rw [filterMap_nil, filterMap_nil, append_nil]
    rfl
  | cons field fields ih =>
    obtain ⟨hmemory, hstate⟩ := ih (v.traceField object field)
    rw [foldl_cons, hstate]
    obtain ⟨field | field, index⟩ := field <;> cases field with
    | none => exact ⟨hmemory, rfl⟩
    | some target => ?_
    · refine ⟨sameButMarks_visit.trans hmemory, ?_⟩
      have hout : (v.visit target).state.out = v.state.out := by
        rw [state_visit, Worklist.out_visit]
      have hvisit := Worklist.visits_out v.state [target]
        (v.state.out ++ fields.filterMap (Field.weakEdge object))
      show (fields.filterMap fun field => field.1.strong).foldl Worklist.visit
        { (v.visit target).state with out := (v.visit target).state.out ++ _ } =
        (target :: fields.filterMap fun field => field.1.strong).foldl Worklist.visit _
      rw [foldl_cons, hout, state_visit]
      exact congrArg (fun t => List.foldl Worklist.visit t _) hvisit.symm
    · refine ⟨hmemory, ?_⟩
      show (fields.filterMap fun field => field.1.strong).foldl Worklist.visit
        { v.state with out := (v.state.out ++ [(target, .weakMember object index)]) ++
          fields.filterMap (Field.weakEdge object) } =
        (fields.filterMap fun field => field.1.strong).foldl Worklist.visit
          { v.state with out := v.state.out ++ (target, .weakMember object index) ::
            fields.filterMap (Field.weakEdge object) }
      rw [List.append_assoc, singleton_append]

theorem state_trace (v : MarkingVisitor) (contents : Address → List Field) (object : Address) :
    SameButMarks v.memory (v.trace contents object).memory ∧
    (v.trace contents object).state =
      Worklist.scan (successors contents) (weakReferences contents) v.state object := by
  obtain ⟨hmemory, hstate⟩ := state_traceFields v object (contents object).zipIdx
  have hsuccessors : ((contents object).zipIdx.filterMap fun field => field.1.strong) =
      successors contents object := by
    rw [successors, ← zipIdx_map_fst 0 (contents object), filterMap_map]
    rw [zipIdx_map_fst]
    rfl
  refine ⟨hmemory, hstate.trans ?_⟩
  rw [hsuccessors]
  rfl

/-- **The visitor runs as the worklist does.** -/
theorem state_runToFixpoint (v : MarkingVisitor) (contents : Address → List Field) (fuel : Nat) :
    (v.runToFixpoint contents fuel).map state =
      Worklist.run (successors contents) (weakReferences contents) fuel v.state ∧
    ∀ w, v.runToFixpoint contents fuel = some w → SameButMarks v.memory w.memory := by
  induction fuel generalizing v with
  | zero =>
    rw [runToFixpoint, Worklist.run]
    show Option.map state (if v.worklist.isEmpty then _ else _) =
      (if v.worklist.isEmpty then _ else _) ∧ _
    split
    · refine ⟨rfl, fun w hw => ?_⟩
      rw [← some.inj hw]
      exact .refl _
    · exact ⟨rfl, fun w hw => by cases hw⟩
  | succ fuel ih =>
    rw [runToFixpoint, Worklist.run]
    have hstate : v.state.work = v.worklist := rfl
    rw [hstate]
    cases hwork : v.worklist with
    | nil =>
      refine ⟨rfl, fun w hw => ?_⟩
      rw [← some.inj hw]
      exact .refl _
    | cons object rest =>
      obtain ⟨hmemory, hstate⟩ := state_trace { v with worklist := rest } contents object
      obtain ⟨hrun, hsame⟩ := ih (trace contents { v with worklist := rest } object)
      rw [hstate] at hrun
      exact ⟨hrun, fun w hw => hmemory.trans (hsame w hw)⟩

theorem state_visitPersistents (l : List (Nat × Address)) :
    SameButMarks v.memory (l.foldl (fun v p => v.visit p.2) v).memory ∧
      (l.foldl (fun v p => v.visit p.2) v).state = (l.map Prod.snd).foldl Worklist.visit v.state := by
  induction l generalizing v with
  | nil => exact ⟨.refl v.memory, rfl⟩
  | cons p l ih =>
    obtain ⟨hmemory, hstate⟩ := ih (v := v.visit p.2)
    rw [foldl_cons, hstate, state_visit]
    exact ⟨sameButMarks_visit.trans hmemory, rfl⟩

theorem visitWeakPersistents (l : List (Nat × Address)) :
    (l.foldl (fun v p => v.visitWeak p.2 (.weakPersistent p.1)) v).memory = v.memory ∧
      (l.foldl (fun v p => v.visitWeak p.2 (.weakPersistent p.1)) v).weakEdges =
        v.weakEdges ++ l.map fun p => (p.2, .weakPersistent p.1) := by
  induction l generalizing v with
  | nil => exact ⟨rfl, (append_nil _).symm⟩
  | cons p l ih =>
    obtain ⟨hmemory, hedges⟩ := ih (v := v.visitWeak p.2 (.weakPersistent p.1))
    rw [foldl_cons, hedges]
    exact ⟨hmemory, List.append_assoc ..⟩

end MarkingVisitor

/-! ### Weak edges -/

section WeakEdges

variable {h : Heap} {contents : Address → List Field} {object target : Address} {slot : Slot}
  {edges : List (Address × Slot)}

theorem mem_weakReferences : (target, slot) ∈ weakReferences contents object ↔
    ∃ index, slot = .weakMember object index ∧
      (contents object)[index]? = some (.weakMember (some target)) := by
  rw [weakReferences, mem_filterMap]
  constructor
  · rintro ⟨⟨field | field, index⟩, hmem, hedge⟩
    · exact nomatch hedge
    · obtain ⟨value, rfl, heq⟩ := map_eq_some_iff.mp hedge
      obtain ⟨rfl, rfl⟩ := Prod.mk.inj heq
      exact ⟨index, rfl, mem_zipIdx_iff_getElem?.mp hmem⟩
  · rintro ⟨index, rfl, hfield⟩
    exact ⟨(.weakMember (some target), index), mem_zipIdx_iff_getElem?.mpr hfield, rfl⟩

/-- One of the edges at `slot` has a target without a mark. -/
def cleared (memory : Memory) (edges : List (Address × Slot)) (slot : Slot) : Bool :=
  edges.any fun edge => decide (edge.2 = slot) && !(memory edge.1).marked

theorem cleared_iff {memory : Memory} : cleared memory edges slot = true ↔
    ∃ target, (target, slot) ∈ edges ∧ (memory target).marked = false := by
  rw [cleared, List.any_eq_true]
  constructor
  · rintro ⟨⟨target, slot'⟩, hmem, hand⟩
    obtain ⟨hslot, hmarked⟩ := Bool.and_eq_true_iff.mp hand
    obtain rfl := of_decide_eq_true hslot
    rw [Bool.not_eq_true'] at hmarked
    exact ⟨target, hmem, hmarked⟩
  · rintro ⟨target, hmem, hmarked⟩
    exact ⟨(target, slot), hmem, by rw [hmarked, decide_eq_true rfl]; rfl⟩

/-- `ProcessWeakEdges` of one edge. -/
theorem processWeakEdge_eq (edge : Address × Slot) :
    (h.processWeakEdge edge).space = h.space ∧
      (h.processWeakEdge edge).strongPersistents = h.strongPersistents ∧
      (h.processWeakEdge edge).weakPersistents.region = h.weakPersistents.region ∧
      (∀ object index, ((h.processWeakEdge edge).contents object)[index]? =
        if decide (edge.2 = .weakMember object index) && !(h.space.memory edge.1).marked then
          ((h.contents object)[index]?).map fun _ => .weakMember none
        else (h.contents object)[index]?) ∧
      ∀ owner, (h.processWeakEdge edge).weakPersistents.handles owner =
        if decide (edge.2 = .weakPersistent owner) && !(h.space.memory edge.1).marked then
          { h.weakPersistents.handles owner with value := none }
        else h.weakPersistents.handles owner := by
  rw [Heap.processWeakEdge]
  cases hmarked : (h.space.memory edge.1).marked with
  | true =>
    rw [if_pos rfl, Bool.not_true]
    refine ⟨rfl, rfl, rfl, fun object index => ?_, fun owner => ?_⟩
    · rw [Bool.and_false, if_neg Bool.false_ne_true]
    · rw [Bool.and_false, if_neg Bool.false_ne_true]
  | false =>
    rw [if_neg Bool.false_ne_true, Bool.not_false]
    cases edge.2 with
    | weakMember z i =>
      refine ⟨rfl, rfl, rfl, fun object index => ?_, fun owner => rfl⟩
      show (Function.update h.contents z ((h.contents z).set i (.weakMember none)) object)[index]? = _
      rw [Bool.and_true]
      by_cases hz : object = z
      · subst hz
        rw [update_self]
        by_cases hi : i = index
        · subst hi
          rw [decide_eq_true rfl, if_pos rfl, getElem?_set_self']
          rfl
        · rw [getElem?_set_ne hi, if_neg]
          rw [decide_eq_true_eq]
          intro heq
          injection heq with _ heq
          exact hi heq
      · rw [update_of_ne hz, if_neg]
        rw [decide_eq_true_eq]
        intro heq
        injection heq with heq
        exact hz heq.symm
    | weakPersistent other =>
      refine ⟨rfl, rfl, rfl, fun object index => rfl, fun owner => ?_⟩
      show Function.update h.weakPersistents.handles other
        { h.weakPersistents.handles other with value := none } owner = _
      rw [Bool.and_true]
      by_cases howner : owner = other
      · subst howner
        rw [update_self, decide_eq_true rfl, if_pos rfl]
      · rw [update_of_ne howner, if_neg]
        rw [decide_eq_true_eq]
        intro heq
        injection heq with heq
        exact howner heq.symm

/-- **`ProcessWeakEdges`** clears the members and the persistents at the cleared edges. -/
theorem processWeakEdges_eq (h : Heap) (edges : List (Address × Slot)) :
    (edges.foldl Heap.processWeakEdge h).space = h.space ∧
      (edges.foldl Heap.processWeakEdge h).strongPersistents = h.strongPersistents ∧
      (edges.foldl Heap.processWeakEdge h).weakPersistents.region = h.weakPersistents.region ∧
      (∀ object index, ((edges.foldl Heap.processWeakEdge h).contents object)[index]? =
        if cleared h.space.memory edges (.weakMember object index) then
          ((h.contents object)[index]?).map fun _ => .weakMember none
        else (h.contents object)[index]?) ∧
      ∀ owner, (edges.foldl Heap.processWeakEdge h).weakPersistents.handles owner =
        if cleared h.space.memory edges (.weakPersistent owner) then
          { h.weakPersistents.handles owner with value := none }
        else h.weakPersistents.handles owner := by
  induction edges generalizing h with
  | nil => exact ⟨rfl, rfl, rfl, fun _ _ => rfl, fun _ => rfl⟩
  | cons edge edges ih =>
    obtain ⟨hspace, hstrong, hregion, hcontents, hhandles⟩ := processWeakEdge_eq (h := h) edge
    obtain ⟨hspaces, hstrongs, hregions, hcontentss, hhandless⟩ := ih (h.processWeakEdge edge)
    have hcons : ∀ slot, cleared h.space.memory (edge :: edges) slot =
        (decide (edge.2 = slot) && !(h.space.memory edge.1).marked ||
          cleared h.space.memory edges slot) := fun slot => any_cons
    rw [foldl_cons]
    refine ⟨hspaces.trans hspace, hstrongs.trans hstrong, hregions.trans hregion,
      fun object index => ?_, fun owner => ?_⟩
    · rw [hcontentss, hcontents, hspace, hcons]
      cases decide (edge.2 = .weakMember object index) && !(h.space.memory edge.1).marked with
      | true =>
        rw [if_pos rfl, Bool.true_or, if_pos rfl, Option.map_map]
        exact ite_self _
      | false => rw [if_neg Bool.false_ne_true, Bool.false_or]
    · rw [hhandless, hhandles, hspace, hcons]
      cases decide (edge.2 = .weakPersistent owner) && !(h.space.memory edge.1).marked with
      | true =>
        rw [if_pos rfl, Bool.true_or, if_pos rfl]
        exact ite_self _
      | false => rw [if_neg Bool.false_ne_true, Bool.false_or]

end WeakEdges

/-! ### The heap -/

/-- The object of a strong persistent. -/
def Heap.Root (h : Heap) (z : Address) : Prop :=
  ∃ owner, (h.strongPersistents.handles owner).value = some z

/-- **What is reached** from the strong persistents along the strong references. -/
def Heap.Reached (h : Heap) : Address → Prop := Worklist.Reached h.Root (successors h.contents)

/-- A weak reference is cleared just when its target is not kept. -/
def ClearedTo (kept : Address → Prop) : Option Address → Option Address → Prop
  | none, target => target = none
  | some object, target => kept object ∧ target = some object ∨ ¬ kept object ∧ target = none

/-- A field is left alone, but for a weak reference. -/
def Field.ClearedTo (kept : Address → Prop) : Field → Field → Prop
  | .member target, field => field = .member target
  | .weakMember target, field =>
    ∃ target', Cppgc.ClearedTo kept target target' ∧ field = .weakMember target'

/-- What there is between two calls: nothing is marked, and all references are to objects. -/
structure Heap.Consistent (a : Arch) (h : Heap) : Prop where
  formatted : ∃ layout, Formatted a h.space layout
  unmarked : ∀ z ∈ h.space.live, (h.space.memory z).marked = false
  closed : ∀ z ∈ h.space.live, ∀ field ∈ h.contents z, ∀ target, field.target = some target →
    target ∈ h.space.live
  strong : h.strongPersistents.Attached h.space.live
  weak : h.weakPersistents.Attached h.space.live

/-- What marking does. -/
structure Heap.Marked (s t : Heap) : Prop where
  space : t.space = { s.space with memory := t.space.memory }
  memory : SameButMarks s.space.memory t.space.memory
  marked : ∀ z ∈ s.space.live, (t.space.memory z).marked = true ↔ s.Reached z
  contents : ∀ z ∈ s.space.live, s.Reached z →
    List.Forall₂ (Field.ClearedTo s.Reached) (s.contents z) (t.contents z)
  strong : t.strongPersistents =
    { s.strongPersistents with region := s.strongPersistents.region.iterate }
  weakRegion : t.weakPersistents.region = s.weakPersistents.region.iterate
  weak : ∀ owner, (t.weakPersistents.handles owner).node = (s.weakPersistents.handles owner).node ∧
    ClearedTo s.Reached (s.weakPersistents.handles owner).value
      (t.weakPersistents.handles owner).value

section Mark

variable {a : Arch} {s t : Heap} {x y z : Address}

theorem mem_successors {contents : Address → List Field} :
    y ∈ successors contents x ↔ .member (some y) ∈ contents x := by
  rw [successors, mem_filterMap]
  constructor
  · rintro ⟨field | field, hmem, hstrong⟩
    · obtain rfl : field = some y := hstrong
      exact hmem
    · exact nomatch hstrong
  · exact fun hmem => ⟨_, hmem, rfl⟩

theorem Heap.Consistent.successors_live (h : s.Consistent a) (hx : x ∈ s.space.live)
    (hy : y ∈ successors s.contents x) : y ∈ s.space.live :=
  h.closed x hx _ (mem_successors.mp hy) y rfl

/-- **The marking** of a consistent heap ends. -/
theorem runToFixpoint_eq (h : s.Consistent a) :
    ∃ w, (s.strongPersistents.traced.foldl (fun v p => v.visit p.2)
        { memory := s.space.memory : MarkingVisitor }).runToFixpoint s.contents
          s.space.live.length = some w ∧
      SameButMarks s.space.memory w.memory ∧
      (∀ z ∈ s.space.live, (w.memory z).marked = true ↔ s.Reached z) ∧
      ∀ edge, edge ∈ w.weakEdges ↔
        ∃ z ∈ s.space.live, s.Reached z ∧ edge ∈ weakReferences s.contents z := by
  obtain ⟨layout, hformatted⟩ := h.formatted
  have hnodup := hformatted.liveNodup
  have hsucc := fun x hx y hy => h.successors_live (x := x) (y := y) hx hy
  let v : MarkingVisitor := { memory := s.space.memory }
  obtain ⟨hmemory, hstate⟩ := MarkingVisitor.state_visitPersistents (v := v) s.strongPersistents.traced
  have hroot : ∀ r, s.Root r ↔ r ∈ s.strongPersistents.traced.map Prod.snd := by
    intro r
    rw [List.mem_map]
    constructor
    · rintro ⟨owner, hvalue⟩
      exact ⟨(owner, r), (Persistents.mem_traced h.strong).mpr hvalue, rfl⟩
    · rintro ⟨⟨owner, r'⟩, hmem, rfl⟩
      exact ⟨owner, (Persistents.mem_traced h.strong).mp hmem⟩
  have hrootLive : ∀ r, s.Root r → r ∈ s.space.live := by
    rintro r ⟨owner, hvalue⟩
    exact h.strong.live owner r hvalue
  have hempty : Worklist.Inv s.space.live s.Root (successors s.contents) (weakReferences s.contents)
      none v.state := by
    refine ⟨fun x hx hmarked => ?_, fun x hx => (not_mem_nil hx).elim, fun x hx hmarked => ?_,
      fun e he => (not_mem_nil he).elim⟩
    · cases (h.unmarked x hx).symm.trans hmarked
    · cases (h.unmarked x hx).symm.trans hmarked
  obtain ⟨hinv, hweight, -, -, hvisited⟩ := hempty.visits
    (s.strongPersistents.traced.map Prod.snd) hnodup fun r hr =>
      ⟨hrootLive r ((hroot r).mpr hr), .root ((hroot r).mpr hr)⟩
  rw [← hstate] at hinv hweight hvisited
  have hfuel : Worklist.weight s.space.live v.state ≤ s.space.live.length := by
    rw [Worklist.weight]
    exact length_filter_le ..
  obtain ⟨t, ht, hinvt, hdone, hmono⟩ := Worklist.run_eq hinv hnodup hsucc 
    (Nat.le_trans (Nat.le_of_eq hweight) hfuel)
  obtain ⟨hrun, hsame⟩ := MarkingVisitor.state_runToFixpoint
    (s.strongPersistents.traced.foldl (fun v p => v.visit p.2) v) s.contents s.space.live.length
  rw [ht] at hrun
  obtain ⟨w, hw, rfl⟩ := map_eq_some_iff.mp hrun
  have hmarked : ∀ z ∈ s.space.live, (w.memory z).marked = true ↔ s.Reached z := by
    intro z hz
    exact hinvt.marked_iff hdone (fun r hr => ⟨hrootLive r hr, hmono r (hvisited r ((hroot r).mp hr))⟩)
      hsucc hz
  refine ⟨w, hw, hmemory.trans (hsame w hw), hmarked, fun edge => ?_⟩
  refine (hinvt.mem_out_iff hdone).trans (exists_congr fun z => and_congr_right fun hz => ?_)
  exact and_congr_left fun _ => hmarked z hz

/-- The fields of an object whose weak references to unmarked objects are cleared. -/
theorem clearedTo_fields {fields fields' : List Field} {reached : Address → Prop} (memory : Memory)
    (clear : Nat → Bool)
    (hmarked : ∀ field ∈ fields, ∀ z, field.target = some z →
      ((memory z).marked = true ↔ reached z))
    (hclear : ∀ index, clear index = true ↔ ∃ target,
      fields[index]? = some (.weakMember (some target)) ∧ (memory target).marked = false)
    (hfields : ∀ index : Nat, fields'[index]? =
      if clear index then (fields[index]?).map fun _ => .weakMember none else fields[index]?) :
    List.Forall₂ (Field.ClearedTo reached) fields fields' := by
  have hnone : ∀ index : Nat, fields'[index]? = none ↔ fields[index]? = none := by
    intro index
    rw [hfields]
    split
    · exact map_eq_none_iff
    · exact Iff.rfl
  have hlength : fields.length = fields'.length := by
    refine Nat.le_antisymm ?_ ?_
    · exact List.getElem?_eq_none_iff.mp ((hnone _).mp (getElem?_eq_none (Nat.le_refl _)))
    · exact List.getElem?_eq_none_iff.mp ((hnone _).mpr (getElem?_eq_none (Nat.le_refl _)))
  refine forall₂_iff_get.mpr ⟨hlength, fun index hlt hlt' => ?_⟩
  have hfield : fields[index]? = some (fields.get ⟨index, hlt⟩) := getElem?_eq_getElem hlt
  have hfield' : fields'[index]? = some (fields'.get ⟨index, hlt'⟩) := getElem?_eq_getElem hlt'
  have hmem : fields.get ⟨index, hlt⟩ ∈ fields := List.get_mem ..
  generalize fields.get ⟨index, hlt⟩ = field at hfield hmem
  generalize fields'.get ⟨index, hlt'⟩ = field' at hfield'
  have hcases := hfields index
  have hiff := hclear index
  rw [hfield, hfield'] at hcases
  rw [hfield] at hiff
  cases hkind : clear index with
  | true =>
    obtain ⟨target, heq, htarget⟩ := hiff.mp hkind
    obtain rfl := some.inj heq
    rw [hkind, if_pos rfl] at hcases
    refine ⟨none, .inr ⟨fun hreached => ?_, rfl⟩, some.inj hcases⟩
    cases htarget.symm.trans ((hmarked _ hmem target rfl).mpr hreached)
  | false =>
    rw [hkind, if_neg Bool.false_ne_true] at hcases
    obtain rfl := some.inj hcases
    rw [hkind] at hiff
    cases field' with
    | member target => exact rfl
    | weakMember target =>
      refine ⟨target, ?_, rfl⟩
      cases target with
      | none => exact rfl
      | some object =>
        refine .inl ⟨(hmarked _ hmem object rfl).mp ?_, rfl⟩
        rw [← Bool.not_eq_false]
        exact fun hnot => by cases hiff.mpr ⟨object, rfl, hnot⟩

/-- **`Mark`** of a consistent heap. -/
theorem mark_eq (h : s.Consistent a) : ∃ t, s.mark = some t ∧ s.Marked t := by
  obtain ⟨w, hw, hmemory, hmarked, hedges⟩ := runToFixpoint_eq h
  obtain ⟨hsame, hweak⟩ := MarkingVisitor.visitWeakPersistents (v := w) s.weakPersistents.traced
  set v := s.weakPersistents.traced.foldl
    (fun v p => v.visitWeak p.2 (.weakPersistent p.1)) w with hv
  rw [← hsame] at hmemory hmarked
  let m : Heap := { s with
    space := { s.space with memory := v.memory }
    strongPersistents := { s.strongPersistents with region := s.strongPersistents.region.iterate }
    weakPersistents := { s.weakPersistents with region := s.weakPersistents.region.iterate } }
  obtain ⟨hspace, hstrong, hregion, hcontents, hhandles⟩ := processWeakEdges_eq m v.weakEdges
  have hmem : ∀ target slot, (target, slot) ∈ v.weakEdges ↔
      (∃ z ∈ s.space.live, s.Reached z ∧ (target, slot) ∈ weakReferences s.contents z) ∨
        ∃ owner, slot = .weakPersistent owner ∧
          (s.weakPersistents.handles owner).value = some target := by
    intro target slot
    rw [hweak, mem_append, hedges, List.mem_map]
    refine or_congr_right ⟨?_, ?_⟩
    · rintro ⟨⟨owner, object⟩, hmem, heq⟩
      obtain ⟨rfl, rfl⟩ := Prod.mk.inj heq
      exact ⟨owner, rfl, (Persistents.mem_traced h.weak).mp hmem⟩
    · rintro ⟨owner, rfl, hvalue⟩
      exact ⟨(owner, target), (Persistents.mem_traced h.weak).mpr hvalue, rfl⟩
  refine ⟨v.weakEdges.foldl Heap.processWeakEdge m, ?_, ?_⟩
  · show Option.bind _ _ = _
    rw [hw]
    rfl
  · constructor
    · rw [hspace]
    · rw [hspace]
      exact hmemory
    · intro z hz
      rw [hspace]
      exact hmarked z hz
    · intro z hz hreached
      refine clearedTo_fields v.memory
        (fun index => cleared v.memory v.weakEdges (.weakMember z index))
        (fun field hfield target htarget => hmarked target (h.closed z hz field hfield target htarget))
        (fun index => ?_) fun index => hcontents z index
      rw [cleared_iff]
      refine exists_congr fun target => and_congr_left fun _ => ?_
      rw [hmem]
      constructor
      · rintro (⟨object, -, -, hedge⟩ | ⟨owner, heq, -⟩)
        · obtain ⟨index', heq, hfield⟩ := mem_weakReferences.mp hedge
          injection heq with hz hindex
          rw [hz, hindex]
          exact hfield
        · cases heq
      · exact fun hfield => .inl ⟨z, hz, hreached, mem_weakReferences.mpr ⟨index, rfl, hfield⟩⟩
    · exact hstrong
    · exact hregion
    · intro owner
      have hiff : cleared v.memory v.weakEdges (.weakPersistent owner) = true ↔ ∃ target,
          (s.weakPersistents.handles owner).value = some target ∧
            (v.memory target).marked = false := by
        rw [cleared_iff]
        refine exists_congr fun target => and_congr_left fun _ => ?_
        rw [hmem]
        constructor
        · rintro (⟨object, -, -, hedge⟩ | ⟨owner', heq, hvalue⟩)
          · obtain ⟨index, heq, -⟩ := mem_weakReferences.mp hedge
            cases heq
          · injection heq with heq
            rw [heq]
            exact hvalue
        · exact fun hvalue => .inr ⟨owner, rfl, hvalue⟩
      have htargets := h.weak.live owner
      have hhandle : m.weakPersistents.handles owner = s.weakPersistents.handles owner := rfl
      rw [hhandles, hhandle]
      show (if cleared v.memory _ _ then _ else _ : BasicPersistent).node = _ ∧ ClearedTo s.Reached _
        (if cleared v.memory _ _ then _ else _ : BasicPersistent).value
      cases hkind : cleared v.memory v.weakEdges (.weakPersistent owner) with
      | true =>
        obtain ⟨target, hvalue, htarget⟩ := hiff.mp hkind
        rw [if_pos rfl, hvalue]
        refine ⟨rfl, .inr ⟨fun hreached => ?_, rfl⟩⟩
        cases htarget.symm.trans ((hmarked target (htargets target hvalue)).mpr hreached)
      | false =>
        rw [hkind] at hiff
        rw [if_neg Bool.false_ne_true]
        refine ⟨rfl, ?_⟩
        cases hvalue : (s.weakPersistents.handles owner).value with
        | none => exact rfl
        | some target =>
          refine .inl ⟨(hmarked target (htargets target hvalue)).mp ?_, rfl⟩
          rw [← Bool.not_eq_false]
          exact fun hnot => by cases hiff.mpr ⟨target, hvalue, hnot⟩

end Mark

end Voodoo.Cppgc
