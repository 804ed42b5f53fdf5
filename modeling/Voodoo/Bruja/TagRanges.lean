import Voodoo.Bruja.TagIndices
import Voodoo.Sandbox.TypeTags

/-!
# Tag ranges

How the two backends tell whether an object that script passes wraps an object of an interface or
of one that derives from it.  The V8 backend looks for the object's tag, which is the base of the
tags of the module plus the index of the interface, in the range of the declared interface.  The
quickjs backend tries the class of each interface in `DescendantsInclusive`.

The base is what `AllocateCppHeapPointerTagRange` returns at run time.  It is not checked, neither
there nor here, against the 15 bits that an entry of the table has for a tag.

* `tagRanges_exact`: the indices of every module are exact, and the backends agree **exactly when
  the tags of the module end below `2 ^ 15`** or it has no interface;
* `not_tagRanges_exact`: a module with one interface, behind 32767 tags.
-/

namespace Voodoo.Bruja

open Relation Forest Sandbox

variable {μ : Type} {m : Module μ}

/-! ### The V8 backend -/

/-- `static_cast<v8::CppHeapPointerTag>(static_cast<uint16_t>(TagBaseValue()) + index)`. -/
def tagOf (base : Tag) (index : Nat) : Tag := BitVec.ofNat 16 (base.toNat + index)

/-- The range that `TagRangeExpr` writes. -/
def tagRangeExpr (base : Tag) (info : TagIndex) : TagRange :=
  ⟨tagOf base info.subtreeMin, tagOf base info.subtreeMax⟩

/-- The tag that `EnsureV8XTag` gives the wrappers of an interface. -/
def wrapperTag (base : Tag) (info : TagIndex) : Tag := tagOf base info.localIndex

/-- The entry that `Object::Wrap` has made for `pointer` is behind `handle`. -/
def Wrapped (t : CppHeapPointerTable) (handle : Nat) (pointer : Word) (tag : Tag) : Prop :=
  handle ≠ 0 ∧ t.entries[handleToIndex handle]? = some ⟨cppHeapLayout.tag pointer tag⟩

/-- What `EmitInterfaceValueConversion` emits: `Object::Unwrap` under the range of the interface. -/
def interfaceValueConversion (t : CppHeapPointerTable) (handle : Nat) (base : Tag)
    (info : TagIndex) : Word :=
  PointerTable.get t handle (tagRangeExpr base info)

/-! ### The quickjs backend -/

/-- `DescendantsInclusive`. -/
def descendantsInclusive (ctx : GenContext μ) (fuel : Nat) (name : String) :
    Option (List String) :=
  stackWalk ctx.children fuel [name] []

/-- An object of script with the pointer it carries. -/
structure ClassObject where
  classId : Nat
  pointer : Word

/-- `JS_GetOpaque`. -/
def jsGetOpaque (o : ClassObject) (classId : Nat) : Word :=
  if o.classId = classId then o.pointer else 0

/-- What `EmitInterfaceProbe` emits for one candidate. -/
def probeCandidate (classId : String → Nat) (o : ClassObject) (found : Word) (cand : String) :
    Word :=
  if found = 0 then jsGetOpaque o (classId cand) else found

/-- What `EmitInterfaceProbe` emits. -/
def interfaceProbe (classId : String → Nat) (candidates : List String) (o : ClassObject) : Word :=
  candidates.foldl (probeCandidate classId o) 0

/-! ### What the ranges are for -/

/-- The indices are exact, and the backends accept the same wrappers. -/
structure ExactRanges (m : Module μ) (base : Tag) (out : String → Option TagIndex) : Prop where
  computed : ∃ enough, ∀ fuel, enough ≤ fuel →
    computeTagIndices (buildContext m) fuel = some out
  bijective : Set.BijOn (fun x => (out x).map TagIndex.localIndex) {x | x ∈ m.names}
    {k | ∃ i < m.interfaces.length, k = some i}
  range : ∀ a ∈ m.names, ∀ b ∈ m.names, ∀ infoA infoB, out a = some infoA → out b = some infoB →
    (infoA.subtreeMin ≤ infoB.localIndex ∧ infoB.localIndex ≤ infoA.subtreeMax ↔
      ReflTransGen m.IsBase a b)
  probes : ∀ a ∈ m.names, ∀ b ∈ m.names, ∀ infoA infoB, out a = some infoA → out b = some infoB →
    ∃ candidates, (∃ enough, ∀ fuel, enough ≤ fuel →
        descendantsInclusive (buildContext m) fuel a = some candidates) ∧
      ∀ classId, Set.InjOn classId {x | x ∈ m.names} →
      ∀ pointer, cppHeapLayout.Fits pointer → pointer ≠ 0 →
      ∀ t handle, Wrapped t handle pointer (wrapperTag base infoB) →
        (interfaceValueConversion t handle base infoA ≠ 0 ↔
          interfaceProbe classId candidates ⟨classId b, pointer⟩ ≠ 0)

/-! ### The probes -/

theorem probeCandidate_ne_zero_iff (classId : String → Nat) (o : ClassObject) (found : Word)
    (cand : String) :
    probeCandidate classId o found cand ≠ 0 ↔
      found ≠ 0 ∨ o.pointer ≠ 0 ∧ classId cand = o.classId := by
  rw [probeCandidate]
  by_cases hfound : found = 0
  · rw [if_pos hfound, jsGetOpaque, or_iff_right (not_not_intro hfound)]
    by_cases hclass : o.classId = classId cand
    · rw [if_pos hclass, and_iff_left hclass.symm]
    · rw [if_neg hclass]
      exact iff_of_false (fun h => h rfl) fun h => hclass h.2.symm
  · rw [if_neg hfound]
    exact iff_of_true hfound (.inl hfound)

theorem interfaceProbe_ne_zero_iff (classId : String → Nat) (candidates : List String)
    (o : ClassObject) :
    interfaceProbe classId candidates o ≠ 0 ↔
      o.pointer ≠ 0 ∧ ∃ cand ∈ candidates, classId cand = o.classId := by
  have hloop : ∀ (candidates : List String) (found : Word),
      candidates.foldl (probeCandidate classId o) found ≠ 0 ↔
        found ≠ 0 ∨ o.pointer ≠ 0 ∧ ∃ cand ∈ candidates, classId cand = o.classId := by
    intro candidates
    induction candidates with
    | nil =>
      intro found
      simp only [List.foldl_nil, List.not_mem_nil, false_and, exists_false, and_false, or_false]
    | cons cand rest ih =>
      intro found
      rw [List.foldl_cons, ih, probeCandidate_ne_zero_iff, or_assoc, ← and_or_left]
      simp only [List.mem_cons, exists_eq_or_imp]
  rw [interfaceProbe, hloop, or_iff_right (not_not_intro rfl)]

/-- The tag that an entry for a wrapper of the interface at `index` has. -/
def storedTag (base : Tag) (index : Nat) : Tag :=
  BitVec.ofNat 16 ((tagOf base index).toNat % 2 ^ 15)

theorem interfaceValueConversion_ne_zero_iff {t : CppHeapPointerTable} {handle : Nat}
    {pointer : Word} {base : Tag} {infoA infoB : TagIndex} (hp : cppHeapLayout.Fits pointer)
    (hne : pointer ≠ 0) (h : Wrapped t handle pointer (wrapperTag base infoB)) :
    interfaceValueConversion t handle base infoA ≠ 0 ↔
      (tagRangeExpr base infoA).contains (storedTag base infoB.localIndex) = true := by
  rw [interfaceValueConversion, PointerTable.get, if_neg h.1, h.2]
  show cppHeapLayout.untagAllowNullHandle _ _ ≠ 0 ↔ _
  rw [cppHeapLayout.untag_of_fits hp]
  show (if (tagRangeExpr base infoA).contains (storedTag base infoB.localIndex) = true then pointer
    else 0) ≠ 0 ↔ _
  by_cases hcontains : (tagRangeExpr base infoA).contains (storedTag base infoB.localIndex) = true
  · rw [if_pos hcontains]
    exact iff_of_true hne hcontains
  · rw [if_neg hcontains]
    exact iff_of_false (fun hzero => hzero rfl) hcontains

theorem contains_iff_toNat (r : TagRange) (t : Tag) :
    r.contains t = true ↔
      (t.toNat + (2 ^ 32 - r.first.toNat)) % 2 ^ 32 ≤
        (r.last.toNat + (2 ^ 32 - r.first.toNat)) % 2 ^ 32 := by
  have hfirst := r.first.isLt
  have hlast := r.last.isLt
  have htag := t.isLt
  rw [TagRange.contains, decide_eq_true_iff]
  bv_omega

theorem toNat_tagOf (base : Tag) (index : Nat) :
    (tagOf base index).toNat = (base.toNat + index) % 2 ^ 16 :=
  BitVec.toNat_ofNat _ _

theorem toNat_storedTag (base : Tag) (index : Nat) :
    (storedTag base index).toNat = (base.toNat + index) % 2 ^ 15 := by
  have hmod : (tagOf base index).toNat % 2 ^ 15 < 2 ^ 15 := Nat.mod_lt _ (by decide)
  rw [storedTag, BitVec.toNat_ofNat, Nat.mod_eq_of_lt (hmod.trans (by decide)), toNat_tagOf,
    Nat.mod_mod_of_dvd _ (by decide)]

/-- An entry for the index `j` is found under the range from the index `i` on over `below`
more. -/
def Accepts (base : Tag) (i below j : Nat) : Prop :=
  (TagRange.mk (tagOf base i) (tagOf base (i + below))).contains (storedTag base j) = true

theorem accepts_iff (base : Tag) (i below j : Nat) :
    Accepts base i below j ↔
      ((base.toNat + j) % 2 ^ 15 + (2 ^ 32 - (base.toNat + i) % 2 ^ 16)) % 2 ^ 32 ≤
        ((base.toNat + (i + below)) % 2 ^ 16 + (2 ^ 32 - (base.toNat + i) % 2 ^ 16)) % 2 ^ 32 := by
  rw [Accepts, contains_iff_toNat, toNat_storedTag, toNat_tagOf, toNat_tagOf]

theorem accepts_of_room {base : Tag} {n i below j : Nat} (hroom : base.toNat + n ≤ 2 ^ 15)
    (hi : i + below < n) (hj : j < n) : Accepts base i below j ↔ i ≤ j ∧ j ≤ i + below := by
  rw [accepts_iff]
  omega

theorem accepts_congr {base : Tag} {j k : Nat} (h : j % 2 ^ 15 = k % 2 ^ 15) (i below : Nat) :
    Accepts base i below j ↔ Accepts base i below k := by
  rw [accepts_iff, accepts_iff, Nat.add_mod base.toNat j, h, ← Nat.add_mod]

theorem not_accepts_self {base : Tag} {i : Nat} (h : 2 ^ 15 ≤ (base.toNat + i) % 2 ^ 16) :
    ¬ Accepts base i 0 i := by
  rw [accepts_iff]
  omega

theorem not_accepts_last {base : Tag} {i below : Nat} (h : (base.toNat + i) % 2 ^ 16 = 2 ^ 16 - 1)
    (hbelow : below < 2 ^ 15) : ¬ Accepts base i below i := by
  rw [accepts_iff]
  omega

/-- Where every range accepts what it should, the tags end below `2 ^ 15`. -/
theorem room_of_accepts {base : Tag} {n : Nat} {names : List String} {index below : String → Nat}
    (hlt : ∀ a ∈ names, index a + below a < n)
    (hsurjective : ∀ k < n, ∃ a ∈ names, index a = k)
    (haccepts : ∀ a ∈ names, ∀ b ∈ names, Accepts base (index a) (below a) (index b) ↔
      index a ≤ index b ∧ index b ≤ index a + below a) :
    n = 0 ∨ base.toNat + n ≤ 2 ^ 15 := by
  rcases Nat.eq_zero_or_pos n with hzero | hpos
  · exact .inl hzero
  right
  by_contra hroom
  have hself : ∀ a ∈ names, Accepts base (index a) (below a) (index a) :=
    fun a ha => (haccepts a ha a ha).mpr ⟨Nat.le_refl _, Nat.le_add_right _ _⟩
  obtain ⟨last, hlast, hindex⟩ := hsurjective (n - 1) (by omega)
  have hbelow : below last = 0 := by
    have := hlt last hlast
    omega
  by_cases hmany : 2 ^ 15 < n
  · -- some interface has the tag of the last one, but for the bit that is lost
    obtain ⟨twin, htwin, hindex'⟩ := hsurjective (n - 1 - 2 ^ 15) (by omega)
    have hcongr : index last % 2 ^ 15 = index twin % 2 ^ 15 := by omega
    have htwice := (haccepts last hlast twin htwin).mp
      ((accepts_congr hcongr _ _).mp (hself last hlast))
    omega
  · by_cases hbit : 2 ^ 15 ≤ (base.toNat + (n - 1)) % 2 ^ 16
    · refine @not_accepts_self base (index last) ?_ ?_
      · rwa [hindex]
      · have := hself last hlast
        rwa [hbelow] at this
    · -- the tags run over 16 bits, so one of the interfaces has the greatest tag
      have hbase := base.isLt
      obtain ⟨top, htop, htopIndex⟩ := hsurjective (2 ^ 16 - 1 - base.toNat) (by omega)
      have htopLt := hlt top htop
      exact not_accepts_last (by omega) (by omega) (hself top htop)

/-! ### Exactness -/

theorem exists_candidates (wf : WellFounded fun b a => IsChild (buildContext m).children a b)
    (a : String) : ∃ candidates, (∀ x, x ∈ candidates ↔ ReflTransGen m.IsBase a x) ∧
      ∃ enough, ∀ fuel, enough ≤ fuel →
        descendantsInclusive (buildContext m) fuel a = some candidates := by
  obtain ⟨candidates, hmem, henough⟩ := stackWalk_root wf a
  rw [isChild_eq] at hmem
  exact ⟨candidates, hmem, henough⟩

theorem mem_names_of_derives {a b : String} (ha : a ∈ m.names) (h : ReflTransGen m.IsBase a b) :
    b ∈ m.names := by
  rcases ReflTransGen.cases_tail h with rfl | ⟨c, -, hc⟩
  · exact ha
  · exact mem_names_of_isBase hc

theorem probe_iff_derives {classId : String → Nat} {candidates : List String} {a b : String}
    {pointer : Word} (hmem : ∀ x, x ∈ candidates ↔ ReflTransGen m.IsBase a x)
    (hclass : Set.InjOn classId {x | x ∈ m.names}) (ha : a ∈ m.names) (hb : b ∈ m.names)
    (hne : pointer ≠ 0) :
    interfaceProbe classId candidates ⟨classId b, pointer⟩ ≠ 0 ↔ ReflTransGen m.IsBase a b := by
  rw [interfaceProbe_ne_zero_iff, and_iff_right (show (ClassObject.mk (classId b) pointer).pointer ≠ 0
    from hne)]
  constructor
  · rintro ⟨cand, hcand, heq⟩
    have hderives := (hmem cand).mp hcand
    rwa [hclass (mem_names_of_derives ha hderives) hb heq] at hderives
  · exact fun hderives => ⟨b, (hmem b).mpr hderives, rfl⟩

section Exact

variable (hnames : m.names.Nodup)
  (wf : WellFounded fun b a => IsChild (buildContext m).children a b) (hchained : m.Chained)

/-- What the generator computes. -/
noncomputable def tagIndices : String → Option TagIndex :=
  number (below wf) 0 (forest wf) fun _ => none

include hchained in
theorem tagIndices_eq {x : String} (hx : x ∈ m.names) :
    tagIndices wf x =
      some ⟨(forest wf).idxOf x, (forest wf).idxOf x, (forest wf).idxOf x + below wf x⟩ :=
  number_forest wf hchained hx

include hnames hchained

theorem bijOn_localIndex :
    Set.BijOn (fun x => (tagIndices wf x).map TagIndex.localIndex) {x | x ∈ m.names}
      {k | ∃ i < m.interfaces.length, k = some i} := by
  have hindex : ∀ x ∈ m.names,
      (tagIndices wf x).map TagIndex.localIndex = some ((forest wf).idxOf x) := by
    intro x hx
    rw [tagIndices_eq wf hchained hx]
    rfl
  refine ⟨fun x hx => ?_, fun x hx y hy heq => ?_, ?_⟩
  · exact ⟨_, idxOf_lt hnames wf hchained hx, hindex x hx⟩
  · have heq : (tagIndices wf x).map TagIndex.localIndex =
        (tagIndices wf y).map TagIndex.localIndex := heq
    rw [hindex x hx, hindex y hy] at heq
    exact (List.idxOf_inj ((mem_forest wf hchained).mpr hx)).mp (Option.some.inj heq)
  · rintro _ ⟨k, hk, rfl⟩
    obtain ⟨x, hx, rfl⟩ := exists_idxOf hnames wf hchained hk
    exact ⟨x, hx, hindex x hx⟩

theorem exactRanges_of_accepts {base : Tag}
    (haccepts : ∀ a ∈ m.names, ∀ b ∈ m.names,
      Accepts base ((forest wf).idxOf a) (below wf a) ((forest wf).idxOf b) ↔
        ReflTransGen m.IsBase a b) :
    ExactRanges m base (tagIndices wf) where
  computed := computeTagIndices_eq hnames wf
  bijective := bijOn_localIndex hnames wf hchained
  range a ha b hb infoA infoB hinfoA hinfoB := by
    obtain rfl := Option.some.inj ((tagIndices_eq wf hchained ha).symm.trans hinfoA)
    obtain rfl := Option.some.inj ((tagIndices_eq wf hchained hb).symm.trans hinfoB)
    exact range_iff hnames wf hchained ha hb
  probes a ha b hb infoA infoB hinfoA hinfoB := by
    obtain rfl := Option.some.inj ((tagIndices_eq wf hchained ha).symm.trans hinfoA)
    obtain rfl := Option.some.inj ((tagIndices_eq wf hchained hb).symm.trans hinfoB)
    obtain ⟨candidates, hmem, henough⟩ := exists_candidates wf a
    refine ⟨candidates, henough, fun classId hclass pointer hp hne t handle hwrapped => ?_⟩
    rw [interfaceValueConversion_ne_zero_iff hp hne hwrapped,
      probe_iff_derives hmem hclass ha hb hne]
    exact haccepts a ha b hb

theorem accepts_of_exactRanges {base : Tag} {out : String → Option TagIndex}
    (h : ExactRanges m base out) {a b : String} (ha : a ∈ m.names) (hb : b ∈ m.names) :
    Accepts base ((forest wf).idxOf a) (below wf a) ((forest wf).idxOf b) ↔
      ReflTransGen m.IsBase a b := by
  have hout : out = tagIndices wf := by
    obtain ⟨n, hn⟩ := h.computed
    obtain ⟨k, hk⟩ := computeTagIndices_eq hnames wf
    have heq := (hn (max n k) (Nat.le_max_left n k)).symm.trans
      (hk (max n k) (Nat.le_max_right n k))
    exact Option.some.inj heq
  obtain ⟨candidates, ⟨n, hn⟩, hprobes⟩ := h.probes a ha b hb _ _
    (hout ▸ tagIndices_eq wf hchained ha) (hout ▸ tagIndices_eq wf hchained hb)
  obtain ⟨candidates', hmem, k, hk⟩ := exists_candidates wf a
  have heq : candidates = candidates' :=
    Option.some.inj ((hn (max n k) (Nat.le_max_left n k)).symm.trans
      (hk (max n k) (Nat.le_max_right n k)))
  subst heq
  -- one class for each interface, and a table with the one wrapper
  have hclass : Set.InjOn (fun x => m.names.idxOf x) {x | x ∈ m.names} :=
    fun x hx y _ hxy => (List.idxOf_inj hx).mp hxy
  have hfits : cppHeapLayout.Fits 1 := by decide
  have hne : (1 : Word) ≠ 0 := by decide
  let info : TagIndex :=
    ⟨(forest wf).idxOf b, (forest wf).idxOf b, (forest wf).idxOf b + below wf b⟩
  have hwrapped : Wrapped ⟨[⟨cppHeapLayout.tag 1 (wrapperTag base info)⟩], nullIndex⟩ 1 1
      (wrapperTag base info) := ⟨Nat.one_ne_zero, rfl⟩
  have hagree := hprobes _ hclass 1 hfits hne _ 1 hwrapped
  rw [interfaceValueConversion_ne_zero_iff hfits hne hwrapped,
    probe_iff_derives hmem hclass ha hb hne] at hagree
  exact hagree

end Exact

/-- **The indices of every accepted module are exact, and the two backends accept the same wrappers
exactly when the tags of the module end below `2 ^ 15`.** -/
theorem tagRanges_exact (resolveMembers : Interface μ → Except String Unit)
    (resolveRest : Module μ → Except String Unit) (m : Module μ)
    (hresolve : resolve resolveMembers resolveRest m = some (.ok ())) (hnames : m.names.Nodup)
    (base : Tag) :
    (∃ out, ExactRanges m base out) ↔
      m.interfaces.length = 0 ∨ base.toNat + m.interfaces.length ≤ 2 ^ 15 := by
  have hchained := chained_of_resolve hresolve
  have wf := wellFounded_of_chained hnames hchained
  constructor
  · rintro ⟨out, h⟩
    refine room_of_accepts (fun a ha => idxOf_add_below_lt hnames wf hchained ha)
      (fun k hk => exists_idxOf hnames wf hchained hk) fun a ha b hb => ?_
    rw [accepts_of_exactRanges hnames wf hchained h ha hb, range_iff hnames wf hchained ha hb]
  · intro hroom
    refine ⟨tagIndices wf, exactRanges_of_accepts hnames wf hchained fun a ha b hb => ?_⟩
    have hb' := idxOf_lt hnames wf hchained hb
    have hroom : base.toNat + m.interfaces.length ≤ 2 ^ 15 := hroom.resolve_left (by omega)
    rw [accepts_of_room hroom (idxOf_add_below_lt hnames wf hchained ha) hb',
      range_iff hnames wf hchained ha hb]

/-- A tree of four interfaces that are declared from the leaves up, at the first base. -/
def nodeModule : Module Unit where
  interfaces := [⟨"Text", "Node", ()⟩, ⟨"Button", "Element", ()⟩, ⟨"Element", "Node", ()⟩,
    ⟨"Node", "", ()⟩]

theorem tagRanges_exact_nodeModule : ∃ out, ExactRanges nodeModule 1 out :=
  (tagRanges_exact (fun _ => .ok ()) (fun _ => .ok ()) nodeModule (by decide) (by decide) 1).mpr
    (.inr (by decide))

/-- A module with one interface. -/
def consoleModule : Module Unit where
  interfaces := [⟨"Console", "", ()⟩]

/-- **Behind a header of 32767 interfaces**, the tag of the next interface is `2 ^ 15`, and its
own wrappers are refused. -/
theorem not_tagRanges_exact :
    resolve (fun _ => .ok ()) (fun _ => .ok ()) consoleModule = some (.ok ()) ∧
      consoleModule.names.Nodup ∧ (allocateCppHeapPointerTagRange 1 0x7fff).2 = 0x8000 ∧
      ¬ ∃ out, ExactRanges consoleModule 0x8000 out := by
  refine ⟨by decide, by decide, by decide, ?_⟩
  rintro ⟨out, h⟩
  obtain ⟨n, hn⟩ := h.computed
  have hout : out "Console" = some ⟨0, 0, 0⟩ := by
    have hcomputed : computeTagIndices (buildContext consoleModule) (n + 1) =
        some (Function.update (fun _ => none) "Console" (some ⟨0, 0, 0⟩)) := rfl
    obtain rfl := Option.some.inj ((hn (n + 1) (Nat.le_succ n)).symm.trans hcomputed)
    exact Function.update_self _ _ _
  obtain ⟨candidates, ⟨k, hk⟩, hprobes⟩ := h.probes "Console" (by decide) "Console" (by decide)
    _ _ hout hout
  have hcandidates : descendantsInclusive (buildContext consoleModule) (k + 2) "Console" =
      some ["Console"] := rfl
  obtain rfl := Option.some.inj ((hk (k + 2) (Nat.le_add_right k 2)).symm.trans hcandidates)
  have hclass : Set.InjOn (fun _ => 0) {x | x ∈ consoleModule.names} := by
    intro x hx y hy _
    exact (List.mem_singleton.mp hx).trans (List.mem_singleton.mp hy).symm
  have hagree := hprobes _ hclass 1 (by decide) (by decide)
    ⟨[⟨cppHeapLayout.tag 1 (wrapperTag 0x8000 ⟨0, 0, 0⟩)⟩], nullIndex⟩ 1 ⟨Nat.one_ne_zero, rfl⟩
  exact absurd (hagree.mpr (by decide)) (by decide)

end Voodoo.Bruja
