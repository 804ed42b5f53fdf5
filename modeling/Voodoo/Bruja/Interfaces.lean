import Mathlib.Data.List.Perm.Basic
import Voodoo.Lib.Forest

/-!
# The interfaces of a module

What the interface compiler knows of the interfaces of a module: `Resolve` follows their base
chains, and the generators build their maps of them, by name and from a base to those that name it.

* `resolve_terminates`: the check of the base chains ends;
* `checkBases_iff`: it passes if every base is declared and no interface is its own ancestor;
* `wellFounded_of_chained`: behind it no interface derives from itself, at whatever remove;
* `isChild_iff`, `base_unique`: the map of the children is the relation `IsBase` of the
  declarations, and with distinct names an interface has one base.
-/

namespace Voodoo.Bruja

open Relation Forest List Option

/-- `Interface`.  Its members are of no consequence here. -/
structure Interface (μ : Type) where
  name : String
  baseName : String
  members : μ

/-- `Module`, as far as its interfaces. -/
structure Module (μ : Type) where
  interfaces : List (Interface μ)

variable {μ : Type}

/-- The names of the interfaces, as declared. -/
def Module.names (m : Module μ) : List String := m.interfaces.map Interface.name

/-- `b` names `a` as its base interface. -/
def Module.IsBase (m : Module μ) (a b : String) : Prop :=
  ∃ i ∈ m.interfaces, i.name = b ∧ i.baseName = a ∧ a ≠ ""

/-- `by_name[iface.name] = &iface`. -/
def putByName (map : String → Option (Interface μ)) (i : Interface μ) :
    String → Option (Interface μ) :=
  Function.update map i.name (some i)

/-- The map of the interfaces by name: of two under one name, the later one stays. -/
def byName (interfaces : List (Interface μ)) : String → Option (Interface μ) :=
  interfaces.foldl putByName fun _ => none

/-! ### The resolver -/

/-- The loop of `CheckBaseChain` at `current`; `none` is a loop that is not done. -/
def checkBaseChainLoop (map : String → Option (Interface μ)) (iface : Interface μ) :
    Nat → Interface μ → List String → Option (Except String Unit)
  | 0, _, _ => none
  | fuel + 1, current, visited =>
    if current.baseName = "" then some (.ok ())
    else
      match map current.baseName with
      | none => some (.error ("interface '" ++ current.name ++ "' has unknown base interface '" ++
          current.baseName ++ "'"))
      | some next =>
        if current.baseName ∈ visited then
          some (.error ("interface '" ++ iface.name ++
            "' has a cyclic base-interface chain (via '" ++ current.baseName ++ "')"))
        else checkBaseChainLoop map iface fuel next (current.baseName :: visited)

/-- `CheckBaseChain`. -/
def checkBaseChain (map : String → Option (Interface μ)) (fuel : Nat) (iface : Interface μ) :
    Option (Except String Unit) :=
  checkBaseChainLoop map iface fuel iface [iface.name]

/-- `if (!iface.base_name.empty()) CheckBaseChain(iface, by_name)`. -/
def checkBase (map : String → Option (Interface μ)) (fuel : Nat) (iface : Interface μ) :
    Option (Except String Unit) :=
  if iface.baseName = "" then some (.ok ()) else checkBaseChain map fuel iface

/-- The loop of `Resolve` over the interfaces; `resolveMembers` is what it does for the types of
one interface. -/
def resolveInterfaces (resolveMembers : Interface μ → Except String Unit)
    (map : String → Option (Interface μ)) (fuel : Nat) :
    List (Interface μ) → Option (Except String Unit)
  | [] => some (.ok ())
  | iface :: rest => do
    match ← checkBase map fuel iface with
    | .error e => some (.error e)
    | .ok () =>
      match resolveMembers iface with
      | .error e => some (.error e)
      | .ok () => resolveInterfaces resolveMembers map fuel rest

/-- `Resolve`; `resolveRest` is what follows the interfaces, and no more than the members of an
interface is changed by it. -/
def resolve (resolveMembers : Interface μ → Except String Unit)
    (resolveRest : Module μ → Except String Unit) (m : Module μ) : Option (Except String Unit) := do
  match ← resolveInterfaces resolveMembers (byName m.interfaces) (m.interfaces.length + 1)
      m.interfaces with
  | .error e => some (.error e)
  | .ok () => some (resolveRest m)

/-! ### The generator's context -/

/-- `GenContext`. -/
structure GenContext (μ : Type) where
  module : Module μ
  interfacesByName : String → Option (Interface μ)
  children : String → List String

/-- `ctx.children[iface.base_name].push_back(iface.name)`, for an interface with a base. -/
def putChild (map : String → List String) (i : Interface μ) : String → List String :=
  if i.baseName = "" then map
  else Function.update map i.baseName (map i.baseName ++ [i.name])

/-- `BuildContext`. -/
def buildContext (m : Module μ) : GenContext μ where
  module := m
  interfacesByName := byName m.interfaces
  children := m.interfaces.foldl putChild fun _ => []

/-! ### The maps -/

theorem foldl_putByName (interfaces : List (Interface μ)) (map : String → Option (Interface μ))
    (x : String) :
    (∃ i ∈ interfaces, i.name = x ∧ interfaces.foldl putByName map x = some i) ∨
    (∀ i ∈ interfaces, i.name ≠ x) ∧ interfaces.foldl putByName map x = map x := by
  induction interfaces generalizing map with
  | nil => exact .inr ⟨fun _ hi => (not_mem_nil hi).elim, rfl⟩
  | cons i rest ih =>
    rw [foldl_cons]
    rcases ih (putByName map i) with ⟨j, hj, hname, h⟩ | ⟨hnone, h⟩
    · exact .inl ⟨j, mem_cons_of_mem _ hj, hname, h⟩
    · by_cases hx : i.name = x
      · left
        refine ⟨i, mem_cons_self, hx, ?_⟩
        rw [h, putByName, ← hx, Function.update_self]
      · right
        refine ⟨fun j hj => ?_, ?_⟩
        · rcases mem_cons.mp hj with rfl | hj
          · exact hx
          · exact hnone j hj
        · rw [h, putByName, Function.update_of_ne (Ne.symm hx)]

theorem mem_of_byName {interfaces : List (Interface μ)} {x : String} {i : Interface μ}
    (h : byName interfaces x = some i) : i ∈ interfaces ∧ i.name = x := by
  rcases foldl_putByName interfaces (fun _ => none) x with ⟨j, hj, hname, heq⟩ | ⟨-, heq⟩
  · obtain rfl := some.inj (heq.symm.trans h)
    exact ⟨hj, hname⟩
  · cases heq.symm.trans h

theorem byName_of_mem {m : Module μ} (hnames : m.names.Nodup) {i : Interface μ}
    (hi : i ∈ m.interfaces) : byName m.interfaces i.name = some i := by
  rcases foldl_putByName m.interfaces (fun _ => none) i.name with ⟨j, hj, hname, heq⟩ | ⟨hnone, -⟩
  · rwa [inj_on_of_nodup_map hnames hj hi hname] at heq
  · exact absurd rfl (hnone i hi)

theorem children_eq (m : Module μ) (a : String) :
    (buildContext m).children a =
      (m.interfaces.filter fun i => i.baseName = a ∧ a ≠ "").map Interface.name := by
  have hfold : ∀ (interfaces : List (Interface μ)) (map : String → List String),
      interfaces.foldl putChild map a = map a ++
        (interfaces.filter fun i => i.baseName = a ∧ a ≠ "").map Interface.name := by
    intro interfaces
    induction interfaces with
    | nil =>
      intro map
      exact (append_nil _).symm
    | cons i rest ih =>
      intro map
      rw [foldl_cons, ih, putChild]
      by_cases hroot : i.baseName = ""
      · rw [if_pos hroot, filter_cons_of_neg]
        simp only [decide_eq_true_eq, not_and, not_not]
        rintro rfl
        exact hroot
      · rw [if_neg hroot]
        by_cases ha : i.baseName = a
        · subst ha
          rw [Function.update_self, filter_cons_of_pos (by simp [hroot]), map_cons,
            List.append_assoc, singleton_append]
        · rw [Function.update_of_ne (Ne.symm ha), filter_cons_of_neg (by simp [ha])]
  exact hfold m.interfaces fun _ => []

theorem isChild_iff {m : Module μ} {a b : String} :
    IsChild (buildContext m).children a b ↔ m.IsBase a b := by
  rw [IsChild, children_eq, List.mem_map]
  constructor
  · rintro ⟨i, hi, hname⟩
    obtain ⟨hi, hbase⟩ := mem_filter.mp hi
    exact ⟨i, hi, hname, of_decide_eq_true hbase⟩
  · rintro ⟨i, hi, hname, hbase⟩
    exact ⟨i, mem_filter.mpr ⟨hi, decide_eq_true hbase⟩, hname⟩

theorem mem_names_of_isBase {m : Module μ} {a b : String} (h : m.IsBase a b) : b ∈ m.names := by
  obtain ⟨i, hi, rfl, -⟩ := h
  exact List.mem_map_of_mem hi

theorem nodup_children {m : Module μ} (hnames : m.names.Nodup) (a : String) :
    ((buildContext m).children a).Nodup := by
  rw [children_eq]
  exact hnames.sublist (filter_sublist.map _)

theorem base_unique {m : Module μ} (hnames : m.names.Nodup) ⦃a b c : String⦄
    (ha : IsChild (buildContext m).children a c) (hb : IsChild (buildContext m).children b c) :
    a = b := by
  obtain ⟨i, hi, hiname, rfl, -⟩ := isChild_iff.mp ha
  obtain ⟨j, hj, hjname, rfl, -⟩ := isChild_iff.mp hb
  rw [inj_on_of_nodup_map hnames hi hj (hiname.trans hjname.symm)]

/-! ### Base chains -/

/-- The base chain of an interface ends behind `d` bases. -/
inductive Rooted (map : String → Option (Interface μ)) : Interface μ → Nat → Prop
  | root {i} : i.baseName = "" → Rooted map i 0
  | step {i j d} : i.baseName ≠ "" → map i.baseName = some j → Rooted map j d →
      Rooted map i (d + 1)

variable {map : String → Option (Interface μ)}

theorem Rooted.unique {i : Interface μ} {d e : Nat} (hd : Rooted map i d) (he : Rooted map i e) :
    d = e := by
  induction hd generalizing e with
  | root hbase =>
    cases he with
    | root => rfl
    | step hne => exact absurd hbase hne
  | step hne hj _ ih =>
    cases he with
    | root hbase => exact absurd hbase hne
    | step _ hj' he =>
      obtain rfl := some.inj (hj.symm.trans hj')
      exact congrArg (· + 1) (ih he)

theorem rooted_of_loop {iface : Interface μ} {fuel : Nat} {current : Interface μ}
    {visited : List String}
    (h : checkBaseChainLoop map iface fuel current visited = some (.ok ())) :
    ∃ d < fuel, Rooted map current d := by
  induction fuel generalizing current visited with
  | zero => cases h
  | succ fuel ih =>
    rw [checkBaseChainLoop] at h
    by_cases hbase : current.baseName = ""
    · exact ⟨0, Nat.succ_pos fuel, .root hbase⟩
    · rw [if_neg hbase] at h
      cases hnext : map current.baseName with
      | none =>
        rw [hnext] at h
        cases h
      | some next =>
        rw [hnext] at h
        by_cases hvisited : current.baseName ∈ visited
        · simp only [if_pos hvisited] at h
          cases h
        · obtain ⟨d, hd, hrooted⟩ := ih ((if_neg hvisited).symm.trans h)
          exact ⟨d + 1, Nat.succ_lt_succ hd, .step hbase hnext hrooted⟩

theorem checkBaseChainLoop_terminates (m : Module μ) (iface : Interface μ) {fuel : Nat}
    {current : Interface μ} {visited : List String} (hnodup : visited.Nodup)
    (hvisited : visited ⊆ m.names) (hfuel : m.names.length < visited.length + fuel) :
    ∃ r, checkBaseChainLoop (byName m.interfaces) iface fuel current visited = some r := by
  induction fuel generalizing current visited with
  | zero =>
    have hle : visited.length ≤ m.names.length := (subperm_of_subset hnodup hvisited).length_le
    omega
  | succ fuel ih =>
    rw [checkBaseChainLoop]
    split
    · exact ⟨_, rfl⟩
    · split
      · exact ⟨_, rfl⟩
      · rename_i next hnext
        split
        · exact ⟨_, rfl⟩
        · rename_i hnew
          obtain ⟨hmem, hname⟩ := mem_of_byName hnext
          have hsubset : current.baseName :: visited ⊆ m.names := by
            refine cons_subset.mpr ⟨?_, hvisited⟩
            rw [← hname]
            exact List.mem_map_of_mem hmem
          refine ih (nodup_cons.mpr ⟨hnew, hnodup⟩) hsubset ?_
          rw [length_cons]
          omega

theorem checkBaseChain_terminates {m : Module μ} {iface : Interface μ}
    (hiface : iface ∈ m.interfaces) :
    ∃ r, checkBaseChain (byName m.interfaces) (m.interfaces.length + 1) iface = some r := by
  refine checkBaseChainLoop_terminates m iface (nodup_singleton _) ?_ ?_
  · exact cons_subset.mpr ⟨List.mem_map_of_mem hiface, nil_subset _⟩
  · rw [Module.names, length_map, length_singleton]
    omega

/-- `Resolve` returns or throws. -/
theorem resolve_terminates (resolveMembers : Interface μ → Except String Unit)
    (resolveRest : Module μ → Except String Unit) (m : Module μ) :
    ∃ r, resolve resolveMembers resolveRest m = some r := by
  have hloop : ∀ rest ⊆ m.interfaces, ∃ r, resolveInterfaces resolveMembers
      (byName m.interfaces) (m.interfaces.length + 1) rest = some r := by
    intro rest hrest
    induction rest with
    | nil => exact ⟨_, rfl⟩
    | cons iface rest ih =>
      obtain ⟨hiface, hrest⟩ := cons_subset.mp hrest
      have hcheck : ∃ r, checkBase (byName m.interfaces) (m.interfaces.length + 1) iface =
          some r := by
        rw [checkBase]
        split
        · exact ⟨_, rfl⟩
        · exact checkBaseChain_terminates hiface
      obtain ⟨r, hr⟩ := hcheck
      rw [resolveInterfaces, hr, bind_eq_bind, bind_some]
      cases r with
      | error e => exact ⟨_, rfl⟩
      | ok _ =>
        cases resolveMembers iface with
        | error e => exact ⟨_, rfl⟩
        | ok _ => exact ih hrest
  obtain ⟨r, hr⟩ := hloop m.interfaces (List.Subset.refl _)
  rw [resolve, hr, bind_eq_bind, bind_some]
  cases r with
  | error e => exact ⟨_, rfl⟩
  | ok _ => exact ⟨_, rfl⟩

/-- The base chains of all interfaces end. -/
def Module.Chained (m : Module μ) : Prop :=
  ∀ i ∈ m.interfaces, ∃ d ≤ m.interfaces.length, Rooted (byName m.interfaces) i d

theorem rooted_of_resolveInterfaces {resolveMembers : Interface μ → Except String Unit}
    {fuel : Nat} {interfaces : List (Interface μ)}
    (h : resolveInterfaces resolveMembers map (fuel + 1) interfaces = some (.ok ())) :
    ∀ i ∈ interfaces, ∃ d ≤ fuel, Rooted map i d := by
  induction interfaces with
  | nil => exact fun _ hi => (not_mem_nil hi).elim
  | cons iface rest ih =>
    rw [resolveInterfaces] at h
    obtain ⟨r, hr, h⟩ := bind_eq_some_iff.mp h
    cases r with
    | error e => cases h
    | ok _ =>
      have hiface : ∃ d ≤ fuel, Rooted map iface d := by
        by_cases hbase : iface.baseName = ""
        · exact ⟨0, Nat.zero_le _, .root hbase⟩
        · rw [checkBase, if_neg hbase] at hr
          obtain ⟨d, hd, hrooted⟩ := rooted_of_loop hr
          exact ⟨d, Nat.le_of_lt_succ hd, hrooted⟩
      have hrest : resolveInterfaces resolveMembers map (fuel + 1) rest = some (.ok ()) := by
        cases hmembers : resolveMembers iface with
        | error e =>
          rw [hmembers] at h
          cases h
        | ok _ =>
          rw [hmembers] at h
          exact h
      intro i hi
      rcases mem_cons.mp hi with rfl | hi
      · exact hiface
      · exact ih hrest i hi

theorem chained_of_resolve {resolveMembers : Interface μ → Except String Unit}
    {resolveRest : Module μ → Except String Unit} {m : Module μ}
    (h : resolve resolveMembers resolveRest m = some (.ok ())) : m.Chained := by
  rw [resolve] at h
  obtain ⟨r, hr, h⟩ := bind_eq_some_iff.mp h
  cases r with
  | error e => cases h
  | ok _ => exact rooted_of_resolveInterfaces hr

theorem exists_base {m : Module μ} (hchained : m.Chained) {i : Interface μ}
    (hi : i ∈ m.interfaces) (hbase : i.baseName ≠ "") :
    ∃ j, byName m.interfaces i.baseName = some j := by
  obtain ⟨d, -, hrooted⟩ := hchained i hi
  cases hrooted with
  | root hroot => exact absurd hroot hbase
  | step _ hj _ => exact ⟨_, hj⟩

/-- **Deriving goes on for ever nowhere.** -/
theorem wellFounded_of_chained {m : Module μ} (hnames : m.names.Nodup) (hchained : m.Chained) :
    WellFounded fun b a => IsChild (buildContext m).children a b := by
  -- the further an interface is from its root, the fewer can still derive from it
  have hacc : ∀ k, ∀ i ∈ m.interfaces, ∀ d, Rooted (byName m.interfaces) i d →
      m.interfaces.length - d < k →
      Acc (fun b a => IsChild (buildContext m).children a b) i.name := by
    intro k
    induction k with
    | zero => exact fun _ _ _ _ hk => absurd hk (Nat.not_lt_zero _)
    | succ k ih =>
      intro i hi d hd hk
      refine Acc.intro _ fun b hb => ?_
      obtain ⟨j, hj, rfl, hbase, hne⟩ := isChild_iff.mp hb
      have hstep : Rooted (byName m.interfaces) j (d + 1) := by
        refine .step (by rw [hbase]; exact hne) ?_ hd
        rw [hbase]
        exact byName_of_mem hnames hi
      obtain ⟨e, he, hrooted⟩ := hchained j hj
      obtain rfl := hrooted.unique hstep
      exact ih j hj _ hrooted (by omega)
  refine ⟨fun a => Acc.intro a fun b hb => ?_⟩
  obtain ⟨i, hi, rfl, -⟩ := isChild_iff.mp hb
  obtain ⟨d, -, hrooted⟩ := hchained i hi
  exact hacc _ i hi d hrooted (Nat.lt_succ_self _)

/-! ### What the check of the base chains finds -/

variable {m : Module μ}

theorem eq_ok_of_checkBaseChainLoop (hbases : ∀ i ∈ m.interfaces, i.baseName = "" ∨ i.baseName ∈ m.names)
    (hacyclic : ∀ a, ¬ TransGen m.IsBase a a) {iface current : Interface μ} {fuel : Nat}
    {visited : List String} {r : Except String Unit} (hcurrent : current ∈ m.interfaces)
    (hvisited : ∀ x ∈ visited, ReflTransGen m.IsBase current.name x)
    (h : checkBaseChainLoop (byName m.interfaces) iface fuel current visited = some r) :
    r = .ok () := by
  induction fuel generalizing current visited with
  | zero => cases h
  | succ fuel ih =>
    rw [checkBaseChainLoop] at h
    by_cases hroot : current.baseName = ""
    · rw [if_pos hroot] at h
      exact (some.inj h).symm
    · rw [if_neg hroot] at h
      have hbase : m.IsBase current.baseName current.name := ⟨current, hcurrent, rfl, rfl, hroot⟩
      cases hnext : byName m.interfaces current.baseName with
      | none =>
        obtain ⟨j, hj, hname⟩ := mem_map.mp ((hbases current hcurrent).resolve_left hroot)
        rcases foldl_putByName m.interfaces (fun _ => none) current.baseName with ⟨k, -, -, hk⟩ | hno
        · cases hk.symm.trans hnext
        · exact absurd hname (hno.1 j hj)
      | some next =>
        obtain ⟨hmem, hname⟩ := mem_of_byName hnext
        have hold : current.baseName ∉ visited := fun hin =>
          hacyclic _ (.head' hbase (hvisited _ hin))
        rw [hnext] at h
        simp only [if_neg hold] at h
        refine ih hmem (fun x hx => ?_) h
        rw [hname]
        rcases mem_cons.mp hx with rfl | hx
        · exact .refl
        · exact .head hbase (hvisited x hx)

/-- **The base chains pass the check if and only if every base is declared and no interface is its
own ancestor.** -/
theorem checkBases_iff (hnames : m.names.Nodup) :
    (∀ i ∈ m.interfaces,
      checkBase (byName m.interfaces) (m.interfaces.length + 1) i = some (.ok ())) ↔
    (∀ i ∈ m.interfaces, i.baseName = "" ∨ i.baseName ∈ m.names) ∧
      ∀ a, ¬ TransGen m.IsBase a a := by
  constructor
  · intro h
    have hchained : m.Chained := by
      intro i hi
      by_cases hroot : i.baseName = ""
      · exact ⟨0, Nat.zero_le _, .root hroot⟩
      · have hloop := h i hi
        rw [checkBase, if_neg hroot] at hloop
        obtain ⟨d, hd, hrooted⟩ := rooted_of_loop hloop
        exact ⟨d, Nat.le_of_lt_succ hd, hrooted⟩
    refine ⟨fun i hi => or_iff_not_imp_left.mpr fun hroot => ?_, fun a hcycle => ?_⟩
    · obtain ⟨j, hj⟩ := exists_base hchained hi hroot
      obtain ⟨hmem, hname⟩ := mem_of_byName hj
      exact hname ▸ mem_map_of_mem hmem
    · have hwf := (wellFounded_of_chained hnames hchained).transGen
      have hdown : TransGen (fun b a => IsChild (buildContext m).children a b) a a :=
        transGen_swap.mp (hcycle.lift id fun _ _ => isChild_iff.mpr)
      exact hwf.irrefl.irrefl a hdown
  · rintro ⟨hbases, hacyclic⟩ i hi
    by_cases hroot : i.baseName = ""
    · rw [checkBase, if_pos hroot]
    · obtain ⟨r, hr⟩ := checkBaseChain_terminates hi
      rw [checkBase, if_neg hroot, hr]
      refine congrArg _ (eq_ok_of_checkBaseChainLoop hbases hacyclic hi (fun x hx => ?_) hr)
      rw [mem_singleton.mp hx]

/-- `interface A {}; interface B : A {};` -/
def childOfRoot : Module Unit := ⟨[⟨"A", "", ()⟩, ⟨"B", "A", ()⟩]⟩

theorem checkBases_iff_childOfRoot : ¬ TransGen childOfRoot.IsBase "A" "A" := by
  have hpass : ∀ i ∈ childOfRoot.interfaces,
      checkBase (byName childOfRoot.interfaces) 3 i = some (.ok ()) :=
    forall_mem_cons.mpr ⟨rfl, forall_mem_cons.mpr ⟨rfl, forall_mem_nil _⟩⟩
  exact ((checkBases_iff (by decide)).mp hpass).2 "A"

end Voodoo.Bruja
