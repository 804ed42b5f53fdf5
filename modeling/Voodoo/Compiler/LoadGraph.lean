import Voodoo.Compiler.LoadOrder

/-!
# The graph a load returns

What `LoadModuleGraph` returns and throws.
-/

namespace Voodoo.Compiler

open EState Relation List

/-! ### Depth -/

section

variable {cfg : LoadConfig}

theorem extends_attempt {α : Type} (path : String) (catches : Failure → Bool) (x : Except Failure α)
    {k k' : α → Load Unit} (h : ∀ a, Extends .outOfFuel (k a) (k' a)) :
    Extends .outOfFuel (attempt cfg path catches x k) (attempt cfg path catches x k') := by
  cases x with
  | ok a => exact h a
  | error e => exact .refl _ _

theorem extends_loadImport {load load' : String → String → Load Unit}
    (h : ∀ path content, Extends .outOfFuel (load path content) (load' path content))
    (path : String) (imp : ImportDecl) :
    Extends .outOfFuel (loadImport cfg load path imp) (loadImport cfg load' path imp) := by
  unfold loadImport
  cases resolveImport cfg imp.path (dirName path) with
  | none => exact .refl _ _
  | some found => exact (h _ _).bind fun _ => .refl _ _

theorem extends_loadFileInto (depth : Nat) (path content : String) :
    Extends .outOfFuel (loadFileInto cfg depth path content)
      (loadFileInto cfg (depth + 1) path content) := by
  induction depth generalizing path content with
  | zero => exact .of_error fun s => ⟨s, rfl⟩
  | succ depth ih =>
    rw [loadFileInto, loadFileInto]
    refine (Extends.refl _ _).bind fun s => ?_
    split
    · exact .refl _ _
    · split
      · exact .refl _ _
      · refine (Extends.refl _ _).bind fun _ => ?_
        refine extends_attempt path _ _ fun tokens => ?_
        refine (Extends.refl _ _).bind fun scanned => ?_
        refine extends_attempt path _ _ fun (header, parser) => ?_
        refine (Extends.mapM (fun imp => ?_) header.imports).bind fun _ => .refl _ _
        exact extends_loadImport ih path imp

theorem extends_loadModuleGraph {depth depth' : Nat} (h : depth ≤ depth') (entryPath : String) :
    Extends .outOfFuel (loadModuleGraph cfg depth entryPath)
      (loadModuleGraph cfg depth' entryPath) := by
  induction depth', h using Nat.le_induction with
  | base => exact .refl _ _
  | succ depth' _ ih =>
    refine ih.trans ?_
    unfold loadModuleGraph
    dsimp only
    cases cfg.readFile (normalizePath entryPath) with
    | none => exact .refl _ _
    | some content => exact (extends_loadFileInto depth' _ _).bind fun _ => .refl _ _

end

/-! ### What is returned and what is thrown -/

section

variable {cfg : LoadConfig} {graph : List LoadedFile}

theorem not_isCycle_cannotOpen (entryPath : String) :
    ¬ (Failure.loadError ("cannot open '" ++ entryPath ++ "' for reading")).IsCycle := by
  rw [String.append_assoc]
  exact not_isCycle rfl (by decide)

/-- What `LoadModuleGraph` returns of the state it ends in. -/
structure Loaded (cfg : LoadConfig) (entry : String) (graph : List LoadedFile)
    (entryLoaded : Bool) (t : LoadState) : Prop where
  graph_eq : graph = t.graph
  entryLoaded_eq : entryLoaded = t.graph.getLast?.any (·.resolvedPath = entry)
  done : Done cfg {} entry t

theorem outcome_loadModuleGraph (readable : List String) (depth : Nat) (entryPath : String) :
    Outcome
      (fun e => cfg.Stop (Deep cfg readable depth []) [] (normalizePath entryPath) e ∨
        cfg.readFile (normalizePath entryPath) = none ∧
          e = .loadError ("cannot open '" ++ entryPath ++ "' for reading"))
      (fun r t => Loaded cfg (normalizePath entryPath) r.1 r.2 t)
      (loadModuleGraph cfg depth entryPath) {} := by
  unfold loadModuleGraph
  dsimp only
  cases hread : cfg.readFile (normalizePath entryPath) with
  | none => exact Or.inr ⟨rfl, rfl⟩
  | some content =>
    have hreadable : cfg.IsReadable (normalizePath entryPath) :=
      ⟨⟨entryPath, rfl⟩, by rw [hread]; rfl⟩
    refine (loads_loadFileInto cfg readable depth {} _ content (LoadState.valid_empty cfg)
      hreadable hread).bind (fun _ he => Or.inl he) ?_
    exact fun _ t ht => ⟨rfl, rfl, ht⟩

theorem entryLoaded_iff {entry : String} {entryLoaded : Bool} {t : LoadState}
    (h : Loaded cfg entry graph entryLoaded t) :
    entryLoaded = true ↔ (graph.map (·.resolvedPath)).getLast? = some entry := by
  rw [h.graph_eq, h.entryLoaded_eq, getLast?_map]
  cases t.graph.getLast? with
  | none => exact ⟨nofun, nofun⟩
  | some f => simp

theorem ne_empty_of_imports {p q : String} (h : cfg.Imports p q) : q ≠ "" := by
  obtain ⟨imp, -, hfound⟩ := mem_filterMap.mp h
  obtain ⟨⟨_, content⟩, hresolve, rfl⟩ := Option.map_eq_some_iff.mp hfound
  obtain ⟨⟨⟨raw, hraw⟩, -⟩, -⟩ := resolveImport_reads hresolve
  rw [← hraw]
  exact normalizePath_ne_empty raw

theorem idxOf_lt_of_imports {t : LoadState} (ht : t.Valid cfg) (hstrict : cfg.perFile = false)
    {p q : String} (hp : p ∈ t.paths) (hq : cfg.Imports p q) :
    q ∈ t.paths ∧ t.paths.idxOf q < t.paths.idxOf p := by
  obtain ⟨f, hf, rfl⟩ := List.mem_map.mp hp
  obtain ⟨before, after, hgraph⟩ := append_of_mem hf
  have hbefore : q ∈ before.map (·.resolvedPath) := by
    rcases ht.imports f hf q hq with hfailed | ⟨imp, himp, rfl⟩
    · rw [ht.strict hstrict] at hfailed
      cases hfailed
    · exact ht.importsBefore before f after hgraph imp himp (ne_empty_of_imports hq)
  have hpaths : t.paths = before.map (·.resolvedPath) ++
      f.resolvedPath :: after.map (·.resolvedPath) := by
    unfold LoadState.paths
    rw [hgraph, map_append, map_cons]
  have hnodup := ht.nodup
  rw [hpaths] at hnodup ⊢
  have hfresh : f.resolvedPath ∉ before.map (·.resolvedPath) := fun hmem =>
    (List.nodup_append.mp hnodup).2.2 _ hmem _ (mem_cons_self ..) rfl
  refine ⟨mem_append_left _ hbefore, ?_⟩
  rw [idxOf_append_of_mem hbefore, idxOf_append_of_notMem hfresh, idxOf_cons_self]
  exact Nat.lt_add_right 0 (idxOf_lt_length_iff.mpr hbefore)

theorem not_cycleReachable {t : LoadState} (ht : t.Valid cfg) (hstrict : cfg.perFile = false)
    {entry : String} (hentry : entry ∈ t.merged) : ¬cfg.CycleReachable entry := by
  rintro ⟨p, hreach, hcycle⟩
  have hmerged {p : String} (hp : p ∈ t.merged) : p ∈ t.paths := by
    refine ((ht.mem_merged p).mp hp).resolve_right fun hfailed => ?_
    rw [ht.strict hstrict] at hfailed
    cases hfailed
  have hp : p ∈ t.paths := by
    clear hcycle
    induction hreach with
    | refl => exact hmerged hentry
    | tail _ hstep ih => exact (idxOf_lt_of_imports ht hstrict ih hstep).1
  have hlt {q : String} (h : TransGen cfg.Imports p q) :
      q ∈ t.paths ∧ t.paths.idxOf q < t.paths.idxOf p := by
    induction h with
    | single hstep => exact idxOf_lt_of_imports ht hstrict hp hstep
    | tail _ hstep ih =>
      obtain ⟨hmem, hlt⟩ := idxOf_lt_of_imports ht hstrict ih.1 hstep
      exact ⟨hmem, hlt.trans ih.2⟩
  exact lt_irrefl _ (hlt hcycle).2

theorem cycleReachable_of_stop {B : Prop} {entry : String} {e : Failure}
    (h : cfg.Stop B [] entry e) (he : e.IsCycle) : cfg.CycleReachable entry := by
  cases h with
  | cycle chain hreach hcloses => exact ⟨_, hreach, hcloses.resolve_left not_mem_nil⟩
  | inFile file msg hstrict => exact absurd he (not_isCycle_inFile file msg)
  | unresolved imp file hstrict => exact absurd he (not_isCycle_unresolved imp file)
  | outOfRange hreach hread hfits =>
    obtain ⟨_, _, he⟩ := he
    cases he
  | outOfFuel hdepth =>
    obtain ⟨_, _, he⟩ := he
    cases he

theorem loadModuleGraph_ends (hfinite : {path | cfg.IsReadable path}.Finite) (entryPath : String)
    {depth : Nat} (hdepth : hfinite.toFinset.card < depth) (s : LoadState) :
    loadModuleGraph cfg depth entryPath {} ≠ .error .outOfFuel s := by
  intro h
  have hdeep : Deep cfg hfinite.toFinset.toList depth [] := by
    refine ⟨fun p hp => Finset.mem_toList.mpr (hfinite.mem_toFinset.mpr hp), ?_⟩
    rw [Finset.length_toList]
    exact hdepth
  rcases (outcome_loadModuleGraph hfinite.toFinset.toList depth entryPath).error h with
    hstop | ⟨-, he⟩
  · cases hstop with
    | outOfFuel hnot => exact hnot hdeep
  · cases he

end

/-! ### The contract of the loader -/

/-- A reader of the files in a list. -/
def LoadConfig.ofFiles (files : List (String × String)) (perFile : Bool) : LoadConfig :=
  { readFile := fun path => files.lookup path, perFile }

/-- How a load ended: the paths of the graph and `*entry_loaded`, or what was thrown. -/
def loadResult (cfg : LoadConfig) (depth : Nat) (entryPath : String) :
    Except Failure (List String × Bool) :=
  match loadModuleGraph cfg depth entryPath {} with
  | .ok (graph, entryLoaded) _ => .ok (graph.map (·.resolvedPath), entryLoaded)
  | .error e _ => .error e

theorem loadResult_ok {cfg : LoadConfig} {depth : Nat} {entryPath : String} {paths : List String}
    {entryLoaded : Bool} (h : loadResult cfg depth entryPath = .ok (paths, entryLoaded)) :
    ∃ graph s, loadModuleGraph cfg depth entryPath {} = .ok (graph, entryLoaded) s ∧
      graph.map (·.resolvedPath) = paths := by
  unfold loadResult at h
  split at h
  case h_1 graph loaded s hrun =>
    obtain ⟨rfl, rfl⟩ := Prod.mk.inj (Except.ok.inj h)
    exact ⟨graph, s, hrun, rfl⟩
  case h_2 => cases h

theorem loadResult_error {cfg : LoadConfig} {depth : Nat} {entryPath : String} {e : Failure} :
    loadResult cfg depth entryPath = .error e ↔
      ∃ s, loadModuleGraph cfg depth entryPath {} = .error e s := by
  unfold loadResult
  cases loadModuleGraph cfg depth entryPath {} with
  | ok r s => exact ⟨nofun, fun ⟨_, h⟩ => nomatch h⟩
  | error e' s =>
    constructor
    · intro h
      obtain rfl := Except.error.inj h
      exact ⟨s, rfl⟩
    · rintro ⟨s, h⟩
      obtain ⟨rfl, -⟩ := EStateM.Result.error.inj h
      rfl

end Voodoo.Compiler
