import Voodoo.Compiler.BodyOutcomes
import Voodoo.Compiler.LexOutcomes
import Voodoo.Compiler.Loader

/-!
# The order of the graph

What `LoadFileInto` keeps, whatever the files hold.  `LoadState.Valid` is its invariant: no
path is in the graph twice, the paths merged are those of the graph and those that failed, the
files being loaded are neither, and what a file imports is in front of it.  `LoadState.After`
is what a call leaves as it was, and `Stop` what can be thrown.

The graph of the imports is that of `Imports`, which the contents of the files fix.
-/

namespace Voodoo.Compiler

open EState Relation List

/-! ### Paths -/

theorem normalizePath_ne_empty (path : String) : normalizePath path ≠ "" := by
  unfold normalizePath
  dsimp only
  split
  · decide
  case isFalse h =>
    intro he
    refine h ?_
    rw [← String.toList_ofList (l := _ ++ _), he]
    rfl

namespace LoadConfig

variable (cfg : LoadConfig)

/-- A normalised path that can be read. -/
def IsReadable (path : String) : Prop :=
  (∃ raw, normalizePath raw = path) ∧ (cfg.readFile path).isSome = true

/-- What `ParseHeader` finds in the file at `path`. -/
def headerOf (path : String) : Option FileHeader := do
  let content ← cfg.readFile path
  let tokens ← (tokenize content).toOption
  let (header, _) ← (runParser parseHeader { rest := tokens }).toOption
  return header

/-- The resolved paths of what the file at `path` imports. -/
def importedPaths (path : String) : List String :=
  ((cfg.headerOf path).toList.flatMap (·.imports)).filterMap
    (fun imp => (resolveImport cfg imp.path (dirName path)).map (·.1))

/-- The file at `p` imports the one at `q`. -/
def Imports (p q : String) : Prop := q ∈ cfg.importedPaths p

/-- A cycle of resolved paths is reachable from `entry`. -/
def CycleReachable (entry : String) : Prop :=
  ∃ p, ReflTransGen cfg.Imports entry p ∧ TransGen cfg.Imports p p

end LoadConfig

theorem resolveImport_reads {cfg : LoadConfig} {importPath dir q content : String}
    (h : resolveImport cfg importPath dir = some (q, content)) :
    cfg.IsReadable q ∧ cfg.readFile q = some content := by
  obtain ⟨candidate, hmem, hread⟩ := exists_of_findSome?_eq_some h
  obtain ⟨raw, -, rfl⟩ := List.mem_map.mp hmem
  obtain ⟨c, hc, heq⟩ := Option.map_eq_some_iff.mp hread
  obtain ⟨rfl, rfl⟩ := Prod.mk.inj heq
  exact ⟨⟨⟨_, rfl⟩, by rw [hc]; rfl⟩, hc⟩

/-! ### Messages -/

/-- An exception that tells of an import cycle. -/
def Failure.IsCycle (e : Failure) : Prop :=
  ∃ loading closing, e = .loadError (cycleChainMessage loading closing)

theorem not_isCycle {first rest : String} {c d : Char} {cs : List Char}
    (hfirst : first.toList = c :: d :: cs) (hd : d ≠ 'm') :
    ¬ (Failure.loadError (first ++ rest)).IsCycle := by
  rintro ⟨loading, closing, he⟩
  have hmsg := congrArg String.toList (Failure.loadError.inj he)
  rw [String.toList_append, hfirst, cycleChainMessage, String.append_assoc,
    String.toList_append] at hmsg
  exact hd (List.cons.inj (List.cons.inj hmsg).2).1

theorem not_isCycle_inFile (path msg : String) :
    ¬ (Failure.loadError ("in '" ++ path ++ "': " ++ msg)).IsCycle := by
  rw [String.append_assoc, String.append_assoc]
  exact not_isCycle rfl (by decide)

theorem not_isCycle_unresolved (imp : ImportDecl) (path : String) :
    ¬ (unresolvedError imp path).IsCycle := by
  unfold unresolvedError
  rw [String.append_assoc, String.append_assoc, String.append_assoc, String.append_assoc]
  exact not_isCycle rfl (by decide)

/-! ### The parts of a file -/

/-- Every conversion the file can ask for is in range. -/
def FileFits (content : String) : Prop :=
  escapesFit content = true ∧ ∀ tokens, tokenize content = .ok tokens → LiteralsFit tokens

instance (content : String) : Decidable (FileFits content) :=
  match h : tokenize content with
  | .ok tokens =>
    decidable_of_iff (escapesFit content = true ∧ LiteralsFit tokens)
      (and_congr_right fun _ => ⟨fun hfits _ ht => Except.ok.inj (h.symm.trans ht) ▸ hfits,
        fun hall => hall tokens h⟩)
  | .error _ =>
    decidable_of_iff (escapesFit content = true)
      ⟨fun hfits => ⟨hfits, fun _ ht => nomatch h.symm.trans ht⟩, And.left⟩

section

variable {content : String}

/-- What a `try` catches, or the exception of a conversion. -/
def Caught (catches : Failure → Bool) (content : String) (e : Failure) : Prop :=
  catches e = true ∨ e = .outOfRange ∧ ¬FileFits content

theorem ends_tokenize (content : String) :
    Ends (Caught Failure.isLexError content) (fun tokens => tokenize content = .ok tokens)
      (tokenize content) := by
  have h := lexes_tokenize content
  cases ht : tokenize content with
  | ok tokens => exact rfl
  | error e =>
    rw [ht] at h
    cases hfits : escapesFit content with
    | true =>
      rw [hfits] at h
      obtain ⟨msg, line, rfl⟩ := h
      exact Or.inl rfl
    | false =>
      rw [hfits] at h
      refine Or.inr ⟨h, fun hfile => ?_⟩
      rw [hfile.1] at hfits
      cases hfits

variable {tokens : List Token}

theorem ends_scan (h : tokenize content = .ok tokens) :
    Ends (fun e => e = .outOfRange ∧ ¬FileFits content) (fun _ => True) (scan tokens) :=
  Ends.mono (converts_scan tokens)
    (fun _ he => ⟨he.1, fun hfile => he.2 (hfile.2 tokens h)⟩) fun _ hp => hp

theorem caught_of_allowed {e : Failure} (he : Allowed (FileFits content) e) :
    Caught Failure.isParseError content e := by
  rcases he with ⟨msg, line, rfl⟩ | he
  · exact Or.inl rfl
  · exact Or.inr he

theorem ends_runParser {α : Type} {x : Parse α} {s : Parser} {n : Nat} {Q : α → Prop}
    (hx : Good (FileFits content) False n 0 Q x) (hs : Ready (FileFits content) n s) :
    Ends (Caught Failure.isParseError content) (fun p => Ready (FileFits content) n p.2)
      (runParser x s) := by
  have h := hx s hs
  unfold runParser
  cases hrun : x s with
  | ok a t => exact hs.after (h.ok hrun).1
  | error e t => exact caught_of_allowed (h.error hrun)

theorem ready_of_tokenize (h : tokenize content = .ok tokens) :
    Ready (FileFits content) tokens.length { rest := tokens } :=
  ⟨wellLexed_of_tokenize h, fun hfile => hfile.2 tokens h, le_rfl⟩

end

/-! ### What the loader keeps -/

/-- What a listed file imports stands in front of it. -/
def ImportsBefore (graph : List LoadedFile) : Prop :=
  ∀ before f after, graph = before ++ f :: after → ∀ imp ∈ f.module.imports,
    imp.resolvedPath ≠ "" → imp.resolvedPath ∈ before.map (·.resolvedPath)

theorem ImportsBefore.concat {graph : List LoadedFile} (h : ImportsBefore graph) {path : String}
    {m : Module} (hlisted : ∀ imp ∈ m.imports, imp.resolvedPath ≠ "" →
      imp.resolvedPath ∈ graph.map (·.resolvedPath)) : ImportsBefore (graph ++ [⟨path, m⟩]) := by
  intro before f after heq imp himp hne
  rcases eq_nil_or_concat after with rfl | ⟨after, last, rfl⟩
  · obtain ⟨rfl, hf⟩ := append_inj' heq rfl
    obtain rfl : (⟨path, m⟩ : LoadedFile) = f := (List.cons.inj hf).1
    exact hlisted imp himp hne
  · rw [concat_eq_append, ← cons_append, ← List.append_assoc] at heq
    obtain ⟨hgraph, -⟩ := append_inj' heq rfl
    exact h before f after hgraph imp himp hne

/-- The prelude the files of a graph make, each added after those before it. -/
def preludeOf (graph : List LoadedFile) : Prelude :=
  graph.foldl (fun p f => mergeIntoAccumulated p f.module f.module.name) {}

namespace LoadConfig

variable (cfg : LoadConfig)

/-- The file at `path` is given up for what it holds, `before` being in the graph already. -/
inductive FailsAfter (before : List LoadedFile) (path : String) : Prop
  | lex {content : String} {e : Failure} (hread : cfg.readFile path = some content)
      (hlex : tokenize content = .error e) (he : e.isLexError = true)
  | header {content : String} {tokens : List Token} {e : Failure}
      (hread : cfg.readFile path = some content) (hlex : tokenize content = .ok tokens)
      (hheader : runParser parseHeader { rest := tokens } = .error e) (he : e.isParseError = true)
  | body {content : String} {tokens : List Token} {scanned : Scanned} {header : FileHeader}
      {parser : Parser} {e : Failure} (hread : cfg.readFile path = some content)
      (hlex : tokenize content = .ok tokens) (hscan : scan tokens = .ok scanned)
      (hheader : runParser parseHeader { rest := tokens } = .ok (header, parser))
      (hbody : runParser (parseBody scanned header.moduleName (preludeOf before)) parser = .error e)
      (he : e.isParseError = true)

/-- What may be thrown while `path` is loaded under `loading`: a cycle that is there, and each
other exception only where its condition holds.  Under `B` the depth is enough. -/
inductive Stop (B : Prop) (loading : List String) (path : String) : Failure → Prop
  | cycle {q closing : String} (chain : List String) (hreach : ReflTransGen cfg.Imports path q)
      (hcloses : q ∈ loading ∨ TransGen cfg.Imports q q) :
      Stop B loading path (.loadError (cycleChainMessage chain closing))
  | inFile (file msg : String) (hstrict : cfg.perFile = false) :
      Stop B loading path (.loadError ("in '" ++ file ++ "': " ++ msg))
  | unresolved (imp : ImportDecl) (file : String) (hstrict : cfg.perFile = false) :
      Stop B loading path (unresolvedError imp file)
  | outOfRange {q content : String} (hreach : ReflTransGen cfg.Imports path q)
      (hread : cfg.readFile q = some content) (hfits : ¬FileFits content) :
      Stop B loading path .outOfRange
  | outOfFuel (hdepth : ¬B) : Stop B loading path .outOfFuel

end LoadConfig

namespace LoadState

def paths (s : LoadState) : List String := s.graph.map (·.resolvedPath)

/-- The invariant of the loader. -/
structure Valid (cfg : LoadConfig) (s : LoadState) : Prop where
  nodup : s.paths.Nodup
  mem_merged : ∀ p, p ∈ s.merged ↔ p ∈ s.paths ∨ p ∈ s.failed
  disjoint : ∀ p ∈ s.failed, p ∉ s.paths
  loading_nodup : s.loading.Nodup
  readable : ∀ p ∈ s.loading, cfg.IsReadable p
  not_merged : ∀ p ∈ s.loading, p ∉ s.merged
  importsBefore : ImportsBefore s.graph
  strict : cfg.perFile = false → s.failed = []
  imports : ∀ f ∈ s.graph, ∀ q ∈ cfg.importedPaths f.resolvedPath,
    q ∈ s.failed ∨ ∃ imp ∈ f.module.imports, imp.resolvedPath = q
  closed : ∀ p ∈ s.merged, ∀ q ∈ cfg.importedPaths p, q ∈ s.merged
  failed : ∀ p ∈ s.failed, ∃ before, before <+: s.graph ∧ cfg.FailsAfter before p
  accumulated : s.accumulated = preludeOf s.graph

/-- What loading more leaves of a state. -/
structure After (s t : LoadState) : Prop where
  loading : t.loading = s.loading
  graph : s.graph <+: t.graph
  merged : s.merged ⊆ t.merged
  failed : s.failed ⊆ t.failed

namespace After

variable {s t u : LoadState}

theorem refl (s : LoadState) : After s s :=
  ⟨rfl, prefix_rfl, List.Subset.refl _, List.Subset.refl _⟩

theorem trans (h : After s t) (h' : After t u) : After s u where
  loading := h'.loading.trans h.loading
  graph := h.graph.trans h'.graph
  merged := List.Subset.trans h.merged h'.merged
  failed := List.Subset.trans h.failed h'.failed

theorem paths (h : After s t) : s.paths ⊆ t.paths := (h.graph.map _).subset

end After

theorem Valid.skip {cfg : LoadConfig} {s : LoadState} (h : s.Valid cfg) (skipped : List String) :
    Valid cfg { s with skipped } :=
  ⟨h.nodup, h.mem_merged, h.disjoint, h.loading_nodup, h.readable, h.not_merged, h.importsBefore,
    h.strict, h.imports, h.closed, h.failed, h.accumulated⟩

theorem valid_empty (cfg : LoadConfig) : Valid cfg {} where
  nodup := nodup_nil
  mem_merged p := by simp [paths]
  disjoint _ h := absurd h not_mem_nil
  loading_nodup := nodup_nil
  readable _ h := absurd h not_mem_nil
  not_merged _ h := absurd h not_mem_nil
  importsBefore before f after h := by
    cases before <;> cases h
  strict _ := rfl
  imports _ h := absurd h not_mem_nil
  closed _ h := absurd h not_mem_nil
  failed _ h := absurd h not_mem_nil
  accumulated := rfl

end LoadState

section

variable {cfg : LoadConfig} {B : Prop} {loading : List String} {path q : String} {e : Failure}
  {s t : LoadState}

theorem mem_importedPaths {content : String} {tokens : List Token} {header : FileHeader}
    {parser : Parser} (hread : cfg.readFile path = some content)
    (hlex : tokenize content = .ok tokens)
    (hheader : runParser parseHeader { rest := tokens } = .ok (header, parser)) :
    q ∈ cfg.importedPaths path ↔
      ∃ imp ∈ header.imports, ∃ c, resolveImport cfg imp.path (dirName path) = some (q, c) := by
  have hheaderOf : cfg.headerOf path = some header := by
    simp [LoadConfig.headerOf, hread, hlex, hheader, Except.toOption]
  unfold LoadConfig.importedPaths
  rw [hheaderOf]
  simp [Option.map_eq_some_iff]

theorem importedPaths_of_lex_error {content : String} (hread : cfg.readFile path = some content)
    (hlex : tokenize content = .error e) : cfg.importedPaths path = [] := by
  have hheaderOf : cfg.headerOf path = none := by
    simp [LoadConfig.headerOf, hread, hlex, Except.toOption]
  unfold LoadConfig.importedPaths
  rw [hheaderOf]
  rfl

theorem importedPaths_of_header_error {content : String} {tokens : List Token}
    (hread : cfg.readFile path = some content) (hlex : tokenize content = .ok tokens)
    (hheader : runParser parseHeader { rest := tokens } = .error e) :
    cfg.importedPaths path = [] := by
  have hheaderOf : cfg.headerOf path = none := by
    simp [LoadConfig.headerOf, hread, hlex, hheader, Except.toOption]
  unfold LoadConfig.importedPaths
  rw [hheaderOf]
  rfl

theorem LoadConfig.Stop.mono {B' : Prop} (h : cfg.Stop B loading path e) (hB : B' → B) :
    cfg.Stop B' loading path e := by
  cases h with
  | cycle chain hreach hcloses => exact .cycle chain hreach hcloses
  | inFile file msg hstrict => exact .inFile file msg hstrict
  | unresolved imp file hstrict => exact .unresolved imp file hstrict
  | outOfRange hreach hread hfits => exact .outOfRange hreach hread hfits
  | outOfFuel hdepth => exact .outOfFuel fun hB' => hdepth (hB hB')

theorem LoadConfig.Stop.importer (h : cfg.Stop B (loading ++ [path]) q e)
    (hq : cfg.Imports path q) : cfg.Stop B loading path e := by
  cases h with
  | @cycle r closing chain hreach hcloses =>
    rcases hcloses with hr | hr
    · rcases mem_append.mp hr with hr | hr
      · exact .cycle chain (ReflTransGen.head hq hreach) (Or.inl hr)
      · obtain rfl : r = path := mem_singleton.mp hr
        exact .cycle chain ReflTransGen.refl (Or.inr (TransGen.head' hq hreach))
    · exact .cycle chain (ReflTransGen.head hq hreach) (Or.inr hr)
  | inFile file msg hstrict => exact .inFile file msg hstrict
  | unresolved imp file hstrict => exact .unresolved imp file hstrict
  | outOfRange hreach hread hfits => exact .outOfRange (ReflTransGen.head hq hreach) hread hfits
  | outOfFuel hdepth => exact .outOfFuel hdepth

/-! ### Imports -/

/-- How the call that loads `path` from `s` returns: if the file was not met before and did not
fail, it is the last of the graph. -/
structure Done (cfg : LoadConfig) (s : LoadState) (path : String) (t : LoadState) : Prop where
  valid : t.Valid cfg
  after : s.After t
  merged : path ∈ t.merged
  last : path ∈ s.merged ∨ path ∈ t.failed ∨ t.paths.getLast? = some path

/-- What one call of `load` does: `B` says of a list of the files being loaded that the depth is
enough for it. -/
def Loads (cfg : LoadConfig) (B : List String → Prop) (load : String → String → Load Unit) :
    Prop :=
  ∀ s path content, s.Valid cfg → cfg.IsReadable path → cfg.readFile path = some content →
    Outcome (cfg.Stop (B s.loading) s.loading path) (fun _ t => Done cfg s path t)
      (load path content) s

/-- Imports that were loaded: the path of each is cleared if it failed, and else in the graph. -/
structure Resolved (cfg : LoadConfig) (path : String) (imports found : List ImportDecl)
    (t : LoadState) : Prop where
  listed : ∀ imp ∈ found, imp.resolvedPath ≠ "" → imp.resolvedPath ∈ t.paths
  merged : ∀ imp ∈ imports, ∀ q c, resolveImport cfg imp.path (dirName path) = some (q, c) →
    q ∈ t.merged ∧ (q ∈ t.failed ∨ ∃ imp' ∈ found, imp'.resolvedPath = q)

theorem Resolved.cons {imp imp' : ImportDecl} {imports found : List ImportDecl}
    (h : Resolved cfg path [imp] [imp'] s) (hst : s.After t)
    (hrest : Resolved cfg path imports found t) :
    Resolved cfg path (imp :: imports) (imp' :: found) t where
  listed i hi hne := by
    rcases mem_cons.mp hi with rfl | hi
    · exact hst.paths (h.listed i (mem_singleton_self i) hne)
    · exact hrest.listed i hi hne
  merged i hi q c hq := by
    rcases mem_cons.mp hi with rfl | hi
    · obtain ⟨hmerged, hq⟩ := h.merged i (mem_singleton_self i) q c hq
      refine ⟨hst.merged hmerged, hq.imp (fun hf => hst.failed hf) ?_⟩
      rintro ⟨j, hj, hjq⟩
      exact ⟨imp', mem_cons_self .., mem_singleton.mp hj ▸ hjq⟩
    · obtain ⟨hmerged, hq⟩ := hrest.merged i hi q c hq
      refine ⟨hmerged, hq.imp_right ?_⟩
      rintro ⟨j, hj, hjq⟩
      exact ⟨j, mem_cons_of_mem _ hj, hjq⟩

theorem outcome_loadImport {B : List String → Prop} {load : String → String → Load Unit}
    (hload : Loads cfg B load) (hs : s.Valid cfg) (hloading : s.loading = loading ++ [path])
    (imp : ImportDecl)
    (himp : ∀ q c, resolveImport cfg imp.path (dirName path) = some (q, c) → cfg.Imports path q) :
    Outcome (cfg.Stop (B (loading ++ [path])) loading path)
      (fun found t => t.Valid cfg ∧ s.After t ∧ Resolved cfg path [imp] [found] t)
      (loadImport cfg load path imp) s := by
  unfold loadImport
  cases hresolve : resolveImport cfg imp.path (dirName path) with
  | none =>
    dsimp only
    split
    case isTrue =>
      refine ⟨hs.skip _, ⟨rfl, prefix_rfl, List.Subset.refl _, List.Subset.refl _⟩, ?_, ?_⟩
      · intro i hi hne
        rw [mem_singleton.mp hi] at hne
        exact absurd rfl hne
      · intro i hi q c h
        rw [mem_singleton.mp hi, hresolve] at h
        cases h
    case isFalse hstrict => exact .unresolved imp path (Bool.eq_false_of_not_eq_true hstrict)
  | some found =>
    obtain ⟨q, content⟩ := found
    obtain ⟨hreadable, hread⟩ := resolveImport_reads hresolve
    refine (hload s q content hs hreadable hread).bind (fun e he => ?_) ?_
    · rw [hloading] at he
      exact he.importer (himp q content hresolve)
    · rintro ⟨⟩ t ⟨ht, hst, hq, -⟩
      have hcleared (hfailed : q ∈ t.failed) : (if q ∈ t.failed then "" else q) = "" :=
        if_pos hfailed
      have hkept (hfailed : q ∉ t.failed) : (if q ∈ t.failed then "" else q) = q := if_neg hfailed
      refine ⟨ht, hst, ?_, ?_⟩
      · intro i hi hne
        rw [mem_singleton.mp hi] at hne ⊢
        show (if q ∈ t.failed then "" else q) ∈ t.paths
        have hfailed : q ∉ t.failed := fun hfailed => hne (hcleared hfailed)
        rw [hkept hfailed]
        exact ((ht.mem_merged q).mp hq).resolve_right hfailed
      · intro i hi r c h
        rw [mem_singleton.mp hi, hresolve] at h
        obtain ⟨rfl, -⟩ := Prod.mk.inj (Option.some.inj h)
        refine ⟨hq, ?_⟩
        by_cases hfailed : q ∈ t.failed
        · exact Or.inl hfailed
        · exact Or.inr ⟨_, mem_singleton_self _, hkept hfailed⟩

theorem outcome_loadImports {B : List String → Prop} {load : String → String → Load Unit}
    (hload : Loads cfg B load) (hs : s.Valid cfg) (hloading : s.loading = loading ++ [path])
    (imports : List ImportDecl)
    (himports : ∀ imp ∈ imports, ∀ q c, resolveImport cfg imp.path (dirName path) = some (q, c) →
      cfg.Imports path q) :
    Outcome (cfg.Stop (B (loading ++ [path])) loading path)
      (fun found t => t.Valid cfg ∧ s.After t ∧ Resolved cfg path imports found t)
      (imports.mapM (loadImport cfg load path)) s := by
  induction imports generalizing s with
  | nil =>
    refine ⟨hs, .refl s, ?_, ?_⟩
    · exact fun imp himp => absurd himp not_mem_nil
    · exact fun imp himp => absurd himp not_mem_nil
  | cons imp imports ih =>
    rw [mapM_cons]
    refine (outcome_loadImport hload hs hloading imp
      (himports imp (mem_cons_self ..))).bind (fun _ he => he) ?_
    rintro found t ⟨ht, hst, hfound⟩
    refine (ih ht (hst.loading.trans hloading)
      fun imp' h => himports imp' (mem_cons_of_mem _ h)).bind (fun _ he => he) ?_
    rintro rest u ⟨hu, htu, hrest⟩
    exact ⟨hu, hst.trans htu, hfound.cons htu hrest⟩

/-! ### Files -/

namespace LoadState

/-- `GiveUp`, in per-file mode. -/
def giveUp (t : LoadState) (path msg : String) : LoadState :=
  { t with
    loading := t.loading.dropLast
    merged := path :: t.merged
    failed := path :: t.failed
    skipped := t.skipped ++ [msg] }

/-- The end of `LoadFileInto`. -/
def finish (t : LoadState) (path : String) (m : Module) : LoadState :=
  { t with
    accumulated := mergeIntoAccumulated t.accumulated m m.name
    graph := t.graph ++ [⟨path, m⟩]
    loading := t.loading.dropLast
    merged := path :: t.merged }

/-- `state.loading.push_back(path)`. -/
def push (s : LoadState) (path : String) : LoadState :=
  { s with loading := s.loading ++ [path] }

theorem After.giveUp (h : (s.push path).After t) (msg : String) : s.After (t.giveUp path msg) where
  loading := by
    show t.loading.dropLast = s.loading
    rw [h.loading]
    exact dropLast_concat
  graph := h.graph
  merged p hp := mem_cons_of_mem _ (h.merged hp)
  failed p hp := mem_cons_of_mem _ (h.failed hp)

theorem After.finish (h : (s.push path).After t) (m : Module) : s.After (t.finish path m) where
  loading := by
    show t.loading.dropLast = s.loading
    rw [h.loading]
    exact dropLast_concat
  graph := h.graph.trans (prefix_append _ _)
  merged p hp := mem_cons_of_mem _ (h.merged hp)
  failed := h.failed

theorem paths_finish (t : LoadState) (path : String) (m : Module) :
    (t.finish path m).paths = t.paths ++ [path] := by
  unfold paths finish
  rw [map_append]
  rfl

namespace Valid

theorem fresh (ht : t.Valid cfg) (hloading : t.loading = loading ++ [path]) : path ∉ t.merged :=
  ht.not_merged path (hloading ▸ mem_append_right _ (mem_singleton_self path))

theorem not_mem_paths (ht : t.Valid cfg) (hloading : t.loading = loading ++ [path]) :
    path ∉ t.paths :=
  fun h => ht.fresh hloading ((ht.mem_merged path).mpr (Or.inl h))

theorem not_merged_dropLast (ht : t.Valid cfg) (hloading : t.loading = loading ++ [path]) :
    ∀ p ∈ t.loading.dropLast, p ∉ path :: t.merged := by
  intro p hp hmem
  have hnodup := ht.loading_nodup
  rcases mem_cons.mp hmem with rfl | hmem
  · rw [hloading, dropLast_concat] at hp
    rw [hloading, List.nodup_append] at hnodup
    exact hnodup.2.2 p hp p (mem_singleton_self p) rfl
  · exact ht.not_merged p (mem_of_mem_dropLast hp) hmem

theorem closed_cons (ht : t.Valid cfg) (himports : ∀ q ∈ cfg.importedPaths path, q ∈ t.merged) :
    ∀ p ∈ path :: t.merged, ∀ q ∈ cfg.importedPaths p, q ∈ path :: t.merged := by
  intro p hp q hq
  refine mem_cons_of_mem _ ?_
  rcases mem_cons.mp hp with rfl | hp
  · exact himports q hq
  · exact ht.closed p hp q hq

theorem giveUp (ht : t.Valid cfg) (hloading : t.loading = loading ++ [path])
    (hperFile : cfg.perFile = true) (hfails : cfg.FailsAfter t.graph path)
    (himports : ∀ q ∈ cfg.importedPaths path, q ∈ t.merged) (msg : String) :
    (t.giveUp path msg).Valid cfg where
  nodup := ht.nodup
  mem_merged p := by
    show p ∈ path :: t.merged ↔ p ∈ t.paths ∨ p ∈ path :: t.failed
    rw [mem_cons, mem_cons, ht.mem_merged]
    tauto
  disjoint p hp := by
    rcases mem_cons.mp hp with rfl | hp
    · exact ht.not_mem_paths hloading
    · exact ht.disjoint p hp
  loading_nodup := ht.loading_nodup.sublist (dropLast_sublist _)
  readable p hp := ht.readable p (mem_of_mem_dropLast hp)
  not_merged := ht.not_merged_dropLast hloading
  importsBefore := ht.importsBefore
  strict hstrict := by rw [hperFile] at hstrict; cases hstrict
  imports f hf q hq := (ht.imports f hf q hq).imp_left (mem_cons_of_mem _)
  closed := ht.closed_cons himports
  failed p hp := by
    rcases mem_cons.mp hp with rfl | hp
    · exact ⟨t.graph, prefix_rfl, hfails⟩
    · exact ht.failed p hp
  accumulated := ht.accumulated

theorem finish (ht : t.Valid cfg) (hloading : t.loading = loading ++ [path]) {m : Module}
    (hlisted : ∀ imp ∈ m.imports, imp.resolvedPath ≠ "" → imp.resolvedPath ∈ t.paths)
    (hresolved : ∀ q ∈ cfg.importedPaths path,
      q ∈ t.failed ∨ ∃ imp ∈ m.imports, imp.resolvedPath = q)
    (himports : ∀ q ∈ cfg.importedPaths path, q ∈ t.merged) :
    (t.finish path m).Valid cfg where
  nodup := by
    rw [paths_finish]
    refine List.nodup_append.mpr ⟨ht.nodup, nodup_singleton path, ?_⟩
    rintro p hp q hq rfl
    exact ht.not_mem_paths hloading (mem_singleton.mp hq ▸ hp)
  mem_merged p := by
    rw [paths_finish, mem_append, mem_singleton]
    show p ∈ path :: t.merged ↔ _ ∨ p ∈ t.failed
    rw [mem_cons, ht.mem_merged]
    tauto
  disjoint p hp := by
    rw [paths_finish]
    refine fun hmem => (mem_append.mp hmem).elim (ht.disjoint p hp) fun hmem => ?_
    rw [mem_singleton] at hmem
    exact ht.fresh hloading ((ht.mem_merged path).mpr (Or.inr (hmem ▸ hp)))
  loading_nodup := ht.loading_nodup.sublist (dropLast_sublist _)
  readable p hp := ht.readable p (mem_of_mem_dropLast hp)
  not_merged := ht.not_merged_dropLast hloading
  importsBefore := ht.importsBefore.concat hlisted
  strict := ht.strict
  imports f hf q hq := by
    rcases mem_append.mp hf with hf | hf
    · exact ht.imports f hf q hq
    · rw [mem_singleton.mp hf] at hq ⊢
      exact hresolved q hq
  closed := ht.closed_cons himports
  failed p hp := by
    obtain ⟨before, hbefore, hfails⟩ := ht.failed p hp
    exact ⟨before, hbefore.trans (prefix_append _ _), hfails⟩
  accumulated := by
    show mergeIntoAccumulated t.accumulated m m.name = preludeOf (t.finish path m).graph
    unfold LoadState.finish preludeOf
    rw [foldl_append, ht.accumulated]
    rfl

end Valid

end LoadState

theorem LoadState.Valid.push (hs : s.Valid cfg) (hpath : cfg.IsReadable path)
    (hmerged : path ∉ s.merged) (hloading : path ∉ s.loading) : (s.push path).Valid cfg :=
  { hs with
    loading_nodup := by
      refine List.nodup_append.mpr ⟨hs.loading_nodup, nodup_singleton path, ?_⟩
      rintro p hp q hq rfl
      exact hloading (mem_singleton.mp hq ▸ hp)
    readable := by
      intro p hp
      rcases mem_append.mp hp with hp | hp
      · exact hs.readable p hp
      · rw [mem_singleton.mp hp]
        exact hpath
    not_merged := by
      intro p hp
      rcases mem_append.mp hp with hp | hp
      · exact hs.not_merged p hp
      · rw [mem_singleton.mp hp]
        exact hmerged }

theorem outcome_giveUp (ht : t.Valid cfg) (hst : (s.push path).After t)
    (hfails : cfg.FailsAfter t.graph path) (himports : ∀ q ∈ cfg.importedPaths path, q ∈ t.merged)
    (what : String) :
    Outcome (cfg.Stop B s.loading path) (fun _ u => Done cfg s path u)
      (giveUp cfg path ("in '" ++ path ++ "': " ++ what)) t := by
  unfold giveUp
  cases hperFile : cfg.perFile with
  | true =>
    exact ⟨ht.giveUp hst.loading hperFile hfails himports _, hst.giveUp _, mem_cons_self ..,
      Or.inr (Or.inl (mem_cons_self ..))⟩
  | false => exact .inFile path what hperFile

theorem outcome_attempt {α : Type} {content : String} {catches : Failure → Bool}
    {x : Except Failure α} {k : α → Load Unit} {Q : α → Prop}
    (hread : cfg.readFile path = some content) (ht : t.Valid cfg) (hst : (s.push path).After t)
    (hx : Ends (Caught catches content) Q x)
    (hfails : ∀ e, x = .error e → catches e = true → cfg.FailsAfter t.graph path)
    (himports : ∀ e, x = .error e → ∀ q ∈ cfg.importedPaths path, q ∈ t.merged)
    (hk : ∀ a, x = .ok a → Q a →
      Outcome (cfg.Stop B s.loading path) (fun _ u => Done cfg s path u) (k a) t) :
    Outcome (cfg.Stop B s.loading path) (fun _ u => Done cfg s path u)
      (attempt cfg path catches x k) t := by
  unfold attempt
  cases x with
  | ok a => exact hk a rfl hx
  | error e =>
    dsimp only
    split
    case isTrue hcatches =>
      exact outcome_giveUp ht hst (hfails e rfl hcatches) (himports e rfl) e.what
    case isFalse hcatches =>
      obtain ⟨rfl, hfits⟩ := (show Caught catches content e from hx).resolve_left hcatches
      exact .outOfRange ReflTransGen.refl hread hfits

theorem outcome_construct {α : Type} {E : Failure → Prop} {Q : α → Prop} {x : Except Failure α}
    (hx : Ends E Q x) :
    Outcome E (fun a u => t = u ∧ x = .ok a) (construct x) t := by
  cases x with
  | ok a => exact ⟨rfl, rfl⟩
  | error e => exact hx

/-- The depth that is left is enough for the paths that can be read and are not being loaded. -/
def Deep (cfg : LoadConfig) (readable : List String) (depth : Nat) (loading : List String) : Prop :=
  (∀ p, cfg.IsReadable p → p ∈ readable) ∧ readable.length < depth + loading.length

/-- **One call of `LoadFileInto`.** -/
theorem loads_loadFileInto (cfg : LoadConfig) (readable : List String) (depth : Nat) :
    Loads cfg (Deep cfg readable depth) (loadFileInto cfg depth) := by
  induction depth with
  | zero =>
    intro s path content hs hpath hread
    refine LoadConfig.Stop.outOfFuel ?_
    rintro ⟨hreadable, hlength⟩
    have hsubset : s.loading ⊆ readable := fun p hp => hreadable p (hs.readable p hp)
    have hle := (hs.loading_nodup.subperm hsubset).length_le
    omega
  | succ depth ih =>
    intro s path content hs hpath hread
    have hchild : Deep cfg readable depth (s.loading ++ [path]) ↔
        Deep cfg readable (depth + 1) s.loading := by
      unfold Deep
      rw [length_append, length_singleton, Nat.add_right_comm, Nat.add_assoc]
    unfold loadFileInto
    refine (Outcome.bind_iff_of_ok (show (get : Load LoadState) s = .ok s s from rfl)).mpr ?_
    split
    case isTrue hmerged => exact ⟨hs, .refl s, hmerged, Or.inl hmerged⟩
    case isFalse hmerged =>
    split
    case isTrue hloading => exact .cycle s.loading ReflTransGen.refl (Or.inl hloading)
    case isFalse hloading =>
    have hpush : (s.push path).Valid cfg := hs.push hpath hmerged hloading
    refine (Outcome.bind_iff_of_ok (show (set (s.push path) : Load PUnit) s =
      .ok ⟨⟩ (s.push path) from rfl)).mpr ?_
    refine outcome_attempt hread hpush (.refl _) (ends_tokenize content) ?_ ?_ ?_
    · exact fun e he hcatches => .lex hread he hcatches
    · intro e he q hq
      rw [importedPaths_of_lex_error hread he] at hq
      cases hq
    intro tokens hlex _
    refine Outcome.bind (outcome_construct (ends_scan hlex)) ?_ ?_
    · rintro e ⟨rfl, hfits⟩
      exact .outOfRange ReflTransGen.refl hread hfits
    rintro scanned _ ⟨rfl, hscan⟩
    refine outcome_attempt hread hpush (.refl _)
      (ends_runParser good_parseHeader (ready_of_tokenize hlex)) ?_ ?_ ?_
    · exact fun e he hcatches => .header hread hlex he hcatches
    · intro e he q hq
      rw [importedPaths_of_header_error hread hlex he] at hq
      cases hq
    rintro ⟨header, parser⟩ hheader hparser
    have himported (q : String) : q ∈ cfg.importedPaths path ↔
        ∃ imp ∈ header.imports, ∃ c, resolveImport cfg imp.path (dirName path) = some (q, c) :=
      mem_importedPaths hread hlex hheader
    refine (outcome_loadImports ih hpush rfl header.imports
      fun imp himp q c hq => (himported q).mpr ⟨imp, himp, c, hq⟩).bind (fun e he => ?_) ?_
    · exact he.mono hchild.mpr
    rintro imports t ⟨ht, hst, hresolved⟩
    have hmerged : ∀ q ∈ cfg.importedPaths path, q ∈ t.merged := by
      intro q hq
      obtain ⟨imp, himp, c, hq⟩ := (himported q).mp hq
      exact (hresolved.merged imp himp q c hq).1
    refine (Outcome.bind_iff_of_ok (show (get : Load LoadState) t = .ok t t from rfl)).mpr ?_
    refine outcome_attempt hread ht hst
      (ends_runParser (good_parseBody scanned header.moduleName t.accumulated) hparser) ?_ ?_ ?_
    · intro e he hcatches
      rw [ht.accumulated] at he
      exact .body hread hlex hscan hheader he hcatches
    · exact fun e he => hmerged
    rintro ⟨m, parser'⟩ hbody hparser'
    refine ⟨ht.finish hst.loading hresolved.listed ?_ hmerged, hst.finish _,
      mem_cons_self .., Or.inr (Or.inr ?_)⟩
    · intro q hq
      obtain ⟨imp, himp, c, hq⟩ := (himported q).mp hq
      exact (hresolved.merged imp himp q c hq).2
    · exact (congrArg List.getLast? (LoadState.paths_finish t path _)).trans getLast?_concat

end

end Voodoo.Compiler
