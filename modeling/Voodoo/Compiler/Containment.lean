import Voodoo.Compiler.LoadGraph

/-!
# Errors stay in their file

In per-file mode `LoadFileInto` catches the `LexError` and the `ParseError` of a file and gives
the file up.  What else a file can make the compiler throw is the exception of a conversion,
which nothing catches.
-/

namespace Voodoo.Compiler

open EState Relation

/-! ### One file -/

/-- `Tokenize` throws only a `LexError` for the file, and the constructor of the parser,
`ParseHeader` and `ParseBody` only a `ParseError`, whatever was loaded before. -/
structure Contained (content : String) : Prop where
  tokenize : ∀ e, tokenize content = .error e → e.IsLexError
  construct : ∀ tokens e, Compiler.tokenize content = .ok tokens → scan tokens = .error e →
    e.IsParseError
  header : ∀ tokens e, Compiler.tokenize content = .ok tokens →
    runParser parseHeader { rest := tokens } = .error e → e.IsParseError
  body : ∀ tokens scanned header parser prelude e, Compiler.tokenize content = .ok tokens →
    scan tokens = .ok scanned → runParser parseHeader { rest := tokens } = .ok (header, parser) →
    runParser (parseBody scanned header.moduleName prelude) parser = .error e → e.IsParseError

section

variable {content : String}

theorem tokenize_contained_iff (content : String) :
    (∀ e, tokenize content = .error e → e.IsLexError) ↔ escapesFit content = true := by
  have h := lexes_tokenize content
  constructor
  · intro hall
    cases hfits : escapesFit content with
    | true => rfl
    | false =>
      rw [hfits] at h
      cases ht : tokenize content with
      | ok tokens =>
        rw [ht] at h
        cases h.1
      | error e =>
        rw [ht] at h
        obtain rfl : e = .outOfRange := h
        obtain ⟨msg, line, he⟩ := hall _ ht
        cases he
  · intro hfits e ht
    rw [hfits, ht] at h
    exact h

theorem isParseError_of_caught {e : Failure} (hfits : FileFits content)
    (h : Caught Failure.isParseError content e) : e.IsParseError := by
  have he := h.resolve_right fun hout => hout.2 hfits
  cases e with
  | parseError msg line => exact ⟨msg, line, rfl⟩
  | lexError | loadError | outOfRange | outOfFuel => cases he

theorem contained_of_fits (hfits : FileFits content) : Contained content where
  tokenize := (tokenize_contained_iff content).mpr hfits.1
  construct tokens e hlex hscan := absurd hfits ((ends_scan hlex).error hscan).2
  header tokens e hlex hheader :=
    isParseError_of_caught hfits
      ((ends_runParser good_parseHeader (ready_of_tokenize hlex)).error hheader)
  body tokens scanned header parser prelude e hlex hscan hheader hbody := by
    have hready := (ends_runParser good_parseHeader (ready_of_tokenize hlex)).ok hheader
    exact isParseError_of_caught hfits
      ((ends_runParser (good_parseBody scanned header.moduleName prelude) hready).error hbody)

end

/-! ### The files being loaded -/

/-- Every run of `x` that starts while the files `l` are loaded and returns, returns while the
files `m` are. -/
def Leaves {α : Type} (l m : List String) (x : Load α) : Prop :=
  ∀ s, s.loading = l → Outcome (fun _ => True) (fun _ t => t.loading = m) x s

section

variable {α β : Type} {cfg : LoadConfig} {l m k : List String} {path : String}

theorem Leaves.pure (a : α) : Leaves l l (pure a : Load α) := fun _ hs => hs

theorem Leaves.throw (e : Failure) : Leaves l m (throw e : Load α) := fun _ _ => trivial

theorem Leaves.bind {x : Load α} {f : α → Load β} (hx : Leaves l m x)
    (hf : ∀ a, Leaves m k (f a)) : Leaves l k (x >>= f) :=
  fun s hs => (hx s hs).bind (fun _ _ => trivial) fun a t ht => hf a t ht

theorem Leaves.get : Leaves l l (get : Load LoadState) := fun _ hs => hs

theorem Leaves.modify {g : LoadState → LoadState} (hg : ∀ s, s.loading = l → (g s).loading = m) :
    Leaves l m (modify g : Load PUnit) := fun s hs => hg s hs

theorem Leaves.mapM {f : α → Load β} (hf : ∀ a, Leaves l l (f a)) (as : List α) :
    Leaves l l (as.mapM f) := by
  induction as with
  | nil => exact Leaves.pure []
  | cons a as ih =>
    rw [List.mapM_cons]
    exact (hf a).bind fun _ => ih.bind fun _ => Leaves.pure _

theorem dropLast_loading {s : LoadState} (hs : s.loading = l ++ [path]) :
    s.loading.dropLast = l := by
  rw [hs]
  exact List.dropLast_concat

theorem leaves_giveUp (msg : String) : Leaves (l ++ [path]) l (giveUp cfg path msg) := by
  unfold giveUp
  refine Leaves.bind (m := l) (Leaves.modify fun s hs => dropLast_loading hs) fun _ => ?_
  split
  · exact Leaves.modify fun _ hs => hs
  · exact Leaves.throw _

theorem leaves_attempt {catches : Failure → Bool} {x : Except Failure α} {next : α → Load Unit}
    (hnext : ∀ a, Leaves (l ++ [path]) l (next a)) :
    Leaves (l ++ [path]) l (attempt cfg path catches x next) := by
  unfold attempt
  split
  · exact hnext _
  · split
    · exact leaves_giveUp _
    · exact Leaves.throw _

theorem leaves_construct (x : Except Failure α) : Leaves l l (construct x) := by
  unfold construct
  split
  · exact Leaves.pure _
  · exact Leaves.throw _

theorem leaves_loadImport {load : String → String → Load Unit}
    (hload : ∀ path content, Leaves l l (load path content)) (imp : ImportDecl) :
    Leaves l l (loadImport cfg load path imp) := by
  unfold loadImport
  split
  · split
    · refine (Leaves.modify fun s hs => ?_).bind fun _ => Leaves.pure _
      exact hs
    · exact Leaves.throw _
  · exact (hload _ _).bind fun _ => Leaves.get.bind fun _ => Leaves.pure _

/-- **A call of `LoadFileInto` that returns leaves the files being loaded as they were.** -/
theorem leaves_loadFileInto (depth : Nat) (path content : String) (l : List String) :
    Leaves l l (loadFileInto cfg depth path content) := by
  induction depth generalizing path content l with
  | zero => exact Leaves.throw _
  | succ depth ih =>
    unfold loadFileInto
    intro s hs
    refine (Outcome.bind_iff_of_ok (show (get : Load LoadState) s = .ok s s from rfl)).mpr ?_
    split
    · exact hs
    split
    · trivial
    have hpush : (s.push path).loading = l ++ [path] := congrArg (· ++ [path]) hs
    refine (Outcome.bind_iff_of_ok (show (set (s.push path) : Load PUnit) s =
      .ok ⟨⟩ (s.push path) from rfl)).mpr ?_
    refine (leaves_attempt fun tokens => ?_) (s.push path) hpush
    refine (leaves_construct _).bind fun scanned => ?_
    refine leaves_attempt ?_
    rintro ⟨header, parser⟩
    refine (Leaves.mapM (fun imp => ?_) header.imports).bind fun imports => ?_
    · exact leaves_loadImport (fun path content => ih path content _) imp
    refine Leaves.get.bind fun _ => ?_
    refine leaves_attempt ?_
    rintro ⟨m, -⟩
    exact Leaves.modify fun s hs => dropLast_loading hs

end

/-! ### Whole loads -/

/-- What a load in per-file mode does with a file that cannot be read as it should: nothing is
thrown but for want of depth, with enough of it a graph is returned, and each file that is
reached is in the graph unless what it holds stops it. -/
structure Tolerates (cfg : LoadConfig) (entryPath : String) : Prop where
  throws : ∀ depth e s, loadModuleGraph cfg depth entryPath {} = .error e s → e = .outOfFuel
  returns : {path | cfg.IsReadable path}.Finite →
    ∃ depth r s, loadModuleGraph cfg depth entryPath {} = .ok r s
  returned : ∀ depth graph entryLoaded s,
    loadModuleGraph cfg depth entryPath {} = .ok (graph, entryLoaded) s →
      ∀ p, ReflTransGen cfg.Imports (normalizePath entryPath) p →
        p ∈ graph.map (·.resolvedPath) ∨ ∃ before, before <+: graph ∧ cfg.FailsAfter before p

section

variable {cfg : LoadConfig} {entryPath : String}

theorem throws_of_fits (hperFile : cfg.perFile = true)
    (hentry : (cfg.readFile (normalizePath entryPath)).isSome = true)
    (hacyclic : ¬cfg.CycleReachable (normalizePath entryPath))
    (hfits : ∀ p content, ReflTransGen cfg.Imports (normalizePath entryPath) p →
      cfg.readFile p = some content → FileFits content) {depth : Nat} {e : Failure}
    {s : LoadState} (h : loadModuleGraph cfg depth entryPath {} = .error e s) :
    e = .outOfFuel := by
  rcases (outcome_loadModuleGraph [] depth entryPath).error h with hstop | ⟨hread, -⟩
  · cases hstop with
    | cycle chain hreach hcloses =>
      exact absurd ⟨_, hreach, hcloses.resolve_left List.not_mem_nil⟩ hacyclic
    | inFile file msg hstrict =>
      rw [hperFile] at hstrict
      cases hstrict
    | unresolved imp file hstrict =>
      rw [hperFile] at hstrict
      cases hstrict
    | outOfRange hreach hread hnot => exact absurd (hfits _ _ hreach hread) hnot
    | outOfFuel => rfl
  · rw [hread] at hentry
    cases hentry

theorem returned_of_ok {depth : Nat} {graph : List LoadedFile} {entryLoaded : Bool} {s : LoadState}
    (h : loadModuleGraph cfg depth entryPath {} = .ok (graph, entryLoaded) s) {p : String}
    (hreach : ReflTransGen cfg.Imports (normalizePath entryPath) p) :
    p ∈ graph.map (·.resolvedPath) ∨ ∃ before, before <+: graph ∧ cfg.FailsAfter before p := by
  have hloaded : Loaded cfg (normalizePath entryPath) graph entryLoaded s :=
    (outcome_loadModuleGraph [] depth entryPath).ok h
  have hvalid := hloaded.done.valid
  have hmerged : p ∈ s.merged := by
    induction hreach with
    | refl => exact hloaded.done.merged
    | tail _ hstep ih => exact hvalid.closed _ ih _ hstep
  rw [hloaded.graph_eq]
  exact ((hvalid.mem_merged p).mp hmerged).imp_right (hvalid.failed p)

theorem not_cycleReachable_of_rank (rank : String → Nat)
    (h : ∀ p q, cfg.Imports p q → rank q < rank p) (entry : String) :
    ¬cfg.CycleReachable entry := by
  rintro ⟨p, -, hcycle⟩
  have hlt {q : String} (hq : TransGen cfg.Imports p q) : rank q < rank p := by
    induction hq with
    | single hstep => exact h _ _ hstep
    | tail _ hstep ih => exact (h _ _ hstep).trans ih
  exact lt_irrefl _ (hlt hcycle)

theorem isSome_of_imports {p q : String} (h : cfg.Imports p q) : (cfg.readFile p).isSome = true := by
  cases hread : cfg.readFile p with
  | some content => rfl
  | none =>
    have hheader : cfg.headerOf p = none := by
      unfold LoadConfig.headerOf
      rw [hread]
      rfl
    unfold LoadConfig.Imports LoadConfig.importedPaths at h
    rw [hheader] at h
    cases h

/-- One file that cannot be parsed, and one that imports it. -/
def unfinishedImport : LoadConfig :=
  .ofFiles [("a", "import \"b\"; struct S \x7b int32 x; \x7d;"), ("b", "struct T")] true

/-- A number that no conversion takes. -/
def outOfRangeFile : String := "enum E \x7b kA = 99999999999999999999 \x7d;"

end

end Voodoo.Compiler
