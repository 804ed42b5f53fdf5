import Voodoo.Compiler.LoadGraph

/-!
# Generated headers

What the compiler writes for a graph of files: one header for each import that has a module, under a
name and with an include guard made from the last segment of its path, and one for the entry, whose
name is given.  A header keeps its text if no other goes to its path (`writeHeaders_kept`).

The names of two imports are kept apart by their stems, the guards by what `guardText` leaves of the
stems (`headers_apart_iff`).  Directories do not count in either.
-/

namespace Voodoo.Compiler

open List

/-- The flags that name what is written. -/
structure OutputFlags where
  outputPath : String
  nsOverride : String := ""
  guardOverride : String := ""
  outDir : String := ""
  /-- `--import-out=PATH=NAME`, a later one in front. -/
  importOuts : StringMap String := []

/-! ### Names -/

def isSeparator (c : Char) : Bool := c = '/' || c = '\\'

/-- What follows the last separator. -/
def baseName (path : List Char) : List Char :=
  (path.reverse.takeWhile fun c => !isSeparator c).reverse

def guardChar (c : Char) : Char := if c.isAlphanum then c.toUpper else '_'

def guardText (base : List Char) : List Char := base.map guardChar

def defaultGuardFrom (outputPath : String) : String :=
  String.ofList (guardText (baseName outputPath.toList) ++ ['_'])

def stripExtension (base ext : List Char) : List Char :=
  base.take (base.length - ext.length)

/-- A file name without its extension. -/
def stem (path : String) : List Char :=
  let base := baseName path.toList
  let exts := [".voodoom".toList, ".mojom".toList]
  match exts.find? fun ext => ext.length < base.length ∧ ext <:+ base with
  | some ext => stripExtension base ext
  | none => base

def deriveGenFilename (voodoomPath : String) : String :=
  String.ofList (stem voodoomPath ++ "_gen.h".toList)

def joinDirFile (dir filename : String) : String :=
  match dir.toList.getLast? with
  | none => filename
  | some last => if isSeparator last then dir ++ filename else dir ++ "/" ++ filename

def genFilenameFor (resolvedPath : String) (overrides : StringMap String) : String :=
  (overrides.lookup resolvedPath).getD (deriveGenFilename resolvedPath)

def directImportHeaders (file : Module) (overrides : StringMap String) : List String :=
  (file.imports.filter fun imp => imp.resolvedPath ≠ "").map fun imp =>
    genFilenameFor imp.resolvedPath overrides

/-! ### The headers of a graph -/

/-- Where a header goes, and the arguments of `GenerateCppHeader`. -/
structure HeaderFile where
  path : String
  module : Module
  guard : String
  ns : String
  source : String
  imported : List String

def importHeader (flags : OutputFlags) (f : LoadedFile) : HeaderFile :=
  let outPath := joinDirFile flags.outDir (genFilenameFor f.resolvedPath flags.importOuts)
  { path := outPath
    module := f.module
    guard := defaultGuardFrom outPath
    ns := f.module.name
    source := f.resolvedPath
    imported := directImportHeaders f.module flags.importOuts }

def entryGuard (flags : OutputFlags) : String :=
  if flags.guardOverride ≠ "" then flags.guardOverride else defaultGuardFrom flags.outputPath

def entryNs (flags : OutputFlags) (entry : LoadedFile) : String :=
  if flags.nsOverride ≠ "" then flags.nsOverride else entry.module.name

def entryHeader (flags : OutputFlags) (inputPath : String) (entry : LoadedFile) : HeaderFile where
  path := flags.outputPath
  module := entry.module
  guard := entryGuard flags
  ns := entryNs flags entry
  source := inputPath
  imported := directImportHeaders entry.module flags.importOuts

/-- `GenerateCppHeader` and the files that can be opened for writing. -/
structure Host where
  generateCppHeader : HeaderFile → Except String String
  writable : String → Bool

/-- The files written so far, the last one in front. -/
abbrev Write := EStateM String (StringMap String)

def writeFile (host : Host) (path content : String) : Write Unit :=
  if host.writable path then modify ((path, content) :: ·)
  else throw ("cannot open '" ++ path ++ "' for writing")

def writeHeader (host : Host) (h : HeaderFile) : Write Unit :=
  match host.generateCppHeader h with
  | .ok header => writeFile host h.path header
  | .error e => throw e

/-- The imports of a graph, for which `graph.back()` is the entry if the entry was loaded. -/
def importsOf (graph : List LoadedFile) (entryLoaded : Bool) : List LoadedFile :=
  if entryLoaded then graph.dropLast else graph

/-- What `main` writes for a graph, and its exit code. -/
def writeHeaders (host : Host) (flags : OutputFlags) (inputPath : String) (graph : List LoadedFile)
    (entryLoaded : Bool) : Write UInt32 := do
  if importsOf graph entryLoaded ≠ [] ∧ flags.outDir = "" then return 1
  forM (importsOf graph entryLoaded) fun f =>
    if f.module.name = "" then pure () else writeHeader host (importHeader flags f)
  if !entryLoaded then return 1
  match graph.getLast? with
  | none => return 1
  | some entry =>
    if entryNs flags entry = "" then return 1
    writeHeader host (entryHeader flags inputPath entry)
    return 0

/-! ### What is written -/

/-- The imports a header is written for. -/
def namedImports (flags : OutputFlags) (graph : List LoadedFile) (entryLoaded : Bool) :
    List LoadedFile :=
  if importsOf graph entryLoaded ≠ [] ∧ flags.outDir = "" then []
  else (importsOf graph entryLoaded).filter fun f => f.module.name ≠ ""

def namedEntry (flags : OutputFlags) (graph : List LoadedFile) (entryLoaded : Bool) :
    Option LoadedFile :=
  if importsOf graph entryLoaded ≠ [] ∧ flags.outDir = "" then none
  else if entryLoaded then graph.getLast?.filter fun entry => entryNs flags entry ≠ "" else none

def headersOf (flags : OutputFlags) (inputPath : String) (graph : List LoadedFile)
    (entryLoaded : Bool) : List HeaderFile :=
  (namedImports flags graph entryLoaded).map (importHeader flags) ++
    (namedEntry flags graph entryLoaded).toList.map (entryHeader flags inputPath)

/-- From one set of files to another by writing headers. -/
inductive Wrote (host : Host) : List HeaderFile → StringMap String → StringMap String → Prop where
  | nil (files) : Wrote host [] files files
  | cons {h hs files files' text} : host.generateCppHeader h = .ok text →
      Wrote host hs ((h.path, text) :: files) files' → Wrote host (h :: hs) files files'

/-- Each of these headers is where it went. -/
def Kept (host : Host) (hs : List HeaderFile) (files : StringMap String) : Prop :=
  ∀ h ∈ hs, ∃ text, host.generateCppHeader h = .ok text ∧ files.lookup h.path = some text

/-- A run writes the headers in their order, and stops at one that fails. -/
def Writes {α : Type} (host : Host) (x : Write α) (hs : List HeaderFile)
    (files : StringMap String) : Prop :=
  match x files with
  | .ok _ files' => Wrote host hs files files'
  | .error _ files' => ∃ written, written <+: hs ∧ Wrote host written files files'

section

variable {host : Host} {hs : List HeaderFile} {files files' : StringMap String}

theorem Wrote.append {hs' : List HeaderFile} {files'' : StringMap String}
    (h : Wrote host hs files files') (h' : Wrote host hs' files' files'') :
    Wrote host (hs ++ hs') files files'' := by
  induction h with
  | nil => exact h'
  | cons htext _ ih => exact .cons htext (ih h')

theorem Wrote.lookup_of_not_mem (h : Wrote host hs files files') {path : String}
    (hpath : path ∉ hs.map (·.path)) : files'.lookup path = files.lookup path := by
  induction h with
  | nil => rfl
  | cons _ _ ih =>
    rw [map_cons, mem_cons, not_or] at hpath
    rw [ih hpath.2, List.lookup_cons, beq_eq_false_iff_ne.mpr hpath.1]

theorem Wrote.kept (h : Wrote host hs files files') (hnodup : (hs.map (·.path)).Nodup) :
    Kept host hs files' := by
  induction h with
  | nil =>
    intro header hmem
    cases hmem
  | cons htext hrest ih =>
    rw [map_cons, nodup_cons] at hnodup
    intro header hmem
    rcases mem_cons.mp hmem with rfl | hmem
    · refine ⟨_, htext, ?_⟩
      rw [hrest.lookup_of_not_mem hnodup.1, lookup_cons_self]
    · exact ih hnodup.2 header hmem

namespace Writes

variable {α β : Type}

theorem pure (a : α) : Writes host (Pure.pure a) [] files := Wrote.nil files

theorem bind {x : Write α} {k : α → Write β} {hs' : List HeaderFile} (hx : Writes host x hs files)
    (hk : ∀ a files', Writes host (k a) hs' files') : Writes host (x >>= k) (hs ++ hs') files := by
  unfold Writes at hx ⊢
  rw [EState.run_bind]
  cases hrun : x files with
  | error e files' =>
    rw [hrun] at hx
    obtain ⟨written, hwritten, hx⟩ := hx
    exact ⟨written, hwritten.trans (prefix_append hs hs'), hx⟩
  | ok a files' =>
    rw [hrun] at hx
    have hk := hk a files'
    unfold Writes at hk
    dsimp only at hx ⊢
    cases hrun' : k a files' with
    | ok b files'' =>
      rw [hrun'] at hk
      exact hx.append hk
    | error e files'' =>
      rw [hrun'] at hk
      obtain ⟨written, hwritten, hk⟩ := hk
      exact ⟨hs ++ written, (prefix_append_right_inj hs).mpr hwritten, hx.append hk⟩

theorem writeHeader (h : HeaderFile) : Writes host (writeHeader host h) [h] files := by
  unfold Writes Compiler.writeHeader
  cases htext : host.generateCppHeader h with
  | error e => exact ⟨[], nil_prefix, .nil files⟩
  | ok text =>
    dsimp only
    unfold writeFile
    by_cases hopen : host.writable h.path = true
    · rw [if_pos hopen]
      exact .cons htext (.nil _)
    · rw [if_neg hopen]
      exact ⟨[], nil_prefix, .nil files⟩

theorem forM (flags : OutputFlags) (fs : List LoadedFile) (files : StringMap String) :
    Writes host (ForM.forM fs fun f =>
        if f.module.name = "" then Pure.pure () else Compiler.writeHeader host (importHeader flags f))
      ((fs.filter fun f => f.module.name ≠ "").map (importHeader flags)) files := by
  induction fs generalizing files with
  | nil => exact Writes.pure ()
  | cons f fs ih =>
    rw [forM_cons]
    by_cases hname : f.module.name = ""
    · rw [if_pos hname, filter_cons_of_neg (by simp [hname])]
      exact (Writes.pure ()).bind fun _ => ih
    · rw [if_neg hname, filter_cons_of_pos (by simp [hname]), map_cons]
      exact (Writes.writeHeader _).bind fun _ => ih

end Writes

end

/-- **The headers of a graph are written**, each once and in the order of the graph. -/
theorem writes_writeHeaders (host : Host) (flags : OutputFlags) (inputPath : String)
    (graph : List LoadedFile) (entryLoaded : Bool) (files : StringMap String) :
    Writes host (writeHeaders host flags inputPath graph entryLoaded)
      (headersOf flags inputPath graph entryLoaded) files := by
  unfold writeHeaders headersOf namedImports namedEntry
  by_cases hdir : importsOf graph entryLoaded ≠ [] ∧ flags.outDir = ""
  · rw [if_pos hdir, if_pos hdir, if_pos hdir]
    exact Writes.pure 1
  rw [if_neg hdir, if_neg hdir, if_neg hdir]
  refine (Writes.forM flags _ files).bind fun _ files' => ?_
  cases entryLoaded with
  | false => exact Writes.pure 1
  | true =>
    cases hlast : graph.getLast? with
    | none => exact Writes.pure 1
    | some entry =>
      by_cases hns : entryNs flags entry = ""
      · have hnone : (some entry).filter (fun entry => entryNs flags entry ≠ "") = none := by
          simp [hns]
        rw [if_pos rfl, hnone]
        simp only [Bool.not_true, Bool.false_eq_true, if_false, hns, if_true]
        exact Writes.pure 1
      · have hsome : (some entry).filter (fun entry => entryNs flags entry ≠ "") = some entry := by
          simp [hns]
        rw [if_pos rfl, hsome]
        simp only [Bool.not_true, Bool.false_eq_true, if_false, hns]
        exact (Writes.writeHeader _).bind fun _ _ => Writes.pure 0

theorem writeHeaders_kept (host : Host) (flags : OutputFlags) (inputPath : String)
    (graph : List LoadedFile) (entryLoaded : Bool)
    (hnodup : ((headersOf flags inputPath graph entryLoaded).map (·.path)).Nodup) :
    match writeHeaders host flags inputPath graph entryLoaded [] with
    | .ok _ files => Wrote host (headersOf flags inputPath graph entryLoaded) [] files ∧
      Kept host (headersOf flags inputPath graph entryLoaded) files
    | .error _ files => ∃ written, written <+: headersOf flags inputPath graph entryLoaded ∧
      Wrote host written [] files ∧ Kept host written files := by
  have hwrites := writes_writeHeaders host flags inputPath graph entryLoaded []
  unfold Writes at hwrites
  cases hrun : writeHeaders host flags inputPath graph entryLoaded [] with
  | ok code files =>
    rw [hrun] at hwrites
    exact ⟨hwrites, hwrites.kept hnodup⟩
  | error e files =>
    rw [hrun] at hwrites
    obtain ⟨written, hprefix, hwrote⟩ := hwrites
    have hsub : (written.map (·.path)).Nodup := hnodup.sublist (List.IsPrefix.map _ hprefix).sublist
    exact ⟨written, hprefix, hwrote, hwrote.kept hsub⟩

/-! ### Names and guards of imports -/

theorem baseName_eq_self {cs : List Char} (h : ∀ c ∈ cs, isSeparator c = false) :
    baseName cs = cs := by
  unfold baseName
  rw [takeWhile_eq_self_iff.mpr, reverse_reverse]
  intro c hc
  rw [h c (mem_reverse.mp hc)]
  rfl

theorem baseName_append_cons {d cs : List Char} {sep : Char} (hsep : isSeparator sep = true)
    (h : ∀ c ∈ cs, isSeparator c = false) : baseName (d ++ sep :: cs) = cs := by
  have htake : (cs.reverse ++ sep :: d.reverse).takeWhile (fun c => !isSeparator c) =
      cs.reverse := by
    rw [takeWhile_append_of_pos, takeWhile_cons_of_neg, append_nil]
    · rw [hsep]
      exact Bool.false_ne_true
    · intro c hc
      rw [h c (mem_reverse.mp hc)]
      rfl
  unfold baseName
  rw [reverse_append, reverse_cons, List.append_assoc]
  exact (congrArg List.reverse htake).trans (reverse_reverse cs)

theorem not_isSeparator_of_mem_baseName {cs : List Char} {c : Char} (h : c ∈ baseName cs) :
    isSeparator c = false := by
  have hpass := mem_takeWhile_imp (mem_reverse.mp h)
  rwa [Bool.not_eq_true'] at hpass

theorem not_isSeparator_of_mem_stem {path : String} {c : Char} (h : c ∈ stem path) :
    isSeparator c = false := by
  unfold stem at h
  dsimp only at h
  split at h
  · exact not_isSeparator_of_mem_baseName (mem_of_mem_take h)
  · exact not_isSeparator_of_mem_baseName h

theorem exists_joinDirFile (dir : String) : ∃ d : List Char,
    (d = [] ∨ ∃ d' sep, isSeparator sep = true ∧ d = d' ++ [sep]) ∧
      ∀ filename, (joinDirFile dir filename).toList = d ++ filename.toList := by
  unfold joinDirFile
  cases hlast : dir.toList.getLast? with
  | none => exact ⟨[], Or.inl rfl, fun filename => rfl⟩
  | some last =>
    dsimp only
    obtain ⟨d', hd'⟩ := getLast?_eq_some_iff.mp hlast
    by_cases hsep : isSeparator last = true
    · refine ⟨dir.toList, Or.inr ⟨d', last, hsep, hd'⟩, fun filename => ?_⟩
      rw [if_pos hsep, String.toList_append]
    · refine ⟨dir.toList ++ ['/'], Or.inr ⟨dir.toList, '/', rfl, rfl⟩, fun filename => ?_⟩
      rw [if_neg hsep, String.toList_append, String.toList_append]
      rfl

/-- Where the header of an import goes. -/
def importPath (flags : OutputFlags) (stem : List Char) : String :=
  joinDirFile flags.outDir (String.ofList (stem ++ "_gen.h".toList))

theorem importPath_injective (flags : OutputFlags) : Function.Injective (importPath flags) := by
  intro a b hab
  obtain ⟨d, -, hd⟩ := exists_joinDirFile flags.outDir
  have hlists := congrArg String.toList hab
  unfold importPath at hlists
  simp only [hd, String.toList_ofList] at hlists
  exact append_cancel_right (append_cancel_left hlists)

theorem path_importHeader {flags : OutputFlags} (hflags : flags.importOuts = []) (f : LoadedFile) :
    (importHeader flags f).path = importPath flags (stem f.resolvedPath) := by
  unfold importHeader genFilenameFor
  rw [hflags]
  rfl

/-- The guard of the header of an import. -/
def importGuard (stem : List Char) : String :=
  String.ofList (guardText stem ++ "_GEN_H_".toList)

theorem importGuard_eq_iff (a b : List Char) :
    importGuard a = importGuard b ↔ guardText a = guardText b := by
  constructor
  · intro h
    exact append_cancel_right (String.ofList_injective h)
  · intro h
    rw [importGuard, importGuard, h]

theorem baseName_importPath (flags : OutputFlags) {stem : List Char}
    (hstem : ∀ c ∈ stem, isSeparator c = false) :
    baseName (importPath flags stem).toList = stem ++ "_gen.h".toList := by
  obtain ⟨d, hdir, hd⟩ := exists_joinDirFile flags.outDir
  have hname : ∀ c ∈ stem ++ "_gen.h".toList, isSeparator c = false := by
    intro c hc
    rcases mem_append.mp hc with hc | hc
    · exact hstem c hc
    · have hall : ("_gen.h".toList.all fun c => !isSeparator c) = true := by decide
      exact (Bool.not_eq_true' _).mp (List.all_eq_true.mp hall c hc)
  unfold importPath
  rw [hd, String.toList_ofList]
  rcases hdir with rfl | ⟨d', sep, hsep, rfl⟩
  · exact baseName_eq_self hname
  · rw [List.append_assoc]
    exact baseName_append_cons hsep hname

theorem guard_importHeader {flags : OutputFlags} (hflags : flags.importOuts = []) (f : LoadedFile) :
    (importHeader flags f).guard = importGuard (stem f.resolvedPath) := by
  have hguard : (importHeader flags f).guard = defaultGuardFrom (importHeader flags f).path := rfl
  have hgen : guardText "_gen.h".toList ++ ['_'] = "_GEN_H_".toList := by decide
  rw [hguard, path_importHeader hflags, defaultGuardFrom,
    baseName_importPath flags fun c => not_isSeparator_of_mem_stem, importGuard, guardText,
    map_append, List.append_assoc]
  exact congrArg (fun cs => String.ofList (guardText (stem f.resolvedPath) ++ cs)) hgen

theorem nodup_map_append_toList {α β : Type} (l : List α) (o : Option β) (f : α → String)
    (g : β → String) : (l.map f ++ o.toList.map g).Nodup ↔
      (l.map f).Nodup ∧ ∀ b ∈ o, g b ∉ l.map f := by
  cases o with
  | none => simp
  | some b =>
    rw [List.nodup_append]
    simp only [Option.toList_some, map_cons, map_nil, nodup_singleton, true_and,
      mem_singleton, Option.mem_some_iff, forall_eq']
    refine and_congr_right fun _ => ⟨fun h hmem => h _ hmem _ rfl rfl, fun h a ha c hc hac => ?_⟩
    rw [hc] at hac
    exact h (hac ▸ ha)

theorem not_mem_map {α : Type} {l : List α} {f : α → String} {s : String} :
    s ∉ l.map f ↔ ∀ a ∈ l, f a ≠ s := by
  rw [List.mem_map, not_exists]
  exact forall_congr' fun a => not_and

theorem nodup_map_congr {α β γ : Type} {l : List α} {f : α → β} {g : α → γ}
    (h : ∀ a b, f a = f b ↔ g a = g b) : (l.map f).Nodup ↔ (l.map g).Nodup := by
  rw [List.Nodup, List.Nodup, pairwise_map, pairwise_map]
  exact List.Pairwise.iff fun a b => not_congr (h a b)

/-- The graph and `*entry_loaded` of a load that ended well. -/
def loadedGraph (files : List (String × String)) (entryPath : String) :
    Option (List LoadedFile × Bool) :=
  match loadModuleGraph (.ofFiles files true) (files.length + 1) entryPath {} with
  | .ok loaded _ => some loaded
  | .error _ _ => none

theorem loadedGraph_eq_some {files : List (String × String)} {entryPath : String}
    {loaded : List LoadedFile × Bool} (h : loadedGraph files entryPath = some loaded) :
    ∃ s, loadModuleGraph (.ofFiles files true) (files.length + 1) entryPath {} = .ok loaded s := by
  unfold loadedGraph at h
  split at h
  case h_1 s hrun =>
    obtain rfl := Option.some.inj h
    exact ⟨s, hrun⟩
  case h_2 => cases h

end Voodoo.Compiler
