import Voodoo.Compiler.CompleteTypes

/-!
# Loading a file with its imports

`module_loader.cc`: the paths, `ResolveImport`, `MergeIntoAccumulated`, `LoadFileInto` and
`LoadModuleGraph`.

`LoadFileInto` changes its `LoadState`, the accumulated prelude and the graph in place, so
here all of them are one state.  It calls itself for each import; the first argument bounds
how deep.  `attempt` is a `try` whose `catch` gives the file up.
-/

namespace Voodoo.Compiler

/-! ### Paths -/

/-- `DirName`: what stands before the last slash. -/
def dirName (path : String) : String :=
  String.ofList (path.toList.reverse.dropWhile (fun c => c ≠ '/' && c ≠ '\\')).tail.reverse

def joinPath (dir rel : String) : String :=
  match dir.toList.getLast? with
  | none => rel
  | some last => if last = '/' ∨ last = '\\' then dir ++ rel else dir ++ "/" ++ rel

/-- The root of a path with forward slashes, `[]` for a relative one, and what follows it. -/
def splitRoot : List Char → List Char × List Char
  | [] => ([], [])
  | '/' :: cs => (['/'], cs)
  | c :: ':' :: '/' :: cs => if c.isAlpha then ([c, ':', '/'], cs) else ([], c :: ':' :: '/' :: cs)
  | cs => ([], cs)

/-- One more segment on the stack, whose top is in front. -/
def pushSegment (relative : Bool) (stack : List (List Char)) (seg : List Char) :
    List (List Char) :=
  if seg = [] ∨ seg = ['.'] then stack
  else if seg = ['.', '.'] then
    match stack with
    | top :: below =>
      if top ≠ ['.', '.'] then below else if relative then seg :: stack else stack
    | [] => if relative then [seg] else []
  else seg :: stack

def normalizePath (path : String) : String :=
  let (root, rest) := splitRoot (path.toList.map (fun c => if c = '\\' then '/' else c))
  let stack := (rest.splitOn '/').foldl (pushSegment (root = [])) []
  let result := root ++ ['/'].intercalate stack.reverse
  if result = [] then "." else String.ofList result

/-! ### Configuration and state -/

/-- The arguments of `LoadModuleGraph` other than the entry. -/
structure LoadConfig where
  importDirs : List String := []
  readFile : String → Option String
  enabledFeatures : List String := []
  /-- `skipped != nullptr`. -/
  perFile : Bool := false

structure LoadedFile where
  resolvedPath : String
  module : Module
  deriving DecidableEq

/-- `LoadState`, with the prelude and the graph that are filled next to it. -/
structure LoadState where
  merged : List String := []
  loading : List String := []
  failed : List String := []
  skipped : List String := []
  accumulated : Prelude := {}
  graph : List LoadedFile := []

abbrev Load := EStateM Failure LoadState

/-- `ResolveImport`: the first candidate that can be read, and its content. -/
def resolveImport (cfg : LoadConfig) (importPath importerDir : String) :
    Option (String × String) :=
  ((importerDir :: cfg.importDirs).map (fun dir => normalizePath (joinPath dir importPath))).findSome?
    (fun candidate => (cfg.readFile candidate).map (candidate, ·))

/-! ### The prelude -/

/-- The names a file declares, in the order `MergeIntoAccumulated` registers them. -/
def Module.ownedNames (m : Module) : List String :=
  let ofStruct (s : StructDecl) := s.name :: s.enums.map (·.name) ++ s.consts.map (·.name)
  m.enums.map (·.name) ++ m.structs.flatMap ofStruct ++ m.unions.map (·.name) ++
    m.interfaces.flatMap (fun i =>
      i.name :: i.enums.map (·.name) ++ i.consts.map (·.name) ++ i.structs.flatMap ofStruct ++
        i.unions.map (·.name)) ++
    m.consts.map (·.name) ++ m.features.flatMap (fun f => f.consts.map (·.name))

def mergeIntoAccumulated (accumulated : Prelude) (src : Module) (ownerNamespace : String) :
    Prelude where
  ownerByName := assignAll accumulated.ownerByName (src.ownedNames.map (·, ownerNamespace))
  module := { accumulated.module with
    enums := accumulated.module.enums ++ src.enums
    structs := accumulated.module.structs ++ src.structs
    unions := accumulated.module.unions ++ src.unions
    interfaces := accumulated.module.interfaces ++ src.interfaces
    consts := accumulated.module.consts ++ src.consts
    features := accumulated.module.features ++ src.features }

/-! ### The loader -/

def cycleChainMessage (loading : List String) (closingPath : String) : String :=
  "import cycle: " ++ String.join (loading.map (· ++ " -> ")) ++ closingPath

/-- `GiveUp`. -/
def giveUp (cfg : LoadConfig) (path msg : String) : Load Unit := do
  modify (fun s => { s with
    loading := s.loading.dropLast
    merged := path :: s.merged
    failed := path :: s.failed })
  if cfg.perFile then modify (fun s => { s with skipped := s.skipped ++ [msg] })
  else throw (.loadError msg)

def Failure.isLexError : Failure → Bool
  | .lexError .. => true
  | _ => false

def Failure.isParseError : Failure → Bool
  | .parseError .. => true
  | _ => false

/-- `try { x } catch (e) { GiveUp(...); return; }`, and then `k`. -/
def attempt {α : Type} (cfg : LoadConfig) (path : String) (catches : Failure → Bool)
    (x : Except Failure α) (k : α → Load Unit) : Load Unit :=
  match x with
  | .ok a => k a
  | .error e =>
    if catches e then giveUp cfg path ("in '" ++ path ++ "': " ++ e.what) else throw e

/-- The constructor of the parser, outside of every `try`. -/
def construct {α : Type} (x : Except Failure α) : Load α :=
  match x with
  | .ok a => return a
  | .error e => throw e

/-- A run of the parser on its own state. -/
def runParser {α : Type} (x : Parse α) (s : Parser) : Except Failure (α × Parser) :=
  match x s with
  | .ok a t => .ok (a, t)
  | .error e _ => .error e

def unresolvedError (imp : ImportDecl) (path : String) : Failure :=
  .loadError ("cannot resolve import '" ++ imp.path ++ "' (" ++ path ++
    (if 0 < imp.line then ":" ++ toString imp.line else "") ++ ")")

/-- One turn of the loop over the imports of `path`. -/
def loadImport (cfg : LoadConfig) (load : String → String → Load Unit) (path : String)
    (imp : ImportDecl) : Load ImportDecl := do
  match resolveImport cfg imp.path (dirName path) with
  | none =>
    unless cfg.perFile do throw (unresolvedError imp path)
    modify (fun s => { s with skipped := s.skipped ++
      ["cannot resolve import '" ++ imp.path ++ "' (imported from '" ++ path ++ "')"] })
    return { imp with resolvedPath := "" }
  | some (resolved, content) =>
    load resolved content
    let failed := (← get).failed
    return { imp with resolvedPath := if resolved ∈ failed then "" else resolved }

/-- What is done with a file whose body was parsed. -/
def finishFile (cfg : LoadConfig) (path : String) (header : FileHeader)
    (imports : List ImportDecl) (m : Module) : Load Unit := do
  let m := applyEnableIf cfg.enabledFeatures { m with name := header.moduleName, imports }
  modify (fun s => { s with
    accumulated := mergeIntoAccumulated s.accumulated m header.moduleName
    graph := s.graph ++ [⟨path, m⟩]
    loading := s.loading.dropLast
    merged := path :: s.merged })

/-- `LoadFileInto`. -/
def loadFileInto (cfg : LoadConfig) : Nat → String → String → Load Unit
  | 0, _, _ => throw .outOfFuel
  | depth + 1, path, content => do
    let s ← get
    if path ∈ s.merged then return
    if path ∈ s.loading then throw (.loadError (cycleChainMessage s.loading path))
    set { s with loading := s.loading ++ [path] }
    attempt cfg path Failure.isLexError (tokenize content) fun tokens => do
      let scanned ← construct (scan tokens)
      attempt cfg path Failure.isParseError (runParser parseHeader { rest := tokens })
        fun (header, parser) => do
          let imports ← header.imports.mapM (loadImport cfg (loadFileInto cfg depth) path)
          let accumulated := (← get).accumulated
          attempt cfg path Failure.isParseError
            (runParser (parseBody scanned header.moduleName accumulated) parser)
            fun (m, _) => finishFile cfg path header imports m

/-- `LoadModuleGraph`: the graph and `*entry_loaded`. -/
def loadModuleGraph (cfg : LoadConfig) (depth : Nat) (entryPath : String) :
    Load (List LoadedFile × Bool) := do
  let entry := normalizePath entryPath
  match cfg.readFile entry with
  | none => throw (.loadError ("cannot open '" ++ entryPath ++ "' for reading"))
  | some content =>
    loadFileInto cfg depth entry content
    let graph := (← get).graph
    return (graph, graph.getLast?.any (·.resolvedPath = entry))

end Voodoo.Compiler
