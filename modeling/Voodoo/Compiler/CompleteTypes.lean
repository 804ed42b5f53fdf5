import Voodoo.Compiler.EnableIf
import Voodoo.Compiler.Parser
import Voodoo.Lib.Kahn
import Mathlib.Data.String.Basic

/-!
# Complete types

`AppendCompleteTypeDeps`, and the check at the end of `ParseBody` that no struct or
union embeds itself by value through others (`CheckCompleteTypeAcyclic`).  With it
`parseBody` and `parse` are complete.

The check counts what Kahn's algorithm emits over the names of the file, so a file
it lets through has no cycle (`acyclic_of_parseBody`).
-/

namespace Voodoo.Compiler

open Kahn

/-! ### Dependencies -/

/-- `AppendCompleteTypeDeps`: what must be complete where a member has the type. -/
def completeTypeDeps : TypeSpec → List String
  | .nullable (.ref ..) => []
  | .nullable t => completeTypeDeps t
  | .array element fixedArraySize =>
    if fixedArraySize = 0 then [] else completeTypeDeps element
  | .ref .enum .. => []
  | .ref _ _ target => if target.ownerNamespace = "" then [target.cppEmbedName] else []
  | _ => []

/-- The names `e` depends on. -/
def Embed.deps (e : Embed) : List String := e.memberTypes.flatMap completeTypeDeps

/-! ### The check -/

namespace Module

variable (m : Module)

/-- `local`. -/
def embedNames : List String := (m.embeds.map Embed.key).dedup

/-- Every struct or union by its name; those that share a name are one node. -/
def completeTypeGraph : Graph String where
  nodes := m.embedNames
  deps name := (m.embeds.filter (·.key = name)).flatMap (fun e =>
    e.memberTypes.flatMap (fun t => (completeTypeDeps t).dedup.filter (· ∈ m.embedNames)))

end Module

/-- `CheckCompleteTypeAcyclic`.  Which name of a cycle is reported is up to the hash order of
`indeg` in the source. -/
def checkCompleteTypeAcyclic (m : Module) : Parse Unit := do
  let sorted := m.completeTypeGraph.sort id
  unless sorted.length = m.embedNames.length do
    let cyc := (m.embedNames.find? (· ∉ sorted)).getD ""
    Parse.parseError ("'" ++ cyc ++ "' embeds another struct/union by value in a cycle " ++
      "(direct member, optional, or array<T, N>) -- array<T> and map<K, T> may reference T " ++
      "while T is still incomplete (generated as WASMSafeSpace CageVector/CageMap)")
      (← Parse.cur).line

/-! ### Whole files -/

/-- What the constructor of `Impl` computes from the tokens. -/
structure Scanned where
  names : DeclaredNames
  values : StringMap EnumDecl

def scan (tokens : List Token) : Except Failure Scanned := do
  return { names := collectDeclaredNames tokens, values := ← collectEnumValues tokens }

/-- The part of `SeedFromPrelude` that changes while a file is parsed. -/
def Parser.seed (p : Prelude) (s : Parser) : Parser :=
  { s with
    constByName := assignAll s.constByName
      ((p.nestedConsts.map (·.2) ++ p.module.consts ++ p.featureConsts.map (·.2)).map
        (fun c => (c.name, c)))
    constContainer := assignAll s.constContainer
      ((p.nestedConsts ++ p.featureConsts).map (fun c => (c.2.name, c.1)))
    nextEmbedOrder := max s.nextEmbedOrder p.nextEmbedOrder }

/-- `ParseBody`, after `ParseHeader` found `moduleName`. -/
def parseBody (scanned : Scanned) (moduleName : String) (p : Prelude) : Parse Module := do
  modify (Parser.seed p)
  let m ← parseDecls (Env.of moduleName scanned.names scanned.values p)
  checkCompleteTypeAcyclic m
  return m

/-- A file by itself, with `p` loaded before it. -/
def parseFile (p : Prelude) (tokens : List Token) : Parse Module := do
  let scanned ← Parse.liftResult (scan tokens)
  let header ← parseHeader
  let m ← parseBody scanned header.moduleName p
  return { m with name := header.moduleName, imports := header.imports }

/-- `Parse(tokens)`. -/
def parse (tokens : List Token) : Except Failure Module :=
  match parseFile {} tokens { rest := tokens } with
  | .ok m _ => .ok m
  | .error e _ => .error e

/-- A file from its text. -/
def parseText (content : String) : Except Failure Module := do
  parse (← tokenize content)

theorem parseBody_of_parseFile {p : Prelude} {tokens : List Token} {s s' : Parser} {m : Module}
    (h : parseFile p tokens s = .ok m s') :
    ∃ scanned m' t, parseBody scanned m.name p t = .ok m' s' ∧
      m = { m' with name := m.name, imports := m.imports } := by
  obtain ⟨scanned, s₁, -, h⟩ := EState.bind_eq_ok.mp h
  obtain ⟨header, s₂, -, h⟩ := EState.bind_eq_ok.mp h
  obtain ⟨m', s₃, hbody, h⟩ := EState.bind_eq_ok.mp h
  obtain ⟨rfl, rfl⟩ := EStateM.Result.ok.inj h
  exact ⟨scanned, m', s₂, hbody, rfl⟩

theorem parseFile_of_parseText {content : String} {m : Module} (h : parseText content = .ok m) :
    ∃ tokens s', tokenize content = .ok tokens ∧
      parseFile {} tokens { rest := tokens } = .ok m s' := by
  unfold parseText at h
  cases ht : tokenize content with
  | error e => rw [ht] at h; cases h
  | ok tokens =>
    rw [ht] at h
    have h : parse tokens = .ok m := h
    unfold parse at h
    split at h
    · next m' s' hrun => cases h; exact ⟨tokens, s', rfl, hrun⟩
    · cases h

theorem exists_ok_of_any {ε α : Type} {x : Except ε α} {p : α → Bool}
    (h : x.toOption.any p = true) : ∃ a, x = .ok a ∧ p a = true := by
  cases x with
  | error e => exact absurd h (by simp [Except.toOption])
  | ok a => exact ⟨a, rfl, h⟩

/-! ### What the check lets through -/

section

variable {m : Module}

theorem mem_embedNames {name : String} : name ∈ m.embedNames ↔ ∃ e ∈ m.embeds, e.key = name := by
  simp [Module.embedNames]

theorem nodup_embedNames : m.embedNames.Nodup := List.nodup_dedup _

theorem mem_completeTypeGraph_deps {a b : String} :
    a ∈ m.completeTypeGraph.deps b ↔
      a ∈ m.embedNames ∧ ∃ e ∈ m.embeds, e.key = b ∧ a ∈ e.deps := by
  simp only [Module.completeTypeGraph, Embed.deps, List.mem_flatMap, List.mem_filter,
    List.mem_dedup, decide_eq_true_eq]
  constructor
  · rintro ⟨e, ⟨he, hk⟩, t, ht, ha, hl⟩
    exact ⟨hl, e, he, hk, t, ht, ha⟩
  · rintro ⟨hl, e, he, hk, t, ht, ha⟩
    exact ⟨e, ⟨he, hk⟩, t, ht, ha, hl⟩

/-- **The check is sound.** -/
theorem acyclic_of_check {s s' : Parser} (h : checkCompleteTypeAcyclic m s = .ok () s') :
    m.completeTypeGraph.Acyclic := by
  have hg := sort_greedy (g := m.completeTypeGraph) nodup_embedNames id
  by_cases hlen : (m.completeTypeGraph.sort id).length = m.embedNames.length
  · exact hg.acyclic (fun b hb => hg.mem_of_length hlen.ge hb)
  · rw [checkCompleteTypeAcyclic, if_neg hlen] at h
    obtain ⟨t, s₁, -, h⟩ := EState.bind_eq_ok.mp h
    cases h

theorem acyclic_of_parseBody {scanned : Scanned} {moduleName : String} {p : Prelude}
    {s s' : Parser} (h : parseBody scanned moduleName p s = .ok m s') :
    m.completeTypeGraph.Acyclic := by
  obtain ⟨-, s₁, -, h⟩ := EState.bind_eq_ok.mp h
  obtain ⟨m', s₂, -, h⟩ := EState.bind_eq_ok.mp h
  obtain ⟨_, s₃, hcheck, h⟩ := EState.bind_eq_ok.mp h
  obtain ⟨rfl, rfl⟩ := EStateM.Result.ok.inj h
  exact acyclic_of_check hcheck

end

end Voodoo.Compiler
