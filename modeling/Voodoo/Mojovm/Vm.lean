import Voodoo.Compiler.Loader
import Voodoo.Compiler.TypeIntern
import Voodoo.Lib.Memo
import Voodoo.Mojovm.ModuleIndex
import Voodoo.Mojovm.Sha256

/-!
# The machine that numbers methods

`Vm::Call` takes the name of a method and answers with its two numbers: a hash of its signature and
the number that Chrome scrambles.  The machine indexes the files below its root by module when it is
called first, and keeps every graph that it loads.

* `splitApi_iff`: which names it takes apart, and into what;
* `call_history`: on files that do not change, no answer depends on what was asked before.
-/

namespace Voodoo.Mojovm

open Compiler

/-! ### Numbers -/

/-- A character of a string is a byte. -/
def bytes (s : String) : List UInt8 := s.toList.map fun c => UInt8.ofNat c.toNat

/-- FNV-1a, in 31 bits. -/
def fnvOrdinal (s : String) : UInt32 :=
  let h := (bytes s).foldl (fun h c => (h ^^^ c.toUInt32) * 16777619) 2166136261 &&& 0x7fffffff
  if h = 0 then 1 else h

def kChromeVersionSalt : String := "MAJOR=156\nMINOR=0\nBUILD=8070\nPATCH=0\n"

/-- The first four bytes of the digest, little-endian, in 31 bits.  What is in the block before it
is filled does not matter. -/
def scramble (iface : String) (index : Nat) : UInt32 :=
  let dig := sha256 (Vector.replicate 64 0) (bytes (kChromeVersionSalt ++ (iface ++ toString index)))
  let byte (i : Nat) : UInt32 := (dig.getD i 0).toUInt32
  let ord := (byte 0 ||| byte 1 <<< 8 ||| byte 2 <<< 16 ||| byte 3 <<< 24) &&& 0x7fffffff
  if ord = 0 then 1 else ord

/-- The loop of `ChromeOrdinal`, with the `index` so far. -/
def chromeOrdinalFrom (iface target : String) : Nat → List Compiler.Method → UInt32
  | _, [] => 0
  | index, m :: methods =>
    if m.hasExplicitOrdinal then chromeOrdinalFrom iface target index methods
    else if m.name ≠ target then chromeOrdinalFrom iface target (index + 1) methods
    else scramble iface (index + 1)

def chromeOrdinal (d : Compiler.Interface) (target : Compiler.Method) : UInt32 :=
  if target.hasExplicitOrdinal then target.ordinal &&& 0x7fffffff
  else chromeOrdinalFrom d.name target.name 0 d.methods

/-! ### Names -/

/-- What is in front of the last dot and what is behind it. -/
def cutLast : List Char → Option (List Char × List Char)
  | [] => none
  | c :: cs =>
    match cutLast cs with
    | some (front, back) => some (c :: front, back)
    | none => if c = '.' then some ([], cs) else none

/-- `SplitApi`.  With a dot in front, the module is empty or there is none. -/
def splitApi (api : String) : Option (String × String × String) := do
  let (front, method) ← cutLast api.toList
  let (module, iface) ← cutLast front
  if module ≠ [] ∧ iface ≠ [] ∧ method ≠ [] then
    some (String.ofList module, String.ofList iface, String.ofList method)
  else none

/-! ### The machine -/

/-- What the machine finds on disk. -/
structure Disk where
  root : String
  /-- The `.mojom` files below the root, as the directory iterator comes to them. -/
  mojoms : List String
  readFile : String → Option String
  /-- Imports are nested no deeper. -/
  depth : Nat

namespace Disk

variable (d : Disk)

/-- `LoadModuleGraph` on a file, without its imports that fail. -/
def load (path : String) : Except Failure (List LoadedFile) :=
  let cfg : LoadConfig := { importDirs := [d.root], readFile := d.readFile, perFile := true }
  match loadModuleGraph cfg d.depth path {} with
  | .ok (graph, _) _ => .ok graph
  | .error e _ => .error e

/-- `EnsureIndex`: the files of each module. -/
def index : String → List String :=
  d.mojoms.foldl (fun byModule path =>
    let name := (d.readFile path).elim "" moduleOf
    if name = "" then byModule else Function.update byModule name (byModule name ++ [path]))
    fun _ => []

end Disk

/-- `by_module`, once there is one, and `graphs`. -/
structure VmState where
  byModule : Option (String → List String) := none
  graphs : String → Option (List LoadedFile) := fun _ => none

def err (msg : String) : String := "error: " ++ msg

def sep : String := String.singleton (Char.ofNat 0x1f)

/-- The answer that a graph has, if it has the interface. -/
def answerIn (module iface method : String) (graph : List LoadedFile) : Option String :=
  graph.findSome? fun file =>
    if file.module.name ≠ module then none
    else (file.module.interfaces.find? (·.name = iface)).map fun i =>
      match i.methods.find? (·.name = method) with
      | some m => "ok" ++ sep ++ toString (fnvOrdinal (methodKey module iface m)).toNat ++ sep ++
          toString (chromeOrdinal i m).toNat
      | none => err ("unknown method " ++ method)

/-- The files of the module, from the first on. -/
def askFiles (d : Disk) (module iface method : String) (graphs : String → Option (List LoadedFile)) :
    List String → String × (String → Option (List LoadedFile))
  | [] => (err ("unknown interface " ++ iface), graphs)
  | path :: paths =>
    match Memo.fetch d.load graphs path with
    | (.error e, graphs) => (err e.what, graphs)
    | (.ok graph, graphs) =>
      match answerIn module iface method graph with
      | some answer => (answer, graphs)
      | none => askFiles d module iface method graphs paths

/-- `Vm::Call`. -/
def call (d : Disk) (s : VmState) (api : String) : String × VmState :=
  match splitApi api with
  | none => (err "api is module.Interface.Method", s)
  | some (module, iface, method) =>
    let byModule := s.byModule.getD d.index
    match byModule module with
    | [] => (err ("unknown module " ++ module), { s with byModule := some byModule })
    | files =>
      let (answer, graphs) := askFiles d module iface method s.graphs files
      (answer, ⟨some byModule, graphs⟩)

/-- The answers to `apis`, one after another. -/
def answers (d : Disk) : VmState → List String → List String
  | _, [] => []
  | s, api :: apis => (call d s api).1 :: answers d (call d s api).2 apis

/-! ### What a name is taken apart into -/

theorem cutLast_eq_none {cs : List Char} : cutLast cs = none ↔ '.' ∉ cs := by
  induction cs with
  | nil => exact iff_of_true rfl List.not_mem_nil
  | cons c cs ih =>
    unfold cutLast
    cases hcut : cutLast cs with
    | some p =>
      refine iff_of_false (Option.some_ne_none (c :: p.1, p.2)) fun hno => ?_
      rw [ih.mpr fun hmem => hno (List.mem_cons_of_mem c hmem)] at hcut
      cases hcut
    | none =>
      dsimp only
      rw [List.mem_cons, or_iff_left (ih.mp hcut), eq_comm (a := '.')]
      split <;> simp [*]

theorem cutLast_eq_some {cs front back : List Char} :
    cutLast cs = some (front, back) ↔ cs = front ++ '.' :: back ∧ '.' ∉ back := by
  induction cs generalizing front back with
  | nil =>
    refine iff_of_false (by rintro ⟨⟩) fun h => ?_
    exact List.append_ne_nil_of_right_ne_nil _ (List.cons_ne_nil _ _) h.1.symm
  | cons c cs ih =>
    unfold cutLast
    cases hcut : cutLast cs with
    | some p =>
      obtain ⟨front', back'⟩ := p
      obtain ⟨hcs, hback⟩ := ih.mp hcut
      dsimp only
      rw [Option.some.injEq, Prod.mk.injEq]
      cases front with
      | nil =>
        refine iff_of_false (fun h => List.cons_ne_nil _ _ h.1) fun h => h.2 ?_
        rw [← (List.cons.inj h.1).2, hcs]
        exact List.mem_append_right _ List.mem_cons_self
      | cons b front =>
        rw [List.cons_append, List.cons.injEq, List.cons.injEq, and_assoc, and_assoc, ← ih,
          hcut, Option.some.injEq, Prod.mk.injEq]
    | none =>
      have hno := cutLast_eq_none.mp hcut
      dsimp only
      cases front with
      | nil =>
        rw [List.nil_append, List.cons.injEq]
        split
        case isTrue hc => simp [hc]; exact fun heq => heq ▸ hno
        case isFalse hc => simp [hc]
      | cons b front =>
        refine iff_of_false (by split <;> simp) fun h => hno ?_
        rw [(List.cons.inj h.1).2]
        exact List.mem_append_right _ List.mem_cons_self

/-- **A name is taken apart at its last two dots.** -/
theorem splitApi_iff {api module iface method : String} :
    splitApi api = some (module, iface, method) ↔
      api = module ++ "." ++ iface ++ "." ++ method ∧ module ≠ "" ∧ iface ≠ "" ∧ method ≠ "" ∧
        '.' ∉ iface.toList ∧ '.' ∉ method.toList := by
  constructor
  · intro h
    obtain ⟨⟨front, back⟩, hfront, h⟩ := Option.bind_eq_some_iff.mp h
    dsimp only at h
    obtain ⟨⟨left, middle⟩, hleft, h⟩ := Option.bind_eq_some_iff.mp h
    dsimp only at h
    obtain ⟨⟨hmodule, hiface, hmethod⟩, h⟩ := Option.ite_none_right_eq_some.mp h
    cases h
    obtain ⟨hapi, hback⟩ := cutLast_eq_some.mp hfront
    obtain ⟨rfl, hmiddle⟩ := cutLast_eq_some.mp hleft
    have hempty {cs : List Char} (hcs : cs ≠ []) : String.ofList cs ≠ "" :=
      mt String.ofList_eq_empty_iff.mp hcs
    refine ⟨String.toList_inj.mp ?_, hempty hmodule, hempty hiface, hempty hmethod, ?_, ?_⟩
    · rw [hapi]
      simp
    · rwa [String.toList_ofList]
    · rwa [String.toList_ofList]
  · rintro ⟨rfl, hmodule, hiface, hmethod, hmiddle, hback⟩
    have hfront : cutLast (module ++ "." ++ iface ++ "." ++ method).toList =
        some ((module ++ "." ++ iface).toList, method.toList) :=
      cutLast_eq_some.mpr ⟨by simp, hback⟩
    have hleft : cutLast (module ++ "." ++ iface).toList = some (module.toList, iface.toList) :=
      cutLast_eq_some.mpr ⟨by simp, hmiddle⟩
    have hnil {text : String} (htext : text ≠ "") : text.toList ≠ [] :=
      mt String.toList_eq_nil_iff.mp htext
    unfold splitApi
    simp only [hfront, hleft, Option.bind_eq_bind, Option.bind_some]
    rw [if_pos ⟨hnil hmodule, hnil hiface, hnil hmethod⟩]
    simp only [String.ofList_toList]

/-! ### No memory of the calls -/

variable {d : Disk} {s : VmState} {graphs graphs' : String → Option (List LoadedFile)}

/-- What the machine keeps is what it would come to again. -/
structure VmState.Sound (d : Disk) (s : VmState) : Prop where
  index : s.byModule.getD d.index = d.index
  graphs : Memo.Faithful d.load s.graphs

theorem VmState.Sound.start : VmState.Sound d {} := ⟨rfl, .empty⟩

theorem askFiles_congr (module iface method : String) (h : Memo.Faithful d.load graphs) (h' : Memo.Faithful d.load graphs')
    (paths : List String) :
    (askFiles d module iface method graphs paths).1 =
        (askFiles d module iface method graphs' paths).1 ∧
      Memo.Faithful d.load (askFiles d module iface method graphs paths).2 := by
  induction paths generalizing graphs graphs' with
  | nil => exact ⟨rfl, h⟩
  | cons path paths ih =>
    have hfst := h.fetch_fst (k := path)
    have hfst' := h'.fetch_fst (k := path)
    have hsnd := h.fetch_snd (k := path)
    have hsnd' := h'.fetch_snd (k := path)
    unfold askFiles
    generalize Memo.fetch d.load graphs path = p at hfst hsnd
    generalize Memo.fetch d.load graphs' path = q at hfst' hsnd'
    obtain ⟨result, graphs₁⟩ := p
    obtain ⟨result', graphs₂⟩ := q
    obtain rfl : result = result' := hfst.trans hfst'.symm
    cases result with
    | error e => exact ⟨rfl, hsnd⟩
    | ok graph =>
      dsimp only
      cases answerIn module iface method graph with
      | some answer => exact ⟨rfl, hsnd⟩
      | none => exact ih hsnd hsnd'

theorem VmState.Sound.call (h : s.Sound d) (api : String) :
    (call d s api).1 = (call d {} api).1 ∧ (call d s api).2.Sound d := by
  unfold Mojovm.call
  cases splitApi api with
  | none => exact ⟨rfl, h⟩
  | some p =>
    obtain ⟨module, iface, method⟩ := p
    dsimp only
    rw [h.index, Option.getD_none]
    cases d.index module with
    | nil => exact ⟨rfl, rfl, h.graphs⟩
    | cons path paths =>
      have hfiles := askFiles_congr module iface method h.graphs .empty (path :: paths)
      exact ⟨hfiles.1, rfl, hfiles.2⟩

theorem answers_eq (h : s.Sound d) (apis : List String) :
    answers d s apis = apis.map fun api => (call d {} api).1 := by
  induction apis generalizing s with
  | nil => rfl
  | cons api apis ih =>
    obtain ⟨hanswer, hsound⟩ := h.call api
    rw [answers, hanswer, ih hsound, List.map_cons]

/-- **A call does not see the calls before it.** -/
theorem call_history (d : Disk) (apis : List String) :
    answers d {} apis = apis.map fun api => (call d {} api).1 :=
  answers_eq .start apis

end Voodoo.Mojovm
