import Voodoo.Wire.Progress

/-!
# How deep the generated readers nest

Types may be recursive and payloads are whatever the peer sent, so nothing in the
program bounds how deep the calls of `ReadX` nest.  The payload does: each nested call
starts eight bytes or more behind the start of the one around it, whatever the calls
next to it did to the offset.

`readX graph msg n` stops with `outOfFuel` in a call that has `n` calls around it.
More nesting changes nothing where less was enough (`readX_extends`), and one more
than an eighth of the payload is enough (`readParams_terminates`).
-/

namespace Voodoo

open EState

variable {graph : List Module} {msg : Message} {file : Module}

/-! ### Room for more nesting -/

section Extends

variable {element element' key key' : Reader Val}

theorem readElements_extends (h : Extends .outOfFuel element element') (n : Nat) :
    Extends .outOfFuel (readElements element n) (readElements element' n) := by
  induction n with
  | zero => exact .refl _ _
  | succ n ih => exact h.bind (fun _ => ih.bind (fun _ => .refl _ _))

theorem readEntries_extends (hk : Extends .outOfFuel key key')
    (he : Extends .outOfFuel element element') (n : Nat) (entries : List (Val × Val)) :
    Extends .outOfFuel (readEntries key element n entries) (readEntries key' element' n entries) := by
  induction n generalizing entries with
  | zero => exact .refl _ _
  | succ n ih => exact hk.bind (fun _ => he.bind (fun _ => ih _))

theorem readInto_extends {X X' : EmbedRef → Reader Val}
    (hX : ∀ r, Extends .outOfFuel (X r) (X' r)) (version : Option Nat) (type : TypeSpec) :
    Extends .outOfFuel (readInto graph msg file X version type)
      (readInto graph msg file X' version type) := by
  induction type with
  | scalar kind => cases kind <;> exact .refl _ _
  | string => exact .refl _ _
  | enumRef r => exact .refl _ _
  | structRef r => exact hX (.struct r)
  | unionRef r => exact hX (.union r)
  | array element n ih =>
    exact Extends.bind (.refl _ _) (fun count =>
      (readElements_extends ih count).bind (fun _ => .refl _ _))
  | map key element ihk ihe =>
    exact Extends.bind (.refl _ _) (fun count =>
      (readEntries_extends ihk ihe count []).bind (fun _ => .refl _ _))
  | handle kind interface => exact .refl _ _
  | nullable type ih =>
    refine Extends.bind (.refl _ _) (fun has => ?_)
    cases has with
    | true => exact ih.bind (fun _ => .refl _ _)
    | false => exact .refl _ _

theorem readFields_extends {s : StructDecl} {version : Nat} {read read' : TypeSpec → Reader Val}
    (h : ∀ type, Extends .outOfFuel (read type) (read' type)) (is : List Nat) (out : List Val) :
    Extends .outOfFuel (readFields s version read is out) (readFields s version read' is out) := by
  induction is generalizing out with
  | nil => exact .refl _ _
  | cons i is ih =>
    unfold readFields
    cases s.fields[i]? with
    | none => exact ih out
    | some f =>
      dsimp only
      by_cases hf : f.minVersion = 0 ∨ f.minVersion.toNat ≤ version
      · rw [if_pos hf, if_pos hf]
        exact (h f.type).bind (fun _ => ih _)
      · rw [if_neg hf, if_neg hf]
        exact ih out

theorem readStruct_extends {s : StructDecl} {read read' : Nat → TypeSpec → Reader Val}
    (h : ∀ version type, Extends .outOfFuel (read version type) (read' version type))
    (out : List Val) :
    Extends .outOfFuel (readStruct msg s read out) (readStruct msg s read' out) := by
  refine Extends.bind (.refl _ _) (fun numBytes => Extends.bind (.refl _ _) (fun version => ?_))
  by_cases hsize : numBytes < 8
  · rw [if_pos hsize, if_pos hsize]
    exact .refl _ _
  · rw [if_neg hsize, if_neg hsize]
    refine Extends.bind (.refl _ _) (fun offset => ?_)
    dsimp only
    by_cases hend : offset - 8 + numBytes > msg.payloadNumBytes
    · rw [if_pos hend, if_pos hend]
      exact .refl _ _
    · rw [if_neg hend, if_neg hend]
      exact (readFields_extends (h version) _ _).bind (fun _ => .refl _ _)

theorem readUnion_extends {u : UnionDecl} {read read' : TypeSpec → Reader Val}
    (h : ∀ type, Extends .outOfFuel (read type) (read' type)) (fresh : TypeSpec → Val) :
    Extends .outOfFuel (readUnion msg u read fresh) (readUnion msg u read' fresh) := by
  refine Extends.bind (.refl _ _) (fun unionSize => ?_)
  by_cases hsize : unionSize < 4
  · rw [if_pos hsize, if_pos hsize]
    exact .refl _ _
  · rw [if_neg hsize, if_neg hsize]
    refine Extends.bind (.refl _ _) (fun offset => ?_)
    dsimp only
    by_cases hend : offset - 4 + unionSize > msg.payloadNumBytes
    · rw [if_pos hend, if_pos hend]
      exact .refl _ _
    · rw [if_neg hend, if_neg hend]
      refine Extends.bind (.refl _ _) (fun tag => ?_)
      cases u.caseFor (BitVec.ofNat 32 tag) with
      | some f => exact (h f.type).bind (fun _ => .refl _ _)
      | none => exact .refl _ _

theorem readX_extends (n : Nat) (file : Module) (r : EmbedRef) :
    Extends .outOfFuel (readX graph msg n file r) (readX graph msg (n + 1) file r) := by
  induction n generalizing file r with
  | zero => exact .of_error (fun c => ⟨c, rfl⟩)
  | succ n ih =>
    cases r with
    | struct r =>
      unfold readX
      cases resolveStruct graph file r with
      | none => exact .refl _ _
      | some found =>
        obtain ⟨m, s⟩ := found
        exact readStruct_extends (fun version type =>
          readInto_extends (ih m) (some version) type) _
    | union r =>
      unfold readX
      cases resolveUnion graph file r with
      | none => exact .refl _ _
      | some found =>
        obtain ⟨m, u⟩ := found
        exact readUnion_extends (fun type => readInto_extends (ih m) none type) _

theorem readX_extends_add (n more : Nat) (file : Module) (r : EmbedRef) :
    Extends .outOfFuel (readX graph msg n file r) (readX graph msg (n + more) file r) := by
  induction more with
  | zero => exact .refl _ _
  | succ more ih => exact ih.trans (readX_extends (n + more) file r)

end Extends

/-! ### The reader of a method -/

/-- The reading half of a method, with at most `n` calls of `ReadX` nested in one another. -/
def readParamsNested (graph : List Module) (msg : Message) (n : Nat) (file : Module) :
    List Param → Reader (List Val)
  | [] => pure []
  | p :: ps => do
    let v ← readInto graph msg file (readX graph msg n file) none p.type
    let vs ← readParamsNested graph msg n file ps
    pure (v :: vs)

theorem readParamsNested_extends (n more : Nat) (params : List Param) :
    Extends .outOfFuel (readParamsNested graph msg n file params)
      (readParamsNested graph msg (n + more) file params) := by
  induction params with
  | nil => exact .refl _ _
  | cons p ps ih =>
    have hread : Extends .outOfFuel (readInto graph msg file (readX graph msg n file) none p.type)
        (readInto graph msg file (readX graph msg (n + more) file) none p.type) :=
      readInto_extends (readX_extends_add n more file) none p.type
    exact hread.bind (fun _ => ih.bind (fun _ => .refl _ _))

theorem readParamsNested_progress {n : Nat} (hn : msg.payload.length < 8 * n)
    (params : List Param) : Progress msg 0 (readParamsNested graph msg n file params) := by
  induction params with
  | nil => exact .pure _
  | cons p ps ih =>
    have hX : ∀ r, Progress msg 0 (readX graph msg n file r) :=
      fun r => Progress.readX graph (Nat.zero_le _) (by omega) file r
    have hread : Progress msg 0 (readInto graph msg file (readX graph msg n file) none p.type) :=
      (Progress.sequential msg 0).readInto hX none p.type
    exact hread.bind (fun _ => ih.bind (fun _ => .pure _))

theorem readParams_eq_nested (params : List Param) :
    readParams graph msg file params =
      readParamsNested graph msg (msg.payload.length + 1) file params := by
  induction params with
  | nil => rfl
  | cons p ps ih =>
    unfold readParams readParamsNested
    rw [ih]
    rfl

theorem readParamsNested_ne_outOfFuel {n : Nat} (hn : msg.payload.length < 8 * n)
    (params : List Param) (c c' : Cursor) :
    readParamsNested graph msg n file params c ≠ .error .outOfFuel c' := by
  intro h
  have hrun : Progress msg 0 (readParamsNested graph msg n file params) :=
    readParamsNested_progress hn params
  have := hrun c (Nat.zero_le _)
  rw [h] at this
  exact this rfl

end Voodoo
