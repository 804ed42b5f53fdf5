import Voodoo.Wire.Read

/-!
# What every run of a generated reader keeps

A relation between cursors that is kept by the primitive reads is kept by every
generated reader, whatever the bytes are (`Steps.readValue`).

The offset is not such a relation: a reader jumps.  But a struct or union is
jumped out of to a place behind its header and inside the payload, so a read as a
whole moves the offset forward and ends inside the payload (`Progress`).  Each
nested call starts behind the header of the one around it, which is why the
recursion bound of `readValue` is never reached (`readValue_ne_outOfFuel`).
-/

namespace Voodoo

open LittleEndian EState

variable {α β : Type}

/-! ### Reading in sequence -/

/-- A property of readers that the primitive reads have and that sequencing keeps. -/
structure Sequential (msg : Message) (Q : ∀ {α : Type}, Reader α → Prop) : Prop where
  pure : ∀ {α : Type} (a : α), Q (pure a)
  bind : ∀ {α β : Type} {x : Reader α} {f : α → Reader β}, Q x → (∀ a, Q (f a)) → Q (x >>= f)
  returnFalse : ∀ {α : Type}, Q (returnFalse : Reader α)
  readScalar : ∀ width, Q (readScalar msg width)
  readBytes : ∀ len, Q (readBytes msg len)
  takeHandle : Q (takeHandle msg)

namespace Sequential

variable {msg : Message} {Q : ∀ {α : Type}, Reader α → Prop} (h : Sequential msg Q)

include h

theorem readBool : Q (readBool msg) := by
  rw [Voodoo.readBool, map_eq_bind]
  exact h.bind (h.readScalar 1) (fun _ => h.pure _)

theorem readString : Q (readString msg) := h.bind (h.readScalar 4) h.readBytes

theorem readHandleInto (kind : HandleKind) : Q (readHandleInto msg kind) := by
  unfold Voodoo.readHandleInto
  split
  · exact h.bind (h.readScalar 4) (fun _ => h.bind (h.readScalar 4) (fun _ => h.pure _))
  · exact h.bind (h.readScalar 4) (fun _ => h.pure _)
  · exact h.bind (h.readScalar 4) (fun _ => h.bind h.takeHandle (fun _ => h.pure _))
  · exact h.bind h.takeHandle (fun _ => h.pure _)

theorem readCount (n : Nat) : Q (readCount msg n) := by
  unfold Voodoo.readCount
  split
  · exact h.readScalar 4
  · exact h.pure _

theorem readElements {element : Reader Val} (he : Q element) (n : Nat) :
    Q (readElements element n) := by
  induction n with
  | zero => exact h.pure _
  | succ n ih => exact h.bind he (fun _ => h.bind ih (fun _ => h.pure _))

theorem readEntries {key element : Reader Val} (hk : Q key) (he : Q element) (n : Nat)
    (entries : List (Val × Val)) : Q (readEntries key element n entries) := by
  induction n generalizing entries with
  | zero => exact h.pure _
  | succ n ih => exact h.bind hk (fun _ => h.bind he (fun _ => ih _))

theorem readInto {graph : List Module} {file : Module} {readX : EmbedRef → Reader Val}
    (hX : ∀ r, Q (readX r)) (version : Option Nat) (type : TypeSpec) :
    Q (readInto graph msg file readX version type) := by
  induction type with
  | scalar kind =>
    cases kind with
    | bool => exact h.bind h.readBool (fun _ => h.pure _)
    | _ => exact h.bind (h.readScalar _) (fun _ => h.pure _)
  | string => exact h.bind h.readString (fun _ => h.pure _)
  | enumRef r =>
    refine h.bind (h.readScalar 4) (fun n => ?_)
    split
    · exact h.pure _
    · exact h.returnFalse
  | structRef r => exact hX (.struct r)
  | unionRef r => exact hX (.union r)
  | array element n ih =>
    exact h.bind (h.readCount n) (fun _ => h.bind (h.readElements ih _) (fun _ => h.pure _))
  | map key element ihk ihe =>
    exact h.bind (h.readScalar 4) (fun _ => h.bind (h.readEntries ihk ihe _ _) (fun _ => h.pure _))
  | handle kind interface => exact h.readHandleInto kind
  | nullable type ih =>
    refine h.bind h.readBool (fun has => ?_)
    split
    · exact h.bind ih (fun _ => h.pure _)
    · exact h.pure _

theorem readFields {s : StructDecl} {version : Nat} {read : TypeSpec → Reader Val}
    (hread : ∀ type, Q (read type)) (is : List Nat) (out : List Val) :
    Q (readFields s version read is out) := by
  induction is generalizing out with
  | nil => exact h.pure _
  | cons i is ih =>
    unfold Voodoo.readFields
    split
    · exact ih out
    · split
      · exact h.bind (hread _) (fun _ => ih _)
      · exact ih out

end Sequential

/-! ### Relations the primitive reads keep -/

/-- A relation between cursors that no primitive read leaves. -/
structure Steps (msg : Message) (R : Cursor → Cursor → Prop) : Prop where
  refl : ∀ c, R c c
  trans : ∀ a b c, R a b → R b c → R a c
  load : ∀ c width, c.offset + width ≤ msg.payloadNumBytes →
    R c { c with offset := c.offset + width, trace := c.trace ++ [.load c.offset width] }
  take : ∀ c, R c { c with handleIdx := c.handleIdx + 1 }
  jump : ∀ c stop, R c { c with offset := stop, trace := c.trace ++ [.jump c.offset stop] }

namespace Steps

variable {msg : Message} {R : Cursor → Cursor → Prop} (h : Steps msg R)

include h

theorem sequential : Sequential msg (fun {α} (x : Reader α) => Preserves R x) where
  pure a := Preserves.pure h.refl a
  bind hx hf := Preserves.bind h.trans hx hf
  returnFalse c := h.refl c
  readScalar width c := by
    unfold readScalar
    split
    · exact h.refl c
    · exact h.load c width (Nat.le_of_not_lt ‹_›)
  readBytes len c := by
    unfold readBytes
    split
    · exact h.refl c
    · exact h.load c len (Nat.le_of_not_lt ‹_›)
  takeHandle c := by
    unfold takeHandle
    cases msg.handles[c.handleIdx]? with
    | some k => exact h.take c
    | none => exact h.refl c

theorem jumpTo (stop : Nat) : Preserves R (jumpTo stop) := fun c => h.jump c stop

theorem currentOffset : Preserves R currentOffset := fun c => h.refl c

theorem readStruct {s : StructDecl} {read : Nat → TypeSpec → Reader Val}
    (hread : ∀ version type, Preserves R (read version type)) (out : List Val) :
    Preserves R (readStruct msg s read out) := by
  refine h.sequential.bind (h.sequential.readScalar 4) (fun _ => h.sequential.bind (h.sequential.readScalar 4) (fun _ => ?_))
  dsimp only
  split
  · exact h.sequential.returnFalse
  · refine h.sequential.bind h.currentOffset (fun _ => ?_)
    split
    · exact h.sequential.returnFalse
    · exact h.sequential.bind (h.sequential.readFields (hread _) _ _) (fun _ => h.sequential.bind (h.jumpTo _) (fun _ => h.sequential.pure _))

theorem readUnion {u : UnionDecl} {read : TypeSpec → Reader Val}
    (hread : ∀ type, Preserves R (read type)) (fresh : TypeSpec → Val) :
    Preserves R (readUnion msg u read fresh) := by
  refine h.sequential.bind (h.sequential.readScalar 4) (fun _ => ?_)
  dsimp only
  split
  · exact h.sequential.returnFalse
  · refine h.sequential.bind h.currentOffset (fun _ => ?_)
    split
    · exact h.sequential.returnFalse
    · refine h.sequential.bind (h.sequential.readScalar 4) (fun _ => ?_)
      split
      · exact h.sequential.bind (hread _) (fun _ => h.sequential.bind (h.jumpTo _) (fun _ => h.sequential.pure _))
      · split
        · exact h.sequential.bind (h.jumpTo _) (fun _ => h.sequential.pure _)
        · exact h.sequential.returnFalse

theorem readX (graph : List Module) (n : Nat) (file : Module) (r : EmbedRef) :
    Preserves R (readX graph msg n file r) := by
  induction n generalizing file r with
  | zero => exact fun c => h.refl c
  | succ n ih =>
    cases r with
    | struct r =>
      unfold Voodoo.readX
      split
      · exact h.readStruct (fun version type => h.sequential.readInto (ih _) (some version) type) _
      · exact h.sequential.returnFalse
    | union r =>
      unfold Voodoo.readX
      split
      · exact h.readUnion (fun type => h.sequential.readInto (ih _) none type) _
      · exact h.sequential.returnFalse

/-- **A relation the primitive reads keep is kept by every generated reader.** -/
theorem readValue (graph : List Module) (file : Module) (version : Option Nat) (type : TypeSpec) :
    Preserves R (readValue graph msg file version type) := h.sequential.readInto (h.readX graph _ file) version type

theorem readParams (graph : List Module) (file : Module) (params : List Param) :
    Preserves R (readParams graph msg file params) := by
  induction params with
  | nil => exact h.sequential.pure _
  | cons p ps ih =>
    exact h.sequential.bind (h.readValue graph file none p.type) (fun _ => h.sequential.bind ih (fun _ => h.sequential.pure _))

end Steps

/-! ### The frames -/

/-- The word at `off`. -/
def wordAt (msg : Message) (off : Nat) : Nat := load ((msg.payload.drop off).take 4)

/-- Where a reader is after the two words at its cursor. -/
def Cursor.pastWords (c : Cursor) : Cursor :=
  { c with
    offset := c.offset + 4 + 4
    trace := c.trace ++ [.load c.offset 4] ++ [.load (c.offset + 4) 4] }

theorem readScalar_word (msg : Message) (c : Cursor) :
    (∃ c', readScalar msg 4 c = .error .returnFalse c') ∨
      readScalar msg 4 c = .ok (wordAt msg c.offset)
        { c with offset := c.offset + 4, trace := c.trace ++ [.load c.offset 4] } := by
  unfold readScalar
  split
  · exact Or.inl ⟨c, rfl⟩
  · exact Or.inr rfl

theorem readStruct_cases (msg : Message) (s : StructDecl) (read : Nat → TypeSpec → Reader Val)
    (out : List Val) (c : Cursor) :
    (∃ c', readStruct msg s read out c = .error .returnFalse c') ∨
      ∃ version, 8 ≤ wordAt msg c.offset ∧
        c.offset + wordAt msg c.offset ≤ msg.payloadNumBytes ∧
        readStruct msg s read out c =
          (do
            let members ← readFields s version (read version) s.wireFieldOrder out
            jumpTo (c.offset + wordAt msg c.offset)
            pure (.struct members) : Reader Val) c.pastWords := by
  unfold readStruct
  rcases readScalar_word msg c with ⟨c', h₁⟩ | h₁
  · exact Or.inl ⟨c', by rw [run_bind, h₁]⟩
  · rw [bind_ok h₁]
    rcases readScalar_word msg { c with
      offset := c.offset + 4, trace := c.trace ++ [.load c.offset 4] } with ⟨c', h₂⟩ | h₂
    · exact Or.inl ⟨c', by rw [run_bind, h₂]⟩
    · rw [bind_ok h₂]
      by_cases hsize : wordAt msg c.offset < 8
      · exact Or.inl ⟨_, by rw [if_pos hsize]; rfl⟩
      · rw [if_neg hsize, bind_ok (x := currentOffset) rfl]
        have hend : c.offset + 4 + 4 - 8 + wordAt msg c.offset =
            c.offset + wordAt msg c.offset := by omega
        simp only [hend]
        by_cases hfit : c.offset + wordAt msg c.offset > msg.payloadNumBytes
        · exact Or.inl ⟨_, by rw [if_pos hfit]; rfl⟩
        · rw [if_neg hfit]
          exact Or.inr ⟨_, Nat.le_of_not_lt hsize, Nat.le_of_not_lt hfit, rfl⟩

/-- A union is refused for its header or its tag, or it is the member its tag selects and a jump to
its declared end, or, where the tag selects none, the jump alone. -/
theorem readUnion_cases (msg : Message) (u : UnionDecl) (read : TypeSpec → Reader Val)
    (fresh : TypeSpec → Val) (c : Cursor) :
    (∃ c', readUnion msg u read fresh c = .error .returnFalse c') ∨
      c.offset + 8 ≤ msg.payloadNumBytes ∧ 4 ≤ wordAt msg c.offset ∧
        c.offset + wordAt msg c.offset ≤ msg.payloadNumBytes ∧
        ((∃ f : UnionField, readUnion msg u read fresh c =
          (do
            let v ← read f.type
            jumpTo (c.offset + wordAt msg c.offset)
            pure (.union f.tag v) : Reader Val) c.pastWords) ∨
        readUnion msg u read fresh c =
          (do
            jumpTo (c.offset + wordAt msg c.offset)
            pure (unionFallback u fresh) : Reader Val) c.pastWords) := by
  unfold readUnion
  rcases readScalar_word msg c with ⟨c', h₁⟩ | h₁
  · exact Or.inl ⟨c', by rw [run_bind, h₁]⟩
  · rw [bind_ok h₁]
    by_cases hsize : wordAt msg c.offset < 4
    · exact Or.inl ⟨_, by rw [if_pos hsize]; rfl⟩
    · rw [if_neg hsize, bind_ok (x := currentOffset) rfl]
      have hend : c.offset + 4 - 4 + wordAt msg c.offset = c.offset + wordAt msg c.offset := by omega
      simp only [hend]
      by_cases hfit : c.offset + wordAt msg c.offset > msg.payloadNumBytes
      · exact Or.inl ⟨_, by rw [if_pos hfit]; rfl⟩
      · rw [if_neg hfit]
        rcases readScalar_word msg { c with
          offset := c.offset + 4, trace := c.trace ++ [.load c.offset 4] } with ⟨c', h₂⟩ | h₂
        · exact Or.inl ⟨c', by rw [run_bind, h₂]⟩
        · have hwords : c.offset + 8 ≤ msg.payloadNumBytes := (readScalar_eq_ok h₂).1
          have hle := Nat.le_of_not_lt hsize
          have hin := Nat.le_of_not_lt hfit
          rw [bind_ok h₂]
          dsimp only
          cases u.caseFor (BitVec.ofNat 32 (wordAt msg (c.offset + 4))) with
          | some f => exact Or.inr ⟨hwords, hle, hin, Or.inl ⟨f, rfl⟩⟩
          | none =>
            cases u.isExtensible with
            | true => exact Or.inr ⟨hwords, hle, hin, Or.inr rfl⟩
            | false => exact Or.inl ⟨_, rfl⟩

/-! ### Moving forward -/

/-- From `lo` on, `rd` as a whole moves the offset forward, ends inside the payload if it moves at
all, and does not exhaust its recursion bound. -/
def Progress (msg : Message) (lo : Nat) (rd : Reader α) : Prop :=
  ∀ c, lo ≤ c.offset → match rd c with
    | .ok _ c' =>
      c.offset ≤ c'.offset ∧ (c'.offset = c.offset ∨ c'.offset ≤ msg.payloadNumBytes)
    | .error e _ => e ≠ .outOfFuel

namespace Progress

variable {msg : Message} {lo : Nat}

theorem of_ok {rd : Reader α} (h : Progress msg lo rd) {c c' : Cursor} {a : α}
    (hc : lo ≤ c.offset) (hok : rd c = .ok a c') :
    c.offset ≤ c'.offset ∧ (c'.offset = c.offset ∨ c'.offset ≤ msg.payloadNumBytes) := by
  have := h c hc
  rwa [hok] at this

protected theorem pure (a : α) : Progress msg lo (pure a : Reader α) :=
  fun _ _ => ⟨Nat.le_refl _, Or.inl rfl⟩

theorem bind {x : Reader α} {f : α → Reader β} (hx : Progress msg lo x)
    (hf : ∀ a, Progress msg lo (f a)) : Progress msg lo (x >>= f) := by
  intro c hc
  have hxc := hx c hc
  rw [run_bind]
  cases h : x c with
  | error e c' => rw [h] at hxc; exact hxc
  | ok a c' =>
    rw [h] at hxc
    have hfc := hf a c' (hc.trans hxc.1)
    dsimp only
    cases h' : f a c' with
    | error e c'' => rw [h'] at hfc; exact hfc
    | ok b c'' =>
      rw [h'] at hfc
      obtain ⟨hle, hmove⟩ := hxc
      obtain ⟨hle', hmove'⟩ := hfc
      exact ⟨hle.trans hle', by omega⟩

theorem sequential (msg : Message) (lo : Nat) :
    Sequential msg (fun {α} (x : Reader α) => Progress msg lo x) where
  pure a := .pure a
  bind hx hf := hx.bind hf
  returnFalse _ _ := nofun
  readScalar width c _ := by
    unfold readScalar
    split
    · rename_i h; split at h <;> cases h
      exact ⟨Nat.le_add_right _ _, Or.inr (Nat.le_of_not_lt ‹_›)⟩
    · rename_i h; split at h <;> cases h
      nofun
  readBytes len c _ := by
    unfold readBytes
    split
    · rename_i h; split at h <;> cases h
      exact ⟨Nat.le_add_right _ _, Or.inr (Nat.le_of_not_lt ‹_›)⟩
    · rename_i h; split at h <;> cases h
      nofun
  takeHandle c _ := by
    unfold takeHandle
    cases msg.handles[c.handleIdx]? with
    | some k => exact ⟨Nat.le_refl _, Or.inl rfl⟩
    | none => exact nofun

theorem frame {rd : Reader α} {g : α → β} {c : Cursor} {stop : Nat} (hc : lo ≤ c.offset)
    (hrd : Progress msg (lo + 8) rd) (hle : c.offset ≤ stop) (hstop : stop ≤ msg.payloadNumBytes) :
    match (do let a ← rd; jumpTo stop; pure (g a) : Reader β) c.pastWords with
    | .ok _ c' =>
      c.offset ≤ c'.offset ∧ (c'.offset = c.offset ∨ c'.offset ≤ msg.payloadNumBytes)
    | .error e _ => e ≠ .outOfFuel := by
  have hpast : lo + 8 ≤ c.pastWords.offset := by
    show lo + 8 ≤ c.offset + 4 + 4
    omega
  have hrun := hrd c.pastWords hpast
  rw [run_bind]
  cases h : rd c.pastWords with
  | error e c' => rw [h] at hrun; exact hrun
  | ok a c' => exact ⟨hle, Or.inr hstop⟩

theorem readStruct {s : StructDecl} {read : Nat → TypeSpec → Reader Val}
    (hread : lo + 8 ≤ msg.payload.length →
      ∀ version type, Progress msg (lo + 8) (read version type)) (out : List Val) :
    Progress msg lo (readStruct msg s read out) := by
  intro c hc
  have hmod : msg.payloadNumBytes ≤ msg.payload.length := Nat.mod_le _ _
  rcases readStruct_cases msg s read out c with ⟨c', h⟩ | ⟨version, hsize, hstop, h⟩
  · rw [h]; exact nofun
  · rw [h]
    exact frame hc ((sequential msg _).readFields (hread (by omega) version) _ _) (Nat.le_add_right _ _) hstop

theorem readUnion {u : UnionDecl} {read : TypeSpec → Reader Val}
    (hread : lo + 8 ≤ msg.payload.length → ∀ type, Progress msg (lo + 8) (read type))
    (fresh : TypeSpec → Val) : Progress msg lo (readUnion msg u read fresh) := by
  intro c hc
  have hmod : msg.payloadNumBytes ≤ msg.payload.length := Nat.mod_le _ _
  rcases readUnion_cases msg u read fresh c with ⟨c', h⟩ | ⟨hwords, -, hstop, ⟨f, h⟩ | h⟩
  · rw [h]; exact nofun
  · rw [h]
    exact frame hc (hread (by omega) f.type) (Nat.le_add_right _ _) hstop
  · rw [h]
    exact ⟨Nat.le_add_right _ _, Or.inr hstop⟩

theorem readX (graph : List Module) {n lo : Nat} (hlo : lo ≤ msg.payload.length)
    (hn : msg.payload.length < lo + 8 * n) (file : Module) (r : EmbedRef) :
    Progress msg lo (readX graph msg n file r) := by
  induction n generalizing lo file r with
  | zero => omega
  | succ n ih =>
    cases r with
    | struct r =>
      unfold Voodoo.readX
      split
      · exact readStruct
          (fun hle version type =>
            (sequential msg _).readInto (ih hle (by omega) _) (some version) type) _
      · exact (sequential msg lo).returnFalse
    | union r =>
      unfold Voodoo.readX
      split
      · exact readUnion
          (fun hle type => (sequential msg _).readInto (ih hle (by omega) _) none type) _
      · exact (sequential msg lo).returnFalse

theorem readValue (graph : List Module) (file : Module) (version : Option Nat) (type : TypeSpec) :
    Progress msg 0 (readValue graph msg file version type) :=
  (sequential msg 0).readInto (readX graph (Nat.zero_le _) (by omega) file) version type

theorem readParams (graph : List Module) (file : Module) (params : List Param) :
    Progress msg 0 (readParams graph msg file params) := by
  induction params with
  | nil => exact .pure _
  | cons p ps ih => exact (readValue graph file none p.type).bind (fun _ => ih.bind (fun _ => .pure _))

end Progress

/-- **The recursion bound is never reached.** -/
theorem readValue_ne_outOfFuel (graph : List Module) (msg : Message) (file : Module)
    (version : Option Nat) (type : TypeSpec) (c c' : Cursor) :
    readValue graph msg file version type c ≠ .error .outOfFuel c' := by
  intro h
  have hrun : Progress msg 0 (readValue graph msg file version type) :=
    Progress.readValue graph file version type
  have := hrun c (Nat.zero_le _)
  rw [h] at this
  exact this rfl

theorem readParams_ne_outOfFuel (graph : List Module) (msg : Message) (file : Module)
    (params : List Param) (c c' : Cursor) :
    readParams graph msg file params c ≠ .error .outOfFuel c' := by
  intro h
  have hrun : Progress msg 0 (readParams graph msg file params) :=
    Progress.readParams graph file params
  have := hrun c (Nat.zero_le _)
  rw [h] at this
  exact this rfl

end Voodoo
