import Mathlib.Data.List.Basic

/-!
# Values of the generated C++ types

`Val` is what a variable of a generated type holds at run time, for all types at
once: the declarations say which of these shapes a type has, the C++ compiler
checks it, and `HasType` (`Voodoo.Wire.Typing`) restates it.

The members of a struct are listed in declaration order.  A map is listed in
the order its iterator visits it, which `CageMap` leaves open, so a fact about
every listing is a fact about every iteration order.  A handle kind that may be
absent uses `null` for the invalid object and `some` for a valid one.
-/

namespace Voodoo

/-- What travels beside the payload: an entry of the core's handle table. -/
abbrev Handle := Nat

inductive Val where
  /-- The bit pattern of a scalar, `float` and `double` included. -/
  | scalar (bits : Nat)
  | string (bytes : List UInt8)
  | enum (value : BitVec 32)
  | struct (members : List Val)
  /-- A union whose `which()` is `tag`, with the member that tag selects. -/
  | union (tag : BitVec 32) (value : Val)
  /-- A union whose `which()` is `Tag::kUnknown`. -/
  | unknown
  | array (elements : List Val)
  | map (entries : List (Val × Val))
  | handle (handle : Handle)
  | pendingRemote (pipe : Handle) (version : UInt32)
  | endpoint (iid : UInt32)
  | endpointRemote (iid version : UInt32)
  | null
  | some (value : Val)
  deriving Inhabited

namespace Val

@[elab_as_elim]
theorem nested {P : Val → Prop} (scalar : ∀ bits, P (.scalar bits))
    (string : ∀ bytes, P (.string bytes)) (enum : ∀ value, P (.enum value))
    (struct : ∀ members, (∀ m ∈ members, P m) → P (.struct members))
    (union : ∀ tag value, P value → P (.union tag value)) (unknown : P .unknown)
    (array : ∀ elements, (∀ e ∈ elements, P e) → P (.array elements))
    (map : ∀ entries, (∀ e ∈ entries, P e.1 ∧ P e.2) → P (.map entries))
    (handle : ∀ handle, P (.handle handle))
    (pendingRemote : ∀ pipe version, P (.pendingRemote pipe version))
    (endpoint : ∀ iid, P (.endpoint iid))
    (endpointRemote : ∀ iid version, P (.endpointRemote iid version)) (null : P .null)
    (some : ∀ value, P value → P (.some value)) (v : Val) : P v :=
  @Val.rec P (fun vs => ∀ v ∈ vs, P v) (fun es => ∀ e ∈ es, P e.1 ∧ P e.2)
    (fun e => P e.1 ∧ P e.2) scalar string enum struct union unknown array map handle
    pendingRemote endpoint endpointRemote null some (fun _ h => absurd h List.not_mem_nil)
    (fun _ _ hv hvs => List.forall_mem_cons.mpr ⟨hv, hvs⟩)
    (fun _ h => absurd h List.not_mem_nil)
    (fun _ _ he hes => List.forall_mem_cons.mpr ⟨he, hes⟩) (fun _ _ h₁ h₂ => ⟨h₁, h₂⟩) v

/-! ### Equality of keys -/

mutual

/-- `operator==`, which `CageMap` compares keys with. -/
def beq : Val → Val → Bool
  | .scalar a, .scalar b => a == b
  | .string a, .string b => a == b
  | .enum a, .enum b => a == b
  | .struct as, .struct bs => beqList as bs
  | .union s a, .union t b => s == t && beq a b
  | .unknown, .unknown => true
  | .array as, .array bs => beqList as bs
  | .map as, .map bs => beqEntries as bs
  | .handle a, .handle b => a == b
  | .pendingRemote a s, .pendingRemote b t => a == b && s == t
  | .endpoint a, .endpoint b => a == b
  | .endpointRemote a s, .endpointRemote b t => a == b && s == t
  | .null, .null => true
  | .some a, .some b => beq a b
  | _, _ => false

def beqList : List Val → List Val → Bool
  | [], [] => true
  | a :: as, b :: bs => beq a b && beqList as bs
  | _, _ => false

def beqEntries : List (Val × Val) → List (Val × Val) → Bool
  | [], [] => true
  | a :: as, b :: bs => beqEntry a b && beqEntries as bs
  | _, _ => false

def beqEntry : Val × Val → Val × Val → Bool
  | (a, s), (b, t) => beq a b && beq s t

end

theorem beqList_iff {as : List Val} (h : ∀ a ∈ as, ∀ b, beq a b = true ↔ a = b) :
    ∀ bs, beqList as bs = true ↔ as = bs := by
  induction as with
  | nil => intro bs; cases bs <;> simp [beqList]
  | cons a as ih =>
    intro bs
    obtain ⟨ha, has⟩ := List.forall_mem_cons.mp h
    cases bs with
    | nil => simp [beqList]
    | cons b bs => rw [beqList, Bool.and_eq_true, ha b, ih has bs, List.cons.injEq]

theorem beqEntries_iff {as : List (Val × Val)}
    (h : ∀ a ∈ as, (∀ b, beq a.1 b = true ↔ a.1 = b) ∧ ∀ b, beq a.2 b = true ↔ a.2 = b) :
    ∀ bs, beqEntries as bs = true ↔ as = bs := by
  induction as with
  | nil => intro bs; cases bs <;> simp [beqEntries]
  | cons a as ih =>
    intro bs
    obtain ⟨⟨hk, hv⟩, has⟩ := List.forall_mem_cons.mp h
    cases bs with
    | nil => simp [beqEntries]
    | cons b bs =>
      obtain ⟨k, v⟩ := a
      obtain ⟨k', v'⟩ := b
      rw [beqEntries, beqEntry, Bool.and_eq_true, Bool.and_eq_true, hk k', hv v', ih has bs,
        List.cons.injEq, Prod.mk.injEq]

theorem beq_iff (a b : Val) : beq a b = true ↔ a = b := by
  induction a using nested generalizing b with
  | struct ms ih => cases b <;> simp [beq, beqList_iff (fun m hm b => ih m hm b)]
  | array es ih => cases b <;> simp [beq, beqList_iff (fun m hm b => ih m hm b)]
  | map es ih =>
    cases b <;> simp [beq, beqEntries_iff (fun e he => ⟨(ih e he).1, (ih e he).2⟩)]
  | union t v ih => cases b <;> simp [beq, ih]
  | some v ih => cases b <;> simp [beq, ih]
  | _ => cases b <;> simp [beq]

instance : DecidableEq Val := fun a b => decidable_of_iff _ (beq_iff a b)

end Val

/-- `CageMap::emplace`: a key already present keeps the value it has. -/
def emplace (entries : List (Val × Val)) (key value : Val) : List (Val × Val) :=
  if key ∈ entries.map Prod.fst then entries else entries ++ [(key, value)]

theorem emplace_of_notMem {entries : List (Val × Val)} {key : Val}
    (h : key ∉ entries.map Prod.fst) (value : Val) :
    emplace entries key value = entries ++ [(key, value)] := if_neg h

theorem length_emplace_le (entries : List (Val × Val)) (key value : Val) :
    (emplace entries key value).length ≤ entries.length + 1 := by
  unfold emplace
  split
  · omega
  · exact Nat.le_of_eq List.length_append

end Voodoo
