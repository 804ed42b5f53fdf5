import Mathlib.Data.String.Basic
import Mathlib.Logic.Function.Basic
import Voodoo.Compiler.Syntax
import Voodoo.Lib.FirstSeen

/-!
# Interned types

`type_intern.cc`: the key of a type, a declaration or a method, and the table that gives every key
its id.

The table is append-only.  As long as an id fits in its 32 bits, it is the number of the key by
first appearance (`canonical_iff`); key number `2 ^ 32` gets the id `0`, which is nobody's.
-/

namespace Voodoo

/-! ### Keys -/

/-- `QualName`. -/
def qualName (ns name : String) : String := if ns = "" then name else ns ++ "." ++ name

/-- `ns`: a reference without a namespace is to the file it is in. -/
def TypeRef.nsIn (target : TypeRef) (currentNs : String) : String :=
  if target.ownerNamespace = "" then currentNs else target.ownerNamespace

def ScalarKind.key : ScalarKind → String
  | .bool => "bool"
  | .int8 => "int8"
  | .uint8 => "uint8"
  | .int16 => "int16"
  | .uint16 => "uint16"
  | .int32 => "int32"
  | .uint32 => "uint32"
  | .int64 => "int64"
  | .uint64 => "uint64"
  | .float => "float"
  | .double => "double"

/-- `HandleKey` for a raw handle; the other kinds are bound to the interface `name`. -/
def HandleKind.key (name : String) : HandleKind → String
  | .pendingRemote => "pending_remote<" ++ name ++ ">"
  | .pendingReceiver => "pending_receiver<" ++ name ++ ">"
  | .pendingAssociatedRemote => "pending_associated_remote<" ++ name ++ ">"
  | .pendingAssociatedReceiver => "pending_associated_receiver<" ++ name ++ ">"
  | .handle => "handle"
  | .handleMessagePipe => "handle<message_pipe>"
  | .handleDataPipeConsumer => "handle<data_pipe_consumer>"
  | .handleDataPipeProducer => "handle<data_pipe_producer>"
  | .handleSharedBuffer => "handle<shared_buffer>"
  | .handlePlatform => "handle<platform>"

namespace Compiler

open List

/-- `TypeKey`.  An enum is named with its container, a struct and a union are not. -/
def TypeSpec.key (currentNs : String) : TypeSpec → String
  | .scalar kind => kind.key
  | .string => "string"
  | .ref .enum _ target =>
    let n := if target.ownerContainer = "" then target.name
      else target.ownerContainer ++ "." ++ target.name
    "enum:" ++ qualName (target.nsIn currentNs) n
  | .ref .struct _ target => "struct:" ++ qualName (target.nsIn currentNs) target.name
  | .ref .union _ target => "union:" ++ qualName (target.nsIn currentNs) target.name
  | .array element fixedArraySize =>
    let e := element.key currentNs
    if 0 < fixedArraySize then "array<" ++ e ++ "," ++ toString fixedArraySize ++ ">"
    else "array<" ++ e ++ ">"
  | .map key element => "map<" ++ key.key currentNs ++ "," ++ element.key currentNs ++ ">"
  | .handle kind _ interface => kind.key (qualName (interface.nsIn currentNs) interface.name)
  | .nullable type => type.key currentNs ++ "?"

/-- `NamedKey`. -/
def namedKey (ns name kind : String) : String := kind ++ ":" ++ qualName ns name

/-- `JoinParams`. -/
def joinParams (params : List Param) (ns : String) : String :=
  ",".intercalate (params.map fun p => p.type.key ns)

/-- `MethodKey`. -/
def methodKey (ns iface : String) (m : Method) : String :=
  "func " ++ qualName ns iface ++ "." ++ m.name ++ "(" ++ joinParams m.params ns ++ ")" ++
    match m.result with
    | some (success, error) => "->result<" ++ success.key ns ++ "," ++ error.key ns ++ ">"
    | none => if m.hasResponse then "->(" ++ joinParams m.responseParams ns ++ ")" else ""

/-! ### The table -/

/-- `by_key_` and `keys_`. -/
structure TypeIntern where
  byKey : String → Option UInt32 := fun _ => none
  keys : List String := []

namespace TypeIntern

def internKey (t : TypeIntern) (key : String) : UInt32 × TypeIntern :=
  match t.byKey key with
  | some id => (id, t)
  | none =>
    let id := UInt32.ofNat (t.keys.length + 1)
    (id, { byKey := Function.update t.byKey key (some id), keys := t.keys ++ [key] })

def intern (t : TypeIntern) (type : TypeSpec) (currentNs : String) : UInt32 × TypeIntern :=
  t.internKey (type.key currentNs)

def internNamed (t : TypeIntern) (ns name kind : String) : UInt32 × TypeIntern :=
  t.internKey (namedKey ns name kind)

def internMethod (t : TypeIntern) (ns iface : String) (m : Method) : UInt32 × TypeIntern :=
  t.internKey (methodKey ns iface m)

/-- `Key`. -/
def key (t : TypeIntern) (id : UInt32) : String :=
  if id = 0 ∨ t.keys.length < id.toNat then "" else t.keys.getD (id.toNat - 1) ""

/-! ### Runs -/

inductive Call where
  | internKey (key : String)
  | intern (type : TypeSpec) (currentNs : String)
  | internNamed (ns name kind : String)
  | internMethod (ns iface : String) (m : Method)

def Call.key : Call → String
  | .internKey key => key
  | .intern type currentNs => type.key currentNs
  | .internNamed ns name kind => namedKey ns name kind
  | .internMethod ns iface m => methodKey ns iface m

def call (t : TypeIntern) : Call → UInt32 × TypeIntern
  | .internKey key => t.internKey key
  | .intern type currentNs => t.intern type currentNs
  | .internNamed ns name kind => t.internNamed ns name kind
  | .internMethod ns iface m => t.internMethod ns iface m

/-- The table after `calls`. -/
def run (calls : List Call) : TypeIntern := calls.foldl (fun t c => (t.call c).2) {}

/-- The id that `c` returns after `before`. -/
def idBehind (before : List Call) (c : Call) : UInt32 := ((run before).call c).1

variable {calls l m : List Call} {a : Call} {ks : List String} {t : TypeIntern}

/-- "Every distinct shape gets exactly one canonical id": `l ++ [a] <+: calls` says that `a` is called
when `l` has been. -/
structure Canonical (calls : List Call) : Prop where
  identical {l m : List Call} {a b : Call} : l ++ [a] <+: calls → m ++ [b] <+: calls →
    (idBehind l a = idBehind m b ↔ a.key = b.key)
  numbered {l : List Call} {a : Call} : l ++ [a] <+: calls →
    (idBehind l a).toNat = FirstSeen.number (calls.map Call.key) a.key
  all {n : Nat} : (∃ l a, l ++ [a] <+: calls ∧ (idBehind l a).toNat = n) ↔
    1 ≤ n ∧ n ≤ FirstSeen.count (calls.map Call.key)
  kept {l m : List Call} {a : Call} : l ++ [a] <+: m → m <+: calls →
    (run m).key (idBehind l a) = a.key

/-- What the table is once the keys `ks` were interned. -/
structure Represents (t : TypeIntern) (ks : List String) : Prop where
  keys_eq : t.keys = FirstSeen.distinct ks
  byKey_eq (k : String) :
    t.byKey k = if k ∈ ks then some (UInt32.ofNat (FirstSeen.number ks k)) else none

theorem represents_nil : Represents {} [] := ⟨rfl, fun _ => rfl⟩

theorem Represents.internKey (h : t.Represents ks) (k : String) :
    (t.internKey k).1 = UInt32.ofNat (FirstSeen.number (ks ++ [k]) k) ∧
      (t.internKey k).2.Represents (ks ++ [k]) := by
  have hkept {k'} (hk' : k' ∈ ks) :
      FirstSeen.number (ks ++ [k]) k' = FirstSeen.number ks k' := FirstSeen.number_append hk'
  unfold TypeIntern.internKey
  by_cases hk : k ∈ ks
  · rw [h.byKey_eq, if_pos hk]
    refine ⟨by rw [hkept hk], ?_, fun k' => ?_⟩
    · rw [FirstSeen.distinct_concat, if_pos hk, h.keys_eq]
    · rw [h.byKey_eq]
      by_cases hk' : k' ∈ ks
      · rw [if_pos hk', if_pos (mem_append_left _ hk'), hkept hk']
      · have hne : k' ≠ k := fun he => hk' (he ▸ hk)
        rw [if_neg hk', if_neg (by simp [hk', hne])]
  · rw [h.byKey_eq, if_neg hk]
    have hid : t.keys.length + 1 = FirstSeen.number (ks ++ [k]) k := by
      rw [FirstSeen.number_concat_of_notMem hk, h.keys_eq]
      rfl
    refine ⟨congrArg UInt32.ofNat hid, ?_, fun k' => ?_⟩
    · rw [FirstSeen.distinct_concat, if_neg hk, h.keys_eq]
    · change Function.update t.byKey k (some (UInt32.ofNat (t.keys.length + 1))) k' = _
      rw [hid]
      by_cases he : k' = k
      · rw [he, Function.update_self, if_pos (mem_append_right _ mem_cons_self)]
      · rw [Function.update_of_ne he, h.byKey_eq]
        by_cases hk' : k' ∈ ks
        · rw [if_pos hk', if_pos (mem_append_left _ hk'), hkept hk']
        · rw [if_neg hk', if_neg (by simp [hk', he])]

theorem call_eq (t : TypeIntern) (c : Call) : t.call c = t.internKey c.key := by
  cases c with
  | internKey | intern | internNamed | internMethod => rfl

theorem run_concat (l : List Call) (c : Call) : run (l ++ [c]) = ((run l).internKey c.key).2 := by
  rw [run, foldl_append, ← call_eq]
  rfl

theorem represents_run (calls : List Call) : (run calls).Represents (calls.map Call.key) := by
  induction calls using reverseRecOn with
  | nil => exact represents_nil
  | append_singleton l c ih =>
    rw [run_concat, map_append]
    exact (ih.internKey c.key).2

/-! ### Ids -/

theorem mem_keys (h : l ++ [a] <+: calls) : a.key ∈ calls.map Call.key :=
  mem_map_of_mem (h.subset (mem_append_right _ mem_cons_self))

theorem idBehind_eq (h : l ++ [a] <+: calls) :
    idBehind l a = UInt32.ofNat (FirstSeen.number (calls.map Call.key) a.key) := by
  have ha := mem_keys (prefix_refl (l ++ [a]))
  obtain ⟨after, rfl⟩ := h
  rw [map_append, FirstSeen.number_append ha, map_append, idBehind, call_eq]
  exact ((represents_run l).internKey a.key).1

theorem exists_call {k : String} (h : k ∈ calls.map Call.key) :
    ∃ l a, l ++ [a] <+: calls ∧ a.key = k := by
  obtain ⟨a, ha, hk⟩ := mem_map.mp h
  obtain ⟨l, after, rfl⟩ := append_of_mem ha
  exact ⟨l, a, ⟨after, by rw [append_assoc]; rfl⟩, hk⟩

theorem toNat_idBehind (hcount : FirstSeen.count (calls.map Call.key) < 2 ^ 32)
    (h : l ++ [a] <+: calls) :
    (idBehind l a).toNat = FirstSeen.number (calls.map Call.key) a.key := by
  rw [idBehind_eq h, UInt32.toNat_ofNat']
  exact Nat.mod_eq_of_lt (Nat.lt_of_le_of_lt (FirstSeen.number_le (mem_keys h)) hcount)

theorem key_ofNat_number {k : String} (hk : k ∈ ks) (hcount : FirstSeen.count ks < 2 ^ 32)
    (h : t.Represents ks) : t.key (UInt32.ofNat (FirstSeen.number ks k)) = k := by
  have hle := FirstSeen.number_le hk
  have hid : (UInt32.ofNat (FirstSeen.number ks k)).toNat = FirstSeen.number ks k := by
    rw [UInt32.toNat_ofNat']
    exact Nat.mod_eq_of_lt (Nat.lt_of_le_of_lt hle hcount)
  have hzero : UInt32.ofNat (FirstSeen.number ks k) ≠ 0 := fun he =>
    Nat.succ_ne_zero _ (hid.symm.trans (congrArg UInt32.toNat he))
  have hfits : ¬ t.keys.length < FirstSeen.number ks k := by
    rw [h.keys_eq]
    exact Nat.not_lt.mpr hle
  unfold TypeIntern.key
  rw [hid, if_neg (not_or.mpr ⟨hzero, hfits⟩), h.keys_eq, getD_eq_getElem?_getD,
    FirstSeen.getElem?_number hk, Option.getD_some]

theorem count_mono (h : m <+: calls) :
    FirstSeen.count (m.map Call.key) ≤ FirstSeen.count (calls.map Call.key) := by
  obtain ⟨after, rfl⟩ := h
  rw [map_append]
  exact FirstSeen.count_le_append

/-- The key that comes `2 ^ 32`-th gets the id `0`. -/
theorem not_canonical (h : 2 ^ 32 ≤ FirstSeen.count (calls.map Call.key)) : ¬ Canonical calls := by
  intro hc
  obtain ⟨k, hk, hnumber⟩ := FirstSeen.exists_number_iff.mpr ⟨Nat.one_le_two_pow, h⟩
  obtain ⟨l, a, hcall, rfl⟩ := exists_call hk
  have hlt := UInt32.toNat_lt (idBehind l a)
  rw [hc.numbered hcall, hnumber] at hlt
  exact Nat.lt_irrefl _ hlt

theorem canonical_iff : Canonical calls ↔ FirstSeen.count (calls.map Call.key) < 2 ^ 32 := by
  refine ⟨fun h => Nat.lt_of_not_le fun hle => not_canonical hle h, fun hcount => ?_⟩
  refine ⟨fun {l m a b} hl hm => ?_, toNat_idBehind hcount, fun {n} => ?_, fun {l m a} hl hm => ?_⟩
  · rw [← UInt32.toNat_inj, toNat_idBehind hcount hl, toNat_idBehind hcount hm]
    exact FirstSeen.number_inj (mem_keys hl)
  · rw [← FirstSeen.exists_number_iff]
    constructor
    · rintro ⟨l, a, hcall, rfl⟩
      exact ⟨a.key, mem_keys hcall, (toNat_idBehind hcount hcall).symm⟩
    · rintro ⟨k, hk, rfl⟩
      obtain ⟨l, a, hcall, rfl⟩ := exists_call hk
      exact ⟨l, a, hcall, toNat_idBehind hcount hcall⟩
  · rw [idBehind_eq hl]
    exact key_ofNat_number (mem_keys hl) (Nat.lt_of_le_of_lt (count_mono hm) hcount)
      (represents_run m)

/-- Declarations of `2 ^ 32` structs. -/
theorem not_canonical_structs :
    ¬ Canonical ((range (2 ^ 32)).map fun n => .internNamed "" ("S" ++ toString n) "struct") := by
  refine not_canonical (Nat.le_of_eq ?_)
  rw [map_map, FirstSeen.count, FirstSeen.distinct_of_nodup, length_map, length_range]
  refine Nodup.map (fun i j h => ?_) nodup_range
  have hname : toString i = toString j :=
    (String.append_right_inj _).mp ((String.append_right_inj "struct:").mp h)
  have hdigits : Nat.toDigits 10 i = Nat.toDigits 10 j := String.ofList_injective hname
  rw [← Nat.ofDigitChars_ten_toDigits (n := i), hdigits, Nat.ofDigitChars_ten_toDigits]

end TypeIntern

end Compiler

end Voodoo
