import Mathlib.Data.List.Induction
import Voodoo.Bruja.Conversions

/-!
# The arguments of a callback

How the callback of a method binds the arguments of a call to the parameters of the method, in the
two backends.  `EmitParamConversions` emits a statement for each parameter, and the variable that
the statement declares stands for the parameter in the call of the implementation.

* `callback_bindsAsDeclared`: with nothing behind a variadic parameter a callback binds as declared;
* `bindsAsDeclared_iff`: the callbacks bind as declared if and only if no parameter but the last
  one is variadic, which the grammar does not ask for.
-/

namespace Voodoo.Bruja

open List

/-! ### What is emitted -/

/-- `Param`, with its `default_literal` if it has one. -/
structure DeclaredParam extends Param where
  defaultLiteral : Option String

/-- `param.has_default ? param.default_literal : "{}"` -/
def DeclaredParam.initializer (p : DeclaredParam) : String := p.defaultLiteral.getD "{}"

/-- The statements for one parameter, which declare the variable `name`. -/
inductive ParamCode where
  /-- `argv[i]` is converted. -/
  | required (name : String) (i : Nat)
  /-- `T name = initializer;`, and if `argc > i` then `argv[i]` is converted and moved to it. -/
  | optional (name initializer : String) (i : Nat)
  /-- `for (int name_i = i; name_i < argc; ++name_i)`, where `argv[name_i]` is converted and
  pushed back. -/
  | variadic (name : String) (i : Nat)

/-- One turn of the loop of `EmitParamConversions`. -/
def paramCode (i : Nat) (p : DeclaredParam) : ParamCode :=
  if p.variadic then .variadic p.name i
  else if p.optional then .optional p.name p.initializer i
  else .required p.name i

/-- `EmitParamConversions` of the quickjs backend, from the parameter `i` on. -/
def emitParamConversions : Nat → List DeclaredParam → List ParamCode
  | _, [] => []
  | i, p :: rest => paramCode i p :: emitParamConversions (i + 1) rest

/-- `EmitParamConversions` of the V8 backend. -/
def emitParamConversionsV8 : Nat → List DeclaredParam → List ParamCode
  | _, [] => []
  | i, p :: rest =>
    -- `break;  // variadic is always last`
    if p.variadic then [paramCode i p]
    else paramCode i p :: emitParamConversionsV8 (i + 1) rest

/-- A callback: the number of arguments it asks for, and the statements for the parameters. -/
structure Callback where
  required : Nat
  params : List ParamCode

/-- `EmitMethodCallback` of the quickjs backend. -/
def emitMethodCallback (params : List DeclaredParam) : Callback :=
  ⟨requiredArgCount (params.map DeclaredParam.toParam), emitParamConversions 0 params⟩

/-- `EmitMethodCallback` of the V8 backend. -/
def emitMethodCallbackV8 (params : List DeclaredParam) : Callback :=
  ⟨requiredArgCount (params.map DeclaredParam.toParam), emitParamConversionsV8 0 params⟩

/-! ### A call -/

/-- What a variable holds when the implementation is called. -/
inductive Bound where
  | argument (i : Nat)
  | initial (initializer : String)
  | collected (indices : List Nat)
  deriving DecidableEq

/-- The arguments that have been read for it. -/
def Bound.reads : Bound → List Nat
  | argument i => [i]
  | initial _ => []
  | collected indices => indices

def ParamCode.run (argc : Nat) : ParamCode → Bound
  | required _ i => .argument i
  | optional _ initializer i => if i < argc then .argument i else .initial initializer
  | variadic _ i => .collected (List.range' i (argc - i))

/-- A call with `argc` arguments: what the implementation is called with, unless the callback
rejects the call. -/
def Callback.call (c : Callback) (argc : Nat) : Option (List Bound) :=
  if argc < c.required then none else some (c.params.map (ParamCode.run argc))

/-! ### As declared -/

/-- What the parameter at `k` is to hold. -/
def DeclaredParam.bound (argc k : Nat) (p : DeclaredParam) : Bound :=
  if p.variadic then .collected (List.range' k (argc - k))
  else if k < argc then .argument k
  else .initial p.initializer

/-- One value for each parameter in order, nothing read at `argc` or above, and no argument read
for two parameters. -/
structure BindsAsDeclared (params : List DeclaredParam) (argc : Nat)
    (args : List Bound) : Prop where
  length_eq : args.length = params.length
  reads_lt : ∀ b ∈ args, ∀ i ∈ b.reads, i < argc
  bound : ∀ k (p : DeclaredParam), params[k]? = some p → args[k]? = some (p.bound argc k)
  once : args.Pairwise fun a b => ∀ i ∈ a.reads, i ∉ b.reads

/-- No parameter but the last one is variadic. -/
def VariadicLast (params : List DeclaredParam) : Prop :=
  ∀ k (p : DeclaredParam), params[k]? = some p → p.variadic = true → k + 1 = params.length

/-- A callback binds as declared in every call that it does not reject. -/
def Callback.Right (params : List DeclaredParam) (c : Callback) : Prop :=
  ∀ argc args, c.call argc = some args → BindsAsDeclared params argc args

/-! ### The count of the required arguments -/

theorem lt_requiredArgCount {params : List Param} {k : Nat} {p : Param} (hp : params[k]? = some p)
    (hreq : (p.optional || p.variadic) = false) : k < requiredArgCount params := by
  rw [requiredArgCount]
  induction params using List.reverseRecOn with
  | nil => cases hp
  | append_singleton rest q ih =>
    rw [reverse_append, reverse_singleton, singleton_append]
    by_cases hq : (q.optional || q.variadic) = true
    · rw [dropWhile_cons, if_pos hq]
      refine ih ?_
      have hk : k < rest.length := by
        by_contra hle
        obtain ⟨hlt, -⟩ := List.getElem?_eq_some_iff.mp hp
        have hkr : k = rest.length := by simp at hlt; omega
        rw [hkr, getElem?_concat_length] at hp
        obtain rfl := Option.some.inj hp
        rw [hreq] at hq
        cases hq
      rwa [getElem?_append_left hk] at hp
    · rw [dropWhile_cons, if_neg hq]
      obtain ⟨hlt, -⟩ := List.getElem?_eq_some_iff.mp hp
      simpa using hlt

/-! ### The loops -/

theorem length_emitParamConversions (i : Nat) (params : List DeclaredParam) :
    (emitParamConversions i params).length = params.length := by
  induction params generalizing i with
  | nil => rfl
  | cons p rest ih => exact congrArg (· + 1) (ih (i + 1))

theorem getElem?_emitParamConversions (i : Nat) (params : List DeclaredParam) (k : Nat) :
    (emitParamConversions i params)[k]? = params[k]?.map (paramCode (i + k)) := by
  induction params generalizing i k with
  | nil => rfl
  | cons p rest ih =>
    cases k with
    | zero => rfl
    | succ k =>
      rw [emitParamConversions, getElem?_cons_succ, getElem?_cons_succ, ih,
        Nat.add_right_comm, Nat.add_assoc]

theorem emitParamConversionsV8_eq (i : Nat) {params : List DeclaredParam}
    (h : VariadicLast params) :
    emitParamConversionsV8 i params = emitParamConversions i params := by
  induction params generalizing i with
  | nil => rfl
  | cons p rest ih =>
    rw [emitParamConversionsV8, emitParamConversions]
    by_cases hp : p.variadic = true
    · have hrest : rest = [] := eq_nil_of_length_eq_zero (Nat.succ.inj (h 0 p rfl hp)).symm
      rw [if_pos hp, hrest]
      rfl
    · rw [if_neg hp, ih (i + 1) fun k q hq hv => Nat.succ.inj (h (k + 1) q hq hv)]

theorem length_emitParamConversionsV8 (i : Nat) {params : List DeclaredParam} {k : Nat}
    {p : DeclaredParam} (hp : params[k]? = some p) (hv : p.variadic = true) :
    (emitParamConversionsV8 i params).length ≤ k + 1 := by
  induction params generalizing i k with
  | nil => cases hp
  | cons q rest ih =>
    rw [emitParamConversionsV8]
    by_cases hq : q.variadic = true
    · rw [if_pos hq]
      exact Nat.succ_le_succ (Nat.zero_le k)
    · rw [if_neg hq, length_cons]
      cases k with
      | zero =>
        obtain rfl := Option.some.inj hp
        exact absurd hv hq
      | succ k => exact Nat.succ_le_succ (ih (i + 1) hp)

/-! ### The callbacks -/

section

variable {params : List DeclaredParam} {argc : Nat}

theorem run_paramCode {k : Nat} {p : DeclaredParam} (hp : params[k]? = some p)
    (hargc : requiredArgCount (params.map DeclaredParam.toParam) ≤ argc) :
    (paramCode k p).run argc = p.bound argc k := by
  rw [paramCode, DeclaredParam.bound]
  by_cases hv : p.variadic = true
  · rw [if_pos hv, if_pos hv]
    rfl
  · rw [if_neg hv, if_neg hv]
    by_cases ho : p.optional = true
    · rw [if_pos ho]
      rfl
    · have hk : k < requiredArgCount (params.map DeclaredParam.toParam) := by
        refine lt_requiredArgCount (by rw [getElem?_map, hp]; rfl) ?_
        rw [Bool.eq_false_iff.mpr ho, Bool.eq_false_iff.mpr hv]
        rfl
      rw [if_neg ho, if_pos (Nat.lt_of_lt_of_le hk hargc)]
      rfl

theorem reads_bound_lt {k : Nat} {p : DeclaredParam} : ∀ i ∈ (p.bound argc k).reads, i < argc := by
  intro i hi
  rw [DeclaredParam.bound] at hi
  split at hi
  · obtain ⟨j, hj, rfl⟩ := mem_range'.mp hi
    omega
  · split at hi
    · rw [mem_singleton.mp hi]
      assumption
    · exact (not_mem_nil hi).elim

theorem reads_bound {k : Nat} {p : DeclaredParam} {i : Nat} (hi : i ∈ (p.bound argc k).reads) :
    i = k ∨ p.variadic = true ∧ k ≤ i := by
  rw [DeclaredParam.bound] at hi
  split at hi
  · rename_i hv
    obtain ⟨j, -, rfl⟩ := mem_range'.mp hi
    exact .inr ⟨hv, by omega⟩
  · split at hi
    · exact .inl (mem_singleton.mp hi)
    · exact (not_mem_nil hi).elim

/-- **Binding.** -/
theorem callback_bindsAsDeclared (h : VariadicLast params) :
    (emitMethodCallback params).Right params := by
  intro argc args hcall
  rw [Callback.call] at hcall
  split at hcall
  · cases hcall
  rename_i hargc
  obtain rfl := Option.some.inj hcall
  have hbound : ∀ k (p : DeclaredParam), params[k]? = some p →
      ((emitParamConversions 0 params).map (ParamCode.run argc))[k]? = some (p.bound argc k) := by
    intro k p hp
    rw [getElem?_map, getElem?_emitParamConversions, hp, Nat.zero_add]
    exact congrArg some (run_paramCode hp (Nat.le_of_not_lt hargc))
  have hlength : ((emitParamConversions 0 params).map (ParamCode.run argc)).length =
      params.length := by
    rw [length_map, length_emitParamConversions]
  have hget : ∀ k b, ((emitParamConversions 0 params).map (ParamCode.run argc))[k]? = some b →
      ∃ p : DeclaredParam, params[k]? = some p ∧ b = p.bound argc k := by
    intro k b hb
    obtain ⟨hk, -⟩ := List.getElem?_eq_some_iff.mp hb
    have hp := getElem?_eq_getElem (hlength ▸ hk)
    exact ⟨_, hp, Option.some.inj (hb.symm.trans (hbound k _ hp))⟩
  refine ⟨hlength, ?_, hbound, ?_⟩
  · intro b hb
    obtain ⟨k, hk⟩ := getElem?_of_mem hb
    obtain ⟨p, -, rfl⟩ := hget k b hk
    exact reads_bound_lt
  · rw [pairwise_iff_getElem]
    intro k l hk hl hkl i hik hil
    obtain ⟨p, hp, hpb⟩ := hget k _ (getElem?_eq_getElem hk)
    obtain ⟨q, hq, hqb⟩ := hget l _ (getElem?_eq_getElem hl)
    simp only [hpb] at hik
    simp only [hqb] at hil
    -- an argument of both would be behind `k`, which is not the last position
    have hl' : l ≤ i := by rcases reads_bound hil with rfl | ⟨-, hle⟩ <;> omega
    rcases reads_bound hik with rfl | ⟨hv, -⟩
    · omega
    · have hlast := h k p hp hv
      obtain ⟨hl, -⟩ := List.getElem?_eq_some_iff.mp hq
      omega

theorem callbackV8_bindsAsDeclared (h : VariadicLast params) :
    (emitMethodCallbackV8 params).Right params := by
  rw [emitMethodCallbackV8, emitParamConversionsV8_eq 0 h]
  exact callback_bindsAsDeclared h

/-- **The callbacks of the two backends bind as declared if and only if no parameter but the last
one is variadic.** -/
theorem bindsAsDeclared_iff (params : List DeclaredParam) :
    (emitMethodCallback params).Right params ∧ (emitMethodCallbackV8 params).Right params ↔
      VariadicLast params := by
  constructor
  · rintro ⟨-, hv8⟩ k p hp hv
    have hcall := hv8 _ _ (if_neg (Nat.lt_irrefl _))
    have hle := length_emitParamConversionsV8 0 hp hv
    have hlength := hcall.length_eq
    rw [length_map] at hlength
    obtain ⟨hk, -⟩ := List.getElem?_eq_some_iff.mp hp
    have : params.length ≤ k + 1 := hlength ▸ hle
    omega
  · exact fun h => ⟨callback_bindsAsDeclared h, callbackV8_bindsAsDeclared h⟩

end

/-- `long... xs, long y` -/
def spreadParams : List DeclaredParam :=
  [⟨⟨.plain .long false, "xs", false, true⟩, none⟩, ⟨⟨.plain .long false, "y", false, false⟩, none⟩]

/-- Of two arguments the quickjs callback binds the second one to both parameters, and the V8
callback passes one value for the two. -/
theorem spreadParams_not_right :
    (emitMethodCallback spreadParams).call 2 = some [.collected [0, 1], .argument 1] ∧
    (emitMethodCallbackV8 spreadParams).call 2 = some [.collected [0, 1]] ∧
    ¬ (emitMethodCallback spreadParams).Right spreadParams ∧
    ¬ (emitMethodCallbackV8 spreadParams).Right spreadParams := by
  have hquickjs : (emitMethodCallback spreadParams).call 2 =
      some [.collected [0, 1], .argument 1] := by decide
  have hv8 : (emitMethodCallbackV8 spreadParams).call 2 = some [.collected [0, 1]] := by decide
  refine ⟨hquickjs, hv8, fun h => ?_, fun h => ?_⟩
  · have hone := (h 2 _ hquickjs).once
    rw [pairwise_pair] at hone
    exact hone 1 (by decide) (by decide)
  · exact absurd (h 2 _ hv8).length_eq (by decide)

end Voodoo.Bruja
