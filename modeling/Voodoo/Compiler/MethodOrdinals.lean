import Voodoo.Compiler.Ordinals
import Voodoo.Compiler.Declarations

/-!
# Method ordinals

The methods of an interface are numbered by `@N`, before or after the parameters, or all
of them by their count.  The number is the name of the messages that are sent to the
method, and `Stub_::Accept` hands a message to the first method with its name, after the
two control messages.

An explicit number is never compared with another one and loses the bits from the 32nd
on before it is compared with the reserved names.  `OrdinalsGood` is the condition on the
numbers written under which each method gets its messages (`parseInterface_ordinals_iff`).
-/

namespace Voodoo.Compiler

open Std.Do Parse EState List

set_option mvcgen.warning false

/-! ### The numbers written -/

/-- The number written after the `@` of the method the parser is at. -/
def parseMethodNumber (env : Env) : Parse (Option Nat) := do
  let _ ← expectName "method name"
  let before ← get
  let _ ← parseOptionalOrdinal "ordinal number"
  let _ ← expect .lParen "'('"
  let _ ← parseParams env
  let after ← get
  return before.writtenOrdinal <|> after.writtenOrdinal

/-- The same for a declaration, which need not be a method. -/
def parseMemberNumber (env : Env) : Parse (Option (Option Nat)) := do
  let _ ← parseOptionalAttributes
  if ← atKeyword "enum" then return none
  else if ← atKeyword "struct" then return none
  else if ← atKeyword "union" then return none
  else if ← atKeyword "const" then return none
  else return some (← parseMethodNumber env)

def memberNumber (env : Env) (s : Parser) : Option (Option Nat) :=
  match parseMemberNumber env s with
  | .ok number _ => number
  | .error _ _ => none

/-- What stands before the declarations in the body. -/
def parseInterfaceHead (topAttrs : List ParsedAttribute) : Parse Interface := do
  let i ← topAttrs.foldlM parseInterfaceAttribute { name := "" }
  expectKeyword "interface"
  let i := { i with name := ← expectName "interface name" }
  let _ ← expect .lBrace "'\x7b'"
  return i

/-- The numbers written for the methods of the interface the parser is at. -/
def writtenOrdinals (env : Env) (topAttrs : List ParsedAttribute) (s : Parser) :
    List (Option Nat) :=
  match parseInterfaceHead topAttrs s with
  | .ok i t => (bodyNotes (memberNumber env) (parseInterfaceMember env) i t).filterMap id
  | .error _ _ => []

/-! ### The generated stub -/

def kRunMessageId : UInt32 := 0xFFFFFFFF

def kRunOrClosePipeMessageId : UInt32 := 0xFFFFFFFE

/-- Who a message is handed to. -/
inductive Handler where
  | queryVersion
  | requireVersion
  | method (index : Nat)
  | none

/-- `Stub_::Accept`. -/
def Interface.accept (i : Interface) (name : UInt32) : Handler :=
  if name = kRunMessageId then .queryVersion
  else if name = kRunOrClosePipeMessageId then .requireVersion
  else match i.methods.findIdx? (fun m => m.ordinal == name) with
    | some index => .method index
    | none => .none

structure OrdinalsRight (i : Interface) (written : List (Option Nat)) : Prop where
  numbered : Numbered written (i.methods.map (·.ordinal.toNat))
  distinct : (i.methods.map (·.ordinal)).Nodup
  notReserved : ∀ m ∈ i.methods, m.ordinal ≠ kRunMessageId ∧ m.ordinal ≠ kRunOrClosePipeMessageId
  /-- The proxy sends the ordinal of the method, and the stub hands it to this method. -/
  accepts : ∀ k m, i.methods[k]? = some m → i.accept m.ordinal = .method k

structure OrdinalsGood (written : List (Option Nat)) : Prop where
  distinct : (written.filterMap id).Nodup
  inRange : ∀ n, some n ∈ written → n < 2 ^ 32
  few : written.length ≤ 0xFFFFFFFE

/-! ### One method -/

section

variable {env : Env} {s t : Parser} {m n : Method}

/-- The method has the number `w`, if there is one. -/
def Method.Takes (m : Method) (w : Option Nat) (n : Method) : Prop :=
  match w with
  | none => n.ordinal = m.ordinal ∧ n.hasExplicitOrdinal = m.hasExplicitOrdinal
  | some k => m.hasExplicitOrdinal = false ∧ n.ordinal = UInt32.ofNat k ∧
      n.hasExplicitOrdinal = true ∧ n.ordinal < 0xFFFFFFFE

theorem parseMethodOrdinal_run (h : parseMethodOrdinal m s = .ok n t) :
    parseOptionalOrdinal "ordinal number" s = .ok (s.writtenOrdinal.map UInt32.ofNat) t ∧
      m.Takes s.writtenOrdinal n := by
  obtain ⟨here, s₁, hat, h⟩ := bind_eq_ok.mp h
  have hat' := EStateM.Result.ok.inj ((at_run .at).symm.trans hat)
  obtain ⟨rfl, rfl⟩ := hat'
  by_cases hcase : s.tok.type = .at
  · have hw : s.writtenOrdinal = some (literalValue s.next.tok.text) := if_pos hcase
    rw [if_pos (by simpa using hcase)] at h
    obtain ⟨token, s₂, hcur, h⟩ := bind_eq_ok.mp h
    obtain ⟨_, s₃, hadv, h⟩ := bind_eq_ok.mp h
    obtain ⟨num, s₄, hnum, h⟩ := bind_eq_ok.mp h
    obtain ⟨htwice, h⟩ := not_and_run_of_unless h
    obtain ⟨number, s₅, hnumber, h⟩ := bind_eq_ok.mp h
    obtain ⟨hreserved, h⟩ := not_and_run_of_unless h
    obtain ⟨rfl, rfl⟩ := EStateM.Result.ok.inj h
    obtain ⟨rfl, rfl⟩ := EStateM.Result.ok.inj hcur
    have hoptional : parseOptionalOrdinal "ordinal number" s =
        .ok (some (UInt32.ofNat number)) s₅ := by
      unfold parseOptionalOrdinal parseOrdinal
      rw [bind_ok hat, if_pos (by simpa using hcase), bind_ok hadv, run_bind, bind_ok hnum,
        bind_ok hnumber]
      rfl
    have hvalue := parseOptionalOrdinal_run hoptional
    rw [hw] at hvalue ⊢
    rw [hoptional, hvalue]
    have he : UInt32.ofNat number = UInt32.ofNat (literalValue s.next.tok.text) :=
      Option.some.inj hvalue
    refine ⟨rfl, by simpa using htwice, he, rfl, ?_⟩
    exact UInt32.not_le.mp hreserved
  · have hw : s.writtenOrdinal = none := if_neg hcase
    rw [if_neg (by simpa using hcase)] at h
    obtain ⟨rfl, rfl⟩ := EStateM.Result.ok.inj h
    rw [hw]
    refine ⟨?_, rfl, rfl⟩
    unfold parseOptionalOrdinal
    rw [bind_ok hat, if_neg (by simpa using hcase)]
    rfl

theorem parseMethodAttribute_explicit (a : ParsedAttribute) {o : Parser} :
    ⦃fun s => ⌜s = o⌝⦄ parseMethodAttribute m a
    ⦃⇓? n => fun s => ⌜s = o ∧ (m.hasExplicitOrdinal = false → n.hasExplicitOrdinal = false)⌝⦄ := by
  mvcgen [parseMethodAttribute]
  all_goals grind

theorem parseResponse_run {ifaceName : String} (h : parseResponse env ifaceName m s = .ok n t) :
    n.ordinal = m.ordinal ∧ n.hasExplicitOrdinal = m.hasExplicitOrdinal := by
  obtain ⟨here, s₁, hat, h⟩ := bind_eq_ok.mp h
  by_cases hcase : here = true
  · rw [if_pos hcase] at h
    obtain ⟨_, s₂, hadv, h⟩ := bind_eq_ok.mp h
    obtain ⟨keyword, s₃, hk, h⟩ := bind_eq_ok.mp h
    by_cases hresult : keyword = true
    · rw [if_pos hresult] at h
      obtain ⟨_, s₄, -, h⟩ := bind_eq_ok.mp h
      obtain ⟨_, s₅, -, h⟩ := bind_eq_ok.mp h
      obtain ⟨_, s₆, -, h⟩ := bind_eq_ok.mp h
      obtain ⟨_, s₇, -, h⟩ := bind_eq_ok.mp h
      obtain ⟨_, s₈, -, h⟩ := bind_eq_ok.mp h
      obtain ⟨_, s₉, -, h⟩ := bind_eq_ok.mp h
      obtain ⟨_, s₁₀, -, h⟩ := bind_eq_ok.mp h
      obtain ⟨rfl, -⟩ := EStateM.Result.ok.inj h
      exact ⟨rfl, rfl⟩
    · rw [if_neg hresult] at h
      obtain ⟨_, s₄, -, h⟩ := bind_eq_ok.mp h
      obtain ⟨_, s₅, -, h⟩ := bind_eq_ok.mp h
      obtain ⟨rfl, -⟩ := EStateM.Result.ok.inj h
      exact ⟨rfl, rfl⟩
  · rw [if_neg hcase] at h
    obtain ⟨rfl, -⟩ := EStateM.Result.ok.inj h
    exact ⟨rfl, rfl⟩

/-- The number of the method is `w`, or no number is written. -/
structure Method.HasNumber (m : Method) (w : Option Nat) : Prop where
  explicit : m.hasExplicitOrdinal = w.isSome
  ordinal : ∀ k ∈ w, m.ordinal = UInt32.ofNat k
  notReserved : m.hasExplicitOrdinal = true → m.ordinal < 0xFFFFFFFE

theorem hasNumber_of_takes {m₀ m₁ m₂ m₃ : Method} {v w : Option Nat}
    (h₀ : m₀.hasExplicitOrdinal = false) (h₁ : m₀.Takes v m₁)
    (ho : m₂.ordinal = m₁.ordinal) (he : m₂.hasExplicitOrdinal = m₁.hasExplicitOrdinal)
    (h₃ : m₂.Takes w m₃) : m₃.HasNumber (v <|> w) := by
  cases v with
  | none =>
    obtain ⟨ho₁, he₁⟩ := h₁
    cases w with
    | none =>
      obtain ⟨ho₃, he₃⟩ := h₃
      have hfalse : m₃.hasExplicitOrdinal = false := by rw [he₃, he, he₁, h₀]
      refine ⟨hfalse, fun k hk => ?_, fun htrue => ?_⟩
      · cases hk
      · rw [hfalse] at htrue
        cases htrue
    | some k =>
      obtain ⟨-, ho₃, he₃, hlt⟩ := h₃
      refine ⟨he₃, fun j hj => ?_, fun _ => hlt⟩
      cases hj
      exact ho₃
  | some k =>
    obtain ⟨-, ho₁, he₁, hlt⟩ := h₁
    cases w with
    | none =>
      obtain ⟨ho₃, he₃⟩ := h₃
      refine ⟨?_, fun j hj => ?_, fun _ => ?_⟩
      · rw [he₃, he, he₁]
        rfl
      · cases hj
        rw [ho₃, ho, ho₁]
      · rw [ho₃, ho]
        exact hlt
    | some j =>
      obtain ⟨hfalse, -⟩ := h₃
      rw [he, he₁] at hfalse
      cases hfalse

theorem parseMethod_run {attrs : List ParsedAttribute} {ifaceName : String}
    (h : parseMethod env attrs ifaceName s = .ok n t) :
    ∃ w t', parseMethodNumber env s = .ok w t' ∧ n.HasNumber w := by
  obtain ⟨m₀, s₀, hattrs, h⟩ := bind_eq_ok.mp h
  obtain ⟨name, s₁, hname, h⟩ := bind_eq_ok.mp h
  obtain ⟨m₁, s₂, hm₁, h⟩ := bind_eq_ok.mp h
  obtain ⟨_, s₃, hparen, h⟩ := bind_eq_ok.mp h
  obtain ⟨params, s₄, hparams, h⟩ := bind_eq_ok.mp h
  obtain ⟨m₂, s₅, hm₂, h⟩ := bind_eq_ok.mp h
  obtain ⟨m₃, s₆, hm₃, h⟩ := bind_eq_ok.mp h
  obtain ⟨_, s₇, -, h⟩ := bind_eq_ok.mp h
  obtain ⟨-, h⟩ := not_and_run_of_unless_cur h
  obtain ⟨rfl, -⟩ := EStateM.Result.ok.inj h
  obtain ⟨hs, hexplicit⟩ := runs_of_triple
    (foldlM_spec (Q := fun m : Method => m.hasExplicitOrdinal = false)
      (fun m a o => parseMethodAttribute_explicit a) attrs { name := "" }) hattrs
  obtain ⟨hskip, htakes₁⟩ := parseMethodOrdinal_run hm₁
  obtain ⟨-, htakes₂⟩ := parseMethodOrdinal_run hm₂
  obtain ⟨ho, he⟩ := parseResponse_run hm₃
  subst hs
  refine ⟨s₁.writtenOrdinal <|> s₄.writtenOrdinal, s₄, ?_, ?_⟩
  · unfold parseMethodNumber
    rw [bind_ok hname, get_bind, bind_ok hskip, bind_ok hparen, bind_ok hparams, get_bind]
    rfl
  · have hnumber := hasNumber_of_takes (hexplicit rfl) htakes₁ rfl rfl htakes₂
    refine ⟨?_, fun k hk => ?_, ?_⟩
    · rw [he]
      exact hnumber.explicit
    · rw [ho]
      exact hnumber.ordinal k hk
    · rw [ho, he]
      exact hnumber.notReserved

end

/-! ### The body -/

/-- The methods read so far, and the numbers written for them. -/
structure CountedMethods (i : Interface) (seen : List (Option (Option Nat))) : Prop where
  explicit : i.methods.map (·.hasExplicitOrdinal) = (seen.filterMap id).map (·.isSome)
  ordinals : i.methods.map (·.ordinal) = (counted 0 (seen.filterMap id)).map UInt32.ofNat
  notReserved : ∀ m ∈ i.methods, m.hasExplicitOrdinal = true → m.ordinal < 0xFFFFFFFE

section

variable {env : Env} {s t : Parser} {i j : Interface} {seen : List (Option (Option Nat))}

theorem CountedMethods.skip (h : CountedMethods i seen) (hj : j.methods = i.methods) :
    CountedMethods j (seen ++ [none]) := by
  have hseen : (seen ++ [none]).filterMap id = seen.filterMap id := by
    rw [filterMap_append]
    exact append_nil _
  constructor
  · rw [hj, hseen, h.explicit]
  · rw [hj, hseen, h.ordinals]
  · rw [hj]
    exact h.notReserved

theorem CountedMethods.method (h : CountedMethods i seen) {m n : Method} {w : Option Nat}
    (hm : m.HasNumber w)
    (hn : n = if m.hasExplicitOrdinal then m else
      { m with ordinal := UInt32.ofNat (i.methods.filter (!·.hasExplicitOrdinal)).length })
    (hj : j.methods = i.methods ++ [n]) : CountedMethods j (seen ++ [some w]) := by
  have hseen : (seen ++ [some w]).filterMap id = seen.filterMap id ++ [w] := by
    rw [filterMap_append]
    rfl
  have hcount : (i.methods.filter (!·.hasExplicitOrdinal)).length =
      (seen.filterMap id).countP (·.isNone) := by
    have hflags := congrArg (List.countP (!·)) h.explicit
    rw [countP_map, countP_map] at hflags
    rw [← countP_eq_length_filter]
    refine hflags.trans (countP_congr (fun w _ => ?_))
    cases w <;> simp
  have hexplicit : n.hasExplicitOrdinal = w.isSome := by
    rw [hn, ← hm.explicit]
    split <;> rfl
  have hordinal : n.ordinal = UInt32.ofNat (w.getD (0 + (seen.filterMap id).countP (·.isNone))) := by
    cases w with
    | none =>
      have hfalse : m.hasExplicitOrdinal = false := hm.explicit
      rw [hn, if_neg (by simp [hfalse]), hcount, Nat.zero_add]
      rfl
    | some k =>
      have htrue : m.hasExplicitOrdinal = true := hm.explicit
      rw [hn, if_pos htrue]
      exact hm.ordinal k rfl
  constructor
  · rw [hj, hseen, map_append, map_append, h.explicit]
    exact congrArg (_ ++ [·]) hexplicit
  · rw [hj, hseen, map_append, counted_append, map_append, h.ordinals]
    exact congrArg (_ ++ [·]) hordinal
  · intro m' hm' he
    rw [hj] at hm'
    rcases mem_append.mp hm' with hm' | hm'
    · exact h.notReserved m' hm' he
    · obtain rfl := mem_singleton.mp hm'
      rw [hexplicit, ← hm.explicit] at he
      rw [hn, if_pos he]
      exact hm.notReserved he

theorem parseInterfaceMember_counted (h : parseInterfaceMember env i s = .ok j t)
    (hi : CountedMethods i seen) : CountedMethods j (seen ++ [memberNumber env s]) := by
  obtain ⟨attrs, s₁, hattrs, h⟩ := bind_eq_ok.mp h
  have hnumber {w : Option (Option Nat)} {s' : Parser}
      (h : parseMemberNumber env s = .ok w s') : memberNumber env s = w := by
    rw [memberNumber, h]
  obtain ⟨isEnum, s₂, henum, h⟩ := bind_eq_ok.mp h
  cases isEnum with
  | true =>
    obtain ⟨e, s₃, -, h⟩ := bind_eq_ok.mp h
    obtain ⟨rfl, -⟩ := EStateM.Result.ok.inj h
    have hm : parseMemberNumber env s = .ok none s₂ := by
      unfold parseMemberNumber
      rw [bind_ok hattrs, bind_ok henum]
      rfl
    rw [hnumber hm]
    exact hi.skip rfl
  | false =>
  obtain ⟨isStruct, s₃, hstruct, h⟩ := bind_eq_ok.mp h
  cases isStruct with
  | true =>
    obtain ⟨d, s₄, -, h⟩ := bind_eq_ok.mp h
    obtain ⟨rfl, -⟩ := EStateM.Result.ok.inj h
    have hm : parseMemberNumber env s = .ok none s₃ := by
      unfold parseMemberNumber
      rw [bind_ok hattrs, bind_ok henum, if_neg Bool.false_ne_true, bind_ok hstruct]
      rfl
    rw [hnumber hm]
    exact hi.skip rfl
  | false =>
  obtain ⟨isUnion, s₄, hunion, h⟩ := bind_eq_ok.mp h
  cases isUnion with
  | true =>
    obtain ⟨d, s₅, -, h⟩ := bind_eq_ok.mp h
    obtain ⟨rfl, -⟩ := EStateM.Result.ok.inj h
    have hm : parseMemberNumber env s = .ok none s₄ := by
      unfold parseMemberNumber
      rw [bind_ok hattrs, bind_ok henum, if_neg Bool.false_ne_true, bind_ok hstruct,
        if_neg Bool.false_ne_true, bind_ok hunion]
      rfl
    rw [hnumber hm]
    exact hi.skip rfl
  | false =>
  obtain ⟨isConst, s₅, hconst, h⟩ := bind_eq_ok.mp h
  cases isConst with
  | true =>
    obtain ⟨d, s₆, -, h⟩ := bind_eq_ok.mp h
    obtain ⟨rfl, -⟩ := EStateM.Result.ok.inj h
    have hm : parseMemberNumber env s = .ok none s₅ := by
      unfold parseMemberNumber
      rw [bind_ok hattrs, bind_ok henum, if_neg Bool.false_ne_true, bind_ok hstruct,
        if_neg Bool.false_ne_true, bind_ok hunion, if_neg Bool.false_ne_true, bind_ok hconst]
      rfl
    rw [hnumber hm]
    exact hi.skip rfl
  | false =>
    obtain ⟨m, s₆, hmethod, h⟩ := bind_eq_ok.mp h
    obtain ⟨rfl, -⟩ := EStateM.Result.ok.inj h
    obtain ⟨w, s', hw, hm⟩ := parseMethod_run hmethod
    have hmember : parseMemberNumber env s = .ok (some w) s' := by
      unfold parseMemberNumber
      rw [bind_ok hattrs, bind_ok henum, if_neg Bool.false_ne_true, bind_ok hstruct,
        if_neg Bool.false_ne_true, bind_ok hunion, if_neg Bool.false_ne_true, bind_ok hconst,
        if_neg Bool.false_ne_true, bind_ok hw]
      rfl
    rw [hnumber hmember]
    exact hi.method hm rfl rfl

theorem parseInterfaceAttribute_methods (a : ParsedAttribute) {o : Parser} :
    ⦃fun s => ⌜s = o⌝⦄ parseInterfaceAttribute i a
    ⦃⇓? j => fun s => ⌜s = o ∧ (i.methods = [] → j.methods = [])⌝⦄ := by
  mvcgen [parseInterfaceAttribute]
  all_goals grind

theorem parseInterface_counted {attrs : List ParsedAttribute}
    (h : parseInterface env attrs s = .ok i t) :
    ∃ seen, seen.filterMap id = writtenOrdinals env attrs s ∧ CountedMethods i seen ∧
      ¬(i.methods.any (·.hasExplicitOrdinal) && i.methods.any (!·.hasExplicitOrdinal)) = true := by
  obtain ⟨i₀, s₁, hattrs, h⟩ := bind_eq_ok.mp h
  obtain ⟨_, s₂, hkeyword, h⟩ := bind_eq_ok.mp h
  obtain ⟨name, s₃, hname, h⟩ := bind_eq_ok.mp h
  obtain ⟨_, s₄, hbrace, h⟩ := bind_eq_ok.mp h
  obtain ⟨j, s₅, hbody, h⟩ := bind_eq_ok.mp h
  obtain ⟨_, s₆, -, h⟩ := bind_eq_ok.mp h
  obtain ⟨_, s₇, -, h⟩ := bind_eq_ok.mp h
  obtain ⟨hmixed, h⟩ := not_and_run_of_unless_cur h
  obtain ⟨rfl, -⟩ := EStateM.Result.ok.inj h
  have hhead : parseInterfaceHead attrs s = .ok { i₀ with name } s₄ := by
    unfold parseInterfaceHead
    rw [bind_ok hattrs, bind_ok hkeyword, bind_ok hname, bind_ok hbrace]
    rfl
  have hstart : CountedMethods { i₀ with name } [] := by
    have hempty : i₀.methods = [] :=
      (runs_of_triple (foldlM_spec (Q := fun i : Interface => i.methods = [])
        (fun i a o => parseInterfaceAttribute_methods a) attrs { name := "" }) hattrs).2 rfl
    constructor
    · show i₀.methods.map _ = _
      rw [hempty]
      rfl
    · show i₀.methods.map _ = _
      rw [hempty]
      rfl
    · intro m hm
      rw [show ({ i₀ with name } : Interface).methods = [] from hempty] at hm
      cases hm
  refine ⟨bodyNotes (memberNumber env) (parseInterfaceMember env) { i₀ with name } s₄, ?_, ?_,
    hmixed⟩
  · rw [writtenOrdinals, hhead]
  · exact untilRBrace_notes (fun a s b t seen => parseInterfaceMember_counted) hbody hstart

end

/-! ### When each method gets its messages -/

theorem ordinal_toNat_lt_iff {n : UInt32} :
    n.toNat < 0xFFFFFFFE ↔ n ≠ kRunMessageId ∧ n ≠ kRunOrClosePipeMessageId := by
  have hlt := n.toNat_lt
  rw [Ne, Ne, ← UInt32.toNat_inj, ← UInt32.toNat_inj]
  show _ ↔ ¬n.toNat = 0xFFFFFFFF ∧ ¬n.toNat = 0xFFFFFFFE
  omega

theorem accept_ordinal {i : Interface} (hdistinct : (i.methods.map (·.ordinal)).Nodup)
    (hreserved : ∀ m ∈ i.methods, m.ordinal ≠ kRunMessageId ∧ m.ordinal ≠ kRunOrClosePipeMessageId)
    {k : Nat} {m : Method} (hm : i.methods[k]? = some m) : i.accept m.ordinal = .method k := by
  obtain ⟨hrun, hclose⟩ := hreserved m (mem_of_getElem? hm)
  rw [Interface.accept, if_neg hrun, if_neg hclose, findIdx?_of_nodup hdistinct hm]

theorem ordinalsRight_iff {i : Interface} {seen : List (Option (Option Nat))}
    (hi : CountedMethods i seen)
    (hmixed :
      ¬(i.methods.any (·.hasExplicitOrdinal) && i.methods.any (!·.hasExplicitOrdinal)) = true) :
    OrdinalsRight i (seen.filterMap id) ↔ OrdinalsGood (seen.filterMap id) := by
  constructor
  · intro h
    have hnodup := nodup_map_toNat.mpr h.distinct
    have hrange : ∀ n ∈ i.methods.map (·.ordinal.toNat), n < 0xFFFFFFFE := by
      intro n hn
      obtain ⟨m, hm, rfl⟩ := List.mem_map.mp hn
      exact ordinal_toNat_lt_iff.mpr (h.notReserved m hm)
    refine ⟨h.numbered.distinct_iff.mp hnodup, fun n hn => ?_, ?_⟩
    · have hmem := h.numbered.sublist.subset (mem_filterMap.mpr ⟨some n, hn, rfl⟩)
      exact Nat.lt_trans (hrange n hmem) (by decide)
    · rw [← h.numbered.length_eq]
      exact length_le_of_forall_lt hnodup hrange
  · intro hgood
    have hfew : (seen.filterMap id).length ≤ 0xFFFFFFFE := hgood.few
    have hnumbered := numbered_of_one_pass hi.explicit hi.ordinals hmixed hgood.inRange (by omega)
    have hdistinct := nodup_map_toNat.mp (hnumbered.nodup hgood.distinct)
    have hreserved : ∀ m ∈ i.methods,
        m.ordinal ≠ kRunMessageId ∧ m.ordinal ≠ kRunOrClosePipeMessageId := by
      intro m hm
      refine ordinal_toNat_lt_iff.mp ?_
      by_cases hexplicit : m.hasExplicitOrdinal = true
      · exact hi.notReserved m hm hexplicit
      · have hnone : ∀ w ∈ seen.filterMap id, w = none := by
          rw [any_flag (·) hi.explicit, any_flag (!·) hi.explicit] at hmixed
          refine (of_not_mixed hmixed).resolve_left (fun hall => ?_)
          have hflag : m.hasExplicitOrdinal ∈ (seen.filterMap id).map (·.isSome) := by
            rw [← hi.explicit]
            exact List.mem_map_of_mem hm
          obtain ⟨w, hw, he⟩ := List.mem_map.mp hflag
          exact hexplicit (he.symm.trans (hall w hw))
        have hnot : some m.ordinal.toNat ∉ seen.filterMap id := by
          intro hn
          cases hnone _ hn
        have hmem : m.ordinal.toNat ∈ i.methods.map (·.ordinal.toNat) := List.mem_map_of_mem hm
        exact Nat.lt_of_lt_of_le (hnumbered.lt_of_not_asked hmem hnot) hfew
    exact ⟨hnumbered, hdistinct, hreserved, fun k m => accept_ordinal hdistinct hreserved⟩

/-- The ordinals of an interface that is accepted are right for the numbers of `OrdinalsGood` and
no others. -/
theorem parseInterface_ordinals_iff (env : Env) (topAttrs : List ParsedAttribute) (s t : Parser)
    (i : Interface) (h : parseInterface env topAttrs s = .ok i t) :
    OrdinalsRight i (writtenOrdinals env topAttrs s) ↔
      OrdinalsGood (writtenOrdinals env topAttrs s) := by
  obtain ⟨seen, hseen, hi, hmixed⟩ := parseInterface_counted h
  rw [← hseen]
  exact ordinalsRight_iff hi hmixed

/-- `interface I { M()@first; N@second(); };`. -/
def twoMethods (first second : String) : Parser where
  rest := [⟨.name, "interface", 1⟩, ⟨.name, "I", 1⟩, ⟨.lBrace, "", 1⟩, ⟨.name, "M", 1⟩,
    ⟨.lParen, "", 1⟩, ⟨.rParen, "", 1⟩, ⟨.at, "", 1⟩, ⟨.number, first, 1⟩, ⟨.semi, "", 1⟩,
    ⟨.name, "N", 1⟩, ⟨.at, "", 1⟩, ⟨.number, second, 1⟩, ⟨.lParen, "", 1⟩, ⟨.rParen, "", 1⟩,
    ⟨.semi, "", 1⟩, ⟨.rBrace, "", 1⟩, ⟨.semi, "", 1⟩, ⟨.end, "", 1⟩]

/-- `@7` and `@0`. -/
theorem parseInterface_ordinals_iff_twoMethods :
    ∃ i t, parseInterface (Env.of "m" {} [] {}) [] (twoMethods "7" "0") = .ok i t ∧
      OrdinalsRight i [some 7, some 0] := by
  refine ⟨_, _, rfl, ?_⟩
  have hiff := parseInterface_ordinals_iff (Env.of "m" {} [] {}) [] (twoMethods "7" "0") _ _ rfl
  have hwritten : writtenOrdinals (Env.of "m" {} [] {}) [] (twoMethods "7" "0") =
      [some 7, some 0] := rfl
  rw [hwritten] at hiff
  refine hiff.mpr ⟨by decide, fun n hn => ?_, by decide⟩
  simp only [mem_cons, Option.some.injEq, not_mem_nil, or_false] at hn
  omega

/-- `@1` and `@4294967297` are accepted, and `M` gets the messages for `N`. -/
theorem not_ordinalsRight_wrapped :
    ∃ i t, parseInterface (Env.of "m" {} [] {}) [] (twoMethods "1" "4294967297") = .ok i t ∧
      writtenOrdinals (Env.of "m" {} [] {}) [] (twoMethods "1" "4294967297") =
        [some 1, some 4294967297] ∧
      ¬OrdinalsRight i [some 1, some 4294967297] := by
  refine ⟨_, _, rfl, rfl, fun h => ?_⟩
  exact absurd h.distinct (by decide)

end Voodoo.Compiler
