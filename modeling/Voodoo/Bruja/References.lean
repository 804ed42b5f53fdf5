import Voodoo.Lib.Ledger
import Voodoo.Bruja.LocalNames

/-!
# The references of generated code

What the emitted code does with the `JSValue`s that a function owns.  `Action.step` runs an action
on the values taken and given up so far; each action and each kind of code has its rule (`Triple`)
in terms of the variables that are still owed for.

* `Fails`, `Infallible`: whether a conversion has a failure of its own, and whether it or anything
  that is converted in turn has one;
* `Releases`: nothing inside a sequence or a dictionary can fail, so that no `return` leaves with
  the value of an element or a field at hand;
* `LeftBy`: how the conversion of a type leaves a function.
-/

namespace Voodoo.Bruja

open Command Ledger Relation List

/-! ### Runs -/

/-- The `JSValue`s of a function, and its flags. -/
structure State where
  book : Book String
  flag : String → Bool

def State.start : State := ⟨Book.empty, fun _ => false⟩

/-- What an action does.  A failed `JS_NewPromiseCapability` gives nothing that is owned. -/
def Action.step : Action → State → State → Prop
  | take _ x, s, t => t = { s with book := s.book.take x }
  | value x, s, t => t = { s with book := s.book.put x none }
  | unnamed x, s, t => t = { s with book := s.book.put x none }
  | newPromiseCapability, s, t =>
    t = { s with book := s.book.put "promise" none } ∨
    t = { s with book :=
      ((s.book.take "promise").take "resolving_funcs[0]").take "resolving_funcs[1]" }
  | isException x b, s, t => t = s ∧ (s.book.value x).isNone = b
  | assign x none, s, t => t = { s with book := s.book.put x none }
  | assign x (some y), s, t => t = { s with book := s.book.put x (s.book.value y) }
  | free x, s, t => t = { s with book := s.book.give x }
  | hand _ x, s, t => t = { s with book := s.book.give x }
  | ret (.var x), s, t => t = { s with book := s.book.give x }
  | setFlag x b, s, t => t = { s with flag := Function.update s.flag x b }
  | isSet x b, s, t => t = s ∧ s.flag x = b
  | declare _ _, s, t => t = s
  | move _ _, s, t => t = s
  | cast _ _, s, t => t = s
  | unwrap _, s, t => t = s
  | ret _, s, t => t = s

/-- The `JSValue`s that an action writes. -/
def Action.targets : Action → List String
  | take _ x => [x]
  | value x => [x]
  | unnamed x => [x]
  | newPromiseCapability => ["promise", "resolving_funcs[0]", "resolving_funcs[1]"]
  | assign x _ => [x]
  | _ => []

/-- The variables `xs` hold what is still to be given up. -/
def Owing (xs : List String) (s : State) : Prop := Owes s.book xs

theorem owing_start : Owing [] State.start := owes_empty

variable {m : IdlModule} {type element : TypeSpec} {name v source x y : String} {xs ys : List String}
variable {code c d : Code} {s t : State} {b : Bool} {n : Nat} {Q X : State → Prop}

theorem value_of_step {a : Action} (h : a.step s t) (hx : x ∉ a.targets) :
    t.book.value x = s.book.value x := by
  cases a with
  | take _ y =>
    rw [h]
    exact Book.value_take_of_ne (ne_of_not_mem_cons hx)
  | value y =>
    rw [h]
    exact Book.value_put_of_ne (ne_of_not_mem_cons hx)
  | unnamed y =>
    rw [h]
    exact Book.value_put_of_ne (ne_of_not_mem_cons hx)
  | newPromiseCapability =>
    have hp := ne_of_not_mem_cons hx
    have hf := ne_of_not_mem_cons (not_mem_of_not_mem_cons hx)
    have hg := ne_of_not_mem_cons (not_mem_of_not_mem_cons (not_mem_of_not_mem_cons hx))
    rcases h with rfl | rfl
    · exact Book.value_put_of_ne hp
    · rw [Book.value_take_of_ne hg, Book.value_take_of_ne hf, Book.value_take_of_ne hp]
  | isException _ _ => rw [h.1]
  | assign y z =>
    cases z with
    | none =>
      rw [h]
      exact Book.value_put_of_ne (ne_of_not_mem_cons hx)
    | some z =>
      rw [h]
      exact Book.value_put_of_ne (ne_of_not_mem_cons hx)
  | free y =>
    rw [h]
    exact congrFun Book.value_give x
  | hand _ y =>
    rw [h]
    exact congrFun Book.value_give x
  | ret r =>
    cases r with
    | var y =>
      rw [h]
      exact congrFun Book.value_give x
    | _ => rw [h]
  | setFlag _ _ => rw [h]
  | isSet _ _ => rw [h.1]
  | _ => rw [h]

/-- Only names below `v` are written. -/
def Writes (v : String) (c : Code) : Prop := c.Only fun a => ∀ x ∈ a.targets, Below v x

theorem value_of_run (hc : Writes v c) (hr : Run Action.step c s b t) (hx : ¬ Below v x) :
    t.book.value x = s.book.value x := by
  refine Run.frame (R := fun s t => t.book.value x = s.book.value x) (fun _ => rfl) ?_ ?_ hc hr
  · intro s t u h h'
    exact h'.trans h
  · intro a s t ha hstep
    exact value_of_step hstep fun hmem => hx (ha x hmem)

/-! ### Rules for the actions -/

theorem triple_take (hx : x ∉ xs) (call : Acquire) :
    Triple Action.step (Owing xs) (.act (.take call x)) (Owing (x :: xs)) X :=
  .act fun s t hs ht => by
    obtain rfl := ht
    exact Owes.take hs hx

theorem triple_value (hx : x ∉ xs) :
    Triple Action.step (Owing xs) (.act (.value x)) (Owing (x :: xs)) X :=
  .act fun s t hs ht => by
    obtain rfl := ht
    exact Owes.plain hs hx

theorem triple_unnamed (hx : x ∉ xs) :
    Triple Action.step (Owing xs) (.act (.unnamed x)) (Owing (x :: xs)) X :=
  .act fun s t hs ht => by
    obtain rfl := ht
    exact Owes.plain hs hx

theorem triple_free : Triple Action.step (Owing (x :: xs)) (.act (.free x)) (Owing xs) X :=
  .act fun s t hs ht => by
    obtain rfl := ht
    exact Owes.give hs

theorem triple_hand {object : String} :
    Triple Action.step (Owing (x :: xs)) (.act (.hand object x)) (Owing xs) X :=
  .act fun s t hs ht => by
    obtain rfl := ht
    exact Owes.give hs

/-- An action that leaves the `JSValue`s as they are. -/
def Action.Quiet : Action → Prop
  | declare _ _ | isException _ _ | move _ _ | cast _ _ | unwrap _ | setFlag _ _ | isSet _ _ => True
  | ret (.var _) => False
  | ret _ => True
  | _ => False

theorem Action.Quiet.targets_eq {a : Action} (ha : a.Quiet) : a.targets = [] := by
  cases a with
  | take | value | unnamed | newPromiseCapability | assign | free | hand => exact ha.elim
  | _ => rfl

theorem Action.Quiet.book_eq {a : Action} (ha : a.Quiet) (h : a.step s t) : t.book = s.book := by
  cases a with
  | take | value | unnamed | newPromiseCapability | assign | free | hand => exact ha.elim
  | isException _ _ => rw [h.1]
  | isSet _ _ => rw [h.1]
  | ret r =>
    cases r with
    | var _ => exact ha.elim
    | _ => rw [h]
  | _ => rw [h]

theorem triple_quiet (hc : c.Only Action.Quiet) :
    Triple Action.step (Owing xs) c (Owing xs) (Owing xs) := by
  have hbook : ∀ ⦃s b t⦄, Run Action.step c s b t → t.book = s.book := by
    intro s b t hr
    refine Run.frame (R := fun s t => t.book = s.book) (fun _ => rfl) ?_ ?_ hc hr
    · intro s t u h h'
      exact h'.trans h
    · intro a s t ha hstep
      exact ha.book_eq hstep
  constructor
  · intro s t hs hr
    rw [Owing, hbook hr]
    exact hs
  · intro s t hs hr
    rw [Owing, hbook hr]
    exact hs

theorem triple_quiet_act {a : Action} (ha : a.Quiet) :
    Triple Action.step (Owing xs) (.act a) (Owing xs) X :=
  .act fun _ _ hs ht => (triple_quiet (c := .act a) ha).behind hs (.act ht)

theorem writes_quiet (hc : c.Only Action.Quiet) : Writes v c := by
  refine hc.mono fun a ha x hx => ?_
  rw [ha.targets_eq] at hx
  exact (not_mem_nil hx).elim

theorem Writes.of_child (hy : 3 ≤ y.length) (hc : Writes (v ++ "_" ++ y) c) : Writes v c :=
  hc.mono fun _ ha x hx => (ha x hx).of_child hy

/-! ### What can fail -/

/-- The conversion has a failure of its own. -/
def Fails : TypeSpec → Prop
  | .plain .void _ | .plain .any _ => False
  | .plain _ _ => True
  | .sequence _ _ => True
  | .promise _ _ => False
  | .union first rest _ => unionFallback (first :: rest) = none
  | .ref .interface _ _ | .ref .enum _ _ => True
  | .ref _ _ _ => False

/-- The conversion cannot fail: neither its own nor that of anything converted in turn. -/
def Infallible (m : IdlModule) (type : TypeSpec) : Prop :=
  ∀ u, ReflTransGen (fun t u => Component m t u ∨ Tries t u) type u → ¬ Fails u

/-- What the value is made of is converted without a failure; so it is of what is tried. -/
def Releases (m : IdlModule) (type : TypeSpec) : Prop :=
  ∀ t, ReflTransGen Tries type t → ∀ u, Component m t u → Infallible m u

theorem Infallible.of_part {u : TypeSpec} (h : Infallible m type)
    (hu : Component m type u ∨ Tries type u) : Infallible m u :=
  fun w hw => h w (.head hu hw)

theorem not_infallible (h : ¬ Infallible m type) :
    Fails type ∨ ∃ u, (Component m type u ∨ Tries type u) ∧ ¬ Infallible m u := by
  by_contra hno
  rw [not_or] at hno
  refine h fun u hu => ?_
  rcases hu.cases_head with rfl | ⟨w, hw, hwu⟩
  · exact hno.1
  · by_cases hinf : Infallible m w
    · exact hinf u hwu
    · exact (hno.2 ⟨w, hw, hinf⟩).elim

theorem Releases.of_tries {u : TypeSpec} (h : Releases m type) (hu : Tries type u) : Releases m u :=
  fun w hw => h w (.head hu hw)

theorem Releases.of_component {u : TypeSpec} (h : Releases m type) (hu : Component m type u) :
    Infallible m u := h type .refl u hu

theorem not_releases (h : ¬ Releases m type) :
    (∃ u, Component m type u ∧ ¬ Infallible m u) ∨ ∃ u, Tries type u ∧ ¬ Releases m u := by
  by_contra hno
  rw [not_or] at hno
  refine h fun w hw u hu => ?_
  by_contra hinf
  rcases hw.cases_head with rfl | ⟨w', hw', hww⟩
  · exact hno.1 ⟨u, hu, hinf⟩
  · refine hno.2 ⟨w', hw', fun hrel => hinf (hrel w hww u hu)⟩

theorem fails_nonNull : Fails type.nonNull ↔ Fails type := by
  cases type with
  | plain kind b =>
    cases kind with
    | _ => rfl
  | ref kind name b =>
    cases kind with
    | _ => rfl
  | _ => rfl

theorem infallible_nonNull : Infallible m type.nonNull ↔ Infallible m type := by
  have hstep : ∀ w, (Component m type.nonNull w ∨ Tries type.nonNull w) ↔
      (Component m type w ∨ Tries type w) := fun w => or_congr component_nonNull tries_nonNull
  constructor
  · intro h u hu
    rcases hu.cases_head with rfl | ⟨w, hw, hwu⟩
    · exact fun hfails => h _ .refl (fails_nonNull.mpr hfails)
    · exact h u (.head ((hstep w).mpr hw) hwu)
  · intro h u hu
    rcases hu.cases_head with rfl | ⟨w, hw, hwu⟩
    · exact fun hfails => h _ .refl (fails_nonNull.mp hfails)
    · exact h u (.head ((hstep w).mp hw) hwu)

theorem releases_nonNull : Releases m type.nonNull ↔ Releases m type := by
  constructor
  · intro h t ht u hu
    rcases ht.cases_head with rfl | ⟨w, hw, hwt⟩
    · exact h.of_component (component_nonNull.mpr hu)
    · exact h.of_tries (tries_nonNull.mpr hw) t hwt u hu
  · intro h t ht u hu
    rcases ht.cases_head with rfl | ⟨w, hw, hwt⟩
    · exact h.of_component (component_nonNull.mp hu)
    · exact h.of_tries (tries_nonNull.mp hw) t hwt u hu

/-- The function has been left from the conversion of a value while it still owed `xs`. -/
structure LeftBy (m : IdlModule) (type : TypeSpec) (xs : List String) (s : State) : Prop where
  fallible : ¬ Infallible m type
  releases : Releases m type → Owing xs s
  more : ∃ ys, Owing (ys ++ xs) s

theorem LeftBy.of_fails (hfails : Fails type) (h : Owing xs s) : LeftBy m type xs s where
  fallible hinf := hinf type .refl hfails
  releases _ := h
  more := ⟨[], h⟩

theorem LeftBy.of_component {u : TypeSpec} (hu : Component m type u) (h : LeftBy m u (x :: xs) s) :
    LeftBy m type xs s where
  fallible hinf := h.fallible (hinf.of_part (.inl hu))
  releases hrel := (h.fallible (hrel.of_component hu)).elim
  more := by
    obtain ⟨ys, hys⟩ := h.more
    exact ⟨ys ++ [x], by rwa [List.append_assoc]⟩

theorem LeftBy.of_tries {u : TypeSpec} (hu : Tries type u) (h : LeftBy m u xs s) :
    LeftBy m type xs s where
  fallible hinf := h.fallible (hinf.of_part (.inr hu))
  releases hrel := h.releases (hrel.of_tries hu)
  more := h.more

theorem LeftBy.of_nonNull (h : LeftBy m type.nonNull xs s) : LeftBy m type xs s where
  fallible hinf := h.fallible (infallible_nonNull.mpr hinf)
  releases hrel := h.releases (releases_nonNull.mpr hrel)
  more := h.more

end Voodoo.Bruja
