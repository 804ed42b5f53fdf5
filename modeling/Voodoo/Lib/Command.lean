import Mathlib.Logic.Basic

/-!
# Commands that may leave

Commands over actions: one after another, a choice of two, a loop of any number of turns, a scope
of its own, and an action that leaves the function.  A run ends behind its command or has left
the function, and then nothing that follows is run.

* `Triple step I c Q X`: a run of `c` from a state with `I` ends in one with `Q` behind `c`, or has
  left in one with `X`; there is one rule for each kind of command;
* `Run.frame`: a run relates its ends as its actions do.
-/

namespace Command

universe u v

variable {ω : Type u} {σ : Type v}

inductive Cmd (ω : Type u) where
  | skip
  | act (a : ω)
  | leave (a : ω)
  | seq (c d : Cmd ω)
  | either (c d : Cmd ω)
  | loop (c : Cmd ω)
  | scope (c : Cmd ω)

namespace Cmd

/-- One after another. -/
def all : List (Cmd ω) → Cmd ω
  | [] => skip
  | c :: cs => seq c (all cs)

/-- Every action of the command has `p`. -/
def Only (p : ω → Prop) : Cmd ω → Prop
  | skip => True
  | act a => p a
  | leave a => p a
  | seq c d => c.Only p ∧ d.Only p
  | either c d => c.Only p ∧ d.Only p
  | loop c => c.Only p
  | scope c => c.Only p

theorem Only.mono {p q : ω → Prop} (hpq : ∀ a, p a → q a) {c : Cmd ω} (h : c.Only p) : c.Only q := by
  induction c with
  | skip => trivial
  | act a => exact hpq a h
  | leave a => exact hpq a h
  | seq c d ihc ihd => exact ⟨ihc h.1, ihd h.2⟩
  | either c d ihc ihd => exact ⟨ihc h.1, ihd h.2⟩
  | loop c ih => exact ih h
  | scope c ih => exact ih h

@[simp] theorem only_all {p : ω → Prop} {cs : List (Cmd ω)} :
    (all cs).Only p ↔ ∀ c ∈ cs, c.Only p := by
  induction cs with
  | nil => exact ⟨fun _ _ hc => (List.not_mem_nil hc).elim, fun _ => trivial⟩
  | cons c cs ih => exact (and_congr_right' ih).trans List.forall_mem_cons.symm

end Cmd

/-- The runs of a command; the mark says whether the function has been left. -/
inductive Run (step : ω → σ → σ → Prop) : Cmd ω → σ → Bool → σ → Prop
  | skip {s : σ} : Run step .skip s false s
  | act {a : ω} {s t : σ} (h : step a s t) : Run step (.act a) s false t
  | leave {a : ω} {s t : σ} (h : step a s t) : Run step (.leave a) s true t
  | seq {c d : Cmd ω} {s t u : σ} {b : Bool} (hc : Run step c s false t) (hd : Run step d t b u) :
      Run step (.seq c d) s b u
  | seqLeft {c d : Cmd ω} {s t : σ} (hc : Run step c s true t) : Run step (.seq c d) s true t
  | fst {c d : Cmd ω} {s t : σ} {b : Bool} (h : Run step c s b t) : Run step (.either c d) s b t
  | snd {c d : Cmd ω} {s t : σ} {b : Bool} (h : Run step d s b t) : Run step (.either c d) s b t
  | done {c : Cmd ω} {s : σ} : Run step (.loop c) s false s
  | turn {c : Cmd ω} {s t u : σ} {b : Bool} (hc : Run step c s false t)
      (hl : Run step (.loop c) t b u) : Run step (.loop c) s b u
  | turnLeft {c : Cmd ω} {s t : σ} (hc : Run step c s true t) : Run step (.loop c) s true t
  | scope {c : Cmd ω} {s t : σ} {b : Bool} (h : Run step c s b t) : Run step (.scope c) s b t

variable {step : ω → σ → σ → Prop}

theorem Run.frame {p : ω → Prop} {R : σ → σ → Prop} (hrefl : ∀ s, R s s)
    (htrans : ∀ ⦃s t u⦄, R s t → R t u → R s u) (hstep : ∀ ⦃a s t⦄, p a → step a s t → R s t)
    {c : Cmd ω} (hc : c.Only p) {s t : σ} {b : Bool} (h : Run step c s b t) : R s t := by
  induction h with
  | skip => exact hrefl _
  | act h => exact hstep hc h
  | leave h => exact hstep hc h
  | seq _ _ ihc ihd => exact htrans (ihc hc.1) (ihd hc.2)
  | seqLeft _ ih => exact ih hc.1
  | fst _ ih => exact ih hc.1
  | snd _ ih => exact ih hc.2
  | done => exact hrefl _
  | turn _ _ ihc ihl => exact htrans (ihc hc) (ihl hc)
  | turnLeft _ ih => exact ih hc
  | scope _ ih => exact ih hc

/-! ### Triples -/

structure Triple (step : ω → σ → σ → Prop) (I : σ → Prop) (c : Cmd ω) (Q X : σ → Prop) : Prop where
  behind : ∀ ⦃s t⦄, I s → Run step c s false t → Q t
  left : ∀ ⦃s t⦄, I s → Run step c s true t → X t

namespace Triple

variable {I J Q X : σ → Prop} {c d : Cmd ω} {a : ω}

theorem mono {Y : σ → Prop} (h : Triple step I c Q X) (hI : ∀ s, J s → I s) {P : σ → Prop}
    (hQ : ∀ s, Q s → P s) (hX : ∀ s, X s → Y s) : Triple step J c P Y where
  behind _ _ hs hr := hQ _ (h.behind (hI _ hs) hr)
  left _ _ hs hr := hX _ (h.left (hI _ hs) hr)

theorem skip : Triple step I .skip I X where
  behind _ _ hs hr := by cases hr; exact hs
  left _ _ _ hr := by cases hr

theorem act (h : ∀ ⦃s t⦄, I s → step a s t → Q t) : Triple step I (.act a) Q X where
  behind _ _ hs hr := by
    cases hr with
    | act ha => exact h hs ha
  left _ _ _ hr := by cases hr

theorem leave (h : ∀ ⦃s t⦄, I s → step a s t → X t) : Triple step I (.leave a) Q X where
  behind _ _ _ hr := by cases hr
  left _ _ hs hr := by
    cases hr with
    | leave ha => exact h hs ha

theorem seq (hc : Triple step I c J X) (hd : Triple step J d Q X) :
    Triple step I (.seq c d) Q X where
  behind _ _ hs hr := by
    cases hr with
    | seq h h' => exact hd.behind (hc.behind hs h) h'
  left _ _ hs hr := by
    cases hr with
    | seq h h' => exact hd.left (hc.behind hs h) h'
    | seqLeft h => exact hc.left hs h

theorem either (hc : Triple step I c Q X) (hd : Triple step I d Q X) :
    Triple step I (.either c d) Q X where
  behind _ _ hs hr := by
    cases hr with
    | fst h => exact hc.behind hs h
    | snd h => exact hd.behind hs h
  left _ _ hs hr := by
    cases hr with
    | fst h => exact hc.left hs h
    | snd h => exact hd.left hs h

theorem loop (hc : Triple step I c I X) : Triple step I (.loop c) I X := by
  have hrun : ∀ ⦃e s b t⦄, Run step e s b t → e = .loop c → I s →
      (b = false → I t) ∧ (b = true → X t) := by
    intro e s b t hr
    induction hr with
    | done => exact fun _ hs => ⟨fun _ => hs, (by rintro ⟨⟩)⟩
    | turn h _ _ ih =>
      intro he hs
      cases he
      exact ih rfl (hc.behind hs h)
    | turnLeft h _ =>
      intro he hs
      cases he
      exact ⟨(by rintro ⟨⟩), fun _ => hc.left hs h⟩
    | _ => rintro ⟨⟩
  exact ⟨fun _ _ hs hr => (hrun hr rfl hs).1 rfl, fun _ _ hs hr => (hrun hr rfl hs).2 rfl⟩

theorem scope (hc : Triple step I c Q X) : Triple step I (.scope c) Q X where
  behind _ _ hs hr := by
    cases hr with
    | scope h => exact hc.behind hs h
  left _ _ hs hr := by
    cases hr with
    | scope h => exact hc.left hs h

theorem all_cons {cs : List (Cmd ω)} (hc : Triple step I c J X) (hcs : Triple step J (.all cs) Q X) :
    Triple step I (.all (c :: cs)) Q X := seq hc hcs

theorem all_single (hc : Triple step I c Q X) : Triple step I (.all [c]) Q X := seq hc skip

end Triple

end Command
