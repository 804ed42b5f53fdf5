import Voodoo.Compiler.EnumHeads

/-!
# The values of enums before parsing

Where an enum begins, what `CollectEnumValues` notes are the names and numbers that `ParseEnum` reads
(`parseEnum_skims`), and every enum of a file is found (`parseFile_notes`).  The last note for a name
is the one that counts.  So of an enum that is declared once the right values are collected unless its
name stands behind `enum` once more, as that of a field, a parameter or a const of a type called
`enum` (`collectEnumValues_eq_iff`).
-/

namespace Voodoo.Compiler

open Parse EState Std.Do List Option

/-- **An enum that the scan has the values of**: no `enum` with its name stands behind the one that
declares them, or none declares any. -/
def ScannedLast (tokens : List Token) (name : String) : Prop :=
  (enumNames false tokens).reverse.lookup name = some true ∨ (name, true) ∉ enumNames false tokens

instance (tokens : List Token) (name : String) : Decidable (ScannedLast tokens name) :=
  inferInstanceAs (Decidable (_ ∨ _))

/-- The names and numbers of an enum. -/
def EnumDecl.numbers (e : EnumDecl) : List (String × BitVec 32) :=
  e.values.map fun v => (v.name, v.value)

/-! ### What an enum leaves -/

/-- What the scan notes for an enum. -/
def EnumDecl.note (e : EnumDecl) : String × List EnumValue :=
  (e.name, e.values.map EnumValue.plain)

section

variable {s t : Parser}

theorem parseEnumValues_ne_nil {values : List EnumValue} (h : parseEnumValues s = .ok values t) :
    values ≠ [] := by
  have hloop {turns : Nat} {soFar found : List EnumValue} {u v : Parser}
      (h : loop (at' .comma) parseNextEnumValue turns soFar u = .ok found v) (hne : soFar ≠ []) :
      found ≠ [] := by
    induction turns generalizing soFar u with
    | zero => cases h
    | succ turns ih =>
      obtain ⟨go, u₁, -, hgo⟩ := bind_eq_ok.mp h
      cases go with
      | false =>
        obtain ⟨rfl, -⟩ := EStateM.Result.ok.inj hgo
        exact hne
      | true =>
        obtain ⟨soFar', u₂, hnext, hrest⟩ := bind_eq_ok.mp hgo
        refine ih hrest ?_
        unfold parseNextEnumValue at hnext
        rw [bind_ok advance_run, bind_ok (at_run .rBrace)] at hnext
        split at hnext
        · obtain ⟨rfl, -⟩ := EStateM.Result.ok.inj hnext
          exact hne
        · obtain ⟨value, u₃, -, hvalue⟩ := bind_eq_ok.mp hnext
          obtain ⟨rfl, -⟩ := EStateM.Result.ok.inj hvalue
          exact append_ne_nil_of_right_ne_nil _ (cons_ne_nil _ _)
  obtain ⟨first, u, -, hrun⟩ := bind_eq_ok.mp h
  exact hloop hrun (cons_ne_nil _ _)

theorem enum_closed {values : List EnumValue} {e₁ e : EnumDecl} {name : String}
    (h : (do
      let _ ← expect .rBrace "'\x7d'"
      let _ ← expect .semi "';' after enum body"
      if 1 < (values.filter (·.isDefault)).length then
        parseError ("enum '" ++ name ++ "': at most one value may be [Default]") (← cur).line
      return { name, values, isExtensible := e₁.isExtensible, isNative := e₁.isNative,
               enableIf := e₁.enableIf } : Parse EnumDecl) s = .ok e t) :
    s.tok.type = .rBrace ∧ Calms s t ∧ e.name = name ∧ e.values = values := by
  obtain ⟨close, u, hclose, h₁⟩ := bind_eq_ok.mp h
  obtain ⟨htype, rfl, rfl⟩ := expect_run hclose
  obtain ⟨semi, v, hsemi, h₂⟩ := bind_eq_ok.mp h₁
  obtain ⟨htype', rfl, rfl⟩ := expect_run hsemi
  obtain ⟨-, hfinal⟩ := not_and_run_of_unless_cur h₂
  obtain ⟨rfl, rfl⟩ := EStateM.Result.ok.inj hfinal
  have hend : Calms s s.next := (Clear.refl s).closed_brace htype
  exact ⟨htype, hend.trans ((Clear.refl s.next).closed_semi htype'), rfl, rfl⟩

theorem enumNames_braces {brace close : Token} {inner ts : List Token}
    (hbrace : brace.type = .lBrace) (hinner : ∀ u ∈ inner, u.type ≠ .rBrace)
    (hclose : close.type = .rBrace) :
    enumNames (opensBody (brace :: (inner ++ close :: ts))) (brace :: (inner ++ close :: ts)) =
      enumNames false (close :: ts) := by
  have hopens : opensBody (brace :: (inner ++ close :: ts)) = true := decide_eq_true hbrace
  have hall : ∀ u ∈ brace :: inner, u.type ≠ .rBrace := by
    intro u hu
    rcases mem_cons.mp hu with rfl | hu
    · rw [hbrace]
      exact nofun
    · exact hinner u hu
  have hnext : atEnumHead (close :: ts) = false :=
    atEnumHead_of_fst (Or.inl (by rw [hclose]; exact nofun)) ts
  rw [hopens, enumNames_step hnext]
  exact enumNames_body hall hclose

theorem opensFilledBody_brace {brace : Token} {body : List Token} {closes : Bool}
    (hbrace : brace.type = .lBrace) (h : (body.head?.any (·.type = .rBrace)) = closes) :
    opensFilledBody (brace :: body) = !closes := by
  have hopens : opensBody (brace :: body) = true := decide_eq_true hbrace
  unfold opensFilledBody
  rw [hopens, Bool.true_and, tail_cons, h]

/-- **Where an enum begins, the scan notes its values**, and comes to its end. -/
theorem parseEnum_skims {attrs : List ParsedAttribute} {e : EnumDecl} (hs : WellLexed s.rest)
    (h : parseEnum attrs s = .ok e t) :
    WellLexed t.rest ∧ ∃ notes, Skims s.rest t.rest (e.note :: notes) ∧ ∀ n ∈ notes, n.2 = [] := by
  unfold parseEnum at h
  obtain ⟨_, u, hkeyword, h₁⟩ := bind_eq_ok.mp h
  obtain ⟨e₁, u', hfold, h₂⟩ := bind_eq_ok.mp h₁
  obtain rfl : u' = u := (Still.foldlM still_parseEnumAttribute _ attrs).of_ok hfold
  obtain ⟨name, v, hname, h₃⟩ := bind_eq_ok.mp h₂
  obtain ⟨rfl, htype, htext⟩ := runs_of_triple (fun o => expectKeyword_spec "enum") hkeyword
  obtain ⟨a, hrest, hatype, rfl, hlexed⟩ := expectName_ok (hs.of_next htype nofun) hname
  have hhead : atEnumHead (s.tok :: a :: v.rest) = true :=
    atEnumHead_iff.mpr ⟨htype, htext, hatype⟩
  have hsplit : s.rest = s.tok :: a :: v.rest := by rw [hs.next htype nofun, hrest]
  have hvalues : e₁.values = [] :=
    foldlM_keeps (fun _ _ _ _ _ => values_of_parseEnumAttribute) hfold
  -- What stands between the last enumerator and the end of the enum.
  have hfinish {x : Parser} {values : List EnumValue}
      (hnote : e.note = (a.text, values)) (hx : WellLexed x.rest) (hcalm : Calms x t)
      (hskims : Skims (s.tok :: a :: v.rest) x.rest [(a.text, values)]) :
      WellLexed t.rest ∧ ∃ notes, Skims s.rest t.rest (e.note :: notes) ∧ ∀ n ∈ notes, n.2 = [] := by
    obtain ⟨ht, hgap⟩ := hcalm hx
    obtain ⟨notes, hnotes, hempty⟩ := hgap.skims
    rw [hsplit, hnote]
    exact ⟨ht, notes, hskims.trans hnotes, hempty⟩
  dsimp only at h₃
  rw [bind_ok (at_run .semi)] at h₃
  by_cases hsemi : v.tok.type = .semi
  · rw [decide_eq_true hsemi, if_pos rfl] at h₃
    obtain ⟨rfl, rfl⟩ := EStateM.Result.ok.inj h₃
    have hbody : opensBody v.rest = false := by
      rw [hlexed.next hsemi nofun]
      exact decide_eq_false (by rw [hsemi]; exact nofun)
    refine hfinish ?_ hlexed ((Clear.refl v).closed_semi hsemi) (.stray hhead hbody)
    show (a.text, e₁.values.map EnumValue.plain) = _
    rw [hvalues]
    rfl
  rw [decide_eq_false hsemi, if_neg Bool.false_ne_true] at h₃
  obtain ⟨brace, w, hbrace, h₄⟩ := bind_eq_ok.mp h₃
  obtain ⟨hbody, hbtype, hw⟩ := expect_ok hlexed hbrace nofun
  have hscan : scanEnum v.rest = scanEnumBody (w.rest.length + 1) [] 0 w.rest := by
    have hopens : (v.rest.head?.any (·.type = .lBrace)) = true := by
      rw [hbody]
      exact decide_eq_true hbtype
    unfold scanEnum
    rw [hopens, if_pos rfl, hbody]
    rfl
  rw [bind_ok (at_run .rBrace)] at h₄
  by_cases hrbrace : w.tok.type = .rBrace
  · rw [decide_eq_true hrbrace, if_pos rfl] at h₄
    obtain ⟨-, hcalm, hname', hvalues'⟩ := enum_closed h₄
    have hclose := hw.next hrbrace nofun
    refine hfinish (by unfold EnumDecl.note; rw [hname', hvalues']) hw hcalm
      (.head hhead ?_ ?_ ?_ ?_)
    · rw [hscan, hclose]
      exact scanEnumBody_end (by rw [hrbrace]; exact nofun) (by rw [hrbrace]; exact nofun)
    · rw [hbody]
      exact Nat.le_succ _
    · rw [hbody, hclose]
      exact opensFilledBody_brace hbtype (decide_eq_true hrbrace)
    · rw [hbody, hclose]
      have hinner : ∀ u ∈ ([] : List Token), u.type ≠ .rBrace := nofun
      exact enumNames_braces hbtype hinner hrbrace
  · rw [decide_eq_false hrbrace, if_neg Bool.false_ne_true] at h₄
    obtain ⟨values, x, hread, h₅⟩ := bind_eq_ok.mp h₄
    obtain ⟨hx, hbodyScan⟩ := parseEnumValues_scanned hw hread (Nat.lt_succ_self _)
    obtain ⟨hxtype, hcalm, hname', hvalues'⟩ := enum_closed h₅
    have hrun : Run w x := runs_of_triple (fun o => parseEnumValues_spec) hread
    obtain ⟨-, inner, hinner, hclear⟩ := hrun.clear hw
    refine hfinish (by unfold EnumDecl.note; rw [hname', hvalues']) hx hcalm
      (.head hhead ?_ ?_ ?_ ?_)
    · rw [hscan, hbodyScan]
    · rw [hbody, hinner, length_cons, length_append]
      omega
    · have hfirst : (w.rest.head?.any (·.type = .rBrace)) = false := by
        cases hwrest : w.rest with
        | nil => rfl
        | cons b ts =>
          obtain rfl : w.tok = b := by rw [Parser.tok, hwrest]; rfl
          exact decide_eq_false hrbrace
      have hmap : values.map EnumValue.plain ≠ [] :=
        fun hnil => parseEnumValues_ne_nil hread (map_eq_nil_iff.mp hnil)
      rw [hbody, opensFilledBody_brace hbtype hfirst, isEmpty_eq_false_iff.mpr hmap]
    · rw [hbody, hinner, hx.next hxtype nofun]
      exact enumNames_braces hbtype (fun u hu => (hclear u hu).2) hxtype

end

/-! ### Where enums are parsed -/

/-- The scan goes from `ts` to `us` past the enums `es`: it notes them, and what else it notes has
no values. -/
def Passes (ts us : List Token) (es : List EnumDecl) : Prop :=
  ∃ notes, Skims ts us notes ∧ (∀ n ∈ notes, n.2 = [] ∨ ∃ e ∈ es, n = e.note) ∧
    ∀ e ∈ es, e.note ∈ notes

theorem Calm.passes {ts us : List Token} (h : Calm ts us) : Passes ts us [] := by
  obtain ⟨notes, hskims, hempty⟩ := h.skims
  exact ⟨notes, hskims, fun n hn => Or.inl (hempty n hn), fun _ he => absurd he not_mem_nil⟩

theorem Passes.trans {ts us vs : List Token} {es fs : List EnumDecl} (h : Passes ts us es)
    (h' : Passes us vs fs) : Passes ts vs (es ++ fs) := by
  obtain ⟨notes, hskims, hnotes, hall⟩ := h
  obtain ⟨notes', hskims', hnotes', hall'⟩ := h'
  refine ⟨notes ++ notes', hskims.trans hskims', fun n hn => ?_, fun e he => ?_⟩
  · rcases mem_append.mp hn with hn | hn
    · exact (hnotes n hn).imp_right fun ⟨e, he, hne⟩ => ⟨e, mem_append_left fs he, hne⟩
    · exact (hnotes' n hn).imp_right fun ⟨e, he, hne⟩ => ⟨e, mem_append_right es he, hne⟩
  · rcases mem_append.mp he with he | he
    · exact mem_append_left notes' (hall e he)
    · exact mem_append_right notes (hall' e he)

/-- A part of the parser without enums. -/
def Lulls {α : Type} (x : Parse α) : Prop := ∀ s a t, x s = .ok a t → Calms s t

/-- What is returned has the enums `base` and those that were parsed. -/
def Growing {α : Type} (enums : α → List EnumDecl) (base : List EnumDecl) (x : Parse α) : Prop :=
  ∀ s a t, WellLexed s.rest → x s = .ok a t →
    WellLexed t.rest ∧ ∃ new, Passes s.rest t.rest new ∧ (enums a).Perm (base ++ new)

namespace Lulls

variable {α β : Type} {x : Parse α} {f : α → Parse β}

theorem of_run (h : ∀ s, ∃ a, x s = .ok a s) : Lulls x := by
  intro s b t hrun
  obtain ⟨a, ha⟩ := h s
  obtain ⟨-, rfl⟩ := EStateM.Result.ok.inj (ha.symm.trans hrun)
  exact .refl _

theorem at' (type : TokenType) : Lulls (Parse.at' type) := of_run fun _ => ⟨_, rfl⟩

theorem atKeyword (keyword : String) : Lulls (Parse.atKeyword keyword) := of_run fun _ => ⟨_, rfl⟩

theorem cur : Lulls Parse.cur := of_run fun _ => ⟨_, rfl⟩

theorem get : Lulls (MonadState.get : Parse Parser) := of_run fun _ => ⟨_, rfl⟩

theorem of_spec (h : ∀ o, ⦃fun s => ⌜s = o⌝⦄ x ⦃⇓? _ => fun s => ⌜Calms o s⌝⦄) : Lulls x :=
  fun _ _ _ => runs_of_triple h

end Lulls

namespace Growing

variable {α β : Type} {enums : α → List EnumDecl} {enums' : β → List EnumDecl}
  {base : List EnumDecl} {x : Parse α} {f : α → Parse β}

theorem pure {a : α} (h : (enums a).Perm base) : Growing enums base (Pure.pure a) := by
  intro s b t hs hrun
  obtain ⟨rfl, rfl⟩ := EStateM.Result.ok.inj hrun
  exact ⟨hs, [], Calm.done.passes, by rwa [append_nil]⟩

theorem skip (hx : Lulls x) (hf : ∀ a, Growing enums' base (f a)) :
    Growing enums' base (x >>= f) := by
  intro s b t hs hrun
  obtain ⟨a, u, hxs, hfu⟩ := bind_eq_ok.mp hrun
  obtain ⟨hu, hcalm⟩ := hx s a u hxs hs
  obtain ⟨ht, new, hnew, hperm⟩ := hf a u b t hu hfu
  exact ⟨ht, new, hcalm.passes.trans hnew, hperm⟩

theorem bind (hx : Growing enums base x) (hf : ∀ a, Growing enums' (enums a) (f a)) :
    Growing enums' base (x >>= f) := by
  intro s b t hs hrun
  obtain ⟨a, u, hxs, hfu⟩ := bind_eq_ok.mp hrun
  obtain ⟨hu, new, hnew, hperm⟩ := hx s a u hs hxs
  obtain ⟨ht, new', hnew', hperm'⟩ := hf a u b t hu hfu
  refine ⟨ht, new ++ new', hnew.trans hnew', ?_⟩
  rw [← List.append_assoc]
  exact hperm'.trans (hperm.append_right new')

theorem frame (more : List EnumDecl) (hx : Growing enums [] x) :
    Growing (fun a => more ++ enums a) more x := by
  intro s a t hs hrun
  obtain ⟨ht, new, hnew, hperm⟩ := hx s a t hs hrun
  exact ⟨ht, new, hnew, hperm.append_left more⟩

theorem parseError {msg : String} {line : Nat} :
    Growing enums base (Parse.parseError msg line : Parse α) := by
  intro s a t _ hrun
  cases hrun

theorem loop {test : Parse Bool} {body : α → Parse α} (htest : Lulls test)
    (hbody : ∀ a, Growing enums (enums a) (body a)) (turns : Nat) (a : α) :
    Growing enums (enums a) (Parse.loop test body turns a) := by
  induction turns generalizing a with
  | zero =>
    intro s b t _ hrun
    cases hrun
  | succ turns ih =>
    refine skip htest fun go => ?_
    cases go with
    | true => exact (hbody a).bind ih
    | false => exact pure (List.Perm.refl _)

theorem untilRBrace {body : α → Parse α} (hbody : ∀ a, Growing enums (enums a) (body a)) (a : α) :
    Growing enums (enums a) (Parse.untilRBrace body a) :=
  skip .get fun _ => loop (.of_run fun _ => ⟨_, rfl⟩) hbody _ a

/-- `keyword name { body };`, from behind the name on. -/
theorem block {body : α → Parse α} (hbody : ∀ a, Growing enums (enums a) (body a)) {a : α}
    {what : String} {s t : Parser} {b : β} {k : α → Parse β} (hs : WellLexed s.rest)
    (hk : s.tok.type = .name) (hkw : s.tok.text ≠ "enum") (hn : s.next.tok.type = .name)
    (h : (do
      let _ ← expect .lBrace "'\x7b'"
      let a ← Parse.untilRBrace body a
      let _ ← expect .rBrace "'\x7d'"
      let _ ← expect .semi what
      k a) s.next.next = .ok b t) :
    ∃ a' u new, WellLexed u.rest ∧ Passes s.rest u.rest new ∧ (enums a').Perm (enums a ++ new) ∧
      k a' u = .ok b t := by
  obtain ⟨_, u, hopen, h₁⟩ := bind_eq_ok.mp h
  obtain ⟨hl, -, rfl⟩ := expect_run hopen
  obtain ⟨a', v, hrun, h₂⟩ := bind_eq_ok.mp h₁
  obtain ⟨_, w, hclose, h₃⟩ := bind_eq_ok.mp h₂
  obtain ⟨hr, -, rfl⟩ := expect_run hclose
  obtain ⟨_, x, hend, h₄⟩ := bind_eq_ok.mp h₃
  obtain ⟨hsemi, -, rfl⟩ := expect_run hend
  obtain ⟨hbegun, hfirst⟩ := Calms.opened hk hkw hn hl hs
  obtain ⟨hv, new, hnew, hperm⟩ := untilRBrace hbody a _ _ _ hbegun hrun
  have hclosed : Calms v v.next.next :=
    ((Clear.refl v).closed_brace hr).trans ((Clear.refl v.next).closed_semi hsemi)
  obtain ⟨hlexed, hlast⟩ := hclosed hv
  refine ⟨a', _, new, hlexed, ?_, hperm, h₄⟩
  have hpasses := (hfirst.passes.trans hnew).trans hlast.passes
  rwa [nil_append, append_nil] at hpasses

end Growing

theorem growing_parseEnum (attrs : List ParsedAttribute) :
    Growing (fun e => [e]) [] (parseEnum attrs) := by
  intro s e t hs hrun
  obtain ⟨ht, notes, hskims, hempty⟩ := parseEnum_skims hs hrun
  refine ⟨ht, [e], ⟨_, hskims, fun n hn => ?_, fun e' he' => ?_⟩, List.Perm.refl _⟩
  · rcases mem_cons.mp hn with rfl | hn
    · exact Or.inr ⟨e, mem_singleton_self e, rfl⟩
    · exact Or.inl (hempty n hn)
  · rw [mem_singleton.mp he']
    exact mem_cons_self

/-! ### The enums of a file -/

/-- The enums of an interface, its own and those of its structs. -/
def Interface.allEnums (i : Interface) : List EnumDecl :=
  i.enums ++ i.structs.flatMap (·.enums)

/-- The enums a file declares, wherever they are nested. -/
def Module.allEnums (m : Module) : List EnumDecl :=
  m.enums ++ m.structs.flatMap (·.enums) ++ m.interfaces.flatMap (·.allEnums)

theorem perm_append_right_comm (a b c : List EnumDecl) : (a ++ c ++ b).Perm (a ++ b ++ c) := by
  rw [List.append_assoc, List.append_assoc]
  exact perm_append_comm.append_left a

section

variable {env : Env}

theorem growing_parseStructMember (d : StructDecl) :
    Growing (·.enums) d.enums (parseStructMember env d) := by
  unfold parseStructMember
  refine Growing.skip (.of_spec fun _ => parseOptionalAttributes_calms) fun attrs => ?_
  refine Growing.skip (.atKeyword "enum") fun _ => ?_
  split
  · exact ((growing_parseEnum attrs).frame d.enums).bind fun e => .pure (List.Perm.refl _)
  refine Growing.skip (.atKeyword "const") fun _ => ?_
  split
  · exact Growing.skip (.of_spec fun _ => parseConstIn_calms d.name attrs) fun _ => .pure (List.Perm.refl _)
  · exact Growing.skip (.of_spec fun _ => parseStructField_calms attrs) fun _ => .pure (List.Perm.refl _)

theorem growing_parseStruct (attrs : List ParsedAttribute) :
    Growing (·.enums) [] (parseStruct env attrs) := by
  intro s d t hs h
  obtain ⟨_, u, hkey, h₁⟩ := bind_eq_ok.mp h
  obtain ⟨rfl, htype, htext⟩ := runs_of_triple (fun o => expectKeyword_spec "struct") hkey
  have hattrs := fun o => foldlM_spec (fun d a o => parseStructAttribute_spec (o := o) d a) attrs
    ({ name := "" } : StructDecl) o
  obtain ⟨d₁, u', hfold, h₂⟩ := bind_eq_ok.mp h₁
  obtain ⟨rfl, hblank⟩ := runs_of_triple hattrs hfold
  obtain ⟨-, henums, -⟩ := hblank ⟨rfl, rfl, rfl⟩
  obtain ⟨name, v, hname, h₃⟩ := bind_eq_ok.mp h₂
  obtain ⟨rfl, hn, rfl⟩ := runs_of_triple (fun o => expectName_spec "struct name") hname
  have hkw : s.tok.text ≠ "enum" := by
    rw [htext]
    exact nofun
  rw [bind_ok (at_run .semi)] at h₃
  by_cases hsemi : s.next.next.tok.type = .semi
  · rw [decide_eq_true hsemi, if_pos rfl] at h₃
    obtain ⟨rfl, rfl⟩ := EStateM.Result.ok.inj h₃
    have hrun : Run s s.next.next :=
      (Run.next_of_type (Or.inl ⟨by rw [htype]; exact nofun, by rw [htype]; exact nofun⟩)).trans
        (Run.next_of_type (Or.inl ⟨by rw [hn]; exact nofun, by rw [hn]; exact nofun⟩))
    obtain ⟨ht, hcalm⟩ := hrun.clear.closed_semi hsemi hs
    exact ⟨ht, [], hcalm.passes, by rw [henums]; exact List.Perm.refl _⟩
  · rw [decide_eq_false hsemi, if_neg Bool.false_ne_true] at h₃
    have hmember : ∀ d, Growing (·.enums) d.enums (parseStructMember env d) :=
      growing_parseStructMember
    obtain ⟨d₂, w, new, hw, hnew, hperm, hend⟩ := Growing.block hmember hs htype hkw hn h₃
    obtain ⟨rfl, rfl⟩ := EStateM.Result.ok.inj hend
    exact ⟨hw, new, hnew, by rwa [henums] at hperm⟩

theorem growing_parseStructIn (container : String) (attrs : List ParsedAttribute) :
    Growing (·.enums) [] (parseStructIn env container attrs) := by
  unfold parseStructIn
  refine (growing_parseStruct attrs).bind fun d => ?_
  exact Growing.skip (.of_spec fun _ => takeEmbedOrder_calms) fun _ => .pure (List.Perm.refl _)

theorem growing_parseInterfaceMember (i : Interface) :
    Growing (·.allEnums) i.allEnums (parseInterfaceMember env i) := by
  unfold parseInterfaceMember
  refine Growing.skip (.of_spec fun _ => parseOptionalAttributes_calms) fun attrs => ?_
  refine Growing.skip (.atKeyword "enum") fun _ => ?_
  split
  · refine ((growing_parseEnum attrs).frame i.allEnums).bind fun e => .pure ?_
    exact perm_append_right_comm _ _ _
  refine Growing.skip (.atKeyword "struct") fun _ => ?_
  split
  · have hstruct : Growing (·.enums) [] (parseStructIn env i.name attrs) :=
      growing_parseStructIn i.name attrs
    refine (hstruct.frame i.allEnums).bind fun d => .pure ?_
    unfold Interface.allEnums
    rw [flatMap_append, flatMap_singleton, List.append_assoc]
  refine Growing.skip (.atKeyword "union") fun _ => ?_
  split
  · exact Growing.skip (.of_spec fun _ => parseUnionIn_calms i.name attrs)
      fun _ => .pure (List.Perm.refl _)
  refine Growing.skip (.atKeyword "const") fun _ => ?_
  split
  · exact Growing.skip (.of_spec fun _ => parseConstIn_calms i.name attrs)
      fun _ => .pure (List.Perm.refl _)
  · exact Growing.skip (.of_spec fun _ => parseMethod_calms attrs i.name)
      fun _ => .pure (List.Perm.refl _)

theorem growing_parseInterface (attrs : List ParsedAttribute) :
    Growing (·.allEnums) [] (parseInterface env attrs) := by
  intro s i t hs h
  have hattrs := fun o => foldlM_spec (fun i a o => parseInterfaceAttribute_spec (o := o) i a) attrs
    ({ name := "" } : Interface) o
  obtain ⟨i₁, u', hfold, h₁⟩ := bind_eq_ok.mp h
  obtain ⟨rfl, hblank⟩ := runs_of_triple hattrs hfold
  obtain ⟨-, henums, -, hstructs, -⟩ := hblank ⟨rfl, rfl, rfl, rfl, rfl⟩
  obtain ⟨_, u, hkey, h₂⟩ := bind_eq_ok.mp h₁
  obtain ⟨rfl, htype, htext⟩ := runs_of_triple (fun o => expectKeyword_spec "interface") hkey
  obtain ⟨name, v, hname, h₃⟩ := bind_eq_ok.mp h₂
  obtain ⟨rfl, hn, rfl⟩ := runs_of_triple (fun o => expectName_spec "interface name") hname
  have hkw : u'.tok.text ≠ "enum" := by
    rw [htext]
    exact nofun
  have hmember : ∀ i, Growing (·.allEnums) i.allEnums (parseInterfaceMember env i) :=
    growing_parseInterfaceMember
  obtain ⟨i₂, w, new, hw, hnew, hperm, hend⟩ := Growing.block hmember hs htype hkw hn h₃
  have hnone : ({ i₁ with name := u'.next.tok.text } : Interface).allEnums = [] := by
    unfold Interface.allEnums
    rw [henums, hstructs]
    rfl
  rw [hnone, nil_append] at hperm
  obtain ⟨-, hfinal⟩ := not_and_run_of_unless_cur hend
  obtain ⟨rfl, rfl⟩ := EStateM.Result.ok.inj hfinal
  exact ⟨hw, new, hnew, hperm⟩

theorem growing_parseTopLevel (m : Module) :
    Growing (·.allEnums) m.allEnums (parseTopLevel env m) := by
  have hsame {m' : Module} (h : m'.allEnums = m.allEnums) :
      Growing (·.allEnums) m.allEnums (pure m' : Parse Module) := .pure (h ▸ List.Perm.refl _)
  unfold parseTopLevel
  refine Growing.skip .get fun _ => Growing.skip (.at' .lBracket) fun _ => ?_
  refine Growing.skip (.of_spec fun _ => takeTopAttributes_calms) fun attrs => ?_
  refine Growing.skip .cur fun token => ?_
  refine Growing.skip (.atKeyword "interface") fun _ => ?_
  split
  · have hinterface : Growing (·.allEnums) [] (parseInterface env attrs) :=
      growing_parseInterface attrs
    refine (hinterface.frame m.allEnums).bind fun i => .pure ?_
    unfold Module.allEnums
    rw [flatMap_append, flatMap_singleton, ← List.append_assoc]
  refine Growing.skip (.atKeyword "union") fun _ => ?_
  split
  · exact Growing.skip (.of_spec fun _ => parseUnionIn_calms "" attrs) fun _ => hsame rfl
  refine Growing.skip (.atKeyword "enum") fun _ => ?_
  split
  · refine ((growing_parseEnum attrs).frame m.allEnums).bind fun e => .pure ?_
    have hswap := perm_append_right_comm m.enums
      (m.structs.flatMap (·.enums) ++ m.interfaces.flatMap (·.allEnums)) [e]
    unfold Module.allEnums
    rw [List.append_assoc, List.append_assoc m.enums (m.structs.flatMap (·.enums))]
    exact hswap
  refine Growing.skip (.atKeyword "struct") fun _ => ?_
  split
  · have hstruct : Growing (·.enums) [] (parseStructIn env "" attrs) :=
      growing_parseStructIn "" attrs
    refine (hstruct.frame m.allEnums).bind fun d => .pure ?_
    unfold Module.allEnums
    rw [flatMap_append, flatMap_singleton, ← List.append_assoc]
    exact perm_append_right_comm _ _ _
  refine Growing.skip (.atKeyword "const") fun _ => ?_
  split
  · exact Growing.skip (.of_spec fun _ => parseConstIn_calms "" attrs) fun _ => hsame rfl
  refine Growing.skip (.atKeyword "feature") fun _ => ?_
  split
  · refine Growing.skip (.of_spec fun _ => parseFeature_calms) fun f => ?_
    refine Growing.skip (.of_spec fun _ => ?_) fun _ => hsame rfl
    have hattrs := fun o => foldlM_fillEnableIf_spec (o := o) attrs f.enableIf
    refine triple_of_runs (R := fun o _ s => Calms o s) (fun s a t h => ?_) _
    rw [runs_of_triple hattrs h]
    exact .refl s
  split
  · exact .parseError
  refine Growing.skip (.atKeyword "module") fun _ => ?_
  split
  · exact .parseError
  refine Growing.skip (.atKeyword "import") fun _ => ?_
  split
  · exact .parseError
  · exact .parseError

theorem parseDecls_passes {s t : Parser} {m : Module} (hs : WellLexed s.rest)
    (h : parseDecls env s = .ok m t) :
    t.tok.type = .end ∧ WellLexed t.rest ∧ ∃ new, Passes s.rest t.rest new ∧ m.allEnums.Perm new := by
  obtain ⟨s', u, hget, h₁⟩ := bind_eq_ok.mp h
  obtain ⟨rfl, rfl⟩ := EStateM.Result.ok.inj hget
  obtain ⟨m', v, hloop, h₂⟩ := bind_eq_ok.mp h₁
  obtain ⟨v', w, hget', h₃⟩ := bind_eq_ok.mp h₂
  obtain ⟨rfl, rfl⟩ := EStateM.Result.ok.inj hget'
  obtain ⟨rfl, rfl⟩ := EStateM.Result.ok.inj h₃
  have hall : Growing (·.allEnums) [] (loop (do return !(← at' .end)) (parseTopLevel env)
      (s.rest.length + 1) {}) :=
    Growing.loop (.of_run fun _ => ⟨_, rfl⟩) growing_parseTopLevel _ {}
  have hend {turns : Nat} {a b : Module} {x y : Parser}
      (h : loop (do return !(← at' .end)) (parseTopLevel env) turns a x = .ok b y) :
      y.tok.type = .end := by
    induction turns generalizing a x with
    | zero => cases h
    | succ turns ih =>
      obtain ⟨go, x₁, htest, hgo⟩ := bind_eq_ok.mp h
      rw [bind_ok (at_run .end)] at htest
      obtain ⟨rfl, rfl⟩ := EStateM.Result.ok.inj htest
      by_cases hx : x.tok.type = .end
      · rw [decide_eq_true hx] at hgo
        obtain ⟨-, rfl⟩ := EStateM.Result.ok.inj hgo
        exact hx
      · rw [decide_eq_false hx] at hgo
        obtain ⟨c, x₂, -, hmore⟩ := bind_eq_ok.mp hgo
        exact ih hmore
  obtain ⟨ht, new, hnew, hperm⟩ := hall _ _ _ hs hloop
  exact ⟨hend hloop, ht, new, hnew, hperm⟩

end

/-! ### The enums of a file -/

section

variable {content : String} {tokens : List Token} {p : Prelude} {m : Module} {s : Parser}

/-- **What is collected from a file** are the notes made for its enums, and notes without values. -/
theorem parseFile_notes (hlex : tokenize content = .ok tokens)
    (h : parseFile p tokens { rest := tokens } = .ok m s) :
    ∃ notes : List (String × List EnumValue), collectEnumValues tokens = .ok (notes.map scannedEntry).reverse ∧
      enumNames false tokens = notes.map (fun n => (n.1, !n.2.isEmpty)) ∧
      (∀ n ∈ notes, n.2 = [] ∨ ∃ e ∈ m.allEnums, n = e.note) ∧ ∀ e ∈ m.allEnums, e.note ∈ notes := by
  have hs := wellLexed_of_tokenize hlex
  obtain ⟨scanned, u, hscan, h₁⟩ := bind_eq_ok.mp h
  obtain ⟨-, rfl⟩ := liftResult_run hscan
  obtain ⟨header, v, hheader, h₂⟩ := bind_eq_ok.mp h₁
  obtain ⟨hv, hfirst⟩ := runs_of_triple (fun o => parseHeader_calms) hheader hs
  have hvsuffix := (lexed_of_good good_parseHeader hs hheader).2
  obtain ⟨m₁, w, hbody, h₃⟩ := bind_eq_ok.mp h₂
  obtain ⟨rfl, rfl⟩ := EStateM.Result.ok.inj h₃
  obtain ⟨_, v₁, hseed, h₄⟩ := bind_eq_ok.mp hbody
  obtain ⟨-, rfl⟩ := EStateM.Result.ok.inj hseed
  obtain ⟨m₂, x, hdecls, h₅⟩ := bind_eq_ok.mp h₄
  have hseeded : WellLexed (Parser.seed p v).rest := hv
  obtain ⟨hend, hx, es, hes, hperm⟩ := parseDecls_passes hseeded hdecls
  have hxsuffix := (lexed_of_good good_parseDecls hseeded hdecls).2
  obtain ⟨_, y, hcheck, h₆⟩ := bind_eq_ok.mp h₅
  obtain ⟨rfl, rfl⟩ := EStateM.Result.ok.inj h₆
  have hlast : x.rest = [x.tok] := by
    have hne : x.rest ≠ [] := by
      obtain ⟨last, hlast, -⟩ := hx.ended
      rintro hnil
      rw [hnil] at hlast
      cases hlast
    obtain ⟨a, rest, hrest⟩ := exists_cons_of_ne_nil hne
    obtain rfl : x.tok = a := by rw [Parser.tok, hrest]; rfl
    have hsuffix : x.tok :: rest <:+ tokens := hrest ▸ hxsuffix.trans hvsuffix
    rw [hrest, ends_of_tokenize hlex hsuffix hend]
  obtain ⟨notes, hskims, hnotes, hall⟩ := hfirst.passes.trans hes
  rw [hlast] at hskims
  refine ⟨notes, ?_, ?_, fun n hn => ?_, fun e he => hall e (hperm.mem_iff.mp he)⟩
  · obtain ⟨fuel, hfuel, hrun⟩ := hskims.collects (tokens.length + 1) [] (Nat.lt_succ_self _)
    obtain ⟨fuel, rfl⟩ : ∃ n, fuel = n + 1 := ⟨fuel - 1, by omega⟩
    rw [append_nil] at hrun
    exact hrun
  · exact hskims.names.trans (append_nil _)
  · exact (hnotes n hn).imp_right (Exists.imp fun _ => And.imp_left hperm.mem_iff.mpr)

theorem lookup_map_entries {α β : Type} (f : String → α → β) (l : List (String × α)) (k : String) :
    (l.map fun p => (p.1, f p.1 p.2)).lookup k = (l.lookup k).map (f k) := by
  induction l with
  | nil => rfl
  | cons p l ih =>
    obtain ⟨k', a⟩ := p
    rw [map_cons, List.lookup_cons, List.lookup_cons, ih]
    by_cases hk : k = k'
    · obtain rfl := hk
      simp only [beq_self_eq_true, map_some]
    · rw [beq_eq_false_iff_ne.mpr hk]

theorem eq_of_count_name {es : List EnumDecl} {e e' : EnumDecl}
    (h : (es.map (·.name)).count e.name = 1) (he : e ∈ es) (he' : e' ∈ es)
    (hname : e'.name = e.name) : e' = e := by
  induction es with
  | nil => cases he
  | cons a es ih =>
    rw [map_cons, List.count_cons] at h
    have hmore {b : EnumDecl} (hb : b ∈ es) (hbname : b.name = e.name) :
        0 < (es.map (·.name)).count e.name :=
      List.count_pos_iff.mpr (List.mem_map.mpr ⟨b, hb, hbname⟩)
    by_cases ha : a.name = e.name
    · rw [if_pos (beq_iff_eq.mpr ha)] at h
      rcases mem_cons.mp he with rfl | he
      · rcases mem_cons.mp he' with rfl | he'
        · rfl
        · exact absurd (hmore he' hname) (by omega)
      · exact absurd (hmore he rfl) (by omega)
    · rw [if_neg (fun hb => ha (beq_iff_eq.mp hb)), Nat.add_zero] at h
      rcases mem_cons.mp he with rfl | he
      · exact absurd rfl ha
      rcases mem_cons.mp he' with rfl | he'
      · exact absurd hname ha
      · exact ih h he he'

/-- **The pre-scan has the values of an enum that is declared once if and only if its name does not
stand behind `enum` once more** behind its declaration, or it has none. -/
theorem collectEnumValues_eq_iff (hlex : tokenize content = .ok tokens)
    (h : parseFile p tokens { rest := tokens } = .ok m s) {e : EnumDecl} (he : e ∈ m.allEnums)
    (hone : (m.allEnums.map (·.name)).count e.name = 1) :
    (∃ found d, collectEnumValues tokens = .ok found ∧ found.lookup e.name = some d ∧
      d.numbers = e.numbers) ↔
    ScannedLast tokens e.name := by
  obtain ⟨notes, hcollect, hnames, hnotes, hall⟩ := parseFile_notes hlex h
  -- A note with the name is that of the enum, or one without values.
  have hkind {values : List EnumValue} (hnote : (e.name, values) ∈ notes) :
      values = [] ∨ values = e.values.map EnumValue.plain := by
    rcases hnotes _ hnote with hnil | ⟨e', he', heq⟩
    · exact Or.inl hnil
    · obtain ⟨hname, hvalues⟩ := Prod.mk.inj heq
      obtain rfl := eq_of_count_name hone he he' hname.symm
      exact Or.inr hvalues
  obtain ⟨values, hvalues⟩ := isSome_iff_exists.mp (lookup_isSome_iff.mpr
    ⟨e.note, mem_reverse.mpr (hall e he), beq_self_eq_true e.name⟩)
  have hlast : values = [] ∨ values = e.values.map EnumValue.plain := by
    obtain ⟨before, after, hsplit, -⟩ := lookup_eq_some_iff.mp hvalues
    refine hkind ?_
    rw [← mem_reverse, hsplit]
    exact mem_append_right before mem_cons_self
  have hfound : (notes.map scannedEntry).reverse.lookup e.name =
      some { name := e.name, values } := by
    rw [← map_reverse]
    refine (lookup_map_entries
      (fun name values => ({ name, values } : EnumDecl)) notes.reverse e.name).trans ?_
    rw [hvalues, map_some]
  have hcounts : (enumNames false tokens).reverse.lookup e.name = some (!values.isEmpty) := by
    rw [hnames, ← map_reverse]
    refine (lookup_map_entries (fun _ (values : List EnumValue) => !values.isEmpty) _ _).trans ?_
    rw [hvalues, map_some]
  have hfilled : (e.name, true) ∈ enumNames false tokens ↔ e.values ≠ [] := by
    rw [hnames, List.mem_map]
    constructor
    · rintro ⟨⟨name, vs⟩, hn, heq⟩ hnil
      obtain ⟨rfl, hvs⟩ := Prod.mk.inj heq
      have hempty : vs = [] := by
        rcases hkind hn with h | h
        · exact h
        · rw [h, hnil]
          rfl
      rw [hempty] at hvs
      cases hvs
    · intro hne
      refine ⟨e.note, hall e he, ?_⟩
      have hmap : e.values.map EnumValue.plain ≠ [] := fun hnil => hne (map_eq_nil_iff.mp hnil)
      show (e.name, !(e.values.map EnumValue.plain).isEmpty) = _
      rw [isEmpty_eq_false_iff.mpr hmap]
      rfl
  unfold ScannedLast
  rw [hcounts, hfilled, not_not]
  constructor
  · rintro ⟨found, d, hrun, hd, hsame⟩
    obtain rfl := Except.ok.inj (hcollect.symm.trans hrun)
    obtain rfl := some.inj (hfound.symm.trans hd)
    by_cases hnil : values = []
    · right
      rw [hnil] at hsame
      exact map_eq_nil_iff.mp hsame.symm
    · left
      rw [isEmpty_eq_false_iff.mpr hnil]
      rfl
  · intro hcond
    refine ⟨_, _, hcollect, hfound, ?_⟩
    unfold EnumDecl.numbers
    rcases hlast with rfl | rfl
    · rcases hcond with hfalse | hnil
      · cases hfalse
      · rw [hnil]
    · rw [List.map_map]
      rfl

theorem exists_of_allEnums {name : String} {numbers : List (String × BitVec 32)}
    (h : decide (m.allEnums.map (fun e => (e.name, e.numbers)) = [(name, numbers)]) = true) :
    ∃ e, m.allEnums = [e] ∧ e.name = name ∧ e.numbers = numbers := by
  obtain ⟨e, he, hmap⟩ := map_eq_singleton_iff.mp (of_decide_eq_true h)
  obtain ⟨hname, hnumbers⟩ := Prod.mk.inj hmap
  exact ⟨e, he, hname, hnumbers⟩

/-- An enum in an interface, with a negative number, an alias, an attribute and a last comma. -/
def nestedSignal : String :=
  "interface Line \x7b enum Signal \x7b LOW = -1, [Default] HIGH = LOW, OFF, \x7d; \x7d;"

theorem collectEnumValues_eq_iff_nested : ∃ tokens m s, tokenize nestedSignal = .ok tokens ∧
    parseFile {} tokens { rest := tokens } = .ok m s ∧ ∃ e ∈ m.allEnums, e.name = "Signal" ∧
      ∃ found d, collectEnumValues tokens = .ok found ∧ found.lookup e.name = some d ∧
        d.numbers = e.numbers := by
  obtain ⟨m, hm, htest⟩ := exists_ok_of_any (x := parseText nestedSignal)
    (p := fun m => m.allEnums.map (fun e => (e.name, e.numbers)) =
      [("Signal", [("LOW", -1), ("HIGH", -1), ("OFF", 0)])]) (by decide +kernel)
  obtain ⟨tokens, s, hlex, hfile⟩ := parseFile_of_parseText hm
  obtain ⟨e, he, hname, -⟩ := exists_of_allEnums htest
  have hmem : e ∈ m.allEnums := he ▸ mem_singleton_self e
  have hone : (m.allEnums.map (·.name)).count e.name = 1 := by
    rw [he]
    exact count_singleton_self
  obtain ⟨tokens', hlex', hlast⟩ := exists_ok_of_any (x := tokenize nestedSignal)
    (p := fun ts => ScannedLast ts "Signal") (by decide +kernel)
  obtain rfl := Except.ok.inj (hlex'.symm.trans hlex)
  refine ⟨_, m, s, hlex, hfile, e, hmem, hname, ?_⟩
  refine (collectEnumValues_eq_iff hlex hfile hmem hone).mpr ?_
  rw [hname]
  exact of_decide_eq_true hlast

/-- A parameter of a type called `enum` has the name of an enum before it. -/
def straySignal : String :=
  "enum Signal \x7b LOW, HIGH \x7d; interface Line \x7b Raise(enum Signal); \x7d;"

theorem collectEnumValues_stray : ∃ tokens m s, tokenize straySignal = .ok tokens ∧
    parseFile {} tokens { rest := tokens } = .ok m s ∧ ∃ e ∈ m.allEnums,
      (m.allEnums.map (·.name)).count e.name = 1 ∧
      ¬ ∃ found d, collectEnumValues tokens = .ok found ∧ found.lookup e.name = some d ∧
        d.numbers = e.numbers := by
  obtain ⟨m, hm, htest⟩ := exists_ok_of_any (x := parseText straySignal)
    (p := fun m => m.allEnums.map (fun e => (e.name, e.numbers)) =
      [("Signal", [("LOW", 0), ("HIGH", 1)])]) (by decide +kernel)
  obtain ⟨tokens, s, hlex, hfile⟩ := parseFile_of_parseText hm
  obtain ⟨e, he, hname, hnumbers⟩ := exists_of_allEnums htest
  refine ⟨tokens, m, s, hlex, hfile, e, he ▸ mem_singleton_self e, ?_, ?_⟩
  · rw [he]
    exact count_singleton_self
  rintro ⟨found, d, hrun, hd, hsame⟩
  obtain ⟨tokens', hlex', hscan⟩ := exists_ok_of_any (x := tokenize straySignal)
    (p := fun ts => (collectEnumValues ts).toOption.bind (·.lookup "Signal") =
      some { name := "Signal", values := [] }) (by decide +kernel)
  obtain rfl := Except.ok.inj (hlex'.symm.trans hlex)
  have hscan := of_decide_eq_true hscan
  rw [hrun] at hscan
  rw [hname] at hd
  obtain rfl := some.inj (hd.symm.trans hscan)
  have hnone : ([] : List (String × BitVec 32)) = e.numbers := hsame
  rw [hnumbers] at hnone
  cases hnone

end

end Voodoo.Compiler
