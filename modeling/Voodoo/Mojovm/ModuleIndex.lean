import Voodoo.Compiler.Ordinals
import Voodoo.Compiler.BodyOutcomes
import Voodoo.Compiler.Files

/-!
# Modules by their text

To find a file by its module, `EnsureIndex` does not parse it: `ModuleOf` takes the module from the
first line that reads as a module statement.  The parser takes it from the statement, which need not
be at the start of a line nor in one piece, and to which comments do not count.  The two agree if
that line and the statement name one module (`moduleOf_agrees_iff`).
-/

namespace Voodoo.Mojovm

open Compiler Compiler.Parse List

/-! ### The scan -/

def moduleKey : List Char := "module ".toList

def isBlank (c : Char) : Bool := c = ' ' || c = '\t'

def endsWord (c : Char) : Bool := c = ';' || c = '\n' || isBlank c

def isLineEnd (c : Char) : Bool := c = '\n' || c = '\r'

/-- What is returned for the key, by what is behind it. -/
def wordBehind (cs : List Char) : Option (List Char) :=
  let cs := cs.dropWhile isBlank
  let word := cs.takeWhile (!endsWord ·)
  if word ≠ [] ∧ (cs.dropWhile (!endsWord ·)).head?.any (fun c => c = ';' || isBlank c) then some word
  else none

/-- The loop over `text.find(key, at)`, where `before` is `text[at - 1]`. -/
def moduleOfFrom : Nat → Option Char → List Char → List Char
  | 0, _, _ => []
  | _ + 1, _, [] => []
  | fuel + 1, before, c :: cs =>
    if moduleKey <+: c :: cs then
      let behind := (c :: cs).drop moduleKey.length
      if before.any (!isLineEnd ·) then moduleOfFrom fuel (some ' ') behind
      else match wordBehind behind with
        | some word => word
        | none => moduleOfFrom fuel (some ' ') behind
    else moduleOfFrom fuel (some c) cs

/-- `ModuleOf`. -/
def moduleOf (text : String) : String :=
  String.ofList (moduleOfFrom (text.length + 1) none text.toList)

/-! ### Lines that read as a statement -/

/-- `module`, a blank, and a word that ends before the line does. -/
def ReadsModule (cs word : List Char) : Prop :=
  ∃ blanks stop rest, cs = moduleKey ++ blanks ++ word ++ stop :: rest ∧
    (∀ c ∈ blanks, isBlank c = true) ∧ word ≠ [] ∧ (∀ c ∈ word, endsWord c = false) ∧
      (stop = ';' ∨ isBlank stop = true)

/-- Behind `pre` a line starts that reads as a statement. -/
def ModuleLine (pre cs word : List Char) : Prop :=
  (∀ c, pre.getLast? = some c → isLineEnd c = true) ∧ ReadsModule cs word

/-- No line reads so that starts in front of the end of `pre`. -/
def NoneBefore (text pre : List Char) : Prop :=
  ∀ pre' cs word, text = pre' ++ cs → pre'.length < pre.length → ¬ ModuleLine pre' cs word

/-- The first such line of a text. -/
def FirstModuleLine (text word : List Char) : Prop :=
  ∃ pre cs, text = pre ++ cs ∧ ModuleLine pre cs word ∧ NoneBefore text pre

def NoModuleLine (text : List Char) : Prop :=
  ∀ pre cs word, text = pre ++ cs → ¬ ModuleLine pre cs word

theorem wordBehind_eq_some_iff (cs word : List Char) :
    wordBehind cs = some word ↔ ReadsModule (moduleKey ++ cs) word := by
  constructor
  · intro h
    unfold wordBehind at h
    dsimp only at h
    split at h
    case isFalse => cases h
    case isTrue hword =>
      obtain ⟨hne, hstop⟩ := hword
      obtain rfl := Option.some.inj h
      cases hdrop : (cs.dropWhile isBlank).dropWhile (!endsWord ·) with
      | nil =>
        rw [hdrop] at hstop
        cases hstop
      | cons stop rest =>
        rw [hdrop] at hstop
        refine ⟨cs.takeWhile isBlank, stop, rest, ?_, fun c => mem_takeWhile_imp, hne, ?_, ?_⟩
        · rw [List.append_assoc, List.append_assoc, ← hdrop, takeWhile_append_dropWhile,
            takeWhile_append_dropWhile]
        · intro c hc
          have hpass := mem_takeWhile_imp hc
          exact (Bool.not_eq_true' _).mp hpass
        · have hor : (stop = ';' || isBlank stop) = true := hstop
          rw [Bool.or_eq_true, decide_eq_true_eq] at hor
          exact hor
  · rintro ⟨blanks, stop, rest, hcs, hblanks, hne, hword, hstop⟩
    have hcs : cs = blanks ++ (word ++ stop :: rest) := by
      rw [List.append_assoc, List.append_assoc] at hcs
      exact append_cancel_left hcs
    have hstopEnds : endsWord stop = true := by
      unfold endsWord
      rcases hstop with rfl | hblank
      · rfl
      · rw [hblank, Bool.or_true]
    have hhead : ∀ c cs', word ++ stop :: rest = c :: cs' → isBlank c = false := by
      intro c cs' heq
      cases word with
      | nil => exact absurd rfl hne
      | cons w word =>
        obtain rfl := (List.cons.inj heq).1
        have hw := hword w mem_cons_self
        unfold endsWord at hw
        rw [Bool.or_eq_false_iff] at hw
        exact hw.2
    have hdropBlanks : cs.dropWhile isBlank = word ++ stop :: rest := by
      rw [hcs, dropWhile_append_of_pos hblanks]
      cases hsplit : word ++ stop :: rest with
      | nil => rfl
      | cons c cs' => exact dropWhile_cons_of_neg (by rw [hhead c cs' hsplit]; simp)
    have htake : (word ++ stop :: rest).takeWhile (!endsWord ·) = word := by
      rw [takeWhile_append_of_pos, takeWhile_cons_of_neg, append_nil]
      · rw [hstopEnds]
        exact Bool.false_ne_true
      · intro c hc
        rw [hword c hc]
        rfl
    have hdropWord : (word ++ stop :: rest).dropWhile (!endsWord ·) = stop :: rest := by
      rw [dropWhile_append_of_pos, dropWhile_cons_of_neg]
      · rw [hstopEnds]
        exact Bool.false_ne_true
      · intro c hc
        rw [hword c hc]
        rfl
    have hany : (stop = ';' || isBlank stop) = true := by
      rw [Bool.or_eq_true, decide_eq_true_eq]
      exact hstop
    unfold wordBehind
    dsimp only
    rw [hdropBlanks, htake, hdropWord]
    exact if_pos ⟨hne, hany⟩

theorem ReadsModule.head {cs word : List Char} (h : ReadsModule cs word) : cs.head? = some 'm' := by
  obtain ⟨blanks, stop, rest, rfl, -⟩ := h
  rfl

section

variable {text pre cs : List Char} {c : Char}

theorem NoneBefore.snoc (h : NoneBefore text pre) (htext : text = pre ++ c :: cs)
    (hnot : ∀ word, ¬ ModuleLine pre (c :: cs) word) : NoneBefore text (pre ++ [c]) := by
  intro pre' cs' word htext' hlt
  rw [length_append, length_singleton] at hlt
  rcases Nat.lt_succ_iff_lt_or_eq.mp hlt with hlt | heq
  · exact h pre' cs' word htext' hlt
  · obtain ⟨rfl, rfl⟩ := append_inj (htext'.symm.trans htext) heq
    exact hnot word

theorem NoneBefore.skip {skipped : List Char} (h : NoneBefore text pre)
    (htext : text = pre ++ (skipped ++ cs)) (hm : 'm' ∉ skipped) :
    NoneBefore text (pre ++ skipped) := by
  induction skipped generalizing pre with
  | nil =>
    rw [append_nil]
    exact h
  | cons c skipped ih =>
    rw [mem_cons, not_or] at hm
    have hnext : NoneBefore text (pre ++ [c]) := h.snoc htext fun word hline =>
      hm.1 (Option.some.inj hline.2.head).symm
    have hrest := ih hnext (by rw [htext, List.append_assoc]; rfl) hm.2
    rw [List.append_assoc] at hrest
    exact hrest

theorem NoneBefore.key (h : NoneBefore text pre) (htext : text = pre ++ (moduleKey ++ cs))
    (hnot : ∀ word, ¬ ModuleLine pre (moduleKey ++ cs) word) :
    NoneBefore text (pre ++ moduleKey) := by
  have hfirst : NoneBefore text (pre ++ ['m']) := h.snoc htext hnot
  have hsplit : text = pre ++ ['m'] ++ ("odule ".toList ++ cs) := by
    rw [htext, List.append_assoc]
    rfl
  have hrest := hfirst.skip hsplit (by decide)
  rw [List.append_assoc] at hrest
  exact hrest

theorem ReadsModule.unique {a b : List Char} (ha : ReadsModule cs a) (hb : ReadsModule cs b) :
    a = b := by
  obtain ⟨blanks, stop, rest, hcs, -⟩ := id ha
  rw [hcs, List.append_assoc, List.append_assoc] at ha hb
  exact Option.some.inj (((wordBehind_eq_some_iff _ a).mpr ha).symm.trans
    ((wordBehind_eq_some_iff _ b).mpr hb))

theorem FirstModuleLine.unique {a b : List Char} (ha : FirstModuleLine text a)
    (hb : FirstModuleLine text b) : a = b := by
  obtain ⟨pre, cs, htext, hline, hnone⟩ := ha
  obtain ⟨pre', cs', htext', hline', hnone'⟩ := hb
  rcases Nat.lt_trichotomy pre.length pre'.length with hlt | heq | hlt
  · exact absurd hline (hnone' pre cs a htext hlt)
  · obtain ⟨rfl, rfl⟩ := append_inj (htext.symm.trans htext') heq
    exact hline.2.unique hline'.2
  · exact absurd hline' (hnone pre' cs' b htext' hlt)

theorem lineStart_iff (pre : List Char) :
    (pre.getLast?.any (!isLineEnd ·)) = false ↔ ∀ c, pre.getLast? = some c → isLineEnd c = true := by
  cases pre.getLast? with
  | none => simp
  | some c => simp

/-- **The scan finds the first line that reads as a statement.** -/
theorem moduleOfFrom_spec (fuel : Nat) (hfuel : cs.length < fuel) (htext : text = pre ++ cs)
    (hbefore : NoneBefore text pre) :
    (∃ word, FirstModuleLine text word ∧ moduleOfFrom fuel pre.getLast? cs = word) ∨
      NoModuleLine text ∧ moduleOfFrom fuel pre.getLast? cs = [] := by
  induction fuel generalizing pre cs with
  | zero => exact absurd hfuel (Nat.not_lt_zero _)
  | succ fuel ih =>
    cases cs with
    | nil =>
      refine Or.inr ⟨fun pre' cs' word htext' hline => ?_, rfl⟩
      rw [append_nil] at htext
      have hle : pre'.length ≤ pre.length := by
        rw [← htext, htext', length_append]
        exact Nat.le_add_right _ _
      rcases Nat.lt_or_eq_of_le hle with hlt | heq
      · exact hbefore pre' cs' word htext' hlt hline
      · have hnil : pre' ++ cs' = pre ++ [] := by rw [← htext', append_nil, htext]
        obtain ⟨rfl, rfl⟩ := append_inj hnil heq
        cases hline.2.head
    | cons c cs =>
      rw [length_cons, Nat.succ_lt_succ_iff] at hfuel
      unfold moduleOfFrom
      by_cases hkey : moduleKey <+: c :: cs
      · obtain ⟨behind, hbehind⟩ := hkey
        have hlen : behind.length < fuel := by
          have hlength := congrArg List.length hbehind
          rw [length_append, length_cons] at hlength
          have hseven : moduleKey.length = 7 := rfl
          omega
        have hdrop : (c :: cs).drop moduleKey.length = behind := by
          rw [← hbehind, drop_left]
        have hlast : (pre ++ moduleKey).getLast? = some ' ' := by
          rw [getLast?_append]
          rfl
        have hagain (hnot : ∀ word, ¬ ModuleLine pre (moduleKey ++ behind) word) :
            (∃ word, FirstModuleLine text word ∧
                moduleOfFrom fuel (some ' ') behind = word) ∨
              NoModuleLine text ∧ moduleOfFrom fuel (some ' ') behind = [] := by
          rw [← hbehind] at htext
          have hrest := ih hlen (by rw [htext, List.append_assoc]) (hbefore.key htext hnot)
          rw [hlast] at hrest
          exact hrest
        rw [if_pos ⟨behind, hbehind⟩]
        dsimp only
        rw [hdrop]
        cases hstart : pre.getLast?.any (!isLineEnd ·) with
        | true =>
          rw [if_pos rfl]
          refine hagain fun word hline => ?_
          rw [(lineStart_iff pre).mpr hline.1] at hstart
          cases hstart
        | false =>
          rw [if_neg Bool.false_ne_true]
          have hline := (lineStart_iff pre).mp hstart
          cases hword : wordBehind behind with
          | none =>
            refine hagain fun word hmodule => ?_
            rw [(wordBehind_eq_some_iff behind word).mpr hmodule.2] at hword
            cases hword
          | some word =>
            refine Or.inl ⟨word, ⟨pre, c :: cs, htext, ⟨hline, ?_⟩, hbefore⟩, rfl⟩
            rw [← hbehind]
            exact (wordBehind_eq_some_iff behind word).mp hword
      · rw [if_neg hkey]
        have hlast : (pre ++ [c]).getLast? = some c := getLast?_concat
        rw [← hlast]
        refine ih hfuel (by rw [htext, List.append_assoc]; rfl) (hbefore.snoc htext ?_)
        rintro word ⟨-, blanks, stop, rest, heq, -⟩
        exact hkey ⟨blanks ++ word ++ stop :: rest, by rw [heq]; simp⟩

end

theorem moduleOf_spec (text : String) :
    (∃ word, FirstModuleLine text.toList word ∧ moduleOf text = String.ofList word) ∨
      NoModuleLine text.toList ∧ moduleOf text = "" := by
  have hnone : NoneBefore text.toList [] := fun pre' cs word _ hlt =>
    absurd hlt (Nat.not_lt_zero _)
  have hlength : text.toList.length < text.length + 1 := by
    rw [String.length_toList]
    exact Nat.lt_succ_self _
  unfold moduleOf
  rcases moduleOfFrom_spec _ hlength (nil_append text.toList).symm hnone with
    ⟨word, hfirst, hword⟩ | ⟨hno, hnil⟩
  · refine Or.inl ⟨word, hfirst, congrArg String.ofList hword⟩
  · exact Or.inr ⟨hno, congrArg String.ofList hnil⟩

/-! ### The module statement -/

/-- The names of a module and the semicolon behind them. -/
inductive Spells : List Token → List String → Prop where
  | last {t semi rest} : t.type = .name → semi.type = .semi → Spells (t :: semi :: rest) [t.text]
  | more {t dot tokens segs} : t.type = .name → dot.type = .dot → Spells tokens segs →
      Spells (t :: dot :: tokens) (t.text :: segs)

/-- Where the statement would be, behind an attribute list if there is one. -/
def AtStatement (tokens behind : List Token) : Prop :=
  if (tokens.map (·.type)).head? = some .lBracket then
    ∃ attrs s, parseAttributeList { rest := tokens } = .ok attrs s ∧ s.rest = behind
  else behind = tokens

/-- The tokens begin with the statement of this module. -/
def Declares (tokens : List Token) (name : String) : Prop :=
  ∃ key rest segs, AtStatement tokens (key :: rest) ∧ key.type = .name ∧ key.text = "module" ∧
    Spells rest segs ∧ name = ".".intercalate segs

theorem Spells.unique {tokens : List Token} {a b : List String} (ha : Spells tokens a)
    (hb : Spells tokens b) : a = b := by
  induction ha generalizing b with
  | last _ hsemi =>
    cases hb with
    | last => rfl
    | more _ hdot => cases hsemi.symm.trans hdot
  | more _ hdot _ ih =>
    cases hb with
    | last _ hsemi => cases hsemi.symm.trans hdot
    | more _ _ hb => rw [ih hb]

theorem AtStatement.unique {tokens a b : List Token} (ha : AtStatement tokens a)
    (hb : AtStatement tokens b) : a = b := by
  unfold AtStatement at ha hb
  split at ha
  case isTrue h =>
    rw [if_pos h] at hb
    obtain ⟨attrs, s, hs, rfl⟩ := ha
    obtain ⟨attrs', s', hs', rfl⟩ := hb
    obtain ⟨-, rfl⟩ := EStateM.Result.ok.inj (hs.symm.trans hs')
    rfl
  case isFalse h =>
    rw [if_neg h] at hb
    exact ha.trans hb.symm

theorem Declares.unique {tokens : List Token} {a b : String} (ha : Declares tokens a)
    (hb : Declares tokens b) : a = b := by
  obtain ⟨key, rest, segs, hat, -, -, hspells, rfl⟩ := ha
  obtain ⟨key', rest', segs', hat', -, -, hspells', rfl⟩ := hb
  obtain ⟨rfl, rfl⟩ := List.cons.inj (hat.unique hat')
  rw [hspells.unique hspells']

section

variable {s t : Parser}

/-- The segments behind the first one, up to what stops the loop. -/
inductive Dotted : List Token → List String → List Token → Prop where
  | nil (tokens) : Dotted tokens [] tokens
  | cons {dot t tokens segs rest} : dot.type = .dot → t.type = .name → Dotted tokens segs rest →
      Dotted (dot :: t :: tokens) (t.text :: segs) rest

theorem Dotted.spells {dotted rest : List Token} {segs : List String} (h : Dotted dotted segs rest)
    {t semi : Token} {after : List Token} (ht : t.type = .name) (hrest : rest = semi :: after)
    (hsemi : semi.type = .semi) : Spells (t :: dotted) (t.text :: segs) := by
  induction h generalizing t with
  | nil tokens =>
    subst hrest
    exact .last ht hsemi
  | cons hdot hname _ ih => exact .more ht hdot (ih hname hrest)

theorem loop_dotted {turns : Nat} {found segs : List String} (hs : WellLexed s.rest)
    (h : loop (at' .dot) (fun found => (do advance; expectName "module name segment") >>=
        fun name => pure (found ++ [name])) turns found s = .ok segs t) :
    ∃ more, segs = found ++ more ∧ Dotted s.rest more t.rest ∧ WellLexed t.rest := by
  induction turns generalizing found s with
  | zero => cases h
  | succ turns ih =>
    unfold loop at h
    rw [EState.bind_ok (at_run .dot)] at h
    by_cases hdot : s.tok.type = .dot
    · rw [decide_eq_true hdot, if_pos rfl] at h
      obtain ⟨found', u, hbody, hloop⟩ := EState.bind_eq_ok.mp h
      obtain ⟨name, u', hname, hpure⟩ := EState.bind_eq_ok.mp hbody
      obtain ⟨rfl, rfl⟩ := EStateM.Result.ok.inj hpure
      rw [EState.bind_ok advance_run] at hname
      obtain ⟨a, hrest, htype, rfl, hlexed⟩ := expectName_ok (hs.of_next hdot nofun) hname
      obtain ⟨more, rfl, hmore, hend⟩ := ih hlexed hloop
      refine ⟨a.text :: more, List.append_assoc _ _ _, ?_, hend⟩
      rw [hs.next hdot nofun, hrest]
      exact .cons hdot htype hmore
    · rw [decide_eq_false hdot, if_neg Bool.false_ne_true] at h
      obtain ⟨rfl, rfl⟩ := EStateM.Result.ok.inj h
      exact ⟨[], (append_nil _).symm, .nil _, hs⟩

/-- **What the statement was parsed as is what it spells.** -/
theorem parseModuleStatement_ok {name : String} (hs : WellLexed s.rest)
    (h : parseModuleStatement s = .ok name t) :
    (∃ key rest segs, s.rest = key :: rest ∧ key.type = .name ∧ key.text = "module" ∧
      Spells rest segs ∧ name = ".".intercalate segs) ∨
      ¬ (s.tok.type = .name ∧ s.tok.text = "module") ∧ name = "" := by
  have hkeyword : atKeyword "module" s =
      .ok (s.tok.type = .name && s.tok.text = "module") s := rfl
  unfold parseModuleStatement at h
  rw [EState.bind_ok hkeyword] at h
  by_cases hkey : s.tok.type = .name ∧ s.tok.text = "module"
  · rw [decide_eq_true hkey.1, decide_eq_true hkey.2, Bool.and_self, if_pos rfl,
      EState.bind_ok advance_run] at h
    obtain ⟨first, u, hfirst, h⟩ := EState.bind_eq_ok.mp h
    obtain ⟨a, hrest, htype, rfl, hlexed⟩ := expectName_ok (hs.of_next hkey.1 nofun) hfirst
    obtain ⟨segs, v, hsegs, h⟩ := EState.bind_eq_ok.mp h
    obtain ⟨semi, w, hsemi, hname⟩ := EState.bind_eq_ok.mp h
    obtain ⟨rfl, rfl⟩ := EStateM.Result.ok.inj hname
    obtain ⟨more, rfl, hdotted, hend⟩ := loop_dotted hlexed hsegs
    obtain ⟨hbehind, hsemitype, -⟩ := expect_ok hend hsemi nofun
    refine Or.inl ⟨s.tok, s.next.rest, a.text :: segs, hs.next hkey.1 nofun, hkey.1, hkey.2, ?_, rfl⟩
    rw [hrest]
    exact hdotted.spells htype hbehind hsemitype
  · refine Or.inr ⟨hkey, ?_⟩
    have hfalse : (decide (s.tok.type = .name) && decide (s.tok.text = "module")) = false := by
      rw [← Bool.decide_and]
      exact decide_eq_false hkey
    rw [hfalse, if_neg Bool.false_ne_true] at h
    obtain ⟨rfl, -⟩ := EStateM.Result.ok.inj h
    rfl

end

/-! ### Names have characters -/

theorem text_ne_of_tokenize {content : String} {tokens : List Token}
    (h : tokenize content = .ok tokens) : ∀ t ∈ tokens, t.type = .name → t.text ≠ "" := by
  obtain ⟨ts, last, rfl, hend, -, hspelled⟩ := exists_spelledAs h
  intro t ht hname
  rcases mem_append.mp ht with ht | ht
  · obtain ⟨spelling, hspelling⟩ := hspelled t ht
    exact hspelling.text_ne hname
  · rw [mem_singleton.mp ht, hend] at hname
    cases hname

/-! ### Agreement -/

theorem Spells.intercalate_ne {tokens : List Token} {segs : List String} (h : Spells tokens segs)
    (hnames : ∀ t ∈ tokens, t.type = .name → t.text ≠ "") : ".".intercalate segs ≠ "" := by
  cases h with
  | last ht =>
    rw [String.intercalate_singleton]
    exact hnames _ mem_cons_self ht
  | more ht _ h =>
    intro hnil
    cases h with
    | last =>
      rw [String.intercalate_cons_cons] at hnil
      exact hnames _ mem_cons_self ht
        (String.append_eq_empty_iff.mp (String.append_eq_empty_iff.mp hnil).1).1
    | more =>
      rw [String.intercalate_cons_cons] at hnil
      exact hnames _ mem_cons_self ht
        (String.append_eq_empty_iff.mp (String.append_eq_empty_iff.mp hnil).1).1

theorem AtStatement.suffix {tokens behind : List Token} (hlex : WellLexed tokens)
    (h : AtStatement tokens behind) : WellLexed behind ∧ behind <:+ tokens := by
  unfold AtStatement at h
  split at h
  case isTrue =>
    obtain ⟨attrs, s, hs, rfl⟩ := h
    have hgood := good_parseAttributeList (N := False) (K := False) (n := tokens.length)
      { rest := tokens } ⟨hlex, False.elim, le_rfl⟩
    unfold EState.Outcome at hgood
    rw [hs] at hgood
    exact ⟨hgood.1.lexed, hgood.1.suffix⟩
  case isFalse =>
    subst h
    exact ⟨hlex, suffix_rfl⟩

theorem not_declares {tokens : List Token} {s : Parser} (hat : AtStatement tokens s.rest)
    (hkey : ¬ (s.tok.type = .name ∧ s.tok.text = "module")) (name : String) :
    ¬ Declares tokens name := by
  rintro ⟨key, rest, segs, hat', htype, htext, -⟩
  have htok : s.tok = key := by
    unfold Parser.tok
    rw [hat.unique hat']
    rfl
  exact hkey ⟨htok ▸ htype, htok ▸ htext⟩

theorem parseHeader_ok {tokens : List Token} {h : FileHeader} {s : Parser}
    (hlex : WellLexed tokens) (hrun : parseHeader { rest := tokens } = .ok h s) :
    Declares tokens h.moduleName ∨ (∀ name, ¬ Declares tokens name) ∧ h.moduleName = "" := by
  have hstatement {t : Parser} (hat : AtStatement tokens t.rest)
      (h' : (do
        let moduleName ← parseModuleStatement
        return { moduleName, imports := ← many atImport parseImport } : Parse FileHeader) t =
          .ok h s) :
      Declares tokens h.moduleName ∨ (∀ name, ¬ Declares tokens name) ∧ h.moduleName = "" := by
    obtain ⟨name, u, hname, hrest⟩ := EState.bind_eq_ok.mp h'
    obtain ⟨imports, v, -, hpure⟩ := EState.bind_eq_ok.mp hrest
    obtain ⟨rfl, rfl⟩ := EStateM.Result.ok.inj hpure
    rcases parseModuleStatement_ok (hat.suffix hlex).1 hname with
      ⟨key, rest, segs, hbehind, htype, htext, hspells, rfl⟩ | ⟨hkey, rfl⟩
    · exact Or.inl ⟨key, rest, segs, hbehind ▸ hat, htype, htext, hspells, rfl⟩
    · exact Or.inr ⟨not_declares hat hkey, rfl⟩
  have hhead : ({ rest := tokens } : Parser).tok.type = .lBracket ↔
      (tokens.map (·.type)).head? = some .lBracket := by
    cases tokens with
    | nil => exact ⟨nofun, nofun⟩
    | cons t tokens => exact (Option.some_inj (a := t.type) (b := .lBracket)).symm
  unfold parseHeader at hrun
  rw [EState.bind_ok (at_run .lBracket)] at hrun
  by_cases hbracket : ({ rest := tokens } : Parser).tok.type = .lBracket
  · rw [decide_eq_true hbracket, if_pos rfl] at hrun
    obtain ⟨isHeader, t, hconsume, hrun⟩ := EState.bind_eq_ok.mp hrun
    unfold consumeHeaderAttributeList at hconsume
    rw [EState.bind_ok (at_run .lBracket), decide_eq_true hbracket, if_pos rfl] at hconsume
    obtain ⟨attrs, u, hattrs, hconsume⟩ := EState.bind_eq_ok.mp hconsume
    have hat : AtStatement tokens u.rest := by
      unfold AtStatement
      rw [if_pos (hhead.mp hbracket)]
      exact ⟨attrs, u, hattrs, rfl⟩
    have hkeyword (keyword : String) : atKeyword keyword u =
        .ok (u.tok.type = .name && u.tok.text = keyword) u := rfl
    rw [EState.bind_ok (hkeyword "module"), EState.bind_ok (hkeyword "import")] at hconsume
    cases hboth : (decide (u.tok.type = .name) && decide (u.tok.text = "module") ||
        (decide (u.tok.type = .name) && decide (u.tok.text = "import"))) with
    | true =>
      rw [hboth, if_pos rfl] at hconsume
      obtain ⟨rfl, rfl⟩ := EStateM.Result.ok.inj hconsume
      exact hstatement hat hrun
    | false =>
      rw [hboth, if_neg Bool.false_ne_true] at hconsume
      obtain ⟨rfl, rfl⟩ := EStateM.Result.ok.inj hconsume
      obtain ⟨rfl, rfl⟩ := EStateM.Result.ok.inj hrun
      refine Or.inr ⟨not_declares hat fun hkey => ?_, rfl⟩
      rw [decide_eq_true hkey.1, decide_eq_true hkey.2] at hboth
      cases hboth
  · rw [decide_eq_false hbracket, if_neg Bool.false_ne_true] at hrun
    refine hstatement ?_ hrun
    unfold AtStatement
    rw [if_neg (mt hhead.mpr hbracket)]

/-- The line that is found names the declared module, and without one there is none. -/
def LineNamesModule (text : String) (tokens : List Token) : Prop :=
  (∀ word, FirstModuleLine text.toList word → Declares tokens (String.ofList word)) ∧
    (NoModuleLine text.toList → ∀ name, ¬ Declares tokens name)

/-- **When `ModuleOf` and the parser agree.** -/
theorem moduleOf_agrees_iff {text : String} {tokens : List Token} {h : FileHeader} {s : Parser}
    (hlex : tokenize text = .ok tokens) (hrun : parseHeader { rest := tokens } = .ok h s) :
    moduleOf text = h.moduleName ↔ LineNamesModule text tokens := by
  have hwell := wellLexed_of_tokenize hlex
  have hnames := text_ne_of_tokenize hlex
  have hne {name : String} (hd : Declares tokens name) : name ≠ "" := by
    obtain ⟨key, rest, segs, hat, -, -, hspells, rfl⟩ := hd
    refine hspells.intercalate_ne fun t ht => hnames t ?_
    exact (hat.suffix hwell).2.subset (mem_cons_of_mem _ ht)
  have hfirstne {word : List Char} (hfirst : FirstModuleLine text.toList word) : word ≠ [] := by
    obtain ⟨pre, cs, -, ⟨-, blanks, stop, rest, -, -, hword, -⟩, -⟩ := hfirst
    exact hword
  constructor
  · intro hagree
    rcases moduleOf_spec text with ⟨word, hfirst, hword⟩ | ⟨hno, hempty⟩
    · rw [hword] at hagree
      rcases parseHeader_ok hwell hrun with hdeclares | ⟨-, hnone⟩
      · refine ⟨fun word' hfirst' => ?_, fun hno => ?_⟩
        · rw [hfirst'.unique hfirst, hagree]
          exact hdeclares
        · obtain ⟨pre, cs, htext, hline, -⟩ := hfirst
          exact absurd hline (hno pre cs word htext)
      · rw [hnone] at hagree
        exact absurd (String.ofList_eq_empty_iff.mp hagree) (hfirstne hfirst)
    · rw [hempty] at hagree
      rcases parseHeader_ok hwell hrun with hdeclares | ⟨hnot, -⟩
      · exact absurd hagree.symm (hne hdeclares)
      · refine ⟨?_, fun _ => hnot⟩
        rintro word ⟨pre, cs, htext, hline, -⟩
        exact absurd hline (hno pre cs word htext)
  · rintro ⟨hnames, hnone⟩
    rcases moduleOf_spec text with ⟨word, hfirst, hword⟩ | ⟨hno, hempty⟩
    · rcases parseHeader_ok hwell hrun with hdeclares | ⟨hnot, -⟩
      · rw [hword]
        exact (hnames word hfirst).unique hdeclares
      · exact absurd (hnames word hfirst) (hnot _)
    · rcases parseHeader_ok hwell hrun with hdeclares | ⟨-, hheader⟩
      · exact absurd hdeclares (hnone hno _)
      · rw [hempty, hheader]

theorem moduleOf_agrees_iff_line :
    let tokens := [⟨.name, "module", 1⟩, ⟨.name, "a", 1⟩, ⟨.semi, "", 1⟩, ⟨.end, "", 1⟩]
    moduleOf "module a;" = "a" ↔ LineNamesModule "module a;" tokens :=
  moduleOf_agrees_iff (h := { moduleName := "a" }) (s := { rest := [⟨.end, "", 1⟩] }) rfl rfl

/-- Behind an attribute list on its line, in more than one piece, and below a comment that holds a
statement, the parser finds the statement and the scan does not. -/
theorem not_moduleOf_agrees :
    ((parseText "[A] module foo;").toOption.map (·.name) = some "foo" ∧
      moduleOf "[A] module foo;" = "") ∧
    ((parseText "module foo\n;").toOption.map (·.name) = some "foo" ∧
      moduleOf "module foo\n;" = "") ∧
    ((parseText "module foo . bar;").toOption.map (·.name) = some "foo.bar" ∧
      moduleOf "module foo . bar;" = "foo") ∧
    ((parseText "/*\nmodule old;\n*/\nmodule foo;").toOption.map (·.name) = some "foo" ∧
      moduleOf "/*\nmodule old;\n*/\nmodule foo;" = "old") ∧
    (parseText "/*\nmodule old;\n*/").toOption.map (·.name) = some "" ∧
      moduleOf "/*\nmodule old;\n*/" = "old" := by
  decide +kernel

end Voodoo.Mojovm
