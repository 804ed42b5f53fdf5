import Voodoo.Bruja.PpExpr

/-!
# The branches that the preprocessor keeps

`Preprocess` drops the lines of directives and the text of the branches that are not taken.  Its
frame for a group of branches has whether the last branch was taken and nothing of those in front
of it, so that a branch can be taken behind one that was.

* `preprocess_eq`: what is kept of a text with properly nested groups;
* `preprocess_right_iff`: this is what the first true conditions select if and only if behind the
  first true condition of a group no branch but the next one is taken;
* `preprocess_settles`: of no text is a directive left.
-/

namespace Voodoo.Bruja.Frontend

open List

/-! ### The preprocessor -/

/-- What is behind `#if`, `#ifdef` and `#ifndef`. -/
inductive Condition where
  | ifdef
  | ifndef
  | expr (expr : List Char)
  deriving DecidableEq

inductive Directive where
  | ifLine (cond : Condition)
  | elseLine
  | elifLine (expr : List Char)
  | endifLine
  | other
  deriving DecidableEq

/-- The directive of a line, where `dir` is what follows the `#`. -/
def readDirective (dir : List Char) : Directive :=
  let d := dir.dropWhile isSpace
  if "if".toList.isPrefixOf d then
    if "ifdef".toList.isPrefixOf d then .ifLine .ifdef
    else if "ifndef".toList.isPrefixOf d then .ifLine .ifndef
    else .ifLine (.expr ((d.drop 2).dropWhile isSpace))
  else if "else".toList.isPrefixOf d then .elseLine
  else if "elif".toList.isPrefixOf d then .elifLine ((d.drop 4).dropWhile isSpace)
  else if "endif".toList.isPrefixOf d then .endifLine
  else .other

/-- `Frame`. -/
structure Frame where
  parent : Bool
  taking : Bool
  elseSeen : Bool

/-- The variables of `Preprocess`; the back of the stack is its first frame. -/
structure Pp where
  stack : List Frame
  taking : Bool
  out : List Char

namespace Pp

/-- `if (taking) out.push_back(c);` -/
def push (s : Pp) (c : Char) : Pp := if s.taking then { s with out := s.out ++ [c] } else s

/-- `stack.push_back({taking, taking && cond, false});` -/
def enter (s : Pp) (cond : Bool) : Pp :=
  { s with stack := ⟨s.taking, s.taking && cond, false⟩ :: s.stack, taking := s.taking && cond }

end Pp

section

variable (eval : List Char → Bool)

def Condition.value : Condition → Bool
  | .ifdef => false
  | .ifndef => true
  | .expr e => eval e

/-- The chain of `if`s over the directive. -/
def Pp.directive (s : Pp) : Directive → Pp
  | .ifLine cond => s.enter (cond.value eval)
  | .elseLine =>
    match s.stack with
    | [] => s
    | f :: rest =>
      if f.elseSeen then s
      else { s with
        stack := { f with elseSeen := true, taking := f.parent && !f.taking } :: rest
        taking := f.parent && !f.taking }
  | .elifLine e =>
    match s.stack with
    | [] => s
    | f :: rest =>
      if f.elseSeen then s
      else { s with
        stack := { f with taking := f.parent && !f.taking && eval e } :: rest
        taking := f.parent && !f.taking && eval e }
  | .endifLine => { s with
      stack := s.stack.tail
      taking := (s.stack.tail.head?.map Frame.taking).getD true }
  | .other => s

/-- The rest of the line behind the `#` that is first on it, with what follows from the line break
on. -/
def directiveLine (source : List Char) : Option (List Char × List Char) :=
  match source.dropWhile fun c => c == ' ' || c == '\t' with
  | '#' :: line => some (line.takeWhile (· != '\n'), line.dropWhile (· != '\n'))
  | _ => none

/-- The loop of `Preprocess`, with a bound on its turns. -/
def preprocessFrom : Nat → Bool → List Char → Pp → Option (List Char)
  | 0, _, _, _ => none
  | _ + 1, _, [], s => some s.out
  | n + 1, atLineStart, c :: cs, s =>
    match if atLineStart then directiveLine (c :: cs) else none with
    | some (dir, '\n' :: rest) =>
      preprocessFrom n true rest ((s.directive eval (readDirective dir)).push '\n')
    | some (dir, rest) => preprocessFrom n false rest (s.directive eval (readDirective dir))
    | none => preprocessFrom n (c == '\n' || c == '\r') cs (s.push c)

end

/-- `Preprocess`. -/
def preprocess (source : List Char) : Option (List Char) :=
  preprocessFrom evalPpExpr (source.length + 1) true source ⟨[], true, []⟩

/-! ### The lines of a text -/

/-- A character that is in no directive, or the line of a directive with or without its line
break. -/
inductive Segment where
  | char (c : Char)
  | line (d : Directive) (newline : Bool)
  deriving DecidableEq

def segmentsFrom : Nat → Bool → List Char → List Segment
  | 0, _, _ => []
  | _ + 1, _, [] => []
  | n + 1, atLineStart, c :: cs =>
    match if atLineStart then directiveLine (c :: cs) else none with
    | some (dir, '\n' :: rest) => .line (readDirective dir) true :: segmentsFrom n true rest
    | some (dir, rest) => .line (readDirective dir) false :: segmentsFrom n false rest
    | none => .char c :: segmentsFrom n (c == '\n' || c == '\r') cs

/-- The characters and the directives of a text. -/
def segments (source : List Char) : List Segment := segmentsFrom (source.length + 1) true source

mutual

/-- Text with properly nested groups. -/
inductive Doc where
  | nil
  | char (c : Char) (rest : Doc)
  | line (newline : Bool) (rest : Doc)
  | group (cond : Condition) (body : Doc) (more : Branches) (rest : Doc)

/-- What follows the text of a branch in its group. -/
inductive Branches where
  | endif (newline : Bool)
  | else (body : Doc) (newline : Bool)
  | elif (expr : List Char) (body : Doc) (more : Branches)

end

mutual

def Doc.segments : Doc → List Segment
  | .nil => []
  | .char c rest => .char c :: rest.segments
  | .line newline rest => .line .other newline :: rest.segments
  | .group cond body more rest =>
    .line (.ifLine cond) true :: (body.segments ++ (more.segments ++ rest.segments))

def Branches.segments : Branches → List Segment
  | .endif newline => [.line .endifLine newline]
  | .else body newline => .line .elseLine true :: (body.segments ++ [.line .endifLine newline])
  | .elif expr body more => .line (.elifLine expr) true :: (body.segments ++ more.segments)

end

/-! ### What is to be kept, and what is -/

/-- A character where it is kept. -/
def keep (kept : Bool) (c : Char) : List Char := if kept then [c] else []

section

variable (eval : List Char → Bool)

mutual

/-- The text that the conditions select, where `kept` is that all enclosing branches are kept.  The
line break of a directive belongs to the branch that begins with it. -/
def Doc.selected (kept : Bool) : Doc → List Char
  | .nil => []
  | .char c rest => keep kept c ++ rest.selected kept
  | .line newline rest => keep (kept && newline) '\n' ++ rest.selected kept
  | .group cond body more rest =>
    keep (kept && cond.value eval) '\n' ++ (body.selected (kept && cond.value eval) ++
      (more.selected kept (cond.value eval) ++ rest.selected kept))

/-- The same, where `earlier` is that an earlier condition of the group is true. -/
def Branches.selected (kept earlier : Bool) : Branches → List Char
  | .endif newline => keep (kept && newline) '\n'
  | .else body newline =>
    keep (kept && !earlier) '\n' ++ (body.selected (kept && !earlier) ++ keep (kept && newline) '\n')
  | .elif expr body more =>
    keep (kept && !earlier && eval expr) '\n' ++ (body.selected (kept && !earlier && eval expr) ++
      more.selected kept (earlier || eval expr))

end

mutual

/-- The text that is put out. -/
def Doc.output (taking : Bool) : Doc → List Char
  | .nil => []
  | .char c rest => keep taking c ++ rest.output taking
  | .line newline rest => keep (taking && newline) '\n' ++ rest.output taking
  | .group cond body more rest =>
    keep (taking && cond.value eval) '\n' ++ (body.output (taking && cond.value eval) ++
      (more.output taking (taking && cond.value eval) ++ rest.output taking))

/-- The same, where `last` is that the branch in front is taken. -/
def Branches.output (parent last : Bool) : Branches → List Char
  | .endif newline => keep (parent && newline) '\n'
  | .else body newline =>
    keep (parent && !last) '\n' ++ (body.output (parent && !last) ++ keep (parent && newline) '\n')
  | .elif expr body more =>
    keep (parent && !last && eval expr) '\n' ++ (body.output (parent && !last && eval expr) ++
      more.output parent (parent && !last && eval expr))

end

mutual

/-- In every group whose enclosing branches are kept no branch but the next one is taken behind the
first true condition. -/
def Doc.NoneLater : Doc → Prop
  | .nil => True
  | .char _ rest => rest.NoneLater
  | .line _ rest => rest.NoneLater
  | .group cond body more rest =>
    (cond.value eval = true → body.NoneLater) ∧
      more.NoneLater (cond.value eval) (cond.value eval) ∧ rest.NoneLater

/-- The same, where `earlier` is that an earlier condition of the group is true, and `first` that
the condition in front is the first one. -/
def Branches.NoneLater (earlier first : Bool) : Branches → Prop
  | .endif _ => True
  | .else body _ => if earlier then first = true else body.NoneLater
  | .elif expr body more =>
    (if earlier then first = true ∨ eval expr = false else eval expr = true → body.NoneLater) ∧
      more.NoneLater (earlier || eval expr) (!earlier && eval expr)

end

end

/-! ### The run -/

section

variable {eval : List Char → Bool}

/-- One turn for a segment. -/
def Pp.segment (eval : List Char → Bool) (s : Pp) : Segment → Pp
  | .char c => s.push c
  | .line d true => (s.directive eval d).push '\n'
  | .line d false => s.directive eval d

theorem directiveLine_length {source dir rest : List Char}
    (h : directiveLine source = some (dir, rest)) : rest.length < source.length := by
  have hblanks := (dropWhile_sublist (l := source) fun c => c == ' ' || c == '\t').length_le
  rw [directiveLine] at h
  split at h
  · rename_i line heq
    obtain rfl := (Prod.mk.inj (Option.some.inj h)).2
    rw [heq, length_cons] at hblanks
    exact Nat.lt_of_le_of_lt (dropWhile_sublist _).length_le hblanks
  · cases h

theorem preprocessFrom_eq {n : Nat} {atLineStart : Bool} {source : List Char} (s : Pp)
    (hn : source.length < n) : preprocessFrom eval n atLineStart source s =
      some ((segmentsFrom n atLineStart source).foldl (Pp.segment eval) s).out := by
  induction n generalizing atLineStart source s with
  | zero => omega
  | succ n ih =>
    cases source with
    | nil => rfl
    | cons c cs =>
      rw [preprocessFrom, segmentsFrom]
      split
      · rename_i dir rest heq
        have hshort : rest.length + 1 < cs.length + 1 := by
          split at heq
          · exact directiveLine_length heq
          · cases heq
        rw [length_cons] at hn
        exact ih _ (by omega)
      · rename_i dir rest hrest heq
        have hshort : rest.length < cs.length + 1 := by
          split at heq
          · exact directiveLine_length heq
          · cases heq
        rw [length_cons] at hn
        exact ih _ (by omega)
      · rw [length_cons] at hn
        exact ih _ (by omega)

/-- `taking` is that of the frame on top. -/
def Coherent (stack : List Frame) (taking : Bool) : Prop :=
  taking = (stack.head?.map Frame.taking).getD true

theorem coherent_top {parent taking elseSeen : Bool} {rest : List Frame} :
    Coherent (⟨parent, taking, elseSeen⟩ :: rest) taking := rfl

theorem Pp.push_eq (stack : List Frame) (taking : Bool) (out : List Char) (c : Char) :
    Pp.push ⟨stack, taking, out⟩ c = ⟨stack, taking, out ++ keep taking c⟩ := by
  cases taking with
  | true => rfl
  | false => exact congrArg (Pp.mk stack false) (append_nil out).symm

theorem Pp.segment_line {s : Pp} {d : Directive} (newline : Bool) {stack : List Frame}
    {taking : Bool} {out : List Char} (h : s.directive eval d = ⟨stack, taking, out⟩) :
    s.segment eval (.line d newline) = ⟨stack, taking, out ++ keep (taking && newline) '\n'⟩ := by
  cases newline with
  | true => rw [segment, h, push_eq, Bool.and_true]
  | false =>
    rw [segment, h, Bool.and_false]
    exact congrArg (Pp.mk stack taking) (append_nil out).symm

mutual

theorem Doc.run : ∀ (doc : Doc) {stack : List Frame} {t : Bool} {out : List Char},
    Coherent stack t →
    doc.segments.foldl (Pp.segment eval) ⟨stack, t, out⟩ = ⟨stack, t, out ++ doc.output eval t⟩
  | .nil, _, _, _, _ => by
    rw [Doc.segments, Doc.output, append_nil]
    rfl
  | .char c rest, _, _, _, hs => by
    rw [Doc.segments, foldl_cons, Pp.segment, Pp.push_eq, rest.run hs, Doc.output,
      List.append_assoc]
  | .line newline rest, stack, t, out, hs => by
    have hother : Pp.directive eval ⟨stack, t, out⟩ .other = ⟨stack, t, out⟩ := rfl
    rw [Doc.segments, foldl_cons, Pp.segment_line newline hother, rest.run hs, Doc.output,
      List.append_assoc]
  | .group cond body more rest, stack, t, out, hs => by
    have hif : Pp.directive eval ⟨stack, t, out⟩ (.ifLine cond) =
        ⟨⟨t, t && cond.value eval, false⟩ :: stack, t && cond.value eval, out⟩ := rfl
    rw [Doc.segments, foldl_cons, Pp.segment_line true hif, foldl_append,
      body.run coherent_top, foldl_append, more.run hs, rest.run hs, Doc.output, Bool.and_true,
      List.append_assoc, List.append_assoc, List.append_assoc]

theorem Branches.run : ∀ (more : Branches) {k t : Bool} {rest : List Frame} {out : List Char},
    Coherent rest k →
    more.segments.foldl (Pp.segment eval) ⟨⟨k, t, false⟩ :: rest, t, out⟩ =
      ⟨rest, k, out ++ more.output eval k t⟩
  | .endif newline, k, t, rest, out, hk => by
    have hendif : Pp.directive eval ⟨⟨k, t, false⟩ :: rest, t, out⟩ .endifLine = ⟨rest, k, out⟩ :=
      congrArg (Pp.mk rest · out) hk.symm
    rw [Branches.segments, foldl_cons, Pp.segment_line newline hendif]
    rfl
  | .else body newline, k, t, rest, out, hk => by
    have helse : Pp.directive eval ⟨⟨k, t, false⟩ :: rest, t, out⟩ .elseLine =
        ⟨⟨k, k && !t, true⟩ :: rest, k && !t, out⟩ := rfl
    have hendif : ∀ out, Pp.directive eval ⟨⟨k, k && !t, true⟩ :: rest, k && !t, out⟩ .endifLine =
        ⟨rest, k, out⟩ := fun out => congrArg (Pp.mk rest · out) hk.symm
    rw [Branches.segments, foldl_cons, Pp.segment_line true helse, foldl_append,
      body.run coherent_top, foldl_cons, Pp.segment_line newline (hendif _), Branches.output,
      Bool.and_true, List.append_assoc, List.append_assoc]
    rfl
  | .elif expr body more, k, t, rest, out, hk => by
    have helif : Pp.directive eval ⟨⟨k, t, false⟩ :: rest, t, out⟩ (.elifLine expr) =
        ⟨⟨k, k && !t && eval expr, false⟩ :: rest, k && !t && eval expr, out⟩ := rfl
    rw [Branches.segments, foldl_cons, Pp.segment_line true helif, foldl_append,
      body.run coherent_top, more.run hk, Branches.output, Bool.and_true, List.append_assoc,
      List.append_assoc]

end

end

/-- **What is kept of a text with properly nested groups.** -/
theorem preprocess_eq {source : List Char} {doc : Doc} (h : segments source = doc.segments) :
    preprocess source = some (doc.output evalPpExpr true) := by
  have hstart : Coherent [] true := rfl
  rw [preprocess, preprocessFrom_eq _ (Nat.lt_succ_self _), ← segments, h, doc.run hstart]
  rfl

/-! ### Where it is what the conditions select -/

section

variable {eval : List Char → Bool}

mutual

theorem Doc.selected_false : ∀ doc : Doc, doc.selected eval false = []
  | .nil => rfl
  | .char c rest => rest.selected_false
  | .line newline rest => rest.selected_false
  | .group cond body more rest => by
    rw [Doc.selected, Bool.false_and, body.selected_false, more.selected_false, rest.selected_false]
    rfl

theorem Branches.selected_false : ∀ (more : Branches) {earlier : Bool},
    more.selected eval false earlier = []
  | .endif newline, _ => rfl
  | .else body newline, earlier => by
    rw [Branches.selected, Bool.false_and, body.selected_false]
    rfl
  | .elif expr body more, earlier => by
    rw [Branches.selected, Bool.false_and, Bool.false_and, body.selected_false, more.selected_false]
    rfl

end

mutual

theorem Doc.output_false : ∀ doc : Doc, doc.output eval false = []
  | .nil => rfl
  | .char c rest => rest.output_false
  | .line newline rest => rest.output_false
  | .group cond body more rest => by
    rw [Doc.output, Bool.false_and, body.output_false, more.output_false, rest.output_false]
    rfl

theorem Branches.output_false : ∀ (more : Branches) {last : Bool},
    more.output eval false last = []
  | .endif newline, _ => rfl
  | .else body newline, last => by
    rw [Branches.output, Bool.false_and, body.output_false]
    rfl
  | .elif expr body more, last => by
    rw [Branches.output, Bool.false_and, Bool.false_and, body.output_false, more.output_false]
    rfl

end

/-- The text is what is selected where the condition holds, and is longer where it does not. -/
def Keeps (output selected : List Char) (right : Prop) : Prop :=
  (right → output = selected) ∧ (¬ right → selected.length < output.length)

theorem Keeps.le {o s : List Char} {p : Prop} (h : Keeps o s p) : s.length ≤ o.length := by
  by_cases hp : p
  · exact (congrArg List.length (h.1 hp)).ge
  · exact (h.2 hp).le

theorem Keeps.append {o₁ o₂ s₁ s₂ : List Char} {p q : Prop} (h₁ : Keeps o₁ s₁ p)
    (h₂ : Keeps o₂ s₂ q) : Keeps (o₁ ++ o₂) (s₁ ++ s₂) (p ∧ q) := by
  refine ⟨fun h => by rw [h₁.1 h.1, h₂.1 h.2], fun h => ?_⟩
  rw [length_append, length_append]
  have hle₁ := h₁.le
  have hle₂ := h₂.le
  rcases not_and_or.mp h with hp | hq
  · have hlt := h₁.2 hp
    omega
  · have hlt := h₂.2 hq
    omega

theorem keeps_self {o : List Char} {p : Prop} (hp : p) : Keeps o o p :=
  ⟨fun _ => rfl, fun h => absurd hp h⟩

theorem Keeps.append_left {o s : List Char} {p : Prop} (same : List Char) (h : Keeps o s p) :
    Keeps (same ++ o) (same ++ s) p := by
  have hall := (keeps_self (o := same) trivial).append h
  rwa [true_and] at hall

theorem Keeps.iff {o s : List Char} {p : Prop} (h : Keeps o s p) : o = s ↔ p := by
  refine ⟨fun heq => ?_, h.1⟩
  by_contra hp
  exact (h.2 hp).ne (congrArg List.length heq).symm

theorem keeps_branch {body : Doc}
    (h : Keeps (body.output eval true) (body.selected eval true) (body.NoneLater eval)) (c : Bool) :
    Keeps (keep c '\n' ++ body.output eval c) (keep c '\n' ++ body.selected eval c)
      (c = true → body.NoneLater eval) := by
  cases c with
  | true =>
    have hall := h.append_left (keep true '\n')
    exact ⟨fun hp => hall.1 (hp rfl), fun hp => hall.2 fun hq => hp fun _ => hq⟩
  | false =>
    rw [body.output_false, body.selected_false]
    exact keeps_self nofun

mutual

theorem Doc.keeps : ∀ doc : Doc,
    Keeps (doc.output eval true) (doc.selected eval true) (doc.NoneLater eval)
  | .nil => keeps_self trivial
  | .char c rest => rest.keeps.append_left _
  | .line newline rest => rest.keeps.append_left _
  | .group cond body more rest => by
    have hbody := keeps_branch body.keeps (cond.value eval)
    have hmore := more.keeps (cond.value eval) (cond.value eval) id
    have hall := hbody.append (hmore.append rest.keeps)
    rw [List.append_assoc, List.append_assoc] at hall
    rw [Doc.output, Doc.selected, Bool.true_and]
    exact hall

theorem Branches.keeps : ∀ (more : Branches) (earlier first : Bool),
    (first = true → earlier = true) → Keeps (more.output eval true first)
      (more.selected eval true earlier) (more.NoneLater eval earlier first)
  | .endif newline, _, _, _ => keeps_self trivial
  | .else body newline, false, false, _ => by
    have hbody := keeps_branch body.keeps true
    have hall := hbody.append (keeps_self (o := keep newline '\n') trivial)
    rw [Branches.output, Branches.selected, ← List.append_assoc, ← List.append_assoc]
    exact ⟨fun hp => hall.1 ⟨fun _ => hp, trivial⟩, fun hp => hall.2 fun hq => hp (hq.1 rfl)⟩
  | .else body newline, true, true, _ => by
    rw [Branches.output, Branches.selected, Bool.not_true, Bool.and_false, body.output_false,
      body.selected_false]
    exact keeps_self rfl
  | .else body newline, true, false, _ => by
    refine ⟨nofun, fun _ => ?_⟩
    rw [Branches.output, Branches.selected, Bool.not_true, Bool.and_false, body.selected_false]
    show (keep newline '\n').length < (keep true '\n' ++ (body.output eval true ++
      keep newline '\n')).length
    have hline : (keep true '\n').length = 1 := rfl
    rw [length_append, length_append, hline]
    omega
  | .elif expr body more, false, false, _ => by
    have hbody := keeps_branch body.keeps (eval expr)
    have hmore := more.keeps (eval expr) (eval expr) id
    have hall := hbody.append hmore
    rw [Branches.output, Branches.selected, Bool.not_false, Bool.and_true, Bool.true_and,
      Bool.false_or, ← List.append_assoc, ← List.append_assoc]
    exact hall
  | .elif expr body more, true, true, _ => by
    have hmore := more.keeps true false nofun
    rw [Branches.output, Branches.selected, Bool.not_true, Bool.and_false, Bool.false_and,
      body.output_false, body.selected_false, Bool.true_or]
    exact ⟨fun hp => hmore.1 hp.2, fun hp => hmore.2 fun hq => hp ⟨.inl rfl, hq⟩⟩
  | .elif expr body more, true, false, _ => by
    have hmore := more.keeps true false nofun
    rw [Branches.output, Branches.selected, Bool.not_true, Bool.and_false, Bool.false_and,
      body.selected_false, Bool.true_or]
    cases hc : eval expr with
    | false =>
      rw [Bool.and_false, body.output_false]
      exact ⟨fun hp => hmore.1 hp.2, fun hp => hmore.2 fun hq => hp ⟨.inr hc, hq⟩⟩
    | true =>
      refine ⟨fun hp => (hp.1.elim nofun fun hf => nomatch hc.symm.trans hf), fun _ => ?_⟩
      have hle := (more.keeps true true id).le
      show (more.selected eval true true).length < (keep true '\n' ++ (body.output eval true ++
        more.output eval true true)).length
      have hline : (keep true '\n').length = 1 := rfl
      rw [length_append, length_append, hline]
      omega

end

end

/-- **The preprocessor keeps what the conditions select if and only if no branch is taken behind the
first true condition of a group, but for the next one.** -/
theorem preprocess_right_iff {source : List Char} {doc : Doc} (h : segments source = doc.segments) :
    preprocess source = some (doc.selected evalPpExpr true) ↔ doc.NoneLater evalPpExpr := by
  rw [preprocess_eq h, Option.some_inj]
  exact doc.keeps.iff

/-! ### No directive is left -/

/-- There is no `#` behind the blanks. -/
def Unhashed (text : List Char) : Prop :=
  (text.dropWhile fun c => c == ' ' || c == '\t').head? ≠ some '#'

theorem directiveLine_eq_none {text : List Char} : directiveLine text = none ↔ Unhashed text := by
  unfold directiveLine Unhashed
  split
  · rename_i hcs
    rw [hcs]
    simp
  · rename_i hno
    refine iff_of_true rfl fun hhead => ?_
    obtain ⟨line, hcs⟩ := head?_eq_some_iff.mp hhead
    exact hno line hcs

theorem rest_of_directiveLine {text dir rest : List Char}
    (h : directiveLine text = some (dir, rest)) (hrest : ∀ more, rest ≠ '\n' :: more) : rest = [] := by
  unfold directiveLine at h
  split at h
  · rename_i line _
    cases h
    have hhead := head?_dropWhile_not (· != '\n') line
    cases hmore : line.dropWhile (· != '\n') with
    | nil => rfl
    | cons c more =>
      rw [hmore] at hhead
      obtain rfl : c = '\n' := by simpa using hhead
      exact absurd hmore (hrest more)
  · cases h

theorem unhashed_cons {c : Char} {cs text : List Char} (h : Unhashed (c :: cs))
    (hblank : (c == '\n' || c == '\r') = false → Unhashed cs → Unhashed text) :
    Unhashed (c :: text) := by
  unfold Unhashed at h ⊢
  rw [dropWhile_cons] at h ⊢
  split at h
  · rename_i hc
    rw [if_pos hc]
    refine hblank ?_ h
    rcases Bool.or_eq_true_iff.mp hc with hc | hc <;> rw [beq_iff_eq.mp hc] <;> rfl
  · rename_i hc
    rw [if_neg hc]
    exact h

theorem Pp.directive_out (eval : List Char → Bool) (s : Pp) (d : Directive) :
    (s.directive eval d).out = s.out := by
  unfold Pp.directive
  split
  · rfl
  · split
    · rfl
    · split <;> rfl
  · split
    · rfl
    · split <;> rfl
  · rfl
  · rfl

/-- Where it takes what it reads, the preprocessor leaves `text` as it is. -/
def Left (eval : List Char → Bool) (atLineStart : Bool) (text : List Char) : Prop :=
  ∀ n stack out, text.length < n →
    preprocessFrom eval n atLineStart text ⟨stack, true, out⟩ = some (out ++ text)

theorem left_nil {eval : List Char → Bool} {atLineStart : Bool} : Left eval atLineStart [] := by
  intro n stack out hn
  obtain ⟨n, rfl⟩ : ∃ k, n = k + 1 := ⟨n - 1, by omega⟩
  rw [preprocessFrom, append_nil]

theorem Left.cons {eval : List Char → Bool} {atLineStart : Bool} {c : Char} {text : List Char}
    (hline : atLineStart = true → Unhashed (c :: text))
    (h : Left eval (c == '\n' || c == '\r') text) : Left eval atLineStart (c :: text) := by
  intro n stack out hn
  obtain ⟨n, rfl⟩ : ∃ k, n = k + 1 := ⟨n - 1, by omega⟩
  have hnone : (if atLineStart = true then directiveLine (c :: text) else none) = none :=
    ite_eq_right_iff.mpr fun hstart => directiveLine_eq_none.mpr (hline hstart)
  rw [preprocessFrom]
  simp only [hnone, Pp.push_eq, keep, if_true]
  rw [h n stack (out ++ [c]) (Nat.lt_of_succ_lt_succ hn), append_assoc]
  rfl

/-- What is put out from a place on begins a line if the place does, or if nothing is taken there. -/
theorem exists_left {eval : List Char → Bool} {n : Nat} {atLineStart taking : Bool}
    {source out : List Char} {stack : List Frame} (hn : source.length < n) :
    ∃ text, preprocessFrom eval n atLineStart source ⟨stack, taking, out⟩ = some (out ++ text) ∧
      Left eval (atLineStart || !taking) text ∧
      (atLineStart = false → taking = true → Unhashed source → Unhashed text) := by
  induction n generalizing atLineStart taking source out stack with
  | zero => omega
  | succ n ih =>
    cases source with
    | nil => exact ⟨[], by rw [preprocessFrom, append_nil], left_nil, fun _ _ h => h⟩
    | cons c cs =>
      rw [preprocessFrom]
      split
      · rename_i dir rest heq
        obtain ⟨rfl, hdir⟩ := Option.ite_none_right_eq_some.mp heq
        have hshort := directiveLine_length hdir
        simp only [length_cons] at hn hshort
        have hout := Pp.directive_out eval ⟨stack, taking, out⟩ (readDirective dir)
        generalize Pp.directive eval _ _ = s at hout ⊢
        obtain ⟨stack', taking', out'⟩ := s
        obtain rfl : out' = out := hout
        rw [Pp.push_eq]
        obtain ⟨text, hrun, hleft, -⟩ :=
          @ih true taking' rest (out' ++ keep taking' '\n') stack' (by omega)
        refine ⟨keep taking' '\n' ++ text, by rw [hrun, append_assoc], ?_, fun h => Bool.noConfusion h⟩
        cases taking' with
        | true => exact Left.cons (fun _ => by simp [Unhashed]) hleft
        | false => exact hleft
      · rename_i dir rest hrest heq
        obtain ⟨rfl, hdir⟩ := Option.ite_none_right_eq_some.mp heq
        obtain rfl := rest_of_directiveLine hdir fun more hmore => hrest more hmore
        refine ⟨[], ?_, left_nil, fun h => Bool.noConfusion h⟩
        obtain ⟨n, rfl⟩ : ∃ k, n = k + 1 := ⟨n - 1, by rw [length_cons] at hn; omega⟩
        rw [preprocessFrom, Pp.directive_out, append_nil]
      · rename_i heq
        have hline : atLineStart = true → Unhashed (c :: cs) := by
          rintro rfl
          exact directiveLine_eq_none.mp heq
        rw [Pp.push_eq]
        obtain ⟨text, hrun, hleft, hhash⟩ := ih (Nat.lt_of_succ_lt_succ hn)
        refine ⟨keep taking c ++ text, by rw [hrun, append_assoc], ?_, ?_⟩
        · cases taking with
          | true =>
            rw [Bool.not_true, Bool.or_false] at hleft ⊢
            exact hleft.cons fun hstart => unhashed_cons (hline hstart) fun hc => hhash hc rfl
          | false =>
            rw [Bool.not_false, Bool.or_true] at hleft ⊢
            exact hleft
        · rintro - rfl h
          exact unhashed_cons h fun hc => hhash hc rfl

/-- **The preprocessor ends, and there is no directive in what it puts out**: it keeps that as it
is. -/
theorem preprocess_settles (source : List Char) :
    ∃ out, preprocess source = some out ∧ preprocess out = some out := by
  obtain ⟨out, hrun, hleft, -⟩ := exists_left (Nat.lt_succ_self source.length)
  exact ⟨out, hrun, hleft _ [] [] (Nat.lt_succ_self _)⟩

/-! ### Two texts -/

/-- `#if 1`, `#elif 0`, `#else` and `#endif`, with `x` in the last branch. -/
def elseBehindElif : Doc :=
  .group (.expr ['1']) .nil (.elif ['0'] .nil (.else (.char 'x' (.char '\n' .nil)) true)) .nil

/-- `#if 1` and `#else`, with `x` in the first branch and `y` in the second. -/
def elseBehindIf : Doc :=
  .group (.expr ['1']) (.char 'x' (.char '\n' .nil)) (.else (.char 'y' (.char '\n' .nil)) true) .nil

/-- The `#else` is taken, as the branch in front of it is not. -/
theorem elseBehindElif_kept :
    segments "#if 1\n#elif 0\n#else\nx\n#endif\n".toList = elseBehindElif.segments ∧
      preprocess "#if 1\n#elif 0\n#else\nx\n#endif\n".toList ≠
        some (elseBehindElif.selected evalPpExpr true) := by
  decide +kernel

theorem elseBehindIf_right :
    preprocess "#if 1\nx\n#else\ny\n#endif\n".toList =
      some (elseBehindIf.selected evalPpExpr true) := by
  have hone : evalPpExpr ['1'] = true := by decide +kernel
  refine (preprocess_right_iff (by decide +kernel)).mpr ⟨fun _ => trivial, ?_, trivial⟩
  rw [Condition.value, hone]
  rfl

end Voodoo.Bruja.Frontend
