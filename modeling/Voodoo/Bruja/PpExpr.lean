import Mathlib.Algebra.Group.Int.Defs
import Mathlib.Algebra.Group.Nat.Defs
import Mathlib.Data.List.Infix
import Mathlib.Data.List.TakeWhile

/-!
# The conditions of the preprocessor

`EvalPpExpr` takes the white space out of a condition, puts `0` for the calls of eight macros and
`0` or `1` for six identifiers, and reads what is left with `parseOr`.  As `parsePrimary` gets
`parseOr` for what it calls behind a `!`, a `!` negates all up to the end of its parentheses; and
where `&&` or `||` leaves its right operand out, the cursor stays in front of that operand.

* `parseOr_ends`: the reading ends, whatever the text;
* `evalPpExpr_eq`: the value is that of the condition with all operators grouped from the right;
* `evalPpExpr_right_iff`: when this is the value that C gives.

A character is a byte.
-/

namespace Voodoo.Bruja.Frontend

open List Option

/-! ### Characters -/

/-- `std::isspace`. -/
def isSpace (c : Char) : Bool := c == ' ' || (9 ≤ c.toNat && c.toNat ≤ 13)

/-- `std::isalnum`, or an underscore. -/
def isIdent (c : Char) : Bool := c.isAlphanum || c == '_'

/-! ### What is put for macros -/

/-- `strip`. -/
def strip (s : List Char) : List Char := s.filter fun c => !isSpace c

/-- The loop of `zeroCall`: so many characters of a name with its parenthesis are still to be left
out, and so many parentheses are open. -/
def zeroCallFrom (name : List Char) : Nat → Nat → List Char → List Char
  | _, _, [] => []
  | skip + 1, depth, _ :: cs => zeroCallFrom name skip depth cs
  | 0, depth + 1, c :: cs =>
    zeroCallFrom name 0 (if c = '(' then depth + 2 else if c = ')' then depth else depth + 1) cs
  | 0, 0, c :: cs =>
    if (name ++ ['(']).isPrefixOf (c :: cs) then '0' :: zeroCallFrom name name.length 1 cs
    else c :: zeroCallFrom name 0 0 cs

/-- `zeroCall`. -/
def zeroCall (s name : List Char) : List Char := zeroCallFrom name 0 0 s

/-- The loop of `replaceIdent`: so many characters of the name are still to be left out, and whether
the character in front belongs to an identifier. -/
def replaceIdentFrom (name : List Char) (value : Char) : Nat → Bool → List Char → List Char
  | _, _, [] => []
  | skip + 1, _, _ :: cs => replaceIdentFrom name value skip (isIdent value) cs
  | 0, left, c :: cs =>
    if name.isPrefixOf (c :: cs) ∧ left = false ∧ ((c :: cs).drop name.length).head?.all (!isIdent ·)
    then value :: replaceIdentFrom name value (name.length - 1) (isIdent value) cs
    else c :: replaceIdentFrom name value 0 (isIdent c) cs

/-- `replaceIdent`. -/
def replaceIdent (s : List Char) (ident : List Char × Char) : List Char :=
  replaceIdentFrom ident.1 ident.2 0 false s

/-- The macros whose calls are `0`. -/
def families : List (List Char) :=
  ["PLATFORM".toList, "ENABLE".toList, "HAVE".toList, "USE".toList, "defined".toList,
    "TARGET_OS_IPHONE".toList, "TARGET_OS_IOS".toList, "TARGET_OS_VISION".toList]

/-- The identifiers with a value of their own. -/
def idents : List (List Char × Char) :=
  [("TARGET_OS_IPHONE".toList, '0'), ("TARGET_OS_IOS".toList, '0'), ("TARGET_OS_VISION".toList, '0'),
    ("TARGET_OS_OSX".toList, '1'), ("TARGET_OS_MAC".toList, '1'), ("__APPLE__".toList, '0')]

/-! ### Reading -/

/-- The value of decimal digits in an `int`, as two's complement leaves it. -/
def intOf (digits : List Char) : Nat :=
  digits.foldl (fun v c => (v * 10 + (c.toNat - 48)) % 2 ^ 32) 0

/-- `if (k < expr.size() && expr[k] == ')') ++k;` -/
def closeParen : List Char → List Char
  | ')' :: cs => cs
  | cs => cs

mutual

/-- `parsePrimary`, with a bound on the depth of the calls and the turns of the loops: a value, and
what is behind the cursor. -/
def parsePrimary : Nat → List Char → Option (Bool × List Char)
  | 0, _ => none
  | n + 1, '!' :: cs => do
    let (v, cs) ← parseOr n cs
    some (!v, cs)
  | n + 1, '(' :: cs => do
    let (v, cs) ← parseOr n cs
    some (v, closeParen cs)
  | _ + 1, cs =>
    if cs.head?.any Char.isDigit then
      some (intOf (cs.takeWhile Char.isDigit) ≠ 0, cs.dropWhile Char.isDigit)
    else some (false, cs.dropWhile isIdent)

/-- The loop of `parseAnd`. -/
def andLoop : Nat → Bool → List Char → Option (Bool × List Char)
  | 0, _, _ => none
  | n + 1, v, '&' :: '&' :: cs =>
    if v then do
      let (v, cs) ← parsePrimary n cs
      andLoop n v cs
    else andLoop n false cs
  | _ + 1, v, cs => some (v, cs)

/-- `parseAnd`. -/
def parseAnd : Nat → List Char → Option (Bool × List Char)
  | 0, _ => none
  | n + 1, cs => do
    let (v, cs) ← parsePrimary n cs
    andLoop n v cs

/-- The loop of `parseOr`. -/
def orLoop : Nat → Bool → List Char → Option (Bool × List Char)
  | 0, _, _ => none
  | n + 1, v, '|' :: '|' :: cs =>
    if v then orLoop n true cs
    else do
      let (v, cs) ← parseAnd n cs
      orLoop n v cs
  | _ + 1, v, cs => some (v, cs)

/-- `parseOr`. -/
def parseOr : Nat → List Char → Option (Bool × List Char)
  | 0, _ => none
  | n + 1, cs => do
    let (v, cs) ← parseAnd n cs
    orLoop n v cs

end

/-- What `parseOr` is called with. -/
def expand (expr : List Char) : List Char :=
  idents.foldl replaceIdent (families.foldl zeroCall (strip expr))

/-- `EvalPpExpr`; the bound is enough, by `parseOr_ends`. -/
def evalPpExpr (expr : List Char) : Bool :=
  ((parseOr (4 * (expand expr).length + 4) (expand expr)).map Prod.fst).getD false

/-! ### The reading ends -/

/-- A result, with no more text behind the cursor than there was. -/
def Within (cs : List Char) (r : Option (Bool × List Char)) : Prop :=
  ∃ v rest, r = some (v, rest) ∧ rest.length ≤ cs.length

theorem Within.mono {cs ds : List Char} {r : Option (Bool × List Char)} (h : Within cs r)
    (hle : cs.length ≤ ds.length) : Within ds r := by
  obtain ⟨v, rest, hr, hrest⟩ := h
  exact ⟨v, rest, hr, hrest.trans hle⟩

theorem Within.bind {cs : List Char} {r : Option (Bool × List Char)}
    {f : Bool × List Char → Option (Bool × List Char)} (h : Within cs r)
    (hf : ∀ v rest, rest.length ≤ cs.length → Within rest (f (v, rest))) : Within cs (r >>= f) := by
  obtain ⟨v, rest, rfl, hrest⟩ := h
  exact (hf v rest hrest).mono hrest

theorem within_some {cs : List Char} (v : Bool) {rest : List Char}
    (h : rest.length ≤ cs.length) : Within cs (some (v, rest)) := ⟨v, rest, rfl, h⟩

theorem length_closeParen (cs : List Char) : (closeParen cs).length ≤ cs.length := by
  unfold closeParen
  split
  · exact Nat.le_succ _
  · exact le_rfl

/-- Each of the five functions ends with a depth that depends on the length of the text. -/
structure Ends (n : Nat) : Prop where
  primary : ∀ cs : List Char, 4 * cs.length + 1 ≤ n → Within cs (parsePrimary n cs)
  andLoop : ∀ v, ∀ cs : List Char, 4 * cs.length + 1 ≤ n → Within cs (andLoop n v cs)
  and : ∀ cs : List Char, 4 * cs.length + 2 ≤ n → Within cs (parseAnd n cs)
  orLoop : ∀ v, ∀ cs : List Char, 4 * cs.length + 1 ≤ n → Within cs (orLoop n v cs)
  or : ∀ cs : List Char, 4 * cs.length + 3 ≤ n → Within cs (parseOr n cs)

theorem primary_ends {n : Nat} (h : Ends n) (cs : List Char) (hn : 4 * cs.length + 1 ≤ n + 1) :
    Within cs (parsePrimary (n + 1) cs) := by
  have hstay : ∀ p : Char → Bool, (cs.dropWhile p).length ≤ cs.length := fun p =>
    (dropWhile_sublist p).length_le
  rw [parsePrimary.eq_def]
  split
  · omega
  · rename_i rest heq
    obtain rfl := Nat.succ.inj heq
    rw [length_cons] at hn
    refine ((h.or rest (by omega)).bind fun v _ _ => within_some (!v) le_rfl).mono ?_
    exact Nat.le_succ _
  · rename_i rest heq
    obtain rfl := Nat.succ.inj heq
    rw [length_cons] at hn
    refine ((h.or rest (by omega)).bind fun v cs _ =>
      ⟨v, closeParen cs, rfl, length_closeParen cs⟩).mono ?_
    exact Nat.le_succ _
  · split
    · exact within_some _ (hstay _)
    · exact within_some _ (hstay _)

theorem andLoop_ends {n : Nat} (h : Ends n) (v : Bool) (cs : List Char)
    (hn : 4 * cs.length + 1 ≤ n + 1) : Within cs (andLoop (n + 1) v cs) := by
  rw [Frontend.andLoop.eq_def]
  split
  · omega
  · rename_i v rest heq
    obtain rfl := Nat.succ.inj heq
    rw [length_cons, length_cons] at hn
    have hshort : rest.length ≤ ('&' :: '&' :: rest).length := by
      rw [length_cons, length_cons]
      omega
    split
    · refine ((h.primary rest (by omega)).bind fun v cs hcs => ?_).mono hshort
      exact h.andLoop v cs (by omega)
    · exact (h.andLoop false rest (by omega)).mono hshort
  · exact within_some _ le_rfl

theorem orLoop_ends {n : Nat} (h : Ends n) (v : Bool) (cs : List Char)
    (hn : 4 * cs.length + 1 ≤ n + 1) : Within cs (orLoop (n + 1) v cs) := by
  rw [Frontend.orLoop.eq_def]
  split
  · omega
  · rename_i v rest heq
    obtain rfl := Nat.succ.inj heq
    rw [length_cons, length_cons] at hn
    have hshort : rest.length ≤ ('|' :: '|' :: rest).length := by
      rw [length_cons, length_cons]
      omega
    split
    · exact (h.orLoop true rest (by omega)).mono hshort
    · refine ((h.and rest (by omega)).bind fun v cs hcs => ?_).mono hshort
      exact h.orLoop v cs (by omega)
  · exact within_some _ le_rfl

theorem reading_ends (n : Nat) : Ends n := by
  induction n with
  | zero =>
    refine ⟨fun cs h => ?_, fun v cs h => ?_, fun cs h => ?_, fun v cs h => ?_, fun cs h => ?_⟩
    all_goals omega
  | succ n ih =>
    refine ⟨primary_ends ih, andLoop_ends ih, fun cs hn => ?_, orLoop_ends ih, fun cs hn => ?_⟩
    · exact (ih.primary cs (by omega)).bind fun v rest hrest => ih.andLoop v rest (by omega)
    · exact (ih.and cs (by omega)).bind fun v rest hrest => ih.orLoop v rest (by omega)

/-- **The reading ends, whatever the text.** -/
theorem parseOr_ends (cs : List Char) : ∃ v rest, parseOr (4 * cs.length + 4) cs = some (v, rest) := by
  obtain ⟨v, rest, h, -⟩ := (reading_ends _).or cs (Nat.le_succ _)
  exact ⟨v, rest, h⟩

/-! ### More depth changes nothing -/

/-- What ends with depth `n` ends alike with one more. -/
structure Grows (n : Nat) : Prop where
  primary : ∀ cs r, parsePrimary n cs = some r → parsePrimary (n + 1) cs = some r
  andLoop : ∀ v cs r, andLoop n v cs = some r → andLoop (n + 1) v cs = some r
  and : ∀ cs r, parseAnd n cs = some r → parseAnd (n + 1) cs = some r
  orLoop : ∀ v cs r, orLoop n v cs = some r → orLoop (n + 1) v cs = some r
  or : ∀ cs r, parseOr n cs = some r → parseOr (n + 1) cs = some r

theorem bind_mono {α β : Type} {x y : Option α} {f g : α → Option β} {b : β}
    (hxy : ∀ a, x = some a → y = some a) (hfg : ∀ a, f a = some b → g a = some b)
    (h : x >>= f = some b) : y >>= g = some b := by
  obtain ⟨a, ha, hb⟩ := bind_eq_some_iff.mp h
  exact bind_eq_some_iff.mpr ⟨a, hxy a ha, hfg a hb⟩

theorem reading_grows (n : Nat) : Grows n := by
  induction n with
  | zero => exact ⟨nofun, nofun, nofun, nofun, nofun⟩
  | succ n ih =>
    refine ⟨fun cs r h => ?_, fun v cs r h => ?_, fun cs r h => ?_, fun v cs r h => ?_,
      fun cs r h => ?_⟩
    · rw [parsePrimary.eq_def] at h
      split at h
      · cases h
      · rename_i heq
        obtain rfl := Nat.succ.inj heq
        exact bind_mono (ih.or _) (fun _ => id) h
      · rename_i heq
        obtain rfl := Nat.succ.inj heq
        exact bind_mono (ih.or _) (fun _ => id) h
      · rename_i _ hbang hparen
        rw [parsePrimary.eq_4 _ _ hbang hparen]
        exact h
    · rw [Frontend.andLoop.eq_def] at h
      split at h
      · cases h
      · rename_i heq
        obtain rfl := Nat.succ.inj heq
        rw [Frontend.andLoop]
        split
        · rename_i hv
          rw [if_pos hv] at h
          exact bind_mono (ih.primary _) (fun a => ih.andLoop a.1 a.2 r) h
        · rename_i hv
          rw [if_neg hv] at h
          exact ih.andLoop _ _ _ h
      · rename_i _ hand
        rw [Frontend.andLoop.eq_3 _ _ _ hand]
        exact h
    · exact bind_mono (ih.primary _) (fun a => ih.andLoop a.1 a.2 r) h
    · rw [Frontend.orLoop.eq_def] at h
      split at h
      · cases h
      · rename_i heq
        obtain rfl := Nat.succ.inj heq
        rw [Frontend.orLoop]
        split
        · rename_i hv
          rw [if_pos hv] at h
          exact ih.orLoop _ _ _ h
        · rename_i hv
          rw [if_neg hv] at h
          exact bind_mono (ih.and _) (fun a => ih.orLoop a.1 a.2 r) h
      · rename_i _ hor
        rw [Frontend.orLoop.eq_3 _ _ _ hor]
        exact h
    · exact bind_mono (ih.and _) (fun a => ih.orLoop a.1 a.2 r) h

/-! ### Conditions -/

/-- A text whose parentheses are balanced. -/
inductive Balanced : List Char → Prop
  | nil : Balanced []
  | char {c : Char} {cs : List Char} (hopen : c ≠ '(') (hclose : c ≠ ')') (h : Balanced cs) :
      Balanced (c :: cs)
  | paren {inner cs : List Char} (hinner : Balanced inner) (h : Balanced cs) :
      Balanced ('(' :: (inner ++ ')' :: cs))

structure Integer where
  digits : List Char
  ne_nil : digits ≠ []
  isDigit : ∀ c ∈ digits, c.isDigit = true

structure Identifier where
  name : List Char
  head : ∃ c ∈ name.head?, c.isDigit = false
  isIdent : ∀ c ∈ name, isIdent c = true

structure MacroCall where
  name : List Char
  mem : name ∈ families
  args : List Char
  balanced : Balanced args

inductive Leaf where
  | int (i : Integer)
  | ident (x : Identifier)
  | call (c : MacroCall)

/-- `&&` and `||`. -/
inductive Op where
  | and
  | or

mutual

/-- What stands behind the `!`s. -/
inductive Operand where
  | leaf (l : Leaf)
  | paren (e : Expr)

/-- A condition, up to the end of its parentheses: operands, each behind so many `!`s, with operators
between them. -/
inductive Expr where
  | last (bangs : Nat) (a : Operand)
  | cons (bangs : Nat) (a : Operand) (op : Op) (rest : Expr)

end

def Leaf.text : Leaf → List Char
  | .int i => i.digits
  | .ident x => x.name
  | .call c => c.name ++ '(' :: (c.args ++ [')'])

def Op.text : Op → List Char
  | .and => ['&', '&']
  | .or => ['|', '|']

def bangText (bangs : Nat) : List Char := List.replicate bangs '!'

mutual

def Operand.text : Operand → List Char
  | .leaf l => l.text
  | .paren e => '(' :: (e.text ++ [')'])

/-- The text of a condition, without white space. -/
def Expr.text : Expr → List Char
  | .last bangs a => bangText bangs ++ a.text
  | .cons bangs a op rest => bangText bangs ++ (a.text ++ (op.text ++ rest.text))

end

/-! ### What a condition is worth -/

/-- The value of decimal digits. -/
def Integer.value (i : Integer) : Nat := i.digits.foldl (fun v c => v * 10 + (c.toNat - 48)) 0

/-- The identifiers that are `1`. -/
def oneIdents : List (List Char) := ["TARGET_OS_OSX".toList, "TARGET_OS_MAC".toList]

/-- Whether an integer, an identifier or a call is true. -/
def Leaf.truth : Leaf → Bool
  | .int i => i.value ≠ 0
  | .ident x => x.name ∈ oneIdents
  | .call _ => false

/-- The same, with the integers modulo `2 ^ 32`. -/
def Leaf.truth32 : Leaf → Bool
  | .int i => i.value % 2 ^ 32 ≠ 0
  | .ident x => x.name ∈ oneIdents
  | .call _ => false

/-- A value behind so many `!`s. -/
def negate (bangs : Nat) (v : Bool) : Bool := xor (bangs % 2 == 1) v

mutual

def Operand.value : Operand → Bool
  | .leaf l => l.truth
  | .paren e => e.groups.1 || e.groups.2

/-- `&&` binds tighter than `||`: the value of the operands up to the first `||`, and of the
condition behind it. -/
def Expr.groups : Expr → Bool × Bool
  | .last bangs a => (negate bangs a.value, false)
  | .cons bangs a .and rest => (negate bangs a.value && rest.groups.1, rest.groups.2)
  | .cons bangs a .or rest => (negate bangs a.value, rest.groups.1 || rest.groups.2)

end

/-- The value under the precedence of C. -/
def Expr.value (e : Expr) : Bool := e.groups.1 || e.groups.2

/-! ### All operators grouped from the right -/

/-- The value of the left operand that makes the right one irrelevant. -/
def Op.skips : Op → Bool
  | .and => false
  | .or => true

def Op.apply : Op → Bool → Bool → Bool
  | .and => fun v w => v && w
  | .or => fun v w => v || w

/-- The operator that a negation makes of one. -/
def Op.under (neg : Bool) : Op → Op
  | .and => if neg then .or else .and
  | .or => if neg then .and else .or

/-- Operands with operators between them, and without `!`s and parentheses. -/
structure Chain where
  first : Bool
  links : List (Op × Bool)

namespace Chain

def append (c : Chain) (op : Op) (d : Chain) : Chain := ⟨c.first, c.links ++ (op, d.first) :: d.links⟩

/-- The value, where each operator has all that follows as its right operand. -/
def valueFrom (v : Bool) : List (Op × Bool) → Bool
  | [] => v
  | (op, w) :: links => op.apply v (valueFrom w links)

/-- Some operator makes its right operand irrelevant. -/
def skipsFrom (v : Bool) : List (Op × Bool) → Bool
  | [] => false
  | (op, w) :: links => v == op.skips || skipsFrom w links

def value (c : Chain) : Bool := valueFrom c.first c.links

def skips (c : Chain) : Bool := skipsFrom c.first c.links

end Chain

section

variable (truth : Leaf → Bool)

mutual

/-- The operands of a condition in a row, where a `!` goes to all up to the end of its
parentheses. -/
def Operand.chain (neg : Bool) : Operand → Chain
  | .leaf l => ⟨xor neg (truth l), []⟩
  | .paren e => e.chain neg

def Expr.chain (neg : Bool) : Expr → Chain
  | .last bangs a => a.chain (negate bangs neg)
  | .cons bangs a op rest =>
    (a.chain (negate bangs neg)).append (op.under (negate bangs neg)) (rest.chain (negate bangs neg))

end

end

/-- The value with all operators grouped from the right, and with each `!` in front of all that
follows in its parentheses. -/
def Expr.rightValue (e : Expr) : Bool := (e.chain Leaf.truth32 false).value

namespace Chain

theorem apply_skips (op : Op) (w : Bool) : op.apply op.skips w = op.skips := by
  cases op with
  | _ => rfl

theorem apply_not_skips (op : Op) (w : Bool) : op.apply (!op.skips) w = w := by
  cases op with
  | _ => rfl

theorem value_append (c : Chain) (op : Op) (d : Chain) :
    (c.append op d).value = if c.skips then c.value else op.apply c.value d.value := by
  obtain ⟨v, links⟩ := c
  induction links generalizing v with
  | nil => rfl
  | cons link links ih =>
    obtain ⟨o, w⟩ := link
    show o.apply v (append ⟨w, links⟩ op d).value =
      if (v == o.skips || skips ⟨w, links⟩) then o.apply v (value ⟨w, links⟩)
      else op.apply (o.apply v (value ⟨w, links⟩)) d.value
    by_cases hv : v = o.skips
    · rw [hv, apply_skips, apply_skips, beq_self_eq_true, Bool.true_or, if_pos rfl]
    · obtain rfl : v = !o.skips := Bool.eq_not.mpr hv
      rw [apply_not_skips, apply_not_skips, ih, beq_eq_false_iff_ne.mpr hv, Bool.false_or]

theorem skips_append (c : Chain) (op : Op) (d : Chain) :
    (c.append op d).skips = (c.skips || (c.value == op.skips || d.skips)) := by
  obtain ⟨v, links⟩ := c
  induction links generalizing v with
  | nil => rfl
  | cons link links ih =>
    obtain ⟨o, w⟩ := link
    show (v == o.skips || (append ⟨w, links⟩ op d).skips) =
      ((v == o.skips || skips ⟨w, links⟩) || (o.apply v (value ⟨w, links⟩) == op.skips || d.skips))
    by_cases hv : v = o.skips
    · rw [hv, beq_self_eq_true, Bool.true_or, Bool.true_or, Bool.true_or]
    · obtain rfl : v = !o.skips := Bool.eq_not.mpr hv
      rw [apply_not_skips, ih, beq_eq_false_iff_ne.mpr hv, Bool.false_or, Bool.false_or]

end Chain

/-! ### Negation -/

theorem apply_under (op : Op) (neg v w : Bool) :
    (op.under (!neg)).apply (!v) (!w) = !(op.under neg).apply v w := by
  cases op with
  | _ =>
    revert neg v w
    decide

theorem skips_under (op : Op) (neg : Bool) : (op.under (!neg)).skips = !(op.under neg).skips := by
  cases op with
  | _ =>
    revert neg
    decide

theorem negate_not (bangs : Nat) (neg : Bool) : negate bangs (!neg) = !negate bangs neg :=
  Bool.xor_not ..

theorem negate_succ (bangs : Nat) (neg : Bool) : negate (bangs + 1) neg = negate bangs (!neg) := by
  have hodd : ((bangs + 1) % 2 == 1) = !(bangs % 2 == 1) := by
    rcases Nat.mod_two_eq_zero_or_one bangs with h | h
    · rw [Nat.add_mod, h]
      rfl
    · rw [Nat.add_mod, h]
      rfl
  rw [negate, hodd, negate, Bool.not_xor, Bool.xor_not]

/-- `d` is what becomes of `c` behind a `!`. -/
def Chain.Negates (d c : Chain) : Prop := d.value = !c.value ∧ d.skips = c.skips

theorem Chain.append_not {a b c d : Chain} (op : Op) (neg : Bool) (ha : b.Negates a)
    (hc : d.Negates c) :
    (b.append (op.under !neg) d).Negates (a.append (op.under neg) c) := by
  rw [Chain.Negates, Chain.value_append, Chain.value_append, Chain.skips_append,
    Chain.skips_append, ha.1, ha.2, hc.1, hc.2, apply_under, skips_under]
  refine ⟨?_, ?_⟩
  · split
    · rfl
    · rfl
  · rw [Bool.beq_eq_decide_eq, Bool.beq_eq_decide_eq]
    simp only [Bool.not_inj_iff]

theorem chain_negate {c : Bool → Chain} (h : ∀ neg, (c !neg).Negates (c neg)) (bangs : Nat) :
    (c (negate bangs false)).value = negate bangs (c false).value ∧
      (c (negate bangs false)).skips = (c false).skips := by
  induction bangs with
  | zero => exact ⟨(Bool.false_xor _).symm, rfl⟩
  | succ bangs ih =>
    obtain ⟨hv, hs⟩ := h (negate bangs false)
    rw [negate_succ, negate_not, negate_succ, negate_not]
    exact ⟨hv.trans (congrArg (!·) ih.1), hs.trans ih.2⟩

section

variable {truth : Leaf → Bool}

mutual

theorem Operand.chain_not (neg : Bool) : ∀ a : Operand,
    (a.chain truth !neg).Negates (a.chain truth neg)
  | .leaf _ => ⟨Bool.not_xor .., rfl⟩
  | .paren e => e.chain_not neg

theorem Expr.chain_not (neg : Bool) : ∀ e : Expr,
    (e.chain truth !neg).Negates (e.chain truth neg)
  | .last bangs a => by
    rw [Expr.chain, Expr.chain, negate_not]
    exact a.chain_not _
  | .cons bangs a op rest => by
    rw [Expr.chain, Expr.chain, negate_not]
    exact Chain.append_not op _ (a.chain_not _) (rest.chain_not _)

end

end

/-! ### Leaves -/

mutual

def Operand.leaves : Operand → List Leaf
  | .leaf l => [l]
  | .paren e => e.leaves

/-- The integers, identifiers and calls of a condition. -/
def Expr.leaves : Expr → List Leaf
  | .last _ a => a.leaves
  | .cons _ a _ rest => a.leaves ++ rest.leaves

end

section

variable (f : Leaf → Leaf)

mutual

def Operand.map : Operand → Operand
  | .leaf l => .leaf (f l)
  | .paren e => .paren e.map

def Expr.map : Expr → Expr
  | .last bangs a => .last bangs a.map
  | .cons bangs a op rest => .cons bangs a.map op rest.map

end

variable {f}

mutual

theorem Operand.leaves_map : ∀ a : Operand, (a.map f).leaves = a.leaves.map f
  | .leaf _ => rfl
  | .paren e => e.leaves_map

theorem Expr.leaves_map : ∀ e : Expr, (e.map f).leaves = e.leaves.map f
  | .last bangs a => a.leaves_map
  | .cons bangs a op rest => by
    rw [Expr.map, Expr.leaves, Expr.leaves, map_append, a.leaves_map, rest.leaves_map]

end

variable {truth : Leaf → Bool}

mutual

theorem Operand.chain_map (neg : Bool) : ∀ a : Operand, (∀ l ∈ a.leaves, truth (f l) = truth l) →
    (a.map f).chain truth neg = a.chain truth neg
  | .leaf l, h => by
    rw [Operand.map, Operand.chain, Operand.chain, h l mem_cons_self]
  | .paren e, h => e.chain_map neg h

theorem Expr.chain_map (neg : Bool) : ∀ e : Expr, (∀ l ∈ e.leaves, truth (f l) = truth l) →
    (e.map f).chain truth neg = e.chain truth neg
  | .last bangs a, h => a.chain_map _ h
  | .cons bangs a op rest, h => by
    rw [Expr.map, Expr.chain, Expr.chain,
      a.chain_map _ fun l hl => h l (mem_append_left _ hl),
      rest.chain_map _ fun l hl => h l (mem_append_right _ hl)]

end

end

/-! ### Words -/

/-- What follows a word: no character of it. -/
def Cut (cs : List Char) : Prop := ∀ c ∈ cs.head?, isIdent c = false

theorem cut_cons {c : Char} {cs : List Char} : Cut (c :: cs) ↔ isIdent c = false :=
  ⟨fun h => h c rfl, fun h _ hc => some.inj hc ▸ h⟩

theorem takeWhile_word {p : Char → Bool} {w tail : List Char} (hw : ∀ c ∈ w, p c = true)
    (htail : ∀ c ∈ tail.head?, p c = false) : (w ++ tail).takeWhile p = w := by
  rw [takeWhile_append_of_pos hw]
  cases tail with
  | nil => exact append_nil w
  | cons c tail =>
    rw [takeWhile_cons_of_neg (Bool.eq_false_iff.mp (htail c rfl)), append_nil]

theorem dropWhile_word {p : Char → Bool} {w tail : List Char} (hw : ∀ c ∈ w, p c = true)
    (htail : ∀ c ∈ tail.head?, p c = false) : (w ++ tail).dropWhile p = tail := by
  rw [dropWhile_append_of_pos hw]
  cases tail with
  | nil => rfl
  | cons c tail => exact dropWhile_cons_of_neg (Bool.eq_false_iff.mp (htail c rfl))

theorem isIdent_of_isDigit {c : Char} (h : c.isDigit = true) : isIdent c = true := by
  rw [isIdent, Char.isAlphanum, h, Bool.or_true, Bool.true_or]

/-! ### Calls -/

section

variable {name : List Char} (hname : ∀ c ∈ name, isIdent c = true)
include hname

theorem word_of_prefix {w tail : List Char} (hw : ∀ c ∈ w, isIdent c = true) (htail : Cut tail)
    (h : (name ++ ['(']).isPrefixOf (w ++ tail) = true) : w = name ∧ tail.head? = some '(' := by
  obtain ⟨rest, hrest⟩ := List.isPrefixOf_iff_prefix.mp h
  rw [List.append_assoc, List.singleton_append] at hrest
  have hparen : ∀ c ∈ ('(' :: rest).head?, isIdent c = false := fun c hc =>
    Option.some.inj hc ▸ rfl
  have hwname : w = name := by
    rw [← takeWhile_word hw htail, ← hrest, takeWhile_word hname hparen]
  refine ⟨hwname, ?_⟩
  rw [hwname] at hrest
  rw [← List.append_cancel_left hrest]
  rfl

theorem zeroCallFrom_word {w tail : List Char} (hw : ∀ c ∈ w, isIdent c = true) (htail : Cut tail)
    (hno : ∀ s, s <:+ w → s ≠ [] → s ≠ name ∨ tail.head? ≠ some '(') :
    zeroCallFrom name 0 0 (w ++ tail) = w ++ zeroCallFrom name 0 0 tail := by
  induction w with
  | nil => rfl
  | cons c w ih =>
    have hnot : ¬ (name ++ ['(']).isPrefixOf (c :: (w ++ tail)) = true := by
      intro h
      obtain ⟨heq, hopen⟩ := word_of_prefix hname hw htail h
      rcases hno _ List.suffix_rfl (List.cons_ne_nil c w) with hne | hne
      · exact hne heq
      · exact hne hopen
    rw [List.cons_append, zeroCallFrom, if_neg hnot, List.cons_append]
    refine congrArg (c :: ·) (ih (fun d hd => hw d (List.mem_cons_of_mem _ hd)) fun s hs => ?_)
    exact hno s (hs.trans (List.suffix_cons c w))

variable (hne : name ≠ [])
include hne

theorem zeroCallFrom_char {c : Char} {tail : List Char} (hc : isIdent c = false) :
    zeroCallFrom name 0 0 (c :: tail) = c :: zeroCallFrom name 0 0 tail := by
  refine if_neg fun h => ?_
  obtain ⟨rest, hrest⟩ := isPrefixOf_iff_prefix.mp h
  cases name with
  | nil => exact hne rfl
  | cons d name =>
    obtain ⟨rfl, -⟩ := List.cons.inj hrest
    exact absurd (hname d mem_cons_self) (Bool.eq_false_iff.mp hc)

end

theorem zeroCallFrom_skip (name : List Char) (depth : Nat) (w cs : List Char) :
    zeroCallFrom name w.length depth (w ++ cs) = zeroCallFrom name 0 depth cs := by
  induction w with
  | nil => rfl
  | cons c w ih => exact ih

theorem zeroCallFrom_balanced {name args : List Char} (h : Balanced args) (depth : Nat)
    (tail : List Char) :
    zeroCallFrom name 0 (depth + 1) (args ++ tail) = zeroCallFrom name 0 (depth + 1) tail := by
  induction h generalizing depth tail with
  | nil => rfl
  | char hopen hclose _ ih =>
    rw [cons_append, zeroCallFrom, if_neg hopen, if_neg hclose, ih]
  | paren _ _ ihinner ih =>
    rw [cons_append, List.append_assoc, zeroCallFrom, if_pos rfl, ihinner, cons_append,
      zeroCallFrom, if_neg (by decide), if_pos rfl, ih]

theorem zeroCallFrom_call {name args tail : List Char} (hne : name ≠ []) (h : Balanced args) :
    zeroCallFrom name 0 0 (name ++ '(' :: (args ++ ')' :: tail)) =
      '0' :: zeroCallFrom name 0 0 tail := by
  cases name with
  | nil => exact absurd rfl hne
  | cons c name =>
    have hprefix : (c :: name ++ ['(']).isPrefixOf (c :: (name ++ '(' :: (args ++ ')' :: tail))) =
        true := by
      refine isPrefixOf_iff_prefix.mpr ⟨args ++ ')' :: tail, ?_⟩
      rw [cons_append, cons_append, List.append_assoc, singleton_append]
    have hskip := zeroCallFrom_skip (c :: name) 1 (name ++ ['(']) (args ++ ')' :: tail)
    rw [length_append, length_singleton, List.append_assoc, singleton_append] at hskip
    rw [cons_append, zeroCallFrom, if_pos hprefix, length_cons, hskip,
      zeroCallFrom_balanced h, zeroCallFrom, if_neg (by decide), if_pos rfl]

theorem Balanced.split {name : List Char} (hname : ∀ c ∈ name, isIdent c = true)
    {cs tail rest : List Char} (h : Balanced cs) (heq : name ++ '(' :: rest = cs ++ ')' :: tail) :
    ∃ inner after, Balanced inner ∧ Balanced after ∧ cs = name ++ '(' :: (inner ++ ')' :: after) := by
  induction name generalizing cs with
  | nil =>
    cases h with
    | nil => simp at heq
    | char hopen => exact absurd (List.cons.inj heq).1.symm hopen
    | paren hinner hafter => exact ⟨_, _, hinner, hafter, rfl⟩
  | cons c name ih =>
    have hc : isIdent c = true := hname c mem_cons_self
    cases h with
    | nil =>
      obtain ⟨rfl, -⟩ := List.cons.inj heq
      cases hc
    | char _ _ h =>
      obtain ⟨rfl, hcs⟩ := List.cons.inj heq
      obtain ⟨inner, after, hinner, hafter, rfl⟩ :=
        ih (fun d hd => hname d (mem_cons_of_mem _ hd)) h hcs
      exact ⟨inner, after, hinner, hafter, rfl⟩
    | paren =>
      obtain ⟨rfl, -⟩ := List.cons.inj heq
      cases hc

/-- What is between balanced parentheses stays balanced, whatever is put out in it. -/
theorem zeroCallFrom_args {name : List Char} (hname : ∀ c ∈ name, isIdent c = true)
    (hne : name ≠ []) {args : List Char} (h : Balanced args) :
    Balanced (zeroCall args name) ∧ ∀ tail, zeroCallFrom name 0 0 (args ++ ')' :: tail) =
      zeroCall args name ++ ')' :: zeroCallFrom name 0 0 tail := by
  have hclose : isIdent ')' = false := rfl
  have hopen : isIdent '(' = false := rfl
  induction hlen : args.length using Nat.strongRecOn generalizing args with
  | ind n ih =>
    cases h with
    | nil => exact ⟨.nil, fun tail => zeroCallFrom_char hname hne hclose⟩
    | @char c cs hcopen hcclose h =>
      by_cases hcall : (name ++ ['(']).isPrefixOf (c :: cs) = true
      · obtain ⟨rest, hrest⟩ := List.isPrefixOf_iff_prefix.mp hcall
        rw [List.append_assoc, List.singleton_append] at hrest
        have hsplit : name ++ '(' :: (rest ++ [')']) = (c :: cs) ++ [')'] := by
          rw [← hrest, List.append_assoc, List.cons_append]
        obtain ⟨inner, after, hinner, hafter, hcs⟩ :=
          (h.char hcopen hcclose).split hname hsplit
        have hshort : after.length < n := by
          rw [← hlen, hcs]
          simp only [List.length_append, List.length_cons]
          omega
        obtain ⟨hbalanced, htail⟩ := ih _ hshort hafter rfl
        have hall : ∀ tail, zeroCallFrom name 0 0 ((c :: cs) ++ tail) =
            '0' :: zeroCallFrom name 0 0 (after ++ tail) := by
          intro tail
          rw [hcs, List.append_assoc, List.cons_append, List.append_assoc, List.cons_append]
          exact zeroCallFrom_call hne hinner
        have hself : zeroCall (c :: cs) name = '0' :: zeroCall after name := by
          have := hall []
          rwa [List.append_nil, List.append_nil] at this
        rw [hself]
        refine ⟨.char (by decide) (by decide) hbalanced, fun tail => ?_⟩
        rw [hall, htail, List.cons_append]
      · have hlonger : ∀ tail, ¬ (name ++ ['(']).isPrefixOf (c :: (cs ++ ')' :: tail)) = true := by
          intro tail hcall'
          obtain ⟨rest, hrest⟩ := List.isPrefixOf_iff_prefix.mp hcall'
          rw [List.append_assoc, List.singleton_append] at hrest
          obtain ⟨inner, after, -, -, hcs⟩ := (h.char hcopen hcclose).split hname hrest
          refine hcall (List.isPrefixOf_iff_prefix.mpr ⟨inner ++ ')' :: after, ?_⟩)
          rw [hcs, List.append_assoc, List.singleton_append]
        have hshort : cs.length < n := by
          rw [← hlen]
          exact Nat.lt_succ_self _
        obtain ⟨hbalanced, htail⟩ := ih _ hshort h rfl
        have hself : zeroCall (c :: cs) name = c :: zeroCall cs name := if_neg hcall
        rw [hself]
        refine ⟨.char hcopen hcclose hbalanced, fun tail => ?_⟩
        rw [List.cons_append, zeroCallFrom, if_neg (hlonger tail), htail, List.cons_append]
    | @paren inner cs hinner h =>
      have hshort : inner.length < n ∧ cs.length < n := by
        rw [← hlen]
        simp only [List.length_append, List.length_cons]
        omega
      obtain ⟨hbinner, hinnertail⟩ := ih _ hshort.1 hinner rfl
      obtain ⟨hbcs, hcstail⟩ := ih _ hshort.2 h rfl
      have hself : zeroCall ('(' :: (inner ++ ')' :: cs)) name =
          '(' :: (zeroCall inner name ++ ')' :: zeroCall cs name) := by
        rw [zeroCall, zeroCallFrom_char hname hne hopen, hinnertail]
        rfl
      rw [hself]
      refine ⟨.paren hbinner hbcs, fun tail => ?_⟩
      rw [List.cons_append, List.append_assoc, List.cons_append, zeroCallFrom_char hname hne hopen,
        hinnertail, hcstail, List.cons_append, List.append_assoc, List.cons_append]

/-! ### Identifiers -/

section

variable {name : List Char} {value : Char}

theorem replaceIdentFrom_skip (w cs : List Char) (left : Bool) :
    replaceIdentFrom name value w.length left (w ++ cs) =
      replaceIdentFrom name value 0 (if w = [] then left else isIdent value) cs := by
  induction w generalizing left with
  | nil => rfl
  | cons c w ih =>
    rw [length_cons, cons_append, replaceIdentFrom, ih, if_neg (cons_ne_nil c w)]
    split
    · rfl
    · rfl

theorem replaceIdentFrom_inside {w tail : List Char} (hw : ∀ c ∈ w, isIdent c = true) :
    replaceIdentFrom name value 0 true (w ++ tail) =
      w ++ replaceIdentFrom name value 0 true tail := by
  induction w with
  | nil => rfl
  | cons c w ih =>
    rw [cons_append, replaceIdentFrom, if_neg (fun h => Bool.noConfusion h.2.1),
      hw c mem_cons_self, ih fun d hd => hw d (mem_cons_of_mem _ hd), cons_append]

variable (hname : ∀ c ∈ name, isIdent c = true)
include hname

theorem word_of_ident {w tail : List Char} (hw : ∀ c ∈ w, isIdent c = true) (htail : Cut tail)
    (h : name.isPrefixOf (w ++ tail) = true)
    (hright : ((w ++ tail).drop name.length).head?.all (!isIdent ·) = true) : w = name := by
  obtain ⟨rest, hrest⟩ := isPrefixOf_iff_prefix.mp h
  rw [← hrest, drop_left] at hright
  have hcut : ∀ c ∈ rest.head?, isIdent c = false := by
    intro c hc
    rw [hc, all_some] at hright
    exact Bool.not_eq_true' _ ▸ hright
  rw [← takeWhile_word hw htail, ← hrest, takeWhile_word hname hcut]

variable (hne : name ≠ []) (hvalue : isIdent value = true)
include hne

theorem replaceIdentFrom_char {c : Char} {tail : List Char} (hc : isIdent c = false) (left : Bool) :
    replaceIdentFrom name value 0 left (c :: tail) =
      c :: replaceIdentFrom name value 0 false tail := by
  have hnot : ¬ name.isPrefixOf (c :: tail) = true := by
    intro h
    obtain ⟨rest, hrest⟩ := isPrefixOf_iff_prefix.mp h
    cases name with
    | nil => exact hne rfl
    | cons d name =>
      obtain ⟨rfl, -⟩ := List.cons.inj hrest
      exact absurd (hname d mem_cons_self) (Bool.eq_false_iff.mp hc)
  rw [replaceIdentFrom, if_neg (fun h => hnot h.1), hc]

theorem replaceIdentFrom_cut {tail : List Char} (htail : Cut tail) (left : Bool) :
    replaceIdentFrom name value 0 left tail = replaceIdentFrom name value 0 false tail := by
  cases tail with
  | nil => rfl
  | cons c tail =>
    have hc := cut_cons.mp htail
    rw [replaceIdentFrom_char hname hne hc, replaceIdentFrom_char hname hne hc]

theorem replaceIdentFrom_word {w tail : List Char} (hw : ∀ c ∈ w, isIdent c = true)
    (htail : Cut tail) (hother : w ≠ name) :
    replaceIdentFrom name value 0 false (w ++ tail) =
      w ++ replaceIdentFrom name value 0 false tail := by
  cases w with
  | nil => rfl
  | cons c w =>
    have hnot : ¬ (name.isPrefixOf (c :: (w ++ tail)) = true ∧ false = false ∧
        ((c :: (w ++ tail)).drop name.length).head?.all (!isIdent ·) = true) :=
      fun h => hother (word_of_ident hname hw htail h.1 h.2.2)
    rw [cons_append, replaceIdentFrom, if_neg hnot, hw c mem_cons_self,
      replaceIdentFrom_inside fun d hd => hw d (mem_cons_of_mem _ hd),
      replaceIdentFrom_cut hname hne htail, cons_append]

theorem replaceIdentFrom_self {tail : List Char} (htail : Cut tail) :
    replaceIdentFrom name value 0 false (name ++ tail) =
      value :: replaceIdentFrom name value 0 false tail := by
  have hcond : name.isPrefixOf (name ++ tail) = true ∧ false = false ∧
      ((name ++ tail).drop name.length).head?.all (!isIdent ·) = true := by
    refine ⟨ isPrefixOf_iff_prefix.mpr (prefix_append name tail), rfl, ?_⟩
    rw [drop_left]
    cases tail with
    | nil => rfl
    | cons c tail => rw [head?_cons, all_some, cut_cons.mp htail, Bool.not_false]
  cases hsplit : name with
  | nil => exact absurd hsplit hne
  | cons c rest =>
    rw [hsplit, cons_append] at hcond
    rw [cons_append, replaceIdentFrom, if_pos hcond, length_cons, Nat.add_sub_cancel,
      replaceIdentFrom_skip, ← hsplit, replaceIdentFrom_cut hname hne htail]

end

/-! ### The passes -/

/-- What follows an operand. -/
def Follow (cs : List Char) : Prop := ∀ c ∈ cs.head?, c = ')' ∨ c = '&' ∨ c = '|'

theorem follow_nil : Follow [] := nofun

theorem follow_cons {c : Char} (h : c = ')' ∨ c = '&' ∨ c = '|') (cs : List Char) :
    Follow (c :: cs) := fun _ hc => Option.some.inj hc ▸ h

theorem Follow.cut {cs : List Char} (h : Follow cs) : Cut cs := by
  intro c hc
  rcases h c hc with rfl | rfl | rfl
  · rfl
  · rfl
  · rfl

theorem Follow.head_ne {cs : List Char} (h : Follow cs) : cs.head? ≠ some '(' := fun hc =>
  absurd (h '(' hc) (by decide)

theorem Op.follow (op : Op) (cs : List Char) : Follow (op.text ++ cs) := by
  cases op with
  | and => exact follow_cons (.inr (.inl rfl)) _
  | or => exact follow_cons (.inr (.inr rfl)) _

section

variable {g : List Char → List Char} {f : Leaf → Leaf}
  (hchar : ∀ c tail, isIdent c = false → g (c :: tail) = c :: g tail)
include hchar

theorem pass_bangs (bangs : Nat) (cs : List Char) :
    g (bangText bangs ++ cs) = bangText bangs ++ g cs := by
  induction bangs with
  | zero => rfl
  | succ bangs ih =>
    rw [bangText, replicate_succ, cons_append, hchar _ _ (by decide), cons_append]
    exact congrArg ('!' :: ·) ih

theorem pass_op (op : Op) (cs : List Char) : g (op.text ++ cs) = op.text ++ g cs := by
  cases op with
  | and =>
    show g ('&' :: '&' :: cs) = '&' :: '&' :: g cs
    rw [hchar _ _ (by decide), hchar _ _ (by decide)]
  | or =>
    show g ('|' :: '|' :: cs) = '|' :: '|' :: g cs
    rw [hchar _ _ (by decide), hchar _ _ (by decide)]

mutual

theorem Operand.pass {tail : List Char} (htail : Follow tail) : ∀ a : Operand,
    (∀ l ∈ a.leaves, ∀ tail, Follow tail → g (l.text ++ tail) = (f l).text ++ g tail) →
    g (a.text ++ tail) = (a.map f).text ++ g tail
  | .leaf l, hleaf => hleaf l mem_cons_self tail htail
  | .paren e, hleaf => by
    rw [Operand.text, Operand.map, Operand.text, cons_append, List.append_assoc,
      singleton_append, hchar _ _ (by decide),
      e.pass (follow_cons (.inl rfl) tail) hleaf, hchar _ _ (by decide), cons_append,
      List.append_assoc, singleton_append]

theorem Expr.pass {tail : List Char} (htail : Follow tail) : ∀ e : Expr,
    (∀ l ∈ e.leaves, ∀ tail, Follow tail → g (l.text ++ tail) = (f l).text ++ g tail) →
    g (e.text ++ tail) = (e.map f).text ++ g tail
  | .last bangs a, hleaf => by
    rw [Expr.text, Expr.map, Expr.text, List.append_assoc, pass_bangs hchar, a.pass htail hleaf,
      List.append_assoc]
  | .cons bangs a op rest, hleaf => by
    rw [Expr.text, Expr.map, Expr.text, List.append_assoc, List.append_assoc, List.append_assoc,
      pass_bangs hchar,
      a.pass (op.follow _) fun l hl => hleaf l (mem_append_left _ hl), pass_op hchar,
      rest.pass htail fun l hl => hleaf l (mem_append_right _ hl), List.append_assoc,
      List.append_assoc, List.append_assoc]

end

end

/-- `0` or `1`. -/
def Integer.ofBool (b : Bool) : Integer where
  digits := [if b then '1' else '0']
  ne_nil := List.cons_ne_nil _ _
  isDigit := List.forall_mem_singleton.mpr <| by
    cases b with
    | _ => decide

theorem families_word (name : List Char) (hname : name ∈ families) :
    name ≠ [] ∧ ∀ c ∈ name, isIdent c = true := by
  have hall : ∀ name ∈ families, name ≠ [] ∧ name.all isIdent = true := by decide
  exact (hall name hname).imp_right List.all_eq_true.mp

theorem families_suffix :
    ∀ name ∈ families, ∀ other ∈ families, name.isSuffixOf other = true → name = other := by decide

/-- A call after a pass for another name. -/
def MacroCall.zeroArgs (c : MacroCall) {name : List Char} (hname : name ∈ families) : MacroCall where
  name := c.name
  mem := c.mem
  args := zeroCall c.args name
  balanced :=
    (zeroCallFrom_args (families_word name hname).2 (families_word name hname).1 c.balanced).1

/-- What a pass for calls makes of a leaf. -/
def Leaf.zero {name : List Char} (hname : name ∈ families) : Leaf → Leaf
  | .int i => .int i
  | .ident x => .ident x
  | .call c => if c.name = name then .int (.ofBool false) else .call (c.zeroArgs hname)

/-- What a pass for an identifier makes of a leaf. -/
def Leaf.replace (name : List Char) : Leaf → Leaf
  | .int i => .int i
  | .ident x => if x.name = name then .int (.ofBool (name ∈ oneIdents)) else .ident x
  | .call c => .call c

theorem Leaf.zero_text {name : List Char} (hname : name ∈ families) (l : Leaf) {tail : List Char}
    (htail : Follow tail) : zeroCallFrom name 0 0 (l.text ++ tail) =
      (l.zero hname).text ++ zeroCallFrom name 0 0 tail := by
  obtain ⟨hne, hword⟩ := families_word name hname
  cases l with
  | int i =>
    exact zeroCallFrom_word hword (fun c hc => isIdent_of_isDigit (i.isDigit c hc)) htail.cut
      fun _ _ _ => .inr htail.head_ne
  | ident x => exact zeroCallFrom_word hword x.isIdent htail.cut fun _ _ _ => .inr htail.head_ne
  | call c =>
    have htext : (Leaf.call c).text ++ tail = c.name ++ '(' :: (c.args ++ ')' :: tail) := by
      rw [Leaf.text, List.append_assoc, cons_append, List.append_assoc, singleton_append]
    rw [htext, Leaf.zero]
    split
    · rename_i heq
      rw [heq]
      exact zeroCallFrom_call hne c.balanced
    · rename_i hother
      have hno : ∀ s, s <:+ c.name → s ≠ [] → s ≠ name ∨
          ('(' :: (c.args ++ ')' :: tail)).head? ≠ some '(' := by
        intro s hs _
        refine .inl fun heq => hother ?_
        rw [heq] at hs
        exact (families_suffix name hname c.name c.mem (isSuffixOf_iff_suffix.mpr hs)).symm
      rw [zeroCallFrom_word hword (families_word _ c.mem).2 (cut_cons.mpr rfl) hno,
        zeroCallFrom_char hword hne rfl, (zeroCallFrom_args hword hne c.balanced).2, Leaf.text,
        List.append_assoc, cons_append, List.append_assoc, singleton_append]
      rfl

theorem idents_word (p : List Char × Char) (hp : p ∈ idents) :
    (p.1 ≠ [] ∧ (∀ c ∈ p.1, isIdent c = true) ∧ p.1.head?.any Char.isDigit = false) ∧
      p.2 = if p.1 ∈ oneIdents then '1' else '0' := by
  have hall : ∀ p ∈ idents, (p.1 ≠ [] ∧ p.1.all isIdent = true ∧
      p.1.head?.any Char.isDigit = false) ∧ p.2 = if p.1 ∈ oneIdents then '1' else '0' := by decide
  exact (hall p hp).imp_left fun h => ⟨h.1, List.all_eq_true.mp h.2.1, h.2.2⟩

theorem Leaf.replace_text {p : List Char × Char} (hp : p ∈ idents) {l : Leaf}
    (hl : ∀ c, l ≠ .call c) {tail : List Char} (htail : Follow tail) :
    replaceIdentFrom p.1 p.2 0 false (l.text ++ tail) =
      (l.replace p.1).text ++ replaceIdentFrom p.1 p.2 0 false tail := by
  obtain ⟨⟨hne, hword, hhead⟩, hvalue⟩ := idents_word p hp
  cases l with
  | int i =>
    refine replaceIdentFrom_word hword hne (fun c hc => isIdent_of_isDigit (i.isDigit c hc))
      htail.cut fun heq => ?_
    obtain ⟨c, rest, hcons⟩ := exists_cons_of_ne_nil i.ne_nil
    have hdigit := i.isDigit c (hcons ▸ mem_cons_self)
    rw [← heq, show (Leaf.int i).text = c :: rest from hcons, head?_cons, any_some,
      hdigit] at hhead
    cases hhead
  | ident x =>
    rw [Leaf.replace]
    split
    · rename_i heq
      have htext : (Leaf.ident x).text = p.1 := heq
      rw [htext, replaceIdentFrom_self hword hne htail.cut, hvalue]
      simp only [decide_eq_true_eq, Leaf.text, Integer.ofBool, cons_append, nil_append]
    · rename_i hother
      exact replaceIdentFrom_word hword hne x.isIdent htail.cut hother
  | call c => exact absurd rfl (hl c)

def Leaf.callName : Leaf → Option (List Char)
  | .call c => some c.name
  | _ => none

def Leaf.identName : Leaf → Option (List Char)
  | .ident x => some x.name
  | _ => none

theorem Leaf.truth32_zero {name : List Char} (hname : name ∈ families) (l : Leaf) :
    (l.zero hname).truth32 = l.truth32 := by
  cases l with
  | int i => rfl
  | ident x => rfl
  | call c =>
    rw [Leaf.zero]
    split
    · rfl
    · rfl

theorem Leaf.truth32_replace (name : List Char) (l : Leaf) :
    (l.replace name).truth32 = l.truth32 := by
  cases l with
  | int i => rfl
  | call c => rfl
  | ident x =>
    rw [Leaf.replace]
    split
    · rename_i heq
      rw [← heq, Leaf.truth32, Leaf.truth32]
      cases decide (x.name ∈ oneIdents) with
      | _ => rfl
    · rfl

theorem foldl_zeroCall {names : List (List Char)} (hnames : ∀ n ∈ names, n ∈ families) (e : Expr) :
    ∃ e' : Expr, names.foldl zeroCall e.text = e'.text ∧ e'.rightValue = e.rightValue ∧
      ∀ l ∈ e'.leaves, ∀ n ∈ l.callName, n ∉ names ∧ ∃ l' ∈ e.leaves, l'.callName = some n := by
  induction names generalizing e with
  | nil =>
    exact ⟨e, rfl, rfl, fun l hl n hn => ⟨not_mem_nil, l, hl, hn⟩⟩
  | cons name names ih =>
    obtain ⟨hname, hrest⟩ := forall_mem_cons.mp hnames
    obtain ⟨hne, hword⟩ := families_word name hname
    have htext : zeroCall e.text name = (e.map (Leaf.zero hname)).text := by
      have := e.pass (fun c tail hc => zeroCallFrom_char hword hne hc) follow_nil
        fun l _ tail htail => l.zero_text hname htail
      rwa [append_nil, zeroCallFrom, append_nil] at this
    obtain ⟨e', he', hvalue, hcalls⟩ := ih hrest (e.map (Leaf.zero hname))
    refine ⟨e', ?_, hvalue.trans ?_, fun l hl n hn => ?_⟩
    · rw [foldl_cons, htext, he']
    · rw [Expr.rightValue, Expr.chain_map false e fun l _ => l.truth32_zero hname]
      rfl
    · obtain ⟨hnot, l', hl', hn'⟩ := hcalls l hl n hn
      rw [Expr.leaves_map] at hl'
      obtain ⟨l₀, hl₀, rfl⟩ := List.mem_map.mp hl'
      cases l₀ with
      | int i => cases hn'
      | ident x => cases hn'
      | call c =>
        rw [Leaf.zero] at hn'
        split at hn'
        · cases hn'
        · rename_i hother
          obtain rfl := some.inj hn'
          exact ⟨fun hmem => (mem_cons.mp hmem).elim hother hnot, _, hl₀, rfl⟩

/-- The passes for identifiers, in any order. -/
theorem foldl_replaceIdent {ps : List (List Char × Char)} (hps : ∀ p ∈ ps, p ∈ idents) (e : Expr)
    (hcalls : ∀ l ∈ e.leaves, l.callName = none) :
    ∃ e' : Expr, ps.foldl replaceIdent e.text = e'.text ∧ e'.rightValue = e.rightValue ∧
      (∀ l ∈ e'.leaves, l.callName = none) ∧ ∀ l ∈ e'.leaves, ∀ n ∈ l.identName,
        n ∉ ps.map Prod.fst ∧ ∃ l' ∈ e.leaves, l'.identName = some n := by
  induction ps generalizing e with
  | nil => exact ⟨e, rfl, rfl, hcalls, fun l hl n hn => ⟨not_mem_nil, l, hl, hn⟩⟩
  | cons p ps ih =>
    obtain ⟨hp, hrest⟩ := forall_mem_cons.mp hps
    obtain ⟨⟨hne, hword, -⟩, -⟩ := idents_word p hp
    have hnocall : ∀ l ∈ e.leaves, ∀ c, l ≠ .call c := by
      rintro l hl c rfl
      cases hcalls _ hl
    have htext : replaceIdent e.text p = (e.map (Leaf.replace p.1)).text := by
      have := e.pass (fun c tail hc => replaceIdentFrom_char hword hne hc false)
        follow_nil fun l hl tail htail => Leaf.replace_text hp (hnocall l hl) htail
      rwa [append_nil, replaceIdentFrom, append_nil] at this
    have hcalls' : ∀ l ∈ (e.map (Leaf.replace p.1)).leaves, l.callName = none := by
      intro l hl
      rw [Expr.leaves_map] at hl
      obtain ⟨l₀, hl₀, rfl⟩ := List.mem_map.mp hl
      cases l₀ with
      | int i => rfl
      | call c => cases hcalls _ hl₀
      | ident x =>
        rw [Leaf.replace]
        split
        · rfl
        · rfl
    obtain ⟨e', he', hvalue, hnone, hidents⟩ := ih hrest (e.map (Leaf.replace p.1)) hcalls'
    refine ⟨e', ?_, hvalue.trans ?_, hnone, fun l hl n hn => ?_⟩
    · rw [foldl_cons, htext, he']
    · rw [Expr.rightValue, Expr.chain_map false e fun l _ => l.truth32_replace p.1]
      rfl
    · obtain ⟨hnot, l', hl', hn'⟩ := hidents l hl n hn
      rw [Expr.leaves_map] at hl'
      obtain ⟨l₀, hl₀, rfl⟩ := List.mem_map.mp hl'
      cases l₀ with
      | int i => cases hn'
      | call c => cases hn'
      | ident x =>
        rw [Leaf.replace] at hn'
        split at hn'
        · cases hn'
        · rename_i hother
          obtain rfl := some.inj hn'
          rw [map_cons, mem_cons, not_or]
          exact ⟨⟨hother, hnot⟩, _, hl₀, rfl⟩

/-- What `parseOr` is called with: integers, and identifiers that are `0`. -/
def Leaf.Plain : Leaf → Prop
  | .int _ => True
  | .ident x => x.name ∉ oneIdents
  | .call _ => False

theorem expand_eq {expr : List Char} {e : Expr} (h : strip expr = e.text) :
    ∃ e' : Expr, expand expr = e'.text ∧ e'.rightValue = e.rightValue ∧ ∀ l ∈ e'.leaves, l.Plain := by
  obtain ⟨e₁, htext₁, hvalue₁, hcalls⟩ := foldl_zeroCall (fun _ hn => hn) e
  have hnone : ∀ l ∈ e₁.leaves, l.callName = none := by
    intro l hl
    cases l with
    | call c => exact absurd c.mem (hcalls _ hl c.name rfl).1
    | _ => rfl
  obtain ⟨e₂, htext₂, hvalue₂, hnone₂, hidents⟩ := foldl_replaceIdent (fun _ hp => hp) e₁ hnone
  refine ⟨e₂, ?_, hvalue₂.trans hvalue₁, fun l hl => ?_⟩
  · rw [expand, h, htext₁, htext₂]
  · have hones : ∀ n ∈ oneIdents, n ∈ idents.map Prod.fst := by decide
    cases l with
    | int i => trivial
    | ident x => exact fun hone => (hidents _ hl x.name rfl).1 (hones _ hone)
    | call c => cases hnone₂ _ hl

/-! ### The reading of a condition -/

/-- With enough depth a function has the result. -/
def Settles {α : Type} (f : Nat → Option α) (a : α) : Prop := ∃ enough, ∀ n, enough ≤ n → f n = some a

theorem Settles.of_succ {α : Type} {f g : Nat → Option α} {a : α} (h : Settles g a)
    (hfg : ∀ n, f (n + 1) = g n) : Settles f a := by
  obtain ⟨enough, h⟩ := h
  refine ⟨enough + 1, fun n hn => ?_⟩
  obtain ⟨k, rfl⟩ : ∃ k, n = k + 1 := ⟨n - 1, by omega⟩
  rw [hfg]
  exact h k (by omega)

theorem settles_some {α : Type} {f : Nat → Option α} {a : α} (h : ∀ n, f (n + 1) = some a) :
    Settles f a := by
  refine ⟨1, fun n hn => ?_⟩
  obtain ⟨k, rfl⟩ : ∃ k, n = k + 1 := ⟨n - 1, by omega⟩
  exact h k

theorem Settles.bind {α β : Type} {f : Nat → Option α} {g : Nat → α → Option β} {a : α} {b : β}
    (hf : Settles f a) (hg : Settles (fun n => g n a) b) : Settles (fun n => f n >>= g n) b := by
  obtain ⟨i, hi⟩ := hf
  obtain ⟨j, hj⟩ := hg
  refine ⟨max i j, fun n hn => ?_⟩
  show (f n >>= g n) = some b
  rw [hi n (by omega)]
  exact hj n (by omega)

/-- What the cursor is in front of where nothing more is read: the beginning of an operand. -/
def Blocked (cs : List Char) : Prop := ∃ c ∈ cs.head?, c = '!' ∨ c = '(' ∨ isIdent c = true

/-- What follows a condition. -/
def Closed (cs : List Char) : Prop := ∀ c ∈ cs.head?, c = ')'

/-- What neither loop goes on with. -/
def Idle (cs : List Char) : Prop := ∀ c ∈ cs.head?, c ≠ '&' ∧ c ≠ '|'

/-- Where the cursor is: in front of what follows, or of an operand that is not read. -/
def Stops (skips : Bool) (tail rest : List Char) : Prop := if skips then Blocked rest else rest = tail

theorem Blocked.idle {cs : List Char} (h : Blocked cs) : Idle cs := by
  obtain ⟨c, hc, h⟩ := h
  intro d hd
  obtain rfl := some.inj (hc.symm.trans hd)
  rcases h with rfl | rfl | h
  · decide
  · decide
  · refine ⟨?_, ?_⟩
    · rintro rfl
      cases h
    · rintro rfl
      cases h

theorem Closed.idle {cs : List Char} (h : Closed cs) : Idle cs := by
  intro c hc
  obtain rfl := h c hc
  decide

theorem Closed.follow {cs : List Char} (h : Closed cs) : Follow cs := fun c hc => .inl (h c hc)

theorem Stops.idle {skips : Bool} {tail rest : List Char} (h : Stops skips tail rest)
    (htail : Closed tail) : Idle rest := by
  cases skips with
  | true => exact Blocked.idle h
  | false =>
    obtain rfl : rest = tail := h
    exact htail.idle

theorem andLoop_idle {cs : List Char} (h : Idle cs) (v : Bool) :
    Settles (fun n => andLoop n v cs) (v, cs) :=
  settles_some fun n => andLoop.eq_3 v cs n fun rest heq => (h '&' (by rw [heq]; rfl)).1 rfl

theorem orLoop_idle {cs : List Char} (h : Idle cs) (v : Bool) :
    Settles (fun n => orLoop n v cs) (v, cs) :=
  settles_some fun n => orLoop.eq_3 v cs n fun rest heq => (h '|' (by rw [heq]; rfl)).2 rfl

/-- The reading of an operand, and of what follows it in either loop. -/
structure Reads (cs : List Char) (r : Bool × List Char) : Prop where
  steps : ∃ v₁ cs₁ v₂ cs₂, Settles (fun n => parsePrimary n cs) (v₁, cs₁) ∧
    Settles (fun n => andLoop n v₁ cs₁) (v₂, cs₂) ∧ Settles (fun n => orLoop n v₂ cs₂) r

theorem Reads.parseOr {cs : List Char} {r : Bool × List Char} (h : Reads cs r) :
    Settles (fun n => parseOr n cs) r := by
  obtain ⟨v₁, cs₁, v₂, cs₂, hprimary, hand, hor⟩ := h.steps
  have hparseAnd : Settles (fun n => parseAnd n cs) (v₂, cs₂) :=
    (hprimary.bind (g := fun n r => andLoop n r.1 r.2) hand).of_succ fun _ => rfl
  exact (hparseAnd.bind (g := fun n r => orLoop n r.1 r.2) hor).of_succ fun _ => rfl

theorem reads_of_idle {cs cs' : List Char} {v : Bool}
    (h : Settles (fun n => parsePrimary n cs) (v, cs')) (hidle : Idle cs') : Reads cs (v, cs') :=
  ⟨v, cs', v, cs', h, andLoop_idle hidle v, orLoop_idle hidle v⟩

theorem reads_bang {cs rest : List Char} {v : Bool} (h : Reads cs (v, rest)) (hidle : Idle rest) :
    Reads ('!' :: cs) (!v, rest) := by
  refine reads_of_idle ?_ hidle
  exact (h.parseOr.bind (g := fun _ r => some (!r.1, r.2)) ⟨0, fun _ _ => rfl⟩).of_succ fun _ => rfl

theorem reads_and {cs rest : List Char} {v : Bool} {r : Bool × List Char}
    (h : Settles (fun n => parsePrimary n cs) (v, '&' :: '&' :: rest))
    (htrue : v = true → Reads rest r) (hfalse : v = false → Idle rest ∧ r = (false, rest)) :
    Reads cs r := by
  cases v with
  | true =>
    obtain ⟨v₁, cs₁, v₂, cs₂, hprimary, hand, hor⟩ := (htrue rfl).steps
    refine ⟨true, _, v₂, cs₂, h, ?_, hor⟩
    exact (hprimary.bind (g := fun n r => andLoop n r.1 r.2) hand).of_succ fun _ => rfl
  | false =>
    obtain ⟨hidle, rfl⟩ := hfalse rfl
    refine ⟨false, _, false, rest, h, ?_, orLoop_idle hidle false⟩
    exact (andLoop_idle hidle false).of_succ fun _ => rfl

theorem reads_or {cs rest : List Char} {v : Bool} {r : Bool × List Char}
    (h : Settles (fun n => parsePrimary n cs) (v, '|' :: '|' :: rest))
    (hfalse : v = false → Reads rest r) (htrue : v = true → Idle rest ∧ r = (true, rest)) :
    Reads cs r := by
  have hand : Settles (fun n => andLoop n v ('|' :: '|' :: rest)) (v, '|' :: '|' :: rest) :=
    settles_some fun n => andLoop.eq_3 v _ n fun _ heq => by cases heq
  cases v with
  | false =>
    obtain ⟨v₁, cs₁, v₂, cs₂, hprimary, hand', hor⟩ := (hfalse rfl).steps
    have hparseAnd : Settles (fun n => parseAnd n rest) (v₂, cs₂) :=
      (hprimary.bind (g := fun n r => andLoop n r.1 r.2) hand').of_succ fun _ => rfl
    refine ⟨false, _, false, _, h, hand, ?_⟩
    exact (hparseAnd.bind (g := fun n r => orLoop n r.1 r.2) hor).of_succ fun _ => rfl
  | true =>
    obtain ⟨hidle, rfl⟩ := htrue rfl
    refine ⟨true, _, true, _, h, hand, ?_⟩
    exact (orLoop_idle hidle true).of_succ fun _ => rfl

theorem reads_op (op : Op) {cs rest stop : List Char} {v w : Bool}
    (h : Settles (fun n => parsePrimary n cs) (v, op.text ++ rest)) (hreads : Reads rest (w, stop))
    (hidle : Idle rest) : Reads cs (op.apply v w, if v == op.skips then rest else stop) := by
  cases op with
  | and =>
    cases v with
    | true => exact reads_and h (fun _ => hreads) nofun
    | false => exact reads_and h nofun fun _ => ⟨hidle, rfl⟩
  | or =>
    cases v with
    | true => exact reads_or h nofun fun _ => ⟨hidle, rfl⟩
    | false => exact reads_or h (fun _ => hreads) nofun

/-! ### The value that is read -/

theorem intOf_eq (i : Integer) : intOf i.digits = i.value % 2 ^ 32 := by
  have hfold : ∀ (ds : List Char) (v w : Nat), w = v % 2 ^ 32 →
      ds.foldl (fun v c => (v * 10 + (c.toNat - 48)) % 2 ^ 32) w =
        ds.foldl (fun v c => v * 10 + (c.toNat - 48)) v % 2 ^ 32 := by
    intro ds
    induction ds with
    | nil => exact fun _ _ h => h
    | cons d ds ih =>
      intro v w h
      refine ih _ _ ?_
      show (w * 10 + (d.toNat - 48)) % 2 ^ 32 = (v * 10 + (d.toNat - 48)) % 2 ^ 32
      omega
  exact hfold i.digits 0 0 rfl

theorem Leaf.blocked (l : Leaf) (tail : List Char) : Blocked (l.text ++ tail) := by
  cases l with
  | int i =>
    obtain ⟨c, rest, hcons⟩ := exists_cons_of_ne_nil i.ne_nil
    refine ⟨c, ?_, .inr (.inr (isIdent_of_isDigit (i.isDigit c (hcons ▸ mem_cons_self))))⟩
    rw [Leaf.text, hcons]
    rfl
  | ident x =>
    obtain ⟨c, hc, -⟩ := x.head
    refine ⟨c, ?_, .inr (.inr (x.isIdent c (mem_of_mem_head? hc)))⟩
    rw [Leaf.text, head?_append, mem_def.mp hc]
    rfl
  | call c =>
    obtain ⟨hne, hword⟩ := families_word c.name c.mem
    obtain ⟨d, rest, hcons⟩ := exists_cons_of_ne_nil hne
    refine ⟨d, ?_, .inr (.inr (hword d (hcons ▸ mem_cons_self)))⟩
    rw [Leaf.text, hcons]
    rfl

theorem Operand.blocked (a : Operand) (tail : List Char) : Blocked (a.text ++ tail) := by
  cases a with
  | leaf l => exact l.blocked tail
  | paren e => exact ⟨'(', rfl, .inr (.inl rfl)⟩

theorem bangs_blocked (bangs : Nat) {cs : List Char} (h : Blocked cs) :
    Blocked (bangText bangs ++ cs) := by
  cases bangs with
  | zero => exact h
  | succ bangs => exact ⟨'!', rfl, .inl rfl⟩

theorem Expr.blocked (e : Expr) (tail : List Char) : Blocked (e.text ++ tail) := by
  cases e with
  | last bangs a =>
    rw [Expr.text, List.append_assoc]
    exact bangs_blocked bangs (a.blocked tail)
  | cons bangs a op rest =>
    rw [Expr.text, List.append_assoc, List.append_assoc]
    exact bangs_blocked bangs (a.blocked _)

/-- An integer or an identifier is read. -/
theorem primary_leaf {l : Leaf} (hl : l.Plain) {tail : List Char} (htail : Cut tail) :
    Settles (fun n => parsePrimary n (l.text ++ tail)) (l.truth32, tail) := by
  refine settles_some fun n => ?_
  obtain ⟨c, hc, -⟩ := l.blocked tail
  cases l with
  | int i =>
    have hcut : ∀ c ∈ tail.head?, c.isDigit = false := by
      intro c hc
      refine Bool.eq_false_iff.mpr fun hd => ?_
      exact absurd (isIdent_of_isDigit hd) (Bool.eq_false_iff.mp (htail c hc))
    obtain ⟨d, rest, hcons⟩ := exists_cons_of_ne_nil i.ne_nil
    have hd : d.isDigit = true := i.isDigit d (hcons ▸ mem_cons_self)
    have hhead : ((Leaf.int i).text ++ tail).head?.any Char.isDigit = true := by
      rw [Leaf.text, hcons]
      exact hd
    rw [parsePrimary.eq_4, if_pos hhead]
    · rw [Leaf.text, takeWhile_word i.isDigit hcut, dropWhile_word i.isDigit hcut, intOf_eq,
        Leaf.truth32]
    · intro cs heq
      rw [Leaf.text, hcons] at heq
      obtain ⟨rfl, -⟩ := List.cons.inj heq
      cases hd
    · intro cs heq
      rw [Leaf.text, hcons] at heq
      obtain ⟨rfl, -⟩ := List.cons.inj heq
      cases hd
  | ident x =>
    obtain ⟨d, hd, hnot⟩ := x.head
    have hword : isIdent d = true := x.isIdent d (mem_of_mem_head? hd)
    have hhead : ((Leaf.ident x).text ++ tail).head? = some d := by
      rw [Leaf.text, head?_append, mem_def.mp hd]
      rfl
    have hdigit : ¬ ((Leaf.ident x).text ++ tail).head?.any Char.isDigit = true := by
      rw [hhead, any_some, hnot]
      exact Bool.false_ne_true
    have hfalse : (Leaf.ident x).truth32 = false := decide_eq_false hl
    rw [parsePrimary.eq_4, if_neg hdigit]
    · rw [Leaf.text, dropWhile_word x.isIdent htail, hfalse]
    · intro cs heq
      rw [heq] at hhead
      obtain rfl := some.inj hhead
      cases hword
    · intro cs heq
      rw [heq] at hhead
      obtain rfl := some.inj hhead
      cases hword
  | call c => exact hl.elim

theorem closeParen_blocked {cs : List Char} (h : Blocked cs) : closeParen cs = cs := by
  unfold closeParen
  split
  · obtain ⟨c, hc, h⟩ := h
    obtain rfl := some.inj hc
    rcases h with h | h | h
    · cases h
    · cases h
    · cases h
  · rfl

theorem reads_bangs (bangs : Nat) {cs rest : List Char} {v : Bool} (h : Reads cs (v, rest))
    (hidle : Idle rest) : Reads (bangText bangs ++ cs) (negate bangs v, rest) := by
  induction bangs with
  | zero => rwa [show negate 0 v = v from Bool.false_xor v]
  | succ bangs ih =>
    rw [negate_succ, negate_not]
    exact reads_bang ih hidle

theorem reads_last {a : Operand} {tail rest : List Char} (bangs : Nat) {v : Bool}
    (h : Settles (fun n => parsePrimary n (a.text ++ tail)) (v, rest)) (hidle : Idle rest) :
    Reads ((Expr.last bangs a).text ++ tail) (negate bangs v, rest) := by
  rw [Expr.text, List.append_assoc]
  exact reads_bangs bangs (reads_of_idle h hidle) hidle

mutual

theorem Operand.reads {tail : List Char} (htail : Cut tail) : ∀ a : Operand,
    (∀ l ∈ a.leaves, l.Plain) → ∃ rest,
      Settles (fun n => parsePrimary n (a.text ++ tail))
        ((a.chain Leaf.truth32 false).value, rest) ∧
      Stops (a.chain Leaf.truth32 false).skips tail rest
  | .leaf l, hplain => by
    refine ⟨tail, ?_, rfl⟩
    have hvalue : ((Operand.leaf l).chain Leaf.truth32 false).value = l.truth32 := Bool.false_xor _
    rw [hvalue]
    exact primary_leaf (hplain l mem_cons_self) htail
  | .paren e, hplain => by
    have hclosed : Closed (')' :: tail) := fun c hc => (some.inj hc).symm
    obtain ⟨rest, hreads, hstops⟩ := e.reads hclosed hplain
    refine ⟨closeParen rest, ?_, ?_⟩
    · rw [Operand.text, cons_append, List.append_assoc, singleton_append]
      exact (hreads.parseOr.bind (g := fun _ r => some (r.1, closeParen r.2))
        ⟨0, fun _ _ => rfl⟩).of_succ fun _ => rfl
    · rw [Operand.chain]
      cases hskips : (e.chain Leaf.truth32 false).skips with
      | true =>
        rw [hskips] at hstops
        have hblocked : Blocked rest := hstops
        rw [closeParen_blocked hblocked]
        exact hblocked
      | false =>
        rw [hskips] at hstops
        obtain rfl : rest = ')' :: tail := hstops
        rfl

/-- **What is read is the value with all operators grouped from the right.** -/
theorem Expr.reads {tail : List Char} (htail : Closed tail) : ∀ e : Expr,
    (∀ l ∈ e.leaves, l.Plain) → ∃ rest,
      Reads (e.text ++ tail) ((e.chain Leaf.truth32 false).value, rest) ∧
      Stops (e.chain Leaf.truth32 false).skips tail rest
  | .last bangs a, hplain => by
    obtain ⟨rest, h, hstops⟩ := a.reads htail.follow.cut hplain
    obtain ⟨hvalue, hskips⟩ := chain_negate (c := fun neg => a.chain Leaf.truth32 neg)
      (fun neg => a.chain_not neg) bangs
    refine ⟨rest, ?_, ?_⟩
    · rw [Expr.chain, hvalue]
      exact reads_last bangs h (hstops.idle htail)
    · rw [Expr.chain, hskips]
      exact hstops
  | .cons bangs a op next, hplain => by
    obtain ⟨rest₁, hprimary, hstops₁⟩ := a.reads (op.follow (next.text ++ tail)).cut
      fun l hl => hplain l (mem_append_left _ hl)
    obtain ⟨rest₂, hreads, hstops₂⟩ := next.reads htail
      fun l hl => hplain l (mem_append_right _ hl)
    obtain ⟨hvalue, hskips⟩ := chain_negate
      (c := fun neg => (a.chain Leaf.truth32 neg).append (op.under neg) (next.chain Leaf.truth32 neg))
      (fun neg => Chain.append_not op neg (a.chain_not neg) (next.chain_not neg)) bangs
    have hunder : op.under false = op := by
      cases op with
      | _ => rfl
    rw [Expr.chain, hvalue, hskips, hunder, Chain.value_append, Chain.skips_append]
    have hbase : ∃ rest, Reads (a.text ++ (op.text ++ (next.text ++ tail)))
        (if (a.chain Leaf.truth32 false).skips then (a.chain Leaf.truth32 false).value
          else op.apply (a.chain Leaf.truth32 false).value (next.chain Leaf.truth32 false).value,
          rest) ∧
        Stops ((a.chain Leaf.truth32 false).skips || ((a.chain Leaf.truth32 false).value == op.skips ||
          (next.chain Leaf.truth32 false).skips)) tail rest := by
      cases hs : (a.chain Leaf.truth32 false).skips with
      | true =>
        rw [hs] at hstops₁
        have hblocked : Blocked rest₁ := hstops₁
        exact ⟨rest₁, reads_of_idle hprimary hblocked.idle, hblocked⟩
      | false =>
        rw [hs] at hstops₁
        obtain rfl : rest₁ = op.text ++ (next.text ++ tail) := hstops₁
        refine ⟨_, reads_op op hprimary hreads (next.blocked tail).idle, ?_⟩
        rw [Bool.false_or]
        cases (a.chain Leaf.truth32 false).value == op.skips with
        | true => exact next.blocked tail
        | false => exact hstops₂
    obtain ⟨rest, hrest, hstops⟩ := hbase
    refine ⟨rest, ?_, hstops⟩
    rw [Expr.text, List.append_assoc, List.append_assoc, List.append_assoc]
    exact reads_bangs bangs hrest (hstops.idle htail)

end

/-! ### The value of a condition -/

/-- **`EvalPpExpr` gives the value with all operators grouped from the right.** -/
theorem evalPpExpr_eq {expr : List Char} {e : Expr} (h : strip expr = e.text) :
    evalPpExpr expr = e.rightValue := by
  obtain ⟨e', htext, hvalue, hplain⟩ := expand_eq h
  have hclosed : Closed [] := nofun
  obtain ⟨rest, hreads, -⟩ := e'.reads hclosed hplain
  rw [append_nil] at hreads
  obtain ⟨enough, hsettles⟩ := hreads.parseOr
  obtain ⟨v, rest', hends⟩ := parseOr_ends e'.text
  have hgrow : ∀ k, parseOr (4 * e'.text.length + 4 + k) e'.text = some (v, rest') := by
    intro k
    induction k with
    | zero => exact hends
    | succ k ih => exact (reading_grows _).or _ _ ih
  have heq := (hgrow enough).symm.trans (hsettles _ (Nat.le_add_left _ _))
  rw [evalPpExpr, htext, hends, ← hvalue]
  exact congrArg Prod.fst (some.inj heq)

/-- **The condition gets its value if and only if that is the value with all operators grouped from
the right.** -/
theorem evalPpExpr_right_iff {expr : List Char} {e : Expr} (h : strip expr = e.text) :
    evalPpExpr expr = e.value ↔ e.rightValue = e.value := by
  rw [evalPpExpr_eq h]

/-! ### Two conditions -/

/-- `ENABLE(A)`. -/
def enableCall : Operand :=
  .leaf (.call ⟨"ENABLE".toList, by decide, "A".toList, .char (by decide) (by decide) .nil⟩)

def oneLiteral : Operand := .leaf (.int (.ofBool true))

/-- `ENABLE(A) && 1 || 1`. -/
def enableOrOne : Expr := .cons 0 enableCall .and (.cons 0 oneLiteral .or (.last 0 oneLiteral))

/-- `1 && !ENABLE(A)`. -/
def oneAndNotEnable : Expr := .cons 0 oneLiteral .and (.last 1 enableCall)

/-- The operand that `&&` leaves out stops the reading in front of `||`. -/
theorem enableOrOne_false :
    strip "ENABLE(A) && 1 || 1".toList = enableOrOne.text ∧
      evalPpExpr "ENABLE(A) && 1 || 1".toList = false ∧ enableOrOne.value = true := by
  decide +kernel

theorem oneAndNotEnable_right :
    evalPpExpr "1 && !ENABLE(A)".toList = oneAndNotEnable.value :=
  (evalPpExpr_right_iff (by decide +kernel)).mpr (by decide +kernel)

end Voodoo.Bruja.Frontend
