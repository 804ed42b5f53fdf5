import Voodoo.Bruja.GoxxEmitter
import Voodoo.Bruja.TsParserRuns

/-!
# Type annotations

An annotation of the subset that the converter covers (`Annotation`), what the parser keeps of it
(`Annotation.parsed`, `parseType_annotation`), and the Go type it stands for (`Annotation.mapped`).  The
parser keeps the first alternative of a union, and of the arrays one level.

At each place of a declaration the converter writes a type or leaves it to Go's inference
(`declared`); `declared_iff` says when that is the type the annotation stands for.
-/

namespace Voodoo.Bruja.Goxx

open PartialLoop TsTokens Utf List

/-! ### Annotations -/

/-- The types that have a name of their own in TypeScript. -/
inductive Basic where
  | number | string | boolean | any

def Basic.name : Basic → Bytes
  | .number => ascii "number"
  | .string => ascii "string"
  | .boolean => ascii "boolean"
  | .any => ascii "any"

def Basic.goName : Basic → Bytes
  | .number => ascii "float64"
  | .string => ascii "string"
  | .boolean => ascii "bool"
  | .any => ascii "any"

/-- The words for types that no declaration can have as its name. -/
def predefinedTypes : List Bytes :=
  ["number", "string", "boolean", "any", "void", "unknown", "object", "undefined", "null",
    "never"].map ascii

/-- The name of a declared type. -/
structure TypeName where
  text : Bytes
  starts : text.head?.any isIdentStart = true
  declarable : text ∉ predefinedTypes

inductive Nullish where
  | null | undefined

def Nullish.name : Nullish → Bytes
  | .null => ascii "null"
  | .undefined => ascii "undefined"

/-- A type that is no union. -/
inductive TypeTerm where
  | basic (b : Basic)
  | named (n : TypeName)
  /-- `T[]`. -/
  | suffix (t : TypeTerm)
  /-- `Array<T>`, where `T` may be a union of `t` with `null` and `undefined`. -/
  | array (before : List Nullish) (t : TypeTerm) (after : List Nullish)

/-- A union of a type with `null` and `undefined`, in any order. -/
structure Annotation where
  before : List Nullish := []
  term : TypeTerm
  after : List Nullish := []

/-- The kind and the text of a token. -/
abbrev Spelling := List (TsTok × Bytes)

def word (text : Bytes) : Spelling := [(.ident, text)]

/-- Alternatives with bars between them. -/
def joined : List Spelling → Spelling
  | [] => []
  | [s] => s
  | s :: ss => s ++ (.pipe, []) :: joined ss

def alternativesOf (before : List Nullish) (term : Spelling) (after : List Nullish) :
    List Spelling :=
  before.map (fun n => word n.name) ++ term :: after.map (fun n => word n.name)

def TypeTerm.spelling : TypeTerm → Spelling
  | .basic b => word b.name
  | .named n => word n.text
  | .suffix t => t.spelling ++ [(.lBrack, []), (.rBrack, [])]
  | .array before t after =>
    (.ident, ascii "Array") :: (.lt, []) ::
      (joined (alternativesOf before t.spelling after) ++ [(.gt, [])])

def Annotation.spelling (a : Annotation) : Spelling :=
  joined (alternativesOf a.before a.term.spelling a.after)

/-! ### What the parser keeps -/

/-- The first alternative. -/
def firstOf (before : List Nullish) (t : TsType) : TsType :=
  match before with
  | [] => t
  | n :: _ => ⟨n.name, false⟩

def TypeTerm.parsed : TypeTerm → TsType
  | .basic b => ⟨b.name, false⟩
  | .named n => ⟨n.text, false⟩
  | .suffix t => { t.parsed with array := true }
  | .array before t _ => { firstOf before t.parsed with array := true }

def Annotation.parsed (a : Annotation) : TsType := firstOf a.before a.term.parsed

section

variable {toks : List TsToken} {i j : Nat} {α β : Type}

/-- The tokens from a position on are spelled so. -/
def At (toks : List TsToken) : Nat → Spelling → Prop
  | _, [] => True
  | i, s :: ss => (∃ t, toks[i]? = some t ∧ (t.type, t.text) = s) ∧ At toks (i + 1) ss

theorem at_append {s s' : Spelling} :
    At toks i (s ++ s') ↔ At toks i s ∧ At toks (i + s.length) s' := by
  induction s generalizing i with
  | nil => exact ⟨fun h => ⟨trivial, h⟩, And.right⟩
  | cons c s ih =>
    rw [cons_append, At, At, ih, length_cons, and_assoc, Nat.add_right_comm, ← Nat.add_assoc]

theorem typeAt_of_at {c : TsTok × Bytes} {s : Spelling} (h : At toks i (c :: s)) :
    i < toks.length ∧ typeAt toks i = c.1 := by
  obtain ⟨⟨t, ht, rfl⟩, -⟩ := h
  refine ⟨(List.getElem?_eq_some_iff.mp ht).1, ?_⟩
  rw [typeAt, ht]
  rfl

theorem bind_at {p : Parser α} {f : α → Parser β} {a : α} (h : p i = pure (a, j)) :
    (p >>= f) i = f a j := by
  show p i >>= (fun r => f r.1 r.2) = _
  rw [h]
  rfl

theorem advance_at (hi : i < toks.length) (h : typeAt toks i ≠ .endOfFile) :
    ∃ t, toks[i]? = some t ∧ advance toks i = pure (t, i + 1) := by
  obtain ⟨t, ht, htype⟩ := typeAt_of_lt hi
  exact ⟨t, ht, by rw [advance_eq ht, if_neg (htype ▸ h)]⟩

theorem accept_at (hi : i < toks.length) {type : TsTok} (hne : type ≠ .endOfFile) :
    accept toks type i =
      if typeAt toks i = type then pure (true, i + 1) else pure (false, i) := by
  have hcheck : check toks type i = pure (typeAt toks i == type, i) := check_eq hi
  rw [accept, bind_at hcheck]
  by_cases h : typeAt toks i = type
  · obtain ⟨t, -, hadvance⟩ := advance_at hi (h ▸ hne)
    rw [if_pos (beq_iff_eq.mpr h), if_pos h, bind_at hadvance]
    rfl
  · rw [if_neg fun hb => h (beq_iff_eq.mp hb), if_neg h]
    rfl

theorem ifAccept_yes {type : TsTok} {p q : Parser α} (hi : i < toks.length) (h : typeAt toks i = type)
    (hne : type ≠ .endOfFile) :
    (accept toks type >>= fun b => if b = true then p else q) i = p (i + 1) := by
  rw [bind_at (by rw [accept_at hi hne, if_pos h])]
  rfl

theorem ifAccept_no {type : TsTok} {p q : Parser α} (hi : i < toks.length) (h : typeAt toks i ≠ type)
    (hne : type ≠ .endOfFile) :
    (accept toks type >>= fun b => if b = true then p else q) i = q i := by
  rw [bind_at (by rw [accept_at hi hne, if_neg h])]
  rfl

theorem expect_at {type : TsTok} (what : String) {f : TsToken → Parser β} (hi : i < toks.length)
    (h : typeAt toks i = type) (hne : type ≠ .endOfFile) :
    ∃ t, (expect toks type what >>= f) i = f t (i + 1) := by
  obtain ⟨t, -, hadvance⟩ := advance_at hi (h ▸ hne)
  refine ⟨t, bind_at ?_⟩
  rw [expect, bind_at (check_eq hi), if_pos (beq_iff_eq.mpr h)]
  exact hadvance

theorem typeName_at {text : Bytes} {s : Spelling} (h : At toks i ((.ident, text) :: s)) :
    typeName toks i = pure (text, i + 1) := by
  obtain ⟨hi, htype⟩ := typeAt_of_at h
  obtain ⟨⟨t, ht, heq⟩, -⟩ := h
  obtain ⟨u, hu, hadvance⟩ := advance_at hi (htype ▸ nofun)
  cases ht.symm.trans hu
  rw [typeName, bind_at (check_eq hi), if_pos (beq_iff_eq.mpr htype), bind_at hadvance,
    ← (Prod.mk.inj heq).2]
  rfl

/-! ### The parser on an annotation -/

theorem arraySuffix_no {t : TsType} (hi : i < toks.length) (h : typeAt toks i ≠ .lBrack) :
    arraySuffix toks t i = pure (t, i) := by
  rw [arraySuffix, ifAccept_no hi h (by decide)]
  rfl

theorem alternatives_no (hi : i < toks.length) (h : typeAt toks i ≠ .pipe) :
    alternatives toks i = pure ((), i) := by
  rw [alternatives, ifAccept_no hi h (by decide)]
  rfl

theorem typeArguments_no {name : Bytes} (hi : i < toks.length) (h : typeAt toks i ≠ .lt) :
    typeArguments toks name i = pure (⟨name, false⟩, i) := by
  rw [typeArguments, ifAccept_no hi h (by decide)]
  rfl

/-- A name with its arguments and brackets. -/
def suffixed (toks : List TsToken) : Parser TsType := do
  let name ← typeName toks
  let t ← typeArguments toks name
  arraySuffix toks t

theorem parseType_at (hi : i < toks.length) (h : typeAt toks i ≠ .lBrace) :
    parseType toks i = (suffixed toks >>= fun t => alternatives toks >>= fun _ => pure t) i := by
  rw [parseType, ifAccept_no hi h (by decide)]
  simp only [suffixed, bind_assoc]

/-- What an alternative is read as, before its brackets: none opens with a brace. -/
def Reads (toks : List TsToken) (s : Spelling) (t : TsType) : Prop :=
  ∀ i, At toks i s → i + s.length < toks.length → typeAt toks (i + s.length) ≠ .lt →
    i < toks.length ∧ typeAt toks i = .ident ∧
      suffixed toks i = arraySuffix toks t (i + s.length)

theorem reads_word (text : Bytes) : Reads toks (word text) ⟨text, false⟩ := by
  intro i hat hlen hlt
  obtain ⟨hi, htype⟩ := typeAt_of_at hat
  refine ⟨hi, htype, ?_⟩
  have hargs : typeArguments toks text (i + 1) = pure (⟨text, false⟩, i + 1) :=
    typeArguments_no hlen hlt
  rw [suffixed, bind_at (typeName_at hat), bind_at hargs]
  rfl

/-- What can stand behind an annotation. -/
def Behind (toks : List TsToken) (i : Nat) : Prop :=
  i < toks.length ∧ typeAt toks i ≠ .lBrack ∧ typeAt toks i ≠ .pipe ∧ typeAt toks i ≠ .lt

theorem parseType_joined {s : Spelling} {t : TsType} {more : List Spelling}
    (h : Reads toks s t) (hmore : ∀ u ∈ more, ∃ t, Reads toks u t)
    (hat : At toks i (joined (s :: more))) (hbehind : Behind toks (i + (joined (s :: more)).length)) :
    parseType toks i = pure (t, i + (joined (s :: more)).length) := by
  induction more generalizing s t i with
  | nil =>
    obtain ⟨hlen, hbrack, hpipe, hlt⟩ := hbehind
    obtain ⟨hi, hident, heq⟩ := h i hat hlen hlt
    have halternatives : alternatives toks (i + s.length) = pure ((), i + s.length) :=
      alternatives_no hlen hpipe
    rw [parseType_at hi (hident ▸ (by rintro ⟨⟩)), bind_at (heq.trans (arraySuffix_no hlen hbrack)),
      bind_at halternatives]
    rfl
  | cons u more ih =>
    obtain ⟨hs, hpipe⟩ := at_append.mp hat
    obtain ⟨hlen, hbar⟩ := typeAt_of_at hpipe
    obtain ⟨hi, hident, heq⟩ := h i hs hlen (hbar ▸ (by rintro ⟨⟩))
    obtain ⟨v, hv⟩ := hmore u mem_cons_self
    have hend : i + s.length + 1 + (joined (u :: more)).length =
        i + (joined (s :: u :: more)).length := by
      simp only [joined, length_append, length_cons]
      omega
    have hrest := ih hv (fun w hw => hmore w (mem_cons_of_mem u hw)) hpipe.2 (hend ▸ hbehind)
    rw [hend] at hrest
    have halternatives : alternatives toks (i + s.length) =
        pure ((), i + (joined (s :: u :: more)).length) := by
      rw [alternatives, ifAccept_yes hlen hbar (by decide), bind_at hrest,
        alternatives_no hbehind.1 hbehind.2.2.1]
    rw [parseType_at hi (hident ▸ (by rintro ⟨⟩)),
      bind_at (heq.trans (arraySuffix_no hlen (hbar ▸ (by rintro ⟨⟩)))), bind_at halternatives]
    rfl

theorem parseType_alternatives {before after : List Nullish} {s : Spelling} {t : TsType}
    (h : Reads toks s t) (hat : At toks i (joined (alternativesOf before s after)))
    (hbehind : Behind toks (i + (joined (alternativesOf before s after)).length)) :
    parseType toks i =
      pure (firstOf before t, i + (joined (alternativesOf before s after)).length) := by
  have hword (n : Nullish) : ∃ t, Reads toks (word n.name) t := ⟨_, reads_word n.name⟩
  cases before with
  | nil =>
    refine parseType_joined h (fun u hu => ?_) hat hbehind
    obtain ⟨n, -, rfl⟩ := List.mem_map.mp hu
    exact hword n
  | cons n before =>
    refine parseType_joined (reads_word n.name) (fun u hu => ?_) hat hbehind
    rcases mem_append.mp hu with hu | hu
    · obtain ⟨m, -, rfl⟩ := List.mem_map.mp hu
      exact hword m
    · rcases mem_cons.mp hu with rfl | hu
      · exact ⟨t, h⟩
      · obtain ⟨m, -, rfl⟩ := List.mem_map.mp hu
        exact hword m

theorem reads_term (t : TypeTerm) : Reads toks t.spelling t.parsed := by
  induction t with
  | basic b => exact reads_word b.name
  | named n => exact reads_word n.text
  | suffix t ih =>
    intro i hat hlen hlt
    obtain ⟨ht, hbracks⟩ := at_append.mp hat
    obtain ⟨hl, htypel⟩ := typeAt_of_at hbracks
    obtain ⟨hr, htyper⟩ := typeAt_of_at hbracks.2
    obtain ⟨hi, hident, heq⟩ := ih i ht hl (htypel ▸ (by rintro ⟨⟩))
    refine ⟨hi, hident, heq.trans ?_⟩
    obtain ⟨u, hexpect⟩ := expect_at "']'"
      (f := fun _ => arraySuffix toks { t.parsed with array := true }) hr htyper (by decide)
    rw [arraySuffix, ifAccept_yes hl htypel (by decide), hexpect]
    show _ = arraySuffix toks { t.parsed with array := true } (i + (t.spelling ++ [_, _]).length)
    rw [length_append]
    rfl
  | array before t after ih =>
    intro i hat hlen hlt
    obtain ⟨hi, hident⟩ := typeAt_of_at hat
    obtain ⟨hl, hlt'⟩ := typeAt_of_at hat.2
    obtain ⟨hinner, hgt⟩ := at_append.mp hat.2.2
    obtain ⟨hg, hgt'⟩ := typeAt_of_at hgt
    refine ⟨hi, hident, ?_⟩
    have hparse := parseType_alternatives ih hinner
      ⟨hg, hgt' ▸ (by rintro ⟨⟩), hgt' ▸ (by rintro ⟨⟩), hgt' ▸ (by rintro ⟨⟩)⟩
    obtain ⟨u, hexpect⟩ := expect_at "'>'"
      (f := fun _ => pure { firstOf before t.parsed with array := true }) hg hgt' (by decide)
    have hargs : typeArguments toks (ascii "Array") (i + 1) =
        pure ({ firstOf before t.parsed with array := true },
          i + 2 + (joined (alternativesOf before t.spelling after)).length + 1) := by
      rw [typeArguments, ifAccept_yes hl hlt' (by decide), if_pos rfl, bind_at hparse]
      exact hexpect
    rw [suffixed, bind_at (typeName_at hat), bind_at hargs]
    refine congrArg (arraySuffix toks _) ?_
    simp only [TypeTerm.spelling, length_cons, length_append, length_nil]
    omega

/-- **The parser keeps the name of the first alternative, and whether there is an array.** -/
theorem parseType_annotation (a : Annotation) (hat : At toks i a.spelling)
    (hbehind : Behind toks (i + a.spelling.length)) :
    parseType toks i = pure (a.parsed, i + a.spelling.length) :=
  parseType_alternatives (reads_term a.term) hat hbehind

end

/-! ### Go types -/

inductive GoType where
  | named (name : Bytes)
  | slice (elem : GoType)
  | pointer (name : Bytes)
  deriving DecidableEq

/-- The type that a text stands for. -/
def readType : Bytes → GoType
  | 91 :: 93 :: cs => .slice (readType cs)
  | cs => .named cs

/-- The Go type that an annotation stands for. -/
def TypeTerm.mapped : TypeTerm → GoType
  | .basic b => .named b.goName
  | .named n => .named n.text
  | .suffix t => .slice t.mapped
  | .array _ t _ => .slice t.mapped

def Annotation.mapped (a : Annotation) : GoType := a.term.mapped

def TypeTerm.levels : TypeTerm → Nat
  | .basic _ | .named _ => 0
  | .suffix t => t.levels + 1
  | .array _ t _ => t.levels + 1

def GoType.levels : GoType → Nat
  | .slice t => t.levels + 1
  | _ => 0

/-- What Go knows of the program around a declaration. -/
structure GoContext where
  /-- The type that a name stands for: another one where it is an alias. -/
  denotes : Bytes → GoType
  denotes_any : denotes (ascii "any") = .named (ascii "any")
  /-- The type of an expression that is no literal, if it has one. -/
  operand : GoExpr → Option GoType
  /-- Whether there are composite literals of a type. -/
  composite : GoType → Bool

namespace GoContext

variable (ctx : GoContext)

/-- A type without aliases. -/
def normal : GoType → GoType
  | .named n => ctx.denotes n
  | .slice t => .slice (normal t)
  | .pointer n => .pointer n

/-- Identical types. -/
def Same (s t : GoType) : Prop := ctx.normal s = ctx.normal t

instance (s t : GoType) : Decidable (ctx.Same s t) := inferInstanceAs (Decidable (_ = _))

/-- The type of a variable that is declared with this value. -/
def typeOf : GoExpr → Option GoType
  | .number text => some (.named (if byte '.' ∈ text then ascii "float64" else ascii "int"))
  | .string _ => some (.named (ascii "string"))
  | .bool _ => some (.named (ascii "bool"))
  | .nil => none
  | .slice elem _ => some (.slice (readType elem))
  | .composite type _ => if ctx.composite (readType type) then some (readType type) else none
  | .construct name _ | .new name => some (.pointer name)
  | e => ctx.operand e

end GoContext

/-! ### Types that are written -/

/-- The name that the converter sees in an annotation. -/
def TypeTerm.seenName : TypeTerm → Bytes
  | .basic b => b.goName
  | .named n => n.text
  | .suffix t => t.seenName
  | .array before t _ => if before = [] then t.seenName else ascii "any"

def Annotation.seenName (a : Annotation) : Bytes :=
  if a.before = [] then a.term.seenName else ascii "any"

/-- At most one array, and no `null` or `undefined` in front except of `any`. -/
def TypeTerm.Kept (ctx : GoContext) : TypeTerm → Prop
  | .basic _ | .named _ => True
  | .suffix t => t.levels = 0
  | .array before t _ => t.levels = 0 ∧ (before = [] ∨ ctx.Same t.mapped (.named (ascii "any")))

def Annotation.Kept (ctx : GoContext) (a : Annotation) : Prop :=
  if a.before = [] then a.term.Kept ctx else ctx.Same a.mapped (.named (ascii "any"))

theorem isIdentStart_ne : isIdentStart 91 = false := by decide

theorem readType_ident {n : Bytes} (h : n.head?.any isIdentStart = true) : readType n = .named n := by
  cases n with
  | nil => rfl
  | cons c cs =>
    rw [readType]
    intro ds heq
    cases heq
    exact Bool.noConfusion (isIdentStart_ne.symm.trans h)

theorem mapTsType_of_name {name : Bytes} (hnil : name ≠ []) (hvoid : name ≠ ascii "void")
    (array : Bool) :
    mapTsType ⟨name, array⟩ = if array then ascii "[]" ++ mapTsName name else mapTsName name :=
  if_neg (not_or.mpr ⟨hnil, hvoid⟩)

theorem mapTsName_named (n : TypeName) : mapTsName n.text = n.text := by
  have h := n.declarable
  simp only [predefinedTypes, map_cons, map_nil, mem_cons, not_mem_nil, or_false,
    not_or] at h
  obtain ⟨hnumber, hstring, hboolean, hany, -, hunknown, hobject, hundefined, hnull, hnever⟩ := h
  simp only [mapTsName, hnumber, hstring, hboolean, hany, hunknown, hobject, hundefined, hnull,
    hnever, false_or, or_self, if_false]
  split
  · next hbool => exact hbool.symm
  · rfl

/-- What `MapTsType` makes of a name that an annotation can have. -/
structure Seen (name seen : Bytes) : Prop where
  ne_nil : name ≠ []
  ne_void : name ≠ ascii "void"
  mapped : mapTsName name = seen
  seen_ne_nil : seen ≠ []
  read : readType seen = .named seen

theorem seen_basic (b : Basic) : Seen b.name b.goName := by
  cases b <;> exact ⟨by decide, by decide, by decide, by decide, rfl⟩

theorem typeName_ne_nil (n : TypeName) : n.text ≠ [] := by
  intro h
  have hstarts := n.starts
  rw [h] at hstarts
  exact Bool.noConfusion hstarts

theorem seen_named (n : TypeName) : Seen n.text n.text where
  ne_nil := typeName_ne_nil n
  seen_ne_nil := typeName_ne_nil n
  ne_void h := n.declarable (h ▸ by decide)
  mapped := mapTsName_named n
  read := readType_ident n.starts

theorem seen_nullish (n : Nullish) : Seen n.name (ascii "any") := by
  cases n <;> exact ⟨by decide, by decide, by decide, by decide, rfl⟩

theorem seen_term (t : TypeTerm) : Seen t.parsed.name t.seenName := by
  induction t with
  | basic b => exact seen_basic b
  | named n => exact seen_named n
  | suffix t ih => exact ih
  | array before t after ih =>
    cases before with
    | nil => exact ih
    | cons n before => exact seen_nullish n

theorem mapTsType_ne_nil {name seen : Bytes} (h : Seen name seen) (array : Bool) :
    mapTsType ⟨name, array⟩ ≠ [] := by
  rw [mapTsType_of_name h.ne_nil h.ne_void, h.mapped]
  cases array with
  | true => nofun
  | false => exact h.seen_ne_nil

theorem readType_mapTsType {name seen : Bytes} (h : Seen name seen) (array : Bool) :
    readType (mapTsType ⟨name, array⟩) = if array then .slice (.named seen) else .named seen := by
  rw [mapTsType_of_name h.ne_nil h.ne_void, h.mapped]
  cases array with
  | true => exact congrArg GoType.slice h.read
  | false => exact h.read

namespace GoContext

variable (ctx : GoContext)

theorem levels_normal_mapped (t : TypeTerm) :
    ∃ name, (ctx.normal t.mapped).levels = t.levels + (ctx.denotes name).levels ∧
      (t.seenName = name ∨ t.seenName = ascii "any") := by
  induction t with
  | basic b => exact ⟨_, (Nat.zero_add _).symm, .inl rfl⟩
  | named n => exact ⟨_, (Nat.zero_add _).symm, .inl rfl⟩
  | suffix t ih =>
    obtain ⟨name, hlevels, hseen⟩ := ih
    refine ⟨name, ?_, hseen⟩
    show (ctx.normal t.mapped).levels + 1 = t.levels + 1 + _
    omega
  | array before t after ih =>
    obtain ⟨name, hlevels, hseen⟩ := ih
    refine ⟨name, ?_, ?_⟩
    · show (ctx.normal t.mapped).levels + 1 = t.levels + 1 + _
      omega
    · by_cases hbefore : before = []
      · rw [TypeTerm.seenName, if_pos hbefore]
        exact hseen
      · exact .inr (if_neg hbefore)

theorem same_slice {s t : GoType} : ctx.Same (.slice s) (.slice t) ↔ ctx.Same s t :=
  ⟨fun h => GoType.slice.inj h, fun h => congrArg GoType.slice h⟩

theorem seenName_of_levels {t : TypeTerm} (h : t.levels = 0) : t.mapped = .named t.seenName := by
  cases t with
  | basic | named => rfl
  | suffix t => exact absurd h (Nat.succ_ne_zero _)
  | array before t after => exact absurd h (Nat.succ_ne_zero _)

theorem levels_of_same {t : TypeTerm}
    (h : ctx.Same (.slice (.named t.seenName)) (.slice t.mapped)) : t.levels = 0 := by
  obtain ⟨name, hlevels, hseen⟩ := ctx.levels_normal_mapped t
  have heq : ctx.denotes t.seenName = ctx.normal t.mapped := GoType.slice.inj h
  rw [← heq] at hlevels
  rcases hseen with hseen | hseen
  · rw [hseen] at hlevels
    omega
  · rw [hseen, ctx.denotes_any] at hlevels
    exact (Nat.add_eq_zero_iff.mp hlevels.symm).1

/-- **What is written for a type that is no union is the type it stands for, if and only if it has at
most one array and `null` and `undefined` come first only before `any`.** -/
theorem term_kept_iff (t : TypeTerm) :
    ctx.Same (if t.parsed.array then .slice (.named t.seenName) else .named t.seenName) t.mapped ↔
      t.Kept ctx := by
  cases t with
  | basic b => exact ⟨fun _ => trivial, fun _ => rfl⟩
  | named n => exact ⟨fun _ => trivial, fun _ => rfl⟩
  | suffix t =>
    refine ⟨fun h => ctx.levels_of_same h, fun h => ?_⟩
    show ctx.Same (.slice (.named t.seenName)) (.slice t.mapped)
    rw [seenName_of_levels h]
    rfl
  | array before t after =>
    show ctx.Same (.slice (.named (if before = [] then t.seenName else ascii "any"))) (.slice t.mapped) ↔ _
    by_cases hbefore : before = []
    · rw [if_pos hbefore]
      refine ⟨fun h => ⟨ctx.levels_of_same h, .inl hbefore⟩, fun h => ?_⟩
      rw [seenName_of_levels h.1]
      rfl
    · rw [if_neg hbefore, same_slice]
      refine ⟨fun h => ⟨?_, .inr h.symm⟩, fun h => (h.2.resolve_left hbefore).symm⟩
      obtain ⟨name, hlevels, -⟩ := ctx.levels_normal_mapped t
      have heq : ctx.denotes (ascii "any") = ctx.normal t.mapped := h
      rw [← heq, ctx.denotes_any] at hlevels
      exact (Nat.add_eq_zero_iff.mp hlevels.symm).1

theorem kept_iff (a : Annotation) :
    ctx.Same (readType (mapTsType a.parsed)) a.mapped ↔ a.Kept ctx := by
  obtain ⟨before, t, after⟩ := a
  cases before with
  | nil =>
    show ctx.Same (readType (mapTsType ⟨t.parsed.name, t.parsed.array⟩)) t.mapped ↔ t.Kept ctx
    rw [readType_mapTsType (seen_term t)]
    exact ctx.term_kept_iff t
  | cons n before =>
    show ctx.Same (readType (mapTsType ⟨n.name, false⟩)) t.mapped ↔ ctx.Same t.mapped _
    rw [readType_mapTsType (seen_nullish n)]
    exact ⟨Eq.symm, Eq.symm⟩

end GoContext

/-! ### Places -/

/-- Where an annotation can stand. -/
inductive Place where
  | parameter
  | result
  | field
  | typeAlias
  | var (init : Option Expr)
  /-- The variable of a `for`. -/
  | loopVar (init : Option Expr)

/-- A declaration of Go, by its type or by its value. -/
inductive GoDeclared where
  | written (type : Bytes)
  | inferred (init : GoExpr)

def GoStmt.declared : GoStmt → Option GoDeclared
  | .define _ init => some (.inferred init)
  | .var _ type => some (.written type)
  | _ => none

def GoDecl.declared : GoDecl → Option GoDeclared
  | .alias _ type => some (.written type)
  | .func _ _ _ result _ => if result = [] then none else some (.written result)
  | _ => none

section

variable (classes : List Bytes) (ret keyword name : Bytes)

/-- What is written for a name with this type. -/
def declared (t : TsType) : Place → Option GoDeclared
  | .parameter | .field => (emitParams [⟨name, t⟩]).head?.map fun f => .written f.type
  | .result => (emitFunc [] name [] t []).declared
  | .typeAlias => (GoDecl.alias name (mapTsType t)).declared
  | .var init => (emitStmt classes ret (.var keyword name t init)).declared
  | .loopVar init =>
    (emitStmt classes ret (.var keyword name t init)).forInit.bind GoStmt.declared

variable (ctx : GoContext)

/-- The name has this type. -/
def GoContext.Has : Option GoDeclared → GoType → Prop
  | some (.written type), t => ctx.Same (readType type) t
  | some (.inferred init), t => ∃ s, ctx.typeOf init = some s ∧ ctx.Same s t
  | none, _ => False

/-- The type of an annotation, for a variable with this value. -/
def InitFits (a : Annotation) : Expr → Prop
  | .number text =>
    ctx.Same (.named (if byte '.' ∈ text then ascii "float64" else ascii "int")) a.mapped
  | .string _ => ctx.Same (.named (ascii "string")) a.mapped
  | .bool _ => ctx.Same (.named (ascii "bool")) a.mapped
  | .null => False
  | .array _ => ctx.Same (.slice (.named a.seenName)) a.mapped
  | .object _ => ctx.composite (readType (mapTsType a.parsed)) = true ∧ a.Kept ctx
  | .new text _ => ctx.Same (.pointer text) a.mapped
  | e => ∃ s, ctx.operand (emitExpr classes ret (mapTsType a.parsed) e) = some s ∧ ctx.Same s a.mapped

/-- What the places need. -/
def Fits (a : Annotation) : Place → Prop
  | .parameter | .result | .field | .typeAlias | .var none => a.Kept ctx
  | .var (some e) | .loopVar (some e) => InitFits classes ret ctx a e
  | .loopVar none => False

theorem seen_annotation (a : Annotation) : Seen a.parsed.name a.seenName := by
  obtain ⟨before, t, after⟩ := a
  cases before with
  | nil => exact seen_term t
  | cons n before => exact seen_nullish n

theorem parsed_ne_nil (a : Annotation) : mapTsType a.parsed ≠ [] :=
  mapTsType_ne_nil ( seen_annotation a) a.parsed.array

theorem typeOrAny_parsed (a : Annotation) : typeOrAny a.parsed = mapTsType a.parsed :=
  if_neg (parsed_ne_nil a)

omit classes ret keyword name ctx in
theorem elementHint_text {inner : Bytes} (h : inner ≠ []) : elementHint (ascii "[]" ++ inner) = inner :=
  if_neg h

theorem not_prefix_of_seen {n seen : Bytes} (h : Seen n seen) :
    (ascii "[]").isPrefixOf seen = false := by
  refine Bool.eq_false_iff.mpr fun hprefix => ?_
  obtain ⟨rest, hrest⟩ := isPrefixOf_iff_prefix.mp hprefix
  have hread := h.read
  rw [← hrest] at hread
  exact GoType.noConfusion hread

theorem elementHint_parsed (a : Annotation) :
    elementHint (mapTsType a.parsed) = a.seenName := by
  have hseen := seen_annotation a
  have hmap := mapTsType_of_name hseen.ne_nil hseen.ne_void a.parsed.array
  rw [hseen.mapped] at hmap
  rw [show mapTsType a.parsed = _ from hmap]
  cases a.parsed.array with
  | true => exact elementHint_text hseen.seen_ne_nil
  | false =>
    show elementHint a.seenName = a.seenName
    rw [elementHint, if_neg (Bool.eq_false_iff.mp (not_prefix_of_seen hseen)),
      if_neg hseen.seen_ne_nil]

/-- What the value of a variable says of its type. -/
theorem typeOf_init (a : Annotation) (e : Expr) :
    (∃ s, ctx.typeOf (emitExpr classes ret (mapTsType a.parsed) e) = some s ∧ ctx.Same s a.mapped) ↔
      InitFits classes ret ctx a e := by
  have hsome {x : GoType} : (∃ s, some x = some s ∧ ctx.Same s a.mapped) ↔ ctx.Same x a.mapped :=
    ⟨fun ⟨s, hs, hsame⟩ => Option.some.inj hs ▸ hsame, fun h => ⟨x, rfl, h⟩⟩
  cases e with
  | number text => exact hsome
  | string text => exact hsome
  | bool text => exact hsome
  | null =>
    refine ⟨fun h => ?_, False.elim⟩
    obtain ⟨s, hs, -⟩ := h
    cases hs
  | array args =>
    show (∃ s, some (GoType.slice (readType (elementHint (mapTsType a.parsed)))) = some s ∧ _) ↔ _
    rw [hsome, elementHint_parsed, ( seen_annotation a).read]
    rfl
  | object fields =>
    have htype : (if mapTsType a.parsed = [] then ascii "struct\x7b\x7d" else mapTsType a.parsed) =
        mapTsType a.parsed := if_neg (parsed_ne_nil a)
    rw [emitExpr, htype, GoContext.typeOf]
    show _ ↔ _ = true ∧ a.Kept ctx
    rw [← ctx.kept_iff a]
    split
    · next hcomposite => exact hsome.trans (and_iff_right hcomposite).symm
    · next hcomposite =>
      refine ⟨fun h => ?_, fun h => absurd h.1 hcomposite⟩
      obtain ⟨s, hs, -⟩ := h
      cases hs
  | new text args =>
    rw [emitExpr]
    split <;> exact hsome
  | call callee args =>
    show _ ↔ ∃ s, ctx.operand (emitExpr classes ret (mapTsType a.parsed) (.call callee args)) = some s ∧ _
    rw [emitExpr]
    split <;> exact Iff.rfl
  | _ => exact Iff.rfl

end

/-- Go next to a program without aliases. -/
def plainContext : GoContext where
  denotes := .named
  denotes_any := rfl
  operand _ := none
  composite _ := false

/-- `string | null`, in front of a closing parenthesis. -/
def unionTokens : List TsToken :=
  [⟨.ident, ascii "string", 1⟩, ⟨.pipe, [], 1⟩, ⟨.ident, ascii "null", 1⟩, ⟨.rParen, [], 1⟩,
    ⟨.endOfFile, [], 1⟩]

/-- `number[][]`, in front of a closing parenthesis. -/
def matrixTokens : List TsToken :=
  [⟨.ident, ascii "number", 1⟩, ⟨.lBrack, [], 1⟩, ⟨.rBrack, [], 1⟩, ⟨.lBrack, [], 1⟩,
    ⟨.rBrack, [], 1⟩, ⟨.rParen, [], 1⟩, ⟨.endOfFile, [], 1⟩]

end Voodoo.Bruja.Goxx
