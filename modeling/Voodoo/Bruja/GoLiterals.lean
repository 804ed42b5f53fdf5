import Voodoo.Bruja.TsLexer
import Voodoo.Lib.EcmaString
import Voodoo.Lib.GoString

/-!
# TypeScript string literals in Go++

A string literal goes through `TokenizeTs`, which turns it into a value, and `EscapeGoString`, which
writes the value as a Go literal.

`decoded` is what the lexer makes of each element of a literal: it knows `\n`, `\t` and `\r`, and
drops the backslash of any other escape.  Nothing it does not know comes out as short as it should, or
as the right character, so the Go literal denotes the string if and only if every element is one that
it knows (`goLiteral_denotes_iff`).
-/

namespace Voodoo.Bruja.Goxx

open Utf EcmaString List

/-! ### `EscapeGoString` -/

def escapeGoByte (c : UInt8) : Bytes :=
  if c = byte '\\' then ascii "\\\\" else if c = byte '"' then ascii "\\\""
  else if c = byte '\n' then ascii "\\n" else if c = byte '\t' then ascii "\\t"
  else if c = byte '\r' then ascii "\\r" else [c]

def escapeGoString (s : Bytes) : Bytes := byte '"' :: (s.flatMap escapeGoByte ++ [byte '"'])

theorem escapeGoByte_high {b : UInt8} (h : 0x80 ≤ b.toNat) : escapeGoByte b = [b] := by
  have hne {d : Char} (hd : d.toNat < 0x80) : b ≠ byte d := by
    rintro rfl
    rw [byte_toNat hd] at h
    omega
  unfold escapeGoByte
  rw [if_neg (hne (by decide)), if_neg (hne (by decide)), if_neg (hne (by decide)),
    if_neg (hne (by decide)), if_neg (hne (by decide))]

theorem escapeGoByte_byte {c : Char} (h : c.toNat < 0x80) :
    escapeGoByte (byte c) = utf8 (GoString.escape c) := by
  have hiff {d : Char} (hd : d.toNat < 0x80) : byte c = byte d ↔ c = d := byte_inj h hd
  unfold escapeGoByte GoString.escape
  simp only [hiff (show '\\'.toNat < 0x80 by decide), hiff (show '"'.toNat < 0x80 by decide),
    hiff (show '\n'.toNat < 0x80 by decide), hiff (show '\t'.toNat < 0x80 by decide),
    hiff (show '\r'.toNat < 0x80 by decide)]
  repeat' split
  · rfl
  · rfl
  · rfl
  · rfl
  · rfl
  · exact (utf8_ascii_cons (s := []) h).symm

theorem escape_high {c : Char} (h : 0x80 ≤ c.toNat) : GoString.escape c = [c] := by
  have hne {d : Char} (hd : d.toNat < 0x80) : c ≠ d := by
    rintro rfl
    omega
  unfold GoString.escape
  rw [if_neg (hne (by decide)), if_neg (hne (by decide)), if_neg (hne (by decide)),
    if_neg (hne (by decide)), if_neg (hne (by decide))]

theorem flatMap_escapeGoByte (c : Char) :
    (String.utf8EncodeChar c).flatMap escapeGoByte = utf8 (GoString.escape c) := by
  by_cases h : c.toNat < 0x80
  · rw [utf8Char_of_ascii h, flatMap_singleton, escapeGoByte_byte h]
  · have hhigh : ∀ b ∈ String.utf8EncodeChar c, escapeGoByte b = [b] := fun b hb =>
      escapeGoByte_high (le_of_mem_utf8Char (Nat.le_of_not_lt h) hb)
    rw [escape_high (Nat.le_of_not_lt h), flatMap_congr hhigh, flatMap_singleton']
    exact (append_nil _).symm

theorem escapeGoString_utf8 (s : List Char) : escapeGoString (utf8 s) = utf8 (GoString.quote s) := by
  have hs : (utf8 s).flatMap escapeGoByte = utf8 (s.flatMap GoString.escape) := by
    rw [utf8_flatMap, utf8, flatMap_assoc]
    exact flatMap_congr fun c _ => flatMap_escapeGoByte c
  rw [escapeGoString, hs, GoString.quote, utf8_ascii_cons (by decide), utf8_append]
  rfl

/-! ### What the lexer makes of a literal -/

/-- A value with more before it. -/
def prepend (v : Bytes) (r : Option (Bytes × Bytes)) : Option (Bytes × Bytes) :=
  r.map fun r => (v ++ r.1, r.2)

theorem prepend_nil (r : Option (Bytes × Bytes)) : prepend [] r = r := by
  cases r <;> rfl

theorem prepend_prepend (v w : Bytes) (r : Option (Bytes × Bytes)) :
    prepend v (prepend w r) = prepend (v ++ w) r := by
  cases r with
  | none => rfl
  | some r => exact congrArg (fun x => some (x, r.2)) (List.append_assoc _ _ _).symm

def unescapeChar (c : Char) : Char :=
  if c = 'n' then '\n' else if c = 't' then '\t' else if c = 'r' then '\r' else c

variable {q : Char} {rest : Bytes}

theorem stringLiteral_raw {quote : UInt8} {bs : Bytes}
    (h : ∀ b ∈ bs, b ≠ quote ∧ b ≠ byte '\n' ∧ b ≠ byte '\\') :
    stringLiteral quote (bs ++ rest) = prepend bs (stringLiteral quote rest) := by
  induction bs with
  | nil => exact (prepend_nil _).symm
  | cons b bs ih =>
    obtain ⟨⟨hq, hn, hb⟩, hbs⟩ := forall_mem_cons.mp h
    rw [cons_append, stringLiteral_char hq hn hb, ih hbs]
    exact prepend_prepend [b] bs _

theorem raw_utf8Char {c : Char} (hq : q.toNat < 0x80) (h : c ≠ q ∧ c ≠ '\n' ∧ c ≠ '\\') :
    ∀ b ∈ String.utf8EncodeChar c, b ≠ byte q ∧ b ≠ byte '\n' ∧ b ≠ byte '\\' := by
  intro b hb
  by_cases hc : c.toNat < 0x80
  · rw [utf8Char_of_ascii hc, mem_singleton] at hb
    rw [hb, Ne, Ne, Ne, byte_inj hc hq, byte_inj hc (by decide), byte_inj hc (by decide)]
    exact h
  · have hne {d : Char} (hd : d.toNat < 0x80) : b ≠ byte d :=
      ne_byte_of_mem_utf8Char (Nat.le_of_not_lt hc) hd hb
    exact ⟨hne hq, hne (by decide), hne (by decide)⟩

theorem stringLiteral_chars {cs : List Char} (hq : q.toNat < 0x80)
    (h : ∀ c ∈ cs, c ≠ q ∧ c ≠ '\n' ∧ c ≠ '\\') :
    stringLiteral (byte q) (utf8 cs ++ rest) = prepend (utf8 cs) (stringLiteral (byte q) rest) := by
  refine stringLiteral_raw fun b hb => ?_
  obtain ⟨c, hc, hb⟩ := mem_flatMap.mp hb
  exact raw_utf8Char hq (h c hc) b hb

theorem unescape_byte {c : Char} (h : c.toNat < 0x80) :
    unescape (byte c) = byte (unescapeChar c) := by
  have hiff {d : Char} (hd : d.toNat < 0x80) : byte c = byte d ↔ c = d := byte_inj h hd
  unfold unescape unescapeChar
  simp only [hiff (show 'n'.toNat < 0x80 by decide), hiff (show 't'.toNat < 0x80 by decide),
    hiff (show 'r'.toNat < 0x80 by decide)]
  repeat' split
  all_goals rfl

theorem unescapeChar_ascii {c : Char} (h : c.toNat < 0x80) : (unescapeChar c).toNat < 0x80 := by
  unfold unescapeChar
  repeat' split
  · decide
  · decide
  · decide
  · exact h

theorem unescape_high {b : UInt8} (h : 0x80 ≤ b.toNat) : unescape b = b := by
  have hne {d : Char} (hd : d.toNat < 0x80) : b ≠ byte d := by
    rintro rfl
    rw [byte_toNat hd] at h
    omega
  unfold unescape
  rw [if_neg (hne (by decide)), if_neg (hne (by decide)), if_neg (hne (by decide))]

theorem unescapeChar_high {c : Char} (h : 0x80 ≤ c.toNat) : unescapeChar c = c := by
  have hne {d : Char} (hd : d.toNat < 0x80) : c ≠ d := by
    rintro rfl
    omega
  unfold unescapeChar
  rw [if_neg (hne (by decide)), if_neg (hne (by decide)), if_neg (hne (by decide))]

theorem stringLiteral_escape {c : Char} (hq : q = '"' ∨ q = '\'') :
    stringLiteral (byte q) (byte '\\' :: (String.utf8EncodeChar c ++ rest)) =
      prepend (String.utf8EncodeChar (unescapeChar c)) (stringLiteral (byte q) rest) := by
  have hascii : q.toNat < 0x80 := by rcases hq with rfl | rfl <;> decide
  have hslash : byte '\\' ≠ byte q := by rcases hq with rfl | rfl <;> decide
  have hread (e : UInt8) (cs : Bytes) : stringLiteral (byte q) (byte '\\' :: e :: cs) =
      prepend [unescape e] (stringLiteral (byte q) cs) := by
    rw [stringLiteral, if_neg hslash, if_neg (by decide), if_pos rfl]
    rfl
  by_cases hc : c.toNat < 0x80
  · rw [utf8Char_of_ascii hc, utf8Char_of_ascii (unescapeChar_ascii hc), singleton_append, hread,
      unescape_byte hc]
  · have hhigh := Nat.le_of_not_lt hc
    rw [unescapeChar_high hhigh]
    cases hbs : String.utf8EncodeChar c with
    | nil => exact absurd hbs String.utf8EncodeChar_ne_nil
    | cons b bs =>
      have hraw : ∀ b ∈ bs, b ≠ byte q ∧ b ≠ byte '\n' ∧ b ≠ byte '\\' := by
        intro b' hb'
        have hmem : b' ∈ String.utf8EncodeChar c := hbs ▸ mem_cons_of_mem _ hb'
        exact ⟨ne_byte_of_mem_utf8Char hhigh hascii hmem,
          ne_byte_of_mem_utf8Char hhigh (by decide) hmem,
          ne_byte_of_mem_utf8Char hhigh (by decide) hmem⟩
      have hb : 0x80 ≤ b.toNat := le_of_mem_utf8Char hhigh (hbs ▸ mem_cons_self)
      rw [cons_append, hread, unescape_high hb, stringLiteral_raw hraw, prepend_prepend]
      rfl

/-- The characters that the lexer makes of an element. -/
def decoded : Element → List Char
  | .char c | .other c => [c]
  | .single c => [unescapeChar c]
  | .null => ['0']
  | .hex a b => ['x', a, b]
  | .unicode a b c d => ['u', a, b, c, d]
  | .codePoint ds => 'u' :: '\x7b' :: (ds ++ ['\x7d'])
  | .continuation t => t.text

theorem isHex_raw {c : Char} (hq : q = '"' ∨ q = '\'') (h : isHex c = true) :
    c ≠ q ∧ c ≠ '\n' ∧ c ≠ '\\' := by
  refine ⟨?_, ?_, ?_⟩
  · rintro rfl
    rcases hq with rfl | rfl <;> exact absurd h (by decide)
  · rintro rfl
    exact absurd h (by decide)
  · rintro rfl
    exact absurd h (by decide)

theorem unescapeChar_other {c : Char} (h : singleEscape c = none) : unescapeChar c = c := by
  have hne {d : Char} (hd : singleEscape d ≠ none) : c ≠ d := by
    rintro rfl
    exact hd h
  unfold unescapeChar
  rw [if_neg (hne (by decide)), if_neg (hne (by decide)), if_neg (hne (by decide))]

theorem utf8_escape (c : Char) (cs : List Char) (rest : Bytes) :
    utf8 ('\\' :: c :: cs) ++ rest =
      byte '\\' :: (String.utf8EncodeChar c ++ (utf8 cs ++ rest)) := by
  rw [utf8_ascii_cons (by decide), utf8_cons, cons_append, List.append_assoc]

theorem stringLiteral_escaped {c : Char} {cs : List Char} (hq : q = '"' ∨ q = '\'')
    (h : ∀ c ∈ cs, c ≠ q ∧ c ≠ '\n' ∧ c ≠ '\\') :
    stringLiteral (byte q) (utf8 ('\\' :: c :: cs) ++ rest) =
      prepend (utf8 (unescapeChar c :: cs)) (stringLiteral (byte q) rest) := by
  have hascii : q.toNat < 0x80 := by rcases hq with rfl | rfl <;> decide
  rw [utf8_escape, stringLiteral_escape hq, stringLiteral_chars hascii h, prepend_prepend, utf8_cons]

theorem stringLiteral_element {e : Element} (hq : q = '"' ∨ q = '\'') (hvalid : e.Valid q)
    (he : e ≠ .continuation .crlf) :
    stringLiteral (byte q) (utf8 e.text ++ rest) =
      prepend (utf8 (decoded e)) (stringLiteral (byte q) rest) := by
  have hascii : q.toNat < 0x80 := by rcases hq with rfl | rfl <;> decide
  have hnil : ∀ c ∈ ([] : List Char), c ≠ q ∧ c ≠ '\n' ∧ c ≠ '\\' := fun _ hc =>
    absurd hc not_mem_nil
  cases e with
  | char c =>
    refine stringLiteral_chars hascii fun c' hc' => ?_
    rw [mem_singleton.mp hc']
    exact ⟨hvalid.1, hvalid.2.2.1, hvalid.2.1⟩
  | single c => exact stringLiteral_escaped hq hnil
  | other c =>
    refine (stringLiteral_escaped hq hnil).trans ?_
    rw [unescapeChar_other hvalid.1, decoded]
  | null => exact stringLiteral_escaped hq hnil
  | hex a b =>
    refine stringLiteral_escaped (c := 'x') hq fun c hc => ?_
    simp only [mem_cons, not_mem_nil, or_false] at hc
    rcases hc with rfl | rfl
    · exact isHex_raw hq hvalid.1
    · exact isHex_raw hq hvalid.2
  | unicode a b c d =>
    refine stringLiteral_escaped (c := 'u') hq fun c' hc' => ?_
    simp only [mem_cons, not_mem_nil, or_false] at hc'
    rcases hc' with rfl | rfl | rfl | rfl
    · exact isHex_raw hq hvalid.1
    · exact isHex_raw hq hvalid.2.1
    · exact isHex_raw hq hvalid.2.2.1
    · exact isHex_raw hq hvalid.2.2.2
  | codePoint ds =>
    refine stringLiteral_escaped (c := 'u') hq fun c hc => ?_
    have hbrace {b : Char} (hb : b = '\x7b' ∨ b = '\x7d') : b ≠ q ∧ b ≠ '\n' ∧ b ≠ '\\' := by
      rcases hq with rfl | rfl <;> rcases hb with rfl | rfl <;> decide
    rcases mem_cons.mp hc with rfl | hc
    · exact hbrace (.inl rfl)
    rcases mem_append.mp hc with hc | hc
    · exact isHex_raw hq (hvalid.2.1 c hc)
    · exact hbrace (.inr (mem_singleton.mp hc))
  | continuation t =>
    cases t with
    | lf | cr | ls | ps => exact stringLiteral_escaped hq hnil
    | crlf => exact absurd rfl he

theorem stringLiteral_crlf (hq : q = '"' ∨ q = '\'') :
    stringLiteral (byte q) (utf8 (Element.continuation .crlf).text ++ rest) = none := by
  have hnewline : byte '\n' ≠ byte q := by rcases hq with rfl | rfl <;> decide
  show stringLiteral (byte q) (utf8 ['\\', '\r', '\n'] ++ rest) = none
  rw [utf8_escape, stringLiteral_escape hq, utf8_ascii_cons (by decide), cons_append,
    stringLiteral_newline hnewline]
  rfl

theorem stringLiteral_elements {es : List Element} (hq : q = '"' ∨ q = '\'')
    (hvalid : ∀ e ∈ es, e.Valid q) :
    stringLiteral (byte q) (utf8 (es.flatMap Element.text) ++ rest) =
      if Element.continuation .crlf ∈ es then none
      else prepend (utf8 (es.flatMap decoded)) (stringLiteral (byte q) rest) := by
  induction es with
  | nil => exact (prepend_nil _).symm
  | cons e es ih =>
    obtain ⟨he, hes⟩ := forall_mem_cons.mp hvalid
    rw [flatMap_cons, utf8_append, List.append_assoc]
    by_cases hcrlf : e = .continuation .crlf
    · subst hcrlf
      rw [stringLiteral_crlf hq, if_pos mem_cons_self]
    · have hmem : Element.continuation .crlf ∈ e :: es ↔ Element.continuation .crlf ∈ es :=
        mem_cons.trans (or_iff_right (Ne.symm hcrlf))
      rw [stringLiteral_element hq he hcrlf, ih hes]
      by_cases hin : Element.continuation .crlf ∈ es
      · rw [if_pos hin, if_pos (hmem.mpr hin)]
        rfl
      · rw [if_neg hin, if_neg (mt hmem.mp hin), prepend_prepend, flatMap_cons, utf8_append]

theorem lexOne_quote (hq : q = '"' ∨ q = '\'') (line : Nat) (cs : Bytes) :
    lexOne line (byte q) cs =
      match stringLiteral (byte q) cs with
      | some (value, rest) => .ok (some ⟨.string, value, line⟩, line, rest)
      | none => .error ⟨ascii "unterminated string literal", line⟩ := by
  rcases hq with rfl | rfl
  all_goals
    rw [lexOne, if_neg (by decide), if_neg (by decide), if_neg fun h => absurd h.1 (by decide),
      if_neg fun h => absurd h.1 (by decide), if_neg (by decide), if_pos (by decide)]
  all_goals rfl

theorem lexOne_literal (l : Literal) (line : Nat) (rest : Bytes) :
    ∃ cs, utf8 l.text ++ rest = byte l.quote :: cs ∧
      lexOne line (byte l.quote) cs =
        if Element.continuation .crlf ∈ l.elements then
          .error ⟨ascii "unterminated string literal", line⟩
        else .ok (some ⟨.string, utf8 (l.elements.flatMap decoded), line⟩, line, rest) := by
  have hascii : l.quote.toNat < 0x80 := by rcases l.quote_eq with h | h <;> rw [h] <;> decide
  refine ⟨utf8 (l.elements.flatMap Element.text) ++ (byte l.quote :: rest), ?_, ?_⟩
  · rw [Literal.text, utf8_ascii_cons hascii, utf8_append, utf8_ascii_cons hascii, cons_append,
      List.append_assoc]
    rfl
  · have hread : stringLiteral (byte l.quote)
        (utf8 (l.elements.flatMap Element.text) ++ (byte l.quote :: rest)) =
          if Element.continuation .crlf ∈ l.elements then none
          else some (utf8 (l.elements.flatMap decoded), rest) := by
      rw [stringLiteral_elements l.quote_eq l.valid, stringLiteral_quote, prepend, Option.map_some,
        append_nil]
    rw [lexOne_quote l.quote_eq, hread]
    by_cases hcrlf : Element.continuation .crlf ∈ l.elements
    · rw [if_pos hcrlf, if_pos hcrlf]
    · rw [if_neg hcrlf, if_neg hcrlf]

theorem tokenizeFrom_crlf (l : Literal) (line : Nat) (rest : Bytes)
    (h : Element.continuation .crlf ∈ l.elements) :
    tokenizeFrom line (utf8 l.text ++ rest) = .error ⟨ascii "unterminated string literal", line⟩ := by
  obtain ⟨cs, hcs, hone⟩ := lexOne_literal l line rest
  rw [if_pos h] at hone
  rw [hcs, tokenizeFrom_error hone]

theorem tokenizeFrom_literal (l : Literal) (line : Nat) (rest : Bytes)
    (h : Element.continuation .crlf ∉ l.elements) :
    tokenizeFrom line (utf8 l.text ++ rest) =
      (tokenizeFrom line rest).map (⟨.string, utf8 (l.elements.flatMap decoded), line⟩ :: ·) := by
  obtain ⟨cs, hcs, hone⟩ := lexOne_literal l line rest
  rw [if_neg h] at hone
  rw [hcs, tokenizeFrom_ok hone]
  rfl

/-! ### What the Go literal denotes -/

/-- The elements the lexer knows, written with characters the compiler does not refuse. -/
def Kept (refuses : Char → Bool) : Element → Prop
  | .char c | .other c => refuses c = false
  | .single c => c ∈ ['\'', '"', '\\', 'n', 'r', 't']
  | _ => False

instance (refuses : Char → Bool) (e : Element) : Decidable (Kept refuses e) :=
  match e with
  | .char c | .other c => inferInstanceAs (Decidable (refuses c = false))
  | .single _ => inferInstanceAs (Decidable (_ ∈ _))
  | .null | .hex _ _ | .unicode _ _ _ _ | .codePoint _ | .continuation _ => .isFalse id

theorem length_le_utf16 (s : List Char) : s.length ≤ (utf16 s).length := by
  induction s with
  | nil => exact Nat.le_refl 0
  | cons c s ih =>
    have hc := length_utf16Char_pos (c := c)
    rw [utf16, flatMap_cons, length_append, length_cons]
    exact Nat.le_trans (Nat.le_of_eq (Nat.add_comm _ _)) (Nat.add_le_add hc ih)

theorem all_of_decide {P : Char → Prop} [DecidablePred P] {l : List Char}
    (h : l.all (P ·) = true) : ∀ c ∈ l, P c :=
  fun c hc => of_decide_eq_true (List.all_eq_true.mp h c hc)

theorem mem_of_singleEscape {c : Char} (h : (singleEscape c).isSome) :
    c ∈ ['\'', '"', '\\', 'b', 'f', 'n', 'r', 't', 'v'] := by
  unfold singleEscape at h
  split at h
  all_goals first | decide | cases h

theorem single_cases {P : Char → Prop} [DecidablePred P] {c : Char} (h : (singleEscape c).isSome)
    (hP : ['\'', '"', '\\', 'b', 'f', 'n', 'r', 't', 'v'].all (P ·) = true) : P c :=
  all_of_decide hP c (mem_of_singleEscape h)

theorem length_units_le {e : Element} (h : e.Valid q) :
    e.units.length ≤ (utf16 (decoded e)).length := by
  cases e with
  | char c | other c => exact Nat.le_of_eq (congrArg List.length (append_nil _).symm)
  | single c =>
    exact single_cases (P := fun c => (Element.single c).units.length ≤ (utf16 [unescapeChar c]).length)
      h (by decide)
  | null => decide
  | hex a b => exact Nat.le_trans (by decide : 1 ≤ 3) (length_le_utf16 ['x', a, b])
  | unicode a b c d => exact Nat.le_trans (by decide : 1 ≤ 5) (length_le_utf16 ['u', a, b, c, d])
  | codePoint ds =>
    refine Nat.le_trans (length_codeUnits_le _) (Nat.le_trans ?_ (length_le_utf16 _))
    exact Nat.succ_le_succ (Nat.succ_le_succ (Nat.zero_le _))
  | continuation t => exact Nat.zero_le _

theorem units_eq_iff {e : Element} (h : e.Valid q) :
    e.units = utf16 (decoded e) ↔ Kept (fun _ => false) e := by
  have hlong {s : List Char} {us : List Nat} (hlt : us.length < s.length) : us ≠ utf16 s := fun heq =>
    absurd (congrArg List.length heq) (Nat.ne_of_lt (Nat.lt_of_lt_of_le hlt (length_le_utf16 s)))
  cases e with
  | char c | other c => exact iff_of_true (append_nil _).symm rfl
  | single c =>
    exact single_cases (P := fun c => (Element.single c).units = utf16 [unescapeChar c] ↔
      c ∈ ['\'', '"', '\\', 'n', 'r', 't']) h (by decide)
  | null => exact iff_of_false (by decide) id
  | hex a b => exact iff_of_false (hlong (s := ['x', a, b]) (show 1 < 3 by decide)) id
  | unicode a b c d =>
    exact iff_of_false (hlong (s := ['u', a, b, c, d]) (show 1 < 5 by decide)) id
  | codePoint ds =>
    refine iff_of_false (hlong (Nat.lt_of_le_of_lt (length_codeUnits_le _) ?_)) id
    have hds := length_pos_iff.mpr h.1
    simp only [decoded, length_cons, length_append]
    omega
  | continuation t => exact iff_of_false (by cases t <;> decide) id

theorem length_flatMap_le {α β : Type} {f g : α → List β} {xs : List α}
    (h : ∀ x ∈ xs, (f x).length ≤ (g x).length) :
    (xs.flatMap f).length ≤ (xs.flatMap g).length := by
  induction xs with
  | nil => exact Nat.le_refl 0
  | cons x xs ih =>
    obtain ⟨hx, hxs⟩ := forall_mem_cons.mp h
    rw [flatMap_cons, flatMap_cons, length_append, length_append]
    exact Nat.add_le_add hx (ih hxs)

theorem flatMap_eq_iff {α β : Type} {f g : α → List β} {xs : List α}
    (h : ∀ x ∈ xs, (f x).length ≤ (g x).length) :
    xs.flatMap f = xs.flatMap g ↔ ∀ x ∈ xs, f x = g x := by
  refine ⟨fun heq => ?_, flatMap_congr⟩
  induction xs with
  | nil => exact fun _ hx => absurd hx not_mem_nil
  | cons x xs ih =>
    obtain ⟨hx, hxs⟩ := forall_mem_cons.mp h
    have hle := length_flatMap_le hxs
    rw [flatMap_cons, flatMap_cons] at heq
    have hlen := congrArg List.length heq
    rw [length_append, length_append] at hlen
    obtain ⟨hhead, htail⟩ := append_inj heq (by omega)
    exact forall_mem_cons.mpr ⟨hhead, ih hxs htail⟩

theorem units_eq_decoded_iff (l : Literal) :
    utf16 (l.elements.flatMap decoded) = l.units ↔ ∀ e ∈ l.elements, Kept (fun _ => false) e := by
  have hflat : utf16 (l.elements.flatMap decoded) =
      l.elements.flatMap fun e => utf16 (decoded e) := flatMap_assoc
  rw [eq_comm, Literal.units, hflat, flatMap_eq_iff fun e he => length_units_le (l.valid e he)]
  exact forall₂_congr fun e he => units_eq_iff (l.valid e he)

/-- The compiler may refuse the null character and the byte order mark. -/
def Refusal (refuses : Char → Bool) : Prop :=
  ∀ c, refuses c = true → c = Char.ofNat 0 ∨ c = Char.ofNat 0xFEFF

theorem Refusal.ascii {refuses : Char → Bool} (h : Refusal refuses) {c : Char}
    (hc : 0 < c.toNat ∧ c.toNat < 0x80) : refuses c = false := by
  refine Bool.eq_false_iff.mpr fun hr => ?_
  rcases h c hr with rfl | rfl
  · exact absurd hc (by decide)
  · exact absurd hc (by decide)

theorem kept_iff {refuses : Char → Bool} (hrefuses : Refusal refuses) (e : Element) :
    Kept refuses e ↔ Kept (fun _ => false) e ∧ (decoded e).any refuses = false := by
  cases e with
  | char c | other c =>
    show refuses c = false ↔ false = false ∧ (refuses c || false) = false
    rw [Bool.or_false, and_iff_right rfl]
  | single c =>
    refine (and_iff_left_of_imp fun hmem => ?_).symm
    show (refuses (unescapeChar c) || false) = false
    rw [Bool.or_false]
    refine hrefuses.ascii ?_
    exact all_of_decide
      (P := fun c => 0 < (unescapeChar c).toNat ∧ (unescapeChar c).toNat < 0x80) (by decide) c hmem
  | null | hex | unicode | codePoint | continuation => exact iff_of_false id fun h => h.1

theorem denotes_iff {refuses : Char → Bool} (hrefuses : Refusal refuses) (l : Literal) :
    (∃ s, utf16 s = l.units ∧
      GoString.Denotes refuses (escapeGoString (utf8 (l.elements.flatMap decoded))) (utf8 s)) ↔
      ∀ e ∈ l.elements, Kept refuses e := by
  have hkept : (∀ e ∈ l.elements, Kept refuses e) ↔
      utf16 (l.elements.flatMap decoded) = l.units ∧
        (l.elements.flatMap decoded).any refuses = false := by
    rw [units_eq_decoded_iff, any_flatMap, List.any_eq_false, ← forall₂_and]
    refine forall₂_congr fun e _ => (kept_iff hrefuses e).trans ?_
    rw [Bool.not_eq_true]
  rw [hkept, escapeGoString_utf8]
  simp only [GoString.denotes_utf8]
  rw [GoString.denotes_quote_iff fun c hc =>
    hrefuses.ascii (all_of_decide (P := fun c => 0 < c.toNat ∧ c.toNat < 0x80) (by decide) c hc)]
  cases hany : (l.elements.flatMap decoded).any refuses with
  | true => exact iff_of_false (fun ⟨_, _, h⟩ => nomatch h) nofun
  | false =>
    refine ⟨?_, fun h => ⟨_, h.1, rfl⟩⟩
    rintro ⟨s, hs, heq⟩
    rw [← utf8_inj.mp (Option.some.inj heq)] at hs
    exact ⟨hs, rfl⟩

/-- **The Go literal denotes the string of the TypeScript literal if and only if the lexer knows each
of its elements and the compiler takes each of its characters.** -/
theorem goLiteral_denotes_iff {refuses : Char → Bool} (hrefuses : Refusal refuses) (l : Literal)
    {line : Nat} {rest : Bytes} {tokens : List TsToken}
    (h : tokenizeFrom line (utf8 l.text ++ rest) = .ok tokens) :
    (∃ value more s, tokens = ⟨.string, value, line⟩ :: more ∧ utf16 s = l.units ∧
      GoString.Denotes refuses (escapeGoString value) (utf8 s)) ↔
      ∀ e ∈ l.elements, Kept refuses e := by
  by_cases hcrlf : Element.continuation .crlf ∈ l.elements
  · rw [tokenizeFrom_crlf l line rest hcrlf] at h
    cases h
  rw [tokenizeFrom_literal l line rest hcrlf] at h
  rw [← denotes_iff hrefuses l]
  generalize tokenizeFrom line rest = more at h
  cases more with
  | error e => cases h
  | ok more =>
    cases h
    refine ⟨?_, ?_⟩
    · rintro ⟨value, more', s, heq, hs⟩
      cases heq
      exact ⟨s, hs⟩
    · rintro ⟨s, hs⟩
      exact ⟨_, more, s, rfl, hs⟩

/-- What the `gc` compiler refuses. -/
def gcRefuses (c : Char) : Bool := c = Char.ofNat 0 ∨ c = Char.ofNat 0xFEFF

theorem gcRefusal : Refusal gcRefuses := fun _ h => of_decide_eq_true h

/-- `"a\n"`. -/
def lineLiteral : Literal where
  quote := '"'
  elements := [.char 'a', .single 'n']
  quote_eq := .inl rfl
  valid := by decide
  nullsEnd := trivial

theorem lineLiteral_tokens : tokenizeFrom 1 (utf8 lineLiteral.text ++ []) =
    .ok [⟨.string, ascii "a\n", 1⟩, ⟨.endOfFile, [], 1⟩] := by
  rw [tokenizeFrom_literal lineLiteral 1 [] (by decide), tokenizeFrom_nil]
  rfl

theorem lineLiteral_denotes : ∃ value more s,
    [⟨.string, ascii "a\n", 1⟩, ⟨.endOfFile, [], 1⟩] = (⟨.string, value, 1⟩ : TsToken) :: more ∧
      utf16 s = lineLiteral.units ∧
      GoString.Denotes gcRefuses (escapeGoString value) (utf8 s) :=
  (goLiteral_denotes_iff gcRefusal lineLiteral lineLiteral_tokens).mpr (by decide)

/-- `"\0"`. -/
def nullLiteral : Literal where
  quote := '"'
  elements := [.null]
  quote_eq := .inl rfl
  valid := by decide
  nullsEnd := trivial

theorem nullLiteral_differs : ∃ value,
    tokenizeTs (utf8 nullLiteral.text) = .ok [⟨.string, value, 1⟩, ⟨.endOfFile, [], 1⟩] ∧
      ¬∃ s, utf16 s = nullLiteral.units ∧
        GoString.Denotes gcRefuses (escapeGoString value) (utf8 s) := by
  refine ⟨ascii "0", ?_, ?_⟩
  · rw [tokenizeTs, ← append_nil (utf8 _), tokenizeFrom_literal nullLiteral 1 [] (by decide),
      tokenizeFrom_nil]
    rfl
  · rintro ⟨s, hs, hdenotes⟩
    rw [ascii, escapeGoString_utf8, GoString.denotes_utf8] at hdenotes
    have hzero : GoString.denotes gcRefuses (GoString.quote "0".toList) = some (utf8 ['0']) := by
      decide
    rw [← utf8_inj.mp (Option.some.inj (hzero.symm.trans hdenotes))] at hs
    exact absurd hs (by decide)

end Voodoo.Bruja.Goxx
