import Voodoo.Bruja.TsLexer
import Voodoo.Lib.CppString
import Voodoo.Lib.GoString

/-!
# Bruja's strings in the generated code

A string of a `.bruja` file is decoded by the lexer.  As a constant or a default it is escaped again by
the parser, and goes into the C++ as the parser has it; as the value of an enum it goes into the
C++ and the Go++ between quotes as it is, and the name of its Go++ constant is made from it.

`denotes_escapeCppStringLiteral_iff`, `denotes_quickjsEnumLiteral_iff`, `denotes_goEnumLiteral_iff` and
`goEnumIdent_eq_iff` say for which strings each of these routes keeps the string, and
`stringsKept_iff` puts them together.
-/

namespace Voodoo.Bruja.Goxx

open Utf List

/-! ### The routes of a string -/

/-- The string branch of `Tokenize`, from behind the opening quote: the value and what is left. -/
def stringToken : Bytes → Option (Bytes × Bytes)
  | [] => none
  | c :: cs =>
    if c = byte '"' then some ([], cs)
    else if c = byte '\n' then none
    else
      match cs with
      | e :: cs =>
        if c = byte '\\' ∧ (e = byte '"' ∨ e = byte '\\') then
          (stringToken cs).map fun r => (e :: r.1, r.2)
        else (stringToken (e :: cs)).map fun r => (c :: r.1, r.2)
      | [] => none

/-- A string that the lexer decodes. -/
def Lexed (v : Bytes) : Prop := ∃ source rest, stringToken source = some (v, rest)

def escapeCppByte (c : UInt8) : Bytes :=
  if c = byte '"' ∨ c = byte '\\' then [byte '\\', c] else [c]

def escapeCppStringLiteral (value : Bytes) : Bytes :=
  byte '"' :: (value.flatMap escapeCppByte ++ [byte '"'])

structure EnumDecl where
  name : Bytes
  values : List Bytes

/-- What `EmitBaseValueConversion` compares the text of an enum with. -/
def quickjsEnumLiteral (value : Bytes) : Bytes := byte '"' :: (value ++ [byte '"'])

/-- What `GenerateGoxxFromModule` defines the constant of a value as. -/
def goEnumLiteral (value : Bytes) : Bytes := byte '"' :: (value ++ [byte '"'])

def isAlnum (c : UInt8) : Bool :=
  (byte '0' ≤ c && c ≤ byte '9') || (byte 'A' ≤ c && c ≤ byte 'Z') || (byte 'a' ≤ c && c ≤ byte 'z')

def identByte (c : UInt8) : UInt8 := if isAlnum c then c else byte '_'

/-- The name of that constant. -/
def goEnumIdent (e : EnumDecl) (value : Bytes) : Bytes :=
  (e.name ++ byte '_' :: value).map identByte

theorem newline_of_stringToken {source value rest : Bytes}
    (h : stringToken source = some (value, rest)) : byte '\n' ∉ value := by
  fun_induction stringToken source generalizing value with
  | case1 => cases h
  | case2 cs =>
    cases h
    exact not_mem_nil
  | case3 => cases h
  | case4 c hq hn e cs hesc ih =>
    obtain ⟨⟨v, r⟩, hr, h⟩ := Option.map_eq_some_iff.mp h
    cases h
    refine not_mem_cons_of_ne_of_not_mem ?_ (ih hr)
    rcases hesc.2 with rfl | rfl <;> decide
  | case5 c hq hn e cs hesc ih =>
    obtain ⟨⟨v, r⟩, hr, h⟩ := Option.map_eq_some_iff.mp h
    cases h
    exact not_mem_cons_of_ne_of_not_mem (Ne.symm hn) (ih hr)
  | case6 => cases h

/-! ### C++ -/

/-- Bytes as the characters of C++ source. -/
def cppChars (bs : Bytes) : List Char := bs.map fun b => Char.ofNat b.toNat

theorem cppChar_toNat (b : UInt8) : (Char.ofNat b.toNat).toNat = b.toNat := by
  have hb : b.toNat.isValidChar := .inl (Nat.lt_trans b.toNat_lt (by decide))
  rw [Char.ofNat, dif_pos hb]
  rfl

theorem cppChar_eq_iff {b : UInt8} {c : Char} (hc : c.toNat < 0x80) :
    Char.ofNat b.toNat = c ↔ b = byte c := by
  rw [← Char.toNat_inj, cppChar_toNat, ← UInt8.toNat_inj, byte_toNat hc]

theorem mem_cppChars {c : Char} (hc : c.toNat < 0x80) {v : Bytes} :
    c ∈ cppChars v ↔ byte c ∈ v := by
  rw [cppChars, List.mem_map]
  refine ⟨?_, fun h => ⟨_, h, (cppChar_eq_iff hc).mpr rfl⟩⟩
  rintro ⟨b, hb, heq⟩
  exact (cppChar_eq_iff hc).mp heq ▸ hb

def CppDenotes (source value : Bytes) : Prop :=
  CppString.denotes (cppChars source) = some (cppChars value)

theorem cppChars_escape (v : Bytes) :
    cppChars (escapeCppStringLiteral v) = CppString.quote (cppChars v) := by
  have hbyte (b : UInt8) :
      cppChars (escapeCppByte b) = CppString.escape (Char.ofNat b.toNat) := by
    rw [escapeCppByte, CppString.escape]
    by_cases hesc : b = byte '"' ∨ b = byte '\\'
    · rw [if_pos hesc, if_pos]
      · rfl
      · rw [cppChar_eq_iff (by decide), cppChar_eq_iff (by decide)]
        exact hesc.symm
    · rw [if_neg hesc, if_neg]
      · rfl
      · rw [cppChar_eq_iff (by decide), cppChar_eq_iff (by decide)]
        exact fun h => hesc h.symm
  have hv : cppChars (v.flatMap escapeCppByte) = (cppChars v).flatMap CppString.escape := by
    rw [cppChars, map_flatMap, cppChars, flatMap_map]
    exact flatMap_congr fun b _ => hbyte b
  rw [escapeCppStringLiteral, CppString.quote, ← hv]
  exact congrArg ('"' :: ·) map_append

/-- **An escaped string is kept unless it has a carriage return.** -/
theorem denotes_escapeCppStringLiteral_iff {v : Bytes} (h : Lexed v) :
    CppDenotes (escapeCppStringLiteral v) v ↔ byte '\r' ∉ v := by
  obtain ⟨source, rest, h⟩ := h
  rw [CppDenotes, cppChars_escape, CppString.denotes_quote_iff, mem_cppChars (by decide),
    mem_cppChars (by decide), and_iff_right (newline_of_stringToken h)]

theorem cppChars_quickjsEnumLiteral (v : Bytes) :
    cppChars (quickjsEnumLiteral v) = '"' :: (cppChars v ++ ['"']) :=
  congrArg ('"' :: ·) map_append

/-- **An enum value is kept in the C++ unless it has a carriage return, a backslash or a quote.** -/
theorem denotes_quickjsEnumLiteral_iff {v : Bytes} (h : Lexed v) :
    CppDenotes (quickjsEnumLiteral v) v ↔
      byte '\r' ∉ v ∧ byte '\\' ∉ v ∧ byte '"' ∉ v := by
  obtain ⟨source, rest, h⟩ := h
  have hne : (∀ c ∈ cppChars v, c ≠ '\\' ∧ c ≠ '"') ↔ byte '\\' ∉ v ∧ byte '"' ∉ v := by
    rw [forall₂_and, ← mem_cppChars (by decide), ← mem_cppChars (by decide)]
    exact and_congr ⟨fun h hc => h _ hc rfl, fun h c hc heq => h (heq ▸ hc)⟩
      ⟨fun h hc => h _ hc rfl, fun h c hc heq => h (heq ▸ hc)⟩
  rw [CppDenotes, cppChars_quickjsEnumLiteral, CppString.denotes_raw_iff, mem_cppChars (by decide),
    mem_cppChars (by decide), and_iff_right (newline_of_stringToken h), hne]

/-! ### Go++ -/

variable {refuses : Char → Bool}

/-- **An enum value is kept in the Go++ if it is UTF-8 without backslashes, quotes and characters that
the compiler refuses.** -/
theorem denotes_goEnumLiteral_iff {v : Bytes} (h : Lexed v) :
    GoString.Denotes refuses (goEnumLiteral v) v ↔
      byte '\\' ∉ v ∧ byte '"' ∉ v ∧ ∃ s, utf8 s = v ∧ s.any refuses = false := by
  obtain ⟨source, rest, h⟩ := h
  have hn := newline_of_stringToken h
  have hraw (s : List Char) (hs : utf8 s = v) : GoString.Denotes refuses (goEnumLiteral v) v ↔
      ∀ c ∈ s, GoString.Raw refuses c := by
    subst hs
    rw [goEnumLiteral, ← GoString.denotes_raw_iff, ← GoString.denotes_utf8,
      utf8_ascii_cons (by decide), utf8_append]
    rfl
  have hiff (s : List Char) (hs : utf8 s = v) : (∀ c ∈ s, GoString.Raw refuses c) ↔
      byte '\\' ∉ v ∧ byte '"' ∉ v ∧ s.any refuses = false := by
    subst hs
    rw [byte_mem_utf8 (by decide)] at hn ⊢
    rw [byte_mem_utf8 (by decide), List.any_eq_false]
    refine ⟨fun h => ⟨fun hb => (h _ hb).2.1 rfl, fun hq => (h _ hq).1 rfl,
      fun c hc => Bool.eq_false_iff.mp (h c hc).2.2.2⟩, ?_⟩
    rintro ⟨hb, hq, hr⟩ c hc
    exact ⟨fun heq => hq (heq ▸ hc), fun heq => hb (heq ▸ hc), fun heq => hn (heq ▸ hc),
      Bool.eq_false_iff.mpr (hr c hc)⟩
  constructor
  · intro hdenotes
    obtain ⟨s, hs⟩ := GoString.exists_of_denotes hdenotes
    have hkept := (hiff s hs).mp ((hraw s hs).mp hdenotes)
    exact ⟨hkept.1, hkept.2.1, s, hs, hkept.2.2⟩
  · rintro ⟨hb, hq, s, hs, hr⟩
    exact (hraw s hs).mpr ((hiff s hs).mpr ⟨hb, hq, hr⟩)

/-- The strings differ only in what is no letter or digit in either. -/
def Blurred : Bytes → Bytes → Prop :=
  List.Forall₂ fun a b => a = b ∨ isAlnum a = false ∧ isAlnum b = false

theorem identByte_eq_iff {a b : UInt8} :
    identByte a = identByte b ↔ a = b ∨ isAlnum a = false ∧ isAlnum b = false := by
  have hunderscore : isAlnum (byte '_') = false := by decide
  unfold identByte
  cases ha : isAlnum a with
  | true =>
    cases hb : isAlnum b with
    | true => simp
    | false =>
      rw [if_pos rfl, if_neg Bool.false_ne_true]
      refine iff_of_false ?_ ?_
      · rintro rfl
        exact Bool.noConfusion (ha.symm.trans hunderscore)
      · rintro (rfl | h)
        · exact Bool.noConfusion (ha.symm.trans hb)
        · exact Bool.noConfusion h.1
  | false =>
    cases hb : isAlnum b with
    | true =>
      rw [if_neg Bool.false_ne_true, if_pos rfl]
      refine iff_of_false ?_ ?_
      · rintro rfl
        exact Bool.noConfusion (hb.symm.trans hunderscore)
      · rintro (rfl | h)
        · exact Bool.noConfusion (hb.symm.trans ha)
        · exact Bool.noConfusion h.2
    | false => exact iff_of_true rfl (.inr ⟨rfl, rfl⟩)

theorem goEnumIdent_eq_iff {e : EnumDecl} {v w : Bytes} :
    goEnumIdent e v = goEnumIdent e w ↔ Blurred v w := by
  have hmap : v.map identByte = w.map identByte ↔ Blurred v w := by
    rw [← forall₂_eq_eq_eq, forall₂_map_left_iff, forall₂_map_right_iff]
    exact iff_of_eq (congrArg (List.Forall₂ · v w)
      (funext fun a => funext fun b => propext identByte_eq_iff))
  rw [goEnumIdent, goEnumIdent, map_append, map_append, append_cancel_left_eq,
    map_cons, map_cons, cons_inj_right, hmap]

/-! ### All together -/

/-- Each string that is spliced denotes itself, and the constants of an enum have names of their
own. -/
structure StringsKept (refuses : Char → Bool) (literals : List Bytes) (enums : List EnumDecl) :
    Prop where
  literals : ∀ v ∈ literals, CppDenotes (escapeCppStringLiteral v) v
  values : ∀ e ∈ enums, ∀ v ∈ e.values,
    CppDenotes (quickjsEnumLiteral v) v ∧ GoString.Denotes refuses (goEnumLiteral v) v
  idents : ∀ e ∈ enums, ∀ v ∈ e.values, ∀ w ∈ e.values, v ≠ w → goEnumIdent e v ≠ goEnumIdent e w

/-- An enum value with nothing in it that a literal of either language reads in another way. -/
structure Plain (refuses : Char → Bool) (v : Bytes) : Prop where
  carriageReturn : byte '\r' ∉ v
  backslash : byte '\\' ∉ v
  quote : byte '"' ∉ v
  text : ∃ s, utf8 s = v ∧ s.any refuses = false

/-- **The constants and defaults `literals` and the values of the enums come out as the lexer decoded
them if and only if no constant or default has a carriage return, every enum value is plain, and no two
values of an enum differ only in what is no letter or digit.** -/
theorem stringsKept_iff {refuses : Char → Bool} {literals : List Bytes} {enums : List EnumDecl}
    (hliterals : ∀ v ∈ literals, Lexed v) (henums : ∀ e ∈ enums, ∀ v ∈ e.values, Lexed v) :
    StringsKept refuses literals enums ↔
      (∀ v ∈ literals, byte '\r' ∉ v) ∧ ∀ e ∈ enums, (∀ v ∈ e.values, Plain refuses v) ∧
        ∀ v ∈ e.values, ∀ w ∈ e.values, v ≠ w → ¬Blurred v w := by
  have hvalue (e : EnumDecl) (he : e ∈ enums) (v : Bytes) (hv : v ∈ e.values) :
      CppDenotes (quickjsEnumLiteral v) v ∧ GoString.Denotes refuses (goEnumLiteral v) v ↔
        Plain refuses v := by
    rw [denotes_quickjsEnumLiteral_iff (henums e he v hv), denotes_goEnumLiteral_iff (henums e he v hv)]
    exact ⟨fun h => ⟨h.1.1, h.1.2.1, h.1.2.2, h.2.2.2⟩,
      fun h => ⟨⟨h.carriageReturn, h.backslash, h.quote⟩, h.backslash, h.quote, h.text⟩⟩
  constructor
  · intro h
    refine ⟨fun v hv => ?_, fun e he => ⟨fun v hv => ?_, fun v hv w hw hne hblur => ?_⟩⟩
    · exact (denotes_escapeCppStringLiteral_iff (hliterals v hv)).mp (h.literals v hv)
    · exact (hvalue e he v hv).mp (h.values e he v hv)
    · exact h.idents e he v hv w hw hne (goEnumIdent_eq_iff.mpr hblur)
  · rintro ⟨hlit, hen⟩
    refine ⟨fun v hv => ?_, fun e he v hv => ?_, fun e he v hv w hw hne heq => ?_⟩
    · exact (denotes_escapeCppStringLiteral_iff (hliterals v hv)).mpr (hlit v hv)
    · exact (hvalue e he v hv).mpr ((hen e he).1 v hv)
    · exact (hen e he).2 v hv w hw hne (goEnumIdent_eq_iff.mp heq)

/-- `enum Level { "low", "high" };` with a default of `"low"`. -/
def levelEnum : EnumDecl := ⟨ascii "Level", [ascii "low", ascii "high"]⟩

theorem stringsKept_level : StringsKept (fun _ => false) [ascii "low"] [levelEnum] := by
  have hlow : Lexed (ascii "low") := ⟨ascii "low\"", [], by decide⟩
  have hhigh : Lexed (ascii "high") := ⟨ascii "high\"", [], by decide⟩
  have hvalues : ∀ v ∈ levelEnum.values, Lexed v :=
    forall_mem_cons.mpr ⟨hlow, forall_mem_singleton.mpr hhigh⟩
  refine (stringsKept_iff (forall_mem_singleton.mpr hlow)
    (forall_mem_singleton.mpr hvalues)).mpr ⟨by decide, ?_⟩
  refine forall_mem_singleton.mpr ⟨?_, ?_⟩
  · refine forall_mem_cons.mpr ⟨?_, forall_mem_singleton.mpr ?_⟩
    · exact ⟨by decide, by decide, by decide, "low".toList, rfl, by decide⟩
    · exact ⟨by decide, by decide, by decide, "high".toList, rfl, by decide⟩
  · have hlen : ∀ v ∈ levelEnum.values, ∀ w ∈ levelEnum.values, v ≠ w → v.length ≠ w.length := by
      decide
    exact fun v hv w hw hne hblur => hlen v hv w hw hne hblur.length_eq

/-- `enum Mark { "a\\nb" };`, a backslash and an `n` in the IDL. -/
def markEnum : EnumDecl := ⟨ascii "Mark", [ascii "a\\nb"]⟩

theorem markEnum_not_kept :
    (∀ v ∈ markEnum.values, Lexed v) ∧ ¬StringsKept (fun _ => false) [] [markEnum] := by
  have hlexed : Lexed (ascii "a\\nb") := ⟨ascii "a\\nb\"", [], by decide⟩
  refine ⟨forall_mem_singleton.mpr hlexed, fun h => ?_⟩
  have hvalue := (h.values markEnum mem_cons_self _ mem_cons_self).1
  exact ((denotes_quickjsEnumLiteral_iff hlexed).mp hvalue).2.1 (by decide)

end Voodoo.Bruja.Goxx
