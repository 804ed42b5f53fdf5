import Voodoo.Lib.Utf

/-!
# Go string literals

What a piece of Go source text denotes as an interpreted string literal: bytes, with the text read as
UTF-8.  A compiler may refuse some characters in its source, and is known here by those it
refuses.

An escape denotes fewer bytes than it is spelled with.  So a text between quotes denotes its own bytes
only when nothing in it is an escape (`denotes_raw_iff`), and one with the escapes of Go's own for
quotes, backslashes and the white space of lines denotes what was escaped (`denotes_quote_iff`).
-/

namespace GoString

open Utf

/-! ### Reading -/

/-- The escapes of one character.  A single quote has none between double quotes. -/
def simpleEscape : Char → Option Nat
  | 'a' => some 7
  | 'b' => some 8
  | 'f' => some 12
  | 'n' => some 10
  | 'r' => some 13
  | 't' => some 9
  | 'v' => some 11
  | '\\' => some 92
  | '"' => some 34
  | _ => none

def digit (c : Char) : Option Nat :=
  if '0' ≤ c ∧ c ≤ '9' then some (c.toNat - 48)
  else if 'a' ≤ c ∧ c ≤ 'f' then some (c.toNat - 87)
  else if 'A' ≤ c ∧ c ≤ 'F' then some (c.toNat - 55)
  else none

/-- The number of a row of digits. -/
def number (base : Nat) (cs : List Char) : Option Nat :=
  cs.foldlM (fun n c => do
    let d ← digit c
    if d < base then some (base * n + d) else none) 0

def codePoint (n : Nat) : Option (List UInt8) :=
  if h : n.isValidChar then some (String.utf8EncodeChar (Char.ofNatAux n h)) else none

/-- So many digits, and what is left. -/
def digits (n : Nat) (cs : List Char) : Option (List Char × List Char) :=
  if n ≤ cs.length then some (cs.take n, cs.drop n) else none

/-- What follows the backslash of an escape: the bytes it denotes and what is left. -/
def readEscape (cs : List Char) : Option (List UInt8 × List Char) :=
  match cs with
  | [] => none
  | 'x' :: cs => do
    let (ds, rest) ← digits 2 cs
    return ([UInt8.ofNat (← number 16 ds)], rest)
  | 'u' :: cs => do
    let (ds, rest) ← digits 4 cs
    return (← codePoint (← number 16 ds), rest)
  | 'U' :: cs => do
    let (ds, rest) ← digits 8 cs
    return (← codePoint (← number 16 ds), rest)
  | c :: cs =>
    match simpleEscape c with
    | some n => some ([UInt8.ofNat n], cs)
    | none => do
      let (ds, rest) ← digits 2 cs
      let n ← number 8 (c :: ds)
      if n < 256 then some ([UInt8.ofNat n], rest) else none

/-- What follows the opening quote, up to the closing one, which is the last character. -/
def readContents (refuses : Char → Bool) : Nat → List Char → Option (List UInt8)
  | 0, _ => none
  | _ + 1, [] => none
  | fuel + 1, c :: cs =>
    if c = '"' then if cs = [] then some [] else none
    else if c = '\n' then none
    else if c = '\\' then do
      let (bs, rest) ← readEscape cs
      return bs ++ (← readContents refuses fuel rest)
    else if refuses c then none
    else return String.utf8EncodeChar c ++ (← readContents refuses fuel cs)

/-- The bytes a literal denotes. -/
def denotes (refuses : Char → Bool) : List Char → Option (List UInt8)
  | '"' :: cs => readContents refuses cs.length cs
  | _ => none

/-- The literal in these bytes of source denotes those bytes. -/
def Denotes (refuses : Char → Bool) (source bytes : List UInt8) : Prop :=
  ∃ text, utf8 text = source ∧ denotes refuses text = some bytes

variable {refuses : Char → Bool} {s text : List Char} {bytes : List UInt8}

theorem denotes_utf8 : Denotes refuses (utf8 text) bytes ↔ denotes refuses text = some bytes := by
  refine ⟨?_, fun h => ⟨text, rfl, h⟩⟩
  rintro ⟨text', heq, h⟩
  rwa [utf8_inj.mp heq] at h

/-! ### Escapes are longer than what they denote -/

theorem length_le_utf8 : s.length ≤ (utf8 s).length := by
  induction s with
  | nil => exact Nat.le_refl 0
  | cons c s ih =>
    have hc := length_utf8Char_pos (c := c)
    rw [utf8_cons, List.length_append, List.length_cons]
    omega

theorem digits_eq {n : Nat} {cs ds rest : List Char} (h : digits n cs = some (ds, rest)) :
    cs = ds ++ rest ∧ ds.length = n := by
  unfold digits at h
  split at h
  · cases h
    exact ⟨(List.take_append_drop n cs).symm, List.length_take_of_le ‹_›⟩
  · cases h

theorem length_codePoint {n : Nat} (h : codePoint n = some bytes) : bytes.length ≤ 4 := by
  obtain ⟨hvalid, hbytes⟩ := Option.dite_none_right_eq_some.mp h
  cases hbytes
  exact length_utf8Char_le

/-- An escape is spelled with at least as many characters as it denotes bytes, before its
backslash. -/
theorem readEscape_eq {cs rest : List Char} (h : readEscape cs = some (bytes, rest)) :
    ∃ taken, cs = taken ++ rest ∧ bytes.length ≤ taken.length := by
  unfold readEscape at h
  split at h
  · cases h
  · next cs =>
    obtain ⟨⟨ds, rest'⟩, hds, h⟩ := Option.bind_eq_some_iff.mp h
    obtain ⟨n, hn, h⟩ := Option.bind_eq_some_iff.mp h
    cases h
    obtain ⟨rfl, hlen⟩ := digits_eq hds
    exact ⟨'x' :: ds, rfl, Nat.succ_le_succ (Nat.zero_le _)⟩
  · next cs =>
    obtain ⟨⟨ds, rest'⟩, hds, h⟩ := Option.bind_eq_some_iff.mp h
    obtain ⟨n, hn, h⟩ := Option.bind_eq_some_iff.mp h
    obtain ⟨bs, hbs, h⟩ := Option.bind_eq_some_iff.mp h
    cases h
    obtain ⟨rfl, hlen⟩ := digits_eq hds
    have := length_codePoint hbs
    exact ⟨'u' :: ds, rfl, by rw [List.length_cons]; omega⟩
  · next cs =>
    obtain ⟨⟨ds, rest'⟩, hds, h⟩ := Option.bind_eq_some_iff.mp h
    obtain ⟨n, hn, h⟩ := Option.bind_eq_some_iff.mp h
    obtain ⟨bs, hbs, h⟩ := Option.bind_eq_some_iff.mp h
    cases h
    obtain ⟨rfl, hlen⟩ := digits_eq hds
    have := length_codePoint hbs
    exact ⟨'U' :: ds, rfl, by rw [List.length_cons]; omega⟩
  · next c cs _ _ _ =>
    split at h
    · cases h
      exact ⟨[c], rfl, Nat.le_refl 1⟩
    · obtain ⟨⟨ds, rest'⟩, hds, h⟩ := Option.bind_eq_some_iff.mp h
      obtain ⟨n, hn, h⟩ := Option.bind_eq_some_iff.mp h
      split at h
      · cases h
        obtain ⟨rfl, hlen⟩ := digits_eq hds
        exact ⟨c :: ds, rfl, Nat.succ_le_succ (Nat.zero_le _)⟩
      · cases h

theorem length_of_readContents {fuel : Nat} {cs : List Char}
    (h : readContents refuses fuel cs = some bytes) : bytes.length < (utf8 cs).length := by
  induction fuel generalizing cs bytes with
  | zero => cases h
  | succ fuel ih =>
    cases cs with
    | nil => cases h
    | cons c cs =>
      rw [readContents] at h
      rw [utf8_cons, List.length_append]
      have hc := length_utf8Char_pos (c := c)
      split at h
      · split at h
        · cases h
          exact Nat.add_pos_left hc _
        · cases h
      split at h
      · cases h
      split at h
      · obtain ⟨⟨bs, rest⟩, hesc, h⟩ := Option.bind_eq_some_iff.mp h
        obtain ⟨more, hmore, h⟩ := Option.bind_eq_some_iff.mp h
        cases h
        obtain ⟨taken, rfl, hle⟩ := readEscape_eq hesc
        have := ih hmore
        have := length_le_utf8 (s := taken)
        rw [utf8_append, List.length_append, List.length_append]
        omega
      · split at h
        · cases h
        · obtain ⟨more, hmore, h⟩ := Option.bind_eq_some_iff.mp h
          cases h
          have := ih hmore
          rw [List.length_append]
          omega

/-! ### Texts between quotes -/

/-- Nothing a literal reads in another way, and nothing the compiler refuses. -/
def Raw (refuses : Char → Bool) (c : Char) : Prop :=
  c ≠ '"' ∧ c ≠ '\\' ∧ c ≠ '\n' ∧ refuses c = false

theorem readContents_raw {fuel : Nat} (hfuel : s.length < fuel) :
    readContents refuses fuel (s ++ ['"']) = some (utf8 s) ↔ ∀ c ∈ s, Raw refuses c := by
  induction s generalizing fuel with
  | nil =>
    obtain ⟨fuel, rfl⟩ := Nat.exists_eq_add_of_lt hfuel
    exact iff_of_true rfl (fun _ hc => absurd hc List.not_mem_nil)
  | cons c s ih =>
    obtain ⟨fuel, rfl⟩ : ∃ k, fuel = k + 1 := ⟨fuel - 1, by omega⟩
    rw [List.forall_mem_cons, ← ih (Nat.lt_of_succ_lt_succ hfuel), List.cons_append, readContents,
      Raw]
    by_cases hq : c = '"'
    · have hne : s ++ ['"'] ≠ [] := List.append_ne_nil_of_right_ne_nil _ (List.cons_ne_nil _ _)
      rw [if_pos hq, if_neg hne]
      exact iff_of_false nofun fun h => h.1.1 hq
    by_cases hn : c = '\n'
    · rw [if_neg hq, if_pos hn]
      exact iff_of_false nofun fun h => h.1.2.2.1 hn
    by_cases hb : c = '\\'
    · -- an escape is too short
      rw [if_neg hq, if_neg hn, if_pos hb]
      refine iff_of_false (fun h => ?_) fun h => h.1.2.1 hb
      obtain ⟨⟨bs, rest⟩, hesc, h⟩ := Option.bind_eq_some_iff.mp h
      obtain ⟨more, hmore, h⟩ := Option.bind_eq_some_iff.mp h
      have hlen := congrArg List.length (Option.some.inj h)
      obtain ⟨taken, heq, hle⟩ := readEscape_eq hesc
      have hmore := length_of_readContents hmore
      have htaken := length_le_utf8 (s := taken)
      have hwhole := congrArg (List.length ∘ utf8) heq
      have hc := length_utf8Char_pos (c := c)
      simp only [Function.comp_apply, utf8_append, utf8_cons, List.length_append] at hlen hwhole
      have hquote : (String.utf8EncodeChar '"' ++ utf8 []).length = 1 := by decide
      rw [List.length_append] at hquote
      omega
    rw [if_neg hq, if_neg hn, if_neg hb]
    cases hr : refuses c with
    | true => exact iff_of_false nofun fun h => Bool.noConfusion h.1.2.2.2
    | false =>
      rw [and_iff_right ⟨hq, hb, hn, rfl⟩, utf8_cons]
      cases hrest : readContents refuses fuel (s ++ ['"']) with
      | none => exact iff_of_false nofun nofun
      | some more =>
        show some (String.utf8EncodeChar c ++ more) = some (String.utf8EncodeChar c ++ utf8 s) ↔ _
        rw [Option.some_inj, Option.some_inj, List.append_cancel_left_eq]

/-- **A text between quotes denotes its own bytes exactly when all of it is raw.** -/
theorem denotes_raw_iff :
    denotes refuses ('"' :: (s ++ ['"'])) = some (utf8 s) ↔ ∀ c ∈ s, Raw refuses c := by
  rw [denotes, List.length_append]
  exact readContents_raw (Nat.lt_succ_self _)

theorem readContents_ends {fuel : Nat} {cs : List Char}
    (h : readContents refuses fuel cs = some bytes) : ∃ s, cs = s ++ ['"'] := by
  induction fuel generalizing cs bytes with
  | zero => cases h
  | succ fuel ih =>
    cases cs with
    | nil => cases h
    | cons c cs =>
      rw [readContents] at h
      split at h
      · next hq =>
        split at h
        · next hnil => exact ⟨[], by rw [hq, hnil]; rfl⟩
        · cases h
      split at h
      · cases h
      split at h
      · obtain ⟨⟨bs, rest⟩, hesc, h⟩ := Option.bind_eq_some_iff.mp h
        obtain ⟨more, hmore, h⟩ := Option.bind_eq_some_iff.mp h
        obtain ⟨taken, rfl, -⟩ := readEscape_eq hesc
        obtain ⟨s, rfl⟩ := ih hmore
        exact ⟨c :: (taken ++ s), by rw [List.cons_append, List.append_assoc]⟩
      · split at h
        · cases h
        · obtain ⟨more, hmore, h⟩ := Option.bind_eq_some_iff.mp h
          obtain ⟨s, rfl⟩ := ih hmore
          exact ⟨c :: s, rfl⟩

theorem exists_of_denotes {v : List UInt8}
    (h : Denotes refuses (byte '"' :: (v ++ [byte '"'])) bytes) : ∃ s, utf8 s = v := by
  obtain ⟨text, heq, h⟩ := h
  unfold denotes at h
  split at h
  · next cs =>
    obtain ⟨s, rfl⟩ := readContents_ends h
    rw [utf8_ascii_cons (by decide), utf8_append] at heq
    exact ⟨s, List.append_cancel_right (List.cons.inj heq).2⟩
  · cases h

/-! ### Escaping -/

def escape (c : Char) : List Char :=
  if c = '\\' then ['\\', '\\'] else if c = '"' then ['\\', '"'] else if c = '\n' then ['\\', 'n']
  else if c = '\t' then ['\\', 't'] else if c = '\r' then ['\\', 'r'] else [c]

/-- `s` between quotes, with the escapes for quotes, backslashes and the white space of lines. -/
def quote (s : List Char) : List Char := '"' :: (s.flatMap escape ++ ['"'])

theorem escape_ne_nil (c : Char) : escape c ≠ [] := by
  unfold escape
  repeat' split
  all_goals exact List.cons_ne_nil _ _

theorem length_le_escape : s.length ≤ (s.flatMap escape).length := by
  induction s with
  | nil => exact Nat.le_refl 0
  | cons c s ih =>
    have hc := List.length_pos_iff.mpr (escape_ne_nil c)
    rw [List.flatMap_cons, List.length_append, List.length_cons]
    omega

/-- What an escaped character is read as. -/
theorem readContents_escape {fuel : Nat} {c : Char} {cs : List Char} :
    readContents refuses (fuel + 1) (escape c ++ cs) =
      if c ∉ ['\\', '"', '\n', '\t', '\r'] ∧ refuses c then none
      else (readContents refuses fuel cs).map (String.utf8EncodeChar c ++ ·) := by
  have hread {e : Char} {bs : List UInt8} (h : readEscape (e :: cs) = some (bs, cs)) :
      readContents refuses (fuel + 1) ('\\' :: e :: cs) =
        (readContents refuses fuel cs).map (bs ++ ·) := by
    show (do
      let (bs, rest) ← readEscape (e :: cs)
      return bs ++ (← readContents refuses fuel rest)) = _
    rw [h]
    exact Option.map_eq_bind.symm
  unfold escape
  by_cases h1 : c = '\\'
  · subst h1
    exact (hread rfl).trans (if_neg fun h => h.1 (by decide)).symm
  by_cases h2 : c = '"'
  · subst h2
    exact (hread rfl).trans (if_neg fun h => h.1 (by decide)).symm
  by_cases h3 : c = '\n'
  · subst h3
    exact (hread rfl).trans (if_neg fun h => h.1 (by decide)).symm
  by_cases h4 : c = '\t'
  · subst h4
    exact (hread rfl).trans (if_neg fun h => h.1 (by decide)).symm
  by_cases h5 : c = '\r'
  · subst h5
    exact (hread rfl).trans (if_neg fun h => h.1 (by decide)).symm
  rw [if_neg h1, if_neg h2, if_neg h3, if_neg h4, if_neg h5]
  show readContents refuses (fuel + 1) (c :: cs) = _
  rw [readContents, if_neg h2, if_neg h3, if_neg h1]
  have hmem : c ∉ ['\\', '"', '\n', '\t', '\r'] := by
    simp only [List.mem_cons, h1, h2, h3, h4, h5, List.not_mem_nil, or_self, not_false_eq_true]
  simp only [hmem, not_false_eq_true, true_and]
  split
  · rfl
  · cases readContents refuses fuel cs with
    | _ => rfl

/-- **An escaped text denotes its own bytes, unless the compiler refuses a character that is written
as itself.** -/
theorem denotes_quote_iff (hrefuses : ∀ c ∈ ['\\', '"', '\n', '\t', '\r'], refuses c = false) :
    denotes refuses (quote s) =
      if s.any refuses then none else some (utf8 s) := by
  have hread (fuel : Nat) (hfuel : s.length < fuel) :
      readContents refuses fuel (s.flatMap escape ++ ['"']) =
        if s.any refuses then none else some (utf8 s) := by
    induction s generalizing fuel with
    | nil =>
      obtain ⟨fuel, rfl⟩ := Nat.exists_eq_add_of_lt hfuel
      rfl
    | cons c s ih =>
      obtain ⟨fuel, rfl⟩ : ∃ k, fuel = k + 1 := ⟨fuel - 1, by omega⟩
      rw [List.flatMap_cons, List.append_assoc, readContents_escape,
        ih fuel (Nat.lt_of_succ_lt_succ hfuel), List.any_cons]
      cases hr : refuses c with
      | true =>
        have hmem : c ∉ ['\\', '"', '\n', '\t', '\r'] := fun hmem =>
          Bool.noConfusion (hr.symm.trans (hrefuses c hmem))
        rw [if_pos ⟨hmem, rfl⟩]
        rfl
      | false =>
        rw [if_neg (fun h => Bool.noConfusion h.2), Bool.false_or]
        split <;> rfl
  rw [quote, denotes, List.length_append]
  exact hread _ (Nat.lt_succ_of_le length_le_escape)

end GoString
