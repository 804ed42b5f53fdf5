import Mathlib.Algebra.BigOperators.Group.List.Basic
import Mathlib.Algebra.GroupWithZero.Nat
import Mathlib.Data.List.TakeWhile

/-!
# C++ string literals

What a piece of C++ source text denotes as an ordinary string literal: first the line
breaks are put in one form, then lines that end in a backslash are joined, then the
characters and escapes between the quotes are read.  A character is a byte.  The
universal character names `\u` and `\U` and the escapes no standard defines denote
nothing here.

`weights` counts a backslash and a quote for half of what any other character counts.
No text denotes more than it weighs (`weights_of_readContents`), and joining lines only
takes away (`weights_splice_lt`), so a text that a line break went out of denotes less
than it was spelled for.
-/

namespace CppString

open List Option

/-! ### Reading -/

/-- Phase 1: a carriage return, a line feed and the two in a row are one line break each. -/
def lineBreaks : List Char → List Char
  | '\r' :: '\n' :: cs => '\n' :: lineBreaks cs
  | '\r' :: cs => '\n' :: lineBreaks cs
  | c :: cs => c :: lineBreaks cs
  | [] => []

/-- Phase 2: a backslash right before a line break goes away together with it. -/
def splice : List Char → List Char
  | '\\' :: '\n' :: cs => splice cs
  | c :: cs => c :: splice cs
  | [] => []

def simpleEscape : Char → Option Char
  | '\'' => some '\''
  | '"' => some '"'
  | '?' => some '?'
  | '\\' => some '\\'
  | 'a' => some (Char.ofNat 7)
  | 'b' => some (Char.ofNat 8)
  | 'f' => some (Char.ofNat 12)
  | 'n' => some '\n'
  | 'r' => some '\r'
  | 't' => some '\t'
  | 'v' => some (Char.ofNat 11)
  | _ => none

def isOctal (c : Char) : Bool := '0' ≤ c && c ≤ '7'

def isHex (c : Char) : Bool :=
  c.isDigit || ('a' ≤ c && c ≤ 'f') || ('A' ≤ c && c ≤ 'F')

def digit (c : Char) : Nat :=
  if c.isDigit then c.toNat - 48 else if c.isLower then c.toNat - 87 else c.toNat - 55

/-- The byte of a numeric escape; a number that is none is ill-formed. -/
def byte (base : Nat) (digits : List Char) : Option Char :=
  let n := digits.foldl (fun n c => base * n + digit c) 0
  if digits ≠ [] ∧ n < 256 then some (Char.ofNat n) else none

/-- What follows the backslash of an escape: the character it denotes and what is left. -/
def readEscape (cs : List Char) : Option (Char × List Char) :=
  match cs with
  | [] => none
  | 'x' :: cs => (byte 16 (cs.takeWhile isHex)).map (·, cs.dropWhile isHex)
  | c :: cs =>
    if isOctal c then
      let more := (cs.take 2).takeWhile isOctal
      (byte 8 (c :: more)).map (·, cs.drop more.length)
    else (simpleEscape c).map (·, cs)

/-- What follows the opening quote, up to the closing one, which is the last character. -/
def readContents : Nat → List Char → Option (List Char)
  | 0, _ => none
  | _ + 1, [] => none
  | fuel + 1, c :: cs =>
    if c = '"' then if cs = [] then some [] else none
    else if c = '\n' then none
    else if c = '\\' then do
      let (d, rest) ← readEscape cs
      return d :: (← readContents fuel rest)
    else return c :: (← readContents fuel cs)

/-- The characters a literal denotes. -/
def denotes (text : List Char) : Option (List Char) :=
  match splice (lineBreaks text) with
  | '"' :: cs => readContents cs.length cs
  | _ => none

/-! ### Weights -/

def weight (c : Char) : Nat := if c = '\\' ∨ c = '"' then 1 else 2

def weights (cs : List Char) : Nat := (cs.map weight).sum

theorem weight_pos (c : Char) : 1 ≤ weight c := by
  unfold weight
  split <;> decide

theorem weight_le (c : Char) : weight c ≤ 2 := by
  unfold weight
  split <;> decide

@[simp] theorem weights_nil : weights [] = 0 := rfl

@[simp] theorem weights_cons (c : Char) (cs : List Char) :
    weights (c :: cs) = weight c + weights cs := sum_cons

@[simp] theorem weights_append (cs ds : List Char) :
    weights (cs ++ ds) = weights cs + weights ds := by
  unfold weights
  rw [map_append, sum_append]

/-! ### Line breaks -/

theorem mem_lineBreaks {cs : List Char} : '\n' ∈ lineBreaks cs ↔ '\n' ∈ cs ∨ '\r' ∈ cs := by
  fun_induction lineBreaks cs with
  | case1 cs ih => simp
  | case2 cs hne ih => simp
  | case3 c cs h₁ h₂ ih =>
    have hc : c ≠ '\r' := fun hc => h₂ hc
    simp only [mem_cons, ih]
    constructor
    · rintro (h | h | h)
      · exact Or.inl (Or.inl h)
      · exact Or.inl (Or.inr h)
      · exact Or.inr (Or.inr h)
    · rintro ((h | h) | (h | h))
      · exact Or.inl h
      · exact Or.inr (Or.inl h)
      · exact absurd h.symm hc
      · exact Or.inr (Or.inr h)
  | case4 => simp

theorem weights_lineBreaks (cs : List Char) : weights (lineBreaks cs) ≤ weights cs := by
  fun_induction lineBreaks cs with
  | case1 cs ih =>
    have := weight_pos '\r'
    simp only [weights_cons]
    omega
  | case2 cs hne ih =>
    have hr : weight '\r' = 2 := rfl
    have hn : weight '\n' = 2 := rfl
    simp only [weights_cons]
    omega
  | case3 c cs h₁ h₂ ih =>
    simp only [weights_cons]
    omega
  | case4 => exact Nat.le_refl 0

theorem lineBreaks_of_notMem {cs : List Char} (h : '\r' ∉ cs) : lineBreaks cs = cs := by
  fun_induction lineBreaks cs with
  | case1 cs ih => exact absurd mem_cons_self h
  | case2 cs hne ih => exact absurd mem_cons_self h
  | case3 c cs h₁ h₂ ih => rw [ih (fun hc => h (mem_cons_of_mem c hc))]
  | case4 => rfl

theorem weights_splice (cs : List Char) : weights (splice cs) ≤ weights cs := by
  fun_induction splice cs with
  | case1 cs ih =>
    simp only [weights_cons]
    omega
  | case2 c cs hne ih =>
    simp only [weights_cons]
    omega
  | case3 => exact Nat.le_refl 0

theorem weights_splice_lt {cs : List Char} (h : '\n' ∈ cs) (hs : '\n' ∉ splice cs) :
    weights (splice cs) < weights cs := by
  fun_induction splice cs with
  | case1 cs ih =>
    have hle := weights_splice cs
    have hn : weight '\n' = 2 := rfl
    simp only [weights_cons]
    omega
  | case2 c cs hne ih =>
    rw [mem_cons, not_or] at hs
    have hmem : '\n' ∈ cs := (mem_cons.mp h).resolve_left hs.1
    have := ih hmem hs.2
    simp only [weights_cons]
    omega
  | case3 => exact absurd h not_mem_nil

theorem splice_of_notMem {cs : List Char} (h : '\n' ∉ cs) : splice cs = cs := by
  fun_induction splice cs with
  | case1 cs ih => exact absurd (mem_cons_of_mem _ mem_cons_self) h
  | case2 c cs hne ih => rw [ih (fun hc => h (mem_cons_of_mem c hc))]
  | case3 => rfl

/-! ### How much a text denotes -/

/-- An escape is spelled by at least one character, and by no line break. -/
theorem exists_of_readEscape {cs rest : List Char} {d : Char}
    (h : readEscape cs = some (d, rest)) :
    ∃ taken, cs = taken ++ rest ∧ taken ≠ [] ∧ '\n' ∉ taken := by
  unfold readEscape at h
  split at h
  · cases h
  · next tail =>
    obtain ⟨b, hb, heq⟩ := map_eq_some_iff.mp h
    cases heq
    refine ⟨'x' :: tail.takeWhile isHex, ?_, cons_ne_nil _ _, ?_⟩
    · rw [cons_append, takeWhile_append_dropWhile]
    · intro hmem
      rcases mem_cons.mp hmem with hx | hx
      · exact absurd hx (by decide)
      · exact absurd (mem_takeWhile_imp hx) (by decide)
  · next c tail hx =>
    split at h
    · next hc =>
      obtain ⟨b, hb, heq⟩ := map_eq_some_iff.mp h
      cases heq
      have hpre : (tail.take 2).takeWhile isOctal <+: tail :=
        ( takeWhile_prefix isOctal).trans ( take_prefix 2 tail)
      refine ⟨c :: (tail.take 2).takeWhile isOctal, ?_, cons_ne_nil _ _, ?_⟩
      · rw [cons_append]
        congr 1
        exact (prefix_iff_eq_append.mp hpre).symm
      · intro hmem
        rcases mem_cons.mp hmem with hn | hn
        · rw [← hn] at hc
          exact absurd hc (by decide)
        · exact absurd (mem_takeWhile_imp hn) (by decide)
    · obtain ⟨b, hb, heq⟩ := map_eq_some_iff.mp h
      cases heq
      refine ⟨[c], rfl, cons_ne_nil _ _, ?_⟩
      intro hmem
      rw [← mem_singleton.mp hmem] at hb
      cases hb

theorem weights_of_readContents {fuel : Nat} {cs out : List Char}
    (h : readContents fuel cs = some out) :
    '\n' ∉ cs ∧ 2 * out.length + 1 ≤ weights cs := by
  induction fuel generalizing cs out with
  | zero => cases h
  | succ fuel ih =>
    cases cs with
    | nil => cases h
    | cons c cs =>
      rw [readContents] at h
      by_cases hq : c = '"'
      · subst hq
        rw [if_pos rfl] at h
        by_cases hcs : cs = []
        · subst hcs
          cases h
          exact ⟨by decide, by decide⟩
        · rw [if_neg hcs] at h
          cases h
      rw [if_neg hq] at h
      by_cases hn : c = '\n'
      · rw [if_pos hn] at h
        cases h
      rw [if_neg hn] at h
      by_cases hb : c = '\\'
      · rw [if_pos hb] at h
        obtain ⟨⟨d, rest⟩, hesc, h⟩ := bind_eq_some_iff.mp h
        obtain ⟨more, hmore, h⟩ := bind_eq_some_iff.mp h
        cases h
        obtain ⟨taken, rfl, hne, hfree⟩ := exists_of_readEscape hesc
        obtain ⟨hrest, hlen⟩ := ih hmore
        refine ⟨?_, ?_⟩
        · intro hmem
          rcases mem_cons.mp hmem with hc | hc
          · exact hn hc.symm
          · rcases mem_append.mp hc with hc | hc
            · exact hfree hc
            · exact hrest hc
        · obtain ⟨t, taken, rfl⟩ := exists_cons_of_ne_nil hne
          have ht := weight_pos t
          have hc := weight_pos c
          simp only [weights_cons, weights_append, length_cons]
          omega
      · rw [if_neg hb] at h
        obtain ⟨more, hmore, h⟩ := bind_eq_some_iff.mp h
        cases h
        obtain ⟨hrest, hlen⟩ := ih hmore
        refine ⟨?_, ?_⟩
        · intro hmem
          rcases mem_cons.mp hmem with hc | hc
          · exact hn hc.symm
          · exact hrest hc
        · have hc : weight c = 2 := if_neg (not_or.mpr ⟨hb, hq⟩)
          simp only [weights_cons, length_cons, hc]
          omega

/-! ### Escaping backslashes and quotes -/

def escape (c : Char) : List Char := if c = '\\' ∨ c = '"' then ['\\', c] else [c]

/-- `s` between quotes, with every backslash and quote in it escaped. -/
def quote (s : List Char) : List Char := '"' :: (s.flatMap escape ++ ['"'])

theorem weights_escape (c : Char) : weights (escape c) = 2 := by
  unfold escape
  by_cases h : c = '\\' ∨ c = '"'
  · rw [if_pos h]
    have hc : weight c = 1 := if_pos h
    simp only [weights_cons, hc, weights_nil]
    rfl
  · rw [if_neg h]
    have hc : weight c = 2 := if_neg h
    simp only [weights_cons, hc, weights_nil]

theorem weights_quote (s : List Char) : weights (quote s) = 2 * s.length + 2 := by
  have hs : weights (s.flatMap escape) = 2 * s.length := by
    induction s with
    | nil => rfl
    | cons c s ih =>
      rw [flatMap_cons, weights_append, weights_escape, ih, length_cons]
      omega
  have hq : weight '"' = 1 := rfl
  unfold quote
  simp only [weights_cons, weights_append, weights_nil, hs, hq]
  omega

theorem mem_quote {c : Char} (hq : c ≠ '"') (hb : c ≠ '\\') {s : List Char} :
    c ∈ quote s ↔ c ∈ s := by
  unfold quote
  simp only [mem_cons, mem_append, mem_flatMap, hq, not_mem_nil, or_false,
    false_or]
  constructor
  · rintro ⟨d, hd, hc⟩
    unfold escape at hc
    split at hc
    · rcases mem_cons.mp hc with hc | hc
      · exact absurd hc hb
      · exact mem_singleton.mp hc ▸ hd
    · exact mem_singleton.mp hc ▸ hd
  · intro hc
    refine ⟨c, hc, ?_⟩
    rw [escape, if_neg (not_or.mpr ⟨hb, hq⟩)]
    exact mem_singleton_self c

theorem readContents_quote {fuel : Nat} {s : List Char} (hn : '\n' ∉ s)
    (hfuel : (s.flatMap escape).length < fuel) :
    readContents fuel (s.flatMap escape ++ ['"']) = some s := by
  induction s generalizing fuel with
  | nil =>
    obtain ⟨fuel, rfl⟩ := Nat.exists_eq_add_of_lt hfuel
    rfl
  | cons c s ih =>
    rw [flatMap_cons, length_append] at hfuel
    rw [flatMap_cons, List.append_assoc]
    rw [mem_cons, not_or] at hn
    by_cases h : c = '\\' ∨ c = '"'
    · rw [escape, if_pos h] at hfuel ⊢
      obtain ⟨fuel, rfl⟩ : ∃ k, fuel = k + 1 := ⟨fuel - 1, by omega⟩
      have hesc : readEscape (c :: (s.flatMap escape ++ ['"'])) =
          some (c, s.flatMap escape ++ ['"']) := by
        rcases h with rfl | rfl <;> rfl
      have hrest : readContents fuel (s.flatMap escape ++ ['"']) = some s :=
        ih hn.2 (by simp only [length_cons] at hfuel; omega)
      show (do
        let (d, rest) ← readEscape (c :: (s.flatMap escape ++ ['"']))
        return d :: (← readContents fuel rest)) = some (c :: s)
      rw [hesc]
      show (do return c :: (← readContents fuel (s.flatMap escape ++ ['"']))) = some (c :: s)
      rw [hrest]
      rfl
    · rw [escape, if_neg h] at hfuel ⊢
      obtain ⟨fuel, rfl⟩ : ∃ k, fuel = k + 1 := ⟨fuel - 1, by omega⟩
      have hrest : readContents fuel (s.flatMap escape ++ ['"']) = some s :=
        ih hn.2 (by simp only [length_cons, length_nil] at hfuel; omega)
      obtain ⟨hb, hq⟩ := not_or.mp h
      show readContents (fuel + 1) (c :: (s.flatMap escape ++ ['"'])) = some (c :: s)
      rw [readContents, if_neg hq, if_neg (fun hc => hn.1 hc.symm), if_neg hb, hrest]
      rfl

/-- **A quoted text denotes itself exactly when it is on one line.** -/
theorem denotes_quote_iff {s : List Char} :
    denotes (quote s) = some s ↔ '\n' ∉ s ∧ '\r' ∉ s := by
  have hbreak : '\n' ∈ lineBreaks (quote s) ↔ '\n' ∈ s ∨ '\r' ∈ s := by
    rw [mem_lineBreaks, mem_quote (by decide) (by decide), mem_quote (by decide) (by decide)]
  constructor
  · intro h
    by_contra hs
    have hmem : '\n' ∈ lineBreaks (quote s) := by
      rw [hbreak]
      by_contra hno
      exact hs (not_or.mp hno)
    unfold denotes at h
    split at h
    · next cs heq =>
      obtain ⟨hfree, hlen⟩ := weights_of_readContents h
      have hsplice : '\n' ∉ splice (lineBreaks (quote s)) := by
        rw [heq]
        intro hc
        exact hfree ((mem_cons.mp hc).resolve_left (by decide))
      have hlt := weights_splice_lt hmem hsplice
      have hle := weights_lineBreaks (quote s)
      have hq : weight '"' = 1 := rfl
      rw [weights_quote] at hle
      rw [heq, weights_cons, hq] at hlt
      omega
    · cases h
  · rintro ⟨hn, hr⟩
    have hr' : '\r' ∉ quote s := by rwa [mem_quote (by decide) (by decide)]
    have hn' : '\n' ∉ quote s := by rwa [mem_quote (by decide) (by decide)]
    unfold denotes
    rw [lineBreaks_of_notMem hr', splice_of_notMem hn']
    refine readContents_quote hn ?_
    rw [length_append]
    exact Nat.lt_succ_self _

/-! ### Texts between quotes, not escaped -/

theorem weights_le (cs : List Char) : weights cs ≤ 2 * cs.length := by
  induction cs with
  | nil => exact Nat.le_refl 0
  | cons c cs ih =>
    have hc := weight_le c
    rw [weights_cons, length_cons]
    omega

theorem not_escaped_of_weights {cs : List Char} (h : 2 * cs.length ≤ weights cs) :
    ∀ c ∈ cs, c ≠ '\\' ∧ c ≠ '"' := by
  induction cs with
  | nil => exact fun _ hc => absurd hc not_mem_nil
  | cons c cs ih =>
    have hle := weight_le c
    have hcs := weights_le cs
    rw [weights_cons, length_cons] at h
    refine forall_mem_cons.mpr ⟨not_or.mp fun hor => ?_, ih (by omega)⟩
    have hc : weight c = 1 := if_pos hor
    omega

theorem flatMap_escape {s : List Char} (h : ∀ c ∈ s, c ≠ '\\' ∧ c ≠ '"') : s.flatMap escape = s := by
  have hs : ∀ c ∈ s, escape c = [c] := fun c hc => if_neg (not_or.mpr (h c hc))
  rw [flatMap_congr hs, flatMap_singleton']

/-- **A text between quotes that is not escaped denotes itself exactly when it is on one line and has
nothing to escape.** -/
theorem denotes_raw_iff {s : List Char} :
    denotes ('"' :: (s ++ ['"'])) = some s ↔
      ('\n' ∉ s ∧ '\r' ∉ s) ∧ ∀ c ∈ s, c ≠ '\\' ∧ c ≠ '"' := by
  have hquote (h : ∀ c ∈ s, c ≠ '\\' ∧ c ≠ '"') : quote s = '"' :: (s ++ ['"']) := by
    rw [quote, flatMap_escape h]
  refine ⟨fun h => ?_, fun h => hquote h.2 ▸ denotes_quote_iff.mpr h.1⟩
  suffices hs : ∀ c ∈ s, c ≠ '\\' ∧ c ≠ '"' by
    exact ⟨denotes_quote_iff.mp (hquote hs ▸ h), hs⟩
  -- no more is denoted than is weighed, and an escape weighs less
  unfold denotes at h
  split at h
  · next cs heq =>
    have hlen := (weights_of_readContents h).2
    have hle := Nat.le_trans (weights_splice _) (weights_lineBreaks ('"' :: (s ++ ['"'])))
    have hq : weight '"' = 1 := rfl
    rw [heq] at hle
    simp only [weights_cons, weights_append, weights_nil, hq] at hle
    exact not_escaped_of_weights (by omega)
  · cases h

end CppString
