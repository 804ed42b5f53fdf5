import Mathlib.Analysis.SpecialFunctions.Pow.NthRootLemmas
import Mathlib.Data.Nat.Nth
import Mathlib.Data.Nat.Prime.Defs
import Mathlib.Tactic.Ring

/-!
# SHA-256

The function as FIPS 180-4 defines it, on strings of bits.  The sections of the
standard are those of this file: the functions (4.1.2), the constants (4.2.2 and
5.3.3), padding (5.1.1), parsing (5.2.1) and the computation (6.2.2).

The constants are not a table here.  The standard takes them from the primes, as
the first 32 bits behind the point of cube roots and square roots, and so are
`K` and `initial` (`K_eq` and `initial_eq` give what an implementation has to
look up).

An implementation works on bytes.  `bits_add` splits a number into bytes and
`value_bits` puts it together again; `blocks_append` takes blocks off one after
another.
-/

namespace Sha256

/-- The last `w` bits of a number, the most significant first. -/
def bits (w n : Nat) : List Bool := (List.range w).map fun i => n.testBit (w - 1 - i)

/-- The number some bits stand for, the most significant first. -/
def value (bs : List Bool) : Nat := bs.foldl (fun n b => 2 * n + b.toNat) 0

abbrev Word := BitVec 32

/-! ### Functions -/

def Ch (x y z : Word) : Word := (x &&& y) ^^^ (~~~x &&& z)

def Maj (x y z : Word) : Word := (x &&& y) ^^^ (x &&& z) ^^^ (y &&& z)

def Sigma0 (x : Word) : Word := x.rotateRight 2 ^^^ x.rotateRight 13 ^^^ x.rotateRight 22

def Sigma1 (x : Word) : Word := x.rotateRight 6 ^^^ x.rotateRight 11 ^^^ x.rotateRight 25

def sigma0 (x : Word) : Word := x.rotateRight 7 ^^^ x.rotateRight 18 ^^^ x >>> 3

def sigma1 (x : Word) : Word := x.rotateRight 17 ^^^ x.rotateRight 19 ^^^ x >>> 10

/-! ### Constants -/

/-- The first 32 bits of the fractional part of the `n`-th root of a number. -/
def rootBits (n x : Nat) : Word := BitVec.ofNat 32 (Nat.nthRoot n (x * 2 ^ (32 * n)))

noncomputable def K (t : Nat) : Word := rootBits 3 (Nat.nth Nat.Prime t)

noncomputable def initial : Vector Word 8 :=
  Vector.ofFn fun i => rootBits 2 (Nat.nth Nat.Prime i.val)

/-! ### Padding and parsing -/

/-- How many zero bits follow the one. -/
def zeros (l : Nat) : Nat := (959 - l % 512) % 512

def pad (M : List Bool) : List Bool :=
  M ++ (true :: List.replicate (zeros M.length) false ++ bits 64 M.length)

/-- The parts of length `n`. -/
def blocks {α : Type} (n : Nat) (l : List α) : List (List α) :=
  (List.range (l.length / n)).map fun i => (l.drop (n * i)).take n

/-! ### The computation -/

def schedule (block : List Bool) (t : Nat) : Word :=
  if t < 16 then BitVec.ofNat 32 (value ((block.drop (32 * t)).take 32))
  else
    sigma1 (schedule block (t - 2)) + schedule block (t - 7) + sigma0 (schedule block (t - 15)) +
      schedule block (t - 16)

/-- The working variables. -/
structure Working where
  a : Word
  b : Word
  c : Word
  d : Word
  e : Word
  f : Word
  g : Word
  h : Word

/-- A round with its constant and its word of the schedule. -/
def round (k w : Word) (v : Working) : Working :=
  let T1 := v.h + Sigma1 v.e + Ch v.e v.f v.g + k + w
  let T2 := Sigma0 v.a + Maj v.a v.b v.c
  { a := T1 + T2, b := v.a, c := v.b, d := v.c, e := v.d + T1, f := v.e, g := v.f, h := v.g }

noncomputable def compress (H : Vector Word 8) (block : List Bool) : Vector Word 8 :=
  let v := (List.range 64).foldl (fun v t => round (K t) (schedule block t) v)
    ⟨H.get 0, H.get 1, H.get 2, H.get 3, H.get 4, H.get 5, H.get 6, H.get 7⟩
  #v[v.a + H.get 0, v.b + H.get 1, v.c + H.get 2, v.d + H.get 3, v.e + H.get 4, v.f + H.get 5,
    v.g + H.get 6, v.h + H.get 7]

/-- The message digest. -/
noncomputable def digest (M : List Bool) : List Bool :=
  ((blocks 512 (pad M)).foldl compress initial).toList.flatMap fun H => bits 32 H.toNat

/-! ### Bits and numbers -/

@[simp] theorem length_bits (w n : Nat) : (bits w n).length = w := by
  rw [bits, List.length_map, List.length_range]

theorem bits_add (w k n : Nat) : bits (w + k) n = bits w (n >>> k) ++ bits k n := by
  unfold bits
  rw [List.range_add, List.map_append, List.map_map]
  congr 1
  · refine List.map_congr_left fun i hi => ?_
    have hlt : i < w := List.mem_range.mp hi
    rw [Nat.testBit_shiftRight]
    congr 1
    omega
  · refine List.map_congr_left fun i hi => ?_
    have hlt : i < k := List.mem_range.mp hi
    change n.testBit (w + k - 1 - (w + i)) = _
    congr 1
    omega

theorem bits_mod (w n : Nat) : bits w (n % 2 ^ w) = bits w n := by
  refine List.map_congr_left fun i hi => ?_
  have hlt : i < w := List.mem_range.mp hi
  rw [Nat.testBit_mod_two_pow, decide_eq_true (by omega), Bool.true_and]

theorem foldl_value (bs : List Bool) (n : Nat) :
    bs.foldl (fun n b => 2 * n + b.toNat) n = n * 2 ^ bs.length + value bs := by
  induction bs generalizing n with
  | nil => rw [value, List.foldl_nil, List.foldl_nil, List.length_nil, Nat.pow_zero, Nat.mul_one,
      Nat.add_zero]
  | cons b bs ih =>
    rw [value, List.foldl_cons, List.foldl_cons, ih, ih, List.length_cons, Nat.pow_succ]
    ring

theorem value_append (as bs : List Bool) :
    value (as ++ bs) = value as * 2 ^ bs.length + value bs := by
  rw [value, List.foldl_append, foldl_value]
  rfl

theorem value_bits (w n : Nat) : value (bits w n) = n % 2 ^ w := by
  induction w with
  | zero =>
    rw [Nat.pow_zero, Nat.mod_one]
    rfl
  | succ w ih =>
    have hfirst : value (bits 1 (n >>> w)) = n / 2 ^ w % 2 := by
      have hbit : bits 1 (n >>> w) = [n.testBit w] := by simp [bits]
      rw [hbit, Nat.testBit_eq_decide_div_mod_eq]
      rcases Nat.mod_two_eq_zero_or_one (n / 2 ^ w) with h | h
      · rw [h]
        rfl
      · rw [h]
        rfl
    rw [Nat.add_comm, bits_add, value_append, ih, length_bits, hfirst, Nat.add_comm 1 w,
      Nat.pow_succ, Nat.mod_mul, Nat.mul_comm, Nat.add_comm]

/-! ### Padding -/

theorem blocks_nil {α : Type} (n : Nat) : blocks n ([] : List α) = [] := by
  rw [blocks, List.length_nil, Nat.zero_div]
  rfl

theorem blocks_append {α : Type} {n : Nat} (hn : 0 < n) {a : List α} (ha : a.length = n)
    (l : List α) : blocks n (a ++ l) = a :: blocks n l := by
  have hlength : (a ++ l).length / n = l.length / n + 1 := by
    rw [List.length_append, ha, Nat.add_comm, Nat.add_div_right _ hn]
  rw [blocks, hlength, List.range_succ_eq_map, List.map_cons, List.map_map]
  congr 1
  · rw [Nat.mul_zero, List.drop_zero, List.take_append_of_le_length (Nat.le_of_eq ha.symm),
      List.take_of_length_le (Nat.le_of_eq ha)]
  · refine List.map_congr_left fun i _ => ?_
    change ((a ++ l).drop (n * (i + 1))).take n = _
    rw [Nat.mul_succ, Nat.add_comm, ← List.drop_drop, ← ha, List.drop_left]

theorem length_of_mem_blocks {α : Type} {n : Nat} {l b : List α} (h : b ∈ blocks n l) :
    b.length = n := by
  obtain ⟨i, hi, rfl⟩ := List.mem_map.mp h
  have hlt : i + 1 ≤ l.length / n := List.mem_range.mp hi
  have hle : n * (i + 1) ≤ l.length :=
    (Nat.mul_le_mul_left n hlt).trans (Nat.mul_div_le l.length n)
  rw [Nat.mul_succ] at hle
  rw [List.length_take, List.length_drop]
  omega

/-- Blocks of what is written with `m` symbols for one. -/
theorem blocks_flatMap {α β : Type} {f : α → List β} {m n : Nat} (hm : 0 < m) (hn : 0 < n)
    (hf : ∀ a, (f a).length = m) {l : List α} {q : Nat} (hl : l.length = n * q) :
    blocks (m * n) (l.flatMap f) = (blocks n l).map (·.flatMap f) := by
  have hlength (l : List α) : (l.flatMap f).length = m * l.length := by
    induction l with
    | nil => rfl
    | cons a l ih =>
      rw [List.flatMap_cons, List.length_append, ih, hf, List.length_cons, Nat.mul_succ,
        Nat.add_comm]
  induction q generalizing l with
  | zero =>
    rw [Nat.mul_zero] at hl
    rw [List.length_eq_zero_iff.mp hl, blocks_nil, List.flatMap_nil, blocks_nil]
    rfl
  | succ q ih =>
    have htake : (l.take n).length = n := by
      rw [List.length_take, hl, Nat.mul_succ]
      omega
    have hdrop : (l.drop n).length = n * q := by
      rw [List.length_drop, hl, Nat.mul_succ, Nat.add_sub_cancel]
    rw [← List.take_append_drop n l, List.flatMap_append,
      blocks_append (Nat.mul_pos hm hn) (by rw [hlength, htake]), blocks_append hn htake,
      List.map_cons, ih hdrop]

/-! ### The constants as numbers -/

/-- The first 64 primes. -/
def primes : List Nat :=
  [2, 3, 5, 7, 11, 13, 17, 19, 23, 29, 31, 37, 41, 43, 47, 53, 59, 61, 67, 71, 73, 79, 83, 89, 97,
    101, 103, 107, 109, 113, 127, 131, 137, 139, 149, 151, 157, 163, 167, 173, 179, 181, 191, 193,
    197, 199, 211, 223, 227, 229, 233, 239, 241, 251, 257, 263, 269, 271, 277, 281, 283, 293, 307,
    311]

/-- No number up to 17 divides it. -/
def Undivided (p : Nat) : Prop := 2 ≤ p ∧ ∀ m < 18, 2 ≤ m → m < p → ¬ m ∣ p

instance (p : Nat) : Decidable (Undivided p) :=
  inferInstanceAs (Decidable (2 ≤ p ∧ ∀ m < 18, 2 ≤ m → m < p → ¬ m ∣ p))

theorem prime_iff_undivided {p : Nat} (hp : p < 18 * 18) : p.Prime ↔ Undivided p := by
  constructor
  · intro hprime
    refine ⟨hprime.two_le, fun m _ hm hlt hdvd => ?_⟩
    rcases hprime.eq_one_or_self_of_dvd m hdvd with rfl | rfl
    · exact absurd hm (by decide)
    · exact Nat.lt_irrefl _ hlt
  · rintro ⟨htwo, hno⟩
    refine Nat.prime_def_le_sqrt.mpr ⟨htwo, fun m hm hle => hno m ?_ hm ?_⟩
    · exact Nat.lt_of_le_of_lt hle (Nat.sqrt_lt.mpr hp)
    · exact Nat.lt_of_le_of_lt hle (Nat.sqrt_lt_self htwo)

theorem nth_prime {t : Nat} (ht : t < 64) : Nat.nth Nat.Prime t = primes.getD t 0 := by
  have hprimes : ∀ t < 64, primes.getD t 0 < 18 * 18 ∧ Undivided (primes.getD t 0) ∧
      Nat.count Undivided (primes.getD t 0) = t := by
    decide +kernel
  obtain ⟨hlt, hp, hcount⟩ := hprimes t ht
  have hcount' : Nat.count Nat.Prime (primes.getD t 0) = t := by
    refine Eq.trans (Nat.le_antisymm ?_ ?_) hcount
    · exact Nat.count_mono_left fun k hk => (prime_iff_undivided (Nat.lt_trans hk hlt)).mp
    · exact Nat.count_mono_left fun k hk => (prime_iff_undivided (Nat.lt_trans hk hlt)).mpr
  rw [← hcount', Nat.nth_count ((prime_iff_undivided hlt).mpr hp), hcount']

theorem K_eq {t : Nat} (ht : t < 64) : K t = rootBits 3 (primes.getD t 0) := by
  rw [K, nth_prime ht]

theorem initial_eq : initial = Vector.ofFn fun i : Fin 8 => rootBits 2 (primes.getD i.val 0) := by
  refine congrArg Vector.ofFn (funext fun i => ?_)
  rw [nth_prime (Nat.lt_of_lt_of_le i.isLt (by decide))]

end Sha256
