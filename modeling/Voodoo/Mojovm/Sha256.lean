import Voodoo.Lib.Sha256

/-!
# SHA-256 in the runtime

The ordinal of a method on the wire is taken from a hash, which `Sha256` of
`mojovm.cc` computes.  Arrays are lists and vectors here; `buffer` is what the
array `block` of `Sha256` holds before it is written.

`sha256_eq`: it is the function of the standard, for every message whose length
in bits has 64 bits.  The compression is compared word by word; the padding is
written in place over one block or two, and in either case the blocks that are
compressed are those of the padded message (`finish_eq`).
-/

namespace Voodoo.Mojovm

/-! ### A block -/

def rotr (x n : UInt32) : UInt32 := x >>> n ||| x <<< (32 - n)

def k : List UInt32 :=
  [0x428a2f98, 0x71374491, 0xb5c0fbcf, 0xe9b5dba5, 0x3956c25b, 0x59f111f1,
    0x923f82a4, 0xab1c5ed5, 0xd807aa98, 0x12835b01, 0x243185be, 0x550c7dc3,
    0x72be5d74, 0x80deb1fe, 0x9bdc06a7, 0xc19bf174, 0xe49b69c1, 0xefbe4786,
    0x0fc19dc6, 0x240ca1cc, 0x2de92c6f, 0x4a7484aa, 0x5cb0a9dc, 0x76f988da,
    0x983e5152, 0xa831c66d, 0xb00327c8, 0xbf597fc7, 0xc6e00bf3, 0xd5a79147,
    0x06ca6351, 0x14292967, 0x27b70a85, 0x2e1b2138, 0x4d2c6dfc, 0x53380d13,
    0x650a7354, 0x766a0abb, 0x81c2c92e, 0x92722c85, 0xa2bfe8a1, 0xa81a664b,
    0xc24b8b70, 0xc76c51a3, 0xd192e819, 0xd6990624, 0xf40e3585, 0x106aa070,
    0x19a4c116, 0x1e376c08, 0x2748774c, 0x34b0bcb5, 0x391c0cb3, 0x4ed8aa4a,
    0x5b9cca4f, 0x682e6ff3, 0x748f82ee, 0x78a5636f, 0x84c87814, 0x8cc70208,
    0x90befffa, 0xa4506ceb, 0xbef9a3f7, 0xc67178f2]

/-- The word of four bytes. -/
def loadWord (block : List UInt8) (i : Nat) : UInt32 :=
  (block.getD (i * 4) 0).toUInt32 <<< 24 ||| (block.getD (i * 4 + 1) 0).toUInt32 <<< 16 |||
    (block.getD (i * 4 + 2) 0).toUInt32 <<< 8 ||| (block.getD (i * 4 + 3) 0).toUInt32

/-- A turn of the second loop over `w`, of which the words below `i` are there. -/
def extend (w : List UInt32) (i : Nat) : List UInt32 :=
  let w15 := w.getD (i - 15) 0
  let w2 := w.getD (i - 2) 0
  let s0 := rotr w15 7 ^^^ rotr w15 18 ^^^ w15 >>> 3
  let s1 := rotr w2 17 ^^^ rotr w2 19 ^^^ w2 >>> 10
  w ++ [w.getD (i - 16) 0 + s0 + w.getD (i - 7) 0 + s1]

def schedule (block : List UInt8) : List UInt32 :=
  (List.range' 16 48).foldl extend ((List.range 16).map (loadWord block))

/-- The local variables of the rounds. -/
structure Working where
  a : UInt32
  b : UInt32
  c : UInt32
  d : UInt32
  e : UInt32
  f : UInt32
  g : UInt32
  h : UInt32

def round (w : List UInt32) (v : Working) (i : Nat) : Working :=
  let S1 := rotr v.e 6 ^^^ rotr v.e 11 ^^^ rotr v.e 25
  let ch := (v.e &&& v.f) ^^^ (~~~v.e &&& v.g)
  let t1 := v.h + S1 + ch + k.getD i 0 + w.getD i 0
  let S0 := rotr v.a 2 ^^^ rotr v.a 13 ^^^ rotr v.a 22
  let maj := (v.a &&& v.b) ^^^ (v.a &&& v.c) ^^^ (v.b &&& v.c)
  let t2 := S0 + maj
  { a := t1 + t2, b := v.a, c := v.b, d := v.c, e := v.d + t1, f := v.e, g := v.f, h := v.g }

def sha256Block (state : Vector UInt32 8) (block : List UInt8) : Vector UInt32 8 :=
  let v := (List.range 64).foldl (round (schedule block))
    ⟨state[0], state[1], state[2], state[3], state[4], state[5], state[6], state[7]⟩
  #v[state[0] + v.a, state[1] + v.b, state[2] + v.c, state[3] + v.d, state[4] + v.e,
    state[5] + v.f, state[6] + v.g, state[7] + v.h]

/-! ### The message -/

def initial : Vector UInt32 8 :=
  #v[0x6a09e667, 0xbb67ae85, 0x3c6ef372, 0xa54ff53a, 0x510e527f, 0x9b05688c, 0x1f83d9ab,
    0x5be0cd19]

/-- The loop over the whole blocks of the message: the offset behind them and the state. -/
def absorb (data : List UInt8) (off : Nat) (state : Vector UInt32 8) : Nat × Vector UInt32 8 :=
  if 64 ≤ data.length - off then
    absorb data (off + 64) (sha256Block state ((data.drop off).take 64))
  else (off, state)
  termination_by data.length - off

/-- `memcpy` and `memset` to a place in a block. -/
def write (block : List UInt8) (place : Nat) (bytes : List UInt8) : List UInt8 :=
  block.take place ++ bytes ++ block.drop (place + bytes.length)

/-- The loop that writes the length in bits. -/
def writeLength (block : List UInt8) (bits : UInt64) : List UInt8 :=
  (List.range 8).foldl (fun block i => block.set (63 - i) (bits >>> (8 * i).toUInt64).toUInt8) block

/-- What is done with the bytes that are left. -/
def finish (buffer : Vector UInt8 64) (len : Nat) (rest : List UInt8) (state : Vector UInt32 8) :
    Vector UInt32 8 :=
  let rem := rest.length
  let block := (write buffer.toList 0 rest).set rem 0x80
  let bits := UInt64.ofNat len * 8
  if rem + 1 ≤ 56 then
    let block := write block (rem + 1) (List.replicate (56 - (rem + 1)) 0)
    sha256Block state (writeLength block bits)
  else
    let block := write block (rem + 1) (List.replicate (64 - (rem + 1)) 0)
    let state := sha256Block state block
    let block := write block 0 (List.replicate 56 0)
    sha256Block state (writeLength block bits)

/-- The four bytes of a word. -/
def storeWord (x : UInt32) : List UInt8 :=
  [(x >>> 24).toUInt8, (x >>> 16).toUInt8, (x >>> 8).toUInt8, x.toUInt8]

def sha256 (buffer : Vector UInt8 64) (data : List UInt8) : List UInt8 :=
  let (off, state) := absorb data 0 initial
  (finish buffer data.length (data.drop off) state).toList.flatMap storeWord

/-! ### Words -/

/-- The bits of a byte string. -/
def toBits (bytes : List UInt8) : List Bool := bytes.flatMap fun b => Sha256.bits 8 b.toNat

theorem length_toBits (bytes : List UInt8) : (toBits bytes).length = 8 * bytes.length := by
  induction bytes with
  | nil => rfl
  | cons b bytes ih =>
    rw [toBits, List.flatMap_cons, List.length_append, Sha256.length_bits]
    change 8 + (toBits bytes).length = _
    rw [ih, List.length_cons]
    omega

theorem toBits_append (as bs : List UInt8) : toBits (as ++ bs) = toBits as ++ toBits bs :=
  List.flatMap_append

theorem toBitVec_sigma0 (x : UInt32) :
    (rotr x 7 ^^^ rotr x 18 ^^^ x >>> 3).toBitVec = Sha256.sigma0 x.toBitVec := rfl

theorem toBitVec_sigma1 (x : UInt32) :
    (rotr x 17 ^^^ rotr x 19 ^^^ x >>> 10).toBitVec = Sha256.sigma1 x.toBitVec := rfl

theorem toBitVec_k {t : Nat} (ht : t < 64) : (k.getD t 0).toBitVec = Sha256.K t := by
  have htable : ∀ t < 64, (k.getD t 0).toBitVec =
      Sha256.rootBits 3 (Sha256.primes.getD t 0) := by decide +kernel
  rw [htable t ht, Sha256.K_eq ht]

theorem map_initial : initial.map UInt32.toBitVec = Sha256.initial := by
  rw [Sha256.initial_eq]
  decide +kernel

theorem mul_two_pow_or {x y n : Nat} (h : y < 2 ^ n) : x * 2 ^ n ||| y = x * 2 ^ n + y := by
  rw [← Nat.shiftLeft_eq, ← Nat.shiftLeft_add_eq_or_of_lt h]

theorem or_bytes {b0 b1 b2 b3 : Nat} (h1 : b1 < 2 ^ 8) (h2 : b2 < 2 ^ 8) (h3 : b3 < 2 ^ 8) :
    b0 * 2 ^ 24 ||| b1 * 2 ^ 16 ||| b2 * 2 ^ 8 ||| b3 =
      ((b0 * 2 ^ 8 + b1) * 2 ^ 8 + b2) * 2 ^ 8 + b3 := by
  have hsum1 : b0 * 2 ^ 24 + b1 * 2 ^ 16 = (b0 * 2 ^ 8 + b1) * 2 ^ 16 := by ring
  have hsum2 : (b0 * 2 ^ 8 + b1) * 2 ^ 16 + b2 * 2 ^ 8 = ((b0 * 2 ^ 8 + b1) * 2 ^ 8 + b2) * 2 ^ 8 := by
    ring
  rw [mul_two_pow_or (by omega), hsum1, mul_two_pow_or (by omega), hsum2,
    mul_two_pow_or (by omega)]

theorem toNat_byte_shift (b : UInt8) (n : UInt32) (hn : n.toNat ≤ 24) :
    (b.toUInt32 <<< n).toNat = b.toNat * 2 ^ n.toNat := by
  have hb : b.toNat < 2 ^ 8 := b.toNat_lt
  have hlt : b.toNat * 2 ^ n.toNat < 2 ^ 8 * 2 ^ 24 :=
    Nat.mul_lt_mul_of_lt_of_le hb (Nat.pow_le_pow_right (by decide) hn) (by decide)
  rw [UInt32.toNat_shiftLeft, UInt8.toNat_toUInt32, Nat.mod_eq_of_lt (by omega : n.toNat < 32),
    Nat.shiftLeft_eq]
  exact Nat.mod_eq_of_lt hlt

theorem toNat_loadWord (block : List UInt8) (i : Nat) :
    (loadWord block i).toNat =
      (((block.getD (i * 4) 0).toNat * 2 ^ 8 + (block.getD (i * 4 + 1) 0).toNat) * 2 ^ 8 +
        (block.getD (i * 4 + 2) 0).toNat) * 2 ^ 8 + (block.getD (i * 4 + 3) 0).toNat := by
  rw [loadWord, UInt32.toNat_or, UInt32.toNat_or, UInt32.toNat_or,
    toNat_byte_shift _ 24 (by decide), toNat_byte_shift _ 16 (by decide),
    toNat_byte_shift _ 8 (by decide), UInt8.toNat_toUInt32]
  exact or_bytes (UInt8.toNat_lt _) (UInt8.toNat_lt _) (UInt8.toNat_lt _)

theorem take_four {block : List UInt8} {n : Nat} (h : n + 4 ≤ block.length) :
    (block.drop n).take 4 =
      [block.getD n 0, block.getD (n + 1) 0, block.getD (n + 2) 0, block.getD (n + 3) 0] := by
  have hcons (i : Nat) (hi : i < block.length) :
      block.drop i = block.getD i 0 :: block.drop (i + 1) := by
    rw [List.drop_eq_getElem_cons hi, List.getD_eq_getElem _ _ hi]
  rw [hcons n (by omega), hcons (n + 1) (by omega), hcons (n + 2) (by omega),
    hcons (n + 3) (by omega)]
  rfl

theorem drop_toBits (bytes : List UInt8) (n : Nat) :
    (toBits bytes).drop (8 * n) = toBits (bytes.drop n) := by
  induction n generalizing bytes with
  | zero => rfl
  | succ n ih =>
    cases bytes with
    | nil => exact List.drop_nil
    | cons b bytes =>
      rw [List.drop_succ_cons, ← ih, toBits, List.flatMap_cons, Nat.mul_succ, Nat.add_comm,
        ← List.drop_drop, List.drop_left' (Sha256.length_bits 8 _)]
      rfl

theorem take_toBits (bytes : List UInt8) (n : Nat) :
    (toBits bytes).take (8 * n) = toBits (bytes.take n) := by
  induction n generalizing bytes with
  | zero => rfl
  | succ n ih =>
    cases bytes with
    | nil => exact List.take_nil
    | cons b bytes =>
      have hlength : (Sha256.bits 8 b.toNat).length = 8 := Sha256.length_bits 8 _
      rw [List.take_succ_cons, toBits, toBits, List.flatMap_cons, List.flatMap_cons, Nat.mul_succ,
        Nat.add_comm, List.take_append, hlength, Nat.add_sub_cancel_left,
        List.take_of_length_le (by omega)]
      exact congrArg _ (ih bytes)

theorem toBitVec_loadWord {block : List UInt8} (hblock : block.length = 64) {i : Nat}
    (hi : i < 16) :
    (loadWord block i).toBitVec =
      BitVec.ofNat 32 (Sha256.value (((toBits block).drop (32 * i)).take 32)) := by
  have hpiece : ((toBits block).drop (32 * i)).take 32 = toBits ((block.drop (i * 4)).take 4) := by
    have hplace : 32 * i = 8 * (i * 4) := by omega
    rw [hplace, drop_toBits, ← take_toBits]
  apply BitVec.eq_of_toNat_eq
  rw [hpiece, take_four (by omega), UInt32.toNat_toBitVec, toNat_loadWord, BitVec.toNat_ofNat]
  generalize block.getD (i * 4) 0 = b0
  generalize block.getD (i * 4 + 1) 0 = b1
  generalize block.getD (i * 4 + 2) 0 = b2
  generalize block.getD (i * 4 + 3) 0 = b3
  have hvalue : Sha256.value (toBits [b0, b1, b2, b3]) =
      ((b0.toNat * 2 ^ 8 + b1.toNat) * 2 ^ 8 + b2.toNat) * 2 ^ 8 + b3.toNat := by
    have hlast : toBits [b0, b1, b2, b3] = ((Sha256.bits 8 b0.toNat ++ Sha256.bits 8 b1.toNat) ++
        Sha256.bits 8 b2.toNat) ++ Sha256.bits 8 b3.toNat := by
      simp [toBits]
    rw [hlast, Sha256.value_append, Sha256.value_append, Sha256.value_append, Sha256.value_bits,
      Sha256.value_bits, Sha256.value_bits, Sha256.value_bits, Nat.mod_eq_of_lt b0.toNat_lt,
      Nat.mod_eq_of_lt b1.toNat_lt, Nat.mod_eq_of_lt b2.toNat_lt, Nat.mod_eq_of_lt b3.toNat_lt,
      Sha256.length_bits, Sha256.length_bits, Sha256.length_bits]
  rw [hvalue, Nat.mod_eq_of_lt]
  have h0 := b0.toNat_lt
  have h1 := b1.toNat_lt
  have h2 := b2.toNat_lt
  have h3 := b3.toNat_lt
  omega

/-! ### The schedule and the rounds -/

theorem schedule_filled {block : List UInt8} (hblock : block.length = 64) (n : Nat) :
    ((List.range' 16 n).foldl extend ((List.range 16).map (loadWord block))).length = 16 + n ∧
      ∀ t < 16 + n,
        (((List.range' 16 n).foldl extend ((List.range 16).map (loadWord block))).getD t
          0).toBitVec = Sha256.schedule (toBits block) t := by
  induction n with
  | zero =>
    refine ⟨rfl, fun t ht => ?_⟩
    rw [Sha256.schedule, if_pos ht, ← toBitVec_loadWord hblock ht, List.range'_zero,
      List.foldl_nil, List.getD_eq_getElem?_getD, List.getElem?_map,
      List.getElem?_range (show t < 16 from ht)]
    rfl
  | succ n ih =>
    rw [List.range'_concat, List.foldl_append, Nat.one_mul]
    generalize (List.range' 16 n).foldl extend ((List.range 16).map (loadWord block)) = w at ih ⊢
    obtain ⟨hlength, hwords⟩ := ih
    have hstep : [16 + n].foldl extend w = extend w (16 + n) := rfl
    rw [hstep, extend]
    refine ⟨by rw [List.length_append, hlength]; rfl, fun t ht => ?_⟩
    rw [List.getD_eq_getElem?_getD]
    by_cases hlast : t = 16 + n
    · rw [List.getElem?_append_right (by omega), hlength, hlast, Nat.sub_self]
      change (_ + _ + _ + _ : UInt32).toBitVec = _
      rw [Sha256.schedule, if_neg (by omega), UInt32.toBitVec_add, UInt32.toBitVec_add,
        UInt32.toBitVec_add, toBitVec_sigma0, toBitVec_sigma1, hwords _ (by omega),
        hwords _ (by omega), hwords _ (by omega), hwords _ (by omega)]
      ac_rfl
    · rw [List.getElem?_append_left (by omega), ← List.getD_eq_getElem?_getD]
      exact hwords t (by omega)

theorem toBitVec_schedule {block : List UInt8} (hblock : block.length = 64) {t : Nat}
    (ht : t < 64) :
    ((schedule block).getD t 0).toBitVec = Sha256.schedule (toBits block) t :=
  (schedule_filled hblock 48).2 t ht

/-- The variables as the standard has them. -/
def Working.toWords (v : Working) : Sha256.Working :=
  ⟨v.a.toBitVec, v.b.toBitVec, v.c.toBitVec, v.d.toBitVec, v.e.toBitVec, v.f.toBitVec,
    v.g.toBitVec, v.h.toBitVec⟩

theorem toWords_round (w : List UInt32) (v : Working) {t : Nat} (ht : t < 64) :
    (round w v t).toWords = Sha256.round (Sha256.K t) (w.getD t 0).toBitVec v.toWords := by
  rw [← toBitVec_k ht]
  rfl

theorem toWords_foldl_round {block : List UInt8} (hblock : block.length = 64) {ts : List Nat}
    (hts : ∀ t ∈ ts, t < 64) (v : Working) :
    (ts.foldl (round (schedule block)) v).toWords =
      ts.foldl (fun v t => Sha256.round (Sha256.K t) (Sha256.schedule (toBits block) t) v)
        v.toWords := by
  induction ts generalizing v with
  | nil => rfl
  | cons t ts ih =>
    have ht : t < 64 := hts t List.mem_cons_self
    rw [List.foldl_cons, List.foldl_cons, ih fun t ht => hts t (List.mem_cons_of_mem _ ht),
      toWords_round _ _ ht, toBitVec_schedule hblock ht]

theorem compress_eq {H : Vector Sha256.Word 8} {block : List Bool} {v : Sha256.Working}
    (hv : (List.range 64).foldl (fun v t => Sha256.round (Sha256.K t) (Sha256.schedule block t) v)
      ⟨H[0], H[1], H[2], H[3], H[4], H[5], H[6], H[7]⟩ = v) :
    Sha256.compress H block =
      #v[v.a + H[0], v.b + H[1], v.c + H[2], v.d + H[3], v.e + H[4], v.f + H[5], v.g + H[6],
        v.h + H[7]] := by
  rw [← hv, Sha256.compress]
  rfl

theorem sha256Block_eq {state : Vector UInt32 8} {block : List UInt8} {v : Working}
    (hv : (List.range 64).foldl (round (schedule block))
      ⟨state[0], state[1], state[2], state[3], state[4], state[5], state[6], state[7]⟩ = v) :
    sha256Block state block =
      #v[state[0] + v.a, state[1] + v.b, state[2] + v.c, state[3] + v.d, state[4] + v.e,
        state[5] + v.f, state[6] + v.g, state[7] + v.h] := by
  rw [← hv, sha256Block]

/-- **The compression function.** -/
theorem map_sha256Block {block : List UInt8} (hblock : block.length = 64)
    (state : Vector UInt32 8) :
    (sha256Block state block).map UInt32.toBitVec =
      Sha256.compress (state.map UInt32.toBitVec) (toBits block) := by
  have hts : ∀ t ∈ List.range 64, t < 64 := fun t ht => List.mem_range.mp ht
  have hrounds := toWords_foldl_round hblock hts
    ⟨state[0], state[1], state[2], state[3], state[4], state[5], state[6], state[7]⟩
  have hstart : Working.toWords
      ⟨state[0], state[1], state[2], state[3], state[4], state[5], state[6], state[7]⟩ =
      let H := state.map UInt32.toBitVec
      ⟨H[0], H[1], H[2], H[3], H[4], H[5], H[6], H[7]⟩ := by
    simp only [Working.toWords, Vector.getElem_map]
  obtain ⟨v, hv⟩ : ∃ v, (List.range 64).foldl (round (schedule block))
      ⟨state[0], state[1], state[2], state[3], state[4], state[5], state[6], state[7]⟩ = v :=
    ⟨_, rfl⟩
  have hadd (x y : UInt32) : y.toBitVec + x.toBitVec = (x + y).toBitVec := by
    rw [UInt32.toBitVec_add, BitVec.add_comm]
  rw [hstart, hv] at hrounds
  rw [compress_eq hrounds.symm, sha256Block_eq hv]
  simp only [Vector.getElem_map, Working.toWords, hadd, Vector.map_mk, List.map_toArray,
    List.map_cons, List.map_nil]

/-! ### Padding -/

/-- The length in bits, in eight bytes. -/
def lengthBytes (bits : UInt64) : List UInt8 :=
  (List.range 8).map fun i => (bits >>> (8 * (7 - i)).toUInt64).toUInt8

/-- What follows the message. -/
def padBytes (len : Nat) : List UInt8 :=
  0x80 :: List.replicate ((119 - len % 64) % 64) 0 ++ lengthBytes (UInt64.ofNat len * 8)

theorem bits_toUInt8 (n : UInt64) (j : Nat) (hj : j < 8) :
    Sha256.bits 8 (n >>> (8 * j).toUInt64).toUInt8.toNat = Sha256.bits 8 (n.toNat >>> (8 * j)) := by
  have hplace : (8 * j).toUInt64.toNat % 64 = 8 * j := by
    rw [Nat.toUInt64_eq, UInt64.toNat_ofNat']
    omega
  have hbyte : (n >>> (8 * j).toUInt64).toUInt8.toNat = (n.toNat >>> (8 * j)) % 2 ^ 8 := by
    rw [UInt64.toNat_toUInt8, UInt64.toNat_shiftRight, hplace]
  rw [hbyte, Sha256.bits_mod]

theorem toBits_lengthBytes (n : UInt64) : toBits (lengthBytes n) = Sha256.bits 64 n.toNat := by
  have hrange : List.range 8 = [0, 1, 2, 3, 4, 5, 6, 7] := rfl
  rw [Sha256.bits_add 56 8, Sha256.bits_add 48 8, Sha256.bits_add 40 8, Sha256.bits_add 32 8,
    Sha256.bits_add 24 8, Sha256.bits_add 16 8, Sha256.bits_add 8 8, lengthBytes, hrange]
  simp only [toBits, List.map_cons, List.map_nil, List.flatMap_cons, List.flatMap_nil,
    List.append_nil, List.append_assoc, ← Nat.shiftRight_add]
  rw [bits_toUInt8 n (7 - 0) (by decide), bits_toUInt8 n (7 - 1) (by decide),
    bits_toUInt8 n (7 - 2) (by decide), bits_toUInt8 n (7 - 3) (by decide),
    bits_toUInt8 n (7 - 4) (by decide), bits_toUInt8 n (7 - 5) (by decide),
    bits_toUInt8 n (7 - 6) (by decide), bits_toUInt8 n (7 - 7) (by decide)]
  rfl

theorem toBits_zeros (n : Nat) :
    toBits (List.replicate n 0) = List.replicate (8 * n) false := by
  induction n with
  | zero => rfl
  | succ n ih =>
    rw [List.replicate_succ, toBits, List.flatMap_cons]
    change Sha256.bits 8 0 ++ toBits (List.replicate n 0) = _
    rw [ih, Nat.mul_succ, Nat.add_comm, List.replicate_add]
    rfl

theorem toBits_padBytes (data : List UInt8) :
    toBits (data ++ padBytes data.length) = Sha256.pad (toBits data) := by
  have hone : toBits [0x80] = true :: List.replicate 7 false := by decide
  have hzeros : Sha256.zeros (8 * data.length) = 7 + 8 * ((119 - data.length % 64) % 64) := by
    unfold Sha256.zeros
    omega
  have hbits : Sha256.bits 64 (UInt64.ofNat data.length * 8).toNat =
      Sha256.bits 64 (8 * data.length) := by
    have hnat : (UInt64.ofNat data.length * 8).toNat = 8 * data.length % 2 ^ 64 := by
      rw [UInt64.toNat_mul, UInt64.toNat_ofNat', Nat.mod_mul_mod, Nat.mul_comm]
      rfl
    rw [hnat, Sha256.bits_mod]
  have hpad : padBytes data.length = [0x80] ++
      List.replicate ((119 - data.length % 64) % 64) 0 ++
        lengthBytes (UInt64.ofNat data.length * 8) := rfl
  rw [hpad, toBits_append, toBits_append, toBits_append, hone, toBits_zeros, toBits_lengthBytes,
    hbits, Sha256.pad, length_toBits, hzeros, List.replicate_add]
  rfl

/-- The loop writes the last eight bytes. -/
theorem writeLength_eq {block : List UInt8} (hblock : block.length = 64) (bits : UInt64) :
    writeLength block bits = block.take 56 ++ lengthBytes bits := by
  have hbytes : (lengthBytes bits).length = 8 := rfl
  have hturns : ∀ n ≤ 8, (List.range n).foldl
      (fun block i => block.set (63 - i) (bits >>> (8 * i).toUInt64).toUInt8) block =
        block.take (64 - n) ++ (lengthBytes bits).drop (8 - n) := by
    intro n
    induction n with
    | zero =>
      intro _
      rw [List.drop_of_length_le (Nat.le_of_eq hbytes), List.append_nil,
        List.take_of_length_le (by omega)]
      rfl
    | succ n ih =>
      intro hn
      have hlow : 8 - (n + 1) < (lengthBytes bits).length := by omega
      have hhigh : 64 - (n + 1) < block.length := by omega
      have hbyte : (lengthBytes bits)[8 - (n + 1)] =
          (bits >>> (8 * n).toUInt64).toUInt8 := by
        have hplace : 7 - (8 - (n + 1)) = n := by omega
        simp only [lengthBytes, List.getElem_map, List.getElem_range, hplace]
      have htake : (block.take (64 - (n + 1))).length = 64 - (n + 1) := by
        rw [List.length_take]
        omega
      have hlast : block.take (64 - n) =
          block.take (64 - (n + 1)) ++ [block[64 - (n + 1)]] := by
        have hsucc : 64 - n = 64 - (n + 1) + 1 := by omega
        rw [hsucc, List.take_succ_eq_append_getElem (by omega)]
      have hrest : (lengthBytes bits).drop (8 - (n + 1)) =
          (bits >>> (8 * n).toUInt64).toUInt8 :: (lengthBytes bits).drop (8 - n) := by
        rw [List.drop_eq_getElem_cons (by omega), hbyte]
        congr 2
        omega
      have hplace : 63 - n = (block.take (64 - (n + 1))).length := by omega
      rw [List.range_succ, List.foldl_append, ih (by omega), hrest, hlast, List.append_assoc]
      change (block.take (64 - (n + 1)) ++ _).set (63 - n) _ = _
      rw [hplace, List.set_append_right _ _ (Nat.le_refl _), Nat.sub_self]
      rfl
  exact hturns 8 (Nat.le_refl 8)

theorem write_rest {block rest : List UInt8} (hblock : block.length = 64)
    (hrest : rest.length < 64) :
    (write block 0 rest).set rest.length 0x80 =
      rest ++ 0x80 :: block.drop (rest.length + 1) := by
  rw [write, List.take_zero, List.nil_append, Nat.zero_add,
    List.drop_eq_getElem_cons (by omega), List.set_append_right _ _ (Nat.le_refl _), Nat.sub_self]
  rfl

theorem write_zeros {front back : List UInt8} {place n : Nat} (hplace : place = front.length) :
    write (front ++ back) place (List.replicate n 0) =
      front ++ List.replicate n 0 ++ back.drop n := by
  rw [write, hplace, List.take_left, List.length_replicate, ← List.drop_drop, List.drop_left]

/-- **The padding in place.**  What is compressed are the blocks of the rest of the message with
the padding behind it, one or two. -/
theorem finish_eq (buffer : Vector UInt8 64) {len : Nat} {rest : List UInt8}
    (state : Vector UInt32 8) (hrest : len % 64 = rest.length) :
    finish buffer len rest state =
      (Sha256.blocks 64 (rest ++ padBytes len)).foldl sha256Block state := by
  have hlt : rest.length < 64 := by omega
  have hbuffer : buffer.toList.length = 64 := Vector.length_toList
  have hlast : (lengthBytes (UInt64.ofNat len * 8)).length = 8 := rfl
  have hfront : (rest ++ [0x80]).length = rest.length + 1 := List.length_append
  have hblock : rest ++ 0x80 :: buffer.toList.drop (rest.length + 1) =
      (rest ++ [0x80]) ++ buffer.toList.drop (rest.length + 1) := by
    rw [List.append_assoc]
    rfl
  unfold finish
  dsimp only
  rw [write_rest hbuffer hlt, hblock]
  split
  case isTrue hone =>
    have hzeros : (119 - len % 64) % 64 = 56 - (rest.length + 1) := by omega
    have hpad : rest ++ padBytes len = (rest ++ [0x80] ++
        List.replicate (56 - (rest.length + 1)) 0) ++ lengthBytes (UInt64.ofNat len * 8) := by
      rw [padBytes, hzeros]
      simp only [List.append_assoc, List.cons_append, List.nil_append]
    have hfull : (rest ++ [0x80] ++ List.replicate (56 - (rest.length + 1)) 0).length = 56 := by
      rw [List.length_append, hfront, List.length_replicate]
      omega
    have hlength : ((rest ++ [0x80] ++ List.replicate (56 - (rest.length + 1)) 0) ++
        (buffer.toList.drop (rest.length + 1)).drop (56 - (rest.length + 1))).length = 64 := by
      rw [List.length_append, hfull, List.length_drop, List.length_drop, hbuffer]
      omega
    have hblocks := Sha256.blocks_append (n := 64) (by decide)
      (a := rest ++ [0x80] ++ List.replicate (56 - (rest.length + 1)) 0 ++
        lengthBytes (UInt64.ofNat len * 8)) (by rw [List.length_append, hfull, hlast]) []
    rw [List.append_nil, Sha256.blocks_nil] at hblocks
    rw [write_zeros hfront.symm, writeLength_eq hlength, List.take_left' hfull, hpad, hblocks]
    rfl
  case isFalse htwo =>
    have hzeros : (119 - len % 64) % 64 = 64 - (rest.length + 1) + 56 := by omega
    have hpad : rest ++ padBytes len =
        (rest ++ [0x80] ++ List.replicate (64 - (rest.length + 1)) 0) ++
          (List.replicate 56 0 ++ lengthBytes (UInt64.ofNat len * 8)) := by
      rw [padBytes, hzeros, List.replicate_add]
      simp only [List.append_assoc, List.cons_append, List.nil_append]
    have hfull : (rest ++ [0x80] ++ List.replicate (64 - (rest.length + 1)) 0).length = 64 := by
      rw [List.length_append, hfront, List.length_replicate]
      omega
    have hnone : (buffer.toList.drop (rest.length + 1)).drop (64 - (rest.length + 1)) = [] := by
      rw [List.drop_drop]
      exact List.drop_of_length_le (by omega)
    have hsecond := Sha256.blocks_append (n := 64) (by decide)
      (a := List.replicate 56 0 ++ lengthBytes (UInt64.ofNat len * 8))
      (by rw [List.length_append, List.length_replicate, hlast]) []
    rw [List.append_nil, Sha256.blocks_nil] at hsecond
    have hwrite (block : List UInt8) (hblock : block.length = 64) :
        writeLength (write block 0 (List.replicate 56 0)) (UInt64.ofNat len * 8) =
          List.replicate 56 0 ++ lengthBytes (UInt64.ofNat len * 8) := by
      have hzeroed : write block 0 (List.replicate 56 0) =
          List.replicate 56 0 ++ block.drop 56 := by
        rw [write, List.take_zero, List.nil_append, Nat.zero_add, List.length_replicate]
      rw [hzeroed, writeLength_eq, List.take_left' List.length_replicate]
      rw [List.length_append, List.length_replicate, List.length_drop, hblock]
    rw [write_zeros hfront.symm, hnone, List.append_nil, hwrite _ hfull, hpad,
      Sha256.blocks_append (by decide) hfull, hsecond]
    rfl

/-! ### The hash -/

/-- **The whole blocks.**  Whatever is behind the message, the loop takes blocks off its front. -/
theorem absorb_eq (data : List UInt8) (off : Nat) (state : Vector UInt32 8)
    (hoff : off ≤ data.length) (tail : List UInt8) :
    (Sha256.blocks 64 (data.drop off ++ tail)).foldl sha256Block state =
        (Sha256.blocks 64 (data.drop (absorb data off state).1 ++ tail)).foldl sha256Block
          (absorb data off state).2 ∧
      (absorb data off state).1 ≤ data.length ∧ data.length < (absorb data off state).1 + 64 ∧
      (absorb data off state).1 % 64 = off % 64 := by
  fun_induction absorb data off state with
  | case1 off state hlong ih =>
    obtain ⟨hfold, hle, hlt, hmod⟩ := ih (by omega)
    refine ⟨?_, hle, hlt, by omega⟩
    have hblock : ((data.drop off).take 64).length = 64 := by
      rw [List.length_take, List.length_drop]
      omega
    have hsplit : data.drop off ++ tail =
        (data.drop off).take 64 ++ (data.drop (off + 64) ++ tail) := by
      rw [← List.append_assoc, ← List.drop_drop, List.take_append_drop]
    rw [hsplit, Sha256.blocks_append (by decide) hblock, List.foldl_cons]
    exact hfold
  | case2 off state hshort => exact ⟨rfl, hoff, by omega, rfl⟩

theorem map_foldl_sha256Block {blocks : List (List UInt8)} (hblocks : ∀ b ∈ blocks, b.length = 64)
    (state : Vector UInt32 8) :
    (blocks.foldl sha256Block state).map UInt32.toBitVec =
      (blocks.map toBits).foldl Sha256.compress (state.map UInt32.toBitVec) := by
  induction blocks generalizing state with
  | nil => rfl
  | cons block blocks ih =>
    rw [List.foldl_cons, List.map_cons, List.foldl_cons,
      ih fun b hb => hblocks b (List.mem_cons_of_mem _ hb),
      map_sha256Block (hblocks block List.mem_cons_self)]

theorem toBits_storeWord (x : UInt32) : toBits (storeWord x) = Sha256.bits 32 x.toNat := by
  have hbyte (n : UInt32) (hn : n.toNat < 32) :
      Sha256.bits 8 (x >>> n).toUInt8.toNat = Sha256.bits 8 (x.toNat >>> n.toNat) := by
    rw [UInt32.toNat_toUInt8, UInt32.toNat_shiftRight, Nat.mod_eq_of_lt hn, Sha256.bits_mod 8]
  have hlow : Sha256.bits 8 x.toUInt8.toNat = Sha256.bits 8 x.toNat := by
    rw [UInt32.toNat_toUInt8, Sha256.bits_mod 8]
  rw [Sha256.bits_add 24 8, Sha256.bits_add 16 8, Sha256.bits_add 8 8, storeWord]
  simp only [toBits, List.flatMap_cons, List.flatMap_nil, List.append_nil, List.append_assoc,
    ← Nat.shiftRight_add]
  rw [hbyte 24 (by decide), hbyte 16 (by decide), hbyte 8 (by decide), hlow]
  rfl

theorem length_padded (data : List UInt8) :
    ∃ q, (data ++ padBytes data.length).length = 64 * q := by
  have hlast : (lengthBytes (UInt64.ofNat data.length * 8)).length = 8 := rfl
  refine ⟨(data.length + 9 + (119 - data.length % 64) % 64) / 64, ?_⟩
  rw [padBytes, List.length_append, List.length_append, List.length_cons, List.length_replicate,
    hlast]
  omega

/-- **The hash is SHA-256**, whatever the buffer held, for every length of the message. -/
theorem sha256_eq (buffer : Vector UInt8 64) (data : List UInt8) :
    toBits (sha256 buffer data) = Sha256.digest (toBits data) := by
  obtain ⟨hfold, hle, hlt, hmod⟩ :=
    absorb_eq data 0 initial (Nat.zero_le _) (padBytes data.length)
  obtain ⟨q, hq⟩ := length_padded data
  obtain ⟨⟨off, state⟩, hcall⟩ : ∃ r, absorb data 0 initial = r := ⟨_, rfl⟩
  rw [hcall] at hfold hle hlt hmod
  dsimp only at hfold hle hlt hmod
  have hrest : data.length % 64 = (data.drop off).length := by
    rw [List.length_drop]
    omega
  have hfinish : finish buffer data.length (data.drop off) state =
      (Sha256.blocks 64 (data ++ padBytes data.length)).foldl sha256Block initial := by
    rw [finish_eq buffer state hrest, ← hfold, List.drop_zero]
  have hwords (state : Vector UInt32 8) : toBits (state.toList.flatMap storeWord) =
      (state.map UInt32.toBitVec).toList.flatMap fun H => Sha256.bits 32 H.toNat := by
    rw [toBits, List.flatMap_assoc, Vector.toList_map, List.flatMap_map]
    exact List.flatMap_congr fun x _ => toBits_storeWord x
  have hblocks : (Sha256.blocks 64 (data ++ padBytes data.length)).map toBits =
      Sha256.blocks 512 (Sha256.pad (toBits data)) := by
    rw [← toBits_padBytes]
    exact (Sha256.blocks_flatMap (m := 8) (by decide) (by decide)
      (fun b => Sha256.length_bits 8 _) hq).symm
  rw [sha256, hcall]
  dsimp only
  rw [hfinish, hwords, map_foldl_sha256Block (fun b => Sha256.length_of_mem_blocks), hblocks,
    map_initial, Sha256.digest]

end Voodoo.Mojovm
