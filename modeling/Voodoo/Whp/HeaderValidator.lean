import Voodoo.Lib.Access

/-!
# The header validator and the accessors of a message

`MessageHeaderValidator` looks at the header of a received message once, and from then on `Message`
reads the payload and the interface ids through the pointers in it.  The model is a memory: the bytes
of the message stand somewhere in an address space of `w` bits, every sum of an address and a number
is cut down to `w` bits, and what stands around the message is arbitrary.

The result is when an accepted message is read in bounds (`inBounds_iff`): the validator compares the
element count of the interface-id array with nothing, nor the place of the array with that of the
payload, and its `ClaimMemory` adds before it compares.
-/

namespace Voodoo.Whp

open Memory Memory.Access

/-- A message as it stands in memory.  Its buffer comes from an allocator that
returns neither null nor anything in the first bytes, and one past its end is
still an address. -/
structure Received (w : Nat) where
  mem : Nat → UInt8
  data : Nat
  size : Nat
  low : 8 ≤ data
  fits : data + size < 2 ^ w

namespace Received

variable {w : Nat}

/-- `data_num_bytes()`, which the core gives as a `uint32_t`. -/
def numBytes (m : Received w) : Nat := m.size % 2 ^ 32

/-- The address `p + n`. -/
def add (_ : Received w) (p n : Nat) : Nat := (p + n) % 2 ^ w

/-- The word of a header field. -/
def header (m : Received w) (pos len : Nat) : Nat := word m.mem (m.data + pos) len

/-- `Pointer::Get` on the field at `pos`: null, or the field's address and the
offset in it. -/
def pointer (m : Received w) (pos : Nat) : Nat :=
  if m.header pos 8 = 0 then 0 else m.add (m.data + pos) (m.header pos 8)

/-! ### The validator -/

/-- `ValidationContext::ClaimMemory`. -/
def claimMemory (m : Received w) (p size : Nat) : Bool :=
  !(decide (p < m.data) || decide (m.data + m.numBytes < m.add p size))

def validateStructHeaderAndClaimMemory (m : Received w) : Bool :=
  if !m.claimMemory m.data 8 then false
  else if m.header 0 4 < 8 then false
  else m.claimMemory m.data (m.header 0 4)

/-- The size a header of each version may declare. -/
def sizeMatchesVersion (version numBytes : Nat) : Bool :=
  if version = 0 then numBytes == 24
  else if version = 1 then numBytes == 32
  else if version = 2 then numBytes == 48
  else if version = 3 then numBytes == 56
  else decide (56 ≤ numBytes)

def kInvalidInterfaceId : Nat := 0xFFFFFFFF

def kPrimaryInterfaceId : Nat := 0

/-- `kFlagExpectsResponse | kFlagIsResponse`. -/
def kRequestIdFlags : Nat := 3

/-- The interface-id array at `array`, its header and every id in it. -/
def validateInterfaceIds (m : Received w) (array : Nat) : Bool :=
  if !m.claimMemory array 8 then false
  else if word m.mem array 4 < 8 || !m.claimMemory array (word m.mem array 4) then false
  else (List.range (word m.mem (m.add array 4) 4)).all fun i =>
    let id := word m.mem (m.add array (8 + 4 * i)) 4
    id != kInvalidInterfaceId && id != kPrimaryInterfaceId

def isValidMessageHeader (m : Received w) : Bool :=
  if !sizeMatchesVersion (m.header 4 4) (m.header 0 4) then false
  else if m.header 4 4 = 0 ∧ m.header 16 4 &&& kRequestIdFlags ≠ 0 then false
  else if m.header 16 4 &&& kRequestIdFlags = kRequestIdFlags then false
  else if m.header 4 4 < 2 then true
  else if m.header 32 8 = 0 then false
  else if m.pointer 32 < m.data ∨ m.data + m.numBytes < m.pointer 32 then false
  else if m.pointer 32 < m.data + m.numBytes ∧ !m.claimMemory (m.pointer 32) 1 then false
  else if m.header 40 8 = 0 then true
  else m.validateInterfaceIds (m.pointer 40)

/-- `MessageHeaderValidator::Accept` of a message that is not null. -/
def accept (m : Received w) : Bool :=
  if !m.validateStructHeaderAndClaimMemory then false else m.isValidMessageHeader

/-! ### The accessors -/

def version (m : Received w) : Access Nat := load m.mem (m.data + 4) 4

def headerNumBytes (m : Received w) : Access Nat := load m.mem m.data 4

/-- `Pointer::is_null` of the field at `pos`. -/
def isNull (m : Received w) (pos : Nat) : Access Bool := do
  let offset ← load m.mem (m.data + pos) 8
  return offset == 0

/-- `Pointer::Get` of the field at `pos`. -/
def get (m : Received w) (pos : Nat) : Access Nat := do
  let offset ← load m.mem (m.data + pos) 8
  if offset = 0 then return 0
  return m.add (m.data + pos) offset

def payload (m : Received w) : Access Nat := do
  if (← m.version) < 2 then return m.add m.data (← m.headerNumBytes)
  m.get 32

/-- The two numbers `payload_num_bytes()` takes the difference of. -/
def payloadBounds (m : Received w) : Access (Nat × Nat) := do
  if (← m.version) < 2 then return (← m.headerNumBytes, m.numBytes)
  let first ← m.get 32
  let last ← m.get 40
  if last = 0 then return (first, m.add m.data m.numBytes)
  return (first, last)

def payloadNumBytes (m : Received w) : Access Nat := do
  let (first, last) ← m.payloadBounds
  return (2 ^ w + last - first) % 2 ^ w % 2 ^ 32

def payloadNumInterfaceIds (m : Received w) : Access Nat := do
  if (← m.version) < 2 then return 0
  if ← m.isNull 40 then return 0
  load m.mem (m.add (← m.get 40) 4) 4

def payloadInterfaceIds (m : Received w) : Access Nat := do
  if (← m.version) < 2 then return 0
  if ← m.isNull 40 then return 0
  return m.add (← m.get 40) 8

/-! ### What the accessors read and compute -/

@[simp] theorem value_version (m : Received w) : m.version.value = m.header 4 4 := rfl

@[simp] theorem value_headerNumBytes (m : Received w) :
    m.headerNumBytes.value = m.header 0 4 := rfl

@[simp] theorem value_isNull (m : Received w) (pos : Nat) :
    (m.isNull pos).value = (m.header pos 8 == 0) := rfl

@[simp] theorem value_get (m : Received w) (pos : Nat) : (m.get pos).value = m.pointer pos := by
  rw [get, value_bind, value_ite, pointer]
  rfl

theorem value_payloadBounds (m : Received w) :
    m.payloadBounds.value =
      if m.header 4 4 < 2 then (m.header 0 4, m.numBytes)
      else (m.pointer 32, if m.pointer 40 = 0 then m.add m.data m.numBytes else m.pointer 40) := by
  simp only [payloadBounds, value_bind, value_ite, value_pure]
  simp only [value_version, value_headerNumBytes, value_get]
  split
  · rfl
  · split <;> rfl

theorem value_payloadNumInterfaceIds (m : Received w) :
    m.payloadNumInterfaceIds.value =
      if m.header 4 4 < 2 then 0
      else if m.header 40 8 = 0 then 0
      else word m.mem (m.add (m.pointer 40) 4) 4 := by
  simp only [payloadNumInterfaceIds, value_bind, value_ite, value_pure]
  simp only [value_version, value_isNull, value_get, value_load, beq_iff_eq]

theorem value_payloadInterfaceIds (m : Received w) :
    m.payloadInterfaceIds.value =
      if m.header 4 4 < 2 then 0
      else if m.header 40 8 = 0 then 0
      else m.add (m.pointer 40) 8 := by
  simp only [payloadInterfaceIds, value_bind, value_ite, value_pure]
  simp only [value_version, value_isNull, value_get, beq_iff_eq]

theorem stays_get {lo hi : Nat} (m : Received w) (pos : Nat) :
    (m.get pos).Stays lo hi ↔ lo ≤ m.data + pos ∧ m.data + pos + 8 ≤ hi := by
  rw [get, stays_bind, stays_ite]
  simp

theorem stays_version {lo hi : Nat} (m : Received w) :
    m.version.Stays lo hi ↔ lo ≤ m.data + 4 ∧ m.data + 4 + 4 ≤ hi := by
  rw [version, stays_load]

theorem stays_isNull {lo hi : Nat} (m : Received w) (pos : Nat) :
    (m.isNull pos).Stays lo hi ↔ lo ≤ m.data + pos ∧ m.data + pos + 8 ≤ hi := by
  rw [isNull, stays_bind, stays_load]
  simp

theorem stays_payload {lo hi : Nat} (m : Received w) :
    m.payload.Stays lo hi ↔ (lo ≤ m.data + 4 ∧ m.data + 4 + 4 ≤ hi) ∧
      if m.header 4 4 < 2 then lo ≤ m.data ∧ m.data + 4 ≤ hi
      else lo ≤ m.data + 32 ∧ m.data + 32 + 8 ≤ hi := by
  rw [payload, stays_bind, stays_version, stays_ite, value_version, stays_get]
  simp [headerNumBytes]

theorem stays_payloadBounds {lo hi : Nat} (m : Received w) :
    m.payloadBounds.Stays lo hi ↔ (lo ≤ m.data + 4 ∧ m.data + 4 + 4 ≤ hi) ∧
      if m.header 4 4 < 2 then lo ≤ m.data ∧ m.data + 4 ≤ hi
      else (lo ≤ m.data + 32 ∧ m.data + 32 + 8 ≤ hi) ∧
        lo ≤ m.data + 40 ∧ m.data + 40 + 8 ≤ hi := by
  rw [payloadBounds, stays_bind, stays_version, stays_ite, value_version]
  simp only [stays_bind, stays_get, stays_ite]
  simp [headerNumBytes]

theorem stays_payloadNumBytes {lo hi : Nat} (m : Received w) :
    m.payloadNumBytes.Stays lo hi ↔ m.payloadBounds.Stays lo hi := by
  rw [payloadNumBytes, stays_bind]
  simp

theorem stays_payloadNumInterfaceIds {lo hi : Nat} (m : Received w) :
    m.payloadNumInterfaceIds.Stays lo hi ↔ (lo ≤ m.data + 4 ∧ m.data + 4 + 4 ≤ hi) ∧
      (2 ≤ m.header 4 4 → (lo ≤ m.data + 40 ∧ m.data + 40 + 8 ≤ hi) ∧
        (m.header 40 8 ≠ 0 →
          lo ≤ m.add (m.pointer 40) 4 ∧ m.add (m.pointer 40) 4 + 4 ≤ hi)) := by
  rw [payloadNumInterfaceIds, stays_bind, stays_version, stays_ite, value_version, stays_bind,
    stays_isNull, stays_ite, stays_bind, stays_get]
  simp only [stays_pure, stays_load, value_get, value_isNull, beq_iff_eq]
  rcases Nat.lt_or_ge (m.header 4 4) 2 with hold | hnew
  · simp only [if_pos hold, Nat.not_le.mpr hold, false_imp_iff]
  · simp only [if_neg (Nat.not_lt.mpr hnew), hnew, true_imp_iff, and_congr_right_iff]
    intro _ hread
    split_ifs with hnull <;> simp [hnull, hread]

theorem stays_payloadInterfaceIds {lo hi : Nat} (m : Received w) :
    m.payloadInterfaceIds.Stays lo hi ↔ (lo ≤ m.data + 4 ∧ m.data + 4 + 4 ≤ hi) ∧
      (2 ≤ m.header 4 4 → lo ≤ m.data + 40 ∧ m.data + 40 + 8 ≤ hi) := by
  rw [payloadInterfaceIds, stays_bind, stays_version, stays_ite, value_version, stays_bind,
    stays_isNull, stays_ite, stays_bind, stays_get]
  simp only [stays_pure, and_true]
  rcases Nat.lt_or_ge (m.header 4 4) 2 with hold | hnew
  · simp only [if_pos hold, Nat.not_le.mpr hold, false_imp_iff]
  · simp only [if_neg (Nat.not_lt.mpr hnew), hnew, true_imp_iff, and_congr_right_iff,
      and_iff_left_iff_imp]
    intro _ hread
    simp only [hread.1, hread.2, and_self, ite_self]

/-! ### What acceptance says -/

theorem claimMemory_iff (m : Received w) (p size : Nat) :
    m.claimMemory p size = true ↔ m.data ≤ p ∧ m.add p size ≤ m.data + m.numBytes := by
  simp [claimMemory]

theorem numBytes_le_size (m : Received w) : m.numBytes ≤ m.size := Nat.mod_le _ _

theorem passed {p : Prop} [Decidable p] {b : Bool} (h : (if p then false else b) = true) :
    ¬ p ∧ b = true := by
  split at h
  case isTrue => cases h
  case isFalse hp => exact ⟨hp, h⟩

theorem header_of_accept {m : Received w} (h : m.accept = true) :
    m.claimMemory m.data (m.header 0 4) = true ∧
      sizeMatchesVersion (m.header 4 4) (m.header 0 4) = true := by
  obtain ⟨hstruct, hheader⟩ := passed h
  rw [Bool.not_eq_true', Bool.not_eq_false] at hstruct
  obtain ⟨_, hstruct⟩ := passed hstruct
  obtain ⟨hmatches, _⟩ := passed hheader
  rw [Bool.not_eq_true', Bool.not_eq_false] at hmatches
  exact ⟨(passed hstruct).2, hmatches⟩

theorem pointers_of_accept {m : Received w} (h : m.accept = true) (hversion : 2 ≤ m.header 4 4) :
    (m.data ≤ m.pointer 32 ∧ m.pointer 32 ≤ m.data + m.numBytes) ∧
      (m.header 40 8 ≠ 0 → m.validateInterfaceIds (m.pointer 40) = true) := by
  obtain ⟨_, hheader⟩ := passed h
  obtain ⟨_, hheader⟩ := passed hheader
  obtain ⟨_, hheader⟩ := passed hheader
  obtain ⟨_, hheader⟩ := passed hheader
  rw [if_neg (by omega)] at hheader
  obtain ⟨_, hheader⟩ := passed hheader
  obtain ⟨hpayload, hheader⟩ := passed hheader
  obtain ⟨_, hheader⟩ := passed hheader
  refine ⟨by omega, fun harray => ?_⟩
  rwa [if_neg harray] at hheader

theorem array_of_validate {m : Received w} {array : Nat}
    (h : m.validateInterfaceIds array = true) :
    m.claimMemory array 8 = true ∧ 8 ≤ word m.mem array 4 ∧
      m.claimMemory array (word m.mem array 4) = true := by
  obtain ⟨hclaim, h⟩ := passed h
  obtain ⟨hbytes, _⟩ := passed h
  rw [Bool.not_eq_true', Bool.not_eq_false] at hclaim
  simp only [Bool.or_eq_true, decide_eq_true_eq, Bool.not_eq_true', not_or, Bool.not_eq_false]
    at hbytes
  exact ⟨hclaim, by omega, hbytes.2⟩

end Received

/-! ### In bounds -/

/-- What a message in bounds promises its readers. -/
structure Received.InBounds {w : Nat} (m : Received w) : Prop where
  payload : m.payload.Stays m.data (m.data + m.size)
  payloadNumBytes : m.payloadNumBytes.Stays m.data (m.data + m.size)
  payloadNumInterfaceIds : m.payloadNumInterfaceIds.Stays m.data (m.data + m.size)
  payloadInterfaceIds : m.payloadInterfaceIds.Stays m.data (m.data + m.size)
  /-- `payload_num_bytes()` does not subtract the larger number. -/
  noUnderflow : m.payloadBounds.value.1 ≤ m.payloadBounds.value.2
  /-- Every reported id lies in the bytes the array says it has. -/
  ids : ∀ i < m.payloadNumInterfaceIds.value,
    (m.get 40).value ≤ m.payloadInterfaceIds.value ∧
      m.payloadInterfaceIds.value + 4 * (i + 1) ≤
        (m.get 40).value + word m.mem (m.get 40).value 4

/-- The conditions on an accepted message's header.  The first three can only
fail where a sum of the validator passes the top of the address space; it makes
no check at all for the last two. -/
structure Received.Regular {w : Nat} (m : Received w) : Prop where
  flat : m.header 4 4 < 2 → m.header 0 4 ≤ m.numBytes
  header : 2 ≤ m.header 4 4 → 48 ≤ m.size
  array : 2 ≤ m.header 4 4 → m.header 40 8 ≠ 0 → m.pointer 40 + 8 ≤ m.data + m.size
  ordered : 2 ≤ m.header 4 4 → m.header 40 8 ≠ 0 → m.pointer 32 ≤ m.pointer 40
  counted : 2 ≤ m.header 4 4 → m.header 40 8 ≠ 0 →
    8 + 4 * word m.mem (m.pointer 40 + 4) 4 ≤ word m.mem (m.pointer 40) 4

namespace Received

variable {w : Nat} {m : Received w}

theorem eq_of_sizeMatches {version numBytes : Nat} (h : sizeMatchesVersion version numBytes = true)
    (hversion : version < 2) : 8 ≤ numBytes := by
  unfold sizeMatchesVersion at h
  obtain rfl | rfl : version = 0 ∨ version = 1 := by omega
  · rw [if_pos rfl, beq_iff_eq] at h
    omega
  · rw [if_neg (by decide), if_pos rfl, beq_iff_eq] at h
    omega

theorem add_pointer (hroom : m.pointer 40 + 8 ≤ m.data + m.size) {n : Nat} (hn : n ≤ 8) :
    m.add (m.pointer 40) n = m.pointer 40 + n := by
  have hfits := m.fits
  exact Nat.mod_eq_of_lt (by omega)

theorem le_pointer_of_accept (h : m.accept = true) (hversion : 2 ≤ m.header 4 4)
    (harray : m.header 40 8 ≠ 0) : m.data ≤ m.pointer 40 :=
  ((claimMemory_iff m _ _).mp
    (array_of_validate ((pointers_of_accept h hversion).2 harray)).1).1

theorem inBounds_of_regular (h : m.accept = true) (hr : m.Regular) : m.InBounds := by
  have hlow := m.low
  have hfits := m.fits
  have hnum := numBytes_le_size m
  have hdata : m.add m.data m.numBytes = m.data + m.numBytes := Nat.mod_eq_of_lt (by omega)
  by_cases hversion : m.header 4 4 < 2
  · have hsize := eq_of_sizeMatches (header_of_accept h).2 hversion
    have hflat := hr.flat hversion
    constructor
    · rw [stays_payload, if_pos hversion]
      omega
    · rw [stays_payloadNumBytes, stays_payloadBounds, if_pos hversion]
      omega
    · rw [stays_payloadNumInterfaceIds]
      exact ⟨by omega, fun h2 => absurd hversion (by omega)⟩
    · rw [stays_payloadInterfaceIds]
      exact ⟨by omega, fun h2 => absurd hversion (by omega)⟩
    · rw [value_payloadBounds, if_pos hversion]
      exact hflat
    · intro i hi
      rw [value_payloadNumInterfaceIds, if_pos hversion] at hi
      omega
  · have h2 : 2 ≤ m.header 4 4 := by omega
    have hsize := hr.header h2
    obtain ⟨⟨hfirst, hlast⟩, _⟩ := pointers_of_accept h h2
    constructor
    · rw [stays_payload, if_neg hversion]
      omega
    · rw [stays_payloadNumBytes, stays_payloadBounds, if_neg hversion]
      omega
    · rw [stays_payloadNumInterfaceIds]
      refine ⟨by omega, fun _ => ⟨by omega, fun harray => ?_⟩⟩
      have hroom := hr.array h2 harray
      have hle := le_pointer_of_accept h h2 harray
      rw [add_pointer hroom (by decide)]
      omega
    · rw [stays_payloadInterfaceIds]
      omega
    · rw [value_payloadBounds, if_neg hversion]
      dsimp only
      split
      case isTrue =>
        rw [hdata]
        exact hlast
      case isFalse hnull =>
        refine hr.ordered h2 fun harray => hnull ?_
        rw [pointer, if_pos harray]
    · intro i hi
      rw [value_payloadNumInterfaceIds, if_neg hversion] at hi
      split at hi
      case isTrue => omega
      case isFalse harray =>
        have hroom := hr.array h2 harray
        have hcount := hr.counted h2 harray
        rw [add_pointer hroom (by decide)] at hi
        rw [value_payloadInterfaceIds, if_neg hversion, if_neg harray, value_get,
          add_pointer hroom le_rfl]
        omega

theorem regular_of_inBounds (h : m.accept = true) (hb : m.InBounds) : m.Regular := by
  have hlow := m.low
  have hfits := m.fits
  have hreadsPayload := hb.payloadNumBytes
  have hreadsCount := hb.payloadNumInterfaceIds
  rw [stays_payloadNumBytes, stays_payloadBounds] at hreadsPayload
  rw [stays_payloadNumInterfaceIds] at hreadsCount
  have hroom (h2 : 2 ≤ m.header 4 4) (harray : m.header 40 8 ≠ 0) :
      m.pointer 40 + 8 ≤ m.data + m.size := by
    -- an address read in the buffer is not one a sum has wrapped to
    obtain ⟨hge, hle⟩ := (hreadsCount.2 h2).2 harray
    have hlt : m.pointer 40 < 2 ^ w := by
      rw [pointer, if_neg harray]
      exact Nat.mod_lt _ (Nat.two_pow_pos w)
    unfold add at hge hle
    by_cases hwrap : m.pointer 40 + 4 < 2 ^ w
    · rw [Nat.mod_eq_of_lt hwrap] at hle
      omega
    · rw [Nat.mod_eq_sub_mod (by omega), Nat.mod_eq_of_lt (by omega)] at hge
      omega
  constructor
  · intro hversion
    have hle := hb.noUnderflow
    rw [value_payloadBounds, if_pos hversion] at hle
    exact hle
  · intro h2
    rw [if_neg (by omega)] at hreadsPayload
    omega
  · exact hroom
  · intro h2 harray
    have hpointer := le_pointer_of_accept h h2 harray
    have hne : m.pointer 40 ≠ 0 := by omega
    have hle := hb.noUnderflow
    rw [value_payloadBounds, if_neg (Nat.not_lt.mpr h2), if_neg hne] at hle
    dsimp only at hle
    exact hle
  · intro h2 harray
    have hnum : m.payloadNumInterfaceIds.value = word m.mem (m.pointer 40 + 4) 4 := by
      rw [value_payloadNumInterfaceIds, if_neg (by omega), if_neg harray,
        add_pointer (hroom h2 harray) (by decide)]
    have hids : m.payloadInterfaceIds.value = m.pointer 40 + 8 := by
      rw [value_payloadInterfaceIds, if_neg (by omega), if_neg harray,
        add_pointer (hroom h2 harray) le_rfl]
    have hbytes := (array_of_validate ((pointers_of_accept h h2).2 harray)).2.1
    cases hn : word m.mem (m.pointer 40 + 4) 4 with
    | zero => omega
    | succ n =>
      have hlast := (hb.ids n (by rw [hnum, hn]; exact Nat.lt_succ_self n)).2
      rw [hids, value_get] at hlast
      omega

/-- **When an accepted message is read in bounds.** -/
theorem inBounds_iff (m : Received w) (h : m.accept = true) : m.InBounds ↔ m.Regular :=
  ⟨regular_of_inBounds h, inBounds_of_regular h⟩

/-- A byte string at `base`, with zeros around it. -/
def ofBytes (w base : Nat) (bytes : List UInt8) (low : 8 ≤ base)
    (fits : base + bytes.length < 2 ^ w) : Received w where
  mem a := if base ≤ a then bytes.getD (a - base) 0 else 0
  data := base
  size := bytes.length
  low := low
  fits := fits

/-- A version 2 header whose two pointers lead to what follows it. -/
def pointerHeader (payload ids : UInt8) : List UInt8 :=
  [48, 0, 0, 0, 2, 0, 0, 0, 0, 0, 0, 0, 9, 0, 0, 0, 1, 0, 0, 0, 0, 0, 0, 0,
    7, 0, 0, 0, 0, 0, 0, 0, payload, 0, 0, 0, 0, 0, 0, 0, ids, 0, 0, 0, 0, 0, 0, 0]

/-- Eight bytes of payload and an array of one id behind them. -/
def oneId : Received 32 :=
  ofBytes 32 4096 (pointerHeader 16 16 ++ [1, 2, 3, 4, 5, 6, 7, 8, 12, 0, 0, 0, 1, 0, 0, 0,
    5, 0, 0, 0]) (by decide) (by decide)

theorem inBounds_oneId : oneId.accept = true ∧ oneId.InBounds :=
  ⟨by decide +kernel, (inBounds_iff oneId (by decide +kernel)).mpr
    ⟨by decide +kernel, by decide +kernel, by decide +kernel, by decide +kernel,
      by decide +kernel⟩⟩

/-- An array that declares the eight bytes of its own header and one element. -/
def overCounted : Received 32 :=
  ofBytes 32 4096 (pointerHeader 16 8 ++ [8, 0, 0, 0, 1, 0, 0, 0, 5, 0, 0, 0])
    (by decide) (by decide)

/-- It is accepted, and the id it reports lies behind the array's last byte. -/
theorem not_inBounds_overCounted : overCounted.accept = true ∧ ¬ overCounted.InBounds := by
  refine ⟨by decide +kernel, fun h => ?_⟩
  have hid := (h.ids 0 (by decide +kernel)).2
  exact absurd hid (by decide +kernel)

end Received

end Voodoo.Whp
