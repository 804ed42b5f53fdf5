import Voodoo.Bindings.WirePrimitives
import Voodoo.Bindings.Router

/-!
# Close notices on the wire

A router tells its peer that an endpoint is closed with a control message: the id, and behind it a
custom reason and a description if one of them says anything.  The peer reads the id, and the rest
where there is more than an id.

The two agree (`decode_closed`), but the reader is more lenient than the writer:
it takes a reason of zero with an empty description, and it does not look at what lies behind the
description (`readNotice_eq`).  What it refuses is a payload that ends too early
(`decode_eq_none_of_not_parses`).
-/

namespace Voodoo.Bindings

open LittleEndian List

/-- A string with room for the notice that carries it in the same address space. -/
structure Description where
  bytes : List UInt8
  fits : headerSize + (12 + bytes.length) < 2 ^ 32

/-- What the router reads of a control message. -/
structure Control where
  name : UInt32
  payload : Payload

/-- The reason and the description, if one of them says anything. -/
def writeReason (customReason : UInt32) (description : List UInt8) : List UInt8 :=
  if customReason ≠ 0 ∨ description ≠ [] then
    store 4 customReason.toNat ++ (store 4 description.length ++ description)
  else []

/-- The payload that `NotifyPeerEndpointClosed` writes. -/
def noticeBytes (id : InterfaceId) (customReason : UInt32) (description : List UInt8) :
    List UInt8 :=
  store 4 id.toNat ++ writeReason customReason description

theorem length_writeReason (customReason : UInt32) (description : List UInt8) :
    (writeReason customReason description).length =
      if customReason ≠ 0 ∨ description ≠ [] then 8 + description.length else 0 := by
  unfold writeReason
  split
  · rw [length_append, length_append, length_store, length_store]
    omega
  · rfl

theorem length_noticeBytes (id : InterfaceId) (customReason : UInt32) (description : List UInt8) :
    (noticeBytes id customReason description).length =
      if customReason ≠ 0 ∨ description ≠ [] then 12 + description.length else 4 := by
  rw [noticeBytes, length_append, length_store, length_writeReason]
  split <;> omega

/-- The message that `NotifyPeerEndpointClosed` builds. -/
def Control.closed (id : InterfaceId) (customReason : UInt32) (description : Description) :
    Control where
  name := 0
  payload :=
    { base := headerSize
      bytes := noticeBytes id customReason description.bytes
      behind := le_rfl
      fits := by
        have hfits := description.fits
        rw [length_noticeBytes]
        split <;> omega }

namespace Payload

variable (p : Payload)

/-- What `HandlePipeControlMessage` reads: the id, the reason and where the description is. -/
def readNotice : Option (InterfaceId × UInt32 × ByteRange) :=
  match p.readUint32 0 with
  | (none, _) => none
  | (some closedId, offset) =>
    if offset < p.payloadNumBytes then
      match p.readUint32 offset with
      | (none, _) => none
      | (some customReason, offset) =>
        match p.readString offset with
        | (none, _) => none
        | (some range, _) => some (closedId, customReason, range)
    else some (closedId, 0, ⟨0, 0⟩)

/-- The bytes in a range. -/
def content (r : ByteRange) : List UInt8 := slice p.bytes r.start r.size

/-- The id, the reason and the description. -/
def decode : Option (InterfaceId × UInt32 × List UInt8) :=
  p.readNotice.map fun (closedId, customReason, range) =>
    (closedId, customReason, p.content range)

/-- The length that the description is said to have. -/
def descriptionLength : Nat := (p.wordAt 8).toNat

/-- An id alone, or an id, a reason and a whole description. -/
def Parses : Prop := p.bytes.length = 4 ∨ 12 + p.descriptionLength ≤ p.bytes.length

instance : Decidable p.Parses := inferInstanceAs (Decidable (_ ∨ _))

/-! ### What is read -/

/-- The offset behind the first words. -/
def offsetOf (n : UInt32) (h : n.toNat ≤ p.bytes.length) : p.Offset := ⟨n, h⟩

theorem readUint32_at (n : UInt32) (h : n.toNat ≤ p.bytes.length) :
    p.readUint32 n =
      if n.toNat + 4 ≤ p.bytes.length then (some (p.wordAt n.toNat), n + 4) else (none, n) :=
  readUint32_eq (p.offsetOf n h)

theorem readString_eight (h : 8 ≤ p.bytes.length) :
    (p.readString 8).1 =
      if 12 ≤ p.bytes.length ∧ (12 + p.descriptionLength) % 2 ^ 32 ≤ p.bytes.length then
        some ⟨12, p.descriptionLength⟩
      else none := by
  have height : (8 : UInt32).toNat = 8 := rfl
  have htwelve : (8 + 4 : UInt32).toNat = 12 := rfl
  have htest := end_test (p := p) (x := 8 + 4) (y := p.wordAt 8)
  rw [htwelve] at htest
  unfold readString
  rw [readUint32_at p 8 h, height]
  by_cases hword : 12 ≤ p.bytes.length
  · rw [if_pos hword]
    dsimp only
    by_cases hend : (12 + p.descriptionLength) % 2 ^ 32 ≤ p.bytes.length
    · rw [if_neg (htest.mpr hend), if_pos ⟨hword, hend⟩]
      rfl
    · rw [if_pos (not_not.mp (mt htest.mp hend)), if_neg fun hand => hend hand.2]
  · rw [if_neg hword, if_neg fun hand => hword hand.1]

/-- A payload is read as an id alone, or as an id, a reason and a description that is not tested
for more than its end. -/
theorem readNotice_eq :
    p.readNotice =
      if p.bytes.length = 4 then some (p.wordAt 0, 0, ⟨0, 0⟩)
      else if 12 ≤ p.bytes.length ∧ (12 + p.descriptionLength) % 2 ^ 32 ≤ p.bytes.length then
        some (p.wordAt 0, p.wordAt 4, ⟨12, p.descriptionLength⟩)
      else none := by
  have hzero : (0 : UInt32).toNat = 0 := rfl
  have hfour : (0 + 4 : UInt32).toNat = 4 := rfl
  have height : (0 + 4 + 4 : UInt32) = 8 := rfl
  have hmore : (0 + 4 : UInt32) < p.payloadNumBytes ↔ 4 < p.bytes.length := by
    rw [UInt32.lt_iff_toNat_lt, toNat_payloadNumBytes, hfour]
  unfold readNotice
  rw [readUint32_at p 0 (Nat.zero_le _), hzero]
  by_cases hid : 4 ≤ p.bytes.length
  · rw [if_pos hid]
    dsimp only
    by_cases hrest : 4 < p.bytes.length
    · rw [if_pos (hmore.mpr hrest), readUint32_at p _ (by rw [hfour]; exact hid), hfour,
        if_neg (by omega : ¬ p.bytes.length = 4)]
      by_cases hreason : 8 ≤ p.bytes.length
      · have hstring := readString_eight p hreason
        rw [if_pos hreason, height]
        dsimp only
        by_cases hread : 12 ≤ p.bytes.length ∧ (12 + p.descriptionLength) % 2 ^ 32 ≤ p.bytes.length
        · rw [if_pos hread] at hstring ⊢
          split
          case h_1 hnone => rw [hnone] at hstring; cases hstring
          case h_2 range offset hsome =>
            rw [hsome] at hstring
            cases hstring
            rfl
        · rw [if_neg hread] at hstring ⊢
          split
          case h_1 => rfl
          case h_2 range offset hsome => rw [hsome] at hstring; cases hstring
      · rw [if_neg hreason, if_neg (by omega)]
    · rw [if_neg (mt hmore.mp hrest), if_pos (by omega : p.bytes.length = 4)]
  · rw [if_neg hid, if_neg (by omega), if_neg (by omega)]

theorem decode_eq_none_of_not_parses (h : ¬ p.Parses)
    (hfits : SumFits 12 p.descriptionLength p.bytes.length) : p.decode = none := by
  have hlength : ¬ p.bytes.length = 4 := fun hfour => h (Or.inl hfour)
  have hend : ¬ 12 + p.descriptionLength ≤ p.bytes.length := fun hle => h (Or.inr hle)
  have hword : p.descriptionLength < 2 ^ 32 := wordAt_lt p 8
  unfold SumFits at hfits
  have hlong : p.bytes.length < 2 ^ 32 := p.length_lt
  rw [decode, readNotice_eq, if_neg hlength, if_neg (by omega)]
  rfl

theorem decode_ne_none_of_parses (h : p.Parses) : p.decode ≠ none := by
  have hlong : p.bytes.length < 2 ^ 32 := p.length_lt
  rw [decode, readNotice_eq]
  by_cases hfour : p.bytes.length = 4
  · rw [if_pos hfour]
    exact Option.some_ne_none _
  · have hend : 12 + p.descriptionLength ≤ p.bytes.length := h.resolve_left hfour
    rw [if_neg hfour, if_pos ⟨by omega, by omega⟩]
    exact Option.some_ne_none _

end Payload

/-! ### The writer and the reader -/

section

variable (id : InterfaceId) (customReason : UInt32) (description : Description)

theorem word_of_store (n : UInt32) : UInt32.ofNat (n.toNat % 256 ^ 4) = n := by
  have hlt := n.toNat_lt
  rw [Nat.mod_eq_of_lt (by omega), UInt32.ofNat_toNat]

theorem field_store_append (n : Nat) (bs : List UInt8) :
    field (store 4 n ++ bs) 0 4 = n % 256 ^ 4 := by
  have hlen : (store 4 n).length = 4 := length_store 4 n
  rw [field, slice_append_left bs (by omega), slice, drop_zero,
    take_of_length_le (by omega), load_store]

theorem field_behind_store (n : Nat) (bs : List UInt8) (pos : Nat) :
    field (store 4 n ++ bs) (4 + pos) 4 = field bs pos 4 := by
  have hlen : (store 4 n).length = 4 := length_store 4 n
  rw [field, slice_append_right bs (by omega), hlen, Nat.add_sub_cancel_left, field]

theorem wordAt_zero_closed :
    (Control.closed id customReason description).payload.wordAt 0 = id := by
  have hfield : field (noticeBytes id customReason description.bytes) 0 4 = id.toNat % 256 ^ 4 :=
    field_store_append _ _
  exact (congrArg UInt32.ofNat hfield).trans (word_of_store id)

variable {customReason description}

theorem noticeBytes_long (h : customReason ≠ 0 ∨ description.bytes ≠ []) :
    noticeBytes id customReason description.bytes =
      store 4 id.toNat ++ (store 4 customReason.toNat ++
        (store 4 description.bytes.length ++ description.bytes)) := by
  rw [noticeBytes, writeReason, if_pos h]

theorem wordAt_four_closed (h : customReason ≠ 0 ∨ description.bytes ≠ []) :
    (Control.closed id customReason description).payload.wordAt 4 = customReason := by
  have hfield : field (noticeBytes id customReason description.bytes) 4 4 =
      customReason.toNat % 256 ^ 4 := by
    rw [noticeBytes_long id h]
    exact (field_behind_store _ _ 0).trans (field_store_append _ _)
  exact (congrArg UInt32.ofNat hfield).trans (word_of_store customReason)

theorem descriptionLength_closed (h : customReason ≠ 0 ∨ description.bytes ≠ []) :
    (Control.closed id customReason description).payload.descriptionLength =
      description.bytes.length := by
  have hfits := description.fits
  have hfield : field (noticeBytes id customReason description.bytes) 8 4 =
      description.bytes.length % 256 ^ 4 := by
    rw [noticeBytes_long id h]
    exact (field_behind_store _ _ 4).trans
      ((field_behind_store _ _ 0).trans (field_store_append _ _))
  have hlt : description.bytes.length < 2 ^ 32 := by omega
  rw [Nat.mod_eq_of_lt (by omega)] at hfield
  exact (congrArg (fun n => (UInt32.ofNat n).toNat) hfield).trans (UInt32.toNat_ofNat_of_lt hlt)

theorem slice_closed (h : customReason ≠ 0 ∨ description.bytes ≠ []) :
    slice (noticeBytes id customReason description.bytes) 12 description.bytes.length =
      description.bytes := by
  have hlen : ∀ n, (store 4 n).length = 4 := length_store 4
  have hwords : ∀ (n : Nat) (bs : List UInt8), (store 4 n ++ bs).drop 4 = bs := fun n bs =>
    drop_left' (hlen n)
  have hdrop : (noticeBytes id customReason description.bytes).drop 12 = description.bytes := by
    have hsum : 12 = 4 + (4 + 4) := rfl
    rw [noticeBytes_long id h, hsum, ← drop_drop, ← drop_drop, hwords, hwords, hwords]
  rw [slice, hdrop, take_length]

variable (customReason description)

/-- **The writer and the reader agree.** -/
theorem decode_closed :
    (Control.closed id customReason description).payload.decode =
      some (id, customReason, description.bytes) := by
  have hfits := description.fits
  have hlength : (Control.closed id customReason description).payload.bytes.length =
      if customReason ≠ 0 ∨ description.bytes ≠ [] then 12 + description.bytes.length else 4 :=
    length_noticeBytes id customReason description.bytes
  rw [Payload.decode, Payload.readNotice_eq, wordAt_zero_closed]
  by_cases h : customReason ≠ 0 ∨ description.bytes ≠ []
  · rw [if_pos h] at hlength
    rw [descriptionLength_closed id h, wordAt_four_closed id h, hlength,
      Nat.mod_eq_of_lt (by omega : 12 + description.bytes.length < 2 ^ 32),
      if_neg (by omega : ¬ 12 + description.bytes.length = 4), if_pos ⟨by omega, le_rfl⟩]
    exact congrArg (fun bs => some (id, customReason, bs)) (slice_closed id h)
  · rw [if_neg h] at hlength
    rw [if_pos hlength]
    rw [not_or, not_not, not_not] at h
    rw [h.1, h.2]
    rfl

end

end Voodoo.Bindings
