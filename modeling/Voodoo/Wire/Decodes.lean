import Voodoo.Wire.Encode

/-!
# Reading what stands at an offset

`Decodes msg rd off len p ks C` says all there is to know about a reader `rd` that
is started on the encoding of a value: whichever handle it is at, it delivers `p`
if and only if `C` holds and the next handles of the message are `ks`; it then has
taken up exactly these; and whatever it delivers, it ends `len` bytes further on.

A reader that delivers the same object at every handle index is `Exact`.  Larger
readers are put together from smaller ones by `Exact.bind`, `Decodes.map`, and
`Decodes.all` for the loops.
-/

namespace Voodoo

open LittleEndian EState List

/-- `bs` stands at `off` in the payload, and the payload can be counted in 32 bits unless there is
nothing to read. -/
def Stands (msg : Message) (off : Nat) (bs : List UInt8) : Prop :=
  bs <+: msg.payload.drop off ∧ (bs = [] ∨ msg.payload.length < 2 ^ 32)

namespace Stands

variable {msg : Message} {off : Nat} {as bs : List UInt8}

theorem left (h : Stands msg off (as ++ bs)) : Stands msg off as :=
  ⟨(prefix_append as bs).trans h.1, h.2.imp_left (fun h => (append_eq_nil_iff.mp h).1)⟩

theorem right (h : Stands msg off (as ++ bs)) : Stands msg (off + as.length) bs := by
  obtain ⟨⟨rest, hrest⟩, hsize⟩ := h
  refine ⟨⟨rest, ?_⟩, hsize.imp_left (fun h => (append_eq_nil_iff.mp h).2)⟩
  rw [← drop_drop, ← hrest, List.append_assoc, drop_left]

theorem take (h : Stands msg off bs) : (msg.payload.drop off).take bs.length = bs :=
  prefix_iff_eq_take.mp h.1 |>.symm

theorem length_le (h : Stands msg off bs) (hne : bs ≠ []) :
    off + bs.length ≤ msg.payloadNumBytes := by
  have hlt := h.2.resolve_left hne
  have hlen := h.1.length_le
  have hpos : 0 < bs.length := length_pos_of_ne_nil hne
  rw [length_drop] at hlen
  rw [payloadNumBytes_of_lt hlt]
  omega

theorem body {a b : Nat} (h : Stands msg off (store 4 a ++ (store 4 b ++ bs))) :
    Stands msg (off + 8) bs := by
  have hbody := h.right.right
  rw [length_store, length_store, Nat.add_assoc] at hbody
  exact hbody

end Stands

/-! ### Readers that go by the bytes alone -/

/-- From `off` on, `rd` delivers `a` and moves over `len` bytes, at every handle index. -/
def Exact {α : Type} (rd : Reader α) (off len : Nat) (a : α) : Prop :=
  ∀ i tr, ∃ tr', rd ⟨off, i, tr⟩ = .ok a ⟨off + len, i, tr'⟩

namespace Exact

variable {α β : Type} {rd : Reader α} {f : α → Reader β} {off l₁ l₂ : Nat} {a : α} {b : β}

protected theorem pure (a : α) : Exact (pure a) off 0 a := fun _ tr => ⟨tr, rfl⟩

theorem bind (h : Exact rd off l₁ a) (hf : Exact (f a) (off + l₁) l₂ b) :
    Exact (rd >>= f) off (l₁ + l₂) b := by
  intro i tr
  obtain ⟨tr₁, h₁⟩ := h i tr
  obtain ⟨tr₂, h₂⟩ := hf i tr₁
  exact ⟨tr₂, by rw [bind_ok h₁, h₂, Nat.add_assoc]⟩

theorem map (g : α → β) (h : Exact rd off l₁ a) : Exact (g <$> rd) off l₁ (g a) := by
  intro i tr
  obtain ⟨tr₁, h₁⟩ := h i tr
  exact ⟨tr₁, map_ok h₁⟩

theorem bind_pure (h : Exact rd off l₁ a) (hf : f a = pure b) : Exact (rd >>= f) off l₁ b :=
  h.bind (hf ▸ Exact.pure b)

end Exact

theorem exact_readScalar {msg : Message} {off width n : Nat}
    (h : Stands msg off (store width n)) (hw : 0 < width) (hn : n < 256 ^ width) :
    Exact (readScalar msg width) off width n := by
  intro i tr
  have hne : store width n ≠ [] := by
    intro hnil
    have := congrArg List.length hnil
    rw [length_store] at this
    exact absurd this (Nat.ne_of_gt hw)
  have hle := h.length_le hne
  have htake := h.take
  rw [length_store] at hle htake
  refine ⟨tr ++ [.load off width], ?_⟩
  rw [readScalar_ok (c := ⟨off, i, tr⟩) hle, htake, load_store_of_lt hn]

theorem exact_readBool {msg : Message} {off : Nat} {b : Bool}
    (h : Stands msg off (store 1 b.toNat)) : Exact (readBool msg) off 1 b := by
  have hb : b.toNat < 256 ^ 1 := Nat.lt_of_lt_of_le b.toNat_lt (by decide)
  have := (exact_readScalar h Nat.one_pos hb).map (fun n => decide (n ≠ 0))
  cases b <;> exact this

theorem exact_readBytes {msg : Message} {off : Nat} {bs : List UInt8} (h : Stands msg off bs)
    (hoff : off ≤ msg.payloadNumBytes) : Exact (readBytes msg bs.length) off bs.length bs := by
  intro i tr
  have hle : off + bs.length ≤ msg.payloadNumBytes := by
    by_cases hne : bs = []
    · rw [hne]; exact hoff
    · exact h.length_le hne
  refine ⟨tr ++ [.load off bs.length], ?_⟩
  rw [readBytes, if_neg (Nat.not_lt.mpr hle), h.take]

theorem exact_readString {msg : Message} {off : Nat} {bs : List UInt8}
    (h : Stands msg off (store 4 bs.length ++ bs)) (hlen : bs.length < 2 ^ 32) :
    Exact (readString msg) off (4 + bs.length) bs := by
  have hne : store 4 bs.length ≠ [] := cons_ne_nil _ _
  have hoff := h.left.length_le hne
  have hbytes := h.right
  rw [length_store] at hoff hbytes
  exact (exact_readScalar h.left (by decide) hlen).bind (exact_readBytes hbytes hoff)

theorem exact_currentOffset (off : Nat) : Exact currentOffset off 0 off := fun _ tr => ⟨tr, rfl⟩

theorem exact_jumpTo {α : Type} {off stop len : Nat} {a : α} (hstop : stop = off + len) :
    Exact (do jumpTo stop; pure a) off len a := by
  intro i tr
  exact ⟨tr ++ [.jump off stop], by rw [← hstop]; rfl⟩

/-! ### Readers that take up handles -/

/-- What a reader started at `off` delivers, at every handle index. -/
structure Decodes {α : Type} (msg : Message) (rd : Reader α) (off len : Nat) (p : α)
    (ks : List Handle) (C : Prop) : Prop where
  complete : ∀ i tr, C → ks <+: msg.handles.drop i →
    ∃ tr', rd ⟨off, i, tr⟩ = .ok p ⟨off + len, i + ks.length, tr'⟩
  sound : ∀ i tr c, rd ⟨off, i, tr⟩ = .ok p c →
    C ∧ ks <+: msg.handles.drop i ∧ c.handleIdx = i + ks.length
  lands : ∀ i tr a c, rd ⟨off, i, tr⟩ = .ok a c → c.offset = off + len

theorem prefix_append_drop {α : Type} {ks ls xs : List α} {i : Nat} :
    ks ++ ls <+: xs.drop i ↔ ks <+: xs.drop i ∧ ls <+: xs.drop (i + ks.length) := by
  rw [← drop_drop]
  constructor
  · rintro ⟨rest, hrest⟩
    rw [List.append_assoc] at hrest
    refine ⟨⟨_, hrest⟩, ⟨rest, ?_⟩⟩
    rw [← hrest, drop_left]
  · rintro ⟨⟨rest, hrest⟩, hls⟩
    rw [← hrest, drop_left] at hls
    obtain ⟨rest', rfl⟩ := hls
    exact ⟨rest', by rw [List.append_assoc, hrest]⟩

namespace Decodes

variable {α β : Type} {msg : Message} {off l₁ l₂ : Nat} {rd : Reader α} {p : α} {q : β}
  {ks ls : List Handle} {C D : Prop}

theorem of_exact_eq {a : α} (h : Exact rd off l₁ a) : Decodes msg rd off l₁ p [] (a = p) where
  complete i tr ha _ := ha ▸ h i tr
  sound i tr c hc := by
    obtain ⟨tr', h⟩ := h i tr
    rw [h] at hc
    obtain ⟨ha, rfl⟩ := EStateM.Result.ok.inj hc
    exact ⟨ha, nil_prefix, rfl⟩
  lands i tr b c hc := by
    obtain ⟨tr', h⟩ := h i tr
    rw [h] at hc
    obtain ⟨_, rfl⟩ := EStateM.Result.ok.inj hc
    rfl

theorem congr (h : Decodes msg rd off l₁ p ks C) (hC : C ↔ D) : Decodes msg rd off l₁ p ks D where
  complete i tr hD := h.complete i tr (hC.mpr hD)
  sound i tr c hc := by
    obtain ⟨h₁, h₂⟩ := h.sound i tr c hc
    exact ⟨hC.mp h₁, h₂⟩
  lands := h.lands

theorem of_exact (h : Exact rd off l₁ p) : Decodes msg rd off l₁ p [] True :=
  (of_exact_eq h).congr (iff_of_true rfl trivial)

theorem exact_bind {a : α} {f : α → Reader β} (h : Exact rd off l₁ a)
    (hf : Decodes msg (f a) (off + l₁) l₂ q ks C) :
    Decodes msg (rd >>= f) off (l₁ + l₂) q ks C where
  complete i tr hC hks := by
    obtain ⟨tr₁, h₁⟩ := h i tr
    obtain ⟨tr₂, h₂⟩ := hf.complete i tr₁ hC hks
    exact ⟨tr₂, by rw [bind_ok h₁, h₂, Nat.add_assoc]⟩
  sound i tr c hc := by
    obtain ⟨tr₁, h₁⟩ := h i tr
    rw [bind_ok h₁] at hc
    exact hf.sound i tr₁ c hc
  lands i tr b c hc := by
    obtain ⟨tr₁, h₁⟩ := h i tr
    rw [bind_ok h₁] at hc
    rw [hf.lands i tr₁ b c hc, Nat.add_assoc]

theorem seq {γ : Type} {rd₂ : Reader β} {g : α → β → γ} (h : Decodes msg rd off l₁ p ks C)
    (h₂ : Decodes msg rd₂ (off + l₁) l₂ q ls D)
    (hg : ∀ a b, g a b = g p q → a = p ∧ b = q) :
    Decodes msg (do let a ← rd; let b ← rd₂; pure (g a b)) off (l₁ + l₂) (g p q) (ks ++ ls)
      (C ∧ D) where
  complete i tr hCD hpre := by
    obtain ⟨hks, hls⟩ := prefix_append_drop.mp hpre
    obtain ⟨tr₁, e₁⟩ := h.complete i tr hCD.1 hks
    obtain ⟨tr₂, e₂⟩ := h₂.complete _ tr₁ hCD.2 hls
    refine ⟨tr₂, ?_⟩
    rw [bind_ok e₁, bind_ok e₂, length_append, ← Nat.add_assoc, ← Nat.add_assoc]
    rfl
  sound i tr c hc := by
    obtain ⟨a, c₁, e₁, hc⟩ := bind_eq_ok.mp hc
    obtain ⟨b, c₂, e₂, hc⟩ := bind_eq_ok.mp hc
    obtain ⟨hab, rfl⟩ := EStateM.Result.ok.inj hc
    obtain ⟨rfl, rfl⟩ := hg a b hab
    obtain ⟨hC, hks, hi⟩ := h.sound i tr c₁ e₁
    obtain ⟨o₁, i₁, tr₁⟩ := c₁
    obtain rfl : o₁ = off + l₁ := h.lands i tr _ _ e₁
    obtain rfl : i₁ = i + ks.length := hi
    obtain ⟨hD, hls, hj⟩ := h₂.sound _ tr₁ c₂ e₂
    exact ⟨⟨hC, hD⟩, prefix_append_drop.mpr ⟨hks, hls⟩, by
      rw [hj, length_append, Nat.add_assoc]⟩
  lands i tr x c hc := by
    obtain ⟨a, c₁, e₁, hc⟩ := bind_eq_ok.mp hc
    obtain ⟨b, c₂, e₂, hc⟩ := bind_eq_ok.mp hc
    obtain ⟨-, rfl⟩ := EStateM.Result.ok.inj hc
    obtain ⟨o₁, i₁, tr₁⟩ := c₁
    obtain rfl : o₁ = off + l₁ := h.lands i tr _ _ e₁
    rw [h₂.lands i₁ tr₁ b c₂ e₂, Nat.add_assoc]

theorem map {g : α → β} (h : Decodes msg rd off l₁ p ks C) (hp : D → g p = q)
    (hg : ∀ i tr a c, rd ⟨off, i, tr⟩ = .ok a c → g a = q → a = p ∧ D) :
    Decodes msg (do let a ← rd; pure (g a)) off l₁ q ks (C ∧ D) where
  complete i tr hCD hks := by
    obtain ⟨tr₁, e₁⟩ := h.complete i tr hCD.1 hks
    exact ⟨tr₁, by rw [bind_ok e₁, hp hCD.2]; rfl⟩
  sound i tr c hc := by
    obtain ⟨a, c₁, e₁, hc⟩ := bind_eq_ok.mp hc
    obtain ⟨ha, rfl⟩ := EStateM.Result.ok.inj hc
    obtain ⟨rfl, hD⟩ := hg i tr a c₁ e₁ ha
    obtain ⟨hC, hrest⟩ := h.sound i tr c₁ e₁
    exact ⟨⟨hC, hD⟩, hrest⟩
  lands i tr x c hc := by
    obtain ⟨a, c₁, e₁, hc⟩ := bind_eq_ok.mp hc
    obtain ⟨-, rfl⟩ := EStateM.Result.ok.inj hc
    exact h.lands i tr a c₁ e₁

theorem map_inj {g : α → β} (h : Decodes msg rd off l₁ p ks C) (hg : ∀ a, g a = g p → a = p) :
    Decodes msg (do let a ← rd; pure (g a)) off l₁ (g p) ks C :=
  (h.map (D := True) (fun _ => rfl) (fun _ _ a _ _ ha => ⟨hg a ha, trivial⟩)).congr
    (and_iff_left trivial)

theorem jump {g : α → β} (h : Decodes msg rd off l₁ p ks C) (hg : ∀ a, g a = g p → a = p)
    {stop len : Nat} (hstop : stop = off + len) :
    Decodes msg (do let a ← rd; jumpTo stop; pure (g a)) off len (g p) ks C where
  complete i tr hC hks := by
    obtain ⟨tr₁, e₁⟩ := h.complete i tr hC hks
    exact ⟨tr₁ ++ [.jump (off + l₁) stop], by rw [bind_ok e₁, hstop]; rfl⟩
  sound i tr c hc := by
    obtain ⟨a, c₁, e₁, hc⟩ := bind_eq_ok.mp hc
    obtain ⟨ha, rfl⟩ := EStateM.Result.ok.inj hc
    obtain rfl := hg a ha
    obtain ⟨hC, hks, hi⟩ := h.sound i tr c₁ e₁
    exact ⟨hC, hks, hi⟩
  lands i tr x c hc := by
    obtain ⟨a, c₁, e₁, hc⟩ := bind_eq_ok.mp hc
    obtain ⟨-, rfl⟩ := EStateM.Result.ok.inj hc
    exact hstop

end Decodes

/-! ### Loops -/

/-- The readers one after the other. -/
def readAll {α : Type} : List (Reader α) → Reader (List α)
  | [] => pure []
  | rd :: rds => do
    let a ← rd
    let as ← readAll rds
    pure (a :: as)

/-- One round of a loop: the reader, the bytes it stands on, and what `Decodes` says of it. -/
structure Round (α : Type) where
  reader : Reader α
  bytes : List UInt8
  expected : α
  handles : List Handle
  condition : Prop

/-- Every round of a loop decodes wherever it may stand from `off` on. -/
def Round.Decodes {α : Type} (msg : Message) (off : Nat) (x : Round α) : Prop :=
  ∀ off', off ≤ off' → Stands msg off' x.bytes →
    Voodoo.Decodes msg x.reader off' x.bytes.length x.expected x.handles x.condition

/-- **A loop decodes if its rounds do.** -/
theorem decodes_readAll {α : Type} {msg : Message} {xs : List (Round α)} {off : Nat}
    (h : ∀ x ∈ xs, x.Decodes msg off) (hst : Stands msg off (xs.flatMap (·.bytes))) :
    Decodes msg (readAll (xs.map (·.reader))) off (xs.flatMap (·.bytes)).length
      (xs.map (·.expected)) (xs.flatMap (·.handles)) (∀ x ∈ xs, x.condition) := by
  induction xs generalizing off with
  | nil => exact (Decodes.of_exact (Exact.pure [])).congr (by simp)
  | cons x xs ih =>
    obtain ⟨hx, hxs⟩ := forall_mem_cons.mp h
    rw [flatMap_cons] at hst
    have hhead := hx off (Nat.le_refl off) hst.left
    have hlater : ∀ y ∈ xs, y.Decodes msg (off + x.bytes.length) :=
      fun y hy off' hle => hxs y hy off' (by omega)
    have htail := ih hlater hst.right
    have hseq := hhead.seq htail (g := List.cons) (fun a as hcons => List.cons.inj hcons)
    rw [flatMap_cons, length_append, flatMap_cons, map_cons, map_cons]
    exact hseq.congr (by rw [forall_mem_cons])

theorem length_of_readAll {α : Type} {rds : List (Reader α)} {c c' : Cursor} {as : List α}
    (h : readAll rds c = .ok as c') : as.length = rds.length := by
  induction rds generalizing c c' as with
  | nil =>
    obtain ⟨rfl, -⟩ := EStateM.Result.ok.inj h
    rfl
  | cons rd rds ih =>
    obtain ⟨a, c₁, -, h⟩ := bind_eq_ok.mp h
    obtain ⟨as, c₂, has, h⟩ := bind_eq_ok.mp h
    obtain ⟨rfl, -⟩ := EStateM.Result.ok.inj h
    rw [length_cons, length_cons, ih has]

/-! ### The frames -/

theorem Message.payload_concat (as : List Message) :
    (Message.concat as).payload = as.flatMap (·.payload) := by
  induction as with
  | nil => rfl
  | cons a as ih => rw [concat_cons, payload_append, ih, flatMap_cons]

theorem Message.handles_concat (as : List Message) :
    (Message.concat as).handles = as.flatMap (·.handles) := by
  induction as with
  | nil => rfl
  | cons a as ih => rw [concat_cons, handles_append, ih, flatMap_cons]

/-- **Reading a struct frame** comes down to reading the fields behind the header: the sizes the
writer put there are right, so every check passes, and whatever the fields leave unread of the
struct is jumped over. -/
theorem decodes_readStruct {msg : Message} {s t : StructDecl} {body : Message} {off l : Nat}
    {read : Nat → TypeSpec → Reader Val} {out members : List Val} {ks : List Handle} {C : Prop}
    (hst : Stands msg off (frameStruct s body).payload)
    (hfields : Decodes msg (readFields t s.version (read s.version) t.wireFieldOrder out) (off + 8) l
      members ks C) :
    Decodes msg (readStruct msg t read out) off (frameStruct s body).payload.length
      (.struct members) ks C := by
  have hlen : (frameStruct s body).payload.length = 4 + (4 + (0 + body.payload.length)) := by
    simp [frameStruct]
  have hend := hst.length_le (cons_ne_nil _ _)
  have hmax : msg.payloadNumBytes < 2 ^ 32 := Nat.mod_lt _ (by decide)
  rw [hlen] at hend ⊢
  have hsize := exact_readScalar hst.left (by decide) (show 8 + body.payload.length < 256 ^ 4 by omega)
  have hversion := exact_readScalar hst.right.left (by decide) (show s.version < 256 ^ 4 from s.version_lt)
  rw [length_store] at hversion
  refine Decodes.exact_bind hsize (Decodes.exact_bind hversion ?_)
  rw [if_neg (by omega)]
  refine Decodes.exact_bind (exact_currentOffset _) ?_
  rw [if_neg (by omega)]
  exact hfields.jump (fun _ h => Val.struct.inj h) (by omega)

/-- **Reading a union frame** whose variant the reader has. -/
theorem decodes_readUnion {msg : Message} {u : UnionDecl} {tag : BitVec 32} {body : Message}
    {off l : Nat} {read : TypeSpec → Reader Val} {fresh : TypeSpec → Val} {f : UnionField} {v : Val}
    {ks : List Handle} {C : Prop} (hst : Stands msg off (frameUnion tag body).payload)
    (hf : u.caseFor tag = some f) (hbody : Decodes msg (read f.type) (off + 8) l v ks C) :
    Decodes msg (readUnion msg u read fresh) off (frameUnion tag body).payload.length
      (.union tag v) ks C := by
  have hlen : (frameUnion tag body).payload.length = 4 + (0 + (4 + body.payload.length)) := by
    simp [frameUnion]
  have hend := hst.length_le (cons_ne_nil _ _)
  have hmax : msg.payloadNumBytes < 2 ^ 32 := Nat.mod_lt _ (by decide)
  rw [hlen] at hend ⊢
  have hsize := exact_readScalar hst.left (by decide) (show 8 + body.payload.length < 256 ^ 4 by omega)
  have htag := exact_readScalar hst.right.left (by decide) (show tag.toNat < 256 ^ 4 from tag.isLt)
  rw [length_store] at htag
  refine Decodes.exact_bind hsize ?_
  rw [if_neg (by omega)]
  refine Decodes.exact_bind (exact_currentOffset _) ?_
  rw [if_neg (by omega)]
  refine Decodes.exact_bind htag ?_
  simp only [BitVec.ofNat_toNat, BitVec.setWidth_eq, hf]
  rw [UnionDecl.tag_of_caseFor hf]
  exact hbody.jump (fun _ h => (Val.union.inj h).2) (by omega)

/-- **Skipping a union frame** whose variant the reader does not have. -/
theorem exact_readUnion {msg : Message} {u : UnionDecl} {tag : BitVec 32} {body : Message}
    {off : Nat} {read : TypeSpec → Reader Val} {fresh : TypeSpec → Val}
    (hst : Stands msg off (frameUnion tag body).payload) (hf : u.caseFor tag = none)
    (hext : u.isExtensible = true) :
    Exact (readUnion msg u read fresh) off (frameUnion tag body).payload.length
      (unionFallback u fresh) := by
  have hlen : (frameUnion tag body).payload.length = 4 + (0 + (4 + body.payload.length)) := by
    simp [frameUnion]
  have hend := hst.length_le (cons_ne_nil _ _)
  have hmax : msg.payloadNumBytes < 2 ^ 32 := Nat.mod_lt _ (by decide)
  rw [hlen] at hend ⊢
  have hsize := exact_readScalar hst.left (by decide) (show 8 + body.payload.length < 256 ^ 4 by omega)
  have htag := exact_readScalar hst.right.left (by decide) (show tag.toNat < 256 ^ 4 from tag.isLt)
  rw [length_store] at htag
  refine hsize.bind ?_
  rw [if_neg (by omega)]
  refine (exact_currentOffset _).bind ?_
  rw [if_neg (by omega)]
  refine htag.bind ?_
  simp only [BitVec.ofNat_toNat, BitVec.setWidth_eq, hf, hext, if_true]
  exact exact_jumpTo (by omega)

end Voodoo
