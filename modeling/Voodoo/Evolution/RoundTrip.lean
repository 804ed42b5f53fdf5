import Mathlib.Data.List.Infix
import Voodoo.Evolution.Decode
import Voodoo.Wire.Progress

/-!
# Reading back what was written

With the same version on both sides, what a reader is meant to end up with is the
value that was written (`received_full`), so `decodes_value` becomes a round trip.
It is stated here of the generated writer, run at the end of any message.
-/

namespace Voodoo

open LittleEndian StableOrder EState List Option

/-! ### One version on both sides -/

section full

variable {graph : List Module} {file m : Module}

theorem spread_of_true {β : Type} {keeps : StructField → Bool} (hkeep : ∀ f, keeps f = true)
    {fs : List StructField} {xs : List β} (hlen : fs.length = xs.length) :
    spread keeps fs xs = (fs.zip xs).map (fun p => (p.1, some p.2)) := by
  induction fs generalizing xs with
  | nil => rfl
  | cons f fs ih =>
    cases xs with
    | nil => cases hlen
    | cons x xs =>
      rw [spread, if_pos (hkeep f), tail_cons, ih (Nat.succ.inj hlen)]
      rfl

theorem shared_full {β : Type} {s : StructDecl} {xs : List β} (hlen : s.fields.length = xs.length) :
    shared .full .full m s xs = (s.fields.zip xs).map (fun p => (p.1, some p.2)) := by
  have hkeep : ∀ f, Profile.full.keepsField m f = true := fun _ => rfl
  rw [shared, spread_of_true hkeep hlen]
  exact filter_eq_self.mpr (fun _ _ => rfl)

theorem map_eq_self {α : Type} {g : α → α} {l : List α} (h : ∀ a ∈ l, g a = a) : l.map g = l := by
  conv_rhs => rw [← List.map_id l]
  exact map_congr_left h

/-- **A reader of the writer's own version is meant to get everything.** -/
theorem received_full {type : TypeSpec} {v : Val} (h : HasType graph file type v) :
    received graph .full .full file type v = ⟨v, (encodeValue graph file type v).handles⟩ := by
  induction h with
  | scalar hbits => rfl
  | string hlen => rfl
  | enum value => rfl
  | @struct file m ref s members hr hlen hmem ih =>
    have hmembers : (s.fields.zip members).map (fun p =>
        (received graph .full .full m p.1.type p.2).val) = members := by
      calc (s.fields.zip members).map (fun p => (received graph .full .full m p.1.type p.2).val)
          = (s.fields.zip members).map Prod.snd :=
            map_congr_left (fun p hp => by rw [ih p hp])
        _ = members := map_snd_zip (Nat.le_of_eq hlen.symm)
    have hhandles : ∀ p ∈ inWireOrder s.fields members,
        (received graph .full .full m p.1.type p.2).handles =
          (encodeValue graph m p.1.type p.2).handles :=
      fun p hp => by rw [ih p (mem_sortBy.mp hp)]
    have hwritten : ((s.fields.zip members).map (fun p => (p.1, some p.2))).filterMap written =
        s.fields.zip members := by
      rw [filterMap_map]
      exact filterMap_some
    rw [received_struct hr, encodeValue_struct hr, shared_full hlen, List.map_map, hwritten]
    refine congrArg₂ Received.mk (congrArg Val.struct hmembers) ?_
    show _ = (Message.concat _).handles
    rw [Message.handles_concat, flatMap_map]
    exact flatMap_congr hhandles
  | @union file m ref u f tag v hr hf hv ih =>
    rw [received_variant hr (by rw [Profile.full_union]; exact hf), encodeValue_union hr hf, ih]
    rfl
  | unknown hr hext => rfl
  | @array file element n elements hlen hfixed helem ih =>
    rw [received_array, encodeValue_array]
    refine congrArg₂ Received.mk (congrArg Val.array (map_eq_self (fun v hv => by rw [ih v hv]))) ?_
    have hprefix : (lengthPrefix n elements.length).handles = [] := by
      unfold lengthPrefix
      split <;> rfl
    rw [Message.handles_append, hprefix, nil_append, Message.handles_concat, flatMap_map]
    exact flatMap_congr (fun v hv => by rw [ih v hv])
  | @map file key element entries hlen hkeys hkey helem ihk ihe =>
    rw [received_map, encodeValue_map]
    refine congrArg₂ Received.mk
      (congrArg Val.map (map_eq_self (fun e he => by rw [ihk e he, ihe e he]))) ?_
    rw [Message.handles_append, nil_append, Message.handles_concat, flatMap_map]
    exact flatMap_congr (fun e he => by rw [ihk e he, ihe e he]; rfl)
  | @handle file kind interface v hv => cases v <;> rfl
  | null => rfl
  | @some file type v hv ih =>
    show Received.mk (.some (received graph .full .full file type v).val) _ = _
    rw [ih]
    rfl

end full

/-! ### A value written and read back -/

/-- The writer generated for `type`, run at the end of `msg`, and then the reader, run where the
writer began: the reader delivers the value, and ends where the writer did. -/
def RoundTrip (graph : List Module) (file : Module) (version : Option Nat) (type : TypeSpec)
    (v : Val) (msg : Message) : Prop :=
  let written := writeValue graph file type v msg
  ∃ trace, readValue graph written file version type ⟨msg.payload.length, msg.handles.length, []⟩ =
    .ok v ⟨written.payload.length, written.handles.length, trace⟩

/-- The message can be counted in 32 bits up to the end of the encoding, unless the encoding is
empty. -/
def Countable (msg enc : Message) : Prop :=
  enc.payload = [] ∨ msg.payload.length + enc.payload.length < 2 ^ 32

theorem stands_append {msg enc : Message} (h : Countable msg enc) :
    Stands (msg ++ enc) msg.payload.length enc.payload :=
  ⟨by rw [Message.payload_append, drop_left], h.imp_right (fun h => by
    rw [Message.payload_append, length_append]
    exact h)⟩

theorem countable_of_read {α : Type} {msg enc whole : Message} {rd : Reader α} {c : Cursor} {a : α}
    (hrd : Progress whole 0 rd)
    (hlen : whole.payload.length = msg.payload.length + enc.payload.length) {i : Nat}
    (h : rd ⟨msg.payload.length, i, []⟩ = .ok a c) (hc : c.offset = whole.payload.length) :
    Countable msg enc := by
  have hmod : whole.payloadNumBytes < 2 ^ 32 := Nat.mod_lt _ (by decide)
  obtain ⟨-, hmove⟩ := hrd.of_ok (Nat.zero_le _) h
  rw [hc] at hmove
  by_cases hnil : enc.payload = []
  · exact Or.inl hnil
  · have hpos := length_pos_of_ne_nil hnil
    have hmove : whole.payload.length = msg.payload.length ∨
        whole.payload.length ≤ whole.payloadNumBytes := hmove
    exact Or.inr (by omega)

theorem decodes_encodeValue {graph : List Module} {file : Module} {type : TypeSpec} {v : Val}
    (hv : HasType graph file type v) (version : Option Nat) {whole : Message} {off : Nat}
    (hst : Stands whole off (encodeValue graph file type v).payload) :
    Decodes whole (readValue graph whole file version type) off
      (encodeValue graph file type v).payload.length v (encodeValue graph file type v).handles
      (ReadableThroughout graph .full .full ⟨file, version, type, v⟩) := by
  have h := @decodes_readValue graph .full .full file type v
    (by rwa [Profile.full_graph, Profile.full_module]) version whole off
    (by rwa [Profile.full_graph, Profile.full_module])
  rwa [Profile.full_graph, Profile.full_module, received_full hv] at h

/-- **A value comes back as it was written** exactly if the reader finds everything in it readable
and the message can be counted. -/
theorem roundTrip_iff_readable {graph : List Module} {file : Module} {type : TypeSpec} {v : Val}
    (hv : HasType graph file type v) (version : Option Nat) (msg : Message) :
    RoundTrip graph file version type v msg ↔
      ReadableThroughout graph .full .full ⟨file, version, type, v⟩ ∧
        Countable msg (encodeValue graph file type v) := by
  have hwrites := writes_value hv
  constructor
  · rintro ⟨trace, hread⟩
    have hcount : Countable msg (encodeValue graph file type v) :=
      countable_of_read (Progress.readValue graph file version type) (hwrites.length msg) hread rfl
    rw [hwrites.eq_append msg hcount] at hread
    exact ⟨((decodes_encodeValue hv version (stands_append hcount)).sound _ _ _ hread).1, hcount⟩
  · rintro ⟨hreadable, hcount⟩
    have hks : (encodeValue graph file type v).handles <+:
        (msg ++ encodeValue graph file type v).handles.drop msg.handles.length := by
      rw [Message.handles_append, drop_left]
    obtain ⟨trace, hread⟩ :=
      (decodes_encodeValue hv version (stands_append hcount)).complete msg.handles.length []
        hreadable hks
    refine ⟨trace, ?_⟩
    rw [hwrites.eq_append msg hcount, hread, Message.payload_append, length_append,
      Message.handles_append, length_append]

/-- **No encoding begins another one**: of two values of a type that come back as they were written,
neither has bytes and handles that those of the other begin with. -/
theorem encodeValue_prefixFree {graph : List Module} {file : Module} {version : Option Nat}
    {type : TypeSpec} {v w : Val} (hv : HasType graph file type v) (hw : HasType graph file type w)
    (hback : RoundTrip graph file version type v {}) (hback' : RoundTrip graph file version type w {})
    (hpayload : (encodeValue graph file type v).payload <+: (encodeValue graph file type w).payload)
    (hhandles : (encodeValue graph file type v).handles <+: (encodeValue graph file type w).handles) :
    v = w := by
  obtain ⟨hread, -⟩ := (roundTrip_iff_readable hv version {}).mp hback
  obtain ⟨hread', hcount⟩ := (roundTrip_iff_readable hw version {}).mp hback'
  have hsize : (encodeValue graph file type w).payload = [] ∨
      (encodeValue graph file type w).payload.length < 2 ^ 32 :=
    hcount.imp_right fun h => (Nat.zero_add _).symm.trans_lt h
  have hstands : Stands (encodeValue graph file type w) 0 (encodeValue graph file type v).payload :=
    ⟨hpayload, hsize.imp_left fun h => prefix_nil.mp (hpayload.trans (prefix_nil.mpr h))⟩
  have hstands' : Stands (encodeValue graph file type w) 0 (encodeValue graph file type w).payload :=
    ⟨prefix_refl _, hsize⟩
  obtain ⟨_, hrun⟩ := (decodes_encodeValue hv version hstands).complete 0 [] hread hhandles
  obtain ⟨_, hrun'⟩ := (decodes_encodeValue hw version hstands').complete 0 [] hread' (prefix_refl _)
  exact (EStateM.Result.ok.inj (hrun.symm.trans hrun')).1

theorem encodeValue_prefixFree_string : Val.string [97] = Val.string [97] :=
  have hv : HasType [] {} .string (.string [97]) := .string (by decide)
  have hback : RoundTrip [] {} none .string (.string [97]) {} := ⟨_, rfl⟩
  encodeValue_prefixFree hv hv hback hback (prefix_refl _) (prefix_refl _)

/-! ### The enum values in it -/

section enums

variable {graph : List Module} {w r : Profile}

/-- The value of an enum is that of a declared enumerator satisfying `P`. -/
def HoldsEnumerator (graph : List Module) (P : EnumValue → Prop) (a : Site) : Prop :=
  ∀ ref value, a.type = .enumRef ref → a.val = .enum value →
    ∃ m e x, resolveEnum graph a.file ref = some (m, e) ∧ x ∈ e.values ∧ x.value = value ∧ P x

/-- Where a struct version decides, the first enumerator declared with the value is no newer than
the struct. -/
def NotShadowed (graph : List Module) (a : Site) : Prop :=
  ∀ ref value version m e x, a.type = .enumRef ref → a.val = .enum value →
    a.version = some version → a.file.isEnumExtensible ref.name = false →
    resolveEnum graph a.file ref = some (m, e) → e.caseFor value = some x →
    x.minVersion.toNat ≤ version

theorem EnumDecl.exists_caseFor {e : EnumDecl} {x : EnumValue} (h : x ∈ e.values) :
    ∃ y, e.caseFor x.value = some y ∧ y ∈ e.values ∧ y.value = x.value := by
  cases hy : e.caseFor x.value with
  | none =>
    have := find?_eq_none.mp hy x h
    exact absurd (beq_self_eq_true x.value) this
  | some y =>
    exact ⟨y, rfl, mem_of_find?_eq_some hy, beq_iff_eq.mp (find?_some hy :)⟩

theorem EnumDecl.isKnownAsOf_iff {e : EnumDecl} {value : BitVec 32} {version : Nat} {x : EnumValue}
    (h : e.caseFor value = some x) :
    e.isKnownAsOf value version = true ↔ x.minVersion.toNat ≤ version := by
  rw [isKnownAsOf, h]
  dsimp only
  split
  · rename_i hzero
    exact iff_of_true rfl (by rw [hzero]; exact Nat.zero_le _)
  · exact decide_eq_true_iff

theorem enumAccepted_iff {P : EnumValue → Prop} {a : Site} (h : HoldsEnumerator graph P a) :
    EnumAccepted graph a ↔ NotShadowed graph a := by
  constructor
  · intro hacc ref value version m e x htype hval hversion hext hr hx
    have hacc := hacc ref value htype hval
    rw [acceptsEnum, if_neg (by rw [hext]; exact Bool.false_ne_true), hr, hversion] at hacc
    exact (EnumDecl.isKnownAsOf_iff hx).mp hacc
  · intro hshadow ref value htype hval
    obtain ⟨m, e, x, hr, hx, rfl, -⟩ := h ref value htype hval
    obtain ⟨y, hy, -, -⟩ := EnumDecl.exists_caseFor hx
    unfold acceptsEnum
    cases hext : a.file.isEnumExtensible ref.name with
    | true => rfl
    | false =>
      rw [if_neg Bool.false_ne_true, hr]
      cases hversion : a.version with
      | none => exact isSome_iff_exists.mpr ⟨y, hy⟩
      | some version =>
        exact (EnumDecl.isKnownAsOf_iff hy).mpr
          (hshadow ref x.value version m e y htype hval hversion hext hr hy)

end enums

/-! ### What is met in a well-typed value -/

section typed

variable {graph : List Module} {w r : Profile} {P Q : Site → Prop} {a : Site}

theorem Throughout.congr (hP : Throughout graph w r P a) {Q' : Site → Prop}
    (h : ∀ b, P b → (Q b ↔ Q' b)) : Throughout graph w r Q a ↔ Throughout graph w r Q' a :=
  forall₂_congr (fun b hab => h b (hP b hab))

theorem Throughout.and (hP : Throughout graph w r P a) (hQ : Throughout graph w r Q a) :
    Throughout graph w r (fun b => P b ∧ Q b) a := fun b hab => ⟨hP b hab, hQ b hab⟩

theorem Throughout.of_part (ha : P a) (hstep : ∀ b c, P b → Part graph w r b c → P c) :
    Throughout graph w r P a := by
  intro b hab
  induction hab with
  | refl => exact ha
  | tail _ hbc ih => exact hstep _ _ ih hbc

def Site.Typed (graph : List Module) (a : Site) : Prop := HasType graph a.file a.type a.val

theorem typed_part {b c : Site} (hb : b.Typed graph) (h : Part graph .full .full b c) :
    c.Typed graph := by
  cases h with
  | some => cases hb with | some hv => exact hv
  | element hv => cases hb with | array _ _ helem => exact helem _ hv
  | key he => cases hb with | map _ _ hkey _ => exact hkey _ he
  | value he => cases hb with | map _ _ _ helem => exact helem _ he
  | field hr hp hkeep =>
    cases hb with
    | struct hr' hlen hmem =>
      obtain ⟨rfl, rfl⟩ := Prod.mk.inj (some.inj (hr.symm.trans hr'))
      rw [Profile.full_struct] at hp
      exact hmem _ hp
  | variant hr hf =>
    cases hb with
    | union hr' hf' hv =>
      obtain ⟨rfl, rfl⟩ := Prod.mk.inj (some.inj (hr.symm.trans hr'))
      rw [Profile.full_union] at hf
      obtain rfl := some.inj (hf.symm.trans hf')
      exact hv

theorem keysDistinct_of_typed {a : Site} (ha : a.Typed graph) : KeysDistinct graph .full .full a := by
  rintro key type entries htype hval
  obtain ⟨file, version, t, v⟩ := a
  obtain rfl : t = .map key type := htype
  obtain rfl : v = .map entries := hval
  cases ha with
  | map hlen hkeys hkey helem =>
    have hsame : entries.map (fun e => (received graph .full .full file key e.1).val) =
        entries.map Prod.fst :=
      map_congr_left (fun e he => by rw [received_full (hkey e he)])
    show (entries.map (fun e => (received graph .full .full file key e.1).val)).Nodup
    rw [hsame]
    exact hkeys

theorem readableThroughout_iff {file : Module} {version : Option Nat} {type : TypeSpec} {v : Val}
    {P : EnumValue → Prop} (hv : HasType graph file type v)
    (henum : Throughout graph .full .full (HoldsEnumerator graph P) ⟨file, version, type, v⟩)
    (hvariant : Throughout graph .full .full (fun a => a.val ≠ .unknown)
      ⟨file, version, type, v⟩) :
    ReadableThroughout graph .full .full ⟨file, version, type, v⟩ ↔
      Throughout graph .full .full (NotShadowed graph) ⟨file, version, type, v⟩ := by
  have htyped : Throughout graph .full .full (Site.Typed graph) ⟨file, version, type, v⟩ :=
    Throughout.of_part hv (fun _ _ => typed_part)
  refine ((henum.and hvariant).and htyped).congr (fun b hb => ?_)
  obtain ⟨⟨hbenum, hbvariant⟩, hbtyped⟩ := hb
  rw [← enumAccepted_iff hbenum]
  exact ⟨fun h => h.accepted, fun h =>
    ⟨h, fun _ _ _ _ hunknown => absurd hunknown hbvariant, keysDistinct_of_typed hbtyped⟩⟩

end typed

/-- `enum E { ... }; struct S { E e; };` -/
def enumInStruct (values : List EnumValue) : Module :=
  { enums := [{ name := "E", values := values }]
    structs := [{ name := "S", fields := [{ type := .enumRef { name := "E" }, name := "e" }] }] }

theorem throughout_enumInStruct {values : List EnumValue} {Q : Site → Prop} {value : BitVec 32}
    (hs : Q ⟨enumInStruct values, none, .structRef { name := "S" }, .struct [.enum value]⟩)
    (he : Q ⟨enumInStruct values, some 0, .enumRef { name := "E" }, .enum value⟩) :
    Throughout [enumInStruct values] .full .full Q
      ⟨enumInStruct values, none, .structRef { name := "S" }, .struct [.enum value]⟩ := by
  refine throughout_iff.mpr ⟨hs, fun b hb => throughout_iff.mpr ?_⟩
  cases hb with
  | field hr hp hkeep =>
    obtain ⟨rfl, rfl⟩ := Prod.mk.inj (some.inj (hr.symm.trans rfl))
    obtain rfl := mem_singleton.mp hp
    exact ⟨he, fun c hc => by cases hc⟩

theorem typed_enumInStruct (values : List EnumValue) (value : BitVec 32) :
    HasType [enumInStruct values] (enumInStruct values) (.structRef { name := "S" })
      (.struct [.enum value]) :=
  .struct rfl rfl (fun p hp => by
    obtain rfl := mem_singleton.mp hp
    exact .enum value)

theorem holdsEnumerator_enumInStruct {values : List EnumValue} {P : EnumValue → Prop}
    {x : EnumValue} (hx : x ∈ values) (hP : P x) :
    Throughout [enumInStruct values] .full .full (HoldsEnumerator [enumInStruct values] P)
      ⟨enumInStruct values, none, .structRef { name := "S" }, .struct [.enum x.value]⟩ :=
  throughout_enumInStruct (fun _ _ h => nomatch h) (by
    rintro _ _ ⟨rfl⟩ ⟨rfl⟩
    exact ⟨_, _, x, rfl, hx, rfl, hP⟩)

/-- `enum E { [MinVersion=5] kA = 1, kB = kA, kC }; struct S { E e; };` -/
def aliased : Module :=
  enumInStruct [{ name := "kA", value := 1, minVersion := 5 }, { name := "kB", value := 1 },
    { name := "kC", value := 2 }]

/-- The enum is declared in the file that reads it or is not extensible, the value is that of one
of its enumerators, and enumerators of the same value are of the same version. -/
def Settled (graph : List Module) (a : Site) : Prop :=
  ∀ ref value, a.type = .enumRef ref → a.val = .enum value →
    ∃ m e x, resolveEnum graph a.file ref = some (m, e) ∧ x ∈ e.values ∧ x.value = value ∧
      (∀ y ∈ e.values, y.value = value → y.minVersion = x.minVersion) ∧
      a.file.isEnumExtensible ref.name = e.isExtensible

/-- An enumerator inside a struct is no newer than the struct, unless its enum is extensible. -/
def Timely (graph : List Module) (a : Site) : Prop :=
  ∀ ref value version m e x, a.type = .enumRef ref → a.val = .enum value →
    a.version = some version → resolveEnum graph a.file ref = some (m, e) → x ∈ e.values →
    x.value = value → e.isExtensible = true ∨ x.minVersion.toNat ≤ version

theorem Settled.holdsEnumerator {graph : List Module} {a : Site} (h : Settled graph a) :
    HoldsEnumerator graph (fun _ => True) a := by
  intro ref value htype hval
  obtain ⟨m, e, x, hr, hx, hvalue, -⟩ := h ref value htype hval
  exact ⟨m, e, x, hr, hx, hvalue, trivial⟩

theorem notShadowed_iff_timely {graph : List Module} {a : Site} (h : Settled graph a) :
    NotShadowed graph a ↔ Timely graph a := by
  constructor
  · rintro hshadow ref value version m e x htype hval hversion hr hx rfl
    obtain ⟨m', e', x', hr', -, hvalue', hsame, hext⟩ := h ref x.value htype hval
    obtain ⟨rfl, rfl⟩ := Prod.mk.inj (some.inj (hr.symm.trans hr'))
    obtain ⟨y, hy, hymem, hyvalue⟩ := EnumDecl.exists_caseFor hx
    cases he : e.isExtensible with
    | true => exact Or.inl rfl
    | false =>
      have hle := hshadow ref x.value version m e y htype hval hversion (hext.trans he) hr hy
      rw [hsame x hx rfl, ← hsame y hymem hyvalue]
      exact Or.inr hle
  · intro htimely ref value version m e x htype hval hversion hnot hr hx
    obtain ⟨m', e', x', hr', -, -, -, hext⟩ := h ref value htype hval
    obtain ⟨rfl, rfl⟩ := Prod.mk.inj (some.inj (hr.symm.trans hr'))
    rcases htimely ref value version m e x htype hval hversion hr (mem_of_find?_eq_some hx)
      (beq_iff_eq.mp (find?_some hx :)) with hyes | hle
    · rw [hext, hyes] at hnot
      cases hnot
    · exact hle

/-- **Enumerators and struct versions.**  A struct is accepted with the enumerators it was written
with exactly if each of them that a struct holds is no newer than that struct, or of an extensible
enum. -/
theorem enum_roundTrip_iff {graph : List Module} {file : Module} {ref : TypeRef}
    {members : List Val} (hv : HasType graph file (.structRef ref) (.struct members))
    (hsettled : Throughout graph .full .full (Settled graph)
      ⟨file, none, .structRef ref, .struct members⟩)
    (hvariant : Throughout graph .full .full (fun a => a.val ≠ .unknown)
      ⟨file, none, .structRef ref, .struct members⟩)
    (msg : Message) :
    RoundTrip graph file none (.structRef ref) (.struct members) msg ↔
      Throughout graph .full .full (Timely graph) ⟨file, none, .structRef ref, .struct members⟩ ∧
        Countable msg (encodeValue graph file (.structRef ref) (.struct members)) := by
  have henum : Throughout graph .full .full (HoldsEnumerator graph (fun _ => True))
      ⟨file, none, .structRef ref, .struct members⟩ := fun b hb => (hsettled b hb).holdsEnumerator
  rw [roundTrip_iff_readable hv, readableThroughout_iff hv henum hvariant,
    hsettled.congr (fun _ hb => notShadowed_iff_timely hb)]

/-- `enum E { kA, [MinVersion=5] kB }; struct S { E e; };` -/
def versioned : Module :=
  enumInStruct [{ name := "kA", value := 0 }, { name := "kB", value := 1, minVersion := 5 }]

/-- `kA` is of version 0, as `S` is. -/
theorem enum_roundTrip_kA :
    RoundTrip [versioned] versioned none (.structRef { name := "S" }) (.struct [.enum 0]) {} := by
  refine (enum_roundTrip_iff (typed_enumInStruct _ 0) (throughout_enumInStruct nofun ?_)
    (throughout_enumInStruct nofun nofun) {}).mpr
      ⟨throughout_enumInStruct nofun ?_, Or.inr (by decide)⟩
  · rintro _ _ ⟨rfl⟩ ⟨rfl⟩
    exact ⟨_, _, { name := "kA", value := 0 }, rfl, by decide, rfl, by decide, rfl⟩
  · rintro _ _ _ m e x ⟨rfl⟩ ⟨rfl⟩ ⟨rfl⟩ hr hx hvalue
    obtain ⟨rfl, rfl⟩ := Prod.mk.inj (some.inj (hr.symm.trans rfl))
    have hall : ∀ y ∈ [({ name := "kA", value := 0 } : EnumValue),
        { name := "kB", value := 1, minVersion := 5 }], y.value = 0 → y.minVersion.toNat ≤ 0 := by
      decide
    exact Or.inr (hall x hx hvalue)

/-- `kB` is newer than `S` and refused. -/
theorem not_enum_roundTrip_kB :
    HasType [versioned] versioned (.structRef { name := "S" }) (.struct [.enum 1]) ∧
    Throughout [versioned] .full .full (HoldsEnumerator [versioned] (·.name = "kB"))
      ⟨versioned, none, .structRef { name := "S" }, .struct [.enum 1]⟩ ∧
    ¬ RoundTrip [versioned] versioned none (.structRef { name := "S" }) (.struct [.enum 1]) {} := by
  refine ⟨typed_enumInStruct _ 1, holdsEnumerator_enumInStruct
    (x := { name := "kB", value := 1, minVersion := 5 }) (by decide) rfl, ?_⟩
  rintro ⟨trace, h⟩
  cases h

end Voodoo
