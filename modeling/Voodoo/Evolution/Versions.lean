import Voodoo.Evolution.RoundTrip

/-!
# A message between two versions

The parameters of a call, written by one version of some files and read by the
other.  `delivers_iff_readable` says when the reader gets all it is meant to get:
each argument is readable, the message can be counted, and the handles that belong
to what the reader gets are the first ones attached.

Without handles the last condition is void, and what is left are corner cases
(`delivers_iff_of_handleFree`).  With handles it is the one that matters: a field
the reader does not know is skipped with its bytes but not with its handles.
-/

namespace Voodoo

open LittleEndian StableOrder EState List

variable {graph : List Module} {w r : Profile} {file : Module}

/-! ### The parameters of a call -/

/-- What the reader is meant to get. -/
def receivedParams (graph : List Module) (w r : Profile) (file : Module) (params : List Param)
    (args : List Val) : List Received :=
  List.zipWith (fun p v => received graph w r file p.type v) params args

/-- The arguments as sites of reading: no struct version decides at the top. -/
def sites (file : Module) (params : List Param) (args : List Val) : List Site :=
  List.zipWith (fun p v => ⟨file, none, p.type, v⟩) params args

theorem decodes_readParams {params : List Param} {args : List Val}
    (h : HasTypes (w.graph graph) (w.module file) params args) {msg : Message} {off : Nat}
    (hst : Stands msg off (encodeParams (w.graph graph) (w.module file) params args).payload) :
    Decodes msg (readParams (r.graph graph) msg (r.module file) params) off
      (encodeParams (w.graph graph) (w.module file) params args).payload.length
      ((receivedParams graph w r file params args).map (·.val))
      ((receivedParams graph w r file params args).flatMap (·.handles))
      (∀ a ∈ sites file params args, ReadableThroughout graph w r a) := by
  induction h generalizing off with
  | nil => exact (Decodes.of_exact (Exact.pure [])).congr (iff_of_true trivial nofun)
  | @cons p v params args hv hargs ih =>
    have hst : Stands msg off ((encodeValue (w.graph graph) (w.module file) p.type v).payload ++
        (encodeParams (w.graph graph) (w.module file) params args).payload) := hst
    have hhead := decodes_readValue (r := r) hv none hst.left
    have hseq := hhead.seq (ih hst.right) (g := List.cons) (fun a as hcons => List.cons.inj hcons)
    have hlen : (encodeParams (w.graph graph) (w.module file) (p :: params)
        (v :: args)).payload.length =
        (encodeValue (w.graph graph) (w.module file) p.type v).payload.length +
          (encodeParams (w.graph graph) (w.module file) params args).payload.length :=
      length_append
    rw [hlen]
    exact hseq.congr forall_mem_cons.symm

/-- The message the writer of version `w` sends. -/
def sent (graph : List Module) (w : Profile) (file : Module) (params : List Param)
    (args : List Val) : Message :=
  writeParams (w.graph graph) (w.module file) params args {}

/-- The reader of version `r` gets what it is meant to get, and has then come to the end of the
message. -/
def Delivers (graph : List Module) (w r : Profile) (file : Module) (params : List Param)
    (args : List Val) : Prop :=
  ∃ c, readParams (r.graph graph) (sent graph w file params args) (r.module file) params {} =
      .ok ((receivedParams graph w r file params args).map (·.val)) c ∧
    c.offset = (sent graph w file params args).payload.length

/-- **A message arrives as it is meant to** exactly if each argument is readable, the message can
be counted, and the handles meant for the reader are the first ones attached. -/
theorem delivers_iff_readable {params : List Param} {args : List Val}
    (h : HasTypes (w.graph graph) (w.module file) params args) :
    Delivers graph w r file params args ↔
      (∀ a ∈ sites file params args, ReadableThroughout graph w r a) ∧
      (receivedParams graph w r file params args).flatMap (·.handles) <+:
        (encodeParams (w.graph graph) (w.module file) params args).handles ∧
      Countable {} (encodeParams (w.graph graph) (w.module file) params args) := by
  have hwrites := writes_params h
  have hsent : Countable {} (encodeParams (w.graph graph) (w.module file) params args) →
      sent graph w file params args = {} ++ encodeParams (w.graph graph) (w.module file) params args :=
    hwrites.eq_append {}
  constructor
  · rintro ⟨c, hread, hend⟩
    have hcount : Countable {} (encodeParams (w.graph graph) (w.module file) params args) :=
      countable_of_read (Progress.readParams (r.graph graph) (r.module file) params)
        (hwrites.length {}) hread hend
    rw [hsent hcount] at hread
    obtain ⟨hreadable, hks, -⟩ :=
      (decodes_readParams (r := r) h (stands_append hcount)).sound 0 [] c hread
    exact ⟨hreadable, hks, hcount⟩
  · rintro ⟨hreadable, hks, hcount⟩
    obtain ⟨trace, hread⟩ :=
      (decodes_readParams (r := r) h (stands_append hcount)).complete 0 [] hreadable hks
    rw [← hsent hcount] at hread
    refine ⟨_, hread, ?_⟩
    rw [hsent hcount, Message.payload_append, length_append]

/-! ### Types without handles -/

/-- An object of the type can hold a handle. -/
inductive Bears (graph : List Module) : Module → TypeSpec → Prop where
  | handle {file : Module} (kind : HandleKind) (interface : Option TypeRef) :
      Bears graph file (.handle kind interface)
  | nullable {file : Module} {type : TypeSpec} (h : Bears graph file type) :
      Bears graph file (.nullable type)
  | element {file : Module} {type : TypeSpec} {n : Nat} (h : Bears graph file type) :
      Bears graph file (.array type n)
  | key {file : Module} {key type : TypeSpec} (h : Bears graph file key) :
      Bears graph file (.map key type)
  | value {file : Module} {key type : TypeSpec} (h : Bears graph file type) :
      Bears graph file (.map key type)
  | field {file m : Module} {ref : TypeRef} {s : StructDecl} {f : StructField}
      (hr : resolveStruct graph file ref = some (m, s)) (hf : f ∈ s.fields)
      (h : Bears graph m f.type) : Bears graph file (.structRef ref)
  | variant {file m : Module} {ref : TypeRef} {u : UnionDecl} {f : UnionField}
      (hr : resolveUnion graph file ref = some (m, u)) (hf : f ∈ u.fields)
      (h : Bears graph m f.type) : Bears graph file (.unionRef ref)

/-- No handle is attached for a value of a type without handles, and none is meant for its
reader. -/
theorem handles_of_not_bears {file' : Module} {type : TypeSpec} {v : Val}
    (h : HasType (w.graph graph) file' type v) :
    ∀ {file : Module}, file' = w.module file → ¬ Bears graph file type →
      (encodeValue (w.graph graph) file' type v).handles = [] ∧
        (received graph w r file type v).handles = [] := by
  induction h with
  | scalar hbits => exact fun _ _ => ⟨rfl, rfl⟩
  | string hlen => exact fun _ _ => ⟨rfl, rfl⟩
  | enum value => exact fun _ _ => ⟨rfl, rfl⟩
  | @struct file' m' ref s' members hr hlen hmem ih =>
    rintro file rfl hfree
    obtain ⟨m, s, hres, rfl, rfl⟩ := w.exists_of_resolveStruct hr
    have hnone : ∀ p ∈ (w.struct m s).fields.zip members,
        (encodeValue (w.graph graph) (w.module m) p.1.type p.2).handles = [] ∧
          (received graph w r m p.1.type p.2).handles = [] := by
      intro p hp
      have hfield := mem_of_mem_filter (of_mem_zip hp).1
      exact ih p hp rfl (fun hbears => hfree (.field hres hfield hbears))
    rw [encodeValue_struct hr, received_struct hres]
    constructor
    · show (Message.concat _).handles = []
      rw [Message.handles_concat, flatMap_map]
      exact flatMap_eq_nil_iff.mpr (fun p hp => (hnone p (mem_sortBy.mp hp)).1)
    · refine flatMap_eq_nil_iff.mpr (fun p hp => ?_)
      have hp := mem_sortBy.mp hp
      rw [filterMap_shared] at hp
      exact (hnone p (mem_of_mem_filter hp)).2
  | @union file' m' ref u' f tag v hr hf hv ih =>
    rintro file rfl hfree
    obtain ⟨m, u, hres, rfl, rfl⟩ := w.exists_of_resolveUnion hr
    have hvariant := mem_of_mem_filter (mem_of_find?_eq_some hf)
    obtain ⟨henc, hrec⟩ := ih rfl (fun hbears => hfree (.variant hres hvariant hbears))
    rw [encodeValue_union hr hf]
    refine ⟨henc, ?_⟩
    cases hrf : (r.union m u).caseFor tag with
    | none => rw [received_dropped hres hrf]
    | some g =>
      obtain rfl : f = g :=
        Option.some.inj ((w.caseFor_of_union hf).symm.trans (r.caseFor_of_union hrf))
      rw [received_variant hres hrf]
      exact hrec
  | unknown hr hext => exact fun _ _ => ⟨rfl, rfl⟩
  | @array file' element n elements hlen hfixed helem ih =>
    rintro file rfl hfree
    have hnone := fun v hv => ih v hv rfl (fun hbears => hfree (.element hbears))
    have hprefix : (lengthPrefix n elements.length).handles = [] := by
      unfold lengthPrefix
      split <;> rfl
    rw [encodeValue_array, received_array, Message.handles_append, hprefix, nil_append,
      Message.handles_concat, flatMap_map]
    exact ⟨flatMap_eq_nil_iff.mpr (fun v hv => (hnone v hv).1),
      flatMap_eq_nil_iff.mpr (fun v hv => (hnone v hv).2)⟩
  | @map file' key element entries hlen hkeys hkey helem ihk ihe =>
    rintro file rfl hfree
    have hknone := fun e he => ihk e he rfl (fun hbears => hfree (.key hbears))
    have henone := fun e he => ihe e he rfl (fun hbears => hfree (.value hbears))
    rw [encodeValue_map, received_map, Message.handles_append, nil_append,
      Message.handles_concat, flatMap_map]
    exact ⟨flatMap_eq_nil_iff.mpr (fun e he =>
        append_eq_nil_iff.mpr ⟨(hknone e he).1, (henone e he).1⟩),
      flatMap_eq_nil_iff.mpr (fun e he =>
        append_eq_nil_iff.mpr ⟨(hknone e he).2, (henone e he).2⟩)⟩
  | handle hv => exact fun _ hfree => absurd (.handle _ _) hfree
  | null => exact fun _ _ => ⟨rfl, rfl⟩
  | some hv ih =>
    rintro file rfl hfree
    exact ih rfl (fun hbears => hfree (.nullable hbears))

theorem handles_params_of_not_bears {params : List Param} {args : List Val}
    (h : HasTypes (w.graph graph) (w.module file) params args)
    (hfree : ∀ p ∈ params, ¬ Bears graph file p.type) :
    (receivedParams graph w r file params args).flatMap (·.handles) = [] := by
  induction h with
  | nil => rfl
  | @cons p v params args hv hargs ih =>
    obtain ⟨hp, hparams⟩ := forall_mem_cons.mp hfree
    show (received graph w r file p.type v).handles ++ _ = []
    rw [(handles_of_not_bears hv rfl hp).2]
    exact ih hparams

/-! ### Versions without handles -/

/-- The value of an enum is that of a declared enumerator, and every enumerator of that value has
been there from the first version. -/
def Original (graph : List Module) (a : Site) : Prop :=
  ∀ ref value, a.type = .enumRef ref → a.val = .enum value →
    ∃ m e x, resolveEnum graph a.file ref = some (m, e) ∧ x ∈ e.values ∧ x.value = value ∧
      ∀ y ∈ e.values, y.value = value → y.minVersion = 0

theorem Original.enumAccepted {a : Site} (h : Original graph a) : EnumAccepted graph a := by
  intro ref value htype hval
  obtain ⟨m, e, x, hr, hx, rfl, hzero⟩ := h ref value htype hval
  obtain ⟨y, hy, hymem, hyvalue⟩ := EnumDecl.exists_caseFor hx
  unfold acceptsEnum
  cases a.file.isEnumExtensible ref.name with
  | true => rfl
  | false =>
    rw [if_neg Bool.false_ne_true, hr]
    cases a.version with
    | none => exact Option.isSome_iff_exists.mpr ⟨y, hy⟩
    | some version =>
      refine (EnumDecl.isKnownAsOf_iff hy).mpr ?_
      rw [hzero y hymem hyvalue]
      exact Nat.zero_le _

/-- The reader keeps what it reads here: a union at `Tag::kUnknown` is not replaced, and the entries
of a map do not fall together. -/
structure Kept (graph : List Module) (w r : Profile) (a : Site) : Prop where
  notReplaced : NotReplaced graph r a
  keysDistinct : KeysDistinct graph w r a

/-- **Versions that differ in fields and variants understand each other**, where no handles are
about.  Whichever way a message goes, for example from `full` to `upTo k drops` or back, it arrives
as it is meant to exactly if the reader does not put a `[Default]` field in the place of a union
sent at `Tag::kUnknown`, no two keys of a map differ only in what the reader does not know, and the
message can be counted in 32 bits. -/
theorem delivers_iff_of_handleFree {params : List Param} {args : List Val}
    (h : HasTypes (w.graph graph) (w.module file) params args)
    (hfree : ∀ p ∈ params, ¬ Bears graph file p.type)
    (horiginal : ∀ a ∈ sites file params args, Throughout graph w r (Original graph) a) :
    Delivers graph w r file params args ↔
      (∀ a ∈ sites file params args, Throughout graph w r (Kept graph w r) a) ∧
      Countable {} (encodeParams (w.graph graph) (w.module file) params args) := by
  have hkept : ∀ a ∈ sites file params args,
      (ReadableThroughout graph w r a ↔ Throughout graph w r (Kept graph w r) a) :=
    fun a ha => (horiginal a ha).congr (fun _ hb =>
      ⟨fun hr => ⟨hr.notReplaced, hr.keysDistinct⟩,
        fun hk => ⟨hb.enumAccepted, hk.notReplaced, hk.keysDistinct⟩⟩)
  rw [delivers_iff_readable h, handles_params_of_not_bears h hfree, forall₂_congr hkept]
  exact and_congr_right (fun _ => and_iff_right nil_prefix)

/-- `struct S { uint32 a; [MinVersion=1] uint32 b = 9; };` -/
def grown : Module :=
  { structs := [{
      name := "S"
      fields := [{ type := .scalar .uint32, name := "a" },
        { type := .scalar .uint32, name := "b", defaultValue := some (.scalar 9),
          minVersion := 1 }] }] }

/-- In an `S` of `grown`, and in a number, one only meets these. -/
theorem throughout_grown {w r : Profile} {Q : Site → Prop} {a : Site} (hfile : a.file = grown)
    (ha : a.type = .scalar .uint32 ∨ a.type = .structRef { name := "S" })
    (hQ : ∀ b : Site, b.type = .scalar .uint32 ∨ b.type = .structRef { name := "S" } → Q b) :
    Throughout [grown] w r Q a := by
  have hkinds : Throughout [grown] w r (fun b => b.file = grown ∧
      (b.type = .scalar .uint32 ∨ b.type = .structRef { name := "S" })) a := by
    refine Throughout.of_part ⟨hfile, ha⟩ ?_
    rintro b c ⟨hb, htype⟩ hbc
    cases hbc with
    | field hr hp hkeep =>
      rcases htype with htype | htype
      · cases htype
      · obtain rfl := hb
        obtain rfl := TypeSpec.structRef.inj htype
        obtain ⟨rfl, rfl⟩ := Prod.mk.inj (Option.some.inj (hr.symm.trans rfl))
        have hfield := mem_of_mem_filter (of_mem_zip hp).1
        refine ⟨rfl, Or.inl ?_⟩
        rcases mem_cons.mp hfield with hf | hf
        · rw [hf]
        · rw [mem_singleton.mp hf]
    | _ => rcases htype with htype | htype <;> cases htype
  exact fun b hb => hQ b (hkinds b hb).2

/-- An older reader gets the field it knows, and the parameter behind the struct. -/
theorem delivers_grown :
    Delivers [grown] .full (.upTo 0 (fun _ _ _ => false)) grown
      [⟨.structRef { name := "S" }, "s"⟩, ⟨.scalar .uint32, "n"⟩]
      [.struct [.scalar 1, .scalar 2], .scalar 3] := by
  have hsites : ∀ {Q : Site → Prop}, (∀ b : Site, b.type = .scalar .uint32 ∨
      b.type = .structRef { name := "S" } → Q b) →
      ∀ a ∈ sites grown [⟨.structRef { name := "S" }, "s"⟩, ⟨.scalar .uint32, "n"⟩]
        [.struct [.scalar 1, .scalar 2], .scalar 3],
        Throughout [grown] .full (.upTo 0 (fun _ _ _ => false)) Q a := by
    intro Q hQ
    refine forall_mem_cons.mpr ⟨throughout_grown rfl (Or.inr rfl) hQ, ?_⟩
    exact forall_mem_singleton.mpr (throughout_grown rfl (Or.inl rfl) hQ)
  have htyped : HasTypes (Profile.full.graph [grown]) (Profile.full.module grown)
      [⟨.structRef { name := "S" }, "s"⟩, ⟨.scalar .uint32, "n"⟩]
      [.struct [.scalar 1, .scalar 2], .scalar 3] := by
    refine .cons (.struct rfl rfl ?_) (.cons (.scalar (by decide)) .nil)
    refine forall_mem_cons.mpr ⟨.scalar (by decide), ?_⟩
    exact forall_mem_singleton.mpr (.scalar (by decide))
  refine (delivers_iff_of_handleFree htyped ?_ (hsites ?_)).mpr ⟨hsites ?_, Or.inr (by decide)⟩
  · have hscalar : ¬ Bears [grown] grown (.scalar .uint32) := nofun
    refine forall_mem_cons.mpr ⟨?_, forall_mem_singleton.mpr hscalar⟩
    intro hbears
    cases hbears with
    | field hr hf hbears =>
      obtain ⟨rfl, rfl⟩ := Prod.mk.inj (Option.some.inj (hr.symm.trans rfl))
      rcases mem_cons.mp hf with rfl | hf
      · exact hscalar hbears
      · obtain rfl := mem_singleton.mp hf
        exact hscalar hbears
  · rintro ⟨_, _, t, _⟩ (rfl | rfl) ref value h <;> cases h
  · rintro ⟨_, _, t, _⟩ (rfl | rfl)
    · exact ⟨nofun, nofun⟩
    · exact ⟨nofun, nofun⟩

/-- `[Extensible] union U { [Default] int32 code; string text; };` -/
def statusUnion : Module :=
  { unions := [{
      name := "U", isExtensible := true
      fields := [{ type := .scalar .int32, name := "code", tag := 0, isDefault := true },
        { type := .string, name := "text", tag := 1 }] }] }

/-- A union sent at `Tag::kUnknown` arrives as the `[Default]` field, `text` dropped or not. -/
theorem not_delivers_unknown :
    HasTypes (Profile.full.graph [statusUnion]) (Profile.full.module statusUnion)
      [⟨.unionRef { name := "U" }, "u"⟩] [.unknown] ∧
    ¬ Delivers [statusUnion] .full (.upTo 0 (fun _ _ tag => tag == 1)) statusUnion
      [⟨.unionRef { name := "U" }, "u"⟩] [.unknown] := by
  refine ⟨.cons (.unknown rfl rfl) .nil, ?_⟩
  rintro ⟨c, h, -⟩
  cases h

/-! ### Versions with handles -/

/-- `struct S { [MinVersion=1] handle x; };` -/
def grownHandle : Module :=
  { structs := [{
      name := "S"
      fields := [{ type := .handle .handle none, name := "x", minVersion := 1 }] }] }

end Voodoo
