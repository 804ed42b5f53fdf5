import Voodoo.Evolution.View

/-!
# One version reads what another version wrote

`decodes_value`: a reader generated from version `r` of some files, started on the
encoding of a value of version `w`, delivers what it is meant to (`received`) if
and only if everything it meets is readable and the handles it is at are those
that belong to what it gets.  Whatever it delivers, it stops where the encoding
ends.

The induction is on the typing of the value.  Each constructor of a type has one
lemma about the loop or frame the generated code has for it, in
`Voodoo.Wire.Decodes` and `Voodoo.Evolution.Shared`; what is left here is to match
them up.
-/

namespace Voodoo

open LittleEndian StableOrder EState List

/-! ### The leaves -/

section leaves

variable {graph : List Module} {msg : Message} {file : Module} {rx : EmbedRef → Reader Val}
  {version : Option Nat} {off : Nat}

theorem exact_scalar {kind : ScalarKind} {bits : Nat} (hbits : bits < kind.card)
    (hst : Stands msg off (store kind.size bits)) :
    Exact (readInto graph msg file rx version (.scalar kind)) off kind.size (.scalar bits) := by
  have hread := exact_readScalar hst kind.size_pos (Nat.lt_of_lt_of_le hbits kind.card_le)
  cases kind with
  | bool =>
    have hbool : ∃ b : Bool, bits = b.toNat := by
      rcases (show bits = 0 ∨ bits = 1 by have : bits < 2 := hbits; omega) with h | h
      · exact ⟨false, h⟩
      · exact ⟨true, h⟩
    obtain ⟨b, rfl⟩ := hbool
    exact (exact_readBool hst).bind_pure rfl
  | _ => exact hread.bind_pure rfl

/-- **An enum is let through or not, by its value alone.** -/
theorem decodes_enum {r : TypeRef} {value : BitVec 32}
    (hst : Stands msg off (store 4 value.toNat)) :
    Decodes msg (readInto graph msg file rx version (.enumRef r)) off 4 (.enum value) []
      (acceptsEnum graph file r version value = true) := by
  have hread := exact_readScalar hst (by decide) (show value.toNat < 256 ^ 4 from value.isLt)
  cases h : acceptsEnum graph file r version value with
  | true =>
    refine (Decodes.of_exact (hread.bind_pure ?_)).congr ⟨fun _ => rfl, fun _ => trivial⟩
    simp only [BitVec.ofNat_toNat, BitVec.setWidth_eq, h, if_true]
  | false =>
    have hfail : ∀ i tr, ∃ c, readInto graph msg file rx version (.enumRef r) ⟨off, i, tr⟩ =
        .error .returnFalse c := by
      intro i tr
      obtain ⟨tr', hr⟩ := hread i tr
      refine ⟨⟨off + 4, i, tr'⟩, ?_⟩
      rw [readInto, bind_ok hr]
      simp only [BitVec.ofNat_toNat, BitVec.setWidth_eq, h]
      rfl
    constructor
    · intro i tr hC
      cases hC
    · intro i tr c hc
      obtain ⟨c', he⟩ := hfail i tr
      rw [he] at hc
      cases hc
    · intro i tr a c hc
      obtain ⟨c', he⟩ := hfail i tr
      rw [he] at hc
      cases hc

theorem decodes_takeHandle (h : Handle) : Decodes msg (takeHandle msg) off 0 h [h] True where
  complete i tr _ hks := by
    refine ⟨tr, ?_⟩
    have hget : msg.handles[i]? = some h := by
      obtain ⟨rest, hrest⟩ := hks
      rw [← Nat.add_zero i, ← getElem?_drop, ← hrest]
      rfl
    rw [takeHandle, hget]
    rfl
  sound i tr c hc := by
    obtain ⟨hget, rfl⟩ := takeHandle_eq_ok hc
    refine ⟨trivial, ?_, rfl⟩
    rw [drop_eq_getElem?_toList_append, hget]
    exact ⟨_, rfl⟩
  lands i tr a c hc := by
    obtain ⟨-, rfl⟩ := takeHandle_eq_ok hc
    rfl

theorem decodes_handle {kind : HandleKind} {v : Val} (hv : kind.Holds v)
    (hst : Stands msg off (encodeHandle v).payload) :
    Decodes msg (readHandleInto msg kind) off (encodeHandle v).payload.length v
      (encodeHandle v).handles True := by
  cases kind <;> cases v <;> first
    | exact absurd hv id
    | exact (decodes_takeHandle _).map_inj (fun _ h => Val.handle.inj h)
    | skip
  case pendingRemote.pendingRemote pipe version =>
    have hversion := exact_readScalar hst (by decide)
      (show version.toNat < 256 ^ 4 from version.toNat_lt)
    show Decodes msg _ off (4 + 0) _ _ _
    refine Decodes.exact_bind hversion ?_
    rw [UInt32.ofNat_toNat]
    exact (decodes_takeHandle pipe).map_inj (fun _ h => (Val.pendingRemote.inj h).1)
  case pendingAssociatedRemote.endpointRemote iid version =>
    have hiid := exact_readScalar hst.left (by decide)
      (show iid.toNat < 256 ^ 4 from iid.toNat_lt)
    have hversion := exact_readScalar hst.right (by decide)
      (show version.toNat < 256 ^ 4 from version.toNat_lt)
    show Decodes msg _ off (4 + 4) _ _ _
    refine Decodes.of_exact (hiid.bind (hversion.bind_pure ?_))
    rw [UInt32.ofNat_toNat, UInt32.ofNat_toNat]
  case pendingAssociatedReceiver.endpoint iid =>
    have hiid := exact_readScalar hst (by decide) (show iid.toNat < 256 ^ 4 from iid.toNat_lt)
    refine Decodes.of_exact (hiid.bind_pure ?_)
    rw [UInt32.ofNat_toNat]

end leaves

/-! ### The loops -/

theorem readElements_eq (element : Reader Val) (n : Nat) :
    readElements element n = readAll (List.replicate n element) := by
  induction n with
  | zero => rfl
  | succ n ih => rw [readElements, replicate_succ, readAll, ih]

/-- The entries as they come in, before any is dropped for its key. -/
def readEntry (key element : Reader Val) : Reader (Val × Val) := do
  let k ← key
  let v ← element
  pure (k, v)

theorem readEntries_eq (key element : Reader Val) (n : Nat) (es : List (Val × Val)) :
    readEntries key element n es = (do
      let new ← readAll (List.replicate n (readEntry key element))
      pure (new.foldl (fun acc e => emplace acc e.1 e.2) es)) := by
  induction n generalizing es with
  | zero => simp [readEntries, readAll]
  | succ n ih => simp [readEntries, replicate_succ, readAll, readEntry, ih]

theorem length_foldl_emplace_le (new es : List (Val × Val)) :
    (new.foldl (fun acc e => emplace acc e.1 e.2) es).length ≤ es.length + new.length := by
  induction new generalizing es with
  | nil => exact Nat.le_refl _
  | cons e new ih =>
    have h := ih (emplace es e.1 e.2)
    have := length_emplace_le es e.1 e.2
    rw [foldl_cons, length_cons]
    omega

theorem foldl_emplace_eq_iff (new : List (Val × Val)) {es : List (Val × Val)} (hes : (es.map Prod.fst).Nodup) :
    (new.foldl (fun acc e => emplace acc e.1 e.2) es).length = es.length + new.length ↔
      ((es ++ new).map Prod.fst).Nodup := by
  induction new generalizing es with
  | nil => simpa using hes
  | cons e new ih =>
    rw [foldl_cons, length_cons]
    by_cases hmem : e.1 ∈ es.map Prod.fst
    · constructor
      · intro h
        have hle := length_foldl_emplace_le new (emplace es e.1 e.2)
        rw [h, emplace, if_pos hmem] at hle
        omega
      · intro hnd
        rw [map_append, List.nodup_append] at hnd
        exact absurd rfl (hnd.2.2 _ hmem _ mem_cons_self)
    · rw [emplace_of_notMem hmem]
      have hes' : ((es ++ [(e.1, e.2)]).map Prod.fst).Nodup := by
        rw [map_append, List.nodup_append]
        exact ⟨hes, nodup_singleton _, by
          rintro a ha b hb rfl
          rw [map_cons, map_nil, mem_singleton] at hb
          exact hmem (hb ▸ ha)⟩
      have := ih hes'
      rw [length_append, length_singleton, List.append_assoc] at this
      rw [← Nat.add_assoc, Nat.add_right_comm]
      exact this

theorem foldl_emplace_of_nodup {new es : List (Val × Val)}
    (hnd : ((es ++ new).map Prod.fst).Nodup) :
    new.foldl (fun acc e => emplace acc e.1 e.2) es = es ++ new := by
  induction new generalizing es with
  | nil => exact (append_nil es).symm
  | cons e new ih =>
    have hmem : e.1 ∉ es.map Prod.fst := by
      rw [map_append, List.nodup_append] at hnd
      exact fun h => hnd.2.2 _ h _ mem_cons_self rfl
    rw [foldl_cons, emplace_of_notMem hmem, ih (by rwa [List.append_assoc]),
      List.append_assoc]
    rfl

theorem decodes_replicate {α β : Type} {msg : Message} {off : Nat} {xs : List α} (rd : Reader β)
    (enc : α → Message) (val : α → β) (hs : α → List Handle) (cond : α → Prop)
    (hst : Stands msg off (Message.concat (xs.map enc)).payload)
    (ih : ∀ x ∈ xs, ∀ off', off ≤ off' → Stands msg off' (enc x).payload →
      Decodes msg rd off' (enc x).payload.length (val x) (hs x) (cond x)) :
    Decodes msg (readAll (List.replicate xs.length rd)) off
      (Message.concat (xs.map enc)).payload.length (xs.map val) (xs.flatMap hs)
      (∀ x ∈ xs, cond x) := by
  have hrounds : ∀ y ∈ xs.map (fun x => Round.mk rd (enc x).payload (val x) (hs x) (cond x)),
      y.Decodes msg off := by
    intro y hy
    obtain ⟨x, hx, rfl⟩ := List.mem_map.mp hy
    exact ih x hx
  rw [Message.payload_concat, flatMap_map] at hst ⊢
  have hall := decodes_readAll hrounds (by rw [flatMap_map]; exact hst)
  rw [List.map_map, List.map_map, flatMap_map, flatMap_map] at hall
  have hreaders : xs.map ((fun x : Round β => x.reader) ∘
      fun x => Round.mk rd (enc x).payload (val x) (hs x) (cond x)) =
      List.replicate xs.length rd := map_const' ..
  rw [hreaders] at hall
  exact hall.congr List.forall_mem_map

theorem exact_lengthPrefix {msg : Message} {off fixedArraySize n : Nat}
    (hfixed : fixedArraySize ≠ 0 → n = fixedArraySize) (hn : n < 2 ^ 32)
    (hst : Stands msg off (lengthPrefix fixedArraySize n).payload) :
    Exact (readCount msg fixedArraySize) off
      (lengthPrefix fixedArraySize n).payload.length n := by
  unfold readCount
  unfold lengthPrefix at hst ⊢
  by_cases h0 : fixedArraySize = 0
  · rw [if_pos h0] at hst ⊢
    rw [if_pos h0, length_store]
    exact exact_readScalar hst (by decide) hn
  · rw [if_neg h0, if_neg h0, hfixed h0]
    exact Exact.pure _

section readers

variable {graph : List Module} {w r : Profile} {file m : Module} {ref : TypeRef}

theorem readInto_structRef {s : StructDecl} (hres : resolveStruct graph file ref = some (m, s))
    (msg : Message) (k : Nat) (version : Option Nat) :
    readInto (r.graph graph) msg (r.module file) (readX (r.graph graph) msg (k + 1) (r.module file))
        version (.structRef ref) =
      readStruct msg (r.struct m s) (fun version =>
        readInto (r.graph graph) msg (r.module m) (readX (r.graph graph) msg k (r.module m))
          (some version))
        ((r.struct m s).fields.map (defaultMember (r.graph graph) (r.module m))) := by
  rw [readInto, readX, Profile.resolveStruct_graph, hres]
  rfl

theorem readInto_unionRef {u : UnionDecl} (hres : resolveUnion graph file ref = some (m, u))
    (msg : Message) (k : Nat) (version : Option Nat) :
    readInto (r.graph graph) msg (r.module file) (readX (r.graph graph) msg (k + 1) (r.module file))
        version (.unionRef ref) =
      readUnion msg (r.union m u)
        (readInto (r.graph graph) msg (r.module m) (readX (r.graph graph) msg k (r.module m)) none)
        (defaultValue (r.graph graph) (r.module m)) := by
  rw [readInto, readX, Profile.resolveUnion_graph, hres]
  rfl

theorem throughout_plain {a : Site} (he : ∀ ref, a.type ≠ .enumRef ref)
    (hu : ∀ ref, a.type ≠ .unionRef ref) (hm : ∀ key type, a.type ≠ .map key type)
    (hleaf : ∀ b, ¬ Part graph w r a b) : ReadableThroughout graph w r a :=
  throughout_of_leaf (readable_of_plain he hu hm) hleaf

end readers

/-! ### The theorem -/

/-- **What one version reads of a value another version wrote.** -/
theorem decodes_value {graph : List Module} {w r : Profile} {file' : Module} {type : TypeSpec}
    {v : Val} (h : HasType (w.graph graph) file' type v) :
    ∀ {file : Module}, file' = w.module file → ∀ {msg : Message} {n off : Nat}
      {version : Option Nat}, msg.payload.length < off + n →
      Stands msg off (encodeValue (w.graph graph) file' type v).payload →
      Decodes msg
        (readInto (r.graph graph) msg (r.module file) (readX (r.graph graph) msg n (r.module file))
          version type) off
        (encodeValue (w.graph graph) file' type v).payload.length
        (received graph w r file type v).val (received graph w r file type v).handles
        (ReadableThroughout graph w r ⟨file, version, type, v⟩) := by
  induction h with
  | @scalar file' kind bits hbits =>
    intro file _ msg n off version _ hst
    have hread : Exact (readInto (r.graph graph) msg (r.module file)
        (readX (r.graph graph) msg n (r.module file)) version (.scalar kind)) off
        (store kind.size bits).length (.scalar bits) := by
      rw [length_store]
      exact exact_scalar hbits hst
    exact (Decodes.of_exact hread).congr (iff_of_true trivial
      (throughout_plain (by simp) (by simp) (by simp) fun b hb => by cases hb))
  | @string file' bytes hlen =>
    intro file _ msg n off version _ hst
    have hread : Exact (readInto (r.graph graph) msg (r.module file)
        (readX (r.graph graph) msg n (r.module file)) version .string) off
        (store 4 bytes.length ++ bytes).length (.string bytes) := by
      rw [length_append, length_store]
      exact (exact_readString hst hlen).bind_pure rfl
    exact (Decodes.of_exact hread).congr (iff_of_true trivial
      (throughout_plain (by simp) (by simp) (by simp) fun b hb => by cases hb))
  | @enum file' ref value =>
    intro file _ msg n off version _ hst
    refine (decodes_enum hst).congr ?_
    rw [Profile.acceptsEnum_graph]
    exact throughout_enum.symm
  | @struct file' m' ref s' members hr hlen hmem ih =>
    rintro file rfl msg n off version hn hst
    obtain ⟨m, s, hres, rfl, rfl⟩ := w.exists_of_resolveStruct hr
    rw [encodeValue_struct hr] at hst ⊢
    rw [received_struct hres]
    have hend := hst.length_le (cons_ne_nil _ _)
    have hmod : msg.payloadNumBytes ≤ msg.payload.length := Nat.mod_le _ _
    have hframe : 8 ≤ (frameStruct (w.struct m s) (Message.concat
        ((inWireOrder (w.struct m s).fields members).map (fun p =>
          encodeValue (w.graph graph) (w.module m) p.1.type p.2)))).payload.length := by
      simp only [frameStruct, length_append, length_store]
      omega
    obtain ⟨k, rfl⟩ : ∃ k, n = k + 1 := ⟨n - 1, by omega⟩
    obtain ⟨l, hfields⟩ := decodes_readFields (r := r)
      (fun f v => encodeValue (w.graph graph) (w.module m) f.type v)
      (fun f v => (received graph w r m f.type v).val)
      (fun f v => (received graph w r m f.type v).handles)
      (fun f v => ReadableThroughout graph w r ⟨m, some (w.struct m s).version, f.type, v⟩)
      (readInto (r.graph graph) msg (r.module m) (readX (r.graph graph) msg k (r.module m))
        (some (w.struct m s).version))
      (defaultMember (r.graph graph) (r.module m)) hlen hst.body
      (fun p hp off' hle hst' => by
        rw [filterMap_shared] at hp
        exact ih p (mem_of_mem_filter hp) rfl (by omega) hst')
    rw [readInto_structRef hres]
    exact (decodes_readStruct hst hfields).congr (throughout_struct hres).symm
  | @union file' m' ref u' f tag v hr hf hv ih =>
    rintro file rfl msg n off version hn hst
    obtain ⟨m, u, hres, rfl, rfl⟩ := w.exists_of_resolveUnion hr
    rw [encodeValue_union hr hf] at hst ⊢
    have hend := hst.length_le (cons_ne_nil _ _)
    have hmod : msg.payloadNumBytes ≤ msg.payload.length := Nat.mod_le _ _
    have hframe : 8 ≤ (frameUnion tag
        (encodeValue (w.graph graph) (w.module m) f.type v)).payload.length := by
      simp only [frameUnion, length_append, length_store]
      omega
    obtain ⟨k, rfl⟩ : ∃ k, n = k + 1 := ⟨n - 1, by omega⟩
    rw [readInto_unionRef hres]
    have hfu := w.caseFor_of_union hf
    cases hrf : (r.union m u).caseFor tag with
    | none =>
      have hext : u.isExtensible = true := r.isExtensible_of_caseFor_none hrf hfu
      rw [received_dropped hres hrf]
      exact (Decodes.of_exact (exact_readUnion hst hrf hext)).congr
        (iff_of_true trivial (throughout_dropped hres hrf))
    | some g =>
      obtain rfl : f = g := Option.some.inj (hfu.symm.trans (r.caseFor_of_union hrf))
      rw [received_variant hres hrf]
      exact (decodes_readUnion hst hrf (ih rfl (by omega) hst.body)).congr
        (throughout_variant hres hrf).symm
  | @unknown file' m' ref u' hr hext =>
    rintro file rfl msg n off version hn hst
    obtain ⟨m, u, hres, rfl, rfl⟩ := w.exists_of_resolveUnion hr
    have hencode : encodeValue (w.graph graph) (w.module file) (.unionRef ref) .unknown =
        frameUnion unknownTag {} := rfl
    have hreceived : received graph w r file (.unionRef ref) .unknown = ⟨.unknown, []⟩ := rfl
    rw [hencode] at hst ⊢
    rw [hreceived]
    have hend := hst.length_le (cons_ne_nil _ _)
    have hmod : msg.payloadNumBytes ≤ msg.payload.length := Nat.mod_le _ _
    have hframe : 8 ≤ (frameUnion unknownTag {}).payload.length := by decide
    obtain ⟨k, rfl⟩ : ∃ k, n = k + 1 := ⟨n - 1, by omega⟩
    rw [readInto_unionRef hres]
    have hread : Exact (readUnion msg (r.union m u)
        (readInto (r.graph graph) msg (r.module m) (readX (r.graph graph) msg k (r.module m))
          none) (defaultValue (r.graph graph) (r.module m))) off
        (frameUnion unknownTag {}).payload.length
        (unionFallback (r.union m u) (defaultValue (r.graph graph) (r.module m))) :=
      exact_readUnion hst (caseFor_unknownTag _) hext
    refine (Decodes.of_exact_eq hread).congr (Iff.trans ?_ (throughout_unknown hres).symm)
    unfold unionFallback
    cases (r.union m u).defaultField with
    | none => exact iff_of_true rfl rfl
    | some d => exact iff_of_false (by rintro ⟨⟩) (by rintro ⟨⟩)
  | @array file' element fixed elements hlen hfixed helem ih =>
    rintro file rfl msg n off version hn hst
    rw [encodeValue_array] at hst ⊢
    rw [received_array, Message.payload_append, length_append, readInto]
    have hloop := decodes_replicate
      (readInto (r.graph graph) msg (r.module file) (readX (r.graph graph) msg n (r.module file))
        version element)
      (encodeValue (w.graph graph) (w.module file) element)
      (fun v => (received graph w r file element v).val)
      (fun v => (received graph w r file element v).handles)
      (fun v => ReadableThroughout graph w r ⟨file, version, element, v⟩) hst.right
      (fun v hv off' hle hst' => ih v hv rfl (by omega) hst')
    rw [← readElements_eq] at hloop
    refine (Decodes.exact_bind (exact_lengthPrefix hfixed hlen hst.left) ?_).congr
      throughout_array.symm
    exact hloop.map_inj (fun _ h => Val.array.inj h)
  | @map file' key element entries hlen hkeys hkey helem ihk ihe =>
    rintro file rfl msg n off version hn hst
    rw [encodeValue_map] at hst ⊢
    rw [received_map, Message.payload_append, length_append, readInto, length_store]
    have hcount := exact_readScalar hst.left (by decide) hlen
    have hloop := decodes_replicate
      (readEntry
        (readInto (r.graph graph) msg (r.module file) (readX (r.graph graph) msg n (r.module file))
          version key)
        (readInto (r.graph graph) msg (r.module file) (readX (r.graph graph) msg n (r.module file))
          version element))
      (fun e : Val × Val => encodeValue (w.graph graph) (w.module file) key e.1 ++
        encodeValue (w.graph graph) (w.module file) element e.2)
      (fun e : Val × Val =>
        ((received graph w r file key e.1).val, (received graph w r file element e.2).val))
      (fun e : Val × Val => (received graph w r file key e.1).handles ++
        (received graph w r file element e.2).handles)
      (fun e : Val × Val => ReadableThroughout graph w r ⟨file, version, key, e.1⟩ ∧
        ReadableThroughout graph w r ⟨file, version, element, e.2⟩) hst.right
      (fun e he off' hle hst' => by
        rw [length_store] at hle
        rw [Message.payload_append] at hst'
        rw [Message.payload_append, length_append]
        exact (ihk e he rfl (by omega) hst'.left).seq
          (ihe e he rfl (by omega) hst'.right) (fun a b hab => Prod.mk.inj hab))
    rw [length_store] at hloop
    refine (Decodes.exact_bind hcount ?_).congr throughout_map.symm
    refine Decodes.map_inj ?_ (fun _ h => Val.map.inj h)
    rw [readEntries_eq]
    refine hloop.map ?_ ?_
    · intro hnd
      exact foldl_emplace_of_nodup (by simpa [Function.comp_def] using hnd)
    · intro i tr new c hread hnew
      have hlen' : new.length = entries.length := by
        rw [length_of_readAll hread, length_replicate]
      have hcounted : (([] ++ new).map Prod.fst).Nodup :=
        (foldl_emplace_eq_iff new (show (([] : List (Val × Val)).map Prod.fst).Nodup from
          nodup_nil)).mp (by
          rw [hnew, length_map, hlen', length_nil, Nat.zero_add])
      rw [foldl_emplace_of_nodup hcounted] at hnew
      rw [nil_append] at hnew hcounted
      rw [hnew] at hcounted
      exact ⟨hnew, by simpa [Function.comp_def] using hcounted⟩
  | @handle file' kind interface v hv =>
    rintro file rfl msg n off version hn hst
    have hencode : encodeValue (w.graph graph) (w.module file) (.handle kind interface) v =
        encodeHandle v := by cases v <;> rfl
    have hreceived : received graph w r file (.handle kind interface) v =
        ⟨v, (encodeHandle v).handles⟩ := by cases v <;> rfl
    rw [hencode] at hst ⊢
    rw [hreceived]
    exact (decodes_handle hv hst).congr (iff_of_true trivial
      (throughout_plain (by simp) (by simp) (by simp) fun b hb => by cases hb))
  | @null file' type =>
    rintro file rfl msg n off version hn hst
    have hread : Exact (readInto (r.graph graph) msg (r.module file)
        (readX (r.graph graph) msg n (r.module file)) version (.nullable type)) off 1 .null := by
      rw [readInto]
      exact (exact_readBool (b := false) hst).bind_pure rfl
    exact (Decodes.of_exact hread).congr (iff_of_true trivial
      (throughout_plain (by simp) (by simp) (by simp) fun b hb => by cases hb))
  | @some file' type v hv ih =>
    rintro file rfl msg n off version hn hst
    have hencode : encodeValue (w.graph graph) (w.module file) (.nullable type) (.some v) =
        ⟨store 1 1, []⟩ ++ encodeValue (w.graph graph) (w.module file) type v := rfl
    have hreceived : received graph w r file (.nullable type) (.some v) =
        ⟨.some (received graph w r file type v).val, (received graph w r file type v).handles⟩ := rfl
    rw [hencode] at hst ⊢
    rw [hreceived, Message.payload_append, length_append, readInto]
    refine (Decodes.exact_bind (exact_readBool (b := true) hst.left) ?_).congr throughout_some.symm
    rw [if_pos rfl]
    exact (ih rfl (by omega) hst.right).map_inj (fun _ h => Val.some.inj h)

theorem decodes_readValue {graph : List Module} {w r : Profile} {file : Module} {type : TypeSpec}
    {v : Val} (h : HasType (w.graph graph) (w.module file) type v) (version : Option Nat)
    {msg : Message} {off : Nat}
    (hst : Stands msg off (encodeValue (w.graph graph) (w.module file) type v).payload) :
    Decodes msg (readValue (r.graph graph) msg (r.module file) version type) off
      (encodeValue (w.graph graph) (w.module file) type v).payload.length
      (received graph w r file type v).val (received graph w r file type v).handles
      (ReadableThroughout graph w r ⟨file, version, type, v⟩) :=
  decodes_value h rfl (by omega) hst

end Voodoo
