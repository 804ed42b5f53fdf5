import Voodoo.Evolution.Profile
import Voodoo.Wire.Decodes

/-!
# The fields two versions of a struct share

Writer and reader each have some of the fields of the newest version.  `shared`
lists the reader's fields, each with what the writer wrote for it.  On the wire
the shared fields come first in both orders (`inWireOrder_shared`), and a field
of the reader was written exactly if the version in the header says so
(`gate_iff`): this is why one number in the header is enough.
-/

namespace Voodoo

open StableOrder EState List

variable {β : Type}

/-- The fields `fs`, those that are kept paired with the next of `xs`. -/
def spread (keeps : StructField → Bool) :
    List StructField → List β → List (StructField × Option β)
  | [], _ => []
  | f :: fs, xs =>
    if keeps f then (f, xs.head?) :: spread keeps fs xs.tail else (f, none) :: spread keeps fs xs

/-- The reader's fields, each with what the writer wrote for it. -/
def shared (w r : Profile) (m : Module) (s : StructDecl) (xs : List β) :
    List (StructField × Option β) :=
  (spread (w.keepsField m) s.fields xs).filter (fun p => r.keepsField m p.1)

/-- A field together with what was written for it, if anything was. -/
def written (p : StructField × Option β) : Option (StructField × β) := p.2.map (fun x => (p.1, x))

/-- What a member of the reader ends up as: what was read for it, else what it starts life as. -/
def delivered (val : StructField → β → Val) (fresh : StructField → Val)
    (p : StructField × Option β) : Val :=
  match p.2 with
  | some x => val p.1 x
  | none => fresh p.1

theorem map_fst_spread (keeps : StructField → Bool) (fs : List StructField) (xs : List β) :
    (spread keeps fs xs).map Prod.fst = fs := by
  induction fs generalizing xs with
  | nil => rfl
  | cons f fs ih =>
    unfold spread
    split <;> rw [map_cons, ih]

theorem spread_zipWith {γ : Type} (g : StructField → β → γ) (keeps : StructField → Bool)
    (fs : List StructField) (xs : List β) :
    spread keeps fs (List.zipWith g (fs.filter keeps) xs) =
      (spread keeps fs xs).map (fun p => (p.1, p.2.map (g p.1))) := by
  induction fs generalizing xs with
  | nil => rfl
  | cons f fs ih =>
    cases hf : keeps f with
    | false => simp [spread, hf, ih]
    | true => cases xs <;> simp [spread, hf, ← ih]

theorem zip_eq_filterMap_spread {keeps : StructField → Bool} {fs : List StructField}
    (xs : List β) :
    (fs.filter keeps).zip xs = (spread keeps fs xs).filterMap written := by
  induction fs generalizing xs with
  | nil => rfl
  | cons f fs ih =>
    cases hf : keeps f with
    | false =>
      rw [filter_cons_of_neg (by simp [hf]), spread, if_neg (by simp [hf]),
        filterMap_cons_none rfl, ih]
    | true =>
      rw [filter_cons_of_pos hf, spread, if_pos hf]
      cases xs with
      | nil => rw [filterMap_cons_none rfl, tail_nil, ← ih, zip_nil_right,
          zip_nil_right]
      | cons x xs =>
        rw [zip_cons_cons, ih, filterMap_cons, tail_cons]
        rfl

theorem isSome_of_mem_spread {keeps : StructField → Bool} {fs : List StructField} {xs : List β}
    (hlen : (fs.filter keeps).length = xs.length) {p : StructField × Option β}
    (hp : p ∈ spread keeps fs xs) : p.2.isSome = keeps p.1 := by
  induction fs generalizing xs with
  | nil => exact absurd hp not_mem_nil
  | cons f fs ih =>
    cases hf : keeps f with
    | false =>
      rw [filter_cons_of_neg (by simp [hf])] at hlen
      rw [spread, if_neg (by simp [hf])] at hp
      rcases mem_cons.mp hp with rfl | hp
      · exact hf.symm
      · exact ih hlen hp
    | true =>
      rw [filter_cons_of_pos hf] at hlen
      rw [spread, if_pos hf] at hp
      cases xs with
      | nil => exact absurd hlen (Nat.succ_ne_zero _)
      | cons x xs =>
        rcases mem_cons.mp hp with rfl | hp
        · exact hf.symm
        · exact ih (Nat.succ.inj hlen) hp

/-! ### Two versions -/

section versions

variable {w r : Profile} {m : Module} {s : StructDecl} {xs : List β}

theorem map_fst_shared (w r : Profile) (m : Module) (s : StructDecl) (xs : List β) :
    (shared w r m s xs).map Prod.fst = (r.struct m s).fields := by
  have hfilter := List.filter_map (f := Prod.fst) (p := r.keepsField m)
    (l := spread (w.keepsField m) s.fields xs)
  rw [map_fst_spread] at hfilter
  exact hfilter.symm

theorem shared_zipWith {γ : Type} (g : StructField → β → γ) :
    shared w r m s (List.zipWith g (w.struct m s).fields xs) =
      (shared w r m s xs).map (fun p => (p.1, p.2.map (g p.1))) := by
  rw [shared, shared, Profile.struct_fields, spread_zipWith, List.filter_map]
  rfl

theorem filterMap_shared :
    (shared w r m s xs).filterMap written =
      ((w.struct m s).fields.zip xs).filter (fun p => r.keepsField m p.1) := by
  rw [Profile.struct_fields, zip_eq_filterMap_spread, filter_filterMap, shared,
    filterMap_filter]
  congr 1
  funext p
  obtain ⟨f, _ | x⟩ := p
  · simp [written]
  · cases hf : r.keepsField m f <;> simp [written, Option.filter, hf]

/-- **The shared fields come first on the wire.** -/
theorem inWireOrder_shared :
    inWireOrder (w.struct m s).fields xs =
      sortBy (fun p => p.1.minVersion.toNat) ((shared w r m s xs).filterMap written) ++
      sortBy (fun p => p.1.minVersion.toNat)
        (((w.struct m s).fields.zip xs).filter (fun p => !r.keepsField m p.1)) := by
  rw [filterMap_shared]
  exact sortBy_split (fun p _ q _ hpq hq => r.keepsField_mono hpq hq)

/-- **The header's version tells which fields were written.** -/
theorem gate_iff (hlen : (w.struct m s).fields.length = xs.length)
    {p : StructField × Option β} (hp : p ∈ shared w r m s xs) :
    (p.1.minVersion = 0 ∨ p.1.minVersion.toNat ≤ (w.struct m s).version) ↔
      p.2.isSome = true := by
  have hspread := mem_of_mem_filter hp
  rw [isSome_of_mem_spread hlen hspread]
  have hfield : p.1 ∈ s.fields := by
    rw [← map_fst_spread (w.keepsField m) s.fields xs]
    exact List.mem_map_of_mem hspread
  constructor
  · intro hgate
    unfold Profile.keepsField
    split
    · rfl
    · rename_i k hk
      refine decide_eq_true ?_
      have hversion : (w.struct m s).version ≤ k := by
        refine StructDecl.version_le (fun f hf => ?_)
        have := (mem_filter.mp hf).2
        rw [Profile.keepsField, hk] at this
        exact of_decide_eq_true this
      rcases hgate with h0 | hle
      · rw [h0]; exact Nat.zero_le k
      · exact hle.trans hversion
  · intro hkeep
    exact Or.inr (StructDecl.minVersion_le_version (mem_filter.mpr ⟨hfield, hkeep⟩))

end versions

/-! ### The loop over the fields -/

/-- The field at a position, if the header's version says that it is there. -/
def present (s : StructDecl) (version i : Nat) : Option (StructField × Nat) :=
  s.fields[i]?.bind (fun f =>
    if f.minVersion = 0 ∨ f.minVersion.toNat ≤ version then some (f, i) else none)

/-- Reading one field for the place it is stored at. -/
def readPlaced (read : TypeSpec → Reader Val) (p : StructField × Nat) : Reader (Val × Nat) := do
  let v ← read p.1.type
  pure (v, p.2)

theorem readFields_eq (s : StructDecl) (version : Nat) (read : TypeSpec → Reader Val)
    (is : List Nat) (out : List Val) :
    readFields s version read is out = (do
      let es ← readAll ((is.filterMap (present s version)).map (readPlaced read))
      pure (es.foldl (fun acc e => acc.set e.2 e.1) out)) := by
  induction is generalizing out with
  | nil => simp [readFields, readAll]
  | cons i is ih =>
    unfold readFields
    cases hi : s.fields[i]? with
    | none =>
      have : present s version i = none := by rw [present, hi]; rfl
      rw [filterMap_cons_none this]
      exact ih out
    | some f =>
      simp only
      split
      · rename_i hgate
        have : present s version i = some (f, i) := by
          rw [present, hi]
          exact if_pos hgate
        rw [filterMap_cons_some this]
        simp [readAll, readPlaced, ih]
      · rename_i hgate
        have : present s version i = none := by
          rw [present, hi]
          exact if_neg hgate
        rw [filterMap_cons_none this]
        exact ih out

theorem filterMap_present (s : StructDecl) (version : Nat) :
    s.wireFieldOrder.filterMap (present s version) =
      (sortBy (fun p => p.1.minVersion.toNat) s.fields.zipIdx).filter (fun p =>
        decide (p.1.minVersion = 0 ∨ p.1.minVersion.toNat ≤ version)) := by
  rw [StructDecl.wireFieldOrder, positions_eq, filterMap_map, ← filterMap_eq_filter]
  refine filterMap_congr (fun p hp => ?_)
  have hget : s.fields[p.2]? = some p.1 := mem_zipIdx_iff_getElem?.mp (mem_sortBy.mp hp)
  rw [Function.comp_apply, present, hget, Option.guard]
  simp

/-! ### Reading the shared fields -/

theorem eq_of_foldl_set_eq {es fs : List (β × Nat)} {out : List β}
    (hidx : es.map Prod.snd = fs.map Prod.snd) (hnd : (fs.map Prod.snd).Nodup)
    (hlt : ∀ f ∈ fs, f.2 < out.length)
    (h : es.foldl (fun acc e => acc.set e.2 e.1) out =
      fs.foldl (fun acc e => acc.set e.2 e.1) out) : es = fs := by
  have hlen : es.length = fs.length := by
    rw [← length_map (f := Prod.snd), hidx, length_map]
  refine ext_getElem hlen (fun k hk hk' => ?_)
  have hsnd : es[k].2 = fs[k].2 := by
    rw [← getElem_map Prod.snd (h := by rwa [length_map]),
      ← getElem_map Prod.snd (h := by rwa [length_map])]
    simp only [hidx]
  have hpos := hlt fs[k] (getElem_mem hk')
  have he : (es.foldl (fun acc e => acc.set e.2 e.1) out)[es[k].2]? = some es[k].1 :=
    foldl_set_of_mem (hidx ▸ hnd) (getElem_mem hk) (hsnd ▸ hpos)
  have hf : (fs.foldl (fun acc e => acc.set e.2 e.1) out)[fs[k].2]? = some fs[k].1 :=
    foldl_set_of_mem hnd (getElem_mem hk') hpos
  rw [h, hsnd, hf] at he
  exact Prod.ext (Option.some.inj he).symm hsnd

theorem snd_of_readPlaced {read : TypeSpec → Reader Val} {ps : List (StructField × Nat)}
    {c c' : Cursor} {es : List (Val × Nat)}
    (h : readAll (ps.map (readPlaced read)) c = .ok es c') :
    es.map Prod.snd = ps.map Prod.snd := by
  induction ps generalizing c c' es with
  | nil =>
    obtain ⟨rfl, -⟩ := EStateM.Result.ok.inj h
    rfl
  | cons p ps ih =>
    obtain ⟨e, c₁, he, h⟩ := bind_eq_ok.mp h
    obtain ⟨es, c₂, hes, h⟩ := bind_eq_ok.mp h
    obtain ⟨rfl, -⟩ := EStateM.Result.ok.inj h
    obtain ⟨v, c₃, -, he⟩ := bind_eq_ok.mp he
    obtain ⟨rfl, -⟩ := EStateM.Result.ok.inj he
    rw [map_cons, map_cons, ih hes]

/-- The shared fields in wire order, each with its value and its place among the reader's. -/
def placed (w r : Profile) (m : Module) (s : StructDecl) (xs : List β) :
    List ((StructField × β) × Nat) :=
  (sortBy (fun q => q.1.1.minVersion.toNat) (shared w r m s xs).zipIdx).filterMap
    (fun q => (written q.1).map (fun p => (p, q.2)))

section placed

variable {w r : Profile} {m : Module} {s : StructDecl} {xs : List β}

theorem mem_placed {x : (StructField × β) × Nat} :
    x ∈ placed w r m s xs ↔ (shared w r m s xs)[x.2]? = some (x.1.1, some x.1.2) := by
  obtain ⟨⟨f, v⟩, i⟩ := x
  rw [placed, mem_filterMap]
  constructor
  · rintro ⟨⟨⟨g, o⟩, j⟩, hq, hx⟩
    have hget := mem_zipIdx_iff_getElem?.mp (mem_sortBy.mp hq)
    cases o with
    | none => cases hx
    | some u =>
      cases Option.some.inj hx
      exact hget
  · intro hget
    exact ⟨((f, some v), i), mem_sortBy.mpr (mem_zipIdx_iff_getElem?.mpr hget), rfl⟩

theorem map_fst_placed (w r : Profile) (m : Module) (s : StructDecl) (xs : List β) :
    (placed w r m s xs).map Prod.fst =
      sortBy (fun p => p.1.minVersion.toNat) ((shared w r m s xs).filterMap written) := by
  have hkey : ∀ (a : StructField × Option β) b, written a = some b →
      b.1.minVersion.toNat = a.1.minVersion.toNat := by
    rintro ⟨f, _ | v⟩ b hb
    · cases hb
    · cases Option.some.inj hb
      rfl
  rw [← filterMap_sortBy hkey, placed, map_filterMap,
    ← map_fst_sortBy_zipIdx (fun p : StructField × Option β => p.1.minVersion.toNat),
    filterMap_map]
  refine filterMap_congr (fun q _ => ?_)
  simp [Option.map_map, Function.comp_def]

theorem nodup_placed (w r : Profile) (m : Module) (s : StructDecl) (xs : List β) :
    ((placed w r m s xs).map Prod.snd).Nodup := by
  have hsub : (placed w r m s xs).map Prod.snd =
      ((sortBy (fun q => q.1.1.minVersion.toNat) (shared w r m s xs).zipIdx).filter
        (fun q => q.1.2.isSome)).map Prod.snd := by
    rw [placed, map_filterMap, ← filterMap_eq_filter, map_filterMap]
    refine filterMap_congr (fun q _ => ?_)
    obtain ⟨⟨f, _ | v⟩, i⟩ := q <;> rfl
  rw [hsub]
  refine List.Nodup.sublist (filter_sublist.map _) ?_
  have hperm := (perm_sortBy (fun q : (StructField × Option β) × Nat => q.1.1.minVersion.toNat)
    (shared w r m s xs).zipIdx).map Prod.snd
  rw [zipIdx_map_snd] at hperm
  exact hperm.symm.nodup nodup_range'

theorem filterMap_present_shared (hlen : (w.struct m s).fields.length = xs.length) :
    (r.struct m s).wireFieldOrder.filterMap
        (present (r.struct m s) (w.struct m s).version) =
      (placed w r m s xs).map (fun x => (x.1.1, x.2)) := by
  have hidx : (r.struct m s).fields.zipIdx =
      (shared w r m s xs).zipIdx.map (fun q => (q.1.1, q.2)) := by
    rw [← map_fst_shared w r m s xs, zipIdx_map]
    rfl
  rw [filterMap_present, hidx,
    ← map_sortBy (fun q : (StructField × Option β) × Nat => (q.1.1, q.2)), placed,
    map_filterMap, List.filter_map, ← filterMap_eq_filter, map_filterMap]
  refine filterMap_congr (fun q hq => ?_)
  have hmem := mem_of_getElem? (mem_zipIdx_iff_getElem?.mp (mem_sortBy.mp hq))
  have hgate := gate_iff hlen hmem
  obtain ⟨⟨f, o⟩, i⟩ := q
  cases o with
  | none => simpa [written, Option.guard] using hgate
  | some v => simpa [written, Option.guard, or_iff_not_imp_left] using hgate

theorem foldl_set_placed (val : StructField → β → Val) (fresh : StructField → Val) :
    ((placed w r m s xs).map (fun x => (val x.1.1 x.1.2, x.2))).foldl
        (fun acc e => acc.set e.2 e.1) ((r.struct m s).fields.map fresh) =
      (shared w r m s xs).map (delivered val fresh) := by
  have hnd : (((placed w r m s xs).map (fun x => (val x.1.1 x.1.2, x.2))).map Prod.snd).Nodup := by
    rw [List.map_map]
    exact nodup_placed w r m s xs
  rw [← map_fst_shared w r m s xs, List.map_map]
  refine ext_getElem? (fun i => ?_)
  cases hi : (shared w r m s xs)[i]? with
  | none =>
    have hle := List.getElem?_eq_none_iff.mp hi
    rw [List.getElem?_eq_none_iff.mpr (by simpa using hle),
      List.getElem?_eq_none_iff.mpr (by simpa using hle)]
  | some p =>
    obtain ⟨f, o⟩ := p
    rw [getElem?_map, hi]
    cases o with
    | some x =>
      have hmem : (val f x, i) ∈ (placed w r m s xs).map (fun x => (val x.1.1 x.1.2, x.2)) :=
        List.mem_map.mpr ⟨((f, x), i), mem_placed.mpr hi, rfl⟩
      refine foldl_set_of_mem hnd hmem ?_
      rw [length_map]
      exact (List.getElem?_eq_some_iff.mp hi).1
    | none =>
      have hnot : i ∉ ((placed w r m s xs).map (fun x => (val x.1.1 x.1.2, x.2))).map Prod.snd := by
        rw [List.map_map]
        intro hmem
        obtain ⟨x, hx, rfl⟩ := List.mem_map.mp hmem
        have hsome := mem_placed.mp hx
        cases hi.symm.trans hsome
      rw [foldl_set_of_notMem hnot, getElem?_map, hi]
      rfl

/-- **Reading the fields of a struct another version wrote.**  Only the members both versions have
matter: if each of them decodes, then so do all of them together, and the fields the reader alone
has keep what they started with. -/
theorem decodes_readFields {msg : Message} {off : Nat} (enc : StructField → β → Message)
    (val : StructField → β → Val) (hs : StructField → β → List Handle)
    (cond : StructField → β → Prop) (read : TypeSpec → Reader Val) (fresh : StructField → Val)
    (hlen : (w.struct m s).fields.length = xs.length)
    (hst : Stands msg off (Message.concat
      ((inWireOrder (w.struct m s).fields xs).map (fun p => enc p.1 p.2))).payload)
    (ih : ∀ p ∈ (shared w r m s xs).filterMap written, ∀ off', off ≤ off' →
      Stands msg off' (enc p.1 p.2).payload →
      Decodes msg (read p.1.type) off' (enc p.1 p.2).payload.length (val p.1 p.2) (hs p.1 p.2)
        (cond p.1 p.2)) :
    ∃ l, Decodes msg
      (readFields (r.struct m s) (w.struct m s).version read (r.struct m s).wireFieldOrder
        ((r.struct m s).fields.map fresh)) off l
      ((shared w r m s xs).map (delivered val fresh))
      ((sortBy (fun p => p.1.minVersion.toNat) ((shared w r m s xs).filterMap written)).flatMap
        (fun p => hs p.1 p.2))
      (∀ p ∈ (shared w r m s xs).filterMap written, cond p.1 p.2) := by
  let round (x : (StructField × β) × Nat) : Round (Val × Nat) :=
    { reader := readPlaced read (x.1.1, x.2)
      bytes := (enc x.1.1 x.1.2).payload
      expected := (val x.1.1 x.1.2, x.2)
      handles := hs x.1.1 x.1.2
      condition := cond x.1.1 x.1.2 }
  have hfst := map_fst_placed w r m s xs
  have hmem : ∀ x ∈ placed w r m s xs, x.1 ∈ (shared w r m s xs).filterMap written := by
    intro x hx
    have hmem : x.1 ∈ (placed w r m s xs).map Prod.fst := List.mem_map_of_mem hx
    rw [hfst] at hmem
    exact mem_sortBy.mp hmem
  have hrounds : ∀ x ∈ (placed w r m s xs).map round, x.Decodes msg off := by
    intro x hx
    obtain ⟨y, hy, rfl⟩ := List.mem_map.mp hx
    intro off' hle hst'
    exact (ih y.1 (hmem y hy) off' hle hst').map_inj (fun a h => (Prod.mk.inj h).1)
  have hbytes : Stands msg off (((placed w r m s xs).map round).flatMap (·.bytes)) := by
    rw [Message.payload_concat, inWireOrder_shared (r := r), ← hfst, map_append,
      flatMap_append, List.map_map, flatMap_map] at hst
    rw [flatMap_map]
    exact hst.left
  have hall := decodes_readAll hrounds hbytes
  have hreaders : ((placed w r m s xs).map round).map (·.reader) =
      ((placed w r m s xs).map (fun x => (x.1.1, x.2))).map (readPlaced read) := by
    rw [List.map_map, List.map_map]
    rfl
  have hexpected : ((placed w r m s xs).map round).map (·.expected) =
      (placed w r m s xs).map (fun x => (val x.1.1 x.1.2, x.2)) := by
    rw [List.map_map]
    rfl
  have hhandles : ((placed w r m s xs).map round).flatMap (·.handles) =
      (sortBy (fun p => p.1.minVersion.toNat) ((shared w r m s xs).filterMap written)).flatMap
        (fun p => hs p.1 p.2) := by
    rw [← hfst, flatMap_map, flatMap_map]
  have hcondition : (∀ x ∈ (placed w r m s xs).map round, x.condition) ↔
      ∀ p ∈ (shared w r m s xs).filterMap written, cond p.1 p.2 := by
    rw [List.forall_mem_map]
    constructor
    · intro h p hp
      have hp' : p ∈ sortBy (fun p => p.1.minVersion.toNat) ((shared w r m s xs).filterMap written) :=
        mem_sortBy.mpr hp
      rw [← hfst] at hp'
      obtain ⟨x, hx, rfl⟩ := List.mem_map.mp hp'
      exact h x hx
    · exact fun h x hx => h x.1 (hmem x hx)
  rw [hreaders, hexpected, hhandles] at hall
  rw [readFields_eq, filterMap_present_shared hlen, ← foldl_set_placed val fresh]
  refine ⟨_, (hall.map (D := True) (fun _ => rfl) (fun i tr es c hes heq => ⟨?_, trivial⟩)).congr
    ((and_iff_left trivial).trans hcondition)⟩
  refine eq_of_foldl_set_eq ?_ ?_ ?_ heq
  · rw [snd_of_readPlaced hes, List.map_map, List.map_map]
    rfl
  · rw [List.map_map]
    exact nodup_placed w r m s xs
  · rw [List.forall_mem_map]
    intro x hx
    rw [length_map, ← map_fst_shared w r m s xs, length_map]
    exact (List.getElem?_eq_some_iff.mp (mem_placed.mp hx)).1

end placed

end Voodoo
