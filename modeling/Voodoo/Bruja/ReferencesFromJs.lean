import Voodoo.Bruja.References

/-!
# The references of the conversions from JS

`conversion`: the code for a type gives up what it takes where it ends, and where it leaves the
function it owes what `LeftBy` says; if something inside fails, one of its runs leaves the function
with a value that is never given up.  There is a lemma for each emitter.
-/

namespace Voodoo.Bruja

open Command Ledger Relation List Option

variable {m : IdlModule} {type element : TypeSpec} {name v source x : String} {xs : List String}
variable {c : Code} {s t : State} {b : Bool} {n : Nat} {X : State → Prop}

/-! ### The conversion from JS -/

/-- What holds of the code that converts a value of the type to `v`. -/
structure Conversion (m : IdlModule) (type : TypeSpec) (v : String) (c : Code) : Prop where
  writes : Writes v c
  triple : ∀ ⦃xs⦄, (∀ x ∈ xs, ¬ Below v x) →
    Triple Action.step (Owing xs) c (Owing xs) (LeftBy m type xs)
  behind : ∀ s, ∃ t, Run Action.step c s false t
  left : ¬ Infallible m type → ∀ s, ∃ t, Run Action.step c s true t
  leak : ¬ Releases m type → ∀ ⦃xs s⦄, (∀ x ∈ xs, ¬ Below v x) → Owing xs s →
    ∃ t, Run Action.step c s true t ∧ ¬ t.book.Settled

/-- A type that nothing is converted for in turn. -/
def Simple (m : IdlModule) (type : TypeSpec) : Prop :=
  (∀ u, ¬ Component m type u) ∧ ∀ u, ¬ Tries type u

theorem Simple.releases (h : Simple m type) : Releases m type := by
  by_contra hno
  rcases not_releases hno with ⟨u, hu, -⟩ | ⟨u, hu, -⟩
  · exact h.1 u hu
  · exact h.2 u hu

theorem Simple.fails (h : Simple m type) (hno : ¬ Infallible m type) : Fails type := by
  rcases not_infallible hno with hfails | ⟨u, hu | hu, -⟩
  · exact hfails
  · exact (h.1 u hu).elim
  · exact (h.2 u hu).elim

theorem conversion_quiet (hs : Simple m type) (hf : Fails type) (hc : c.Only Action.Quiet)
    (hbehind : ∀ s, ∃ t, Run Action.step c s false t)
    (hleft : ∀ s, ∃ t, Run Action.step c s true t) : Conversion m type v c where
  writes := writes_quiet hc
  triple _ _ := (triple_quiet hc).mono (fun _ h => h) (fun _ h => h) fun _ h => .of_fails hf h
  behind := hbehind
  left _ := hleft
  leak hno := (hno hs.releases).elim

theorem conversion_act {a : Action} (hs : Simple m type) (hf : ¬ Fails type)
    (hwrites : ∀ x ∈ a.targets, Below v x)
    (hstep : ∀ ⦃xs s t⦄, (∀ x ∈ xs, ¬ Below v x) → Owing xs s → a.step s t → Owing xs t)
    (hcan : ∀ s, ∃ t, a.step s t) : Conversion m type v (.act a) where
  writes := hwrites
  triple _ hxs := .act fun s t h ht => hstep hxs h ht
  behind s := by
    obtain ⟨t, ht⟩ := hcan s
    exact ⟨t, .act ht⟩
  left hno := (hf (hs.fails hno)).elim
  leak hno := (hno hs.releases).elim

theorem conversion_cast {raw type' : CppTy} (hs : Simple m type) (hf : Fails type) :
    Conversion m type v (emitCast raw type' v) :=
  conversion_quiet hs hf ⟨trivial, ⟨trivial, trivial⟩, trivial, trivial⟩
    (fun s => ⟨s, .seq (.act rfl) (.seq (.snd .skip) (.seq (.act rfl) .skip))⟩)
    fun s => ⟨s, .seq (.act rfl) (.seqLeft (.fst (.leave rfl)))⟩

theorem conversion_number {type' : CppTy} (hs : Simple m type) (hf : Fails type) :
    Conversion m type v (emitNumber type' v) :=
  conversion_quiet hs hf ⟨trivial, ⟨trivial, trivial⟩, trivial⟩
    (fun s => ⟨s, .seq (.act rfl) (.seq (.snd .skip) .skip)⟩)
    fun s => ⟨s, .seq (.act rfl) (.seqLeft (.fst (.leave rfl)))⟩

theorem conversion_string (hs : Simple m type) (hf : Fails type) :
    Conversion m type v (emitString v) :=
  conversion_quiet hs hf ⟨trivial, ⟨trivial, trivial⟩, trivial, trivial⟩
    (fun s => ⟨s, .seq (.act rfl) (.seq (.snd .skip) (.seq (.act rfl) .skip))⟩)
    fun s => ⟨s, .seq (.act rfl) (.seqLeft (.fst (.leave rfl)))⟩

theorem conversion_enum : Conversion m (.ref .enum name b) v (.all [emitString v, orThrow]) :=
  conversion_quiet ⟨nofun, nofun⟩ trivial
    ⟨⟨trivial, ⟨trivial, trivial⟩, trivial, trivial⟩, ⟨trivial, trivial⟩, trivial⟩
    (fun s => ⟨s, .seq (.seq (.act rfl) (.seq (.snd .skip) (.seq (.act rfl) .skip)))
      (.seq (.snd .skip) .skip)⟩)
    fun s => ⟨s, .seqLeft (.seq (.act rfl) (.seqLeft (.fst (.leave rfl))))⟩

theorem conversion_probe : Conversion m (.ref .interface name b) v (emitInterfaceProbe name v) :=
  conversion_quiet ⟨nofun, nofun⟩ trivial
    ⟨trivial, ⟨⟨trivial, ⟨trivial, trivial⟩, trivial⟩, trivial⟩, trivial⟩
    (fun s => ⟨s, .seq (.act rfl) (.seq (.snd .skip) .skip)⟩)
    fun s => ⟨s, .seq (.act rfl)
      (.seqLeft (.fst (.seq (.act rfl) (.seqLeft (.fst (.leave rfl))))))⟩

theorem conversion_unnamed (hs : Simple m type) (hf : ¬ Fails type) :
    Conversion m type v (.act (.unnamed v)) := by
  refine conversion_act hs hf ?_ ?_ fun s => ⟨_, rfl⟩
  · intro x hx
    rw [mem_singleton.mp hx]
    exact below_self
  · intro xs s t hxs h ht
    obtain rfl := ht
    exact Owes.put h fun hmem => hxs v hmem below_self

theorem conversion_value (hs : Simple m type) (hf : ¬ Fails type) :
    Conversion m type v (.act (.value v)) := by
  refine conversion_act hs hf ?_ ?_ fun s => ⟨_, rfl⟩
  · intro x hx
    rw [mem_singleton.mp hx]
    exact below_self
  · intro xs s t hxs h ht
    obtain rfl := ht
    exact Owes.put h fun hmem => hxs v hmem below_self

theorem conversion_callback :
    Conversion m (.ref .callback name b) v (.act (.declare (.callback name) v)) :=
  conversion_act ⟨nofun, nofun⟩ id (fun _ hx => (not_mem_nil hx).elim)
    (fun _ _ _ _ h ht => ht ▸ h) fun s => ⟨s, rfl⟩

theorem conversion_plain {kind : PlainKind} :
    Conversion m (.plain kind b) v (emitPlainConversion kind v) := by
  have hs : Simple m (.plain kind b) := ⟨nofun, nofun⟩
  cases kind with
  | void => exact conversion_unnamed hs id
  | any => exact conversion_value hs id
  | unsignedLong => exact conversion_number hs trivial
  | longLong => exact conversion_number hs trivial
  | domString => exact conversion_string hs trivial
  | usvString => exact conversion_string hs trivial
  | _ => exact conversion_cast hs trivial

theorem not_below_suffix {w : String} (hw : 3 ≤ w.length) (hxs : ∀ x ∈ xs, ¬ Below v x) :
    ∀ x ∈ xs, ¬ Below (v ++ ("_" ++ w)) x := by
  rw [← String.append_assoc]
  exact fun x hx hbelow => hxs x hx (hbelow.of_child hw)

theorem Writes.of_suffix {w : String} (hw : 3 ≤ w.length) (hc : Writes (v ++ ("_" ++ w)) c) :
    Writes v c := by
  rw [← String.append_assoc] at hc
  exact hc.of_child hw

theorem Conversion.not_settled (h : Conversion m type v c) (hx : ¬ Below v x)
    (hxs : ∀ y ∈ xs, ¬ Below v y) (hmem : x ∉ xs) (hs : Owing xs s)
    (hr : Run Action.step c { s with book := s.book.take x } true t) : ¬ t.book.Settled := by
  have htake : Owing (x :: xs) { s with book := s.book.take x } := Owes.take hs hmem
  have hleft := (h.triple (forall_mem_cons.mpr ⟨hx, hxs⟩)).left htake hr
  have hvalue := value_of_run h.writes hr hx
  rw [Book.value_take_self] at hvalue
  obtain ⟨ys, hys⟩ := hleft.more
  exact Owes.not_settled hys (mem_append_right _ mem_cons_self) hvalue

theorem writes_nil {a : Action} (h : a.targets = []) : Writes v (.act a) := by
  intro x hx
  rw [h] at hx
  exact (not_mem_nil hx).elim

theorem writes_single {a : Action} (h : a.targets = [x]) (hx : Below v x) : Writes v (.act a) := by
  intro y hy
  rw [h] at hy
  rw [mem_singleton.mp hy]
  exact hx

theorem not_below_elemJs : ¬ Below (v ++ "_elem") (v ++ "_elem_js") := by
  have hname : v ++ "_elem_js" = v ++ "_elem" ++ "_js" := by
    rw [String.append_assoc]
    rfl
  rw [hname]
  exact not_below_js

section

variable (h : Conversion m element (v ++ "_elem") c)

include h in
theorem writes_sequence : Writes v (sequenceFromJs element v source c) := by
  have hlen : Below v (v ++ "_len_val") := below_suffix (w := "len_val") (by decide)
  have helem : Below v (v ++ "_elem_js") := below_suffix (w := "elem_js") (by decide)
  have hc : Writes v c := Writes.of_suffix (w := "elem") (by decide) h.writes
  have hturn : Writes v (elementFromJs v source c) :=
    ⟨writes_single rfl helem, hc, writes_nil rfl, writes_nil rfl, trivial⟩
  exact ⟨writes_nil rfl, ⟨writes_nil rfl, writes_single rfl hlen,
    ⟨⟨writes_nil rfl, writes_nil (a := .ret .exception) rfl, trivial⟩, trivial⟩,
    writes_nil rfl, writes_nil rfl, hturn, trivial⟩, trivial⟩

include h in
theorem triple_sequence (hxs : ∀ x ∈ xs, ¬ Below v x) :
    Triple Action.step (Owing xs) (sequenceFromJs element v source c) (Owing xs)
      (LeftBy m (.sequence element b) xs) := by
  have hlen : v ++ "_len_val" ∉ xs := fun hmem =>
    hxs _ hmem (below_suffix (w := "len_val") (by decide))
  have helem : v ++ "_elem_js" ∉ xs := fun hmem =>
    hxs _ hmem (below_suffix (w := "elem_js") (by decide))
  have hout : ∀ x ∈ (v ++ "_elem_js") :: xs, ¬ Below (v ++ "_elem") x :=
    forall_mem_cons.mpr ⟨not_below_elemJs, not_below_suffix (w := "elem") (by decide) hxs⟩
  have hlength : Triple Action.step (Owing ((v ++ "_len_val") :: xs))
      (.either (.all [.act (.free (v ++ "_len_val")), .leave (.ret .exception)]) .skip)
      (Owing ((v ++ "_len_val") :: xs)) (LeftBy m (.sequence element b) xs) := by
    refine .either (.all_cons triple_free (.all_single (.leave ?_))) .skip
    intro s t hs ht
    obtain rfl := ht
    exact .of_fails trivial hs
  have hturn : Triple Action.step (Owing xs) (elementFromJs v source c) (Owing xs)
      (LeftBy m (.sequence element b) xs) := by
    refine .all_cons (triple_take helem _) (.all_cons ?_ (.all_cons triple_free
      (.all_single (triple_quiet_act trivial))))
    exact (h.triple hout).mono (fun _ hs => hs) (fun _ hs => hs) fun _ => .of_component .element
  exact .all_cons (triple_quiet_act trivial) (.all_single (.scope
    (.all_cons (triple_quiet_act trivial) (.all_cons (triple_take hlen _) (.all_cons hlength
      (.all_cons triple_free (.all_cons (triple_quiet_act trivial) (.all_single (.loop hturn)))))))))

include h in
theorem leak_sequence (hno : ¬ Infallible m element) (hxs : ∀ x ∈ xs, ¬ Below v x)
    (hs : Owing xs s) :
    ∃ t, Run Action.step (sequenceFromJs element v source c) s true t ∧ ¬ t.book.Settled := by
  have hlen : v ++ "_len_val" ∉ xs := fun hmem =>
    hxs _ hmem (below_suffix (w := "len_val") (by decide))
  have helem : v ++ "_elem_js" ∉ xs := fun hmem =>
    hxs _ hmem (below_suffix (w := "elem_js") (by decide))
  have hlength : Owing xs { s with book := (s.book.take (v ++ "_len_val")).give (v ++ "_len_val") } :=
    Owes.give (Owes.take hs hlen)
  obtain ⟨t, ht⟩ := h.left hno { s with book :=
    ((s.book.take (v ++ "_len_val")).give (v ++ "_len_val")).take (v ++ "_elem_js") }
  have hturn : Run Action.step (elementFromJs v source c)
      { s with book := (s.book.take (v ++ "_len_val")).give (v ++ "_len_val") } true t :=
    .seq (.act rfl) (.seqLeft ht)
  refine ⟨t, ?_, h.not_settled not_below_elemJs (not_below_suffix (w := "elem") (by decide) hxs)
    helem hlength ht⟩
  exact .seq (.act rfl) (.seqLeft (.scope (.seq (.act rfl) (.seq (.act rfl) (.seq (.snd .skip)
    (.seq (.act rfl) (.seq (.act rfl) (.seqLeft (.turnLeft hturn)))))))))

include h in
theorem conversion_sequence :
    Conversion m (.sequence element b) v (sequenceFromJs element v source c) where
  writes := writes_sequence h
  triple _ hxs := triple_sequence h hxs
  behind s := ⟨_, .seq (.act rfl) (.seq (.scope (.seq (.act rfl) (.seq (.act rfl)
    (.seq (.snd .skip) (.seq (.act rfl) (.seq (.act rfl) (.seq .done .skip))))))) .skip)⟩
  left _ s := ⟨_, .seq (.act rfl) (.seqLeft (.scope (.seq (.act rfl) (.seq (.act rfl)
    (.seqLeft (.fst (.seq (.act rfl) (.seqLeft (.leave rfl)))))))))⟩
  leak hno xs s hxs hs := by
    rcases not_releases hno with ⟨u, hu, hinf⟩ | ⟨u, hu, -⟩
    · cases hu with
      | element => exact leak_sequence h hinf hxs hs
    · cases hu

end

/-! ### Dictionaries -/

theorem below_fieldJs (field : DictField) : Below v (fieldJs v field) := by
  unfold fieldJs
  rw [String.append_assoc, String.append_assoc]
  refine below_suffix ?_
  rw [String.length_append]
  exact Nat.le_add_left 3 _

theorem not_below_fieldVal (field : DictField) (hxs : ∀ x ∈ xs, ¬ Below v x) :
    ∀ x ∈ fieldJs v field :: xs, ¬ Below (fieldVal v field) x := by
  refine forall_mem_cons.mpr ⟨not_below_field_val, ?_⟩
  unfold fieldVal
  rw [String.append_assoc, String.append_assoc]
  refine not_below_suffix ?_ hxs
  rw [String.length_append]
  exact (by decide : 3 ≤ 4).trans (Nat.le_add_left 4 _)

section

variable {field : DictField} (h : Conversion m field.type (fieldVal v field) c)

include h in
theorem writes_field : Writes v (fieldFromJs v source field c) := by
  have hc : Writes v c := by
    have hw := h.writes
    unfold fieldVal at hw
    rw [String.append_assoc, String.append_assoc] at hw
    refine Writes.of_suffix ?_ hw
    rw [String.length_append]
    exact (by decide : 3 ≤ 4).trans (Nat.le_add_left 4 _)
  exact ⟨writes_single rfl (below_fieldJs field), ⟨⟨hc, writes_nil rfl, trivial⟩, trivial⟩,
    writes_nil rfl, trivial⟩

include h in
theorem triple_field (hxs : ∀ x ∈ xs, ¬ Below v x) :
    Triple Action.step (Owing xs) (fieldFromJs v source field c) (Owing xs)
      (LeftBy m field.type (fieldJs v field :: xs)) := by
  have hjs : fieldJs v field ∉ xs := fun hmem => hxs _ hmem (below_fieldJs field)
  refine .all_cons (triple_take hjs _) (.all_cons (.either ?_ .skip) (.all_single triple_free))
  exact .all_cons (h.triple (not_below_fieldVal field hxs)) (.all_single (triple_quiet_act trivial))

theorem behind_field (s : State) : ∃ t, Run Action.step (fieldFromJs v source field c) s false t :=
  ⟨_, .seq (.act rfl) (.seq (.snd .skip) (.seq (.act rfl) .skip))⟩

include h in
theorem left_field (hno : ¬ Infallible m field.type) (s : State) :
    ∃ t, Run Action.step (fieldFromJs v source field c) s true t ∧
      ∀ ⦃xs⦄, (∀ x ∈ xs, ¬ Below v x) → Owing xs s → ¬ t.book.Settled := by
  obtain ⟨t, ht⟩ := h.left hno { s with book := s.book.take (fieldJs v field) }
  refine ⟨t, .seq (.act rfl) (.seqLeft (.fst (.seqLeft ht))), ?_⟩
  intro xs hxs hs
  have hjs : fieldJs v field ∉ xs := fun hmem => hxs _ hmem (below_fieldJs field)
  have hout := forall_mem_cons.mp (not_below_fieldVal field hxs)
  exact h.not_settled hout.1 hout.2 hjs hs ht

end

/-- What holds of the code that converts the fields of a dictionary to `v`. -/
structure FieldConversions (m : IdlModule) (fields : List DictField) (v : String) (c : Code) :
    Prop where
  writes : Writes v c
  triple : ∀ ⦃xs⦄, (∀ x ∈ xs, ¬ Below v x) → Triple Action.step (Owing xs) c (Owing xs)
    fun s => ∃ field ∈ fields, LeftBy m field.type (fieldJs v field :: xs) s
  behind : ∀ s, ∃ t, Run Action.step c s false t
  left : (∃ field ∈ fields, ¬ Infallible m field.type) → ∀ s, ∃ t, Run Action.step c s true t ∧
    ∀ ⦃xs⦄, (∀ x ∈ xs, ¬ Below v x) → Owing xs s → ¬ t.book.Settled

section

variable {conv : TypeSpec → String → String → Option Code}
variable (hconv : ∀ ⦃type v source c⦄, conv type v source = some c → Conversion m type v c)

include hconv in
theorem fieldConversions {fields : List DictField} (h : emitFieldsFromJs conv v source fields = some c) :
    FieldConversions m fields v c := by
  induction fields generalizing c with
  | nil =>
    obtain rfl := some.inj h
    refine ⟨trivial, fun _ _ => .skip, fun s => ⟨s, .skip⟩, ?_⟩
    rintro ⟨_, hmem, -⟩
    exact (not_mem_nil hmem).elim
  | cons field rest ih =>
    rw [emitFieldsFromJs, bind_eq_bind, bind_eq_some_iff] at h
    obtain ⟨value, hvalue, h⟩ := h
    rw [bind_eq_some_iff] at h
    obtain ⟨others, hothers, h⟩ := h
    obtain rfl := some.inj h
    have hfield := hconv hvalue
    have hrest := ih hothers
    constructor
    · exact ⟨writes_field hfield, hrest.writes⟩
    · intro xs hxs
      refine .seq ((triple_field hfield hxs).mono (fun _ hs => hs) (fun _ hs => hs) ?_)
        ((hrest.triple hxs).mono (fun _ hs => hs) (fun _ hs => hs) ?_)
      · exact fun _ hs => ⟨field, mem_cons_self, hs⟩
      · rintro s ⟨f, hf, hs⟩
        exact ⟨f, mem_cons_of_mem _ hf, hs⟩
    · intro s
      obtain ⟨t, ht⟩ := behind_field s
      obtain ⟨u, hu⟩ := hrest.behind t
      exact ⟨u, .seq ht hu⟩
    · rintro ⟨f, hf, hno⟩ s
      by_cases hself : Infallible m field.type
      · -- past this field without a conversion, to the one that fails
        have hmem : f ∈ rest := (mem_cons.mp hf).resolve_left fun he => hno (he ▸ hself)
        obtain ⟨t, ht⟩ : ∃ t, Run Action.step (fieldFromJs v source field value) s false t :=
          behind_field s
        obtain ⟨u, hu, hleak⟩ := hrest.left ⟨f, hmem, hno⟩ t
        refine ⟨u, .seq ht hu, fun xs hxs hs => hleak hxs ?_⟩
        exact (triple_field hfield hxs).behind hs ht
      · obtain ⟨t, ht, hleak⟩ := left_field hfield hself s
        exact ⟨t, .seqLeft ht, hleak⟩

theorem conversion_dictionary {fields : List DictField} (hf : m.collectEffectiveFields name = some fields)
    (h : FieldConversions m fields v c) :
    Conversion m (.ref .dictionary name b) v
      (.all [.act (.declare (.struct name) v), .scope c]) where
  writes := ⟨writes_nil rfl, h.writes, trivial⟩
  triple xs hxs := by
    refine .all_cons (triple_quiet_act trivial) (.all_single (.scope ?_))
    refine (h.triple hxs).mono (fun _ hs => hs) (fun _ hs => hs) ?_
    rintro s ⟨field, hfield, hs⟩
    exact .of_component (.field hf hfield) hs
  behind s := by
    obtain ⟨t, ht⟩ := h.behind s
    exact ⟨t, .seq (.act rfl) (.seq (.scope ht) .skip)⟩
  left hno s := by
    rcases not_infallible hno with hfails | ⟨u, hu | hu, hinf⟩
    · exact hfails.elim
    · cases hu with
      | field hfields hfield =>
        obtain rfl := some.inj (hf.symm.trans hfields)
        obtain ⟨t, ht, -⟩ := h.left ⟨_, hfield, hinf⟩ s
        exact ⟨t, .seq (.act rfl) (.seqLeft (.scope ht))⟩
    · cases hu
  leak hno xs s hxs hs := by
    rcases not_releases hno with ⟨u, hu, hinf⟩ | ⟨u, hu, -⟩
    · cases hu with
      | field hfields hfield =>
        obtain rfl := some.inj (hf.symm.trans hfields)
        obtain ⟨t, ht, hleak⟩ := h.left ⟨_, hfield, hinf⟩ s
        exact ⟨t, .seq (.act rfl) (.seqLeft (.scope ht)), hleak hxs hs⟩
    · cases hu

end

/-! ### Unions and nullable types -/

theorem quiet_members (members : List TypeSpec) :
    (emitInterfaceMembers v members).Only Action.Quiet := by
  refine emitInterfaceMembers_ind (P := fun _ c => c.Only Action.Quiet) trivial ?_ ?_ members
  · intro name b rest c ih
    exact ⟨⟨⟨trivial, ⟨trivial, ⟨⟨trivial, trivial, trivial⟩, trivial⟩, trivial⟩, trivial⟩, trivial⟩, ih⟩
  · exact fun _ _ _ ih => ih

theorem triple_members (members : List TypeSpec) :
    Triple Action.step (Owing xs) (emitInterfaceMembers v members) (Owing xs) X := by
  refine emitInterfaceMembers_ind (P := fun _ c => Triple Action.step (Owing xs) c (Owing xs) X)
    .skip ?_ ?_ members
  · intro name b rest c ih
    refine .seq (.either (.all_cons (triple_quiet_act trivial) (.all_single ?_))
      (triple_quiet_act trivial)) ih
    exact .all_cons (triple_quiet_act trivial) (.all_single (.either
      (.all_cons (triple_quiet_act trivial) (.all_single (triple_quiet_act trivial))) .skip))
  · exact fun _ _ _ ih => ih

theorem run_members_unmatched (members : List TypeSpec) (h : s.flag (v ++ "_matched") = false) :
    Run Action.step (emitInterfaceMembers v members) s false s := by
  refine emitInterfaceMembers_ind (P := fun _ c => Run Action.step c s false s) .skip ?_ ?_ members
  · intro name b rest c ih
    exact .seq (.fst (.seq (.act ⟨rfl, h⟩) (.seq (.seq (.act rfl) (.seq (.snd .skip) .skip)) .skip))) ih
  · exact fun _ _ _ ih => ih

theorem run_members_matched (members : List TypeSpec) (h : s.flag (v ++ "_matched") = true) :
    Run Action.step (emitInterfaceMembers v members) s false s := by
  refine emitInterfaceMembers_ind (P := fun _ c => Run Action.step c s false s) .skip ?_ ?_ members
  · exact fun _ _ _ _ ih => .seq (.snd (.act ⟨rfl, h⟩)) ih
  · exact fun _ _ _ ih => ih

/-- The flag `v_matched` when a union has been declared. -/
def State.unmatched (s : State) (v : String) : State :=
  { s with flag := Function.update s.flag (v ++ "_matched") false }

theorem flag_unmatched : (s.unmatched v).flag (v ++ "_matched") = false := Function.update_self ..

section

variable {first fallback : TypeSpec} {rest : List TypeSpec}

theorem exists_interface (hnone : unionFallback (first :: rest) = none) :
    ∃ name b, first = .ref .interface name b := by
  have hfirst : first.isInterface = true := by
    by_contra hno
    rw [unionFallback, find?_cons_of_pos (by simpa using hno)] at hnone
    cases hnone
  cases first with
  | ref kind name b =>
    cases kind with
    | interface => exact ⟨name, b, rfl⟩
    | _ => cases hfirst
  | _ => cases hfirst

theorem conversion_union_none (hnone : unionFallback (first :: rest) = none) :
    Conversion m (.union first rest b) v (unionFromJs type (first :: rest) v .skip) where
  writes := writes_quiet ⟨trivial, ⟨trivial, quiet_members _, trivial,
    ⟨⟨trivial, trivial, trivial⟩, trivial⟩, trivial⟩, trivial⟩
  triple _ _ := by
    refine .all_cons (triple_quiet_act trivial) (.all_single (.scope ?_))
    refine .all_cons (triple_quiet_act trivial) (.all_cons (triple_members _) (.all_cons .skip ?_))
    refine .all_single (.either (.all_cons (triple_quiet_act trivial) (.all_single (.leave ?_)))
      (triple_quiet_act trivial))
    intro s t hs ht
    obtain rfl := ht
    exact .of_fails hnone hs
  behind s := by
    obtain ⟨name, b', rfl⟩ := exists_interface hnone
    have hset : ({ s.unmatched v with
        flag := Function.update (s.unmatched v).flag (v ++ "_matched") true } : State).flag
          (v ++ "_matched") = true := Function.update_self ..
    have hmatch : Run Action.step (emitInterfaceMembers v (.ref .interface name b' :: rest))
        (s.unmatched v) false _ :=
      .seq (.fst (.seq (.act ⟨rfl, flag_unmatched⟩) (.seq (.seq (.act rfl)
        (.seq (.fst (.seq (.act rfl) (.seq (.act rfl) .skip))) .skip)) .skip)))
        (run_members_matched rest hset)
    exact ⟨_, .seq (.act rfl) (.seq (.scope (.seq (.act rfl) (.seq hmatch (.seq .skip
      (.seq (.snd (.act ⟨rfl, hset⟩)) .skip))))) .skip)⟩
  left _ s := ⟨s.unmatched v, .seq (.act rfl) (.seqLeft (.scope (.seq (.act rfl)
    (.seq (run_members_unmatched _ flag_unmatched) (.seq .skip
      (.seqLeft (.fst (.seq (.act ⟨rfl, flag_unmatched⟩) (.seqLeft (.leave rfl))))))))))⟩
  leak hno := by
    rcases not_releases hno with ⟨u, hu, -⟩ | ⟨u, hu, -⟩
    · cases hu
    · cases hu with
      | fallback h => cases hnone.symm.trans h

/-- A union with a fallback: what is left unmatched by its members is converted to that. -/
theorem conversion_union_some (hsome : unionFallback (first :: rest) = some fallback)
    (h : Conversion m fallback (v ++ "_fallback") c) :
    Conversion m (.union first rest b) v
      (unionFromJs type (first :: rest) v (fallbackFromJs v c)) where
  writes := by
    have hc : Writes v c := Writes.of_suffix (w := "fallback") (by decide) h.writes
    exact ⟨writes_nil rfl, ⟨writes_nil rfl, writes_quiet (quiet_members _),
      ⟨⟨writes_nil rfl, ⟨hc, writes_nil rfl, writes_nil rfl, trivial⟩, trivial⟩, writes_nil rfl⟩,
      ⟨⟨writes_nil rfl, writes_nil (a := .ret .thrown) rfl, trivial⟩, writes_nil rfl⟩, trivial⟩, trivial⟩
  triple xs hxs := by
    have hfallback : Triple Action.step (Owing xs) (fallbackFromJs v c)
        (fun s => Owing xs s ∧ s.flag (v ++ "_matched") = true)
        (LeftBy m (.union first rest b) xs) := by
      have hvalue : Triple Action.step (Owing xs) c (Owing xs) (LeftBy m (.union first rest b) xs) :=
        (h.triple (not_below_suffix (w := "fallback") (by decide) hxs)).mono
          (fun _ hs => hs) (fun _ hs => hs) fun _ => .of_tries (.fallback hsome)
      refine .either (.all_cons (triple_quiet_act trivial) (.all_single (.all_cons hvalue (.all_cons
        (triple_quiet_act trivial) (.all_single (.act ?_)))))) (.act ?_)
      · intro s t hs ht
        obtain rfl := ht
        exact ⟨hs, Function.update_self ..⟩
      · rintro s t hs ⟨rfl, hflag⟩
        exact ⟨hs, hflag⟩
    -- with a match the function is not left any more
    have hlast : Triple Action.step (fun s => Owing xs s ∧ s.flag (v ++ "_matched") = true)
        (ifNotSet (v ++ "_matched") (.leave (.ret .thrown))) (Owing xs)
        (LeftBy m (.union first rest b) xs) := by
      refine .either (.all_cons (Triple.act (Q := fun _ => False) ?_) (.all_single (.leave ?_)))
        (.act ?_)
      · rintro s t ⟨-, hset⟩ ⟨rfl, hflag⟩
        cases hset.symm.trans hflag
      · exact fun _ _ hs _ => hs.elim
      · rintro s t ⟨hs, -⟩ ⟨rfl, -⟩
        exact hs
    exact .all_cons (triple_quiet_act trivial) (.all_single (.scope (.all_cons
      (triple_quiet_act trivial) (.all_cons (triple_members _) (.all_cons hfallback
        (.all_single hlast))))))
  behind s := by
    obtain ⟨t, ht⟩ := h.behind (s.unmatched v)
    have hset : ({ t with flag := Function.update t.flag (v ++ "_matched") true } : State).flag
        (v ++ "_matched") = true := Function.update_self ..
    have hfallback : Run Action.step (fallbackFromJs v c) (s.unmatched v) false _ :=
      .fst (.seq (.act ⟨rfl, flag_unmatched⟩) (.seq (.seq ht (.seq (.act rfl) (.seq (.act rfl) .skip)))
        .skip))
    exact ⟨_, .seq (.act rfl) (.seq (.scope (.seq (.act rfl)
      (.seq (run_members_unmatched _ flag_unmatched) (.seq hfallback
        (.seq (.snd (.act ⟨rfl, hset⟩)) .skip))))) .skip)⟩
  left hno s := by
    rcases not_infallible hno with hfails | ⟨u, hu | hu, hinf⟩
    · cases hfails.symm.trans hsome
    · cases hu
    · cases hu with
      | fallback hu =>
        obtain rfl := some.inj (hsome.symm.trans hu)
        obtain ⟨t, ht⟩ := h.left hinf (s.unmatched v)
        exact ⟨t, .seq (.act rfl) (.seqLeft (.scope (.seq (.act rfl)
          (.seq (run_members_unmatched _ flag_unmatched)
            (.seqLeft (.fst (.seq (.act ⟨rfl, flag_unmatched⟩) (.seqLeft (.seqLeft ht)))))))))⟩
  leak hno xs s hxs hs := by
    rcases not_releases hno with ⟨u, hu, -⟩ | ⟨u, hu, hrel⟩
    · cases hu
    · cases hu with
      | fallback hu =>
        obtain rfl := some.inj (hsome.symm.trans hu)
        have hout := not_below_suffix (w := "fallback") (by decide) hxs
        obtain ⟨t, ht, hleak⟩ := h.leak hrel (s := s.unmatched v) hout hs
        exact ⟨t, .seq (.act rfl) (.seqLeft (.scope (.seq (.act rfl)
          (.seq (run_members_unmatched _ flag_unmatched)
            (.seqLeft (.fst (.seq (.act ⟨rfl, flag_unmatched⟩) (.seqLeft (.seqLeft ht))))))))), hleak⟩

end

theorem conversion_nullable (h : Conversion m type.nonNull (v ++ "_present") c) :
    Conversion m type v (nullableFromJs type v c) where
  writes := by
    have hc : Writes v c := Writes.of_suffix (w := "present") (by decide) h.writes
    exact ⟨writes_nil rfl, ⟨⟨hc, writes_nil rfl, trivial⟩, trivial⟩, trivial⟩
  triple xs hxs := by
    refine .all_cons (triple_quiet_act trivial) (.all_single (.either (.all_cons ?_ (.all_single
      (triple_quiet_act trivial))) .skip))
    exact (h.triple (not_below_suffix (w := "present") (by decide) hxs)).mono
      (fun _ hs => hs) (fun _ hs => hs) fun _ => .of_nonNull
  behind s := ⟨s, .seq (.act rfl) (.seq (.snd .skip) .skip)⟩
  left hno s := by
    obtain ⟨t, ht⟩ := h.left (fun hinf => hno (infallible_nonNull.mp hinf)) s
    exact ⟨t, .seq (.act rfl) (.seqLeft (.fst (.seqLeft ht)))⟩
  leak hno xs s hxs hs := by
    obtain ⟨t, ht, hleak⟩ := h.leak (fun hrel => hno (releases_nonNull.mp hrel))
      (not_below_suffix (w := "present") (by decide) hxs) hs
    exact ⟨t, .seq (.act rfl) (.seqLeft (.fst (.seqLeft ht))), hleak⟩

section

variable {conv : TypeSpec → String → String → Option Code}
variable (hconv : ∀ ⦃type v source c⦄, conv type v source = some c → Conversion m type v c)

include hconv in
theorem conversion_base (hi : type.isInterface = false)
    (h : emitBaseValueConversion conv m type v source = some c) : Conversion m type v c := by
  cases type with
  | plain kind b =>
    obtain rfl := some.inj h
    exact conversion_plain
  | sequence element b =>
    obtain ⟨value, hvalue, h⟩ := bind_eq_some_iff.mp h
    obtain rfl := some.inj h
    exact conversion_sequence (hconv hvalue)
  | promise element b =>
    obtain rfl := some.inj h
    exact conversion_unnamed ⟨nofun, nofun⟩ id
  | union first rest b =>
    obtain ⟨fallback, hfallback, h⟩ := bind_eq_some_iff.mp h
    obtain rfl := some.inj h
    cases hf : unionFallback (first :: rest) with
    | none =>
      rw [hf] at hfallback
      obtain rfl := some.inj hfallback
      exact conversion_union_none hf
    | some t =>
      rw [hf] at hfallback
      obtain ⟨value, hvalue, hfallback⟩ := bind_eq_some_iff.mp hfallback
      obtain rfl := some.inj hfallback
      exact conversion_union_some hf (hconv hvalue)
  | ref kind name b =>
    cases kind with
    | interface => cases hi
    | enum =>
      obtain ⟨_, -, h⟩ := bind_eq_some_iff.mp h
      obtain rfl := some.inj h
      exact conversion_enum
    | dictionary =>
      obtain ⟨fields, hfields, h⟩ := bind_eq_some_iff.mp h
      obtain ⟨body, hbody, h⟩ := bind_eq_some_iff.mp h
      obtain rfl := some.inj h
      exact conversion_dictionary hfields (fieldConversions hconv hbody)
    | callback =>
      obtain rfl := some.inj h
      exact conversion_callback
    | unresolved =>
      obtain rfl := some.inj h
      exact conversion_unnamed ⟨nofun, nofun⟩ id

end

/-- **The conversions from JS.** -/
theorem conversion (h : emitValueConversion m n type v source = some c) : Conversion m type v c := by
  induction n generalizing type v source c with
  | zero => cases h
  | succ n ih =>
    have hconv : ∀ ⦃type v source c⦄, emitValueConversion m n type v source = some c →
        Conversion m type v c := fun _ _ _ _ => ih
    by_cases hi : type.isInterface = true
    · cases type with
      | ref kind name b =>
        cases kind with
        | interface =>
          obtain rfl := some.inj h
          exact conversion_probe
        | _ => cases hi
      | _ => cases hi
    · have hi' : type.isInterface = false := Bool.eq_false_iff.mpr hi
      rw [emitValueConversion_succ hi'] at h
      by_cases hnull : type.nullable = true
      · rw [if_pos hnull] at h
        obtain ⟨value, hvalue, h⟩ := bind_eq_some_iff.mp h
        obtain rfl := some.inj h
        exact conversion_nullable (conversion_base hconv (isInterface_nonNull.trans hi') hvalue)
      · rw [if_neg hnull] at h
        exact conversion_base hconv hi' h

end Voodoo.Bruja
