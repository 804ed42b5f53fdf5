import Voodoo.Whp.Streams

/-!
# Signals and what the calls do

`READABLE` and `WRITABLE` of a data pipe are computed from the number of bytes in it; its calls move
whole elements, those in two phases in one piece and one transfer at a time.  So a signal can
promise what the calls refuse: some bytes are free but no element, an element is free but not in
one piece, or a transfer is going on.

* `signals_agree_iff`: in every state of every run, the condition under which the signals of an end
  say what its calls do; those of a message pipe always do;
* `not_signals_agree`: a ring of three bytes with elements of two.
-/

namespace Voodoo.Whp

/-! ### Whole elements -/

theorem whole_eq_zero_iff {x size : UInt32} (hsize : 0 < size) : x - x % size = 0 ↔ x < size := by
  have hpos : 0 < size.toNat := UInt32.lt_iff_toNat_lt.mp hsize
  have hle : x % size ≤ x := by
    rw [UInt32.le_iff_toNat_le, UInt32.toNat_mod]
    exact Nat.mod_le _ _
  rw [← UInt32.toNat_inj, UInt32.toNat_sub_of_le _ _ hle, UInt32.toNat_mod, UInt32.toNat_zero,
    UInt32.lt_iff_toNat_lt, ← Nat.mod_eq_iff_lt (Nat.ne_of_gt hpos)]
  have hmod := Nat.mod_le x.toNat size.toNat
  omega

theorem le_min_iff (x y z : UInt32) : x ≤ min y z ↔ x ≤ y ∧ x ≤ z := by
  rw [UInt32.le_iff_toNat_le, UInt32.le_iff_toNat_le, UInt32.le_iff_toNat_le, toNat_min]
  exact Nat.le_min

namespace DataPipeState

/-- A whole element is free, in one piece, and no write in two phases is going on. -/
def FreesElement (s : DataPipeState) : Prop :=
  s.twoPhaseWrite = none ∧ s.elementSize ≤ s.capacity - s.available ∧
    s.elementSize ≤ s.capacity - s.w

/-- A whole element is buffered, in one piece, and no read in two phases is going on. -/
def HoldsElement (s : DataPipeState) : Prop :=
  s.twoPhaseRead = none ∧ s.elementSize ≤ s.available ∧ s.elementSize ≤ s.capacity - s.r

/-! ### The element size -/

theorem elementSize_foldl_put (bytes : List UInt8) (s : DataPipeState) :
    (bytes.foldl put s).elementSize = s.elementSize := by
  induction bytes generalizing s with
  | nil => rfl
  | cons byte bytes ih => exact ih (s.put byte)

theorem elementSize_get (n : Nat) (s : DataPipeState) :
    (get n s).2.elementSize = s.elementSize := by
  induction n generalizing s with
  | zero => rfl
  | succ n ih => exact ih { s with r := (s.r + 1) % s.capacity }

theorem Call.elementSize {s s' : DataPipeState} {op : DataOp} {reply : Reply}
    (h : Call s op reply s') : s'.elementSize = s.elementSize := by
  cases h with
  | write p elements n => exact elementSize_foldl_put _ s
  | read h numBytes n => exact elementSize_get _ s
  | _ => rfl

end DataPipeState

namespace Core

variable {c : Core} {x : Handle} {i : Nat}

theorem elementSize_step (hs : c.Sound) (h : ∀ i, 0 < (c.dataPipes i).elementSize) (op : Op)
    (i : Nat) : 0 < ((c.step op).dataPipes i).elementSize := by
  by_cases hdata : ∃ dop, op = .data dop
  · obtain ⟨dop, rfl⟩ := hdata
    rcases performData_dataPipes c dop i with ⟨heq, -⟩ | ⟨-, hcall⟩
    · rw [step, perform, heq]
      exact h i
    · rw [step, perform, hcall.elementSize]
      exact h i
  by_cases hcreate : ∃ elementSize capacity, op = .createDataPipe elementSize capacity
  · obtain ⟨elementSize, capacity, rfl⟩ := hcreate
    rw [step, perform, createDataPipe_dataPipes, newDataPipe]
    dsimp only
    by_cases hi : i = c.dataPipeCount
    · rw [hi, setDataPipe_self]
      show 0 < (if elementSize = 0 then (1 : UInt32) else elementSize)
      split
      · decide
      · exact UInt32.pos_iff_ne_zero.mpr ‹_›
    · rw [setDataPipe_of_ne _ _ hi]
      exact h i
  · obtain ⟨p, q, heq⟩ := (onlyCloses_step hs (fun dop h => hdata ⟨dop, h⟩)
      fun elementSize capacity h => hcreate ⟨elementSize, capacity, h⟩).state i
    rw [heq]
    exact h i

theorem elementSize_of_reaches {allowed : Core → Op → Prop}
    (h : Machine.Reaches ({} : Core) step allowed c) (i : Nat) :
    0 < (c.dataPipes i).elementSize := by
  have hone : (0 : UInt32) < 1 := by decide
  have hstart : ∀ i, 0 < (({} : Core).dataPipes i).elementSize := fun _ => hone
  exact h.invariant_under (fun c h => sound_of_reaches h) hstart
    (fun c op hs h _ i => elementSize_step hs h op i) i

/-! ### The calls -/

/-- `WhpWriteData` of one element and `WhpBeginWriteData` for one or more succeed. -/
def AcceptsElement (c : Core) (producer : Handle) (i : Nat) : Prop :=
  (∀ elements, elements.length = (c.dataPipes i).elementSize.toNat →
    (c.writeData producer elements).1.result = .ok) ∧
  ∀ numBytes, (c.dataPipes i).elementSize ≤ numBytes →
    (c.beginWriteData producer numBytes).1.result = .ok

/-- `WhpReadData` of one element and `WhpBeginReadData` for one or more succeed. -/
def OffersElement (c : Core) (consumer : Handle) (i : Nat) : Prop :=
  (c.readData consumer (c.dataPipes i).elementSize).1.result = .ok ∧
  ∀ numBytes, (c.dataPipes i).elementSize ≤ numBytes →
    (c.beginReadData consumer numBytes).1.result = .ok

theorem writeData_ok_iff (hx : c.lookup x = some (.dataPipeProducer i))
    (hsize : 0 < (c.dataPipes i).elementSize) {elements : List UInt8}
    (hlen : elements.length = (c.dataPipes i).elementSize.toNat) :
    (c.writeData x elements).1.result = .ok ↔ (c.dataPipes i).consumerClosed = false ∧
      (c.dataPipes i).elementSize ≤ (c.dataPipes i).capacity - (c.dataPipes i).available := by
  have hwant : UInt32.ofNat elements.length = (c.dataPipes i).elementSize := by
    rw [hlen, UInt32.ofNat_toNat]
  have hself : (c.dataPipes i).elementSize % (c.dataPipes i).elementSize = 0 := by
    rw [← UInt32.toNat_inj, UInt32.toNat_mod, Nat.mod_self]
    rfl
  have hnone := whole_eq_zero_iff (x := min (c.dataPipes i).elementSize
    ((c.dataPipes i).capacity - (c.dataPipes i).available)) hsize
  simp only [writeData, hx]
  rw [hwant]
  cases hclosed : (c.dataPipes i).consumerClosed with
  | true => simp [refuse]
  | false =>
    rw [if_neg Bool.false_ne_true, if_neg (not_not.mpr hself)]
    split
    case isTrue hzero =>
      have hlt := hnone.mp hzero
      refine ⟨(by rintro ⟨⟩), fun h => ?_⟩
      exact absurd ((le_min_iff _ _ _).mpr ⟨UInt32.le_refl _, h.2⟩) (UInt32.not_le.mpr hlt)
    case isFalse hzero =>
      have hle := UInt32.not_lt.mp (mt hnone.mpr hzero)
      exact ⟨fun _ => ⟨rfl, ((le_min_iff _ _ _).mp hle).2⟩, fun _ => rfl⟩

theorem beginWriteData_ok_iff (hx : c.lookup x = some (.dataPipeProducer i))
    (hsize : 0 < (c.dataPipes i).elementSize) {numBytes : UInt32}
    (hnum : (c.dataPipes i).elementSize ≤ numBytes) :
    (c.beginWriteData x numBytes).1.result = .ok ↔ (c.dataPipes i).FreesElement := by
  have hnone := whole_eq_zero_iff (x := min (min ((c.dataPipes i).capacity -
    (c.dataPipes i).available) ((c.dataPipes i).capacity - (c.dataPipes i).w)) numBytes) hsize
  simp only [beginWriteData, hx, DataPipeState.FreesElement]
  split
  case isTrue hbusy => exact ⟨(by rintro ⟨⟩), fun h => absurd h.1 hbusy⟩
  case isFalse hfree =>
    have hfree := not_not.mp hfree
    split
    case isTrue hzero =>
      have hlt := hnone.mp hzero
      refine ⟨(by rintro ⟨⟩), fun h => absurd ?_ (UInt32.not_le.mpr hlt)⟩
      exact (le_min_iff _ _ _).mpr ⟨(le_min_iff _ _ _).mpr h.2, hnum⟩
    case isFalse hzero =>
      have hle := UInt32.not_lt.mp (mt hnone.mpr hzero)
      exact ⟨fun _ => ⟨hfree, (le_min_iff _ _ _).mp ((le_min_iff _ _ _).mp hle).1⟩, fun _ => rfl⟩

theorem readData_ok_iff (hx : c.lookup x = some (.dataPipeConsumer i))
    (hsize : 0 < (c.dataPipes i).elementSize) :
    (c.readData x (c.dataPipes i).elementSize).1.result = .ok ↔
      (c.dataPipes i).elementSize ≤ (c.dataPipes i).available := by
  have hself : (c.dataPipes i).elementSize % (c.dataPipes i).elementSize = 0 := by
    rw [← UInt32.toNat_inj, UInt32.toNat_mod, Nat.mod_self]
    rfl
  have hnone := whole_eq_zero_iff (x := min (c.dataPipes i).elementSize
    (c.dataPipes i).available) hsize
  simp only [readData, hx]
  rw [if_neg (not_not.mpr hself)]
  split
  case isTrue hzero =>
    have hlt := hnone.mp hzero
    refine ⟨fun h => ?_, fun h => ?_⟩
    · dsimp only at h
      split at h
      · cases h
      · cases h
    · exact absurd ((le_min_iff _ _ _).mpr ⟨UInt32.le_refl _, h⟩) (UInt32.not_le.mpr hlt)
  case isFalse hzero =>
    have hle := UInt32.not_lt.mp (mt hnone.mpr hzero)
    exact ⟨fun _ => ((le_min_iff _ _ _).mp hle).2, fun _ => rfl⟩

theorem beginReadData_ok_iff (hx : c.lookup x = some (.dataPipeConsumer i))
    (hsize : 0 < (c.dataPipes i).elementSize) {numBytes : UInt32}
    (hnum : (c.dataPipes i).elementSize ≤ numBytes) :
    (c.beginReadData x numBytes).1.result = .ok ↔ (c.dataPipes i).HoldsElement := by
  have hnone := whole_eq_zero_iff (x := min (min (c.dataPipes i).available
    ((c.dataPipes i).capacity - (c.dataPipes i).r)) numBytes) hsize
  simp only [beginReadData, hx, DataPipeState.HoldsElement]
  split
  case isTrue hbusy => exact ⟨(by rintro ⟨⟩), fun h => absurd h.1 hbusy⟩
  case isFalse hfree =>
    have hfree := not_not.mp hfree
    split
    case isTrue hzero =>
      have hlt := hnone.mp hzero
      refine ⟨fun h => ?_, fun h => absurd ?_ (UInt32.not_le.mpr hlt)⟩
      · dsimp only [refuse] at h
        split at h
        · cases h
        · cases h
      · exact (le_min_iff _ _ _).mpr ⟨(le_min_iff _ _ _).mpr h.2, hnum⟩
    case isFalse hzero =>
      have hle := UInt32.not_lt.mp (mt hnone.mpr hzero)
      exact ⟨fun _ => ⟨hfree, (le_min_iff _ _ _).mp ((le_min_iff _ _ _).mp hle).1⟩, fun _ => rfl⟩

theorem acceptsElement_iff (hx : c.lookup x = some (.dataPipeProducer i))
    (hsize : 0 < (c.dataPipes i).elementSize) :
    c.AcceptsElement x i ↔
      (c.dataPipes i).consumerClosed = false ∧ (c.dataPipes i).FreesElement := by
  constructor
  · rintro ⟨hwrite, hbegin⟩
    have hopen := (writeData_ok_iff hx hsize List.length_replicate).mp
      (hwrite (List.replicate _ 0) List.length_replicate)
    exact ⟨hopen.1, (beginWriteData_ok_iff hx hsize (UInt32.le_refl _)).mp
      (hbegin _ (UInt32.le_refl _))⟩
  · rintro ⟨hopen, hfree⟩
    exact ⟨fun elements hlen => (writeData_ok_iff hx hsize hlen).mpr ⟨hopen, hfree.2.1⟩,
      fun numBytes hnum => (beginWriteData_ok_iff hx hsize hnum).mpr hfree⟩

theorem offersElement_iff (hx : c.lookup x = some (.dataPipeConsumer i))
    (hsize : 0 < (c.dataPipes i).elementSize) :
    c.OffersElement x i ↔ (c.dataPipes i).HoldsElement := by
  constructor
  · rintro ⟨-, hbegin⟩
    exact (beginReadData_ok_iff hx hsize (UInt32.le_refl _)).mp (hbegin _ (UInt32.le_refl _))
  · intro hhold
    exact ⟨(readData_ok_iff hx hsize).mpr hhold.2.1,
      fun numBytes hnum => (beginReadData_ok_iff hx hsize hnum).mpr hhold⟩

/-! ### The signals -/

/-- The signal is satisfied. -/
def Satisfies (c : Core) (x : Handle) (signal : Signals) : Prop :=
  (c.query x).satisfied &&& signal = signal

instance (c : Core) (x : Handle) (signal : Signals) : Decidable (c.Satisfies x signal) :=
  inferInstanceAs (Decidable (_ = _))

theorem satisfies_writable_iff (hx : c.lookup x = some (.dataPipeProducer i)) :
    c.Satisfies x writable ↔ (c.dataPipes i).consumerClosed = false ∧
      (c.dataPipes i).available < (c.dataPipes i).capacity := by
  simp only [Satisfies, query, hx, producerSignals]
  split
  case isTrue hopen =>
    rw [and_iff_right hopen]
    split
    case isTrue hlt => exact ⟨fun _ => hlt, fun _ => by decide⟩
    case isFalse hge => exact ⟨fun h => absurd h (by decide), fun h => absurd h hge⟩
  case isFalse hclosed =>
    exact ⟨fun h => absurd h (by decide), fun h => absurd h.1 hclosed⟩

theorem satisfies_readable_iff (hx : c.lookup x = some (.dataPipeConsumer i)) :
    c.Satisfies x readable ↔ 0 < (c.dataPipes i).available := by
  simp only [Satisfies, query, hx, consumerSignals]
  by_cases hsome : 0 < (c.dataPipes i).available
  · rw [if_pos hsome]
    refine ⟨fun _ => hsome, fun _ => ?_⟩
    split
    · decide
    · decide
  · rw [if_neg hsome]
    refine ⟨fun h => absurd h ?_, fun h => absurd h hsome⟩
    split
    · decide
    · decide

/-- **The signal of a message pipe says what a read does.** -/
theorem readMessage_ok_iff {e : PipeEnd} (hx : c.lookup x = some (.messagePipe e)) :
    c.Satisfies x readable ↔ (c.readMessage x).1.result = .ok := by
  simp only [Satisfies, query, hx, pipeSignals, readMessage]
  cases hqueue : (c.pipes e.state).queues e.side with
  | nil =>
    rw [if_pos rfl]
    refine ⟨fun h => absurd h ?_, fun h => ?_⟩
    · split
      · decide
      · decide
    · dsimp only [refuse] at h
      split at h
      · cases h
      · cases h
  | cons msg rest =>
    rw [if_neg (List.cons_ne_nil _ _)]
    refine ⟨fun _ => rfl, fun _ => ?_⟩
    split
    · decide
    · decide

/-- **The signals against the calls, in every state of every run.**  `WRITABLE` of a producer says
whether an element is accepted in either way exactly if the consumer is closed or an element is
free in one piece, with no write going on, whenever a byte is; `READABLE` of a consumer whether
one is offered exactly if nothing is buffered or an element is, in one piece and with no read
going on; and `READABLE` of a message pipe whether a read succeeds. -/
theorem signals_agree_iff (h : Machine.Reaches ({} : Core) step (fun _ _ => True) c) (x : Handle) :
    (∀ i, c.lookup x = some (.dataPipeProducer i) →
      ((c.Satisfies x writable ↔ c.AcceptsElement x i) ↔
        (c.dataPipes i).consumerClosed = true ∨
          ((c.dataPipes i).available < (c.dataPipes i).capacity ↔ (c.dataPipes i).FreesElement))) ∧
    (∀ i, c.lookup x = some (.dataPipeConsumer i) →
      ((c.Satisfies x readable ↔ c.OffersElement x i) ↔
        (c.dataPipes i).available = 0 ∨ (c.dataPipes i).HoldsElement)) ∧
    ∀ e, c.lookup x = some (.messagePipe e) →
      (c.Satisfies x readable ↔ (c.readMessage x).1.result = .ok) := by
  refine ⟨fun i hx => ?_, fun i hx => ?_, fun e hx => readMessage_ok_iff hx⟩
  · rw [satisfies_writable_iff hx, acceptsElement_iff hx (elementSize_of_reaches h i)]
    cases (c.dataPipes i).consumerClosed with
    | true => exact ⟨fun _ => Or.inl rfl, fun _ => ⟨nofun, nofun⟩⟩
    | false =>
      rw [or_iff_right Bool.false_ne_true, and_iff_right rfl, and_iff_right rfl]
  · have hsize := elementSize_of_reaches h i
    rw [satisfies_readable_iff hx, offersElement_iff hx hsize]
    by_cases hzero : (c.dataPipes i).available = 0
    · refine ⟨fun _ => Or.inl hzero, fun _ => ⟨fun hpos => ?_, fun hhold => ?_⟩⟩
      · exact absurd hzero (UInt32.pos_iff_ne_zero.mp hpos)
      · exact absurd (hzero ▸ hhold.2.1) (UInt32.not_le.mpr hsize)
    · have hpos := UInt32.pos_iff_ne_zero.mpr hzero
      rw [or_iff_right hzero]
      exact ⟨fun hiff => hiff.mp hpos, fun hhold => ⟨fun _ => hhold, fun _ => hpos⟩⟩

/-- A new data pipe of four bytes with elements of two. -/
def evenPipe : List Op := [.createDataPipe 2 4]

theorem signals_agree_evenPipe :
    (evenPipe.foldl step {}).Satisfies 1 writable ↔ (evenPipe.foldl step {}).AcceptsElement 1 0 :=
  ((signals_agree_iff (Machine.Reaches.start.run evenPipe) 1).1 0 rfl).mpr
    (Or.inr ⟨fun _ => ⟨rfl, by decide, by decide⟩, fun _ => by decide⟩)

/-- Two bytes are written into a ring of three, and then one is free. -/
def oddPipe : List Op := [.createDataPipe 2 3, .data (.writeData 1 [1, 2])]

theorem not_signals_agree :
    (oddPipe.foldl step {}).Satisfies 1 writable ∧
      ((oddPipe.foldl step {}).writeData 1 [3, 4]).1.result = .shouldWait ∧
      ¬ (oddPipe.foldl step {}).AcceptsElement 1 0 := by
  refine ⟨by decide, by decide, fun h => ?_⟩
  have hok := h.1 [3, 4] rfl
  exact absurd hok (by decide)

end Core

end Voodoo.Whp
