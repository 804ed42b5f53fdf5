import Voodoo.Compiler.Runs
import Voodoo.Lib.Numbering

/-!
# Numbers written after an at sign

`@N` is looked for in the tokens the parser is at (`Parser.writtenOrdinal`), and a body
in braces is gone through turn by turn, with a note of what each turn starts at
(`bodyNotes`).  An invariant of the turns and of the notes holds at the end of the body
(`untilRBrace_notes`).

What the parser has after `@` is the number in 64 bits, of which it keeps 32.
-/

namespace Voodoo.Compiler

open Parse EState List

/-- The number after the `@` the parser is at. -/
def Parser.writtenOrdinal (s : Parser) : Option Nat :=
  if s.tok.type = .at then some (literalValue s.next.tok.text) else none

section

variable {α β : Type} {s t : Parser}

/-! ### Steps of the parser -/

theorem at_run (type : TokenType) : at' type s = .ok (s.tok.type = type) s := rfl

theorem advance_run : advance s = .ok () s.next := rfl

theorem get_bind (k : Parser → Parse α) : (get >>= k) s = k s s := rfl

theorem expect_run {type : TokenType} {what : String} {a : Token}
    (h : expect type what s = .ok a t) : s.tok.type = type ∧ a = s.tok ∧ t = s.next := by
  obtain ⟨hs, htype, ha⟩ := runs_of_triple (fun o => expect_spec type what) h
  exact ⟨htype, ha, hs⟩

theorem liftResult_run {x : Except Failure α} {a : α} (h : liftResult x s = .ok a t) :
    x = .ok a ∧ t = s := by
  cases x with
  | ok b =>
    obtain ⟨rfl, rfl⟩ := EStateM.Result.ok.inj h
    exact ⟨rfl, rfl⟩
  | error e => cases h

theorem not_and_run_of_unless_cur {c : Prop} [Decidable c] {msg : String}
    {k : Unit → Parse α} {a : α}
    (h : (if c then do
        let token ← cur
        let r ← parseError msg token.line
        k r
      else k ()) s = .ok a t) : ¬c ∧ k () s = .ok a t := by
  by_cases hc : c
  · rw [if_pos hc] at h
    cases h
  · rw [if_neg hc] at h
    exact ⟨hc, h⟩

theorem not_and_run_of_unless {c : Prop} [Decidable c] {msg : String} {line : Nat}
    {k : Unit → Parse α} {a : α}
    (h : (if c then do
        let r ← parseError msg line
        k r
      else k ()) s = .ok a t) : ¬c ∧ k () s = .ok a t := by
  by_cases hc : c
  · rw [if_pos hc] at h
    cases h
  · rw [if_neg hc] at h
    exact ⟨hc, h⟩

theorem stoul_eq_ok {text : String} {n : Nat} (h : stoul text = .ok n) : n = literalValue text := by
  unfold stoul upTo at h
  split at h
  · exact (Except.ok.inj h).symm
  · cases h

theorem parseOptionalOrdinal_run {what : String} {n : Option UInt32}
    (h : parseOptionalOrdinal what s = .ok n t) : n = s.writtenOrdinal.map UInt32.ofNat := by
  obtain ⟨here, s₁, hat, h⟩ := bind_eq_ok.mp h
  obtain ⟨rfl, rfl⟩ := EStateM.Result.ok.inj ((at_run .at).symm.trans hat)
  unfold Parser.writtenOrdinal
  by_cases hcase : s.tok.type = .at
  · rw [if_pos (by simpa using hcase)] at h
    rw [if_pos hcase]
    obtain ⟨_, s₂, hadv, h⟩ := bind_eq_ok.mp h
    obtain ⟨-, rfl⟩ := EStateM.Result.ok.inj (advance_run.symm.trans hadv)
    obtain ⟨k, s₃, hk, h⟩ := bind_eq_ok.mp h
    obtain ⟨rfl, -⟩ := EStateM.Result.ok.inj h
    obtain ⟨num, s₄, hnum, hk⟩ := bind_eq_ok.mp hk
    obtain ⟨-, rfl, rfl⟩ := expect_run hnum
    obtain ⟨v, s₅, hv, hk⟩ := bind_eq_ok.mp hk
    obtain ⟨hnumber, rfl⟩ := liftResult_run hv
    obtain ⟨rfl, -⟩ := EStateM.Result.ok.inj hk
    rw [stoul_eq_ok hnumber]
    rfl
  · rw [if_neg (by simpa using hcase)] at h
    rw [if_neg hcase]
    obtain ⟨rfl, -⟩ := EStateM.Result.ok.inj h
    rfl

/-! ### Turns of a body -/

/-- What the turns of a body start at, each seen by `note`. -/
def notes (note : Parser → β) (body : α → Parse α) : Nat → α → Parser → List β
  | 0, _, _ => []
  | turns + 1, a, s =>
    if s.tok.type = .rBrace then []
    else match body a s with
      | .ok b t => note s :: notes note body turns b t
      | .error _ _ => []

def bodyNotes (note : Parser → β) (body : α → Parse α) (a : α) (s : Parser) : List β :=
  notes note body (s.rest.length + 1) a s

theorem loop_notes {note : Parser → β} {body : α → Parse α} {I : α → List β → Prop}
    (hbody : ∀ a s b t seen, body a s = .ok b t → I a seen → I b (seen ++ [note s]))
    {turns : Nat} {a b : α} {seen : List β}
    (h : loop (do return !(← at' .rBrace)) body turns a s = .ok b t) (ha : I a seen) :
    I b (seen ++ notes note body turns a s) := by
  induction turns generalizing a s seen with
  | zero => cases h
  | succ turns ih =>
    obtain ⟨go, s₁, hgo, h⟩ := bind_eq_ok.mp h
    have htest : (do return !(← at' .rBrace) : Parse Bool) s =
        .ok (!decide (s.tok.type = .rBrace)) s := rfl
    obtain ⟨rfl, rfl⟩ := EStateM.Result.ok.inj (htest.symm.trans hgo)
    rw [notes]
    by_cases hend : s.tok.type = .rBrace
    · rw [if_pos hend, append_nil]
      rw [if_neg (by simpa using hend)] at h
      obtain ⟨rfl, rfl⟩ := EStateM.Result.ok.inj h
      exact ha
    · rw [if_neg hend]
      rw [if_pos (by simpa using hend)] at h
      obtain ⟨c, s₂, hc, h⟩ := bind_eq_ok.mp h
      rw [hc]
      have hstep := ih h (hbody a s c s₂ seen hc ha)
      rwa [List.append_assoc] at hstep

theorem untilRBrace_notes {note : Parser → β} {body : α → Parse α} {I : α → List β → Prop}
    (hbody : ∀ a s b t seen, body a s = .ok b t → I a seen → I b (seen ++ [note s])) {a b : α}
    (h : untilRBrace body a s = .ok b t) (ha : I a []) : I b (bodyNotes note body a s) := by
  obtain ⟨_, _, hget, h⟩ := bind_eq_ok.mp h
  obtain ⟨rfl, rfl⟩ := EStateM.Result.ok.inj hget
  exact loop_notes hbody h ha

end

/-! ### One pass -/

/-- Who has no number takes the count of those before it that have none. -/
def counted : Nat → List (Option Nat) → List Nat
  | _, [] => []
  | next, some n :: asked => n :: counted next asked
  | next, none :: asked => next :: counted (next + 1) asked

theorem counted_append (next : Nat) (asked : List (Option Nat)) (w : Option Nat) :
    counted next (asked ++ [w]) =
      counted next asked ++ [w.getD (next + asked.countP (·.isNone))] := by
  induction asked generalizing next with
  | nil => cases w <;> rfl
  | cons v asked ih =>
    cases v with
    | some n =>
      rw [cons_append, counted, ih, countP_cons_of_neg (by simp)]
      rfl
    | none =>
      rw [cons_append, counted, ih, countP_cons_of_pos rfl, counted, cons_append,
        Nat.add_right_comm, Nat.add_assoc]

theorem counted_of_all_some {next : Nat} {asked : List (Option Nat)}
    (h : ∀ w ∈ asked, w.isSome) : asked = (counted next asked).map some := by
  induction asked with
  | nil => rfl
  | cons w asked ih =>
    cases w with
    | none => exact absurd (h none mem_cons_self) Bool.false_ne_true
    | some n =>
      rw [counted, map_cons, ← ih (fun w hw => h w (mem_cons_of_mem _ hw))]

theorem counted_of_all_none {next : Nat} {asked : List (Option Nat)} (h : ∀ w ∈ asked, w = none) :
    counted next asked = List.range' next asked.length := by
  induction asked generalizing next with
  | nil => rfl
  | cons w asked ih =>
    obtain rfl : w = none := h w mem_cons_self
    rw [counted, length_cons, range'_succ,
      ih (fun w hw => h w (mem_cons_of_mem _ hw))]

theorem counted_lt {next : Nat} {written : List (Option Nat)} {bound : Nat}
    (hasked : ∀ n, some n ∈ written → n < bound) (hlen : next + written.length ≤ bound) :
    ∀ n ∈ counted next written, n < bound := by
  induction written generalizing next with
  | nil =>
    intro n hn
    cases hn
  | cons w written ih =>
    have hasked' : ∀ n, some n ∈ written → n < bound :=
      fun n hn => hasked n (mem_cons_of_mem _ hn)
    rw [length_cons] at hlen
    intro n hn
    cases w with
    | some m =>
      rcases mem_cons.mp hn with rfl | hn
      · exact hasked n mem_cons_self
      · exact ih hasked' (by omega) n hn
    | none =>
      rcases mem_cons.mp hn with rfl | hn
      · omega
      · exact ih hasked' (by omega) n hn

theorem of_not_mixed {written : List (Option Nat)}
    (h : ¬(written.any (·.isSome) && written.any (!·.isSome)) = true) :
    (∀ w ∈ written, w.isSome) ∨ ∀ w ∈ written, w = none := by
  by_cases hall : ∀ w ∈ written, w.isSome
  · exact .inl hall
  · refine .inr (fun w hw => ?_)
    push Not at hall
    obtain ⟨v, hv, hnone⟩ := hall
    cases w with
    | none => rfl
    | some n =>
      refine absurd (Bool.and_eq_true_iff.mpr ⟨?_, ?_⟩) h
      · exact List.any_eq_true.mpr ⟨some n, hw, rfl⟩
      · exact List.any_eq_true.mpr ⟨v, hv, by simpa using hnone⟩

theorem numbered_counted {written : List (Option Nat)}
    (h : (∀ w ∈ written, w.isSome) ∨ ∀ w ∈ written, w = none) :
    Numbered written (counted 0 written) := by
  rcases h with hall | hall
  · have hnumbered : NumberedFrom (written.filterMap id) _ _ :=
      NumberedFrom.of_all_some (counted 0 written)
    rwa [← counted_of_all_some hall] at hnumbered
  · rw [counted_of_all_none hall]
    refine NumberedFrom.of_all_none hall (fun k => ?_)
    refine iff_of_false (fun hk => ?_) (Nat.not_lt_zero k)
    obtain ⟨w, hw, he⟩ := mem_filterMap.mp hk
    rw [hall w hw] at he
    cases he

section

variable {γ : Type} {items : List γ} {flag : γ → Bool} {number : γ → UInt32}
variable {written : List (Option Nat)}

theorem any_flag (p : Bool → Bool) (h : items.map flag = written.map (·.isSome)) :
    items.any (fun a => p (flag a)) = written.any (fun w => p w.isSome) := by
  have hany := congrArg (List.any · p) h
  rwa [List.any_map, List.any_map] at hany

theorem numbered_of_one_pass (hflag : items.map flag = written.map (·.isSome))
    (hnumber : items.map number = (counted 0 written).map UInt32.ofNat)
    (hmixed : ¬(items.any flag && items.any (!flag ·)) = true)
    (hlt : ∀ n, some n ∈ written → n < 2 ^ 32) (hfew : written.length ≤ 2 ^ 32) :
    Numbered written (items.map (fun a => (number a).toNat)) := by
  have hnumbers : items.map (fun a => (number a).toNat) = counted 0 written := by
    have hbound : ∀ n ∈ counted 0 written, n < 2 ^ 32 := counted_lt hlt (by omega)
    have hmap : items.map (fun a => (number a).toNat) = (items.map number).map UInt32.toNat := by
      rw [List.map_map]
      rfl
    rw [hmap, hnumber, List.map_map]
    refine (map_congr_left (fun n hn => ?_)).trans (List.map_id _)
    exact UInt32.toNat_ofNat_of_lt' (hbound n hn)
  rw [hnumbers]
  refine numbered_counted (of_not_mixed ?_)
  rw [← any_flag (·) hflag, ← any_flag (!·) hflag]
  exact hmixed

theorem nodup_map_toNat :
    (items.map (fun a => (number a).toNat)).Nodup ↔ (items.map number).Nodup := by
  have hmap : items.map (fun a => (number a).toNat) = (items.map number).map UInt32.toNat := by
    rw [List.map_map]
    rfl
  rw [hmap]
  exact nodup_map_iff (fun a b hab => UInt32.toNat_inj.mp hab)

theorem findIdx?_of_nodup {δ : Type} [BEq δ] [LawfulBEq δ] {key : γ → δ}
    (h : (items.map key).Nodup) {k : Nat} {a : γ} (ha : items[k]? = some a) :
    items.findIdx? (fun b => key b == key a) = some k := by
  obtain ⟨hk, rfl⟩ := List.getElem?_eq_some_iff.mp ha
  refine findIdx?_eq_some_iff_getElem.mpr ⟨hk, beq_self_eq_true _, fun j hj he => ?_⟩
  have hj' : j < (items.map key).length := by
    rw [length_map]
    exact Nat.lt_trans hj hk
  have hne := pairwise_iff_getElem.mp h j k hj' (by rwa [length_map]) hj
  rw [getElem_map, getElem_map] at hne
  exact hne (eq_of_beq he)

end

end Voodoo.Compiler
