import Mathlib.Data.String.Basic
import Voodoo.Bruja.Conversions

/-!
# The names of local variables

The conversion to a variable `v` names its own variables `v_…`, where three characters or more
follow the underscore; it is emitted next to a variable `v_js`.
-/

namespace Voodoo.Bruja

/-- A name that the conversion to `v` may give to a variable. -/
def Below (v y : String) : Prop := y = v ∨ ∃ w : String, y = v ++ "_" ++ w ∧ 3 ≤ w.length

variable {v w x y f : String}

theorem below_self : Below v v := .inl rfl

theorem below_child (hw : 3 ≤ w.length) : Below v (v ++ "_" ++ w) := .inr ⟨w, rfl, hw⟩

theorem below_suffix (hw : 3 ≤ w.length) : Below v (v ++ ("_" ++ w)) := by
  rw [← String.append_assoc]
  exact below_child hw

theorem Below.of_child (hw : 3 ≤ w.length) (h : Below (v ++ "_" ++ w) y) : Below v y := by
  rcases h with rfl | ⟨u, rfl, hu⟩
  · exact below_child hw
  · refine .inr ⟨w ++ "_" ++ u, ?_, ?_⟩
    · simp only [String.append_assoc]
    · rw [String.length_append, String.length_append]
      omega

theorem not_below_child (hw : 3 ≤ w.length) : ¬ Below (v ++ "_" ++ w) v := by
  rintro (h | ⟨u, h, -⟩)
  · have := congrArg String.length h
    rw [String.length_append, String.length_append] at this
    omega
  · have := congrArg String.length h
    rw [String.length_append, String.length_append, String.length_append, String.length_append] at this
    omega

theorem not_below_of_suffix (hw : 3 ≤ w.length) : ¬ Below (v ++ ("_" ++ w)) v := by
  rw [← String.append_assoc]
  exact not_below_child hw

theorem not_below_js : ¬ Below v (v ++ "_js") := by
  rintro (h | ⟨u, h, hu⟩)
  · have := congrArg String.length h
    rw [String.length_append] at this
    change v.length + 3 = v.length at this
    omega
  · have := congrArg String.length h
    rw [String.length_append, String.length_append, String.length_append] at this
    change v.length + 3 = v.length + 1 + u.length at this
    omega

theorem not_below_field_val : ¬ Below (v ++ "_" ++ f ++ "_val") (v ++ "_" ++ f ++ "_js") := by
  generalize v ++ "_" ++ f = z
  rintro (h | ⟨u, h, hu⟩)
  · have := congrArg String.length h
    rw [String.length_append, String.length_append] at this
    change z.length + 3 = z.length + 4 at this
    omega
  · have := congrArg String.length h
    rw [String.length_append, String.length_append, String.length_append, String.length_append] at this
    change z.length + 3 = z.length + 4 + 1 + u.length at this
    omega

theorem toString_injective {i j : Nat} (h : toString i = toString j) : i = j := by
  have hdigits : Nat.toDigits 10 i = Nat.toDigits 10 j := String.ofList_injective h
  rw [← Nat.ofDigitChars_ten_toDigits (n := i), hdigits, Nat.ofDigitChars_ten_toDigits]

theorem not_below_argVar {i j : Nat} (h : i ≠ j) : ¬ Below (argVar i) (argVar j) := by
  unfold argVar
  rintro (he | ⟨u, he, -⟩)
  · exact h (toString_injective ((String.append_right_inj _).mp he)).symm
  · rw [String.append_assoc, String.append_assoc] at he
    have he' := (String.append_right_inj _).mp he
    have hmem : '_' ∈ (toString j).toList := by
      rw [he']
      simp
    have hdigits : (toString j).toList = Nat.toDigits 10 j := String.toList_ofList
    rw [hdigits] at hmem
    exact Nat.underscore_not_in_toDigits hmem

theorem not_below_of_not_start (h : ¬ v.toList <+: x.toList) : ¬ Below v x := by
  rintro (rfl | ⟨w, rfl, -⟩)
  · exact h List.prefix_rfl
  · rw [String.toList_append, String.toList_append, List.append_assoc] at h
    exact h (List.prefix_append _ _)

end Voodoo.Bruja
