import ControlNode.Expr.Parser
import ControlNode.Proofs.Decimal.Literal

/-!
# Names

The characters of port ids and function names are none of those that give an expression its
structure, and a name belongs to at most one function.
-/

namespace ControlNode.Expr

open Text

/-! ### Characters -/

/-- A character that is no blank and gives an expression no structure. -/
structure Plain (c : Char) : Prop where
  solid : isBlank c = false
  ne_open : c ≠ '('
  ne_close : c ≠ ')'
  ne_comma : c ≠ ','
  ne_dollar : c ≠ '$'

theorem isIdChar_bounds {c : Char} (h : isIdChar c = true) :
    (65 ≤ c.toNat ∧ c.toNat ≤ 90) ∨ (97 ≤ c.toNat ∧ c.toNat ≤ 122) ∨
      (48 ≤ c.toNat ∧ c.toNat ≤ 57) ∨ c.toNat = 95 ∨ c.toNat = 45 ∨ c.toNat = 46 := by
  simp only [isIdChar, Char.isAlphanum, Char.isAlpha, Char.isUpper, Char.isLower, Char.isDigit,
    Bool.or_eq_true, Bool.and_eq_true, decide_eq_true_eq, beq_iff_eq, ge_iff_le,
    UInt32.le_iff_toNat_le] at h
  rcases h with ((((h | h) | h) | rfl) | rfl) | rfl
  · exact Or.inl h
  · exact Or.inr (Or.inl h)
  · exact Or.inr (Or.inr (Or.inl h))
  · decide
  · decide
  · decide

theorem plain_of_isIdChar {c : Char} (h : isIdChar c = true) : Plain c := by
  have hb := isIdChar_bounds h
  have hopen : '('.toNat = 40 := rfl
  have hclose : ')'.toNat = 41 := rfl
  have hcomma : ','.toNat = 44 := rfl
  have hdollar : '$'.toNat = 36 := rfl
  refine ⟨?_, ne_of_apply_ne Char.toNat ?_, ne_of_apply_ne Char.toNat ?_,
    ne_of_apply_ne Char.toNat ?_, ne_of_apply_ne Char.toNat ?_⟩
  · simp only [isBlank, Bool.or_eq_false_iff, Bool.and_eq_false_iff, decide_eq_false_iff_not,
      beq_eq_false_iff_ne]
    omega
  all_goals omega

theorem plain_of_isLiteralChar {c : Char} (h : Decimal.isLiteralChar c = true) : Plain c := by
  simp only [Decimal.isLiteralChar, Bool.or_eq_true, beq_iff_eq] at h
  by_cases hplus : c = '+'
  · subst hplus
    exact ⟨by decide, by decide, by decide, by decide, by decide⟩
  · apply plain_of_isIdChar
    simp only [isIdChar, Bool.or_eq_true, beq_iff_eq]
    rcases h with ((h | h) | h) | h
    · exact Or.inl (Or.inl (Or.inl h))
    · exact absurd h hplus
    · exact Or.inl (Or.inr h)
    · exact Or.inr h

theorem isIdChar_of_isNameChar {c : Char} (h : isNameChar c = true) : isIdChar c = true := by
  simp only [isNameChar, isIdChar, Bool.or_eq_true] at h ⊢
  exact Or.inl (Or.inl h)

theorem isNameChar_of_toUpper {c : Char} (h : c.toUpper.isUpper = true) :
    isNameChar c = true := by
  simp only [isNameChar, Char.isAlphanum, Char.isAlpha, Bool.or_eq_true]
  by_cases hl : c.isLower = true
  · exact Or.inl (Or.inl (Or.inr hl))
  · have hkeep : c.toUpper = c := by
      unfold Char.toUpper
      rw [dif_neg]
      intro hr
      simp only [Char.isLower, Bool.and_eq_true, decide_eq_true_eq, ge_iff_le] at hl
      exact hl hr
    rw [hkeep] at h
    exact Or.inl (Or.inl (Or.inl h))

end ControlNode.Expr

namespace ControlNode.Func

/-! ### Function names -/

theorem all_isUpper_name (f : Func) : f.name.toList.all Char.isUpper = true := by
  cases f <;> decide

theorem name_ne_nil (f : Func) : f.name.toList ≠ [] := by
  cases f <;> decide

theorem map_toUpper_name (f : Func) : f.name.toList.map Char.toUpper = f.name.toList := by
  cases f <;> decide

theorem find?_name (f : Func) : find? f.name.toList = some f := by
  cases f <;> decide

theorem find?_eq_some_iff (name : List Char) (f : Func) :
    find? name = some f ↔ name.map Char.toUpper = f.name.toList := by
  constructor
  · intro h
    have hp := List.find?_some h
    exact (beq_iff_eq.mp hp).symm
  · intro h
    have hf := find?_name f
    unfold find? at hf ⊢
    rw [map_toUpper_name] at hf
    rw [h, hf]

theorem isNameChar_of_name {name : List Char} {f : Func}
    (h : name.map Char.toUpper = f.name.toList) : ∀ c ∈ name, Expr.isNameChar c = true := by
  intro c hc
  have hmem : c.toUpper ∈ f.name.toList := by
    rw [← h]
    exact List.mem_map_of_mem hc
  exact Expr.isNameChar_of_toUpper (List.all_eq_true.mp (all_isUpper_name f) _ hmem)

theorem ne_nil_of_name {name : List Char} {f : Func}
    (h : name.map Char.toUpper = f.name.toList) : name ≠ [] := by
  rintro rfl
  exact name_ne_nil f h.symm

end ControlNode.Func
