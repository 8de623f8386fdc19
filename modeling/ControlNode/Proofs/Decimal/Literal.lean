import ControlNode.Decimal.Literal
import Mathlib

/-!
# Characters of number literals

Whatever reads as a number consists of letters, digits, signs and points.
-/

namespace ControlNode.Decimal

def isLiteralChar (c : Char) : Bool := c.isAlphanum || c == '+' || c == '-' || c == '.'

/-- A text with no other characters than those of number literals. -/
def LiteralText (cs : List Char) : Prop := ∀ c ∈ cs, isLiteralChar c = true

/-! ### Joining -/

theorem literalText_nil : LiteralText [] := by
  intro c hc
  cases hc

theorem literalText_cons {c : Char} {cs : List Char} (hc : isLiteralChar c = true)
    (h : LiteralText cs) : LiteralText (c :: cs) := by
  intro d hd
  rcases List.mem_cons.mp hd with rfl | hd
  · exact hc
  · exact h d hd

theorem literalText_append {xs ys : List Char} (hx : LiteralText xs) (hy : LiteralText ys) :
    LiteralText (xs ++ ys) := by
  intro c hc
  rcases List.mem_append.mp hc with hc | hc
  · exact hx c hc
  · exact hy c hc

theorem isLiteralChar_of_isDigit {c : Char} (h : c.isDigit = true) : isLiteralChar c = true := by
  simp [isLiteralChar, Char.isAlphanum, h]

theorem literalText_of_digits {cs : List Char} (h : ∀ c ∈ cs, c.isDigit = true) :
    LiteralText cs := by
  intro c hc
  exact isLiteralChar_of_isDigit (h c hc)

theorem literalText_takeWhile_isDigit (cs : List Char) :
    LiteralText (cs.takeWhile Char.isDigit) :=
  literalText_of_digits fun _ hc => List.mem_takeWhile_imp hc

/-! ### Readers -/

theorem literalText_of_splitSign {cs : List Char} (h : LiteralText (splitSign cs).2) :
    LiteralText cs := by
  unfold splitSign at h
  split at h
  · exact literalText_cons (by decide) h
  · exact literalText_cons (by decide) h
  · exact h

theorem literalText_of_readDigits? {cs : List Char} {n : Nat} (h : readDigits? cs = some n) :
    LiteralText cs := by
  unfold readDigits? at h
  split at h
  · cases h
  · rename_i hcond
    simp only [Bool.or_eq_true, not_or, Bool.not_eq_true', Bool.not_eq_false] at hcond
    exact literalText_of_digits (List.all_eq_true.mp hcond.2)

theorem literalText_of_readInt64? {cs : List Char} {i : Int} (h : readInt64? cs = some i) :
    LiteralText cs := by
  apply literalText_of_splitSign
  cases hd : readDigits? (splitSign cs).2 with
  | none => simp [readInt64?, hd] at h
  | some n => exact literalText_of_readDigits? hd

theorem range_of_readInt64? {cs : List Char} {i : Int} (h : readInt64? cs = some i) :
    Binary64.minInt64 ≤ i ∧ i ≤ Binary64.maxInt64 := by
  simp only [readInt64?] at h
  split at h
  · cases h
  · rw [Option.ite_none_right_eq_some] at h
    obtain ⟨hrange, hi⟩ := h
    rw [Option.some.inj hi] at hrange
    simpa using hrange

theorem literalText_of_readExponent? {cs : List Char} {e : Int} (h : readExponent? cs = some e) :
    LiteralText cs := by
  cases cs with
  | nil => exact literalText_nil
  | cons c cs =>
    simp only [readExponent?] at h
    by_cases hc : (c == 'e' || c == 'E') = true
    · rw [if_pos hc] at h
      have hletter : isLiteralChar c = true := by
        simp only [Bool.or_eq_true, beq_iff_eq] at hc
        rcases hc with rfl | rfl
        · decide
        · decide
      cases hd : readDigits? (splitSign cs).2 with
      | none => simp [hd] at h
      | some n =>
        exact literalText_cons hletter (literalText_of_splitSign (literalText_of_readDigits? hd))
    · rw [if_neg hc] at h
      cases h

theorem literalText_of_readUnsigned? {cs : List Char} {r : Nat × Int}
    (h : readUnsigned? cs = some r) : LiteralText cs := by
  have hdigits := literalText_takeWhile_isDigit cs
  rw [← cs.takeWhile_append_dropWhile (p := Char.isDigit)]
  refine literalText_append hdigits ?_
  simp only [readUnsigned?] at h
  generalize cs.takeWhile Char.isDigit = whole at h
  generalize cs.dropWhile Char.isDigit = tail at h ⊢
  split at h
  · rename_i digits
    split at h
    · cases h
    · obtain ⟨e, he, _⟩ := Option.map_eq_some_iff.1 h
      have hfraction := literalText_takeWhile_isDigit digits
      rw [← digits.takeWhile_append_dropWhile (p := Char.isDigit)]
      exact literalText_cons (by decide)
        (literalText_append hfraction (literalText_of_readExponent? he))
  · split at h
    · cases h
    · obtain ⟨e, he, _⟩ := Option.map_eq_some_iff.1 h
      exact literalText_of_readExponent? he

theorem isAlpha_of_toLower {c : Char} (h : c.toLower.isAlpha = true) : c.isAlpha = true := by
  unfold Char.toLower at h
  split at h
  · rename_i hr
    simp only [Char.isAlpha, Char.isUpper, Bool.or_eq_true, decide_eq_true_eq, ge_iff_le]
    exact Or.inl hr
  · exact h

theorem literalText_of_isWord {word : String} {cs : List Char}
    (hword : word.toList.all Char.isAlpha = true) (h : isWord word cs = true) :
    LiteralText cs := by
  intro c hc
  have hmem : c.toLower ∈ word.toList := by
    rw [← beq_iff_eq.mp h]
    exact List.mem_map_of_mem hc
  have halpha := isAlpha_of_toLower (List.all_eq_true.mp hword _ hmem)
  simp [isLiteralChar, Char.isAlphanum, halpha]

theorem literalText_of_readDouble? {cs : List Char} {x : Float} (h : readDouble? cs = some x) :
    LiteralText cs := by
  apply literalText_of_splitSign
  unfold readDouble? at h
  simp only at h
  split at h
  · rename_i hinf
    rcases (Bool.or_eq_true _ _).mp hinf with hinf | hinf
    · exact literalText_of_isWord (by decide) hinf
    · exact literalText_of_isWord (by decide) hinf
  · split at h
    · rename_i hnan
      exact literalText_of_isWord (by decide) hnan
    · obtain ⟨r, hr, _⟩ := Option.map_eq_some_iff.1 h
      exact literalText_of_readUnsigned? hr

end ControlNode.Decimal
