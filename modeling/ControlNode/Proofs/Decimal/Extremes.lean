import ControlNode.Proofs.Decimal.Comparison

/-!
# Bounds of any kind

A bound may be an infinity or no number at all: every finite double is on one side of an infinity
and on neither side of what is no number (`lt_not_finite_iff`, `not_finite_lt_iff`). A double stands
for a whole number if it has no fraction (`isIntegral_iff_value`), and the whole numbers up to a
magnitude are those up to its whole part (`le_wholePart_iff`).
-/

namespace ControlNode.Binary64

open Float.Model Float.Model.UnpackedFloat

variable {x y z : Float}

/-! ### Infinities -/

theorem unpack_of_nan (h : parts x = .nan) : x.toModel.unpack = .notANumber := by
  rw [parts_eq] at h
  generalize x.toModel.unpack = u at h
  cases u with
  | notANumber => rfl
  | _ => cases h

theorem unpack_of_infinite {negative : Bool} (h : parts x = .infinite negative) :
    ∃ s : Sign, (s == .negative) = negative ∧ x.toModel.unpack = .infinity s := by
  rw [parts_eq] at h
  generalize x.toModel.unpack = u at h
  cases u with
  | infinity s => exact ⟨s, Parts.infinite.inj h, rfl⟩
  | _ => cases h

theorem not_finite_cases (h : isFinite y = false) :
    parts y = .nan ∨ ∃ negative, parts y = .infinite negative := by
  cases hy : parts y with
  | nan => exact .inl rfl
  | infinite negative => exact .inr ⟨negative, rfl⟩
  | finite negative m e =>
    rw [isFinite, hy] at h
    cases h

theorem not_lt_of_nan (h : parts y = .nan) (x : Float) : ¬x < y ∧ ¬y < x := by
  rw [lt_iff_compare, lt_iff_compare, unpack_of_nan h]
  cases x.toModel.unpack <;> exact ⟨nofun, nofun⟩

theorem lt_infinite_iff (hx : isFinite x = true) {negative : Bool}
    (hy : parts y = .infinite negative) : x < y ↔ negative = false := by
  obtain ⟨t, rfl, ht⟩ := unpack_of_infinite hy
  rw [lt_iff_compare, ht]
  rcases unpack_of_isFinite hx with ⟨s, hu, -⟩ | ⟨s, m, e, hc, hu, -⟩
  · rw [hu]
    cases t <;> simp [UnpackedFloat.compare]
  · rw [hu]
    cases s <;> cases t <;> simp [UnpackedFloat.compare]

theorem infinite_lt_iff (hx : isFinite x = true) {negative : Bool}
    (hy : parts y = .infinite negative) : y < x ↔ negative = true := by
  obtain ⟨t, rfl, ht⟩ := unpack_of_infinite hy
  rw [lt_iff_compare, ht]
  rcases unpack_of_isFinite hx with ⟨s, hu, -⟩ | ⟨s, m, e, hc, hu, -⟩
  · rw [hu]
    cases t <;> simp [UnpackedFloat.compare]
  · rw [hu]
    cases s <;> cases t <;> simp [UnpackedFloat.compare]

theorem isFinite_zero : isFinite 0 = true := by decide +kernel

theorem lt_not_finite_iff (hy : isFinite y = false) (hx : isFinite x = true)
    (hz : isFinite z = true) : x < y ↔ z < y := by
  rcases not_finite_cases hy with hnan | ⟨negative, hinf⟩
  · exact iff_of_false (not_lt_of_nan hnan x).1 (not_lt_of_nan hnan z).1
  · rw [lt_infinite_iff hx hinf, lt_infinite_iff hz hinf]

theorem not_finite_lt_iff (hy : isFinite y = false) (hx : isFinite x = true)
    (hz : isFinite z = true) : y < x ↔ y < z := by
  rcases not_finite_cases hy with hnan | ⟨negative, hinf⟩
  · exact iff_of_false (not_lt_of_nan hnan x).2 (not_lt_of_nan hnan z).2
  · rw [infinite_lt_iff hx hinf, infinite_lt_iff hz hinf]

theorem div_not_finite (hy : isFinite y = false) (x : Float) :
    x / y = 0 ∨ x / y = -0 ∨ x / y = 0 / 0 := by
  have hdiv : x / y =
      Float.ofModel (.pack (x.toModel.unpack.div .binary64 y.toModel.unpack)) := rfl
  have hzero (s : Sign) : Float.ofModel (.pack (.zero s)) = 0 ∨
      Float.ofModel (.pack (.zero s)) = -0 := by
    cases s with
    | positive => exact .inl (by decide +kernel)
    | negative => exact .inr (by decide +kernel)
  have hnan : Float.ofModel (.pack .notANumber) = 0 / 0 := by decide +kernel
  rcases not_finite_cases hy with hy | ⟨negative, hy⟩
  · rw [hdiv, unpack_of_nan hy]
    cases x.toModel.unpack <;> exact .inr (.inr hnan)
  · obtain ⟨t, -, ht⟩ := unpack_of_infinite hy
    rw [hdiv, ht, ← or_assoc]
    cases x.toModel.unpack with
    | notANumber => exact .inr hnan
    | infinity s => exact .inr hnan
    | zero s => exact .inl (hzero _)
    | finite s m e hm => exact .inl (hzero _)

theorem le_iff_compare (x y : Float) :
    x ≤ y ↔ (x.toModel.unpack.compare y.toModel.unpack).any Ordering.isLE = true := by
  change (decide (x.toModel.unpack.le y.toModel.unpack = true)) = true ↔ _
  rw [decide_eq_true_eq]
  rfl

theorem not_lt_of_le (h : x ≤ y) : ¬y < x := by
  rw [le_iff_compare] at h
  rw [lt_iff_compare, compare_swap x.toModel.unpack]
  intro hlt
  obtain ⟨o, ho, hswap⟩ := Option.map_eq_some_iff.mp hlt
  rw [ho] at h
  cases o <;> cases h <;> cases hswap

theorem value_le_iff (hx : isFinite x = true) (hy : isFinite y = true) :
    ¬y < x ↔ (parts x).value ≤ (parts y).value := by
  rw [lt_iff_value hy hx, not_lt]

/-- What is at least zero is a number that is, or the greater infinity. -/
theorem nonneg_cases (h : 0 ≤ x) :
    parts x = .infinite false ∨ isFinite x = true ∧ 0 ≤ (parts x).value := by
  have hparts : parts 0 = .finite false 0 (-1074) := by decide +kernel
  have hvalue : (parts 0).value = 0 := by
    rw [hparts, Parts.value]
    simp
  have hnot := not_lt_of_le h
  cases hx : parts x with
  | nan =>
    rw [le_iff_compare, unpack_of_nan hx] at h
    generalize (0 : Float).toModel.unpack = u at h
    cases u <;> cases h
  | infinite negative =>
    rw [infinite_lt_iff isFinite_zero hx, Bool.not_eq_true] at hnot
    exact .inl (hnot ▸ rfl)
  | finite negative m e =>
    have hfin : isFinite x = true := by rw [isFinite, hx]
    rw [value_le_iff isFinite_zero hfin, hvalue, hx] at hnot
    exact .inr ⟨hfin, hnot⟩

/-! ### Whole numbers -/

theorem le_wholePart_iff (n m : Nat) (e : Int) : n ≤ wholePart m e ↔ (n : ℚ) ≤ m * 2 ^ e := by
  cases e with
  | ofNat k =>
    rw [wholePart, pow2, Int.ofNat_eq_natCast, zpow_natCast]
    exact_mod_cast Iff.rfl
  | negSucc k =>
    have hpow : (0 : ℚ) < 2 ^ (k + 1) := by positivity
    rw [zpow_negSucc, ← div_eq_mul_inv, le_div_iff₀ hpow]
    change n ≤ m / 2 ^ (k + 1) ↔ _
    rw [Nat.le_div_iff_mul_le (by positivity)]
    exact_mod_cast Iff.rfl

/-- A finite double without a fraction is one that stands for an integer. -/
theorem isIntegral_iff_value (h : isFinite x = true) :
    isIntegral x = true ↔ ∃ k : Int, (parts x).value = k := by
  constructor
  · intro hwhole
    obtain ⟨k, -, hvalue⟩ := exists_value hwhole
    exact ⟨k, hvalue⟩
  · rintro ⟨k, hk⟩
    cases hparts : parts x with
    | finite negative m e =>
      rw [isIntegral, hparts]
      have hmagnitude : (m : ℚ) * 2 ^ e = k.natAbs := by
        have hpos : (0 : ℚ) ≤ m * 2 ^ e := by positivity
        rw [hparts, Parts.value] at hk
        rw [Nat.cast_natAbs, Int.cast_abs, ← hk]
        split
        · rw [abs_neg, abs_of_nonneg hpos]
        · rw [abs_of_nonneg hpos]
      exact isWhole_of_value hmagnitude
    | _ =>
      rw [isFinite, hparts] at h
      cases h

end ControlNode.Binary64
