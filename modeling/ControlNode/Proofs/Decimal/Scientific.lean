import ControlNode.Decimal.Literal
import ControlNode.Proofs.Decimal.Doubles
import Mathlib

/-!
# Decimal numbers as doubles

A decimal number is read as the double in whose interval it lies (`ofScientific_of_inInterval`).
-/

namespace ControlNode.Binary64

open Float.Model Float.Model.UnpackedFloat

/-! ### Products and quotients -/

theorem le_unitOf {n : Nat} {x : Int} (h : 2 ^ 52 ≤ n) : x ≤ unitOf n x := by
  have hlog := (Nat.le_log2 (by omega)).mpr h
  unfold unitOf
  omega

theorem mul_of_inInterval {m₁ m₂ m : Nat} {e₁ e₂ e : Int} (h₁ : 0 < m₁) (h₂ : 0 < m₂)
    (hfull : 2 ^ 52 ≤ m₁ * m₂) (hc : Canonical m e)
    (hr : InInterval ((m₁ * 2 ^ e₁) * (m₂ * 2 ^ e₂)) m e) (s₁ s₂ : Sign) :
    UnpackedFloat.mul .binary64 (.finite s₁ m₁ e₁ h₁) (.finite s₂ m₂ e₂ h₂) =
      .finite (s₁ * s₂) m e hc.pos := by
  have hvalue : ((m₁ * m₂ : ℕ) : ℚ) * 2 ^ (e₁ + e₂) = (m₁ * 2 ^ e₁) * (m₂ * 2 ^ e₂) := by
    rw [zpow_add₀ (by norm_num)]
    push_cast
    ring
  rw [← hvalue] at hr
  exact roundWithAccuracy_eq (standsFor_exact _) (le_unitOf hfull) hc hr _

theorem standsFor_div (n d : Nat) (hd : 0 < d) :
    StandsFor (.ofMantissaAndAccuracy (n / d) (accuracyOfFraction (n % d) d)) (n / d : ℚ) := by
  have hpos : (0 : ℚ) < d := by exact_mod_cast hd
  have hlt : ((n % d : ℕ) : ℚ) < d := by exact_mod_cast Nat.mod_lt n hd
  have hfraction : (n / d : ℚ) - (n / d : ℕ) = (n % d : ℕ) / d := by
    have hsplit : (n : ℚ) = d * (n / d : ℕ) + (n % d : ℕ) := by
      exact_mod_cast (Nat.div_add_mod n d).symm
    rw [eq_div_iff hpos.ne', sub_mul, div_mul_cancel₀ _ hpos.ne']
    linarith
  unfold accuracyOfFraction
  split
  · rename_i hzero
    change (n / d : ℚ) - (n / d : ℕ) = 0
    rw [hfraction, hzero, Nat.cast_zero, zero_div]
  · rename_i hne
    have hrest : (0 : ℚ) < (n % d : ℕ) := by exact_mod_cast Nat.pos_of_ne_zero hne
    cases hcompare : compare (2 * (n % d)) d with
    | lt =>
      have hless : (2 * (n % d : ℕ) : ℚ) < d := by
        exact_mod_cast Nat.compare_eq_lt.mp hcompare
      change 0 < (n / d : ℚ) - (n / d : ℕ) ∧ (n / d : ℚ) - (n / d : ℕ) < 1 / 2
      rw [hfraction, div_lt_iff₀ hpos]
      exact ⟨div_pos hrest hpos, by linarith⟩
    | eq =>
      have hhalf : (2 * (n % d : ℕ) : ℚ) = d := by
        exact_mod_cast Nat.compare_eq_eq.mp hcompare
      change (n / d : ℚ) - (n / d : ℕ) = 1 / 2
      rw [hfraction, div_eq_iff hpos.ne']
      linarith
    | gt =>
      have hmore : (d : ℚ) < 2 * (n % d : ℕ) := by
        exact_mod_cast Nat.compare_eq_gt.mp hcompare
      change 1 / 2 < (n / d : ℚ) - (n / d : ℕ) ∧ (n / d : ℚ) - (n / d : ℕ) < 1
      rw [hfraction, lt_div_iff₀ hpos, div_lt_one hpos]
      exact ⟨by linarith, hlt⟩

theorem div_of_inInterval {m₁ m₂ m : Nat} {e₁ e₂ e : Int} (h₁ : 0 < m₁) (h₂ : 0 < m₂)
    (hc : Canonical m e) (hr : InInterval ((m₁ * 2 ^ e₁) / (m₂ * 2 ^ e₂)) m e) (s₁ s₂ : Sign) :
    UnpackedFloat.div .binary64 (.finite s₁ m₁ e₁ h₁) (.finite s₂ m₂ e₂ h₂) =
      .finite (s₁ / s₂) m e hc.pos := by
  have htarget : Format.binary64.targetExponent (totalExponent m₁ e₁ - totalExponent m₂ e₂) =
      max ((m₁.log2 : Int) + e₁ - (m₂.log2 + e₂) - 53) (-1074) := by
    have hbits : (Format.binary64.mantissaBits : Int) = 53 := by decide
    have hmin : Format.binary64.minExponent = -1074 := by decide
    unfold Format.targetExponent totalExponent
    rw [hbits, hmin]
    congr 1
    omega
  simp only [UnpackedFloat.div, divCore, htarget]
  -- the dividend is written in units that are small enough for a full quotient
  generalize hx : min (e₁ - e₂) (max ((m₁.log2 : Int) + e₁ - (m₂.log2 + e₂) - 53) (-1074)) = x
  generalize hk : (e₁ - e₂ - x).toNat = k
  have hscaled : e₁ = e₂ + x + k := by omega
  have hvalue : ((m₁ <<< k : ℕ) / m₂ : ℚ) * 2 ^ x = (m₁ * 2 ^ e₁) / (m₂ * 2 ^ e₂) := by
    have hdivisor : (m₂ : ℚ) ≠ 0 := by exact_mod_cast h₂.ne'
    rw [Nat.shiftLeft_eq, hscaled, zpow_add₀ (by norm_num), zpow_add₀ (by norm_num), zpow_natCast]
    push_cast
    field_simp
  have hunit : x ≤ unitOf (m₁ <<< k / m₂) x := by
    rcases Int.lt_or_le (-1074) x with hlarge | hsmall
    · apply le_unitOf
      have hbits : 53 + m₂.log2 ≤ m₁.log2 + k := by omega
      have hdividend : 2 ^ (53 + m₂.log2) ≤ m₁ <<< k := by
        calc 2 ^ (53 + m₂.log2) ≤ 2 ^ (m₁.log2 + k) := Nat.pow_le_pow_right (by decide) hbits
          _ = 2 ^ m₁.log2 * 2 ^ k := by rw [pow_add]
          _ ≤ m₁ <<< k := by
            rw [Nat.shiftLeft_eq]
            exact Nat.mul_le_mul_right _ (Nat.log2_self_le h₁.ne')
      have hdivisor : m₂ < 2 ^ (m₂.log2 + 1) := Nat.lt_log2_self
      rw [Nat.le_div_iff_mul_le h₂]
      calc 2 ^ 52 * m₂ ≤ 2 ^ 52 * 2 ^ (m₂.log2 + 1) := Nat.mul_le_mul_left _ hdivisor.le
        _ = 2 ^ (53 + m₂.log2) := by rw [← pow_add]; congr 1; omega
        _ ≤ m₁ <<< k := hdividend
    · exact hsmall.trans (le_max_right _ _)
  rw [← hvalue] at hr
  exact roundWithAccuracy_eq (standsFor_div _ _ h₂) hunit hc hr _

/-! ### Whole numbers -/

/-- The canonical pair of a positive number below `2^53`. -/
theorem canonical_of_lt {n : Nat} (hpos : 0 < n) (hlt : n < 2 ^ 53) :
    Canonical (n * 2 ^ (52 - n.log2)) ((n.log2 : Int) - 52) ∧
      ((n * 2 ^ (52 - n.log2) : ℕ) : ℚ) * 2 ^ ((n.log2 : Int) - 52) = n := by
  have hlog : n.log2 < 53 := (Nat.log2_lt hpos.ne').mpr hlt
  have hsplit : n.log2 + (52 - n.log2) = 52 := by omega
  have hlow : 2 ^ 52 ≤ n * 2 ^ (52 - n.log2) := by
    calc 2 ^ 52 = 2 ^ n.log2 * 2 ^ (52 - n.log2) := by rw [← pow_add, hsplit]
      _ ≤ n * 2 ^ (52 - n.log2) := Nat.mul_le_mul_right _ (Nat.log2_self_le hpos.ne')
  have hhigh : n * 2 ^ (52 - n.log2) < 2 ^ 53 := by
    calc n * 2 ^ (52 - n.log2) < 2 ^ (n.log2 + 1) * 2 ^ (52 - n.log2) :=
          Nat.mul_lt_mul_of_pos_right Nat.lt_log2_self (by positivity)
      _ = 2 ^ 53 := by rw [← pow_add]; congr 1; omega
  refine ⟨⟨by omega, hhigh, by omega, .inl hlow⟩, ?_⟩
  have hexp : ((n.log2 : Int) - 52) = -((52 - n.log2 : ℕ) : Int) := by omega
  rw [hexp, zpow_neg, zpow_natCast]
  push_cast
  field_simp

/-- A number below `2^53` is converted without loss. -/
theorem unpack_toFloat {n : Nat} (hpos : 0 < n) (hlt : n < 2 ^ 53) :
    n.toUInt64.toFloat.toModel.unpack =
      .finite .positive (n * 2 ^ (52 - n.log2)) ((n.log2 : Int) - 52)
        (canonical_of_lt hpos hlt).1.pos := by
  obtain ⟨hc, hvalue⟩ := canonical_of_lt hpos hlt
  have hlog : n.log2 < 53 := (Nat.log2_lt hpos.ne').mpr hlt
  have hword : n.toUInt64.toNat = n := by
    rw [Nat.toUInt64, UInt64.toNat_ofNat']
    exact Nat.mod_eq_of_lt (by omega)
  have hunit : unitOf n 0 = (n.log2 : Int) - 52 := by
    unfold unitOf
    omega
  have hround : UnpackedFloat.ofNat .binary64 n =
      .finite .positive (n * 2 ^ (52 - n.log2)) ((n.log2 : Int) - 52) hc.pos := by
    have hcompare : compare (n : Int) 0 = .gt := Int.compare_eq_gt.mpr (by omega)
    simp only [UnpackedFloat.ofNat, UnpackedFloat.ofInt, UnpackedFloat.normalize, hcompare,
      UnpackedFloat.round,
      Int.toNat_natCast, targetExponent_eq, hunit, decreaseExponent]
    have hshift : (0 - ((n.log2 : Int) - 52)).toNat = 52 - n.log2 := by omega
    have hexp : (0 : Int) - ((52 - n.log2 : ℕ) : Int) = (n.log2 : Int) - 52 := by omega
    rw [hshift, hexp, Nat.shiftLeft_eq]
    refine roundWithAccuracy_eq (standsFor_exact _) (le_unitOf ?_) hc (inInterval_self _ _) _
    rcases hc.full with hfull | hmin
    · exact hfull
    · omega
  change UnpackedFloat.unpack .binary64 (UnpackedFloat.pack .binary64
    (UnpackedFloat.ofNat .binary64 n.toUInt64.toNat)) = _
  rw [hword, hround]
  exact unpack_pack hc (by omega) .positive

/-! ### Powers of ten -/

/-- Whether the parts of a double are those of `10^k`, with a full mantissa. -/
def arePowerOfTen (k : Nat) : Parts → Bool
  | .finite false m e => 2 ^ 52 ≤ m && -52 ≤ e && m * 2 ^ (e + 52).toNat == 10 ^ k * 2 ^ 52
  | _ => false

theorem powersOfTen_checked :
    ∀ k : Fin Float.exactlyRepresentablePowersOfTen.size,
      arePowerOfTen k (parts Float.exactlyRepresentablePowersOfTen[k]) = true := by
  decide +kernel

theorem unpack_powerOfTen {k : Nat} (hk : k < Float.exactlyRepresentablePowersOfTen.size) :
    ∃ m e, ∃ hm : 0 < m,
      Float.exactlyRepresentablePowersOfTen[k].toModel.unpack = .finite .positive m e hm ∧
        (m : ℚ) * 2 ^ e = 10 ^ k ∧ 2 ^ 52 ≤ m := by
  have hchecked := powersOfTen_checked ⟨k, hk⟩
  change arePowerOfTen k (parts Float.exactlyRepresentablePowersOfTen[k]) = true at hchecked
  unfold arePowerOfTen at hchecked
  split at hchecked
  · rename_i m e hparts
    simp only [Bool.and_eq_true, decide_eq_true_eq, beq_iff_eq] at hchecked
    obtain ⟨⟨hfull, hlow⟩, hvalue⟩ := hchecked
    have hpos : 0 < m := by omega
    refine ⟨m, e, hpos, unpack_of_parts hpos hparts, ?_, hfull⟩
    obtain ⟨j, hj⟩ : ∃ j : Nat, e + 52 = j := ⟨(e + 52).toNat, by omega⟩
    rw [hj, Int.toNat_natCast] at hvalue
    have hcast : (m : ℚ) * 2 ^ j = 10 ^ k * 2 ^ 52 := by exact_mod_cast hvalue
    have hexp : e = (j : Int) - 52 := by omega
    rw [hexp, zpow_sub₀ (by norm_num), zpow_natCast]
    have hscale : ((2 : ℚ) ^ (52 : Int)) = 2 ^ 52 := by norm_num
    rw [hscale, mul_div_assoc', hcast]
    field_simp
  · cases hchecked

/-! ### Decimal numbers -/

/-- The intervals of finite doubles lie between the half of the least of them and `2^1024`. -/
theorem InInterval.range {r : ℚ} {m : Nat} {e : Int} (h : InInterval r m e) (hc : Canonical m e)
    (he : e ≤ 971) : (2 : ℚ) ^ (-1075 : Int) ≤ r ∧ r < 2 ^ (1024 : Int) := by
  have hunit : (0 : ℚ) < 2 ^ e := by positivity
  have hpos : (1 : ℚ) ≤ m := by exact_mod_cast hc.pos
  have hlt : (m : ℚ) + 1 ≤ 2 ^ 53 := by exact_mod_cast hc.lt
  have hle {x y : Int} (hxy : x ≤ y) : (2 : ℚ) ^ x ≤ 2 ^ y :=
    zpow_le_zpow_right₀ (by norm_num) hxy
  have hbelow := h.below
  have habove := h.above
  constructor
  · calc (2 : ℚ) ^ (-1075 : Int) = 1 / 2 * 2 ^ (-1074 : Int) := by
          rw [show (-1075 : Int) = -1074 - 1 from rfl, zpow_sub_one₀ (by norm_num)]
          ring
      _ ≤ 1 / 2 * 2 ^ e := by
        have hlow := hle hc.low
        linarith
      _ ≤ r := by nlinarith
  · calc r < 2 ^ 53 * 2 ^ e := by nlinarith
      _ ≤ 2 ^ 53 * 2 ^ (971 : Int) := by
        have hhigh := hle he
        nlinarith
      _ = 2 ^ (1024 : Int) := by
        rw [← zpow_natCast, ← zpow_add₀ (by norm_num)]
        rfl

/-- Beyond the table decimals are read by the model, which gives up on none of those that lie
in the interval of a double. -/
theorem unpacked_of_inInterval {c m : Nat} {x e : Int} (hpos : 0 < c) (hc : Canonical m e)
    (he : e ≤ 971) (hr : InInterval (c * 10 ^ x) m e) :
    UnpackedFloat.ofScientific .binary64 c x = .finite .positive m e hc.pos := by
  obtain ⟨hlow, hhigh⟩ := hr.range hc he
  have hone : (1 : ℚ) ≤ c := by exact_mod_cast hpos
  have htop : ¬x > 2 ^ Format.binary64.exponentBits := by
    intro hlarge
    change x > 2 ^ 11 at hlarge
    have hpower : (2 : ℚ) ^ (1024 : Int) ≤ 10 ^ x := by
      calc (2 : ℚ) ^ (1024 : Int) ≤ 2 ^ x := zpow_le_zpow_right₀ (by norm_num) (by omega)
        _ ≤ 10 ^ x := zpow_le_zpow_left₀ (by omega) (by norm_num) (by norm_num)
    have hten : (0 : ℚ) < 10 ^ x := by positivity
    have hleast := mul_le_mul_of_nonneg_right hone hten.le
    linarith
  have hbottom : ¬x < -((2 ^ Format.binary64.exponentBits : Int) + c.log2) := by
    intro hsmall
    change x < -(2 ^ 11 + (c.log2 : Int)) at hsmall
    have hlog : (c : ℚ) < 2 ^ ((c.log2 : Int) + 1) := by
      have : (c : ℚ) < (2 ^ (c.log2 + 1) : ℕ) := by exact_mod_cast Nat.lt_log2_self
      rw [← Nat.cast_succ, zpow_natCast]
      exact_mod_cast this
    have hpower : (10 : ℚ) ^ x ≤ 2 ^ x := by
      have hinv : ((2 : ℚ) ^ (-x)) ≤ 10 ^ (-x) :=
        zpow_le_zpow_left₀ (by omega) (by norm_num) (by norm_num)
      rw [← neg_neg x, zpow_neg _ (-x), zpow_neg _ (-x)]
      exact inv_anti₀ (by positivity) hinv
    have hten : (0 : ℚ) < 10 ^ x := by positivity
    have hless : (c : ℚ) * 10 ^ x < 2 ^ (-1075 : Int) := by
      calc (c : ℚ) * 10 ^ x < 2 ^ ((c.log2 : Int) + 1) * 10 ^ x :=
            mul_lt_mul_of_pos_right hlog hten
        _ ≤ 2 ^ ((c.log2 : Int) + 1) * 2 ^ x := mul_le_mul_of_nonneg_left hpower (by positivity)
        _ = 2 ^ ((c.log2 : Int) + 1 + x) := (zpow_add₀ (by norm_num) _ _).symm
        _ ≤ 2 ^ (-1075 : Int) := zpow_le_zpow_right₀ (by norm_num) (by omega)
    linarith
  unfold UnpackedFloat.ofScientific
  rw [dif_neg hpos.ne', if_neg htop, if_neg hbottom]
  split
  · rename_i hwhole
    obtain ⟨k, rfl⟩ := Int.eq_ofNat_of_zero_le hwhole
    have hvalue : ((c <<< Format.binary64.mantissaBits : ℕ) : ℚ) *
        2 ^ (-(Format.binary64.mantissaBits : Int)) *
          (((10 ^ (k : Int).toNat : ℕ) : ℚ) * 2 ^ (0 : Int)) =
          c * 10 ^ (k : Int) := by
      rw [Nat.shiftLeft_eq, zpow_neg, zpow_natCast, zpow_zero, Int.toNat_natCast, zpow_natCast]
      push_cast
      field_simp
    rw [← hvalue] at hr
    refine mul_of_inInterval _ _ ?_ hc hr _ _
    have hscaled : 2 ^ 53 ≤ c <<< Format.binary64.mantissaBits := by
      rw [Nat.shiftLeft_eq]
      exact Nat.le_mul_of_pos_left _ hpos
    calc 2 ^ 52 ≤ 2 ^ 53 * 1 := by norm_num
      _ ≤ _ := Nat.mul_le_mul hscaled (Nat.one_le_pow _ _ (by decide))
  · rename_i hfraction
    obtain ⟨k, hk⟩ := Int.eq_ofNat_of_zero_le (show 0 ≤ -x by omega)
    have hvalue : ((c : ℚ) * 2 ^ (0 : Int)) / (((10 ^ (-x).toNat : ℕ) : ℚ) * 2 ^ (0 : Int)) =
        c * 10 ^ x := by
      have hx : x = -(k : Int) := by omega
      rw [hk, Int.toNat_natCast, hx, zpow_neg, zpow_natCast, zpow_zero]
      push_cast
      field_simp
    rw [← hvalue] at hr
    exact div_of_inInterval _ _ hc hr _ _

/-- A decimal number is read as the double in whose interval it lies. -/
theorem ofScientific_of_inInterval {x : Float} {m : Nat} {e : Int} (hm : 0 < m)
    (hx : parts x = .finite false m e) {c : Nat} {negative : Bool} {k : Nat}
    (hr : InInterval (c * 10 ^ (if negative then -(k : Int) else k)) m e) :
    Float.ofScientific c negative k = x := by
  obtain ⟨hc, he⟩ : Canonical m e ∧ e ≤ 971 := by
    rcases canonical_of_parts hx with ⟨hzero, -⟩ | hcanonical
    · omega
    · exact hcanonical
  obtain ⟨hlow, -⟩ := hr.range hc he
  have hpos : 0 < c := by
    by_contra hzero
    have hc0 : c = 0 := by omega
    rw [hc0, Nat.cast_zero, zero_mul] at hlow
    have : (0 : ℚ) < 2 ^ (-1075 : Int) := by positivity
    linarith
  have hresult {u : UnpackedFloat} (hu : u = .finite .positive m e hm) :
      Float.ofModel (.pack u) = x := by
    rw [hu]
    exact ofModel_pack_of_parts hm hx
  unfold Float.ofScientific
  split
  · -- the coefficient and the power of ten are both exact doubles
    rename_i hsmall
    obtain ⟨hlt, hk⟩ := hsmall
    obtain ⟨hcc, hcvalue⟩ := canonical_of_lt hpos hlt
    have hcunpack := unpack_toFloat hpos hlt
    obtain ⟨p, d, hp, hpunpack, hpvalue, hpfull⟩ := unpack_powerOfTen (k := k)
      (by simp [Float.exactlyRepresentablePowersOfTen]; omega)
    cases negative with
    | true =>
      rw [if_pos rfl, zpow_neg, zpow_natCast, ← div_eq_mul_inv, ← hcvalue, ← hpvalue] at hr
      apply hresult (u := UnpackedFloat.div .binary64 _ _)
      rw [hcunpack, hpunpack]
      exact div_of_inInterval _ _ hc hr _ _
    | false =>
      rw [if_neg (by decide), zpow_natCast, ← hcvalue, ← hpvalue] at hr
      apply hresult (u := UnpackedFloat.mul .binary64 _ _)
      rw [hcunpack, hpunpack]
      refine mul_of_inInterval _ _ ?_ hc hr _ _
      exact hpfull.trans (Nat.le_mul_of_pos_left _ hcc.pos)
  · have hexp : (if negative = true then Int.negOfNat k else Int.ofNat k) =
        if negative = true then -(k : Int) else k := by
      cases negative with
      | true => exact Int.negOfNat_eq
      | false => rfl
    apply hresult
    rw [hexp]
    exact unpacked_of_inInterval hpos hc he hr

/-! ### Signs -/

/-- A decimal number with a sign is read as the double in whose interval it lies. -/
theorem neg_ofScientific_of_inInterval {x : Float} {m : Nat} {e : Int} (hm : 0 < m)
    (hx : parts x = .finite true m e) {c : Nat} {negative : Bool} {k : Nat}
    (hr : InInterval (c * 10 ^ (if negative then -(k : Int) else k)) m e) :
    -Float.ofScientific c negative k = x := by
  have habs := parts_neg hx
  rw [ofScientific_of_inInterval hm habs hr]
  apply parts_inj
  rw [parts_neg habs, hx]
  rfl

end ControlNode.Binary64
