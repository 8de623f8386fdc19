import ControlNode.Proofs.Decimal.Scientific

/-!
# Whole doubles

Integers become the doubles in whose intervals they lie, finite ones as long as they have 64 bits
(`isFinite_ofInt`). Whole doubles become integers and come back without loss (`ofInt_toInt64`),
and their order stays (`toInt64_mono`).
-/

namespace ControlNode.Binary64

open Float.Model Float.Model.UnpackedFloat

/-! ### Integers as doubles -/

theorem ofSigned_of_inInterval {x : Float} {negative : Bool} {m : Nat} {e : Int} (hm : 0 < m)
    (hx : parts x = .finite negative m e) {n : Nat} (hr : InInterval n m e) :
    ofSigned negative n = x := by
  have hscaled : InInterval ((n : ℚ) * 10 ^ (if false then -((0 : ℕ) : Int) else (0 : ℕ))) m e := by
    simpa using hr
  have hof : Float.ofNat n = Float.ofScientific n false 0 := rfl
  cases negative with
  | true =>
    rw [ofSigned, if_pos rfl, hof]
    exact neg_ofScientific_of_inInterval hm hx hscaled
  | false =>
    rw [ofSigned, if_neg (by decide), hof]
    exact ofScientific_of_inInterval hm hx hscaled

theorem ofInt_of_inInterval {x : Float} {negative : Bool} {m : Nat} {e : Int} (hm : 0 < m)
    (hx : parts x = .finite negative m e) {n : Nat} (hn : 0 < n) (hr : InInterval n m e) :
    ofInt (if negative then -(n : Int) else n) = x := by
  unfold ofInt
  cases negative with
  | true =>
    rw [if_pos rfl, Int.natAbs_neg, Int.natAbs_natCast, decide_eq_true (by omega)]
    exact ofSigned_of_inInterval hm hx hr
  | false =>
    rw [if_neg (by decide), Int.natAbs_natCast, decide_eq_false (by omega)]
    exact ofSigned_of_inInterval hm hx hr

/-! ### Doubles without a fraction -/

theorem wholePart_eq {m : Nat} {e : Int} (h : isWhole m e = true) :
    (wholePart m e : ℚ) = m * 2 ^ e := by
  cases e with
  | ofNat k =>
    change ((m * 2 ^ k : ℕ) : ℚ) = m * 2 ^ (k : Int)
    rw [zpow_natCast]
    norm_cast
  | negSucc k =>
    have hmod : m % 2 ^ (k + 1) = 0 := beq_iff_eq.mp h
    have hsplit : 2 ^ (k + 1) * (m / 2 ^ (k + 1)) = m :=
      Nat.mul_div_cancel' (Nat.dvd_of_mod_eq_zero hmod)
    have hcast : (2 : ℚ) ^ (k + 1) * (m / 2 ^ (k + 1) : ℕ) = m := by exact_mod_cast hsplit
    change ((m / 2 ^ (k + 1) : ℕ) : ℚ) = m * 2 ^ (Int.negSucc k)
    rw [zpow_negSucc, ← hcast]
    field_simp

theorem parts_of_isIntegral {x : Float} (h : isIntegral x = true) :
    ∃ negative m e, parts x = .finite negative m e ∧ isWhole m e = true := by
  unfold isIntegral at h
  split at h
  · rename_i negative m e hparts
    exact ⟨negative, m, e, hparts, h⟩
  · cases h

/-- The positive zero for the negative one, any other double as it is. -/
def unsigned (x : Float) : Float := if x = -0 then 0 else x

theorem unsigned_of_zero {x : Float} {negative : Bool} {e : Int}
    (h : parts x = .finite negative 0 e) : unsigned x = 0 := by
  have hpositive : parts 0 = .finite false 0 (-1074) := by decide +kernel
  have hnegative : parts (-0) = .finite true 0 (-1074) := by decide +kernel
  obtain rfl : e = -1074 := by
    rcases canonical_of_parts h with ⟨-, he⟩ | ⟨hc, -⟩
    · exact he
    · exact absurd hc.pos (by decide)
  unfold unsigned
  split
  · rfl
  · rename_i hne
    cases negative with
    | true => exact absurd (parts_inj (h.trans hnegative.symm)) hne
    | false => exact parts_inj (h.trans hpositive.symm)

theorem unsigned_of_pos {x : Float} {negative : Bool} {m : Nat} {e : Int} (hm : 0 < m)
    (h : parts x = .finite negative m e) : unsigned x = x := by
  have hnegative : parts (-0) = .finite true 0 (-1074) := by decide +kernel
  unfold unsigned
  rw [if_neg]
  rintro rfl
  rw [hnegative] at h
  obtain ⟨-, rfl, -⟩ := Parts.finite.inj h
  exact absurd hm (by decide)

/-- A whole double within the range of 64-bit integers is converted there and back without
loss. -/
theorem ofInt_toInt64 {x : Float} (h : isIntegral x = true)
    (hrange : minInt64 < toInt64 x ∧ toInt64 x < maxInt64) : ofInt (toInt64 x) = unsigned x := by
  obtain ⟨negative, m, e, hparts, hwhole⟩ := parts_of_isIntegral h
  have hvalue := wholePart_eq hwhole
  have hint : toInt64 x = if negative then -(wholePart m e : Int) else wholePart m e := by
    have hclamp : toInt64 x =
      clampInt64 (if negative then -(wholePart m e : Int) else wholePart m e) := by
      unfold toInt64
      rw [hparts]
    rw [hclamp] at hrange ⊢
    unfold clampInt64 minInt64 maxInt64 at hrange ⊢
    omega
  rcases Nat.eq_zero_or_pos m with rfl | hm
  · rw [unsigned_of_zero hparts]
    have hnone : wholePart 0 e = 0 := by
      have : (wholePart 0 e : ℚ) = 0 := by simpa using hvalue
      exact_mod_cast this
    have hzero : toInt64 x = 0 := by
      rw [hint, hnone]
      split <;> rfl
    rw [hzero]
    decide +kernel
  · rw [unsigned_of_pos hm hparts, hint]
    have hpos : 0 < wholePart m e := by
      have : (0 : ℚ) < wholePart m e := by
        rw [hvalue]
        have : (0 : ℚ) < m := by exact_mod_cast hm
        positivity
      exact_mod_cast this
    have hinterval : InInterval (wholePart m e) m e := by
      rw [hvalue]
      exact inInterval_self m e
    exact ofInt_of_inInterval hm hparts hpos hinterval

/-! ### Whole numbers beyond the exact ones -/

theorem IsNearest.inInterval {r : ℚ} {m : Nat} {e : Int} (h : IsNearest (r / 2 ^ e) m)
    (hbinade : m = 2 ^ 52 → (m - 1 / 4) * 2 ^ e ≤ r) : InInterval r m e := by
  have hunit : (0 : ℚ) < 2 ^ e := by positivity
  obtain ⟨hlow, hhigh⟩ := abs_le.mp h.distance
  refine ⟨?_, ?_, fun hodd => ?_, fun hm _ => hbinade hm⟩
  · rw [← div_le_iff₀ hunit]
    linarith
  · rw [← le_div_iff₀ hunit]
    linarith
  · have hinside : |r / 2 ^ e - m| ≠ 1 / 2 := fun htie => by
      have := h.tie htie
      omega
    constructor
    · intro heq
      apply hinside
      rw [heq, mul_div_cancel_right₀ _ hunit.ne', add_sub_cancel_left]
      norm_num
    · intro heq
      apply hinside
      rw [heq, mul_div_cancel_right₀ _ hunit.ne', sub_sub_cancel_left]
      norm_num

/-- Every positive whole number lies in the interval of a canonical pair. -/
theorem exists_inInterval {n : Nat} (hpos : 0 < n) :
    ∃ m e, Canonical m e ∧ e ≤ (n.log2 : Int) - 51 ∧ InInterval n m e := by
  rcases Nat.lt_or_ge n (2 ^ 53) with hlt | hge
  · obtain ⟨hc, hvalue⟩ := canonical_of_lt hpos hlt
    refine ⟨_, _, hc, by omega, ?_⟩
    rw [← hvalue]
    exact inInterval_self _ _
  · -- the number is cut down to 53 bits
    have hlog : 53 ≤ n.log2 := (Nat.le_log2 hpos.ne').mpr hge
    obtain ⟨t, ht⟩ : ∃ t : Nat, n.log2 = t + 52 := ⟨n.log2 - 52, by omega⟩
    have hunit : (0 : ℚ) < 2 ^ t := by positivity
    have hlow : (2 : ℚ) ^ 52 * 2 ^ t ≤ n := by
      have := Nat.log2_self_le hpos.ne'
      rw [ht, pow_add, Nat.mul_comm] at this
      exact_mod_cast this
    have hhigh : (n : ℚ) < 2 ^ 53 * 2 ^ t := by
      have : n < 2 ^ (n.log2 + 1) := Nat.lt_log2_self
      rw [ht, show t + 52 + 1 = 53 + t by omega, pow_add] at this
      exact_mod_cast this
    have hnearest := ((standsFor_exact n).shiftRight t).isNearest
    generalize (ExtendedMantissa.ofMantissaAndAccuracy n .exact >>> t).roundedMantissa = m
      at hnearest
    obtain ⟨hbelow, habove⟩ := abs_le.mp hnearest.distance
    have hquotient : (2 : ℚ) ^ 52 ≤ n / 2 ^ t := (le_div_iff₀ hunit).mpr hlow
    have hquotient' : (n : ℚ) / 2 ^ t < 2 ^ 53 := (div_lt_iff₀ hunit).mpr hhigh
    have hfull : 2 ^ 52 ≤ m := by
      have : (2 : ℚ) ^ 52 < m + 1 := by linarith
      have : 2 ^ 52 < m + 1 := by exact_mod_cast this
      omega
    have hbits : m ≤ 2 ^ 53 := by
      have : (m : ℚ) < 2 ^ 53 + 1 := by linarith
      have : m < 2 ^ 53 + 1 := by exact_mod_cast this
      omega
    rcases Nat.lt_or_ge m (2 ^ 53) with hlt | hcarry
    · refine ⟨m, t, ⟨by omega, hlt, by omega, .inl hfull⟩, by omega, IsNearest.inInterval ?_ ?_⟩
      · rwa [zpow_natCast]
      · rintro rfl
        rw [zpow_natCast]
        push_cast
        nlinarith
    · -- rounding has carried over into the next power of two
      obtain rfl : m = 2 ^ 53 := by omega
      have hnext : (2 : ℚ) ^ ((t : Int) + 1) = 2 ^ t * 2 := by
        rw [zpow_add_one₀ (by norm_num), zpow_natCast]
      have hclose : ((2 : ℚ) ^ 53 - 1 / 2) * 2 ^ t ≤ n := by
        rw [← le_div_iff₀ hunit]
        push_cast at habove hbelow
        linarith
      refine ⟨2 ^ 52, (t : Int) + 1, ⟨by decide, by decide, by omega, .inl le_rfl⟩, by omega,
        ⟨?_, ?_, fun hodd => absurd hodd (by decide), fun _ _ => ?_⟩⟩
      · rw [hnext]
        push_cast
        nlinarith
      · rw [hnext]
        push_cast
        nlinarith
      · rw [hnext]
        push_cast
        nlinarith

theorem exists_parts {m : Nat} {e : Int} (hc : Canonical m e) (he : e ≤ 971) (negative : Bool) :
    ∃ x, parts x = .finite negative m e := by
  obtain ⟨s, hs⟩ : ∃ s : Sign, (s == .negative) = negative := by
    cases negative with
    | true => exact ⟨.negative, rfl⟩
    | false => exact ⟨.positive, rfl⟩
  refine ⟨.ofModel (.pack (.finite s m e hc.pos)), ?_⟩
  rw [parts_eq]
  change partsOf (UnpackedFloat.unpack .binary64 (UnpackedFloat.pack .binary64
    (.finite s m e hc.pos))) = _
  rw [unpack_pack hc he, partsOf, hs]

/-- Integers of 64 bits, with or without a sign, are converted to finite doubles. -/
theorem isFinite_ofInt_of_word {i : Int} (h : minInt64 ≤ i ∧ i < wordCount) :
    isFinite (ofInt i) = true := by
  rcases Nat.eq_zero_or_pos i.natAbs with hzero | hpos
  · obtain rfl : i = 0 := by omega
    decide +kernel
  · obtain ⟨m, e, hc, he, hr⟩ := exists_inInterval hpos
    have hlog : i.natAbs.log2 < 64 := by
      apply (Nat.log2_lt hpos.ne').mpr
      unfold minInt64 wordCount at h
      omega
    obtain ⟨x, hx⟩ := exists_parts hc (by omega) (decide (i < 0))
    have hof : ofInt i = x := ofSigned_of_inInterval hc.pos hx hr
    rw [hof, isFinite, hx]

theorem isFinite_ofInt {i : Int} (h : minInt64 ≤ i ∧ i ≤ maxInt64) : isFinite (ofInt i) = true := by
  have hword : i < wordCount := by
    unfold maxInt64 at h
    unfold wordCount
    omega
  exact isFinite_ofInt_of_word ⟨h.1, hword⟩

/-! ### Order -/

theorem isFinite_of_isIntegral {x : Float} (h : isIntegral x = true) : isFinite x = true := by
  obtain ⟨negative, m, e, hparts, -⟩ := parts_of_isIntegral h
  rw [isFinite, hparts]

theorem exists_value {x : Float} (h : isIntegral x = true) :
    ∃ n : Int, toInt64 x = clampInt64 n ∧ (parts x).value = n := by
  obtain ⟨negative, m, e, hparts, hwhole⟩ := parts_of_isIntegral h
  refine ⟨if negative then -(wholePart m e : Int) else wholePart m e, ?_, ?_⟩
  · rw [toInt64, hparts]
  · rw [hparts, Parts.value, ← wholePart_eq hwhole]
    split <;> push_cast <;> rfl

theorem toInt64_mono {x y : Float} (hx : isIntegral x = true) (hy : isIntegral y = true)
    (h : ¬y < x) : toInt64 x ≤ toInt64 y := by
  obtain ⟨n, hn, hnvalue⟩ := exists_value hx
  obtain ⟨k, hk, hkvalue⟩ := exists_value hy
  have hle : n ≤ k := by
    rw [lt_iff_value (isFinite_of_isIntegral hy) (isFinite_of_isIntegral hx), hnvalue, hkvalue,
      not_lt] at h
    exact_mod_cast h
  rw [hn, hk]
  unfold clampInt64
  omega

theorem toInt64_unsigned (x : Float) : toInt64 (unsigned x) = toInt64 x := by
  unfold unsigned
  split
  · rename_i hzero
    rw [hzero]
    decide +kernel
  · rfl

/-- A number below `2^53` is a double. -/
theorem value_ofNat {n : Nat} (h : n < 2 ^ 53) :
    isFinite (Float.ofNat n) = true ∧ (parts (Float.ofNat n)).value = n := by
  rcases Nat.eq_zero_or_pos n with rfl | hpos
  · have hzero : parts (Float.ofNat 0) = .finite false 0 (-1074) := by decide +kernel
    rw [isFinite, hzero]
    exact ⟨rfl, by simp [Parts.value]⟩
  · obtain ⟨hc, hvalue⟩ := canonical_of_lt hpos h
    have hlog : n.log2 < 53 := (Nat.log2_lt hpos.ne').mpr h
    obtain ⟨x, hx⟩ := exists_parts hc (by omega) false
    have hof : Float.ofNat n = x := by
      have hinterval := inInterval_self (n * 2 ^ (52 - n.log2)) ((n.log2 : Int) - 52)
      rw [hvalue] at hinterval
      exact ofSigned_of_inInterval hc.pos hx hinterval
    rw [hof, isFinite, hx, Parts.value]
    exact ⟨rfl, hvalue⟩

theorem ofNat_lt_iff {m n : Nat} (hm : m < 2 ^ 53) (hn : n < 2 ^ 53) :
    Float.ofNat m < Float.ofNat n ↔ m < n := by
  obtain ⟨hmfin, hmvalue⟩ := value_ofNat hm
  obtain ⟨hnfin, hnvalue⟩ := value_ofNat hn
  rw [lt_iff_value hmfin hnfin, hmvalue, hnvalue, Nat.cast_lt]

/-! ### Truncation -/

theorem isWhole_of_value {m n : Nat} {e : Int} (h : (m : ℚ) * 2 ^ e = n) : isWhole m e = true := by
  cases e with
  | ofNat k => rfl
  | negSucc k =>
    have hpow : ((2 : ℚ) ^ (k + 1)) ≠ 0 := by positivity
    rw [zpow_negSucc, ← div_eq_mul_inv, div_eq_iff hpow] at h
    have hprod : m = n * 2 ^ (k + 1) := by exact_mod_cast h
    rw [hprod]
    exact beq_iff_eq.mpr (Nat.mul_mod_left n (2 ^ (k + 1)))

/-- A number below `2^53` with a sign is a whole double. -/
theorem isIntegral_ofSigned (negative : Bool) {n : Nat} (h : n < 2 ^ 53) :
    isIntegral (ofSigned negative n) = true := by
  rcases Nat.eq_zero_or_pos n with rfl | hpos
  · cases negative <;> decide +kernel
  · obtain ⟨hc, hvalue⟩ := canonical_of_lt hpos h
    have hlog : n.log2 < 53 := (Nat.log2_lt hpos.ne').mpr h
    obtain ⟨x, hx⟩ := exists_parts hc (by omega) negative
    have hof : ofSigned negative n = x := by
      have hinterval := inInterval_self (n * 2 ^ (52 - n.log2)) ((n.log2 : Int) - 52)
      rw [hvalue] at hinterval
      exact ofSigned_of_inInterval hc.pos hx hinterval
    rw [hof, isIntegral, hx]
    exact isWhole_of_value hvalue

theorem roundBy_of_isIntegral {away : Bool → Nat → Int → Bool} {x : Float}
    (h : isIntegral x = true) : roundBy away x = x := by
  obtain ⟨negative, m, e, hparts, hwhole⟩ := parts_of_isIntegral h
  rw [roundBy, hparts]
  exact if_pos hwhole

theorem trunc_trunc (x : Float) : trunc (trunc x) = trunc x := by
  suffices htrunc : trunc x = x ∨ isIntegral (trunc x) = true by
    rcases htrunc with hsame | hwhole
    · rw [hsame, hsame]
    · exact roundBy_of_isIntegral hwhole
  unfold trunc roundBy
  split
  · rename_i negative m e hparts
    split
    · exact .inl rfl
    · rename_i hfraction
      right
      -- a double with a fraction has at most 53 bits in front of it
      have hbits : m < 2 ^ 53 := by
        rcases canonical_of_parts hparts with ⟨rfl, -⟩ | ⟨hc, -⟩
        · decide
        · exact hc.lt
      refine isIntegral_ofSigned negative ?_
      cases e with
      | ofNat k => exact absurd rfl hfraction
      | negSucc k => exact (Nat.div_le_self ..).trans_lt hbits
  · exact .inl rfl

end ControlNode.Binary64
