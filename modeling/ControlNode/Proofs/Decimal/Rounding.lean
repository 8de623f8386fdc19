import Mathlib

/-!
# Rounding to doubles

A finite positive double is `m · 2^e` for exactly one canonical pair of a mantissa and an
exponent. Every real that lies in the rounding interval of such a pair is rounded to it
(`roundWithAccuracy_eq`): the steps of the rounding keep exact account of what they cut off.
-/

namespace ControlNode.Binary64

open Float.Model Float.Model.UnpackedFloat

/-! ### Cutting off bits -/

/-- What the two residual bits say of the fraction that has been cut off. -/
def Residue : Bool → Bool → ℚ → Prop
  | false, false, f => f = 0
  | false, true, f => 0 < f ∧ f < 1 / 2
  | true, false, f => f = 1 / 2
  | true, true, f => 1 / 2 < f ∧ f < 1

/-- One more bit is cut off: it becomes the round bit, the old round bit becomes sticky. -/
theorem Residue.shift {roundBit stickyBit : Bool} {f : ℚ} (h : Residue roundBit stickyBit f)
    (bit : Bool) : Residue bit (roundBit || stickyBit) ((f + bit.toNat) / 2) := by
  cases bit <;> cases roundBit <;> cases stickyBit <;>
    simp only [Residue, Bool.toNat_true, Bool.toNat_false, Bool.or_false, Bool.or_true,
      Nat.cast_zero, Nat.cast_one] at h ⊢
  all_goals first
    | linarith
    | (constructor <;> linarith)

theorem Residue.bounds {roundBit stickyBit : Bool} {f : ℚ} (h : Residue roundBit stickyBit f) :
    0 ≤ f ∧ f < 1 := by
  cases roundBit <;> cases stickyBit <;> simp only [Residue] at h <;> constructor <;> linarith

/-- A mantissa with its residual bits stands for a number of units. -/
def StandsFor (em : ExtendedMantissa) (q : ℚ) : Prop :=
  Residue em.roundBit em.stickyBit (q - em.mantissa)

theorem standsFor_exact (m : Nat) : StandsFor (.ofMantissaAndAccuracy m .exact) m :=
  sub_self (m : ℚ)

theorem StandsFor.shiftRightOne {em : ExtendedMantissa} {q : ℚ} (h : StandsFor em q) :
    StandsFor em.shiftRightOne (q / 2) := by
  have hbit : ((em.mantissa % 2 != 0).toNat : ℚ) = (em.mantissa % 2 : ℕ) := by
    rcases Nat.mod_two_eq_zero_or_one em.mantissa with heven | hodd
    · rw [heven]
      rfl
    · rw [hodd]
      rfl
  have hsplit : (em.mantissa : ℚ) = 2 * (em.mantissa / 2 : ℕ) + (em.mantissa % 2 : ℕ) := by
    exact_mod_cast (Nat.div_add_mod em.mantissa 2).symm
  have hfraction : q / 2 - (em.mantissa / 2 : ℕ) =
      (q - em.mantissa + (em.mantissa % 2 != 0).toNat) / 2 := by
    rw [hbit, hsplit]
    ring
  have hshift := Residue.shift h (em.mantissa % 2 != 0)
  rw [← hfraction] at hshift
  exact hshift

theorem StandsFor.shiftRight {em : ExtendedMantissa} {q : ℚ} (h : StandsFor em q) (n : Nat) :
    StandsFor (em >>> n) (q / 2 ^ n) := by
  change StandsFor (n.repeat ExtendedMantissa.shiftRightOne em) (q / 2 ^ n)
  induction n with
  | zero => simpa [Nat.repeat] using h
  | succ n ih =>
    rw [pow_succ, ← div_div]
    exact ih.shiftRightOne

/-! ### The nearest mantissa -/

/-- The whole number nearest to `q`, the even one of two. -/
structure IsNearest (q : ℚ) (r : Nat) : Prop where
  distance : |q - r| ≤ 1 / 2
  tie : |q - r| = 1 / 2 → r % 2 = 0

theorem isNearest_of_lt {q : ℚ} {r : Nat} (h : |q - r| < 1 / 2) : IsNearest q r :=
  ⟨h.le, fun htie => absurd htie h.ne⟩

theorem isNearest_half {q : ℚ} {m : Nat} (h : q - m = 1 / 2) : IsNearest q (m + m % 2) := by
  refine ⟨?_, fun _ => by omega⟩
  rcases Nat.mod_two_eq_zero_or_one m with heven | hodd
  · rw [heven, Nat.add_zero, h]
    norm_num
  · have hdistance : q - (m + 1 : ℕ) = -(1 / 2) := by
      push_cast
      linarith
    rw [hodd, hdistance]
    norm_num

theorem IsNearest.unique {q : ℚ} {r r' : Nat} (h : IsNearest q r) (h' : IsNearest q r') :
    r = r' := by
  wlog hlt : r < r' generalizing r r'
  · rcases Nat.lt_or_ge r' r with hgt | hge
    · exact (this h' h hgt).symm
    · omega
  exfalso
  have hstep : (r : ℚ) + 1 ≤ r' := by exact_mod_cast hlt
  have hlow := (abs_le.mp h.distance).2
  have hhigh := (abs_le.mp h'.distance).1
  -- both are at the distance of a half, so they are neighbours
  have hq : q - r = 1 / 2 := by linarith
  have hq' : q - r' = -(1 / 2) := by linarith
  have hnext : r' = r + 1 := by
    have : (r' : ℚ) = r + 1 := by linarith
    exact_mod_cast this
  have heven := h.tie (by rw [hq]; norm_num)
  have heven' := h'.tie (by rw [hq']; norm_num)
  omega

theorem StandsFor.isNearest {em : ExtendedMantissa} {q : ℚ} (h : StandsFor em q) :
    IsNearest q em.roundedMantissa := by
  obtain ⟨m, roundBit, stickyBit⟩ := em
  simp only [StandsFor] at h
  cases roundBit with
  | false =>
    have hdown : IsNearest q m := by
      apply isNearest_of_lt
      rw [abs_lt]
      cases stickyBit <;> simp only [Residue] at h <;> constructor <;> linarith
    cases stickyBit <;> exact hdown
  | true =>
    cases stickyBit with
    | false => exact isNearest_half h
    | true =>
      obtain ⟨hlow, hhigh⟩ := h
      apply isNearest_of_lt
      simp only [ExtendedMantissa.roundedMantissa, ExtendedMantissa.accuracy,
        Accuracy.roundToNearestEven]
      rw [abs_lt]
      push_cast
      constructor <;> linarith

/-! ### Canonical pairs -/

/-- The pairs of a mantissa and an exponent that doubles consist of. -/
structure Canonical (m : Nat) (e : Int) : Prop where
  pos : 0 < m
  lt : m < 2 ^ 53
  low : -1074 ≤ e
  full : 2 ^ 52 ≤ m ∨ e = -1074

/-- The reals that are rounded to `m · 2^e`: those nearer to it than to its neighbours, and
those half-way if `m` is even. Below a power of two the next neighbour is half as far away. -/
structure InInterval (r : ℚ) (m : Nat) (e : Int) : Prop where
  above : r ≤ (m + 1 / 2) * 2 ^ e
  below : (m - 1 / 2) * 2 ^ e ≤ r
  ties : m % 2 = 1 → r ≠ (m + 1 / 2) * 2 ^ e ∧ r ≠ (m - 1 / 2) * 2 ^ e
  binade : m = 2 ^ 52 → -1074 < e → (m - 1 / 4) * 2 ^ e ≤ r

theorem inInterval_self (m : Nat) (e : Int) : InInterval (m * 2 ^ e) m e := by
  have hunit : (0 : ℚ) < 2 ^ e := by positivity
  refine ⟨by nlinarith, by nlinarith, fun _ => ⟨?_, ?_⟩, fun _ _ => by nlinarith⟩
  · apply ne_of_lt
    nlinarith
  · apply ne_of_gt
    nlinarith

theorem InInterval.isNearest {r : ℚ} {m : Nat} {e : Int} (h : InInterval r m e) :
    IsNearest (r / 2 ^ e) m := by
  have hunit : (0 : ℚ) < 2 ^ e := by positivity
  have habove : r / 2 ^ e ≤ m + 1 / 2 := (div_le_iff₀ hunit).mpr h.above
  have hbelow : m - 1 / 2 ≤ r / 2 ^ e := (le_div_iff₀ hunit).mpr h.below
  refine ⟨abs_le.mpr ⟨by linarith, by linarith⟩, fun htie => ?_⟩
  by_contra hodd
  obtain ⟨hne, hne'⟩ := h.ties (by omega)
  rcases abs_eq (by norm_num) |>.mp htie with hup | hdown
  · exact hne ((div_eq_iff hunit.ne').mp (by linarith))
  · exact hne' ((div_eq_iff hunit.ne').mp (by linarith))

/-! ### Rounding -/

/-- The exponent in which a number is first written down. -/
def unitOf (m : Nat) (e : Int) : Int := max (m.log2 + e - 52) (-1074)

theorem targetExponent_eq (m : Nat) (e : Int) :
    Format.binary64.targetExponent (totalExponent m e) = unitOf m e := by
  unfold Format.targetExponent totalExponent unitOf
  have hbits : (Format.binary64.mantissaBits : Int) = 53 := by decide
  have hmin : Format.binary64.minExponent = -1074 := by decide
  rw [hbits, hmin]
  congr 1
  omega

/-- The bits that a number has too many are cut off. -/
theorem standsFor_shiftToTargetExponent {m : Nat} {e : Int} {a : Accuracy} {q : ℚ}
    (h : StandsFor (.ofMantissaAndAccuracy m a) q) (he : e ≤ unitOf m e) :
    StandsFor (shiftToTargetExponent .binary64 m e a).1 (q * 2 ^ e / 2 ^ unitOf m e) ∧
      (shiftToTargetExponent .binary64 m e a).2 = unitOf m e := by
  simp only [shiftToTargetExponent, shiftToExponent, targetExponent_eq]
  have hshift : e + ((unitOf m e - e).toNat : Int) = unitOf m e := by omega
  refine ⟨?_, hshift⟩
  have hscale : q * 2 ^ e / 2 ^ unitOf m e = q / 2 ^ (unitOf m e - e).toNat := by
    conv_lhs => rw [← hshift, zpow_add₀ (by norm_num), zpow_natCast]
    field_simp
  rw [hscale]
  exact h.shiftRight _

/-- A number is less than `2^53` of its units, and at least `2^52` unless these are the
smallest there are. -/
theorem unitOf_bounds {m : Nat} {e : Int} {a : Accuracy} {q : ℚ}
    (h : StandsFor (.ofMantissaAndAccuracy m a) q) (he : e ≤ unitOf m e) :
    q * 2 ^ e < 2 ^ (unitOf m e + 53) ∧
      (unitOf m e = -1074 ∨ 2 ^ (unitOf m e + 52) ≤ q * (2 : ℚ) ^ e) := by
  have hmantissa : (ExtendedMantissa.ofMantissaAndAccuracy m a).mantissa = m := by
    cases a with
    | exact => rfl
    | inexact o => cases o <;> rfl
  have hunit : (0 : ℚ) < 2 ^ e := by positivity
  obtain ⟨hlow, hhigh⟩ := Residue.bounds h
  rw [hmantissa] at hlow hhigh
  have hpower (k : Nat) : (2 : ℚ) ^ ((k : Int) + e) = (2 ^ k : ℕ) * 2 ^ e := by
    rw [zpow_add₀ (by norm_num), zpow_natCast]
    norm_cast
  have hle {x y : Int} (hxy : x ≤ y) : (2 : ℚ) ^ x ≤ 2 ^ y :=
    zpow_le_zpow_right₀ (by norm_num) hxy
  constructor
  · have hlog : (m : ℚ) + 1 ≤ (2 ^ (m.log2 + 1) : ℕ) := by
      exact_mod_cast (Nat.lt_log2_self : m < 2 ^ (m.log2 + 1))
    calc q * 2 ^ e < (2 ^ (m.log2 + 1) : ℕ) * 2 ^ e := by
          apply mul_lt_mul_of_pos_right _ hunit
          linarith
      _ = 2 ^ (((m.log2 + 1 : ℕ) : Int) + e) := (hpower _).symm
      _ ≤ 2 ^ (unitOf m e + 53) := hle (by unfold unitOf; omega)
  · by_cases hmin : unitOf m e = -1074
    · exact .inl hmin
    · right
      have hunits : unitOf m e + 52 = (m.log2 : Int) + e := by
        unfold unitOf at hmin ⊢
        omega
      have hpos : m ≠ 0 := by
        rintro rfl
        rw [Nat.log2_zero] at hunits
        omega
      have hlog : ((2 ^ m.log2 : ℕ) : ℚ) ≤ m := by exact_mod_cast Nat.log2_self_le hpos
      rw [hunits, hpower]
      apply mul_le_mul_of_nonneg_right _ hunit.le
      linarith

/-- Rounding to whole units finds the canonical pair, or the next power of two written in half
its units. -/
theorem eq_or_carry {r : ℚ} {t e : Int} {n m : Nat} (hmin : -1074 ≤ t)
    (hlt : r < 2 ^ (t + 53)) (hge : t = -1074 ∨ 2 ^ (t + 52) ≤ r)
    (hn : IsNearest (r / 2 ^ t) n) (hc : Canonical m e) (hr : InInterval r m e) :
    t = e ∧ n = m ∨ t + 1 = e ∧ m = 2 ^ 52 ∧ n = 2 ^ 53 := by
  have hpower (x : Int) (k : Nat) : (2 : ℚ) ^ (x + k) = 2 ^ x * 2 ^ k := by
    rw [zpow_add₀ (by norm_num), zpow_natCast]
  have ht : (0 : ℚ) < 2 ^ t := by positivity
  have he : (0 : ℚ) < 2 ^ e := by positivity
  have hm : (m : ℚ) + 1 ≤ 2 ^ 53 := by exact_mod_cast hc.lt
  have htop : r < 2 ^ t * 2 ^ 53 := by rw [← hpower]; exact hlt
  rcases Int.lt_trichotomy t e with hbelow | rfl | habove
  · -- the interval reaches below a power of two
    have hfull : (2 : ℚ) ^ 52 ≤ m := by
      rcases hc.full with hfull | hlow
      · exact_mod_cast hfull
      · omega
    obtain ⟨k, hk⟩ := Int.le.dest (Int.add_one_le_of_lt hbelow)
    have hunit : (2 : ℚ) ^ e = 2 ^ t * 2 * 2 ^ k := by
      rw [← hk, hpower, zpow_add_one₀ (by norm_num)]
    have hone : k = 0 := by
      by_contra hne
      have htwo : (2 : ℚ) ≤ 2 ^ k := by
        calc (2 : ℚ) = 2 ^ 1 := by norm_num
          _ ≤ 2 ^ k := pow_le_pow_right₀ (by norm_num) (by omega)
      have hbound : (2 : ℚ) ^ t * 4 ≤ 2 ^ e := by rw [hunit]; nlinarith
      have hbelow := hr.below
      nlinarith
    rw [hone, pow_zero, mul_one] at hunit
    have hpair : m = 2 ^ 52 := by
      have hbelow := hr.below
      rw [hunit] at hbelow
      have hsmall : (m : ℚ) < 2 ^ 52 + 1 := by nlinarith
      have : m < 2 ^ 52 + 1 := by exact_mod_cast hsmall
      have : 2 ^ 52 ≤ m := by exact_mod_cast hfull
      omega
    refine .inr ⟨by omega, hpair, hn.unique ⟨?_, fun _ => rfl⟩⟩
    have hbinade := hr.binade hpair (by omega)
    rw [hunit, hpair] at hbinade
    push_cast at hbinade ⊢
    rw [abs_le]
    constructor
    · have : (2 : ℚ) ^ 53 - 1 / 2 ≤ r / 2 ^ t := by
        rw [le_div_iff₀ ht]
        nlinarith
      linarith
    · have : r / 2 ^ t ≤ 2 ^ 53 := by
        rw [div_le_iff₀ ht]
        nlinarith
      linarith
  · exact .inl ⟨rfl, hn.unique hr.isNearest⟩
  · -- such a number is too large for the interval
    exfalso
    rcases hge with hlow | hge
    · have := hc.low
      omega
    · obtain ⟨k, hk⟩ := Int.le.dest (Int.add_one_le_of_lt habove)
      have hunit : (2 : ℚ) ^ t = 2 ^ e * 2 * 2 ^ k := by
        rw [← hk, hpower, zpow_add_one₀ (by norm_num)]
      have hone : (1 : ℚ) ≤ 2 ^ k := one_le_pow₀ (by norm_num)
      have hbottom : 2 ^ t * 2 ^ 52 ≤ r := by rw [← hpower]; exact hge
      have hdouble : 2 ^ e * 2 ≤ (2 : ℚ) ^ t := by rw [hunit]; nlinarith
      have hr := hr.above
      nlinarith

theorem shiftToTargetExponent_of_lt {m : Nat} {e : Int} (hm : m < 2 ^ 53) (he : -1074 ≤ e) :
    shiftToTargetExponent .binary64 m e .exact = (.ofMantissaAndAccuracy m .exact, e) := by
  have hlog : m.log2 < 53 := by
    by_cases hzero : m = 0
    · rw [hzero, Nat.log2_zero]
      decide
    · exact (Nat.log2_lt hzero).mpr hm
  have hshift : (unitOf m e - e).toNat = 0 := by
    unfold unitOf
    omega
  simp only [shiftToTargetExponent, shiftToExponent, targetExponent_eq, hshift]
  exact Prod.ext rfl (Int.add_zero e)

theorem shiftToTargetExponent_carry {e : Int} (he : -1074 ≤ e) :
    shiftToTargetExponent .binary64 (2 ^ 53) e .exact =
      (.ofMantissaAndAccuracy (2 ^ 52) .exact, e + 1) := by
  have hshift : (unitOf (2 ^ 53) e - e).toNat = 1 := by
    unfold unitOf
    rw [Nat.log2_two_pow]
    omega
  simp only [shiftToTargetExponent, shiftToExponent, targetExponent_eq, hshift]
  rfl

/-- Every real is rounded to the double in whose interval it lies. -/
theorem roundWithAccuracy_eq {n m : Nat} {x e : Int} {a : Accuracy} {q : ℚ}
    (hq : StandsFor (.ofMantissaAndAccuracy n a) q) (hx : x ≤ unitOf n x)
    (hc : Canonical m e) (hr : InInterval (q * 2 ^ x) m e) (s : Sign) :
    roundWithAccuracy .binary64 s n x a = .finite s m e hc.pos := by
  have hmin : -1074 ≤ unitOf n x := le_max_right _ _
  obtain ⟨hlt, hge⟩ := unitOf_bounds hq hx
  obtain ⟨hcut, hunit⟩ := standsFor_shiftToTargetExponent hq hx
  unfold roundWithAccuracy
  generalize hfirst : shiftToTargetExponent .binary64 n x a = first at hcut hunit
  obtain ⟨em, t⟩ := first
  dsimp only at hcut hunit ⊢
  subst hunit
  rcases eq_or_carry hmin hlt hge hcut.isNearest hc hr with ⟨ht, hn⟩ | ⟨ht, hm, hn⟩
  · rw [hn, shiftToTargetExponent_of_lt hc.lt hmin]
    simp only [ExtendedMantissa.ofMantissaAndAccuracy, ht]
    rw [dif_neg hc.pos.ne']
  · rw [hn, shiftToTargetExponent_carry hmin]
    simp only [ExtendedMantissa.ofMantissaAndAccuracy, ht, hm]
    rw [dif_neg (by decide)]

end ControlNode.Binary64
