import ControlNode.Decimal.Shortest
import ControlNode.Proofs.Decimal.Rounding
import Mathlib

/-!
# The digits of a double

The shortest digits of a positive double denote a number in its interval (`shortest_inInterval`).
They are found within seventeen tries: the last grid that is tried is so fine that one of its
points must lie in the interval.
-/

namespace ControlNode.Decimal

open Binary64

/-! ### Digits -/

theorem pow10_eq (k : Nat) : pow10 k = 10 ^ k := rfl

theorem digitCount_pos (n : Nat) : 0 < digitCount n :=
  List.length_pos_of_ne_nil (Nat.toDigits_ne_nil)

theorem lt_pow_digitCount (n : Nat) : n < 10 ^ digitCount n :=
  (Nat.length_toDigits_le_iff (by decide) (digitCount_pos n)).mp le_rfl

theorem pow_le_of_digitCount {n : Nat} (hn : 0 < n) : 10 ^ (digitCount n - 1) ≤ n := by
  by_contra hlt
  rcases Nat.eq_zero_or_pos (digitCount n - 1) with hone | hmore
  · rw [hone] at hlt
    omega
  · have hfewer := (Nat.length_toDigits_le_iff (by decide) hmore).mpr (Nat.lt_of_not_le hlt)
    have hpos := digitCount_pos n
    change digitCount n ≤ digitCount n - 1 at hfewer
    omega

/-- The power of ten that the search begins with is not too large. -/
theorem pow_exponent10_le {num den : Nat} (hnum : 0 < num) (hden : 0 < den) :
    (10 : ℚ) ^ exponent10 num den ≤ num / den := by
  have hd : (0 : ℚ) < den := by exact_mod_cast hden
  have hn : (0 : ℚ) < num := by exact_mod_cast hnum
  unfold exponent10
  split
  · rename_i hle
    have hq : 0 < num / den := Nat.div_pos hle hden
    have hexp : (digitCount (num / den) : Int) - 1 = ((digitCount (num / den) - 1 : ℕ) : Int) := by
      have := digitCount_pos (num / den)
      omega
    have hpow : 10 ^ (digitCount (num / den) - 1) * den ≤ num :=
      (Nat.mul_le_mul_right den (pow_le_of_digitCount hq)).trans (Nat.div_mul_le_self num den)
    rw [hexp, zpow_natCast, le_div_iff₀ hd]
    exact_mod_cast hpow
  · rename_i hlt
    dsimp only
    split
    · rename_i hexact
      rw [beq_iff_eq, pow10_eq] at hexact
      have hexp : -((digitCount (den / num) : Int) - 1) =
          -((digitCount (den / num) - 1 : ℕ) : Int) := by
        have := digitCount_pos (den / num)
        omega
      rw [hexp, zpow_neg, zpow_natCast, inv_le_iff_one_le_mul₀ (by positivity), div_mul_eq_mul_div,
        one_le_div₀ hd]
      have hcast : (num : ℚ) * 10 ^ (digitCount (den / num) - 1) = den := by
        exact_mod_cast hexact
      exact hcast.ge
    · have hpow : den ≤ num * 10 ^ digitCount (den / num) := by
        have hquotient := lt_pow_digitCount (den / num)
        have hbound := Nat.lt_mul_div_succ den hnum
        exact hbound.le.trans (Nat.mul_le_mul_left num hquotient)
      have hcast : (den : ℚ) ≤ num * 10 ^ digitCount (den / num) := by exact_mod_cast hpow
      rw [zpow_neg, zpow_natCast, inv_le_iff_one_le_mul₀ (by positivity), div_mul_eq_mul_div,
        one_le_div₀ hd]
      linarith

/-! ### Grids -/

namespace Interval

variable {iv : Interval} {tie : Tie} {k : Int}

/-- The grid `10^k` in the units in which an interval is compared with it. -/
theorem scale_eq (k : Int) : (pow10 (-k).toNat : ℚ) * 10 ^ k = pow10 k.toNat := by
  have hsplit : ((-k).toNat : Int) + k = (k.toNat : Int) := by omega
  rw [pow10_eq, pow10_eq]
  push_cast
  rw [← zpow_natCast, ← zpow_natCast, ← zpow_add₀ (by norm_num), hsplit]

/-- A number lies in an interval, below the double that this is about or above it. -/
inductive Holds (iv : Interval) (p : ℚ) : Prop where
  | below (hp : p ≤ iv.num / iv.den) (h : iv.num / iv.den - p ≤ iv.below / iv.den)
      (hopen : iv.closed = false → iv.num / iv.den - p < (iv.below / iv.den : ℚ))
  | above (hp : (iv.num / iv.den : ℚ) ≤ p) (h : p - iv.num / iv.den ≤ iv.above / iv.den)
      (hopen : iv.closed = false → p - iv.num / iv.den < (iv.above / iv.den : ℚ))

/-- Whether a distance is within a bound, both in the same units. -/
theorem within_iff {closed : Bool} {distance bound : Nat} :
    (if closed then decide (distance ≤ bound) else decide (distance < bound)) = true ↔
      distance ≤ bound ∧ (closed = false → distance < bound) := by
  cases closed with
  | true => simp
  | false =>
    simp only [Bool.false_eq_true, if_false, decide_eq_true_eq, true_implies]
    omega

section

variable (iv k)

/-- The numbers that are compared with the grid, in its units. -/
def scaled : Nat := iv.num * pow10 (-k).toNat

def unit : Nat := iv.den * pow10 k.toNat

def low : Nat := iv.scaled k / iv.unit k

end

theorem unit_eq : (iv.unit k : ℚ) = 10 ^ k * (iv.den * pow10 (-k).toNat) := by
  rw [unit, Nat.cast_mul, ← scale_eq]
  ring

variable (hden : 0 < iv.den)
include hden

theorem unit_pos : 0 < iv.unit k := Nat.mul_pos hden (Nat.pow_pos (by decide))

theorem scaled_eq :
    (iv.scaled k : ℚ) = iv.num / iv.den * (iv.den * pow10 (-k).toNat) := by
  have hd : (iv.den : ℚ) ≠ 0 := by exact_mod_cast hden.ne'
  rw [scaled, Nat.cast_mul]
  field_simp

theorem one_le_low (h : (10 : ℚ) ^ k ≤ iv.num / iv.den) : 1 ≤ iv.low k := by
  have hscaled : (iv.unit k : ℚ) ≤ iv.scaled k := by
    rw [unit_eq, scaled_eq hden]
    exact mul_le_mul_of_nonneg_right h (by positivity)
  exact Nat.div_pos (by exact_mod_cast hscaled) (unit_pos hden)

theorem distances (k : Int) :
    let g : ℚ := 10 ^ k
    let s : ℚ := iv.den * pow10 (-k).toNat
    0 < s ∧ ((iv.scaled k - iv.low k * iv.unit k : ℕ) : ℚ) = (iv.num / iv.den - iv.low k * g) * s ∧
      (((iv.low k + 1) * iv.unit k - iv.scaled k : ℕ) : ℚ) =
        ((iv.low k + 1) * g - iv.num / iv.den) * s := by
  intro g s
  have hd : (0 : ℚ) < iv.den := by exact_mod_cast hden
  have hup : (0 : ℚ) < pow10 (-k).toNat := by exact_mod_cast Nat.pow_pos (by decide)
  have hscaled : (iv.scaled k : ℚ) = iv.num / iv.den * s := scaled_eq hden
  have hunit : (iv.unit k : ℚ) = g * s := unit_eq
  have hlow : iv.low k * iv.unit k ≤ iv.scaled k := Nat.div_mul_le_self _ _
  have hhigh : iv.scaled k ≤ (iv.low k + 1) * iv.unit k := by
    have := Nat.lt_mul_div_succ (iv.scaled k) (unit_pos (k := k) hden)
    rw [Nat.mul_comm]
    exact this.le
  refine ⟨mul_pos hd hup, ?_, ?_⟩
  · rw [Nat.cast_sub hlow]
    push_cast
    rw [hscaled, hunit]
    ring
  · rw [Nat.cast_sub hhigh]
    push_cast
    rw [hscaled, hunit]
    ring

/-- Which of the two points next to the double lie in the interval. -/
theorem low_holds (h : (if iv.closed
      then decide (iv.scaled k - iv.low k * iv.unit k ≤ iv.below * pow10 (-k).toNat)
      else decide (iv.scaled k - iv.low k * iv.unit k < iv.below * pow10 (-k).toNat)) = true) :
    iv.Holds (iv.low k * 10 ^ k) := by
  obtain ⟨hs, hunder, -⟩ := distances hden k
  have hd : (iv.den : ℚ) ≠ 0 := by exact_mod_cast hden.ne'
  obtain ⟨hle, hlt⟩ := within_iff.mp h
  have hbound : ((iv.below * pow10 (-k).toNat : ℕ) : ℚ) =
      iv.below / iv.den * (iv.den * pow10 (-k).toNat) := by
    push_cast
    field_simp
  have hpos : (0 : ℚ) ≤ (iv.scaled k - iv.low k * iv.unit k : ℕ) := Nat.cast_nonneg _
  refine .below ?_ ?_ fun hopen => ?_
  · rw [hunder] at hpos
    linarith [nonneg_of_mul_nonneg_left hpos hs]
  · have hcast : ((iv.scaled k - iv.low k * iv.unit k : ℕ) : ℚ) ≤
        (iv.below * pow10 (-k).toNat : ℕ) := by exact_mod_cast hle
    rw [hunder, hbound] at hcast
    exact le_of_mul_le_mul_right hcast hs
  · have hcast : ((iv.scaled k - iv.low k * iv.unit k : ℕ) : ℚ) <
        (iv.below * pow10 (-k).toNat : ℕ) := by exact_mod_cast hlt hopen
    rw [hunder, hbound] at hcast
    exact lt_of_mul_lt_mul_right hcast hs.le

theorem high_holds (h : (if iv.closed
      then decide ((iv.low k + 1) * iv.unit k - iv.scaled k ≤ iv.above * pow10 (-k).toNat)
      else decide ((iv.low k + 1) * iv.unit k - iv.scaled k < iv.above * pow10 (-k).toNat)) =
        true) :
    iv.Holds ((iv.low k + 1 : ℕ) * 10 ^ k) := by
  obtain ⟨hs, -, hexcess⟩ := distances hden k
  have hd : (iv.den : ℚ) ≠ 0 := by exact_mod_cast hden.ne'
  obtain ⟨hle, hlt⟩ := within_iff.mp h
  have hbound : ((iv.above * pow10 (-k).toNat : ℕ) : ℚ) =
      iv.above / iv.den * (iv.den * pow10 (-k).toNat) := by
    push_cast
    field_simp
  have hpos : (0 : ℚ) ≤ ((iv.low k + 1) * iv.unit k - iv.scaled k : ℕ) := Nat.cast_nonneg _
  refine .above ?_ ?_ fun hopen => ?_
  · rw [hexcess] at hpos
    push_cast
    linarith [nonneg_of_mul_nonneg_left hpos hs]
  · have hcast : (((iv.low k + 1) * iv.unit k - iv.scaled k : ℕ) : ℚ) ≤
        (iv.above * pow10 (-k).toNat : ℕ) := by exact_mod_cast hle
    rw [hexcess, hbound] at hcast
    push_cast
    exact le_of_mul_le_mul_right hcast hs
  · have hcast : (((iv.low k + 1) * iv.unit k - iv.scaled k : ℕ) : ℚ) <
        (iv.above * pow10 (-k).toNat : ℕ) := by exact_mod_cast hlt hopen
    rw [hexcess, hbound] at hcast
    push_cast
    exact lt_of_mul_lt_mul_right hcast hs.le

theorem holds_gridPoint {c : Nat} (h : iv.gridPoint? tie k = some c) :
    iv.low k ≤ c ∧ iv.Holds (c * 10 ^ k) := by
  have hlow := low_holds (k := k) hden
  have hhigh := high_holds (k := k) hden
  unfold gridPoint? at h
  dsimp only at h
  split at h
  · cases h
  · rename_i hok _
    cases h
    exact ⟨le_rfl, hlow hok⟩
  · rename_i hok
    cases h
    exact ⟨Nat.le_succ _, hhigh hok⟩
  · rename_i hok hok'
    have heither (choose : Bool) (hc : c = if choose then iv.low k else iv.low k + 1) :
        iv.low k ≤ c ∧ iv.Holds (c * 10 ^ k) := by
      cases choose with
      | true =>
        rw [hc]
        exact ⟨le_rfl, hlow hok⟩
      | false =>
        rw [hc]
        exact ⟨Nat.le_succ _, hhigh hok'⟩
    split at h
    · cases h
      exact heither true rfl
    · split at h
      · cases h
        exact heither false rfl
      · split at h
        · cases h
          exact heither false rfl
        · cases h
          exact heither (iv.low k % 2 == 0) rfl

theorem isSome_gridPoint (h : (10 : ℚ) ^ k < (iv.below + iv.above) / iv.den) :
    (iv.gridPoint? tie k).isSome = true := by
  obtain ⟨hs, hunder, hexcess⟩ := distances hden k
  have hd : (0 : ℚ) < iv.den := by exact_mod_cast hden
  -- the distances of the two points add up to one unit of the grid
  have hsmall : iv.unit k < iv.below * pow10 (-k).toNat + iv.above * pow10 (-k).toNat := by
    have hscaled := mul_lt_mul_of_pos_right h hs
    rw [← unit_eq] at hscaled
    have hwidth : ((iv.below + iv.above : ℚ) / iv.den) * (iv.den * pow10 (-k).toNat) =
        (iv.below * pow10 (-k).toNat + iv.above * pow10 (-k).toNat : ℕ) := by
      push_cast
      field_simp
    rw [hwidth] at hscaled
    exact_mod_cast hscaled
  have hlow : iv.low k * iv.unit k ≤ iv.scaled k := Nat.div_mul_le_self _ _
  have hhigh : iv.scaled k < (iv.low k + 1) * iv.unit k := by
    have := Nat.lt_mul_div_succ (iv.scaled k) (unit_pos (k := k) hden)
    rwa [Nat.mul_comm] at this
  have hsum : (iv.low k + 1) * iv.unit k = iv.low k * iv.unit k + iv.unit k := Nat.succ_mul _ _
  unfold gridPoint?
  dsimp only
  split
  · rename_i hno hno'
    exfalso
    have hfar := mt within_iff.mpr (by rw [hno]; decide)
    have hfar' := mt within_iff.mpr (by rw [hno']; decide)
    change ¬(iv.scaled k - iv.low k * iv.unit k ≤ iv.below * pow10 (-k).toNat ∧
      (iv.closed = false → iv.scaled k - iv.low k * iv.unit k < iv.below * pow10 (-k).toNat))
        at hfar
    change ¬((iv.low k + 1) * iv.unit k - iv.scaled k ≤ iv.above * pow10 (-k).toNat ∧
      (iv.closed = false →
        (iv.low k + 1) * iv.unit k - iv.scaled k < iv.above * pow10 (-k).toNat)) at hfar'
    omega
  · rfl
  · rfl
  · split
    · rfl
    · split
      · rfl
      · cases tie <;> rfl

omit hden in
/-- The search ends at the first grid that has a point in the interval. -/
theorem search_eq {tries : Nat} (h : ∃ j < tries, (iv.gridPoint? tie (k - j)).isSome = true) :
    ∃ j c : Nat, iv.gridPoint? tie (k - j) = some c ∧ iv.search tie tries k = ⟨c, k - j⟩ := by
  induction tries generalizing k with
  | zero =>
    obtain ⟨j, hj, -⟩ := h
    omega
  | succ tries ih =>
    cases hpoint : iv.gridPoint? tie k with
    | some c => exact ⟨0, c, by simpa using hpoint, by simp [search, hpoint]⟩
    | none =>
      have hrest : ∃ j < tries, (iv.gridPoint? tie (k - 1 - j)).isSome = true := by
        obtain ⟨j, hj, hsome⟩ := h
        cases j with
        | zero =>
          rw [Nat.cast_zero, Int.sub_zero, hpoint] at hsome
          cases hsome
        | succ j =>
          refine ⟨j, by omega, ?_⟩
          rwa [show k - 1 - (j : Int) = k - ((j + 1 : ℕ) : Int) by omega]
      obtain ⟨j, c, hc, hsearch⟩ := ih hrest
      have hshift : k - 1 - (j : Int) = k - ((j + 1 : ℕ) : Int) := by omega
      rw [hshift] at hc hsearch
      exact ⟨j + 1, c, hc, by simp only [search, hpoint, hsearch]⟩

end Interval

/-! ### The interval of a double -/

theorem ofParts_eq (m : Nat) (e : Int) :
    let iv := Interval.ofParts m e
    0 < iv.den ∧ (iv.num / iv.den : ℚ) = m * 2 ^ e ∧
      (iv.below / iv.den : ℚ) = (if m = 2 ^ 52 ∧ -1074 < e then 1 / 4 else 1 / 2) * 2 ^ e ∧
      (iv.above / iv.den : ℚ) = 1 / 2 * 2 ^ e ∧ iv.closed = decide (m % 2 = 0) := by
  intro iv
  have hden : 0 < iv.den := Nat.pow_pos (by decide)
  have hscale : ((pow2 (e - 2).toNat : ℕ) : ℚ) / iv.den = 1 / 4 * 2 ^ e := by
    have hd : (iv.den : ℚ) = 2 ^ (2 - e).toNat := by
      change ((2 ^ (2 - e).toNat : ℕ) : ℚ) = _
      push_cast
      rfl
    have hn : ((pow2 (e - 2).toNat : ℕ) : ℚ) = 2 ^ (e - 2).toNat := by
      change ((2 ^ (e - 2).toNat : ℕ) : ℚ) = _
      push_cast
      rfl
    have hexp : ((e - 2).toNat : Int) = e - 2 + (2 - e).toNat := by omega
    rw [hd, hn, div_eq_iff (by positivity), ← zpow_natCast, ← zpow_natCast, hexp,
      zpow_add₀ (by norm_num), zpow_sub₀ (by norm_num)]
    have hfour : (2 : ℚ) ^ (2 : Int) = 4 := by norm_num
    rw [hfour]
    ring
  have hcondition : (m == pow2 52 && decide (-1074 < e)) = decide (m = 2 ^ 52 ∧ -1074 < e) := by
    rw [Bool.decide_and]
    rfl
  refine ⟨hden, ?_, ?_, ?_, rfl⟩
  · change ((4 * m * pow2 (e - 2).toNat : ℕ) : ℚ) / iv.den = _
    rw [Nat.cast_mul, mul_div_assoc, hscale]
    push_cast
    ring
  · change (((if m == pow2 52 && decide (-1074 < e) then 1 else 2) * pow2 (e - 2).toNat : ℕ) : ℚ) /
      iv.den = _
    rw [Nat.cast_mul, mul_div_assoc, hscale, hcondition]
    by_cases hbinade : m = 2 ^ 52 ∧ -1074 < e
    · rw [if_pos (decide_eq_true hbinade), if_pos hbinade]
      push_cast
      ring
    · rw [if_neg (by simpa using hbinade), if_neg hbinade]
      push_cast
      ring
  · change ((2 * pow2 (e - 2).toNat : ℕ) : ℚ) / iv.den = _
    rw [Nat.cast_mul, mul_div_assoc, hscale]
    push_cast
    ring

theorem inInterval_of_holds {m : Nat} {e : Int} {p : ℚ} (h : (Interval.ofParts m e).Holds p) :
    InInterval p m e := by
  obtain ⟨-, hvalue, hbelow, habove, hclosed⟩ := ofParts_eq m e
  have hunit : (0 : ℚ) < 2 ^ e := by positivity
  have hhalf : (if m = 2 ^ 52 ∧ -1074 < e then (1 / 4 : ℚ) else 1 / 2) ≤ 1 / 2 := by
    split <;> norm_num
  have hopen (hodd : m % 2 = 1) : (Interval.ofParts m e).closed = false := by
    rw [hclosed]
    exact decide_eq_false (by omega)
  cases h with
  | below hp hdistance hstrict =>
    rw [hvalue, hbelow] at hdistance hstrict
    rw [hvalue] at hp
    refine ⟨by nlinarith, by nlinarith, fun hodd => ⟨?_, ?_⟩, fun hpower he => ?_⟩
    · apply ne_of_lt
      nlinarith
    · have hless := hstrict (hopen hodd)
      apply ne_of_gt
      nlinarith
    · rw [if_pos ⟨hpower, he⟩] at hdistance
      linarith
  | above hp hdistance hstrict =>
    rw [hvalue, habove] at hdistance hstrict
    rw [hvalue] at hp
    refine ⟨by linarith, by nlinarith, fun hodd => ⟨?_, ?_⟩, fun hpower he => by nlinarith⟩
    · have hless := hstrict (hopen hodd)
      apply ne_of_lt
      linarith
    · apply ne_of_gt
      nlinarith

/-- The shortest digits of a positive double denote a number in its interval. -/
theorem shortest_inInterval {m : Nat} {e : Int} (hc : Canonical m e) (tie : Tie) :
    ∃ c : Nat, ∃ k, shortest tie m e = ⟨c, k⟩ ∧ 0 < c ∧ InInterval (c * 10 ^ k) m e := by
  obtain ⟨hden, hvalue, hbelow, habove, -⟩ := ofParts_eq m e
  have hunit : (0 : ℚ) < 2 ^ e := by positivity
  have hm : (m : ℚ) < 2 ^ 53 := by exact_mod_cast hc.lt
  have hnum : 0 < (Interval.ofParts m e).num :=
    Nat.mul_pos (Nat.mul_pos (by decide) hc.pos) (Nat.pow_pos (by decide))
  have hstart := pow_exponent10_le hnum hden
  unfold shortest
  dsimp only
  generalize hk : exponent10 (Interval.ofParts m e).num (Interval.ofParts m e).den = k at hstart ⊢
  rw [hvalue] at hstart
  -- the seventeenth grid is finer than the interval
  have hlast : ((Interval.ofParts m e).gridPoint? tie (k - (16 : ℕ))).isSome = true := by
    apply Interval.isSome_gridPoint hden
    rw [add_div, hbelow, habove, zpow_sub₀ (by norm_num)]
    have hsixteen : ((10 : ℚ) ^ ((16 : ℕ) : Int)) = 10 ^ 16 := zpow_natCast _ _
    rw [hsixteen, div_lt_iff₀ (by positivity)]
    split
    · rename_i hbinade
      rw [hbinade.1] at hstart
      push_cast at hstart
      nlinarith
    · nlinarith
  obtain ⟨j, c, hpoint, hsearch⟩ := Interval.search_eq ⟨16, (by omega : 16 < 17), hlast⟩
  obtain ⟨hlow, hholds⟩ := Interval.holds_gridPoint hden hpoint
  refine ⟨c, k - j, hsearch, ?_, inInterval_of_holds hholds⟩
  -- the grids are not coarser than the double is large
  have hcoarse : (10 : ℚ) ^ (k - j) ≤ m * 2 ^ e :=
    (zpow_le_zpow_right₀ (by norm_num) (by omega)).trans hstart
  rw [← hvalue] at hcoarse
  have hone := Interval.one_le_low hden hcoarse
  omega


end ControlNode.Decimal
