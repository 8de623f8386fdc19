import ControlNode.Decimal.Binary64
import ControlNode.Proofs.Decimal.Rounding
import Mathlib

/-!
# Parts of doubles

A double is determined by its parts (`parts_inj`), which are those that the arithmetic of doubles
works on.
-/

namespace ControlNode.Binary64

open Float.Model Float.Model.UnpackedFloat

/-! ### Bits -/

section

variable (b : BitVec 64)

theorem toNat_unpackMantissa :
    (@unpackMantissa .binary64 b).toNat = b.toNat % 2 ^ 52 := by
  rw [unpackMantissa_def, BitVec.extractLsb'_toNat]
  rfl

theorem toNat_unpackExponent :
    (@unpackExponent .binary64 b).toNat = b.toNat / 2 ^ 52 % 2 ^ 11 := by
  rw [unpackExponent_def, BitVec.extractLsb'_toNat, Nat.shiftRight_eq_div_pow]

theorem toNat_unpackSign :
    (@unpackSign .binary64 b).toNat = b.toNat / 2 ^ 63 % 2 := by
  rw [unpackSign_def, BitVec.extractLsb'_toNat, Nat.shiftRight_eq_div_pow]
  rfl

theorem toNat_append_one (m : BitVec 52) : (1#1 ++ m).toNat = 2 ^ 52 + m.toNat := by
  rw [BitVec.toNat_append, ← Nat.shiftLeft_add_eq_or_of_lt m.isLt]
  rfl

theorem exponentBias_eq : (Format.binary64.exponentBias : Int) + (52 : Nat) = 1075 := by decide

end

/-! ### Parts -/

def partsOf : UnpackedFloat → Parts
  | .notANumber => .nan
  | .infinity s => .infinite (s == .negative)
  | .zero s => .finite (s == .negative) 0 (-1074)
  | .finite s m e _ => .finite (s == .negative) m e

theorem partsOf_inj {u v : UnpackedFloat} (h : partsOf u = partsOf v) : u = v := by
  have hsign {s t : Sign} (hst : (s == .negative) = (t == .negative)) : s = t := by
    cases s <;> cases t <;> first | rfl | cases hst
  cases u with
  | notANumber => cases v <;> first | rfl | cases h
  | infinity s =>
    cases v with
    | infinity t => rw [hsign (Parts.infinite.inj h)]
    | _ => cases h
  | zero s =>
    cases v with
    | zero t => rw [hsign (Parts.finite.inj h).1]
    | finite t m e hpos => exact absurd (Parts.finite.inj h).2.1 hpos.ne
    | _ => cases h
  | finite s m e hpos =>
    cases v with
    | zero t => exact absurd (Parts.finite.inj h).2.1 hpos.ne'
    | finite t m' e' hpos' =>
      obtain ⟨hs, rfl, rfl⟩ := Parts.finite.inj h
      rw [hsign hs]
    | _ => cases h

theorem parts_eq (x : Float) : parts x = partsOf x.toModel.unpack := by
  have hbits : x.toBits.toNat = x.toModel.toBits.toBitVec.toNat := rfl
  unfold parts Float.Model.unpack UnpackedFloat.unpack
  rw [hbits]
  generalize x.toModel.toBits.toBitVec = b
  have hm := toNat_unpackMantissa b
  have he := toNat_unpackExponent b
  have hs := toNat_unpackSign b
  have hlt : b.toNat < 2 ^ 64 := b.isLt
  have hsign : (Sign.ofBitVec (@unpackSign .binary64 b) == Sign.negative) =
      (b.toNat / pow2 63 == 1) := by
    have hbit : b.toNat / 2 ^ 63 = (@unpackSign .binary64 b).toNat := by omega
    have hpow : pow2 63 = 2 ^ 63 := rfl
    rw [hpow, hbit]
    generalize @unpackSign .binary64 b = s
    revert s
    decide
  have hfraction : @unpackMantissa .binary64 b = 0#_ ↔ b.toNat % pow2 52 = 0 := by
    rw [← BitVec.toNat_inj, hm]
    rfl
  have hlowest : @unpackExponent .binary64 b = 0#_ ↔
      b.toNat / pow2 52 % pow2 11 = 0 := by
    rw [← BitVec.toNat_inj, he]
    rfl
  have hhighest : @unpackExponent .binary64 b = -1#_ ↔
      b.toNat / pow2 52 % pow2 11 = 2047 := by
    rw [← BitVec.toNat_inj, he]
    rfl
  simp only [hhighest, hlowest, hfraction, beq_iff_eq, ← hsign]
  split
  · split
    · rfl
    · rfl
  · split
    · split
      · rename_i hzero
        rw [hzero]
        rfl
      · rename_i hlow _
        simp only [partsOf]
        congr 1
        change b.toNat / 2 ^ 52 % 2 ^ 11 = 0 at hlow
        rw [he, hlow]
        decide
    · simp only [partsOf]
      congr 1
      · rw [toNat_append_one, hm]
        rfl
      · rw [he, exponentBias_eq]
        rfl

theorem parts_inj {x y : Float} (h : parts x = parts y) : x = y := by
  rw [parts_eq, parts_eq] at h
  have hbits := (unpack_inj_of_valid x.toModel.valid y.toModel.valid).mp (partsOf_inj h)
  apply Float.toBits_inj.mp
  exact UInt64.toBitVec_inj.mp hbits

/-- The parts of a finite double: a zero, or a canonical pair with an exponent in range. -/
theorem canonical_of_parts {x : Float} {negative : Bool} {m : Nat} {e : Int}
    (h : parts x = .finite negative m e) :
    m = 0 ∧ e = -1074 ∨ Canonical m e ∧ e ≤ 971 := by
  have hbits : x.toBits.toNat / pow2 52 % pow2 11 < 2 ^ 11 := Nat.mod_lt _ (by decide)
  have hfraction : x.toBits.toNat % pow2 52 < 2 ^ 52 := Nat.mod_lt _ (by decide)
  have hpow : pow2 52 = 2 ^ 52 := rfl
  unfold parts at h
  dsimp only at h
  split at h
  · split at h <;> cases h
  · rename_i hfinite
    rw [beq_iff_eq] at hfinite
    split at h
    · obtain ⟨-, rfl, rfl⟩ := Parts.finite.inj h
      rcases Nat.eq_zero_or_pos (x.toBits.toNat % pow2 52) with hzero | hpos
      · exact .inl ⟨hzero, rfl⟩
      · exact .inr ⟨⟨hpos, by omega, by omega, .inr rfl⟩, by omega⟩
    · rename_i hnormal
      rw [beq_iff_eq] at hnormal
      obtain ⟨-, rfl, rfl⟩ := Parts.finite.inj h
      exact .inr ⟨⟨by omega, by omega, by omega, .inl (by omega)⟩, by omega⟩

/-! ### Taking apart and putting together -/

theorem unpack_of_parts {x : Float} {s : Sign} {m : Nat} {e : Int} (hm : 0 < m)
    (h : parts x = .finite (s == .negative) m e) : x.toModel.unpack = .finite s m e hm := by
  apply partsOf_inj
  rw [← parts_eq, h]
  rfl

theorem pack_unpack_model (x : Float) : Float.ofModel (.pack x.toModel.unpack) = x := by
  apply Float.toBits_inj.mp
  exact UInt64.toBitVec_inj.mp (pack_unpack_of_valid x.toModel.valid)

theorem ofModel_pack_of_parts {x : Float} {s : Sign} {m : Nat} {e : Int} (hm : 0 < m)
    (h : parts x = .finite (s == .negative) m e) :
    Float.ofModel (.pack (.finite s m e hm)) = x := by
  rw [← unpack_of_parts hm h, pack_unpack_model]

/-- A canonical pair with an exponent in range is kept as it is in the bits of a double. -/
theorem unpack_pack {m : Nat} {e : Int} (h : Canonical m e) (he : e ≤ 971) (s : Sign) :
    UnpackedFloat.unpack .binary64 (UnpackedFloat.pack .binary64 (.finite s m e h.pos)) =
      .finite s m e h.pos := by
  have hlow := h.low
  have hlt := h.lt
  -- the exponent as it is written in the bits, which is neither the least nor the greatest one
  obtain ⟨k, hk⟩ : ∃ k : Nat, e + 1075 = k := ⟨(e + 1075).toNat, by omega⟩
  have hbiased : (e + Format.binary64.exponentBias + (52 : Nat)).toNat = k := by
    have hbias := exponentBias_eq
    omega
  have hbits : (BitVec.ofNat 11 k).toNat = k := by
    rw [BitVec.toNat_ofNat]
    omega
  have hones : (BitVec.ofNat 11 k : BitVec Format.binary64.exponentBits) ≠ -1#_ := by
    intro heq
    have htop := congrArg BitVec.toNat heq
    rw [hbits] at htop
    change k = 2047 at htop
    omega
  have hzero : (BitVec.ofNat 11 k : BitVec Format.binary64.exponentBits) ≠ 0#_ := by
    intro heq
    have hbottom := congrArg BitVec.toNat heq
    rw [hbits] at hbottom
    change k = 0 at hbottom
    omega
  have hfinite : ¬2 ^ Format.binary64.exponentBits ≤ k + 1 := by
    change ¬2 ^ 11 ≤ k + 1
    omega
  simp only [UnpackedFloat.pack, hbiased]
  rw [if_neg hfinite]
  by_cases hfull : 2 ^ 52 ≤ m
  · have hlog : m.log2 + 1 = Format.binary64.mantissaBits := by
      have hle := (Nat.le_log2 h.pos.ne').mpr hfull
      have hge := (Nat.log2_lt h.pos.ne').mpr hlt
      change m.log2 + 1 = 53
      omega
    have hmantissa : (1#1 ++ BitVec.ofNat 52 m).toNat = m := by
      rw [toNat_append_one, BitVec.toNat_ofNat]
      omega
    rw [if_pos hlog]
    simp only [UnpackedFloat.unpack, unpackMantissa_packComponents, unpackExponent_packComponents,
      unpackSign_packComponents, Sign.ofBitVec_toBitVec, if_neg hones, if_neg hzero, hmantissa]
    congr 1
    rw [hbits, exponentBias_eq]
    omega
  · have hmin : e = -1074 := by
      rcases h.full with hfull' | hmin
      · exact absurd hfull' hfull
      · exact hmin
    have hlog : m.log2 + 1 ≠ Format.binary64.mantissaBits := by
      have hlt := (Nat.log2_lt h.pos.ne').mpr (Nat.lt_of_not_le hfull)
      change m.log2 + 1 ≠ 53
      omega
    have hmantissa : (BitVec.ofNat 52 m).toNat = m := by
      rw [BitVec.toNat_ofNat]
      omega
    have hpos : (BitVec.ofNat 52 m : BitVec Format.binary64.mantissaBitsWithoutImplicit) ≠ 0#_ := by
      intro heq
      have hnone := congrArg BitVec.toNat heq
      rw [hmantissa] at hnone
      exact h.pos.ne' hnone
    have hlowest : (0#11 : BitVec Format.binary64.exponentBits) ≠ -1#_ := by decide
    rw [if_neg hlog]
    simp only [UnpackedFloat.unpack, unpackMantissa_packComponents, unpackExponent_packComponents,
      unpackSign_packComponents, Sign.ofBitVec_toBitVec, if_neg hlowest, if_true, dif_neg hpos,
      hmantissa]
    congr 1
    rw [hmin]
    decide

/-! ### Signs and order -/

theorem parts_neg {x : Float} {negative : Bool} {m : Nat} {e : Int}
    (h : parts x = .finite negative m e) : parts (-x) = .finite (!negative) m e := by
  have hflip (b : Bool) (s : Sign) (hs : (s == .negative) = b) : (-s == .negative) = !b := by
    cases s <;> cases b <;> first | rfl | cases hs
  have hunpack : (-x).toModel.unpack =
      UnpackedFloat.unpack .binary64 (UnpackedFloat.pack .binary64 x.toModel.unpack.neg) := rfl
  rw [parts_eq, hunpack]
  rcases canonical_of_parts h with ⟨rfl, rfl⟩ | ⟨hc, he⟩
  · rw [parts_eq] at h
    generalize x.toModel.unpack = u at h
    cases u with
    | notANumber => cases h
    | infinity s => cases h
    | finite s m e hm => exact absurd (Parts.finite.inj h).2.1 hm.ne'
    | zero s =>
      have hs := (Parts.finite.inj h).1
      change partsOf (UnpackedFloat.unpack .binary64 (packedZero .binary64 (-s))) = _
      rw [unpack_packedZero, partsOf, hflip negative s hs]
  · obtain ⟨s, hs⟩ : ∃ s : Sign, (s == .negative) = negative := by
      cases negative with
      | true => exact ⟨.negative, rfl⟩
      | false => exact ⟨.positive, rfl⟩
    rw [unpack_of_parts (s := s) hc.pos (by rw [h, hs])]
    change partsOf (UnpackedFloat.unpack .binary64
      (UnpackedFloat.pack .binary64 (.finite (-s) m e hc.pos))) = _
    rw [unpack_pack hc he, partsOf, hflip negative s hs]

def Parts.value : Parts → ℚ
  | .finite negative m e => if negative then -(m * 2 ^ e) else m * 2 ^ e
  | _ => 0

theorem Canonical.lt_iff {m n : Nat} {e d : Int} (hm : Canonical m e) (hn : Canonical n d) :
    (m : ℚ) * 2 ^ e < n * 2 ^ d ↔ (compare e d).then (compare m n) = .lt := by
  have hless {m n : Nat} {e d : Int} (hm : Canonical m e) (hn : Canonical n d) (hlt : e < d) :
      (m : ℚ) * 2 ^ e < n * 2 ^ d := by
    have hfull : (2 : ℚ) ^ 52 ≤ n := by
      rcases hn.full with hfull | hmin
      · exact_mod_cast hfull
      · have := hm.low
        omega
    have hsmall : (m : ℚ) < 2 ^ 53 := by exact_mod_cast hm.lt
    calc (m : ℚ) * 2 ^ e < 2 ^ 53 * 2 ^ e := mul_lt_mul_of_pos_right hsmall (by positivity)
      _ = 2 ^ 52 * 2 ^ (e + 1) := by rw [zpow_add_one₀ (by norm_num)]; ring
      _ ≤ 2 ^ 52 * 2 ^ d :=
        mul_le_mul_of_nonneg_left (zpow_le_zpow_right₀ (by norm_num) hlt) (by norm_num)
      _ ≤ n * 2 ^ d := mul_le_mul_of_nonneg_right hfull (by positivity)
  rcases Int.lt_trichotomy e d with hlt | rfl | hgt
  · rw [Int.compare_eq_lt.mpr hlt]
    exact iff_of_true (hless hm hn hlt) rfl
  · have hunit : (0 : ℚ) < 2 ^ e := by positivity
    rw [Int.compare_eq_eq.mpr rfl, mul_lt_mul_iff_of_pos_right hunit, Nat.cast_lt]
    exact Nat.compare_eq_lt.symm
  · rw [Int.compare_eq_gt.mpr hgt]
    exact iff_of_false (hless hn hm hgt).not_gt nofun

theorem unpack_of_isFinite {x : Float} (h : isFinite x = true) :
    (∃ s, x.toModel.unpack = .zero s ∧ (parts x).value = 0) ∨
      ∃ s m e, ∃ hc : Canonical m e, x.toModel.unpack = .finite s m e hc.pos ∧
        (parts x).value = if s == .negative then -((m : ℚ) * 2 ^ e) else (m : ℚ) * 2 ^ e := by
  unfold isFinite at h
  split at h
  · rename_i negative m e hparts
    rcases canonical_of_parts hparts with ⟨rfl, rfl⟩ | ⟨hc, -⟩
    · have hvalue : (parts x).value = 0 := by
        rw [hparts]
        cases negative <;> simp [Parts.value]
      refine .inl ?_
      rw [parts_eq] at hparts
      generalize x.toModel.unpack = u at hparts
      cases u with
      | notANumber => cases hparts
      | infinity s => cases hparts
      | finite s m e hm => exact absurd (Parts.finite.inj hparts).2.1 hm.ne'
      | zero s => exact ⟨s, rfl, hvalue⟩
    · obtain ⟨s, hs⟩ : ∃ s : Sign, (s == .negative) = negative := by
        cases negative with
        | true => exact ⟨.negative, rfl⟩
        | false => exact ⟨.positive, rfl⟩
      rw [← hs] at hparts
      refine .inr ⟨s, m, e, hc, unpack_of_parts hc.pos hparts, ?_⟩
      rw [hparts, Parts.value]
  · cases h

theorem lt_iff_value {x y : Float} (hx : isFinite x = true) (hy : isFinite y = true) :
    x < y ↔ (parts x).value < (parts y).value := by
  have hlt : x < y ↔ x.toModel.unpack.compare y.toModel.unpack = some .lt := by
    change (decide (x.toModel.unpack.lt y.toModel.unpack = true)) = true ↔ _
    rw [decide_eq_true_eq]
    exact beq_iff_eq
  have hpositive {m : Nat} {e : Int} (hc : Canonical m e) : (0 : ℚ) < m * 2 ^ e := by
    have : (0 : ℚ) < m := by exact_mod_cast hc.pos
    positivity
  rw [hlt]
  rcases unpack_of_isFinite hx with ⟨s, hu, hv⟩ | ⟨s, m, e, hc, hu, hv⟩
  · rcases unpack_of_isFinite hy with ⟨t, hw, hz⟩ | ⟨t, n, d, hd, hw, hz⟩
    · rw [hu, hw, hv, hz]
      exact iff_of_false nofun (lt_irrefl 0)
    · have hmagnitude := hpositive hd
      rw [hu, hw, hv, hz]
      cases t with
      | negative => exact iff_of_false nofun (by simpa using hmagnitude.le)
      | positive => exact iff_of_true rfl hmagnitude
  · have hmagnitude := hpositive hc
    rcases unpack_of_isFinite hy with ⟨t, hw, hz⟩ | ⟨t, n, d, hd, hw, hz⟩
    · rw [hu, hw, hv, hz]
      cases s with
      | negative => exact iff_of_true rfl (by simpa using hmagnitude)
      | positive => exact iff_of_false nofun hmagnitude.not_gt
    · have hother := hpositive hd
      rw [hu, hw, hv, hz]
      cases s with
      | negative =>
        cases t with
        | negative =>
          have hswap : ((compare e d).then (compare m n)).swap =
              (compare d e).then (compare n m) := by
            rw [Ordering.swap_then, Int.compare_swap, Nat.compare_swap]
          have hminus : (Sign.negative == Sign.negative) = true := rfl
          rw [if_pos hminus, if_pos hminus, neg_lt_neg_iff, hd.lt_iff hc, ← hswap]
          exact ⟨fun h => Option.some.inj h, fun h => congrArg some h⟩
        | positive =>
          exact iff_of_true rfl ((neg_lt_zero.mpr hmagnitude).trans hother)
      | positive =>
        cases t with
        | negative => exact iff_of_false nofun ((neg_lt_zero.mpr hother).trans hmagnitude).not_gt
        | positive =>
          have hplus : ¬(Sign.positive == Sign.negative) = true := nofun
          rw [if_neg hplus, if_neg hplus, hc.lt_iff hd]
          exact ⟨fun h => Option.some.inj h, fun h => congrArg some h⟩

end ControlNode.Binary64
