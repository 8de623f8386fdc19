import ControlNode.Proofs.Decimal.Whole
import ControlNode.Store.Query

/-!
# Comparing doubles

Finite doubles are equal, less or greater as the numbers that they stand for
(`compareFloats_eq`): the two zeros are equal, and any two can be compared.
-/

namespace ControlNode

namespace Binary64

open Float.Model Float.Model.UnpackedFloat

theorem beq_iff_compare (x y : Float) :
    (x == y) = true ↔ x.toModel.unpack.compare y.toModel.unpack = some .eq := by
  show (x.toModel.unpack.compare y.toModel.unpack == some .eq) = true ↔ _
  rw [beq_iff_eq]

theorem lt_iff_compare (x y : Float) :
    x < y ↔ x.toModel.unpack.compare y.toModel.unpack = some .lt := by
  change (decide (x.toModel.unpack.lt y.toModel.unpack = true)) = true ↔ _
  rw [decide_eq_true_eq]
  exact beq_iff_eq

theorem compare_swap (u v : UnpackedFloat) :
    v.compare u = (u.compare v).map Ordering.swap := by
  cases u with
  | notANumber => cases v <;> rfl
  | infinity s =>
    cases v with
    | infinity t => cases s <;> cases t <;> rfl
    | _ => cases s <;> rfl
  | zero s =>
    cases v with
    | infinity t => cases t <;> rfl
    | finite t n d hn => cases t <;> rfl
    | _ => rfl
  | finite s m e hm =>
    cases v with
    | infinity t => cases s <;> cases t <;> rfl
    | notANumber => cases s <;> rfl
    | zero t => cases s <;> rfl
    | finite t n d hn =>
      have hswap : (compare d e).then (compare n m) =
          ((compare e d).then (compare m n)).swap := by
        rw [Ordering.swap_then, Int.compare_swap, Nat.compare_swap]
      cases s <;> cases t <;> simp [UnpackedFloat.compare, hswap]

theorem isSome_compare {x y : Float} (hx : isFinite x = true) (hy : isFinite y = true) :
    (x.toModel.unpack.compare y.toModel.unpack).isSome = true := by
  rcases unpack_of_isFinite hx with ⟨s, hu, -⟩ | ⟨s, m, e, hc, hu, -⟩
  · rcases unpack_of_isFinite hy with ⟨t, hw, -⟩ | ⟨t, n, d, hd, hw, -⟩
    · rw [hu, hw]
      rfl
    · rw [hu, hw]
      cases t <;> rfl
  · rcases unpack_of_isFinite hy with ⟨t, hw, -⟩ | ⟨t, n, d, hd, hw, -⟩
    · rw [hu, hw]
      cases s <;> rfl
    · rw [hu, hw]
      cases s <;> cases t <;> rfl

/-- Finite doubles are equal if they stand for one number. -/
theorem beq_iff_value {x y : Float} (hx : isFinite x = true) (hy : isFinite y = true) :
    (x == y) = true ↔ (parts x).value = (parts y).value := by
  have hswap := compare_swap x.toModel.unpack y.toModel.unpack
  have hlt := lt_iff_value hx hy
  have hgt := lt_iff_value hy hx
  rw [lt_iff_compare] at hlt hgt
  obtain ⟨o, ho⟩ := Option.isSome_iff_exists.mp (isSome_compare hx hy)
  rw [hswap, ho] at hgt
  rw [ho] at hlt
  rw [beq_iff_compare, ho]
  cases o with
  | lt => exact iff_of_false nofun (hlt.mp rfl).ne
  | eq =>
    have hle : ¬ (parts x).value < (parts y).value := fun h => nomatch hlt.mpr h
    have hge : ¬ (parts y).value < (parts x).value := fun h => nomatch hgt.mpr h
    exact iff_of_true rfl (le_antisymm (not_lt.mp hge) (not_lt.mp hle))
  | gt => exact iff_of_false nofun (hgt.mp rfl).ne'

end Binary64

namespace Json

open Binary64

theorem compareFloats_eq {x y : Float} (hx : isFinite x = true) (hy : isFinite y = true) :
    compareFloats x y = some (compare (parts x).value (parts y).value) := by
  unfold compareFloats
  simp only [lt_iff_value hx hy, lt_iff_value hy hx, beq_iff_value hx hy]
  rcases lt_trichotomy (parts x).value (parts y).value with h | h | h
  · rw [if_pos h, compare_lt_iff_lt.mpr h]
  · rw [h, if_neg (lt_irrefl _), if_pos rfl, compare_eq_iff_eq.mpr rfl]
  · rw [if_neg h.not_gt, if_neg h.ne', if_pos h, compare_gt_iff_gt.mpr h]

end Json

end ControlNode
