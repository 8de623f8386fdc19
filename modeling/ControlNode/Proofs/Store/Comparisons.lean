import ControlNode.Proofs.Json.Meanings

/-!
# Comparing the values of fields

Two numbers, two texts or two truth values are in an order, and in that order they are equal
exactly where they are equivalent; no other values are in one.
-/

namespace ControlNode

abbrev Record.WellFormed (r : Record) : Prop := (Json.obj r).WellFormed

theorem Record.WellFormed.get? {r : Record} (h : r.WellFormed) {field : String} {j : Json}
    (hj : Dict.get? r field = some j) : j.WellFormed := by
  cases h with
  | obj _ entries => exact entries _ (Dict.mem_of_get? hj)

theorem Record.WellFormed.getD {r : Record} (h : r.WellFormed) (field : String) :
    ((Dict.get? r field).getD .null).WellFormed := by
  cases hj : Dict.get? r field with
  | none => exact .null
  | some j => exact h.get? hj

namespace Json

/-- Two numbers, two texts or two truth values. -/
def comparable : Json → Json → Bool
  | .str _, .str _ => true
  | .bool _, .bool _ => true
  | a, b => a.asFloat?.isSome && b.asFloat?.isSome

theorem comparable_cases {a b : Json} (h : a.comparable b = true) :
    (∃ s t, a = .str s ∧ b = .str t) ∨ (∃ s t, a = .bool s ∧ b = .bool t) ∨
      ∃ x y, a.asFloat? = some x ∧ b.asFloat? = some y := by
  unfold comparable at h
  split at h
  · exact Or.inl ⟨_, _, rfl, rfl⟩
  · exact Or.inr (Or.inl ⟨_, _, rfl, rfl⟩)
  · rw [Bool.and_eq_true] at h
    obtain ⟨x, hx⟩ := Option.isSome_iff_exists.mp h.1
    obtain ⟨y, hy⟩ := Option.isSome_iff_exists.mp h.2
    exact Or.inr (Or.inr ⟨x, y, hx, hy⟩)

theorem compareScalars?_of_asFloat? {a b : Json} {x y : Float} (hx : a.asFloat? = some x)
    (hy : b.asFloat? = some y) : a.compareScalars? b = compareFloats x y := by
  unfold compareScalars?
  split
  · cases hx
  · cases hx
  · simp only [hx, hy]

theorem compareScalars?_numbers {a b : Json} (ha : a.WellFormed) (hb : b.WellFormed) {x y : Float}
    (hx : a.asFloat? = some x) (hy : b.asFloat? = some y) :
    a.compareScalars? b = some (compare (Binary64.parts x).value (Binary64.parts y).value) := by
  rw [compareScalars?_of_asFloat? hx hy, compareFloats_eq (ha.asFloat? hx).1 (hb.asFloat? hy).1]

theorem compareScalars?_of_comparable {a b : Json} (ha : a.WellFormed) (hb : b.WellFormed)
    (h : a.comparable b = true) :
    ∃ o, a.compareScalars? b = some o ∧ (a.equiv b = true ↔ o = .eq) := by
  rcases comparable_cases h with ⟨s, t, rfl, rfl⟩ | ⟨s, t, rfl, rfl⟩ | ⟨x, y, hx, hy⟩
  · refine ⟨compare s t, rfl, ?_⟩
    rw [equiv, beq_iff_eq, Std.compare_eq_iff_eq]
  · refine ⟨compare s t, rfl, ?_⟩
    rw [equiv, beq_iff_eq, Std.compare_eq_iff_eq]
  · refine ⟨_, compareScalars?_numbers ha hb hx hy, ?_⟩
    rw [equiv_of_asFloat? hx hy, Binary64.beq_iff_value (ha.asFloat? hx).1 (hb.asFloat? hy).1,
      compare_eq_iff_eq]

theorem compareScalars?_eq_none {a b : Json} (h : a.comparable b = false) :
    a.compareScalars? b = none := by
  cases a <;> cases b <;> first | rfl | cases h

end Json

end ControlNode
