import ControlNode.Json.Parser
import ControlNode.Proofs.Dict

/-!
# Well-formed values

The values of texts in normal form: integers of 64 bits, finite doubles, and objects that list their
fields in key order. The reader is strict about numbers (`wellFormed_of_readNumber?`); the order of
the fields comes from the normal form.
-/

namespace ControlNode.Json

theorem normalizeFields_eq (fields : List (String × Json)) :
    normalizeFields fields = fields.map fun e => (e.1, e.2.normalize) := by
  induction fields with
  | nil => rfl
  | cons e fields ih =>
    obtain ⟨k, j⟩ := e
    rw [normalizeFields, ih, List.map_cons]

/-- A value as it is read from a text and put into normal form. -/
inductive WellFormed : Json → Prop where
  | null : WellFormed .null
  | bool (b : Bool) : WellFormed (.bool b)
  | int {n : Int} (low : Binary64.minInt64 ≤ n) (high : n < Binary64.wordCount) :
    WellFormed (.int n)
  | float {x : Float} (finite : Binary64.isFinite x = true) : WellFormed (.float x)
  | str (s : String) : WellFormed (.str s)
  | arr {items : List Json} (entries : ∀ j ∈ items, WellFormed j) : WellFormed (.arr items)
  | obj {fields : List (String × Json)} (sorted : Dict.Sorted fields)
    (entries : ∀ e ∈ fields, WellFormed e.2) : WellFormed (.obj fields)

/-! ### Numbers that are read -/

variable {negative : Bool} {cs rest : List Char} {j : Json}

theorem wellFormed_of_finite? {x : Float} (h : finite? x = some j) : j.WellFormed := by
  unfold finite? at h
  split at h
  · rename_i hx
    cases h
    exact .float hx
  · cases h

theorem wellFormed_of_integerValue {n : Nat} (hn : n < Binary64.wordCount)
    (h : integerValue negative n = some j) : j.WellFormed := by
  have hpow : Binary64.pow2 63 = 9223372036854775808 := by decide
  unfold integerValue at h
  split at h
  · cases h
    refine .int ?_ (Int.ofNat_lt.mpr hn)
    unfold Binary64.minInt64
    omega
  · split at h
    · rename_i hle
      cases h
      rw [hpow] at hle
      simp only [Bool.and_eq_true, decide_eq_true_eq] at hle
      refine .int ?_ ?_
      · unfold Binary64.minInt64
        omega
      · unfold Binary64.wordCount
        omega
    · exact wellFormed_of_finite? h

theorem fillWord_lt {acc : Nat} (h : acc < Binary64.wordCount) (ds : List Char) :
    (fillWord acc ds).1 < Binary64.wordCount := by
  induction ds generalizing acc with
  | nil => exact h
  | cons c ds ih =>
    rw [fillWord]
    split
    · exact ih ‹_›
    · exact h

theorem wellFormed_of_numberValue {whole : List Char} {fraction : Option (List Char)}
    {exponent : Option Int} (h : numberValue negative whole fraction exponent = some j) :
    j.WellFormed := by
  have hlt : (fillWord 0 whole).1 < Binary64.wordCount := fillWord_lt (by decide) whole
  unfold numberValue at h
  generalize fillWord 0 whole = word at hlt h
  obtain ⟨n, dropped⟩ := word
  dsimp only at h
  split at h
  · exact wellFormed_of_integerValue hlt h
  · exact wellFormed_of_finite? h

theorem wellFormed_of_readUnsigned? (h : readUnsigned? negative cs = some (j, rest)) :
    j.WellFormed := by
  unfold readUnsigned? at h
  split at h
  rename_i whole tail _
  split at h
  · cases h
  · obtain ⟨⟨fraction, tail⟩, -, h⟩ := Option.bind_eq_some_iff.mp h
    obtain ⟨⟨exponent, tail⟩, -, h⟩ := Option.bind_eq_some_iff.mp h
    obtain ⟨i, hi, h⟩ := Option.bind_eq_some_iff.mp h
    cases h
    exact wellFormed_of_numberValue hi

theorem wellFormed_of_readNumber? (h : readNumber? cs = some (j, rest)) : j.WellFormed := by
  unfold readNumber? at h
  split at h
  · exact wellFormed_of_readUnsigned? h
  · exact wellFormed_of_readUnsigned? h

end ControlNode.Json
