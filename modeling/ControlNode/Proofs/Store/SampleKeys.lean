import ControlNode.Proofs.Decimal.Digits
import ControlNode.Proofs.Text.Bytes
import ControlNode.Store.KeyTable

/-!
# Order of sample keys

The key of a sample is the object, a separator that no object contains, and the time in twenty
digits. Keys come in the order of the objects and then of the times, and the end key of an
object is behind its keys and before those of later objects, also where one object is the
beginning of another.
-/

namespace ControlNode.SampleKey

/-- Times that fit into 64 bits with a sign. -/
def InRange (time : Int) : Prop := Binary64.minInt64 ≤ time ∧ time ≤ Binary64.maxInt64

/-- An object whose name does not contain the separator. -/
def Unseparated (object : String) : Prop := separator ∉ object.toList

instance (time : Int) : Decidable (InRange time) := inferInstanceAs (Decidable (_ ∧ _))

instance (object : String) : Decidable (Unseparated object) := inferInstanceAs (Decidable (¬ _))

/-! ### Times -/

theorem shifted_lt_wordCount {time : Int} (h : InRange time) :
    shifted time < Binary64.wordCount := by
  obtain ⟨hmin, hmax⟩ := h
  unfold shifted Binary64.wordCount
  unfold Binary64.minInt64 at *
  unfold Binary64.maxInt64 at hmax
  omega

theorem shifted_lt_iff {t u : Int} (ht : InRange t) (hu : InRange u) :
    shifted t < shifted u ↔ t < u := by
  obtain ⟨ht, -⟩ := ht
  obtain ⟨hu, -⟩ := hu
  unfold shifted
  omega

theorem isDigit_padded {width n : Nat} {c : Char} (h : c ∈ padded width n) :
    c.isDigit = true := by
  rcases List.mem_append.mp h with h | h
  · rw [(List.mem_replicate.mp h).2]
    rfl
  · exact Decimal.isDigit_toDigits h

theorem length_padded {n : Nat} (h : n < Binary64.wordCount) : (padded 20 n).length = 20 := by
  have hlen : (Nat.toDigits 10 n).length ≤ 20 := by
    rw [Nat.length_toDigits_le_iff (by omega) (by omega)]
    unfold Binary64.wordCount at h
    omega
  simp only [padded, List.length_append, List.length_replicate]
  omega

theorem valueFrom_padded (width n : Nat) : Decimal.valueFrom 0 (padded width n) = n := by
  simp only [padded]
  rw [Decimal.valueFrom_zeros, Decimal.valueFrom_toDigits]

theorem padded_lt_iff {t u : Int} (ht : InRange t) (hu : InRange u) :
    padded 20 (shifted t) < padded 20 (shifted u) ↔ t < u := by
  have hlen : (padded 20 (shifted t)).length = (padded 20 (shifted u)).length := by
    rw [length_padded (shifted_lt_wordCount ht), length_padded (shifted_lt_wordCount hu)]
  rw [Decimal.lt_iff_valueFrom_lt (fun _ => isDigit_padded) (fun _ => isDigit_padded) hlen 0,
    valueFrom_padded, valueFrom_padded, shifted_lt_iff ht hu]

/-! ### Objects -/

theorem separator_lt {c : Char} (h : c ≠ separator) : separator < c := by
  have hz : separator.toNat = 0 := rfl
  have hne : c.toNat ≠ separator.toNat := fun heq => h (Char.toNat_inj.mp heq)
  show separator.toNat < c.toNat
  omega

theorem not_lt_separator (c : Char) : ¬ c < separator := by
  have hz : separator.toNat = 0 := rfl
  show ¬ c.toNat < separator.toNat
  omega

theorem separated_lt_iff {as bs xs ys : List Char} (ha : separator ∉ as) (hb : separator ∉ bs) :
    as ++ separator :: xs < bs ++ separator :: ys ↔ as < bs ∨ as = bs ∧ xs < ys := by
  induction as generalizing bs with
  | nil =>
    cases bs with
    | nil => simp
    | cons b bs =>
      have hlt : separator < b := separator_lt (fun h => hb (h ▸ List.mem_cons_self ..))
      simp [List.cons_lt_cons_iff, hlt]
  | cons a as ih =>
    have hane : a ≠ separator := fun h => ha (h ▸ List.mem_cons_self ..)
    cases bs with
    | nil => simp [List.cons_lt_cons_iff, hane, not_lt_separator]
    | cons b bs =>
      have has : separator ∉ as := fun h => ha (List.mem_cons_of_mem _ h)
      have hbs : separator ∉ bs := fun h => hb (List.mem_cons_of_mem _ h)
      have hrest := ih has hbs
      simp only [List.cons_append, List.cons_lt_cons_iff, List.cons.injEq, hrest]
      tauto

theorem separated_lt_end_iff {as bs xs : List Char} (ha : separator ∉ as) (hb : separator ∉ bs) :
    as ++ separator :: xs < bs ++ [Char.ofNat 1] ↔ ¬ bs < as := by
  induction as generalizing bs with
  | nil =>
    cases bs with
    | nil =>
      have hlt : separator < Char.ofNat 1 := by decide
      simp [List.cons_lt_cons_iff, hlt]
    | cons b bs =>
      have hlt : separator < b := separator_lt (fun h => hb (h ▸ List.mem_cons_self ..))
      simp [List.cons_lt_cons_iff, hlt]
  | cons a as ih =>
    cases bs with
    | nil =>
      have hne : a ≠ separator := fun h => ha (h ▸ List.mem_cons_self ..)
      have hnlt : ¬ a < Char.ofNat 1 := by
        have hlt := separator_lt hne
        have hz : separator.toNat = 0 := rfl
        have hone : (Char.ofNat 1).toNat = 1 := rfl
        show ¬ a.toNat < (Char.ofNat 1).toNat
        have hpos : separator.toNat < a.toNat := hlt
        omega
      simp [List.cons_lt_cons_iff, hnlt]
    | cons b bs =>
      have has : separator ∉ as := fun h => ha (List.mem_cons_of_mem _ h)
      have hbs : separator ∉ bs := fun h => hb (List.mem_cons_of_mem _ h)
      have hrest := ih has hbs
      simp only [List.cons_append, List.cons_lt_cons_iff, hrest]
      rcases lt_trichotomy a b with h | rfl | h
      · simp [h, not_lt_of_gt h, ne_of_gt h]
      · simp
      · simp [h, not_lt_of_gt h, ne_of_gt h]

/-! ### Keys -/

section Keys

variable {object other : String} {time : Int}

theorem toList_ofSample (object : String) (time : Int) :
    (ofSample object time).toList = object.toList ++ separator :: padded 20 (shifted time) :=
  String.toList_ofList

theorem ofSample_lt_iff (ho : Unseparated object) (hp : Unseparated other) {later : Int}
    (ht : InRange time) (hl : InRange later) :
    ofSample object time < ofSample other later ↔
      object < other ∨ object = other ∧ time < later := by
  rw [String.lt_iff_toList_lt, toList_ofSample, toList_ofSample, separated_lt_iff ho hp,
    padded_lt_iff ht hl, String.toList_inj, ← String.lt_iff_toList_lt]

theorem ofSample_lt_endOf_iff (ho : Unseparated object) (hp : Unseparated other) (time : Int) :
    ofSample object time < endOf other ↔ ¬ other < object := by
  rw [String.lt_iff_toList_lt, toList_ofSample, endOf, String.toList_ofList,
    separated_lt_end_iff ho hp, ← String.lt_iff_toList_lt]

theorem ofSample_inj (ho : Unseparated object) (hp : Unseparated other) {later : Int}
    (ht : InRange time) (hl : InRange later) :
    ofSample object time = ofSample other later ↔ object = other ∧ time = later := by
  constructor
  · intro h
    have hlt := (ofSample_lt_iff ho hp ht hl).not.mp (h ▸ lt_irrefl _)
    have hgt := (ofSample_lt_iff hp ho hl ht).not.mp (h ▸ lt_irrefl _)
    rcases lt_trichotomy object other with h | rfl | h
    · exact absurd (Or.inl h) hlt
    · have hle : ¬ time < later := fun h => hlt (Or.inr ⟨rfl, h⟩)
      have hge : ¬ later < time := fun h => hgt (Or.inr ⟨rfl, h⟩)
      exact ⟨rfl, by omega⟩
    · exact absurd (Or.inl h) hgt
  · rintro ⟨rfl, rfl⟩
    rfl

theorem split?_ofSample (ho : Unseparated object) (ht : InRange time) :
    split? (ofSample object time) = some (object, time) := by
  have hall : ∀ c ∈ object.toList, decide (c ≠ separator) = true := by
    intro c hc
    exact decide_eq_true fun h => ho (h ▸ hc)
  have hdrop : (ofSample object time).toList.dropWhile (· ≠ separator) =
      separator :: padded 20 (shifted time) := by
    rw [toList_ofSample, List.dropWhile_append_of_pos hall]
    simp
  have htake : (ofSample object time).toList.takeWhile (· ≠ separator) = object.toList := by
    rw [toList_ofSample, List.takeWhile_append_of_pos hall]
    simp
  have hlt := shifted_lt_wordCount ht
  have hne : padded 20 (shifted time) ≠ [] := by
    intro h
    have hlen := length_padded hlt
    simp [h] at hlen
  have hread : Decimal.readUInt64? (padded 20 (shifted time)) = some (shifted time) := by
    rw [Decimal.readUInt64?_of_isDigit hne (fun _ => isDigit_padded)
      (by rw [valueFrom_padded]; exact hlt), valueFrom_padded]
  have htime : (shifted time : Int) + Binary64.minInt64 = time := by
    obtain ⟨hmin, -⟩ := ht
    unfold shifted
    omega
  simp only [split?, hdrop, htake, hread, String.ofList_toList]
  show some (object, (shifted time : Int) + Binary64.minInt64) = some (object, time)
  rw [htime]

/-- Of all keys those of an object lie between its least one and its end. -/
theorem inKeyRange_iff (ho : Unseparated object) (hp : Unseparated other) (ht : InRange time) :
    (ofSample object Binary64.minInt64 ≤ ofSample other time ∧
      ofSample other time < endOf object) ↔ other = object := by
  have hleast : InRange Binary64.minInt64 := by decide
  rw [ofSample_lt_endOf_iff hp ho, ← not_lt, ofSample_lt_iff hp ho ht hleast]
  constructor
  · rintro ⟨hlow, hhigh⟩
    rcases lt_trichotomy other object with hlt | heq | hgt
    · exact absurd (Or.inl hlt) hlow
    · exact heq
    · exact absurd hgt hhigh
  · rintro rfl
    refine ⟨?_, lt_irrefl _⟩
    rintro (hlt | ⟨-, hlt⟩)
    · exact lt_irrefl _ hlt
    · exact absurd ht.1 (not_le_of_gt hlt)

/-- Keys give back what they were made of, come in the order of the times, and lie in the range
of their own object and of no other, by their bytes. -/
theorem ofSample_embeds (ho : Unseparated object) (hp : Unseparated other) (ht : InRange time)
    {later : Int} (hl : InRange later) :
    split? (ofSample object time) = some (object, time) ∧
      (Text.bytes (ofSample object time) < Text.bytes (ofSample object later) ↔ time < later) ∧
      (Text.bytes (ofSample object Binary64.minInt64) ≤ Text.bytes (ofSample object time) ∧
        Text.bytes (ofSample object time) < Text.bytes (endOf object)) ∧
      (object ≠ other →
        ¬ (Text.bytes (ofSample object Binary64.minInt64) ≤ Text.bytes (ofSample other time) ∧
          Text.bytes (ofSample other time) < Text.bytes (endOf object))) := by
  simp only [Text.bytes_lt_iff, Text.bytes_le_iff]
  refine ⟨split?_ofSample ho ht, ?_, (inKeyRange_iff ho ho ht).mpr rfl, fun hne hin => ?_⟩
  · rw [ofSample_lt_iff ho ho ht hl]
    constructor
    · rintro (hlt | ⟨-, hlt⟩)
      · exact absurd hlt (lt_irrefl _)
      · exact hlt
    · exact fun hlt => .inr ⟨rfl, hlt⟩
  · exact hne ((inKeyRange_iff ho hp ht).mp hin).symm

/-- The one object is the beginning of the other, which goes on with a control character. -/
theorem ofSample_embeds_beginning :
    Unseparated "p" ∧ Unseparated "p\x01" ∧ InRange (-5) ∧ InRange Binary64.maxInt64 ∧
      (Text.bytes (ofSample "p" (-5)) < Text.bytes (ofSample "p" Binary64.maxInt64)) ∧
      ¬ (Text.bytes (ofSample "p" Binary64.minInt64) ≤ Text.bytes (ofSample "p\x01" (-5)) ∧
        Text.bytes (ofSample "p\x01" (-5)) < Text.bytes (endOf "p")) := by
  have ho : Unseparated "p" := by decide
  have hp : Unseparated "p\x01" := by decide
  have ht : InRange (-5) := by decide
  have hl : InRange Binary64.maxInt64 := by decide
  obtain ⟨-, horder, -, hother⟩ := ofSample_embeds ho hp ht hl
  exact ⟨ho, hp, ht, hl, horder.mpr (by decide), hother (by decide)⟩

end Keys

end ControlNode.SampleKey
