import ControlNode.Decimal.Literal
import Mathlib.Data.List.TakeWhile
import Mathlib.Data.String.Basic
import Mathlib.Tactic.Ring

/-!
# Runs of digits

What a run of decimal digits denotes, and that runs of one length are ordered as their numbers.
-/

namespace ControlNode.Decimal

theorem valueFrom_cons (acc : Nat) (c : Char) (cs : List Char) :
    valueFrom acc (c :: cs) = valueFrom (acc * 10 + digitValue c) cs := by
  rw [valueFrom.eq_def acc (c :: cs)]

theorem valueFrom_eq (acc : Nat) (cs : List Char) :
    valueFrom acc cs = Nat.ofDigitChars 10 cs acc := by
  induction cs generalizing acc with
  | nil => rfl
  | cons c cs ih =>
    rw [valueFrom_cons, ih, Nat.ofDigitChars_cons, Nat.mul_comm acc 10]
    rfl

theorem valueFrom_toDigits (n : Nat) : valueFrom 0 (Nat.toDigits 10 n) = n := by
  rw [valueFrom_eq, Nat.ofDigitChars_toDigits (by omega) (by omega)]

theorem valueFrom_zeros (k : Nat) (cs : List Char) :
    valueFrom 0 (List.replicate k '0' ++ cs) = valueFrom 0 cs := by
  induction k with
  | zero => rfl
  | succ k ih =>
    rw [List.replicate_succ, List.cons_append, valueFrom_cons]
    exact ih

theorem isDigit_toDigits {n : Nat} {c : Char} (h : c ∈ Nat.toDigits 10 n) : c.isDigit = true :=
  Nat.isDigit_of_mem_toDigits (by omega) (by omega) h

theorem readDigits?_of_isDigit {cs : List Char} (hne : cs ≠ [])
    (h : ∀ c ∈ cs, c.isDigit = true) : readDigits? cs = some (valueFrom 0 cs) := by
  have hempty : cs.isEmpty = false := List.isEmpty_eq_false_iff.mpr hne
  have hall : cs.all Char.isDigit = true := List.all_eq_true.mpr h
  simp [readDigits?, hempty, hall]

theorem readUInt64?_of_isDigit {cs : List Char} (hne : cs ≠ [])
    (h : ∀ c ∈ cs, c.isDigit = true) (hlt : valueFrom 0 cs < Binary64.wordCount) :
    readUInt64? cs = some (valueFrom 0 cs) := by
  cases cs with
  | nil => exact absurd rfl hne
  | cons c cs =>
    have hc : c ≠ '+' := by
      rintro rfl
      exact absurd (h '+' (List.mem_cons_self ..)) (by decide)
    simp [readUInt64?, hc, readDigits?_of_isDigit hne h, hlt]

/-! ### Size -/

theorem digitValue_le {c : Char} (hc : c.isDigit = true) : digitValue c ≤ 9 := by
  obtain ⟨-, hc⟩ := Char.isDigit_iff_toNat.mp hc
  have hnine : '9'.toNat = 57 := rfl
  unfold digitValue
  omega

theorem valueFrom_lt {cs : List Char} (h : ∀ c ∈ cs, c.isDigit = true) (acc : Nat) :
    valueFrom acc cs < (acc + 1) * 10 ^ cs.length := by
  induction cs generalizing acc with
  | nil =>
    show acc < (acc + 1) * 10 ^ 0
    omega
  | cons c cs ih =>
    have hc := digitValue_le (h c (List.mem_cons_self ..))
    have hrest := ih (fun c hmem => h c (List.mem_cons_of_mem _ hmem)) (acc * 10 + digitValue c)
    calc valueFrom acc (c :: cs)
        < (acc * 10 + digitValue c + 1) * 10 ^ cs.length := by rw [valueFrom_cons]; exact hrest
      _ ≤ ((acc + 1) * 10) * 10 ^ cs.length := Nat.mul_le_mul_right _ (by omega)
      _ = (acc + 1) * 10 ^ (cs.length + 1) := by rw [Nat.pow_succ]; ring

/-- Only zero itself is written with a zero in front. -/
theorem head_toDigits {n : Nat} {cs : List Char} (h : Nat.toDigits 10 n = '0' :: cs) : cs = [] := by
  by_contra hne
  have hpos : 0 < cs.length := List.length_pos_of_ne_nil hne
  have hdigits : ∀ c ∈ cs, c.isDigit = true := fun c hc =>
    isDigit_toDigits (n := n) (h ▸ List.mem_cons_of_mem _ hc)
  have hvalue : valueFrom 0 cs = n := by
    have hall := valueFrom_toDigits n
    rw [h, valueFrom_cons] at hall
    exact hall
  have hlt : n < 10 ^ cs.length := by
    have hbound := valueFrom_lt hdigits 0
    rw [hvalue] at hbound
    omega
  have hlen := (Nat.length_toDigits_le_iff (by omega) hpos).mpr hlt
  rw [h, List.length_cons] at hlen
  omega

/-! ### Order -/

theorem digitValue_lt_iff {c d : Char} (hc : c.isDigit = true) (hd : d.isDigit = true) :
    c < d ↔ digitValue c < digitValue d := by
  obtain ⟨hc, -⟩ := Char.isDigit_iff_toNat.mp hc
  obtain ⟨hd, -⟩ := Char.isDigit_iff_toNat.mp hd
  have hzero : '0'.toNat = 48 := rfl
  have hlt : c < d ↔ c.toNat < d.toNat := Iff.rfl
  rw [hlt, digitValue, digitValue]
  omega

theorem valueFrom_lt_of_acc {xs ys : List Char} (hx : ∀ c ∈ xs, c.isDigit = true)
    (hlen : xs.length = ys.length) {a b : Nat} (h : a < b) : valueFrom a xs < valueFrom b ys := by
  induction xs generalizing ys a b with
  | nil =>
    rw [List.eq_nil_of_length_eq_zero hlen.symm]
    exact h
  | cons c xs ih =>
    cases ys with
    | nil => simp at hlen
    | cons d ys =>
      have hc := digitValue_le (hx c (List.mem_cons_self ..))
      simp only [List.length_cons, Nat.add_right_cancel_iff] at hlen
      exact ih (fun c hmem => hx c (List.mem_cons_of_mem _ hmem)) hlen (by omega)

/-- Runs of one length come in the order of what they denote. -/
theorem lt_iff_valueFrom_lt {xs ys : List Char} (hx : ∀ c ∈ xs, c.isDigit = true)
    (hy : ∀ c ∈ ys, c.isDigit = true) (hlen : xs.length = ys.length) (acc : Nat) :
    xs < ys ↔ valueFrom acc xs < valueFrom acc ys := by
  induction xs generalizing ys acc with
  | nil =>
    rw [List.eq_nil_of_length_eq_zero hlen.symm]
    simp
  | cons c xs ih =>
    cases ys with
    | nil => simp at hlen
    | cons d ys =>
      have hc := hx c (List.mem_cons_self ..)
      have hd := hy d (List.mem_cons_self ..)
      have hxs : ∀ c ∈ xs, c.isDigit = true := fun c hmem => hx c (List.mem_cons_of_mem _ hmem)
      have hys : ∀ d ∈ ys, d.isDigit = true := fun d hmem => hy d (List.mem_cons_of_mem _ hmem)
      simp only [List.length_cons, Nat.add_right_cancel_iff] at hlen
      rw [List.cons_lt_cons_iff, digitValue_lt_iff hc hd, valueFrom_cons, valueFrom_cons]
      rcases Nat.lt_trichotomy (digitValue c) (digitValue d) with hlt | heq | hgt
      · have hrest := valueFrom_lt_of_acc hxs hlen (a := acc * 10 + digitValue c)
          (b := acc * 10 + digitValue d) (by omega)
        exact iff_of_true (Or.inl hlt) hrest
      · have hcd : c = d := by
          rcases lt_trichotomy c d with h | h | h
          · have := (digitValue_lt_iff hc hd).mp h
            omega
          · exact h
          · have := (digitValue_lt_iff hd hc).mp h
            omega
        rw [← hcd, ← ih hxs hys hlen]
        simp
      · have hrest := valueFrom_lt_of_acc hys hlen.symm (a := acc * 10 + digitValue d)
          (b := acc * 10 + digitValue c) (by omega)
        have hne : c ≠ d := fun hcd => by rw [hcd] at hgt; omega
        refine iff_of_false ?_ (by omega)
        rintro (h | ⟨h, -⟩)
        · omega
        · exact hne h

end ControlNode.Decimal
