import ControlNode.Decimal.Layout
import ControlNode.Proofs.Decimal.Digits
import ControlNode.Proofs.Decimal.Shortest
import ControlNode.Proofs.Decimal.Whole
import Mathlib

/-!
# Reading back what was written

The text of a finite double is read as the same double, be it as an integer or as a number with
a fraction (`text_readsBack`). Only zeros are read without their sign.
-/

namespace ControlNode.Decimal

open Binary64

/-! ### Decimals with a sign -/

theorem toDouble_of_inInterval {x : Float} {negative : Bool} {m : Nat} {e : Int} (hm : 0 < m)
    (hx : parts x = .finite negative m e) {c : Nat} {k : Int} (hr : InInterval (c * 10 ^ k) m e) :
    toDouble negative c k = x := by
  obtain ⟨hc, he⟩ : Canonical m e ∧ e ≤ 971 := by
    rcases canonical_of_parts hx with ⟨hzero, -⟩ | hcanonical
    · omega
    · exact hcanonical
  obtain ⟨hlow, hhigh⟩ := hr.range hc he
  have hpos : 0 < c := by
    rcases Nat.eq_zero_or_pos c with rfl | hpos
    · have : (0 : ℚ) < 2 ^ (-1075 : Int) := by positivity
      rw [Nat.cast_zero, zero_mul] at hlow
      linarith
    · exact hpos
  have hpower : (0 : ℚ) < 10 ^ k := by positivity
  have htop : ¬((Nat.toDigits 10 c).length + k > 320) := by
    intro hlarge
    have hdigits : ((10 ^ (digitCount c - 1) : ℕ) : ℚ) ≤ c := by
      exact_mod_cast pow_le_of_digitCount hpos
    have hcount := digitCount_pos c
    change (digitCount c : Int) + k > 320 at hlarge
    have hbound : (10 : ℚ) ^ (320 : Int) ≤ c * 10 ^ k := by
      calc (10 : ℚ) ^ (320 : Int) ≤ 10 ^ (((digitCount c - 1 : ℕ) : Int) + k) :=
            zpow_le_zpow_right₀ (by norm_num) (by omega)
        _ = ((10 ^ (digitCount c - 1) : ℕ) : ℚ) * 10 ^ k := by
            rw [zpow_add₀ (by norm_num), zpow_natCast]
            norm_cast
        _ ≤ c * 10 ^ k := mul_le_mul_of_nonneg_right hdigits hpower.le
    have hless : (2 : ℚ) ^ (1024 : Int) ≤ 10 ^ (320 : Int) := by
      have : 2 ^ 1024 ≤ 10 ^ 320 := by decide +kernel
      exact_mod_cast this
    exact hhigh.not_ge (hless.trans hbound)
  have hbottom : ¬((Nat.toDigits 10 c).length + k < -330) := by
    intro hsmall
    have hdigits : (c : ℚ) < (10 ^ digitCount c : ℕ) := by exact_mod_cast lt_pow_digitCount c
    change (digitCount c : Int) + k < -330 at hsmall
    have hbound : (c : ℚ) * 10 ^ k < 10 ^ (-331 : Int) := by
      calc (c : ℚ) * 10 ^ k < ((10 ^ digitCount c : ℕ) : ℚ) * 10 ^ k :=
            mul_lt_mul_of_pos_right hdigits hpower
        _ = 10 ^ ((digitCount c : Int) + k) := by
            rw [zpow_add₀ (by norm_num), zpow_natCast]
            norm_cast
        _ ≤ 10 ^ (-331 : Int) := zpow_le_zpow_right₀ (by norm_num) (by omega)
    have hless : (10 : ℚ) ^ (-331 : Int) ≤ 2 ^ (-1075 : Int) := by
      have : 2 ^ 1075 ≤ 10 ^ 331 := by decide +kernel
      rw [zpow_neg, zpow_neg]
      exact inv_anti₀ (by positivity) (by exact_mod_cast this)
    exact hlow.not_gt (hbound.trans_le hless)
  have hexp : (if decide (k < 0) then -(k.natAbs : Int) else k.natAbs) = k := by
    split
    · rename_i hneg
      rw [decide_eq_true_eq] at hneg
      omega
    · rename_i hneg
      rw [decide_eq_true_eq] at hneg
      omega
  rw [← hexp] at hr
  have hsome : ¬(c == 0) = true := by simpa using hpos.ne'
  unfold toDouble
  simp only [if_neg hsome, if_neg htop, if_neg hbottom]
  cases negative with
  | true => exact neg_ofScientific_of_inInterval hm hx hr
  | false => exact ofScientific_of_inInterval hm hx hr

/-! ### Digits of a text -/

theorem valueFrom_append (acc : Nat) (xs ys : List Char) :
    valueFrom acc (xs ++ ys) = valueFrom (valueFrom acc xs) ys := by
  rw [valueFrom_eq, valueFrom_eq, valueFrom_eq, Nat.ofDigitChars_append]

theorem valueFrom_append_zeros (acc k : Nat) (cs : List Char) :
    valueFrom acc (cs ++ List.replicate k '0') = valueFrom acc cs * 10 ^ k := by
  rw [valueFrom_append]
  generalize valueFrom acc cs = n
  induction k generalizing n with
  | zero => exact (Nat.mul_one n).symm
  | succ k ih =>
    rw [List.replicate_succ, valueFrom_cons, ih, pow_succ]
    have hzero : digitValue '0' = 0 := rfl
    rw [hzero]
    ring

theorem exists_dropTrailingZeros (ds : List Char) :
    ∃ k, ds = dropTrailingZeros ds ++ List.replicate k '0' := by
  refine ⟨(ds.reverse.takeWhile (· == '0')).length, ?_⟩
  have hzeros : ds.reverse.takeWhile (· == '0') =
      List.replicate (ds.reverse.takeWhile (· == '0')).length '0' := by
    apply List.eq_replicate_of_mem
    intro c hc
    exact beq_iff_eq.mp (List.mem_takeWhile_imp (p := (· == '0')) hc)
  have hsplit := List.takeWhile_append_dropWhile (p := (· == '0')) (l := ds.reverse)
  unfold dropTrailingZeros
  rw [← List.reverse_replicate, ← hzeros, ← List.reverse_append, hsplit, List.reverse_reverse]

/-! ### Texts without an exponent -/

/-- A text of digits, perhaps with a fraction, and the number that it denotes. -/
inductive Positional : List Char → ℚ → Prop where
  | whole {ds : List Char} (hne : ds ≠ []) (hds : ∀ c ∈ ds, c.isDigit = true) :
    Positional ds (valueFrom 0 ds)
  | fraction {ds fs : List Char} (hne : ds ≠ []) (hds : ∀ c ∈ ds, c.isDigit = true)
      (hfs : ∀ c ∈ fs, c.isDigit = true) :
    Positional (ds ++ '.' :: fs) (valueFrom 0 (ds ++ fs) * 10 ^ (-(fs.length : Int)))

theorem isDigit_replicate {k : Nat} {c : Char} (h : c ∈ List.replicate k '0') :
    c.isDigit = true := by
  rw [List.eq_of_mem_replicate h]
  decide

/-- Digits are written in positional notation with the first of them at the exponent `e`. -/
theorem positional_positionalText {ds : List Char} (hne : ds ≠ [])
    (hds : ∀ c ∈ ds, c.isDigit = true) (e : Int) :
    Positional (positionalText "" ds e).toList
      (valueFrom 0 ds * 10 ^ (e + 1 - (ds.length : Int))) := by
  have hjoin {xs ys : List Char} (hx : ∀ c ∈ xs, c.isDigit = true)
      (hy : ∀ c ∈ ys, c.isDigit = true) : ∀ c ∈ xs ++ ys, c.isDigit = true := by
    intro c hc
    rcases List.mem_append.mp hc with hc | hc
    · exact hx c hc
    · exact hy c hc
  unfold positionalText
  split
  · -- zeros stand between the point and the digits
    rename_i hneg
    have htext : ("0." ++ String.ofList (List.replicate (-e - 1).toNat '0' ++ ds)).toList =
        ['0'] ++ '.' :: (List.replicate (-e - 1).toNat '0' ++ ds) := by
      simp only [String.toList_append, String.toList_ofList]
      rfl
    have hvalue : (valueFrom 0 ds : ℚ) * 10 ^ (e + 1 - (ds.length : Int)) =
        valueFrom 0 (['0'] ++ (List.replicate (-e - 1).toNat '0' ++ ds)) *
          10 ^ (-((List.replicate (-e - 1).toNat '0' ++ ds).length : Int)) := by
      have hzeros : valueFrom 0 (['0'] ++ (List.replicate (-e - 1).toNat '0' ++ ds)) =
          valueFrom 0 ds := valueFrom_zeros ((-e - 1).toNat + 1) ds
      have hexp : e + 1 - (ds.length : Int) =
          -((List.replicate (-e - 1).toNat '0' ++ ds).length : Int) := by
        rw [List.length_append, List.length_replicate]
        omega
      rw [hzeros, hexp]
    rw [htext, hvalue]
    have hzero : ∀ c ∈ ['0'], c.isDigit = true := fun c hc => isDigit_replicate (k := 1) hc
    exact .fraction (List.cons_ne_nil _ _) hzero (hjoin (fun _ => isDigit_replicate) hds)
  · rename_i hnonneg
    obtain ⟨k, rfl⟩ := Int.eq_ofNat_of_zero_le (Int.not_lt.mp hnonneg)
    dsimp only
    rw [Int.toNat_natCast]
    split
    · -- a whole number, with zeros behind the digits
      rename_i hle
      have htext : (String.ofList (ds ++ List.replicate (k + 1 - ds.length) '0') ++ "").toList =
          ds ++ List.replicate (k + 1 - ds.length) '0' := by
        rw [String.append_empty, String.toList_ofList]
      have hvalue : (valueFrom 0 ds : ℚ) * 10 ^ ((k : Int) + 1 - (ds.length : Int)) =
          valueFrom 0 (ds ++ List.replicate (k + 1 - ds.length) '0') := by
        have hexp : (k : Int) + 1 - (ds.length : Int) = ((k + 1 - ds.length : ℕ) : Int) := by omega
        rw [valueFrom_append_zeros, hexp, zpow_natCast]
        push_cast
        rfl
      rw [htext, hvalue]
      exact .whole (List.append_ne_nil_of_left_ne_nil hne _) (hjoin hds fun _ => isDigit_replicate)
    · -- the point stands among the digits
      rename_i hlt
      have htext : (String.ofList (ds.take (k + 1)) ++ "." ++
          String.ofList (ds.drop (k + 1))).toList = ds.take (k + 1) ++ '.' :: ds.drop (k + 1) := by
        simp only [String.toList_append, String.toList_ofList, List.append_assoc]
        rfl
      have hvalue : (valueFrom 0 ds : ℚ) * 10 ^ ((k : Int) + 1 - (ds.length : Int)) =
          valueFrom 0 (ds.take (k + 1) ++ ds.drop (k + 1)) *
            10 ^ (-((ds.drop (k + 1)).length : Int)) := by
        have hexp : (k : Int) + 1 - (ds.length : Int) = -((ds.drop (k + 1)).length : Int) := by
          rw [List.length_drop]
          omega
        rw [List.take_append_drop, hexp]
      have hfirst : ds.take (k + 1) ≠ [] := by
        cases ds with
        | nil => exact absurd rfl hne
        | cons d ds => exact List.cons_ne_nil _ _
      rw [htext, hvalue]
      exact .fraction hfirst (fun c hc => hds c (List.mem_of_mem_take hc))
        fun c hc => hds c (List.mem_of_mem_drop hc)

theorem positional_positiveText {m : Nat} {e : Int} (hc : Canonical m e) :
    ∃ r, Positional (plain.positiveText m e).toList r ∧ InInterval r m e := by
  obtain ⟨c, k, hshortest, hpos, hinterval⟩ := shortest_inInterval hc plain.tie
  refine ⟨c * 10 ^ k, ?_, hinterval⟩
  obtain ⟨zeros, hsplit⟩ := exists_dropTrailingZeros (digitChars c)
  have hvalue : c = valueFrom 0 (dropTrailingZeros (digitChars c)) * 10 ^ zeros := by
    rw [← valueFrom_append_zeros, ← hsplit]
    exact (valueFrom_toDigits c).symm
  have hlength : (digitChars c).length = (dropTrailingZeros (digitChars c)).length + zeros := by
    conv_lhs => rw [hsplit]
    rw [List.length_append, List.length_replicate]
  have hdigits : ∀ d ∈ dropTrailingZeros (digitChars c), d.isDigit = true := by
    intro d hd
    apply isDigit_toDigits (n := c)
    change d ∈ digitChars c
    rw [hsplit]
    exact List.mem_append_left _ hd
  have hne : dropTrailingZeros (digitChars c) ≠ [] := by
    intro hnil
    rw [hnil] at hvalue
    have hzero : valueFrom 0 [] * 10 ^ zeros = 0 := Nat.zero_mul _
    omega
  have htext : plain.positiveText m e = positionalText "" (dropTrailingZeros (digitChars c))
      (k + ((digitChars c).length : Int) - 1) := by
    unfold Layout.positiveText
    rw [hshortest]
    rfl
  have hnumber : (c : ℚ) * 10 ^ k = valueFrom 0 (dropTrailingZeros (digitChars c)) *
      10 ^ (k + ((digitChars c).length : Int) - 1 + 1 -
        ((dropTrailingZeros (digitChars c)).length : Int)) := by
    have hexp : k + ((digitChars c).length : Int) - 1 + 1 -
        ((dropTrailingZeros (digitChars c)).length : Int) = (zeros : Int) + k := by omega
    have hcast : (c : ℚ) = valueFrom 0 (dropTrailingZeros (digitChars c)) * 10 ^ zeros := by
      exact_mod_cast hvalue
    rw [hexp, zpow_add₀ (by norm_num), zpow_natCast]
    conv_lhs => rw [hcast]
    ring
  rw [htext, hnumber]
  exact positional_positionalText hne hdigits _

/-! ### Reading -/

theorem Positional.head {cs : List Char} {r : ℚ} (h : Positional cs r) :
    ∃ d rest, cs = d :: rest ∧ d.isDigit = true := by
  cases h with
  | whole hne hds =>
    obtain ⟨d, rest, rfl⟩ := List.exists_cons_of_ne_nil hne
    exact ⟨d, rest, rfl, hds d (List.mem_cons_self ..)⟩
  | fraction hne hds hfs =>
    obtain ⟨d, rest, rfl⟩ := List.exists_cons_of_ne_nil hne
    exact ⟨d, _, rfl, hds d (List.mem_cons_self ..)⟩

theorem splitSign_of_head {cs : List Char} {d : Char} {rest : List Char} (h : cs = d :: rest)
    (hd : d.isDigit = true) : splitSign cs = (false, cs) := by
  subst h
  unfold splitSign
  split
  · rename_i heq
    cases heq
    exact absurd hd (by decide)
  · rename_i heq
    cases heq
    exact absurd hd (by decide)
  · rfl

theorem Positional.splitSign {cs : List Char} {r : ℚ} (h : Positional cs r) (negative : Bool) :
    Decimal.splitSign (if negative then '-' :: cs else cs) = (negative, cs) := by
  cases negative with
  | true => rfl
  | false =>
    obtain ⟨d, rest, heq, hd⟩ := h.head
    exact splitSign_of_head heq hd

theorem takeWhile_isDigit {ds rest : List Char} (hds : ∀ c ∈ ds, c.isDigit = true)
    (hrest : ∀ c ∈ rest.head?, c.isDigit = false) :
    (ds ++ rest).takeWhile Char.isDigit = ds ∧ (ds ++ rest).dropWhile Char.isDigit = rest := by
  rw [List.takeWhile_append_of_pos hds, List.dropWhile_append_of_pos hds]
  cases rest with
  | nil => simp
  | cons c rest =>
    have hc : c.isDigit = false := hrest c rfl
    simp [hc]

theorem Positional.readUnsigned? {cs : List Char} {r : ℚ} (h : Positional cs r) :
    ∃ c k, Decimal.readUnsigned? cs = some (c, k) ∧ r = c * 10 ^ k := by
  cases h with
  | whole hne hds =>
    obtain ⟨htake, hdrop⟩ := @takeWhile_isDigit _ [] hds (by simp)
    rw [List.append_nil] at htake hdrop
    refine ⟨valueFrom 0 cs, 0, ?_, by simp⟩
    simp [Decimal.readUnsigned?, htake, hdrop, hne, readExponent?]
  | @fraction ds fs hne hds hfs =>
    obtain ⟨htake, hdrop⟩ := @takeWhile_isDigit _ ('.' :: fs) hds (by simp)
    obtain ⟨htake', hdrop'⟩ := @takeWhile_isDigit _ [] hfs (by simp)
    rw [List.append_nil] at htake' hdrop'
    refine ⟨valueFrom 0 (ds ++ fs), -(fs.length : Int), ?_, rfl⟩
    simp [Decimal.readUnsigned?, htake, hdrop, htake', hdrop', hne, readExponent?]

theorem toLower_of_isDigit {d : Char} (hd : d.isDigit = true) : d.toLower = d := by
  simp only [Char.isDigit, Bool.and_eq_true, decide_eq_true_eq] at hd
  unfold Char.toLower
  rw [dif_neg]
  rintro ⟨hupper, -⟩
  have hlow : 65 ≤ d.val.toNat := UInt32.le_iff_toNat_le.mp hupper
  have hhigh : d.val.toNat ≤ 57 := UInt32.le_iff_toNat_le.mp hd.2
  omega

theorem isWord_of_head {word : String} {w d : Char} {ws cs rest : List Char}
    (hword : word.toList = w :: ws) (hw : w.isDigit = false) (h : cs = d :: rest)
    (hd : d.isDigit = true) : isWord word cs = false := by
  have hlower := toLower_of_isDigit hd
  subst h
  rw [isWord, hword, List.map_cons, hlower]
  apply Bool.eq_false_iff.mpr
  intro heq
  have hsame := (List.cons.inj (beq_iff_eq.mp heq)).1
  rw [hsame, hw] at hd
  cases hd

theorem Positional.readDigits? {cs : List Char} {r : ℚ} (h : Positional cs r) {n : Nat}
    (hn : Decimal.readDigits? cs = some n) : (n : ℚ) = r := by
  cases h with
  | whole hne hds =>
    rw [readDigits?_of_isDigit hne hds] at hn
    cases hn
    rfl
  | fraction hne hds hfs =>
    unfold Decimal.readDigits? at hn
    split at hn
    · cases hn
    · rename_i hdigits
      simp at hdigits

section

variable {x : Float} {negative : Bool} {m : Nat} {e : Int} {cs : List Char} {r : ℚ}

theorem Positional.readDouble? (h : Positional cs r) (hm : 0 < m)
    (hx : parts x = .finite negative m e) (hr : InInterval r m e) :
    Decimal.readDouble? (if negative then '-' :: cs else cs) = some x := by
  obtain ⟨d, rest, heq, hd⟩ := h.head
  obtain ⟨c, k, hread, rfl⟩ := h.readUnsigned?
  have hinf : isWord "inf" cs = false := isWord_of_head rfl (by decide) heq hd
  have hinfinity : isWord "infinity" cs = false := isWord_of_head rfl (by decide) heq hd
  have hnan : isWord "nan" cs = false := isWord_of_head rfl (by decide) heq hd
  unfold Decimal.readDouble?
  rw [h.splitSign]
  simp only [hinf, hinfinity, hnan, hread, Bool.or_self, Bool.false_eq_true, if_false,
    Option.map_some]
  rw [toDouble_of_inInterval hm hx hr]

theorem Positional.ofInt_of_readInt64? (h : Positional cs r) (hm : 0 < m)
    (hx : parts x = .finite negative m e) (hr : InInterval r m e) {i : Int}
    (hi : readInt64? (if negative then '-' :: cs else cs) = some i) : ofInt i = x := by
  unfold readInt64? at hi
  rw [h.splitSign] at hi
  dsimp only at hi
  split at hi
  · cases hi
  · rename_i n hn
    have hvalue := h.readDigits? hn
    obtain ⟨hc, he⟩ : Canonical m e ∧ e ≤ 971 := by
      rcases canonical_of_parts hx with ⟨hzero, -⟩ | hcanonical
      · omega
      · exact hcanonical
    have hpos : 0 < n := by
      have hlow : (0 : ℚ) < 2 ^ (-1075 : Int) := by positivity
      have : (0 : ℚ) < n := by
        rw [hvalue]
        exact hlow.trans_le (hr.range hc he).1
      exact_mod_cast this
    rw [← hvalue] at hr
    obtain ⟨-, hsome⟩ := Option.ite_none_right_eq_some.mp hi
    rw [← Option.some.inj hsome]
    exact ofInt_of_inInterval hm hx hpos hr

end

/-- The text of a finite double that is not zero reads as the same double, be it as an integer
or as a number with a fraction. -/
theorem text_readsBack {x : Float} {negative : Bool} {m : Nat} {e : Int} (hm : 0 < m)
    (hx : parts x = .finite negative m e) :
    (∀ i, readInt64? (plain.text x).toList = some i → ofInt i = x) ∧
      readDouble? (plain.text x).toList = some x := by
  obtain ⟨hc, -⟩ : Canonical m e ∧ e ≤ 971 := by
    rcases canonical_of_parts hx with ⟨hzero, -⟩ | hcanonical
    · omega
    · exact hcanonical
  obtain ⟨r, hpositional, hr⟩ := positional_positiveText hc
  have htext : (plain.text x).toList =
      if negative then '-' :: (plain.positiveText m e).toList
      else (plain.positiveText m e).toList := by
    have hsome : ¬(m == 0) = true := by simpa using hm.ne'
    unfold Layout.text
    rw [hx]
    simp only [if_neg hsome]
    cases negative with
    | true =>
      simp only [if_true, String.toList_append]
      rfl
    | false => simp
  rw [htext]
  exact ⟨fun i hi => hpositional.ofInt_of_readInt64? hm hx hr hi,
    hpositional.readDouble? hm hx hr⟩

end ControlNode.Decimal
