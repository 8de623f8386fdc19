import ControlNode.Json.Parser
import ControlNode.Json.Printer
import ControlNode.Proofs.Decimal.Digits
import Mathlib.Data.List.DropRight
import Mathlib.Tactic.IntervalCases

/-!
# Texts of JSON values are read back

The indented text of a value without doubles is read as the value: its strings, its integers
and, by induction on the value, its lists and objects.
-/

namespace ControlNode.Json

/-! ### Strings -/

theorem hexValue?_hexDigit (n : Nat) : hexValue? (hexDigit n) = some (n % 16) := by
  have hlt : n % 16 < 16 := Nat.mod_lt _ (by omega)
  unfold hexDigit
  interval_cases n % 16 <;> rfl

theorem unicodeEscape?_control {c : Char} (h : c.toNat < 32) (cs : List Char) :
    unicodeEscape? ('0' :: '0' :: hexDigit (c.toNat / 16) :: hexDigit c.toNat :: cs) =
      some (c, cs) := by
  have hzero : hexValue? '0' = some 0 := by decide
  have hunit : c.toNat / 16 % 16 * 16 + c.toNat % 16 = c.toNat := by omega
  have hlow : ¬ 0xD800 ≤ c.toNat := by omega
  have hmiddle : ¬ 0xDC00 ≤ c.toNat := by omega
  simp [unicodeEscape?, hexUnit?, hzero, hexValue?_hexDigit, hunit, hlow, hmiddle]

theorem readString?_letter {c letter : Char} (fuel : Nat) (acc cs : List Char)
    (h : letterEscape? letter = some c) :
    readString? (fuel + 1) acc ('\\' :: letter :: cs) = readString? fuel (c :: acc) cs := by
  have hu : letter ≠ 'u' := by
    rintro rfl
    cases h
  simp [readString?, h]

theorem readString?_plain {c : Char} (fuel : Nat) (acc cs : List Char) (hquote : c ≠ '"')
    (hslash : c ≠ '\\') (hcontrol : ¬ c.toNat < 32) :
    readString? (fuel + 1) acc (c :: cs) = readString? fuel (c :: acc) cs := by
  rw [readString?]
  · simp [hslash, hcontrol]
  all_goals simp [hquote, hslash]

theorem readString?_escapeChar (fuel : Nat) (acc : List Char) (c : Char) (cs : List Char) :
    readString? (fuel + 1) acc (escapeChar c ++ cs) = readString? fuel (c :: acc) cs := by
  unfold escapeChar
  simp only [beq_iff_eq]
  by_cases hquote : c = '"'
  · subst hquote
    exact readString?_letter fuel acc cs (by decide)
  by_cases hslash : c = '\\'
  · subst hslash
    exact readString?_letter fuel acc cs (by decide)
  by_cases hline : c = '\n'
  · subst hline
    exact readString?_letter fuel acc cs (by decide)
  by_cases hreturn : c = '\r'
  · subst hreturn
    exact readString?_letter fuel acc cs (by decide)
  by_cases htab : c = '\t'
  · subst htab
    exact readString?_letter fuel acc cs (by decide)
  rw [if_neg hquote, if_neg hslash, if_neg hline, if_neg hreturn, if_neg htab]
  by_cases hback : c.toNat = 8
  · rw [if_pos hback]
    have hc : letterEscape? 'b' = some c := by
      rw [← Char.ofNat_toNat c, hback]
      decide
    exact readString?_letter fuel acc cs hc
  by_cases hfeed : c.toNat = 12
  · rw [if_neg hback, if_pos hfeed]
    have hc : letterEscape? 'f' = some c := by
      rw [← Char.ofNat_toNat c, hfeed]
      decide
    exact readString?_letter fuel acc cs hc
  rw [if_neg hback, if_neg hfeed]
  by_cases hcontrol : c.toNat < 32
  · rw [if_pos hcontrol]
    have hunit := unicodeEscape?_control hcontrol cs
    simp [readString?, hunit]
  · rw [if_neg hcontrol]
    exact readString?_plain fuel acc cs hquote hslash hcontrol

theorem readString?_escaped (s : List Char) (acc rest : List Char) {fuel : Nat}
    (h : s.length < fuel) :
    readString? fuel acc (s.flatMap escapeChar ++ '"' :: rest) =
      some (String.ofList (acc.reverse ++ s), rest) := by
  induction s generalizing acc fuel with
  | nil =>
    obtain ⟨fuel, rfl⟩ := Nat.exists_eq_add_one.mpr h
    simp [readString?]
  | cons c s ih =>
    rw [List.length_cons] at h
    obtain ⟨fuel, rfl⟩ := Nat.exists_eq_add_one.mpr (Nat.zero_lt_of_lt h)
    rw [List.flatMap_cons, List.append_assoc, readString?_escapeChar, ih (c :: acc) (by omega)]
    simp

theorem length_le_escaped (s : List Char) : s.length ≤ (s.flatMap escapeChar).length := by
  have hpos (c : Char) : 1 ≤ (escapeChar c).length := by
    unfold escapeChar
    repeat' split
    all_goals simp
  induction s with
  | nil => exact Nat.le_refl _
  | cons c s ih =>
    have hc := hpos c
    rw [List.flatMap_cons, List.length_append, List.length_cons]
    omega

theorem readString?_quote (s : String) (rest : List Char) :
    ∃ cs, (quote s).toList ++ rest = '"' :: cs ∧
      readString? (cs.length + 1) [] cs = some (s, rest) := by
  refine ⟨s.toList.flatMap escapeChar ++ '"' :: rest, by simp [quote], ?_⟩
  have hlen := length_le_escaped s.toList
  rw [readString?_escaped]
  · simp
  · rw [List.length_append]
    omega

/-! ### Integers -/

/-- A text that starts with nothing that could belong to a number before it. -/
def Ends (rest : List Char) : Prop :=
  ∀ c ∈ rest.head?, c.isDigit = false ∧ c ≠ '.' ∧ c ≠ 'e' ∧ c ≠ 'E'

theorem spanDigits_append {ds rest : List Char} (hds : ∀ c ∈ ds, c.isDigit = true)
    (hrest : Ends rest) : spanDigits (ds ++ rest) = (ds, rest) := by
  have hnone : rest.takeWhile Char.isDigit = [] ∧ rest.dropWhile Char.isDigit = rest := by
    cases rest with
    | nil => exact ⟨rfl, rfl⟩
    | cons c rest => simp [(hrest c rfl).1]
  rw [spanDigits, List.takeWhile_append_of_pos hds, List.dropWhile_append_of_pos hds, hnone.1,
    hnone.2, List.append_nil]

theorem readExponent?_of_ends {rest : List Char} (h : Ends rest) :
    readExponent? rest = some (none, rest) := by
  cases rest with
  | nil => rfl
  | cons c rest =>
    obtain ⟨-, -, he, hE⟩ := h c rfl
    simp [readExponent?, he, hE]

theorem readFraction?_of_ends {rest : List Char} (h : Ends rest) :
    readFraction? rest = some (none, rest) := by
  unfold readFraction?
  split
  · exact absurd rfl (h '.' rfl).2.1
  · rfl

theorem le_valueFrom (n : Nat) (ds : List Char) : n ≤ Decimal.valueFrom n ds := by
  induction ds generalizing n with
  | nil => exact Nat.le_refl n
  | cons c ds ih =>
    rw [Decimal.valueFrom_cons]
    have := ih (n * 10 + Decimal.digitValue c)
    omega

/-- No digit of a number of 64 bits is left over. -/
theorem fillWord_of_lt {n : Nat} {ds : List Char}
    (h : Decimal.valueFrom n ds < Binary64.wordCount) :
    fillWord n ds = (Decimal.valueFrom n ds, []) := by
  induction ds generalizing n with
  | nil => rfl
  | cons c ds ih =>
    rw [Decimal.valueFrom_cons] at h ⊢
    have hnext := Nat.lt_of_le_of_lt (le_valueFrom (n * 10 + Decimal.digitValue c) ds) h
    rw [fillWord, if_pos hnext]
    exact ih h

theorem readUnsigned?_toDigits (negative : Bool) {n : Nat} (hn : n < Binary64.wordCount) {j : Json}
    {rest : List Char} (h : integerValue negative n = some j) (hrest : Ends rest) :
    readUnsigned? negative (Nat.toDigits 10 n ++ rest) = some (j, rest) := by
  have hspan : spanDigits (Nat.toDigits 10 n ++ rest) = (Nat.toDigits 10 n, rest) :=
    spanDigits_append (fun _ => Decimal.isDigit_toDigits) hrest
  have hne : Nat.toDigits 10 n ≠ [] := Nat.toDigits_ne_nil
  have hone : (Nat.toDigits 10 n).head? = some '0' → (Nat.toDigits 10 n).length = 1 := by
    intro hhead
    obtain ⟨cs, hds⟩ := List.head?_eq_some_iff.mp hhead
    rw [hds, Decimal.head_toDigits hds]
    rfl
  have hvalue : numberValue negative (Nat.toDigits 10 n) none none = some j := by
    have hdigits := Decimal.valueFrom_toDigits n
    have hword : fillWord 0 (Nat.toDigits 10 n) = (n, []) := by
      rw [fillWord_of_lt (hdigits.symm ▸ hn), hdigits]
    rw [numberValue, hword, ← h]
  simp only [readUnsigned?, hspan, readFraction?_of_ends hrest]
  simpa [hne, readExponent?_of_ends hrest, hvalue] using hone

theorem toList_ofNat (m : Nat) : (toString (Int.ofNat m)).toList = Nat.toDigits 10 m := by
  show (Nat.repr m).toList = Nat.toDigits 10 m
  simp [Nat.repr]

theorem toList_negSucc (m : Nat) :
    (toString (Int.negSucc m)).toList = '-' :: Nat.toDigits 10 (m + 1) := by
  show ("-" ++ Nat.repr (m + 1)).toList = '-' :: Nat.toDigits 10 (m + 1)
  simp [Nat.repr]

theorem exists_head_toString (n : Int) :
    ∃ c cs, (toString n).toList = c :: cs ∧ (c = '-' ∨ c.isDigit = true) := by
  cases n with
  | ofNat m =>
    obtain ⟨c, cs, hds⟩ := List.exists_cons_of_ne_nil (Nat.toDigits_ne_nil (n := m) (b := 10))
    refine ⟨c, cs, (toList_ofNat m).trans hds, Or.inr ?_⟩
    exact Decimal.isDigit_toDigits (n := m) (hds ▸ List.mem_cons_self ..)
  | negSucc m => exact ⟨'-', Nat.toDigits 10 (m + 1), toList_negSucc m, Or.inl rfl⟩

theorem readNumber?_toString {n : Int} (hmin : Binary64.minInt64 ≤ n)
    (hmax : n < Binary64.wordCount) {rest : List Char} (hrest : Ends rest) :
    readNumber? ((toString n).toList ++ rest) = some (.int n, rest) := by
  unfold Binary64.minInt64 at hmin
  cases n with
  | ofNat m =>
    have hlt : m < Binary64.wordCount := Int.ofNat_lt.mp hmax
    have hvalue : integerValue false m = some (.int (Int.ofNat m)) := rfl
    have hminus : ∀ cs, Nat.toDigits 10 m ++ rest ≠ '-' :: cs := by
      intro cs hcs
      cases hds : Nat.toDigits 10 m with
      | nil => exact Nat.toDigits_ne_nil hds
      | cons c ds =>
        rw [hds, List.cons_append] at hcs
        cases hcs
        have hdigit := Decimal.isDigit_toDigits (n := m) (hds ▸ List.mem_cons_self ..)
        exact absurd hdigit (by decide)
    rw [toList_ofNat, readNumber?]
    · exact readUnsigned?_toDigits false hlt hvalue hrest
    · exact hminus
  | negSucc m =>
    have hle : m + 1 ≤ Binary64.pow2 63 := by
      have hpow : Binary64.pow2 63 = 9223372036854775808 := by decide
      rw [hpow]
      omega
    have hvalue : integerValue true (m + 1) = some (.int (Int.negSucc m)) := by
      simp [integerValue, hle, Int.negSucc_eq]
    have hlt : m + 1 < Binary64.wordCount := Nat.lt_of_le_of_lt hle (by decide)
    rw [toList_negSucc, List.cons_append, readNumber?, readUnsigned?_toDigits true hlt hvalue hrest]

/-! ### Blanks -/

theorem skipSpace_cons {c : Char} (h : isSpace c = false) (cs : List Char) :
    skipSpace (c :: cs) = c :: cs := by
  simp [skipSpace, h]

theorem skipSpace_skipSpace (cs : List Char) : skipSpace (skipSpace cs) = skipSpace cs :=
  List.dropWhile_idempotent _ _

theorem skipSpace_newline (depth : Nat) (cs : List Char) :
    skipSpace ((newline depth).toList ++ cs) = skipSpace cs := by
  have hblank : ∀ c ∈ (newline depth).toList, isSpace c = true := by
    intro c hc
    simp only [newline, String.toList_append, String.toList_ofList, List.mem_append,
      List.mem_replicate] at hc
    rcases hc with hc | ⟨-, rfl⟩
    · rw [show "\n".toList = ['\n'] from rfl, List.mem_singleton] at hc
      rw [hc]
      rfl
    · rfl
  rw [skipSpace, List.dropWhile_append_of_pos hblank]
  rfl

theorem readValue?_skipSpace (fuel depth : Nat) (cs : List Char) :
    readValue? fuel depth (skipSpace cs) = readValue? fuel depth cs := by
  cases fuel with
  | zero => rfl
  | succ fuel => rw [readValue?, readValue?, skipSpace_skipSpace]

theorem readValue?_newline (fuel depth level : Nat) (cs : List Char) :
    readValue? fuel depth ((newline level).toList ++ cs) = readValue? fuel depth cs := by
  rw [← readValue?_skipSpace, skipSpace_newline, readValue?_skipSpace]

theorem readValue?_space (fuel depth : Nat) (cs : List Char) :
    readValue? fuel depth (' ' :: cs) = readValue? fuel depth cs := by
  rw [← readValue?_skipSpace, ← readValue?_skipSpace fuel depth cs]
  rfl

theorem readItems?_skipSpace (fuel depth : Nat) (acc : List Json) (cs : List Char) :
    readItems? fuel depth acc (skipSpace cs) = readItems? fuel depth acc cs := by
  cases fuel with
  | zero => rfl
  | succ fuel => rw [readItems?, readItems?, readValue?_skipSpace]

theorem readFields?_skipSpace (fuel depth : Nat) (acc : List (String × Json)) (cs : List Char) :
    readFields? fuel depth acc (skipSpace cs) = readFields? fuel depth acc cs := by
  cases fuel with
  | zero => rfl
  | succ fuel => rw [readFields?, readFields?, skipSpace_skipSpace]

/-! ### Values -/

mutual

/-- A value without doubles, with integers of 64 bits and with at most `depth` nested levels. -/
def isPlain (depth : Nat) : Json → Bool
  | .arr items => 0 < depth && isPlainItems (depth - 1) items
  | .obj fields => 0 < depth && isPlainFields (depth - 1) fields
  | .int n => Binary64.minInt64 ≤ n && n < Binary64.wordCount
  | .float _ => false
  | .null => true
  | .bool _ => true
  | .str _ => true
termination_by structural j => j

def isPlainItems (depth : Nat) : List Json → Bool
  | [] => true
  | a :: as => isPlain depth a && isPlainItems depth as
termination_by structural as => as

def isPlainFields (depth : Nat) : List (String × Json) → Bool
  | [] => true
  | (_, a) :: as => isPlain depth a && isPlainFields depth as
termination_by structural as => as

end

theorem ne_of_number {c d : Char} (hc : c = '-' ∨ c.isDigit = true) (hd : d.isDigit = false)
    (hminus : d ≠ '-') : c ≠ d := by
  rintro rfl
  rcases hc with rfl | hc
  · exact hminus rfl
  · rw [hd] at hc
    cases hc

theorem isSpace_of_number {c : Char} (hc : c = '-' ∨ c.isDigit = true) : isSpace c = false := by
  have hne (d : Char) (hd : d.isDigit = false) (hminus : d ≠ '-') := ne_of_number hc hd hminus
  simp [isSpace, hne ' ' (by decide) (by decide), hne '\n' (by decide) (by decide),
    hne '\t' (by decide) (by decide), hne '\r' (by decide) (by decide)]

theorem readValue?_number {c : Char} (hc : c = '-' ∨ c.isDigit = true) (fuel depth : Nat)
    (cs : List Char) : readValue? (fuel + 1) depth (c :: cs) = readNumber? (c :: cs) := by
  have hne (d : Char) (hd : d.isDigit = false) (hminus : d ≠ '-') := ne_of_number hc hd hminus
  rw [readValue?, skipSpace_cons (isSpace_of_number hc)]
  split
  · rename_i heq
    cases heq
    exact absurd rfl (hne '"' (by decide) (by decide))
  · rename_i heq
    cases heq
    exact absurd rfl (hne '[' (by decide) (by decide))
  · rename_i heq
    cases heq
    exact absurd rfl (hne '\x7b' (by decide) (by decide))
  · rename_i heq
    cases heq
    exact absurd rfl (hne 'n' (by decide) (by decide))
  · rename_i heq
    cases heq
    exact absurd rfl (hne 't' (by decide) (by decide))
  · rename_i heq
    cases heq
    exact absurd rfl (hne 'f' (by decide) (by decide))
  · rfl

theorem readValue?_int {n : Int} (hmin : Binary64.minInt64 ≤ n) (hmax : n < Binary64.wordCount)
    (fuel depth : Nat) {rest : List Char} (hrest : Ends rest) :
    readValue? (fuel + 1) depth ((toString n).toList ++ rest) = some (.int n, rest) := by
  have hread := readNumber?_toString hmin hmax hrest
  obtain ⟨c, cs, htext, hc⟩ := exists_head_toString n
  rw [htext, List.cons_append] at hread ⊢
  rw [readValue?_number hc, hread]

theorem exists_head_indented {depth : Nat} {j : Json} (h : j.isPlain depth = true) (level : Nat) :
    ∃ c cs, (indented level j).toList = c :: cs ∧ isSpace c = false ∧ c ≠ ']' := by
  cases j with
  | null => exact ⟨'n', "ull".toList, by simp [indented, scalarText], by decide, by decide⟩
  | bool b =>
    cases b with
    | false => exact ⟨'f', "alse".toList, by simp [indented, scalarText], by decide, by decide⟩
    | true => exact ⟨'t', "rue".toList, by simp [indented, scalarText], by decide, by decide⟩
  | float x => cases h
  | int n =>
    obtain ⟨c, cs, htext, hc⟩ := exists_head_toString n
    exact ⟨c, cs, htext, isSpace_of_number hc, ne_of_number hc (by decide) (by decide)⟩
  | str s => exact ⟨'"', _, by simp [indented, scalarText, quote]; rfl, by decide, by decide⟩
  | arr items =>
    cases items with
    | nil => exact ⟨'[', [']'], by simp [indented], by decide, by decide⟩
    | cons a as => exact ⟨'[', _, by simp [indented]; rfl, by decide, by decide⟩
  | obj fields =>
    cases fields with
    | nil => exact ⟨'\x7b', ['\x7d'], by simp [indented], by decide, by decide⟩
    | cons e fields => exact ⟨'\x7b', _, by simp [indented]; rfl, by decide, by decide⟩

theorem readValue?_bracket {cs : List Char} (h : ∀ tail, skipSpace cs ≠ ']' :: tail)
    (fuel depth : Nat) :
    readValue? (fuel + 1) (depth + 1) ('[' :: cs) =
      (readItems? fuel depth [] cs).map fun (items, r) => (.arr items, r) := by
  rw [readValue?, skipSpace_cons rfl]
  simp only [readItems?_skipSpace]

theorem readValue?_brace {cs : List Char} (h : ∀ tail, skipSpace cs ≠ '\x7d' :: tail)
    (fuel depth : Nat) :
    readValue? (fuel + 1) (depth + 1) ('\x7b' :: cs) =
      (readFields? fuel depth [] cs).map fun (fields, r) => (.obj fields, r) := by
  rw [readValue?, skipSpace_cons rfl]
  simp only [readFields?_skipSpace]

section Items

variable {fuel depth : Nat} {cs tail rest : List Char} {a : Json}

theorem readItems?_next (acc : List Json) (h : readValue? fuel depth cs = some (a, tail))
    (htail : skipSpace tail = ',' :: rest) :
    readItems? (fuel + 1) depth acc cs = readItems? fuel depth (a :: acc) rest := by
  simp [readItems?, h, htail]

theorem readItems?_last (acc : List Json) (h : readValue? fuel depth cs = some (a, tail))
    (htail : skipSpace tail = ']' :: rest) :
    readItems? (fuel + 1) depth acc cs = some ((a :: acc).reverse, rest) := by
  simp [readItems?, h, htail]

theorem readFields?_next (acc : List (String × Json)) (level : Nat) (k : String)
    (h : readValue? fuel depth cs = some (a, tail)) (htail : skipSpace tail = ',' :: rest) :
    readFields? (fuel + 1) depth acc ((newline level).toList ++ (quote k).toList ++ ':' :: cs) =
      readFields? fuel depth ((k, a) :: acc) rest := by
  obtain ⟨text, htext, hread⟩ := readString?_quote k (':' :: cs)
  rw [readFields?, List.append_assoc, skipSpace_newline, htext, skipSpace_cons rfl]
  simp [hread, skipSpace_cons (c := ':') rfl, h, htail]

theorem readFields?_last (acc : List (String × Json)) (level : Nat) (k : String)
    (h : readValue? fuel depth cs = some (a, tail)) (htail : skipSpace tail = '\x7d' :: rest) :
    readFields? (fuel + 1) depth acc ((newline level).toList ++ (quote k).toList ++ ':' :: cs) =
      some (((k, a) :: acc).reverse, rest) := by
  obtain ⟨text, htext, hread⟩ := readString?_quote k (':' :: cs)
  rw [readFields?, List.append_assoc, skipSpace_newline, htext, skipSpace_cons rfl]
  simp [hread, skipSpace_cons (c := ':') rfl, h, htail]

end Items

theorem ends_comma (rest : List Char) : Ends (',' :: rest) := by
  rintro c ⟨⟩
  decide

theorem ends_newline (level : Nat) (rest : List Char) : Ends ((newline level).toList ++ rest) := by
  have hhead : ((newline level).toList ++ rest).head? = some '\n' := by simp [newline]
  intro c hc
  rw [hhead] at hc
  cases hc
  decide

theorem length_newline (level : Nat) : (newline level).toList.length = 2 * level + 1 := by
  simp [newline]

theorem skipSpace_indentedItems {depth : Nat} {a : Json} (h : a.isPlain depth = true)
    (as : List Json)
    (level : Nat) (rest tail : List Char) :
    skipSpace ((indentedItems level (a :: as)).toList ++ rest) ≠ ']' :: tail := by
  obtain ⟨c, cs, hhead, hspace, hc⟩ := exists_head_indented h level
  have hskip (more : List Char) :
      skipSpace ((newline level).toList ++ ((indented level a).toList ++ more)) =
        c :: (cs ++ more) := by
    rw [skipSpace_newline, hhead, List.cons_append, skipSpace_cons hspace]
  intro heq
  cases as with
  | nil =>
    simp only [indentedItems, String.toList_append, List.append_assoc] at heq
    rw [hskip] at heq
    exact hc (List.cons.inj heq).1
  | cons b as =>
    simp only [indentedItems, String.toList_append, List.append_assoc] at heq
    rw [hskip] at heq
    exact hc (List.cons.inj heq).1

theorem skipSpace_indentedFields (e : String × Json) (fields : List (String × Json))
    (level : Nat) (rest tail : List Char) :
    skipSpace ((indentedFields level (e :: fields)).toList ++ rest) ≠ '\x7d' :: tail := by
  obtain ⟨k, a⟩ := e
  have hskip (more : List Char) :
      skipSpace ((newline level).toList ++ ((quote k).toList ++ more)) ≠ '\x7d' :: tail := by
    obtain ⟨cs, htext, -⟩ := readString?_quote k more
    rw [skipSpace_newline, htext, skipSpace_cons rfl]
    simp
  cases fields with
  | nil =>
    simp only [indentedFields, String.toList_append, List.append_assoc]
    exact hskip _
  | cons x fields =>
    simp only [indentedFields, String.toList_append, List.append_assoc]
    exact hskip _

mutual

theorem readValue?_indented {depth : Nat} {j : Json} (h : j.isPlain depth = true) (level : Nat)
    {fuel : Nat} (hfuel : 2 * (indented level j).toList.length ≤ fuel) {rest : List Char}
    (hrest : Ends rest) :
    readValue? fuel depth ((indented level j).toList ++ rest) = some (j, rest) := by
  obtain ⟨c, cs, hhead, -, -⟩ := exists_head_indented h level
  obtain ⟨fuel, rfl⟩ : ∃ n, fuel = n + 1 := by
    rw [hhead, List.length_cons] at hfuel
    exact ⟨fuel - 1, by omega⟩
  cases j with
  | null => simp [indented, scalarText, readValue?, skipSpace, isSpace, afterWord?]
  | bool b => cases b <;> simp [indented, scalarText, readValue?, skipSpace, isSpace, afterWord?]
  | int n =>
    simp only [isPlain, Bool.and_eq_true, decide_eq_true_eq] at h
    exact readValue?_int h.1 h.2 fuel depth hrest
  | float x => cases h
  | str s =>
    obtain ⟨cs, htext, hread⟩ := readString?_quote s rest
    rw [indented, scalarText, htext, readValue?, skipSpace_cons rfl]
    simp only [hread, Option.map_some]
  | arr items =>
    simp only [isPlain, Bool.and_eq_true, decide_eq_true_eq] at h
    obtain ⟨depth, rfl⟩ := Nat.exists_eq_add_one.mpr h.1
    cases items with
    | nil => simp [indented, readValue?, skipSpace, isSpace]
    | cons a as =>
      simp only [indented, String.toList_append, List.length_append] at hfuel
      have hlen : 2 * (indentedItems (level + 1) (a :: as)).toList.length ≤ fuel := by
        simp at hfuel
        omega
      have hitems : isPlain depth a = true := (Bool.and_eq_true_iff.mp h.2).1
      have hopen := skipSpace_indentedItems hitems as (level + 1)
        ((newline level).toList ++ ']' :: rest)
      have hread := readItems?_indented h.2 (level + 1) level [] hlen rest
      rw [Nat.add_sub_cancel] at hread
      simp only [indented, String.toList_append, List.append_assoc] at hread ⊢
      simp only [String.reduceToList, List.cons_append, List.nil_append]
      rw [readValue?_bracket hopen, hread]
      rfl
  | obj fields =>
    simp only [isPlain, Bool.and_eq_true, decide_eq_true_eq] at h
    obtain ⟨depth, rfl⟩ := Nat.exists_eq_add_one.mpr h.1
    cases fields with
    | nil => simp [indented, readValue?, skipSpace, isSpace]
    | cons e fields =>
      obtain ⟨k, a⟩ := e
      simp only [indented, String.toList_append, List.length_append] at hfuel
      have hlen : 2 * (indentedFields (level + 1) ((k, a) :: fields)).toList.length ≤ fuel := by
        simp at hfuel
        omega
      have hopen := skipSpace_indentedFields (k, a) fields (level + 1)
        ((newline level).toList ++ '\x7d' :: rest)
      have hread := readFields?_indented h.2 (level + 1) level [] hlen rest
      rw [Nat.add_sub_cancel] at hread
      simp only [indented, String.toList_append, List.append_assoc] at hread ⊢
      simp only [String.reduceToList, List.cons_append, List.nil_append]
      rw [readValue?_brace hopen, hread]
      rfl
termination_by fuel
decreasing_by all_goals omega

theorem readItems?_indented {depth : Nat} {a : Json} {items : List Json}
    (h : isPlainItems depth (a :: items) = true) (level up : Nat) (acc : List Json) {fuel : Nat}
    (hfuel : 2 * (indentedItems level (a :: items)).toList.length ≤ fuel) (rest : List Char) :
    readItems? fuel depth acc
        ((indentedItems level (a :: items)).toList ++ (newline up).toList ++ ']' :: rest) =
      some (acc.reverse ++ a :: items, rest) := by
  simp only [isPlainItems, Bool.and_eq_true] at h
  cases items with
  | nil =>
    simp only [indentedItems, String.toList_append, List.length_append, length_newline] at hfuel
    obtain ⟨fuel, rfl⟩ := Nat.exists_eq_add_one.mpr (show 0 < fuel by omega)
    have hlen : 2 * (indented level a).toList.length ≤ fuel := by omega
    have hread := readValue?_indented h.1 level hlen
      (ends_newline up (']' :: rest))
    have htail : skipSpace ((newline up).toList ++ ']' :: rest) = ']' :: rest := by
      rw [skipSpace_newline, skipSpace_cons rfl]
    rw [← readValue?_newline fuel depth level] at hread
    simp only [indentedItems, String.toList_append, List.append_assoc]
    rw [readItems?_last acc hread htail, List.reverse_cons]
  | cons b bs =>
    simp only [indentedItems, String.toList_append, List.length_append, length_newline] at hfuel
    obtain ⟨fuel, rfl⟩ := Nat.exists_eq_add_one.mpr (show 0 < fuel by omega)
    have hlen : 2 * (indented level a).toList.length ≤ fuel := by omega
    have hread := readValue?_indented h.1 level hlen
      (ends_comma ((indentedItems level (b :: bs)).toList ++ (newline up).toList ++ ']' :: rest))
    rw [← readValue?_newline fuel depth level] at hread
    have hmore : 2 * (indentedItems level (b :: bs)).toList.length ≤ fuel := by omega
    have hrest := readItems?_indented h.2 level up (a :: acc) hmore rest
    simp only [indentedItems, String.toList_append, List.append_assoc] at hread hrest ⊢
    simp only [String.reduceToList, List.cons_append, List.nil_append] at hread ⊢
    rw [readItems?_next acc hread (skipSpace_cons rfl _), hrest]
    simp
termination_by fuel
decreasing_by all_goals omega

theorem readFields?_indented {depth : Nat} {k : String} {a : Json}
    {fields : List (String × Json)}
    (h : isPlainFields depth ((k, a) :: fields) = true) (level up : Nat)
    (acc : List (String × Json))
    {fuel : Nat} (hfuel : 2 * (indentedFields level ((k, a) :: fields)).toList.length ≤ fuel)
    (rest : List Char) :
    readFields? fuel depth acc
        ((indentedFields level ((k, a) :: fields)).toList ++ (newline up).toList ++
          '\x7d' :: rest) =
      some (acc.reverse ++ (k, a) :: fields, rest) := by
  simp only [isPlainFields, Bool.and_eq_true] at h
  cases fields with
  | nil =>
    simp only [indentedFields, String.toList_append, List.length_append, length_newline] at hfuel
    obtain ⟨fuel, rfl⟩ := Nat.exists_eq_add_one.mpr (show 0 < fuel by omega)
    have hlen : 2 * (indented level a).toList.length ≤ fuel := by omega
    have hread := readValue?_indented h.1 level hlen
      (ends_newline up ('\x7d' :: rest))
    have htail : skipSpace ((newline up).toList ++ '\x7d' :: rest) = '\x7d' :: rest := by
      rw [skipSpace_newline, skipSpace_cons rfl]
    rw [← readValue?_space] at hread
    have hlast := readFields?_last acc level k hread htail
    simp only [indentedFields, String.toList_append, List.append_assoc] at hlast ⊢
    simp only [String.reduceToList, List.cons_append, List.nil_append]
    rw [hlast, List.reverse_cons]
  | cons x fields =>
    obtain ⟨l, b⟩ := x
    simp only [indentedFields, String.toList_append, List.length_append, length_newline] at hfuel
    obtain ⟨fuel, rfl⟩ := Nat.exists_eq_add_one.mpr (show 0 < fuel by omega)
    have hlen : 2 * (indented level a).toList.length ≤ fuel := by omega
    have hread := readValue?_indented h.1 level hlen (ends_comma
      ((indentedFields level ((l, b) :: fields)).toList ++ (newline up).toList ++ '\x7d' :: rest))
    rw [← readValue?_space] at hread
    have hnext := readFields?_next acc level k hread (skipSpace_cons rfl _)
    have hmore : 2 * (indentedFields level ((l, b) :: fields)).toList.length ≤ fuel := by omega
    have hrest := readFields?_indented h.2 level up ((k, a) :: acc) hmore rest
    simp only [indentedFields, String.toList_append, List.append_assoc] at hnext hrest ⊢
    simp only [String.reduceToList, List.cons_append, List.nil_append]
    rw [hnext, hrest]
    simp
termination_by fuel
decreasing_by all_goals omega

end

/-- The document of a plain value is read as the value. -/
theorem parseRaw?_pretty {j : Json} (h : j.isPlain maxDepth = true) :
    parseRaw? j.pretty = some j := by
  have hfuel : 2 * (indented 0 j).toList.length ≤ 3 * (indented 0 j).toList.length + 3 := by omega
  have hend : Ends [] := by simp [Ends]
  have hread := readValue?_indented h 0 hfuel hend
  rw [List.append_nil] at hread
  simp only [parseRaw?, pretty, hread]
  rfl

end ControlNode.Json
