import ControlNode.Text.Blank
import Mathlib.Data.List.TakeWhile

/-!
# Trimming

A text is its blank start, its trimmed part and its blank end, and these three are unique:
whatever blank characters surround a text that has none at its ends, trimming gives that text
back.
-/

namespace ControlNode.Text

/-! ### Blank texts -/

theorem allBlank_iff (cs : List Char) : allBlank cs = true ↔ ∀ c ∈ cs, isBlank c = true := by
  simp [allBlank]

theorem allBlank_nil : allBlank [] = true := rfl

theorem allBlank_append {xs ys : List Char} (hx : allBlank xs = true) (hy : allBlank ys = true) :
    allBlank (xs ++ ys) = true := by
  simp only [allBlank, List.all_append, Bool.and_eq_true] at hx hy ⊢
  exact ⟨hx, hy⟩

theorem allBlank_reverse (cs : List Char) : allBlank cs.reverse = allBlank cs := by
  simp only [allBlank, List.all_reverse]

/-! ### Solid ends -/

/-- The first character is there and is not blank. -/
def StartsSolid (cs : List Char) : Prop := ∃ c rest, cs = c :: rest ∧ isBlank c = false

/-- The last character is there and is not blank. -/
def EndsSolid (cs : List Char) : Prop := ∃ init c, cs = init ++ [c] ∧ isBlank c = false

/-- A text whose first and last characters are not blank. -/
structure Trimmed (cs : List Char) : Prop where
  starts : StartsSolid cs
  ends : EndsSolid cs

theorem StartsSolid.append {xs : List Char} (h : StartsSolid xs) (ys : List Char) :
    StartsSolid (xs ++ ys) := by
  obtain ⟨c, rest, rfl, hc⟩ := h
  exact ⟨c, rest ++ ys, rfl, hc⟩

theorem StartsSolid.not_allBlank {cs : List Char} (h : StartsSolid cs) : allBlank cs = false := by
  obtain ⟨c, rest, rfl, hc⟩ := h
  simp [allBlank, hc]

theorem trimmed_of_no_blank {cs : List Char} (hne : cs ≠ []) (h : ∀ c ∈ cs, isBlank c = false) :
    Trimmed cs := by
  have hhead := h _ (List.head_mem hne)
  have hlast := h _ (List.getLast_mem hne)
  refine ⟨⟨cs.head hne, cs.tail, (List.cons_head_tail hne).symm, hhead⟩, ?_⟩
  exact ⟨cs.dropLast, cs.getLast hne, (List.dropLast_concat_getLast hne).symm, hlast⟩

/-! ### Trimming one end -/

theorem trimStart_append {left cs : List Char} (hl : allBlank left = true)
    (hc : StartsSolid cs) : trimStart (left ++ cs) = cs := by
  obtain ⟨c, rest, rfl, hc⟩ := hc
  rw [trimStart, List.dropWhile_append_of_pos ((allBlank_iff left).mp hl)]
  simp [hc]

theorem takeWhile_isBlank_append {left cs : List Char} (hl : allBlank left = true)
    (hc : StartsSolid cs) : (left ++ cs).takeWhile isBlank = left := by
  obtain ⟨c, rest, rfl, hc⟩ := hc
  rw [List.takeWhile_append_of_pos ((allBlank_iff left).mp hl)]
  simp [hc]

theorem trimEnd_append {cs right : List Char} (hr : allBlank right = true) (hc : EndsSolid cs) :
    trimEnd (cs ++ right) = cs := by
  obtain ⟨init, c, rfl, hc⟩ := hc
  have hrev : allBlank right.reverse = true := by rw [allBlank_reverse]; exact hr
  have hstart : StartsSolid (init ++ [c]).reverse := ⟨c, init.reverse, List.reverse_concat, hc⟩
  have hdrop := trimStart_append hrev hstart
  rw [trimStart] at hdrop
  rw [trimEnd, List.reverse_append, hdrop, List.reverse_reverse]

theorem allBlank_takeWhile (cs : List Char) : allBlank (cs.takeWhile isBlank) = true := by
  rw [allBlank_iff]
  intro c hc
  exact List.mem_takeWhile_imp hc

theorem exists_append_trimEnd (cs : List Char) :
    ∃ right, allBlank right = true ∧ cs = trimEnd cs ++ right := by
  refine ⟨(cs.reverse.takeWhile isBlank).reverse, ?_, ?_⟩
  · rw [allBlank_reverse]
    exact allBlank_takeWhile _
  · rw [trimEnd, ← List.reverse_append, List.takeWhile_append_dropWhile, List.reverse_reverse]

/-! ### Trimming both ends -/

theorem trim_surround {left cs right : List Char} (hl : allBlank left = true)
    (hr : allBlank right = true) (hc : Trimmed cs) : trim (left ++ cs ++ right) = cs := by
  have hstart : trimStart (left ++ (cs ++ right)) = cs ++ right :=
    trimStart_append hl (hc.starts.append right)
  rw [trim, List.append_assoc, hstart, trimEnd_append hr hc.ends]

/-- A text is its blank start, its trimmed part and a blank end. -/
theorem exists_surround_trim (cs : List Char) :
    ∃ right, allBlank right = true ∧ cs = cs.takeWhile isBlank ++ trim cs ++ right := by
  obtain ⟨right, hr, heq⟩ := exists_append_trimEnd (trimStart cs)
  refine ⟨right, hr, ?_⟩
  rw [List.append_assoc, trim, ← heq, trimStart, List.takeWhile_append_dropWhile]

theorem allBlank_of_trim_eq_nil {cs : List Char} (h : trim cs = []) : allBlank cs = true := by
  obtain ⟨right, hr, heq⟩ := exists_surround_trim cs
  rw [heq, h, List.append_nil]
  exact allBlank_append (allBlank_takeWhile cs) hr

theorem trim_eq_nil_iff (cs : List Char) : trim cs = [] ↔ allBlank cs = true := by
  refine ⟨allBlank_of_trim_eq_nil, ?_⟩
  intro h
  have hstart : trimStart cs = [] := List.dropWhile_eq_nil_iff.mpr ((allBlank_iff cs).mp h)
  rw [trim, hstart]
  rfl

end ControlNode.Text
