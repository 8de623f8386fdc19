import ControlNode.Proofs.Expr.CallRuns
import Mathlib

/-!
# HELD over runs

HELD notes the value of each application whose duration is not negative. What it remembers is the
beginning of the longest block of numerically equal values at the end of what it has noted
(`Marks.run`), so its result compares the duration with the age of that block (`eval_after_held`).
-/

namespace ControlNode

theorem Binary64.wrapInt64_of_range {n : Int} (hmin : minInt64 ≤ n) (hmax : n ≤ maxInt64) :
    wrapInt64 n = n := by
  unfold minInt64 at hmin
  unfold maxInt64 at hmax
  apply Int.bmod_eq_of_le <;> simp only [wordCount] <;> omega

/-! ### Blocks of equal values -/

/-- All values of the steps are numerically equal. -/
def Level (steps : List (Int × Value)) : Prop :=
  steps.Pairwise fun a b => (a.2.toFloat == b.2.toFloat) = true

/-- The longest block of consecutive steps up to the last one whose values are numerically
equal. -/
structure LongestBlock (steps block : List (Int × Value)) : Prop where
  suffix : block <:+ steps
  level : Level block
  longest : ∀ other, other <:+ steps → Level other → other.length ≤ block.length

namespace LongestBlock

variable {steps rest : List (Int × Value)} {first step : Int × Value}

theorem first_eq_of_mem (h : LongestBlock steps (first :: rest)) {s : Int × Value}
    (hs : s ∈ rest) : (first.2.toFloat == s.2.toFloat) = true :=
  (List.pairwise_cons.mp h.level).1 s hs

/-- A value equal to that of the block makes it longer. -/
theorem extend (h : LongestBlock steps (first :: rest))
    (heq : (first.2.toFloat == step.2.toFloat) = true) :
    LongestBlock (steps ++ [step]) (first :: (rest ++ [step])) := by
  refine ⟨?_, ?_, ?_⟩
  · obtain ⟨before, hsteps⟩ := h.suffix
    exact ⟨before, by rw [← hsteps, List.append_assoc, List.cons_append]⟩
  · have hlast : ∀ s ∈ first :: rest, (s.2.toFloat == step.2.toFloat) = true := by
      intro s hs
      rcases List.mem_cons.mp hs with rfl | hs
      · exact heq
      · exact BEq.trans (BEq.symm (h.first_eq_of_mem hs)) heq
    refine List.pairwise_append.mpr ⟨h.level, List.pairwise_singleton .., ?_⟩
    intro s hs t ht
    rw [List.mem_singleton.mp ht]
    exact hlast s hs
  · intro other hother hlevel
    rcases List.suffix_concat_iff.mp hother with rfl | ⟨init, rfl, hinit⟩
    · exact Nat.zero_le _
    · have hle := h.longest init hinit (List.pairwise_append.mp hlevel).1
      simpa using hle

/-- A value that differs from that of the block begins a new one. -/
theorem restart (h : LongestBlock steps (first :: rest))
    (hne : (first.2.toFloat == step.2.toFloat) ≠ true) :
    LongestBlock (steps ++ [step]) [step] := by
  refine ⟨List.suffix_append .., List.pairwise_singleton .., ?_⟩
  intro other hother hlevel
  rcases List.suffix_concat_iff.mp hother with rfl | ⟨init, rfl, hinit⟩
  · exact Nat.zero_le _
  · -- The last step before `step` belongs to both blocks.
    rcases List.eq_nil_or_concat' init with rfl | ⟨front, last, rfl⟩
    · exact Nat.le_refl _
    · exfalso
      have hstep : (last.2.toFloat == step.2.toFloat) = true :=
        (List.pairwise_append.mp hlevel).2.2 last (by simp) step (by simp)
      have hmem : last = first ∨ last ∈ rest := by
        have hends : steps.getLast? = some last := by
          obtain ⟨before, rfl⟩ := hinit
          simp
        obtain ⟨before, rfl⟩ := h.suffix
        rw [List.getLast?_append_of_ne_nil _ (List.cons_ne_nil first rest)] at hends
        exact List.mem_cons.mp (List.mem_of_getLast? hends)
      rcases hmem with rfl | hmem
      · exact hne hstep
      · exact hne (BEq.trans (h.first_eq_of_mem hmem) hstep)

theorem singleton (step : Int × Value) : LongestBlock [step] [step] where
  suffix := List.suffix_refl _
  level := List.pairwise_singleton ..
  longest _ hother _ := hother.length_le

theorem first_mem (h : LongestBlock steps (first :: rest)) : first ∈ steps :=
  h.suffix.subset (List.mem_cons_self ..)

end LongestBlock

/-! ### What HELD remembers -/

/-- The steps that HELD notes: applications whose duration is not negative. -/
def heldSteps (as : List Application) : List (Int × Value) :=
  as.filterMap fun a =>
    match a.args with
    | [v, _, duration] => if duration.toInt < 0 then none else some (a.now, v)
    | _ => none

/-- The state belongs to the steps: it holds the value with which their longest block begins, and
when that was. -/
inductive Marks : List (Int × Value) → HeldState → Prop where
  | none (since : Int) : Marks [] ⟨Option.none, since⟩
  | block {steps rest : List (Int × Value)} {first : Int × Value}
      (h : LongestBlock steps (first :: rest)) : Marks steps ⟨some first.2.toFloat, first.1⟩

namespace Marks

variable {steps : List (Int × Value)} {s : HeldState}

theorem note (h : Marks steps s) (now : Int) (v : Value) :
    Marks (steps ++ [(now, v)]) (Func.heldNote s v.toFloat now) := by
  cases h with
  | none since => exact .block (.singleton (now, v))
  | @block _ rest first h =>
    by_cases heq : (first.2.toFloat == v.toFloat) = true
    · simp only [Func.heldNote, Option.any_some, heq, if_true]
      have hlonger : LongestBlock (steps ++ [(now, v)]) (first :: (rest ++ [(now, v)])) :=
        h.extend heq
      exact .block hlonger
    · simp only [Func.heldNote, Option.any_some, heq, if_false, Bool.false_eq_true]
      have hnew : LongestBlock (steps ++ [(now, v)]) [(now, v)] := h.restart heq
      exact .block hnew

theorem block_of_ne_nil (h : Marks steps s) (hne : steps ≠ []) :
    ∃ first rest, LongestBlock steps (first :: rest) ∧ s.since = first.1 := by
  cases h with
  | none since => exact absurd rfl hne
  | @block _ rest first h => exact ⟨first, rest, h, rfl⟩

/-- Over any applications HELD keeps the beginning of the longest block of what it notes. -/
theorem run (as : List Application) (hargs : ∀ a ∈ as, a.args.length = 3) :
    ∃ s, Func.stateAfter .held (.initial .held) as = .held s ∧ Marks (heldSteps as) s := by
  induction as using List.reverseRecOn with
  | nil => exact ⟨⟨Option.none, 0⟩, rfl, .none 0⟩
  | append_singleton as a ih =>
    obtain ⟨s, hs, hmarks⟩ := ih fun b hb => hargs b (List.mem_append_left _ hb)
    obtain ⟨v, fixed, duration, hvalues⟩ := List.length_eq_three.mp (hargs a (by simp))
    rw [Func.stateAfter_concat, hs, hvalues]
    by_cases hneg : duration.toInt < 0
    · refine ⟨s, ?_, ?_⟩
      · simp only [Func.apply, Func.evalHeld, hneg, if_true]
      · simpa [heldSteps, hvalues, hneg] using hmarks
    · refine ⟨Func.heldNote s v.toFloat a.now, ?_, ?_⟩
      · simp only [Func.apply, Func.evalHeld, hneg, if_false]
      · simpa [heldSteps, hvalues, hneg] using hmarks.note a.now v

end Marks

/-! ### Results -/

namespace Expr

/-- HELD fails where the duration is negative, and notes nothing then. Otherwise it tells whether
the value is the given one and the block of equal values that ends here began at least the
duration ago; steps with a negative duration do not count. -/
theorem eval_after_held (value fixed duration : Expr) (pos : Nat) (cs : List EvalContext)
    (c : EvalContext) (v f d : Value)
    (hargs : (evalArgs c (argsAfter [value, fixed, duration] cs)).1 = .ok [v, f, d])
    (hspan : ∀ s ∈ heldSteps (applications [value, fixed, duration] cs),
      Binary64.minInt64 ≤ c.now - s.1 ∧ c.now - s.1 ≤ Binary64.maxInt64) :
    let held := call .held pos (.initial .held) [value, fixed, duration]
    let steps := heldSteps (applications [value, fixed, duration] cs)
    (d.toInt < 0 → ((held.after cs).eval c).1 = .error (.badArgument 2 d)) ∧
      (0 ≤ d.toInt → ∃ first rest, LongestBlock (steps ++ [(c.now, v)]) (first :: rest) ∧
        ((held.after cs).eval c).1 =
          .ok (.bool (v.toFloat == f.toFloat && d.toInt ≤ c.now - first.1))) := by
  intro held steps
  obtain ⟨s, hs, hmarks⟩ := Marks.run (applications [value, fixed, duration] cs)
    fun a ha => length_of_applications ha
  have heval : ((held.after cs).eval c).1 =
      (Func.evalHeld [v, f, d] (.held s) c.now).1 := by
    rw [← hs]
    exact eval_after_call (by decide) pos _ cs hargs
  rw [heval]
  constructor
  · intro hneg
    simp only [Func.evalHeld, hneg, if_true]
  · intro hd
    simp only [Func.evalHeld, Int.not_lt.mpr hd, if_false]
    obtain ⟨first, rest, hblock, hsince⟩ :=
      (hmarks.note c.now v).block_of_ne_nil (List.concat_ne_nil _ _)
    refine ⟨first, rest, hblock, ?_⟩
    have hrange : Binary64.minInt64 ≤ c.now - first.1 ∧ c.now - first.1 ≤ Binary64.maxInt64 := by
      rcases List.mem_append.mp hblock.first_mem with hmem | hmem
      · exact hspan first hmem
      · rw [List.mem_singleton.mp hmem, Int.sub_self]
        decide
    rw [hsince, Binary64.wrapInt64_of_range hrange.1 hrange.2]
    rfl

/-- What the two ports of the next run hold at a time. -/
def heldContext (level duration : Value) (now : Int) : EvalContext :=
  .ofValues [("level", level), ("wait", duration)] now

/-- A boolean and the number one are one block, and the step whose duration is negative does not
interrupt it. -/
theorem eval_after_held_mixed :
    let args := [.ref ⟨"level", false, 5⟩, .const (.num 1), .ref ⟨"wait", false, 15⟩]
    let cs := [heldContext (.bool true) (.num 500) 0, heldContext (.num 0) (.num (-1)) 100,
      heldContext (.num 1) (.num 100.5) 200]
    let c := heldContext (.bool true) (.num 500) 500
    (evalArgs c (argsAfter args cs)).1 = .ok [.bool true, .num 1, .num 500] ∧
      (∀ s ∈ heldSteps (applications args cs),
        Binary64.minInt64 ≤ c.now - s.1 ∧ c.now - s.1 ≤ Binary64.maxInt64) ∧
      ∃ first rest,
        LongestBlock [(0, .bool true), (200, .num 1), (500, .bool true)] (first :: rest) ∧
        (((call .held 0 (.initial .held) args).after cs).eval c).1 =
          .ok (.bool ((1 : Float) == 1 && (500 : Int) ≤ 500 - first.1)) := by
  intro args cs c
  have hargs : (evalArgs c (argsAfter args cs)).1 = .ok [.bool true, .num 1, .num 500] := by
    decide +kernel
  have hsteps : heldSteps (applications args cs) = [(0, .bool true), (200, .num 1)] := by
    decide +kernel
  have hspan : ∀ s ∈ heldSteps (applications args cs),
      Binary64.minInt64 ≤ c.now - s.1 ∧ c.now - s.1 ≤ Binary64.maxInt64 := by
    rw [hsteps]
    decide
  have hwait : 0 ≤ (Value.num 500).toInt := by decide +kernel
  obtain ⟨first, rest, hblock, hresult⟩ :=
    (eval_after_held _ _ _ 0 cs c _ _ _ hargs hspan).2 hwait
  have hduration : (Value.num 500).toInt = 500 := by decide +kernel
  rw [hduration] at hresult
  exact ⟨hargs, hspan, first, rest, hblock, hresult⟩

end Expr

end ControlNode
