import ControlNode.Proofs.Expr.CallRuns
import ControlNode.Proofs.Expr.Visits

/-!
# Evaluating twice

Without HELD and DELAY, which watch the time, a second evaluation in the same context finds nothing
new: it yields the same and changes no memory. The one exception is HYST at a value that lies above
its first threshold and below its second. Such a value switches it on when it is off and off when
it is on, so that every evaluation switches it (`eval_twice_after_iff`).
-/

namespace ControlNode

namespace Func

/-- HYST is switched on and off by turns at these arguments: the value lies above the first
threshold and below the second. -/
def swings : Func → List Value → Bool
  | .hyst, [v, rise, fall] => rise.toFloat < v.toFloat && v.toFloat < fall.toFloat
  | _, _ => false

theorem hystStep_hystStep {x rise fall : Float} (h : (rise < x && x < fall) = false) (on : Bool) :
    hystStep (hystStep on x rise fall) x rise fall = hystStep on x rise fall := by
  unfold hystStep
  cases on <;> by_cases hrise : rise < x <;> by_cases hfall : x < fall <;> simp_all

theorem hystStep_of_between {x rise fall : Float} (h : (rise < x && x < fall) = true) (on : Bool) :
    hystStep on x rise fall = !on := by
  unfold hystStep
  cases on <;> simp_all

/-- Only a call that is on or off, with all its arguments, changes what it remembers. -/
theorem evalHyst_cases (vs : List Value) (state : NodeState) :
    (∃ v rise fall on, vs = [v, rise, fall] ∧ state = .hyst on) ∨
      (evalHyst vs state).2 = state := by
  unfold evalHyst
  split
  · exact Or.inl ⟨_, _, _, _, rfl, rfl⟩
  · exact Or.inr rfl
  · exact Or.inr rfl

variable {f : Func} {vs : List Value}

/-- A function that does not watch the time yields the same again. -/
theorem apply_apply (hf : f ≠ .held ∧ f ≠ .delay) (h : f.swings vs = false) (state : NodeState)
    (now : Int) (zone : Zone) :
    f.apply vs (f.apply vs state now zone).2 now zone = f.apply vs state now zone := by
  by_cases hr : f.remembers = false
  · rw [apply_snd hr]
  · cases f with
    | held => exact absurd rfl hf.1
    | delay => exact absurd rfl hf.2
    | hyst =>
      rcases evalHyst_cases vs state with ⟨v, rise, fall, on, rfl, rfl⟩ | hstate
      · simp only [apply, evalHyst, hystStep_hystStep h]
      · simp only [apply, hstate]
    | _ => exact absurd rfl hr

/-- HYST between its thresholds is switched by each application. -/
theorem apply_apply_of_swings (h : f.swings vs = true) {state : NodeState}
    (hstate : state.Fits f) (now : Int) (zone : Zone) :
    (f.apply vs (f.apply vs state now zone).2 now zone).2 ≠ (f.apply vs state now zone).2 := by
  unfold swings at h
  split at h
  · obtain ⟨on, rfl⟩ := hstate.exists_hyst
    simp only [apply, evalHyst, hystStep_of_between h]
    cases on <;> decide
  · cases h

end Func

namespace Expr

/-! ### Steady evaluations -/

/-- The part is a call that is applied to arguments between its thresholds. -/
def swingsAt (c : EvalContext) : Expr → Bool
  | .call f _ _ args =>
    match (evalArgs c args).1 with
    | .ok vs => f.swings vs
    | .error _ => false
  | _ => false

/-- The evaluation comes to no call of HYST between its thresholds. -/
def Steady (c : EvalContext) (e : Expr) : Prop := ∀ n ∈ visits c e, swingsAt c n = false

def SteadyArgs (c : EvalContext) (args : List Expr) : Prop :=
  ∀ n ∈ visitsOfArgs c args, swingsAt c n = false

instance (c : EvalContext) (e : Expr) : Decidable (Steady c e) :=
  inferInstanceAs (Decidable (∀ n ∈ visits c e, swingsAt c n = false))

variable {c : EvalContext} {e e' : Expr} {args : List Expr} {v : Value} {err : EvalError}

theorem steadyArgs_cons_error (h : eval c e = (.error err, e')) (es : List Expr) :
    SteadyArgs c (e :: es) ↔ Steady c e := by
  rw [SteadyArgs, visitsOfArgs_cons_error h, Steady]

theorem steadyArgs_cons_ok (h : eval c e = (.ok v, e')) (es : List Expr) :
    SteadyArgs c (e :: es) ↔ Steady c e ∧ SteadyArgs c es := by
  rw [SteadyArgs, visitsOfArgs_cons_ok h, List.forall_mem_append, Steady, SteadyArgs]

theorem steady_strict {f : Func} (pos : Nat) (state : NodeState)
    (h : f = .cond → args.length < 3) :
    Steady c (.call f pos state args) ↔
      swingsAt c (.call f pos state args) = false ∧ SteadyArgs c args := by
  rw [Steady, visits_strict c pos state h, List.forall_mem_cons, SteadyArgs]

theorem steady_const (v : Value) : Steady c (.const v) := by
  intro n hn
  rw [List.mem_singleton.mp hn]
  rfl

theorem steady_ref (r : PortRef) : Steady c (.ref r) := by
  intro n hn
  rw [List.mem_singleton.mp hn]
  rfl

theorem swingsAt_cond (pos : Nat) (state : NodeState) (args : List Expr) :
    swingsAt c (.call .cond pos state args) = false := by
  simp only [swingsAt]
  split <;> rfl

theorem steady_cond (pos : Nat) (state : NodeState) (test yes no : Expr) (rest : List Expr) :
    Steady c (.call .cond pos state (test :: yes :: no :: rest)) ↔ Steady c test ∧
      ∀ v, (eval c test).1 = .ok v → if v.toBool then Steady c yes else Steady c no := by
  rw [Steady, visits_cond, List.forall_mem_cons, List.forall_mem_append]
  simp only [swingsAt_cond, true_and]
  refine and_congr_right fun _ => ?_
  cases (eval c test).1 with
  | error err => simp
  | ok v =>
    simp only [Except.ok.injEq, forall_eq']
    split <;> rfl

/-! ### Second evaluations -/

/-- What a second evaluation does: nothing at all, or it changes some memory. -/
structure Repeats (c : EvalContext) (e : Expr) : Prop where
  same : Steady c e → eval c (eval c e).2 = eval c e
  changed : ¬Steady c e → (eval c (eval c e).2).2 ≠ (eval c e).2

structure RepeatsArgs (c : EvalContext) (args : List Expr) : Prop where
  same : SteadyArgs c args → evalArgs c (evalArgs c args).2 = evalArgs c args
  changed : ¬SteadyArgs c args → (evalArgs c (evalArgs c args).2).2 ≠ (evalArgs c args).2

theorem head_evalArgs (c : EvalContext) (e : Expr) (es : List Expr) :
    (evalArgs c (e :: es)).2.head? = some (eval c e).2 := by
  cases hev : eval c e with
  | mk r e' =>
    cases r with
    | error err => rw [evalArgs_cons_error hev, List.head?_cons]
    | ok v => rw [evalArgs_cons_ok hev, List.head?_cons]

/-- A change of the first argument is a change of the arguments. -/
theorem evalArgs_cons_ne (h : (eval c e).2 ≠ e) (es : List Expr) :
    (evalArgs c (e :: es)).2 ≠ e :: es := by
  intro heq
  have hhead := head_evalArgs c e es
  rw [heq, List.head?_cons, Option.some.injEq] at hhead
  exact h hhead.symm

theorem repeatsArgs (h : ∀ a ∈ args, Repeats c a) : RepeatsArgs c args := by
  induction args with
  | nil => exact ⟨fun _ => rfl, fun hn => absurd nofun hn⟩
  | cons e es ih =>
    obtain ⟨hsame, hchanged⟩ := h e (List.mem_cons_self ..)
    have hes := ih fun a ha => h a (List.mem_cons_of_mem e ha)
    cases hev : eval c e with
    | mk r e' =>
      rw [hev] at hsame hchanged
      cases r with
      | error err =>
        constructor
        · intro hs
          have hsteady := (steadyArgs_cons_error hev es).mp hs
          rw [evalArgs_cons_error hev, evalArgs_cons_error (hsame hsteady)]
        · intro hs
          rw [steadyArgs_cons_error hev] at hs
          rw [evalArgs_cons_error hev]
          exact evalArgs_cons_ne (hchanged hs) es
      | ok v =>
        constructor
        · intro hs
          obtain ⟨hsteady, hrest⟩ := (steadyArgs_cons_ok hev es).mp hs
          rw [evalArgs_cons_ok hev, evalArgs_cons_ok (hsame hsteady), hes.same hrest]
        · intro hs
          rw [steadyArgs_cons_ok hev, not_and] at hs
          rw [evalArgs_cons_ok hev]
          by_cases hsteady : Steady c e
          · rw [evalArgs_cons_ok (hsame hsteady)]
            intro heq
            exact hes.changed (hs hsteady) (List.cons.inj heq).2
          · exact evalArgs_cons_ne (hchanged hsteady) _

variable {f : Func} {pos : Nat} {state : NodeState}

theorem swingsAt_call {args' : List Expr} {vs : List Value}
    (h : evalArgs c args = (.ok vs, args')) (pos : Nat) (state : NodeState) :
    swingsAt c (.call f pos state args) = f.swings vs := by
  simp only [swingsAt, h]

theorem repeats_strict (hstrict : f = .cond → args.length < 3) (hf : f ≠ .held ∧ f ≠ .delay)
    (hstate : state.Fits f) (hargs : RepeatsArgs c args) :
    Repeats c (.call f pos state args) := by
  have hlength := length_evalArgs c args
  obtain ⟨hsame, hchanged⟩ := hargs
  cases hev : evalArgs c args with
  | mk rs args' =>
    rw [hev] at hlength hsame hchanged
    have hstrict' : f = .cond → args'.length < 3 := fun h => hlength ▸ hstrict h
    -- what the call remembers then does not matter where its arguments change
    have hinside (state' : NodeState) (hs : ¬SteadyArgs c args) :
        (eval c (.call f pos state' args')).2 ≠ .call f pos state' args' := by
      have hne := hchanged hs
      rw [eval_strict c pos state' hstrict']
      split
      all_goals
        rename_i hagain
        rw [hagain] at hne
        intro heq
        exact hne (Expr.call.inj heq).2.2.2
    cases rs with
    | error err =>
      have hself : swingsAt c (.call f pos state args) = false := by
        simp only [swingsAt, hev]
      have hsteady := steady_strict pos state hstrict (c := c)
      simp only [hself, true_and] at hsteady
      have heval := eval_strict_error hstrict hev pos state
      constructor
      · intro hs
        rw [heval, eval_strict_error hstrict' (hsame (hsteady.mp hs))]
      · intro hs
        rw [heval]
        exact hinside state fun h => hs (hsteady.mpr h)
    | ok vs =>
      have hsteady := steady_strict pos state hstrict (c := c)
      rw [swingsAt_call hev] at hsteady
      have heval := eval_strict_ok hstrict hev pos state
      constructor
      · intro hs
        obtain ⟨hself, hsteady⟩ := hsteady.mp hs
        rw [heval, eval_strict_ok hstrict' (hsame hsteady), Func.apply_apply hf hself]
      · intro hs
        rw [heval]
        by_cases hinner : SteadyArgs c args
        · have hself : f.swings vs = true := by
            rw [hsteady] at hs
            simpa [hinner] using hs
          rw [eval_strict_ok hstrict' (hsame hinner)]
          intro heq
          exact Func.apply_apply_of_swings hself hstate c.now c.zone (Expr.call.inj heq).2.2.1
        · exact hinside _ hinner

theorem repeats_cond {test yes no : Expr} {rest : List Expr} (htest : Repeats c test)
    (hyes : Repeats c yes) (hno : Repeats c no) :
    Repeats c (.call .cond pos state (test :: yes :: no :: rest)) := by
  have hsteady := steady_cond (c := c) pos state test yes no rest
  obtain ⟨hsame, hchanged⟩ := htest
  cases hev : eval c test with
  | mk r test' =>
    rw [hev] at hsame hchanged hsteady
    -- a test that changes is seen whichever branch is taken
    have hinside (yes' no' : Expr) (hs : ¬Steady c test) :
        (eval c (.call .cond pos state (test' :: yes' :: no' :: rest))).2 ≠
          .call .cond pos state (test' :: yes' :: no' :: rest) := by
      have hne := hchanged hs
      rw [eval_cond]
      cases hagain : eval c test' with
      | mk r' test'' =>
        rw [hagain] at hne
        cases r' with
        | error err => simpa using hne
        | ok v =>
          dsimp only
          split <;> simp [hne]
    cases r with
    | error err =>
      have heval := eval_cond_error hev pos state yes no rest
      constructor
      · intro hs
        rw [heval, eval_cond_error (hsame (hsteady.mp hs).1)]
      · intro hs
        rw [heval]
        refine hinside yes no fun h => hs (hsteady.mpr ⟨h, nofun⟩)
    | ok v =>
      simp only [Except.ok.injEq, forall_eq'] at hsteady
      have heval := eval_cond_ok hev pos state yes no rest
      by_cases hv : v.toBool = true
      · rw [if_pos hv] at hsteady heval
        constructor
        · intro hs
          obtain ⟨ht, hb⟩ := hsteady.mp hs
          rw [heval, eval_cond_ok (hsame ht), if_pos hv, hyes.same hb]
        · intro hs
          rw [heval]
          by_cases ht : Steady c test
          · have hb := hyes.changed fun h => hs (hsteady.mpr ⟨ht, h⟩)
            rw [eval_cond_ok (hsame ht), if_pos hv]
            simpa using hb
          · exact hinside _ _ ht
      · rw [if_neg hv] at hsteady heval
        constructor
        · intro hs
          obtain ⟨ht, hb⟩ := hsteady.mp hs
          rw [heval, eval_cond_ok (hsame ht), if_neg hv, hno.same hb]
        · intro hs
          rw [heval]
          by_cases ht : Steady c test
          · have hb := hno.changed fun h => hs (hsteady.mpr ⟨ht, h⟩)
            rw [eval_cond_ok (hsame ht), if_neg hv]
            simpa using hb
          · exact hinside _ _ ht

theorem ne_of_timeMs_notMem (h : .timeMs ∉ (call f pos state args).mentions) :
    f ≠ .held ∧ f ≠ .delay := by
  rw [mentions_call, List.mem_append, not_or] at h
  constructor
  · rintro rfl
    exact h.1 (List.mem_singleton_self _)
  · rintro rfl
    exact h.1 (List.mem_singleton_self _)

theorem repeats (hms : .timeMs ∉ e.mentions) (hfits : Throughout (fun f state => state.Fits f) e) :
    Repeats c e := by
  induction e using induct with
  | const v => exact ⟨fun _ => rfl, fun h => absurd (steady_const v) h⟩
  | ref r => exact ⟨fun _ => rfl, fun h => absurd (steady_ref r) h⟩
  | call f pos state args ih =>
    have hargs (a : Expr) (ha : a ∈ args) : Repeats c a := by
      refine ih a ha (fun h => hms ?_) (hfits.arg ha)
      rw [mentions_call]
      exact List.mem_append_right _ (List.mem_flatMap.mpr ⟨a, ha, h⟩)
    rcases cond_or_strict f args with ⟨rfl, test, yes, no, rest, rfl⟩ | hstrict
    · exact repeats_cond (hargs test (by simp)) (hargs yes (by simp)) (hargs no (by simp))
    · exact repeats_strict hstrict (ne_of_timeMs_notMem hms) hfits.head (repeatsArgs hargs)

/-- After any evaluations, an expression that does not watch the milliseconds yields the same
twice in a row and is left as it is, exactly if the evaluation comes to no call of HYST between its
thresholds. -/
theorem eval_twice_after_iff {source selfId : String} (hparse : parse source selfId = .ok e)
    (hms : .timeMs ∉ e.deps) (history : List EvalContext) (c : EvalContext) :
    let now := e.after history
    Steady c now ↔
      ((now.eval c).2.eval c).1 = (now.eval c).1 ∧ ((now.eval c).2.eval c).2 = (now.eval c).2 := by
  intro now
  have hmentions : .timeMs ∉ now.mentions := by
    rw [mentions_after]
    exact fun h => hms (mentions_subset_deps e h)
  have hrepeats : Repeats c now := repeats hmentions (fits_after hparse history)
  constructor
  · intro hs
    rw [hrepeats.same hs]
    exact ⟨rfl, rfl⟩
  · rintro ⟨-, hsame⟩
    by_contra hs
    exact hrepeats.changed hs hsame

def heatingContext (temperature : Value) : EvalContext :=
  .ofValues [("heat", .bool true), ("high", .num 20), ("low", .num 10), ("t", temperature)] 0

/-- A condition whose branches have their thresholds the other way round. -/
def heating : Expr :=
  .call .cond 0 .none [.ref ⟨"heat", false, 3⟩,
    .call .hyst 10 (.hyst false)
      [.ref ⟨"t", false, 15⟩, .ref ⟨"high", false, 19⟩, .ref ⟨"low", false, 26⟩],
    .call .hyst 33 (.hyst false)
      [.ref ⟨"t", false, 38⟩, .ref ⟨"low", false, 42⟩, .ref ⟨"high", false, 48⟩]]

/-- The temperature 15 lies between the thresholds of the branch that is not taken, and HYST keeps
to what it has come to at 21 in the other one. -/
theorem eval_twice_after_lazy :
    let c := heatingContext (.num 15)
    let now := heating.after [heatingContext (.num 21)]
    parse "IF($heat, HYST($t, $high, $low), HYST($t, $low, $high))" "me" = .ok heating ∧
      .timeMs ∉ heating.deps ∧ Steady c now ∧ (now.eval c).1 = .ok (.bool true) ∧
      ((now.eval c).2.eval c).1 = .ok (.bool true) ∧
      ((now.eval c).2.eval c).2 = (now.eval c).2 := by
  intro c now
  have hparse : parse "IF($heat, HYST($t, $high, $low), HYST($t, $low, $high))" "me" =
      .ok heating := by cbv
  have hms : .timeMs ∉ heating.deps := by decide
  have hsteady : Steady c now := by decide +kernel
  have hfirst : (now.eval c).1 = .ok (.bool true) := by decide +kernel
  obtain ⟨hresult, htree⟩ :=
    (eval_twice_after_iff hparse hms [heatingContext (.num 21)] c).mp hsteady
  exact ⟨hparse, hms, hsteady, hfirst, hresult.trans hfirst, htree⟩

/-- Between its thresholds HYST is on after one evaluation and off after the next. -/
theorem eval_twice_after_differs :
    let c := (EvalContext.ofValues [("high", .num 3), ("low", .num 1), ("p", .num 2)] 0).forPort "q"
    ∃ e, parse "HYST($p, $low, $high)" "q" = .ok e ∧ .time ∉ e.deps ∧ .timeMs ∉ e.deps ∧
      (e.eval c).1 = .ok (.bool true) ∧ ((e.eval c).2.eval c).1 = .ok (.bool false) := by
  intro c
  have hparse : parse "HYST($p, $low, $high)" "q" = .ok (.call .hyst 0 (.hyst false)
      [.ref ⟨"p", false, 5⟩, .ref ⟨"low", false, 9⟩, .ref ⟨"high", false, 15⟩]) := by cbv
  refine ⟨_, hparse, by decide, by decide, ?_, ?_⟩
  · decide +kernel
  · decide +kernel

end Expr

end ControlNode
