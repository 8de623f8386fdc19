import ControlNode.Proofs.Expr.Memories

/-!
# Where an evaluation goes

An evaluation comes to a condition, its test and one of its branches; to any other call and its
arguments up to the first without a value. When it ends with an error, this error arises at one of
the parts that it comes to (`exists_failsAt`).
-/

namespace ControlNode.Expr

/-! ### Evaluation by its outcome -/

variable {c : EvalContext} {n e e' : Expr} {f : Func} {args args' : List Expr} {v : Value}
  {vs : List Value} {err : EvalError}

theorem evalArgs_cons_error (h : eval c e = (.error err, e')) (es : List Expr) :
    evalArgs c (e :: es) = (.error err, e' :: es) := by
  simp only [evalArgs, h]

theorem evalArgs_cons_ok (h : eval c e = (.ok v, e')) (es : List Expr) :
    evalArgs c (e :: es) = ((evalArgs c es).1.map (v :: ·), e' :: (evalArgs c es).2) := by
  simp only [evalArgs, h]
  cases evalArgs c es with
  | mk rs es' => cases rs <;> rfl

theorem eval_strict_error (hstrict : f = .cond → args.length < 3)
    (h : evalArgs c args = (.error err, args')) (pos : Nat) (state : NodeState) :
    eval c (.call f pos state args) = (.error err, .call f pos state args') := by
  rw [eval_strict c pos state hstrict, h]

theorem eval_strict_ok (hstrict : f = .cond → args.length < 3)
    (h : evalArgs c args = (.ok vs, args')) (pos : Nat) (state : NodeState) :
    eval c (.call f pos state args) =
      ((f.apply vs state c.now c.zone).1, .call f pos (f.apply vs state c.now c.zone).2 args') := by
  rw [eval_strict c pos state hstrict, h]

theorem eval_cond_error (h : eval c e = (.error err, e')) (pos : Nat) (state : NodeState)
    (yes no : Expr) (rest : List Expr) :
    eval c (.call .cond pos state (e :: yes :: no :: rest)) =
      (.error err, .call .cond pos state (e' :: yes :: no :: rest)) := by
  rw [eval_cond, h]

theorem eval_cond_ok (h : eval c e = (.ok v, e')) (pos : Nat) (state : NodeState)
    (yes no : Expr) (rest : List Expr) :
    eval c (.call .cond pos state (e :: yes :: no :: rest)) =
      if v.toBool then
        ((eval c yes).1, .call .cond pos state (e' :: (eval c yes).2 :: no :: rest))
      else ((eval c no).1, .call .cond pos state (e' :: yes :: (eval c no).2 :: rest)) := by
  rw [eval_cond, h]

/-! ### Parts that are visited -/

mutual

/-- The parts of an expression that its evaluation comes to, each in front of its own parts. -/
def visits (c : EvalContext) : Expr → List Expr
  | .const v => [.const v]
  | .ref r => [.ref r]
  | .call .cond pos state (test :: yes :: no :: rest) =>
    .call .cond pos state (test :: yes :: no :: rest) :: (visits c test ++
      match (eval c test).1 with
      | .error _ => []
      | .ok v => if v.toBool then visits c yes else visits c no)
  | .call f pos state args => .call f pos state args :: visitsOfArgs c args
termination_by structural e => e

def visitsOfArgs (c : EvalContext) : List Expr → List Expr
  | [] => []
  | e :: es => visits c e ++
    match (eval c e).1 with
    | .error _ => []
    | .ok _ => visitsOfArgs c es
termination_by structural es => es

end

theorem visits_cond (c : EvalContext) (pos : Nat) (state : NodeState) (test yes no : Expr)
    (rest : List Expr) : visits c (.call .cond pos state (test :: yes :: no :: rest)) =
      .call .cond pos state (test :: yes :: no :: rest) :: (visits c test ++
        match (eval c test).1 with
        | .error _ => []
        | .ok v => if v.toBool then visits c yes else visits c no) := by
  exact visits.eq_def c (.call .cond pos state (test :: yes :: no :: rest))

theorem visits_strict (c : EvalContext) {f : Func} (pos : Nat) (state : NodeState)
    {args : List Expr} (h : f = .cond → args.length < 3) :
    visits c (.call f pos state args) = .call f pos state args :: visitsOfArgs c args := by
  have hfew : ∀ test yes no rest, f = .cond → args = test :: yes :: no :: rest → False := by
    intro test yes no rest hf hargs
    have hlt := h hf
    simp only [hargs, List.length_cons] at hlt
    omega
  exact visits.eq_4 c f pos state args hfew

theorem visitsOfArgs_cons_error (h : eval c e = (.error err, e')) (es : List Expr) :
    visitsOfArgs c (e :: es) = visits c e := by
  rw [visitsOfArgs, h]
  exact List.append_nil _

theorem visitsOfArgs_cons_ok (h : eval c e = (.ok v, e')) (es : List Expr) :
    visitsOfArgs c (e :: es) = visits c e ++ visitsOfArgs c es := by
  rw [visitsOfArgs, h]

theorem mem_visits_self (c : EvalContext) (e : Expr) : e ∈ visits c e := by
  cases e with
  | const v => exact List.mem_singleton_self _
  | ref r => exact List.mem_singleton_self _
  | call f pos state args =>
    rcases cond_or_strict f args with ⟨rfl, test, yes, no, rest, rfl⟩ | hstrict
    · rw [visits_cond]
      exact List.mem_cons_self ..
    · rw [visits_strict c pos state hstrict]
      exact List.mem_cons_self ..

theorem exists_of_mem_visitsOfArgs (h : n ∈ visitsOfArgs c args) :
    ∃ a ∈ args, n ∈ visits c a := by
  induction args with
  | nil => cases h
  | cons e es ih =>
    rw [visitsOfArgs] at h
    rcases List.mem_append.mp h with h | h
    · exact ⟨e, List.mem_cons_self .., h⟩
    · split at h
      · cases h
      · obtain ⟨a, ha, hn⟩ := ih h
        exact ⟨a, List.mem_cons_of_mem e ha, hn⟩

theorem occurs_of_mem_visits (h : n ∈ visits c e) : Occurs n e := by
  induction e using induct with
  | const v =>
    rw [List.mem_singleton.mp h]
    exact .here
  | ref r =>
    rw [List.mem_singleton.mp h]
    exact .here
  | call f pos state args ih =>
    rcases cond_or_strict f args with ⟨rfl, test, yes, no, rest, rfl⟩ | hstrict
    · rw [visits_cond, List.mem_cons, List.mem_append] at h
      rcases h with rfl | h | h
      · exact .here
      · exact .inside (by simp) (ih test (by simp) h)
      · split at h
        · cases h
        · split at h
          · exact .inside (by simp) (ih yes (by simp) h)
          · exact .inside (by simp) (ih no (by simp) h)
    · rw [visits_strict c pos state hstrict, List.mem_cons] at h
      rcases h with rfl | h
      · exact .here
      · obtain ⟨a, ha, hn⟩ := exists_of_mem_visitsOfArgs h
        exact .inside ha (ih a ha hn)

/-! ### Where errors arise -/

/-- The error arises at the part itself: it is a reference to a port without a value, or a call
whose arguments all have values. -/
inductive FailsAt (c : EvalContext) : EvalError → Expr → Prop
  | ref {r : PortRef} (h : c.valueOf r.id = none) : FailsAt c .valueUnavailable (.ref r)
  | call {f : Func} {pos : Nat} {state : NodeState} {args : List Expr} {vs : List Value}
      {err : EvalError} (hargs : (evalArgs c args).1 = .ok vs)
      (h : (f.apply vs state c.now c.zone).1 = .error err) : FailsAt c err (.call f pos state args)

theorem exists_of_evalArgs_error (h : (evalArgs c args).1 = .error err) :
    ∃ a ∈ args, (eval c a).1 = .error err ∧ visits c a ⊆ visitsOfArgs c args := by
  induction args with
  | nil => cases h
  | cons e es ih =>
    cases hev : eval c e with
    | mk r e' =>
      cases r with
      | error err' =>
        rw [evalArgs_cons_error hev] at h
        cases h
        refine ⟨e, List.mem_cons_self .., ?_, ?_⟩
        · rw [hev]
        · rw [visitsOfArgs_cons_error hev]
          exact List.Subset.refl _
      | ok v =>
        rw [evalArgs_cons_ok hev] at h
        cases hevs : (evalArgs c es).1 with
        | ok vs =>
          rw [hevs] at h
          cases h
        | error err' =>
          rw [hevs] at h
          cases h
          obtain ⟨a, ha, herr, hsub⟩ := ih hevs
          refine ⟨a, List.mem_cons_of_mem e ha, herr, ?_⟩
          rw [visitsOfArgs_cons_ok hev]
          exact List.subset_append_of_subset_right _ hsub

/-- An evaluation that ends with an error visits the part at which it arises. -/
theorem exists_failsAt (h : (eval c e).1 = .error err) :
    ∃ n ∈ visits c e, FailsAt c err n := by
  induction e using induct with
  | const v => cases h
  | ref r =>
    refine ⟨.ref r, mem_visits_self c _, ?_⟩
    simp only [eval] at h
    split at h
    · cases h
    · rename_i hnone
      cases h
      exact .ref hnone
  | call f pos state args ih =>
    rcases cond_or_strict f args with ⟨rfl, test, yes, no, rest, rfl⟩ | hstrict
    · rw [visits_cond]
      -- a condition has no error of its own
      cases hev : eval c test with
      | mk r test' =>
        cases r with
        | error err' =>
          rw [eval_cond_error hev] at h
          cases h
          obtain ⟨n, hn, hfails⟩ := ih test (by simp) (congrArg Prod.fst hev)
          exact ⟨n, List.mem_cons_of_mem _ (List.mem_append_left _ hn), hfails⟩
        | ok v =>
          rw [eval_cond_ok hev] at h
          dsimp only
          by_cases hv : v.toBool = true
          · rw [if_pos hv] at h ⊢
            obtain ⟨n, hn, hfails⟩ := ih yes (by simp) h
            exact ⟨n, List.mem_cons_of_mem _ (List.mem_append_right _ hn), hfails⟩
          · rw [if_neg hv] at h ⊢
            obtain ⟨n, hn, hfails⟩ := ih no (by simp) h
            exact ⟨n, List.mem_cons_of_mem _ (List.mem_append_right _ hn), hfails⟩
    · rw [visits_strict c pos state hstrict]
      cases hev : evalArgs c args with
      | mk rs args' =>
        cases rs with
        | error err' =>
          rw [eval_strict_error hstrict hev] at h
          cases h
          obtain ⟨a, ha, herr, hsub⟩ := exists_of_evalArgs_error (congrArg Prod.fst hev)
          obtain ⟨n, hn, hfails⟩ := ih a ha herr
          exact ⟨n, List.mem_cons_of_mem _ (hsub hn), hfails⟩
        | ok vs =>
          rw [eval_strict_ok hstrict hev] at h
          exact ⟨_, List.mem_cons_self .., .call (congrArg Prod.fst hev) h⟩

end ControlNode.Expr
