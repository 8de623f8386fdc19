import ControlNode.Proofs.Expr.Tree

/-!
# Runs of one call

Over a sequence of evaluations a call is applied each time that all its arguments have values.
What it then remembers depends on these applications only (`after_call`), and so does its next
result (`eval_after_call`).
-/

namespace ControlNode

structure Application where
  now : Int
  args : List Value
  zone : Zone := .utc
  deriving Repr, DecidableEq

def Func.stateAfter (f : Func) (state : NodeState) (as : List Application) : NodeState :=
  as.foldl (fun s a => (f.apply a.args s a.now a.zone).2) state

theorem Func.stateAfter_concat (f : Func) (state : NodeState) (as : List Application)
    (a : Application) : f.stateAfter state (as ++ [a]) =
      (f.apply a.args (f.stateAfter state as) a.now a.zone).2 := by
  simp only [stateAfter, List.foldl_append, List.foldl_cons, List.foldl_nil]

namespace Expr

/-- The arguments of a call after its evaluation in the given contexts, in order. -/
def argsAfter (args : List Expr) : List EvalContext → List Expr
  | [] => args
  | c :: cs => argsAfter (evalArgs c args).2 cs

/-- The applications that evaluations of a call come to: an evaluation in which an argument has
no value is none. -/
def applications (args : List Expr) : List EvalContext → List Application
  | [] => []
  | c :: cs =>
    match evalArgs c args with
    | (.ok vs, args') => ⟨c.now, vs, c.zone⟩ :: applications args' cs
    | (.error _, args') => applications args' cs

variable {f : Func} {args : List Expr}

theorem length_evalArgs (c : EvalContext) (args : List Expr) :
    (evalArgs c args).2.length = args.length := by
  induction args with
  | nil => rfl
  | cons e es ih =>
    simp only [evalArgs]
    split
    · rfl
    · split
      all_goals
        rename_i hes
        rw [hes] at ih
        simpa using ih

/-- A call that evaluates all its arguments, after any evaluations: its state is that after the
applications. -/
theorem after_call (hf : f ≠ .cond) (pos : Nat) (state : NodeState) (args : List Expr)
    (cs : List EvalContext) : (call f pos state args).after cs =
      call f pos (f.stateAfter state (applications args cs)) (argsAfter args cs) := by
  induction cs generalizing state args with
  | nil => rfl
  | cons c cs ih =>
    have hstrict : f = .cond → args.length < 3 := fun h => absurd h hf
    rw [after, eval_strict c pos state hstrict]
    cases hev : evalArgs c args with
    | mk rs args' =>
      cases rs with
      | error err => simp only [argsAfter, applications, hev, ih]
      | ok vs => simp only [argsAfter, applications, hev, ih, Func.stateAfter, List.foldl_cons]

/-- The next result of a call: that of its function at what the applications left behind. -/
theorem eval_after_call (hf : f ≠ .cond) (pos : Nat) (state : NodeState) (cs : List EvalContext)
    {c : EvalContext} {vs : List Value} (hargs : (evalArgs c (argsAfter args cs)).1 = .ok vs) :
    (((call f pos state args).after cs).eval c).1 =
      (f.apply vs (f.stateAfter state (applications args cs)) c.now c.zone).1 := by
  have hstrict : f = .cond → (argsAfter args cs).length < 3 := fun h => absurd h hf
  rw [after_call hf, eval_strict c pos _ hstrict]
  cases hev : evalArgs c (argsAfter args cs) with
  | mk rs args' =>
    rw [hev] at hargs
    dsimp only at hargs
    subst hargs
    rfl

theorem length_of_applications {cs : List EvalContext} {a : Application}
    (h : a ∈ applications args cs) : a.args.length = args.length := by
  induction cs generalizing args with
  | nil => cases h
  | cons c cs ih =>
    have hlen := length_evalArgs c args
    rw [applications] at h
    split at h
    · rename_i vs args' hev
      rw [hev] at hlen
      rcases List.mem_cons.mp h with rfl | h
      · exact length_of_evalArgs hev
      · rw [ih h, hlen]
    · rename_i hev
      rw [hev] at hlen
      rw [ih h, hlen]

end Expr

end ControlNode
