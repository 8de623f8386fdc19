import ControlNode.Expr.Deps
import ControlNode.Expr.Eval
import Mathlib.Data.List.Basic

/-!
# Trees under evaluation

Evaluation changes what calls remember and nothing else: the tree without its memories stays
the same over any sequence of evaluations (`reset_after`).
-/

namespace ControlNode.Expr

/-! ### Induction -/

mutual

theorem induct {motive : Expr → Prop} (const : ∀ v, motive (.const v))
    (ref : ∀ r, motive (.ref r))
    (call : ∀ f pos state args, (∀ a ∈ args, motive a) → motive (.call f pos state args)) :
    ∀ e, motive e
  | .const v => const v
  | .ref r => ref r
  | .call f pos state args => call f pos state args (inductArgs const ref call args)

theorem inductArgs {motive : Expr → Prop} (const : ∀ v, motive (.const v))
    (ref : ∀ r, motive (.ref r))
    (call : ∀ f pos state args, (∀ a ∈ args, motive a) → motive (.call f pos state args)) :
    ∀ args : List Expr, ∀ a ∈ args, motive a
  | [], _, h => nomatch h
  | e :: es, a, h => by
    have he := induct const ref call e
    have hes := inductArgs const ref call es
    rcases List.mem_cons.mp h with rfl | h
    · exact he
    · exact hes a h

end

/-! ### Evaluation of calls -/

/-- A condition with its branches, or a call that evaluates all its arguments. -/
theorem cond_or_strict (f : Func) (args : List Expr) :
    (f = .cond ∧ ∃ test yes no rest, args = test :: yes :: no :: rest) ∨
      (f = .cond → args.length < 3) := by
  by_cases hf : f = .cond
  · match args with
    | test :: yes :: no :: rest => exact Or.inl ⟨hf, test, yes, no, rest, rfl⟩
    | [] => exact Or.inr fun _ => by simp
    | [_] => exact Or.inr fun _ => by simp
    | [_, _] => exact Or.inr fun _ => by simp
  · exact Or.inr fun h => absurd h hf

theorem eval_cond (c : EvalContext) (pos : Nat) (state : NodeState) (test yes no : Expr)
    (rest : List Expr) : eval c (.call .cond pos state (test :: yes :: no :: rest)) =
      match eval c test with
      | (.error e, test') => (.error e, .call .cond pos state (test' :: yes :: no :: rest))
      | (.ok v, test') =>
        if v.toBool then
          ((eval c yes).1, .call .cond pos state (test' :: (eval c yes).2 :: no :: rest))
        else ((eval c no).1, .call .cond pos state (test' :: yes :: (eval c no).2 :: rest)) := by
  exact eval.eq_def c (.call .cond pos state (test :: yes :: no :: rest))

theorem eval_strict (c : EvalContext) {f : Func} (pos : Nat) (state : NodeState)
    {args : List Expr} (h : f = .cond → args.length < 3) :
    eval c (.call f pos state args) =
      match evalArgs c args with
      | (.error e, args') => (.error e, .call f pos state args')
      | (.ok vs, args') =>
        ((f.apply vs state c.now c.zone).1,
        .call f pos (f.apply vs state c.now c.zone).2 args') := by
  have hfew : ∀ test yes no rest, f = .cond → args = test :: yes :: no :: rest → False := by
    intro test yes no rest hf hargs
    have hlt := h hf
    simp only [hargs, List.length_cons] at hlt
    omega
  exact eval.eq_4 c f pos state args hfew

theorem length_of_evalArgs {c : EvalContext} {args args' : List Expr} {vs : List Value}
    (h : evalArgs c args = (.ok vs, args')) : vs.length = args.length := by
  induction args generalizing vs args' with
  | nil =>
    cases h
    rfl
  | cons e es ih =>
    simp only [evalArgs] at h
    split at h
    · cases h
    · split at h
      · cases h
      · rename_i hes
        cases h
        rw [List.length_cons, List.length_cons, ih hes]

/-! ### Memories -/

mutual

/-- The tree as it was read: no call remembers anything. -/
def reset : Expr → Expr
  | .const v => .const v
  | .ref r => .ref r
  | .call f pos _ args => .call f pos (.initial f) (resetArgs args)
termination_by structural e => e

def resetArgs : List Expr → List Expr
  | [] => []
  | e :: es => reset e :: resetArgs es
termination_by structural es => es

end

theorem resetArgs_eq_map (args : List Expr) : resetArgs args = args.map reset := by
  induction args with
  | nil => rfl
  | cons e es ih => rw [resetArgs, ih, List.map_cons]

theorem reset_call (f : Func) (pos : Nat) (state : NodeState) (args : List Expr) :
    reset (.call f pos state args) = .call f pos (.initial f) (args.map reset) := by
  rw [reset, resetArgs_eq_map]

theorem map_reset_evalArgs {c : EvalContext} {args : List Expr}
    (h : ∀ a ∈ args, (eval c a).2.reset = a.reset) :
    (evalArgs c args).2.map reset = args.map reset := by
  induction args with
  | nil => rfl
  | cons e es ih =>
    have he := h e (List.mem_cons_self ..)
    have hes := ih fun a ha => h a (List.mem_cons_of_mem e ha)
    simp only [evalArgs]
    cases hev : eval c e with
    | mk r e' =>
      rw [hev] at he
      cases r with
      | error err => simp only [List.map_cons, he]
      | ok v =>
        cases hevs : evalArgs c es with
        | mk rs es' =>
          rw [hevs] at hes
          cases rs with
          | error err => simp only [List.map_cons, he, hes]
          | ok vs => simp only [List.map_cons, he, hes]

/-- One evaluation changes nothing but memories. -/
theorem reset_eval (c : EvalContext) (e : Expr) : (e.eval c).2.reset = e.reset := by
  induction e using induct with
  | const v => rfl
  | ref r => rfl
  | call f pos state args ih =>
    rcases cond_or_strict f args with ⟨rfl, test, yes, no, rest, rfl⟩ | hstrict
    · have htest := ih test (by simp)
      have hyes := ih yes (by simp)
      have hno := ih no (by simp)
      rw [eval_cond]
      cases hev : eval c test with
      | mk r test' =>
        rw [hev] at htest
        cases r with
        | error err => simp only [reset_call, List.map_cons, htest]
        | ok v =>
          simp only
          split
          · simp only [reset_call, List.map_cons, htest, hyes]
          · simp only [reset_call, List.map_cons, htest, hno]
    · have hargs := map_reset_evalArgs ih
      rw [eval_strict c pos state hstrict]
      cases hev : evalArgs c args with
      | mk rs args' =>
        rw [hev] at hargs
        cases rs with
        | error err => simp only [reset_call, hargs]
        | ok vs => simp only [reset_call, hargs]

def after (e : Expr) : List EvalContext → Expr
  | [] => e
  | c :: cs => (e.eval c).2.after cs

theorem reset_after (e : Expr) (cs : List EvalContext) : (e.after cs).reset = e.reset := by
  induction cs generalizing e with
  | nil => rfl
  | cons c cs ih => rw [after, ih, reset_eval]

/-! ### Printing -/

theorem textOfArgs_map {f : Expr → Expr} {args : List Expr}
    (h : ∀ a ∈ args, (f a).text = a.text) : textOfArgs (args.map f) = textOfArgs args := by
  induction args with
  | nil => rfl
  | cons e es ih =>
    have he := h e (List.mem_cons_self ..)
    have hes := ih fun a ha => h a (List.mem_cons_of_mem _ ha)
    cases es with
    | nil => simp only [List.map_cons, List.map_nil, textOfArgs, he]
    | cons e' es =>
      rw [List.map_cons] at hes
      simp only [List.map_cons, textOfArgs, he, hes]

theorem text_reset (e : Expr) : e.reset.text = e.text := by
  induction e using induct with
  | const v => rfl
  | ref r => rfl
  | call f pos state args ih => rw [reset_call, text, text, textOfArgs_map ih]

/-! ### What a tree mentions -/

theorem mentionsOfArgs_eq_flatMap (args : List Expr) :
    mentionsOfArgs args = args.flatMap mentions := by
  induction args with
  | nil => rfl
  | cons e es ih => rw [mentionsOfArgs, ih, List.flatMap_cons]

theorem mentions_call (f : Func) (pos : Nat) (state : NodeState) (args : List Expr) :
    mentions (.call f pos state args) =
      Dep.ofClock (f.clockOfCall args.length) ++ args.flatMap mentions := by
  rw [mentions, mentionsOfArgs_eq_flatMap]

theorem mentions_reset (e : Expr) : e.reset.mentions = e.mentions := by
  induction e using induct with
  | const v => rfl
  | ref r => rfl
  | call f pos state args ih =>
    have hargs : (args.map reset).flatMap mentions = args.flatMap mentions := by
      rw [List.flatMap_map]
      exact List.flatMap_congr ih
    rw [reset_call, mentions_call, mentions_call, List.length_map, hargs]

theorem mentions_after (e : Expr) (cs : List EvalContext) :
    (e.after cs).mentions = e.mentions := by
  rw [← mentions_reset, reset_after, mentions_reset]

end ControlNode.Expr
