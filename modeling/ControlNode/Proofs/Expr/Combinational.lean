import ControlNode.Proofs.Expr.Dependence

/-!
# Combinational expressions

Without memories, clocks and references to its own port an expression yields the same as long as
the ports that it refers to have the same values (`Combinational.eval_eq`), and evaluation leaves
it as it is (`Memoryless.eval`).
-/

namespace ControlNode

def Func.remembers (f : Func) : Bool := f = .held || f = .delay || f = .hyst

theorem Func.apply_snd {f : Func} (h : f.remembers = false) (args : List Value)
    (state : NodeState) (now : Int) (zone : Zone) : (f.apply args state now zone).2 = state := by
  cases f with
  | held | delay | hyst => cases h
  | _ => rfl

namespace Expr

/-! ### Expressions without memories -/

mutual

/-- The functions that an expression calls, left to right. -/
def calls : Expr → List Func
  | .const _ => []
  | .ref _ => []
  | .call f _ _ args => f :: callsOfArgs args
termination_by structural e => e

def callsOfArgs : List Expr → List Func
  | [] => []
  | e :: es => calls e ++ callsOfArgs es
termination_by structural es => es

end

theorem callsOfArgs_eq_flatMap (args : List Expr) : callsOfArgs args = args.flatMap calls := by
  induction args with
  | nil => rfl
  | cons e es ih => rw [callsOfArgs, ih, List.flatMap_cons]

/-- No call remembers what it has seen. -/
def Memoryless (e : Expr) : Prop := ∀ f ∈ e.calls, f.remembers = false

namespace Memoryless

variable {f : Func} {pos : Nat} {state : NodeState} {args : List Expr}

theorem head (h : Memoryless (.call f pos state args)) : f.remembers = false :=
  h f (List.mem_cons_self ..)

theorem arg (h : Memoryless (.call f pos state args)) {a : Expr} (ha : a ∈ args) :
    Memoryless a := by
  intro g hg
  apply h g
  rw [calls, callsOfArgs_eq_flatMap]
  exact List.mem_cons_of_mem _ (List.mem_flatMap.mpr ⟨a, ha, hg⟩)

end Memoryless

theorem evalArgs_snd {c : EvalContext} {args : List Expr} (h : ∀ a ∈ args, (eval c a).2 = a) :
    (evalArgs c args).2 = args := by
  induction args with
  | nil => rfl
  | cons e es ih =>
    have he := h e (List.mem_cons_self ..)
    have hes := ih fun a ha => h a (List.mem_cons_of_mem e ha)
    simp only [evalArgs]
    split
    · rename_i hev
      rw [hev] at he
      exact congrArg (· :: es) he
    · rename_i hev
      rw [hev] at he
      split
      · rename_i hevs
        rw [hevs] at hes
        exact congrArg₂ List.cons he hes
      · rename_i hevs
        rw [hevs] at hes
        exact congrArg₂ List.cons he hes

theorem Memoryless.eval {e : Expr} (h : e.Memoryless) (c : EvalContext) : (e.eval c).2 = e := by
  induction e using induct with
  | const v => rfl
  | ref r => rfl
  | call f pos state args ih =>
    have hargs (a : Expr) (ha : a ∈ args) : (Expr.eval c a).2 = a := ih a ha (h.arg ha)
    rcases cond_or_strict f args with ⟨rfl, test, yes, no, rest, rfl⟩ | hstrict
    · have htest := hargs test (by simp)
      have hyes := hargs yes (by simp)
      have hno := hargs no (by simp)
      rw [eval_cond]
      split
      · rename_i hev
        rw [hev] at htest
        rw [← htest]
      · rename_i hev
        rw [hev] at htest
        simp only [hyes, hno]
        split <;> rw [← htest]
    · have hall := evalArgs_snd hargs
      rw [eval_strict c pos state hstrict]
      split
      · rename_i hev
        rw [hev] at hall
        rw [← hall]
      · rename_i hev
        rw [hev] at hall
        rw [Func.apply_snd h.head, ← hall]

/-! ### Combinational expressions -/

/-- An expression of the port `selfId` that looks at nothing but other ports. -/
structure Combinational (selfId : String) (e : Expr) : Prop where
  memoryless : e.Memoryless
  noSecond : Dep.time ∉ e.mentions
  noMillisecond : Dep.timeMs ∉ e.mentions
  noSelf : Dep.port selfId ∉ e.mentions

instance (selfId : String) (e : Expr) : Decidable (e.Combinational selfId) :=
  decidable_of_iff ((∀ f ∈ e.calls, f.remembers = false) ∧ Dep.time ∉ e.mentions ∧
      Dep.timeMs ∉ e.mentions ∧ Dep.port selfId ∉ e.mentions)
    ⟨fun h => ⟨h.1, h.2.1, h.2.2.1, h.2.2.2⟩,
      fun h => ⟨h.memoryless, h.noSecond, h.noMillisecond, h.noSelf⟩⟩

theorem Combinational.eval_eq {selfId : String} {e : Expr} (h : e.Combinational selfId)
    (hwf : WellFormed selfId e) {c₁ c₂ : EvalContext} (zone : Zone)
    (hvalues : ∀ id, .port id ∈ e.mentions → c₁.values.get? id = c₂.values.get? id) :
    e.eval (c₁.forPort selfId zone) = e.eval (c₂.forPort selfId zone) := by
  apply eval_congr hwf
  refine ⟨?_, fun hms => absurd hms h.noMillisecond, fun hs => absurd hs h.noSecond, rfl⟩
  intro id hid
  simpa [EvalContext.valueOf, EvalContext.forPort] using hvalues id hid

end Expr

end ControlNode
