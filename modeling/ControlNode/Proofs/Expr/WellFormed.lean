import ControlNode.Proofs.Expr.Reading
import ControlNode.Proofs.Expr.Tree

/-!
# Well-formed trees

Every call of a tree that was read has as many arguments as its function takes and every
reference has an id that can be written. Evaluation changes neither.
-/

namespace ControlNode.Expr

/-- A tree that reading can give, whatever its calls remember. -/
inductive WellFormed (selfId : String) : Expr → Prop
  | const (v : Value) : WellFormed selfId (.const v)
  | selfRef (pos : Nat) : WellFormed selfId (.ref ⟨selfId, true, pos⟩)
  | portRef {id : List Char} (hne : id ≠ []) (hself : id ≠ selfWord)
      (hid : ∀ c ∈ id, isIdChar c = true) (pos : Nat) :
      WellFormed selfId (.ref ⟨String.ofList id, false, pos⟩)
  | call {f : Func} {args : List Expr} (pos : Nat) (state : NodeState)
      (hcount : f.accepts args.length = true) (hargs : ∀ a ∈ args, WellFormed selfId a) :
      WellFormed selfId (.call f pos state args)

variable {selfId : String}

theorem WellFormed.accepts {f : Func} {pos : Nat} {state : NodeState} {args : List Expr}
    (h : WellFormed selfId (.call f pos state args)) : f.accepts args.length = true := by
  cases h with
  | call _ _ hcount _ => exact hcount

theorem WellFormed.arg {f : Func} {pos : Nat} {state : NodeState} {args : List Expr}
    (h : WellFormed selfId (.call f pos state args)) {a : Expr} (ha : a ∈ args) :
    WellFormed selfId a := by
  cases h with
  | call _ _ _ hargs => exact hargs a ha

theorem WellFormed.of_occurs {n e : Expr} (h : WellFormed selfId e) (ho : Occurs n e) :
    WellFormed selfId n := by
  induction ho with
  | here => exact h
  | inside ha _ ih => exact ih (h.arg ha)

/-! ### Reading gives well-formed trees -/

mutual

theorem Derives.wellFormed : ∀ {before text : List Char} {e : Expr},
    Derives selfId before text e → WellFormed selfId e
  | _, _, _, .surround _ _ h => h.wellFormed

theorem DerivesCore.wellFormed : ∀ {before core : List Char} {e : Expr},
    DerivesCore selfId before core e → WellFormed selfId e
  | _, _, _, .selfRef _ => .selfRef _
  | _, _, _, .portRef hne hself hid => .portRef hne hself hid _
  | _, _, _, .const _ _ => .const _
  | _, _, _, .call _ _ h hcount => .call _ _ hcount h.wellFormed

theorem DerivesBody.wellFormed : ∀ {before body : List Char} {args : List Expr},
    DerivesBody selfId before body args → ∀ a ∈ args, WellFormed selfId a
  | _, _, _, .blank _ => by
    intro a ha
    cases ha
  | _, _, _, .list h => h.wellFormed

theorem DerivesArgs.wellFormed : ∀ {before body : List Char} {args : List Expr},
    DerivesArgs selfId before body args → ∀ a ∈ args, WellFormed selfId a
  | _, _, _, .last h => by
    have he := h.wellFormed
    intro a ha
    rw [List.mem_singleton.mp ha]
    exact he
  | _, _, _, .next h hrest => by
    have he := h.wellFormed
    have hes := hrest.wellFormed
    intro a ha
    rcases List.mem_cons.mp ha with rfl | ha
    · exact he
    · exact hes a ha

end

theorem wellFormed_of_parse {source : String} {e : Expr} (h : parse source selfId = .ok e) :
    WellFormed selfId e :=
  (derives_of_parse h).wellFormed

/-! ### Evaluation keeps trees well-formed -/

theorem wellFormed_reset_iff (e : Expr) : WellFormed selfId e.reset ↔ WellFormed selfId e := by
  induction e using induct with
  | const v => exact Iff.rfl
  | ref r => exact Iff.rfl
  | call f pos state args ih =>
    rw [reset_call]
    constructor
    · intro h
      have hcount := h.accepts
      rw [List.length_map] at hcount
      refine .call pos state hcount ?_
      intro a ha
      exact (ih a ha).mp (h.arg (List.mem_map_of_mem ha))
    · intro h
      have hcount := h.accepts
      rw [← List.length_map (f := reset)] at hcount
      refine .call pos _ hcount ?_
      intro b hb
      obtain ⟨a, ha, rfl⟩ := List.mem_map.mp hb
      exact (ih a ha).mpr (h.arg ha)

theorem WellFormed.after {e : Expr} (h : WellFormed selfId e) (cs : List EvalContext) :
    WellFormed selfId (e.after cs) := by
  rw [← wellFormed_reset_iff, reset_after, wellFormed_reset_iff]
  exact h

end ControlNode.Expr
