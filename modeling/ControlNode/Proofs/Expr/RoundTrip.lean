import ControlNode.Proofs.Expr.WellFormed

/-!
# Printing and reading back

The text of an expression that was read derives an equal expression, so expressions that are
stored as texts come back as they were (`parse_text_of_parse`). How a number is written
matters only in so far as its text reads as an equal number.
-/

namespace ControlNode.Expr

open Text

/-! ### Numbers -/

mutual

/-- The numbers that stand in an expression, left to right. -/
def numbers : Expr → List Float
  | .const (.bool _) => []
  | .const (.num x) => [x]
  | .ref _ => []
  | .call _ _ _ args => numbersOfArgs args
termination_by structural e => e

def numbersOfArgs : List Expr → List Float
  | [] => []
  | e :: es => numbers e ++ numbersOfArgs es
termination_by structural es => es

end

/-- The text of a number is a constant of an equal number. -/
def ReadsBack (x : Float) : Prop :=
  (constantValue? (Decimal.plain.text x).toList).any (Value.num x).same = true

instance (x : Float) : Decidable (ReadsBack x) :=
  inferInstanceAs (Decidable (_ = true))

theorem numbersOfArgs_eq_flatMap (args : List Expr) :
    numbersOfArgs args = args.flatMap numbers := by
  induction args with
  | nil => rfl
  | cons e es ih => rw [numbersOfArgs, ih, List.flatMap_cons]

theorem mem_numbers_call {f : Func} {pos : Nat} {state : NodeState} {args : List Expr} {a : Expr}
    {x : Float} (ha : a ∈ args) (hx : x ∈ a.numbers) :
    x ∈ (Expr.call f pos state args).numbers := by
  rw [numbers, numbersOfArgs_eq_flatMap]
  exact List.mem_flatMap.mpr ⟨a, ha, hx⟩

/-! ### Printed constants and references -/

theorem Literal.ne_nil {token : List Char} {v : Value} (h : Literal token v) : token ≠ [] := by
  rintro rfl
  have hnone : constantValue? [] = none := by decide
  rw [literal_iff, hnone] at h
  cases h

theorem Literal.constantText {token : List Char} {v : Value} (h : Literal token v) :
    ConstantText token := by
  refine ⟨h.ne_nil, ?_, ?_, ?_, ?_⟩
  · intro hc
    exact (h.plain _ hc).ne_open rfl
  · intro hc
    exact (h.plain _ hc).ne_close rfl
  · intro hc
    exact (h.plain _ hc).ne_comma rfl
  · intro hd
    exact (h.plain _ (List.mem_of_mem_head? hd)).ne_dollar rfl

variable {selfId : String}

/-- Trees that are related whatever their positions and memories: only constants matter. -/
structure Congruence (R : Expr → Expr → Prop) : Prop where
  bool : ∀ b, R (.const (.bool b)) (.const (.bool b))
  ref : ∀ {r r' : PortRef}, r.id = r'.id → r.isSelf = r'.isSelf → R (.ref r) (.ref r')
  call : ∀ {f : Func} {pos pos' : Nat} {state state' : NodeState} {args args' : List Expr},
    List.Forall₂ R args args' → R (.call f pos state args) (.call f pos' state' args')

variable {R : Expr → Expr → Prop}

theorem exists_derivesCore_ref (hR : Congruence R) {r : PortRef}
    (h : WellFormed selfId (.ref r)) (before : List Char) :
    ∃ e', DerivesCore selfId before (text (.ref r)).toList e' ∧ R (.ref r) e' := by
  cases h with
  | selfRef pos =>
    have hcore : DerivesCore selfId before ['$'] (.ref ⟨selfId, true, byteLength before⟩) :=
      .selfRef (Or.inl rfl)
    refine ⟨.ref ⟨selfId, true, byteLength before⟩, ?_, hR.ref rfl rfl⟩
    simpa [text] using hcore
  | @portRef id hne hself hid pos =>
    have hcore : DerivesCore selfId before ('$' :: id)
        (.ref ⟨String.ofList id, false, byteLength before⟩) := .portRef hne hself hid
    refine ⟨.ref ⟨String.ofList id, false, byteLength before⟩, ?_, hR.ref rfl rfl⟩
    simpa [text] using hcore

/-! ### Blanks in front -/

theorem DerivesCore.derives_append {before left core : List Char} {e : Expr}
    (hl : allBlank left = true) (h : DerivesCore selfId (before ++ left) core e) :
    Derives selfId before (left ++ core) e := by
  have hsurround := Derives.surround hl allBlank_nil h
  rwa [List.append_nil] at hsurround

theorem DerivesCore.derives {before core : List Char} {e : Expr}
    (h : DerivesCore selfId before core e) : Derives selfId before core e := by
  rw [← List.append_nil before] at h
  exact h.derives_append allBlank_nil

/-! ### Printed arguments -/

/-- Behind each comma of a printed list stands one blank. -/
theorem exists_derivesArgs_text {args : List Expr} (hne : args ≠ [])
    (h : ∀ a ∈ args, ∀ before, ∃ a', DerivesCore selfId before (text a).toList a' ∧ R a a')
    (before left : List Char) (hl : allBlank left = true) :
    ∃ args', DerivesArgs selfId before (left ++ (textOfArgs args).toList) args' ∧
      List.Forall₂ R args args' := by
  -- the blank in front is part of the induction: only the first argument has none
  induction args generalizing before left with
  | nil => exact absurd rfl hne
  | cons e es ih =>
    obtain ⟨e', hcore, he⟩ := h e (List.mem_cons_self ..) (before ++ left)
    have hfirst := hcore.derives_append hl
    cases es with
    | nil => exact ⟨[e'], .last hfirst, .cons he .nil⟩
    | cons e₂ es =>
      obtain ⟨es', hrest, hes⟩ := ih (List.cons_ne_nil e₂ es)
        (fun a ha => h a (List.mem_cons_of_mem e ha))
        (before ++ (left ++ (text e).toList) ++ [',']) [' '] (by decide)
      refine ⟨e' :: es', ?_, .cons he hes⟩
      have hnext := DerivesArgs.next hfirst hrest
      simpa [textOfArgs] using hnext

/-! ### Printed expressions -/

/-- The text of a well-formed tree derives a related tree if the texts of its numbers do. -/
theorem exists_derivesCore_of_congruence (hR : Congruence R) {e : Expr}
    (hwf : WellFormed selfId e)
    (hnum : ∀ x ∈ e.numbers, ∃ v, Literal (Value.num x).text.toList v ∧
      R (.const (.num x)) (.const v)) (before : List Char) :
    ∃ e', DerivesCore selfId before (text e).toList e' ∧ R e e' := by
  induction e using induct generalizing before with
  | const v =>
    cases v with
    | num x =>
      obtain ⟨v, hlit, hv⟩ := hnum x (List.mem_singleton_self x)
      exact ⟨.const v, .const hlit.constantText hlit, hv⟩
    | bool b =>
      have hlit : Literal (Value.bool b).text.toList (.bool b) := by
        cases b with
        | true => exact .yes
        | false => exact .no
      exact ⟨.const (.bool b), .const hlit.constantText hlit, hR.bool b⟩
  | ref r => exact exists_derivesCore_ref hR hwf before
  | call f pos state args ih =>
    have hargs (a : Expr) (ha : a ∈ args) (before : List Char) :
        ∃ a', DerivesCore selfId before (text a).toList a' ∧ R a a' :=
      ih a ha (hwf.arg ha) (fun x hx => hnum x (mem_numbers_call ha hx)) before
    have hbody : ∃ args', DerivesBody selfId (before ++ f.name.toList ++ [] ++ ['('])
        (textOfArgs args).toList args' ∧ List.Forall₂ R args args' := by
      by_cases hne : args = []
      · subst hne
        exact ⟨[], .blank rfl, .nil⟩
      · obtain ⟨args', hderives, hrel⟩ := exists_derivesArgs_text hne hargs
          (before ++ f.name.toList ++ [] ++ ['(']) [] allBlank_nil
        exact ⟨args', .list hderives, hrel⟩
    obtain ⟨args', hderives, hrel⟩ := hbody
    have hcount : f.accepts args'.length = true := by
      rw [← hrel.length_eq]
      exact hwf.accepts
    refine ⟨.call f (byteLength before) (.initial f) args', ?_, hR.call hrel⟩
    have hcall := DerivesCore.call rfl rfl hderives hcount
    simpa [text] using hcall

theorem sameArgs_of_forall₂ {es es' : List Expr}
    (h : List.Forall₂ (fun e e' => same e e' = true) es es') : sameArgs es es' = true := by
  induction h with
  | nil => rfl
  | cons he _ ih => rw [sameArgs, he, ih, Bool.and_self]

theorem congruence_same : Congruence fun e e' => same e e' = true where
  bool b := by rw [same, Value.same, beq_self_eq_true]
  ref hid hself := by rw [same, hid, hself, beq_self_eq_true, beq_self_eq_true, Bool.and_self]
  call hargs := by rw [same, sameArgs_of_forall₂ hargs, beq_self_eq_true, Bool.and_self]

/-- The text of a well-formed tree derives an equal tree. -/
theorem exists_derivesCore_text {e : Expr} (hwf : WellFormed selfId e)
    (hnum : ∀ x ∈ e.numbers, ReadsBack x) (before : List Char) :
    ∃ e', DerivesCore selfId before (text e).toList e' ∧ same e e' = true := by
  apply exists_derivesCore_of_congruence congruence_same hwf _ before
  intro x hx
  obtain ⟨v, hv, hsame⟩ := (Option.any_eq_true _ _).mp (hnum x hx)
  exact ⟨v, (literal_iff _ v).mpr hv, hsame⟩

/-- The text of an expression that was read is read as an equal expression. -/
theorem parse_text_of_parse {source selfId : String} {e : Expr}
    (h : parse source selfId = .ok e) (hnum : ∀ x ∈ e.numbers, ReadsBack x) :
    ∃ e', parse e.text selfId = .ok e' ∧ e.same e' = true := by
  obtain ⟨e', hcore, hsame⟩ := exists_derivesCore_text (wellFormed_of_parse h) hnum []
  exact ⟨e', parse_of_derives hcore.derives, hsame⟩

theorem parse_text_nested :
    ∃ e, parse " if($a,mul( $self,2.50 ), Hyst($, -3, TIME( )))" "me" = .ok e ∧
      (∀ x ∈ e.numbers, ReadsBack x) ∧ e.text = "IF($a, MUL($, 2.5), HYST($, -3, TIME()))" ∧
      ∃ e', parse e.text "me" = .ok e' ∧ e.same e' = true := by
  have hread : (parse " if($a,mul( $self,2.50 ), Hyst($, -3, TIME( )))" "me").toOption.any
      (fun e => decide (∀ x ∈ e.numbers, ReadsBack x) &&
        decide (e.text = "IF($a, MUL($, 2.5), HYST($, -3, TIME()))")) = true := by
    decide +kernel
  cases hparse : parse " if($a,mul( $self,2.50 ), Hyst($, -3, TIME( )))" "me" with
  | error err =>
    rw [hparse] at hread
    cases hread
  | ok e =>
    rw [hparse] at hread
    simp only [Except.toOption, Option.any_some, Bool.and_eq_true, decide_eq_true_eq] at hread
    obtain ⟨hnum, htext⟩ := hread
    exact ⟨e, rfl, hnum, htext, parse_text_of_parse hparse hnum⟩

end ControlNode.Expr
