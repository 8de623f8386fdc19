import ControlNode.Proofs.Store.Comparisons

/-!
# Laws of the operators

How the operators of a filter belong together (`operator_laws`): the order of two values that
are comparable satisfies one of `lt`, `in` and `gt`, equality is `in` with a list of one value,
and a filter asks for each of its single conditions.
-/

namespace ControlNode

def Json.hasOperatorKey : Json → Bool
  | .obj fields => fields.any fun e => (Filter.Operator.ofName? e.1).isSome
  | _ => false

namespace Filter

def Operator.name : Operator → String
  | .gt => "gt"
  | .ge => "ge"
  | .lt => "lt"
  | .le => "le"
  | .isIn => "in"

theorem Operator.ofName?_name (op : Operator) : ofName? op.name = some op := by
  cases op <;> rfl

def only (field : String) (op : Operator) (v : Json) : Filter := [(field, .obj [(op.name, v)])]

def operatorsOf (fields : List (String × Json)) : List (Operator × Json) :=
  fields.filterMap fun e => (Operator.ofName? e.1).map fun op => (op, e.2)

def asks (cond actual : Json) : Except FilterError Bool := do
  let c ← Condition.ofJson cond
  c.matches actual

def parts (cond : Json) : List Json :=
  match cond with
  | .obj fields =>
    if fields ≠ [] ∧ fields.all fun e => (Operator.ofName? e.1).isSome then
      fields.map fun e => .obj [e]
    else [cond]
  | _ => [cond]

def singles (f : Filter) : List Filter :=
  f.flatMap fun e => (parts e.2).map fun cond => [(e.1, cond)]

/-! ### One condition -/

theorem matchesRecord_cons {cond actual : Json} {hit : Bool} (h : asks cond actual = .ok hit)
    {r : Record} {field : String} (hactual : (Dict.get? r field).getD .null = actual)
    (rest : Filter) :
    matchesRecord r ((field, cond) :: rest) = if hit then matchesRecord r rest else .ok false := by
  subst hactual
  unfold asks at h
  rw [matchesRecord]
  cases hc : Condition.ofJson cond with
  | error e =>
    rw [hc] at h
    cases h
  | ok c =>
    rw [hc] at h
    change c.matches _ = _ at h
    change (c.matches _ >>= fun hit => if hit then matchesRecord r rest else .ok false) = _
    rw [h]
    rfl

theorem matchesRecord_single (r : Record) (field : String) (cond : Json) :
    matchesRecord r [(field, cond)] = asks cond ((Dict.get? r field).getD .null) := by
  rw [matchesRecord, asks]
  cases Condition.ofJson cond with
  | error e => rfl
  | ok c =>
    change (c.matches _ >>= fun hit => if hit then matchesRecord r [] else .ok false) =
      c.matches _
    cases c.matches ((Dict.get? r field).getD .null) with
    | error e => rfl
    | ok hit => cases hit <;> rfl

theorem asks_operator {key : String} {op : Operator} (h : Operator.ofName? key = some op)
    (operand actual : Json) : asks (.obj [(key, operand)]) actual = holds op actual operand := by
  have hcond : Condition.ofJson (.obj [(key, operand)]) = .ok (.operators [(op, operand)]) := by
    simp [Condition.ofJson, h]
  rw [asks, hcond]
  change allHold actual [(op, operand)] = _
  rw [allHold]
  cases holds op actual operand with
  | error e => rfl
  | ok hit => cases hit <;> rfl

theorem matchesRecord_only (r : Record) (field : String) (op : Operator) (v : Json) :
    matchesRecord r (only field op v) = holds op ((Dict.get? r field).getD .null) v := by
  rw [only, matchesRecord_single, asks_operator op.ofName?_name]

theorem Condition.ofJson_obj (fields : List (String × Json)) :
    ofJson (.obj fields) =
      if (operatorsOf fields).isEmpty then .ok (.equals (.obj fields))
      else if (operatorsOf fields).length = fields.length then .ok (.operators (operatorsOf fields))
      else .error (.mixedOperators (.obj fields)) :=
  rfl

theorem asks_equals {v : Json} (h : v.hasOperatorKey = false) (actual : Json) :
    asks v actual = .ok (actual.equiv v) := by
  cases v with
  | obj fields =>
    have hnone : operatorsOf fields = [] := by
      rw [operatorsOf, List.filterMap_eq_nil_iff]
      intro e he
      have hkey := List.any_eq_false.mp h e he
      rw [Option.map_eq_none_iff]
      simpa using hkey
    rw [asks, Condition.ofJson_obj, hnone]
    rfl
  | _ => rfl

/-! ### Several conditions -/

theorem allHold_operatorsOf {fields : List (String × Json)} {actual : Json}
    (hops : ∀ e ∈ fields, (Operator.ofName? e.1).isSome = true)
    (hvalid : ∀ e ∈ fields, ∃ hit, asks (.obj [e]) actual = .ok hit) :
    (operatorsOf fields).length = fields.length ∧
      ∃ hit, allHold actual (operatorsOf fields) = .ok hit ∧
        (hit = true ↔ ∀ e ∈ fields, asks (.obj [e]) actual = .ok true) := by
  induction fields with
  | nil => exact ⟨rfl, true, rfl, by simp⟩
  | cons e fields ih =>
    obtain ⟨key, operand⟩ := e
    obtain ⟨hop, hops⟩ := List.forall_mem_cons.mp hops
    obtain ⟨⟨first, hfirst⟩, hvalid⟩ := List.forall_mem_cons.mp hvalid
    obtain ⟨hlen, rest, hrest, hiff⟩ := ih hops hvalid
    obtain ⟨op, hop⟩ := Option.isSome_iff_exists.mp hop
    have hcons : operatorsOf ((key, operand) :: fields) = (op, operand) :: operatorsOf fields := by
      simp [operatorsOf, hop]
    have hholds : holds op actual operand = .ok first := by rw [← asks_operator hop, hfirst]
    rw [hcons, List.length_cons, List.length_cons, hlen, allHold, hholds]
    refine ⟨rfl, ?_⟩
    cases first with
    | false =>
      refine ⟨false, rfl, ?_⟩
      simp [hfirst]
    | true =>
      refine ⟨rest, hrest, ?_⟩
      rw [List.forall_mem_cons, hiff]
      simp [hfirst]

theorem asks_iff_parts {cond actual : Json}
    (h : ∀ part ∈ parts cond, ∃ hit, asks part actual = .ok hit) :
    ∃ hit, asks cond actual = .ok hit ∧
      (hit = true ↔ ∀ part ∈ parts cond, asks part actual = .ok true) := by
  -- a condition that is not split, an invalid one among them, is asked as it is
  have hwhole : parts cond = [cond] → ∃ hit, asks cond actual = .ok hit ∧
      (hit = true ↔ ∀ part ∈ parts cond, asks part actual = .ok true) := by
    intro hparts
    rw [hparts] at h ⊢
    obtain ⟨hit, hhit⟩ := h cond (List.mem_singleton_self cond)
    exact ⟨hit, hhit, by simp [hhit]⟩
  cases cond with
  | obj fields =>
    by_cases hops : fields ≠ [] ∧ (fields.all fun e => (Operator.ofName? e.1).isSome) = true
    · have hparts : parts (.obj fields) = fields.map fun e => .obj [e] := by
        rw [parts, if_pos hops]
      rw [hparts, List.forall_mem_map] at h
      obtain ⟨hlen, hit, hhit, hiff⟩ := allHold_operatorsOf (List.all_eq_true.mp hops.2) h
      have hsome : (operatorsOf fields).isEmpty = false := by
        rw [List.isEmpty_eq_false_iff, ← List.length_pos_iff, hlen]
        exact List.length_pos_iff.mpr hops.1
      refine ⟨hit, ?_, ?_⟩
      · rw [asks, Condition.ofJson_obj, hsome, if_pos hlen]
        exact hhit
      · rw [hparts, List.forall_mem_map]
        exact hiff
    · exact hwhole (by rw [parts, if_neg hops])
  | _ => exact hwhole rfl

theorem forall_singles_cons {P : Filter → Prop} {field : String} {cond : Json} {rest : Filter} :
    (∀ s ∈ singles ((field, cond) :: rest), P s) ↔
      (∀ part ∈ parts cond, P [(field, part)]) ∧ ∀ s ∈ singles rest, P s := by
  rw [singles, List.flatMap_cons, List.forall_mem_append, List.forall_mem_map]
  rfl

theorem matchesRecord_iff_singles {r : Record} {f : Filter}
    (h : ∀ s ∈ f.singles, ∃ hit, matchesRecord r s = .ok hit) :
    ∃ hit, matchesRecord r f = .ok hit ∧
      (hit = true ↔ ∀ s ∈ f.singles, matchesRecord r s = .ok true) := by
  induction f with
  | nil => exact ⟨true, rfl, by simp [singles]⟩
  | cons e rest ih =>
    obtain ⟨field, cond⟩ := e
    obtain ⟨hparts, hvalid⟩ := forall_singles_cons.mp h
    obtain ⟨last, hlast, hrest⟩ := ih hvalid
    simp only [matchesRecord_single] at hparts
    obtain ⟨first, hfirst, hiff⟩ := asks_iff_parts hparts
    rw [forall_singles_cons, matchesRecord_cons hfirst rfl]
    simp only [matchesRecord_single, ← hiff, ← hrest]
    cases first with
    | false => exact ⟨false, rfl, by simp⟩
    | true => exact ⟨last, hlast, by simp⟩

/-! ### The laws -/

theorem holds_order {actual v : Json} {op : Operator} (hop : op ≠ .isIn) {o : Ordering}
    (h : actual.compareScalars? v = some o) : holds op actual v = .ok (op.admits o) := by
  cases op with
  | isIn => exact absurd rfl hop
  | _ => simp [holds, h]

theorem holds_unordered {actual v : Json} {op : Operator} (hop : op ≠ .isIn)
    (h : actual.compareScalars? v = none) : holds op actual v = .ok false := by
  cases op with
  | isIn => exact absurd rfl hop
  | _ => simp [holds, h]

theorem holds_isIn_singleton (actual v : Json) :
    holds .isIn actual (.arr [v]) = .ok (actual.equiv v) := by
  simp [holds]

/-- Of `lt`, `in` and `gt` one is satisfied by what is comparable, and the rest follows; other
values satisfy no order. A value asks for equality, and a filter for all that it consists of. -/
theorem operator_laws {r : Record} (hr : r.WellFormed) {v : Json} (hv : v.WellFormed)
    (field : String) :
    (((Dict.get? r field).getD .null).comparable v = true →
      ∃ lt eq gt : Bool, [lt, eq, gt].count true = 1 ∧
        matchesRecord r (only field .lt v) = .ok lt ∧
        matchesRecord r (only field .isIn (.arr [v])) = .ok eq ∧
        matchesRecord r (only field .gt v) = .ok gt ∧
        matchesRecord r (only field .ge v) = .ok (!lt) ∧
        matchesRecord r (only field .le v) = .ok (!gt)) ∧
    (((Dict.get? r field).getD .null).comparable v = false →
      ∀ op, op ≠ .isIn → matchesRecord r (only field op v) = .ok false) ∧
    (v.hasOperatorKey = false →
      matchesRecord r [(field, v)] = matchesRecord r (only field .isIn (.arr [v]))) ∧
    ∀ f : Filter, (∀ s ∈ f.singles, ∃ hit, matchesRecord r s = .ok hit) →
      ∃ hit, matchesRecord r f = .ok hit ∧
        (hit = true ↔ ∀ s ∈ f.singles, matchesRecord r s = .ok true) := by
  simp only [matchesRecord_only]
  refine ⟨?_, ?_, ?_, fun f h => matchesRecord_iff_singles h⟩
  · intro hcomp
    obtain ⟨o, ho, heq⟩ := Json.compareScalars?_of_comparable (hr.getD field) hv hcomp
    have hequiv : ((Dict.get? r field).getD .null).equiv v = (o == .eq) := by
      rw [Bool.eq_iff_iff, heq, beq_iff_eq]
    refine ⟨o == .lt, o == .eq, o == .gt, ?_, holds_order (by decide) ho, ?_,
      holds_order (by decide) ho, ?_, ?_⟩
    · cases o <;> rfl
    · rw [holds_isIn_singleton, hequiv]
    · rw [holds_order (by decide) ho]
      rfl
    · rw [holds_order (by decide) ho]
      rfl
  · intro hcomp op hop
    exact holds_unordered hop (Json.compareScalars?_eq_none hcomp)
  · intro hkey
    rw [matchesRecord_single, asks_equals hkey, holds_isIn_singleton]

theorem operator_laws_text :
    let r : Record := [("name", .str "b")]
    let f : Filter := [("name", .obj [("ge", .str "a"), ("in", .arr [.str "b", .null])])]
    r.WellFormed ∧ f.singles.length = 2 ∧
      (∃ lt eq gt : Bool, [lt, eq, gt].count true = 1 ∧
        matchesRecord r (only "name" .lt (.str "c")) = .ok lt ∧
        matchesRecord r (only "name" .isIn (.arr [.str "c"])) = .ok eq ∧
        matchesRecord r (only "name" .gt (.str "c")) = .ok gt) ∧
      matchesRecord r (only "other" .le (.str "c")) = .ok false ∧
      matchesRecord r [("name", .str "c")] =
        matchesRecord r (only "name" .isIn (.arr [.str "c"])) ∧
      ∃ hit, matchesRecord r f = .ok hit ∧
        (hit = true ↔ ∀ s ∈ f.singles, matchesRecord r s = .ok true) := by
  intro r f
  have hr : r.WellFormed := .obj (List.pairwise_singleton ..) (by simpa [r] using .str "b")
  have hlaws := operator_laws hr (.str "c")
  obtain ⟨lt, eq, gt, hcount, hlt, heq, hgt, -⟩ := (hlaws "name").1 rfl
  refine ⟨hr, rfl, ⟨lt, eq, gt, hcount, hlt, heq, hgt⟩, (hlaws "other").2.1 rfl .le (by decide),
    (hlaws "name").2.2.1 rfl, (hlaws "name").2.2.2 f ?_⟩
  intro s hs
  have hcases : s = only "name" .ge (.str "a") ∨
      s = only "name" .isIn (.arr [.str "b", .null]) := by
    simpa [f, singles, parts, only, Operator.name, Operator.ofName?] using hs
  rcases hcases with rfl | rfl <;> exact ⟨_, matchesRecord_only ..⟩

end Filter

end ControlNode
