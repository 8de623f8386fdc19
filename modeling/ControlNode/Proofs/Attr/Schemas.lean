import ControlNode.Proofs.Decimal.Extremes
import ControlNode.Proofs.Json.Schemas
import ControlNode.Proofs.Port.Settled

/-!
# Schemas of attributes

A definition with limits that can be published (`Publishes`) accepts what its schema says, except
that the length of a list is not checked, and that steps are counted from the minimum and with a
tolerance (`validate_iff_conforms`). Where neither matters the two agree; where one does, or where
limits are not published as what is checked, they differ (`validate_differs_from_schema`).
-/

namespace ControlNode

namespace Dict

theorem get?_of_mem_of_nodup {α : Type} {l : List (String × α)} (h : (l.map Prod.fst).Nodup)
    {key : String} {a : α} (hmem : (key, a) ∈ l) : Dict.get? l key = some a := by
  induction l with
  | nil => cases hmem
  | cons e l ih =>
    obtain ⟨k, b⟩ := e
    obtain ⟨hnew, hrest⟩ := List.nodup_cons.mp h
    rw [get?]
    rcases List.mem_cons.mp hmem with heq | hlater
    · cases heq
      exact if_pos rfl
    · have hne : k ≠ key := by
        rintro rfl
        exact hnew (List.mem_map.mpr ⟨_, hlater, rfl⟩)
      rw [if_neg hne]
      exact ih hrest hlater

/-- What is found in a dictionary that is built from a table of optional entries. -/
theorem get?_ofList_table {α : Type} {table : List (String × Option α)}
    (h : (table.map Prod.fst).Nodup) (key : String) :
    Dict.get? (Dict.ofList (table.flatMap fun e => (e.2.map fun a => (e.1, a)).toList)) key =
      (Dict.get? table key).join := by
  have hentry {k : String} {a : α} :
      (k, a) ∈ (table.flatMap fun e => (e.2.map fun a => (e.1, a)).toList) ↔
        (k, some a) ∈ table := by
    simp only [List.mem_flatMap, Option.mem_toList, Option.map_eq_some_iff, Prod.mk.injEq]
    constructor
    · rintro ⟨⟨_, _⟩, hmem, _, rfl, rfl, rfl⟩
      exact hmem
    · exact fun hmem => ⟨_, hmem, a, rfl, rfl, rfl⟩
  have hsame : ∀ e ∈ (table.flatMap fun e => (e.2.map fun a => (e.1, a)).toList),
      ∀ f ∈ (table.flatMap fun e => (e.2.map fun a => (e.1, a)).toList), e.1 = f.1 → e = f := by
    rintro ⟨k, a⟩ ha ⟨_, b⟩ hb rfl
    have hfirst := get?_of_mem_of_nodup h (hentry.mp ha)
    have hsecond := get?_of_mem_of_nodup h (hentry.mp hb)
    cases hfirst.symm.trans hsecond
    rfl
  refine Option.ext fun a => ?_
  rw [get?_ofList hsame, hentry, Option.join_eq_some_iff]
  exact ⟨get?_of_mem_of_nodup h, mem_of_get?⟩

end Dict

namespace NumberLimits

theorem check_eq_none_iff {l : NumberLimits} {x : Float} : l.check x = none ↔
    Binary64.isFinite x = true ∧ (l.integer = true → Binary64.isIntegral x = true) ∧
      (∀ low, l.min = some low → ¬x < low) ∧ (∀ high, l.max = some high → ¬high < x) ∧
        ∀ step, l.step = some step → 0 < step → l.onStep x step = true := by
  have hlow : (∀ low, l.min = some low → ¬x < low) ↔ l.min.filter (x < ·) = none := by
    cases l.min <;> simp
  have hhigh : (∀ high, l.max = some high → ¬high < x) ↔ l.max.filter (· < x) = none := by
    cases l.max <;> simp
  have hstep : (∀ step, l.step = some step → 0 < step → l.onStep x step = true) ↔
      (l.step.filter fun s => 0 < s && !l.onStep x s) = none := by
    cases l.step <;> simp
  rw [hlow, hhigh, hstep]
  unfold check
  generalize l.min.filter (x < ·) = low
  generalize l.max.filter (· < x) = high
  generalize (l.step.filter fun s => 0 < s && !l.onStep x s) = step
  cases Binary64.isFinite x <;> cases l.integer <;> cases Binary64.isIntegral x <;>
    cases low <;> cases high <;> cases step <;> simp

end NumberLimits

namespace AttrDef

open Binary64 Json

variable {d : AttrDef} {value : Json} {x : Float}

/-! ### Lengths -/

/-- A length reaches a bound if it reaches the published one, unless a fraction has been cut off. -/
theorem lengthBound_le_iff {n : Nat} (hn : n < 2 ^ 53)
    (h : 0 < x → isFinite x = true → isIntegral x = true) :
    lengthBound x ≤ n ↔ ¬Float.ofNat n < x := by
  obtain ⟨hfinite, hvalue⟩ := value_ofNat hn
  cases hx : parts x with
  | nan =>
    rw [lengthBound, hx]
    exact iff_of_true (Int.natCast_nonneg n) (not_lt_of_nan hx _).1
  | infinite negative =>
    rw [lengthBound, hx, lt_infinite_iff hfinite hx]
    cases negative with
    | true => exact iff_of_true (Int.natCast_nonneg n) nofun
    | false =>
      refine iff_of_false (fun hle => ?_) fun hnot => hnot rfl
      change (wordCount : Int) - 1 ≤ n at hle
      unfold wordCount at hle
      omega
  | finite negative m e =>
    have hxfinite : isFinite x = true := by rw [isFinite, hx]
    have hmagnitude : (0 : ℚ) ≤ m * 2 ^ e := by positivity
    rw [lengthBound, hx, lt_iff_value hfinite hxfinite, hvalue, hx]
    -- a bound below zero is published as zero, and no length is below either
    cases negative with
    | true =>
      refine iff_of_true (Int.natCast_nonneg n) (not_lt.mpr ?_)
      exact (neg_nonpos.mpr hmagnitude).trans (Nat.cast_nonneg n)
    | false =>
      have hwhole : isWhole m e = true := by
        rcases Nat.eq_zero_or_pos m with rfl | hpos
        · cases e <;> simp [isWhole]
        · have hpositive : 0 < x := by
            have hzero := value_ofNat (n := 0) (by decide)
            have hm : (0 : ℚ) < m := by exact_mod_cast hpos
            rw [show (0 : Float) = Float.ofNat 0 from rfl, lt_iff_value hzero.1 hxfinite, hzero.2,
              hx, Parts.value, Nat.cast_zero, if_neg Bool.false_ne_true]
            positivity
          have := h hpositive hxfinite
          rwa [isIntegral, hx] at this
      change min ((wordCount : Int) - 1) (wholePart m e) ≤ n ↔ ¬(n : ℚ) < m * 2 ^ e
      rw [← wholePart_eq hwhole, Nat.cast_lt]
      unfold wordCount
      omega

theorem le_lengthBound_iff {n : Nat} (hn : n < 2 ^ 53) (h : 0 ≤ x) :
    n ≤ lengthBound x ↔ ¬x < Float.ofNat n := by
  obtain ⟨hfinite, hvalue⟩ := value_ofNat hn
  rcases nonneg_cases h with hx | ⟨hxfinite, hnonneg⟩
  · rw [lengthBound, hx, infinite_lt_iff hfinite hx]
    refine iff_of_true ?_ nofun
    change (n : Int) ≤ (wordCount : Int) - 1
    unfold wordCount
    omega
  · rw [value_le_iff hfinite hxfinite, hvalue, lengthBound]
    cases hx : parts x with
    | finite negative m e =>
      rw [hx] at hnonneg
      cases negative with
      | true =>
        have hmagnitude : (0 : ℚ) ≤ m * 2 ^ e := by positivity
        have hzero : (m : ℚ) * 2 ^ e = 0 := le_antisymm (neg_nonneg.mp hnonneg) hmagnitude
        change (n : Int) ≤ 0 ↔ (n : ℚ) ≤ -(m * 2 ^ e)
        rw [hzero, neg_zero]
        exact_mod_cast Iff.rfl
      | false =>
        change (n : Int) ≤ min ((wordCount : Int) - 1) (wholePart m e) ↔ (n : ℚ) ≤ m * 2 ^ e
        rw [← le_wholePart_iff]
        unfold wordCount
        omega
    | _ =>
      rw [isFinite, hx] at hxfinite
      cases hxfinite

/-! ### What is published -/

def schemaTable (d : AttrDef) : List (String × Option Json) := [
  ("type", some (.str d.schemaType)),
  ("title", some (.str d.displayName)),
  ("description", if d.description = "" then none else some (.str d.description)),
  (d.schemaBounds.1, d.limits.min.map d.schemaBound),
  (d.schemaBounds.2, d.limits.max.map d.schemaBound),
  ("multipleOf", d.limits.step.map .ofFloat),
  ("enum", d.choices.map fun cs => .arr (cs.map Choice.value)),
  ("default", d.default)]

theorem field?_schema (d : AttrDef) (keyword : String) :
    d.schema.field? keyword = (Dict.get? d.schemaTable keyword).join := by
  have hnodup : (d.schemaTable.map Prod.fst).Nodup := by
    simp only [schemaTable, List.map_cons, List.map_nil, schemaBounds]
    cases d.type <;> decide
  have hschema : d.schema =
      .mkObj (d.schemaTable.flatMap fun e => (e.2.map fun j => (e.1, j)).toList) := by
    unfold schema schemaTable
    dsimp only
    generalize (if d.description = "" then none else some (str d.description)) = description
    generalize d.limits.min.map d.schemaBound = low
    generalize d.limits.max.map d.schemaBound = high
    generalize d.limits.step.map ofFloat = step
    generalize d.choices.map (fun cs => arr (cs.map Choice.value)) = choices
    cases description <;> cases low <;> cases high <;> cases step <;> cases choices <;>
      cases d.default <;> rfl
  rw [hschema]
  exact Dict.get?_ofList_table hnodup keyword

/-- The schema says what the limits are. Those of a number that are not finite cannot be published:
they exclude no number, and no steps start there. The length of a text is published as a count: its
minimum has no fraction, and its maximum is not negative. -/
def Publishes (d : AttrDef) : Prop :=
  match d.type with
  | .number => (∀ low, d.limits.min = some low → 0 < low → isFinite low = true) ∧
      (∀ high, d.limits.max = some high → high < 0 → isFinite high = true) ∧
        ∀ low step, d.limits.min = some low → d.limits.step = some step → 0 < step →
          isFinite step = true → isFinite low = true
  | .string =>
      (∀ low, d.limits.min = some low → 0 < low → isFinite low = true → isIntegral low = true) ∧
        ∀ high, d.limits.max = some high → 0 ≤ high
  | _ => True

/-- Neither the steps of numbers nor the lengths of lists are limited. -/
structure Plain (d : AttrDef) : Prop where
  steps : d.type = .number → ∀ step, d.limits.step = some step → 0 < step → isFinite step = false
  items : d.type = .list → d.limits.min = none ∧ d.limits.max = none

theorem field?_schema_type (d : AttrDef) : d.schema.field? "type" = some (.str d.schemaType) := by
  rw [field?_schema]
  rfl

theorem field?_schema_enum (d : AttrDef) :
    d.schema.field? "enum" = d.choices.map fun cs => .arr (cs.map Choice.value) := by
  rw [field?_schema]
  cases htype : d.type <;> simp [schemaTable, schemaBounds, htype, Dict.get?]

theorem operand?_schema (htype : d.type = .number) :
    d.schema.operand? "minimum" = d.limits.min.filter isFinite ∧
      d.schema.operand? "maximum" = d.limits.max.filter isFinite ∧
        d.schema.operand? "multipleOf" = d.limits.step.filter isFinite := by
  have hread (o : Option Float) : (o.map ofFloat).bind asFloat? = o.filter isFinite := by
    cases o with
    | none => rfl
    | some x => cases hx : isFinite x <;> simp [ofFloat, hx, asFloat?, Option.filter_some]
  have hbound : d.schemaBound = ofFloat := by
    funext x
    simp [schemaBound, htype]
  simp only [operand?, field?_schema, schemaTable, schemaBounds, htype, hbound, Dict.get?,
    String.reduceEq, if_true, if_false, Option.join_some]
  exact ⟨hread _, hread _, hread _⟩

theorem count?_schema (htype : d.type = .string) :
    d.schema.count? "minLength" = d.limits.min.map lengthBound ∧
      d.schema.count? "maxLength" = d.limits.max.map lengthBound := by
  have hread (o : Option Float) :
      (o.map d.schemaBound).bind asCount? = o.map lengthBound := by
    cases o with
    | none => rfl
    | some x => simp [schemaBound, htype, asCount?]
  simp only [count?, field?_schema, schemaTable, schemaBounds, htype, Dict.get?,
    String.reduceEq, if_true, if_false, Option.join_some]
  exact ⟨hread _, hread _⟩

theorem isChoice_iff (hchoices : ∀ cs, d.choices = some cs → ∀ c ∈ cs, c.value.WellFormed)
    (hv : value.WellFormed) : isChoice d.choices value = true ↔ IsListed d.schema value := by
  rw [IsListed, field?_schema_enum, isChoice]
  cases hcs : d.choices with
  | none => simp
  | some cs =>
    have hwell := hchoices cs hcs
    simp only [Option.all_some, List.any_eq_true, Option.map_some, Option.some.injEq,
      Json.arr.injEq, forall_eq', List.mem_map, exists_exists_and_eq_and]
    refine exists_congr fun c => and_congr_right fun hc => ?_
    exact equiv_iff_meaning (hwell c hc) hv

/-! ### What is asked -/

section Asked

variable {Divides Counts : Json → Json → Prop}

theorem type_iff : (∀ name, d.schema.field? "type" = some (.str name) → value.HasType name) ↔
    value.HasType d.schemaType := by
  rw [field?_schema_type]
  constructor
  · exact fun h => h _ rfl
  · intro h name hname
    cases hname
    exact h

theorem type_eq_number (htyped : value.HasType d.schemaType) (hx : value.asFloat? = some x) :
    d.type = .number := by
  rw [schemaType] at htyped
  cases htype : d.type <;> rw [htype] at htyped
  case boolean =>
    obtain ⟨b, rfl⟩ := hasType_boolean htyped
    cases hx
  case string =>
    obtain ⟨s, rfl⟩ := hasType_string htyped
    cases hx
  case list =>
    obtain ⟨items, rfl⟩ := hasType_array htyped
    cases hx

theorem type_eq_list {items : List Json} (htyped : (Json.arr items).HasType d.schemaType) :
    d.type = .list := by
  rw [schemaType] at htyped
  cases htype : d.type <;> rw [htype] at htyped
  case boolean =>
    obtain ⟨b, hb⟩ := hasType_boolean htyped
    cases hb
  case string =>
    obtain ⟨s, hs⟩ := hasType_string htyped
    cases hs
  case number =>
    obtain ⟨q, hq⟩ : ∃ q, (Json.arr items).number? = some q := by
      cases hinteger : d.limits.integer <;> simp only [hinteger] at htyped
      · exact hasType_number htyped
      · obtain ⟨k, hk⟩ := hasType_integer htyped
        exact ⟨k, hk⟩
    cases hq

theorem hasType_number_iff {integer : Bool} (hfinite : isFinite x = true)
    (hnumber : value.number? = some (parts x).value) :
    value.HasType (if integer then "integer" else "number") ↔
      (integer = true → isIntegral x = true) := by
  rw [isIntegral_iff_value hfinite]
  cases integer with
  | false => exact iff_of_true (.number hnumber) fun h => by cases h
  | true =>
    constructor
    · intro h _
      obtain ⟨k, hk⟩ := hasType_integer h
      exact ⟨k, Option.some.inj (hnumber.symm.trans hk)⟩
    · intro h
      obtain ⟨k, hk⟩ := h rfl
      exact .integer (hnumber.trans (congrArg some hk))

theorem conforms_number_iff (htype : d.type = .number) (hx : value.asFloat? = some x)
    (hfinite : isFinite x = true) : Conforms Divides Counts d.schema value ↔
      (d.limits.integer = true → isIntegral x = true) ∧
        ((∀ low, d.limits.min.filter isFinite = some low → ¬x < low) ∧
          ∀ high, d.limits.max.filter isFinite = some high → ¬high < x) ∧
        (Divides d.schema value ∧ Counts d.schema value) ∧ IsListed d.schema value := by
  have hname : d.schemaType = if d.limits.integer then "integer" else "number" := by
    rw [schemaType, htype]
  have hnumber : value.number? = some (parts x).value := by rw [number?, hx, Option.map_some]
  obtain ⟨hmin, hmax, -⟩ := operand?_schema htype
  rw [conforms_number hnumber, type_iff, hname, hasType_number_iff hfinite hnumber, hmin, hmax]
  refine and_congr_right fun _ => and_congr_left fun _ => and_congr ?_ ?_
  · refine forall_congr' fun low => imp_congr_right fun hread => ?_
    exact (value_le_iff (Option.filter_eq_some_iff.mp hread).2 hfinite).symm
  · refine forall_congr' fun high => imp_congr_right fun hread => ?_
    exact (value_le_iff hfinite (Option.filter_eq_some_iff.mp hread).2).symm

theorem conforms_string_iff (htype : d.type = .string) {s : String} :
    Conforms Divides Counts d.schema (.str s) ↔
      ((∀ low, d.limits.min = some low → lengthBound low ≤ s.length) ∧
        ∀ high, d.limits.max = some high → s.length ≤ lengthBound high) ∧
      (Divides d.schema (.str s) ∧ Counts d.schema (.str s)) ∧ IsListed d.schema (.str s) := by
  have hname : d.schemaType = "string" := by rw [schemaType, htype]
  obtain ⟨hmin, hmax⟩ := count?_schema htype
  rw [conforms_str, type_iff, hname, and_iff_right (.string s), hmin, hmax]
  simp only [Option.map_eq_some_iff, forall_exists_index, and_imp, forall_apply_eq_imp_iff₂]

end Asked

/-! ### Limits of numbers -/

section Limits

variable {o : Option Float}

/-- Limits that exclude no number need not be published. -/
theorem low_iff (hx : isFinite x = true)
    (h : ∀ low, o = some low → 0 < low → isFinite low = true) :
    (∀ low, o = some low → ¬x < low) ↔ ∀ low, o.filter isFinite = some low → ¬x < low := by
  constructor
  · exact fun hlow low hread => hlow low (Option.filter_eq_some_iff.mp hread).1
  · intro hlow low ho
    cases hfinite : isFinite low with
    | true => exact hlow low (Option.filter_eq_some_iff.mpr ⟨ho, hfinite⟩)
    | false =>
      rw [lt_not_finite_iff hfinite hx isFinite_zero]
      exact fun hpos => Bool.false_ne_true (hfinite.symm.trans (h low ho hpos))

theorem high_iff (hx : isFinite x = true)
    (h : ∀ high, o = some high → high < 0 → isFinite high = true) :
    (∀ high, o = some high → ¬high < x) ↔ ∀ high, o.filter isFinite = some high → ¬high < x := by
  constructor
  · exact fun hhigh high hread => hhigh high (Option.filter_eq_some_iff.mp hread).1
  · intro hhigh high ho
    cases hfinite : isFinite high with
    | true => exact hhigh high (Option.filter_eq_some_iff.mpr ⟨ho, hfinite⟩)
    | false =>
      rw [not_finite_lt_iff hfinite hx isFinite_zero]
      exact fun hneg => Bool.false_ne_true (hfinite.symm.trans (h high ho hneg))

theorem onStep_iff {l : NumberLimits} {step : Float} : l.onStep x step = true ↔
    ¬1e-9 < ((x - l.min.getD 0) / step - round ((x - l.min.getD 0) / step)).abs := by
  rw [NumberLimits.onStep, Bool.not_eq_true', decide_eq_false_iff_not]
  rfl

theorem onStep_of_not_finite {l : NumberLimits} {step : Float} (h : isFinite step = false) :
    l.onStep x step = true := by
  rw [onStep_iff]
  rcases div_not_finite h (x - l.min.getD 0) with hdiv | hdiv | hdiv
  all_goals
    rw [hdiv]
    decide +kernel

theorem onGrid_iff (htype : d.type = .number) (hx : value.asFloat? = some x)
    (h : ∀ low step, d.limits.min = some low → d.limits.step = some step → 0 < step →
      isFinite step = true → isFinite low = true) :
    (∀ step, d.limits.step = some step → 0 < step → d.limits.onStep x step = true) ↔
      OnGrid d.schema value := by
  obtain ⟨hmin, -, hstep⟩ := operand?_schema htype
  rw [OnGrid, hmin, hstep]
  -- the steps start where they are published to start
  have hstart (step : Float) (hop : d.limits.step = some step) (hpos : 0 < step)
      (hfinite : isFinite step = true) : d.limits.min.filter isFinite = d.limits.min := by
    cases hlow : d.limits.min with
    | none => rfl
    | some low => exact Option.filter_some_pos (h low step hlow hop hpos hfinite)
  constructor
  · intro hgrid step y hread hpos hy
    obtain ⟨hop, hfinite⟩ := Option.filter_eq_some_iff.mp hread
    cases hx.symm.trans hy
    rw [hstart step hop hpos hfinite]
    exact onStep_iff.mp (hgrid step hop hpos)
  · intro hgrid step hop hpos
    cases hfinite : isFinite step with
    | false => exact onStep_of_not_finite hfinite
    | true =>
      have hread := hgrid step x (Option.filter_eq_some_iff.mpr ⟨hop, hfinite⟩) hpos hx
      rw [hstart step hop hpos hfinite] at hread
      exact onStep_iff.mpr hread

end Limits

/-! ### Agreement -/

section Agreement

variable (hlisted : IsListed d.schema value)

include hlisted

theorem typeFault_boolean (htype : d.type = .boolean) :
    d.typeFault value = none ↔ Conforms OnGrid AnyLength d.schema value := by
  have hname : d.schemaType = "boolean" := by rw [schemaType, htype]
  rw [typeFault, htype]
  constructor
  · intro h
    cases value with
    | bool b =>
      exact {
        type := type_iff.mpr (hname ▸ .boolean b)
        range := fun _ h => by cases h
        length := fun _ h => by cases h
        items := trivial
        multipleOf := onGrid_of_not_number rfl
        enum := hlisted }
    | _ => cases h
  · intro h
    obtain ⟨b, rfl⟩ := hasType_boolean (hname ▸ type_iff.mp h.type)
    rfl

theorem typeFault_list (htype : d.type = .list) :
    d.typeFault value = none ↔ Conforms OnGrid AnyLength d.schema value := by
  have hname : d.schemaType = "array" := by rw [schemaType, htype]
  rw [typeFault, htype]
  constructor
  · intro hvalue
    cases value with
    | arr items =>
      refine conforms_arr.mpr ⟨type_iff.mpr (hname ▸ .array items), ⟨?_, trivial⟩, hlisted⟩
      exact onGrid_of_not_number rfl
    | _ => cases hvalue
  · intro hvalue
    obtain ⟨items, rfl⟩ := hasType_array (hname ▸ type_iff.mp hvalue.type)
    rfl

theorem typeFault_string (htype : d.type = .string) (h : d.Publishes)
    (hlength : ∀ s, value = .str s → s.length < 2 ^ 53) :
    d.typeFault value = none ↔ Conforms OnGrid AnyLength d.schema value := by
  have hname : d.schemaType = "string" := by rw [schemaType, htype]
  rw [Publishes, htype] at h
  obtain ⟨hmin, hmax⟩ := h
  cases value with
  | str s =>
    have hs := hlength s rfl
    have hfault : d.typeFault (.str s) = none ↔ (d.limits.min.any (Float.ofNat s.length < ·) ||
        d.limits.max.any (· < Float.ofNat s.length)) = false := by
      rw [typeFault, htype]
      change (if _ then some _ else none) = none ↔ _
      cases (d.limits.min.any (Float.ofNat s.length < ·) ||
        d.limits.max.any (· < Float.ofNat s.length)) <;> simp
    have hrest : (OnGrid d.schema (.str s) ∧ AnyLength d.schema (.str s)) ∧
        IsListed d.schema (.str s) := ⟨⟨onGrid_of_not_number rfl, trivial⟩, hlisted⟩
    rw [hfault, conforms_string_iff htype, and_iff_left hrest, Bool.or_eq_false_iff]
    refine and_congr ?_ ?_
    · cases hlow : d.limits.min with
      | none => simp
      | some x => simpa using (lengthBound_le_iff hs (hmin x hlow)).symm
    · cases hhigh : d.limits.max with
      | none => simp
      | some x => simpa using (le_lengthBound_iff hs (hmax x hhigh)).symm
  | _ =>
    refine iff_of_false ?_ fun hvalue => ?_
    · rw [typeFault, htype]
      exact fun h => by cases h
    · obtain ⟨s, hs⟩ := hasType_string (hname ▸ type_iff.mp hvalue.type)
      cases hs

theorem typeFault_number (htype : d.type = .number) (h : d.Publishes) (hv : value.WellFormed) :
    d.typeFault value = none ↔ Conforms OnGrid AnyLength d.schema value := by
  have hname : d.schemaType = if d.limits.integer then "integer" else "number" := by
    rw [schemaType, htype]
  rw [Publishes, htype] at h
  obtain ⟨hlowest, hhighest, hstart⟩ := h
  rw [typeFault, htype]
  cases hx : value.asFloat? with
  | none =>
    refine iff_of_false (fun h => by cases h) fun hvalue => ?_
    have htyped := type_iff.mp hvalue.type
    obtain ⟨q, hnumber⟩ : ∃ q, value.number? = some q := by
      rw [hname] at htyped
      split at htyped
      · obtain ⟨k, hk⟩ := hasType_integer htyped
        exact ⟨k, hk⟩
      · exact hasType_number htyped
    rw [number?, hx] at hnumber
    cases hnumber
  | some x =>
    have hfinite := (hv.asFloat? hx).1
    change d.limits.check x = none ↔ _
    rw [NumberLimits.check_eq_none_iff, conforms_number_iff htype hx hfinite,
      low_iff hfinite hlowest, high_iff hfinite hhighest, onGrid_iff htype hx hstart]
    constructor
    · rintro ⟨-, hwhole, hlow, hhigh, hgrid⟩
      exact ⟨hwhole, ⟨hlow, hhigh⟩, ⟨hgrid, trivial⟩, hlisted⟩
    · rintro ⟨hwhole, ⟨hlow, hhigh⟩, ⟨hgrid, -⟩, -⟩
      exact ⟨hfinite, hwhole, hlow, hhigh, hgrid⟩

end Agreement

/-- A definition accepts what its schema says, up to the length of lists and the reading of
steps. -/
theorem validate_iff_onGrid (hnull : value.isNull = false) (hv : value.WellFormed)
    (hlength : ∀ s, value = .str s → s.length < 2 ^ 53)
    (hchoices : ∀ cs, d.choices = some cs → ∀ c ∈ cs, c.value.WellFormed) (h : d.Publishes) :
    d.validate value = .ok () ↔ Conforms OnGrid AnyLength d.schema value := by
  have hvalid : d.validate value = .ok () ↔
      d.typeFault value = none ∧ IsListed d.schema value := by
    rw [← isChoice_iff hchoices hv]
    have hfault : d.validate value = .ok () ↔ d.fault value = none := by
      unfold validate
      cases d.fault value <;> simp
    rw [hfault, fault_eq_none_iff, hnull]
    simp
  have htype (hlisted : IsListed d.schema value) :
      d.typeFault value = none ↔ Conforms OnGrid AnyLength d.schema value := by
    cases htype : d.type with
    | boolean => exact typeFault_boolean hlisted htype
    | number => exact typeFault_number hlisted htype h hv
    | string => exact typeFault_string hlisted htype h hlength
    | list => exact typeFault_list hlisted htype
  rw [hvalid]
  exact ⟨fun ⟨hfault, hlisted⟩ => (htype hlisted).mp hfault,
    fun hconforms => ⟨(htype hconforms.enum).mpr hconforms, hconforms.enum⟩⟩

namespace Plain

variable (h : d.Plain)

include h

theorem onGrid_iff (htyped : value.HasType d.schemaType) :
    OnGrid d.schema value ↔ IsMultiple d.schema value := by
  cases hx : value.asFloat? with
  | none => exact iff_of_true (onGrid_of_not_number hx) (isMultiple_of_not_number hx)
  | some x =>
    have htype := type_eq_number htyped hx
    refine onGrid_iff_isMultiple fun step hop hpos => ?_
    rw [(operand?_schema htype).2.2] at hop
    obtain ⟨hstep, hfinite⟩ := Option.filter_eq_some_iff.mp hop
    exact Bool.false_ne_true ((h.steps htype step hstep hpos).symm.trans hfinite)

theorem itemsWithin (htyped : value.HasType d.schemaType) : ItemsWithin d.schema value := by
  rintro items rfl
  have htype := type_eq_list htyped
  obtain ⟨hmin, hmax⟩ := h.items htype
  simp [count?, field?_schema, schemaTable, schemaBounds, htype, hmin, hmax, Dict.get?]

theorem conforms_iff : Conforms OnGrid AnyLength d.schema value ↔
    Conforms IsMultiple ItemsWithin d.schema value := by
  constructor
  · intro hconforms
    have htyped := type_iff.mp hconforms.type
    exact hconforms.imp (h.onGrid_iff htyped).mp fun _ => h.itemsWithin htyped
  · intro hconforms
    exact hconforms.imp (h.onGrid_iff (type_iff.mp hconforms.type)).mpr fun _ => trivial

end Plain

/-- A definition accepts the values that conform to its schema, if that says what its limits are,
except that it does not ask for the length of lists and counts steps on a grid. -/
theorem validate_iff_conforms (d : AttrDef) (value : Json) (hnull : value.isNull = false)
    (hv : value.WellFormed) (hlength : ∀ s, value = .str s → s.length < 2 ^ 53)
    (hchoices : ∀ cs, d.choices = some cs → ∀ c ∈ cs, c.value.WellFormed) (h : d.Publishes) :
    (d.validate value = .ok () ↔ Conforms OnGrid AnyLength d.schema value) ∧
      (d.Plain → (d.validate value = .ok () ↔ Conforms IsMultiple ItemsWithin d.schema value)) := by
  have hgrid := validate_iff_onGrid hnull hv hlength hchoices h
  exact ⟨hgrid, fun hplain => hgrid.trans hplain.conforms_iff⟩

/-- A definition with nothing but a type and limits. -/
def limited (type : AttrType) (limits : NumberLimits) : AttrDef :=
  { AttrDef.make "x" type with limits := limits }

def oddNumber : AttrDef := limited .number { min := some 1, step := some 2 }

/-- Three is one step from the minimum. -/
theorem validate_iff_conforms_three :
    (Json.int 3).isNull = false ∧ (Json.int 3).WellFormed ∧ oddNumber.Publishes ∧
      oddNumber.validate (.int 3) = .ok () ∧
      Conforms OnGrid AnyLength oddNumber.schema (.int 3) := by
  have hv : (Json.int 3).WellFormed := .int (by decide) (by decide)
  have hone : isFinite 1 = true := by decide +kernel
  have hpublishes : oddNumber.Publishes := by
    refine ⟨fun low hlow _ => ?_, fun high hhigh _ => ?_, fun low _ hlow _ _ _ => ?_⟩
    · cases hlow
      exact hone
    · cases hhigh
    · cases hlow
      exact hone
  have hvalid : oddNumber.validate (.int 3) = .ok () := by decide +kernel
  refine ⟨rfl, hv, hpublishes, hvalid, ?_⟩
  refine (validate_iff_conforms oddNumber (.int 3) rfl hv ?_ ?_ hpublishes).1.mp hvalid
  · exact fun _ h => by cases h
  · exact fun _ h => by cases h

def filledList : AttrDef := limited .list { min := some 1 }

/-- Definitions with limits that are published otherwise than they are checked, each with a value
that shows it. -/
def misstated : List (AttrDef × Json) := [
  (limited .number { min := some (1 / 0) }, .int 0),
  (limited .number { max := some (-1 / 0) }, .int 0),
  (limited .number { min := some (-1 / 0), step := some 2 }, .int 1),
  (limited .string { min := some 0.5 }, .str ""),
  (limited .string { max := some (-1) }, .str ""),
  (limited .string { max := some (0 / 0) }, .str "a")]

theorem isListed_limited (type : AttrType) (limits : NumberLimits) (value : Json) :
    IsListed (limited type limits).schema value := by
  intro choices h
  rw [field?_schema_enum] at h
  cases h

theorem value_two : (parts 2).value = 2 := by
  exact_mod_cast (value_ofNat (n := 2) (by decide)).2

theorem itemsWithin_of_number {schema : Json} (hx : value.asFloat? = some x) :
    ItemsWithin schema value := by
  rintro items rfl
  cases hx

theorem conforms_limited (limits : NumberLimits) (hinteger : limits.integer = false)
    (hmin : limits.min.filter isFinite = none) (hmax : limits.max.filter isFinite = none)
    (hstep : limits.step = none) (hx : value.asFloat? = some x) (hfinite : isFinite x = true) :
    Conforms IsMultiple ItemsWithin (limited .number limits).schema value := by
  refine (conforms_number_iff rfl hx hfinite).mpr ⟨fun h => ?_, ⟨fun low hlow => ?_,
    fun high hhigh => ?_⟩, ⟨fun step _ hop => ?_, itemsWithin_of_number hx⟩,
    isListed_limited _ _ _⟩
  · cases hinteger.symm.trans h
  · cases hmin.symm.trans hlow
  · cases hmax.symm.trans hhigh
  · rw [(operand?_schema rfl).2.2] at hop
    cases hstep.symm.trans (Option.filter_eq_some_iff.mp hop).1

theorem conforms_limited_text {limits : NumberLimits} {s : String} :
    Conforms IsMultiple ItemsWithin (limited .string limits).schema (.str s) ↔
      (∀ low, limits.min = some low → lengthBound low ≤ s.length) ∧
        ∀ high, limits.max = some high → s.length ≤ lengthBound high := by
  rw [conforms_string_iff rfl, and_iff_left]
  · rfl
  · exact ⟨⟨isMultiple_of_not_number rfl, fun _ h => by cases h⟩, isListed_limited _ _ _⟩

theorem conforms_oddNumber_two : Conforms IsMultiple ItemsWithin oddNumber.schema (.int 2) := by
  have hfinite : isFinite (Float.ofInt 2) = true := by decide +kernel
  refine (conforms_number_iff rfl rfl hfinite).mpr ⟨fun h => ?_, ⟨fun low hlow => ?_,
    fun high hhigh => ?_⟩, ⟨fun step q hop _ hq => ?_, itemsWithin_of_number rfl⟩,
    isListed_limited _ _ _⟩
  · cases h
  · obtain ⟨hone, -⟩ := Option.filter_eq_some_iff.mp hlow
    cases hone
    decide +kernel
  · cases hhigh
  · rw [(operand?_schema rfl).2.2] at hop
    obtain ⟨hstep, -⟩ := Option.filter_eq_some_iff.mp hop
    cases hstep
    cases (congrArg some value_two).symm.trans hq
    exact ⟨1, by rw [value_two, Int.cast_one, one_mul]⟩

/-- A multiple is refused that is no whole number of steps from the minimum, a list is accepted that
is shorter than what is published, and other limits are not published as they are checked. -/
theorem validate_differs_from_schema :
    ¬(oddNumber.validate (.int 2) = .ok () ↔
      Conforms IsMultiple ItemsWithin oddNumber.schema (.int 2)) ∧
    ¬(filledList.validate (.arr []) = .ok () ↔
      Conforms IsMultiple ItemsWithin filledList.schema (.arr [])) ∧
    ∀ e ∈ misstated,
      ¬(e.1.validate e.2 = .ok () ↔ Conforms IsMultiple ItemsWithin e.1.schema e.2) := by
  have hread : (Json.int 0).asFloat? = some (Float.ofInt 0) := rfl
  have hzero : isFinite (Float.ofInt 0) = true := by decide +kernel
  have habove : Option.filter isFinite (some (1 / 0)) = none := by decide +kernel
  have hbelow : Option.filter isFinite (some (-1 / 0)) = none := by decide +kernel
  simp only [misstated, List.forall_mem_cons]
  refine ⟨fun h => ?_, fun h => ?_, fun h => ?_, fun h => ?_, fun h => ?_, fun h => ?_,
    fun h => ?_, fun h => ?_, List.forall_mem_nil _⟩
  · exact absurd (h.mpr conforms_oddNumber_two) (by decide +kernel)
  · obtain ⟨hlow, -⟩ := (h.mp rfl).items [] rfl
    exact absurd (hlow 1 (by decide +kernel)) (by decide)
  · have hconforms := conforms_limited { min := some (1 / 0) } rfl habove rfl rfl hread hzero
    exact absurd (h.mpr hconforms) (by decide +kernel)
  · have hconforms := conforms_limited { max := some (-1 / 0) } rfl rfl hbelow rfl hread hzero
    exact absurd (h.mpr hconforms) (by decide +kernel)
  · have hone : (parts 1).value = 1 := by exact_mod_cast (value_ofNat (n := 1) (by decide)).2
    obtain ⟨k, hk⟩ := (h.mp (by decide +kernel)).multipleOf 2 1 (by decide +kernel)
      (by decide +kernel) (congrArg some hone)
    rw [value_two] at hk
    have : (1 : Int) = k * 2 := by exact_mod_cast hk
    omega
  · refine absurd (h.mpr (conforms_limited_text.mpr ⟨fun low hlow => ?_, fun _ hhigh => ?_⟩))
      (by decide +kernel)
    · cases hlow
      decide +kernel
    · cases hhigh
  · refine absurd (h.mpr (conforms_limited_text.mpr ⟨fun _ hlow => ?_, fun high hhigh => ?_⟩))
      (by decide +kernel)
    · cases hlow
    · cases hhigh
      decide +kernel
  · obtain ⟨-, hhigh⟩ := conforms_limited_text.mp (h.mp (by decide +kernel))
    exact absurd (hhigh _ rfl) (by decide +kernel)

end AttrDef

end ControlNode
