import ControlNode.Proofs.Json.Meanings

/-!
# Schemas

What it means for a value to conform to a schema (`Conforms`). Numbers count as the doubles that
they stand for; a keyword that is absent, or whose operand is not of its kind, asks nothing, and
each keyword but `type` and `enum` speaks of values of one type only. What is asked of steps and of
lists is left open, for a schema asks for a multiple (`IsMultiple`) and for a length within bounds
(`ItemsWithin`), while a check may ask for less, or for something else (`OnGrid`).
-/

namespace ControlNode.Json

def number? (j : Json) : Option ℚ := j.asFloat?.map fun x => (Binary64.parts x).value

/-- The type names of schemas; a number without a fraction is an integer, however it is written. -/
inductive HasType : Json → String → Prop
  | null : HasType .null "null"
  | boolean (b : Bool) : HasType (.bool b) "boolean"
  | number {j : Json} {q : ℚ} (h : j.number? = some q) : HasType j "number"
  | integer {j : Json} {k : Int} (h : j.number? = some k) : HasType j "integer"
  | string (s : String) : HasType (.str s) "string"
  | array (items : List Json) : HasType (.arr items) "array"
  | object (fields : List (String × Json)) : HasType (.obj fields) "object"

section HasType

variable {j : Json}

theorem hasType_boolean (h : j.HasType "boolean") : ∃ b, j = .bool b := by
  generalize hname : "boolean" = name at h
  cases h with
  | boolean b => exact ⟨b, rfl⟩
  | _ => simp at hname

theorem hasType_number (h : j.HasType "number") : ∃ q, j.number? = some q := by
  generalize hname : "number" = name at h
  cases h with
  | number h => exact ⟨_, h⟩
  | _ => simp at hname

theorem hasType_integer (h : j.HasType "integer") : ∃ k : Int, j.number? = some k := by
  generalize hname : "integer" = name at h
  cases h with
  | integer h => exact ⟨_, h⟩
  | _ => simp at hname

theorem hasType_string (h : j.HasType "string") : ∃ s, j = .str s := by
  generalize hname : "string" = name at h
  cases h with
  | string s => exact ⟨s, rfl⟩
  | _ => simp at hname

theorem hasType_array (h : j.HasType "array") : ∃ items, j = .arr items := by
  generalize hname : "array" = name at h
  cases h with
  | array items => exact ⟨items, rfl⟩
  | _ => simp at hname

end HasType

def operand? (schema : Json) (keyword : String) : Option Float :=
  (schema.field? keyword).bind asFloat?

def asCount? : Json → Option Int
  | .int n => some n
  | _ => none

/-- The operand of a keyword for lengths. -/
def count? (schema : Json) (keyword : String) : Option Int :=
  (schema.field? keyword).bind asCount?

def IsListed (schema value : Json) : Prop :=
  ∀ choices, schema.field? "enum" = some (.arr choices) →
    ∃ choice ∈ choices, choice.meaning = value.meaning

/-- A value conforms to a schema, where `multipleOf` asks for what `Divides` says, and `minItems`
and `maxItems` ask for what `Counts` says. -/
structure Conforms (Divides Counts : Json → Json → Prop) (schema value : Json) : Prop where
  type : ∀ name, schema.field? "type" = some (.str name) → value.HasType name
  range : ∀ q, value.number? = some q →
    (∀ low, schema.operand? "minimum" = some low → (Binary64.parts low).value ≤ q) ∧
      ∀ high, schema.operand? "maximum" = some high → q ≤ (Binary64.parts high).value
  length : ∀ s, value = .str s → (∀ low, schema.count? "minLength" = some low → low ≤ s.length) ∧
    ∀ high, schema.count? "maxLength" = some high → s.length ≤ high
  items : Counts schema value
  multipleOf : Divides schema value
  enum : IsListed schema value

def ItemsWithin (schema value : Json) : Prop :=
  ∀ items, value = .arr items →
    (∀ low, schema.count? "minItems" = some low → low ≤ items.length) ∧
      ∀ high, schema.count? "maxItems" = some high → items.length ≤ high

def AnyLength (_schema _value : Json) : Prop := True

/-- A number is a whole multiple of the operand of `multipleOf`, which is positive. -/
def IsMultiple (schema value : Json) : Prop :=
  ∀ step q, schema.operand? "multipleOf" = some step → 0 < step → value.number? = some q →
    ∃ k : Int, q = k * (Binary64.parts step).value

/-- The steps from the minimum to a number, as they are computed with doubles, are a whole number
but for a billionth. -/
def OnGrid (schema value : Json) : Prop :=
  ∀ step x, schema.operand? "multipleOf" = some step → 0 < step → value.asFloat? = some x →
    let steps := (x - (schema.operand? "minimum").getD 0) / step
    ¬1e-9 < (steps - Binary64.round steps).abs

section Conforms

variable {Divides Divides' Counts Counts' : Json → Json → Prop} {schema value : Json}

theorem Conforms.imp (hdivides : Divides schema value → Divides' schema value)
    (hcounts : Counts schema value → Counts' schema value)
    (h : Conforms Divides Counts schema value) : Conforms Divides' Counts' schema value :=
  { h with
    multipleOf := hdivides h.multipleOf
    items := hcounts h.items }

theorem conforms_str {s : String} : Conforms Divides Counts schema (.str s) ↔
    (∀ name, schema.field? "type" = some (.str name) → HasType (.str s) name) ∧
      ((∀ low, schema.count? "minLength" = some low → low ≤ s.length) ∧
        ∀ high, schema.count? "maxLength" = some high → s.length ≤ high) ∧
      (Divides schema (.str s) ∧ Counts schema (.str s)) ∧ IsListed schema (.str s) := by
  constructor
  · intro h
    exact ⟨h.type, h.length s rfl, ⟨h.multipleOf, h.items⟩, h.enum⟩
  · rintro ⟨htype, hlength, ⟨hdivides, hcounts⟩, hlisted⟩
    exact {
      type := htype
      range := fun _ h => by cases h
      length := fun t ht => by
        cases ht
        exact hlength
      items := hcounts
      multipleOf := hdivides
      enum := hlisted }

theorem conforms_number {q : ℚ} (hq : value.number? = some q) :
    Conforms Divides Counts schema value ↔
      (∀ name, schema.field? "type" = some (.str name) → value.HasType name) ∧
      ((∀ low, schema.operand? "minimum" = some low → (Binary64.parts low).value ≤ q) ∧
        ∀ high, schema.operand? "maximum" = some high → q ≤ (Binary64.parts high).value) ∧
      (Divides schema value ∧ Counts schema value) ∧ IsListed schema value := by
  constructor
  · intro h
    exact ⟨h.type, h.range q hq, ⟨h.multipleOf, h.items⟩, h.enum⟩
  · rintro ⟨htype, hrange, ⟨hdivides, hcounts⟩, hlisted⟩
    exact {
      type := htype
      range := fun r hr => by
        cases hq.symm.trans hr
        exact hrange
      length := fun _ h => by
        rw [h] at hq
        cases hq
      items := hcounts
      multipleOf := hdivides
      enum := hlisted }

theorem conforms_arr {items : List Json} : Conforms Divides Counts schema (.arr items) ↔
    (∀ name, schema.field? "type" = some (.str name) → HasType (.arr items) name) ∧
      (Divides schema (.arr items) ∧ Counts schema (.arr items)) ∧
        IsListed schema (.arr items) := by
  constructor
  · intro h
    exact ⟨h.type, ⟨h.multipleOf, h.items⟩, h.enum⟩
  · rintro ⟨htype, ⟨hdivides, hcounts⟩, hlisted⟩
    exact {
      type := htype
      range := fun _ h => by cases h
      length := fun _ h => by cases h
      items := hcounts
      multipleOf := hdivides
      enum := hlisted }

theorem onGrid_of_not_number (h : value.asFloat? = none) : OnGrid schema value :=
  fun _ _ _ _ hx => by cases h.symm.trans hx

theorem isMultiple_of_not_number (h : value.asFloat? = none) : IsMultiple schema value :=
  fun _ _ _ _ hq => by
    rw [number?, h] at hq
    cases hq

/-- Without a step that is positive, a grid and its multiples ask nothing. -/
theorem onGrid_iff_isMultiple (h : ∀ step, schema.operand? "multipleOf" = some step → ¬0 < step) :
    OnGrid schema value ↔ IsMultiple schema value :=
  iff_of_true (fun step _ hop hpos => absurd hpos (h step hop))
    fun step _ hop hpos => absurd hpos (h step hop)

end Conforms

end ControlNode.Json
