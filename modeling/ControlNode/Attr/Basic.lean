import ControlNode.Expr.Parser
import ControlNode.Store.Query

/-!
# Attributes

An attribute is described by its type, its range or choices, whether it can be changed and
for which ports it exists. A definition checks candidate values and has a JSON schema.
-/

namespace ControlNode

/-! ### Types -/

/-- The type of a port's value; it never changes. -/
inductive PortType where
  | boolean
  | number
  deriving Repr, DecidableEq

def PortType.text : PortType → String
  | .boolean => "boolean"
  | .number => "number"

def PortType.ofText? : String → Option PortType
  | "boolean" => some .boolean
  | "number" => some .number
  | _ => none

/-- What the existence of an attribute may depend on. -/
structure PortTraits where
  type : PortType
  writable : Bool
  deriving Repr, DecidableEq

inductive AttrType where
  | boolean
  | number
  | string
  | list
  deriving Repr, DecidableEq

/-- An allowed value, perhaps with a name to show. -/
structure Choice where
  value : Json
  displayName : Option String

namespace Choice

def toJson (c : Choice) : Json :=
  match c.displayName with
  | some name => .obj [("display_name", .str name), ("value", c.value)]
  | none => .obj [("value", c.value)]

def readName? : Json → Option (Option String)
  | .str s => some (some s)
  | .null => some none
  | _ => none

/-- Reads a choice: an object with a value, or a list of the value and the name. -/
def ofJson? (j : Json) : Option Choice :=
  match j with
  | .obj fields => do
    let value ← Dict.get? fields "value"
    let name ← readName? ((Dict.get? fields "display_name").getD .null)
    some ⟨value, name⟩
  | .arr [value] => some ⟨value, none⟩
  | .arr [value, name] => (readName? name).map fun n => ⟨value, n⟩
  | _ => none

def listToJson (cs : List Choice) : Json := .arr (cs.map toJson)

def listOfJson? (j : Json) : Option (List Choice) :=
  match j with
  | .arr items => items.mapM ofJson?
  | _ => none

end Choice

/-! ### Errors -/

inductive AttrFault where
  | required
  | notBoolean
  | notNumber
  | notString
  | notList
  | lengthOutOfRange
  | notAChoice
  | notFinite
  | notInteger
  | belowMinimum (x min : Float)
  | aboveMaximum (x max : Float)
  | notMultiple (x step : Float)
  /-- A list of choices that cannot be read. -/
  | malformedChoices
  /-- The device refuses, for a reason of its own. -/
  | refused (reason : String)
  deriving Repr, DecidableEq

def AttrFault.message : AttrFault → String
  | .required => "value is required"
  | .notBoolean => "expected a boolean"
  | .notNumber => "expected a number"
  | .notString => "expected a string"
  | .notList => "expected a list"
  | .lengthOutOfRange => "length out of range"
  | .notAChoice => "not one of the allowed choices"
  | .notFinite => "not a finite number"
  | .notInteger => "expected an integer"
  | .belowMinimum x min =>
    Decimal.plain.text x ++ " is below minimum " ++ Decimal.plain.text min
  | .aboveMaximum x max =>
    Decimal.plain.text x ++ " is above maximum " ++ Decimal.plain.text max
  | .notMultiple x step =>
    Decimal.plain.text x ++ " is not a multiple of " ++ Decimal.plain.text step
  | .malformedChoices => "malformed choices"
  | .refused reason => reason

inductive AttrError where
  | unknown (name : String)
  | notModifiable (name : String)
  | invalid (name : String) (fault : AttrFault)
  | expression (name : String) (cause : ParseError)
  | circular (path : List String)
  deriving Repr, DecidableEq

def AttrError.message : AttrError → String
  | .unknown name => "Unknown attribute: " ++ name
  | .notModifiable name => "Attribute not modifiable: " ++ name
  | .invalid name fault => "Invalid value for " ++ name ++ ": " ++ fault.message
  | .expression name cause => "Invalid expression in " ++ name ++ ": " ++ cause.message
  | .circular path => "Circular dependency: " ++ String.intercalate " -> " path

/-! ### Numbers -/

structure NumberLimits where
  min : Option Float := none
  max : Option Float := none
  integer : Bool := false
  step : Option Float := none
  deriving Repr, DecidableEq

/-- How far a number may be off a whole number of steps, in steps. -/
def stepTolerance : Float := 1e-9

/-- Whether `x` lies a whole number of steps from the start of the range. -/
def NumberLimits.onStep (l : NumberLimits) (x step : Float) : Bool :=
  let steps := (x - l.min.getD 0) / step
  !(stepTolerance < (steps - Binary64.round steps).abs)

/-- The first limit that a number breaks: it is finite, whole, within range and on a step. -/
def NumberLimits.check (l : NumberLimits) (x : Float) : Option AttrFault :=
  if !Binary64.isFinite x then some .notFinite
  else if l.integer && !Binary64.isIntegral x then some .notInteger
  else match l.min.filter (x < ·) with
    | some min => some (.belowMinimum x min)
    | none => match l.max.filter (· < x) with
      | some max => some (.aboveMaximum x max)
      | none => match l.step.filter fun s => 0 < s && !l.onStep x s with
        | some step => some (.notMultiple x step)
        | none => none

/-! ### Definitions -/

/-- The definition of an attribute. The range of a text or list is that of its length. -/
structure AttrDef where
  name : String
  displayName : String
  description : String := ""
  type : AttrType
  modifiable : Bool := false
  /-- Whether the value may be null. -/
  optional : Bool := false
  limits : NumberLimits := {}
  choices : Option (List Choice) := none
  default : Option Json := none
  /-- Whether the attribute exists for a port. -/
  existsFor : PortTraits → Bool := fun _ => true

namespace AttrDef

def shownName (name : String) : String :=
  String.ofList (name.toList.map fun c => if c == '_' then ' ' else c)

/-- A definition with a name and a type and everything else unset. -/
def make (name : String) (type : AttrType) : AttrDef :=
  { name := name, displayName := shownName name, type := type }

def typeFault (d : AttrDef) (value : Json) : Option AttrFault :=
  match d.type with
  | .boolean => if value.asBool?.isSome then none else some .notBoolean
  | .number => match value.asFloat? with
    | some x => d.limits.check x
    | none => some .notNumber
  | .string => match value.asStr? with
    | some s =>
      let length := Float.ofNat s.length
      if d.limits.min.any (length < ·) || d.limits.max.any (· < length) then
        some .lengthOutOfRange
      else none
    | none => some .notString
  | .list => if value.asArr?.isSome then none else some .notList

def isChoice (choices : Option (List Choice)) (value : Json) : Bool :=
  choices.all fun cs => cs.any fun c => c.value.equiv value

def fault (d : AttrDef) (value : Json) : Option AttrFault :=
  if value.isNull then (if d.optional then none else some .required)
  else match d.typeFault value with
    | some f => some f
    | none => if isChoice d.choices value then none else some .notAChoice

/-- Accepts a value or says what is wrong with it. -/
def validate (d : AttrDef) (value : Json) : Except AttrError Unit :=
  match d.fault value with
  | none => .ok ()
  | some f => .error (.invalid d.name f)

/-! ### Schemas -/

/-- The natural number nearest below a bound on a length; what is negative or no number
gives zero. -/
def lengthBound (x : Float) : Int :=
  match Binary64.parts x with
  | .nan => 0
  | .infinite negative => if negative then 0 else Binary64.wordCount - 1
  | .finite negative mant exp =>
    if negative then 0 else min (Binary64.wordCount - 1) (Binary64.wholePart mant exp)

def schemaType (d : AttrDef) : String :=
  match d.type with
  | .boolean => "boolean"
  | .number => if d.limits.integer then "integer" else "number"
  | .string => "string"
  | .list => "array"

def schemaBounds (d : AttrDef) : String × String :=
  match d.type with
  | .string => ("minLength", "maxLength")
  | .list => ("minItems", "maxItems")
  | _ => ("minimum", "maximum")

def schemaBound (d : AttrDef) (x : Float) : Json :=
  if d.type = .number then .ofFloat x else .int (lengthBound x)

def schema (d : AttrDef) : Json :=
  let field (name : String) (value : Option Json) : List (String × Json) :=
    match value with
    | some j => [(name, j)]
    | none => []
  let bounds := d.schemaBounds
  Json.mkObj (
    [("type", .str d.schemaType), ("title", .str d.displayName)] ++
    field "description" (if d.description = "" then none else some (.str d.description)) ++
    field bounds.1 (d.limits.min.map d.schemaBound) ++
    field bounds.2 (d.limits.max.map d.schemaBound) ++
    field "multipleOf" (d.limits.step.map .ofFloat) ++
    field "enum" (d.choices.map fun cs => .arr (cs.map Choice.value)) ++
    field "default" d.default)

def objectSchema (defs : List AttrDef) : Json :=
  let properties := (defs.filter AttrDef.modifiable).map fun d => (d.name, d.schema)
  .obj [("additionalProperties", .bool false), ("properties", Json.mkObj properties),
    ("type", .str "object")]

end AttrDef

end ControlNode
