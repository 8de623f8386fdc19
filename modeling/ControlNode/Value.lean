import ControlNode.Json.Basic
import ControlNode.Decimal.Layout

/-!
# Values

What ports hold and expressions compute: a boolean or a number. Wherever a number is needed a
boolean counts as one or zero, but the two kinds are never equal.
-/

namespace ControlNode

inductive Value where
  | bool (b : Bool)
  | num (x : Float)
  deriving Repr, DecidableEq, Inhabited

namespace Value

/-! ### Readings -/

def toFloat : Value → Float
  | .bool b => if b then 1 else 0
  | .num x => x

/-- The truth reading: every number but zero is true. -/
def toBool : Value → Bool
  | .bool b => b
  | .num x => !(x == 0)

/-- The integer reading: truncated and clamped to 64 bits. -/
def toInt (v : Value) : Int := Binary64.toInt64 v.toFloat

def isBool : Value → Bool
  | .bool _ => true
  | .num _ => false

def ofInt (n : Int) : Value := .num (Binary64.ofInt n)

/-- Equality within a kind, numbers by their numeric value: a zero equals the negative zero,
and what is no number differs from itself. -/
def same : Value → Value → Bool
  | .bool a, .bool b => a == b
  | .num a, .num b => a == b
  | _, _ => false

/-- The equality of `same`, extended to absent values. -/
def sameOption : Option Value → Option Value → Bool
  | some a, some b => a.same b
  | none, none => true
  | _, _ => false

/-! ### Texts and JSON -/

def text : Value → String
  | .bool b => if b then "true" else "false"
  | .num x => Decimal.plain.text x

/-- The magnitude below which whole numbers are written as integers. -/
def integerBound : Float := 9e15

/-- A whole number below the bound becomes an integer, what is not finite becomes null. -/
def toJson : Value → Json
  | .bool b => .bool b
  | .num x =>
    if Binary64.isIntegral x && -integerBound < x && x < integerBound then
      .int (Binary64.toInt64 x)
    else .ofFloat x

def ofJson? : Json → Option Value
  | .bool b => some (.bool b)
  | .int n => some (.num (Binary64.ofInt n))
  | .float x => some (.num x)
  | _ => none

end Value

end ControlNode
