import ControlNode.Port.Error

/-!
# Domains of ports

A port has a type, limits on its numbers and perhaps a list of choices. Values of users are
checked against them; values of expressions and devices are made to fit the type.
-/

namespace ControlNode

structure Domain where
  type : PortType
  limits : NumberLimits := {}
  choices : Option (List Choice) := none

namespace Domain

/-- The value of the port's type that is closest: a truth value, or a number, which loses its
fraction where the port takes whole numbers. -/
def adapt (d : Domain) (v : Value) : Value :=
  match d.type with
  | .boolean => .bool v.toBool
  | .number => .num (if d.limits.integer then Binary64.trunc v.toFloat else v.toFloat)

def rangeFault (d : Domain) (v : Value) : Option ValueFault :=
  match d.type, v with
  | .boolean, .bool _ => none
  | .number, .num x => (d.limits.check x).map .limit
  | type, _ => some (.wrongType type)

/-- Accepts a value or says what is wrong with it. -/
def check (d : Domain) (v : Value) : Except PortError Unit :=
  match d.rangeFault v with
  | some f => .error (.invalidValue f)
  | none =>
    if AttrDef.isChoice d.choices v.toJson then .ok ()
    else .error (.invalidValue (.notAChoice v))

def HasType (type : PortType) (v : Value) : Prop := v.isBool = true ↔ type = .boolean

theorem adapt_hasType (d : Domain) (v : Value) : HasType d.type (d.adapt v) := by
  unfold HasType adapt
  cases h : d.type <;> simp [Value.isBool]

end Domain

end ControlNode
