import ControlNode.Expr.Func
import ControlNode.Value

/-!
# Expressions

An expression is a constant, a reference to a port, or a call. A call of HELD, DELAY or HYST
remembers what it has seen, so an expression belongs to one port.
-/

namespace ControlNode

/-! ### What calls remember -/

/-- What HELD remembers: the last value and since when it has been seen. -/
structure HeldState where
  last : Option Float
  since : Int
  deriving Repr, DecidableEq

/-- What DELAY remembers: the transitions that are too young, oldest first, the last value it
was given and the last one it let through. -/
structure DelayState where
  pending : List (Int × Value)
  seen : Option Value
  current : Option Value
  deriving Repr, DecidableEq

/-- What a call remembers from one evaluation to the next. -/
inductive NodeState where
  | none
  | held (s : HeldState)
  | delay (s : DelayState)
  /-- Whether HYST is switched on. -/
  | hyst (on : Bool)
  deriving Repr, DecidableEq

/-- What a new call of `f` remembers. -/
def NodeState.initial : Func → NodeState
  | .held => .held ⟨Option.none, 0⟩
  | .delay => .delay ⟨[], Option.none, Option.none⟩
  | .hyst => .hyst false
  | _ => .none

/-! ### Trees -/

structure PortRef where
  /-- The port; for a self reference the port that owns the expression. -/
  id : String
  /-- Whether it is written as a self reference. -/
  isSelf : Bool
  /-- Where it starts, in bytes. -/
  pos : Nat
  deriving Repr, DecidableEq

inductive Expr where
  | const (v : Value)
  | ref (r : PortRef)
  | call (f : Func) (pos : Nat) (state : NodeState) (args : List Expr)
  deriving Inhabited

namespace Expr

/-! ### Equality -/

mutual

/-- Equal trees, whatever their positions and memories. -/
def same : Expr → Expr → Bool
  | .const a, .const b => a.same b
  | .ref a, .ref b => a.isSelf == b.isSelf && a.id == b.id
  | .call f _ _ as, .call g _ _ bs => f == g && sameArgs as bs
  | _, _ => false
termination_by structural e => e

def sameArgs : List Expr → List Expr → Bool
  | [], [] => true
  | a :: as, b :: bs => same a b && sameArgs as bs
  | _, _ => false
termination_by structural es => es

end

/-! ### References -/

mutual

/-- The references to ports, left to right. -/
def refs : Expr → List PortRef
  | .const _ => []
  | .ref r => [r]
  | .call _ _ _ args => refsOfArgs args
termination_by structural e => e

def refsOfArgs : List Expr → List PortRef
  | [] => []
  | e :: es => refs e ++ refsOfArgs es
termination_by structural es => es

end

/-- The references that are not written as self references, left to right. -/
def externalRefs (e : Expr) : List PortRef := e.refs.filter fun r => !r.isSelf

/-! ### Printing -/

mutual

def text : Expr → String
  | .const v => v.text
  | .ref r => if r.isSelf then "$" else "$" ++ r.id
  | .call f _ _ args => f.name ++ "(" ++ textOfArgs args ++ ")"
termination_by structural e => e

def textOfArgs : List Expr → String
  | [] => ""
  | [e] => text e
  | e :: es => text e ++ ", " ++ textOfArgs es
termination_by structural es => es

end

end Expr

end ControlNode
