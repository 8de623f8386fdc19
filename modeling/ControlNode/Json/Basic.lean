import ControlNode.Dict
import ControlNode.Decimal.Literal

/-!
# JSON values

The data that attributes, records, events and samples are made of. Integers and doubles are
two kinds of number, and the fields of an object are listed in key order.
-/

namespace ControlNode

inductive Json where
  | null
  | bool (b : Bool)
  | int (n : Int)
  | float (x : Float)
  | str (s : String)
  | arr (items : List Json)
  | obj (fields : List (String × Json))
  deriving Inhabited

namespace Json

/-! ### Construction -/

/-- An object with the given fields; of two fields of one name the later counts. -/
def mkObj (fields : List (String × Json)) : Json := .obj (Dict.ofList fields)

/-- A double as JSON; what is not finite becomes null. -/
def ofFloat (x : Float) : Json := if Binary64.isFinite x then .float x else .null

def ofOption (f : α → Json) : Option α → Json
  | some a => f a
  | none => .null

/-! ### Views -/

def asObj? : Json → Option (Dict String Json)
  | .obj fields => some fields
  | _ => none

def asArr? : Json → Option (List Json)
  | .arr items => some items
  | _ => none

def asStr? : Json → Option String
  | .str s => some s
  | _ => none

def asBool? : Json → Option Bool
  | .bool b => some b
  | _ => none

/-- The double nearest to a number of either kind. -/
def asFloat? : Json → Option Float
  | .int n => some (Binary64.ofInt n)
  | .float x => some x
  | _ => none

/-- An integer number that fits into 64 bits with a sign. -/
def asInt64? : Json → Option Int
  | .int n => if n ≤ Binary64.maxInt64 then some n else none
  | _ => none

def isNull : Json → Bool
  | .null => true
  | _ => false

/-- The field of an object; a value that is no object has none. -/
def field? (j : Json) (name : String) : Option Json :=
  match j with
  | .obj fields => Dict.get? fields name
  | _ => none

/-- The field of an object, null where there is none. -/
def fieldD (j : Json) (name : String) : Json := (j.field? name).getD .null

/-! ### Equality -/

mutual

/-- Equal values have the same kind throughout: `1` and `1.0` differ. -/
def beq : Json → Json → Bool
  | .null, .null => true
  | .bool a, .bool b => a == b
  | .int a, .int b => a == b
  | .float a, .float b => a == b
  | .str a, .str b => a == b
  | .arr as, .arr bs => beqItems as bs
  | .obj as, .obj bs => beqFields as bs
  | _, _ => false
termination_by structural j => j

def beqItems : List Json → List Json → Bool
  | [], [] => true
  | a :: as, b :: bs => beq a b && beqItems as bs
  | _, _ => false
termination_by structural as => as

def beqFields : List (String × Json) → List (String × Json) → Bool
  | [], [] => true
  | (k, a) :: as, (l, b) :: bs => k == l && beq a b && beqFields as bs
  | _, _ => false
termination_by structural as => as

end

instance : BEq Json := ⟨beq⟩

/-! ### Merging -/

mutual

/-- Lays a value over another one: objects are merged field by field, any other value takes
the place of what is under it. -/
def merge (under : Json) : Json → Json
  | .obj layer => match under with
    | .obj fields => .obj (mergeFields fields layer)
    | _ => .obj layer
  | .null => .null
  | .bool b => .bool b
  | .int n => .int n
  | .float x => .float x
  | .str s => .str s
  | .arr items => .arr items
termination_by structural layer => layer

def mergeFields (fields : List (String × Json)) : List (String × Json) → List (String × Json)
  | [] => fields
  | (key, j) :: layer =>
    let j := match Dict.get? fields key with
      | some under => merge under j
      | none => j
    mergeFields (Dict.insert fields key j) layer
termination_by structural layer => layer

end

end Json

end ControlNode
