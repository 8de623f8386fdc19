import ControlNode.Json.Printer

/-!
# Queries over records

A record is a JSON object with an `id`. A filter demands of each of its fields that it equals
a value or satisfies operators; a query filters, sorts, limits and projects records. Ids that
look like integers come first and in numeric order.
-/

namespace ControlNode

abbrev Record := Dict String Json

/-- The id of a record: a string that is not empty. -/
def Record.id? (r : Record) : Option String :=
  match Dict.get? r "id" with
  | some (.str s) => if s = "" then none else some s
  | _ => none

def Record.withId (r : Record) (id : String) : Record := Dict.insert r "id" (.str id)

def Record.merge (r part : Record) : Record :=
  part.foldl (fun r e => if e.1 = "id" then r else Dict.insert r e.1 e.2) r

/-! ### Equality and order of values -/

namespace Json

mutual

/-- Equality of values, numbers by their numeric value whatever their kind. -/
def equiv : Json → Json → Bool
  | .null, .null => true
  | .bool a, .bool b => a == b
  | .str a, .str b => a == b
  | .int a, .int b => Binary64.ofInt a == Binary64.ofInt b
  | .int a, .float b => Binary64.ofInt a == b
  | .float a, .int b => a == Binary64.ofInt b
  | .float a, .float b => a == b
  | .arr as, .arr bs => equivItems as bs
  | .obj as, .obj bs => as.length == bs.length && equivFields as bs
  | _, _ => false
termination_by structural j => j

def equivItems : List Json → List Json → Bool
  | [], [] => true
  | a :: as, b :: bs => equiv a b && equivItems as bs
  | _, _ => false
termination_by structural as => as

def equivFields : List (String × Json) → List (String × Json) → Bool
  | [], _ => true
  | (k, a) :: as, bs =>
    (match Dict.get? bs k with
      | some b => equiv a b
      | none => false) && equivFields as bs
termination_by structural as => as

end

def compareFloats (x y : Float) : Option Ordering :=
  if x < y then some .lt else if x == y then some .eq else if y < x then some .gt else none

/-- The order of two numbers, two strings or two booleans; others have none. -/
def compareScalars? (a b : Json) : Option Ordering :=
  match a, b with
  | .str a, .str b => some (compare a b)
  | .bool a, .bool b => some (compare a b)
  | a, b => match a.asFloat?, b.asFloat? with
    | some x, some y => compareFloats x y
    | _, _ => none

/-- The place of a kind in the order of values of different kinds. -/
def kindRank : Json → Nat
  | .null => 0
  | .bool _ => 1
  | .int _ => 2
  | .float _ => 2
  | .str _ => 3
  | .arr _ => 4
  | .obj _ => 5

end Json

/-! ### Filters -/

abbrev Filter := Dict String Json

inductive FilterError where
  /-- A condition with operators and other keys. -/
  | mixedOperators (condition : Json)
  /-- The operand of `in` is no list. -/
  | notAList (operand : Json)

def FilterError.message : FilterError → String
  | .mixedOperators condition => "operators mixed with plain keys: " ++ condition.compact
  | .notAList operand => "\"in\" expects a list, got " ++ operand.compact

namespace Filter

inductive Operator where
  | gt
  | ge
  | lt
  | le
  | isIn
  deriving Repr, DecidableEq

def Operator.ofName? : String → Option Operator
  | "gt" => some .gt
  | "ge" => some .ge
  | "lt" => some .lt
  | "le" => some .le
  | "in" => some .isIn
  | _ => none

def Operator.admits : Operator → Ordering → Bool
  | .gt, o => o == .gt
  | .ge, o => o != .lt
  | .lt, o => o == .lt
  | .le, o => o != .gt
  | .isIn, o => o == .eq

/-- Whether a value satisfies an operator with its operand. -/
def holds (op : Operator) (actual operand : Json) : Except FilterError Bool :=
  match op, operand with
  | .isIn, .arr items => .ok (items.any fun item => actual.equiv item)
  | .isIn, operand => .error (.notAList operand)
  | op, operand => .ok (match actual.compareScalars? operand with
    | some o => op.admits o
    | none => false)

/-- A condition: equality, or operators of which all have to hold. -/
inductive Condition where
  | equals (value : Json)
  | operators (ops : List (Operator × Json))

/-- Reads a condition; an object with operators for keys has no other keys. -/
def Condition.ofJson (j : Json) : Except FilterError Condition :=
  match j with
  | .obj fields =>
    let ops := fields.filterMap fun e => (Operator.ofName? e.1).map fun op => (op, e.2)
    if ops.isEmpty then .ok (.equals j)
    else if ops.length = fields.length then .ok (.operators ops)
    else .error (.mixedOperators j)
  | j => .ok (.equals j)

def allHold (actual : Json) : List (Operator × Json) → Except FilterError Bool
  | [] => .ok true
  | (op, operand) :: ops => do
    if ← holds op actual operand then allHold actual ops else .ok false

def Condition.matches (c : Condition) (actual : Json) : Except FilterError Bool :=
  match c with
  | .equals value => .ok (actual.equiv value)
  | .operators ops => allHold actual ops

/-- Whether a record satisfies a filter, its fields asked in order up to the first that does
not hold. A missing field counts as null. -/
def matchesRecord (r : Record) : Filter → Except FilterError Bool
  | [] => .ok true
  | (field, cond) :: rest => do
    let c ← Condition.ofJson cond
    if ← c.matches ((Dict.get? r field).getD .null) then matchesRecord r rest else .ok false

def select (f : Filter) : List Record → Except FilterError (List Record)
  | [] => .ok []
  | r :: rs => do
    let hit ← matchesRecord r f
    let rest ← select f rs
    .ok (if hit then r :: rest else rest)

end Filter

/-! ### Sorting -/

structure SortKey where
  field : String
  descending : Bool
  deriving Repr, DecidableEq

/-- The order of record ids: integers first, by number and then by text, then all others by
text. -/
def compareIds (a b : String) : Ordering :=
  match Decimal.readInt64? a.toList, Decimal.readInt64? b.toList with
  | some x, some y => (compare x y).then (compare a b)
  | some _, none => .lt
  | none, some _ => .gt
  | none, none => compare a b

/-- The order of two values of a field. What is missing or null comes first; values of
different kinds come in the order of the kinds. -/
def compareField (field : String) (a b : Option Json) : Ordering :=
  match a.filter fun j => !j.isNull, b.filter fun j => !j.isNull with
  | none, none => .eq
  | none, some _ => .lt
  | some _, none => .gt
  | some a, some b =>
    match a, b, decide (field = "id") with
    | .str x, .str y, true => compareIds x y
    | a, b, _ => (a.compareScalars? b).getD (compare a.kindRank b.kindRank)

/-- The order of two records by the first key that tells them apart. -/
def compareRecords : List SortKey → Record → Record → Ordering
  | [], _, _ => .eq
  | k :: ks, a, b =>
    let o := compareField k.field (Dict.get? a k.field) (Dict.get? b k.field)
    (if k.descending then o.swap else o).then (compareRecords ks a b)

/-- Sorts records; those that compare equal keep their order. -/
def sortRecords (keys : List SortKey) (rs : List Record) : List Record :=
  rs.mergeSort fun a b => compareRecords keys a b != .gt

/-! ### Queries -/

/-- What to select from a collection, in which order and how much of it. -/
structure Query where
  filter : Filter := []
  /-- The fields to keep beside the id; all where there is none. -/
  fields : Option (List String) := none
  sort : List SortKey := []
  limit : Option Nat := none

/-- A record with the wanted fields and its id. -/
def Query.project (q : Query) (r : Record) : Record :=
  match q.fields with
  | none => r
  | some fields => r.filter fun e => e.1 == "id" || fields.contains e.1

/-- Filters, sorts, limits and projects records. -/
def Query.apply (q : Query) (rs : List Record) : Except FilterError (List Record) := do
  let found ← q.filter.select rs
  let sorted := sortRecords q.sort found
  let kept := match q.limit with
    | none => sorted
    | some n => sorted.take n
  .ok (kept.map q.project)

end ControlNode
