import ControlNode.Json.Basic

/-!
# Building TOML tables

A document defines the entries of its tables in any order, but each only once. Which later
definitions may add to a table depends on how it came about: by a header, as the parent of
another table, or by dotted keys.
-/

namespace ControlNode.Toml

inductive Item where
  | value (j : Json)
  /-- A table: whether it has come about without a header of its own, and whether by dotted
  keys. -/
  | table (implied dotted : Bool) (entries : List (String × Item))
  /-- The tables of an array, each with a header. -/
  | tables (elements : List (List (String × Item)))
  deriving Inhabited

abbrev Entries := List (String × Item)

def mapLast? (f : α → Option α) : List α → Option (List α)
  | [] => none
  | [a] => (f a).map fun b => [b]
  | a :: as => (mapLast? f as).map fun bs => a :: bs

/-- Changes the entries at the end of a path, through the latest tables of arrays. Tables on
the way come about where they are missing, with dotted keys as dotted tables; dotted keys do
not reach into tables with headers. `f` is told whether the table at the end is dotted. -/
def alter (dotted : Bool) (f : Bool → Entries → Option Entries) :
    (path : List String) → (isDotted : Bool) → Entries → Option Entries
  | [], isDotted, es => f isDotted es
  | key :: path, _, es =>
    match Dict.get? es key with
    | none => (alter dotted f path dotted []).map fun inner =>
      Dict.insert es key (.table true dotted inner)
    | some (.value _) => none
    | some (.tables elements) => (mapLast? (alter dotted f path false) elements).map fun ts =>
      Dict.insert es key (.tables ts)
    | some (.table implied isDotted inner) =>
      if dotted && !implied then none
      else (alter dotted f path isDotted inner).map fun inner =>
        Dict.insert es key (.table implied isDotted inner)

def splitPath (path : List String) : List String × String :=
  (path.dropLast, path.getLast?.getD "")

/-- Adds a value under a path of keys; a key is defined once, and a dotted key adds only to
tables that dotted keys have made. -/
def addValue (path : List String) (j : Json) (es : Entries) : Option Entries :=
  let (way, key) := splitPath path
  alter true (fun isDotted es =>
    if isDotted = way.isEmpty || Dict.contains es key then none
    else some (Dict.insert es key (.value j))) way false es

/-- Opens the table of a header. It may have come about as a parent, but not otherwise. -/
def openTable (path : List String) (es : Entries) : Option Entries :=
  let (way, key) := splitPath path
  alter false (fun _ es =>
    match Dict.get? es key with
    | none => some (Dict.insert es key (.table false false []))
    | some (.table true false inner) => some (Dict.insert es key (.table false false inner))
    | some _ => none) way false es

def openElement (path : List String) (es : Entries) : Option Entries :=
  let (way, key) := splitPath path
  alter false (fun _ es =>
    match Dict.get? es key with
    | none => some (Dict.insert es key (.tables [[]]))
    | some (.tables ts) => some (Dict.insert es key (.tables (ts ++ [[]])))
    | some _ => none) way false es

def addBelow (header path : List String) (j : Json) (es : Entries) : Option Entries :=
  alter false (fun _ es => addValue path j es) header false es

mutual

def Item.toJson : Item → Json
  | .value j => j
  | .table _ _ es => .obj (fieldsOf es)
  | .tables ts => .arr (elementsOf ts)
termination_by structural i => i

def fieldsOf : List (String × Item) → List (String × Json)
  | [] => []
  | (key, item) :: es => (key, item.toJson) :: fieldsOf es
termination_by structural es => es

def elementsOf : List (List (String × Item)) → List Json
  | [] => []
  | es :: ts => .obj (fieldsOf es) :: elementsOf ts
termination_by structural ts => ts

end

end ControlNode.Toml
