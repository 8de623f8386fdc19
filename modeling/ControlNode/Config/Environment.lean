import ControlNode.Calendar
import ControlNode.Json.Basic
import ControlNode.Text.Blank
import ControlNode.Toml.Parser

/-!
# Environment variables

Variables whose names begin with `QTOGGLE_` set entries of the configuration. Two underscores
part the keys of nested entries; the case of letters does not count. The text of a variable
is a scalar, a list in brackets or a table in braces; a text of no such form is a string. The
variable `TZ` gives the time zone.
-/

namespace ControlNode.Environment

/-! ### Words -/

def isBlank (c : Char) : Bool := c == ' ' || c == '\t' || c == '\n' || c == '\r' || c == '\x0c'

def skipBlanks (cs : List Char) : List Char := cs.dropWhile isBlank

/-- Whether a character may stand in a value without quotes. -/
def isWordChar (c : Char) : Bool :=
  !(c == ',' || c == '{' || c == '}' || c == '[' || c == ']')

/-- The value of a word that is no number with a fraction. -/
def readWhole (cs : List Char) : Json :=
  match Decimal.readUInt64? cs with
  | some n => .int n
  | none => match Decimal.readInt64? cs with
    | some n => .int n
    | none => .str (String.ofList cs)

/-- The value of a word: a number, or a string. Only a word with a point is a double. -/
def readWord (cs : List Char) : Json :=
  let cs := Text.trim cs
  if cs.contains '.' then
    match Decimal.readDouble? cs with
    | some x => .float x
    | none => readWhole cs
  else readWhole cs

def readQuoted? (cs : List Char) : Option (String × List Char) :=
  Toml.lineString? '"' (cs.length + 1) [] cs

/-- Reads the key of an entry: a bare word, or a string in quotes. -/
def readKey? (cs : List Char) : Option (String × List Char) :=
  match cs with
  | '"' :: cs => readQuoted? cs
  | cs =>
    let word := cs.takeWhile Toml.isBareKeyChar
    if word.isEmpty then none
    else some (String.ofList word, cs.dropWhile Toml.isBareKeyChar)

/-! ### Values -/

mutual

def value? : (fuel : Nat) → List Char → Option (Json × List Char)
  | 0, _ => none
  | fuel + 1, cs => do
    let (j, cs) ← match skipBlanks cs with
      | 't' :: 'r' :: 'u' :: 'e' :: cs => some (.bool true, cs)
      | 'f' :: 'a' :: 'l' :: 's' :: 'e' :: cs => some (.bool false, cs)
      | '[' :: cs => (elements? fuel cs).map fun (js, cs) => (.arr js, cs)
      | '{' :: cs => (entries? fuel cs).map fun (es, cs) => (Json.mkObj es, cs)
      | '"' :: cs => (readQuoted? cs).map fun (s, cs) => (.str s, cs)
      | '\'' :: c :: '\'' :: cs => some (.str (String.singleton c), cs)
      | '\'' :: _ => none
      | cs => some (readWord (cs.takeWhile isWordChar), cs.dropWhile isWordChar)
    some (j, skipBlanks cs)
termination_by structural fuel => fuel

/-- Reads the elements of a list to behind its bracket; a comma may end them. -/
def elements? : (fuel : Nat) → List Char → Option (List Json × List Char)
  | 0, _ => none
  | fuel + 1, cs =>
    match cs with
    | ']' :: cs => some ([], cs)
    | cs => do
      let (j, cs) ← value? fuel cs
      match cs with
      | ',' :: cs => (elements? fuel cs).map fun (js, cs) => (j :: js, cs)
      | ']' :: cs => some ([j], cs)
      | _ => none
termination_by structural fuel => fuel

/-- Reads the entries of a table to behind its brace; a comma may end them. -/
def entries? : (fuel : Nat) → List Char → Option (List (String × Json) × List Char)
  | 0, _ => none
  | fuel + 1, cs =>
    match cs with
    | '}' :: cs => some ([], cs)
    | cs => do
      let (key, cs) ← readKey? (skipBlanks cs)
      match skipBlanks cs with
      | '=' :: cs => do
        let (j, cs) ← value? fuel cs
        match cs with
        | ',' :: cs => (entries? fuel cs).map fun (es, cs) => ((key, j) :: es, cs)
        | '}' :: cs => some ([(key, j)], cs)
        | _ => none
      | _ => none
termination_by structural fuel => fuel

end

/-- The value of a variable. A text that is no value as a whole is a string. -/
def read (text : String) : Json :=
  let cs := text.toList
  match value? (2 * cs.length + 2) cs with
  | some (j, []) => j
  | _ => .str text

/-! ### Names -/

/-- What the names of variables begin with, in lower case. -/
def marker : List Char := "qtoggle_".toList

/-- The keys that lead to the entry a variable sets; none for any other variable. -/
def path? (name : String) : Option (List String) :=
  let cs := (Text.trim name.toList).map Char.toLower
  if marker.isPrefixOf cs then
    let path := ((String.ofList (cs.drop marker.length)).splitOn "__").flatMap fun s =>
      s.splitOn "."
    if path.any String.isEmpty then none else some path
  else none

/-- The document with one entry under a path of keys. -/
def nest (path : List String) (j : Json) : Json :=
  path.foldr (fun key j => .obj [(key, j)]) j

/-- The document of variables, each laid over those in front of it. -/
def document (vars : List (String × String)) : Json :=
  vars.foldl (fun under v => match path? v.1 with
    | some path => Json.merge under (nest path (read v.2))
    | none => under) (.obj [])

/-! ### The time zone -/

/-- Reads a zone that never changes: its name and how far it is behind UTC, in hours and perhaps
minutes and seconds. -/
def zone? (text : String) : Option Zone := do
  let name := text.toList.takeWhile Char.isAlpha
  let (ahead, cs) := Decimal.splitSign (text.toList.drop name.length)
  let parts ← ((String.ofList cs).splitOn ":").mapM fun s => Decimal.readDigits? s.toList
  let behind := ((parts[0]?.getD 0 * 60 + parts[1]?.getD 0) * 60 + parts[2]?.getD 0 : Nat)
  if name.length < 3 || 7 < name.length || 3 < parts.length || 24 ≤ parts[0]?.getD 0 ||
      (parts.drop 1).any (60 ≤ ·) then none
  else some { first := if ahead then behind else -behind }

/-- The zone that the variables give. Without one that never changes it is UTC. -/
def zone (vars : List (String × String)) : Zone :=
  (((vars.find? fun v => v.1 == "TZ").bind fun v => zone? v.2)).getD .utc

end ControlNode.Environment
