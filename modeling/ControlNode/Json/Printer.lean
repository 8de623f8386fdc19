import ControlNode.Json.Basic
import ControlNode.Decimal.Layout

/-!
# JSON texts

The compact text of a JSON value, as messages quote it, and the indented text of a data file.
-/

namespace ControlNode.Json

/-! ### Strings -/

def hexDigit (n : Nat) : Char := (Nat.digitChar (n % 16))

/-- How a character stands between quotes. -/
def escapeChar (c : Char) : List Char :=
  if c == '"' then ['\\', '"']
  else if c == '\\' then ['\\', '\\']
  else if c == '\n' then ['\\', 'n']
  else if c == '\r' then ['\\', 'r']
  else if c == '\t' then ['\\', 't']
  else if c.toNat == 8 then ['\\', 'b']
  else if c.toNat == 12 then ['\\', 'f']
  else if c.toNat < 32 then
    ['\\', 'u', '0', '0', hexDigit (c.toNat / 16), hexDigit c.toNat]
  else [c]

def quote (s : String) : String :=
  String.ofList ('"' :: s.toList.flatMap escapeChar ++ ['"'])

/-! ### Compact texts -/

def scalarText : Json → String
  | .null => "null"
  | .bool b => if b then "true" else "false"
  | .int n => toString n
  | .float x => if Binary64.isFinite x then Decimal.interchange.text x else "null"
  | .str s => quote s
  | _ => ""

mutual

/-- The text of a value without any space. -/
def compact : Json → String
  | .arr items => "[" ++ compactItems items ++ "]"
  | .obj fields => "\x7b" ++ compactFields fields ++ "\x7d"
  | .null => scalarText .null
  | .bool b => scalarText (.bool b)
  | .int n => scalarText (.int n)
  | .float x => scalarText (.float x)
  | .str s => scalarText (.str s)
termination_by structural j => j

def compactItems : List Json → String
  | [] => ""
  | [a] => compact a
  | a :: as => compact a ++ "," ++ compactItems as
termination_by structural as => as

def compactFields : List (String × Json) → String
  | [] => ""
  | [(k, a)] => quote k ++ ":" ++ compact a
  | (k, a) :: as => quote k ++ ":" ++ compact a ++ "," ++ compactFields as
termination_by structural as => as

end

/-! ### Indented texts -/

/-- A new line at a depth of nesting, two spaces a level. -/
def newline (depth : Nat) : String := "\n" ++ String.ofList (List.replicate (2 * depth) ' ')

mutual

/-- The text of a value with every item and field on a line of its own; `depth` is the level
that the value stands at. -/
def indented (depth : Nat) : Json → String
  | .arr [] => "[]"
  | .arr items => "[" ++ indentedItems (depth + 1) items ++ newline depth ++ "]"
  | .obj [] => "\x7b\x7d"
  | .obj fields =>
    "\x7b" ++ indentedFields (depth + 1) fields ++ newline depth ++ "\x7d"
  | .null => scalarText .null
  | .bool b => scalarText (.bool b)
  | .int n => scalarText (.int n)
  | .float x => scalarText (.float x)
  | .str s => scalarText (.str s)
termination_by structural j => j

def indentedItems (depth : Nat) : List Json → String
  | [] => ""
  | [a] => newline depth ++ indented depth a
  | a :: as => newline depth ++ indented depth a ++ "," ++ indentedItems depth as
termination_by structural as => as

def indentedFields (depth : Nat) : List (String × Json) → String
  | [] => ""
  | [(k, a)] => newline depth ++ quote k ++ ": " ++ indented depth a
  | (k, a) :: as =>
    newline depth ++ quote k ++ ": " ++ indented depth a ++ "," ++ indentedFields depth as
termination_by structural as => as

end

/-- The indented text of a whole document. -/
def pretty (j : Json) : String := indented 0 j

end ControlNode.Json
