import ControlNode.Json.Printer

/-!
# Printing TOML

A table is printed with its plain values first, then its tables, each under a header. A list
with more than one element takes one line for each; a list of nothing but objects becomes an
array of tables. Null has no text, nor has an integer that does not fit into 64 bits.
-/

namespace ControlNode.Toml

/-! ### Strings -/

def longestRun (c : Char) : (run : Nat) → List Char → Nat
  | run, [] => run
  | run, d :: ds => if d = c then longestRun c (run + 1) ds else max run (longestRun c 0 ds)

/-- Control characters that only an escape can express: all but the tab and the newline. -/
def needsEscape (c : Char) : Bool :=
  (c.toNat < 32 && c != '\t' && c != '\n') || c.toNat = 127

/-- The escape of a character in a basic string; none where it stands for itself. -/
def escapeOf? (c : Char) : Option String :=
  if c.toNat = 8 then some "\\b"
  else if c = '\t' then some "\\t"
  else if c = '\n' then some "\\n"
  else if c.toNat = 12 then some "\\f"
  else if c = '\r' then some "\\r"
  else if c = '\\' then some "\\\\"
  else if c.toNat < 32 || c.toNat = 127 then
    some ("\\u00" ++ String.ofList [upperHex (c.toNat / 16), upperHex (c.toNat % 16)])
  else none
where
  /-- A hexadecimal digit in upper case. -/
  upperHex (n : Nat) : Char := (Nat.digitChar n).toUpper

/-- The text of a basic string in which at most `quotes` quotes may follow each other. -/
def basicText (block : Bool) (quotes : Nat) : (run : Nat) → List Char → String
  | _, [] => ""
  | run, c :: cs =>
    if c = '"' then
      if run < quotes then "\"" ++ basicText block quotes (run + 1) cs
      else "\\\"" ++ basicText block quotes 0 cs
    else if block && c = '\n' then "\n" ++ basicText block quotes 0 cs
    else match escapeOf? c with
      | some e => e ++ basicText block quotes 0 cs
      | none => String.singleton c ++ basicText block quotes 0 cs

def basic (cs : List Char) : String := "\"" ++ basicText false 0 0 cs ++ "\""

def literal (cs : List Char) : String := "'" ++ String.ofList cs ++ "'"

/-- The line break that a block string begins with, if it has more than one line. -/
def blockStart (cs : List Char) : String := if cs.contains '\n' then "\n" else ""

def blockBasic (cs : List Char) : String :=
  "\"\"\"" ++ blockStart cs ++ basicText true 2 0 cs ++ "\"\"\""

def blockLiteral (cs : List Char) : String :=
  "'''" ++ blockStart cs ++ String.ofList cs ++ "'''"

/-- The text of a string in the first form that needs no escapes but those of tabs: basic,
literal, or one of these over several lines. -/
def stringText (s : String) : String :=
  let cs := s.toList
  let escapes := cs.any needsEscape
  let backslash := cs.contains '\\'
  let newline := cs.contains '\n'
  let doubles := longestRun '"' 0 cs
  let singles := longestRun '\'' 0 cs
  if !escapes && !backslash && doubles = 0 && !newline then basic cs
  else if !escapes && singles = 0 && !newline then literal cs
  else if !escapes && !backslash && doubles ≤ 2 then blockBasic cs
  else if !escapes && singles ≤ 2 then blockLiteral cs
  else if newline then blockBasic cs
  else basic cs

def keyText (key : String) : String :=
  let cs := key.toList
  let escapes := cs.any fun c => needsEscape c || c = '\n'
  if !cs.isEmpty && cs.all fun c => c.isAlphanum || c == '_' || c == '-' then key
  else if !escapes && !cs.contains '\\' && !cs.contains '"' then basic cs
  else if !escapes && !cs.contains '\'' then literal cs
  else basic cs

/-! ### Values -/

/-- The text of an integer that fits into 64 bits. -/
def integerText? (n : Int) : Option String :=
  if Binary64.minInt64 ≤ n && n ≤ Binary64.maxInt64 then some (toString n) else none

def floatText (x : Float) : String :=
  match Binary64.parts x with
  | .nan => "nan"
  | _ => Decimal.plainFraction.text x

/-- Joins the elements of an array: one of them in the line, more each on a line of its
own. -/
def arrayText (items : List String) : String :=
  match items with
  | [] => "[]"
  | [item] => "[" ++ item ++ "]"
  | items => "[" ++ String.join (items.map fun item => "\n    " ++ item ++ ",") ++ "\n]"

mutual

/-- The text of a value in a line; objects are written in braces. -/
def valueText? : Json → Option String
  | .null => none
  | .bool b => some (if b then "true" else "false")
  | .int n => integerText? n
  | .float x => some (floatText x)
  | .str s => some (stringText s)
  | .arr items => (itemTexts? items).map arrayText
  | .obj fields =>
    (fieldTexts? fields).map fun texts =>
      if texts.isEmpty then "\x7b\x7d" else "\x7b " ++ String.intercalate ", " texts ++ " \x7d"
termination_by structural j => j

def itemTexts? : List Json → Option (List String)
  | [] => some []
  | j :: js => do
    let text ← valueText? j
    let texts ← itemTexts? js
    some (text :: texts)
termination_by structural js => js

def fieldTexts? : List (String × Json) → Option (List String)
  | [] => some []
  | (key, j) :: fields => do
    let text ← valueText? j
    let texts ← fieldTexts? fields
    some ((keyText key ++ " = " ++ text) :: texts)
termination_by structural fields => fields

end

/-! ### Tables -/

/-- A piece of a document: a header with the lines under it. The root has no header. -/
structure Section where
  header : Option String
  lines : List String

def isObject : Json → Bool
  | .obj _ => true
  | _ => false

def isTabular : Json → Bool
  | .obj _ => true
  | .arr items => !items.isEmpty && items.all isObject
  | _ => false

def pathText (path : List String) : String := String.intercalate "." (path.map keyText)

def tableHeader (path : List String) (fields : List (String × Json)) : Option String :=
  if !fields.isEmpty && fields.all fun f => isTabular f.2 then none
  else some ("[" ++ pathText path ++ "]")

def elementHeader (path : List String) : Option String :=
  some ("[[" ++ pathText path ++ "]]")

def plainLines? (fields : List (String × Json)) : Option (List String) :=
  fieldTexts? (fields.filter fun f => !isTabular f.2)

mutual

def sectionsOf? (path : List String) : List (String × Json) → Option (List Section)
  | [] => some []
  | (key, j) :: fields => do
    let here ← sectionsOfValue? (path ++ [key]) j
    let rest ← sectionsOf? path fields
    some (here ++ rest)
termination_by structural fields => fields

/-- The sections of a value; none for a plain one. -/
def sectionsOfValue? (path : List String) : Json → Option (List Section)
  | .obj fields => do
    let lines ← plainLines? fields
    let rest ← sectionsOf? path fields
    some (⟨tableHeader path fields, lines⟩ :: rest)
  | .arr items => if isTabular (.arr items) then sectionsOfItems? path items else some []
  | _ => some []
termination_by structural j => j

def sectionsOfItems? (path : List String) : List Json → Option (List Section)
  | [] => some []
  | .obj fields :: items => do
    let lines ← plainLines? fields
    let inner ← sectionsOf? path fields
    let rest ← sectionsOfItems? path items
    some (⟨elementHeader path, lines⟩ :: inner ++ rest)
  | _ :: items => sectionsOfItems? path items
termination_by structural items => items

end

/-- The text of a section; a blank line parts it from what is in front of it. -/
def Section.text (s : Section) (first : Bool) : String :=
  let header := match s.header with
    | some h => (if first then "" else "\n") ++ h ++ "\n"
    | none => ""
  header ++ String.join (s.lines.map (· ++ "\n"))

def Section.isVisible (s : Section) : Bool := s.header.isSome || !s.lines.isEmpty

/-- The text of sections, the first visible one without a blank line. -/
def sectionsText : (first : Bool) → List Section → String
  | _, [] => ""
  | first, s :: ss => s.text first ++ sectionsText (first && !s.isVisible) ss

/-- The text of a document with the given fields, in their order. -/
def render? (fields : List (String × Json)) : Option String := do
  let lines ← plainLines? fields
  let tables ← sectionsOf? [] fields
  some (sectionsText true (⟨none, lines⟩ :: tables))

end ControlNode.Toml
