import ControlNode.Toml.Quoted
import ControlNode.Toml.Scalar
import ControlNode.Toml.Table

/-!
# Reading TOML

A document is read line by line: headers and keys with values. Arrays may reach over several
lines, tables in braces may not.
-/

namespace ControlNode.Toml

/-! ### Blanks and comments -/

def skipBlanks (cs : List Char) : List Char := cs.dropWhile isInlineBlank

def skipComment (cs : List Char) : List Char :=
  match cs with
  | '#' :: rest => rest.dropWhile isPrintable
  | cs => cs

def skipLines : (fuel : Nat) → List Char → List Char
  | 0, cs => cs
  | fuel + 1, cs =>
    let cs := skipComment (skipBlanks cs)
    match afterNewline? cs with
    | some cs => skipLines fuel cs
    | none => cs

/-! ### Keys -/

def isBareKeyChar (c : Char) : Bool := c.isAlphanum || c == '_' || c == '-'

/-- Reads one key: a bare word or a string on one line. -/
def key? (cs : List Char) : Option (String × List Char) :=
  let word := cs.takeWhile isBareKeyChar
  if word.isEmpty then simpleString? cs
  else some (String.ofList word, cs.dropWhile isBareKeyChar)

def keyPath? : (fuel : Nat) → List Char → Option (List String × List Char)
  | 0, _ => none
  | fuel + 1, cs => do
    let (key, cs) ← key? (skipBlanks cs)
    match skipBlanks cs with
    | '.' :: cs => do
      let (keys, cs) ← keyPath? fuel cs
      some (key :: keys, cs)
    | cs => some ([key], cs)

/-! ### Values -/

mutual

def value? : (fuel : Nat) → List Char → Option (Json × List Char)
  | 0, _ => none
  | fuel + 1, cs =>
    match cs with
    | '"' :: _ => (readString? cs).map fun (s, cs) => (.str s, cs)
    | '\'' :: _ => (readString? cs).map fun (s, cs) => (.str s, cs)
    | '[' :: cs => (elements? fuel (skipLines cs.length cs)).map fun (js, cs) => (.arr js, cs)
    | '{' :: cs =>
      match skipBlanks cs with
      | '}' :: cs => some (.obj [], cs)
      | cs => (pairs? fuel [] cs).map fun (es, cs) => (.obj (fieldsOf es), cs)
    | cs =>
      let (word, cs) := splitWord cs
      (readScalar? word).map fun j => (j, cs)
termination_by structural fuel => fuel

/-- Reads the elements of an array, from where one may begin to behind the bracket. -/
def elements? : (fuel : Nat) → List Char → Option (List Json × List Char)
  | 0, _ => none
  | fuel + 1, cs =>
    match cs with
    | ']' :: cs => some ([], cs)
    | cs => do
      let (j, cs) ← value? fuel cs
      match skipLines cs.length cs with
      | ',' :: cs => do
        let (js, cs) ← elements? fuel (skipLines cs.length cs)
        some (j :: js, cs)
      | ']' :: cs => some ([j], cs)
      | _ => none
termination_by structural fuel => fuel

/-- Reads the entries of a table in braces to behind the brace. -/
def pairs? : (fuel : Nat) → Entries → List Char → Option (Entries × List Char)
  | 0, _, _ => none
  | fuel + 1, es, cs => do
    let (path, cs) ← keyPath? cs.length cs
    match cs with
    | '=' :: cs => do
      let (j, cs) ← value? fuel (skipBlanks cs)
      let es ← addValue path j es
      match skipBlanks cs with
      | ',' :: cs => pairs? fuel es cs
      | '}' :: cs => some (es, cs)
      | _ => none
    | _ => none
termination_by structural fuel => fuel

end

/-! ### Documents -/

/-- The text behind the rest of a line, which holds nothing but a comment. -/
def endOfLine? (cs : List Char) : Option (List Char) :=
  match skipComment (skipBlanks cs) with
  | [] => some []
  | cs => afterNewline? cs

/-- What has been read so far: the root table and the path of the latest header. -/
structure Document where
  root : Entries := []
  header : List String := []

def header? (d : Document) (cs : List Char) : Option (Document × List Char) := do
  match cs with
  | '[' :: cs =>
    let (path, cs) ← keyPath? cs.length cs
    match cs with
    | ']' :: ']' :: cs =>
      let root ← openElement path d.root
      some (⟨root, path⟩, cs)
    | _ => none
  | cs =>
    let (path, cs) ← keyPath? cs.length cs
    match cs with
    | ']' :: cs =>
      let root ← openTable path d.root
      some (⟨root, path⟩, cs)
    | _ => none

def pair? (d : Document) (cs : List Char) : Option (Document × List Char) := do
  let (path, cs) ← keyPath? cs.length cs
  match cs with
  | '=' :: cs =>
    let (j, cs) ← value? (2 * cs.length + 2) (skipBlanks cs)
    let root ← addBelow d.header path j d.root
    some ({ d with root := root }, cs)
  | _ => none

def document? : (fuel : Nat) → Document → List Char → Option Document
  | 0, _, _ => none
  | fuel + 1, d, cs =>
    match skipLines (cs.length + 1) cs with
    | [] => some d
    | '[' :: cs => do
      let (d, cs) ← header? d cs
      document? fuel d (← endOfLine? cs)
    | cs => do
      let (d, cs) ← pair? d cs
      document? fuel d (← endOfLine? cs)

/-- Reads a document as an object; a byte order mark in front is passed over. -/
def parse? (text : String) : Option (Dict String Json) :=
  let cs := match text.toList with
    | c :: cs => if c.toNat = 0xFEFF then cs else c :: cs
    | [] => []
  (document? (cs.length + 1) {} cs).map fun d => fieldsOf d.root

end ControlNode.Toml
