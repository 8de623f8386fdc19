import ControlNode.Json.Parser
import ControlNode.Store.Basic

/-!
# Data files

A store can live in a file: one JSON document that is replaced as a whole. A replacement goes
through a temporary file and keeps the file before it as a backup, so that at every moment
one of the files holds a complete document.
-/

namespace ControlNode

/-! ### Documents -/

namespace Store

/-- The document of a store. Series are listed in time order. -/
def toJson (s : Store) : Json :=
  .obj [("collections", .obj (s.collections.map fun e =>
      (e.1, .obj (e.2.map fun r => (r.1, .obj r.2))))),
    ("samples", .obj (s.samples.map fun e =>
      (e.1, .obj (e.2.map fun o => (o.1, .obj (o.2.map fun x => (toString x.1, x.2)))))))]

/-- Reads an object whose values are read by `f`; of two fields of one name the later
counts, but both must be readable. -/
def readMap? (f : Json → Option α) (j : Json) : Option (Dict String α) :=
  match j with
  | .obj fields => (fields.mapM fun e => (f e.2).map fun a => (e.1, a)).map Dict.ofList
  | _ => none

/-- Reads a time: an integer of 64 bits in its JSON form. -/
def readTime? (key : String) : Option Int :=
  match Json.readNumber? key.toList with
  | some (.int n, []) => if n ≤ Binary64.maxInt64 then some n else none
  | _ => none

def readSeries? (j : Json) : Option Series :=
  match j with
  | .obj fields =>
    (fields.mapM fun e => (readTime? e.1).map fun t => (t, e.2.normalize)).map Dict.ofList
  | _ => none

def readRecord? (j : Json) : Option Record := j.normalize.asObj?

/-- The value of a part of the document, none where it is missing; it may not be there
twice. -/
def documentPart? (fields : List (String × Json)) (name : String) : Option (Option Json) :=
  match fields.filter fun e => e.1 == name with
  | [] => some none
  | [e] => some (some e.2)
  | _ => none

/-- Reads the two parts of a document; a missing part is empty. -/
def readParts? (collections samples : Option Json) : Option Store := do
  let cs ← match collections with
    | none => some []
    | some j => readMap? (readMap? readRecord?) j
  let ss ← match samples with
    | none => some []
    | some j => readMap? (readMap? readSeries?) j
  some ⟨cs, ss⟩

/-- Reads a document: an object with the two parts, or a list of them. -/
def ofJson? (j : Json) : Option Store :=
  match j with
  | .obj fields => do
    let cs ← documentPart? fields "collections"
    let ss ← documentPart? fields "samples"
    readParts? cs ss
  | .arr [] => readParts? none none
  | .arr [cs] => readParts? (some cs) none
  | .arr [cs, ss] => readParts? (some cs) (some ss)
  | _ => none

def fileText (s : Store) : String := s.toJson.pretty

def isFileBlank (c : Char) : Bool :=
  c == ' ' || c == '\t' || c == '\n' || c == '\r' || c == '\x0c'

/-- Reads the text of a data file; a blank text is an empty store. -/
def ofFileText? (text : String) : Option Store :=
  if text.toList.all isFileBlank then some {}
  else (Json.parseRaw? text).bind ofJson?

end Store

/-! ### Files -/

/-- The texts of the data file, its backup and the temporary file, and whether their
directory exists. -/
structure DataFiles where
  directory : Bool := false
  data : Option String := none
  backup : Option String := none
  temp : Option String := none
  deriving Repr, DecidableEq

namespace DataFiles

inductive Step where
  | writeTemp (text : String)
  /-- The data file becomes the backup. -/
  | retireData
  /-- The temporary file becomes the data file. -/
  | publishTemp
  deriving Repr, DecidableEq

def step (f : DataFiles) : Step → DataFiles
  | .writeTemp text => { f with temp := some text }
  | .retireData => { f with data := none, backup := f.data }
  | .publishTemp => { f with data := f.temp, temp := none }

def run (f : DataFiles) (steps : List Step) : DataFiles := steps.foldl step f

def replaceSteps (f : DataFiles) (text : String) : List Step :=
  [.writeTemp text] ++ (if f.data.isSome then [.retireData] else []) ++ [.publishTemp]

/-- Replaces the data file; none where there is no directory to write to. -/
def replace? (f : DataFiles) (text : String) : Option DataFiles :=
  if f.directory then some (f.run (f.replaceSteps text)) else none

/-- The store that the files hold: that of the data file, or of the backup where the data
file is unreadable. Without a data file the store is empty. -/
def load? (f : DataFiles) : Option Store :=
  match f.data with
  | none => some {}
  | some text =>
    match Store.ofFileText? text with
    | some s => some s
    | none => f.backup.bind Store.ofFileText?

end DataFiles

end ControlNode
