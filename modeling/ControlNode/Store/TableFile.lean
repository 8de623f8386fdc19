import ControlNode.Store.DataFile
import ControlNode.Store.KeyTable

/-!
# Files of key tables

Between two runs of a program key tables are kept in a file: one JSON document that lists the
tables of records and of samples with their keys.
-/

namespace ControlNode.KeyTables

def toJson (t : KeyTables) : Json :=
  .obj [("records", .obj (t.records.map fun e =>
      (e.1, .obj (e.2.map fun r => (r.1, .obj r.2))))),
    ("samples", .obj (t.samples.map fun e =>
      (e.1, .obj (e.2.map fun x => (x.1, x.2.value)))))]

/-- Reads a table of samples; the times are parts of the keys. -/
def readSamples? (j : Json) : Option (Dict String Sample) :=
  match j with
  | .obj fields =>
    (fields.mapM fun e => (SampleKey.split? e.1).map fun k =>
      (e.1, { time := k.2, value := e.2.normalize })).map Dict.ofList
  | _ => none

/-- Reads a document, which has both kinds of tables. -/
def ofJson? (j : Json) : Option KeyTables :=
  match j with
  | .obj fields => do
    let records ← (Store.documentPart? fields "records").join
    let samples ← (Store.documentPart? fields "samples").join
    some {
      records := ← Store.readMap? (Store.readMap? Store.readRecord?) records
      samples := ← Store.readMap? readSamples? samples }
  | _ => none

def fileText (t : KeyTables) : String := t.toJson.pretty

/-- Reads the text of a file of tables; a file without text has none. -/
def ofFileText? (text : String) : Option KeyTables :=
  if text.isEmpty then some {} else (Json.parseRaw? text).bind ofJson?

end ControlNode.KeyTables
