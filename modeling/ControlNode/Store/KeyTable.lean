import ControlNode.Store.Basic

/-!
# Key tables

A store over ordered tables of text keys. The records of a collection are a table by id; its
samples are one table whose keys join the object and the time, so that the samples of one
object form a contiguous range in time order.
-/

namespace ControlNode

/-! ### Sample keys -/

namespace SampleKey

/-- The times are shifted so that the least 64-bit integer becomes zero. -/
def shifted (time : Int) : Nat := (time - Binary64.minInt64).toNat

/-- A number with zeros in front of it up to a width. -/
def padded (width n : Nat) : List Char :=
  let ds := Nat.toDigits 10 n
  List.replicate (width - ds.length) '0' ++ ds

def separator : Char := Char.ofNat 0

def ofSample (object : String) (time : Int) : String :=
  String.ofList (object.toList ++ separator :: padded 20 (shifted time))

/-- The least key behind those of all samples of an object. -/
def endOf (object : String) : String := String.ofList (object.toList ++ [Char.ofNat 1])

def split? (key : String) : Option (String × Int) :=
  let cs := key.toList
  match cs.dropWhile (· ≠ separator) with
  | [] => none
  | _ :: ds =>
    (Decimal.readUInt64? ds).map fun n =>
      (String.ofList (cs.takeWhile (· ≠ separator)), (n : Int) + Binary64.minInt64)

end SampleKey

/-! ### Tables -/

/-- Tables of records and of samples by collection. What is put into a table is found in it again;
that records and values go through a text and back is not part of it. -/
structure KeyTables where
  records : Dict String Collection := []
  samples : Dict String (Dict String Sample) := []

namespace KeyTables

def collection (t : KeyTables) (name : String) : Collection := (t.records.get? name).getD []

def setCollection (t : KeyTables) (name : String) (c : Collection) : KeyTables :=
  { t with records := t.records.insert name c }

def query (t : KeyTables) (name : String) (q : Query) : Except StoreError (List Record) :=
  match q.apply (Dict.values (t.collection name)) with
  | .ok rs => .ok rs
  | .error e => .error (.invalidFilter e)

/-- Files a new record under its id, or under a fresh one where it has none. -/
def insert (t : KeyTables) (name : String) (r : Record) :
    Except StoreError String × KeyTables :=
  let c := t.collection name
  let ids := (Dict.values c).filterMap Record.id?
  let id := r.id?.getD (Collection.nextId ids)
  if ids.contains id then (.error (.duplicateId id), t)
  else (.ok id, t.setCollection name (Dict.insert c id (r.withId id)))

/-- The records that satisfy a filter and have an id, with their ids. -/
def select (f : Filter) (c : Collection) : Except StoreError (List (String × Record)) :=
  match f.select (Dict.values c) with
  | .error e => .error (.invalidFilter e)
  | .ok rs => .ok (rs.filterMap fun r => r.id?.map fun id => (id, r))

/-- Merges `part` into the records that satisfy the filter, all of them or none. -/
def update (t : KeyTables) (name : String) (part : Record) (f : Filter) :
    Except StoreError Nat × KeyTables :=
  let c := t.collection name
  match select f c with
  | .error e => (.error e, t)
  | .ok hits =>
    (.ok hits.length, t.setCollection name
      (hits.foldl (fun c e => Dict.insert c e.1 (e.2.merge part)) c))

def replace (t : KeyTables) (name : String) (id : String) (r : Record) : Bool × KeyTables :=
  let (matched, c) := (t.collection name).replace id r
  (matched, t.setCollection name c)

def remove (t : KeyTables) (name : String) (f : Filter) : Except StoreError Nat × KeyTables :=
  let c := t.collection name
  match select f c with
  | .error e => (.error e, t)
  | .ok hits =>
    (.ok hits.length, t.setCollection name (hits.foldl (fun c e => Dict.erase c e.1) c))

/-! ### Samples -/

def series (t : KeyTables) (name : String) : Dict String Sample :=
  (t.samples.get? name).getD []

def saveSample (t : KeyTables) (name object : String) (x : Sample) : KeyTables :=
  let key := SampleKey.ofSample object x.time
  { t with samples := t.samples.insert name (Dict.insert (t.series name) key x) }

/-- The samples whose keys lie between two keys, the second one excluded. -/
def sampleSlice (t : KeyTables) (name object : String) (r : SampleRange) : List Sample :=
  let low := SampleKey.ofSample object (r.start.getD Binary64.minInt64)
  let high := match r.stop with
    | some stop => SampleKey.ofSample object stop
    | none => SampleKey.endOf object
  let inside := (t.series name).filter fun e => !(e.1 < low : Bool) && (e.1 < high : Bool)
  r.takeFrom (inside.map Prod.snd)

def sampleAt (t : KeyTables) (name object : String) (time : Int) : Option Sample :=
  let low := SampleKey.ofSample object Binary64.minInt64
  let high := SampleKey.ofSample object time
  ((t.series name).filter fun e => !(e.1 < low : Bool) && !(high < e.1 : Bool)).getLast?.map
    Prod.snd

/-- Drops the samples of the wanted objects in a range; returns how many there were. -/
def removeSamples (t : KeyTables) (name : String) (objects : Option (List String))
    (r : SampleRange) : Nat × KeyTables :=
  let doomed (key : String) : Bool :=
    match SampleKey.split? key with
    | some (object, time) => Store.wanted objects object && r.contains time
    | none => false
  let all := t.series name
  let kept := all.filter fun e => !doomed e.1
  (all.length - kept.length, { t with samples := t.samples.insert name kept })

end KeyTables

end ControlNode
