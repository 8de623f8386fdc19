import ControlNode.Store.Query

/-!
# Document stores

A store keeps collections of records, each filed under its id, and series of samples: values
of objects at times. An operation returns its result and the store after it; an update changes
records one after another and stops where a condition is invalid.
-/

namespace ControlNode

abbrev Collection := Dict String Record

/-- Values of one object by time in milliseconds. -/
abbrev Series := Dict Int Json

structure Sample where
  time : Int
  value : Json

/-- Which samples to take: from `start` on, before `stop`, at most `limit`, the latest first
where `descending`. -/
structure SampleRange where
  start : Option Int := none
  stop : Option Int := none
  limit : Option Nat := none
  descending : Bool := false

def SampleRange.contains (r : SampleRange) (time : Int) : Bool :=
  r.start.all (· ≤ time) && r.stop.all (time < ·)

def SampleRange.takeFrom (r : SampleRange) (samples : List Sample) : List Sample :=
  let ordered := if r.descending then samples.reverse else samples
  match r.limit with
  | none => ordered
  | some n => ordered.take n

inductive StoreError where
  | invalidFilter (cause : FilterError)
  | duplicateId (id : String)

/-! ### Collections -/

namespace Collection

/-- One more than the greatest id that is a natural number below `2^64`, modulo `2^64`. -/
def nextId (ids : List String) : String :=
  let taken := ids.filterMap fun id => Decimal.readUInt64? id.toList
  toString ((taken.foldl max 0 + 1) % Binary64.wordCount)

/-- Files a new record under its id, or under a fresh one where it has none. -/
def insert (c : Collection) (r : Record) : Except StoreError String × Collection :=
  let id := r.id?.getD (nextId (Dict.keys c))
  if Dict.contains c id then (.error (.duplicateId id), c)
  else (.ok id, Dict.insert c id (r.withId id))

/-- Merges `part` into the records that satisfy the filter, one after another; returns how
many were changed. -/
def update (part : Record) (f : Filter) : Collection → Except StoreError Nat × Collection
  | [] => (.ok 0, [])
  | (id, r) :: c =>
    match f.matchesRecord r with
    | .error e => (.error (.invalidFilter e), (id, r) :: c)
    | .ok hit =>
      match update part f c with
      | (.error e, c') => (.error e, (id, if hit then r.merge part else r) :: c')
      | (.ok n, c') =>
        if hit then (.ok (n + 1), (id, r.merge part) :: c') else (.ok n, (id, r) :: c')

/-- Files a record under an id, in place of the one there; returns whether there was one. -/
def replace (c : Collection) (id : String) (r : Record) : Bool × Collection :=
  (Dict.contains c id, Dict.insert c id (r.withId id))

/-- Splits a collection into the records that satisfy a filter and the others. -/
def partition (f : Filter) : Collection → Except StoreError (Collection × Collection)
  | [] => .ok ([], [])
  | (id, r) :: c =>
    match f.matchesRecord r with
    | .error e => .error (.invalidFilter e)
    | .ok hit =>
      match partition f c with
      | .error e => .error e
      | .ok (inside, outside) =>
        if hit then .ok ((id, r) :: inside, outside) else .ok (inside, (id, r) :: outside)

/-- Drops the records that satisfy a filter; returns how many there were. -/
def remove (f : Filter) (c : Collection) : Except StoreError Nat × Collection :=
  match partition f c with
  | .error e => (.error e, c)
  | .ok (inside, outside) => (.ok inside.length, outside)

end Collection

/-! ### Stores -/

/-- Collections of records and of sample series, by name. -/
structure Store where
  collections : Dict String Collection := []
  samples : Dict String (Dict String Series) := []

namespace Store

def query (s : Store) (collection : String) (q : Query) : Except StoreError (List Record) :=
  match s.collections.get? collection with
  | none => .ok []
  | some c => match q.apply (Dict.values c) with
    | .ok rs => .ok rs
    | .error e => .error (.invalidFilter e)

/-- The collection of a name, empty where there is none. -/
def collection (s : Store) (name : String) : Collection := (s.collections.get? name).getD []

def setCollection (s : Store) (name : String) (c : Collection) : Store :=
  { s with collections := s.collections.insert name c }

def insert (s : Store) (name : String) (r : Record) : Except StoreError String × Store :=
  let (result, c) := (s.collection name).insert r
  (result, s.setCollection name c)

def update (s : Store) (name : String) (part : Record) (f : Filter) :
    Except StoreError Nat × Store :=
  match s.collections.get? name with
  | none => (.ok 0, s)
  | some c =>
    let (result, c) := c.update part f
    (result, s.setCollection name c)

def replace (s : Store) (name : String) (id : String) (r : Record) : Bool × Store :=
  let (matched, c) := (s.collection name).replace id r
  (matched, s.setCollection name c)

def remove (s : Store) (name : String) (f : Filter) : Except StoreError Nat × Store :=
  match s.collections.get? name with
  | none => (.ok 0, s)
  | some c =>
    let (result, c) := c.remove f
    (result, s.setCollection name c)

/-! ### Samples -/

/-- The series of an object, empty where there is none. -/
def series (s : Store) (name object : String) : Series :=
  (((s.samples.get? name).getD []).get? object).getD []

def saveSample (s : Store) (name object : String) (x : Sample) : Store :=
  let objects := (s.samples.get? name).getD []
  let series := Dict.insert ((objects.get? object).getD []) x.time x.value
  { s with samples := s.samples.insert name (Dict.insert objects object series) }

def sampleSlice (s : Store) (name object : String) (r : SampleRange) : List Sample :=
  let inside := (s.series name object).filter fun e => r.contains e.1
  r.takeFrom (inside.map fun e => ⟨e.1, e.2⟩)

def sampleAt (s : Store) (name object : String) (time : Int) : Option Sample :=
  ((s.series name object).filter fun e => e.1 ≤ time).getLast?.map fun e => ⟨e.1, e.2⟩

/-- Whether a removal of samples applies to an object. -/
def wanted (objects : Option (List String)) (object : String) : Bool :=
  objects.all fun ids => ids.contains object

/-- Drops the samples of the wanted objects in a range; returns how many there were. -/
def removeSamples (s : Store) (name : String) (objects : Option (List String))
    (r : SampleRange) : Nat × Store :=
  match s.samples.get? name with
  | none => (0, s)
  | some all =>
    let kept := all.map fun e =>
      (e.1, if wanted objects e.1 then e.2.filter fun x => !r.contains x.1 else e.2)
    let size (d : Dict String Series) := d.foldl (fun n e => n + e.2.length) 0
    let kept' := kept.filter fun e => !e.2.isEmpty
    (size all - size kept, { s with samples := s.samples.insert name kept' })

end Store

end ControlNode
