import ControlNode.Store.DataFile
import ControlNode.Store.KeyTable

/-!
# Backends

The places where records and samples can be kept: in memory, in a data file, in key tables
that have to be opened first, or in a memory that takes records only. All have the same
operations; each operation returns its result and the backend after it.
-/

namespace ControlNode

/-! ### Errors -/

inductive PersistError where
  /-- The data file cannot be written. -/
  | io
  /-- The data file cannot be read back. -/
  | serialization
  | database (detail : String)
  | store (cause : StoreError)
  | samplesNotSupported
  | unknownDriver (name : String)
  | notInitialized

def PersistError.message : PersistError → String
  | .io => "I/O error"
  | .serialization => "Serialization error"
  | .database detail => "Database error: " ++ detail
  | .store (.invalidFilter cause) => "Invalid filter: " ++ cause.message
  | .store (.duplicateId id) => "Duplicate record id: " ++ id
  | .samplesNotSupported => "Samples not supported by this backend"
  | .unknownDriver name => "Unknown persistence driver: " ++ name
  | .notInitialized => "Persistence backend not initialized"

/-! ### Backends -/

inductive Backend where
  | memory (store : Store)
  /-- A store in memory that is written to its data file after each change. -/
  | file (files : DataFiles) (store : Store)
  /-- Tables on disk; operations need them open. -/
  | tables (isOpen : Bool) (tables : KeyTables)
  /-- Records without samples; while `failing`, operations on records are refused. -/
  | recordsOnly (failing : Bool) (store : Store)

namespace Backend

abbrev Outcome (α : Type) := Except PersistError α × Backend

def ofName (name : String) : Except PersistError Backend :=
  if name = "memory" then .ok (.memory {})
  else if name = "json" then .ok (.file {} {})
  else if name = "redb" then .ok (.tables false {})
  else .error (.unknownDriver name)

def name : Backend → String
  | .memory _ => "memory"
  | .file .. => "json"
  | .tables .. => "redb"
  | .recordsOnly .. => "bare"

def samplesSupported : Backend → Bool
  | .recordsOnly .. => false
  | _ => true

/-- The refusal of operations on records that failing brings. -/
def simulated : PersistError := .database "simulated"

/-- Writes a store to its data file after a change has been made in memory. -/
def flush (files : DataFiles) (store : Store) (a : α) : Outcome α :=
  match files.replace? store.fileText with
  | some files => (.ok a, .file files store)
  | none => (.error .io, .file files store)

def inMemory (make : Store → Backend) (r : Except StoreError α × Store) : Outcome α :=
  match r with
  | (.ok a, s) => (.ok a, make s)
  | (.error e, s) => (.error (.store e), make s)

/-- The result of a change that is written to the data file where `dirty` says so. -/
def inFile (files : DataFiles) (dirty : α → Bool) (r : Except StoreError α × Store) :
    Outcome α :=
  match r with
  | (.ok a, s) => if dirty a then flush files s a else (.ok a, .file files s)
  | (.error e, s) => (.error (.store e), .file files s)

def inTables (r : Except StoreError α × KeyTables) : Outcome α :=
  match r with
  | (.ok a, t) => (.ok a, .tables true t)
  | (.error e, t) => (.error (.store e), .tables true t)

/-! ### Lifecycle -/

/-- Makes a backend ready: a data file is read, tables are opened. -/
def init : Backend → Outcome Unit
  | .file files store =>
    let files := { files with directory := true }
    match files.load? with
    | some s => (.ok (), .file files s)
    | none => (.error .serialization, .file files store)
  | .tables true t => (.error (.database "already open"), .tables true t)
  | .tables false t => (.ok (), .tables true t)
  | b => (.ok (), b)

/-- Closes a backend: a data file is written, tables are closed. -/
def cleanup : Backend → Outcome Unit
  | .file files store => flush files store ()
  | .tables _ t => (.ok (), .tables false t)
  | b => (.ok (), b)

/-- A new backend over the data that an old one has left behind. -/
def successor : Backend → Backend
  | .memory _ => .memory {}
  | .file files _ => .file files {}
  | .tables _ t => .tables false t
  | .recordsOnly _ _ => .recordsOnly false {}

def ensureIndex (b : Backend) : Outcome Unit :=
  match b with
  | .tables false t => (.error .notInitialized, .tables false t)
  | b => (.ok (), b)

/-! ### Records -/

def query (b : Backend) (name : String) (q : Query) : Except PersistError (List Record) :=
  let ofStore (s : Store) := (s.query name q).mapError .store
  match b with
  | .memory s => ofStore s
  | .file _ s => ofStore s
  | .tables true t => (t.query name q).mapError .store
  | .tables false _ => .error .notInitialized
  | .recordsOnly failing s => if failing then .error simulated else ofStore s

def insert (b : Backend) (name : String) (r : Record) : Outcome String :=
  match b with
  | .memory s => inMemory .memory (s.insert name r)
  | .file files s => inFile files (fun _ => true) (s.insert name r)
  | .tables true t => inTables (t.insert name r)
  | .tables false t => (.error .notInitialized, .tables false t)
  | .recordsOnly true s => (.error simulated, .recordsOnly true s)
  | .recordsOnly false s => inMemory (.recordsOnly false) (s.insert name r)

def update (b : Backend) (name : String) (part : Record) (f : Filter) : Outcome Nat :=
  match b with
  | .memory s => inMemory .memory (s.update name part f)
  | .file files s => inFile files (· > 0) (s.update name part f)
  | .tables true t => inTables (t.update name part f)
  | .tables false t => (.error .notInitialized, .tables false t)
  | .recordsOnly true s => (.error simulated, .recordsOnly true s)
  | .recordsOnly false s => inMemory (.recordsOnly false) (s.update name part f)

def replace (b : Backend) (name id : String) (r : Record) : Outcome Bool :=
  let ok {β : Type} (p : Bool × β) : Except StoreError Bool × β := (.ok p.1, p.2)
  match b with
  | .memory s => inMemory .memory (ok (s.replace name id r))
  | .file files s => inFile files (fun _ => true) (ok (s.replace name id r))
  | .tables true t => inTables (ok (t.replace name id r))
  | .tables false t => (.error .notInitialized, .tables false t)
  | .recordsOnly true s => (.error simulated, .recordsOnly true s)
  | .recordsOnly false s => inMemory (.recordsOnly false) (ok (s.replace name id r))

def remove (b : Backend) (name : String) (f : Filter) : Outcome Nat :=
  match b with
  | .memory s => inMemory .memory (s.remove name f)
  | .file files s => inFile files (· > 0) (s.remove name f)
  | .tables true t => inTables (t.remove name f)
  | .tables false t => (.error .notInitialized, .tables false t)
  | .recordsOnly true s => (.error simulated, .recordsOnly true s)
  | .recordsOnly false s => inMemory (.recordsOnly false) (s.remove name f)

/-! ### Samples -/

def saveSample (b : Backend) (name object : String) (x : Sample) : Outcome Unit :=
  match b with
  | .memory s => (.ok (), .memory (s.saveSample name object x))
  | .file files s => flush files (s.saveSample name object x) ()
  | .tables true t => (.ok (), .tables true (t.saveSample name object x))
  | .tables false t => (.error .notInitialized, .tables false t)
  | .recordsOnly failing s => (.error .samplesNotSupported, .recordsOnly failing s)

def sampleSlice (b : Backend) (name object : String) (r : SampleRange) :
    Except PersistError (List Sample) :=
  match b with
  | .memory s => .ok (s.sampleSlice name object r)
  | .file _ s => .ok (s.sampleSlice name object r)
  | .tables true t => .ok (t.sampleSlice name object r)
  | .tables false _ => .error .notInitialized
  | .recordsOnly .. => .error .samplesNotSupported

def samplesAt (b : Backend) (name object : String) (times : List Int) :
    Except PersistError (List (Option Sample)) :=
  match b with
  | .memory s => .ok (times.map (s.sampleAt name object))
  | .file _ s => .ok (times.map (s.sampleAt name object))
  | .tables true t => .ok (times.map (t.sampleAt name object))
  | .tables false _ => .error .notInitialized
  | .recordsOnly .. => .error .samplesNotSupported

def removeSamples (b : Backend) (name : String) (objects : Option (List String))
    (r : SampleRange) : Outcome Nat :=
  match b with
  | .memory s =>
    let (n, s) := s.removeSamples name objects r
    (.ok n, .memory s)
  | .file files s =>
    let (n, s) := s.removeSamples name objects r
    inFile files (· > 0) (.ok n, s)
  | .tables true t =>
    let (n, t) := t.removeSamples name objects r
    (.ok n, .tables true t)
  | .tables false t => (.error .notInitialized, .tables false t)
  | .recordsOnly failing s => (.error .samplesNotSupported, .recordsOnly failing s)

end Backend

end ControlNode
