import ControlNode.Json.Parser
import ControlNode.Node.Registry
import ControlNode.Toml.Printer

/-!
# Configurations

What a node is set up with: its intervals, its backend, the filter of its log, and its ports.
A configuration is read from a document and printed as one. What a document leaves out has
its default, and what a configuration has no use for is passed over.
-/

namespace ControlNode

structure PersistConfig where
  /-- The name of a backend. -/
  driver : String := "json"
  /-- The data file of a backend that needs one. -/
  filePath : String := "qtoggleserver-data.json"
  deriving Repr, DecidableEq

structure Config where
  core : NodeConfig := {}
  persist : PersistConfig := {}
  logLevel : String := "info"
  /-- The ids under which configured ports are added, by the configured ones. -/
  mappings : Dict String String := []
  ports : List Node.PortConfig := []
  /-- The zone of the process; it is not part of the document. -/
  zone : Zone := .utc

namespace Config

/-! ### Sections -/

/-- The entries of a section: by name, or as a list in the order in which they are printed. -/
inductive Section where
  | named (fields : Dict String Json)
  | listed (items : List Json)

/-- The section of a name in a document; a missing one is empty. -/
def section? (document : Dict String Json) (name : String) : Option Section :=
  match document.get? name with
  | none => some (.named [])
  | some (.obj fields) => some (.named fields)
  | some (.arr items) => some (.listed items)
  | some _ => none

def Section.entry? (s : Section) (position : Nat) (name : String) : Option Json :=
  match s with
  | .named fields => fields.get? name
  | .listed items => items[position]?

/-- Reads an entry of a section; a missing one has the default. -/
def Section.read? (s : Section) (f : Json → Option α) (position : Nat) (name : String)
    (default : α) : Option α :=
  match s.entry? position name with
  | none => some default
  | some j => f j

/-! ### Reading -/

def readNatural? : Json → Option Nat
  | .int n => if 0 ≤ n && n < Binary64.wordCount then some n.toNat else none
  | _ => none

def readCore? (s : Section) : Option NodeConfig := do
  let d : NodeConfig := {}
  let tickInterval ← s.read? readNatural? 0 "tick_interval" d.tickInterval
  let persistInterval ← s.read? readNatural? 1 "persist_interval" d.persistInterval
  let readBackoff ← s.read? readNatural? 2 "read_backoff" d.readBackoff
  let queueCapacity ← s.read? readNatural? 3 "queue_capacity" d.queueCapacity
  some ⟨tickInterval, persistInterval, readBackoff, queueCapacity⟩

def readPersist? (s : Section) : Option PersistConfig := do
  let d : PersistConfig := {}
  let driver ← s.read? Json.asStr? 0 "driver" d.driver
  let filePath ← s.read? Json.asStr? 1 "file_path" d.filePath
  some ⟨driver, filePath⟩

/-- Reads a port: what is neither its driver nor its id is a setting of its device. -/
def readPort? (j : Json) : Option Node.PortConfig := do
  let fields ← j.asObj?
  let driver ← (fields.get? "driver").bind Json.asStr?
  let id ← (fields.get? "id").bind Json.asStr?
  some ⟨driver, id, (fields.erase "driver").erase "id"⟩

def readPorts? : Option Json → Option (List Node.PortConfig)
  | none => some []
  | some (.arr items) => items.mapM readPort?
  | some _ => none

def readMappings? : Option Json → Option (Dict String String)
  | none => some []
  | some (.obj fields) => fields.mapM fun e => e.2.asStr?.map fun id => (e.1, id)
  | some _ => none

/-- Reads a document in its normal form. -/
def ofFields? (document : Dict String Json) : Option Config := do
  let core ← readCore? (← section? document "core")
  let persist ← readPersist? (← section? document "persist")
  let log ← section? document "log"
  let logLevel ← log.read? Json.asStr? 0 "level" ({} : Config).logLevel
  let mappings ← readMappings? (document.get? "port_mappings")
  let ports ← readPorts? (document.get? "ports")
  some { core, persist, logLevel, mappings, ports }

/-! ### Printing -/

def coreFields (c : NodeConfig) : List (String × Json) :=
  [("tick_interval", .int c.tickInterval), ("persist_interval", .int c.persistInterval),
    ("read_backoff", .int c.readBackoff), ("queue_capacity", .int c.queueCapacity)]

def portFields (p : Node.PortConfig) : List (String × Json) :=
  [("driver", .str p.driver), ("id", .str p.id)] ++ p.settings

/-- The document of a configuration, its fields in the order in which they are printed. -/
def fields (c : Config) : List (String × Json) :=
  [("core", .obj (coreFields c.core)),
    ("persist", .obj [("driver", .str c.persist.driver), ("file_path", .str c.persist.filePath)]),
    ("log", .obj [("level", .str c.logLevel)]),
    ("port_mappings", .obj (c.mappings.mapValues fun _ id => .str id)),
    ("ports", .arr (c.ports.map fun p => .obj (portFields p)))]

def toJson (c : Config) : Json := (Json.obj c.fields).normalize

/-- The text of a configuration; none where a setting cannot be printed. -/
def toToml? (c : Config) : Option String := Toml.render? c.fields

end Config

end ControlNode
