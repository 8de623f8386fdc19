import ControlNode.Node.Calls
import ControlNode.Text.Blank

/-!
# The registry of ports

Adding ports, from configuration, from stored definitions or directly, and removing them. A
port that is added takes over what has been stored under its id.
-/

namespace ControlNode.Node

/-! ### Adding -/

def storedRecord (n : Node) (id : String) : Option Record × Node :=
  let q : Query := { filter := [("id", .str id)], limit := some 1 }
  let (r, n) := n.access false (n.backend.query portsCollection q, n.backend)
  (r.toOption.bind List.head?, n.awaitStorage)

/-- Restores attributes of a port that is about to be added. -/
def loadAttrs (n : Node) (p : Port) (r : Record) : Port × Node :=
  let (p, evaluate) := p.loadAttrs n.graph r
  (p, if evaluate then n.forceEval p.id else n)

def storedValue? (p : Port) (r : Record) : Option Value :=
  if p.persisted then (Dict.get? r "value").bind Value.ofJson? else none

/-- Writes a stored value to the device of a port that is about to be added, which may take a
while. -/
def restoreValue (n : Node) (p : Port) (v : Value) : Port × Node :=
  let n := if p.writable && p.device.writeTime ≠ 0 then n.advance p.device.writeTime else n
  (p.restore v, n)

/-- Registers a port and announces it; returns its attributes. -/
def register (n : Node) (p : Port) : Json × Node :=
  let (attrs, p) := p.attrsJson
  let n := { n with ports := Dict.insert n.ports p.id p }
  (attrs, (n.forceEval p.id).publish (.portAdd p.id attrs))

def idFault? (n : Node) (id : String) : Option LoadFault :=
  if Text.allBlank id.toList then some .emptyId
  else if (n.port? id).isSome then some .duplicateId
  else none

/-- Adds a port: it takes the given attributes, then the stored ones, then the stored value.
Returns its attributes. -/
def add (n : Node) (id : String) (device : Device) (isVirtual : Bool := false)
    (defaults : Record := []) : Except NodeError Json × Node :=
  match n.idFault? id with
  | some fault => (.error (.portLoad id fault), n)
  | none =>
    let key : PortKey := ⟨id, n.nextSerial⟩
    let n := { n with nextSerial := n.nextSerial + 1 }
    let (p, n) := n.loadAttrs (.create key device isVirtual n.config.queueCapacity n.zone) defaults
    let (stored, n) := n.storedRecord id
    let record := stored.getD []
    let (p, n) := n.loadAttrs p record
    let (p, n) := match storedValue? p record with
      | some v => n.restoreValue p v
      | none => (p, n)
    let (attrs, n) := n.register p
    (.ok attrs, n.startWorkers key)

def addDefined (n : Node) (d : VirtualPortDef) : Except NodeError Json × Node :=
  n.add d.id d.device true d.attrs

def addVirtual (n : Node) (d : VirtualPortDef) : Except NodeError Json × Node :=
  match n.addDefined d with
  | (.error e, n) => (.error e, n)
  | (.ok attrs, n) =>
    match n.access true (n.backend.replace definitionsCollection d.id d.toRecord) with
    | (.ok _, n) => (.ok attrs, n.awaitStorage)
    | (.error e, n) => (.error (.persist e), n.awaitStorage)

/-! ### Loading -/

/-- A configured port: the kind of its device, its id and the settings of the device. -/
structure PortConfig where
  driver : String
  id : String
  settings : Settings

def mappedId (mappings : Dict String String) (c : PortConfig) : Except NodeError String :=
  match Dict.get? mappings c.id with
  | none => .ok c.id
  | some id =>
    if Text.allBlank id.toList then .error (.portLoad c.id .emptyMapping) else .ok id

def buildDevice (c : PortConfig) (id : String) : Except NodeError Device :=
  match Device.builtIn.build c.driver c.settings with
  | .ok d => .ok d
  | .error (.unknownDriver name) => .error (.portLoad id (.unknownDriver name))
  | .error (.settings cause) => .error (.portLoad id (.settings cause))

/-- Adds a configured port; returns why it is left out, if it is. -/
def loadPort (mappings : Dict String String) (n : Node) (c : PortConfig) :
    Option NodeError × Node :=
  match mappedId mappings c with
  | .error e => (some e, n)
  | .ok id =>
    match buildDevice c id with
    | .error e => (some e, n)
    | .ok device =>
      match n.add id device with
      | (.error e, n) => (some e, n)
      | (.ok _, n) => (none, n)

/-- Adds a software port from a stored record; a malformed one is passed over. -/
def loadDefined (n : Node) (r : Record) : Option NodeError × Node :=
  match VirtualPortDef.ofRecord? r with
  | none => (none, n)
  | some d =>
    match n.addDefined d with
    | (.error e, n) => (some e, n)
    | (.ok _, n) => (none, n)

/-- Adds ports in turn; returns why some are left out. -/
def loadEach {α : Type} (add : Node → α → Option NodeError × Node) :
    Node → List α → List NodeError × Node
  | n, [] => ([], n)
  | n, a :: rest =>
    let (e, n) := add n a
    let (es, n) := loadEach add n rest
    (e.toList ++ es, n)

/-- Adds the configured ports under their mapped ids, then the stored software ports; a port
that cannot be added is left out. -/
def load (n : Node) (configs : List PortConfig) (mappings : Dict String String) :
    List NodeError × Node :=
  let n := (n.access false n.backend.ensureIndex).2.awaitStorage
  let n := (n.access false n.backend.ensureIndex).2.awaitStorage
  let (errors, n) := loadEach (loadPort mappings) n configs
  let (stored, n) := n.access false (n.backend.query definitionsCollection {}, n.backend)
  let (more, n) := loadEach loadDefined n.awaitStorage (stored.toOption.getD [])
  (errors ++ more, n)

/-! ### Removing -/

def unregister (n : Node) (p : Port) : Node :=
  { n with ports := Dict.erase n.ports p.id, gone := p :: n.gone }

/-- Carries out a step of a removal, unless an earlier one has failed. -/
def thenAccess (r : Except PersistError Unit × Node) (op : Node → Backend.Outcome Nat) :
    Except PersistError Unit × Node :=
  match r with
  | (.error e, n) => (.error e, n)
  | (.ok (), n) =>
    let (removed, b) := op n
    let (r, n) := n.access (removed.toOption.any (· > 0)) (removed, b)
    (r.map fun _ => (), n.awaitStorage)

/-- Drops what is stored of a port: its record, its definition and its samples. -/
def purge (n : Node) (p : Port) : Except PersistError Unit × Node :=
  let f : Filter := [("id", .str p.id)]
  let r := thenAccess (.ok (), n) fun n => n.backend.remove portsCollection f
  let r := if p.isVirtual then
      thenAccess r fun n => n.backend.remove definitionsCollection f
    else r
  if n.backend.samplesSupported then
    thenAccess r fun n => n.backend.removeSamples historyCollection (some [p.id]) {}
  else r

def remove (n : Node) (id : String) (purged : Bool) : Except NodeError Unit × Node :=
  match n.port? id with
  | none => (.error (.noSuchPort id), n)
  | some p =>
    let n := (n.unregister p).stopPorts [p.key]
    let n := { n with backoff := n.backoff.erase id, forced := n.forced.filter (· ≠ id) }
    let (r, n) := if purged then n.purge p else (.ok (), n)
    match r with
    | .error e => (.error (.persist e), n)
    | .ok () => (.ok (), n.publish (.portRemove id))

/-! ### Ending -/

def cleanup (n : Node) : Node :=
  let n := (n.savePorts true awaitStorage).2
  let ports := Dict.values n.ports
  { n with ports := [], gone := ports ++ n.gone }.stopPorts (ports.map Port.key)

/-- The backend of a node that follows this one: files are closed and opened again. -/
def reopenBackend : Backend → Backend
  | .memory s => .memory s
  | .recordsOnly failing s => .recordsOnly failing s
  | b => b.cleanup.2.successor.init.2

/-- Cleans up and begins anew over the same storage. Services go on, but those that belong to
the old node have nothing more to do. -/
def restart (n : Node) : Node :=
  let n := n.cleanup
  let fresh := create n.config (reopenBackend n.backend) n.wall n.zone
  { fresh with
    number := n.number + 1
    events := n.events
    results := n.results
    nextTicket := n.nextTicket
    nextSerial := n.nextSerial
    agenda := { n.agenda with tasks := [], locks := [] }
    services := n.services
    order := n.order }

end ControlNode.Node
