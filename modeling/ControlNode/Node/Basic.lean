import ControlNode.Expiry
import ControlNode.Node.Agenda
import ControlNode.Port.Attributes
import ControlNode.Port.Values
import ControlNode.Service.Basic
import ControlNode.Store.Backend

/-!
# Nodes

A node owns ports, keeps what has to be remembered from tick to tick, stores records and
samples in a backend, and announces events to the services that run beside it.
-/

namespace ControlNode

/-! ### Settings and errors -/

/-- The settings of a node; times are in milliseconds. -/
structure NodeConfig where
  tickInterval : Nat := 50
  persistInterval : Nat := 1000
  /-- For how long a port is not read after a failed read. -/
  readBackoff : Nat := 10000
  /-- How many writes of a port can wait. -/
  queueCapacity : Nat := 1024
  deriving Repr, DecidableEq

inductive LoadFault where
  | emptyId
  | duplicateId
  | emptyMapping
  | unknownDriver (name : String)
  | settings (cause : SettingsError)

def LoadFault.message : LoadFault → String
  | .emptyId => "empty port id"
  | .duplicateId => "duplicate port id"
  | .emptyMapping => "empty mapping target"
  | .unknownDriver name => "unknown driver " ++ name
  | .settings cause => cause.message

inductive NodeError where
  | portLoad (id : String) (fault : LoadFault)
  | noSuchPort (id : String)
  | unknownDriver (name : String)
  | persist (cause : PersistError)

def NodeError.message : NodeError → String
  | .portLoad id fault => "Failed to load port " ++ id ++ ": " ++ fault.message
  | .noSuchPort id => "No such port: " ++ id
  | .unknownDriver name => "Unknown driver: " ++ name
  | .persist cause => "Persistence error: " ++ cause.message

/-! ### Ticks under way -/

/-- A tick that has begun: its time, the ports that were enabled, whether it began a new
second, and the ports that it reads, with the outcomes so far. -/
structure Tick where
  now : Int
  enabled : List PortKey
  newSecond : Bool
  reads : List (PortKey × Option (Except PortError Value)) := []

/-! ### Nodes -/

structure Node where
  config : NodeConfig
  /-- Tells the node from earlier ones over the same storage. -/
  number : Nat := 0
  /-- The time of the wall clock. -/
  wall : Int
  zone : Zone := .utc
  /-- The registered ports. -/
  ports : Dict String Port := []
  /-- Ports that are no longer registered. -/
  gone : List Port := []
  backend : Backend
  /-- Whether files are being read or written. -/
  storageBusy : Bool := false
  /-- The latest second in which a tick has run. -/
  lastSecond : Int := 0
  tick : Option Tick := none
  /-- Ports whose expressions are to be evaluated at the next tick. -/
  forced : List String := []
  /-- Whether all expressions are to be evaluated at the next tick. -/
  forceAll : Bool := false
  /-- Until when expressions that only the tick itself brings up are held back. -/
  asapPausedUntil : Int := 0
  /-- Ports that are not read for a while. -/
  backoff : ExpirySet
  /-- The events published so far, the last one first. -/
  events : List Event := []
  /-- The outcomes of completed writes that somebody may ask for. -/
  results : List (Ticket × Except PortError Unit) := []
  nextTicket : Ticket := 0
  /-- The serial number of the next port. -/
  nextSerial : Nat := 0
  agenda : Agenda := {}
  /-- All services that have been spawned, in order. -/
  services : List Service := []
  /-- The services to be shut down, in the order in which they were spawned. -/
  order : List Nat := []
  /-- The service to be told of finished writes. -/
  updateLoop : Option Nat := none

namespace Node

def create (config : NodeConfig) (backend : Backend) (wall : Int) (zone : Zone := .utc) : Node :=
  { config := config
    backend := backend
    wall := wall
    zone := zone
    backoff := ⟨config.readBackoff, []⟩ }

/-! ### Ports -/

def port? (n : Node) (id : String) : Option Port := Dict.get? n.ports id

/-- The port of a key, registered or gone. -/
def portOf? (n : Node) (key : PortKey) : Option Port :=
  match n.port? key.id with
  | some p => if p.key = key then some p else n.gone.find? fun q => q.key = key
  | none => n.gone.find? fun q => q.key = key

def putPort (n : Node) (p : Port) : Node :=
  if (n.port? p.id).any fun q => q.key = p.key then
    { n with ports := Dict.insert n.ports p.id p }
  else { n with gone := n.gone.map fun q => if q.key = p.key then p else q }

/-- The dependencies of the expressions of the registered ports. -/
def graph (n : Node) : DepGraph :=
  n.ports.filterMap fun e => e.2.deps?.map fun d => (e.1, d)

/-- Asks for the expression of a port to be evaluated at the next tick. -/
def forceEval (n : Node) (id : String) : Node :=
  if id ∈ n.forced then n else { n with forced := n.forced ++ [id] }

/-! ### Services -/

def service? (n : Node) (k : Nat) : Option Service := n.services[k]?

def putService (n : Node) (k : Nat) (s : Service) : Node :=
  { n with services := n.services.set k s }

def wake (n : Node) (t : TaskId) : Node := { n with agenda := n.agenda.wake t }

def wakeService (n : Node) (k : Nat) (s : Service) : Node :=
  if s.isWaiting then n.wake (.service k) else n

/-- Demands a tick of a service; returns whether the service is still there. -/
def forceTick (n : Node) (k : Nat) : Bool × Node :=
  match n.service? k with
  | none => (false, n)
  | some s =>
    let (there, s) := s.forceTick
    (there, (n.putService k s).wakeService k s)

/-- Tells the update loop that a write has finished. -/
def nudge (n : Node) : Node :=
  match n.updateLoop with
  | none => n
  | some k => (n.forceTick k).2

/-! ### Announcements -/

/-- Hands an event to a service that listens. -/
def deliver (e : Event) (n : Node) (k : Nat) : Node :=
  match n.service? k with
  | none => n
  | some s =>
    if s.isListening && !s.hasEnded then
      let s := s.receive e
      (n.putService k s).wakeService k s
    else n

def publish (n : Node) (e : Event) : Node :=
  let n := { n with events := e :: n.events }
  (List.range n.services.length).foldl (deliver e) n

/-- Passes on what a port tells its workers and callers. -/
def emit (key : PortKey) (n : Node) (s : Signal) : Node :=
  match s with
  | .writeQueued => { n with agenda := n.agenda.wakeIf (.writer key) .queue }
  | .evalQueued => { n with agenda := n.agenda.wakeIf (.evaluator key) .queue }
  | .completed t r =>
    { n with results := (t, r) :: n.results, agenda := n.agenda.wakeWriteOf t }

def emitAll (n : Node) (key : PortKey) (signals : List Signal) : Node :=
  signals.foldl (emit key) n

/-! ### Writes -/

/-- The outcome of a write, once it is completed. -/
def resultOf? (n : Node) (t : Ticket) : Option (Except PortError Unit) := n.results.lookup t

def forgetResult (n : Node) (t : Ticket) : Node :=
  { n with results := n.results.filter fun e => e.1 ≠ t }

/-- Takes a ticket for a new write and passes it to an operation of a port. -/
def withTicket (n : Node) (f : Ticket → Except PortError (List Signal) × Port) :
    Except PortError Ticket × Node :=
  let t := n.nextTicket
  let n := { n with nextTicket := t + 1 }
  match f t with
  | (.error e, p) => (.error e, n.putPort p)
  | (.ok signals, p) => (.ok t, (n.putPort p).emitAll p.key signals)

/-! ### Storage -/

/-- Carries out an operation of the backend. Operations on files take a while, during which
tasks can run: those on tables always, those on a data file where they write it. -/
def access (n : Node) (writes : Bool) (op : Backend.Outcome α) :
    Except PersistError α × Node :=
  let busy := match op.2 with
    | .file .. => writes
    | .tables isOpen _ => isOpen
    | _ => false
  (op.1, { n with backend := op.2, storageBusy := n.storageBusy || busy })

def publishUpdate (n : Node) (p : Port) : Node :=
  let (attrs, p) := p.attrsJson
  (n.putPort p).publish (.portUpdate p.id attrs)

/-- Changes an attribute of a registered port. -/
def setAttr (n : Node) (id name : String) (value : Json) : Except AttrError Unit × Node :=
  match n.port? id with
  | none => (.error (.unknown name), n)
  | some p =>
    let change := p.setAttr n.graph name value
    let n := n.putPort change.port
    match change.result with
    | .error e => (.error e, n)
    | .ok () =>
      let n := if change.evaluate then n.forceEval id else n
      (.ok (), n.publishUpdate change.port)

end Node

end ControlNode
