import ControlNode.Node.Registry

/-!
# Managing services

Services are spawned one by one and shut down together, the last one first.
-/

namespace ControlNode.Node

/-! ### Spawning -/

/-- The services that have not been shut down, in the order in which they were spawned. -/
def managedServices (n : Node) : List Service :=
  n.order.filterMap fun k => (n.service? k).filter Service.managed

def serviceCount (n : Node) : Nat := (n.services.filter Service.managed).length

/-- Spawns a service, unless one of the same id has not been shut down; returns its number. -/
def spawn (n : Node) (spec : ServiceSpec) (kind : ServiceKind) : Except ServiceError Nat × Node :=
  if n.services.any fun s => s.managed && s.spec.id == spec.id then
    (.error (.alreadyRunning spec.id), n)
  else
    let k := n.services.length
    let s : Service := { spec := spec, kind := kind }
    let n := { n with services := n.services ++ [s], order := n.order ++ [k] }
    (.ok k, n.wake (.service k))

/-- The service that runs a tick at each interval and whenever a write has finished. -/
def updateLoopSpec (config : NodeConfig) : ServiceSpec :=
  { id := "update-loop", period := some (max config.tickInterval 1) }

/-- The service that saves marked ports at each interval and all ports when it stops. -/
def saveLoopSpec (config : NodeConfig) : ServiceSpec :=
  { id := "save-loop", period := some (max config.persistInterval 1) }

def eventLogSpec : ServiceSpec := { id := "event-log", subscriptions := ["Port/*"] }

/-- Spawns the services of a node. The first update loop that is spawned is told of finished
writes from then on. -/
def startServices (n : Node) : Except ServiceError Unit × Node :=
  match n.spawn (updateLoopSpec n.config) (.updateLoop n.number) with
  | (.error e, n) => (.error e, n)
  | (.ok k, n) =>
    let n := { n with updateLoop := some (n.updateLoop.getD k) }
    match n.spawn (saveLoopSpec n.config) (.saveLoop n.number) with
    | (.error e, n) => (.error e, n)
    | (.ok _, n) =>
      match n.spawn eventLogSpec .plain with
      | (.error e, n) => (.error e, n)
      | (.ok _, n) => (.ok (), n)

/-! ### Shutting down -/

/-- Whether a demand can be put to a service, or it has ended. -/
def acceptsCommand (k : Nat) (n : Node) : Bool :=
  (n.service? k).all fun s => s.hasEnded || s.commands.length < Service.commandCapacity

def requestStop (n : Node) (k : Nat) : Node :=
  match n.service? k with
  | none => n
  | some s =>
    if s.hasEnded then n
    else
      let s : Service := { s with commands := s.commands ++ [Command.stop] }
      (n.putService k s).wakeService k s

/-- How many milliseconds the call that a service is in will still take. -/
def callTime (n : Node) (k : Nat) : Nat :=
  match (n.service? k).map Service.phase with
  | some (.calling _ _ number) =>
    match n.agenda.timers.find? fun t => t.number = number with
    | some t => t.deadline - n.agenda.clock
    | none => 0
  | _ => 0

/-- Lets tasks run and time pass until `done` holds, for at most `calls` calls of a service. A
timer that fires moves the clock on, so that at most as many fire in a call as it takes
milliseconds. -/
def awaitCalls (k : Nat) (done : Node → Bool) : (calls : Nat) → Node → Node
  | 0, n => n
  | calls + 1, n => awaitCalls k done calls (runUntil done (stepLimit + n.callTime k) n)

/-- Lets a caller wait for something that a service does before it has taken up all demands. -/
def awaitService (n : Node) (k : Nat) (done : Node → Bool) : Node :=
  if done n then n else awaitCalls k done (Service.commandCapacity + 1) n.settle

def stopService (n : Node) (k : Nat) : Except ServiceError Unit × Node :=
  match n.service? k with
  | none => (.ok (), n)
  | some s =>
    let n := n.putService k { s with managed := false }
    let n := (n.awaitService k (acceptsCommand k)).requestStop k
    let n := n.awaitService k fun n => (n.service? k).all Service.hasEnded
    (((n.service? k).bind Service.result?).getD (.ok ()), n)

/-- Stops services in turn; returns the first error. -/
def stopEach : Node → List Nat → Except ServiceError Unit × Node
  | n, [] => (.ok (), n)
  | n, k :: ks =>
    let (r, n) := n.stopService k
    let (rest, n) := stopEach n ks
    (match r with
      | .error e => .error e
      | .ok () => rest, n)

/-- Stops all services, the last one that was spawned first. -/
def shutdownAll (n : Node) : Except ServiceError Unit × Node :=
  { n with order := [] }.stopEach n.order.reverse

end ControlNode.Node
