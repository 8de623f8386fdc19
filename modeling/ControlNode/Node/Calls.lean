import ControlNode.Node.Run

/-!
# Calls on ports

What callers do with the ports of a node: they read and write values, start sequences, run
ticks, and wait for what takes its time.
-/

namespace ControlNode.Node

/-! ### Writes -/

def awaitResult (n : Node) (t : Ticket) : Except PortError Unit × Node :=
  let n := n.waitFor fun n => (n.resultOf? t).isSome
  ((n.resultOf? t).getD (.error .cancelled), n.forgetResult t)

def writeValue (n : Node) (p : Port) (v : Value) : Except PortError Unit × Node :=
  match n.withTicket fun t => p.submit v t n.wall with
  | (.error e, n) => (.error e, n)
  | (.ok t, n) => n.awaitResult t

/-- Writes a value on behalf of a user, if the port accepts it. -/
def setValue (n : Node) (p : Port) (v : Value) : Except PortError Unit × Node :=
  match p.checkValue v with
  | .error e => (.error e, n)
  | .ok () => n.writeValue p v

/-- Queues a value for the device of a port; nobody waits. -/
def enqueueValue (n : Node) (p : Port) (v : Value) : Except PortError Ticket × Node :=
  n.withTicket fun t => p.enqueueWrite v t

/-- Starts a sequence in place of the one that runs, or only cancels that one. -/
def setSequence (n : Node) (p : Port) (s : Option Sequence) : Except PortError Unit × Node :=
  let (r, p) := p.setSequence s
  let n := n.putPort p
  match p.sequence with
  | some s => (r, { n with agenda := n.agenda.spawn (.sequence p.key s.number) })
  | none => (r, n)

/-! ### Reads -/

def readValue (n : Node) (key : PortKey) : Except PortError Value × Node :=
  let holds (n : Node) : Bool :=
    n.agenda.locks.any fun l => l.resource = .device key && l.holder = .caller
  let n := { n with agenda := (n.agenda.acquire (.device key) .caller).2 }
  let (r, n) := (n.waitFor holds).readPort key
  (r, { n with agenda := n.agenda.release (.device key) })

/-! ### Ticks -/

def holdsTick (n : Node) : Bool :=
  n.agenda.locks.any fun l => l.resource = .tick && l.holder = .caller

def holdsDevice (n : Node) : Bool :=
  n.agenda.locks.any fun l => l.holder = .caller && l.resource ≠ .tick

/-- Reads the ports of a tick as their devices become free, at most `fuel` times. -/
def readAll : (fuel : Nat) → Node → Node
  | 0, n => n
  | fuel + 1, n =>
    match n.continueReads .caller with
    | (true, n) => n
    | (false, n) => readAll fuel (n.waitFor holdsDevice)

def update (n : Node) (now : Int) : Node :=
  let n := { n with agenda := (n.agenda.acquire .tick .caller).2 }
  let n := ((n.waitFor holdsTick).openTick now).awaitStorage.planReads
  (readAll (n.ports.length + 1) n).closeTick awaitStorage

/-! ### Workers -/

def startPort (n : Node) (key : PortKey) : Node := n.startWorkers key

/-- Cancels what waits in a port and tells its workers that nothing more comes. -/
def haltPort (n : Node) (key : PortKey) : Node :=
  match n.portOf? key with
  | none => n
  | some p =>
    let (signals, p) := p.halt
    let n := (n.putPort p).emitAll key signals
    { n with agenda :=
      (n.agenda.wakeIf (.writer key) .queue).wakeIf (.evaluator key) .queue }

/-- Stops ports: nothing more is written to them once their workers have ended. -/
def stopPorts (n : Node) (keys : List PortKey) : Node :=
  let n := (keys.foldl haltPort n).waitFor fun n => keys.all n.workersEnded
  keys.foldl (fun n key => match n.portOf? key with
    | none => n
    | some p => n.putPort p.clearPending) n

end ControlNode.Node
