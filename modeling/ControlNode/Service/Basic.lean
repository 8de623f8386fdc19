import ControlNode.Event

/-!
# Services

A service runs in the background of a node: it is called once when it starts, then at a fixed
interval or on demand, for each event it has subscribed to, and once when it stops. Calls of
one service never overlap.
-/

namespace ControlNode

/-! ### Errors and states -/

inductive ServiceError where
  | alreadyRunning (id : String)
  | notRunning (id : String)
  | shutdownTimeout (id : String)
  | panicked (id : String)
  deriving Repr, DecidableEq

def ServiceError.message : ServiceError → String
  | .alreadyRunning id => "Service already running: " ++ id
  | .notRunning id => "Service not running: " ++ id
  | .shutdownTimeout id => "Service " ++ id ++ " did not stop in time"
  | .panicked id => "Service " ++ id ++ " panicked"

inductive ServiceState where
  | starting
  | running
  | stopping
  | stopped
  | failed
  deriving Repr, DecidableEq

def ServiceState.text : ServiceState → String
  | .starting => "starting"
  | .running => "running"
  | .stopping => "stopping"
  | .stopped => "stopped"
  | .failed => "failed"

/-! ### What services do -/

inductive Callback where
  | start
  | tick
  | event (e : Event)
  | stop

def Callback.name : Callback → String
  | .start => "start"
  | .tick => "tick"
  | .event _ => "event"
  | .stop => "stop"

inductive CallEvent where
  | begins (c : Callback)
  /-- A call returns, or is given up. -/
  | ends (c : Callback) (r : Except ServiceError Unit)
  | panics

inductive Ending where
  | succeeds
  | failsWith (e : ServiceError)
  | panics
  deriving Repr, DecidableEq

/-- A scripted call: how long it takes, in milliseconds, and how it ends. -/
structure CallScript where
  duration : Nat := 0
  ending : Ending := .succeeds
  deriving Repr

inductive ServiceKind where
  /-- Nothing. -/
  | plain
  /-- It keeps a record of its calls and follows a script, which can go by the calls so far. -/
  | programmed (script : List CallEvent → Callback → CallScript)
  /-- It updates the node with this number at each tick. -/
  | updateLoop (node : Nat)
  /-- It saves the ports of the node with this number at each tick, and all of them when it
  stops. -/
  | saveLoop (node : Nat)

def simulatedError : ServiceError := .notRunning "simulated"

def Ending.fails : Ending := .failsWith simulatedError

def ServiceKind.scripted (script : String → CallScript) : ServiceKind :=
  .programmed fun _ c => script c.name

structure ServiceSpec where
  id : String
  /-- Milliseconds from tick to tick. -/
  period : Option Nat := none
  /-- Patterns of the types of events it is called for. -/
  subscriptions : List String := []
  /-- How long it may take to stop, in milliseconds. -/
  stopWithin : Nat := 10000
  deriving Repr

inductive Command where
  | tick
  | stop
  deriving Repr, DecidableEq

inductive ServicePhase where
  | spawned
  /-- A call takes its time, until a timer fires. -/
  | calling (c : Callback) (script : CallScript) (timer : Nat)
  /-- It waits for a demand, an event or its next tick. -/
  | waiting
  /-- A tick of the node is under way. -/
  | updating
  | ended (result : Except ServiceError Unit)

structure Service where
  spec : ServiceSpec
  kind : ServiceKind
  state : ServiceState := .starting
  phase : ServicePhase := .spawned
  /-- When the next tick is due. -/
  nextTick : Option Nat := none
  /-- The timer that is set for the next tick. -/
  tickTimer : Option Nat := none
  commands : List Command := []
  /-- Events that have been published since the service last looked. -/
  inbox : List Event := []
  /-- The calls so far of a service with a script, the latest one first. -/
  calls : List CallEvent := []
  /-- Whether it has not been shut down. -/
  managed : Bool := true

namespace Service

/-- How many demands can wait. -/
def commandCapacity : Nat := 16

/-- How many events can wait; the oldest ones are lost. -/
def eventCapacity : Nat := 1024

/-- By how many milliseconds a tick may be late without moving the ticks after it. -/
def tickTolerance : Nat := 5

def result? (s : Service) : Option (Except ServiceError Unit) :=
  match s.phase with
  | .ended r => some r
  | _ => none

def hasEnded (s : Service) : Bool := s.result?.isSome

def isWaiting (s : Service) : Bool :=
  match s.phase with
  | .waiting => true
  | _ => false

def isListening (s : Service) : Bool := !s.spec.subscriptions.isEmpty

/-- Demands a tick; a full queue of demands holds one already. Returns whether the service is
still there. -/
def forceTick (s : Service) : Bool × Service :=
  if s.hasEnded then (false, s)
  else if s.commands.length < commandCapacity then
    (true, { s with commands := s.commands ++ [.tick] })
  else (true, s)

/-- Receives an event; of those that wait the latest are kept. -/
def receive (s : Service) (e : Event) : Service :=
  let inbox := s.inbox ++ [e]
  { s with inbox := inbox.drop (inbox.length - eventCapacity) }

def record (s : Service) (e : CallEvent) : Service := { s with calls := e :: s.calls }

def count (counters : Dict String Nat) (name : String) : Dict String Nat :=
  Dict.insert counters name ((Dict.get? counters name).getD 0 + 1)

def countEvent (counters : Dict String Nat) : CallEvent → Dict String Nat
  | .begins (.event e) => count (count counters ("event:" ++ e.type)) "event"
  | .begins c => count counters c.name
  | .ends c (.ok ()) => count counters (c.name ++ "_ok")
  | _ => counters

/-- How often calls have begun, and how often they have succeeded. -/
def counters (s : Service) : Dict String Nat := s.calls.foldr (fun e d => countEvent d e) []

def selects (s : Service) (e : Event) : Bool := s.spec.subscriptions.any e.matchesPattern

/-- Takes up the tick that is due and fixes the next one: a period later, counted from now
where the tick is late. -/
def takeTick (s : Service) (now period due : Nat) : Service :=
  let next := if due + tickTolerance < now then now + period else due + period
  { s with nextTick := some next, tickTimer := none }

def finish (s : Service) (state : ServiceState) (r : Except ServiceError Unit) : Service :=
  { s with state := state, phase := .ended r, commands := [], inbox := [] }

def panic (s : Service) : Service :=
  (s.record .panics).finish s.state (.error (.panicked s.spec.id))

/-- More steps than a service takes before it waits, if it can run. -/
def backlog (s : Service) (now : Nat) : Nat :=
  let inCall := match s.phase with
    | .waiting => 0
    | _ => 2
  let ticks := match s.nextTick with
    | some due => now + 1 - due
    | none => 0
  inCall + s.commands.length + s.inbox.length + ticks + 1

end Service

end ControlNode
