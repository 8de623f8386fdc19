import ControlNode.Node.Storage
import ControlNode.Node.Workers

/-!
# Running services

A service is called to start. While it runs, demands come before events and events before the
ticks of its interval. It stops on demand; a call that ends in a panic ends it at once.
-/

namespace ControlNode.Node

/-! ### Ticks of the node -/

/-- Runs a tick for a party, as far as that is possible; returns whether it has been run. -/
def pollTick (n : Node) (who : Party) : Bool × Node :=
  match n.agenda.acquire .tick who with
  | (false, a) => (false, { n with agenda := a })
  | (true, a) =>
    let n := { n with agenda := a }
    let n := if n.tick.isSome then n else (n.openTick n.wall).planReads
    match n.continueReads who with
    | (false, n) => (false, n)
    | (true, n) => (true, n.closeTick id)

/-! ### Calls -/

def afterCall (n : Node) (k : Nat) (s : Service) (c : Callback)
    (r : Except ServiceError Unit) : Progress × Node :=
  match c, r with
  | .start, .error e => (.waits, n.putService k (s.finish .failed (.error e)))
  | .start, .ok () =>
    let s := { s with state := .running, phase := .waiting }
    if s.spec.period = some 0 then (.waits, n.putService k s.panic)
    else (.again, n.putService k { s with nextTick := s.spec.period.map fun _ => n.agenda.clock })
  | .stop, .ok () => (.waits, n.putService k (s.finish .stopped (.ok ())))
  | .stop, .error e => (.waits, n.putService k (s.finish .failed (.error e)))
  | _, _ => (.again, n.putService k { s with phase := .waiting })

def endScripted (n : Node) (k : Nat) (s : Service) (c : Callback) (script : CallScript) :
    Progress × Node :=
  let overran : Bool := match c with
    | .stop => s.spec.stopWithin < script.duration
    | _ => false
  let back (r : Except ServiceError Unit) := n.afterCall k (s.record (.ends c r)) c r
  if overran then back (.error (.shutdownTimeout s.spec.id))
  else match script.ending with
    | .panics => (.waits, n.putService k s.panic)
    | .failsWith e => back (.error e)
    | .succeeds => back (.ok ())

/-- Begins a scripted call. A call to stop is given up when its time is over. -/
def beginScripted (n : Node) (k : Nat) (s : Service) (c : Callback) (script : CallScript) :
    Progress × Node :=
  let s := s.record (.begins c)
  let duration := match c with
    | .stop => min script.duration s.spec.stopWithin
    | _ => script.duration
  if duration = 0 then n.endScripted k s c script
  else
    let (timer, a) := n.agenda.setTimer (.service k) (n.agenda.clock + duration)
    (.waits, { n with agenda := a }.putService k { s with phase := .calling c script timer })

def continueUpdate (n : Node) (k : Nat) (s : Service) : Progress × Node :=
  match n.pollTick (.task (.service k)) with
  | (false, n) => (.waits, n)
  | (true, n) => n.afterCall k ((n.service? k).getD s) .tick (.ok ())

def call (n : Node) (k : Nat) (s : Service) (c : Callback) : Progress × Node :=
  match s.kind, c with
  | .programmed script, c => n.beginScripted k s c (script s.calls c)
  | .updateLoop number, .tick =>
    if number = n.number then
      let s := { s with phase := .updating }
      (n.putService k s).continueUpdate k s
    else n.afterCall k s c (.ok ())
  | .saveLoop number, .tick =>
    let n := if number = n.number then (n.savePorts false id).2 else n
    n.afterCall k s c (.ok ())
  | .saveLoop number, .stop =>
    let n := if number = n.number then (n.savePorts true id).2 else n
    n.afterCall k s c (.ok ())
  | _, c => n.afterCall k s c (.ok ())

/-! ### Between calls -/

def awaitTick (n : Node) (k : Nat) (s : Service) : Progress × Node :=
  match s.spec.period, s.nextTick with
  | some period, some due =>
    let now := n.agenda.clock
    if due ≤ now then n.call k (s.takeTick now period due) .tick
    else if s.tickTimer.isSome then (.waits, n.putService k s)
    else
      let (timer, a) := n.agenda.setTimer (.service k) due
      (.waits, { n with agenda := a }.putService k { s with tickTimer := some timer })
  | _, _ => (.waits, n.putService k s)

def awaitEvent (n : Node) (k : Nat) (s : Service) : Progress × Node :=
  match s.inbox with
  | [] => n.awaitTick k s
  | e :: rest =>
    let s := { s with inbox := rest }
    if s.selects e then n.call k s (.event e) else (.again, n.putService k s)

/-- Takes up the next demand, or goes on to the events. -/
def awaitCommand (n : Node) (k : Nat) (s : Service) : Progress × Node :=
  match s.commands with
  | .tick :: rest => n.call k { s with commands := rest } .tick
  | .stop :: rest => n.call k { s with commands := rest, state := .stopping } .stop
  | [] => n.awaitEvent k s

def pollService (n : Node) (k : Nat) : Progress × Node :=
  match n.service? k with
  | none => (.waits, n)
  | some s =>
    match s.phase with
    | .spawned => n.call k s .start
    | .calling c script timer =>
      if n.agenda.isSet timer then (.waits, n) else n.endScripted k s c script
    | .waiting => n.awaitCommand k s
    | .updating => n.continueUpdate k s
    | .ended _ => (.waits, n)

end ControlNode.Node
