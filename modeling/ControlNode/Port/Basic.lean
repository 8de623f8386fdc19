import ControlNode.Device.Registry
import ControlNode.Expr.Deps
import ControlNode.Expr.Eval
import ControlNode.Port.Domain
import ControlNode.Port.Sequence
import ControlNode.Port.Writes

/-!
# Ports

A port couples a device with attributes, an expression and transforms. Writes and evaluations
wait in queues of their own; a sequence of values may be running.
-/

namespace ControlNode

/-- Tells a port from earlier ones of the same id. -/
structure PortKey where
  id : String
  serial : Nat
  deriving Repr, DecidableEq

/-- A sequence that is running on a port; its number tells it from earlier ones. -/
structure RunningSequence where
  number : Nat
  run : SequenceRun
  /-- The pause after the write that is under way. -/
  pause : Nat := 0

structure Port where
  key : PortKey
  isVirtual : Bool
  device : Device
  enabled : Bool := true
  persisted : Bool := false
  internal : Bool := false
  displayName : Option String := none
  unit : Option String := none
  tag : Option String := none
  expression : Option Expr := none
  expressionDeps : DepSet := []
  transformRead : Option Expr := none
  transformWrite : Option Expr := none
  /-- Seconds between samples; -1 for a sample at each change, 0 for none. -/
  historyInterval : Int := 0
  /-- For how many seconds samples are kept; 0 for ever. -/
  historyRetention : Int := 0
  /-- The time of the last sample. -/
  historyLast : Int := 0
  limits : NumberLimits := {}
  choices : Option (List Choice) := none
  lastRead : Option Value := none
  writes : WritePipe
  evals : BoundedQueue EvalContext
  /-- Whether an evaluation waits to be taken up. -/
  evalPending : Bool := false
  sequence : Option RunningSequence := none
  /-- The number of the next sequence. -/
  nextSequence : Nat := 0
  /-- Attribute values that have been looked up since the last change. -/
  attrCache : Dict String Json := []
  /-- Whether the port has to be saved. -/
  dirty : Bool := false
  /-- The zone of the process, whose clocks expressions read. -/
  zone : Zone := .utc

namespace Port

/-- A new port in front of a device. -/
def create (key : PortKey) (device : Device) (isVirtual : Bool) (capacity : Nat)
    (zone : Zone := .utc) : Port :=
  { key := key
    isVirtual := isVirtual
    device := device
    limits := { integer := device.type == .number && device.integer }
    writes := .create capacity
    evals := .create capacity
    zone := zone }

def id (p : Port) : String := p.key.id

def type (p : Port) : PortType := p.device.type

def writable (p : Port) : Bool := p.device.writable

def domain (p : Port) : Domain := ⟨p.type, p.limits, p.choices⟩

def deps? (p : Port) : Option DepSet := if p.expression.isSome then some p.expressionDeps else none

def pendingValue (p : Port) : Option Value := p.writes.pending

def hasSequence (p : Port) : Bool := p.sequence.isSome

def cancelSequence (p : Port) : Port := { p with sequence := none }

end Port

end ControlNode
