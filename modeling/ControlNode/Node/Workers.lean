import ControlNode.Node.Tick

/-!
# Workers

Each port has a task that carries out its writes and one that carries out its evaluations;
a running sequence has a task of its own. A task runs until it has to wait.
-/

namespace ControlNode.Node

inductive Progress where
  | again
  | waits
  deriving Repr, DecidableEq

def setWait (n : Node) (t : TaskId) (w : Wait) : Node :=
  { n with agenda := n.agenda.setWait t w }

def endTask (n : Node) (t : TaskId) : Node := { n with agenda := n.agenda.endTask t }

def sleepTask (n : Node) (t : TaskId) (duration : Nat) : Node :=
  let (number, a) := n.agenda.setTimer t (n.agenda.clock + duration)
  { n with agenda := a.setWait t (.timer number) }

/-! ### Starting -/

/-- Starts the workers of a port, unless they are running. -/
def startWorkers (n : Node) (key : PortKey) : Node :=
  let running := fun t => (n.agenda.waitOf? t).isSome
  if running (.writer key) || running (.evaluator key) then n
  else { n with agenda := (n.agenda.spawn (.writer key)).spawn (.evaluator key) }

def workersEnded (n : Node) (key : PortKey) : Bool :=
  (n.agenda.waitOf? (.writer key)).isNone && (n.agenda.waitOf? (.evaluator key)).isNone

/-! ### Writes -/

/-- Carries out the write that has been taken out, frees the device and asks for a tick. -/
def finishWrite (n : Node) (p : Port) : Node :=
  let (signals, p) := p.carryOut
  let n := { n with agenda := n.agenda.release (.device p.key) }
  ((n.putPort p).emitAll p.key signals).nudge

/-- Writes the value that has been taken out, which may take a while. -/
def beginWrite (n : Node) (p : Port) : Progress × Node :=
  let task := TaskId.writer p.key
  if p.device.writeTime = 0 then (.again, (n.finishWrite p).setWait task .start)
  else (.waits, n.sleepTask task p.device.writeTime)

def claimDevice (n : Node) (p : Port) : Progress × Node :=
  let task := TaskId.writer p.key
  match n.agenda.acquire (.device p.key) (.task task) with
  | (true, a) => { n with agenda := a }.beginWrite p
  | (false, a) => (.waits, { n with agenda := a.setWait task .device })

/-- Takes the next write out of the queue; a closed queue ends the worker. -/
def nextWrite (n : Node) (p : Port) : Progress × Node :=
  let task := TaskId.writer p.key
  if p.writes.queue.closed then (.waits, n.endTask task)
  else match p.takeWrite with
    | none => (.waits, n.setWait task .queue)
    | some p => (n.putPort p).claimDevice p

def pollWriter (n : Node) (key : PortKey) : Progress × Node :=
  let task := TaskId.writer key
  match n.portOf? key, n.agenda.waitOf? task with
  | some p, some .device => n.claimDevice p
  | some p, some (.timer number) =>
    if n.agenda.isSet number then (.waits, n)
    else (.again, (n.finishWrite p).setWait task .start)
  | some p, some _ => n.nextWrite p
  | none, _ => (.waits, n.endTask task)
  | _, none => (.waits, n)

/-! ### Evaluations -/

def awaitWrite (n : Node) (task : TaskId) (t : Ticket) : Progress × Node :=
  let progress := if (n.resultOf? t).isSome then Progress.again else .waits
  (progress, n.setWait task (.write t))

/-- Takes up the next evaluation; a closed queue ends the worker. -/
def nextEval (n : Node) (p : Port) : Progress × Node :=
  let task := TaskId.evaluator p.key
  if p.evals.closed then (.waits, n.endTask task)
  else match p.takeEval with
    | none => (.waits, n.setWait task .queue)
    | some (c, p) =>
      match (n.putPort p).withTicket fun t => p.evaluate c t n.wall with
      | (.error _, n) => (.again, n.setWait task .start)
      | (.ok t, n) => n.awaitWrite task t

def pollEvaluator (n : Node) (key : PortKey) : Progress × Node :=
  let task := TaskId.evaluator key
  match n.portOf? key, n.agenda.waitOf? task with
  | some p, some (.write t) =>
    if (n.resultOf? t).isSome then (n.forgetResult t).nextEval p else (.waits, n)
  | some p, some _ => n.nextEval p
  | none, _ => (.waits, n.endTask task)
  | _, none => (.waits, n)

/-! ### Sequences -/

def endsSequence : Except PortError Unit → Bool
  | .error .cancelled => true
  | .error .disabled => true
  | _ => false

/-- Ends a sequence, whether or not it has come to its end. -/
def endSequence (n : Node) (p : Port) (task : TaskId) : Progress × Node :=
  (.waits, (n.putPort p.cancelSequence).endTask task)

/-- Goes on after a write of a sequence: the sequence ends or makes a pause. -/
def pauseSequence (n : Node) (p : Port) (s : RunningSequence) (r : Except PortError Unit) :
    Progress × Node :=
  let task := TaskId.sequence p.key s.number
  if endsSequence r then n.endSequence p task
  else if s.pause = 0 then (.again, n.setWait task .start)
  else (.waits, n.sleepTask task s.pause)

def stepSequence (n : Node) (p : Port) (s : RunningSequence) : Progress × Node :=
  let task := TaskId.sequence p.key s.number
  match s.run.next? with
  | none => n.endSequence p task
  | some ((v, pause), run) =>
    let s := { s with run := run, pause := pause }
    let p := { p with sequence := some s }
    match (n.putPort p).withTicket fun t => p.submit v t n.wall with
    | (.error e, n) => n.pauseSequence ((n.portOf? p.key).getD p) s (.error e)
    | (.ok t, n) => n.awaitWrite task t

def sequenceOf? (n : Node) (key : PortKey) (number : Nat) : Option (Port × RunningSequence) :=
  (n.portOf? key).bind fun p =>
    (p.sequence.filter fun s => s.number = number).map fun s => (p, s)

/-- A sequence that has been cancelled stops where it waits. -/
def pollSequence (n : Node) (key : PortKey) (number : Nat) : Progress × Node :=
  let task := TaskId.sequence key number
  match n.sequenceOf? key number with
  | none => (.waits, n.endTask task)
  | some (p, s) =>
    match n.agenda.waitOf? task with
    | none => (.waits, n)
    | some (.write t) =>
      match n.resultOf? t with
      | none => (.waits, n)
      | some r => (n.forgetResult t).pauseSequence p s r
    | some (.timer timer) => if n.agenda.isSet timer then (.waits, n) else n.stepSequence p s
    | some _ => n.stepSequence p s

end ControlNode.Node
