import ControlNode.Port.Basic

/-!
# Agendas

Which tasks of a node can run, which wait for the clock, and which wait for each other. Tasks
run one at a time in the order in which they were woken. The clock stands still while a task
can run; timers that are due at the same time fire in the order in which they were set.
-/

namespace ControlNode

/-! ### Tasks -/

inductive TaskId where
  /-- Carries out the queued writes of a port. -/
  | writer (port : PortKey)
  /-- Carries out the queued evaluations of a port. -/
  | evaluator (port : PortKey)
  /-- Writes the values of a running sequence. -/
  | sequence (port : PortKey) (number : Nat)
  | service (number : Nat)
  deriving Repr, DecidableEq

inductive Wait where
  /-- It has yet to start. -/
  | start
  /-- Something in its queue. -/
  | queue
  /-- The device of its port. -/
  | device
  /-- The completion of a write. -/
  | write (ticket : Ticket)
  | timer (number : Nat)
  deriving Repr, DecidableEq

structure Timer where
  deadline : Nat
  number : Nat
  task : TaskId
  deriving Repr

/-! ### Locks -/

/-- Something that one party at a time can use. -/
inductive Resource where
  | device (port : PortKey)
  | tick
  deriving Repr, DecidableEq

/-- Who uses a resource: a task, or the caller of an operation. -/
inductive Party where
  | caller
  | task (t : TaskId)
  deriving Repr, DecidableEq

/-- A resource in use: who has it and who waits for it, the longest waiting first. -/
structure Lock where
  resource : Resource
  holder : Party
  waiting : List Party
  deriving Repr

/-! ### Agendas -/

/-- The tasks of a node with the clock, in milliseconds. -/
structure Agenda where
  clock : Nat := 0
  ready : List TaskId := []
  /-- In the order in which they fire. -/
  timers : List Timer := []
  nextTimer : Nat := 0
  /-- The tasks of ports that have not ended. -/
  tasks : List (TaskId × Wait) := []
  locks : List Lock := []

namespace Agenda

/-- Lets a task run after those that can run already. -/
def wake (a : Agenda) (t : TaskId) : Agenda :=
  if t ∈ a.ready then a else { a with ready := a.ready ++ [t] }

/-- What a task waits for; none once it has ended. -/
def waitOf? (a : Agenda) (t : TaskId) : Option Wait := a.tasks.lookup t

def spawn (a : Agenda) (t : TaskId) : Agenda :=
  wake { a with tasks := a.tasks ++ [(t, Wait.start)] } t

def setWait (a : Agenda) (t : TaskId) (w : Wait) : Agenda :=
  { a with tasks := a.tasks.map fun e => if e.1 = t then (t, w) else e }

def endTask (a : Agenda) (t : TaskId) : Agenda :=
  { a with tasks := a.tasks.filter fun e => e.1 ≠ t }

def wakeIf (a : Agenda) (t : TaskId) (w : Wait) : Agenda :=
  if a.waitOf? t = some w then a.wake t else a

def wakeWriteOf (a : Agenda) (ticket : Ticket) : Agenda :=
  (a.tasks.filter fun e => e.2 = .write ticket).foldl (fun a e => a.wake e.1) a

/-! ### Timers -/

/-- Puts a timer behind those that are due no later. -/
def insertTimer (t : Timer) : List Timer → List Timer
  | [] => [t]
  | u :: us => if u.deadline ≤ t.deadline then u :: insertTimer t us else t :: u :: us

/-- Sets a timer; returns its number. -/
def setTimer (a : Agenda) (t : TaskId) (deadline : Nat) : Nat × Agenda :=
  (a.nextTimer, { a with
    timers := insertTimer ⟨deadline, a.nextTimer, t⟩ a.timers
    nextTimer := a.nextTimer + 1 })

def isSet (a : Agenda) (number : Nat) : Bool := a.timers.any fun t => t.number = number

def nextDeadline? (a : Agenda) : Option Nat := a.timers.head?.map Timer.deadline

/-- Moves the clock forward and fires the timers that are due by then. -/
def moveTo (a : Agenda) (time : Nat) : Agenda :=
  let (due, rest) := a.timers.partition fun t => t.deadline ≤ time
  due.foldl (fun a t => a.wake t.task) { a with clock := max a.clock time, timers := rest }

/-! ### Locks -/

/-- Asks for a resource; whoever does not get it at once waits for it. -/
def acquire (a : Agenda) (r : Resource) (p : Party) : Bool × Agenda :=
  match a.locks.find? fun l => l.resource = r with
  | none => (true, { a with locks := ⟨r, p, []⟩ :: a.locks })
  | some l =>
    if l.holder = p then (true, a)
    else if p ∈ l.waiting then (false, a)
    else (false, { a with locks := a.locks.map fun l =>
      if l.resource = r then { l with waiting := l.waiting ++ [p] } else l })

def wakeParty (a : Agenda) (p : Party) : Agenda :=
  match p with
  | .caller => a
  | .task t => a.wake t

/-- Hands a resource over to the party that has waited longest. -/
def release (a : Agenda) (r : Resource) : Agenda :=
  match a.locks.find? fun l => l.resource = r with
  | none => a
  | some l =>
    match l.waiting with
    | [] => { a with locks := a.locks.filter fun l => l.resource ≠ r }
    | p :: ps =>
      let locks := a.locks.map fun l => if l.resource = r then ⟨r, p, ps⟩ else l
      wakeParty { a with locks := locks } p

end Agenda

end ControlNode
