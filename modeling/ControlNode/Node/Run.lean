import ControlNode.Node.Services

/-!
# Running tasks

The tasks of a node run one after another until all of them wait. Only then does the clock
move, to the next time at which a timer fires.
-/

namespace ControlNode.Node

def runTask (n : Node) (t : TaskId) : Progress × Node :=
  match t with
  | .writer key => n.pollWriter key
  | .evaluator key => n.pollEvaluator key
  | .sequence key number => n.pollSequence key number
  | .service k => n.pollService k

/-- Lets the task run that has been ready longest. A task that goes on by itself stays ahead
of the others. -/
def step (n : Node) : Node :=
  match n.agenda.ready with
  | [] => n
  | t :: rest =>
    match { n with agenda := { n.agenda with ready := rest } }.runTask t with
    | (.waits, n) => n
    | (.again, n) => { n with agenda := { n.agenda with ready := t :: n.agenda.ready } }

/-- Lets tasks run until all of them wait, for at most `fuel` steps. -/
def runReady : (fuel : Nat) → Node → Node
  | 0, n => n
  | fuel + 1, n => if n.agenda.ready.isEmpty then n else runReady fuel n.step

/-- More steps than the tasks of ports ever take before all of them wait, and more timers than
fire before a caller goes on. -/
def stepLimit : Nat := 1000000

/-- More steps than a task takes that can run, if it is a service. -/
def workOf (n : Node) : TaskId → Nat
  | .service k => match n.service? k with
    | some s => s.backlog n.agenda.clock
    | none => 1
  | _ => 0

/-- How many steps the tasks that can run can take, if they are services. -/
def work (n : Node) : Nat := n.agenda.ready.foldr (fun t left => n.workOf t + left) 0

def settle (n : Node) : Node := runReady (stepLimit + n.work) n

def moveTo (n : Node) (time : Nat) : Node :=
  { n with agenda := n.agenda.moveTo time }.settle

/-- Lets tasks run and time pass until `done` holds or nothing more can happen, for at most
`fuel` timers. -/
def runUntil (done : Node → Bool) : (fuel : Nat) → Node → Node
  | 0, n => n
  | fuel + 1, n =>
    if done n then n
    else match n.agenda.nextDeadline? with
      | none => n
      | some time => runUntil done fuel (n.moveTo time)

/-- Lets a caller wait for something; others run only if it does not hold already. -/
def waitFor (n : Node) (done : Node → Bool) : Node :=
  if done n then n else runUntil done stepLimit n.settle

/-- Fires the timers up to a time one after another, in at most `fuel` rounds. -/
def fireUntil (time : Nat) : (fuel : Nat) → Node → Node
  | 0, n => n
  | fuel + 1, n =>
    match n.agenda.nextDeadline? with
    | some t => if t ≤ time then fireUntil time fuel (n.moveTo t) else n
    | none => n

/-- Lets a time pass, in milliseconds. A timer that fires moves the clock on, so that there are
at most as many rounds as milliseconds. -/
def advance (n : Node) (duration : Nat) : Node :=
  let time := n.agenda.clock + duration
  (fireUntil time (duration + 1) n.settle).moveTo time

/-- Lets tasks run while files are read or written. -/
def awaitStorage (n : Node) : Node :=
  if n.storageBusy then { n with storageBusy := false }.settle else n

end ControlNode.Node
