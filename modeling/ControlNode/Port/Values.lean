import ControlNode.Port.Basic

/-!
# Values of ports

How values come from the device and go to it: through transforms, checks and the queue of
writes. Expressions and sequences write in the same way as users do, but what an expression
yields is made to fit the port instead of being checked.
-/

namespace ControlNode.Port

/-! ### Transforms -/

/-- Applies a transform, if there is one, and makes the result fit the port. -/
def transform (p : Port) (t : Option Expr) (v : Value) (now : Int) :
    Except PortError Value × Option Expr :=
  match t with
  | none => (.ok (p.domain.adapt v), none)
  | some e =>
    let (r, e) := e.eval (.forTransform p.id v now p.zone)
    match r with
    | .ok v => (.ok (p.domain.adapt v), some e)
    | .error cause => (.error (.invalidValue (.transformFailed cause)), some e)

def readValue (p : Port) (now : Int) : Except PortError Value × Port :=
  let (r, device) := p.device.read
  let p := { p with device := device }
  match r with
  | .error e => (.error e, p)
  | .ok raw =>
    let (v, t) := p.transform p.transformRead raw now
    (v, { p with transformRead := t })

/-! ### Writes -/

def checkWritable (p : Port) : Except PortError Unit :=
  if !p.enabled then .error .disabled
  else if !p.writable then .error .notWritable
  else .ok ()

def enqueueWrite (p : Port) (v : Value) (t : Ticket) : Except PortError (List Signal) × Port :=
  match p.checkWritable with
  | .error e => (.error e, p)
  | .ok () =>
    let (signals, w) := p.writes.enqueue ⟨v, t⟩
    (.ok signals, { p with writes := w })

def submit (p : Port) (v : Value) (t : Ticket) (now : Int) :
    Except PortError (List Signal) × Port :=
  let (r, e) := p.transform p.transformWrite v now
  let p := { p with transformWrite := e }
  match r with
  | .error e => (.error e, p)
  | .ok raw => p.enqueueWrite raw t

def checkValue (p : Port) (v : Value) : Except PortError Unit :=
  match p.checkWritable with
  | .error e => .error e
  | .ok () => p.domain.check v

def takeWrite (p : Port) : Option Port :=
  p.writes.take.map fun (_, w) => { p with writes := w }

/-- Hands the value that has been taken out to the device and completes its write. -/
def carryOut (p : Port) : List Signal × Port :=
  match p.writes.current with
  | none => ([], p)
  | some r =>
    let (result, device) := p.device.write r.value
    let (signals, w) := p.writes.finish result
    (signals, { p with device := device, writes := w })

/-- Writes a stored value to the device, if it can be written, and takes it for the value of
the port. -/
def restore (p : Port) (v : Value) : Port :=
  let v := p.domain.adapt v
  if p.writable then
    let (r, device) := p.device.write v
    let p := { p with device := device }
    match r with
    | .ok () => { p with lastRead := some v }
    | .error _ => p
  else { p with lastRead := some v }

/-! ### Evaluations -/

/-- Queues an evaluation, unless one waits already; returns whether it was queued. -/
def enqueueEval (p : Port) (c : EvalContext) : Bool × Port :=
  if p.evalPending then (false, p)
  else match p.evals.push c with
    | (.rejected, q) => (false, { p with evals := q })
    | (_, q) => (true, { p with evals := q, evalPending := true })

def takeEval (p : Port) : Option (EvalContext × Port) :=
  p.evals.pop.map fun (c, q) => (c, { p with evals := q, evalPending := false })

def evaluate (p : Port) (c : EvalContext) (t : Ticket) (now : Int) :
    Except PortError (List Signal) × Port :=
  match p.enabled, p.expression with
  | true, some e =>
    let (r, e) := e.eval (c.forPort p.id p.zone)
    let p := { p with expression := some e }
    match r with
    | .error _ => (.error .skipRead, p)
    | .ok v =>
      let v := p.domain.adapt v
      if Value.sameOption p.lastRead (some v) then (.error .skipRead, p)
      else p.submit v t now
  | _, _ => (.error .skipRead, p)

/-! ### Sequences -/

def checkValues (p : Port) : List Value → Except PortError Unit
  | [] => .ok ()
  | v :: vs =>
    match p.domain.check v with
    | .error e => .error e
    | .ok () => checkValues p vs

/-- Cancels the running sequence and starts another one, if the port accepts its values. -/
def setSequence (p : Port) (s : Option Sequence) : Except PortError Unit × Port :=
  let p := p.cancelSequence
  match s with
  | none => (.ok (), p)
  | some s =>
    match p.checkWritable with
    | .error e => (.error e, p)
    | .ok () =>
      match p.checkValues s.values with
      | .error e => (.error e, p)
      | .ok () =>
        (.ok (), { p with
          sequence := some { number := p.nextSequence, run := .start s }
          nextSequence := p.nextSequence + 1 })

/-! ### Stopping -/

/-- Cancels the sequence and all writes that wait, and closes both queues. -/
def halt (p : Port) : List Signal × Port :=
  let p := p.cancelSequence
  let (signals, w) := p.writes.close
  (signals, { p with writes := w, evals := p.evals.close.2 })

/-- Shows no value on its way any more, once the workers have ended. -/
def clearPending (p : Port) : Port := { p with writes := { p.writes with pending := none } }

end ControlNode.Port
