import ControlNode.Node.Basic

/-!
# Ticks

A tick reads the enabled ports, announces the values that have changed, and queues an
evaluation for each expression that depends on something that has changed. Whoever runs a tick
has the tick lock; a device that is being written is read when the write has finished.
-/

namespace ControlNode.Node

def portsCollection : String := "ports"

def definitionsCollection : String := "vports"

def historyCollection : String := "value_history"

/-! ### History -/

def pruneLimit (now retention : Int) : Int :=
  Binary64.wrapInt64 (now - Binary64.wrapInt64 (retention * 1000))

/-- Drops the samples of a port that are older than its retention. -/
def pruneHistory (n : Node) (p : Port) (now : Int) : Node :=
  if p.historyRetention > 0 then
    let range : SampleRange := { stop := some (pruneLimit now p.historyRetention) }
    let (removed, b) := n.backend.removeSamples historyCollection (some [p.id]) range
    (n.access (removed.toOption.any (· > 0)) (removed, b)).2
  else n

/-- Stores a value of a port as a sample. -/
def saveHistory (n : Node) (key : PortKey) (v : Value) (now : Int) : Node :=
  match n.portOf? key with
  | none => n
  | some p =>
    if n.backend.samplesSupported then
      let (r, n) := n.access true
        (n.backend.saveSample historyCollection p.id ⟨now, v.toJson⟩)
      match r with
      | .error _ => n
      | .ok () =>
        let p := { p with historyLast := now, dirty := true }
        (n.putPort p).pruneHistory p now
    else n

def isSampleDue (p : Port) (now : Int) : Bool :=
  p.historyInterval > 0 &&
    p.historyInterval * 1000 ≤ Binary64.wrapInt64 (now - p.historyLast)

/-- Stores a periodic sample of a port, if one is due and the port has a value. -/
def sampleIfDue (now : Int) (n : Node) (key : PortKey) : Node :=
  match n.portOf? key with
  | none => n
  | some p =>
    match p.lastRead with
    | some v => if isSampleDue p now then n.saveHistory key v now else n
    | none => n

/-! ### The beginning -/

/-- Tells a device that a second has passed. -/
def beat (n : Node) (key : PortKey) : Node :=
  match n.portOf? key with
  | none => n
  | some p => n.putPort { p with device := p.device.beat }

/-- The second of a time in milliseconds. -/
def secondOf (now : Int) : Int := now / 1000

def enabledKeys (n : Node) : List PortKey :=
  (n.ports.filter fun e => e.2.enabled).map fun e => e.2.key

/-- Begins a tick. The first tick of a second, counted from the latest second in which a tick
has run, brings heart beats and periodic samples. -/
def openTick (n : Node) (now : Int) : Node :=
  let keys := n.enabledKeys
  let newSecond := n.lastSecond < secondOf now
  let n := { n with tick := some { now := now, enabled := keys, newSecond := newSecond } }
  if newSecond then
    let n := keys.foldl beat { n with lastSecond := secondOf now }
    keys.foldl (sampleIfDue now) n
  else n

/-- Chooses the ports to be read: those that are enabled and whose last read did not fail a
short while ago. -/
def planReads (n : Node) : Node :=
  match n.tick with
  | none => n
  | some t =>
    let keys := t.enabled.filter fun k => !n.backoff.contains k.id n.agenda.clock
    let n := keys.foldl (fun n k => match n.portOf? k with
      | none => n
      | some p => n.putPort p.dropAttrCache) n
    { n with tick := some { t with reads := keys.map fun k => (k, none) } }

/-! ### Reads -/

def readPort (n : Node) (key : PortKey) : Except PortError Value × Node :=
  match n.portOf? key with
  | none => (.error .skipRead, n)
  | some p =>
    let (r, p) := p.readValue n.wall
    (r, n.putPort p)

/-- Reads a port for a party once its device is free; none while it is not. -/
def tryRead (n : Node) (who : Party) (key : PortKey) :
    Option (Except PortError Value) × Node :=
  match n.agenda.acquire (.device key) who with
  | (false, a) => (none, { n with agenda := a })
  | (true, a) =>
    let (r, n) := { n with agenda := a }.readPort key
    (some r, { n with agenda := n.agenda.release (.device key) })

def readPending (who : Party) : Node → List (PortKey × Option (Except PortError Value)) →
    List (PortKey × Option (Except PortError Value)) × Node
  | n, [] => ([], n)
  | n, (key, some r) :: rest =>
    let (rest, n) := readPending who n rest
    ((key, some r) :: rest, n)
  | n, (key, none) :: rest =>
    let (r, n) := n.tryRead who key
    let (rest, n) := readPending who n rest
    ((key, r) :: rest, n)

/-- Reads what can be read; returns whether all ports have been read. -/
def continueReads (n : Node) (who : Party) : Bool × Node :=
  match n.tick with
  | none => (true, n)
  | some t =>
    let (reads, n) := readPending who n t.reads
    (reads.all fun e => e.2.isSome, { n with tick := some { t with reads := reads } })

/-! ### Changes -/

/-- Takes over a value that has been read; returns whether it differs from the one before. A
change is announced unless the port is internal, and is stored where that is asked for. -/
def takeValue (n : Node) (key : PortKey) (v : Value) (now : Int) : Bool × Node :=
  match n.portOf? key with
  | none => (false, n)
  | some p =>
    let old := p.lastRead
    let p := { p with lastRead := some v }
    if Value.sameOption old (some v) then (false, n.putPort p)
    else
      let p := if p.persisted then { p with dirty := true } else p
      let n := n.putPort p
      let n := if p.internal then n else n.publish (.valueChange p.id old v)
      (true, if p.historyInterval = -1 then n.saveHistory key v now else n)

/-- Takes over the outcome of a read. A port whose read fails is not read again for a while. -/
def takeRead (now : Int) (n : Node) (key : PortKey) (r : Except PortError Value) :
    Bool × Node :=
  match r with
  | .ok v => n.takeValue key v now
  | .error .skipRead => (false, n)
  | .error _ => (false, { n with backoff := n.backoff.insert key.id n.agenda.clock })

/-- Takes over the outcomes of reads in turn; returns the ports whose values have changed. -/
def takeReads (now : Int) : Node → List (PortKey × Option (Except PortError Value)) →
    List String × Node
  | n, [] => ([], n)
  | n, (key, some r) :: rest =>
    let (changed, n) := takeRead now n key r
    let (ids, n) := takeReads now n rest
    (if changed then key.id :: ids else ids, n)
  | n, (_, none) :: rest => takeReads now n rest

/-! ### Evaluations -/

def changedDeps (t : Tick) (ids : List String) : List Dep :=
  [.asap, .timeMs] ++ (if t.newSecond then [.time] else []) ++ ids.map .port

def snapshot (n : Node) (keys : List PortKey) : Dict String Value :=
  Dict.ofList (keys.filterMap fun k => (n.portOf? k).bind fun p =>
    p.lastRead.map fun v => (k.id, v))

/-- Whether changes bring up an expression with the given dependencies. What only the tick
itself brings up is held back during a pause. -/
def isDue (changed : List Dep) (asapPaused : Bool) (deps : DepSet) : Bool :=
  let hits := deps.filter fun d => changed.contains d
  !hits.isEmpty && !(asapPaused && hits.all Dep.isTick)

/-- Queues an evaluation for a port, if its expression is due or forced. A forced evaluation
that finds one waiting is put off to the next tick. -/
def dispatchTo (changed : List Dep) (isForced : String → Bool) (asapPaused : Bool)
    (c : EvalContext) (n : Node) (key : PortKey) : Node :=
  match n.portOf? key with
  | none => n
  | some p =>
    match p.deps? with
    | none => n
    | some deps =>
      if isForced key.id || isDue changed asapPaused deps then
        match p.enqueueEval c with
        | (true, p) => (n.putPort p).emitAll key [.evalQueued]
        | (false, p) => if isForced key.id then (n.putPort p).forceEval key.id else n.putPort p
      else n

/-- Queues evaluations after the given ports have changed. -/
def dispatch (n : Node) (t : Tick) (ids : List String) : Node :=
  let forceAll := n.forceAll
  let forced := n.forced
  let asapPaused := t.now < n.asapPausedUntil
  let c := EvalContext.ofValues (n.snapshot t.enabled) t.now
  let n := { n with forceAll := false, forced := [] }
  let isForced (id : String) : Bool := forceAll || forced.contains id
  t.enabled.foldl (dispatchTo (changedDeps t ids) isForced asapPaused c) n

/-- Ends a tick in which all ports have been read. `pause` lets others run while files are
written. -/
def closeTick (n : Node) (pause : Node → Node) : Node :=
  match n.tick with
  | none => n
  | some t =>
    let (ids, n) := takeReads t.now n t.reads
    let n := (pause n).dispatch t ids
    { n with tick := none, agenda := n.agenda.release .tick }

end ControlNode.Node
