import ControlNode.Port.Attributes
import ControlNode.Port.Values
import ControlNode.Proofs.Expr.Tree
import Mathlib.Logic.Relation

/-!
# Moves of ports

What the workers of a port do to it (`Work`), and what ticks and saves do to it beside taking
over values and queueing evaluations (`Upkeep`). Neither changes how the port is set up, and
queues that are open stay open.
-/

namespace ControlNode

/-! ### Devices -/

/-- A device after it has been read and has heard of seconds: only scripted ones keep count. -/
inductive Device.Touched : Device → Device → Prop
  | same (d : Device) : Touched d d
  | scripted {s s' : ScriptedDevice} (htype : s'.type = s.type)
      (hwritable : s'.writable = s.writable) : Touched (.scripted s) (.scripted s')

namespace Device

theorem Touched.trans {d d' d'' : Device} (h : Touched d d') (h' : Touched d' d'') :
    Touched d d'' := by
  cases h with
  | same => exact h'
  | scripted htype hwritable =>
    cases h' with
    | same => exact .scripted htype hwritable
    | scripted htype' hwritable' =>
      exact .scripted (htype'.trans htype) (hwritable'.trans hwritable)

theorem Touched.type_eq {d d' : Device} (h : Touched d d') : d'.type = d.type := by
  cases h with
  | same => rfl
  | scripted htype _ => exact htype

theorem Touched.writable_eq {d d' : Device} (h : Touched d d') : d'.writable = d.writable := by
  cases h with
  | same => rfl
  | scripted _ hwritable => exact hwritable

theorem read_touched (d : Device) : Touched d d.read.2 := by
  cases d with
  | memory m => exact .same _
  | software s => exact .same _
  | scripted s => exact .scripted rfl rfl
  | unit => exact .same _

theorem beat_touched (d : Device) : Touched d d.beat := by
  cases d with
  | memory m => exact .same _
  | software s => exact .same _
  | scripted s => exact .scripted rfl rfl
  | unit => exact .same _

theorem write_type (d : Device) (v : Value) : (d.write v).2.type = d.type := by
  cases d with
  | memory m => simp only [write]; split <;> rfl
  | software s => rfl
  | scripted s => simp only [write]; split <;> rfl
  | unit => rfl

theorem write_writable (d : Device) (v : Value) : (d.write v).2.writable = d.writable := by
  cases d with
  | memory m => simp only [write]; split <;> rfl
  | software s => rfl
  | scripted s => simp only [write]; split <;> rfl
  | unit => rfl

end Device

/-! ### Queues -/

namespace BoundedQueue

variable {α : Type}

theorem push_closed (q : BoundedQueue α) (a : α) : (q.push a).2.closed = q.closed := by
  unfold push
  split
  · rfl
  · split
    · split <;> rfl
    · rfl

theorem closed_of_pop {q r : BoundedQueue α} {a : α} (h : q.pop = some (a, r)) :
    r.closed = q.closed := by
  unfold pop at h
  split at h
  · cases h
    rfl
  · cases h

end BoundedQueue

namespace WritePipe

structure IsEmpty (w : WritePipe) : Prop where
  queue : w.queue.items = []
  current : w.current = none

theorem enqueue_queue (w : WritePipe) (r : WriteRequest) :
    (w.enqueue r).2.queue = (w.queue.push r).2 := by
  unfold enqueue
  cases hpush : w.queue.push r with
  | mk result q =>
    cases result <;> simp only [showNext] <;> split <;> rfl

theorem enqueue_current (w : WritePipe) (r : WriteRequest) :
    (w.enqueue r).2.current = w.current := by
  unfold enqueue
  cases hpush : w.queue.push r with
  | mk result q =>
    cases result <;> simp only [showNext] <;> split <;> rfl

theorem finish_queue (w : WritePipe) (r : Except PortError Unit) :
    (w.finish r).2.queue = w.queue := by
  unfold finish
  split <;> rfl

theorem take_closed {w w' : WritePipe} {r : WriteRequest} (h : w.take = some (r, w')) :
    w'.queue.closed = w.queue.closed := by
  obtain ⟨⟨r', q⟩, hpop, heq⟩ := Option.map_eq_some_iff.mp h
  cases heq
  exact BoundedQueue.closed_of_pop hpop

end WritePipe

namespace Port

/-! ### How a port is set up -/

/-- Two ports that differ at most in what changes while they are running. -/
structure SameSetup (p q : Port) : Prop where
  key : q.key = p.key
  enabled : q.enabled = p.enabled
  expression : q.expression.map Expr.reset = p.expression.map Expr.reset
  deps : q.expressionDeps = p.expressionDeps
  readTransform : q.transformRead.map Expr.reset = p.transformRead.map Expr.reset
  writeTransform : q.transformWrite.map Expr.reset = p.transformWrite.map Expr.reset
  limits : q.limits = p.limits
  type : q.type = p.type
  writable : q.writable = p.writable

namespace SameSetup

variable {p q r : Port}

theorem refl (p : Port) : SameSetup p p := ⟨rfl, rfl, rfl, rfl, rfl, rfl, rfl, rfl, rfl⟩

theorem trans (h : SameSetup p q) (h' : SameSetup q r) : SameSetup p r :=
  ⟨h'.key.trans h.key, h'.enabled.trans h.enabled, h'.expression.trans h.expression,
    h'.deps.trans h.deps, h'.readTransform.trans h.readTransform,
    h'.writeTransform.trans h.writeTransform, h'.limits.trans h.limits, h'.type.trans h.type,
    h'.writable.trans h.writable⟩

theorem deps?_eq (h : SameSetup p q) : q.deps? = p.deps? := by
  have hsome := congrArg Option.isSome h.expression
  rw [Option.isSome_map, Option.isSome_map] at hsome
  simp only [deps?, hsome, h.deps]

end SameSetup

/-- The queues take what is put into them, and at most one evaluation waits. -/
structure Running (p : Port) : Prop where
  writesOpen : p.writes.queue.closed = false
  evalsOpen : p.evals.closed = false
  one : p.evals.items.length ≤ 1
  pending : p.evalPending = !p.evals.items.isEmpty

theorem running_create (key : PortKey) (device : Device) (isVirtual : Bool) (capacity : Nat)
    (zone : Zone) :
    (create key device isVirtual capacity zone).Running :=
  ⟨rfl, rfl, Nat.zero_le 1, rfl⟩

/-! ### Evaluations and writes -/

theorem transform_reset (p : Port) (t : Option Expr) (v : Value) (now : Int) :
    (p.transform t v now).2.map Expr.reset = t.map Expr.reset := by
  cases t with
  | none => rfl
  | some e =>
    have hreset := Expr.reset_eval (.forTransform p.id v now p.zone) e
    simp only [transform]
    split <;> simp [hreset]

/-- A write that is queued, or not, leaves all but the queue and the transform. -/
theorem submit_frame (p : Port) (v : Value) (t : Ticket) (now : Int) :
    (p.submit v t now).2 = { p with
      transformWrite := (p.transform p.transformWrite v now).2
      writes := (p.submit v t now).2.writes } := by
  simp only [submit]
  split
  · rfl
  · simp only [enqueueWrite]
    split <;> rfl

theorem submit_setup (p : Port) (v : Value) (t : Ticket) (now : Int) :
    SameSetup p (p.submit v t now).2 := by
  have hwrite := transform_reset p p.transformWrite v now
  rw [submit_frame]
  exact ⟨rfl, rfl, rfl, rfl, rfl, hwrite, rfl, rfl, rfl⟩

theorem enqueueWrite_closed (p : Port) (v : Value) (t : Ticket) :
    (p.enqueueWrite v t).2.writes.queue.closed = p.writes.queue.closed := by
  simp only [enqueueWrite]
  split
  · rfl
  · rw [WritePipe.enqueue_queue, BoundedQueue.push_closed]

theorem submit_closed (p : Port) (v : Value) (t : Ticket) (now : Int) :
    (p.submit v t now).2.writes.queue.closed = p.writes.queue.closed := by
  simp only [submit]
  split
  · rfl
  · exact enqueueWrite_closed ..

/-- An evaluation leaves all but memories and queued writes. -/
theorem evaluate_frame (p : Port) (c : EvalContext) (t : Ticket) (now : Int) :
    (p.evaluate c t now).2 = { p with
      expression := (p.evaluate c t now).2.expression
      transformWrite := (p.evaluate c t now).2.transformWrite
      writes := (p.evaluate c t now).2.writes } := by
  unfold evaluate
  split
  · dsimp only
    split
    · rfl
    · split
      · rfl
      · rw [submit_frame]
  · rfl

theorem evaluate_setup (p : Port) (c : EvalContext) (t : Ticket) (now : Int) :
    SameSetup p (p.evaluate c t now).2 := by
  unfold evaluate
  split
  · rename_i e henabled he
    have hreset := Expr.reset_eval (c.forPort p.id p.zone) e
    have hstored : SameSetup p { p with expression := some (e.eval (c.forPort p.id p.zone)).2 } :=
      ⟨rfl, rfl, by simp [he, hreset], rfl, rfl, rfl, rfl, rfl, rfl⟩
    dsimp only
    split
    · exact hstored
    · split
      · exact hstored
      · exact hstored.trans (submit_setup ..)
  · exact .refl p

theorem evaluate_closed (p : Port) (c : EvalContext) (t : Ticket) (now : Int) :
    (p.evaluate c t now).2.writes.queue.closed = p.writes.queue.closed := by
  unfold evaluate
  split
  · dsimp only
    split
    · rfl
    · split
      · rfl
      · exact submit_closed ..
  · rfl

/-! ### Workers -/

inductive Work : Port → Port → Prop
  | takeWrite {p q : Port} (h : p.takeWrite = some q) : Work p q
  | carryOut (p : Port) : Work p p.carryOut.2
  | evaluate {p q : Port} {c : EvalContext} (h : p.takeEval = some (c, q)) (t : Ticket)
      (now : Int) : Work p (q.evaluate c t now).2
  | endSequence (p : Port) : Work p p.cancelSequence
  | stepSequence (p : Port) {s : RunningSequence} (h : p.sequence = some s)
      (next : RunningSequence) (v : Value) (t : Ticket) (now : Int) :
      Work p ({ p with sequence := some next }.submit v t now).2

theorem carryOut_frame (p : Port) : p.carryOut.2 = { p with
    device := p.carryOut.2.device
    writes := p.carryOut.2.writes } := by
  unfold carryOut
  split <;> rfl

theorem carryOut_setup (p : Port) : SameSetup p p.carryOut.2 := by
  unfold carryOut
  split
  · exact .refl p
  · exact ⟨rfl, rfl, rfl, rfl, rfl, rfl, rfl, Device.write_type .., Device.write_writable ..⟩

theorem carryOut_queue (p : Port) : p.carryOut.2.writes.queue = p.writes.queue := by
  unfold carryOut
  split
  · rfl
  · exact WritePipe.finish_queue ..

theorem Work.frame {p q : Port} (h : Work p q) : q = { p with
    device := q.device
    expression := q.expression
    transformWrite := q.transformWrite
    writes := q.writes
    evals := q.evals
    evalPending := q.evalPending
    sequence := q.sequence } := by
  cases h with
  | takeWrite h =>
    obtain ⟨_, _, rfl⟩ := Option.map_eq_some_iff.mp h
    rfl
  | carryOut => rw [carryOut_frame]
  | evaluate h t now =>
    obtain ⟨_, _, heq⟩ := Option.map_eq_some_iff.mp h
    cases heq
    rw [evaluate_frame]
  | endSequence => rfl
  | stepSequence => rw [submit_frame]

theorem Work.setup {p q : Port} (h : Work p q) : SameSetup p q := by
  cases h with
  | takeWrite h =>
    obtain ⟨_, _, rfl⟩ := Option.map_eq_some_iff.mp h
    exact ⟨rfl, rfl, rfl, rfl, rfl, rfl, rfl, rfl, rfl⟩
  | carryOut => exact carryOut_setup p
  | evaluate h t now =>
    obtain ⟨⟨_, evals⟩, _, heq⟩ := Option.map_eq_some_iff.mp h
    cases heq
    have htaken : SameSetup p { p with evals := evals, evalPending := false } :=
      ⟨rfl, rfl, rfl, rfl, rfl, rfl, rfl, rfl, rfl⟩
    exact htaken.trans (evaluate_setup ..)
  | endSequence => exact ⟨rfl, rfl, rfl, rfl, rfl, rfl, rfl, rfl, rfl⟩
  | stepSequence _ next v t now =>
    have hnext : SameSetup p { p with sequence := some next } :=
      ⟨rfl, rfl, rfl, rfl, rfl, rfl, rfl, rfl, rfl⟩
    exact hnext.trans (submit_setup ..)

theorem Work.lastRead {p q : Port} (h : Work p q) : q.lastRead = p.lastRead := by
  rw [h.frame]

theorem running_of_takeEval {p q : Port} {c : EvalContext} (h : p.takeEval = some (c, q))
    (hp : p.Running) : q.Running ∧ q.evals.items = [] := by
  obtain ⟨⟨c', evals⟩, hpop, heq⟩ := Option.map_eq_some_iff.mp h
  cases heq
  have hitems := BoundedQueue.items_of_pop _ _ _ hpop
  have hnil : evals.items = [] := by
    have hone := hp.one
    rw [hitems, List.length_cons] at hone
    exact List.eq_nil_of_length_eq_zero (by omega)
  have hopen := BoundedQueue.closed_of_pop hpop
  exact ⟨⟨hp.writesOpen, hopen.trans hp.evalsOpen, by simp [hnil], by simp [hnil]⟩, hnil⟩

theorem Running.of_evals {p q : Port} (h : p.Running) (hevals : q.evals = p.evals)
    (hpending : q.evalPending = p.evalPending)
    (hclosed : q.writes.queue.closed = p.writes.queue.closed) : q.Running := by
  obtain ⟨hw, he, hone, hp⟩ := h
  exact ⟨hclosed.trans hw, by rw [hevals, he], by rw [hevals]; exact hone,
    by rw [hevals, hpending, hp]⟩

theorem Work.running {p q : Port} (h : Work p q) (hp : p.Running) : q.Running := by
  cases h with
  | takeWrite h =>
    obtain ⟨⟨r, w⟩, htake, rfl⟩ := Option.map_eq_some_iff.mp h
    exact hp.of_evals rfl rfl (WritePipe.take_closed htake)
  | carryOut =>
    refine hp.of_evals ?_ ?_ (by rw [carryOut_queue])
    · rw [carryOut_frame]
    · rw [carryOut_frame]
  | evaluate h t now =>
    have hq := (running_of_takeEval h hp).1
    refine hq.of_evals ?_ ?_ (evaluate_closed ..)
    · rw [evaluate_frame]
    · rw [evaluate_frame]
  | endSequence => exact hp.of_evals rfl rfl rfl
  | stepSequence _ next v t now =>
    have hnext : Running { p with sequence := some next } := hp.of_evals rfl rfl rfl
    refine hnext.of_evals ?_ ?_ (submit_closed ..)
    · rw [submit_frame]
    · rw [submit_frame]

theorem Work.evals {p q : Port} (h : Work p q) : q.evals.items <:+ p.evals.items := by
  cases h with
  | takeWrite h =>
    obtain ⟨_, _, rfl⟩ := Option.map_eq_some_iff.mp h
    exact List.suffix_refl _
  | carryOut =>
    have hsame : p.carryOut.2.evals = p.evals := by rw [carryOut_frame]
    exact ⟨[], congrArg BoundedQueue.items hsame⟩
  | evaluate h t now =>
    obtain ⟨⟨_, evals⟩, hpop, heq⟩ := Option.map_eq_some_iff.mp h
    cases heq
    rw [evaluate_frame, BoundedQueue.items_of_pop _ _ _ hpop]
    exact List.suffix_cons ..
  | endSequence => exact List.suffix_refl _
  | stepSequence _ next v t now =>
    have hsame : ({ p with sequence := some next }.submit v t now).2.evals = p.evals := by
      rw [submit_frame]
    exact ⟨[], congrArg BoundedQueue.items hsame⟩

/-! ### Ports without a sequence -/

/-- What a worker does to a port that runs no sequence. -/
inductive Advance (p : Port) : Port → Prop
  | stay : Advance p p
  | take {r : WriteRequest} {rest : List WriteRequest} (h : p.writes.queue.items = r :: rest) :
      Advance p { p with writes :=
        { queue := { p.writes.queue with items := rest }
          current := some r
          pending := some r.value } }
  | write {r : WriteRequest} (h : p.writes.current = some r) :
      Advance p { p with
        device := (p.device.write r.value).2
        writes := (p.writes.finish (p.device.write r.value).1).2 }
  | evaluate {c : EvalContext} {rest : List EvalContext} (h : p.evals.items = c :: rest)
      (t : Ticket) (now : Int) :
      Advance p ({ p with
        evals := { p.evals with items := rest }
        evalPending := false }.evaluate c t now).2

theorem Work.advance {p q : Port} (h : Work p q) (hs : p.sequence = none) : Advance p q := by
  cases h with
  | takeWrite h =>
    obtain ⟨⟨r, w⟩, htake, rfl⟩ := Option.map_eq_some_iff.mp h
    obtain ⟨⟨r', queue⟩, hpop, heq⟩ := Option.map_eq_some_iff.mp htake
    cases heq
    unfold BoundedQueue.pop at hpop
    split at hpop
    · rename_i hitems
      cases hpop
      exact .take hitems
    · cases hpop
  | carryOut =>
    unfold Port.carryOut
    cases hcurrent : p.writes.current with
    | none => exact .stay
    | some r => exact .write hcurrent
  | evaluate h t now =>
    obtain ⟨⟨c, evals⟩, hpop, heq⟩ := Option.map_eq_some_iff.mp h
    cases heq
    unfold BoundedQueue.pop at hpop
    split at hpop
    · rename_i hitems
      cases hpop
      exact .evaluate hitems t now
    · cases hpop
  | endSequence =>
    have hsame : p.cancelSequence = p := by rw [cancelSequence, ← hs]
    rw [hsame]
    exact .stay
  | stepSequence h =>
    rw [hs] at h
    cases h

/-- Nothing waits in the port, and no sequence runs. -/
structure Idle (p : Port) : Prop where
  evals : p.evals.items = []
  writes : p.writes.IsEmpty
  sequence : p.sequence = none

instance (p : Port) : Decidable p.Idle :=
  decidable_of_iff (p.evals.items.isEmpty ∧ p.writes.queue.items.isEmpty ∧
      p.writes.current.isNone ∧ p.sequence.isNone) <| by
    simp only [List.isEmpty_iff, Option.isNone_iff_eq_none]
    exact ⟨fun h => ⟨h.1, ⟨h.2.1, h.2.2.1⟩, h.2.2.2⟩,
      fun h => ⟨h.evals, h.writes.queue, h.writes.current, h.sequence⟩⟩

theorem Work.eq_of_idle {p q : Port} (h : Work p q) (hp : p.Idle) : q = p := by
  cases h.advance hp.sequence with
  | stay => rfl
  | take hitems =>
    rw [hp.writes.queue] at hitems
    cases hitems
  | write hcurrent =>
    rw [hp.writes.current] at hcurrent
    cases hcurrent
  | evaluate hitems =>
    rw [hp.evals] at hitems
    cases hitems

/-! ### Upkeep -/

/-- A port after reads, heart beats, samples, saves and lookups of attributes. -/
structure Upkeep (p q : Port) : Prop where
  frame : q = { p with
    device := q.device
    transformRead := q.transformRead
    historyLast := q.historyLast
    attrCache := q.attrCache
    dirty := q.dirty }
  device : p.device.Touched q.device
  transform : q.transformRead.map Expr.reset = p.transformRead.map Expr.reset

namespace Upkeep

variable {p q r : Port}

theorem refl (p : Port) : Upkeep p p := ⟨rfl, .same _, rfl⟩

theorem trans (h : Upkeep p q) (h' : Upkeep q r) : Upkeep p r := by
  refine ⟨?_, h.device.trans h'.device, h'.transform.trans h.transform⟩
  have hq := h.frame
  have hr := h'.frame
  rw [hq] at hr
  exact hr

theorem setup (h : Upkeep p q) : SameSetup p q := by
  have hread := h.transform
  have htype := h.device.type_eq
  have hwritable := h.device.writable_eq
  rw [h.frame]
  exact ⟨rfl, rfl, rfl, rfl, hread, rfl, rfl, htype, hwritable⟩

theorem lastRead (h : Upkeep p q) : q.lastRead = p.lastRead := by rw [h.frame]

theorem withLastRead (h : Upkeep p q) (v : Option Value) :
    Upkeep { p with lastRead := v } { q with lastRead := v } := by
  refine ⟨?_, h.device, h.transform⟩
  rw [h.frame]

theorem running (h : Upkeep p q) (hp : p.Running) : q.Running := by
  rw [h.frame]
  exact hp.of_evals rfl rfl rfl

end Upkeep

theorem readValue_upkeep (p : Port) (now : Int) : Upkeep p (p.readValue now).2 := by
  have hdevice := p.device.read_touched
  unfold readValue
  dsimp only
  split
  · exact ⟨rfl, hdevice, rfl⟩
  · exact ⟨rfl, hdevice, transform_reset ..⟩

theorem getAttr_upkeep (p : Port) (name : String) : Upkeep p (p.getAttr name).2 := by
  unfold getAttr
  split
  · exact .refl p
  · split
    · exact ⟨rfl, .same _, rfl⟩
    · exact .refl p

theorem collectAttrs_upkeep (p : Port) (ds : List AttrDef) : Upkeep p (p.collectAttrs ds).2 := by
  induction ds generalizing p with
  | nil => exact .refl p
  | cons d ds ih =>
    have hstep := p.getAttr_upkeep d.name
    have hrest := ih (p.getAttr d.name).2
    simp only [collectAttrs]
    split <;> exact hstep.trans hrest

theorem attrsJson_upkeep (p : Port) : Upkeep p p.attrsJson.2 := p.collectAttrs_upkeep p.attrDefs

/-! ### Ports that go on running -/

/-- What every move does: the setup stays and open queues stay open. -/
structure Continues (p q : Port) : Prop where
  setup : SameSetup p q
  running : p.Running → q.Running

theorem Continues.refl (p : Port) : Continues p p := ⟨.refl p, fun hp => hp⟩

theorem Continues.trans {p q r : Port} (h : Continues p q) (h' : Continues q r) :
    Continues p r :=
  ⟨h.setup.trans h'.setup, fun hp => h'.running (h.running hp)⟩

theorem Upkeep.continues {p q : Port} (h : Upkeep p q) : Continues p q := ⟨h.setup, h.running⟩

/-- A move of a port beside taking over values and queueing evaluations. -/
inductive Move : Port → Port → Prop
  | work {p q : Port} (h : Work p q) : Move p q
  | upkeep {p q : Port} (h : Upkeep p q) : Move p q

abbrev Moves : Port → Port → Prop := Relation.ReflTransGen Move

theorem Moves.continues {p q : Port} (h : Moves p q) : Continues p q := by
  induction h with
  | refl => exact .refl p
  | tail _ hstep ih =>
    refine ih.trans ?_
    cases hstep with
    | work h => exact ⟨h.setup, h.running⟩
    | upkeep h => exact ⟨h.setup, h.running⟩

theorem Moves.lastRead {p q : Port} (h : Moves p q) : q.lastRead = p.lastRead := by
  induction h with
  | refl => rfl
  | tail _ hstep ih =>
    cases hstep with
    | work h => exact h.lastRead.trans ih
    | upkeep h => exact h.lastRead.trans ih

theorem Moves.evals {p q : Port} (h : Moves p q) : q.evals.items <:+ p.evals.items := by
  induction h with
  | refl => exact List.suffix_refl _
  | tail _ hstep ih =>
    cases hstep with
    | work h => exact h.evals.trans ih
    | upkeep h =>
      rw [h.frame]
      exact ih

theorem Upkeep.idle {p q : Port} (h : Upkeep p q) (hp : p.Idle) : q.Idle := by
  rw [h.frame]
  exact ⟨hp.evals, hp.writes, hp.sequence⟩

theorem Moves.upkeep {p q : Port} (h : Moves p q) (hp : p.Idle) : Upkeep p q := by
  induction h with
  | refl => exact .refl p
  | tail _ hstep ih =>
    cases hstep with
    | work h =>
      rw [h.eq_of_idle (ih.idle hp)]
      exact ih
    | upkeep h => exact ih.trans h

end Port

end ControlNode
