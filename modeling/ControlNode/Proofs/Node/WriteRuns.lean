import ControlNode.Proofs.Node.Invariants
import ControlNode.Proofs.Port.Pipeline
import ControlNode.Proofs.Port.Silence

/-!
# Runs of writers

In every node that a history leads to, a port has a write in hand only while its writer is not idle
(`current_of_idle`). So whatever has happened before, the runs of writers that follow are moves of
the worker of the pipeline of writes (`after_pipeline`) and of a port whose calls of its device are
recorded (`after_attended`): the device is handed what was outstanding and called for nothing else
(`after_handsOver`). With requests in between they are a run of the pipeline, and the ledger of the
pipeline accounts for what comes of the requests (`after_requests`).
-/

namespace ControlNode

open Relation

/-! ### What a port has in hand -/

namespace Port

variable {p q : Port}

/-- An idle writer has no write in hand. -/
def InHand (p : Port) (stage : WriteStage) : Prop :=
  stage = .idle → p.writes.current = none

theorem inHand_of_ne {stage : WriteStage} (h : stage ≠ .idle) (p : Port) : p.InHand stage :=
  fun hidle => absurd hidle h

theorem carryOut_of_none (h : p.writes.current = none) : p.carryOut.2 = p := by
  unfold carryOut
  rw [h]

theorem enqueueWrite_current (p : Port) (v : Value) (t : Ticket) :
    (p.enqueueWrite v t).2.writes.current = p.writes.current := by
  unfold enqueueWrite
  split
  · rfl
  · exact WritePipe.enqueue_current ..

theorem submit_current (p : Port) (v : Value) (t : Ticket) (now : Int) :
    (p.submit v t now).2.writes.current = p.writes.current := by
  unfold submit
  dsimp only
  split
  · rfl
  · exact enqueueWrite_current ..

theorem evaluate_current (p : Port) (c : EvalContext) (t : Ticket) (now : Int) :
    (p.evaluate c t now).2.writes.current = p.writes.current := by
  unfold evaluate
  split
  · dsimp only
    repeat' split
    · rfl
    · rfl
    · exact submit_current ..
  · rfl

theorem setSequence_current (p : Port) (s : Option Sequence) :
    (p.setSequence s).2.writes.current = p.writes.current := by
  unfold setSequence
  dsimp only
  repeat' split
  all_goals rfl

theorem Handling.current (h : Handling p q) : q.writes.current = p.writes.current := by
  cases h with
  | evaluate h t now =>
    obtain ⟨_, _, heq⟩ := Option.map_eq_some_iff.mp h
    cases heq
    exact evaluate_current ..
  | stepSequence => exact submit_current ..
  | submit => exact submit_current ..
  | enqueueWrite => exact enqueueWrite_current ..
  | enqueueEval c =>
    unfold Port.enqueueEval
    repeat' split
    all_goals rfl
  | readValue now => rw [(readValue_upkeep p now).frame]
  | getAttr name => rw [getAttr_frame]
  | attrsJson => rw [attrsJson_frame]
  | setAttr g name value => rw [(setAttr_switched p g name value).writes]
  | loadAttrs g record => rw [(loadAttrs_switched p g record).writes]
  | restore v => rw [restore_frame]
  | _ => rfl

theorem inHand_invariant : Invariant InHand where
  create _ _ _ _ _ _ _ := rfl
  handling h hq hidle := hq.current.trans (h hidle)
  writer _ hstep := by
    cases hstep with
    | takes => exact inHand_of_ne (by simp) _
    | begins => exact inHand_of_ne (by simp) _
    | finishes => exact fun _ => (Attended.carryOut_writes _).1

end Port

namespace Node

open Port

variable {n : Node} {key : PortKey} {p : Port}

theorem respects_inHand (h : n.Maintains InHand) (op : Operation) : n.Respects InHand op := by
  cases op with
  | setSequence key s =>
    exact fun p hp hidle => (setSequence_current p s).trans (h.ports key p hp hidle)
  | device key value failReads failures => exact fun p hp => h.ports key p hp
  | _ => trivial

theorem current_of_idle (config : NodeConfig) (backend : Backend) (wall : Int) (zone : Zone)
    (ops : List Operation)
    (hp : ((create config backend wall zone).after ops).portOf? key = some p)
    (hidle : ((create config backend wall zone).after ops).writeStage key = .idle) :
    p.writes.current = none :=
  ((maintains_create inHand_invariant config backend wall zone).after
    (sound_create config backend wall zone) fun op _ _ h => respects_inHand h op).ports key p hp
    hidle

end Node

/-! ### Moves of a worker -/

/-- Where one step is followed by moves, so is any number of steps. -/
theorem exists_moves_of_steps {α σ μ : Type} {r : α → α → Prop} {move : σ → μ → σ}
    {IsWorker : μ → Prop} {Follows : σ → α → Prop}
    (hstep : ∀ {s x y}, Follows s x → r x y →
      ∃ moves : List μ, (∀ a ∈ moves, IsWorker a) ∧ Follows (moves.foldl move s) y)
    {s : σ} {x y : α} (hs : Follows s x) (hsteps : ReflTransGen r x y) :
    ∃ moves : List μ, (∀ a ∈ moves, IsWorker a) ∧ Follows (moves.foldl move s) y := by
  induction hsteps with
  | refl => exact ⟨[], List.forall_mem_nil _, hs⟩
  | tail _ hlast ih =>
    obtain ⟨moves, hworker, hs'⟩ := ih
    obtain ⟨more, hmore, hs''⟩ := hstep hs' hlast
    refine ⟨moves ++ more, List.forall_mem_append.mpr ⟨hworker, hmore⟩, ?_⟩
    rw [List.foldl_append]
    exact hs''

def PipelineStep.IsWorker : PipelineStep → Prop
  | .dequeue | .finish => True
  | _ => False

namespace Pipeline

variable {s : Pipeline} {x y : Port × WriteStage}

/-- The pipeline is where a port and its writer are. -/
structure Follows (s : Pipeline) (x : Port × WriteStage) : Prop where
  port : s.port = x.1
  inHand : s.port.InHand x.2

theorem Follows.step (h : s.Follows x) (hstep : WriterStep x y) :
    ∃ moves : List PipelineStep, (∀ a ∈ moves, a.IsWorker) ∧
      (moves.foldl Pipeline.step s).Follows y := by
  obtain ⟨hport, hinHand⟩ := h
  cases hstep with
  | @takes p q hopen htake =>
    obtain rfl : s.port = p := hport
    have hnone : s.current = none := hinHand rfl
    have hdequeue : s.dequeue.port = q := by
      have hqueue : s.queue.closed = false := hopen
      simp [dequeue, hqueue, hnone, htake]
    exact ⟨[.dequeue], by simp [PipelineStep.IsWorker], hdequeue, Port.inHand_of_ne (by simp) _⟩
  | begins => exact ⟨[], List.forall_mem_nil _, hport, Port.inHand_of_ne (by simp) _⟩
  | finishes =>
    obtain rfl := hport
    have hfinish : s.finish.port = s.port.carryOut.2 := by
      unfold finish
      split
      · rename_i hnone
        exact (Port.carryOut_of_none hnone).symm
      · rfl
    exact ⟨[.finish], by simp [PipelineStep.IsWorker], hfinish, fun _ => s.current_finish⟩

theorem Accounted.moves {d : Device} (h : Accounted d s) (moves : List PipelineStep) :
    Accounted d (moves.foldl step s) := by
  induction moves generalizing s with
  | nil => exact h
  | cons a moves ih => exact ih (accounted_step h a)

theorem asked_of_worker {moves : List PipelineStep} (hmoves : ∀ a ∈ moves, a.IsWorker) :
    (moves.foldl step s).asked = s.asked := by
  induction moves generalizing s with
  | nil => rfl
  | cons a moves ih =>
    obtain ⟨ha, hmoves⟩ := List.forall_mem_cons.mp hmoves
    refine (ih hmoves).trans ?_
    cases a with
    | dequeue =>
      simp only [step, dequeue]
      repeat' split
      all_goals rfl
    | finish =>
      simp only [step, finish]
      split <;> rfl
    | _ => cases ha

theorem valuesAsked_append (moves more : List PipelineStep) :
    valuesAsked (moves ++ more) = valuesAsked moves ++ valuesAsked more :=
  List.filterMap_append ..

theorem valuesAsked_of_worker {moves : List PipelineStep} (hmoves : ∀ a ∈ moves, a.IsWorker) :
    valuesAsked moves = [] := by
  refine List.filterMap_eq_nil_iff.mpr fun a ha => ?_
  have hmoved := hmoves a ha
  cases a with
  | enqueue v => cases hmoved
  | _ => rfl

end Pipeline

def PortStep.IsWorker : PortStep → Prop
  | .takeWrite | .beginWrite | .endWrite => True
  | _ => False

namespace Attended

variable {s : Attended} {x y : Port × WriteStage}

/-- The recorded port is where a port and its writer are. -/
structure Follows (s : Attended) (x : Port × WriteStage) : Prop where
  port : s.port = x.1
  inHand : s.port.InHand x.2
  calling : s.calling = true ↔ x.2 = .begun ∧ s.port.writes.current.isSome = true

theorem Follows.step (h : s.Follows x) (hstep : WriterStep x y) :
    ∃ moves : List PortStep, (∀ a ∈ moves, a.IsWorker) ∧ (s.run moves).Follows y := by
  obtain ⟨hport, hinHand, hcalling⟩ := h
  cases hstep with
  | @takes p q hopen htake =>
    obtain rfl : s.port = p := hport
    have hnone : s.writes.current = none := hinHand rfl
    have hresting : s.calling = false := by simpa using hcalling
    have htaken : s.takeWrite = { s with port := q } := by
      have hqueue : s.writes.queue.closed = false := hopen
      simp [takeWrite, hqueue, hnone, hresting, htake]
    refine ⟨[.takeWrite], by simp [PortStep.IsWorker], ?_⟩
    rw [run, List.foldl_cons, List.foldl_nil, Attended.step, htaken]
    exact ⟨rfl, Port.inHand_of_ne (by simp) _, by simp [hresting]⟩
  | begins =>
    obtain rfl := hport
    have hresting : s.calling = false := by simpa using hcalling
    refine ⟨[.beginWrite], by simp [PortStep.IsWorker], ?_⟩
    rw [run, List.foldl_cons, List.foldl_nil, Attended.step, beginWrite]
    cases hcurrent : s.writes.current with
    | none =>
      have hnone : s.port.writes.current = none := hcurrent
      exact ⟨rfl, Port.inHand_of_ne (by simp) _, by simp [hresting, hnone]⟩
    | some r =>
      have hsome : s.port.writes.current = some r := hcurrent
      simp only [hresting, Bool.false_eq_true, if_false]
      exact ⟨rfl, Port.inHand_of_ne (by simp) _, by simp [hsome]⟩
  | finishes =>
    obtain rfl := hport
    obtain ⟨hnone, -⟩ := carryOut_writes s.port
    refine ⟨[.endWrite], by simp [PortStep.IsWorker], ?_⟩
    rw [run, List.foldl_cons, List.foldl_nil, Attended.step]
    split
    · exact ⟨rfl, fun _ => hnone, by simp⟩
    · rename_i hresting
      -- a call that has not begun was one of no write
      have hempty : s.port.writes.current = none := by simpa [hresting] using hcalling
      exact ⟨(Port.carryOut_of_none hempty).symm, fun _ => hempty, by simp [hresting]⟩

/-- The device is handed values that were outstanding, in their order, and called for nothing
else. -/
structure HandsOver (s s' : Attended) (values : List Value) : Prop where
  uses : s'.uses = s.uses ++ values.map fun v => (.write v, s.port.enabled)
  outstanding : values ++ s'.outstanding = s.outstanding
  enabled : s'.port.enabled = s.port.enabled

namespace HandsOver

variable {s' s'' : Attended} {values more : List Value}

theorem of_leftover (h : Leftover s s' 0 []) (henabled : s'.port.enabled = s.port.enabled) :
    HandsOver s s' [] := ⟨h.uses, h.writes, henabled⟩

theorem trans (h : HandsOver s s' values) (h' : HandsOver s' s'' more) :
    HandsOver s s'' (values ++ more) := by
  refine ⟨?_, ?_, h'.enabled.trans h.enabled⟩
  · rw [h'.uses, h.uses, h.enabled, List.map_append, List.append_assoc]
  · rw [List.append_assoc, h'.outstanding, h.outstanding]

theorem step {a : PortStep} (ha : a.IsWorker) : ∃ values, HandsOver s (s.step a) values := by
  cases a with
  | takeWrite =>
    refine ⟨[], of_leftover (takeWrite_leftover s 0) ?_⟩
    simp only [Attended.step, takeWrite]
    split
    · rfl
    · cases htake : s.port.takeWrite with
      | none => rfl
      | some q => exact (Port.Work.takeWrite htake).setup.enabled
  | beginWrite =>
    simp only [Attended.step, beginWrite]
    cases hcurrent : s.writes.current with
    | none => exact ⟨[], of_leftover (.refl s 0) rfl⟩
    | some r =>
      dsimp only
      split
      · exact ⟨[], of_leftover (.refl s 0) rfl⟩
      · rename_i hresting
        have hport : s.port.writes.current = some r := hcurrent
        refine ⟨[r.value], rfl, ?_, rfl⟩
        simp [Attended.outstanding, writes, hresting, hport]
  | endWrite =>
    simp only [Attended.step]
    split
    · rename_i hcalling
      refine ⟨[], of_leftover (endWrite_leftover hcalling 0) ?_⟩
      rw [Port.carryOut_frame]
    · exact ⟨[], of_leftover (.refl s 0) rfl⟩
  | _ => cases ha

theorem run {moves : List PortStep} (hmoves : ∀ a ∈ moves, a.IsWorker) :
    ∃ values, HandsOver s (s.run moves) values := by
  induction moves generalizing s with
  | nil => exact ⟨[], of_leftover (.refl s 0) rfl⟩
  | cons a moves ih =>
    obtain ⟨ha, hmoves⟩ := List.forall_mem_cons.mp hmoves
    obtain ⟨values, hfirst⟩ := step (s := s) ha
    obtain ⟨more, hrest⟩ := ih (s := s.step a) hmoves
    exact ⟨values ++ more, hfirst.trans hrest⟩

end HandsOver

end Attended

/-! ### Runs -/

namespace Node

open Port

variable {n : Node} {key : PortKey} {p : Port} {op : Operation}

/-- A writer runs or time passes. -/
def Operation.IsDrain : Operation → Prop
  | .run (.writer _) | .elapse _ => True
  | _ => False

/-- Nothing but steps of its writer is done to a port, no ticket is taken and no service starts. -/
structure AfterWriter (n : Node) (key : PortKey) (p : Port) (m : Node) : Prop where
  services : m.services = []
  nextTicket : m.nextTicket = n.nextTicket
  steps : ∃ q, m.portOf? key = some q ∧
    ReflTransGen WriterStep (p, n.writeStage key) (q, m.writeStage key)

theorem AfterWriter.trans {m k : Node} (h : AfterWriter n key p m)
    (hnext : ∀ q, m.portOf? key = some q → AfterWriter m key q k) : AfterWriter n key p k := by
  obtain ⟨q, hq, hsteps⟩ := h.steps
  obtain ⟨hs, hticket, r, hr, hmore⟩ := hnext q hq
  exact ⟨hs, hticket.trans h.nextTicket, r, hr, hsteps.trans hmore⟩

theorem pollWriter_afterWriter (hs : n.services = []) (hp : n.portOf? key = some p)
    (other : PortKey) : AfterWriter n key p (n.pollWriter other).2 := by
  cases hother : n.portOf? other with
  | none =>
    have hne : key ≠ other := by
      rintro rfl
      cases hp.symm.trans hother
    rw [pollWriter_of_none hother]
    refine ⟨hs, rfl, p, hp, ?_⟩
    rw [writeStage, writeStage, Node.endTask, Agenda.waitOf?_endTask_of_ne (by simpa using hne)]
  | some r =>
    obtain ⟨q, v, hq, hsteps⟩ := pollWriter_steps hs hother
    by_cases hkey : key = other
    · subst hkey
      obtain rfl : p = r := Option.some.inj (hp.symm.trans hother)
      exact ⟨hq.services, hq.nextTicket, q, hq.port, hsteps⟩
    · refine ⟨hq.services, hq.nextTicket, p, (hq.ports key hkey).trans hp, ?_⟩
      rw [writeStage, writeStage, hq.waits key hkey]

theorem perform_afterWriter (hs : n.services = []) (hp : n.portOf? key = some p)
    (hop : op.IsDrain) : AfterWriter n key p (n.perform op) := by
  cases op with
  | elapse time =>
    refine ⟨hs, rfl, p, hp, ?_⟩
    have hstage : (n.perform (.elapse time)).writeStage key = n.writeStage key :=
      writeStage_congr (n.agenda.moveTo_tasks time).1 key
    rw [hstage]
  | run t =>
    cases t with
    | writer other =>
      change AfterWriter _ _ _ (n.runReadyTask (.writer other))
      unfold runReadyTask
      split
      · obtain ⟨hservices, hticket, hsteps⟩ := pollWriter_afterWriter (n := { n with agenda :=
          { n.agenda with ready := n.agenda.ready.erase (.writer other) } }) hs hp other
        exact turn_induction (motive := AfterWriter n key p) ⟨hservices, hticket, hsteps⟩
          fun m ready hm => ⟨hm.services, hm.nextTicket, hm.steps⟩
      · exact ⟨hs, rfl, p, hp, .refl⟩
    | _ => cases hop
  | _ => cases hop

theorem after_drain {drain : List Operation} (hdrain : ∀ op ∈ drain, op.IsDrain)
    (hs : n.services = []) (hp : n.portOf? key = some p) : AfterWriter n key p (n.after drain) := by
  induction drain generalizing n p with
  | nil => exact ⟨hs, rfl, p, hp, .refl⟩
  | cons op drain ih =>
    obtain ⟨hop, hdrain⟩ := List.forall_mem_cons.mp hdrain
    have hfirst := perform_afterWriter hs hp hop
    exact hfirst.trans fun q hq => ih hdrain hfirst.services hq

/-- A caller asks for a write of the port, a writer runs or time passes. -/
inductive Operation.IsTraffic (key : PortKey) : Operation → Prop
  | drain {op : Operation} (h : op.IsDrain) : IsTraffic key op
  | request (v : Value) : IsTraffic key (.enqueueValue key v)

def Operation.requested? : Operation → Option Value
  | .enqueueValue _ v => some v
  | _ => none

theorem Operation.IsDrain.requested?_eq_none (h : op.IsDrain) : op.requested? = none := by
  cases op with
  | enqueueValue => cases h
  | _ => rfl

theorem withTicket_port {f : Ticket → Except PortError (List Signal) × Port}
    (hp : n.portOf? key = some p) (hkey : (f n.nextTicket).2.key = key) :
    (n.withTicket f).2.portOf? key = some (f n.nextTicket).2 ∧
      (n.withTicket f).2.nextTicket = n.nextTicket + 1 := by
  have hself (m : Node) (hm : m.portOf? key = some p) :
      (m.putPort (f n.nextTicket).2).portOf? key = some (f n.nextTicket).2 :=
    hkey ▸ portOf?_putPort_self (hkey.symm ▸ hm)
  have hput := hself { n with nextTicket := n.nextTicket + 1 } hp
  simp only [withTicket]
  split
  · rename_i e q hq
    rw [hq] at hput ⊢
    exact ⟨hput, by rw [putPort_frame]⟩
  · rename_i signals q hq
    rw [hq] at hput ⊢
    obtain ⟨hframe, -⟩ :=
      emitAll_frame ({ n with nextTicket := n.nextTicket + 1 }.putPort q) q.key signals
    dsimp only at hput ⊢
    rw [hframe]
    exact ⟨hput, by rw [putPort_frame]⟩

/-- A request at a node is a request of the pipeline, if both have handed out as many tickets. -/
theorem enqueueValue_pipeline {s : Pipeline} (hp : n.portOf? key = some s.port)
    (hticket : n.nextTicket = s.asked.length) (v : Value) :
    (n.perform (.enqueueValue key v)).portOf? key = some (s.enqueue v).port ∧
      (n.perform (.enqueueValue key v)).nextTicket = n.nextTicket + 1 := by
  have hperform : n.perform (.enqueueValue key v) =
      (n.withTicket fun t => s.port.enqueueWrite v t).2 := by
    rw [perform, withPort, hp]
    rfl
  have hport : (s.enqueue v).port = (s.port.enqueueWrite v n.nextTicket).2 := by
    rw [hticket, Pipeline.enqueue, Pipeline.request]
    split <;> rename_i hqueued <;> rw [hqueued]
  rw [hperform, hport]
  exact withTicket_port hp
    ((Handling.enqueueWrite v n.nextTicket).key.trans (key_of_portOf? hp))

/-- Requests for the given values and moves of the worker bring a pipeline to where a node has its
port. -/
structure RunsTo (s : Pipeline) (values : List Value) (n : Node) (key : PortKey)
    (moves : List PipelineStep) : Prop where
  unstopped : ∀ a ∈ moves, a ≠ .stop ∧ a ≠ .clear
  values : Pipeline.valuesAsked moves = values
  port : n.portOf? key = some (moves.foldl Pipeline.step s).port
  tickets : n.nextTicket = (moves.foldl Pipeline.step s).asked.length

section Histories

variable (config : NodeConfig) (backend : Backend) (wall : Int) (zone : Zone)
  (ops : List Operation) {drain : List Operation} (hdrain : ∀ op ∈ drain, op.IsDrain)

include hdrain

theorem exists_writerSteps
    (hp : ((create config backend wall zone).after ops).portOf? key = some p) :
    ∃ q stage, ((create config backend wall zone).after (ops ++ drain)).portOf? key = some q ∧
      ReflTransGen WriterStep (p, ((create config backend wall zone).after ops).writeStage key)
        (q, stage) := by
  have hs := (after_sound (sound_create config backend wall zone) ops).services
  obtain ⟨q, hq, hsteps⟩ := (after_drain hdrain hs hp).steps
  rw [after_append]
  exact ⟨q, _, hq, hsteps⟩

/-- Whatever has happened before, runs of writers are moves of the worker of a pipeline. -/
theorem after_pipeline {s : Pipeline}
    (hp : ((create config backend wall zone).after ops).portOf? key = some s.port) :
    ∃ moves : List PipelineStep, (∀ a ∈ moves, a.IsWorker) ∧
      ((create config backend wall zone).after (ops ++ drain)).portOf? key =
        some (moves.foldl Pipeline.step s).port := by
  obtain ⟨q, stage, hq, hsteps⟩ := exists_writerSteps config backend wall zone ops hdrain hp
  have hfollows : s.Follows (s.port, _) :=
    ⟨rfl, fun hidle => current_of_idle config backend wall zone ops hp hidle⟩
  obtain ⟨moves, hmoves, hend⟩ := exists_moves_of_steps Pipeline.Follows.step hfollows hsteps
  exact ⟨moves, hmoves, hend.port ▸ hq⟩

/-- The device is called by the writer of a node where the recorded calls say so. -/
theorem after_attended {s : Attended}
    (hp : ((create config backend wall zone).after ops).portOf? key = some s.port)
    (hcalling : s.calling = true ↔
      ((create config backend wall zone).after ops).writeStage key = .begun ∧
        s.port.writes.current.isSome = true) :
    ∃ moves : List PortStep, (∀ a ∈ moves, a.IsWorker) ∧
      ((create config backend wall zone).after (ops ++ drain)).portOf? key =
        some (s.run moves).port := by
  obtain ⟨q, stage, hq, hsteps⟩ := exists_writerSteps config backend wall zone ops hdrain hp
  have hfollows : s.Follows (s.port, _) :=
    ⟨rfl, fun hidle => current_of_idle config backend wall zone ops hp hidle, hcalling⟩
  obtain ⟨moves, hmoves, hend⟩ := exists_moves_of_steps Attended.Follows.step hfollows hsteps
  exact ⟨moves, hmoves, hend.port ▸ hq⟩

/-- Whatever has happened before, runs of writers hand the device of a port, enabled or not, writes
that were outstanding, in their order, and call it for nothing else. -/
theorem after_handsOver {s : Attended}
    (hp : ((create config backend wall zone).after ops).portOf? key = some s.port)
    (hcalling : s.calling = true ↔
      ((create config backend wall zone).after ops).writeStage key = .begun ∧
        s.port.writes.current.isSome = true) :
    ∃ s' values, s.HandsOver s' values ∧
      ((create config backend wall zone).after (ops ++ drain)).portOf? key = some s'.port := by
  obtain ⟨moves, hmoves, hport⟩ := after_attended config backend wall zone ops hdrain hp hcalling
  obtain ⟨values, hhands⟩ := Attended.HandsOver.run (s := s) hmoves
  exact ⟨s.run moves, values, hhands, hport⟩

end Histories

section Traffic

variable (config : NodeConfig) (backend : Backend) (wall : Int) (zone : Zone)
  (ops : List Operation) {traffic : List Operation} {s : Pipeline} {d : Device}

/-- Requests and runs of writers, in any order, are a run of the pipeline in which nothing is
stopped, if all tickets so far are those of its ledger. -/
theorem exists_runsTo (htraffic : ∀ op ∈ traffic, op.IsTraffic key) (h : Pipeline.Accounted d s)
    (hp : ((create config backend wall zone).after ops).portOf? key = some s.port)
    (hticket : ((create config backend wall zone).after ops).nextTicket = s.asked.length) :
    ∃ moves, RunsTo s (traffic.filterMap Operation.requested?)
      ((create config backend wall zone).after (ops ++ traffic)) key moves := by
  induction traffic using List.reverseRecOn with
  | nil => exact ⟨[], by simp, rfl, by rwa [List.append_nil], by rwa [List.append_nil]⟩
  | append_singleton traffic op ih =>
    obtain ⟨hbefore, hop⟩ := List.forall_mem_append.mp htraffic
    obtain ⟨moves, hmoves⟩ := ih hbefore
    have hlast : op.IsTraffic key := hop op (List.mem_singleton_self op)
    rw [← List.append_assoc, List.filterMap_append]
    cases hlast with
    | drain hdrain =>
      have hall : ∀ o ∈ [op], o.IsDrain := by simpa using hdrain
      have hs := (after_sound (sound_create config backend wall zone) (ops ++ traffic)).services
      obtain ⟨more, hworker, hend⟩ :=
        after_pipeline config backend wall zone (ops ++ traffic) hall hmoves.port
      have hnone : [op].filterMap Operation.requested? = [] := by
        simp [hdrain.requested?_eq_none]
      refine ⟨moves ++ more, ?_, ?_, ?_, ?_⟩
      · refine List.forall_mem_append.mpr ⟨hmoves.unstopped, fun a ha => ?_⟩
        have hmoved := hworker a ha
        exact ⟨by rintro rfl; exact hmoved, by rintro rfl; exact hmoved⟩
      · rw [Pipeline.valuesAsked_append, hmoves.values, Pipeline.valuesAsked_of_worker hworker,
          hnone]
      · rwa [List.foldl_append]
      · rw [List.foldl_append, Pipeline.asked_of_worker hworker, ← hmoves.tickets, after_append]
        exact (after_drain hall hs hmoves.port).nextTicket
    | request v =>
      obtain ⟨hend, hnext⟩ := enqueueValue_pipeline hmoves.port hmoves.tickets v
      refine ⟨moves ++ [.enqueue v], ?_, ?_, ?_, ?_⟩
      · exact List.forall_mem_append.mpr ⟨hmoves.unstopped, by simp⟩
      · rw [Pipeline.valuesAsked_append, hmoves.values]
        rfl
      · rw [after_append, List.foldl_append]
        exact hend
      · rw [after_append, List.foldl_append]
        refine hnext.trans ?_
        change _ = ((moves.foldl Pipeline.step s).enqueue v).asked.length
        rw [Pipeline.enqueue_eq (h.moves moves), List.length_append, ← hmoves.tickets]
        rfl

/-- The first requests at a node, for writes of a port that is on, and runs of writers are a run of
the pipeline, and the ledger says what has come of each request. -/
theorem after_requests {capacity : Nat} (htraffic : ∀ op ∈ traffic, op.IsTraffic key)
    (hp : ((create config backend wall zone).after ops).portOf? key = some p)
    (henabled : p.enabled = true) (hwritable : p.writable = true)
    (hempty : p.writes = .create capacity)
    (hfirst : ((create config backend wall zone).after ops).nextTicket = 0) :
    ∃ moves, RunsTo { port := p } (traffic.filterMap Operation.requested?)
        ((create config backend wall zone).after (ops ++ traffic)) key moves ∧
      Pipeline.Accounted p.device (Pipeline.run p moves) := by
  have hstart := Pipeline.accounted_start p capacity henabled hwritable hempty
  obtain ⟨moves, hmoves⟩ := exists_runsTo config backend wall zone ops htraffic hstart hp hfirst
  exact ⟨moves, hmoves, Pipeline.accounted_run henabled hwritable hempty moves⟩

end Traffic

end Node

end ControlNode
