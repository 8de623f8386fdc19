import ControlNode.Proofs.Node.Sound

/-!
# Histories

What can be done to a node, one operation after another, each run to its end, with runs of
tasks in between in any order. Whatever the history, the expressions of the registered ports
refer to each other in no circle (`after_noCircle`).
-/

namespace ControlNode

/-- A change at the far end of a port: the value that is read from then on and what fails. -/
def Device.change (d : Device) (value : Option Value) (failReads : Bool)
    (failures : List (DeviceCall × PortError)) : Device :=
  match d with
  | .memory m => .memory { m with value := value, failReads := failReads }
  | .scripted s => .scripted { s with value := value, failures := failures }
  | d => d

namespace Node

/-! ### Operations -/

/-- An operation of a caller, a run of a task, or a change in the world. Ports that callers hold
on to may have been removed. -/
inductive Operation where
  | load (configs : List PortConfig) (mappings : Dict String String)
  | add (id : String) (device : Device)
  | addVirtual (d : VirtualPortDef)
  | remove (id : String) (purged : Bool)
  | cleanup
  | setAttr (id name : String) (value : Json)
  | loadAttrs (id : String) (r : Record)
  | getAttr (port : PortKey) (name : String)
  | attrs (port : PortKey)
  | update (now : Int)
  | forceEval (id : String)
  | forceEvalAll
  | pauseAsap (limit : Int)
  | save (force : Bool)
  | setValue (port : PortKey) (v : Value)
  | writeValue (port : PortKey) (v : Value)
  | enqueueValue (port : PortKey) (v : Value)
  | await (t : Ticket)
  | readValue (port : PortKey)
  | setSequence (port : PortKey) (s : Option Sequence)
  /-- A task that can run does so until it goes on by itself or waits. -/
  | run (t : TaskId)
  /-- The clock reaches a time. -/
  | elapse (time : Nat)
  | wall (time : Int)
  | device (port : PortKey) (value : Option Value) (failReads : Bool)
      (failures : List (DeviceCall × PortError))
  | storage (b : Backend)

/-- Runs a task that can run; one that goes on by itself can run again. -/
def runReadyTask (n : Node) (t : TaskId) : Node :=
  if t ∈ n.agenda.ready then
    match { n with agenda := { n.agenda with ready := n.agenda.ready.erase t } }.runTask t with
    | (.waits, n) => n
    | (.again, n) => { n with agenda := { n.agenda with ready := t :: n.agenda.ready } }
  else n

def withPort (n : Node) (key : PortKey) (f : Port → Node) : Node :=
  match n.portOf? key with
  | none => n
  | some p => f p

/-- Restores attributes of a registered port. -/
def reloadAttrs (n : Node) (id : String) (r : Record) : Node :=
  match n.port? id with
  | none => n
  | some p => (n.loadAttrs p r).2.putPort (n.loadAttrs p r).1

def perform (n : Node) : Operation → Node
  | .load configs mappings => (n.load configs mappings).2
  | .add id device => (n.add id device).2
  | .addVirtual d => (n.addVirtual d).2
  | .remove id purged => (n.remove id purged).2
  | .cleanup => n.cleanup
  | .setAttr id name value => (n.setAttr id name value).2
  | .loadAttrs id r => n.reloadAttrs id r
  | .getAttr key name => n.withPort key fun p => n.putPort (p.getAttr name).2
  | .attrs key => n.withPort key fun p => n.putPort p.attrsJson.2
  | .update now => n.update now
  | .forceEval id => n.forceEval id
  | .forceEvalAll => { n with forceAll := true }
  | .pauseAsap limit => { n with asapPausedUntil := limit }
  | .save force => (n.savePorts force awaitStorage).2
  | .setValue key v => n.withPort key fun p => (n.setValue p v).2
  | .writeValue key v => n.withPort key fun p => (n.writeValue p v).2
  | .enqueueValue key v => n.withPort key fun p => (n.enqueueValue p v).2
  | .await t => (n.awaitResult t).2
  | .readValue key => (n.readValue key).2
  | .setSequence key s => n.withPort key fun p => (n.setSequence p s).2
  | .run t => n.runReadyTask t
  | .elapse time => { n with agenda := n.agenda.moveTo time }
  | .wall time => { n with wall := time }
  | .device key value failReads failures => n.withPort key fun p =>
    n.putPort { p with device := p.device.change value failReads failures }
  | .storage b => { n with backend := b }

def after (n : Node) (ops : List Operation) : Node := ops.foldl perform n

theorem after_append (n : Node) (ops ops' : List Operation) :
    n.after (ops ++ ops') = (n.after ops).after ops' := List.foldl_append ..

/-! ### Calls on ports -/

open Relation Port

variable {n m : Node}

theorem withPort_induction {motive : Node → Prop} {key : PortKey} {f : Port → Node}
    (hnone : motive n) (hsome : ∀ p, n.portOf? key = some p → motive (f p)) :
    motive (n.withPort key f) := by
  unfold withPort
  split
  · exact hnone
  · rename_i p hp
    exact hsome p hp

theorem withPort_proceeds {key : PortKey} {f : Port → Node}
    (h : ∀ p, n.portOf? key = some p → Proceeds n (f p)) : Proceeds n (n.withPort key f) :=
  withPort_induction (.refl n) h

/-- The port is put into its place, and its workers are told. -/
theorem withTicket_signals (f : Ticket → Except PortError (List Signal) × Port) :
    Worked ({ n with nextTicket := n.nextTicket + 1 }.putPort (f n.nextTicket).2)
      (n.withTicket f).2 := by
  simp only [withTicket]
  split
  · rename_i e q hq
    rw [hq]
    exact .refl _
  · rename_i signals q hq
    rw [hq]
    exact emitAll_worked q.key signals

theorem withTicket_services (f : Ticket → Except PortError (List Signal) × Port) :
    (n.withTicket f).2.services = n.services := by
  rw [(withTicket_signals f).moved.services, putPort_frame]

theorem withTicket_proceeds {key : PortKey} {p : Port} (hp : n.portOf? key = some p)
    {f : Ticket → Except PortError (List Signal) × Port} (hf : ∀ t, Continues p (f t).2) :
    Proceeds n (n.withTicket f).2 := by
  have hcount : Proceeds n { n with nextTicket := n.nextTicket + 1 } :=
    (Proceeds.refl n).beside rfl rfl
  exact (hcount.trans (.putPort hp (hf _))).trans (withTicket_signals f).moved.proceeds

theorem awaitResult_moved (hs : n.services = []) (t : Ticket) : Moved n (n.awaitResult t).2 :=
  (waitFor_worked hs _).moved.beside rfl rfl rfl

theorem writeValue_moved (hs : n.services = []) (p : Port) (v : Value) :
    Moved (n.withTicket fun t => p.submit v t n.wall).2 (n.writeValue p v).2 := by
  have hserv : (n.withTicket fun t => p.submit v t n.wall).2.services = [] :=
    (withTicket_services _).trans hs
  unfold writeValue
  split
  · rename_i e k hk
    rw [hk]
    exact .refl k
  · rename_i t k hk
    rw [hk] at hserv ⊢
    exact awaitResult_moved hserv t

theorem writeValue_proceeds (hs : n.services = []) {key : PortKey} {p : Port}
    (hp : n.portOf? key = some p) (v : Value) : Proceeds n (n.writeValue p v).2 := by
  have hsubmit := withTicket_proceeds hp (f := fun t => p.submit v t n.wall) fun t =>
    ⟨submit_setup .., fun h => by
      rw [submit_frame]
      exact h.of_evals rfl rfl (submit_closed ..)⟩
  exact hsubmit.trans (writeValue_moved hs p v).proceeds

theorem setValue_proceeds (hs : n.services = []) {key : PortKey} {p : Port}
    (hp : n.portOf? key = some p) (v : Value) : Proceeds n (n.setValue p v).2 := by
  unfold setValue
  split
  · exact .refl n
  · exact writeValue_proceeds hs hp v

theorem enqueueWrite_continues (p : Port) (v : Value) (t : Ticket) :
    Continues p (p.enqueueWrite v t).2 := by
  have hclosed := enqueueWrite_closed p v t
  revert hclosed
  unfold enqueueWrite
  split
  · exact fun _ => .refl p
  · intro hclosed
    exact ⟨⟨rfl, rfl, rfl, rfl, rfl, rfl, rfl, rfl, rfl⟩, fun h => h.of_evals rfl rfl hclosed⟩

theorem setSequence_continues (p : Port) (s : Option Sequence) :
    Continues p (p.setSequence s).2 := by
  have hchanged (r : Option RunningSequence) (next : Nat) :
      Continues p { p with sequence := r, nextSequence := next } :=
    ⟨⟨rfl, rfl, rfl, rfl, rfl, rfl, rfl, rfl, rfl⟩, fun h => h.of_evals rfl rfl rfl⟩
  unfold Port.setSequence
  dsimp only
  split
  · exact hchanged ..
  · split
    · exact hchanged ..
    · split
      · exact hchanged ..
      · exact hchanged ..

theorem setSequence_proceeds {key : PortKey} {p : Port} (hp : n.portOf? key = some p)
    (s : Option Sequence) : Proceeds n (n.setSequence p s).2 := by
  have hput : Proceeds n (n.putPort (p.setSequence s).2) :=
    .putPort hp (setSequence_continues p s)
  unfold Node.setSequence
  dsimp only
  split
  · exact hput.beside rfl rfl
  · exact hput

theorem readValue_moved (hs : n.services = []) (key : PortKey) :
    Moved n (n.readValue key).2 := by
  have hask : Moved n { n with agenda := (n.agenda.acquire (.device key) .caller).2 } :=
    (Moved.refl n).beside rfl rfl rfl
  have hwait := hask.trans (waitFor_worked (hask.services.trans hs) fun n =>
    n.agenda.locks.any fun l => l.resource = .device key && l.holder = .caller).moved
  exact (hwait.trans (readPort_tended key).moved).beside rfl rfl rfl

theorem change_continues (p : Port) (value : Option Value) (failReads : Bool)
    (failures : List (DeviceCall × PortError)) :
    Continues p { p with device := p.device.change value failReads failures } := by
  have htype : (p.device.change value failReads failures).type = p.device.type := by
    cases p.device <;> rfl
  have hwritable : (p.device.change value failReads failures).writable = p.device.writable := by
    cases p.device <;> rfl
  exact ⟨⟨rfl, rfl, rfl, rfl, rfl, rfl, rfl, htype, hwritable⟩, fun h => h.of_evals rfl rfl rfl⟩

theorem runReadyTask_worked (hs : n.services = []) (t : TaskId) : Worked n (n.runReadyTask t) := by
  unfold runReadyTask
  split
  · have hrest : Worked n { n with
        agenda := { n.agenda with ready := n.agenda.ready.erase t } } :=
      (Worked.refl n).beside rfl rfl rfl
    exact turn_induction (motive := Worked n)
      (hrest.trans (runTask_worked (hrest.services.trans hs) t))
      fun m ready hm => hm.beside rfl rfl rfl
  · exact .refl n

/-! ### Soundness of histories -/

theorem reloadAttrs_sound (h : Sound n) (id : String) (r : Record) :
    Sound (n.reloadAttrs id r) := by
  unfold reloadAttrs
  split
  · exact h
  · rename_i p hp
    have hid := h.filed.ids id p hp
    obtain ⟨hfits, hkey⟩ := loadAttrs_fits (h.fits id p hp) r
    obtain ⟨-, hload⟩ := loadAttrs_proceeds (h.fits id p hp) r
    have hport : (n.loadAttrs p r).2.port? p.id = some p := by
      rw [hid, ← hp]
      unfold Node.loadAttrs
      dsimp only
      split
      · rw [forceEval_frame]
        rfl
      · rfl
    exact (h.proceeds hload).putPort hport (h.fits_later hload hfits) hkey

theorem perform_sound (h : Sound n) (op : Operation) : Sound (n.perform op) := by
  have hs := h.services
  have hbeside {m : Node} (hports : m.ports = n.ports) (hserv : m.services = n.services) :
      Sound m := h.proceeds ((Proceeds.refl n).beside hports hserv)
  cases op with
  | load configs mappings => exact load_sound h configs mappings
  | add id device => exact add_sound h id device false []
  | addVirtual d => exact addVirtual_sound h d
  | remove id purged => exact remove_sound h id purged
  | cleanup => exact cleanup_sound h
  | setAttr id name value => exact setAttr_sound h id name value
  | loadAttrs id r => exact reloadAttrs_sound h id r
  | getAttr key name =>
    exact h.proceeds (withPort_proceeds fun p hp =>
      .putPort hp (p.getAttr_upkeep name).continues)
  | attrs key =>
    exact h.proceeds (withPort_proceeds fun p hp => .putPort hp p.attrsJson_upkeep.continues)
  | update now => exact h.proceeds (update_proceeds h now)
  | forceEval id => exact h.proceeds (forceEval_proceeds n id)
  | forceEvalAll => exact hbeside rfl rfl
  | pauseAsap limit => exact hbeside rfl rfl
  | save force => exact h.proceeds (savePortList_moved hs force _).proceeds
  | setValue key v => exact h.proceeds (withPort_proceeds fun p hp => setValue_proceeds hs hp v)
  | writeValue key v =>
    exact h.proceeds (withPort_proceeds fun p hp => writeValue_proceeds hs hp v)
  | enqueueValue key v =>
    exact h.proceeds (withPort_proceeds fun p hp =>
      withTicket_proceeds hp fun t => enqueueWrite_continues p v t)
  | await t => exact h.proceeds (awaitResult_moved hs t).proceeds
  | readValue key => exact h.proceeds (readValue_moved hs key).proceeds
  | setSequence key s =>
    exact h.proceeds (withPort_proceeds fun p hp => setSequence_proceeds hp s)
  | run t => exact h.proceeds (runReadyTask_worked hs t).moved.proceeds
  | elapse time => exact hbeside rfl rfl
  | wall time => exact hbeside rfl rfl
  | device key value failReads failures =>
    exact h.proceeds (withPort_proceeds fun p hp =>
      .putPort hp (change_continues p value failReads failures))
  | storage b => exact hbeside rfl rfl

theorem after_sound (h : Sound n) (ops : List Operation) : Sound (n.after ops) := by
  induction ops generalizing n with
  | nil => exact h
  | cons op ops ih => exact ih (perform_sound h op)

/-! ### No circular references -/

/-- A registered port that has an expression leads to the ports that it depends on. -/
def LeadsTo (n : Node) (p q : String) : Prop :=
  ∃ port e, n.port? p = some port ∧ port.expression = some e ∧ .port q ∈ port.expressionDeps

theorem leadsTo_eq_refers (hf : Filed n) : n.LeadsTo = n.graph.Refers := by
  funext p q
  apply propext
  constructor
  · rintro ⟨port, e, hport, he, hq⟩
    refine ⟨port.expressionDeps, ?_, hq⟩
    rw [graph_get? hf.sorted, hport]
    simp [deps?, he]
  · rintro ⟨deps, hdeps, hq⟩
    rw [graph_get? hf.sorted] at hdeps
    obtain ⟨port, hport, hd⟩ := Option.bind_eq_some_iff.mp hdeps
    cases he : port.expression with
    | none => simp [deps?, he] at hd
    | some e =>
      have heq : port.expressionDeps = deps := by simpa [deps?, he] using hd
      exact ⟨port, e, hport, he, heq ▸ hq⟩

/-- The registered ports lead to each other in no circle of several ports. -/
def NoCircle (n : Node) : Prop :=
  ∀ p q, TransGen n.LeadsTo p q → TransGen n.LeadsTo q p → p = q

theorem Sound.noCircle (h : Sound n) : n.NoCircle := by
  intro p q
  rw [leadsTo_eq_refers h.filed]
  exact h.acyclic p q

/-- Whatever is done to a node, its expressions never refer to each other in a circle. -/
theorem after_noCircle (config : NodeConfig) (backend : Backend) (wall : Int) (zone : Zone)
    (ops : List Operation) : ((create config backend wall zone).after ops).NoCircle :=
  (after_sound (sound_create config backend wall zone) ops).noCircle

end Node

end ControlNode
