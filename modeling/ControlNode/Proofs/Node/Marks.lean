import ControlNode.Proofs.Node.Backends
import ControlNode.Proofs.Node.Histories
import ControlNode.Proofs.Port.Marking
import ControlNode.Proofs.Store.StoredRecords

/-!
# Marks of changed ports

Ticks, tasks, calls and changes of attributes store no record, and they mark each port whose
record they change (`Marks`).
-/

namespace ControlNode.Node

open Relation Port

variable {n m k : Node}

/-- No record has been stored; the ports that are there still are, marked where their records
have changed. -/
structure Marks (n m : Node) : Prop where
  ports : PortsRel Marking n m
  services : m.services = n.services
  nextSerial : m.nextSerial = n.nextSerial
  records : m.backend.collection portsCollection = n.backend.collection portsCollection

namespace Marks

theorem refl (n : Node) : Marks n n := ⟨.refl .refl n, rfl, rfl, rfl⟩

theorem trans (h : Marks n m) (h' : Marks m k) : Marks n k :=
  ⟨h.ports.trans (T := Marking) (fun _ _ _ hpq hqr => hpq.trans hqr) h'.ports,
    h'.services.trans h.services,
    h'.nextSerial.trans h.nextSerial, h'.records.trans h.records⟩

/-- What is neither a port nor a stored record may change by itself. -/
theorem beside {m' : Node} (h : Marks n m) (hports : m'.ports = m.ports)
    (hgone : m'.gone = m.gone) (hserv : m'.services = m.services)
    (hserial : m'.nextSerial = m.nextSerial)
    (hrecords : m'.backend.collection portsCollection = m.backend.collection portsCollection) :
    Marks n m' :=
  ⟨h.ports.congr hports hgone, hserv.trans h.services, hserial.trans h.nextSerial,
    hrecords.trans h.records⟩

theorem putPort {key : PortKey} {p q : Port} (hp : n.portOf? key = some p)
    (h : Marking p q) : Marks n (n.putPort q) := by
  have hkey : q.key = key := h.key.trans (key_of_portOf? hp)
  have hports : PortsRel Marking n (n.putPort q) := by
    refine .putPort (fun r _ => .refl r) ?_
    intro r hr
    rw [hkey, hp] at hr
    cases hr
    exact h
  refine ⟨hports, ?_, ?_, by rw [putPort_backend]⟩
  · rw [putPort_frame]
  · rw [putPort_frame]

/-- The workers of ports neither store anything nor change what is stored. -/
theorem of_worked (h : Worked n m) (hb : m.backend = n.backend) : Marks n m := by
  refine ⟨h.ports.mono ?_, h.services, by rw [h.rest], by rw [hb]⟩
  intro p q hpq
  induction hpq with
  | refl => exact .refl p
  | tail _ hstep ih => exact ih.trans hstep.marking

end Marks

theorem foldl_marks {α : Type} {f : Node → α → Node} (hs : n.services = [])
    (hf : ∀ m a, m.services = [] → Marks m (f m a)) (as : List α) : Marks n (as.foldl f n) := by
  induction as generalizing n with
  | nil => exact .refl n
  | cons a as ih =>
    have hstep := hf n a hs
    exact hstep.trans (ih (hstep.services.trans hs))

/-! ### Waiting and announcements -/

theorem awaitStorage_marks (hs : n.services = []) : Marks n n.awaitStorage :=
  .of_worked (awaitStorage_worked hs) (awaitStorage_backend hs)

theorem waitFor_marks (hs : n.services = []) (done : Node → Bool) : Marks n (n.waitFor done) :=
  .of_worked (waitFor_worked hs done) (waitFor_backend hs done)

theorem emitAll_marks (n : Node) (key : PortKey) (signals : List Signal) :
    Marks n (n.emitAll key signals) :=
  .of_worked (emitAll_worked key signals) (emitAll_backend n key signals)

theorem runReadyTask_backend (hs : n.services = []) (t : TaskId) :
    (n.runReadyTask t).backend = n.backend := by
  unfold runReadyTask
  split
  · exact turn_induction (motive := fun m => m.backend = n.backend)
      (runTask_backend
        (n := { n with agenda := { n.agenda with ready := n.agenda.ready.erase t } }) hs t)
      fun _ _ hm => hm
  · rfl

theorem runReadyTask_marks (hs : n.services = []) (t : TaskId) : Marks n (n.runReadyTask t) :=
  .of_worked (runReadyTask_worked hs t) (runReadyTask_backend hs t)

theorem forceEval_marks (n : Node) (id : String) : Marks n (n.forceEval id) := by
  rw [forceEval_frame]
  exact (Marks.refl n).beside rfl rfl rfl rfl rfl

theorem publish_marks (hs : n.services = []) (e : Event) : Marks n (n.publish e) := by
  rw [publish_eq hs]
  exact (Marks.refl n).beside rfl rfl rfl rfl rfl

theorem access_marks {α : Type} (n : Node) (writes : Bool) {o : Backend.Outcome α}
    (h : o.2.collection portsCollection = n.backend.collection portsCollection) :
    Marks n (n.access writes o).2 :=
  (Marks.refl n).beside rfl rfl rfl rfl h

/-! ### Samples and seconds -/

theorem pruneHistory_marks (n : Node) (p : Port) (now : Int) : Marks n (n.pruneHistory p now) := by
  unfold pruneHistory
  split
  · have hrecords := n.backend.collection_removeSamples historyCollection (some [p.id])
      { stop := some (pruneLimit now p.historyRetention) }
    exact access_marks n _ (congrFun hrecords portsCollection)
  · exact .refl n

theorem saveHistory_marks (n : Node) (key : PortKey) (v : Value) (now : Int) :
    Marks n (n.saveHistory key v now) := by
  unfold saveHistory
  split
  · exact .refl n
  · rename_i p hp
    split
    · have hstored := access_marks n true
        (o := n.backend.saveSample historyCollection p.id ⟨now, v.toJson⟩)
        (by rw [Backend.collection_saveSample])
      dsimp only
      split
      · exact hstored
      · have hnoted (m : Node) (hm : m.portOf? key = some p) :
            Marks m (m.putPort { p with historyLast := now, dirty := true }) :=
          .putPort hm (.of_dirty rfl rfl)
        exact (hstored.trans (hnoted _ hp)).trans (pruneHistory_marks ..)
    · exact .refl n

theorem sampleIfDue_marks (now : Int) (n : Node) (key : PortKey) :
    Marks n (sampleIfDue now n key) := by
  unfold sampleIfDue
  repeat' split
  all_goals first | exact saveHistory_marks .. | exact .refl n

theorem beat_marks (n : Node) (key : PortKey) : Marks n (n.beat key) := by
  unfold beat
  split
  · exact .refl n
  · rename_i p hp
    exact .putPort hp (p.device_marking p.device.beat_sameAttrs)

theorem openTick_marks (hs : n.services = []) (now : Int) : Marks n (n.openTick now) := by
  have hnoted (second : Int) :
      Marks n { n with tick := some (n.firstTick now), lastSecond := second } :=
    (Marks.refl n).beside rfl rfl rfl rfl rfl
  unfold openTick
  dsimp only
  split
  · have hstart := hnoted (secondOf now)
    have hbeats := hstart.trans (foldl_marks (hstart.services.trans hs)
      (fun m key _ => beat_marks m key) n.enabledKeys)
    exact hbeats.trans (foldl_marks (hbeats.services.trans hs)
      (fun m key _ => sampleIfDue_marks now m key) n.enabledKeys)
  · exact hnoted n.lastSecond

/-! ### Reads -/

theorem planReads_marks (hs : n.services = []) : Marks n n.planReads := by
  unfold planReads
  split
  · exact .refl n
  · refine (foldl_marks hs (fun m key _ => ?_) _).beside rfl rfl rfl rfl rfl
    split
    · exact .refl m
    · rename_i p hp
      exact .putPort hp (.of_frame rfl)

theorem readPort_marks (n : Node) (key : PortKey) : Marks n (n.readPort key).2 := by
  unfold readPort
  split
  · exact .refl n
  · rename_i p hp
    exact .putPort hp (p.readValue_marking n.wall)

theorem tryRead_marks (n : Node) (who : Party) (key : PortKey) : Marks n (n.tryRead who key).2 := by
  unfold tryRead
  split
  · exact (Marks.refl n).beside rfl rfl rfl rfl rfl
  · rename_i a _
    have hclaim : Marks n { n with agenda := a } := (Marks.refl n).beside rfl rfl rfl rfl rfl
    exact (hclaim.trans (readPort_marks _ key)).beside rfl rfl rfl rfl rfl

theorem readPending_marks (who : Party) (n : Node) (reads : Reads) :
    Marks n (readPending who n reads).2 := by
  induction reads generalizing n with
  | nil => exact .refl n
  | cons e rest ih =>
    obtain ⟨key, r⟩ := e
    cases r with
    | some r => exact ih n
    | none => exact (tryRead_marks n who key).trans (ih _)

theorem continueReads_marks (n : Node) (who : Party) : Marks n (n.continueReads who).2 := by
  unfold continueReads
  split
  · exact .refl n
  · rename_i t _
    exact (readPending_marks who n t.reads).beside rfl rfl rfl rfl rfl

theorem readAll_marks (hs : n.services = []) (fuel : Nat) : Marks n (readAll fuel n) := by
  induction fuel generalizing n with
  | zero => exact .refl n
  | succ fuel ih =>
    have hread := continueReads_marks n .caller
    unfold readAll
    split
    · rename_i m hm
      rw [hm] at hread
      exact hread
    · rename_i m hm
      rw [hm] at hread
      have hwait := hread.trans (waitFor_marks (hread.services.trans hs) holdsDevice)
      exact hwait.trans (ih (hwait.services.trans hs))

theorem readsIn_marks (hs : n.services = []) (now : Int) : Marks n (n.readsIn now) := by
  have hask : Marks n { n with agenda := (n.agenda.acquire .tick .caller).2 } :=
    (Marks.refl n).beside rfl rfl rfl rfl rfl
  have hbegun : Marks n n.begun :=
    hask.trans (waitFor_marks (hask.services.trans hs) holdsTick)
  have hopen := hbegun.trans (openTick_marks (hbegun.services.trans hs) now)
  have hidle := hopen.trans (awaitStorage_marks (hopen.services.trans hs))
  have hplanned : Marks n (n.planned now) :=
    hidle.trans (planReads_marks (hidle.services.trans hs))
  exact hplanned.trans (readAll_marks (hplanned.services.trans hs) _)

/-! ### Values -/

theorem takeValue_marks (hs : n.services = []) (key : PortKey) (v : Value) (now : Int) :
    Marks n (n.takeValue key v now).2 := by
  cases hp : n.portOf? key with
  | none =>
    rw [takeValue_of_none hp]
    exact .refl n
  | some p =>
    cases hsame : Value.sameOption p.lastRead (some v) with
    | true =>
      rw [takeValue_of_same hp hsame]
      exact .putPort hp (p.lastRead_marking fun _ => hsame)
    | false =>
      have hmarked : Marking p (renewed p v) := by
        cases hpersisted : p.persisted with
        | true => exact .of_dirty rfl (by rw [renewed, hpersisted]; rfl)
        | false =>
          have hrenewed : renewed p v = { p with lastRead := some v } := by
            rw [renewed, hpersisted]
            rfl
          rw [hrenewed]
          exact p.lastRead_marking fun hyes => by rw [hpersisted] at hyes; cases hyes
      have hput : Marks n (n.putPort (renewed p v)) := .putPort hp hmarked
      have hsent : Marks n (n.announcing p v) := by
        unfold announcing
        split
        · exact hput
        · exact hput.trans (publish_marks (hput.services.trans hs) _)
      rw [takeValue_of_new hp hsame]
      dsimp only
      split
      · exact hsent.trans (saveHistory_marks ..)
      · exact hsent

theorem takeRead_marks (hs : n.services = []) (now : Int) (key : PortKey)
    (r : Except PortError Value) : Marks n (takeRead now n key r).2 := by
  unfold takeRead
  split
  · exact takeValue_marks hs key _ now
  · exact .refl n
  · exact (Marks.refl n).beside rfl rfl rfl rfl rfl

theorem takeReads_marks (hs : n.services = []) (now : Int) (reads : Reads) :
    Marks n (takeReads now n reads).2 := by
  induction reads generalizing n with
  | nil => exact .refl n
  | cons e rest ih =>
    obtain ⟨key, r⟩ := e
    cases r with
    | none => exact ih hs
    | some r =>
      have hfirst := takeRead_marks hs now key r
      exact hfirst.trans (ih (hfirst.services.trans hs))

/-! ### The end of a tick -/

theorem dispatchTo_marks (changed : List Dep) (isForced : String → Bool) (asapPaused : Bool)
    (c : EvalContext) (n : Node) (key : PortKey) :
    Marks n (dispatchTo changed isForced asapPaused c n key) := by
  unfold dispatchTo
  split
  · exact .refl n
  · rename_i p hp
    split
    · exact .refl n
    · split
      · have hput : Marks n (n.putPort (p.enqueueEval c).2) :=
          .putPort hp (p.enqueueEval_marking c)
        split
        · rename_i q hq
          rw [hq] at hput
          exact hput.trans (emitAll_marks ..)
        · rename_i q hq
          rw [hq] at hput
          split
          · exact hput.trans (forceEval_marks ..)
          · exact hput
      · exact .refl n

theorem update_marks (hs : n.services = []) (now : Int) : Marks n (n.update now) := by
  have hreads := readsIn_marks hs now
  rw [update_eq]
  unfold closeTick
  split
  · exact hreads
  · rename_i t _
    have htaken := hreads.trans (takeReads_marks (hreads.services.trans hs) t.now t.reads)
    dsimp only
    generalize takeReads t.now (n.readsIn now) t.reads = taken at htaken
    obtain ⟨ids, m⟩ := taken
    have hidle := htaken.trans (awaitStorage_marks (htaken.services.trans hs))
    have hcalm : Marks n { m.awaitStorage with forceAll := false, forced := [] } :=
      hidle.beside rfl rfl rfl rfl rfl
    have hsent := hcalm.trans (foldl_marks (hcalm.services.trans hs)
      (fun k key _ => dispatchTo_marks (changedDeps t ids)
        (fun id => m.awaitStorage.forceAll || m.awaitStorage.forced.contains id)
        (t.now < m.awaitStorage.asapPausedUntil)
        (EvalContext.ofValues (m.awaitStorage.snapshot t.enabled) t.now) k key) t.enabled)
    exact hsent.beside rfl rfl rfl rfl rfl

/-! ### Calls -/

theorem withPort_marks {key : PortKey} {f : Port → Node}
    (h : ∀ p, n.portOf? key = some p → Marks n (f p)) : Marks n (n.withPort key f) :=
  withPort_induction (.refl n) h

theorem withTicket_marks {key : PortKey} {p : Port} (hp : n.portOf? key = some p)
    {f : Ticket → Except PortError (List Signal) × Port} (hf : ∀ t, Marking p (f t).2) :
    Marks n (n.withTicket f).2 := by
  have hcount : Marks n { n with nextTicket := n.nextTicket + 1 } :=
    (Marks.refl n).beside rfl rfl rfl rfl rfl
  have hput := hcount.trans (.putPort hp (hf n.nextTicket))
  refine hput.trans (.of_worked (withTicket_signals f) ?_)
  rw [withTicket_backend, putPort_backend]

theorem awaitResult_marks (hs : n.services = []) (t : Ticket) : Marks n (n.awaitResult t).2 :=
  (waitFor_marks hs _).beside rfl rfl rfl rfl rfl

theorem writeValue_marks (hs : n.services = []) {key : PortKey} {p : Port}
    (hp : n.portOf? key = some p) (v : Value) : Marks n (n.writeValue p v).2 := by
  have hsubmit := withTicket_marks hp fun t => p.submit_marking v t n.wall
  unfold writeValue
  split
  · rename_i e m hm
    rw [hm] at hsubmit
    exact hsubmit
  · rename_i t m hm
    rw [hm] at hsubmit
    exact hsubmit.trans (awaitResult_marks (hsubmit.services.trans hs) t)

theorem setValue_marks (hs : n.services = []) {key : PortKey} {p : Port}
    (hp : n.portOf? key = some p) (v : Value) : Marks n (n.setValue p v).2 := by
  unfold setValue
  split
  · exact .refl n
  · exact writeValue_marks hs hp v

theorem setSequence_marks {key : PortKey} {p : Port} (hp : n.portOf? key = some p)
    (s : Option Sequence) : Marks n (n.setSequence p s).2 := by
  have hput : Marks n (n.putPort (p.setSequence s).2) := .putPort hp (p.setSequence_marking s)
  unfold Node.setSequence
  dsimp only
  split
  · exact hput.beside rfl rfl rfl rfl rfl
  · exact hput

theorem readValue_marks (hs : n.services = []) (key : PortKey) :
    Marks n (n.readValue key).2 := by
  have hask : Marks n { n with agenda := (n.agenda.acquire (.device key) .caller).2 } :=
    (Marks.refl n).beside rfl rfl rfl rfl rfl
  have hwait := hask.trans (waitFor_marks (hask.services.trans hs) fun n =>
    n.agenda.locks.any fun l => l.resource = .device key && l.holder = .caller)
  exact (hwait.trans (readPort_marks _ key)).beside rfl rfl rfl rfl rfl

/-! ### Attributes -/

theorem publishUpdate_marks (hs : n.services = []) {p : Port}
    (hp : n.portOf? p.key = some p) : Marks n (n.publishUpdate p) := by
  have hput : Marks n (n.putPort p.attrsJson.2) := .putPort hp p.attrsJson_marking
  exact hput.trans (publish_marks (hput.services.trans hs) _)

theorem setAttr_marks (h : Sound n) (id name : String) (value : Json) :
    Marks n (n.setAttr id name value).2 := by
  unfold setAttr
  split
  · exact .refl n
  · rename_i p hp
    have hid := h.filed.ids id p hp
    have hmarked := p.setAttr_marking n.graph name value
    have hput : Marks n (n.putPort (p.setAttr n.graph name value).port) :=
      .putPort (portOf?_of_port? hp hid) hmarked
    have hself : (n.putPort (p.setAttr n.graph name value).port).portOf?
        (p.setAttr n.graph name value).port.key = some (p.setAttr n.graph name value).port := by
      refine portOf?_of_port? ?_ rfl
      rw [port?_putPort (by rw [hid]; exact hp) hmarked.key, if_pos rfl]
    have hserv := hput.services.trans h.services
    dsimp only
    split
    · exact hput
    · refine hput.trans ?_
      split
      · have hforce := forceEval_marks (n.putPort (p.setAttr n.graph name value).port) id
        refine hforce.trans (publishUpdate_marks (hforce.services.trans hserv) ?_)
        rw [forceEval_frame]
        exact hself
      · exact publishUpdate_marks hserv hself

/-! ### Stopping -/

theorem haltPort_marks (n : Node) (key : PortKey) : Marks n (n.haltPort key) := by
  unfold haltPort
  split
  · exact .refl n
  · rename_i p hp
    have hput : Marks n (n.putPort p.halt.2) := .putPort hp (.of_frame rfl)
    exact (hput.trans (emitAll_marks _ key p.halt.1)).beside rfl rfl rfl rfl rfl

theorem stopPorts_marks (hs : n.services = []) (keys : List PortKey) :
    Marks n (n.stopPorts keys) := by
  have hhalt := foldl_marks hs (fun m key _ => haltPort_marks m key) keys
  have hwait := hhalt.trans (waitFor_marks (hhalt.services.trans hs)
    fun n => keys.all n.workersEnded)
  refine hwait.trans (foldl_marks (hwait.services.trans hs) (fun m key _ => ?_) keys)
  split
  · exact .refl m
  · rename_i p hp
    exact .putPort hp (.of_frame rfl)

end ControlNode.Node
