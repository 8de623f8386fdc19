import ControlNode.Proofs.Node.Calm
import ControlNode.Proofs.Node.Changes
import ControlNode.Proofs.Node.Writers
import ControlNode.Proofs.Port.Newcomers

/-!
# Invariants of ports

A property of ports and their writers that holds of new ports and lasts whatever is done with a port
(`Invariant`) holds of all ports of a node (`Maintains`), whatever is done to the node and whatever
tasks run meanwhile. Sequences that callers set and what happens at the far ends of ports is looked
at for each property by itself (`Respects`).
-/

namespace ControlNode

namespace Port

/-- One thing that is done with a port, apart from the steps of its writer, from setting its
sequence and from what happens at its far end. -/
inductive Handling (p : Port) : Port → Prop
  | evaluate {q : Port} {c : EvalContext} (h : p.takeEval = some (c, q)) (t : Ticket) (now : Int) :
    Handling p (q.evaluate c t now).2
  | cancelSequence : Handling p p.cancelSequence
  | stepSequence {s : RunningSequence} (h : p.sequence = some s) (next : RunningSequence)
      (v : Value) (t : Ticket) (now : Int) :
    Handling p ({ p with sequence := some next }.submit v t now).2
  | submit (v : Value) (t : Ticket) (now : Int) : Handling p (p.submit v t now).2
  | enqueueWrite (v : Value) (t : Ticket) : Handling p (p.enqueueWrite v t).2
  | enqueueEval (c : EvalContext) : Handling p (p.enqueueEval c).2
  | readValue (now : Int) : Handling p (p.readValue now).2
  | beat : Handling p { p with device := p.device.beat }
  | take (v : Value) (dirty : Bool) : Handling p { p with lastRead := some v, dirty := dirty }
  | mark (dirty : Bool) : Handling p { p with dirty := dirty }
  | sample (now : Int) : Handling p { p with historyLast := now, dirty := true }
  | dropAttrCache : Handling p p.dropAttrCache
  | getAttr (name : String) : Handling p (p.getAttr name).2
  | attrsJson : Handling p p.attrsJson.2
  | setAttr (g : DepGraph) (name : String) (value : Json) : Handling p (p.setAttr g name value).port
  | loadAttrs (g : DepGraph) (record : Record) : Handling p (p.loadAttrs g record).1
  | restore (v : Value) : Handling p (p.restore v)
  | halt : Handling p p.halt.2
  | clearPending : Handling p p.clearPending

theorem Handling.key {p q : Port} (h : Handling p q) : q.key = p.key := by
  cases h with
  | evaluate h t now => exact (Work.evaluate h t now).setup.key
  | stepSequence h next v t now => exact (Work.stepSequence p h next v t now).setup.key
  | submit v t now => exact (submit_setup p v t now).key
  | enqueueWrite v t =>
    unfold Port.enqueueWrite
    split <;> rfl
  | enqueueEval c =>
    unfold Port.enqueueEval
    repeat' split
    all_goals rfl
  | readValue now => exact (readValue_upkeep p now).setup.key
  | getAttr name => rw [getAttr_frame]
  | attrsJson => rw [attrsJson_frame]
  | setAttr g name value => exact (setAttr_switched p g name value).key
  | loadAttrs g record => exact (loadAttrs_switched p g record).key
  | restore v => rw [restore_frame]
  | _ => rfl

/-- A property that ports have from the beginning and keep, however far their writers are. -/
structure Invariant (P : Port → WriteStage → Prop) : Prop where
  create : ∀ key device isVirtual capacity zone stage,
    P (create key device isVirtual capacity zone) stage
  handling : ∀ {p q stage}, P p stage → Handling p q → P q stage
  writer : ∀ {p q stage stage'}, P p stage → WriterStep (p, stage) (q, stage') → P q stage'

theorem Invariant.steps {P : Port → WriteStage → Prop} {x y : Port × WriteStage}
    (h : Invariant P) (hx : P x.1 x.2) (hsteps : Relation.ReflTransGen WriterStep x y) :
    P y.1 y.2 := by
  induction hsteps with
  | refl => exact hx
  | tail _ hstep ih => exact h.writer ih hstep

end Port

namespace Node

open Port

variable {n m : Node} {key : PortKey} {p q : Port} {P : Port → WriteStage → Prop}

/-- No service runs, and all ports, registered or gone, have the property. -/
structure Maintains (P : Port → WriteStage → Prop) (n : Node) : Prop where
  invariant : Invariant P
  services : n.services = []
  ports : ∀ key p, n.portOf? key = some p → P p (n.writeStage key)

theorem maintains_create (h : Invariant P) (config : NodeConfig) (backend : Backend) (wall : Int)
    (zone : Zone) : (create config backend wall zone).Maintains P := by
  refine ⟨h, rfl, fun key p hp => ?_⟩
  have hnone : none = some p := hp
  cases hnone

namespace Maintains

theorem of_portOf? (h : n.Maintains P) (hports : ∀ key, m.portOf? key = n.portOf? key)
    (htasks : m.agenda.tasks = n.agenda.tasks) (hs : m.services = n.services) : m.Maintains P := by
  refine ⟨h.invariant, hs.trans h.services, fun key p hp => ?_⟩
  rw [writeStage_congr htasks]
  exact h.ports key p ((hports key).symm.trans hp)

/-- Everything but ports, what tasks wait for and services may change by itself. -/
theorem beside (h : n.Maintains P) (hports : m.ports = n.ports) (hgone : m.gone = n.gone)
    (htasks : m.agenda.tasks = n.agenda.tasks) (hs : m.services = n.services) : m.Maintains P := by
  refine h.of_portOf? (fun key => ?_) htasks hs
  simp only [portOf?, port?, hports, hgone]

theorem putPort (h : n.Maintains P)
    (hq : ∀ p, n.portOf? q.key = some p → P q (n.writeStage q.key)) :
    (n.putPort q).Maintains P := by
  refine ⟨h.invariant, by rw [putPort_frame]; exact h.services, fun key r hr => ?_⟩
  have hstage : (n.putPort q).writeStage key = n.writeStage key :=
    writeStage_congr (by rw [putPort_frame]) key
  rw [hstage]
  rw [portOf?_putPort] at hr
  split at hr
  · rename_i hkey
    obtain ⟨p, hp, rfl⟩ := Option.map_eq_some_iff.mp hr
    subst hkey
    exact hq p hp
  · exact h.ports key r hr

theorem handle (h : n.Maintains P) (hp : n.portOf? key = some p) (hq : Handling p q) :
    (n.putPort q).Maintains P := by
  have hkey : q.key = key := hq.key.trans (key_of_portOf? hp)
  refine h.putPort fun _ _ => h.invariant.handling ?_ hq
  rw [hkey]
  exact h.ports key p hp

/-- Of two ports that are put in place of `p` one after the other the last one counts. -/
theorem replace {r : Port} (h : n.Maintains P) (hp : n.portOf? key = some p) (hq : q.key = p.key)
    (hr : Handling p r) (t : Ticket) :
    ({ n.putPort q with nextTicket := t }.putPort r).Maintains P := by
  have hput := h.handle hp hr
  have hsame (other : PortKey) :
      { n.putPort q with nextTicket := t }.portOf? other = (n.putPort q).portOf? other := rfl
  refine hput.of_portOf? (fun other => ?_) ?_ ?_
  · rw [portOf?_putPort, hsame, portOf?_putPort, portOf?_putPort, hq, hr.key]
    split
    · rename_i hother
      cases n.portOf? other <;> rfl
    · rfl
  all_goals rw [putPort_frame, putPort_frame n q, putPort_frame n r]

theorem foldl {α : Type} {f : Node → α → Node} (h : n.Maintains P)
    (hf : ∀ m a, m.Maintains P → (f m a).Maintains P) (as : List α) :
    (as.foldl f n).Maintains P := by
  induction as generalizing n with
  | nil => exact h
  | cons a as ih => exact ih (hf n a h)

/-! ### Tasks -/

theorem setWait {t : TaskId} (h : n.Maintains P) (ht : ∀ key, t ≠ .writer key) (w : Wait) :
    (n.setWait t w).Maintains P := by
  refine ⟨h.invariant, h.services, fun key p hp => ?_⟩
  have hstage : (n.setWait t w).writeStage key = n.writeStage key := by
    rw [writeStage, writeStage, Node.setWait, Agenda.waitOf?_setWait_of_ne (ht key).symm]
  rw [hstage]
  exact h.ports key p hp

theorem endTask {t : TaskId} (h : n.Maintains P)
    (ht : ∀ key p, t = .writer key → n.portOf? key ≠ some p) : (n.endTask t).Maintains P := by
  refine ⟨h.invariant, h.services, fun key p hp => ?_⟩
  have hne : .writer key ≠ t := fun heq => ht key p heq.symm hp
  have hstage : (n.endTask t).writeStage key = n.writeStage key := by
    rw [writeStage, writeStage, Node.endTask, Agenda.waitOf?_endTask_of_ne hne]
  rw [hstage]
  exact h.ports key p hp

theorem emitAll (h : n.Maintains P) (key : PortKey) (signals : List Signal) :
    (n.emitAll key signals).Maintains P := by
  obtain ⟨hframe, htasks⟩ := emitAll_frame n key signals
  exact h.beside (by rw [hframe]) (by rw [hframe]) htasks (by rw [hframe])

theorem withTicket {f : Ticket → Except PortError (List Signal) × Port}
    (h : ({ n with nextTicket := n.nextTicket + 1 }.putPort (f n.nextTicket).2).Maintains P) :
    (n.withTicket f).2.Maintains P := by
  simp only [Node.withTicket]
  split
  · rename_i e q hq
    rw [hq] at h
    exact h
  · rename_i signals q hq
    rw [hq] at h
    exact h.emitAll q.key signals

theorem pollWriter (h : n.Maintains P) (key : PortKey) : (n.pollWriter key).2.Maintains P := by
  cases hp : n.portOf? key with
  | none =>
    rw [pollWriter_of_none hp]
    refine h.endTask fun other p heq hother => ?_
    cases heq
    exact nomatch hp.symm.trans hother
  | some p =>
    obtain ⟨q, v, hq, hsteps⟩ := pollWriter_steps h.services hp
    refine ⟨h.invariant, hq.services, fun other r hr => ?_⟩
    by_cases hother : other = key
    · subst hother
      obtain rfl : q = r := Option.some.inj (hq.port.symm.trans hr)
      exact h.invariant.steps (h.ports other p hp) hsteps
    · rw [writeStage, hq.waits other hother]
      exact h.ports other r ((hq.ports other hother).symm.trans hr)

theorem nextEval (h : n.Maintains P) (hp : n.portOf? key = some p) :
    (n.nextEval p).2.Maintains P := by
  have htask (key : PortKey) : TaskId.evaluator p.key ≠ .writer key := nofun
  unfold Node.nextEval
  dsimp only
  split
  · exact h.endTask fun key p heq => absurd heq (htask key)
  · split
    · exact h.setWait htask _
    · rename_i c q htake
      have hq : q.key = p.key := by
        obtain ⟨_, _, heq⟩ := Option.map_eq_some_iff.mp htake
        cases heq
        rfl
      have hall : ((n.putPort q).withTicket fun t => q.evaluate c t n.wall).2.Maintains P :=
        withTicket (h.replace hp hq (.evaluate htake _ n.wall) _)
      split
      · rename_i hr
        rw [hr] at hall
        exact hall.setWait htask _
      · rename_i hr
        rw [hr] at hall
        exact hall.setWait htask _

theorem pollEvaluator (h : n.Maintains P) (key : PortKey) :
    (n.pollEvaluator key).2.Maintains P := by
  unfold Node.pollEvaluator
  dsimp only
  split
  · rename_i p t hp _
    split
    · exact nextEval (h.beside rfl rfl rfl rfl) hp
    · exact h
  · rename_i hp _
    exact h.nextEval hp
  · exact h.endTask fun _ _ heq => nomatch heq
  · exact h

theorem endSequence {task : TaskId} (h : n.Maintains P) (ht : ∀ key, task ≠ .writer key)
    (hp : ∀ q, n.portOf? p.key = some q → q = p) : (n.endSequence p task).2.Maintains P := by
  have hput : (n.putPort p.cancelSequence).Maintains P := by
    refine h.putPort fun q hq => ?_
    obtain rfl := hp q hq
    exact h.invariant.handling (h.ports q.key q hq) .cancelSequence
  exact hput.endTask fun key _ heq => absurd heq (ht key)

theorem pauseSequence (h : n.Maintains P) (hp : ∀ q, n.portOf? p.key = some q → q = p)
    (s : RunningSequence) (r : Except PortError Unit) : (n.pauseSequence p s r).2.Maintains P := by
  have htask (key : PortKey) : TaskId.sequence p.key s.number ≠ .writer key := nofun
  unfold Node.pauseSequence
  dsimp only
  split
  · exact h.endSequence htask hp
  · split
    · exact h.setWait htask _
    · have htimed : { n with agenda := (n.agenda.setTimer (.sequence p.key s.number)
          (n.agenda.clock + s.pause)).2 }.Maintains P := h.beside rfl rfl rfl rfl
      exact htimed.setWait htask _

theorem stepSequence (h : n.Maintains P) (hp : n.portOf? p.key = some p) {s : RunningSequence}
    (hs : p.sequence = some s) : (n.stepSequence p s).2.Maintains P := by
  have htask (key : PortKey) : TaskId.sequence p.key s.number ≠ .writer key := nofun
  unfold Node.stepSequence
  dsimp only
  split
  · exact h.endSequence htask fun q hq => Option.some.inj (hq.symm.trans hp)
  · rename_i v pause run _
    let next : RunningSequence := { s with run := run, pause := pause }
    have hall : ((n.putPort { p with sequence := some next }).withTicket fun t =>
        { p with sequence := some next }.submit v t n.wall).2.Maintains P :=
      withTicket (h.replace (q := { p with sequence := some next }) hp rfl
        (.stepSequence hs next v _ n.wall) _)
    split
    · rename_i e m hr
      rw [hr] at hall
      refine hall.pauseSequence (fun q hq => ?_) _ _
      cases hold : m.portOf? p.key with
      | none =>
        rw [hold, Option.getD_none] at hq
        exact nomatch hold.symm.trans hq
      | some r =>
        rw [hold, Option.getD_some, key_of_portOf? hold, hold] at hq
        exact (Option.some.inj hq).symm
    · rename_i t m hr
      rw [hr] at hall
      exact hall.setWait htask _

theorem pollSequence (h : n.Maintains P) (key : PortKey) (number : Nat) :
    (n.pollSequence key number).2.Maintains P := by
  unfold Node.pollSequence
  dsimp only
  split
  · exact h.endTask fun _ _ heq => nomatch heq
  · rename_i p s hps
    obtain ⟨p', hp, hs⟩ := Option.bind_eq_some_iff.mp hps
    obtain ⟨s', hs, heq⟩ := Option.map_eq_some_iff.mp hs
    cases heq
    have hseq : p.sequence = some s := (Option.filter_eq_some_iff.mp hs).1
    have hself : n.portOf? p.key = some p := by rwa [key_of_portOf? hp]
    have honly : ∀ q, n.portOf? p.key = some q → q = p :=
      fun q hq => Option.some.inj (hq.symm.trans hself)
    split
    · exact h
    · rename_i t _
      split
      · exact h
      · have hforget : (n.forgetResult t).Maintains P := h.beside rfl rfl rfl rfl
        exact hforget.pauseSequence honly _ _
    · split
      · exact h
      · exact h.stepSequence hself hseq
    · exact h.stepSequence hself hseq

theorem runTask (h : n.Maintains P) (t : TaskId) : (n.runTask t).2.Maintains P := by
  cases t with
  | writer key => exact h.pollWriter key
  | evaluator key => exact h.pollEvaluator key
  | sequence key number => exact h.pollSequence key number
  | service k =>
    simp only [Node.runTask, pollService, service?, h.services, List.getElem?_nil]
    exact h

theorem withReady (h : n.Maintains P) (ready : List TaskId) :
    { n with agenda := { n.agenda with ready := ready } }.Maintains P := h.beside rfl rfl rfl rfl

theorem runReadyTask (h : n.Maintains P) (t : TaskId) : (n.runReadyTask t).Maintains P := by
  unfold Node.runReadyTask
  split
  · exact turn_induction (motive := Maintains P) ((h.withReady _).runTask t)
      fun m ready hm => hm.withReady ready
  · exact h

theorem step (h : n.Maintains P) : n.step.Maintains P := by
  unfold Node.step
  split
  · exact h
  · exact turn_induction (motive := Maintains P) ((h.withReady _).runTask _)
      fun m ready hm => hm.withReady ready

theorem runReady (h : n.Maintains P) (fuel : Nat) : (runReady fuel n).Maintains P := by
  induction fuel generalizing n with
  | zero => exact h
  | succ fuel ih =>
    unfold Node.runReady
    split
    · exact h
    · exact ih h.step

theorem moveTo (h : n.Maintains P) (time : Nat) : (n.moveTo time).Maintains P := by
  have hmove : { n with agenda := n.agenda.moveTo time }.Maintains P :=
    h.beside rfl rfl (n.agenda.moveTo_tasks time).1 rfl
  exact hmove.runReady _

theorem runUntil (h : n.Maintains P) (done : Node → Bool) (fuel : Nat) :
    (runUntil done fuel n).Maintains P := by
  induction fuel generalizing n with
  | zero => exact h
  | succ fuel ih =>
    unfold Node.runUntil
    repeat' split
    · exact h
    · exact h
    · exact ih (h.moveTo _)

theorem waitFor (h : n.Maintains P) (done : Node → Bool) : (n.waitFor done).Maintains P := by
  unfold Node.waitFor
  split
  · exact h
  · exact (h.runReady _).runUntil done stepLimit

theorem fireUntil (h : n.Maintains P) (time fuel : Nat) : (fireUntil time fuel n).Maintains P := by
  induction fuel generalizing n with
  | zero => exact h
  | succ fuel ih =>
    unfold Node.fireUntil
    repeat' split
    · exact ih (h.moveTo _)
    · exact h
    · exact h

theorem advance (h : n.Maintains P) (duration : Nat) : (n.advance duration).Maintains P :=
  ((h.runReady _).fireUntil _ _).moveTo _

theorem awaitStorage (h : n.Maintains P) : n.awaitStorage.Maintains P := by
  unfold Node.awaitStorage
  split
  · have hidle : { n with storageBusy := false }.Maintains P := h.beside rfl rfl rfl rfl
    exact hidle.runReady _
  · exact h

/-! ### Announcements and storage -/

theorem forceEval (h : n.Maintains P) (id : String) : (n.forceEval id).Maintains P := by
  rw [forceEval_frame]
  exact h.beside rfl rfl rfl rfl

theorem publish (h : n.Maintains P) (e : Event) : (n.publish e).Maintains P := by
  rw [publish_eq h.services]
  exact h.beside rfl rfl rfl rfl

theorem access {α : Type} (h : n.Maintains P) (writes : Bool) (op : Backend.Outcome α) :
    (n.access writes op).2.Maintains P := h.beside rfl rfl rfl rfl

theorem accessAwait {α : Type} (h : n.Maintains P) (writes : Bool) (op : Backend.Outcome α) :
    (n.access writes op).2.awaitStorage.Maintains P := (h.access writes op).awaitStorage

/-! ### Samples and seconds -/

theorem pruneHistory (h : n.Maintains P) (p : Port) (now : Int) :
    (n.pruneHistory p now).Maintains P := by
  unfold Node.pruneHistory
  split
  · exact h.access _ _
  · exact h

theorem saveHistory (h : n.Maintains P) (key : PortKey) (v : Value) (now : Int) :
    (n.saveHistory key v now).Maintains P := by
  unfold Node.saveHistory
  split
  · exact h
  · rename_i p hp
    split
    · have hstored := h.access true (n.backend.saveSample historyCollection p.id ⟨now, v.toJson⟩)
      dsimp only
      split
      · exact hstored
      · exact (hstored.handle hp (.sample now)).pruneHistory _ now
    · exact h

theorem sampleIfDue (h : n.Maintains P) (now : Int) (key : PortKey) :
    (sampleIfDue now n key).Maintains P := by
  unfold Node.sampleIfDue
  repeat' split
  all_goals first | exact h.saveHistory _ _ _ | exact h

theorem beat (h : n.Maintains P) (key : PortKey) : (n.beat key).Maintains P := by
  unfold Node.beat
  split
  · exact h
  · rename_i p hp
    exact h.handle hp .beat

theorem openTick (h : n.Maintains P) (now : Int) : (n.openTick now).Maintains P := by
  have hnoted (second : Int) :
      { n with tick := some (n.firstTick now), lastSecond := second }.Maintains P :=
    h.beside rfl rfl rfl rfl
  unfold Node.openTick
  dsimp only
  split
  · have hbeats := (hnoted (secondOf now)).foldl (fun m key hm => hm.beat key) n.enabledKeys
    exact hbeats.foldl (fun m key hm => hm.sampleIfDue now key) n.enabledKeys
  · exact hnoted n.lastSecond

/-! ### Reads -/

theorem planReads (h : n.Maintains P) : n.planReads.Maintains P := by
  unfold Node.planReads
  split
  · exact h
  · refine (h.foldl (fun m key hm => ?_) _).beside rfl rfl rfl rfl
    split
    · exact hm
    · rename_i p hp
      exact hm.handle hp .dropAttrCache

theorem readPort (h : n.Maintains P) (key : PortKey) : (n.readPort key).2.Maintains P := by
  unfold Node.readPort
  split
  · exact h
  · rename_i p hp
    exact h.handle hp (.readValue n.wall)

theorem tryRead (h : n.Maintains P) (who : Party) (key : PortKey) :
    (n.tryRead who key).2.Maintains P := by
  unfold Node.tryRead
  have htasks := n.agenda.acquire_tasks (.device key) who
  split
  · rename_i a ha
    rw [ha] at htasks
    exact h.beside rfl rfl htasks rfl
  · rename_i a ha
    rw [ha] at htasks
    have hclaim : { n with agenda := a }.Maintains P := h.beside rfl rfl htasks rfl
    exact (hclaim.readPort key).beside rfl rfl (Agenda.release_tasks ..) rfl

theorem readPending (h : n.Maintains P) (who : Party) (reads : Reads) :
    (readPending who n reads).2.Maintains P := by
  induction reads generalizing n with
  | nil => exact h
  | cons e rest ih =>
    obtain ⟨key, r⟩ := e
    cases r with
    | some r => exact ih h
    | none => exact ih (h.tryRead who key)

theorem continueReads (h : n.Maintains P) (who : Party) : (n.continueReads who).2.Maintains P := by
  unfold Node.continueReads
  split
  · exact h
  · rename_i t _
    exact (h.readPending who t.reads).beside rfl rfl rfl rfl

theorem readAll (h : n.Maintains P) (fuel : Nat) : (readAll fuel n).Maintains P := by
  induction fuel generalizing n with
  | zero => exact h
  | succ fuel ih =>
    have hread := h.continueReads .caller
    unfold Node.readAll
    split
    · rename_i m hm
      rw [hm] at hread
      exact hread
    · rename_i m hm
      rw [hm] at hread
      exact ih (hread.waitFor holdsDevice)

theorem begun (h : n.Maintains P) : n.begun.Maintains P := by
  have hask : { n with agenda := (n.agenda.acquire .tick .caller).2 }.Maintains P :=
    h.beside rfl rfl (Agenda.acquire_tasks ..) rfl
  exact hask.waitFor holdsTick

theorem readsIn (h : n.Maintains P) (now : Int) : (n.readsIn now).Maintains P := by
  have hplanned : (n.planned now).Maintains P :=
    ((h.begun).openTick now).awaitStorage.planReads
  exact hplanned.readAll _

/-! ### The end of a tick -/

theorem takeValue (h : n.Maintains P) (key : PortKey) (v : Value) (now : Int) :
    (n.takeValue key v now).2.Maintains P := by
  cases hp : n.portOf? key with
  | none =>
    rw [takeValue_of_none hp]
    exact h
  | some p =>
    cases hsame : Value.sameOption p.lastRead (some v) with
    | true =>
      rw [takeValue_of_same hp hsame]
      exact h.handle hp (.take v p.dirty)
    | false =>
      have hput : (n.putPort (renewed p v)).Maintains P := h.handle hp (.take v _)
      have hsent : (n.announcing p v).Maintains P := by
        unfold announcing
        split
        · exact hput
        · exact hput.publish _
      rw [takeValue_of_new hp hsame]
      dsimp only
      split
      · exact hsent.saveHistory key v now
      · exact hsent

theorem takeRead (h : n.Maintains P) (now : Int) (key : PortKey) (r : Except PortError Value) :
    (takeRead now n key r).2.Maintains P := by
  unfold Node.takeRead
  split
  · exact h.takeValue key _ now
  · exact h
  · exact h.beside rfl rfl rfl rfl

theorem takeReads (h : n.Maintains P) (now : Int) (reads : Reads) :
    (takeReads now n reads).2.Maintains P := by
  induction reads generalizing n with
  | nil => exact h
  | cons e rest ih =>
    obtain ⟨key, r⟩ := e
    cases r with
    | none => exact ih h
    | some r => exact ih (h.takeRead now key r)

theorem dispatchTo (h : n.Maintains P) (changed : List Dep) (isForced : String → Bool)
    (asapPaused : Bool) (c : EvalContext) (key : PortKey) :
    (dispatchTo changed isForced asapPaused c n key).Maintains P := by
  unfold Node.dispatchTo
  split
  · exact h
  · rename_i p hp
    split
    · exact h
    · split
      · have hput : (n.putPort (p.enqueueEval c).2).Maintains P := h.handle hp (.enqueueEval c)
        split
        · rename_i q hq
          rw [hq] at hput
          exact hput.emitAll key _
        · rename_i q hq
          rw [hq] at hput
          split
          · exact hput.forceEval key.id
          · exact hput
      · exact h

theorem dispatch (h : n.Maintains P) (t : Tick) (ids : List String) :
    (n.dispatch t ids).Maintains P := by
  have hcalm : { n with forceAll := false, forced := [] }.Maintains P := h.beside rfl rfl rfl rfl
  exact hcalm.foldl (fun m key hm => hm.dispatchTo ..) t.enabled

theorem update (h : n.Maintains P) (now : Int) : (n.update now).Maintains P := by
  have hread := h.readsIn now
  rw [update_eq]
  unfold closeTick
  split
  · exact hread
  · rename_i t _
    have htaken := hread.takeReads t.now t.reads
    exact (htaken.awaitStorage.dispatch t _).beside rfl rfl (Agenda.release_tasks ..) rfl

/-! ### Calls -/

theorem withPort {f : Port → Node} (h : n.Maintains P)
    (hf : ∀ p, n.portOf? key = some p → (f p).Maintains P) : (n.withPort key f).Maintains P :=
  withPort_induction h hf

theorem request {f : Ticket → Except PortError (List Signal) × Port} (h : n.Maintains P)
    (hp : n.portOf? key = some p) (hf : ∀ t, Handling p (f t).2) :
    (n.withTicket f).2.Maintains P := by
  have hcount : { n with nextTicket := n.nextTicket + 1 }.Maintains P := h.beside rfl rfl rfl rfl
  exact withTicket (hcount.handle hp (hf n.nextTicket))

theorem awaitResult (h : n.Maintains P) (t : Ticket) : (n.awaitResult t).2.Maintains P :=
  (h.waitFor _).beside rfl rfl rfl rfl

theorem writeValue (h : n.Maintains P) (hp : n.portOf? key = some p) (v : Value) :
    (n.writeValue p v).2.Maintains P := by
  have hsubmit := h.request hp fun t => .submit v t n.wall
  unfold Node.writeValue
  split
  · rename_i e m hm
    rw [hm] at hsubmit
    exact hsubmit
  · rename_i t m hm
    rw [hm] at hsubmit
    exact hsubmit.awaitResult t

theorem setValue (h : n.Maintains P) (hp : n.portOf? key = some p) (v : Value) :
    (n.setValue p v).2.Maintains P := by
  unfold Node.setValue
  split
  · exact h
  · exact h.writeValue hp v

theorem spawn {t : TaskId} (h : n.Maintains P) (ht : ∀ key, t ≠ .writer key) :
    { n with agenda := n.agenda.spawn t }.Maintains P := by
  refine ⟨h.invariant, h.services, fun key p hp => ?_⟩
  have hstage : { n with agenda := n.agenda.spawn t }.writeStage key = n.writeStage key := by
    rw [writeStage, writeStage, Agenda.waitOf?_spawn_of_ne (ht key).symm]
  rw [hstage]
  exact h.ports key p hp

theorem setSequence (h : n.Maintains P) (hp : n.portOf? key = some p) {s : Option Sequence}
    (hq : P (p.setSequence s).2 (n.writeStage key)) : (n.setSequence p s).2.Maintains P := by
  have hkey : (p.setSequence s).2.key = key := by
    obtain ⟨log, hlives, -⟩ := Alone.setSequence p s
    exact hlives.follows.key.trans (key_of_portOf? hp)
  have hput : (n.putPort (p.setSequence s).2).Maintains P := h.putPort fun _ _ => by rwa [hkey]
  unfold Node.setSequence
  dsimp only
  split
  · exact hput.spawn nofun
  · exact hput

theorem readValue (h : n.Maintains P) (key : PortKey) : (n.readValue key).2.Maintains P := by
  have hask : { n with agenda := (n.agenda.acquire (.device key) .caller).2 }.Maintains P :=
    h.beside rfl rfl (Agenda.acquire_tasks ..) rfl
  exact ((hask.waitFor _).readPort key).beside rfl rfl (Agenda.release_tasks ..) rfl

/-! ### Attributes -/

theorem publishUpdate (h : n.Maintains P) (hp : n.portOf? p.key = some p) :
    (n.publishUpdate p).Maintains P := (h.handle hp .attrsJson).publish _

theorem setAttr (h : n.Maintains P) (hf : Filed n) (id name : String) (value : Json) :
    (n.setAttr id name value).2.Maintains P := by
  unfold Node.setAttr
  split
  · exact h
  · rename_i p hp
    have hold := portOf?_of_port? hp (hf.ids id p hp)
    have hset : Handling p (p.setAttr n.graph name value).port := .setAttr n.graph name value
    have hput := h.handle hold hset
    have hself : (n.putPort (p.setAttr n.graph name value).port).portOf?
        (p.setAttr n.graph name value).port.key = some (p.setAttr n.graph name value).port :=
      portOf?_putPort_self (by rw [hset.key]; exact hold)
    dsimp only
    split
    · exact hput
    · split
      · refine (hput.forceEval id).publishUpdate ?_
        rw [forceEval_frame]
        exact hself
      · exact hput.publishUpdate hself

theorem loadAttrs (h : n.Maintains P) (p : Port) (r : Record) :
    (n.loadAttrs p r).2.Maintains P := by
  unfold Node.loadAttrs
  dsimp only
  split
  · exact h.forceEval _
  · exact h

theorem reloadAttrs (h : n.Maintains P) (hf : Filed n) (id : String) (r : Record) :
    (n.reloadAttrs id r).Maintains P := by
  unfold Node.reloadAttrs
  split
  · exact h
  · rename_i p hp
    have hold : n.portOf? p.key = some p := portOf?_of_port? hp (hf.ids id p hp)
    have hloaded : (n.loadAttrs p r).2.portOf? p.key = some p := by
      unfold Node.loadAttrs
      dsimp only
      split
      · rw [forceEval_frame]
        exact hold
      · exact hold
    exact (h.loadAttrs p r).handle hloaded (.loadAttrs n.graph r)

/-! ### Adding -/

theorem register (h : n.Maintains P) (hp : ∀ stage, P p stage) (hid : n.port? p.id = none) :
    (n.register p).2.Maintains P := by
  have hkey : p.attrsJson.2.key = p.key := by rw [attrsJson_frame]
  have hfiled :
      { n with ports := Dict.insert n.ports p.attrsJson.2.id p.attrsJson.2 }.Maintains P := by
    refine ⟨h.invariant, h.services, fun key q hq => ?_⟩
    rw [portOf?_insert (by rwa [Port.id, hkey])] at hq
    split at hq
    · cases hq
      exact h.invariant.handling (hp _) .attrsJson
    · exact h.ports key q hq
  exact (hfiled.forceEval _).publish _

theorem startWorkers (h : n.Maintains P) (key : PortKey) : (n.startWorkers key).Maintains P := by
  unfold Node.startWorkers
  dsimp only
  split
  · exact h
  · rename_i hrunning
    have hnone : n.agenda.waitOf? (.writer key) = none := by
      simp only [Bool.or_eq_true, not_or, Option.not_isSome_iff_eq_none] at hrunning
      exact hrunning.1
    have hspawn : { n with agenda := n.agenda.spawn (.writer key) }.Maintains P := by
      refine ⟨h.invariant, h.services, fun other p hp => ?_⟩
      have hold := h.ports other p hp
      by_cases hother : other = key
      -- a writer that starts has as little in hand as one that has ended
      · subst hother
        rw [writeStage, hnone] at hold
        rw [writeStage, Agenda.waitOf?_spawn hnone]
        exact hold
      · rwa [writeStage, Agenda.waitOf?_spawn_of_ne (by simpa using hother)]
    exact hspawn.spawn (by simp)

theorem restoreValue (h : n.Maintains P) (p : Port) (v : Value) :
    (n.restoreValue p v).2.Maintains P := by
  unfold Node.restoreValue
  dsimp only
  split
  · exact h.advance _
  · exact h

theorem prepare (h : n.Maintains P) (id : String) (device : Device) (isVirtual : Bool)
    (defaults : Record) : (∀ stage, P (n.prepare id device isVirtual defaults).1 stage) ∧
      (n.prepare id device isVirtual defaults).2.Maintains P := by
  refine prepare_induction (motive := fun p m => (∀ stage, P p stage) ∧ m.Maintains P) ?_ ?_ ?_ ?_
  · exact ⟨h.invariant.create _ _ _ _ _, h.beside rfl rfl rfl rfl⟩
  · rintro p m r ⟨hp, hm⟩
    exact ⟨fun stage => h.invariant.handling (hp stage) (.loadAttrs m.graph r), hm.loadAttrs p r⟩
  · rintro p m ⟨hp, hm⟩
    exact ⟨hp, hm.accessAwait false _⟩
  · rintro p m v ⟨hp, hm⟩
    exact ⟨fun stage => h.invariant.handling (hp stage) (.restore v), hm.restoreValue p v⟩

theorem add (h : n.Maintains P) (id : String) (device : Device) (isVirtual : Bool)
    (defaults : Record) : (n.add id device isVirtual defaults).2.Maintains P := by
  cases hfault : n.idFault? id with
  | some fault =>
    rw [add_of_fault hfault]
    exact h
  | none =>
    -- while the port is set up, no other one is registered with its id
    obtain ⟨hkey, hmarks⟩ := prepare_marks h.services id device isVirtual defaults
    obtain ⟨hport, hnode⟩ := h.prepare id device isVirtual defaults
    have hid := hmarks.ports.port?_eq_none (port?_of_idFault? hfault)
    rw [add_of_no_fault hfault]
    revert hkey hport hnode hid
    generalize n.prepare id device isVirtual defaults = prepared
    intro hkey hport hnode hid
    refine (hnode.register hport ?_).startWorkers _
    rw [Port.id, hkey]
    exact hid

theorem addVirtual (h : n.Maintains P) (d : VirtualPortDef) : (n.addVirtual d).2.Maintains P := by
  have hadd : (n.addDefined d).2.Maintains P := h.add d.id d.device true d.attrs
  unfold Node.addVirtual
  split
  · rename_i e m hm
    rw [hm] at hadd
    exact hadd
  · rename_i attrs m hm
    rw [hm] at hadd
    have hall := hadd.accessAwait true (m.backend.replace definitionsCollection d.id d.toRecord)
    split
    · rename_i r k hk
      rw [hk] at hall
      exact hall
    · rename_i e k hk
      rw [hk] at hall
      exact hall

theorem loadEach {α : Type} {add : Node → α → Option NodeError × Node} (h : n.Maintains P)
    (hadd : ∀ m a, m.Maintains P → (add m a).2.Maintains P) (as : List α) :
    (loadEach add n as).2.Maintains P := by
  induction as generalizing n with
  | nil => exact h
  | cons a as ih => exact ih (hadd n a h)

theorem loadPort (h : n.Maintains P) (mappings : Dict String String) (c : PortConfig) :
    (loadPort mappings n c).2.Maintains P := by
  rcases loadPort_eq mappings n c with hsame | ⟨id, device, hadd⟩
  · rw [hsame]
    exact h
  · rw [hadd]
    exact h.add id device false []

theorem loadDefined (h : n.Maintains P) (r : Record) : (loadDefined n r).2.Maintains P := by
  rcases loadDefined_eq n r with hsame | ⟨d, hadd⟩
  · rw [hsame]
    exact h
  · rw [hadd]
    exact h.add d.id d.device true d.attrs

theorem load (h : n.Maintains P) (configs : List PortConfig) (mappings : Dict String String) :
    (n.load configs mappings).2.Maintains P := by
  have hindexed := (h.accessAwait false n.backend.ensureIndex).accessAwait false
    (n.access false n.backend.ensureIndex).2.awaitStorage.backend.ensureIndex
  have hports := hindexed.loadEach (fun _ c hk => hk.loadPort mappings c) configs
  unfold Node.load
  dsimp only
  generalize Node.loadEach (Node.loadPort mappings) _ configs = loaded at hports
  obtain ⟨errors, k⟩ := loaded
  have hstored := hports.accessAwait false (k.backend.query definitionsCollection {}, k.backend)
  exact hstored.loadEach (fun _ r hk => hk.loadDefined r) _

/-! ### Saving -/

theorem savePort (h : n.Maintains P) (force : Bool) (key : PortKey) :
    (savePort force n key).2.Maintains P := by
  unfold Node.savePort
  split
  · exact h
  · rename_i p hp
    split
    · have hclean := h.handle hp (.mark false)
      have hstored := hclean.access true ((n.putPort { p with dirty := false }).backend.replace
        portsCollection p.id (toRecord { p with dirty := false }))
      dsimp only
      split
      · exact hstored
      · dsimp only
        split
        · rename_i q hq
          exact hstored.handle hq (.mark true)
        · exact hstored
    · exact h

theorem savePortList (h : n.Maintains P) (force : Bool) (keys : List PortKey) :
    (n.savePortList force Node.awaitStorage keys).2.Maintains P := by
  induction keys generalizing n with
  | nil => exact h
  | cons key keys ih => exact ih (h.savePort force key).awaitStorage

/-! ### Removing -/

theorem haltPort (h : n.Maintains P) (key : PortKey) : (n.haltPort key).Maintains P := by
  unfold Node.haltPort
  split
  · exact h
  · rename_i p hp
    refine ((h.handle hp .halt).emitAll key p.halt.1).beside rfl rfl ?_ rfl
    simp only [Agenda.wakeIf_tasks]

theorem stopPorts (h : n.Maintains P) (keys : List PortKey) : (n.stopPorts keys).Maintains P := by
  have hhalt := h.foldl (fun m key hm => hm.haltPort key) keys
  have hwait := hhalt.waitFor fun n => keys.all n.workersEnded
  refine hwait.foldl (fun m key hm => ?_) keys
  split
  · exact hm
  · rename_i p hp
    exact hm.handle hp .clearPending

theorem thenAccess {r : Except PersistError Unit × Node} (h : r.2.Maintains P)
    (op : Node → Backend.Outcome Nat) : (thenAccess r op).2.Maintains P := by
  unfold Node.thenAccess
  split
  · exact h
  · rename_i k
    exact h.accessAwait _ (op k)

theorem purge (h : n.Maintains P) (p : Port) : (n.purge p).2.Maintains P := by
  have hrecord := thenAccess (r := (.ok (), n)) h
    fun n => n.backend.remove portsCollection [("id", .str p.id)]
  unfold Node.purge
  dsimp only
  generalize Node.thenAccess (.ok (), n) (fun n =>
    n.backend.remove portsCollection [("id", .str p.id)]) = r at hrecord
  repeat' split
  · exact (hrecord.thenAccess _).thenAccess _
  · exact hrecord.thenAccess _
  · exact hrecord.thenAccess _
  · exact hrecord

theorem remove (h : n.Maintains P) (hf : Filed n) (id : String) (purged : Bool) :
    (n.remove id purged).2.Maintains P := by
  unfold Node.remove
  split
  · exact h
  · rename_i p hp
    -- the port is still found, among those that are gone
    have hout : (n.unregister p).Maintains P := by
      refine h.of_portOf? (portOf?_unregister ?_) rfl rfl
      rwa [hf.ids id p hp]
    have hstop := hout.stopPorts [p.key]
    dsimp only
    obtain ⟨k, hk⟩ : ∃ k, k = { (n.unregister p).stopPorts [p.key] with
      backoff := ((n.unregister p).stopPorts [p.key]).backoff.erase id
      forced := ((n.unregister p).stopPorts [p.key]).forced.filter (· ≠ id) } := ⟨_, rfl⟩
    have hcleared : k.Maintains P := hk ▸ hstop.beside rfl rfl rfl rfl
    have hpurged : (if purged then k.purge p else (.ok (), k)).2.Maintains P := by
      split
      · exact hcleared.purge p
      · exact hcleared
    rw [← hk]
    split
    · exact hpurged
    · exact hpurged.publish _

theorem cleanup (h : n.Maintains P) (hf : Filed n) : n.cleanup.Maintains P := by
  have hsave : (n.savePorts true Node.awaitStorage).2.Maintains P := h.savePortList true _
  have hmoved : Moved n (n.savePorts true Node.awaitStorage).2 :=
    savePortList_moved h.services true _
  have hput : Maintains P { (n.savePorts true Node.awaitStorage).2 with
      ports := []
      gone := Dict.values (n.savePorts true Node.awaitStorage).2.ports ++
        (n.savePorts true Node.awaitStorage).2.gone } :=
    hsave.of_portOf? (portOf?_archive (hf.of_portsRel hmoved.ports)) rfl rfl
  exact hput.stopPorts _

end Maintains

/-! ### Histories -/

/-- An operation keeps the property where it sets a sequence or changes the far end of a port. -/
def Respects (P : Port → WriteStage → Prop) (n : Node) : Operation → Prop
  | .setSequence key s => ∀ p, n.portOf? key = some p → P (p.setSequence s).2 (n.writeStage key)
  | .device key value failReads failures => ∀ p, n.portOf? key = some p →
    P { p with device := p.device.change value failReads failures } (n.writeStage key)
  | _ => True

theorem Maintains.perform (h : n.Maintains P) (hf : Filed n) {op : Operation}
    (hop : n.Respects P op) : (n.perform op).Maintains P := by
  cases op with
  | load configs mappings => exact h.load configs mappings
  | add id device => exact h.add id device false []
  | addVirtual d => exact h.addVirtual d
  | remove id purged => exact h.remove hf id purged
  | cleanup => exact h.cleanup hf
  | setAttr id name value => exact h.setAttr hf id name value
  | loadAttrs id r => exact h.reloadAttrs hf id r
  | getAttr key name => exact h.withPort fun p hp => h.handle hp (.getAttr name)
  | attrs key => exact h.withPort fun p hp => h.handle hp .attrsJson
  | update now => exact h.update now
  | forceEval id => exact h.forceEval id
  | save force => exact h.savePortList force _
  | setValue key v => exact h.withPort fun p hp => h.setValue hp v
  | writeValue key v => exact h.withPort fun p hp => h.writeValue hp v
  | enqueueValue key v =>
    exact h.withPort fun p hp => h.request hp fun t => .enqueueWrite v t
  | await t => exact h.awaitResult t
  | readValue key => exact h.readValue key
  | setSequence key s => exact h.withPort fun p hp => h.setSequence hp (hop p hp)
  | run t => exact h.runReadyTask t
  | elapse time => exact h.beside rfl rfl (n.agenda.moveTo_tasks time).1 rfl
  | device key value failReads failures =>
    refine h.withPort fun p hp => h.putPort fun _ _ => ?_
    have hkey := key_of_portOf? hp
    exact hkey ▸ hop p hp
  | _ => exact h.beside rfl rfl rfl rfl

theorem Maintains.after {ops : List Operation} (h : n.Maintains P) (hs : Sound n)
    (hops : ∀ op ∈ ops, ∀ m : Node, m.Maintains P → m.Respects P op) :
    (n.after ops).Maintains P := by
  induction ops generalizing n with
  | nil => exact h
  | cons op ops ih =>
    obtain ⟨hop, hops⟩ := List.forall_mem_cons.mp hops
    exact ih (h.perform hs.filed (hop n h)) (perform_sound hs op) hops

end Node

end ControlNode
