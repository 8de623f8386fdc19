import ControlNode.Node.Run
import ControlNode.Proofs.Node.Ports

/-!
# What tasks do

In a node without services a task that runs, and any waiting that lets tasks run, makes moves
of the workers of ports and touches nothing else (`Worked`).
-/

namespace ControlNode.Node

open Relation Port

/-- The workers of ports have moved. -/
abbrev Worked : Node → Node → Prop := Evolves (ReflTransGen Work)

variable {n m : Node}

namespace Worked

theorem refl (n : Node) : Worked n n := Evolves.refl (fun _ => .refl) n

theorem trans {k : Node} (h : Worked n m) (h' : Worked m k) : Worked n k :=
  Evolves.trans (fun _ _ _ => ReflTransGen.trans) h h'

theorem putPort {p q : Port} (hq : n.portOf? p.key = some q) (h : ReflTransGen Work q p) :
    Worked n (n.putPort p) := by
  refine Evolves.putPort (fun _ => .refl) ?_
  intro r hr
  rw [hq] at hr
  cases hr
  exact h

theorem portOf? (h : Worked n m) {key : PortKey} {p : Port} (hp : n.portOf? key = some p) :
    ∃ q, m.portOf? key = some q ∧ ReflTransGen Work p q :=
  h.ports.exists_of_portOf? hp

end Worked

theorem portOf?_putPort_self {p q : Port} (h : n.portOf? p.key = some q) :
    (n.putPort p).portOf? p.key = some p := by
  rw [portOf?_putPort, if_pos rfl, h]
  rfl

/-! ### Messages -/

theorem emitAll_worked (key : PortKey) (signals : List Signal) :
    Worked n (n.emitAll key signals) := by
  unfold emitAll
  induction signals generalizing n with
  | nil => exact .refl n
  | cons s signals ih =>
    have hemit : Worked n (emit key n s) := by
      cases s with
      | writeQueued => exact (Worked.refl n).beside rfl rfl rfl
      | evalQueued => exact (Worked.refl n).beside rfl rfl rfl
      | completed t r => exact (Worked.refl n).beside rfl rfl rfl
    exact hemit.trans ih

theorem nudge_eq (hs : n.services = []) : n.nudge = n := by
  unfold nudge
  split
  · rfl
  · simp [forceTick, service?, hs]

/-- An operation that asks for a write of the port `q`, which stands in place of `p`. -/
theorem withTicket_worked {p q : Port} (hp : n.portOf? p.key = some p) (hq : q.key = p.key)
    {f : Ticket → Except PortError (List Signal) × Port}
    (hf : ∀ t, ReflTransGen Work p (f t).2) (hkey : ∀ t, (f t).2.key = p.key) :
    Worked n ((n.putPort q).withTicket f).2 := by
  have hput (t : Ticket) := Evolves.replace (fun _ => .refl) hp hq (hkey t) (hf t) (t + 1)
  simp only [withTicket]
  split
  · rename_i e r hr
    have h := hput (n.putPort q).nextTicket
    rw [hr] at h
    exact h
  · rename_i signals r hr
    have h := hput (n.putPort q).nextTicket
    rw [hr] at h
    exact Worked.trans h (emitAll_worked r.key signals)

/-! ### Writers -/

section Workers

variable (hs : n.services = [])

include hs

theorem finishWrite_worked {p : Port} (hp : n.portOf? p.key = some p) :
    Worked n (n.finishWrite p) := by
  have hkey : p.carryOut.2.key = p.key := by rw [carryOut_frame]
  have hold : n.portOf? p.carryOut.2.key = some p := by rw [hkey]; exact hp
  simp only [finishWrite]
  have hfree : Worked n { n with agenda := n.agenda.release (.device p.carryOut.2.key) } :=
    (Worked.refl n).beside rfl rfl rfl
  have hput := hfree.trans (.putPort hold (.single (.carryOut p)))
  have hall := hput.trans (emitAll_worked p.carryOut.2.key p.carryOut.1)
  rw [nudge_eq (hall.services.trans hs)]
  exact hall

theorem beginWrite_worked {p : Port} (hp : n.portOf? p.key = some p) :
    Worked n (n.beginWrite p).2 := by
  unfold beginWrite
  dsimp only
  split
  · exact (finishWrite_worked hs hp).beside rfl rfl rfl
  · exact (Worked.refl n).beside rfl rfl rfl

theorem claimDevice_worked {p : Port} (hp : n.portOf? p.key = some p) :
    Worked n (n.claimDevice p).2 := by
  unfold claimDevice
  dsimp only
  split
  · rename_i a _
    have hclaim : Worked n { n with agenda := a } := (Worked.refl n).beside rfl rfl rfl
    exact hclaim.trans (beginWrite_worked (hclaim.services.trans hs) hp)
  · exact (Worked.refl n).beside rfl rfl rfl

theorem nextWrite_worked {p : Port} (hp : n.portOf? p.key = some p) :
    Worked n (n.nextWrite p).2 := by
  unfold nextWrite
  dsimp only
  split
  · exact (Worked.refl n).beside rfl rfl rfl
  · split
    · exact (Worked.refl n).beside rfl rfl rfl
    · rename_i q hq
      have hkey : q.key = p.key := (Work.takeWrite hq).setup.key
      have hold : n.portOf? q.key = some p := by rw [hkey]; exact hp
      have hput : Worked n (n.putPort q) := .putPort hold (.single (.takeWrite hq))
      exact hput.trans (claimDevice_worked (hput.services.trans hs) (portOf?_putPort_self hold))

theorem pollWriter_worked (key : PortKey) : Worked n (n.pollWriter key).2 := by
  unfold pollWriter
  dsimp only
  split
  · rename_i p hp _
    have hkey := key_of_portOf? hp
    exact claimDevice_worked hs (by rw [hkey]; exact hp)
  · rename_i p _ hp _
    have hkey := key_of_portOf? hp
    split
    · exact .refl n
    · exact (finishWrite_worked hs (by rw [hkey]; exact hp)).beside rfl rfl rfl
  · rename_i p _ _ _ hp _
    have hkey := key_of_portOf? hp
    exact nextWrite_worked hs (by rw [hkey]; exact hp)
  · exact (Worked.refl n).beside rfl rfl rfl
  · exact .refl n

end Workers

/-! ### Evaluators -/

theorem awaitWrite_worked (task : TaskId) (t : Ticket) : Worked n (n.awaitWrite task t).2 :=
  (Worked.refl n).beside rfl rfl rfl

theorem nextEval_worked {p : Port} (hp : n.portOf? p.key = some p) :
    Worked n (n.nextEval p).2 := by
  unfold nextEval
  dsimp only
  split
  · exact (Worked.refl n).beside rfl rfl rfl
  · split
    · exact (Worked.refl n).beside rfl rfl rfl
    · rename_i c q hq
      have hkey : q.key = p.key := by
        obtain ⟨_, _, heq⟩ := Option.map_eq_some_iff.mp hq
        cases heq
        rfl
      have hall := withTicket_worked hp hkey (fun t => .single (.evaluate hq t n.wall))
        fun t => (evaluate_setup q c t n.wall).key.trans hkey
      split
      · rename_i hr
        rw [hr] at hall
        exact hall.beside rfl rfl rfl
      · rename_i hr
        rw [hr] at hall
        exact hall.trans (awaitWrite_worked _ _)

theorem pollEvaluator_worked (key : PortKey) : Worked n (n.pollEvaluator key).2 := by
  unfold pollEvaluator
  dsimp only
  split
  · rename_i p t hp _
    have hkey := key_of_portOf? hp
    split
    · have hforget : Worked n (n.forgetResult t) := (Worked.refl n).beside rfl rfl rfl
      exact hforget.trans (nextEval_worked (by rw [hkey]; exact hp))
    · exact .refl n
  · rename_i p _ _ hp _
    have hkey := key_of_portOf? hp
    exact nextEval_worked (by rw [hkey]; exact hp)
  · exact (Worked.refl n).beside rfl rfl rfl
  · exact .refl n

/-! ### Sequences -/

theorem endSequence_worked {p : Port} (hp : n.portOf? p.key = some p) (task : TaskId) :
    Worked n (n.endSequence p task).2 := by
  have hput : Worked n (n.putPort p.cancelSequence) := .putPort hp (.single (.endSequence p))
  exact hput.beside rfl rfl rfl

theorem pauseSequence_worked {p : Port} (hp : n.portOf? p.key = some p) (s : RunningSequence)
    (r : Except PortError Unit) : Worked n (n.pauseSequence p s r).2 := by
  unfold pauseSequence
  dsimp only
  split
  · exact endSequence_worked hp _
  · split
    · exact (Worked.refl n).beside rfl rfl rfl
    · exact (Worked.refl n).beside rfl rfl rfl

theorem stepSequence_worked {p : Port} (hp : n.portOf? p.key = some p) {s : RunningSequence}
    (hseq : p.sequence = some s) : Worked n (n.stepSequence p s).2 := by
  unfold stepSequence
  dsimp only
  split
  · exact endSequence_worked hp _
  · rename_i v pause run _
    have hall := withTicket_worked (q := { p with
        sequence := some { s with run := run, pause := pause } }) hp rfl
      (fun t => .single (.stepSequence p hseq { s with run := run, pause := pause } v t n.wall))
      fun t => (submit_setup _ v t n.wall).key
    split
    · rename_i e m hr
      rw [hr] at hall
      obtain ⟨q, hq, _⟩ := hall.portOf? hp
      have hqkey := key_of_portOf? hq
      rw [hq, Option.getD_some]
      exact hall.trans (pauseSequence_worked (by rw [hqkey]; exact hq) _ _)
    · rename_i t m hr
      rw [hr] at hall
      exact hall.trans (awaitWrite_worked _ _)

theorem pollSequence_worked (key : PortKey) (number : Nat) :
    Worked n (n.pollSequence key number).2 := by
  unfold pollSequence
  dsimp only
  split
  · exact (Worked.refl n).beside rfl rfl rfl
  · rename_i p s hps
    obtain ⟨p', hp, hs⟩ := Option.bind_eq_some_iff.mp hps
    obtain ⟨s', hs, heq⟩ := Option.map_eq_some_iff.mp hs
    cases heq
    have hseq : p.sequence = some s := (Option.filter_eq_some_iff.mp hs).1
    have hkey := key_of_portOf? hp
    have hself : n.portOf? p.key = some p := by rw [hkey]; exact hp
    split
    · exact .refl n
    · rename_i t _
      split
      · exact .refl n
      · have hforget : Worked n (n.forgetResult t) := (Worked.refl n).beside rfl rfl rfl
        exact hforget.trans (pauseSequence_worked (n := n.forgetResult t) hself _ _)
    · split
      · exact .refl n
      · exact stepSequence_worked hself hseq
    · exact stepSequence_worked hself hseq

/-! ### Running tasks -/

/-- A task that goes on by itself can run again at once. What does not depend on which tasks can run
holds then if it holds after the run. -/
theorem turn_induction {motive : Node → Prop} {t : TaskId} {r : Progress × Node} : motive r.2 →
    (∀ m ready, motive m → motive { m with agenda := { m.agenda with ready := ready } }) →
      motive (match r with
        | (.waits, m) => m
        | (.again, m) => { m with agenda := { m.agenda with ready := t :: m.agenda.ready } }) := by
  intro hrun hready
  obtain ⟨progress, m⟩ := r
  cases progress with
  | again => exact hready m _ hrun
  | waits => exact hrun

section Running

variable (hs : n.services = [])

include hs

theorem runTask_worked (t : TaskId) : Worked n (n.runTask t).2 := by
  cases t with
  | writer key => exact pollWriter_worked hs key
  | evaluator key => exact pollEvaluator_worked key
  | sequence key number => exact pollSequence_worked key number
  | service k =>
    simp only [runTask, pollService, service?, hs, List.getElem?_nil]
    exact .refl n

theorem step_worked : Worked n n.step := by
  unfold step
  split
  · exact .refl n
  · rename_i t rest _
    have hrest : Worked n { n with agenda := { n.agenda with ready := rest } } :=
      (Worked.refl n).beside rfl rfl rfl
    exact turn_induction (motive := Worked n)
      (hrest.trans (runTask_worked (hrest.services.trans hs) t))
      fun m ready hm => hm.beside rfl rfl rfl

theorem runReady_worked (fuel : Nat) : Worked n (runReady fuel n) := by
  induction fuel generalizing n with
  | zero => exact .refl n
  | succ fuel ih =>
    unfold runReady
    split
    · exact .refl n
    · have hstep := step_worked hs
      exact hstep.trans (ih (hstep.services.trans hs))

theorem settle_worked : Worked n n.settle := runReady_worked hs _

theorem moveTo_worked (time : Nat) : Worked n (n.moveTo time) := by
  have hmove : Worked n { n with agenda := n.agenda.moveTo time } :=
    (Worked.refl n).beside rfl rfl rfl
  exact hmove.trans (settle_worked (hmove.services.trans hs))

theorem runUntil_worked (done : Node → Bool) (fuel : Nat) : Worked n (runUntil done fuel n) := by
  induction fuel generalizing n with
  | zero => exact .refl n
  | succ fuel ih =>
    unfold runUntil
    split
    · exact .refl n
    · split
      · exact .refl n
      · rename_i time _
        have hmove := moveTo_worked hs time
        exact hmove.trans (ih (hmove.services.trans hs))

theorem waitFor_worked (done : Node → Bool) : Worked n (n.waitFor done) := by
  unfold waitFor
  split
  · exact .refl n
  · have hsettle := settle_worked hs
    exact hsettle.trans (runUntil_worked (hsettle.services.trans hs) done stepLimit)

theorem fireUntil_worked (time fuel : Nat) : Worked n (fireUntil time fuel n) := by
  induction fuel generalizing n with
  | zero => exact .refl n
  | succ fuel ih =>
    unfold fireUntil
    split
    · rename_i t _
      split
      · have hmove := moveTo_worked hs t
        exact hmove.trans (ih (hmove.services.trans hs))
      · exact .refl n
    · exact .refl n

theorem advance_worked (duration : Nat) : Worked n (n.advance duration) := by
  have hsettle := settle_worked hs
  have hfire := hsettle.trans
    (fireUntil_worked (hsettle.services.trans hs) (n.agenda.clock + duration) (duration + 1))
  exact hfire.trans (moveTo_worked (hfire.services.trans hs) _)

theorem awaitStorage_worked : Worked n n.awaitStorage := by
  unfold awaitStorage
  split
  · have hidle : Worked n { n with storageBusy := false } := (Worked.refl n).beside rfl rfl rfl
    exact hidle.trans (settle_worked (hidle.services.trans hs))
  · exact .refl n

end Running

end ControlNode.Node
