import ControlNode.Node.Calls
import ControlNode.Proofs.Node.Reads

/-!
# What leaves storage alone

Tasks of ports never touch the backend, and neither do waiting, reads and announcements: what
is stored changes only where an operation of the backend is called.
-/

namespace ControlNode.Node

variable {n m : Node}

/-! ### Messages -/

@[simp] theorem putPort_backend (n : Node) (p : Port) : (n.putPort p).backend = n.backend := by
  rw [putPort_frame]

theorem foldl_backend {α : Type} {f : Node → α → Node}
    (hf : ∀ m a, (f m a).backend = m.backend) (n : Node) (as : List α) :
    (as.foldl f n).backend = n.backend := by
  induction as generalizing n with
  | nil => rfl
  | cons a as ih => exact (ih _).trans (hf n a)

@[simp] theorem emitAll_backend (n : Node) (key : PortKey) (signals : List Signal) :
    (n.emitAll key signals).backend = n.backend := by
  exact foldl_backend (fun m s => by cases s <;> rfl) n signals

@[simp] theorem wakeService_backend (n : Node) (k : Nat) (s : Service) :
    (n.wakeService k s).backend = n.backend := by
  unfold wakeService
  split <;> rfl

@[simp] theorem nudge_backend (n : Node) : n.nudge.backend = n.backend := by
  unfold nudge forceTick
  split
  · rfl
  · split
    · rfl
    · exact wakeService_backend ..

@[simp] theorem withTicket_backend (n : Node)
    (f : Ticket → Except PortError (List Signal) × Port) :
    (n.withTicket f).2.backend = n.backend := by
  unfold withTicket
  dsimp only
  split <;> simp

theorem backend_of_withTicket {p : Port} {f : Ticket → Except PortError (List Signal) × Port}
    {r : Except PortError Ticket} (h : (n.putPort p).withTicket f = (r, m)) :
    m.backend = n.backend := by
  have hwrite := withTicket_backend (n.putPort p) f
  rwa [h, putPort_backend] at hwrite

/-! ### Workers -/

@[simp] theorem finishWrite_backend (n : Node) (p : Port) :
    (n.finishWrite p).backend = n.backend := by
  simp [finishWrite]

@[simp] theorem claimDevice_backend (n : Node) (p : Port) :
    (n.claimDevice p).2.backend = n.backend := by
  have hbegin (m : Node) : (m.beginWrite p).2.backend = m.backend := by
    unfold beginWrite
    dsimp only
    split
    · exact finishWrite_backend m p
    · rfl
  unfold claimDevice
  dsimp only
  split
  · exact hbegin _
  · rfl

@[simp] theorem nextWrite_backend (n : Node) (p : Port) :
    (n.nextWrite p).2.backend = n.backend := by
  unfold nextWrite
  dsimp only
  split
  · rfl
  · split
    · rfl
    · simp

theorem pollWriter_backend (n : Node) (key : PortKey) :
    (n.pollWriter key).2.backend = n.backend := by
  unfold pollWriter
  dsimp only
  split
  · exact claimDevice_backend ..
  · split
    · rfl
    · exact finishWrite_backend ..
  · exact nextWrite_backend ..
  · rfl
  · rfl

theorem nextEval_backend (n : Node) (p : Port) : (n.nextEval p).2.backend = n.backend := by
  unfold nextEval
  dsimp only
  split
  · rfl
  · split
    · rfl
    · split
      · rename_i hr
        have hm := backend_of_withTicket hr
        exact hm
      · rename_i hr
        have hm := backend_of_withTicket hr
        exact hm

theorem pollEvaluator_backend (n : Node) (key : PortKey) :
    (n.pollEvaluator key).2.backend = n.backend := by
  unfold pollEvaluator
  dsimp only
  split
  · split
    · exact nextEval_backend ..
    · rfl
  · exact nextEval_backend ..
  · rfl
  · rfl

/-! ### Sequences -/

theorem endSequence_backend (n : Node) (p : Port) (task : TaskId) :
    (n.endSequence p task).2.backend = n.backend := putPort_backend n p.cancelSequence

theorem pauseSequence_backend (n : Node) (p : Port) (s : RunningSequence)
    (r : Except PortError Unit) : (n.pauseSequence p s r).2.backend = n.backend := by
  unfold pauseSequence
  dsimp only
  split
  · exact endSequence_backend ..
  · split <;> rfl

theorem stepSequence_backend (n : Node) (p : Port) (s : RunningSequence) :
    (n.stepSequence p s).2.backend = n.backend := by
  unfold stepSequence
  dsimp only
  split
  · exact endSequence_backend ..
  · split
    · rename_i hr
      exact (pauseSequence_backend ..).trans (backend_of_withTicket hr)
    · rename_i hr
      have hm := backend_of_withTicket hr
      exact hm

theorem pollSequence_backend (n : Node) (key : PortKey) (number : Nat) :
    (n.pollSequence key number).2.backend = n.backend := by
  unfold pollSequence
  dsimp only
  split
  · rfl
  · split
    · rfl
    · split
      · rfl
      · exact pauseSequence_backend ..
    · split
      · rfl
      · exact stepSequence_backend ..
    · exact stepSequence_backend ..

/-! ### Running tasks -/

section Running

variable (hs : n.services = [])

include hs

theorem runTask_backend (t : TaskId) : (n.runTask t).2.backend = n.backend := by
  cases t with
  | writer key => exact pollWriter_backend n key
  | evaluator key => exact pollEvaluator_backend n key
  | sequence key number => exact pollSequence_backend n key number
  | service k =>
    simp only [runTask, pollService, service?, hs, List.getElem?_nil]

theorem step_backend : n.step.backend = n.backend := by
  unfold step
  split
  · rfl
  · rename_i t rest _
    exact turn_induction (motive := fun m => m.backend = n.backend)
      (runTask_backend (n := { n with agenda := { n.agenda with ready := rest } }) hs t)
      fun _ _ hm => hm

theorem runReady_backend (fuel : Nat) : (runReady fuel n).backend = n.backend := by
  induction fuel generalizing n with
  | zero => rfl
  | succ fuel ih =>
    unfold runReady
    split
    · rfl
    · exact (ih ((step_worked hs).services.trans hs)).trans (step_backend hs)

theorem moveTo_backend (time : Nat) : (n.moveTo time).backend = n.backend :=
  runReady_backend (n := { n with agenda := n.agenda.moveTo time }) hs _

theorem runUntil_backend (done : Node → Bool) (fuel : Nat) :
    (runUntil done fuel n).backend = n.backend := by
  induction fuel generalizing n with
  | zero => rfl
  | succ fuel ih =>
    unfold runUntil
    split
    · rfl
    · split
      · rfl
      · exact (ih ((moveTo_worked hs _).services.trans hs)).trans (moveTo_backend hs _)

theorem waitFor_backend (done : Node → Bool) : (n.waitFor done).backend = n.backend := by
  unfold waitFor
  split
  · rfl
  · exact (runUntil_backend ((settle_worked hs).services.trans hs) done stepLimit).trans
      (runReady_backend hs _)

theorem fireUntil_backend (time fuel : Nat) : (fireUntil time fuel n).backend = n.backend := by
  induction fuel generalizing n with
  | zero => rfl
  | succ fuel ih =>
    unfold fireUntil
    split
    · split
      · exact (ih ((moveTo_worked hs _).services.trans hs)).trans (moveTo_backend hs _)
      · rfl
    · rfl

theorem advance_backend (duration : Nat) : (n.advance duration).backend = n.backend := by
  have hsettle := (settle_worked hs).services.trans hs
  have hfire := (fireUntil_worked hsettle (n.agenda.clock + duration) (duration + 1)).services.trans
    hsettle
  exact ((moveTo_backend hfire _).trans (fireUntil_backend hsettle _ _)).trans
    (runReady_backend hs _)

theorem awaitStorage_backend : n.awaitStorage.backend = n.backend := by
  unfold awaitStorage
  split
  · exact runReady_backend (n := { n with storageBusy := false }) hs _
  · rfl

end Running

/-! ### Reads of a tick -/

theorem readPort_backend (n : Node) (key : PortKey) : (n.readPort key).2.backend = n.backend := by
  unfold readPort
  split
  · rfl
  · exact putPort_backend ..

theorem planReads_backend (n : Node) : n.planReads.backend = n.backend := by
  unfold planReads
  split
  · rfl
  · refine foldl_backend (fun m k => ?_) _ _
    split
    · rfl
    · exact putPort_backend ..

theorem readPending_backend (who : Party) (n : Node) (reads : Reads) :
    (readPending who n reads).2.backend = n.backend := by
  have htry (m : Node) (key : PortKey) : (m.tryRead who key).2.backend = m.backend := by
    unfold tryRead
    split
    · rfl
    · exact readPort_backend ..
  induction reads generalizing n with
  | nil => rfl
  | cons e rest ih =>
    obtain ⟨key, r⟩ := e
    cases r with
    | some r => exact ih n
    | none => exact (ih _).trans (htry n key)

theorem readAll_backend (hs : n.services = []) (fuel : Nat) :
    (readAll fuel n).backend = n.backend := by
  induction fuel generalizing n with
  | zero => rfl
  | succ fuel ih =>
    have hread : (n.continueReads .caller).2.backend = n.backend := by
      unfold continueReads
      split
      · rfl
      · exact readPending_backend ..
    have hserv : (n.continueReads .caller).2.services = [] := by
      unfold continueReads
      split
      · exact hs
      · exact (readPending_moved .caller _).services.trans hs
    unfold readAll
    split
    · rename_i m hm
      rwa [hm] at hread
    · rename_i m hm
      rw [hm] at hread hserv
      have hwait := (waitFor_worked hserv holdsDevice).services.trans hserv
      exact (ih hwait).trans ((waitFor_backend hserv holdsDevice).trans hread)

end ControlNode.Node
