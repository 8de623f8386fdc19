import ControlNode.Proofs.Node.Tasks

/-!
# Calm nodes

As long as nothing has been asked of any port, the workers find nothing to do. Whatever waiting
lets them run changes the agenda alone, and nobody takes a lock (`advance_rests`,
`awaitStorage_rests`).
-/

namespace ControlNode

/-- Each task has yet to start or waits for something to do. -/
def Agenda.Calm (a : Agenda) : Prop := ∀ e ∈ a.tasks, e.2 = .start ∨ e.2 = .queue

namespace Agenda.Calm

variable {a : Agenda} {t : TaskId} {w : Wait}

theorem waitOf? (h : a.Calm) (hw : a.waitOf? t = some w) : w = .start ∨ w = .queue := by
  obtain ⟨front, back, htasks, -⟩ := List.lookup_eq_some_iff.mp hw
  exact h (t, w) (by rw [htasks]; simp)

theorem setWait (h : a.Calm) (t : TaskId) (hw : w = .start ∨ w = .queue) :
    (a.setWait t w).Calm := by
  intro e he
  obtain ⟨e', he', rfl⟩ := List.mem_map.mp he
  split
  · exact hw
  · exact h e' he'

theorem endTask (h : a.Calm) (t : TaskId) : (a.endTask t).Calm :=
  fun e he => h e (List.mem_filter.mp he).1

theorem of_tasks {a' : Agenda} (h : a.Calm) (htasks : a'.tasks = a.tasks) : a'.Calm := by
  unfold Calm
  rw [htasks]
  exact h

end Agenda.Calm

theorem Agenda.wake_keeps (a : Agenda) (t : TaskId) :
    (a.wake t).tasks = a.tasks ∧ (a.wake t).locks = a.locks := by
  unfold wake
  split <;> exact ⟨rfl, rfl⟩

theorem Agenda.moveTo_tasks (a : Agenda) (time : Nat) :
    (a.moveTo time).tasks = a.tasks ∧ (a.moveTo time).locks = a.locks := by
  have hwake (due : List Timer) (a' : Agenda) :
      (due.foldl (fun a t => a.wake t.task) a').tasks = a'.tasks ∧
        (due.foldl (fun a t => a.wake t.task) a').locks = a'.locks := by
    induction due generalizing a' with
    | nil => exact ⟨rfl, rfl⟩
    | cons t due ih =>
      obtain ⟨htasks, hlocks⟩ := ih (a'.wake t.task)
      obtain ⟨htasks', hlocks'⟩ := a'.wake_keeps t.task
      exact ⟨htasks.trans htasks', hlocks.trans hlocks'⟩
  exact hwake _ _

namespace Port.Idle

variable {p : Port}

theorem takeWrite (h : p.Idle) : p.takeWrite = none := by
  simp [Port.takeWrite, WritePipe.take, BoundedQueue.pop, h.writes.queue]

theorem takeEval (h : p.Idle) : p.takeEval = none := by
  simp [Port.takeEval, BoundedQueue.pop, h.evals]

end Port.Idle

namespace Node

variable {n m k : Node}

/-- A node without services in which nothing has been asked of any port. -/
structure Calm (n : Node) : Prop where
  services : n.services = []
  agenda : n.agenda.Calm
  ports : ∀ key p, n.portOf? key = some p → p.Idle

/-- Tasks have run and have found nothing to do. Evaluations may have been asked for, and serial
numbers given out. -/
structure Rests (n m : Node) : Prop where
  rest : m = { n with
    agenda := m.agenda
    storageBusy := m.storageBusy
    forced := m.forced
    nextSerial := m.nextSerial }
  agenda : m.agenda.Calm
  locks : m.agenda.locks = n.agenda.locks

namespace Rests

theorem refl (h : n.Calm) : Rests n n := ⟨rfl, h.agenda, rfl⟩

theorem trans (h : Rests n m) (h' : Rests m k) : Rests n k := by
  refine ⟨?_, h'.agenda, h'.locks.trans h.locks⟩
  have hm := h.rest
  have hk := h'.rest
  rw [hm] at hk
  exact hk

theorem calm (h : Rests n m) (hn : n.Calm) : m.Calm := by
  rw [h.rest]
  exact ⟨hn.services, h.agenda, hn.ports⟩

theorem of_agenda {a : Agenda} (ha : a.Calm) (hlocks : a.locks = n.agenda.locks) :
    Rests n { n with agenda := a } := ⟨rfl, ha, hlocks⟩

end Rests

/-! ### Workers -/

theorem endTask_rests (h : n.Calm) (t : TaskId) : Rests n (n.endTask t) :=
  .of_agenda (h.agenda.endTask t) rfl

theorem setWait_rests (h : n.Calm) (t : TaskId) {w : Wait} (hw : w = .start ∨ w = .queue) :
    Rests n (n.setWait t w) :=
  .of_agenda (h.agenda.setWait t hw) rfl

theorem pollWriter_rests (h : n.Calm) (key : PortKey) : Rests n (n.pollWriter key).2 := by
  unfold pollWriter
  dsimp only
  split
  · rename_i hw
    rcases h.agenda.waitOf? hw with hw | hw <;> cases hw
  · rename_i hw
    rcases h.agenda.waitOf? hw with hw | hw <;> cases hw
  · rename_i p _ _ _ hp _
    unfold nextWrite
    rw [(h.ports key p hp).takeWrite]
    dsimp only
    split
    · exact endTask_rests h _
    · exact setWait_rests h _ (.inr rfl)
  · exact endTask_rests h _
  · exact .refl h

theorem pollEvaluator_rests (h : n.Calm) (key : PortKey) : Rests n (n.pollEvaluator key).2 := by
  unfold pollEvaluator
  dsimp only
  split
  · rename_i hw
    rcases h.agenda.waitOf? hw with hw | hw <;> cases hw
  · rename_i p _ _ hp _
    unfold nextEval
    rw [(h.ports key p hp).takeEval]
    dsimp only
    split
    · exact endTask_rests h _
    · exact setWait_rests h _ (.inr rfl)
  · exact endTask_rests h _
  · exact .refl h

theorem pollSequence_rests (h : n.Calm) (key : PortKey) (number : Nat) :
    Rests n (n.pollSequence key number).2 := by
  have hnone : n.sequenceOf? key number = none := by
    unfold sequenceOf?
    cases hp : n.portOf? key with
    | none => rfl
    | some p => simp [(h.ports key p hp).sequence]
  unfold pollSequence
  rw [hnone]
  exact endTask_rests h _

theorem runTask_rests (h : n.Calm) (t : TaskId) : Rests n (n.runTask t).2 := by
  cases t with
  | writer key => exact pollWriter_rests h key
  | evaluator key => exact pollEvaluator_rests h key
  | sequence key number => exact pollSequence_rests h key number
  | service k =>
    have hnone : n.service? k = none := by simp [service?, h.services]
    simp only [runTask, pollService, hnone]
    exact .refl h

/-! ### Waiting -/

theorem step_rests (h : n.Calm) : Rests n n.step := by
  unfold step
  split
  · exact .refl h
  · rename_i t rest _
    have hpopped : Rests n { n with agenda := { n.agenda with ready := rest } } :=
      .of_agenda h.agenda rfl
    exact turn_induction (motive := Rests n) (hpopped.trans (runTask_rests (hpopped.calm h) t))
      fun m ready hm => hm.trans (.of_agenda hm.agenda rfl)

theorem runReady_rests (h : n.Calm) (fuel : Nat) : Rests n (runReady fuel n) := by
  induction fuel generalizing n with
  | zero => exact .refl h
  | succ fuel ih =>
    unfold runReady
    split
    · exact .refl h
    · have hstep := step_rests h
      exact hstep.trans (ih (hstep.calm h))

theorem settle_rests (h : n.Calm) : Rests n n.settle := runReady_rests h _

theorem moveTo_rests (h : n.Calm) (time : Nat) : Rests n (n.moveTo time) := by
  obtain ⟨htasks, hlocks⟩ := n.agenda.moveTo_tasks time
  have hmove : Rests n { n with agenda := n.agenda.moveTo time } :=
    .of_agenda (h.agenda.of_tasks htasks) hlocks
  exact hmove.trans (settle_rests (hmove.calm h))

theorem fireUntil_rests (h : n.Calm) (time fuel : Nat) : Rests n (fireUntil time fuel n) := by
  induction fuel generalizing n with
  | zero => exact .refl h
  | succ fuel ih =>
    unfold fireUntil
    split
    · rename_i t _
      split
      · have hmove := moveTo_rests h t
        exact hmove.trans (ih (hmove.calm h))
      · exact .refl h
    · exact .refl h

theorem advance_rests (h : n.Calm) (duration : Nat) : Rests n (n.advance duration) := by
  have hsettled := settle_rests h
  have hfired := hsettled.trans (fireUntil_rests (hsettled.calm h)
    (n.agenda.clock + duration) (duration + 1))
  exact hfired.trans (moveTo_rests (hfired.calm h) _)

theorem awaitStorage_rests (h : n.Calm) : Rests n n.awaitStorage := by
  unfold awaitStorage
  split
  · have hfree : Rests n { n with storageBusy := false } := ⟨rfl, h.agenda, rfl⟩
    exact hfree.trans (settle_rests (hfree.calm h))
  · exact .refl h

end Node

end ControlNode
