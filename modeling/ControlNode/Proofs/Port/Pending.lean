import ControlNode.Proofs.Port.Pipeline

/-!
# The value on its way

A port shows one value as being on its way. Requests, evictions, the worker and a stop each set
it in their own way; between any two of these steps it is the value in flight, or else the one
that the worker takes next.
-/

namespace ControlNode

namespace WritePipe

/-- The value in flight, or else the one at the head of the queue. -/
def upcoming (w : WritePipe) : Option Value :=
  match w.current with
  | some r => some r.value
  | none => w.queue.head?.map WriteRequest.value

@[simp] theorem upcoming_showHead (w : WritePipe) : w.showHead.upcoming = w.upcoming := rfl

theorem pending_showHead {w : WritePipe} (hw : w.current = none) :
    w.showHead.pending = w.upcoming := by
  simp only [showHead, upcoming, hw]

/-- While a write is in flight a change of the queue is not shown. -/
theorem pending_showNext {w : WritePipe} (hw : ∀ r ∈ w.current, w.pending = some r.value) :
    w.showNext.pending = w.showNext.upcoming := by
  cases hcur : w.current with
  | none => simp only [showNext, hcur, Option.isSome_none, Bool.false_eq_true, if_false,
      pending_showHead, upcoming_showHead]
  | some r => simp only [showNext, hcur, Option.isSome_some, if_true, upcoming, hw r hcur]

theorem pending_enqueue {w : WritePipe} (hw : w.pending = w.upcoming) (r : WriteRequest) :
    (w.enqueue r).2.pending = (w.enqueue r).2.upcoming := by
  have hflight : ∀ c ∈ w.current, w.pending = some c.value := fun c hc => by
    rw [hw, upcoming, hc]
  unfold enqueue
  split <;> exact pending_showNext hflight

theorem pending_take {w w' : WritePipe} {r : WriteRequest} (h : w.take = some (r, w')) :
    w'.pending = w'.upcoming := by
  obtain ⟨⟨_, q⟩, -, heq⟩ := Option.map_eq_some_iff.mp h
  cases heq
  rfl

theorem pending_finish {w : WritePipe} (hw : w.pending = w.upcoming)
    (result : Except PortError Unit) :
    (w.finish result).2.pending = (w.finish result).2.upcoming := by
  unfold finish
  split
  · rw [upcoming_showHead]
    exact pending_showHead rfl
  · exact hw

end WritePipe

namespace Pipeline

/-- A step that has been completed, as callers and the worker of a port see it. -/
inductive Stride where
  | enqueue (v : Value)
  /-- The worker takes the next write and starts it. -/
  | start
  /-- The worker is done with the write in flight. -/
  | finish
  /-- The queue is closed, the write in flight is awaited and the worker has ended. -/
  | stop

def Stride.steps : Stride → List PipelineStep
  | .enqueue v => [.enqueue v]
  | .start => [.dequeue]
  | .finish => [.finish]
  | .stop => [.stop, .finish, .clear]

/-- What is shown is what comes next, and once the queue is closed nothing does. -/
structure Shown (s : Pipeline) : Prop where
  pending : s.port.pendingValue = s.port.writes.upcoming
  ended : s.queue.closed = true → s.current = none ∧ s.queue.items = []

variable {s : Pipeline}

theorem shown_enqueue (h : Shown s) (v : Value) : Shown (s.enqueue v) := by
  unfold enqueue Port.enqueueWrite
  cases s.port.checkWritable with
  | error e => exact h
  | ok =>
    refine ⟨WritePipe.pending_enqueue h.pending _, fun hc => ?_⟩
    simp only [queue, current, WritePipe.enqueue_queue, WritePipe.enqueue_current,
      BoundedQueue.push_closed] at hc ⊢
    rw [BoundedQueue.push_of_closed _ _ hc]
    exact h.ended hc

theorem shown_dequeue (h : Shown s) : Shown s.dequeue := by
  unfold dequeue
  split
  · exact h
  · rename_i hidle
    have hopen : s.queue.closed ≠ true := fun hc => hidle (by simp [hc])
    cases htake : s.port.takeWrite with
    | none => exact h
    | some p =>
      obtain ⟨⟨r, w⟩, hw, rfl⟩ := Option.map_eq_some_iff.mp htake
      refine ⟨WritePipe.pending_take hw, fun hc => absurd ?_ hopen⟩
      rwa [← show w.queue.closed = s.queue.closed from WritePipe.take_closed hw]

theorem shown_finish (h : Shown s) : Shown s.finish := by
  refine ⟨?_, fun hc => ⟨s.current_finish, ?_⟩⟩
  · unfold finish Port.carryOut
    cases hcur : s.current with
    | none => exact h.pending
    | some r =>
      simp only [show s.port.writes.current = some r from hcur]
      exact WritePipe.pending_finish h.pending _
  · rw [queue_finish] at hc ⊢
    exact (h.ended hc).2

/-- Whatever was in flight has ended and whatever waited is gone, so that nothing is shown. -/
theorem shown_stopped (s : Pipeline) : Shown s.stop.finish.clear := by
  have hcur := s.stop.current_finish
  have hclosed : s.stop.finish.queue.closed = true := by rw [queue_finish]; rfl
  have hitems : s.stop.finish.queue.items = [] := by rw [queue_finish]; rfl
  have hclear : s.stop.finish.clear =
      { s.stop.finish with port := s.stop.finish.port.clearPending } := by
    simp only [clear, hclosed, hcur, Option.isNone_none, Bool.and_self, if_true]
  rw [hclear]
  refine ⟨?_, fun _ => ⟨hcur, hitems⟩⟩
  have hflight : s.stop.finish.port.writes.current = none := hcur
  have hwaiting : s.stop.finish.port.writes.queue.items = [] := hitems
  simp only [Port.clearPending, Port.pendingValue, WritePipe.upcoming, hflight, hwaiting,
    BoundedQueue.head?, List.head?_nil, Option.map_none]

theorem shown_stride (h : Shown s) (a : Stride) : Shown (a.steps.foldl step s) := by
  cases a with
  | enqueue v => exact shown_enqueue h v
  | start => exact shown_dequeue h
  | finish => exact shown_finish h
  | stop => exact shown_stopped s

theorem shown_run (p : Port) (capacity : Nat) (strides : List Stride) :
    Shown (run { p with writes := .create capacity } (strides.flatMap Stride.steps)) := by
  induction strides using List.reverseRecOn with
  | nil => exact ⟨rfl, nofun⟩
  | append_singleton strides a ih =>
    simp only [run, List.flatMap_append, List.flatMap_singleton, List.foldl_append] at ih ⊢
    exact shown_stride ih a

theorem mem_steps_stop (strides : List Stride) :
    .stop ∈ strides.flatMap Stride.steps ↔ .stop ∈ strides := by
  simp only [List.mem_flatMap]
  constructor
  · rintro ⟨a, ha, hstop⟩
    cases a with
    | stop => exact ha
    | _ => simp [Stride.steps] at hstop
  · exact fun h => ⟨.stop, h, by simp [Stride.steps]⟩

/-- Between the steps a port shows the value in flight; else the value at the head of its queue,
if there is one; and nothing once it has been stopped. -/
theorem pendingValue_run (p : Port) (capacity : Nat) (strides : List Stride) :
    let s := run { p with writes := .create capacity } (strides.flatMap Stride.steps)
    (∀ r, s.current = some r → s.port.pendingValue = some r.value) ∧
    (s.current = none → s.port.pendingValue = (s.queue.items.map WriteRequest.value).head?) ∧
    (.stop ∈ strides → s.current = none ∧ s.queue.items = [] ∧ s.port.pendingValue = none) := by
  intro s
  have h : Shown s := shown_run p capacity strides
  have hidle : s.current = none →
      s.port.pendingValue = (s.queue.items.map WriteRequest.value).head? := fun hcur => by
    rw [h.pending, WritePipe.upcoming, show s.port.writes.current = none from hcur,
      List.head?_map]
    rfl
  refine ⟨fun r hcur => ?_, hidle, fun hstop => ?_⟩
  · rw [h.pending, WritePipe.upcoming, show s.port.writes.current = some r from hcur]
  · have hwrites : { p with writes := .create capacity : Port }.writes = .create capacity := rfl
    have hclosed := (closed_run hwrites _).mpr ((mem_steps_stop strides).mpr hstop)
    obtain ⟨hcur, hitems⟩ := h.ended hclosed
    exact ⟨hcur, hitems, by rw [hidle hcur, hitems]; rfl⟩

example : (run switch (([.enqueue (.bool true), .start, .enqueue (.bool true),
    .enqueue (.bool false), .finish] : List Stride).flatMap Stride.steps)).port.pendingValue =
      some (.bool false) := rfl

end Pipeline

end ControlNode
