import ControlNode.Proofs.Port.Moves
import Mathlib.Data.List.Induction
import Mathlib.Data.List.Nodup

/-!
# The pipeline of writes

Writes are asked for, taken out by the worker, carried out and stopped in any order. A ledger
(`Pipeline`) records on the way what each write has come to; the port itself is changed by the
operations that run. What the ledger says after one step follows from what it said before, and
with that holds after any run.
-/

namespace ControlNode

/-! ### Devices and queues -/

namespace Device

/-- Writes values one after another; returns the answers. -/
def writeAll (d : Device) : List Value → List (Except PortError Unit) × Device
  | [] => ([], d)
  | v :: vs => ((d.write v).1 :: ((d.write v).2.writeAll vs).1, ((d.write v).2.writeAll vs).2)

theorem writeAll_concat (d : Device) (vs : List Value) (v : Value) :
    d.writeAll (vs ++ [v]) =
      ((d.writeAll vs).1 ++ [((d.writeAll vs).2.write v).1], ((d.writeAll vs).2.write v).2) := by
  induction vs generalizing d with
  | nil => rfl
  | cons u vs ih => simp only [List.cons_append, writeAll, ih]

end Device

namespace BoundedQueue

variable {α : Type}

/-- The item that a full queue gives up for a new one. -/
def oldestIfFull (q : BoundedQueue α) : List α :=
  if q.closed = false ∧ q.capacity ≤ q.items.length then q.items.take 1 else []

theorem push_of_open (q : BoundedQueue α) (a : α) (h : q.closed = false) :
    q.push a =
      ((match q.oldestIfFull with | [] => .stored | oldest :: _ => .evicted oldest),
        { q with items := q.items.drop q.oldestIfFull.length ++ [a] }) := by
  obtain ⟨capacity, items, closed⟩ := q
  change closed = false at h
  subst h
  cases items with
  | nil => simp [push, oldestIfFull]
  | cons oldest rest =>
    by_cases hfull : capacity ≤ (oldest :: rest).length
    · have hold : oldestIfFull ⟨capacity, oldest :: rest, false⟩ = [oldest] :=
        if_pos ⟨rfl, hfull⟩
      simp only [push, hold, hfull, if_true, Bool.false_eq_true, if_false]
      rfl
    · have hold : oldestIfFull ⟨capacity, oldest :: rest, false⟩ = [] :=
        if_neg fun hf => hfull hf.2
      simp only [push, hold, hfull, Bool.false_eq_true, if_false]
      rfl

theorem oldestIfFull_append_drop (q : BoundedQueue α) :
    q.oldestIfFull ++ q.items.drop q.oldestIfFull.length = q.items := by
  unfold oldestIfFull
  split
  · cases q.items <;> simp
  · simp

theorem oldestIfFull_of_closed (q : BoundedQueue α) (h : q.closed = true) :
    q.oldestIfFull = [] := by
  simp [oldestIfFull, h]

theorem length_oldestIfFull_le (q : BoundedQueue α) : q.oldestIfFull.length ≤ 1 := by
  unfold oldestIfFull
  split
  · rw [List.length_take]
    omega
  · exact Nat.zero_le 1

end BoundedQueue

/-! ### What callers are told -/

def Signal.completion? : Signal → Option (Ticket × Except PortError Unit)
  | .completed t r => some (t, r)
  | _ => none

namespace WritePipe

theorem completions_enqueue (w : WritePipe) (r : WriteRequest) :
    (w.enqueue r).1.filterMap Signal.completion? =
      (w.queue.oldestIfFull.map fun o => (o.ticket, .error .queueFull)) ++
        if w.queue.closed then [(r.ticket, .error .cancelled)] else [] := by
  cases hc : w.queue.closed with
  | true =>
    have hnone := BoundedQueue.oldestIfFull_of_closed w.queue hc
    simp [enqueue, BoundedQueue.push_of_closed _ _ hc, Signal.completion?, hnone]
  | false =>
    have hone := BoundedQueue.length_oldestIfFull_le w.queue
    simp only [enqueue, BoundedQueue.push_of_open _ _ hc]
    match h : w.queue.oldestIfFull with
    | [] => rfl
    | [oldest] => rfl
    | _ :: _ :: _ => simp [h] at hone

theorem completions_close (w : WritePipe) :
    w.close.1.filterMap Signal.completion? =
      w.queue.items.map fun r => (r.ticket, .error .cancelled) := by
  simp [close, BoundedQueue.close, Signal.completion?, Function.comp_def, List.filterMap_map]

end WritePipe

/-! ### The ledger -/

/-- A port with what its writes have come to. -/
structure Pipeline where
  port : Port
  /-- The writes that were asked for. -/
  asked : List WriteRequest := []
  /-- The writes that were taken out for the device. -/
  begun : List WriteRequest := []
  /-- The calls of the device that have ended, with their answers. -/
  calls : List (WriteRequest × Except PortError Unit) := []
  /-- The writes that a full queue has given up. -/
  evicted : List WriteRequest := []
  /-- The writes that a stop has cancelled. -/
  cancelled : List WriteRequest := []
  /-- What the callers have been told. -/
  completions : List (Ticket × Except PortError Unit) := []

/-- What happens to a port with respect to its writes. -/
inductive PipelineStep where
  | enqueue (v : Value)
  /-- The worker takes the next write, if it is idle and the queue is open. -/
  | dequeue
  /-- The device answers. -/
  | finish
  | stop
  /-- The workers have ended after a stop. -/
  | clear
  deriving DecidableEq

namespace Pipeline

def queue (s : Pipeline) : BoundedQueue WriteRequest := s.port.writes.queue

def current (s : Pipeline) : Option WriteRequest := s.port.writes.current

def request (s : Pipeline) (v : Value) : WriteRequest := ⟨v, s.asked.length⟩

def enqueue (s : Pipeline) (v : Value) : Pipeline :=
  match s.port.enqueueWrite v (s.request v).ticket with
  | (.error _, p) => { s with port := p }
  | (.ok signals, p) => { s with
      port := p
      asked := s.asked ++ [s.request v]
      evicted := s.evicted ++ s.queue.oldestIfFull
      cancelled := s.cancelled ++ if s.queue.closed then [s.request v] else []
      completions := s.completions ++ signals.filterMap Signal.completion? }

def dequeue (s : Pipeline) : Pipeline :=
  if s.queue.closed || s.current.isSome then s
  else match s.port.takeWrite with
    | none => s
    | some p => { s with port := p, begun := s.begun ++ p.writes.current.toList }

def finish (s : Pipeline) : Pipeline :=
  match s.current with
  | none => s
  | some r => { s with
      port := s.port.carryOut.2
      calls := s.calls ++ [(r, (s.port.device.write r.value).1)]
      completions := s.completions ++ s.port.carryOut.1.filterMap Signal.completion? }

def stop (s : Pipeline) : Pipeline :=
  { s with
    port := s.port.halt.2
    cancelled := s.cancelled ++ s.queue.items
    completions := s.completions ++ s.port.halt.1.filterMap Signal.completion? }

def clear (s : Pipeline) : Pipeline :=
  if s.queue.closed && s.current.isNone then { s with port := s.port.clearPending } else s

def step (s : Pipeline) : PipelineStep → Pipeline
  | .enqueue v => s.enqueue v
  | .dequeue => s.dequeue
  | .finish => s.finish
  | .stop => s.stop
  | .clear => s.clear

def run (p : Port) (steps : List PipelineStep) : Pipeline := steps.foldl step { port := p }

def valuesAsked (steps : List PipelineStep) : List Value :=
  steps.filterMap fun
    | .enqueue v => some v
    | _ => none

def outcomes (s : Pipeline) : List (Ticket × Except PortError Unit) :=
  (s.calls.map fun c => (c.1.ticket, c.2)) ++
    (s.evicted.map fun r => (r.ticket, .error .queueFull)) ++
    s.cancelled.map fun r => (r.ticket, .error .cancelled)

/-- What the ledger says after any number of steps from a port with the device `d`. -/
structure Accounted (d : Device) (s : Pipeline) : Prop where
  enabled : s.port.enabled = true
  writable : s.port.writable = true
  tickets : s.asked.map WriteRequest.ticket = List.range s.asked.length
  begun : s.begun = s.calls.map Prod.fst ++ s.current.toList
  device : d.writeAll (s.calls.map fun c => c.1.value) = (s.calls.map Prod.snd, s.port.device)
  routes : s.asked.Perm (s.begun ++ s.queue.items ++ s.evicted ++ s.cancelled)
  told : s.completions.Perm s.outcomes
  order : (s.begun ++ s.queue.items).Sublist s.asked
  emptied : s.queue.closed = true → s.queue.items = []
  uncancelled : s.queue.closed = false → s.cancelled = []
  newest : s.queue.closed = false → (s.begun ++ s.queue.items).getLast? = s.asked.getLast?

variable {d : Device} {s : Pipeline}

theorem enqueue_eq (h : Accounted d s) (v : Value) : s.enqueue v =
    { s with
      port := { s.port with writes := (s.port.writes.enqueue (s.request v)).2 }
      asked := s.asked ++ [s.request v]
      evicted := s.evicted ++ s.queue.oldestIfFull
      cancelled := s.cancelled ++ if s.queue.closed then [s.request v] else []
      completions := s.completions ++
        (s.port.writes.enqueue (s.request v)).1.filterMap Signal.completion? } := by
  have hcheck : s.port.checkWritable = .ok () := by
    simp [Port.checkWritable, h.enabled, h.writable]
  simp only [enqueue, Port.enqueueWrite, hcheck]
  rfl

theorem push_enqueue (h : Accounted d s) (v : Value) :
    (s.enqueue v).queue = (s.queue.push (s.request v)).2 := by
  rw [enqueue_eq h]
  exact WritePipe.enqueue_queue ..

theorem current_enqueue (h : Accounted d s) (v : Value) :
    (s.enqueue v).current = s.current := by
  rw [enqueue_eq h]
  exact WritePipe.enqueue_current ..

theorem tickets_concat (h : Accounted d s) (v : Value) :
    (s.asked ++ [s.request v]).map WriteRequest.ticket =
      List.range (s.asked ++ [s.request v]).length := by
  rw [List.map_append, h.tickets, List.length_append, List.length_singleton, List.range_succ]
  rfl

theorem completions_request (s : Pipeline) (v : Value) :
    (s.port.writes.enqueue (s.request v)).1.filterMap Signal.completion? =
      (s.queue.oldestIfFull.map fun o => (o.ticket, .error .queueFull)) ++
        if s.queue.closed then [((s.request v).ticket, .error .cancelled)] else [] :=
  WritePipe.completions_enqueue s.port.writes (s.request v)

/-- A closed queue takes nothing in; the request is cancelled. -/
theorem accounted_enqueue_of_closed (h : Accounted d s) (hc : s.queue.closed = true) (v : Value) :
    Accounted d (s.enqueue v) := by
  have hqueue := push_enqueue h v
  rw [BoundedQueue.push_of_closed _ _ hc] at hqueue
  have hold := s.queue.oldestIfFull_of_closed hc
  have hitems := h.emptied hc
  constructor
  all_goals simp -failIfUnchanged only [hqueue, current_enqueue h, outcomes, hitems]
  all_goals simp -failIfUnchanged only [enqueue_eq h, completions_request, hold, hc]
  · exact h.enabled
  · exact h.writable
  · exact tickets_concat h v
  · exact h.begun
  · exact h.device
  · have hr := h.routes.append_right [s.request v]
    simpa [hitems] using hr
  · have ht := h.told.append_right [((s.request v).ticket, .error .cancelled)]
    simpa [outcomes] using ht
  · have ho := h.order
    rw [hitems] at ho
    exact ho.trans (List.sublist_append_left ..)
  · simp
  · simp
  · simp

/-- An open queue takes the request in and gives up its oldest item where it is full. -/
theorem accounted_enqueue_of_open (h : Accounted d s) (hc : s.queue.closed = false) (v : Value) :
    Accounted d (s.enqueue v) := by
  classical
  have hqueue := push_enqueue h v
  rw [BoundedQueue.push_of_open _ _ hc] at hqueue
  have hsplit := s.queue.oldestIfFull_append_drop
  constructor
  all_goals simp -failIfUnchanged only [hqueue, current_enqueue h, outcomes]
  all_goals simp -failIfUnchanged only [enqueue_eq h, completions_request, hc]
  · exact h.enabled
  · exact h.writable
  · exact tickets_concat h v
  · exact h.begun
  · exact h.device
  · refine List.perm_iff_count.mpr fun r => ?_
    have hr := h.routes.count_eq r
    have hs := congrArg (List.count r) hsplit
    simp only [List.count_append, Bool.false_eq_true, if_false, List.count_nil] at hr hs ⊢
    omega
  · refine List.perm_iff_count.mpr fun c => ?_
    have ht := h.told.count_eq c
    simp only [outcomes, List.map_append, List.count_append, Bool.false_eq_true, if_false,
      List.count_nil, List.map_nil] at ht ⊢
    omega
  · have hkept : (s.begun ++ s.queue.items.drop s.queue.oldestIfFull.length).Sublist s.asked :=
      ((List.drop_sublist _ _).append_left _).trans h.order
    have ho := hkept.append_right [s.request v]
    rwa [List.append_assoc] at ho
  · simp
  · simp [h.uncancelled hc]
  · simp

theorem accounted_enqueue (h : Accounted d s) (v : Value) : Accounted d (s.enqueue v) := by
  cases hc : s.queue.closed with
  | true => exact accounted_enqueue_of_closed h hc v
  | false => exact accounted_enqueue_of_open h hc v

theorem accounted_dequeue (h : Accounted d s) : Accounted d s.dequeue := by
  unfold dequeue
  split
  · exact h
  · rename_i hidle
    simp only [Bool.or_eq_true, not_or, Bool.not_eq_true, Option.isSome_eq_false_iff,
      Option.isNone_iff_eq_none] at hidle
    obtain ⟨hopen, hnone⟩ := hidle
    cases htake : s.port.takeWrite with
    | none => exact h
    | some p =>
      obtain ⟨⟨r, w⟩, hw, rfl⟩ := Option.map_eq_some_iff.mp htake
      obtain ⟨⟨r', q⟩, hpop, heq⟩ := Option.map_eq_some_iff.mp hw
      cases heq
      have hitems : s.queue.items = r :: q.items := BoundedQueue.items_of_pop _ _ _ hpop
      have hclosed : q.closed = s.queue.closed := BoundedQueue.closed_of_pop hpop
      have hmove : (s.begun ++ [r]) ++ q.items = s.begun ++ s.queue.items := by simp [hitems]
      have hbegun : s.begun = s.calls.map Prod.fst := by simpa [hnone] using h.begun
      constructor
      all_goals simp -failIfUnchanged only [queue, current, Option.toList_some, hmove]
      · exact h.enabled
      · exact h.writable
      · exact h.tickets
      · rw [hbegun]
      · exact h.device
      · exact h.routes
      · exact h.told
      · exact h.order
      · intro hc
        rw [hclosed, hopen] at hc
        cases hc
      · exact fun _ => h.uncancelled hopen
      · exact fun _ => h.newest hopen

theorem current_finish (s : Pipeline) : s.finish.current = none := by
  unfold finish
  cases hcur : s.current with
  | none => exact hcur
  | some r =>
    have hflight : s.port.writes.current = some r := hcur
    simp only [current, Port.carryOut, WritePipe.finish, hflight, WritePipe.showHead]

theorem queue_finish (s : Pipeline) : s.finish.queue = s.queue := by
  unfold finish
  split
  · rfl
  · exact Port.carryOut_queue s.port

theorem accounted_finish (h : Accounted d s) : Accounted d s.finish := by
  classical
  unfold finish
  cases hcur : s.current with
  | none => exact h
  | some r =>
    have hcarry : s.port.carryOut =
        ([.completed r.ticket (s.port.device.write r.value).1],
          { s.port with
            device := (s.port.device.write r.value).2
            writes := { s.port.writes with current := none }.showHead }) := by
      simp only [Port.carryOut, WritePipe.finish, show s.port.writes.current = some r from hcur]
    have hbegun : s.begun = s.calls.map Prod.fst ++ [r] := by simpa [hcur] using h.begun
    constructor
    all_goals simp -failIfUnchanged only [hcarry, queue, current, WritePipe.showHead]
    · exact h.enabled
    · exact (Device.write_writable ..).trans h.writable
    · exact h.tickets
    · simpa using hbegun
    · have hdev := h.device
      simp only [List.map_append, List.map_cons, List.map_nil, Device.writeAll_concat, hdev]
    · exact h.routes
    · refine List.perm_iff_count.mpr fun c => ?_
      have ht := h.told.count_eq c
      simp only [outcomes, List.map_append, List.count_append, List.map_cons, List.map_nil,
        List.filterMap_cons, Signal.completion?, List.filterMap_nil] at ht ⊢
      omega
    · exact h.order
    · exact h.emptied
    · exact h.uncancelled
    · exact h.newest

theorem accounted_stop (h : Accounted d s) : Accounted d s.stop := by
  classical
  have hclose := WritePipe.completions_close s.port.writes
  constructor
  all_goals simp -failIfUnchanged only [stop, outcomes]
  · exact h.enabled
  · exact h.writable
  · exact h.tickets
  · exact h.begun
  · exact h.device
  · refine List.perm_iff_count.mpr fun r => ?_
    have hr := h.routes.count_eq r
    simp only [List.count_append] at hr ⊢
    change List.count r s.asked = List.count r s.begun + 0 + _ + _
    omega
  · refine List.perm_iff_count.mpr fun c => ?_
    have ht := h.told.count_eq c
    have hhalt : s.port.halt.1 = s.port.writes.close.1 := rfl
    simp only [outcomes, hhalt, hclose, List.map_append, List.count_append] at ht ⊢
    change _ + List.count c (s.queue.items.map _) = _
    omega
  · exact (List.append_sublist_append_left s.begun |>.mpr (List.nil_sublist _)).trans h.order
  · exact fun _ => rfl
  · exact nofun
  · exact nofun

theorem accounted_clear (h : Accounted d s) : Accounted d s.clear := by
  unfold clear
  split
  · exact ⟨h.enabled, h.writable, h.tickets, h.begun, h.device, h.routes, h.told, h.order,
      h.emptied, h.uncancelled, h.newest⟩
  · exact h

theorem accounted_step (h : Accounted d s) (a : PipelineStep) : Accounted d (s.step a) := by
  cases a with
  | enqueue v => exact accounted_enqueue h v
  | dequeue => exact accounted_dequeue h
  | finish => exact accounted_finish h
  | stop => exact accounted_stop h
  | clear => exact accounted_clear h

theorem accounted_start (p : Port) (capacity : Nat) (he : p.enabled = true)
    (hw : p.writable = true) (hp : p.writes = .create capacity) :
    Accounted p.device { port := p } := by
  have hq : p.writes.queue = .create capacity := by rw [hp]; rfl
  have hc : p.writes.current = none := by rw [hp]; rfl
  constructor
  all_goals simp -failIfUnchanged [queue, current, hq, hc, outcomes, Device.writeAll, he, hw,
    BoundedQueue.create]

theorem asked_step (h : Accounted d s) (a : PipelineStep) :
    (s.step a).asked.map WriteRequest.value =
      s.asked.map WriteRequest.value ++ valuesAsked [a] := by
  cases a with
  | enqueue v =>
    show (s.enqueue v).asked.map _ = _
    rw [enqueue_eq h, List.map_append]
    rfl
  | dequeue => simp only [step, dequeue]; repeat' split <;> simp [valuesAsked]
  | finish => simp only [step, finish]; split <;> simp [valuesAsked]
  | stop => simp [step, stop, valuesAsked]
  | clear => simp only [step, clear]; split <;> simp [valuesAsked]

theorem closed_step (s : Pipeline) (a : PipelineStep) :
    (s.step a).queue.closed = true ↔ s.queue.closed = true ∨ a = .stop := by
  cases a with
  | enqueue v =>
    have hclosed := Port.enqueueWrite_closed s.port v (s.request v).ticket
    simp only [step, enqueue, reduceCtorEq, or_false]
    split <;> simp_all [queue]
  | dequeue =>
    simp only [step, dequeue, reduceCtorEq, or_false]
    split
    · rfl
    · cases htake : s.port.takeWrite with
      | none => rfl
      | some p =>
        obtain ⟨⟨r, w⟩, hw, rfl⟩ := Option.map_eq_some_iff.mp htake
        show w.queue.closed = true ↔ s.port.writes.queue.closed = true
        rw [WritePipe.take_closed hw]
  | finish => simp only [step, queue_finish, reduceCtorEq, or_false]
  | stop => simp [step, stop, queue, Port.halt, WritePipe.close, BoundedQueue.close]
  | clear =>
    simp only [step, clear, reduceCtorEq, or_false]
    split <;> rfl

/-! ### Runs -/

variable {p : Port} {capacity : Nat}

theorem run_concat (p : Port) (steps : List PipelineStep) (a : PipelineStep) :
    run p (steps ++ [a]) = (run p steps).step a := by
  simp only [run, List.foldl_append, List.foldl_cons, List.foldl_nil]

theorem accounted_run (he : p.enabled = true) (hw : p.writable = true)
    (hp : p.writes = .create capacity) (steps : List PipelineStep) :
    Accounted p.device (run p steps) := by
  induction steps using List.reverseRecOn with
  | nil => exact accounted_start p capacity he hw hp
  | append_singleton steps a ih =>
    rw [run_concat]
    exact accounted_step ih a

theorem asked_run (he : p.enabled = true) (hw : p.writable = true)
    (hp : p.writes = .create capacity) (steps : List PipelineStep) :
    (run p steps).asked.map WriteRequest.value = valuesAsked steps := by
  induction steps using List.reverseRecOn with
  | nil => rfl
  | append_singleton steps a ih =>
    rw [run_concat, asked_step (accounted_run he hw hp steps), ih, valuesAsked, valuesAsked,
      valuesAsked, List.filterMap_append]

theorem closed_run (hp : p.writes = .create capacity) (steps : List PipelineStep) :
    (run p steps).queue.closed = true ↔ .stop ∈ steps := by
  induction steps using List.reverseRecOn with
  | nil => simp [run, queue, hp, WritePipe.create, BoundedQueue.create]
  | append_singleton steps a ih =>
    rw [run_concat, closed_step, ih]
    simp [eq_comm]

/-! ### What becomes of a write -/

section
variable (h : Accounted d s)
include h

theorem Accounted.nodup_tickets : (s.asked.map WriteRequest.ticket).Nodup := by
  rw [h.tickets]
  exact List.nodup_range

theorem Accounted.eq_of_ticket {r r' : WriteRequest} (hr : r ∈ s.asked) (hr' : r' ∈ s.asked)
    (ht : r.ticket = r'.ticket) : r = r' :=
  List.inj_on_of_nodup_map h.nodup_tickets hr hr' ht

theorem Accounted.mem_asked_iff (r : WriteRequest) :
    r ∈ s.asked ↔ r ∈ s.begun ∨ r ∈ s.queue.items ∨ r ∈ s.evicted ∨ r ∈ s.cancelled := by
  rw [h.routes.mem_iff]
  simp only [List.mem_append, or_assoc]

theorem Accounted.mem_asked_of_call {r : WriteRequest} {result : Except PortError Unit}
    (hc : (r, result) ∈ s.calls) : r ∈ s.asked := by
  have hb : r ∈ s.begun := by
    rw [h.begun]
    exact List.mem_append_left _ (List.mem_map_of_mem hc)
  exact (h.mem_asked_iff r).mpr (.inl hb)

theorem Accounted.nodup_routes :
    (s.begun ++ s.queue.items ++ s.evicted ++ s.cancelled).Nodup :=
  h.routes.nodup_iff.mp (h.nodup_tickets.of_map _)

theorem Accounted.nodup_completions : (s.completions.map Prod.fst).Nodup := by
  have hperm := h.told.map Prod.fst
  have hdecided : (s.calls.map Prod.fst ++ s.evicted ++ s.cancelled).Sublist
      (s.begun ++ s.queue.items ++ s.evicted ++ s.cancelled) := by
    rw [h.begun]
    refine List.Sublist.append_right (List.Sublist.append_right ?_ _) _
    rw [List.append_assoc]
    exact List.sublist_append_left ..
  have hnodup := (((h.routes.map WriteRequest.ticket).nodup_iff.mp h.nodup_tickets).sublist
    (hdecided.map WriteRequest.ticket))
  refine hperm.nodup_iff.mpr ?_
  simpa [outcomes, Function.comp_def] using hnodup

theorem Accounted.mem_completions_iff {r : WriteRequest} (hr : r ∈ s.asked)
    (result : Except PortError Unit) :
    (r.ticket, result) ∈ s.completions ↔
      (r, result) ∈ s.calls ∨ (r ∈ s.evicted ∧ result = .error .queueFull) ∨
        (r ∈ s.cancelled ∧ result = .error .cancelled) := by
  rw [h.told.mem_iff]
  simp only [outcomes, List.mem_append, List.mem_map, Prod.mk.injEq, or_assoc]
  constructor
  · rintro (⟨⟨r', answer⟩, hc, ht, rfl⟩ | ⟨r', he, ht, rfl⟩ | ⟨r', hd, ht, rfl⟩)
    · obtain rfl := h.eq_of_ticket (h.mem_asked_of_call hc) hr ht
      exact .inl hc
    · obtain rfl := h.eq_of_ticket ((h.mem_asked_iff r').mpr (.inr (.inr (.inl he)))) hr ht
      exact .inr (.inl ⟨he, rfl⟩)
    · obtain rfl := h.eq_of_ticket ((h.mem_asked_iff r').mpr (.inr (.inr (.inr hd)))) hr ht
      exact .inr (.inr ⟨hd, rfl⟩)
  · rintro (hc | ⟨he, rfl⟩ | ⟨hd, rfl⟩)
    · exact .inl ⟨(r, result), hc, rfl, rfl⟩
    · exact .inr (.inl ⟨r, he, rfl, rfl⟩)
    · exact .inr (.inr ⟨r, hd, rfl, rfl⟩)

theorem Accounted.exists_completion (hc : s.current = none) (hi : s.queue.items = [])
    {r : WriteRequest} (hr : r ∈ s.asked) : ∃ result, (r.ticket, result) ∈ s.completions := by
  rcases (h.mem_asked_iff r).mp hr with hb | hq | he | hd
  · rw [h.begun, hc, Option.toList_none, List.append_nil] at hb
    obtain ⟨⟨r', result⟩, hcall, rfl⟩ := List.mem_map.mp hb
    exact ⟨result, (h.mem_completions_iff hr result).mpr (.inl hcall)⟩
  · rw [hi] at hq
    cases hq
  · exact ⟨_, (h.mem_completions_iff hr _).mpr (.inr (.inl ⟨he, rfl⟩))⟩
  · exact ⟨_, (h.mem_completions_iff hr _).mpr (.inr (.inr ⟨hd, rfl⟩))⟩

theorem Accounted.existsUnique_completion (hc : s.current = none) (hi : s.queue.items = [])
    {r : WriteRequest} (hr : r ∈ s.asked) : ∃! result, (r.ticket, result) ∈ s.completions := by
  obtain ⟨result, hresult⟩ := h.exists_completion hc hi hr
  refine ⟨result, hresult, fun other hother => ?_⟩
  exact congrArg Prod.snd (List.inj_on_of_nodup_map h.nodup_completions hother hresult rfl)

theorem Accounted.mem_asked_of_completion {c : Ticket × Except PortError Unit}
    (hc : c ∈ s.completions) : ∃ r ∈ s.asked, r.ticket = c.1 := by
  have hc := h.told.mem_iff.mp hc
  simp only [outcomes, List.mem_append, List.mem_map, or_assoc] at hc
  obtain ⟨⟨r, answer⟩, hcall, rfl⟩ | ⟨r, he, rfl⟩ | ⟨r, hd, rfl⟩ := hc
  · exact ⟨r, h.mem_asked_of_call hcall, rfl⟩
  · exact ⟨r, (h.mem_asked_iff r).mpr (.inr (.inr (.inl he))), rfl⟩
  · exact ⟨r, (h.mem_asked_iff r).mpr (.inr (.inr (.inr hd))), rfl⟩

/-- A new write goes to the end of an open queue; what is given up for it waited before it. -/
theorem Accounted.queue_enqueue (v : Value) (hc : s.queue.closed = false) :
    s.queue.oldestIfFull ++ (s.enqueue v).queue.items = s.queue.items ++ [s.request v] := by
  rw [push_enqueue h, BoundedQueue.push_of_open _ _ hc, ← List.append_assoc,
    s.queue.oldestIfFull_append_drop]

theorem Accounted.ticket_lt {r : WriteRequest} (hr : r ∈ s.asked) :
    r.ticket < s.asked.length := by
  have ht := List.mem_map_of_mem (f := WriteRequest.ticket) hr
  rw [h.tickets] at ht
  exact List.mem_range.mp ht

theorem Accounted.request_not_evicted (v : Value) : s.request v ∉ (s.enqueue v).evicted := by
  rw [enqueue_eq h]
  intro hmem
  have hasked : s.request v ∈ s.asked := by
    rcases List.mem_append.mp hmem with he | ho
    · exact (h.mem_asked_iff _).mpr (.inr (.inr (.inl he)))
    · have hq : s.request v ∈ s.queue.items := by
        rw [← s.queue.oldestIfFull_append_drop]
        exact List.mem_append_left _ ho
      exact (h.mem_asked_iff _).mpr (.inr (.inl hq))
  exact Nat.lt_irrefl _ (h.ticket_lt hasked)

end

/-- What is known of the writes of a port with the device `d` after the given steps. -/
structure Correct (d : Device) (steps : List PipelineStep) (s : Pipeline) : Prop where
  /-- The ledger has an entry for each request, each under a ticket of its own. -/
  asked : s.asked.map WriteRequest.value = valuesAsked steps
  tickets : (s.asked.map WriteRequest.ticket).Nodup
  /-- The device has been called with these values, one after another, and has answered so. -/
  device : d.writeAll (s.calls.map fun c => c.1.value) = (s.calls.map Prod.snd, s.port.device)
  /-- A write begins when all writes begun before it have been answered. -/
  oneAtATime : s.begun = s.calls.map Prod.fst ++ s.current.toList
  inOrder : s.begun.Sublist s.asked
  atMostOnce : (s.completions.map Prod.fst).Nodup ∧
    ∀ c ∈ s.completions, ∃ r ∈ s.asked, r.ticket = c.1
  outcome : ∀ r ∈ s.asked, ∀ result, (r.ticket, result) ∈ s.completions ↔
    (r, result) ∈ s.calls ∨ (r ∈ s.evicted ∧ result = .error .queueFull) ∨
      (r ∈ s.cancelled ∧ result = .error .cancelled)
  /-- No write takes two ways. -/
  apart : (s.begun ++ s.queue.items ++ s.evicted ++ s.cancelled).Nodup
  /-- Once the queue has drained, or the worker has ended after a stop. -/
  exactlyOnce : s.current = none → s.queue.items = [] ∨ .stop ∈ steps →
    ∀ r ∈ s.asked, ∃! result, (r.ticket, result) ∈ s.completions
  cancelledByStop : s.cancelled ≠ [] → .stop ∈ steps
  /-- A request gives up at most the oldest of a full queue and stays itself. -/
  eviction : ∀ v, (s.enqueue v).evicted = s.evicted ++ s.queue.oldestIfFull ∧
    s.request v ∉ (s.enqueue v).evicted ∧
    (.stop ∉ steps → s.queue.oldestIfFull ++ (s.enqueue v).queue.items =
      s.queue.items ++ [s.request v])
  newest : .stop ∉ steps → s.current = none → s.queue.items = [] →
    (s.calls.map Prod.fst).getLast? = s.asked.getLast?

theorem correct_run (p : Port) (capacity : Nat) (he : p.enabled = true)
    (hw : p.writable = true) (hp : p.writes = .create capacity) (steps : List PipelineStep) :
    Correct p.device steps (run p steps) := by
  have h := accounted_run he hw hp steps
  have hclosed := closed_run hp steps
  have hopen : .stop ∉ steps → (run p steps).queue.closed = false := fun hn => by
    simpa [hn] using hclosed
  constructor
  · exact asked_run he hw hp steps
  · exact h.nodup_tickets
  · exact h.device
  · exact h.begun
  · exact (List.sublist_append_left ..).trans h.order
  · exact ⟨h.nodup_completions, fun c hc => h.mem_asked_of_completion hc⟩
  · exact fun r hr result => h.mem_completions_iff hr result
  · exact h.nodup_routes
  · intro hcur hdone r hr
    have hitems := hdone.elim id fun hs => h.emptied (hclosed.mpr hs)
    exact h.existsUnique_completion hcur hitems hr
  · intro hcancelled
    by_contra hn
    exact hcancelled (h.uncancelled (hopen hn))
  · exact fun v => ⟨by rw [enqueue_eq h], h.request_not_evicted v,
      fun hn => h.queue_enqueue v (hopen hn)⟩
  · intro hn hcur hitems
    have hnewest := h.newest (hopen hn)
    rwa [hitems, List.append_nil, h.begun, hcur, Option.toList_none, List.append_nil] at hnewest

def switch : Port :=
  .create ⟨"switch", 0⟩ (.memory { type := .boolean, writable := true }) false 1

/-- While a first write is under way, a third one drives out the second and is cancelled. -/
def rush : List PipelineStep :=
  [.enqueue (.bool true), .dequeue, .enqueue (.bool false), .enqueue (.bool true), .stop, .finish]

theorem correct_run_rush :
    switch.enabled = true ∧ switch.writable = true ∧ switch.writes = .create 1 ∧
      Correct switch.device rush (run switch rush) :=
  ⟨rfl, rfl, rfl, correct_run switch 1 rfl rfl rfl rush⟩

example : (run switch rush).completions =
    [(1, .error .queueFull), (2, .error .cancelled), (0, .ok ())] := rfl

end Pipeline

end ControlNode
