import ControlNode.Service.Basic

/-!
# Lives of services

What the record of the calls of a service looks like, the latest event first, at each point of
its life (`Fits`). Whatever has become of the service, its first call was the one to start, what
came after it went on a start that had succeeded, and nothing came after a stop
(`Fits.lifecycle`).
-/

namespace ControlNode

def CallEvent.beginsStop : CallEvent → Bool
  | .begins .stop => true
  | _ => false

theorem CallEvent.beginsStop_iff {e : CallEvent} : e.beginsStop = true ↔ e = .begins .stop := by
  unfold beginsStop
  split
  · simp
  · rename_i he
    simpa using he

/-- How often a service has been called to stop. -/
def stopCount (calls : List CallEvent) : Nat := calls.countP CallEvent.beginsStop

theorem stopCount_eq_zero {calls : List CallEvent} (h : .begins .stop ∉ calls) :
    stopCount calls = 0 :=
  List.countP_eq_zero.mpr fun _ he hstop => h (CallEvent.beginsStop_iff.mp hstop ▸ he)

/-! ### Records in order -/

/-- A record of calls in an order that a service can rely on. -/
structure Lifecycle (calls : List CallEvent) : Prop where
  /-- The service starts first, and once. -/
  start_first : ∀ {later c earlier}, calls = later ++ .begins c :: earlier →
    (c = .start ↔ earlier = [])
  /-- Nothing else begins unless the start has succeeded, and nothing after a stop. -/
  between : ∀ {later c earlier}, calls = later ++ .begins c :: earlier → c ≠ .start →
    .ends .start (.ok ()) ∈ earlier ∧ .begins .stop ∉ earlier

namespace Lifecycle

variable {e : CallEvent} {calls : List CallEvent} {c : Callback}

theorem nil : Lifecycle [] := ⟨by simp, by simp⟩

theorem cons (h : Lifecycle calls) (he : ∀ c, e ≠ .begins c) : Lifecycle (e :: calls) := by
  have hpast {later c earlier} (hcalls : e :: calls = later ++ .begins c :: earlier) :
      ∃ later', calls = later' ++ .begins c :: earlier := by
    obtain ⟨-, hcons⟩ | ⟨later', -, hcalls⟩ := List.cons_eq_append_iff.mp hcalls
    · exact absurd (List.cons.inj hcons).1.symm (he c)
    · exact ⟨later', hcalls⟩
  constructor
  · intro later c earlier hcalls
    obtain ⟨later', hcalls⟩ := hpast hcalls
    exact h.start_first hcalls
  · intro later c earlier hcalls
    obtain ⟨later', hcalls⟩ := hpast hcalls
    exact h.between hcalls

theorem begins (h : Lifecycle calls) (hstart : c = .start ↔ calls = [])
    (hbetween : c ≠ .start → .ends .start (.ok ()) ∈ calls ∧ .begins .stop ∉ calls) :
    Lifecycle (.begins c :: calls) := by
  constructor
  all_goals
    intro later c' earlier hcalls
    obtain ⟨-, hcons⟩ | ⟨later', -, hcalls⟩ := List.cons_eq_append_iff.mp hcalls
  · cases hcons
    exact hstart
  · exact h.start_first hcalls
  · cases hcons
    exact hbetween
  · exact h.between hcalls

theorem tail (h : Lifecycle (e :: calls)) : Lifecycle calls :=
  ⟨fun {later} _ _ hcalls => h.start_first (by rw [hcalls, ← List.cons_append]),
    fun {later} _ _ hcalls => h.between (by rw [hcalls, ← List.cons_append])⟩

theorem stopCount_le_one (h : Lifecycle calls) : stopCount calls ≤ 1 := by
  induction calls with
  | nil => exact Nat.zero_le 1
  | cons e calls ih =>
    by_cases he : e.beginsStop = true
    · have hcalls : e :: calls = [] ++ .begins .stop :: calls := by
        rw [CallEvent.beginsStop_iff.mp he]
        rfl
      have hearlier : .begins .stop ∉ calls := (h.between hcalls nofun).2
      have hnone : calls.countP CallEvent.beginsStop = 0 := stopCount_eq_zero hearlier
      rw [stopCount, List.countP_cons_of_pos he]
      exact Nat.succ_le_succ (Nat.le_of_eq hnone)
    · rw [stopCount, List.countP_cons_of_neg he]
      exact ih h.tail

end Lifecycle

/-- What the result of a service of an id goes back to. -/
inductive Outcome (id : String) (calls : List CallEvent) (r : Except ServiceError Unit) : Prop where
  | stop (h : .ends .stop r ∈ calls)
  | start {e : ServiceError} (hr : r = .error e) (h : .ends .start r ∈ calls)
  | panic (hr : r = .error (.panicked id)) (h : .panics ∈ calls)

/-! ### Records from call to call -/

/-- A service that has started has been called any number of times and waits. -/
inductive Serving : List CallEvent → Prop where
  | started : Serving [.ends .start (.ok ()), .begins .start]
  | served {calls : List CallEvent} {c : Callback} {r : Except ServiceError Unit}
      (h : Serving calls) (hstart : c ≠ .start) (hstop : c ≠ .stop) :
      Serving (.ends c r :: .begins c :: calls)

inductive Underway : List CallEvent → Callback → Prop where
  | start : Underway [.begins .start] .start
  | serve {calls : List CallEvent} {c : Callback} (h : Serving calls) (hc : c ≠ .start) :
      Underway (.begins c :: calls) c

/-- What the record of a service of an id is in each phase. -/
inductive Fits (id : String) : List CallEvent → ServicePhase → Prop where
  | spawned : Fits id [] .spawned
  | calling {calls : List CallEvent} {c : Callback} {script : CallScript} {timer : Nat}
      (h : Underway calls c) : Fits id calls (.calling c script timer)
  | waiting {calls : List CallEvent} (h : Serving calls) : Fits id calls .waiting
  | failed {e : ServiceError} :
      Fits id [.ends .start (.error e), .begins .start] (.ended (.error e))
  | stopped {calls : List CallEvent} {r : Except ServiceError Unit} (h : Serving calls) :
      Fits id (.ends .stop r :: .begins .stop :: calls) (.ended r)
  | panicked {calls : List CallEvent} {c : Callback} (h : Underway calls c) :
      Fits id (.panics :: calls) (.ended (.error (.panicked id)))
  -- ticks at an interval of no length cannot be set up once the service has started
  | startled : Fits id [.panics, .ends .start (.ok ()), .begins .start]
      (.ended (.error (.panicked id)))

namespace Serving

variable {calls : List CallEvent}

theorem ne_nil (h : Serving calls) : calls ≠ [] := by cases h <;> simp

theorem started_mem (h : Serving calls) : .ends .start (.ok ()) ∈ calls := by
  induction h with
  | started => simp
  | served h hstart hstop ih => simp [ih]

theorem begins_mem (h : Serving calls) : .begins .start ∈ calls := by
  induction h with
  | started => simp
  | served h hstart hstop ih => simp [ih]

theorem stop_notMem (h : Serving calls) : .begins .stop ∉ calls := by
  induction h with
  | started => simp
  | served h hstart hstop ih => simp [ih, Ne.symm hstop]

theorem underway (h : Serving calls) {c : Callback} (hc : c ≠ .start) :
    Lifecycle calls → Lifecycle (.begins c :: calls) := fun hl =>
  hl.begins ⟨fun hc' => absurd hc' hc, fun hnil => absurd hnil h.ne_nil⟩
    fun _ => ⟨h.started_mem, h.stop_notMem⟩

theorem lifecycle (h : Serving calls) : Lifecycle calls := by
  induction h with
  | started => exact (Lifecycle.nil.begins (by simp) (by simp)).cons (by simp)
  | served h hstart hstop ih => exact (h.underway hstart ih).cons (by simp)

end Serving

namespace Underway

variable {calls : List CallEvent} {c : Callback}

theorem lifecycle (h : Underway calls c) : Lifecycle calls := by
  cases h with
  | start => exact Lifecycle.nil.begins (by simp) (by simp)
  | serve h hc => exact h.underway hc h.lifecycle

theorem begins_mem (h : Underway calls c) : .begins .start ∈ calls := by
  cases h with
  | start => simp
  | serve h hc => simp [h.begins_mem]

theorem eq_of_start (h : Underway calls .start) : calls = [.begins .start] := by
  cases h with
  | start => rfl
  | serve h hc => exact absurd rfl hc

theorem serving (h : Underway calls c) (hc : c ≠ .start) :
    ∃ earlier, calls = .begins c :: earlier ∧ Serving earlier := by
  cases h with
  | start => exact absurd rfl hc
  | serve h _ => exact ⟨_, rfl, h⟩

end Underway

namespace Fits

variable {id : String} {calls : List CallEvent} {phase : ServicePhase}
  {r : Except ServiceError Unit}

theorem lifecycle (h : Fits id calls phase) : Lifecycle calls := by
  cases h with
  | spawned => exact .nil
  | calling h => exact h.lifecycle
  | waiting h => exact h.lifecycle
  | failed => exact (Underway.start.lifecycle).cons (by simp)
  | stopped h => exact (h.underway (by simp) h.lifecycle).cons (by simp)
  | panicked h => exact h.lifecycle.cons (by simp)
  | startled => exact Serving.started.lifecycle.cons (by simp)

theorem eq_nil (h : Fits id calls .spawned) : calls = [] := by
  cases h
  rfl

theorem underway {c : Callback} {script : CallScript} {timer : Nat}
    (h : Fits id calls (.calling c script timer)) : Underway calls c := by
  cases h with
  | calling h => exact h

theorem serving (h : Fits id calls .waiting) : Serving calls := by
  cases h with
  | waiting h => exact h

theorem not_updating : ¬ Fits id calls .updating := nofun

theorem begins_mem (h : Fits id calls (.ended r)) : .begins .start ∈ calls := by
  cases h with
  | failed => simp
  | stopped h => simp [h.begins_mem]
  | panicked h => simp [h.begins_mem]
  | startled => simp

theorem outcome (h : Fits id calls (.ended r)) : Outcome id calls r := by
  cases h with
  | failed => exact .start rfl (by simp)
  | stopped h => exact .stop (by simp)
  | panicked h => exact .panic rfl (by simp)
  | startled => exact .panic rfl (by simp)

/-- A service that has ended without a panic after a good start has been stopped. -/
theorem stopCount_eq_one (h : Fits id calls (.ended r)) (hstart : .ends .start (.ok ()) ∈ calls)
    (hpanic : .panics ∉ calls) : stopCount calls = 1 := by
  cases h with
  | failed => simp at hstart
  | stopped h =>
    rw [stopCount, List.countP_cons_of_neg (by simp [CallEvent.beginsStop]),
      List.countP_cons_of_pos rfl, ← stopCount, stopCount_eq_zero h.stop_notMem]
  | panicked h => simp at hpanic
  | startled => simp at hpanic

end Fits

end ControlNode
