import ControlNode.Proofs.Service.Lifecycle

/-!
# What services report

A service reports a state of its own, which goes with the record of its calls: the last event says
how far it has come, except that a panic leaves the report as it was (`reportAfter`). Once a service
has ended, the report tells how, unless a call has panicked (`Fits.report_of_ended`).
-/

namespace ControlNode

def ServiceState.ofResult : Except ServiceError Unit → ServiceState
  | .ok () => .stopped
  | .error _ => .failed

/-- What a service reports after the calls, the latest one first. -/
def reportAfter : List CallEvent → ServiceState
  | [] => .starting
  | .begins .start :: _ => .starting
  | .begins .stop :: _ => .stopping
  | .begins _ :: _ => .running
  | .ends .start (.ok ()) :: _ => .running
  | .ends .start (.error _) :: _ => .failed
  | .ends .stop r :: _ => .ofResult r
  | .ends _ _ :: _ => .running
  | .panics :: calls => reportAfter calls

/-- What a service reports while a call is under way. -/
def Callback.report : Callback → ServiceState
  | .start => .starting
  | .stop => .stopping
  | _ => .running

theorem Callback.report_ne (c : Callback) : c.report ≠ .stopped ∧ c.report ≠ .failed := by
  cases c <;> exact ⟨nofun, nofun⟩

theorem reportAfter_begins (c : Callback) (calls : List CallEvent) :
    reportAfter (.begins c :: calls) = c.report := by
  cases c <;> rfl

theorem reportAfter_served {c : Callback} (hstart : c ≠ .start) (hstop : c ≠ .stop)
    (r : Except ServiceError Unit) (calls : List CallEvent) :
    reportAfter (.ends c r :: calls) = .running := by
  cases c with
  | start => exact absurd rfl hstart
  | stop => exact absurd rfl hstop
  | tick => rfl
  | event e => rfl

variable {id : String} {calls : List CallEvent} {c : Callback} {r : Except ServiceError Unit}

theorem Serving.report (h : Serving calls) : reportAfter calls = .running := by
  cases h with
  | started => rfl
  | served h hstart hstop => exact reportAfter_served hstart hstop _ _

theorem Serving.panics_notMem (h : Serving calls) : .panics ∉ calls := by
  induction h with
  | started => simp
  | served h hstart hstop ih => simp [ih]

theorem Underway.report (h : Underway calls c) : reportAfter calls = c.report := by
  cases h <;> exact reportAfter_begins _ _

theorem Underway.panics_notMem (h : Underway calls c) : .panics ∉ calls := by
  cases h with
  | start => simp
  | serve h hc => simp [h.panics_notMem]

theorem Fits.report_of_ended (h : Fits id calls (.ended r)) (hpanic : .panics ∉ calls) :
    reportAfter calls = .ofResult r := by
  cases h with
  | failed => rfl
  | stopped h => rfl
  | panicked h => simp at hpanic
  | startled => simp at hpanic

theorem Fits.report_of_panics (h : Fits id calls (.ended r)) (hpanic : .panics ∈ calls) :
    r = .error (.panicked id) ∧ ∃ earlier, calls = .panics :: earlier ∧ .panics ∉ earlier ∧
      reportAfter earlier ≠ .stopped ∧ reportAfter earlier ≠ .failed := by
  cases h with
  | failed => simp at hpanic
  | stopped h => simp [h.panics_notMem] at hpanic
  | @panicked _ c h => exact ⟨rfl, _, rfl, h.panics_notMem, h.report ▸ c.report_ne⟩
  | startled => exact ⟨rfl, _, rfl, by simp, nofun, nofun⟩

end ControlNode
