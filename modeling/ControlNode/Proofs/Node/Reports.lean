import ControlNode.Proofs.Node.Lifecycles

/-!
# Reports after a shutdown

Once all services have been shut down, each of them reports how it has ended, whatever it was in
the middle of: stopped where its result is a success, failed where a call has failed or has been
given up. A panic ends a service without a report: what it reported at that call stays
(`reports_after_shutdown`).
-/

namespace ControlNode.Node

open Service

/-- After any history of services, with all services shut down at its end: each has ended. What it
reports goes with its calls, and unless a call has panicked it is stopped or failed as its result
says; after a panic it is what it was before, and never that the service has ended. -/
theorem reports_after_shutdown (config : NodeConfig) (backend : Backend) (wall : Int) (zone : Zone)
    (ops : List ServiceOperation) :
    let n := ((create config backend wall zone).serving ops).shutdownAll.2
    ∀ s ∈ n.services, ∃ r, s.result? = some r ∧
      (.panics ∉ s.calls → s.state = .ofResult r) ∧
      (.panics ∈ s.calls → r = .error (.panicked s.spec.id) ∧
        ∃ earlier, s.calls = .panics :: earlier ∧ .panics ∉ earlier ∧
          s.state = reportAfter earlier ∧ s.state ≠ .stopped ∧ s.state ≠ .failed) := by
  intro n s hs
  have hstaffed : Staffed ((create config backend wall zone).serving ops) :=
    (create_staffed config backend wall zone).serving ops
  obtain ⟨k, hk, rfl⟩ := List.getElem_of_mem hs
  have hservice : n.service? k = some n.services[k] := List.getElem?_eq_getElem hk
  obtain ⟨-, r, hr⟩ := hstaffed.shutdownAll_ended hservice
  have hkept := hstaffed.shutdownAll.kept hservice
  have hfits := hkept.fits
  rw [hr] at hfits
  refine ⟨r, by rw [result?, hr], fun hpanic => ?_, fun hpanic => ?_⟩
  · exact hkept.reports.trans (hfits.report_of_ended hpanic)
  · obtain ⟨hresult, earlier, hcalls, hnone, hends⟩ := hfits.report_of_panics hpanic
    have hstate : n.services[k].state = reportAfter earlier := by
      rw [hkept.reports, hcalls]
      rfl
    exact ⟨hresult, earlier, hcalls, hnone, hstate, hstate ▸ hends⟩

/-- A service that takes too long to stop reports that it has failed. -/
theorem reports_after_shutdown_late :
    let script (_ : List CallEvent) (c : Callback) : CallScript :=
      match c with
      | .stop => ⟨20, .succeeds⟩
      | _ => ⟨0, .succeeds⟩
    let n := ((create {} (.memory {}) 0).serving
      [.spawn { id := "a", stopWithin := 10 } script]).shutdownAll.2
    ∃ s ∈ n.services, s.result? = some (.error (.shutdownTimeout "a")) ∧ s.state = .failed := by
  intro script n
  have hservice : (n.service? 0).bind Service.result? =
      some (.error (.shutdownTimeout "a")) := by
    decide +kernel
  obtain ⟨s, hs, hresult⟩ := Option.bind_eq_some_iff.mp hservice
  have hmem : s ∈ n.services := List.mem_of_getElem? hs
  obtain ⟨r, hr, hstate, hpanic⟩ := reports_after_shutdown {} (.memory {}) 0 .utc
    [.spawn { id := "a", stopWithin := 10 } script] s hmem
  cases hresult.symm.trans hr
  refine ⟨s, hmem, hresult, hstate fun hcalls => ?_⟩
  cases (hpanic hcalls).1

/-- A service whose ticks panic still reports that it runs after it has been shut down. -/
theorem reports_running_after_panic :
    let script (_ : List CallEvent) (c : Callback) : CallScript :=
      match c with
      | .tick => ⟨0, .panics⟩
      | _ => ⟨0, .succeeds⟩
    let n := ((create {} (.memory {}) 0).serving
      [.spawn { id := "a", period := some 10 } script, .run 0, .run 0]).shutdownAll
    n.1 = .error (.panicked "a") ∧ (n.2.service? 0).map Service.state = some .running ∧
      (n.2.service? 0).bind Service.result? = some (.error (.panicked "a")) := by
  decide +kernel

end ControlNode.Node
