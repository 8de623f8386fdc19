import ControlNode.Node.Run
import ControlNode.Proofs.Service.Reports

/-!
# Turns of services

What a service with a script can do when it is its turn: take something up and call for it, end
a call that has taken its time, drop an event, or wait (`Turn`). All that a turn touches is the
service itself and the timers (`pollService_turn`). A turn keeps the record of calls in order
(`Turn.kept`), and turns that follow each other at once come to an end (`Turn.backlog_lt`).
-/

namespace ControlNode

open Node (Progress)

namespace Service

/-! ### Calls -/

inductive TakesUp (now : Nat) (s : Service) : Callback → Service → Prop where
  | start (h : s.phase = .spawned) : TakesUp now s .start s
  | demand {rest : List Command} (h : s.phase = .waiting) (hc : s.commands = .tick :: rest) :
      TakesUp now s .tick { s with commands := rest }
  | stop {rest : List Command} (h : s.phase = .waiting) (hc : s.commands = .stop :: rest) :
      TakesUp now s .stop { s with commands := rest, state := .stopping }
  | event {e : Event} {rest : List Event} (h : s.phase = .waiting) (hc : s.commands = [])
      (hi : s.inbox = e :: rest) : TakesUp now s (.event e) { s with inbox := rest }
  | due {period due : Nat} (h : s.phase = .waiting) (hc : s.commands = [])
      (hp : s.spec.period = some period) (hn : s.nextTick = some due) (hd : due ≤ now) :
      TakesUp now s .tick (s.takeTick now period due)

inductive CallEnds (now : Nat) (s : Service) : Callback → Progress → Service → Prop where
  | panics {c : Callback} : CallEnds now s c .waits s.panic
  | failed {e : ServiceError} : CallEnds now s .start .waits
      ((s.record (.ends .start (.error e))).finish .failed (.error e))
  | started (hp : s.spec.period ≠ some 0) : CallEnds now s .start .again
      { s.record (.ends .start (.ok ())) with
        state := .running, phase := .waiting, nextTick := s.spec.period.map fun _ => now }
  | startled (hp : s.spec.period = some 0) : CallEnds now s .start .waits
      ({ s.record (.ends .start (.ok ())) with state := .running, phase := .waiting } :
        Service).panic
  | stopped {r : Except ServiceError Unit} : CallEnds now s .stop .waits
      ((s.record (.ends .stop r)).finish (.ofResult r) r)
  | served {c : Callback} {r : Except ServiceError Unit} (hstart : c ≠ .start) (hstop : c ≠ .stop) :
      CallEnds now s c .again { s.record (.ends c r) with phase := .waiting }

end Service

/-! ### Turns -/

open Service

/-- The turn of a service of a number: how it goes on and what it leaves of the agenda and of
itself. -/
inductive Turn (a : Agenda) (k : Nat) (s : Service) : Progress → Agenda → Service → Prop where
  /-- It waits for its call to end, or for something to do. -/
  | waits (hcall : ∀ {c script timer}, s.phase = .calling c script timer → a.isSet timer = true)
      (hspawned : s.phase ≠ .spawned) (hc : s.phase = .waiting → s.commands = []) :
      Turn a k s .waits a s
  | sets {due : Nat} (h : s.phase = .waiting) (hc : s.commands = []) (hd : a.clock < due) :
      Turn a k s .waits (a.setTimer (.service k) due).2 { s with tickTimer := some a.nextTimer }
  | skips {e : Event} {rest : List Event} (h : s.phase = .waiting) (hc : s.commands = [])
      (hi : s.inbox = e :: rest) : Turn a k s .again a { s with inbox := rest }
  | begins {c : Callback} {s' : Service} {script : CallScript} {duration : Nat}
      (h : s.TakesUp a.clock c s') (hd : 0 < duration) :
      Turn a k s .waits (a.setTimer (.service k) (a.clock + duration)).2
        { s'.record (.begins c) with phase := .calling c script a.nextTimer }
  | calls {c : Callback} {s' t : Service} {p : Progress} (h : s.TakesUp a.clock c s')
      (ht : (s'.record (.begins c)).CallEnds a.clock c p t) : Turn a k s p a t
  | ends {c : Callback} {script : CallScript} {timer : Nat} {t : Service} {p : Progress}
      (h : s.phase = .calling c script timer) (hs : a.isSet timer = false)
      (ht : s.CallEnds a.clock c p t) : Turn a k s p a t

namespace Node

variable {n : Node} {k : Nat} {s : Service}

theorem putService_self (hs : n.service? k = some s) : n.putService k s = n := by
  obtain ⟨hk, hget⟩ := List.getElem?_eq_some_iff.mp hs
  unfold putService
  rw [← hget, List.set_getElem_self]

theorem afterCall_ends (c : Callback) (r : Except ServiceError Unit) :
    ∃ p t, n.afterCall k (s.record (.ends c r)) c r = (p, n.putService k t) ∧
      s.CallEnds n.agenda.clock c p t := by
  cases c with
  | start =>
    cases r with
    | error e => exact ⟨_, _, rfl, .failed⟩
    | ok u =>
      by_cases hp : s.spec.period = some 0
      · exact ⟨_, _, if_pos hp, .startled hp⟩
      · exact ⟨_, _, if_neg hp, .started hp⟩
  | stop =>
    cases r with
    | error e => exact ⟨_, _, rfl, .stopped⟩
    | ok u => exact ⟨_, _, rfl, .stopped⟩
  | tick => exact ⟨_, _, rfl, .served nofun nofun⟩
  | event e => exact ⟨_, _, rfl, .served nofun nofun⟩

theorem endScripted_ends (n : Node) (k : Nat) (s : Service) (c : Callback) (script : CallScript) :
    ∃ p t, n.endScripted k s c script = (p, n.putService k t) ∧
      s.CallEnds n.agenda.clock c p t := by
  unfold endScripted
  dsimp only
  split
  all_goals
    split
    · exact afterCall_ends _ _
    · split
      · exact ⟨_, _, rfl, .panics⟩
      · exact afterCall_ends _ _
      · exact afterCall_ends _ _

/-- A call for something that has been taken up ends at once or takes its time. -/
theorem beginScripted_turn {s' : Service} {c : Callback} (h : s.TakesUp n.agenda.clock c s')
    (script : CallScript) :
    ∃ p a t, n.beginScripted k s' c script = (p, { n with agenda := a }.putService k t) ∧
      Turn n.agenda k s p a t := by
  unfold beginScripted
  dsimp only
  split
  all_goals
    split
    · obtain ⟨p, t, heq, ht⟩ := n.endScripted_ends k (s'.record (.begins _)) _ script
      exact ⟨p, n.agenda, t, heq, .calls h ht⟩
    · rename_i hd
      exact ⟨_, _, _, rfl, .begins h (Nat.pos_of_ne_zero hd)⟩

variable {script : List CallEvent → Callback → CallScript}

theorem call_turn {s' : Service} {c : Callback} (h : s.TakesUp n.agenda.clock c s')
    (hk : s.kind = .programmed script) :
    ∃ p a t, n.call k s' c = (p, { n with agenda := a }.putService k t) ∧
      Turn n.agenda k s p a t := by
  have hk' : s'.kind = .programmed script := by cases h <;> exact hk
  simpa only [call, hk'] using beginScripted_turn h (script s'.calls c)

theorem awaitTick_turn (hk : s.kind = .programmed script) (h : s.phase = .waiting)
    (hc : s.commands = []) :
    ∃ p a t, n.awaitTick k s = (p, { n with agenda := a }.putService k t) ∧
      Turn n.agenda k s p a t := by
  have hrests : Turn n.agenda k s .waits n.agenda s :=
    .waits (by simp [h]) (by simp [h]) fun _ => hc
  unfold awaitTick
  split
  · rename_i period due hp hn
    dsimp only
    split
    · rename_i hd
      exact call_turn (.due h hc hp hn hd) hk
    · rename_i hd
      split
      · exact ⟨_, _, _, rfl, hrests⟩
      · exact ⟨_, _, _, rfl, .sets h hc (Nat.lt_of_not_le hd)⟩
  · exact ⟨_, _, _, rfl, hrests⟩

theorem awaitEvent_turn (hk : s.kind = .programmed script) (h : s.phase = .waiting)
    (hc : s.commands = []) :
    ∃ p a t, n.awaitEvent k s = (p, { n with agenda := a }.putService k t) ∧
      Turn n.agenda k s p a t := by
  unfold awaitEvent
  split
  · exact awaitTick_turn hk h hc
  · rename_i e rest hi
    dsimp only
    split
    · exact call_turn (.event h hc hi) hk
    · exact ⟨_, _, _, rfl, .skips h hc hi⟩

theorem pollService_turn (hs : n.service? k = some s) (hk : s.kind = .programmed script)
    (hu : s.phase ≠ .updating) :
    ∃ p a t, n.pollService k = (p, { n with agenda := a }.putService k t) ∧
      Turn n.agenda k s p a t := by
  unfold pollService
  rw [hs]
  dsimp only
  split
  · rename_i h
    exact call_turn (.start h) hk
  · rename_i c script timer h
    split
    · rename_i ht
      refine ⟨_, _, s, by rw [putService_self hs], .waits ?_ (by simp [h]) (by simp [h])⟩
      intro c' script' timer' h'
      cases h.symm.trans h'
      exact ht
    · rename_i ht
      obtain ⟨p, t, heq, hends⟩ := n.endScripted_ends k s c script
      exact ⟨p, n.agenda, t, heq, .ends h (by simpa using ht) hends⟩
  · rename_i h
    unfold awaitCommand
    split
    · rename_i rest hc
      exact call_turn (.demand h hc) hk
    · rename_i rest hc
      exact call_turn (.stop h hc) hk
    · rename_i hc
      exact awaitEvent_turn hk h hc
  · rename_i h
    exact absurd h hu
  · rename_i r h
    exact ⟨_, _, s, by rw [putService_self hs], .waits (by simp [h]) (by simp [h]) (by simp [h])⟩

end Node

/-! ### What a service keeps -/

/-- What a service with a script keeps apart from its phase. -/
structure Service.Orderly (s : Service) : Prop where
  programmed : ∃ script, s.kind = .programmed script
  /-- Only ticks at an interval of some length are waited for. -/
  period : s.nextTick.isSome → s.spec.period ≠ some 0
  capacity : s.commands.length ≤ commandCapacity
  /-- The service is not told to stop before it is shut down. -/
  unasked : s.managed = true → .stop ∉ s.commands ∧ .begins .stop ∉ s.calls

/-- A service with a script whose record goes with its phase and with what it reports. -/
structure Service.Kept (s : Service) : Prop extends s.Orderly where
  fits : Fits s.spec.id s.calls s.phase
  reports : s.state = reportAfter s.calls

namespace Service

variable {s s' t : Service} {now : Nat} {c : Callback} {p : Progress}

theorem Orderly.of_eq (hs : s.Orderly) (hspec : t.spec = s.spec) (hkind : t.kind = s.kind)
    (hnext : t.nextTick = s.nextTick) (hmanaged : t.managed = s.managed)
    (hcommands : t.commands <:+ s.commands)
    (hcalls : .begins .stop ∉ s.calls → .begins .stop ∉ t.calls) : t.Orderly where
  programmed := hkind ▸ hs.programmed
  period := by rw [hnext, hspec]; exact hs.period
  capacity := Nat.le_trans hcommands.length_le hs.capacity
  unasked hm := by
    obtain ⟨hstop, hnone⟩ := hs.unasked (hmanaged ▸ hm)
    exact ⟨fun hmem => hstop (hcommands.subset hmem), hcalls hnone⟩

theorem receive_same (s : Service) (e : Event) : (s.receive e).phase = s.phase ∧
    (s.receive e).spec = s.spec ∧ (s.receive e).managed = s.managed := by
  unfold receive
  exact ⟨rfl, rfl, rfl⟩

theorem Kept.receive (h : s.Kept) (e : Event) : (s.receive e).Kept := by
  unfold Service.receive
  exact ⟨h.toOrderly.of_eq rfl rfl rfl rfl (List.suffix_refl _) id, h.fits, h.reports⟩

theorem TakesUp.same (h : s.TakesUp now c s') :
    s'.spec = s.spec ∧ s'.managed = s.managed ∧ s'.calls = s.calls := by
  cases h <;> exact ⟨rfl, rfl, rfl⟩

theorem TakesUp.phase (h : s.TakesUp now c s') : s.phase = .spawned ∨ s.phase = .waiting := by
  cases h with
  | start h => exact .inl h
  | demand h hc => exact .inr h
  | stop h hc => exact .inr h
  | event h hc hi => exact .inr h
  | due h hc hp hn hd => exact .inr h

/-- A call to stop is taken up on a demand only. -/
theorem TakesUp.orderly (h : s.TakesUp now c s') (hs : s.Orderly) :
    (s'.record (.begins c)).Orderly := by
  have hcons (hc : c ≠ .stop) (hnone : CallEvent.begins .stop ∉ s.calls) :
      CallEvent.begins .stop ∉ .begins c :: s.calls := by
    simp [hnone, Ne.symm hc]
  cases h with
  | start h => exact hs.of_eq rfl rfl rfl rfl (List.suffix_refl _) (hcons nofun)
  | demand h hc =>
    exact hs.of_eq rfl rfl rfl rfl (hc ▸ List.suffix_cons _ _) (hcons nofun)
  | stop h hc =>
    refine ⟨hs.programmed, hs.period, ?_, fun hm => ?_⟩
    · have hrest : _ <:+ s.commands := hc ▸ List.suffix_cons _ _
      exact Nat.le_trans hrest.length_le hs.capacity
    · exact absurd (by rw [hc]; simp) (hs.unasked hm).1
  | event h hc hi => exact hs.of_eq rfl rfl rfl rfl (List.suffix_refl _) (hcons nofun)
  | due h hc hp hn hd =>
    have hperiod := hs.period (by rw [hn]; rfl)
    exact ⟨hs.programmed, fun _ => hperiod, hs.capacity,
      fun hm => ⟨(hs.unasked hm).1, hcons nofun (hs.unasked hm).2⟩⟩

/-- Once something has been taken up, a call for it is under way. -/
theorem TakesUp.underway (h : s.TakesUp now c s') (hs : s.Kept) :
    Underway (.begins c :: s.calls) c := by
  have hfits := hs.fits
  have hserve (hw : s.phase = .waiting) (hc : c ≠ .start) : Underway (.begins c :: s.calls) c := by
    rw [hw] at hfits
    exact .serve hfits.serving hc
  cases h with
  | start h =>
    rw [h] at hfits
    rw [hfits.eq_nil]
    exact .start
  | demand h hc => exact hserve h nofun
  | stop h hc => exact hserve h nofun
  | event h hc hi => exact hserve h nofun
  | due h hc hp hn hd => exact hserve h nofun

theorem TakesUp.reports (h : s.TakesUp now c s') (hs : s.Kept) : s'.state = c.report := by
  have hfits := hs.fits
  have hreports := hs.reports
  have hserve (hw : s.phase = .waiting) : s.state = .running := by
    rw [hw] at hfits
    rw [hreports, hfits.serving.report]
  cases h with
  | start h =>
    rw [h] at hfits
    rw [hreports, hfits.eq_nil]
    rfl
  | demand h hc => exact hserve h
  | stop h hc => rfl
  | event h hc hi => exact hserve h
  | due h hc hp hn hd => exact hserve h

theorem CallEnds.same (h : s.CallEnds now c p t) : t.spec = s.spec ∧ t.managed = s.managed := by
  cases h <;> exact ⟨rfl, rfl⟩

theorem CallEnds.orderly (h : s.CallEnds now c p t) (hs : s.Orderly) : t.Orderly := by
  cases h with
  | panics => exact hs.of_eq rfl rfl rfl rfl List.nil_suffix (by simp [panic, finish, record])
  | failed => exact hs.of_eq rfl rfl rfl rfl List.nil_suffix (by simp [finish, record])
  | started hp =>
    refine ⟨hs.programmed, fun _ => hp, hs.capacity, fun hm => ⟨(hs.unasked hm).1, ?_⟩⟩
    simp [record, (hs.unasked hm).2]
  | startled hp =>
    exact hs.of_eq rfl rfl rfl rfl List.nil_suffix (by simp [panic, finish, record])
  | stopped => exact hs.of_eq rfl rfl rfl rfl List.nil_suffix (by simp [finish, record])
  | served hstart hstop =>
    exact hs.of_eq rfl rfl rfl rfl (List.suffix_refl _) (by simp [record])

theorem CallEnds.fits (h : s.CallEnds now c p t) (hu : Underway s.calls c) :
    Fits t.spec.id t.calls t.phase := by
  cases h with
  | panics => exact .panicked hu
  | failed =>
    have hcalls := hu.eq_of_start
    simp only [finish, record, hcalls]
    exact .failed
  | started hp =>
    have hcalls := hu.eq_of_start
    simp only [record, hcalls]
    exact .waiting .started
  | startled hp =>
    have hcalls := hu.eq_of_start
    simp only [panic, finish, record, hcalls]
    exact .startled
  | stopped =>
    obtain ⟨earlier, hcalls, hserving⟩ := hu.serving nofun
    simp only [finish, record, hcalls]
    exact .stopped hserving
  | served hstart hstop =>
    obtain ⟨earlier, hcalls, hserving⟩ := hu.serving hstart
    simp only [record, hcalls]
    exact .waiting (.served hserving hstart hstop)

theorem CallEnds.reports (h : s.CallEnds now c p t) (hu : Underway s.calls c)
    (hs : s.state = reportAfter s.calls) : t.state = reportAfter t.calls := by
  cases h with
  | panics => exact hs
  | failed => rfl
  | started hp => rfl
  | startled hp => rfl
  | stopped => rfl
  | served hstart hstop =>
    have hreport : reportAfter s.calls = .running := by
      obtain ⟨earlier, hcalls, -⟩ := hu.serving hstart
      cases c with
      | start => exact absurd rfl hstart
      | stop => exact absurd rfl hstop
      | _ => rw [hcalls, reportAfter_begins]; rfl
    exact (hs.trans hreport).trans (reportAfter_served hstart hstop _ _).symm

end Service

namespace Turn

variable {a a' : Agenda} {k : Nat} {s t : Service} {p : Progress}

theorem same (h : Turn a k s p a' t) : t.spec = s.spec ∧ t.managed = s.managed := by
  cases h with
  | waits => exact ⟨rfl, rfl⟩
  | sets => exact ⟨rfl, rfl⟩
  | skips => exact ⟨rfl, rfl⟩
  | begins h hd =>
    obtain ⟨hspec, hmanaged, -⟩ := h.same
    exact ⟨hspec, hmanaged⟩
  | calls h ht =>
    obtain ⟨hspec, hmanaged, -⟩ := h.same
    obtain ⟨hspec', hmanaged'⟩ := ht.same
    exact ⟨hspec'.trans hspec, hmanaged'.trans hmanaged⟩
  | ends h hs ht => exact ht.same

theorem kept (h : Turn a k s p a' t) (hs : s.Kept) : t.Kept := by
  have horderly := hs.toOrderly
  have hfits := hs.fits
  cases h with
  | waits => exact hs
  | sets h hc hd =>
    exact ⟨horderly.of_eq rfl rfl rfl rfl (List.suffix_refl _) id, hfits, hs.reports⟩
  | skips h hc hi =>
    exact ⟨horderly.of_eq rfl rfl rfl rfl (List.suffix_refl _) id, hfits, hs.reports⟩
  | begins h hd =>
    refine ⟨(h.orderly horderly).of_eq rfl rfl rfl rfl (List.suffix_refl _) id, .calling ?_, ?_⟩
    · rw [record, h.same.2.2]
      exact h.underway hs
    · exact (h.reports hs).trans (reportAfter_begins _ _).symm
  | calls h ht =>
    have hu := h.underway hs
    rw [← h.same.2.2] at hu
    exact ⟨ht.orderly (h.orderly horderly), ht.fits hu,
      ht.reports hu ((h.reports hs).trans (reportAfter_begins _ _).symm)⟩
  | ends h hs' ht =>
    rw [h] at hfits
    exact ⟨ht.orderly horderly, ht.fits hfits.underway, ht.reports hfits.underway hs.reports⟩

/-- The clock stands still, and at most one timer is set. -/
theorem agenda (h : Turn a k s p a' t) :
    a' = a ∨ ∃ due, a.clock < due ∧ a' = (a.setTimer (.service k) due).2 := by
  cases h with
  | waits => exact .inl rfl
  | sets h hc hd => exact .inr ⟨_, hd, rfl⟩
  | skips => exact .inl rfl
  | begins h hd => exact .inr ⟨_, Nat.lt_add_of_pos_right hd, rfl⟩
  | calls => exact .inl rfl
  | ends => exact .inl rfl

theorem of_ended (h : Turn a k s p a' t) {r : Except ServiceError Unit} (hr : s.phase = .ended r) :
    t = s := by
  have htakes {now c s'} (h : s.TakesUp now c s') : False := by
    obtain hphase | hphase := h.phase <;> cases hphase.symm.trans hr
  cases h with
  | waits => rfl
  | sets h => cases h.symm.trans hr
  | skips h => cases h.symm.trans hr
  | begins h hd => exact (htakes h).elim
  | calls h ht => exact (htakes h).elim
  | ends h => cases h.symm.trans hr

end Turn

/-! ### Turn by turn -/

/-- How many calls are outstanding: the one that is under way and those that are demanded. -/
def Service.outstanding (s : Service) : Nat :=
  match s.phase with
  | .ended _ => 0
  | .waiting => s.commands.length
  | _ => s.commands.length + 1

/-- A service that will have been stopped once no call is outstanding. -/
inductive Service.Told (s : Service) : Prop where
  | ended {r : Except ServiceError Unit} (h : s.phase = .ended r)
  | demanded (h : .stop ∈ s.commands)
  | stopping {script : CallScript} {timer : Nat} (h : s.phase = .calling .stop script timer)

namespace Service

variable {s s' t : Service} {now : Nat} {c : Callback} {p : Progress}

theorem Kept.outstanding_le (h : s.Kept) : s.outstanding ≤ commandCapacity + 1 := by
  have hcapacity := h.capacity
  unfold outstanding
  split <;> omega

theorem CallEnds.cases_phase (h : s.CallEnds now c p t) :
    (p = .waits ∧ ∃ r, t.phase = .ended r) ∨
      (p = .again ∧ c ≠ .stop ∧ t.phase = .waiting ∧ t.commands = s.commands) := by
  cases h with
  | panics => exact .inl ⟨rfl, _, rfl⟩
  | failed => exact .inl ⟨rfl, _, rfl⟩
  | started hp => exact .inr ⟨rfl, nofun, rfl, rfl⟩
  | startled hp => exact .inl ⟨rfl, _, rfl⟩
  | stopped => exact .inl ⟨rfl, _, rfl⟩
  | served hstart hstop => exact .inr ⟨rfl, hstop, rfl, rfl⟩

theorem CallEnds.outstanding_le (h : s.CallEnds now c p t) :
    t.outstanding ≤ s.commands.length := by
  obtain ⟨-, r, hr⟩ | ⟨-, -, hw, hc⟩ := h.cases_phase
  · simp [outstanding, hr]
  · simp [outstanding, hw, hc]

theorem CallEnds.told (h : s.CallEnds now c p t) (hstop : c = .stop ∨ .stop ∈ s.commands) :
    t.Told := by
  obtain ⟨-, r, hr⟩ | ⟨-, hc, -, hcommands⟩ := h.cases_phase
  · exact .ended hr
  · exact .demanded (hcommands ▸ hstop.resolve_left hc)

theorem CallEnds.commands_length_le (h : s.CallEnds now c p t) :
    t.commands.length ≤ s.commands.length := by
  cases h <;> simp [panic, finish, record]

/-- What is taken up has been demanded, unless nothing is demanded. -/
theorem TakesUp.cases_commands (h : s.TakesUp now c s') :
    (s.phase = .waiting ∧ s.commands = [] ∧ s'.commands = []) ∨
      s'.commands.length + 1 = s.outstanding := by
  cases h with
  | start h => exact .inr (by simp [outstanding, h])
  | demand h hc => exact .inr (by simp [outstanding, h, hc])
  | stop h hc => exact .inr (by simp [outstanding, h, hc])
  | event h hc hi => exact .inl ⟨h, hc, hc⟩
  | due h hc hp hn hd => exact .inl ⟨h, hc, hc⟩

theorem TakesUp.commands_length_le (h : s.TakesUp now c s') :
    s'.commands.length ≤ s.commands.length := by
  cases h with
  | start h => exact Nat.le_refl _
  | demand h hc => simp [hc]
  | stop h hc => simp [hc]
  | event h hc hi => exact Nat.le_refl _
  | due h hc hp hn hd => exact Nat.le_refl _

end Service

namespace Turn

variable {a a' : Agenda} {k : Nat} {s t : Service} {p : Progress}

theorem commands_length_le (h : Turn a k s p a' t) : t.commands.length ≤ s.commands.length := by
  cases h with
  | waits => exact Nat.le_refl _
  | sets => exact Nat.le_refl _
  | skips => exact Nat.le_refl _
  | begins h hd => exact h.commands_length_le
  | calls h ht => exact Nat.le_trans ht.commands_length_le h.commands_length_le
  | ends h hs ht => exact ht.commands_length_le

theorem outstanding_le (h : Turn a k s p a' t) (hc : s.phase = .waiting → s.commands ≠ []) :
    t.outstanding ≤ s.outstanding := by
  have htakes {now c s'} (h : s.TakesUp now c s') : s'.commands.length + 1 = s.outstanding :=
    h.cases_commands.resolve_left fun hnone => hc hnone.1 hnone.2.1
  cases h with
  | waits => exact Nat.le_refl _
  | sets h hc' => exact absurd hc' (hc h)
  | skips h hc' => exact absurd hc' (hc h)
  | begins h hd =>
    rw [← htakes h]
    exact Nat.le_refl _
  | calls h ht =>
    have hle := ht.outstanding_le
    have heq := htakes h
    simp only [record] at hle
    omega
  | ends h hs ht =>
    have hle := ht.outstanding_le
    simp only [Service.outstanding, h] at hle ⊢
    omega

/-- A service that is told to stop stays so: before it stops it takes up nothing but what has been
demanded earlier. -/
theorem told (h : Turn a k s p a' t) (hs : s.Told) : t.Told := by
  cases hs with
  | ended hr => exact h.of_ended hr ▸ .ended hr
  | demanded hstop =>
    have htakes {now c s'} (h : s.TakesUp now c s') : c = .stop ∨ .stop ∈ s'.commands := by
      cases h with
      | start h => exact .inr hstop
      | demand h hc => exact .inr (by simpa [hc] using hstop)
      | stop h hc => exact .inl rfl
      | event h hc hi => exact .inr hstop
      | due h hc hp hn hd => exact .inr hstop
    cases h with
    | waits => exact .demanded hstop
    | sets => exact .demanded hstop
    | skips => exact .demanded hstop
    | begins h hd =>
      obtain rfl | hmem := htakes h
      · exact .stopping rfl
      · exact .demanded hmem
    | calls h ht =>
      have hmem := htakes h
      exact ht.told hmem
    | ends h hs ht => exact ht.told (.inr hstop)
  | stopping hphase =>
    cases h with
    | waits => exact .stopping hphase
    | sets h => cases h.symm.trans hphase
    | skips h => cases h.symm.trans hphase
    | begins h hd => obtain h | h := h.phase <;> cases h.symm.trans hphase
    | calls h ht => obtain h | h := h.phase <;> cases h.symm.trans hphase
    | ends h hs ht =>
      cases h.symm.trans hphase
      exact ht.told (.inl rfl)

/-- A service that goes on by itself has less left to do. -/
theorem backlog_lt (h : Turn a k s .again a' t) (hs : s.Kept) :
    t.backlog a.clock < s.backlog a.clock := by
  generalize hp : Progress.again = p at h
  cases h with
  | waits => cases hp
  | sets => cases hp
  | skips h hc hi => simp [backlog, hi]
  | begins => cases hp
  | calls h ht =>
    cases ht with
    | panics => cases hp
    | failed => cases hp
    | started hperiod =>
      cases h with
      | start h => cases hsp : s.spec.period <;> simp [backlog, h, record, hsp] <;> omega
    | startled => cases hp
    | stopped => cases hp
    | served hstart hstop =>
      cases h with
      | start => exact absurd rfl hstart
      | demand h hc => simp [backlog, h, hc, record]
      | stop => exact absurd rfl hstop
      | event h hc hi => simp [backlog, h, hc, hi, record]
      | due h hc hperiod hn hd =>
        -- the next tick is due later, as the interval has some length
        have hpos := hs.period (by rw [hn]; rfl)
        rw [hperiod] at hpos
        have hpos' : _ ≠ 0 := fun hzero => hpos (congrArg some hzero)
        simp only [backlog, h, hc, hn, record, takeTick]
        split <;> omega
  | ends h hs ht =>
    cases ht with
    | panics => cases hp
    | failed => cases hp
    | started hperiod => cases s.spec.period <;> simp [backlog, h, record] <;> omega
    | startled => cases hp
    | stopped => cases hp
    | served hstart hstop => simp [backlog, h, record]

end Turn

end ControlNode
