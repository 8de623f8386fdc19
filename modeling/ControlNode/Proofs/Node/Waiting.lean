import ControlNode.Node.Management
import ControlNode.Proofs.Node.Supervision

/-!
# Waiting for services

Each call of a service ends once its time is over, and between calls the service takes up what is
demanded of it. A caller that waits long enough for that gets what it waits for
(`Leads.awaitService`).
-/

namespace ControlNode.Node

open Relation Service

variable {n m : Node} {k j c : Nat} {s t u : Service}

/-! ### Calls that take their time -/

theorem Manages.callTime_eq (h : Manages n) (hs : n.service? k = some s) {b : Callback}
    {script : CallScript} {number : Nat} (hp : s.phase = .calling b script number) {timer : Timer}
    (ht : timer ∈ n.agenda.timers) (hnumber : timer.number = number) :
    n.callTime k = timer.deadline - n.agenda.clock := by
  have hfind : n.agenda.timers.find? (fun u => u.number = number) = some timer := by
    cases hfound : n.agenda.timers.find? (fun u => u.number = number) with
    | none => exact absurd hnumber (by simpa using List.find?_eq_none.mp hfound timer ht)
    | some u =>
      have hu : u.number = number := by simpa using List.find?_some hfound
      rw [h.agenda.distinct u (List.mem_of_find?_eq_some hfound) timer ht (hu.trans hnumber.symm)]
  simp [callTime, hs, hp, hfind]

/-- Whoever takes a turn, a call goes on until its timer fires. -/
theorem Manages.settle_pending (h : Manages n) (hs : n.service? k = some s) {b : Callback}
    {script : CallScript} {timer : Timer} (hp : s.phase = .calling b script timer.number)
    (ht : timer ∈ n.agenda.timers) :
    n.settle.service? k = some s ∧ timer ∈ n.settle.agenda.timers ∧
      n.settle.agenda.clock = n.agenda.clock := by
  refine h.runReady_induction
    (P := fun m => m.service? k = some s ∧ timer ∈ m.agenda.timers ∧
      m.agenda.clock = n.agenda.clock)
    (fun {m j} hm hj hP => ?_) ⟨hs, ht, rfl⟩ (stepLimit + n.work)
  obtain ⟨hservice, htimer, hclock⟩ := hP
  obtain ⟨hspares, hothers⟩ := hm.turn_spares hj
  refine ⟨?_, (hspares.timers timer (hm.agenda.numbered timer htimer)).mpr htimer,
    hspares.clock.trans hclock⟩
  by_cases hkj : k = j
  · subst hkj
    obtain ⟨s', p, a, t, hs', hturn, heq⟩ := hm.turn hj
    cases hservice.symm.trans hs'
    have hset : m.agenda.isSet timer.number = true := Agenda.isSet_iff.mpr ⟨timer, htimer, rfl⟩
    obtain ⟨-, rfl⟩ | ⟨hset', -⟩ := hturn.of_calling hp
    · rw [heq]
      exact service?_putService_self (lt_of_service? hservice)
    · cases hset.symm.trans hset'
  · exact (hothers hkj).trans hservice

/-! ### What a caller waits for -/

/-- What holds of a service when at most so many of its calls, each with what follows it, have
still to end before it is as `done` says. -/
structure Leads (done : Service → Bool) (left : Nat → Service → Prop) : Prop where
  turn : ∀ {a k s p a' t c}, Turn a k s p a' t → left c s → left c t
  ends : ∀ {now s b script number p t c}, s.phase = .calling b script number →
    s.CallEnds now b p t → left (c + 1) s → left c t
  rests : ∀ {s c}, (s.phase = .waiting ∧ s.commands = []) ∨ (∃ r, s.phase = .ended r) →
    left c s → done s = true
  none : ∀ {s}, left 0 s → done s = true

variable {done : Service → Bool} {left : Nat → Service → Prop}

/-- A call whose timer has fired ends when the service takes its turn. -/
theorem Leads.settle_fired (hl : Leads done left) (h : Manages n) (hs : n.service? k = some s)
    (hready : .service k ∈ n.agenda.ready) {b : Callback} {script : CallScript} {number : Nat}
    (hp : s.phase = .calling b script number) (hset : n.agenda.isSet number = false)
    (hleft : left (c + 1) s) : ∃ t, n.settle.service? k = some t ∧ left c t := by
  have hdue := h.runReady_induction
    (P := fun m => ∃ t, m.service? k = some t ∧ (left c t ∨ (t = s ∧
      .service k ∈ m.agenda.ready ∧ m.agenda.isSet number = false)))
    (fun {m j} hm hj hP => by
      obtain ⟨t, ht, hcase⟩ := hP
      by_cases hkj : k = j
      · subst hkj
        obtain ⟨t', p, a, u, ht', hturn, heq⟩ := hm.turn hj
        cases ht.symm.trans ht'
        refine ⟨u, by rw [heq]; exact service?_putService_self (lt_of_service? ht), .inl ?_⟩
        obtain hleft' | ⟨rfl, -, hset'⟩ := hcase
        · exact hl.turn hturn hleft'
        · obtain ⟨hset, -⟩ | ⟨-, hends⟩ := hturn.of_calling hp
          · cases hset.symm.trans hset'
          · exact hl.ends hp hends hleft
      · obtain ⟨hspares, hothers⟩ := hm.turn_spares hj
        refine ⟨t, (hothers hkj).trans ht, hcase.imp id ?_⟩
        rintro ⟨rfl, hmem, hset'⟩
        refine ⟨rfl, (hspares.ready hkj).mpr hmem, Bool.eq_false_iff.mpr fun hset'' => ?_⟩
        obtain ⟨u, hu, hnumber⟩ := Agenda.isSet_iff.mp hset''
        have hlt : u.number < m.agenda.nextTimer := hnumber ▸ ((hm.attends ht).own hp).1
        have hset : m.agenda.isSet number = true :=
          Agenda.isSet_iff.mpr ⟨u, (hspares.timers u hlt).mp hu, hnumber⟩
        rw [hset'] at hset
        cases hset)
    ⟨s, hs, .inr ⟨rfl, hready, hset⟩⟩ (stepLimit + n.work)
  obtain ⟨t, ht, hcase⟩ := hdue
  refine ⟨t, ht, hcase.resolve_right fun ⟨_, hmem, _⟩ => ?_⟩
  have hnil : n.settle.agenda.ready = [] := h.settle_ready
  rw [show runReady _ n = n.settle from rfl, hnil] at hmem
  cases hmem

theorem Manages.moveTo_runs (h : Manages n) (time : Nat) : Runs n (n.moveTo time) :=
  Runs.trans (ReflTransGen.single (.elapse time)) (h.elapse time).settle_runs

theorem Manages.runUntil_runs (h : Manages n) (goal : Node → Bool) (fuel : Nat) :
    Runs n (runUntil goal fuel n) := by
  induction fuel generalizing n with
  | zero => exact .refl n
  | succ fuel ih =>
    unfold runUntil
    split
    · exact .refl n
    · split
      · exact .refl n
      · rename_i time htime
        have hruns := h.moveTo_runs time
        exact hruns.trans (ih (hruns.manages h))

theorem Manages.runUntil_ready (h : Manages n) (goal : Node → Bool) (hready : n.agenda.ready = [])
    (fuel : Nat) : (runUntil goal fuel n).agenda.ready = [] := by
  induction fuel generalizing n with
  | zero => exact hready
  | succ fuel ih =>
    unfold runUntil
    split
    · exact hready
    · split
      · exact hready
      · rename_i time htime
        exact ih ((h.moveTo_runs time).manages h) (h.elapse time).settle_ready

/-- Where no service can run, one that is not yet as the caller wants it is in a call. -/
theorem Leads.calling (hl : Leads done left) (h : Manages n) (hs : n.service? k = some s)
    (hready : n.agenda.ready = []) (hleft : left c s) (hdone : done s = false) :
    ∃ b script timer, s.phase = .calling b script timer.number ∧ timer ∈ n.agenda.timers := by
  have hattends := h.attends hs
  have hnone : .service k ∉ n.agenda.ready := by simp [hready]
  have hbusy : ¬ ((s.phase = .waiting ∧ s.commands = []) ∨ ∃ r, s.phase = .ended r) := by
    intro hrests
    rw [hl.rests hrests hleft] at hdone
    cases hdone
  cases hp : s.phase with
  | spawned => exact absurd (hattends.spawned hp) hnone
  | calling b script number =>
    obtain ⟨timer, htimer, rfl⟩ := Agenda.isSet_iff.mp ((hattends.calling hp).resolve_left hnone)
    exact ⟨b, script, timer, rfl, htimer⟩
  | waiting => exact absurd (.inl ⟨hp, (hattends.waiting hp).resolve_left hnone⟩) hbusy
  | updating => exact absurd (hp ▸ (h.kept hs).fits) Fits.not_updating
  | ended r => exact absurd (.inr ⟨r, hp⟩) hbusy

/-- When the next timer fires, a call has ended or has less time left. -/
theorem Leads.moveTo (hl : Leads done left) (h : Manages n) (hs : n.service? k = some s)
    {b : Callback} {script : CallScript} {timer : Timer}
    (hp : s.phase = .calling b script timer.number) (ht : timer ∈ n.agenda.timers)
    (hleft : left (c + 1) s) {time : Nat} (htime : n.agenda.clock < time) :
    (∃ t, (n.moveTo time).service? k = some t ∧ left c t) ∨
      ((n.moveTo time).service? k = some s ∧ (n.moveTo time).callTime k < n.callTime k) := by
  have helapsed := h.elapse time
  have hwoken := n.agenda.moveTo_woken time
  obtain ⟨hnumber, hown⟩ := (h.attends hs).own hp
  by_cases hdue : timer.deadline ≤ time
  · refine .inl (hl.settle_fired helapsed hs ((hwoken.ready _).mpr (.inr ?_)) hp ?_ hleft)
    · rw [← hown timer ht rfl]
      exact List.mem_map_of_mem (List.mem_filter.mpr ⟨ht, by simpa using hdue⟩)
    · refine Bool.eq_false_iff.mpr fun hset => ?_
      obtain ⟨u, hu, heq⟩ := Agenda.isSet_iff.mp hset
      obtain ⟨hu, hlater⟩ := Agenda.mem_moveTo.mp hu
      cases h.agenda.distinct u hu timer ht heq
      exact absurd hdue (Nat.not_le_of_lt hlater)
  · have hkept : timer ∈ (n.agenda.moveTo time).timers :=
      Agenda.mem_moveTo.mpr ⟨ht, Nat.lt_of_not_le hdue⟩
    obtain ⟨hservice, htimer, hclock⟩ := helapsed.settle_pending hs hp hkept
    refine .inr ⟨hservice, ?_⟩
    have hclock' : (n.moveTo time).agenda.clock = max n.agenda.clock time :=
      hclock.trans hwoken.clock
    have hmanages := helapsed.settle_runs.manages helapsed
    rw [Manages.callTime_eq (n := n.moveTo time) hmanages hservice hp htimer rfl,
      h.callTime_eq hs hp ht rfl, hclock']
    have hpending := h.agenda.pending timer ht
    omega

theorem runUntil_of_goal {goal : Node → Bool} (h : goal n = true) (fuel : Nat) :
    runUntil goal fuel n = n := by
  cases fuel with
  | zero => rfl
  | succ fuel => rw [runUntil, if_pos h]

theorem awaitCalls_of_goal {goal : Node → Bool} (h : goal n = true) (calls : Nat) :
    awaitCalls k goal calls n = n := by
  induction calls with
  | zero => rfl
  | succ calls ih => rw [awaitCalls, runUntil_of_goal h, ih]

/-- A caller that waits for as long as a call takes sees it end. -/
theorem Leads.runUntil (hl : Leads done left) (h : Manages n) (hs : n.service? k = some s)
    (hready : n.agenda.ready = []) (hleft : left (c + 1) s) {fuel : Nat}
    (hfuel : n.callTime k ≤ fuel) :
    ∃ t, (runUntil (fun n => (n.service? k).all done) fuel n).service? k = some t ∧
      (done t = true ∨ left c t) := by
  induction fuel generalizing n s with
  | zero =>
    refine ⟨s, hs, .inl ?_⟩
    by_contra hdone
    obtain ⟨b, script, timer, hp, htimer⟩ :=
      hl.calling h hs hready hleft (Bool.eq_false_iff.mpr hdone)
    have htime := h.callTime_eq hs hp htimer rfl
    have hpending := h.agenda.pending timer htimer
    omega
  | succ fuel ih =>
    by_cases hdone : done s = true
    · rw [runUntil_of_goal (by simp [hs, hdone])]
      exact ⟨s, hs, .inl hdone⟩
    · obtain ⟨b, script, timer, hp, htimer⟩ :=
        hl.calling h hs hready hleft (Bool.eq_false_iff.mpr hdone)
      obtain ⟨u, timers, hcons⟩ := List.exists_cons_of_ne_nil (List.ne_nil_of_mem htimer)
      have hnext : n.agenda.nextDeadline? = some u.deadline := by
        simp [Agenda.nextDeadline?, hcons]
      have hlater : n.agenda.clock < u.deadline :=
        h.agenda.pending u (by rw [hcons]; exact List.mem_cons_self)
      rw [Node.runUntil, if_neg (by simp [hs, hdone]), hnext]
      have hmoved := (h.moveTo_runs u.deadline).manages h
      obtain ⟨t, ht, hleft'⟩ | ⟨hs', hless⟩ := hl.moveTo h hs hp htimer hleft hlater
      · obtain ⟨t', ht', hturns⟩ := (hmoved.runUntil_runs _ fuel).turns hmoved ht
        exact ⟨t', ht', .inr (hturns.keeps hl.turn hleft')⟩
      · exact ih hmoved hs' (h.elapse _).settle_ready hleft (by omega)

theorem Manages.awaitCalls_runs (h : Manages n) (goal : Node → Bool) (calls : Nat) :
    Runs n (awaitCalls k goal calls n) := by
  induction calls generalizing n with
  | zero => exact .refl n
  | succ calls ih =>
    have hruns := h.runUntil_runs goal (stepLimit + n.callTime k)
    exact hruns.trans (ih (hruns.manages h))

theorem Leads.awaitCalls (hl : Leads done left) (h : Manages n) (hs : n.service? k = some s)
    (hready : n.agenda.ready = []) (hleft : left c s) :
    ∃ t, (awaitCalls k (fun n => (n.service? k).all done) c n).service? k = some t ∧
      done t = true := by
  induction c generalizing n s with
  | zero => exact ⟨s, hs, hl.none hleft⟩
  | succ c ih =>
    rw [Node.awaitCalls]
    have hruns := h.runUntil_runs (fun n => (n.service? k).all done) (stepLimit + n.callTime k)
    obtain ⟨t, ht, hdone | hleft'⟩ := hl.runUntil h hs hready hleft (Nat.le_add_left _ stepLimit)
    · rw [awaitCalls_of_goal (by simp [ht, hdone])]
      exact ⟨t, ht, hdone⟩
    · exact ih (hruns.manages h) ht (h.runUntil_ready _ hready _) hleft'

theorem Leads.awaitService (hl : Leads done left) (h : Manages n) (hs : n.service? k = some s)
    (hleft : left (commandCapacity + 1) s) :
    Runs n (n.awaitService k fun n => (n.service? k).all done) ∧
      ∃ t, (n.awaitService k fun n => (n.service? k).all done).service? k = some t ∧
        done t = true := by
  unfold Node.awaitService
  split
  · rename_i hgoal
    exact ⟨.refl n, s, hs, by simpa [hs] using hgoal⟩
  · have hmanages := h.settle_runs.manages h
    obtain ⟨t, ht, hturns⟩ := h.settle_runs.turns h hs
    exact ⟨h.settle_runs.trans (hmanages.awaitCalls_runs _ _),
      hl.awaitCalls hmanages ht h.settle_ready (hturns.keeps hl.turn hleft)⟩

/-! ### Demands -/

theorem hasEnded_iff : s.hasEnded = true ↔ ∃ r, s.phase = .ended r := by
  unfold hasEnded result?
  split
  · rename_i r hr
    simp [hr]
  · rename_i hr
    simpa using hr

/-- Whether a service can be told something, or has ended, which is what `acceptsCommand` asks. -/
def hasRoom (s : Service) : Bool := s.hasEnded || s.commands.length < commandCapacity

theorem hasRoom_iff : hasRoom s = true ↔
    (∃ r, s.phase = .ended r) ∨ s.commands.length < commandCapacity := by
  rw [hasRoom, Bool.or_eq_true, hasEnded_iff, decide_eq_true_eq]

theorem leads_hasRoom :
    Leads hasRoom fun c s => hasRoom s = true ∨ s.outstanding < commandCapacity + c where
  turn {a k s p a' t c} hturn hleft := by
    by_cases hroom : hasRoom s = true
    · refine .inl (hasRoom_iff.mpr ((hasRoom_iff.mp hroom).imp ?_ fun hlt => ?_))
      · rintro ⟨r, hr⟩
        exact ⟨r, hturn.of_ended hr ▸ hr⟩
      · exact Nat.lt_of_le_of_lt hturn.commands_length_le hlt
    · have hfull : ¬ s.commands.length < commandCapacity := fun hlt =>
        hroom (hasRoom_iff.mpr (.inr hlt))
      have hne : s.commands ≠ [] := by
        rintro hnil
        simp [hnil, commandCapacity] at hfull
      exact .inr (Nat.lt_of_le_of_lt (hturn.outstanding_le fun _ => hne) (hleft.resolve_left hroom))
  ends {now s b script number p t c} hp hends hleft := by
    obtain hroom | hlt := hleft
    · have hlt := (hasRoom_iff.mp hroom).resolve_left (by simp [hp])
      exact .inl (hasRoom_iff.mpr (.inr (Nat.lt_of_le_of_lt hends.commands_length_le hlt)))
    · have hle := hends.outstanding_le
      simp only [Service.outstanding, hp] at hlt
      exact .inr (by omega)
  rests {s c} hrests _ := by
    refine hasRoom_iff.mpr (hrests.symm.imp id ?_)
    rintro ⟨-, hnil⟩
    simp [hnil, commandCapacity]
  none {s} hleft := by
    refine hleft.elim id fun hlt => hasRoom_iff.mpr ?_
    cases hp : s.phase with
    | ended r => exact .inl ⟨r, rfl⟩
    | _ =>
      simp only [Service.outstanding, hp] at hlt
      exact .inr (by omega)

/-- Once it is told to stop, a service ends when no call is outstanding. -/
theorem leads_hasEnded : Leads hasEnded fun c s => s.Told ∧ s.outstanding ≤ c where
  turn {a k s p a' t c} hturn hleft := by
    refine ⟨hturn.told hleft.1, Nat.le_trans (hturn.outstanding_le fun hp => ?_) hleft.2⟩
    cases hleft.1 with
    | ended hr => cases hp.symm.trans hr
    | demanded hstop => exact List.ne_nil_of_mem hstop
    | stopping hphase => cases hp.symm.trans hphase
  ends {now s b script number p t c} hp hends hleft := by
    have hle := hends.outstanding_le
    have hlt := hleft.2
    simp only [Service.outstanding, hp] at hlt
    refine ⟨hends.told ?_, by omega⟩
    cases hleft.1 with
    | ended hr => cases hp.symm.trans hr
    | demanded hstop => exact .inr hstop
    | stopping hphase =>
      cases hp.symm.trans hphase
      exact .inl rfl
  rests {s c} hrests hleft := by
    refine hasEnded_iff.mpr (hrests.resolve_left ?_)
    rintro ⟨hp, hnil⟩
    cases hleft.1 with
    | ended hr => cases hp.symm.trans hr
    | demanded hstop => simp [hnil] at hstop
    | stopping hphase => cases hp.symm.trans hphase
  none {s} hleft := by
    obtain ⟨htold, hzero⟩ := hleft
    refine hasEnded_iff.mpr ?_
    cases htold with
    | ended hr => exact ⟨_, hr⟩
    | demanded hstop =>
      have hpos := List.length_pos_of_mem hstop
      cases hp : s.phase with
      | ended r => exact ⟨r, rfl⟩
      | _ =>
        simp only [Service.outstanding, hp] at hzero
        omega
    | stopping hphase => simp [Service.outstanding, hphase] at hzero

end ControlNode.Node
