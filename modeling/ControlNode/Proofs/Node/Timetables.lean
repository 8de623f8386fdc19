import ControlNode.Proofs.Node.Turns

/-!
# Timetables

How the agenda goes with the services that are on it: the timers are still to come, each under a
number of its own (`Agenda.Serves`), and a service that has something to do can run, or a timer
for it is set (`Agenda.Attends`). Neither waking a service nor letting time pass ends that.
-/

namespace ControlNode

namespace Agenda

variable {a b : Agenda} {ts us : List TaskId} {t u : Timer} {task : TaskId} {number time due : Nat}

/-! ### Timers -/

theorem mem_insertTimer {timers : List Timer} :
    u ∈ insertTimer t timers ↔ u = t ∨ u ∈ timers := by
  induction timers with
  | nil => simp [insertTimer]
  | cons v timers ih =>
    unfold insertTimer
    split
    · rw [List.mem_cons, ih, List.mem_cons]
      exact or_left_comm
    · exact List.mem_cons

theorem mem_setTimer : u ∈ (a.setTimer task due).2.timers ↔
    u = ⟨due, a.nextTimer, task⟩ ∨ u ∈ a.timers :=
  mem_insertTimer

theorem isSet_iff : a.isSet number = true ↔ ∃ t ∈ a.timers, t.number = number := by
  simp [isSet]

/-! ### Waking -/

/-- Tasks have been woken, and nothing else has changed. -/
structure Woken (ts : List TaskId) (a b : Agenda) : Prop where
  clock : b.clock = a.clock
  timers : b.timers = a.timers
  nextTimer : b.nextTimer = a.nextTimer
  ready : ∀ t, t ∈ b.ready ↔ t ∈ a.ready ∨ t ∈ ts
  nodup : a.ready.Nodup → b.ready.Nodup

theorem Woken.refl (a : Agenda) : Woken [] a a := ⟨rfl, rfl, rfl, by simp, id⟩

theorem Woken.trans {c : Agenda} (h : Woken ts a b) (h' : Woken us b c) : Woken (ts ++ us) a c where
  clock := h'.clock.trans h.clock
  timers := h'.timers.trans h.timers
  nextTimer := h'.nextTimer.trans h.nextTimer
  ready t := by rw [h'.ready, h.ready, List.mem_append, or_assoc]
  nodup hn := h'.nodup (h.nodup hn)

theorem wake_woken (a : Agenda) (t : TaskId) : Woken [t] a (a.wake t) := by
  unfold wake
  split
  · rename_i ht
    refine ⟨rfl, rfl, rfl, fun u => ?_, id⟩
    rw [List.mem_singleton]
    exact ⟨.inl, fun h => h.elim id fun hu => hu ▸ ht⟩
  · rename_i ht
    refine ⟨rfl, rfl, rfl, fun u => List.mem_append, fun hn => ?_⟩
    refine List.nodup_append.mpr ⟨hn, by simp, ?_⟩
    rintro u hu v hv rfl
    exact ht (List.mem_singleton.mp hv ▸ hu)

theorem foldl_wake_woken (timers : List Timer) (a : Agenda) :
    Woken (timers.map Timer.task) a (timers.foldl (fun a t => a.wake t.task) a) := by
  induction timers generalizing a with
  | nil => exact .refl a
  | cons t timers ih => exact (a.wake_woken t.task).trans (ih _)

theorem moveTo_woken (a : Agenda) (time : Nat) :
    Woken ((a.timers.filter fun t => t.deadline ≤ time).map Timer.task)
      { a with
        clock := max a.clock time
        timers := a.timers.filter fun t => ¬ t.deadline ≤ time }
      (a.moveTo time) := by
  unfold moveTo
  rw [List.partition_eq_filter_filter]
  have hnot : (not ∘ fun t : Timer => decide (t.deadline ≤ time)) =
      fun t => decide (¬ t.deadline ≤ time) := by
    funext t
    simp only [Function.comp_apply, decide_not]
  rw [hnot]
  exact foldl_wake_woken _ _

theorem mem_moveTo : u ∈ (a.moveTo time).timers ↔ u ∈ a.timers ∧ time < u.deadline := by
  rw [(a.moveTo_woken time).timers]
  simp

/-! ### Services on an agenda -/

/-- Nothing but services of numbers below `count` is on an agenda. -/
structure Serves (a : Agenda) (count : Nat) : Prop where
  ready : ∀ t ∈ a.ready, ∃ k < count, t = .service k
  nodup : a.ready.Nodup
  pending : ∀ u ∈ a.timers, a.clock < u.deadline
  owned : ∀ u ∈ a.timers, ∃ k < count, u.task = .service k
  numbered : ∀ u ∈ a.timers, u.number < a.nextTimer
  distinct : ∀ u ∈ a.timers, ∀ v ∈ a.timers, u.number = v.number → u = v

namespace Serves

variable {count : Nat}

theorem mono (h : a.Serves count) {count' : Nat} (hle : count ≤ count') : a.Serves count' := by
  refine ⟨fun t ht => ?_, h.nodup, h.pending, fun u hu => ?_, h.numbered, h.distinct⟩
  · obtain ⟨k, hk, rfl⟩ := h.ready t ht
    exact ⟨k, Nat.lt_of_lt_of_le hk hle, rfl⟩
  · obtain ⟨k, hk, htask⟩ := h.owned u hu
    exact ⟨k, Nat.lt_of_lt_of_le hk hle, htask⟩

theorem setReady (h : a.Serves count) {ready : List TaskId} (hn : ready.Nodup)
    (hready : ∀ t ∈ ready, ∃ k < count, t = .service k) : Serves { a with ready := ready } count :=
  ⟨hready, hn, h.pending, h.owned, h.numbered, h.distinct⟩

theorem woken (h : a.Serves count) (hw : Woken ts a b)
    (hts : ∀ t ∈ ts, ∃ k < count, t = .service k) :
    b.Serves count where
  ready t ht := ((hw.ready t).mp ht).elim (h.ready t) (hts t)
  nodup := hw.nodup h.nodup
  pending := by rw [hw.clock, hw.timers]; exact h.pending
  owned := by rw [hw.timers]; exact h.owned
  numbered := by rw [hw.timers, hw.nextTimer]; exact h.numbered
  distinct := by rw [hw.timers]; exact h.distinct

theorem setTimer (h : a.Serves count) {k : Nat} (hk : k < count) (hdue : a.clock < due) :
    (a.setTimer (.service k) due).2.Serves count where
  ready := h.ready
  nodup := h.nodup
  pending u hu := by
    obtain rfl | hu := mem_setTimer.mp hu
    · exact hdue
    · exact h.pending u hu
  owned u hu := by
    obtain rfl | hu := mem_setTimer.mp hu
    · exact ⟨k, hk, rfl⟩
    · exact h.owned u hu
  numbered u hu := by
    obtain rfl | hu := mem_setTimer.mp hu
    · exact Nat.lt_succ_self _
    · exact Nat.lt_succ_of_lt (h.numbered u hu)
  distinct u hu v hv heq := by
    obtain rfl | hu := mem_setTimer.mp hu <;> obtain rfl | hv := mem_setTimer.mp hv
    · rfl
    · exact absurd heq.symm (Nat.ne_of_lt (h.numbered v hv))
    · exact absurd heq (Nat.ne_of_lt (h.numbered u hu))
    · exact h.distinct u hu v hv heq

theorem moveTo (h : a.Serves count) (time : Nat) : (a.moveTo time).Serves count := by
  have hmem {u : Timer} (hu : u ∈ a.timers.filter fun t => ¬ t.deadline ≤ time) :
      u ∈ a.timers ∧ time < u.deadline := by
    simpa using hu
  have hmoved : Serves { a with
      clock := max a.clock time
      timers := a.timers.filter fun t => ¬ t.deadline ≤ time } count := {
    ready := h.ready
    nodup := h.nodup
    pending := fun u hu => Nat.max_lt.mpr ⟨h.pending u (hmem hu).1, (hmem hu).2⟩
    owned := fun u hu => h.owned u (hmem hu).1
    numbered := fun u hu => h.numbered u (hmem hu).1
    distinct := fun u hu v hv => h.distinct u (hmem hu).1 v (hmem hv).1 }
  refine hmoved.woken (a.moveTo_woken time) fun t ht => ?_
  obtain ⟨u, hu, rfl⟩ := List.mem_map.mp ht
  exact h.owned u (List.mem_filter.mp hu).1

end Serves

/-- A service of a number can run if it has something to do, or will be woken. -/
structure Attends (a : Agenda) (k : Nat) (s : Service) : Prop where
  spawned : s.phase = .spawned → .service k ∈ a.ready
  waiting : s.phase = .waiting → .service k ∈ a.ready ∨ s.commands = []
  /-- The timer of a call that takes its time is the service's own. -/
  own : ∀ {c script number}, s.phase = .calling c script number →
    number < a.nextTimer ∧ ∀ u ∈ a.timers, u.number = number → u.task = .service k
  calling : ∀ {c script number}, s.phase = .calling c script number →
    .service k ∈ a.ready ∨ a.isSet number = true

namespace Attends

variable {k : Nat} {s : Service}

/-- Another timer may be set, and other tasks may be woken or run. -/
theorem of_agenda (h : a.Attends k s) (hready : .service k ∈ a.ready → .service k ∈ b.ready)
    (hnext : a.nextTimer ≤ b.nextTimer)
    (htimers : ∀ u : Timer, u.number < a.nextTimer → (u ∈ b.timers ↔ u ∈ a.timers)) :
    b.Attends k s where
  spawned hp := hready (h.spawned hp)
  waiting hp := (h.waiting hp).imp hready id
  own hp := by
    obtain ⟨hlt, hown⟩ := h.own hp
    refine ⟨Nat.lt_of_lt_of_le hlt hnext, fun u hu hnumber => ?_⟩
    exact hown u ((htimers u (hnumber ▸ hlt)).mp hu) hnumber
  calling hp := by
    refine (h.calling hp).imp hready fun hset => ?_
    obtain ⟨u, hu, hnumber⟩ := isSet_iff.mp hset
    exact isSet_iff.mpr ⟨u, (htimers u (hnumber ▸ (h.own hp).1)).mpr hu, hnumber⟩

theorem woken (h : a.Attends k s) (hw : Woken ts a b) : b.Attends k s :=
  h.of_agenda (fun hk => (hw.ready _).mpr (.inl hk)) (Nat.le_of_eq hw.nextTimer.symm)
    fun u _ => by rw [hw.timers]

theorem moveTo (h : a.Attends k s) (time : Nat) : (a.moveTo time).Attends k s := by
  have hwoken := a.moveTo_woken time
  have hready (hk : .service k ∈ a.ready) : .service k ∈ (a.moveTo time).ready :=
    (hwoken.ready _).mpr (.inl hk)
  refine ⟨fun hp => hready (h.spawned hp), fun hp => (h.waiting hp).imp hready id, fun hp => ?_,
    fun hp => ?_⟩
  · obtain ⟨hlt, hown⟩ := h.own hp
    exact ⟨hwoken.nextTimer ▸ hlt, fun u hu => hown u (mem_moveTo.mp hu).1⟩
  · obtain hk | hset := h.calling hp
    · exact .inl (hready hk)
    · obtain ⟨u, hu, hnumber⟩ := isSet_iff.mp hset
      by_cases hdue : u.deadline ≤ time
      · refine .inl ((hwoken.ready _).mpr (.inr ?_))
        rw [← (h.own hp).2 u hu hnumber]
        exact List.mem_map_of_mem (List.mem_filter.mpr ⟨hu, by simpa using hdue⟩)
      · exact .inr (isSet_iff.mpr ⟨u, mem_moveTo.mpr ⟨hu, Nat.lt_of_not_le hdue⟩, hnumber⟩)

theorem of_waiting (hp : s.phase = .waiting) (h : .service k ∈ a.ready ∨ s.commands = []) :
    a.Attends k s :=
  ⟨by simp [hp], fun _ => h, by simp [hp], by simp [hp]⟩

theorem of_ended {r : Except ServiceError Unit} (hp : s.phase = .ended r) : a.Attends k s :=
  ⟨by simp [hp], by simp [hp], by simp [hp], by simp [hp]⟩

end Attends

/-! ### Taking turns -/

/-- An agenda after the turn of a task: one that goes on by itself is ahead of the others. -/
def resume (a : Agenda) (p : Node.Progress) (t : TaskId) : Agenda :=
  match p with
  | .waits => a
  | .again => { a with ready := t :: a.ready }

/-- All but the service of a number stand on an agenda as before. -/
structure Spares (a : Agenda) (k : Nat) (b : Agenda) : Prop where
  clock : b.clock = a.clock
  ready : ∀ {j}, j ≠ k → (.service j ∈ b.ready ↔ .service j ∈ a.ready)
  nextTimer : a.nextTimer ≤ b.nextTimer
  timers : ∀ u : Timer, u.number < a.nextTimer → (u ∈ b.timers ↔ u ∈ a.timers)

theorem Spares.attends {k j : Nat} {s : Service} (h : a.Spares k b) (hj : j ≠ k)
    (hs : a.Attends j s) : b.Attends j s :=
  hs.of_agenda (h.ready hj).mpr h.nextTimer h.timers

theorem Serves.resume {count k : Nat} (h : a.Serves count) (hk : k < count)
    (hnone : .service k ∉ a.ready) (p : Node.Progress) :
    (a.resume p (.service k)).Serves count := by
  cases p with
  | waits => exact h
  | again =>
    refine h.setReady (List.nodup_cons.mpr ⟨hnone, h.nodup⟩) fun t ht => ?_
    obtain rfl | ht := List.mem_cons.mp ht
    · exact ⟨k, hk, rfl⟩
    · exact h.ready t ht

end Agenda

namespace Turn

open Agenda Service

variable {a a' : Agenda} {k : Nat} {s t : Service} {p : Node.Progress}

theorem serves {count : Nat} (h : Turn a k s p a' t) (ha : a.Serves count) (hk : k < count) :
    a'.Serves count := by
  obtain rfl | ⟨due, hdue, rfl⟩ := h.agenda
  · exact ha
  · exact ha.setTimer hk hdue

theorem ready (h : Turn a k s p a' t) : a'.ready = a.ready := by
  obtain rfl | ⟨due, -, rfl⟩ := h.agenda <;> rfl

theorem clock (h : Turn a k s p a' t) : a'.clock = a.clock := by
  obtain rfl | ⟨due, -, rfl⟩ := h.agenda <;> rfl

/-- What the turn of a service leaves alone of all others. -/
theorem spares (h : Turn { a with ready := a.ready.erase (.service k) } k s p a' t) :
    a.Spares k (a'.resume p (.service k)) := by
  have htimers : ∀ u : Timer, u.number < a.nextTimer → (u ∈ a'.timers ↔ u ∈ a.timers) := by
    intro u hu
    obtain rfl | ⟨due, -, rfl⟩ := h.agenda
    · rfl
    · rw [mem_setTimer]
      refine ⟨fun h => h.resolve_left ?_, .inr⟩
      rintro rfl
      exact Nat.lt_irrefl _ hu
  have hnext : a.nextTimer ≤ a'.nextTimer := by
    obtain rfl | ⟨due, -, rfl⟩ := h.agenda
    · exact Nat.le_refl _
    · exact Nat.le_succ _
  have hready {j : Nat} (hj : j ≠ k) : .service j ∈ a'.ready ↔ .service j ∈ a.ready := by
    rw [h.ready]
    exact List.mem_erase_of_ne (by simpa using hj)
  cases p with
  | waits => exact ⟨h.clock, hready, hnext, htimers⟩
  | again =>
    refine ⟨h.clock, fun hj => ?_, hnext, htimers⟩
    rw [← hready hj]
    simp [resume, hj]

/-- A call goes on as long as its timer is set, and then ends. -/
theorem of_calling (h : Turn a k s p a' t) {c : Callback} {script : CallScript} {number : Nat}
    (hp : s.phase = .calling c script number) :
    (a.isSet number = true ∧ t = s) ∨ (a.isSet number = false ∧ s.CallEnds a.clock c p t) := by
  have htakes {now c s'} (h : s.TakesUp now c s') : False := by
    obtain hphase | hphase := h.phase <;> cases hphase.symm.trans hp
  cases h with
  | waits hcall => exact .inl ⟨hcall hp, rfl⟩
  | sets h => cases h.symm.trans hp
  | skips h => cases h.symm.trans hp
  | begins h hd => exact (htakes h).elim
  | calls h ht => exact (htakes h).elim
  | ends h hs ht =>
    cases h.symm.trans hp
    exact .inr ⟨hs, ht⟩

/-- After its turn a service goes on or will be woken. -/
theorem attends {count : Nat} (h : Turn a k s p a' t) (ha : a.Serves count)
    (hown : ∀ {c script number}, s.phase = .calling c script number →
      number < a.nextTimer ∧ ∀ u ∈ a.timers, u.number = number → u.task = .service k) :
    (a'.resume p (.service k)).Attends k t := by
  have hends {s' c} (h : CallEnds a.clock s' c p t) : (a'.resume p (.service k)).Attends k t := by
    obtain ⟨-, r, hr⟩ | ⟨rfl, -, hw, -⟩ := h.cases_phase
    · exact .of_ended hr
    · exact .of_waiting hw (.inl List.mem_cons_self)
  cases h with
  | waits hcall hspawned hc =>
    exact ⟨fun hp => absurd hp hspawned, fun hp => .inr (hc hp), hown, fun hp => .inr (hcall hp)⟩
  | sets h hc hd => exact .of_waiting h (.inr hc)
  | skips h hc hi => exact .of_waiting h (.inl List.mem_cons_self)
  | begins h hd =>
    refine ⟨nofun, nofun, fun hp => ?_, fun hp => .inr ?_⟩
    all_goals
      cases hp
    · refine ⟨Nat.lt_succ_self _, fun u hu hnumber => ?_⟩
      obtain rfl | hu := mem_setTimer.mp hu
      · rfl
      · exact absurd hnumber (Nat.ne_of_lt (ha.numbered u hu))
    · exact isSet_iff.mpr ⟨_, mem_setTimer.mpr (.inl rfl), rfl⟩
  | calls h ht => exact hends ht
  | ends h hs ht => exact hends ht

end Turn

end ControlNode
