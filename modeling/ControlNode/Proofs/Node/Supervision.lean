import ControlNode.Proofs.Node.Histories
import ControlNode.Proofs.Node.Timetables

/-!
# Supervision

A node that runs services with scripts, and nothing else, keeps track of all of them
(`Node.Manages`), whichever of them takes its turn and however much time passes (`Node.Runs`).
Letting the services run comes to an end at which none of them has anything to do
(`Manages.settle_ready`).
-/

namespace ControlNode.Node

open Relation Service

variable {n m : Node} {k j : Nat} {s t u : Service}

/-! ### Services of a node -/

theorem service?_putService_self (hk : k < n.services.length) :
    (n.putService k t).service? k = some t :=
  List.getElem?_set_self hk

theorem service?_putService_of_ne (hj : j ≠ k) : (n.putService k t).service? j = n.service? j :=
  List.getElem?_set_ne hj.symm

theorem lt_of_service? (hs : n.service? k = some s) : k < n.services.length :=
  (List.getElem?_eq_some_iff.mp hs).1

/-- A node with services with scripts and nothing else, each of which is kept track of. -/
structure Manages (n : Node) : Prop where
  agenda : n.agenda.Serves n.services.length
  kept : ∀ {k s}, n.service? k = some s → s.Kept
  attends : ∀ {k s}, n.service? k = some s → n.agenda.Attends k s

theorem Manages.put (h : Manages n) (hs : n.service? k = some s) {a : Agenda} (ht : t.Kept)
    (ha : a.Serves n.services.length) (hk : a.Attends k t)
    (hothers : ∀ {j u}, j ≠ k → n.agenda.Attends j u → a.Attends j u) :
    Manages ({ n with agenda := a }.putService k t) := by
  have hlt := lt_of_service? hs
  have hservice {j u} (hu : ({ n with agenda := a }.putService k t).service? j = some u) :
      (j = k ∧ u = t) ∨ (j ≠ k ∧ n.service? j = some u) := by
    by_cases hj : j = k
    · subst hj
      rw [service?_putService_self (by exact hlt)] at hu
      exact .inl ⟨rfl, (Option.some.inj hu).symm⟩
    · rw [service?_putService_of_ne hj] at hu
      exact .inr ⟨hj, hu⟩
  refine ⟨?_, fun hu => ?_, fun hu => ?_⟩
  · rw [putService, List.length_set]
    exact ha
  · obtain ⟨rfl, rfl⟩ | ⟨-, hu⟩ := hservice hu
    · exact ht
    · exact h.kept hu
  · obtain ⟨rfl, rfl⟩ | ⟨hj, hu⟩ := hservice hu
    · exact hk
    · exact hothers hj (h.attends hu)

/-! ### Taking turns -/

theorem Manages.turn (h : Manages n) (hk : .service k ∈ n.agenda.ready) :
    ∃ s p a t, n.service? k = some s ∧
      Turn { n.agenda with ready := n.agenda.ready.erase (.service k) } k s p a t ∧
      n.runReadyTask (.service k) =
        { n with agenda := a.resume p (.service k) }.putService k t := by
  obtain ⟨k', hlt, heq⟩ := h.agenda.ready _ hk
  cases heq
  have hs : n.service? k = some n.services[k] := List.getElem?_eq_getElem hlt
  obtain ⟨script, hkind⟩ := (h.kept hs).programmed
  have hphase : n.services[k].phase ≠ .updating := fun hphase =>
    (hphase ▸ (h.kept hs).fits).not_updating
  obtain ⟨p, a, t, heq, hturn⟩ := pollService_turn
    (n := { n with agenda := { n.agenda with ready := n.agenda.ready.erase (.service k) } })
    hs hkind hphase
  refine ⟨_, p, a, t, hs, hturn, ?_⟩
  simp only [runReadyTask, if_pos hk, runTask, heq]
  cases p <;> rfl

theorem Manages.runReadyTask (h : Manages n) (hk : .service k ∈ n.agenda.ready) :
    Manages (n.runReadyTask (.service k)) := by
  obtain ⟨s, p, a, t, hs, hturn, heq⟩ := h.turn hk
  have hlt := lt_of_service? hs
  have hrest : Agenda.Serves { n.agenda with ready := n.agenda.ready.erase (.service k) }
      n.services.length :=
    h.agenda.setReady (h.agenda.nodup.erase _) fun t ht =>
      h.agenda.ready t (List.mem_of_mem_erase ht)
  have hnone : .service k ∉ a.ready := by
    rw [hturn.ready]
    exact h.agenda.nodup.not_mem_erase
  rw [heq]
  exact h.put hs (hturn.kept (h.kept hs)) ((hturn.serves hrest hlt).resume hlt hnone p)
    (hturn.attends hrest (h.attends hs).own) fun hj hu => hturn.spares.attends hj hu

theorem Manages.turn_spares (h : Manages n) (hk : .service k ∈ n.agenda.ready) :
    n.agenda.Spares k (n.runReadyTask (.service k)).agenda ∧
      ∀ {j}, j ≠ k → (n.runReadyTask (.service k)).service? j = n.service? j := by
  obtain ⟨s, p, a, t, hs, hturn, heq⟩ := h.turn hk
  rw [heq]
  exact ⟨hturn.spares, fun hj => service?_putService_of_ne hj⟩

theorem Manages.elapse (h : Manages n) (time : Nat) :
    Manages { n with agenda := n.agenda.moveTo time } :=
  ⟨h.agenda.moveTo time, h.kept, fun hs => (h.attends hs).moveTo time⟩

/-- A service takes its turn, or time passes. -/
inductive GoesOn (n : Node) : Node → Prop where
  | run {k : Nat} (hk : .service k ∈ n.agenda.ready) : GoesOn n (n.runReadyTask (.service k))
  | elapse (time : Nat) : GoesOn n { n with agenda := n.agenda.moveTo time }

/-- Services have taken turns while time has passed. -/
def Runs : Node → Node → Prop := ReflTransGen GoesOn

def Turns : Service → Service → Prop := ReflTransGen fun s t => ∃ a k p a', Turn a k s p a' t

theorem GoesOn.manages (h : GoesOn n m) (hn : Manages n) : Manages m := by
  cases h with
  | run hk => exact hn.runReadyTask hk
  | elapse time => exact hn.elapse time

theorem GoesOn.turns (h : GoesOn n m) (hn : Manages n) (hs : n.service? j = some s) :
    ∃ t, m.service? j = some t ∧ Turns s t := by
  cases h with
  | elapse time => exact ⟨s, hs, .refl⟩
  | @run k hk =>
    obtain ⟨s', p, a, t, hs', hturn, heq⟩ := hn.turn hk
    rw [heq]
    by_cases hj : j = k
    · subst hj
      cases hs.symm.trans hs'
      exact ⟨t, service?_putService_self (lt_of_service? hs), .single ⟨_, _, _, _, hturn⟩⟩
    · exact ⟨s, (service?_putService_of_ne hj).trans hs, .refl⟩

theorem GoesOn.frame (h : GoesOn n m) (hn : Manages n) :
    m.order = n.order ∧ m.services.length = n.services.length := by
  cases h with
  | elapse time => exact ⟨rfl, rfl⟩
  | run hk =>
    obtain ⟨s, p, a, t, hs, hturn, heq⟩ := hn.turn hk
    rw [heq]
    exact ⟨rfl, List.length_set⟩

namespace Runs

theorem refl (n : Node) : Runs n n := ReflTransGen.refl

theorem trans {k : Node} (h : Runs n m) (h' : Runs m k) : Runs n k := ReflTransGen.trans h h'

theorem manages (h : Runs n m) (hn : Manages n) : Manages m := by
  induction h with
  | refl => exact hn
  | tail _ hgo ih => exact hgo.manages ih

theorem turns (h : Runs n m) (hn : Manages n) (hs : n.service? j = some s) :
    ∃ t, m.service? j = some t ∧ Turns s t := by
  induction h with
  | refl => exact ⟨s, hs, .refl⟩
  | tail hrun hgo ih =>
    obtain ⟨t, ht, hturns⟩ := ih
    obtain ⟨u, hu, hturns'⟩ := hgo.turns (manages hrun hn) ht
    exact ⟨u, hu, hturns.trans hturns'⟩

theorem frame (h : Runs n m) (hn : Manages n) :
    m.order = n.order ∧ m.services.length = n.services.length := by
  induction h with
  | refl => exact ⟨rfl, rfl⟩
  | tail hrun hgo ih =>
    obtain ⟨horder, hlength⟩ := hgo.frame (manages hrun hn)
    exact ⟨horder.trans ih.1, hlength.trans ih.2⟩

end Runs

namespace Turns

theorem same (h : Turns s t) : t.spec = s.spec ∧ t.managed = s.managed := by
  induction h with
  | refl => exact ⟨rfl, rfl⟩
  | tail _ hturn ih =>
    obtain ⟨a, k, p, a', hturn⟩ := hturn
    exact ⟨hturn.same.1.trans ih.1, hturn.same.2.trans ih.2⟩

theorem keeps {P : Service → Prop} (h : Turns s t)
    (hP : ∀ {a k s p a' t}, Turn a k s p a' t → P s → P t) (hs : P s) : P t := by
  induction h with
  | refl => exact hs
  | tail _ hturn ih =>
    obtain ⟨a, k, p, a', hturn⟩ := hturn
    exact hP hturn ih

theorem of_ended (h : Turns s t) {r : Except ServiceError Unit} (hr : s.phase = .ended r) : t = s :=
  h.keeps (P := fun t => t = s) (fun hturn hs => by
    subst hs
    exact hturn.of_ended hr) rfl

end Turns

/-! ### Until all services wait -/

theorem work_eq_sum (n : Node) : n.work = (n.agenda.ready.map n.workOf).sum := by
  rw [work, List.sum, List.foldr_map]

theorem workOf_service (hs : n.service? k = some s) :
    n.workOf (.service k) = s.backlog n.agenda.clock := by
  simp [workOf, hs]

theorem Manages.workOf_pos (h : Manages n) {task : TaskId} (ht : task ∈ n.agenda.ready) :
    0 < n.workOf task := by
  obtain ⟨k, hk, rfl⟩ := h.agenda.ready task ht
  rw [workOf_service (List.getElem?_eq_getElem hk)]
  exact Nat.succ_pos _

theorem Manages.work_lt (h : Manages n) {rest : List TaskId}
    (hready : n.agenda.ready = .service k :: rest) :
    (n.runReadyTask (.service k)).work < n.work := by
  have hk : .service k ∈ n.agenda.ready := by rw [hready]; exact List.mem_cons_self
  obtain ⟨s, p, a, t, hs, hturn, heq⟩ := h.turn hk
  have hpos := h.workOf_pos hk
  have hnone : .service k ∉ rest := (List.nodup_cons.mp (hready ▸ h.agenda.nodup)).1
  have hrest : a.ready = rest := by
    rw [hturn.ready]
    simp [hready]
  obtain ⟨hspares, hservice⟩ := h.turn_spares hk
  generalize n.runReadyTask (.service k) = m at heq hspares hservice ⊢
  have hagenda : m.agenda = a.resume p (.service k) := by rw [heq]; rfl
  have hself : m.service? k = some t := by
    rw [heq]
    exact service?_putService_self (lt_of_service? hs)
  have hothers : rest.map m.workOf = rest.map n.workOf := by
    refine List.map_congr_left fun task htask => ?_
    obtain ⟨j, hj, rfl⟩ := h.agenda.ready task (by rw [hready]; exact List.mem_cons_of_mem _ htask)
    have hjk : j ≠ k := fun hjk => hnone (hjk ▸ htask)
    have hu : n.service? j = some n.services[j] := List.getElem?_eq_getElem hj
    rw [workOf_service hu, workOf_service ((hservice hjk).trans hu), hspares.clock]
  rw [work_eq_sum, work_eq_sum, hready, List.map_cons, List.sum_cons, hagenda]
  cases p with
  | waits =>
    rw [Agenda.resume, hrest, hothers]
    omega
  | again =>
    have hlt : t.backlog n.agenda.clock < s.backlog n.agenda.clock := hturn.backlog_lt (h.kept hs)
    rw [Agenda.resume, List.map_cons, List.sum_cons, hrest, hothers, workOf_service hself,
      workOf_service hs, hspares.clock]
    omega

theorem Manages.step_eq (h : Manages n) (hready : n.agenda.ready ≠ []) :
    ∃ k rest, n.agenda.ready = .service k :: rest ∧ n.step = n.runReadyTask (.service k) := by
  obtain ⟨task, rest, hready⟩ := List.exists_cons_of_ne_nil hready
  obtain ⟨k, -, rfl⟩ := h.agenda.ready task (by rw [hready]; exact List.mem_cons_self)
  refine ⟨k, rest, hready, ?_⟩
  rcases hrun :
    { n with agenda := { n.agenda with ready := rest } }.runTask (.service k) with ⟨p, m⟩
  have hturn : n.runReadyTask (.service k) = match p with
      | .waits => m
      | .again => { m with agenda := { m.agenda with ready := .service k :: m.agenda.ready } } := by
    simp only [Node.runReadyTask, hready, List.mem_cons_self, if_true, List.erase_cons_head, hrun]
    cases p <;> rfl
  rw [hturn, step]
  simp only [hready, hrun]
  cases p <;> rfl

/-- What each turn keeps is kept while all services run. -/
theorem Manages.runReady_induction {P : Node → Prop}
    (hturn : ∀ {n k}, Manages n → .service k ∈ n.agenda.ready → P n →
      P (n.runReadyTask (.service k)))
    (h : Manages n) (hP : P n) (fuel : Nat) : P (runReady fuel n) := by
  induction fuel generalizing n with
  | zero => exact hP
  | succ fuel ih =>
    unfold runReady
    split
    · exact hP
    · rename_i hready
      obtain ⟨k, rest, hcons, heq⟩ := h.step_eq fun hnil => hready (by rw [hnil]; rfl)
      have hk : .service k ∈ n.agenda.ready := by rw [hcons]; exact List.mem_cons_self
      rw [heq]
      exact ih (h.runReadyTask hk) (hturn h hk hP)

theorem Manages.runReady_ready (h : Manages n) {fuel : Nat} (hfuel : n.work ≤ fuel) :
    (runReady fuel n).agenda.ready = [] := by
  induction fuel generalizing n with
  | zero =>
    show n.agenda.ready = []
    refine List.eq_nil_iff_forall_not_mem.mpr fun task htask => ?_
    have hle := List.le_sum_of_mem (List.mem_map_of_mem (f := n.workOf) htask)
    have hpos := h.workOf_pos htask
    rw [work_eq_sum] at hfuel
    omega
  | succ fuel ih =>
    unfold runReady
    split
    · rename_i hready
      exact List.isEmpty_iff.mp hready
    · rename_i hready
      obtain ⟨k, rest, hcons, heq⟩ := h.step_eq fun hnil => hready (by rw [hnil]; rfl)
      have hlt := h.work_lt hcons
      rw [heq]
      exact ih (h.runReadyTask (by rw [hcons]; exact List.mem_cons_self)) (by omega)

theorem Manages.settle_runs (h : Manages n) : Runs n n.settle := by
  refine (h.runReady_induction (P := fun m => Runs n m) (fun _ hk hruns => ?_) (.refl n) _)
  exact ReflTransGen.tail hruns (.run hk)

/-- Letting all services run leaves none that can run. -/
theorem Manages.settle_ready (h : Manages n) : n.settle.agenda.ready = [] :=
  h.runReady_ready (Nat.le_add_left _ _)

end ControlNode.Node
