import ControlNode.Proofs.Node.Waiting

/-!
# Shutting down

A caller can tell a service something at any time (`Manages.tell`). Stopping services in turn ends
each of them, whatever it is in the middle of, before the next one is told to stop, and leaves the
others to their turns (`Manages.stopEach_stopping`); the first failure in that order is returned
(`Manages.stopEach_fst`).
-/

namespace ControlNode.Node

open Service

variable {n m : Node} {k j : Nat} {ks : List Nat} {s t u : Service}

/-! ### Telling a service -/

/-- Something has been done to services of some numbers, while the others have taken turns. -/
structure Spared (ks : List Nat) (n m : Node) : Prop where
  manages : Manages m
  order : m.order = n.order
  length : m.services.length = n.services.length
  others : ∀ {j s}, j ∉ ks → n.service? j = some s → ∃ t, m.service? j = some t ∧ Turns s t

theorem Spared.mono (h : Spared ks n m) {js : List Nat} (hks : ks ⊆ js) : Spared js n m :=
  ⟨h.manages, h.order, h.length, fun hj => h.others fun hk => hj (hks hk)⟩

theorem Spared.trans {l : Node} (h : Spared ks n m) (h' : Spared ks m l) : Spared ks n l where
  manages := h'.manages
  order := h'.order.trans h.order
  length := h'.length.trans h.length
  others hj hs := by
    obtain ⟨t, ht, hturns⟩ := h.others hj hs
    obtain ⟨u, hu, hturns'⟩ := h'.others hj ht
    exact ⟨u, hu, hturns.trans hturns'⟩

theorem Runs.spared (h : Runs n m) (hn : Manages n) (ks : List Nat) : Spared ks n m :=
  ⟨h.manages hn, (h.frame hn).1, (h.frame hn).2, fun _ hs => h.turns hn hs⟩

theorem Manages.spared_put (hm : Manages m) (horder : m.order = n.order)
    (hservices : m.services = n.services.set k t) : Spared [k] n m := by
  refine ⟨hm, horder, by rw [hservices, List.length_set], fun {j s} hj hs => ⟨s, ?_, .refl⟩⟩
  rw [service?, hservices, List.getElem?_set_ne (by simpa [eq_comm] using hj)]
  exact hs

theorem Manages.tell (h : Manages n) (hs : n.service? k = some s) (ht : t.Kept)
    (hphase : t.phase = s.phase) :
    Spared [k] n ((n.putService k t).wakeService k t) ∧
      ((n.putService k t).wakeService k t).service? k = some t := by
  have hattends := h.attends hs
  have hlt := lt_of_service? hs
  unfold wakeService
  split
  · have hwoken := n.agenda.wake_woken (.service k)
    have hready : .service k ∈ (n.agenda.wake (.service k)).ready :=
      (hwoken.ready _).mpr (.inr (by simp))
    have htask : ∀ task ∈ [TaskId.service k], ∃ k < n.services.length, task = .service k :=
      fun task htask => ⟨k, hlt, by simpa using htask⟩
    have hput := h.put (a := n.agenda.wake (.service k)) hs ht (h.agenda.woken hwoken htask)
      ⟨fun _ => hready, fun _ => .inl hready,
        fun hp => (hattends.woken hwoken).own (hphase ▸ hp), fun _ => .inl hready⟩
      fun _ hu => hu.woken hwoken
    exact ⟨hput.spared_put rfl rfl, service?_putService_self (by exact hlt)⟩
  · rename_i hwaiting
    have hbusy : t.phase ≠ .waiting := fun hp => hwaiting (by simp [isWaiting, hp])
    have hput := h.put (a := n.agenda) hs ht h.agenda ⟨fun hp => hattends.spawned (hphase ▸ hp),
      fun hp => absurd hp hbusy, fun hp => hattends.own (hphase ▸ hp),
      fun hp => hattends.calling (hphase ▸ hp)⟩ fun _ hu => hu
    exact ⟨hput.spared_put rfl rfl, service?_putService_self hlt⟩

/-! ### Stopping services -/

theorem Manages.unmanage (h : Manages n) (hs : n.service? k = some s) :
    Spared [k] n (n.putService k { s with managed := false }) := by
  have hkept := h.kept hs
  have hattends := h.attends hs
  have hput := h.put (a := n.agenda) (t := { s with managed := false }) hs
    ⟨⟨hkept.programmed, hkept.period, hkept.capacity, nofun⟩, hkept.fits, hkept.reports⟩ h.agenda
    ⟨hattends.spawned, hattends.waiting, hattends.own, hattends.calling⟩ fun _ hu => hu
  exact hput.spared_put rfl rfl

theorem Manages.requestStop (h : Manages n) (hs : n.service? k = some s) (hm : s.managed = false)
    (hroom : hasRoom s = true) : Spared [k] n (n.requestStop k) ∧
      ∃ t, (n.requestStop k).service? k = some t ∧ t.managed = false ∧ t.Told := by
  unfold Node.requestStop
  rw [hs]
  dsimp only
  split
  · rename_i hended
    obtain ⟨r, hr⟩ := hasEnded_iff.mp hended
    exact ⟨(Runs.refl n).spared h [k], s, hs, hm, .ended hr⟩
  · rename_i hended
    have hlt := (hasRoom_iff.mp hroom).resolve_left fun hr => hended (hasEnded_iff.mpr hr)
    have hkept := h.kept hs
    have ht : Service.Kept { s with commands := s.commands ++ [Command.stop] } :=
      ⟨⟨hkept.programmed, hkept.period, by simpa using hlt,
        fun hm' => absurd hm' (by simp [hm])⟩, hkept.fits, hkept.reports⟩
    obtain ⟨hspared, hservice⟩ := h.tell hs ht rfl
    exact ⟨hspared, _, hservice, hm, .demanded (by simp)⟩

structure Stopping (ks : List Nat) (n m : Node) : Prop extends Spared ks n m where
  stopped : ∀ k ∈ ks, ∃ t r, m.service? k = some t ∧ t.phase = .ended r ∧ t.managed = false

theorem Manages.stopService (h : Manages n) (hs : n.service? k = some s) :
    Stopping [k] n (n.stopService k).2 ∧
      (n.stopService k).1 =
        (((n.stopService k).2.service? k).bind Service.result?).getD (.ok ()) := by
  unfold Node.stopService
  rw [hs]
  refine ⟨?_, rfl⟩
  have hspared₁ := h.unmanage hs
  have hs₁ := service?_putService_self (t := { s with managed := false }) (lt_of_service? hs)
  have hle₁ := (hspared₁.manages.kept hs₁).outstanding_le
  obtain ⟨hruns₂, s₂, hs₂, hroom₂⟩ := leads_hasRoom.awaitService hspared₁.manages hs₁
    (.inr (Nat.lt_of_le_of_lt hle₁ (by decide)))
  have hspared₂ := hspared₁.trans (hruns₂.spared hspared₁.manages [k])
  obtain ⟨s₂', hs₂', hturns₂⟩ := hruns₂.turns hspared₁.manages hs₁
  cases hs₂.symm.trans hs₂'
  obtain ⟨hspared₃, s₃, hs₃, hm₃, htold₃⟩ :=
    hspared₂.manages.requestStop hs₂ hturns₂.same.2 hroom₂
  have hle₃ := (hspared₃.manages.kept hs₃).outstanding_le
  obtain ⟨hruns₄, s₄, hs₄, hended₄⟩ :=
    leads_hasEnded.awaitService hspared₃.manages hs₃ ⟨htold₃, hle₃⟩
  have hspared₄ := (hspared₂.trans hspared₃).trans (hruns₄.spared hspared₃.manages [k])
  obtain ⟨s₄', hs₄', hturns₄⟩ := hruns₄.turns hspared₃.manages hs₃
  cases hs₄.symm.trans hs₄'
  obtain ⟨r, hr⟩ := hasEnded_iff.mp hended₄
  refine ⟨hspared₄, fun k' hk' => ?_⟩
  cases List.mem_singleton.mp hk'
  exact ⟨s₄, r, hs₄, hr, hturns₄.same.2.trans hm₃⟩

theorem Stopping.trans {l : Node} {js : List Nat} (h : Stopping ks n m) (h' : Stopping js m l) :
    Stopping (ks ++ js) n l := by
  refine ⟨(h.mono (List.subset_append_left ks js)).trans
    (h'.mono (List.subset_append_right ks js)), fun k hk => ?_⟩
  by_cases hj : k ∈ js
  · exact h'.stopped k hj
  · obtain ⟨t, r, ht, hr, hmanaged⟩ := h.stopped k ((List.mem_append.mp hk).resolve_right hj)
    obtain ⟨u, hu, hturns⟩ := h'.others hj ht
    cases hturns.of_ended hr
    exact ⟨t, r, hu, hr, hmanaged⟩

theorem Manages.stopEach_stopping (h : Manages n) (hks : ∀ k ∈ ks, k < n.services.length) :
    Stopping ks n (n.stopEach ks).2 := by
  induction ks generalizing n with
  | nil => exact ⟨(Runs.refl n).spared h [], nofun⟩
  | cons k ks ih =>
    have hk := hks k List.mem_cons_self
    have hs : n.service? k = some n.services[k] := List.getElem?_eq_getElem hk
    have hstop := (h.stopService hs).1
    have hrest := ih hstop.manages fun j hj => by
      rw [hstop.length]
      exact hks j (List.mem_cons_of_mem _ hj)
    exact hstop.trans hrest

/-- How the services of some numbers that have ended did so. -/
def resultsOf (n : Node) (ks : List Nat) : List (Except ServiceError Unit) :=
  ks.filterMap fun k => (n.service? k).bind Service.result?

def firstError : List (Except ServiceError Unit) → Except ServiceError Unit
  | [] => .ok ()
  | .error e :: _ => .error e
  | .ok () :: rs => firstError rs

/-- The first failure is returned, after all of the services have been stopped. -/
theorem Manages.stopEach_fst (h : Manages n) (hks : ∀ k ∈ ks, k < n.services.length)
    (hnodup : ks.Nodup) : (n.stopEach ks).1 = firstError ((n.stopEach ks).2.resultsOf ks) := by
  induction ks generalizing n with
  | nil => rfl
  | cons k ks ih =>
    have hk := hks k List.mem_cons_self
    have hs : n.service? k = some n.services[k] := List.getElem?_eq_getElem hk
    obtain ⟨hstop, hresult⟩ := h.stopService hs
    have hks' : ∀ j ∈ ks, j < (n.stopService k).2.services.length := fun j hj => by
      rw [hstop.length]
      exact hks j (List.mem_cons_of_mem _ hj)
    have hrest := ih hstop.manages hks' (List.nodup_cons.mp hnodup).2
    have hlater := hstop.manages.stopEach_stopping hks'
    obtain ⟨t, r, ht, hr, -⟩ := hstop.stopped k List.mem_cons_self
    obtain ⟨u, hu, hturns⟩ := hlater.others (List.nodup_cons.mp hnodup).1 ht
    cases hturns.of_ended hr
    have hres : t.result? = some r := by simp [Service.result?, hr]
    have hfst : (n.stopService k).1 = r := by simp [hresult, ht, hres]
    have hcons : ((n.stopService k).2.stopEach ks).2.resultsOf (k :: ks) =
        r :: ((n.stopService k).2.stopEach ks).2.resultsOf ks :=
      List.filterMap_cons_some (by simp [hu, hres])
    simp only [stopEach, hfst, hcons, hrest]
    cases r <;> rfl

theorem stopEach_append (n : Node) (ks js : List Nat) :
    (n.stopEach (ks ++ js)).2 = ((n.stopEach ks).2.stopEach js).2 := by
  induction ks generalizing n with
  | nil => rfl
  | cons k ks ih => exact ih _

end ControlNode.Node
