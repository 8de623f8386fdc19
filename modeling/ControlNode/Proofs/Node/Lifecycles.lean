import ControlNode.Proofs.Node.Shutdowns

/-!
# Lives of services on a node

Services with scripts, which stand for whatever services do when they are called, are spawned,
told of events, asked to tick and shut down, with turns of single services and any time in
between. Whatever the history, an id is refused while a service of that id has not been shut
down, each service is called in an order that it can rely on, and shutting down stops all of
them, the last one that was spawned first (`services_lifecycle`).
-/

namespace ControlNode.Node

open Service

variable {n m : Node} {k j : Nat} {s t u : Service}

/-! ### Histories of services -/

/-- An operation on the services of a node, the turn of a service, or the passing of time. -/
inductive ServiceOperation where
  | spawn (spec : ServiceSpec) (script : List CallEvent → Callback → CallScript)
  | publish (e : Event)
  | forceTick (k : Nat)
  | shutdownAll
  /-- A service that can run does so until it goes on by itself or waits. -/
  | run (k : Nat)
  /-- The clock reaches a time. -/
  | elapse (time : Nat)

def serve (n : Node) : ServiceOperation → Node
  | .spawn spec script => (n.spawn spec (.programmed script)).2
  | .publish e => n.publish e
  | .forceTick k => (n.forceTick k).2
  | .shutdownAll => n.shutdownAll.2
  | .run k => n.runReadyTask (.service k)
  | .elapse time => { n with agenda := n.agenda.moveTo time }

/-- A node after a history of its services. -/
def serving (n : Node) (ops : List ServiceOperation) : Node := ops.foldl serve n

/-! ### Services that stay -/

/-- Services have been told something or have taken turns; none has been spawned or shut down. -/
structure Staying (n m : Node) : Prop where
  manages : Manages m
  order : m.order = n.order
  length : m.services.length = n.services.length
  services : ∀ {k s}, n.service? k = some s → ∃ t, m.service? k = some t ∧ t.spec = s.spec ∧
    t.managed = s.managed ∧ ∀ r, s.phase = .ended r → t.phase = .ended r

namespace Staying

theorem refl (h : Manages n) : Staying n n :=
  ⟨h, rfl, rfl, fun {_ s} hs => ⟨s, hs, rfl, rfl, fun _ hr => hr⟩⟩

theorem trans {l : Node} (h : Staying n m) (h' : Staying m l) : Staying n l where
  manages := h'.manages
  order := h'.order.trans h.order
  length := h'.length.trans h.length
  services hs := by
    obtain ⟨t, ht, hspec, hmanaged, hended⟩ := h.services hs
    obtain ⟨u, hu, hspec', hmanaged', hended'⟩ := h'.services ht
    exact ⟨u, hu, hspec'.trans hspec, hmanaged'.trans hmanaged, fun r hr => hended' r (hended r hr)⟩

theorem back (h : Staying n m) (ht : m.service? k = some t) :
    ∃ s, n.service? k = some s ∧ t.spec = s.spec ∧ t.managed = s.managed ∧
      ∀ r, s.phase = .ended r → t.phase = .ended r := by
  have hk : k < n.services.length := h.length ▸ lt_of_service? ht
  have hs : n.service? k = some n.services[k] := List.getElem?_eq_getElem hk
  obtain ⟨t', ht', hstays⟩ := h.services hs
  cases ht.symm.trans ht'
  exact ⟨_, hs, hstays⟩

end Staying

theorem Turns.stays (h : Turns s t) :
    t.spec = s.spec ∧ t.managed = s.managed ∧ ∀ r, s.phase = .ended r → t.phase = .ended r :=
  ⟨h.same.1, h.same.2, fun _ hr => by rw [h.of_ended hr]; exact hr⟩

theorem Runs.staying (h : Runs n m) (hn : Manages n) : Staying n m where
  manages := h.manages hn
  order := (h.frame hn).1
  length := (h.frame hn).2
  services hs := by
    obtain ⟨t, ht, hturns⟩ := h.turns hn hs
    exact ⟨t, ht, hturns.stays⟩

/-- A service that is told something stays the same service. -/
theorem Manages.tell_staying (h : Manages n) (hs : n.service? k = some s) (ht : t.Kept)
    (hphase : t.phase = s.phase) (hspec : t.spec = s.spec) (hmanaged : t.managed = s.managed) :
    Staying n ((n.putService k t).wakeService k t) := by
  obtain ⟨hspared, hservice⟩ := h.tell hs ht hphase
  refine ⟨hspared.manages, hspared.order, hspared.length, fun {j u} hu => ?_⟩
  by_cases hj : j = k
  · subst hj
    cases hs.symm.trans hu
    exact ⟨t, hservice, hspec, hmanaged, fun r hr => hphase.trans hr⟩
  · obtain ⟨v, hv, hturns⟩ := hspared.others (by simpa using hj) hu
    exact ⟨v, hv, hturns.stays⟩

theorem Manages.forceTick_staying (h : Manages n) (k : Nat) : Staying n (n.forceTick k).2 := by
  unfold Node.forceTick
  cases hs : n.service? k with
  | none => exact .refl h
  | some s =>
    have hkept := h.kept hs
    dsimp only
    unfold Service.forceTick
    split
    · exact h.tell_staying hs hkept rfl rfl rfl
    · split
      · rename_i hlt
        have ht : Service.Kept { s with commands := s.commands ++ [Command.tick] } := by
          refine ⟨⟨hkept.programmed, hkept.period, by simpa using hlt, fun hm => ?_⟩, hkept.fits,
            hkept.reports⟩
          obtain ⟨hstop, hnone⟩ := hkept.unasked hm
          exact ⟨by simpa using hstop, hnone⟩
        exact h.tell_staying hs ht rfl rfl rfl
      · exact h.tell_staying hs hkept rfl rfl rfl

theorem Manages.deliver_staying (h : Manages n) (e : Event) (k : Nat) :
    Staying n (n.deliver e k) := by
  unfold Node.deliver
  cases hs : n.service? k with
  | none => exact .refl h
  | some s =>
    have hkept := h.kept hs
    dsimp only
    split
    · obtain ⟨hphase, hspec, hmanaged⟩ := s.receive_same e
      exact h.tell_staying hs (hkept.receive e) hphase hspec hmanaged
    · exact .refl h

theorem Manages.publish_staying (h : Manages n) (e : Event) : Staying n (n.publish e) := by
  have hfold (ks : List Nat) {n : Node} (h : Manages n) : Staying n (ks.foldl (deliver e) n) := by
    induction ks generalizing n with
    | nil => exact .refl h
    | cons k ks ih =>
      have hstays := h.deliver_staying e k
      exact hstays.trans (ih hstays.manages)
  have hevents : Manages { n with events := e :: n.events } := ⟨h.agenda, h.kept, h.attends⟩
  have hstays := hfold (List.range n.services.length) hevents
  exact ⟨hstays.manages, hstays.order, hstays.length, hstays.services⟩

theorem Manages.runReadyTask_staying (h : Manages n) (k : Nat) :
    Staying n (n.runReadyTask (.service k)) := by
  by_cases hk : .service k ∈ n.agenda.ready
  · exact Runs.staying (.single (.run hk)) h
  · rw [Node.runReadyTask, if_neg hk]
    exact .refl h

/-! ### Between operations -/

/-- A node whose services are either in the order of spawning or have been shut down. -/
structure Staffed (n : Node) : Prop extends Manages n where
  order : n.order =
    (List.range n.services.length).filter fun k => (n.service? k).any Service.managed
  ended : ∀ {k s}, n.service? k = some s → s.managed = false → ∃ r, s.phase = .ended r

theorem Staying.staffed (h : Staying n m) (hn : Staffed n) : Staffed m where
  toManages := h.manages
  order := by
    rw [h.order, h.length, hn.order]
    refine List.filter_congr fun k hk => ?_
    have hk := List.mem_range.mp hk
    have hs : n.service? k = some n.services[k] := List.getElem?_eq_getElem hk
    obtain ⟨t, ht, -, hmanaged, -⟩ := h.services hs
    simp [hs, ht, hmanaged]
  ended ht hm := by
    obtain ⟨s, hs, -, hmanaged, hended⟩ := h.back ht
    obtain ⟨r, hr⟩ := hn.ended hs (hmanaged ▸ hm)
    exact ⟨r, hended r hr⟩

theorem create_staffed (config : NodeConfig) (backend : Backend) (wall : Int) (zone : Zone) :
    Staffed (create config backend wall zone) where
  agenda := ⟨nofun, List.nodup_nil, nofun, nofun, nofun, nofun⟩
  kept := nofun
  attends := nofun
  order := rfl
  ended := nofun

theorem spawn_ok {spec : ServiceSpec} {kind : ServiceKind}
    (h : (n.services.any fun s => s.managed && s.spec.id == spec.id) = false) :
    n.spawn spec kind = (.ok n.services.length, { n with
      services := n.services ++ [{ spec := spec, kind := kind }]
      order := n.order ++ [n.services.length]
      agenda := n.agenda.wake (.service n.services.length) }) := by
  simp [spawn, h, wake]

theorem spawn_error {spec : ServiceSpec} {kind : ServiceKind}
    (h : (n.services.any fun s => s.managed && s.spec.id == spec.id) = true) :
    n.spawn spec kind = (.error (.alreadyRunning spec.id), n) := by
  simp [spawn, h]

theorem getElem?_concat_iff {services : List Service} {last : Service} :
    (services ++ [last])[k]? = some s ↔
      services[k]? = some s ∨ (k = services.length ∧ s = last) := by
  obtain hk | rfl | hk := Nat.lt_trichotomy k services.length
  · rw [List.getElem?_append_left hk]
    exact ⟨.inl, fun h => h.resolve_right fun hlast => Nat.ne_of_lt hk hlast.1⟩
  · simp [eq_comm]
  · have hnone : services[k]? = none := List.getElem?_eq_none (Nat.le_of_lt hk)
    simp only [hnone, reduceCtorEq, false_or]
    rw [List.getElem?_eq_none (by simpa using hk)]
    exact ⟨nofun, fun hlast => absurd hlast.1 (Nat.ne_of_gt hk)⟩

theorem Staffed.spawn (h : Staffed n) (spec : ServiceSpec)
    (script : List CallEvent → Callback → CallScript) :
    Staffed (n.spawn spec (.programmed script)).2 := by
  cases hany : n.services.any fun s => s.managed && s.spec.id == spec.id with
  | true =>
    rw [spawn_error hany]
    exact h
  | false =>
    rw [spawn_ok hany]
    have hwoken := n.agenda.wake_woken (.service n.services.length)
    generalize hlast : ({ spec := spec, kind := .programmed script } : Service) = last
    have hkept : last.Kept := by
      subst hlast
      exact ⟨⟨⟨script, rfl⟩, nofun, Nat.zero_le _, fun _ => ⟨nofun, nofun⟩⟩, .spawned, rfl⟩
    have hphase : last.phase = .spawned := by rw [← hlast]
    have hmanaged : last.managed = true := by rw [← hlast]
    have hlength : (n.services ++ [last]).length = n.services.length + 1 := by simp
    refine ⟨⟨?_, fun {k s} hs => ?_, fun {k s} hs => ?_⟩, ?_, fun {k s} hs hm => ?_⟩
    · dsimp only
      rw [hlength]
      refine (h.agenda.mono (Nat.le_succ _)).woken hwoken fun task htask => ?_
      exact ⟨_, Nat.lt_succ_self _, by simpa using htask⟩
    · obtain hs | ⟨rfl, rfl⟩ := getElem?_concat_iff.mp hs
      · exact h.kept hs
      · exact hkept
    · obtain hs | ⟨rfl, rfl⟩ := getElem?_concat_iff.mp hs
      · exact (h.attends hs).woken hwoken
      · exact ⟨fun _ => (hwoken.ready _).mpr (.inr (by simp)), by simp [hphase], by simp [hphase],
          by simp [hphase]⟩
    · dsimp only [service?]
      rw [hlength, List.range_succ, List.filter_append, h.order]
      refine congrArg₂ _ (List.filter_congr fun k hk => ?_) (by simp [hmanaged])
      rw [List.getElem?_append_left (List.mem_range.mp hk)]
      rfl
    · obtain hs | ⟨rfl, rfl⟩ := getElem?_concat_iff.mp hs
      · exact h.ended hs hm
      · cases hmanaged.symm.trans hm

/-! ### Shutting down all services -/

theorem Staffed.order_lt (h : Staffed n) : ∀ k ∈ n.order, k < n.services.length := by
  intro k hk
  rw [h.order] at hk
  exact List.mem_range.mp (List.mem_filter.mp hk).1

theorem Staffed.mem_order (h : Staffed n) (hs : n.service? k = some s) :
    k ∈ n.order ↔ s.managed = true := by
  rw [h.order, List.mem_filter, hs]
  simp [lt_of_service? hs]

theorem Staffed.order_nodup (h : Staffed n) : n.order.Nodup := by
  rw [h.order]
  exact List.nodup_range.filter _

/-- Nobody is kept from a turn by what is to be shut down. -/
theorem Manages.withoutOrder (h : Manages n) : Manages { n with order := [] } :=
  ⟨h.agenda, h.kept, h.attends⟩

theorem Staffed.stopEach (h : Staffed n) {ks : List Nat} (hks : ∀ k ∈ ks, k ∈ n.order) :
    Stopping ks { n with order := [] } ({ n with order := [] }.stopEach ks).2 :=
  h.withoutOrder.stopEach_stopping fun k hk => h.order_lt k (hks k hk)

theorem Staffed.shutdownAll_stopping (h : Staffed n) :
    Stopping n.order.reverse { n with order := [] } n.shutdownAll.2 :=
  h.stopEach fun _ hk => List.mem_reverse.mp hk

theorem Staffed.shutdownAll_ended (h : Staffed n) (ht : n.shutdownAll.2.service? k = some t) :
    t.managed = false ∧ ∃ r, t.phase = .ended r := by
  have hstop := h.shutdownAll_stopping
  by_cases hk : k ∈ n.order
  · obtain ⟨t', r, ht', hr, hmanaged⟩ := hstop.stopped k (List.mem_reverse.mpr hk)
    cases ht.symm.trans ht'
    exact ⟨hmanaged, r, hr⟩
  · have hlt : k < n.services.length := hstop.length ▸ lt_of_service? ht
    have hs : n.service? k = some n.services[k] := List.getElem?_eq_getElem hlt
    have hmanaged : n.services[k].managed = false := by
      rw [h.mem_order hs] at hk
      simpa using hk
    obtain ⟨r, hr⟩ := h.ended hs hmanaged
    obtain ⟨t', ht', hturns⟩ := hstop.others (by simpa using hk) hs
    cases ht.symm.trans ht'
    cases hturns.of_ended hr
    exact ⟨hmanaged, r, hr⟩

theorem Staffed.shutdownAll (h : Staffed n) : Staffed n.shutdownAll.2 where
  toManages := h.shutdownAll_stopping.manages
  order := by
    rw [h.shutdownAll_stopping.order]
    refine (List.filter_eq_nil_iff.mpr fun k _ => ?_).symm
    cases ht : n.shutdownAll.2.service? k with
    | none => simp
    | some t => simp [(h.shutdownAll_ended ht).1]
  ended ht _ := (h.shutdownAll_ended ht).2

theorem Staffed.serve (h : Staffed n) (op : ServiceOperation) : Staffed (n.serve op) := by
  cases op with
  | spawn spec script => exact h.spawn spec script
  | publish e => exact (h.publish_staying e).staffed h
  | forceTick k => exact (h.forceTick_staying k).staffed h
  | shutdownAll => exact h.shutdownAll
  | run k => exact (h.runReadyTask_staying k).staffed h
  | elapse time => exact (Runs.staying (.single (.elapse time)) h.toManages).staffed h

theorem Staffed.serving (h : Staffed n) (ops : List ServiceOperation) :
    Staffed (n.serving ops) := by
  induction ops generalizing n with
  | nil => exact h
  | cons op ops ih => exact ih (h.serve op)

/-! ### Ids in use -/

/-- An operation spawns a service of an id, and is not refused. -/
def Spawns (n : Node) (id : String) (op : ServiceOperation) : Prop :=
  ∃ spec script k, op = .spawn spec script ∧ spec.id = id ∧
    (n.spawn spec (.programmed script)).1 = .ok k

/-- In a history a service of an id has been spawned, and not shut down since. -/
def InUse (n : Node) (id : String) (ops : List ServiceOperation) : Prop :=
  ∃ before op since, ops = before ++ op :: since ∧ Spawns (n.serving before) id op ∧
    .shutdownAll ∉ since

theorem inUse_concat {id : String} {ops : List ServiceOperation} {op : ServiceOperation} :
    InUse n id (ops ++ [op]) ↔
      Spawns (n.serving ops) id op ∨ (InUse n id ops ∧ op ≠ .shutdownAll) := by
  constructor
  · rintro ⟨before, first, since, heq, hspawns, hsince⟩
    obtain rfl | ⟨since, last, rfl⟩ := List.eq_nil_or_concat since
    · obtain ⟨rfl, hop⟩ := List.append_inj' heq rfl
      cases hop
      exact .inl hspawns
    · rw [List.concat_eq_append] at heq hsince
      rw [← List.cons_append, ← List.append_assoc] at heq
      obtain ⟨rfl, hop⟩ := List.append_inj' heq rfl
      cases hop
      simp only [List.mem_append, List.mem_singleton, not_or] at hsince
      exact .inr ⟨⟨before, first, since, rfl, hspawns, hsince.1⟩, Ne.symm hsince.2⟩
  · rintro (hspawns | ⟨⟨before, first, since, rfl, hspawns, hsince⟩, hop⟩)
    · exact ⟨ops, op, [], rfl, hspawns, nofun⟩
    · refine ⟨before, first, since ++ [op], by simp, hspawns, ?_⟩
      simpa [hsince] using Ne.symm hop

/-- Whether a service of an id has not been shut down. -/
def holds (n : Node) (id : String) : Bool := n.services.any fun s => s.managed && s.spec.id == id

theorem holds_iff {id : String} :
    n.holds id = true ↔ ∃ k s, n.service? k = some s ∧ s.managed = true ∧ s.spec.id = id := by
  simp only [holds, List.any_eq_true, Bool.and_eq_true, beq_iff_eq]
  constructor
  · rintro ⟨s, hs, hmanaged, hid⟩
    obtain ⟨k, hk, rfl⟩ := List.getElem_of_mem hs
    exact ⟨k, _, List.getElem?_eq_getElem hk, hmanaged, hid⟩
  · rintro ⟨k, s, hs, hmanaged, hid⟩
    exact ⟨s, List.mem_of_getElem? hs, hmanaged, hid⟩

theorem Staying.holds_iff (h : Staying n m) {id : String} :
    m.holds id = true ↔ n.holds id = true := by
  rw [Node.holds_iff, Node.holds_iff]
  constructor
  · rintro ⟨k, t, ht, hmanaged, hid⟩
    obtain ⟨s, hs, hspec, hmanaged', -⟩ := h.back ht
    exact ⟨k, s, hs, hmanaged' ▸ hmanaged, hspec ▸ hid⟩
  · rintro ⟨k, s, hs, hmanaged, hid⟩
    obtain ⟨t, ht, hspec, hmanaged', -⟩ := h.services hs
    exact ⟨k, t, ht, hmanaged'.trans hmanaged, hspec ▸ hid⟩

/-- A service is spawned unless one of its id has not been shut down. -/
theorem spawn_fst (n : Node) (spec : ServiceSpec) (kind : ServiceKind) :
    (n.spawn spec kind).1 =
      if n.holds spec.id then .error (.alreadyRunning spec.id) else .ok n.services.length := by
  cases hany : n.holds spec.id with
  | true => rw [spawn_error hany]; rfl
  | false => rw [spawn_ok hany]; rfl

theorem spawns_iff {spec : ServiceSpec} {script : List CallEvent → Callback → CallScript}
    {id : String} : Spawns n id (.spawn spec script) ↔ spec.id = id ∧ n.holds spec.id = false := by
  constructor
  · rintro ⟨spec', script', k, hop, hid, hok⟩
    cases hop
    refine ⟨hid, Bool.eq_false_iff.mpr fun hholds => ?_⟩
    rw [spawn_fst, if_pos hholds] at hok
    cases hok
  · rintro ⟨hid, hholds⟩
    exact ⟨spec, script, _, rfl, hid, by rw [spawn_fst, if_neg (by simp [hholds])]⟩

/-- Spawning a service leaves the services that have not been shut down, and it is one of them
unless it is refused. -/
theorem spawn_holds (n : Node) (spec : ServiceSpec)
    (script : List CallEvent → Callback → CallScript) {id : String} :
    (n.spawn spec (.programmed script)).2.holds id = true ↔
      Spawns n id (.spawn spec script) ∨ n.holds id = true := by
  rw [spawns_iff]
  cases hany : n.holds spec.id with
  | true => simp [spawn_error hany]
  | false =>
    rw [spawn_ok hany]
    simp [holds, or_comm]

/-- An operation that spawns no service and shuts none down leaves the ids in use. -/
theorem serve_holds_of_staying (op : ServiceOperation) (hstays : Staying n (n.serve op))
    (hspawn : ∀ spec script, op ≠ .spawn spec script) (hshut : op ≠ .shutdownAll) {id : String} :
    (n.serve op).holds id = true ↔
      Spawns n id op ∨ (n.holds id = true ∧ op ≠ .shutdownAll) := by
  rw [hstays.holds_iff]
  refine ⟨fun hid => .inr ⟨hid, hshut⟩, ?_⟩
  rintro (⟨spec, script, k, hop, -⟩ | ⟨hid, -⟩)
  · exact absurd hop (hspawn spec script)
  · exact hid

theorem Staffed.serve_holds (h : Staffed n) (op : ServiceOperation) {id : String} :
    (n.serve op).holds id = true ↔
      Spawns n id op ∨ (n.holds id = true ∧ op ≠ .shutdownAll) := by
  cases op with
  | spawn spec script => simpa [Node.serve] using n.spawn_holds spec script
  | publish e => exact serve_holds_of_staying (.publish e) (h.publish_staying e) nofun nofun
  | forceTick k => exact serve_holds_of_staying (.forceTick k) (h.forceTick_staying k) nofun nofun
  | shutdownAll =>
    rw [Node.holds_iff]
    constructor
    · rintro ⟨k, t, ht, hmanaged, -⟩
      rw [(h.shutdownAll_ended ht).1] at hmanaged
      cases hmanaged
    · rintro (⟨spec, script, k, hop, -⟩ | ⟨-, hop⟩)
      · cases hop
      · exact absurd rfl hop
  | run k => exact serve_holds_of_staying (.run k) (h.runReadyTask_staying k) nofun nofun
  | elapse time =>
    exact serve_holds_of_staying (.elapse time)
      (Runs.staying (.single (.elapse time)) h.toManages) nofun nofun

theorem serving_concat (n : Node) (ops : List ServiceOperation) (op : ServiceOperation) :
    n.serving (ops ++ [op]) = (n.serving ops).serve op := by
  simp [serving]

theorem Staffed.serving_holds (h : Staffed n) (hnone : n.services = []) {id : String}
    (ops : List ServiceOperation) : (n.serving ops).holds id = true ↔ InUse n id ops := by
  induction ops using List.reverseRecOn with
  | nil =>
    refine ⟨fun hid => ?_, ?_⟩
    · simp [Node.serving, holds, hnone] at hid
    · rintro ⟨before, op, since, hnil, -⟩
      simp at hnil
  | append_singleton ops op ih =>
    rw [serving_concat, (h.serving ops).serve_holds op, inUse_concat, ih]

/-! ### The lives of services -/

structure ShutsDown (n : Node) : Prop where
  /-- The services to be shut down stand in the order in which they were spawned. -/
  spawned : n.order =
    (List.range n.services.length).filter fun k => (n.service? k).any Service.managed
  /-- Each of them starts and ends, and is stopped if that makes sense. -/
  stopped : ∀ k ∈ n.order, ∃ s r, n.shutdownAll.2.service? k = some s ∧ s.result? = some r ∧
    .begins .start ∈ s.calls ∧
    (.ends .start (.ok ()) ∈ s.calls → .panics ∉ s.calls → stopCount s.calls = 1)
  /-- When some have been stopped, those that were spawned before them have not been told to. -/
  inTurn : ∀ {front back}, n.order.reverse = front ++ back →
    let mid := ({ n with order := [] }.stopEach front).2
    n.shutdownAll.2 = (mid.stopEach back).2 ∧
      (∀ k ∈ front, (mid.service? k).any Service.hasEnded) ∧
      ∀ k ∈ back, ∃ s, mid.service? k = some s ∧ .begins .stop ∉ s.calls
  /-- The first failure in that order is returned. -/
  result : n.shutdownAll.1 = firstError (n.shutdownAll.2.resultsOf n.order.reverse)
  /-- No service is left. -/
  empty : n.shutdownAll.2.order = [] ∧ n.shutdownAll.2.managedServices = [] ∧
    n.shutdownAll.2.serviceCount = 0

theorem Staffed.shutsDown (h : Staffed n) : ShutsDown n where
  spawned := h.order
  stopped k hk := by
    obtain ⟨t, r, ht, hr, -⟩ := h.shutdownAll_stopping.stopped k (List.mem_reverse.mpr hk)
    have hfits := (h.shutdownAll.kept ht).fits
    rw [hr] at hfits
    exact ⟨t, r, ht, by simp [Service.result?, hr], hfits.begins_mem, hfits.stopCount_eq_one⟩
  inTurn {front back} horder := by
    have hmem {k} (hk : k ∈ front ∨ k ∈ back) : k ∈ n.order :=
      List.mem_reverse.mp (by rw [horder, List.mem_append]; exact hk)
    have hstop := h.stopEach fun k (hk : k ∈ front) => hmem (.inl hk)
    refine ⟨?_, fun k hk => ?_, fun k hk => ?_⟩
    · rw [← stopEach_append, ← horder]
      rfl
    · obtain ⟨t, r, ht, hr, -⟩ := hstop.stopped k hk
      simp [ht, hasEnded_iff, hr]
    · have hnodup : (front ++ back).Nodup := horder ▸ List.nodup_reverse.mpr h.order_nodup
      have hout : k ∉ front := fun hk' => (List.nodup_append.mp hnodup).2.2 k hk' k hk rfl
      have hlt := h.order_lt k (hmem (.inr hk))
      have hs : n.service? k = some n.services[k] := List.getElem?_eq_getElem hlt
      have hmanaged := (h.mem_order hs).mp (hmem (.inr hk))
      obtain ⟨t, ht, hturns⟩ := hstop.others hout hs
      exact ⟨t, ht, ((hstop.manages.kept ht).unasked (hturns.same.2.trans hmanaged)).2⟩
  result := h.withoutOrder.stopEach_fst (fun k hk => h.order_lt k (List.mem_reverse.mp hk))
    (List.nodup_reverse.mpr h.order_nodup)
  empty := by
    have horder : n.shutdownAll.2.order = [] := h.shutdownAll_stopping.order
    refine ⟨horder, by simp [managedServices, horder], ?_⟩
    refine List.length_eq_zero_iff.mpr (List.filter_eq_nil_iff.mpr fun s hs => ?_)
    obtain ⟨k, hk, rfl⟩ := List.getElem_of_mem hs
    simp [(h.shutdownAll_ended (List.getElem?_eq_getElem hk)).1]

/-- Services on a node, whatever they do when they are called and whatever the history: an id is
refused exactly while a service of that id has not been shut down; a service starts first and
once, ticks and events reach it only after a good start and before its stop, it is stopped at most
once and only by shutting down; and shutting down stops all services that are left in the reverse
order of spawning, returns the first failure in that order and leaves none. -/
theorem services_lifecycle (config : NodeConfig) (backend : Backend) (wall : Int) (zone : Zone)
    (ops : List ServiceOperation) :
    let start := create config backend wall zone
    let n := start.serving ops
    (∀ spec script,
      (InUse start spec.id ops →
        (n.spawn spec (.programmed script)).1 = .error (.alreadyRunning spec.id)) ∧
      (¬ InUse start spec.id ops →
        (n.spawn spec (.programmed script)).1 = .ok n.services.length)) ∧
    (∀ s ∈ n.services, Lifecycle s.calls ∧ stopCount s.calls ≤ 1 ∧
      (s.managed = true → stopCount s.calls = 0) ∧
      ∀ r, s.result? = some r → Outcome s.spec.id s.calls r) ∧
    n.ShutsDown := by
  intro start n
  have hstart : Staffed start := create_staffed config backend wall zone
  have hn : Staffed n := hstart.serving ops
  refine ⟨fun spec script => ?_, fun s hs => ?_, hn.shutsDown⟩
  · have hholds : n.holds spec.id = true ↔ InUse start spec.id ops := hstart.serving_holds rfl ops
    rw [spawn_fst]
    exact ⟨fun huse => if_pos (hholds.mpr huse), fun huse => if_neg fun h => huse (hholds.mp h)⟩
  · obtain ⟨k, hk, rfl⟩ := List.getElem_of_mem hs
    have hkept := hn.kept (List.getElem?_eq_getElem hk)
    have hlife := hkept.fits.lifecycle
    refine ⟨hlife, hlife.stopCount_le_one, fun hm => stopCount_eq_zero (hkept.unasked hm).2,
      fun r hr => ?_⟩
    obtain ⟨r', hr'⟩ := hasEnded_iff.mp (by rw [hasEnded, hr]; rfl)
    have hfits := hkept.fits
    rw [hr'] at hfits
    have heq : r' = r := by simpa [Service.result?, hr'] using hr
    exact heq ▸ hfits.outcome

end ControlNode.Node
