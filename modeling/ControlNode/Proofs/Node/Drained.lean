import ControlNode.Proofs.Node.Dispatch
import ControlNode.Proofs.Port.Rounds

/-!
# Ticks of drained nodes

Where no worker has anything left to do, a tick reads all ports at once. Ports that are left to
their expressions take over what their devices hold (`exists_refreshes`).
-/

namespace ControlNode.Node

open Port

variable {n m : Node}

/-- All workers wait for something new and nothing is in use. -/
structure Drained (n : Node) : Prop where
  ready : n.agenda.ready = []
  locks : n.agenda.locks = []
  ports : ∀ e ∈ n.ports, e.2.Idle

instance (n : Node) : Decidable n.Drained :=
  decidable_of_iff (n.agenda.ready = [] ∧ n.agenda.locks.isEmpty ∧ ∀ e ∈ n.ports, e.2.Idle) <| by
    rw [List.isEmpty_iff]
    exact ⟨fun h => ⟨h.1, h.2.1, h.2.2⟩, fun h => ⟨h.ready, h.locks, h.ports⟩⟩

/-! ### Complete reads -/

theorem runReady_of_ready (h : n.agenda.ready = []) (fuel : Nat) : runReady fuel n = n := by
  cases fuel with
  | zero => rfl
  | succ fuel => simp [runReady, h]

theorem awaitStorage_of_ready (h : n.agenda.ready = []) :
    n.awaitStorage = { n with storageBusy := false } := by
  have hidle : Node.settle { n with storageBusy := false } = { n with storageBusy := false } :=
    runReady_of_ready (n := { n with storageBusy := false }) h _
  unfold awaitStorage
  split
  · exact hidle
  · rename_i hbusy
    have hfree : n.storageBusy = false := by simpa using hbusy
    rw [← hfree]

theorem begun_eq (h : n.agenda.locks = []) : n.begun = { n with
    agenda := { n.agenda with locks := [⟨.tick, .caller, []⟩] } } := by
  simp [begun, Agenda.acquire, h, waitFor, holdsTick]

/-- What nobody else uses is free again afterwards. -/
theorem acquire_of_free {a : Agenda} {r : Resource} (h : ∀ l ∈ a.locks, l.resource ≠ r)
    (who : Party) : ∃ a', a.acquire r who = (true, a') ∧ a'.release r = a := by
  have hfind : (a.locks.find? fun l => l.resource = r) = none := by
    rw [List.find?_eq_none]
    simpa using h
  have hrest : (a.locks.filter fun l => !decide (l.resource = r)) = a.locks := by
    rw [List.filter_eq_self]
    simpa using h
  refine ⟨{ a with locks := ⟨r, who, []⟩ :: a.locks }, ?_, ?_⟩
  · rw [Agenda.acquire, hfind]
  · simp [Agenda.release, hrest]

theorem tryRead_of_free {key : PortKey} (h : ∀ l ∈ n.agenda.locks, l.resource ≠ .device key)
    (who : Party) :
    (n.tryRead who key).1.isSome ∧ (n.tryRead who key).2.agenda = n.agenda := by
  obtain ⟨a, hacquire, hrelease⟩ := acquire_of_free h who
  have hread := readPort_tended (n := { n with agenda := a }) key
  unfold tryRead
  rw [hacquire]
  refine ⟨rfl, ?_⟩
  dsimp only
  rw [hread.agenda]
  exact hrelease

theorem readPending_complete (h : ∀ l ∈ n.agenda.locks, l.resource = .tick) (who : Party)
    (reads : Reads) : ∀ e ∈ (readPending who n reads).1, e.2.isSome := by
  induction reads generalizing n with
  | nil => exact fun e he => absurd he List.not_mem_nil
  | cons e rest ih =>
    obtain ⟨key, r⟩ := e
    cases r with
    | some r =>
      intro e he
      rcases List.mem_cons.mp he with rfl | he
      · rfl
      · exact ih h e he
    | none =>
      have hfree : ∀ l ∈ n.agenda.locks, l.resource ≠ .device key := by
        intro l hl heq
        rw [h l hl] at heq
        cases heq
      obtain ⟨hsome, hagenda⟩ := tryRead_of_free hfree who
      have hrest : ∀ l ∈ (n.tryRead who key).2.agenda.locks, l.resource = .tick := by
        rw [hagenda]
        exact h
      intro e he
      rcases List.mem_cons.mp he with rfl | he
      · exact hsome
      · exact ih hrest e he

/-- Reads that need not wait are in after the first attempt. -/
theorem readAll_of_free {t : Tick} (ht : n.tick = some t)
    (h : ∀ l ∈ n.agenda.locks, l.resource = .tick) (fuel : Nat) :
    (readAll (fuel + 1) n).tick =
      some { t with reads := (readPending .caller n t.reads).1 } := by
  have hall : ((readPending .caller n t.reads).1.all fun e => e.2.isSome) = true :=
    List.all_eq_true.mpr (readPending_complete h .caller t.reads)
  unfold readAll continueReads
  rw [ht]
  dsimp only
  rw [hall]

/-- A tick reads every enabled port whose reads have not failed, if nobody takes a lock while it
waits for files. -/
theorem readsIn_of_free (hlocks : n.agenda.locks = []) {now : Int} {k : Node}
    (hk : (n.begun.openTick now).awaitStorage = k) (htick : k.tick = (n.begun.openTick now).tick)
    (hbackoff : k.backoff = (n.begun.openTick now).backoff)
    (hkept : k.agenda.locks = (n.begun.openTick now).agenda.locks) {t : Tick}
    (ht : (n.readsIn now).tick = some t) {key : PortKey} (hkey : key ∈ t.enabled)
    (hback : n.backoff.members.get? key.id = none) : ∃ r, (key, some r) ∈ t.reads := by
  have hopen := openTick_tended (n := n.begun) now
  have hnoted : k.tick = some (n.begun.firstTick now) := htick.trans hopen.evolves.tick
  have hbackoff' : k.backoff = n.backoff := by
    rw [hbackoff, hopen.evolves.rest, begun_eq hlocks]
    rfl
  have hplan := planReads_tended hnoted
  have hfree : ∀ l ∈ (n.planned now).agenda.locks, l.resource = .tick := by
    have hagenda : (n.planned now).agenda.locks = [⟨.tick, .caller, []⟩] := by
      rw [planned, hk, hplan.agenda]
      dsimp only
      rw [hkept, hopen.agenda, noting, begun_eq hlocks]
    intro l hl
    rw [hagenda] at hl
    rw [List.mem_singleton.mp hl]
  have hplanTick : (n.planned now).tick = some { n.begun.firstTick now with
      reads := k.plannedReads (n.begun.firstTick now) } := by
    rw [planned, hk]
    exact hplan.evolves.tick
  have hin := readAll_of_free hplanTick hfree (n.planned now).ports.length
  rw [← readsIn, ht] at hin
  cases hin
  -- the reads were planned for every port that has not been put aside
  have hplanned : key ∈ (readPending .caller (n.planned now)
      (k.plannedReads (n.begun.firstTick now))).1.map Prod.fst := by
    rw [readPending_keys, keys_plannedReads, List.mem_filter]
    refine ⟨hkey, ?_⟩
    rw [hbackoff']
    simp [ExpirySet.contains, hback]
  obtain ⟨⟨key', r⟩, hmem, rfl⟩ := List.mem_map.mp hplanned
  obtain ⟨r', hr⟩ := Option.isSome_iff_exists.mp (readPending_complete hfree .caller _ _ hmem)
  cases hr
  exact ⟨r', hmem⟩

/-- A tick of a drained node reads every enabled port whose reads have not failed. -/
theorem readsIn_complete (hready : n.agenda.ready = []) (hlocks : n.agenda.locks = [])
    {now : Int} {t : Tick} (ht : (n.readsIn now).tick = some t) {key : PortKey}
    (hkey : key ∈ t.enabled) (hback : n.backoff.members.get? key.id = none) :
    ∃ r, (key, some r) ∈ t.reads := by
  have hopen := openTick_tended (n := n.begun) now
  have hready' : (n.begun.openTick now).agenda.ready = [] := by
    rw [hopen.agenda, noting, begun_eq hlocks]
    exact hready
  exact readsIn_of_free hlocks (awaitStorage_of_ready hready') rfl rfl rfl ht hkey hback

/-! ### What a tick leaves -/

/-- A node whose ports are left to their expressions and whose reads have never failed. -/
structure Steady (n : Node) : Prop where
  plain : ∀ e ∈ n.ports, e.2.Plain
  backoff : ∀ e ∈ n.ports, n.backoff.members.get? e.1 = none

instance (n : Node) : Decidable n.Steady :=
  decidable_of_iff ((∀ e ∈ n.ports, e.2.Plain) ∧
      ∀ e ∈ n.ports, n.backoff.members.get? e.1 = none)
    ⟨fun h => ⟨h.1, h.2⟩, fun h => ⟨h.plain, h.backoff⟩⟩

/-- An idle port after a tick: it has taken over what its device holds, and the snapshot `c` waits
if the port has been called. -/
structure Refreshed (c : EvalContext) (isCalled : Prop) (p r : Port) : Prop where
  frame : r = { p with
    lastRead := p.readBack
    historyLast := r.historyLast
    attrCache := r.attrCache
    dirty := r.dirty
    evals := r.evals
    evalPending := r.evalPending }
  called : isCalled → r.evals.items = [c]
  uncalled : ¬isCalled → r.evals.items = []

/-- A tick of a drained node with the snapshot `c` after the changes in `changed`. -/
structure Refreshes (n : Node) (now : Int) (changed : List Dep) (c : EvalContext) : Prop where
  ports : ∀ key p, n.Registered key p → ∃ r, (n.update now).Registered key r ∧
    Refreshed c (n.IsCalled now changed p) p r
  values : ∀ id v, c.values.get? id = some v ↔ ∃ p, n.port? id = some p ∧ p.readBack = some v
  unchanged : ∀ key p, n.Registered key p → .port p.id ∉ changed →
    p.readBack = p.lastRead ∨ Value.sameOption p.lastRead p.readBack = true
  backoff : (n.update now).backoff = n.backoff

theorem Registered.mem {key : PortKey} {p : Port} (h : n.Registered key p) :
    (key.id, p) ∈ n.ports := Dict.mem_of_get? h.1

theorem IsReading.eq_of_plain {key : PortKey} {r : Except PortError Value}
    (h : n.IsReading key r) {p : Port} (hp : n.portOf? key = some p) (hplain : p.Plain)
    (hidle : p.Idle) : r = p.reading := by
  obtain ⟨p', q, hp', hmoves, rfl⟩ := h
  rw [hp] at hp'
  cases hp'
  have hq := hmoves.upkeep hidle
  have hkept := hq.kept hplain
  rw [readValue_of_plain hkept.plain]
  unfold reading
  rw [hkept.domain, hq.device.eq_of_isReliable hplain.reliable]

theorem Calling.reads_of_plain {now : Int} {t : Tick} {ids : List String}
    (h : Calling n now t ids m) (hd : n.Drained) (hn : n.Steady) {key : PortKey} {p : Port}
    (hp : n.Registered key p) : (key, some p.reading) ∈ t.reads := by
  have hplain := hn.plain _ hp.mem
  have hkey : key ∈ t.enabled := (h.of.enabled key).mpr ⟨p, hp, hplain.enabled⟩
  obtain ⟨r, hr⟩ := readsIn_complete hd.ready hd.locks h.tick hkey (hn.backoff _ hp.mem)
  rw [← (h.of.faithful key r hr).eq_of_plain hp.portOf? hplain (hd.ports _ hp.mem)]
  exact hr

theorem Calling.lastRead_of_plain {now : Int} {t : Tick} {ids : List String}
    (h : Calling n now t ids m) (hd : n.Drained) (hn : n.Steady) {key : PortKey} {p q : Port}
    (hp : n.Registered key p) (hpq : Arrived t.reads p q) : q.lastRead = p.readBack := by
  have hread := h.reads_of_plain hd hn hp
  have hreading (r : Except PortError Value) (hr : (key, some r) ∈ t.reads) : r = p.reading :=
    (h.of.faithful key r hr).eq_of_plain hp.portOf? (hn.plain _ hp.mem) (hd.ports _ hp.mem)
  rw [← hp.2] at hread hreading
  unfold reading at hread hreading
  unfold readBack
  cases hv : p.device.value with
  | some v =>
    rw [hv] at hread
    exact hpq.read _ hread
  | none =>
    apply hpq.unread
    intro v hmem
    have hsame := hreading _ hmem
    rw [hv] at hsame
    cases hsame

theorem Calling.noneFailed {now : Int} {t : Tick} {ids : List String}
    (h : Calling n now t ids m) (hd : n.Drained) (hn : n.Steady) : NoneFailed t.reads := by
  intro key e he
  obtain ⟨p, hp, _⟩ := (h.of.enabled key).mp (h.of.planned _ he)
  have hread := (h.of.faithful key _ he).eq_of_plain hp.portOf? (hn.plain _ hp.mem)
    (hd.ports _ hp.mem)
  unfold reading at hread
  split at hread
  · cases hread
  · cases hread
    rfl

theorem Calling.refreshed {now : Int} {t : Tick} {ids : List String} (h : Calling n now t ids m)
    (hs : Sound n) (hd : n.Drained) (hn : n.Steady) {key : PortKey} {p : Port}
    (hp : n.Registered key p) : ∃ r, (n.update now).Registered key r ∧
      Refreshed (m.callOf t ids).snapshot (n.IsCalled now (changedDeps t ids) p) p r := by
  obtain ⟨q, r, _, hpq, hr, hyes, hno⟩ := h.answers hs hp
  have hplain := hn.plain _ hp.mem
  have hidle := hd.ports _ hp.mem
  have hq := (hpq.idle hidle).eq_of_plain { hplain with }
  rw [h.lastRead_of_plain hd hn hp hpq] at hq
  have hevals : q.evals = p.evals := by rw [hq]
  have hfree : q.evalPending = false := by
    have hpending := (hs.fits _ p hp.1).running.pending
    rw [hidle.evals] at hpending
    rw [hq]
    exact hpending
  refine ⟨r, hr, ?_, ?_, ?_⟩
  · by_cases hcalled : n.IsCalled now (changedDeps t ids) p
    · rw [hyes ⟨hcalled, hfree⟩, hq]
    · rw [hno fun hc => hcalled hc.1, hq]
  · intro hcalled
    rw [hyes ⟨hcalled, hfree⟩]
  · intro hcalled
    rw [hno fun hc => hcalled hc.1, hevals, hidle.evals]

theorem exists_refreshes (hs : Sound n) (hd : n.Drained) (hn : n.Steady) (now : Int) :
    ∃ changed c, Refreshes n now changed c := by
  obtain ⟨t, ids, m, hcall⟩ := exists_calling hs.filed hs.services now
  have hfound := hcall.findings hs
  refine ⟨changedDeps t ids, (m.callOf t ids).snapshot,
    fun key p hp => hcall.refreshed hs hd hn hp, ?_, ?_, ?_⟩
  · intro id v
    refine (hfound.snapshotValues id v).trans ?_
    constructor
    · rintro ⟨q, hq, _, hv⟩
      obtain ⟨p, hp, hpq⟩ := hcall.ports.registered_of
        ((hs.filed.of_portsRel hcall.ports).registered hq)
      have hid : q.key.id = id := (hs.filed.of_portsRel hcall.ports).ids id q hq
      exact ⟨p, hid ▸ hp.1, hcall.lastRead_of_plain hd hn hp hpq ▸ hv⟩
    · rintro ⟨p, hport, hv⟩
      have hp := hs.filed.registered hport
      have hid : p.key.id = id := hs.filed.ids id p hport
      obtain ⟨q, hq, hpq⟩ := hcall.ports.registered hp
      refine ⟨q, hid ▸ hq.1, ?_, hcall.lastRead_of_plain hd hn hp hpq ▸ hv⟩
      rw [hpq.continues.setup.enabled]
      exact (hn.plain _ hp.mem).enabled
  · intro key p hp hunchanged
    have hread := hcall.reads_of_plain hd hn hp
    unfold reading at hread
    unfold readBack
    cases hv : p.device.value with
    | none => exact Or.inl rfl
    | some v =>
      rw [hv] at hread
      right
      by_contra hdiff
      have hanew : n.ReadsAnew t.reads p.id :=
        ⟨key, _, p, congrArg PortKey.id hp.2.symm, hread, hp, by simpa using hdiff⟩
      exact hunchanged ((hfound.changed _).mpr (Or.inr (Or.inr (Or.inr ⟨_, rfl, hanew⟩))))
  · rw [hcall.outcome]
    have hsent := dispatch_called (n := m) hcall.of.nodup ids
    rw [hsent.rest]
    exact hcall.backoff (hcall.noneFailed hd hn)

end ControlNode.Node
