import ControlNode.Proofs.Node.Histories

/-!
# Dispatch

Which evaluations a tick queues, after any history (`update_dispatches`), and what becomes of a
change that finds an evaluation waiting (`update_serves_change`).
-/

namespace ControlNode.Node

open Port

variable {n m : Node}

/-! ### What a tick finds -/

/-- What a tick has found when it calls the ports: the outcomes of its reads, the node that has
taken over the values, what has changed, and the values that evaluations are to see. -/
structure Findings where
  reads : Reads
  arrived : Node
  changed : List Dep
  snapshot : EvalContext

/-- A value that a tick has read and that differs from the last one of the port. -/
def ReadsAnew (n : Node) (reads : Reads) (id : String) : Prop :=
  ∃ key v p, key.id = id ∧ (key, some (.ok v)) ∈ reads ∧ n.Registered key p ∧
    Value.sameOption p.lastRead (some v) = false

/-- The findings of a tick of the node `n` at the time `now`. -/
structure Findings.Of (f : Findings) (n : Node) (now : Int) : Prop where
  /-- Only ports that are enabled as the tick begins are read. -/
  enabled : ∀ e ∈ f.reads, ∃ p, n.Registered e.1 p ∧ p.enabled = true
  readings : n.Faithful f.reads
  /-- Ports take over what has been read from them and keep their value otherwise. The workers may
  have taken evaluations up meanwhile. -/
  values : ∀ key p, n.Registered key p →
    ∃ q, f.arrived.Registered key q ∧ SameSetup p q ∧ q.evals.items <:+ p.evals.items ∧
      (∀ v, (key, some (.ok v)) ∈ f.reads → q.lastRead = some v) ∧
      ((∀ v, (key, some (.ok v)) ∉ f.reads) → q.lastRead = p.lastRead)
  changed : ∀ d, d ∈ f.changed ↔
    d = .asap ∨ d = .timeMs ∨ (d = .time ∧ n.lastSecond < now / 1000) ∨
      ∃ id, d = .port id ∧ n.ReadsAnew f.reads id
  /-- The snapshot holds the values of the enabled ports after the reads. -/
  snapshot : f.snapshot = .ofValues f.snapshot.values now
  snapshotValues : ∀ id v, f.snapshot.values.get? id = some v ↔
    ∃ q, f.arrived.port? id = some q ∧ q.enabled = true ∧ q.lastRead = some v
  /-- These are the values that the ports have after the tick. -/
  lasting : ∀ key q, f.arrived.Registered key q →
    ∃ r, (n.update now).Registered key r ∧ r.lastRead = q.lastRead

/-- An evaluation of the port has been asked for. -/
def IsForced (n : Node) (p : Port) : Prop := n.forceAll = true ∨ p.id ∈ n.forced

/-- A tick has to evaluate the expression of the port. -/
def IsCalled (n : Node) (now : Int) (changed : List Dep) (p : Port) : Prop :=
  p.enabled = true ∧ p.expression.isSome ∧
    (n.IsForced p ∨ (∃ d ∈ p.expressionDeps, d ∈ changed) ∧
      ¬(now < n.asapPausedUntil ∧
        ∀ d ∈ p.expressionDeps, d ∈ changed → d = .asap ∨ d = .timeMs))

/-- An evaluation with the given snapshot is put into the empty queue of the port. -/
structure Enqueues (p q : Port) (c : EvalContext) : Prop where
  before : p.evals.items = []
  after : q.evals.items = [c]

/-- The evaluation that is waiting in the queue of the port stays there alone. -/
structure Keeps (p q : Port) (c : EvalContext) : Prop where
  before : p.evals.items = [c]
  after : q.evals.items = [c]

theorem isDue_iff (changed : List Dep) (asapPaused : Bool) (deps : DepSet) :
    isDue changed asapPaused deps = true ↔ (∃ d ∈ deps, d ∈ changed) ∧
      ¬(asapPaused = true ∧ ∀ d ∈ deps, d ∈ changed → d = .asap ∨ d = .timeMs) := by
  have htick (d : Dep) : d.isTick = true ↔ d = .asap ∨ d = .timeMs := by
    cases d <;> simp [Dep.isTick]
  have hsome : (deps.filter fun d => changed.contains d).isEmpty = false ↔
      ∃ d ∈ deps, d ∈ changed := by
    rw [List.isEmpty_eq_false_iff]
    simp [List.filter_eq_nil_iff]
  have hall : (deps.filter fun d => changed.contains d).all Dep.isTick = true ↔
      ∀ d ∈ deps, d ∈ changed → d = .asap ∨ d = .timeMs := by
    simp [List.all_eq_true, htick, imp_iff_not_or]
  simp only [isDue, Bool.and_eq_true, Bool.not_eq_true', Bool.and_eq_false_iff, hsome]
  rw [← hall]
  cases asapPaused <;> simp

theorem isCalled_of_change (now : Int) {changed : List Dep} {p : Port} {id : String}
    (henabled : p.enabled = true) (hsome : p.expression.isSome) (hdep : .port id ∈ p.expressionDeps)
    (hchanged : .port id ∈ changed) : n.IsCalled now changed p := by
  refine ⟨henabled, hsome, Or.inr ⟨⟨_, hdep, hchanged⟩, ?_⟩⟩
  rintro ⟨-, hticks⟩
  rcases hticks _ hdep hchanged with htick | htick <;> cases htick

theorem reaches_iff {t : Tick} (ids : List String) (p : Port) (henabled : p.enabled = true) :
    (n.callOf t ids).reaches p = true ↔ n.IsCalled t.now (changedDeps t ids) p := by
  unfold Call.reaches callOf IsCalled IsForced deps?
  cases he : p.expression with
  | none => simp
  | some e =>
    simp only [Option.isSome_some, if_true, Option.any_some, Bool.or_eq_true, isDue_iff,
      List.contains_iff_mem, decide_eq_true_eq, henabled, true_and]

/-- The ports on the list of a tick are still those that are enabled. -/
theorem Calling.mem_enabled {now : Int} {t : Tick} {ids : List String}
    (h : Calling n now t ids m) {key : PortKey} {q : Port} (hq : m.Registered key q) :
    key ∈ t.enabled ↔ q.enabled = true := by
  obtain ⟨p, hp, hpq⟩ := h.ports.registered_of hq
  rw [h.of.enabled, hpq.continues.setup.enabled]
  constructor
  · rintro ⟨p', hp', henabled⟩
    have heq := hp.1
    rw [hp'.1] at heq
    cases heq
    exact henabled
  · intro henabled
    exact ⟨p, hp, henabled⟩

theorem mem_changedDeps (t : Tick) (ids : List String) (d : Dep) :
    d ∈ changedDeps t ids ↔ d = .asap ∨ d = .timeMs ∨ (d = .time ∧ t.newSecond = true) ∨
      ∃ id ∈ ids, d = .port id := by
  cases hsecond : t.newSecond <;> simp [changedDeps, hsecond, eq_comm]

theorem Calling.readsAnew_iff {now : Int} {t : Tick} {ids : List String}
    (h : Calling n now t ids m) (id : String) : id ∈ ids ↔ n.ReadsAnew t.reads id := by
  rw [h.changed]
  constructor
  · rintro ⟨key, r, hr, hid, v, p, rfl, hp, hdiff⟩
    obtain ⟨q, hq, _⟩ := (h.of.enabled key).mp (h.of.planned _ hr)
    have heq := hq.portOf?
    rw [hp] at heq
    cases heq
    exact ⟨key, v, p, hid, hr, hq, hdiff⟩
  · rintro ⟨key, v, p, hid, hr, hp, hdiff⟩
    exact ⟨key, .ok v, hr, hid, v, p, rfl, hp.portOf?, hdiff⟩

/-! ### What a tick queues -/

/-- What a tick does to a registered port: `q` is the port as it is called, `r` the port after
the tick. -/
structure Serves (n : Node) (now : Int) (f : Findings) (p q r : Port) : Prop where
  enqueues : Enqueues q r f.snapshot ↔ n.IsCalled now f.changed p ∧ q.evalPending = false
  otherwise : ¬(n.IsCalled now f.changed p ∧ q.evalPending = false) → r.evals = q.evals
  pending : q.evalPending = true ↔ q.evals.items ≠ []
  one : q.evals.items.length ≤ 1
  carried : p.enabled = true → p.expression.isSome → n.IsForced p →
    (q.evalPending = true ↔ p.id ∈ (n.update now).forced)

/-- The call reaches a port by what the node was like at the beginning of the tick. -/
theorem Calling.reaches_iff {now : Int} {t : Tick} {ids : List String}
    (h : Calling n now t ids m) {p q : Port} (hpq : Continues p q) :
    q.enabled = true ∧ (m.callOf t ids).reaches q = true ↔
      n.IsCalled now (changedDeps t ids) p := by
  have hid : q.id = p.id := congrArg PortKey.id hpq.setup.key
  have hsome : q.expression.isSome = p.expression.isSome := by
    have hmap := congrArg Option.isSome hpq.setup.expression
    rwa [Option.isSome_map, Option.isSome_map] at hmap
  have hall : m.forceAll = n.forceAll := by rw [h.rest]; rfl
  have hforced : m.forced = n.forced := by rw [h.rest]; rfl
  have hpause : m.asapPausedUntil = n.asapPausedUntil := by rw [h.rest]; rfl
  have hsame : m.IsCalled t.now (changedDeps t ids) q ↔
      n.IsCalled now (changedDeps t ids) p := by
    unfold IsCalled IsForced
    rw [hpq.setup.enabled, hsome, hpq.setup.deps, hid, hall, hforced, hpause, h.of.time]
  rw [← hsame]
  constructor
  · rintro ⟨henabled, hreaches⟩
    exact (Node.reaches_iff ids q henabled).mp hreaches
  · intro hcalled
    exact ⟨hcalled.1, (Node.reaches_iff ids q hcalled.1).mpr hcalled⟩

/-- The ports that stay forced are those that were forced while an evaluation was waiting. -/
theorem Calling.carried {now : Int} {t : Tick} {ids : List String} (h : Calling n now t ids m)
    (hn : Sound n) {key : PortKey} {p q : Port} (hp : n.Registered key p)
    (hq : m.Registered key q) (hpq : Continues p q) :
    p.id ∈ (n.update now).forced ↔
      p.enabled = true ∧ p.expression.isSome ∧ n.IsForced p ∧ q.evalPending = true := by
  have hrunning := hpq.running (hn.fits _ p hp.1).running
  have hqid : q.id = p.id := congrArg PortKey.id hpq.setup.key
  have hkeyid : key.id = p.id := by rw [← hp.2]; rfl
  have hdeclined : (q.enqueueEval (m.callOf t ids).snapshot).1 = false ↔ q.evalPending = true := by
    rw [enqueueEval_of_running hrunning]
    split <;> simp_all
  have hasked : (m.callOf t ids).isForced q.id = true ↔ n.IsForced p := by
    have hall : m.forceAll = n.forceAll := by rw [h.rest]; rfl
    have hlist : m.forced = n.forced := by rw [h.rest]; rfl
    simp [callOf, hall, hlist, hqid, IsForced]
  have hsent : p.id ∈ (n.update now).forced ↔
      ∃ key ∈ t.enabled, key.id = p.id ∧ m.PutOff (m.callOf t ids) key := by
    rw [h.outcome]
    refine ((dispatch_called (n := m) h.of.nodup ids).forced p.id).trans ⟨?_, Or.inr⟩
    rintro (hnone | hsome)
    · exact absurd hnone List.not_mem_nil
    · exact hsome
  rw [hsent]
  constructor
  · rintro ⟨key', hin, hid, q', hq', hreaches, hforced, hoff⟩
    obtain ⟨p', hp', henabled⟩ := (h.of.enabled key').mp hin
    -- the registry holds one port per id
    have heq := hp.1
    rw [hkeyid, ← hid, hp'.1] at heq
    cases heq
    have hkey : key' = key := by rw [← hp'.2, hp.2]
    rw [hkey, hq.portOf?] at hq'
    cases hq'
    have hcalled := (h.reaches_iff hpq).mp ⟨by rwa [hpq.setup.enabled], hreaches⟩
    exact ⟨henabled, hcalled.2.1, hasked.mp hforced, hdeclined.mp hoff⟩
  · rintro ⟨henabled, hsome, hforced, hwaits⟩
    have hin : key ∈ t.enabled := (h.of.enabled key).mpr ⟨p, hp, henabled⟩
    have hreaches := ((h.reaches_iff hpq).mpr ⟨henabled, hsome, Or.inl hforced⟩).2
    exact ⟨key, hin, hkeyid, q, hq.portOf?, hreaches, hasked.mpr hforced, hdeclined.mpr hwaits⟩

/-- A port that has been called has an evaluation queued if there was none and has nothing else
changed. -/
theorem Calling.answers {now : Int} {t : Tick} {ids : List String} (h : Calling n now t ids m)
    (hn : Sound n) {key : PortKey} {p : Port} (hp : n.Registered key p) :
    ∃ q r, m.Registered key q ∧ Arrived t.reads p q ∧ (n.update now).Registered key r ∧
      (n.IsCalled now (changedDeps t ids) p ∧ q.evalPending = false → r = { q with
        evals := { q.evals with items := [(m.callOf t ids).snapshot] }, evalPending := true }) ∧
      (¬(n.IsCalled now (changedDeps t ids) p ∧ q.evalPending = false) → r = q) := by
  obtain ⟨q, hq, hpq⟩ := h.ports.registered hp
  have hsent := dispatch_called (n := m) h.of.nodup ids
  obtain ⟨r, hr, hqr⟩ := hsent.ports.registered (n := { m with forceAll := false, forced := [] }) hq
  have hrunning := hpq.continues.running (hn.fits _ p hp.1).running
  have hcalled := h.reaches_iff hpq.continues
  have hmem := h.mem_enabled hq
  rw [← hq.2] at hmem
  rw [Call.answer, enqueueEval_of_running hrunning] at hqr
  refine ⟨q, r, hq, hpq, ?_, ?_, ?_⟩
  · rw [h.outcome]
    exact hr
  · rintro ⟨hyes, hfree⟩
    obtain ⟨henabled, hreaches⟩ := hcalled.mpr hyes
    rw [hqr, if_pos (hmem.mpr henabled), if_pos hreaches, if_neg (by simp [hfree])]
  · intro hno
    rw [hqr]
    split
    · rename_i hin
      split
      · rename_i hreaches
        have hyes := hcalled.mp ⟨hmem.mp hin, hreaches⟩
        have hwaits : q.evalPending = true := by
          by_contra hfree
          exact hno ⟨hyes, by simpa using hfree⟩
        rw [if_pos hwaits]
      · rfl
    · rfl

theorem Calling.findings {now : Int} {t : Tick} {ids : List String} (h : Calling n now t ids m)
    (hn : Sound n) :
    Findings.Of ⟨t.reads, m, changedDeps t ids, (m.callOf t ids).snapshot⟩ n now := by
  have hfiled : Filed m := hn.filed.of_portsRel h.ports
  refine ⟨?_, h.of.faithful, ?_, ?_, ?_, ?_, ?_⟩
  · intro e he
    exact (h.of.enabled e.1).mp (h.of.planned e he)
  · intro key p hp
    obtain ⟨q, hq, hpq⟩ := h.ports.registered hp
    rw [← hp.2]
    exact ⟨q, hp.2 ▸ hq, hpq.continues.setup, hpq.evals, hpq.read, hpq.unread⟩
  · intro d
    have hsecond : t.newSecond = true ↔ n.lastSecond < now / 1000 := by
      rw [h.of.newSecond, decide_eq_true_eq, secondOf]
    rw [mem_changedDeps, hsecond]
    simp only [h.readsAnew_iff, and_comm]
  · rw [callOf, h.of.time]
    rfl
  · intro id v
    have hkeys : ∀ key ∈ t.enabled, ∃ q, m.Registered key q := by
      intro key hkey
      obtain ⟨p, hp, _⟩ := (h.of.enabled key).mp hkey
      obtain ⟨q, hq, _⟩ := h.ports.registered hp
      exact ⟨q, hq⟩
    have hvalues := snapshot_get? hfiled hkeys id v
    refine hvalues.trans ?_
    constructor
    · rintro ⟨q, hq, hmem, hv⟩
      exact ⟨q, hq, (h.mem_enabled (hfiled.registered hq)).mp hmem, hv⟩
    · rintro ⟨q, hq, henabled, hv⟩
      exact ⟨q, hq, (h.mem_enabled (hfiled.registered hq)).mpr henabled, hv⟩
  · intro key q hq
    obtain ⟨p, hp, _⟩ := h.ports.registered_of hq
    obtain ⟨q', r, hq', _, hr, hyes, hno⟩ := h.answers hn hp
    cases hq.1.symm.trans hq'.1
    refine ⟨r, hr, ?_⟩
    by_cases hcalled : n.IsCalled now (changedDeps t ids) p ∧ q.evalPending = false
    · rw [hyes hcalled]
    · rw [hno hcalled]

theorem Calling.serves {now : Int} {t : Tick} {ids : List String} (h : Calling n now t ids m)
    (hn : Sound n) {key : PortKey} {p : Port} (hp : n.Registered key p) :
    ∃ q r, m.Registered key q ∧ (n.update now).Registered key r ∧
      Serves n now ⟨t.reads, m, changedDeps t ids, (m.callOf t ids).snapshot⟩ p q r := by
  obtain ⟨q, r, hq, hpq, hr, hyes, hno⟩ := h.answers hn hp
  have hrunning := hpq.continues.running (hn.fits _ p hp.1).running
  have hpending : q.evalPending = true ↔ q.evals.items ≠ [] := by
    rw [hrunning.pending]
    simp
  refine ⟨q, r, hq, hr, ⟨?_, ?_, hpending, hrunning.one, ?_⟩⟩
  · constructor
    · rintro ⟨hbefore, hafter⟩
      by_contra hnot
      rw [hno hnot, hbefore] at hafter
      cases hafter
    · intro hcalled
      have hnil : q.evals.items = [] := by
        by_contra hne
        rw [hpending.mpr hne] at hcalled
        exact absurd hcalled.2 (by simp)
      refine ⟨hnil, ?_⟩
      rw [hyes hcalled]
  · intro hnot
    rw [hno hnot]
  · intro henabled hsome hforced
    rw [h.carried hn hp hq hpq.continues]
    exact ⟨fun hwaits => ⟨henabled, hsome, hforced, hwaits⟩, fun hkept => hkept.2.2.2⟩

/-- Exact dispatch. After any history, a tick evaluates the expressions that are forced or due and
have no evaluation waiting, and no others; all evaluations get the same snapshot. What is forced
but has one waiting stays forced. -/
theorem update_dispatches (config : NodeConfig) (backend : Backend) (wall : Int) (zone : Zone)
    (ops : List Operation) (now : Int) :
    ∃ f : Findings, f.Of ((create config backend wall zone).after ops) now ∧
      ∀ key p, ((create config backend wall zone).after ops).Registered key p →
        ∃ q r, f.arrived.Registered key q ∧
          (((create config backend wall zone).after ops).update now).Registered key r ∧
          Serves ((create config backend wall zone).after ops) now f p q r := by
  have hsound := after_sound (sound_create config backend wall zone) ops
  obtain ⟨t, ids, m, hcall⟩ := exists_calling hsound.filed hsound.services now
  exact ⟨_, hcall.findings hsound, fun key p hp => hcall.serves hsound hp⟩

/-- Changes are served. After any history, an enabled port with an expression that depends on a
port that a tick finds changed gets an evaluation with the snapshot of the tick. If one is waiting
when the ports are called, that one stays, and the port is evaluated anew only if this had been
asked for. -/
theorem update_serves_change (config : NodeConfig) (backend : Backend) (wall : Int) (zone : Zone)
    (ops : List Operation) (now : Int) :
    ∃ f : Findings, f.Of ((create config backend wall zone).after ops) now ∧
      ∀ key p id, ((create config backend wall zone).after ops).Registered key p →
        p.enabled = true → p.expression.isSome →
        .port id ∈ p.expressionDeps → .port id ∈ f.changed →
        ∃ q r, f.arrived.Registered key q ∧
          (((create config backend wall zone).after ops).update now).Registered key r ∧
          (Enqueues q r f.snapshot ∨
            ∃ c, Keeps q r c ∧
              (p.id ∈ (((create config backend wall zone).after ops).update now).forced ↔
                ((create config backend wall zone).after ops).IsForced p)) := by
  have hsound := after_sound (sound_create config backend wall zone) ops
  obtain ⟨t, ids, m, hcall⟩ := exists_calling hsound.filed hsound.services now
  refine ⟨_, hcall.findings hsound, ?_⟩
  intro key p id hp henabled hsome hdep hchanged
  obtain ⟨q, r, hq, hr, hserves⟩ := hcall.serves hsound hp
  refine ⟨q, r, hq, hr, ?_⟩
  have hcalled := isCalled_of_change (n := (create config backend wall zone).after ops) now henabled
    hsome hdep hchanged
  by_cases hwaits : q.evalPending = true
  · right
    have hlength : q.evals.items.length = 1 := by
      have hpos := List.length_pos_iff.mpr (hserves.pending.mp hwaits)
      have hone := hserves.one
      omega
    obtain ⟨c, hc⟩ := List.length_eq_one_iff.mp hlength
    refine ⟨c, ⟨hc, ?_⟩, ?_⟩
    · rw [hserves.otherwise fun hyes => by simp [hwaits] at hyes]
      exact hc
    · obtain ⟨q', hq', hpq⟩ := hcall.ports.registered hp
      cases hq.1.symm.trans hq'.1
      rw [hcall.carried hsound hp hq hpq.continues]
      simp [henabled, hsome, hwaits]
  · exact Or.inl (hserves.enqueues.mpr ⟨hcalled, by simpa using hwaits⟩)

/-- A port that has been switched on while an evaluation of one that follows it was waiting. -/
def overtaken : Node :=
  (create {} (.memory {}) 0).after [
    .add "in" (.memory { type := .boolean, value := some (.bool false) }),
    .add "out" (.memory { type := .boolean, writable := true }),
    .setAttr "out" "expression" (.str "$in"),
    .update 1000,
    .device ⟨"in", 0⟩ (some (.bool true)) false []]

/-- The next tick sees the switch, but the port that follows is left with the evaluation of the
old value and is not forced. -/
theorem update_overtaken_keeps_old :
    (overtaken.port? "out").any (fun p =>
      p.enabled && p.expression.isSome && p.expressionDeps.contains (.port "in")) = true ∧
    (overtaken.port? "in").map Port.lastRead = some (some (.bool false)) ∧
    ((overtaken.update 1050).port? "in").map Port.lastRead = some (some (.bool true)) ∧
    ((overtaken.update 1050).port? "out").map
      (fun p => p.evals.items.map fun c => c.values.get? "in") = some [some (.bool false)] ∧
    "out" ∉ (overtaken.update 1050).forced := by
  decide +kernel

end ControlNode.Node
