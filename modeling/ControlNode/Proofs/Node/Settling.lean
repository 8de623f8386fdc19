import ControlNode.Proofs.Node.Chains
import ControlNode.Proofs.Node.Drained

/-!
# Settling

Ports that are left to their expressions settle: after one tick more than the longest chain of
expressions has ports, each port shows what its expression yields on the values that the ports
show, and nothing is written any more (`settled_of_undisturbed`). The invariant is `Phase`: after
`t` ticks, what each expression yields on the last values is what is going to be read, and ports
of a depth below `t` are at rest.
-/

namespace ControlNode.Node

open Port

variable {n m k : Node} {c : EvalContext}

/-! ### Quiet operations -/

/-- Whether an operation, other than a tick, leaves the ports to their expressions. -/
def Operation.isQuiet : Operation → Bool
  | .getAttr .. | .attrs .. | .forceEval .. | .forceEvalAll | .pauseAsap .. | .save ..
  | .await .. | .readValue .. | .run .. | .elapse .. | .wall .. | .storage .. => true
  | _ => false

/-- Nothing has happened to the ports but moves. -/
structure Passes (n m : Node) : Prop where
  ports : PortsRel Moves n m
  services : m.services = n.services
  backoff : m.backoff = n.backoff
  forceAll : n.forceAll = true → m.forceAll = true

theorem Moved.passes (h : Moved n m) : Passes n m := by
  refine ⟨h.ports, h.services, ?_, ?_⟩
  · rw [h.rest]
  · rw [h.rest]
    exact id

theorem withPort_moved {key : PortKey} {f : Port → Port} (hf : ∀ p, Upkeep p (f p)) :
    Moved n (n.withPort key fun p => n.putPort (f p)) :=
  withPort_induction (.refl n) fun p hp => (Tended.update hp (hf p)).moved

theorem Passes.beside {m : Node} (hports : m.ports = n.ports) (hgone : m.gone = n.gone)
    (hserv : m.services = n.services) (hbackoff : m.backoff = n.backoff)
    (hforce : n.forceAll = true → m.forceAll = true) : Passes n m :=
  ⟨(PortsRel.refl (fun _ => .refl) n).congr hports hgone, hserv, hbackoff, hforce⟩

theorem perform_passes (hs : n.services = []) {op : Operation} (hop : op.isQuiet = true) :
    Passes n (n.perform op) := by
  cases op with
  | getAttr key name => exact (withPort_moved fun p => p.getAttr_upkeep name).passes
  | attrs key => exact (withPort_moved fun p => p.attrsJson_upkeep).passes
  | forceEval id =>
    change Passes n (n.forceEval id)
    rw [forceEval_frame]
    exact .beside rfl rfl rfl rfl fun h => h
  | forceEvalAll => exact .beside rfl rfl rfl rfl fun _ => rfl
  | pauseAsap limit => exact .beside rfl rfl rfl rfl fun h => h
  | save force => exact (savePortList_moved hs force _).passes
  | await t => exact (awaitResult_moved hs t).passes
  | readValue key => exact (readValue_moved hs key).passes
  | run t => exact (runReadyTask_worked hs t).moved.passes
  | elapse time => exact .beside rfl rfl rfl rfl fun h => h
  | wall time => exact .beside rfl rfl rfl rfl fun h => h
  | storage b => exact .beside rfl rfl rfl rfl fun h => h
  | load | add | addVirtual | remove | cleanup | setAttr | loadAttrs | update | setValue
  | writeValue | enqueueValue | setSequence | device => cases hop

/-! ### Undisturbed runs -/

/-- The last values of the enabled ports, seen at a time. -/
def view (n : Node) (now : Int) : EvalContext := .ofValues (n.snapshot n.enabledKeys) now

/-- A run of operations that leaves the ports to their expressions. The workers have drained
before each tick; what expressions yield after it is a number and can be written. -/
inductive Undisturbed : Node → List Operation → Prop
  | nil (n : Node) : Undisturbed n []
  | quiet {n : Node} {op : Operation} {ops : List Operation} (hop : op.isQuiet = true)
      (hrest : Undisturbed (n.perform op) ops) : Undisturbed n (op :: ops)
  | tick {n : Node} {now : Int} {ops : List Operation} (hdrained : n.Drained)
      (hregular : ∀ e ∈ (n.update now).ports, e.2.Regular ((n.update now).view now))
      (hrest : Undisturbed (n.update now) ops) : Undisturbed n (.update now :: ops)

def Operation.isTick : Operation → Bool
  | .update _ => true
  | _ => false

def ticks (ops : List Operation) : Nat := ops.countP Operation.isTick

/-! ### Results -/

/-- The result of a port is the same on snapshots that agree on what it depends on. -/
theorem result_congr {g : DepGraph} {p : Port} (hfits : p.Fits g) (hplain : p.Plain)
    {c c' : EvalContext} (hvalues : ∀ id, p.expression.isSome → .port id ∈ p.expressionDeps →
      c.values.get? id = c'.values.get? id) : p.result c = p.result c' := by
  unfold result
  cases he : p.expression with
  | none => rfl
  | some e =>
    obtain ⟨hwf, hdeps⟩ := hfits.read e he
    have hsame : e.eval (c.forPort p.id p.zone) = e.eval (c'.forPort p.id p.zone) := by
      apply (hplain.combinational e he).eval_eq hwf p.zone
      intro id hid
      exact hvalues id (by rw [he]; rfl) (by rw [hdeps]; exact e.mentions_subset_deps hid)
    rw [Option.bind_some, Option.bind_some, hsame]

theorem view_get? (hf : Filed n) (henabled : ∀ id p, n.port? id = some p → p.enabled = true)
    (now : Int) (id : String) (v : Value) :
    (n.view now).values.get? id = some v ↔ ∃ p, n.port? id = some p ∧ p.lastRead = some v := by
  have hkeys : ∀ key ∈ n.enabledKeys, ∃ p, n.Registered key p := by
    intro key hkey
    obtain ⟨p, hp, _⟩ := (mem_enabledKeys hf key).mp hkey
    exact ⟨p, hp⟩
  refine (snapshot_get? hf hkeys id v).trans ?_
  constructor
  · rintro ⟨p, hp, _, hv⟩
    exact ⟨p, hp, hv⟩
  · rintro ⟨p, hp, hv⟩
    exact ⟨p, hp, (mem_enabledKeys hf _).mpr ⟨p, hf.registered hp, henabled id p hp⟩, hv⟩

/-! ### Phases -/

theorem Proceeds.leadsTo (h : Proceeds n m) (hf : Filed n) : m.LeadsTo = n.LeadsTo := by
  rw [leadsTo_eq_refers hf, leadsTo_eq_refers (h.filed hf),
    DepGraph.refers_congr fun id => h.graph_get? hf id]

theorem Proceeds.hasExpression (h : Proceeds n m) {key : PortKey} {p : Port}
    (hp : m.Registered key p) (he : p.expression.isSome) : n.HasExpression p.id := by
  obtain ⟨p₀, hp₀, hcontinues⟩ := h.registered_of hp
  have hmap := congrArg Option.isSome hcontinues.setup.expression
  rw [Option.isSome_map, Option.isSome_map, he] at hmap
  have hid : key.id = p.id := congrArg PortKey.id hp.2.symm
  exact ⟨p₀, hid ▸ hp₀.1, hmap.symm⟩

/-- What is to be read next from each port is what its expression yields on the snapshot `c` of
the last tick, the `t`-th one since `n`. Ports of a depth below `t` are at rest. -/
structure Phase (n : Node) (t : Nat) (c : EvalContext) (m : Node) : Prop where
  proceeds : Proceeds n m
  backoff : ∀ id p, m.port? id = some p → m.backoff.members.get? id = none
  ports : ∀ key p, m.Registered key p → Round c p
  rest : ∀ key p d, m.Registered key p → n.Depth d p.id → d < t → AtRest c p
  values : ∀ id v, c.values.get? id = some v ↔ ∃ p, m.port? id = some p ∧ p.lastRead = some v

/-- A node that waits for the first tick. -/
structure Awaits (n m : Node) : Prop where
  proceeds : Proceeds n m
  backoff : ∀ id p, m.port? id = some p → m.backoff.members.get? id = none
  ports : ∀ key p, m.Registered key p → p.Plain
  forceAll : m.forceAll = true

theorem steady_of_ports (hf : Filed m)
    (hbackoff : ∀ id p, m.port? id = some p → m.backoff.members.get? id = none)
    (hplain : ∀ key p, m.Registered key p → p.Plain) : m.Steady := by
  constructor
  · rintro ⟨id, p⟩ he
    exact hplain _ p (hf.registered (Dict.get?_of_mem hf.sorted he))
  · rintro ⟨id, p⟩ he
    exact hbackoff id p (Dict.get?_of_mem hf.sorted he)

/-! ### Quiet operations within a phase -/

theorem Passes.proceeds (h : Passes m k) : Proceeds m k :=
  h.ports.proceeds (fun _ _ _ _ => Moves.continues) h.services

theorem Passes.backoff_of (h : Passes m k)
    (hm : ∀ id p, m.port? id = some p → m.backoff.members.get? id = none) :
    ∀ id q, k.port? id = some q → k.backoff.members.get? id = none := by
  intro id q hq
  rw [h.backoff]
  cases hp : m.port? id with
  | some p => exact hm id p hp
  | none =>
    rw [h.ports.port?_eq_none hp] at hq
    cases hq

theorem Awaits.pass (h : Awaits n m) (hpass : Passes m k) : Awaits n k := by
  refine ⟨h.proceeds.trans hpass.proceeds, hpass.backoff_of h.backoff, ?_,
    hpass.forceAll h.forceAll⟩
  intro key q hq
  obtain ⟨p, hp, hmoves⟩ := hpass.ports.registered_of hq
  exact hmoves.plain (h.ports key p hp)

theorem Phase.pass {t : Nat} (hf : Filed m) (h : Phase n t c m) (hpass : Passes m k) :
    Phase n t c k := by
  refine ⟨h.proceeds.trans hpass.proceeds, hpass.backoff_of h.backoff, ?_, ?_, ?_⟩
  · intro key q hq
    obtain ⟨p, hp, hmoves⟩ := hpass.ports.registered_of hq
    exact hmoves.round (h.ports key p hp)
  · intro key q d hq hdepth hd
    obtain ⟨p, hp, hmoves⟩ := hpass.ports.registered_of hq
    have hid : q.id = p.id := congrArg PortKey.id hmoves.continues.setup.key
    exact (hmoves.atRest (h.rest key p d hp (hid ▸ hdepth) hd)).1
  · intro id v
    rw [h.values]
    constructor
    · rintro ⟨p, hp, hv⟩
      obtain ⟨q, hq, _, hmoves⟩ := hpass.ports.exists_of_port? hp (hf.ids id p hp)
      exact ⟨q, hq, by rw [hmoves.lastRead, hv]⟩
    · rintro ⟨q, hq, hv⟩
      obtain ⟨p, hp, hmoves⟩ := hpass.ports.registered_of
        ((hf.of_portsRel hpass.ports).registered hq)
      have hid : q.key.id = id := (hf.of_portsRel hpass.ports).ids id q hq
      exact ⟨p, hid ▸ hp.1, by rw [← hmoves.lastRead, hv]⟩

/-! ### Ticks within a phase -/

theorem Refreshed.readBack {called : Prop} {p r : Port} (h : Refreshed c called p r) :
    r.readBack = r.lastRead := by
  rw [h.frame]
  unfold Port.readBack
  cases p.device.value with
  | none => simp
  | some v => simp [domain, type]

theorem Refreshed.kept {called : Prop} {p r : Port} (h : Refreshed c called p r)
    (hp : p.Plain) (hi : p.Idle) : r.Plain ∧ r.lastRead = p.readBack ∧ r.writes.IsEmpty ∧
      r.device = p.device ∧ ∀ c, r.result c = p.result c := by
  rw [h.frame]
  exact ⟨{ hp with }, rfl, hi.writes, rfl, fun _ => rfl⟩

/-- A tick begins a round at a port, with the evaluation that the port has been called for or with
all work done. -/
theorem Refreshed.round {called : Prop} {p r : Port} (h : Refreshed c called p r) (hp : p.Plain)
    (hi : p.Idle) (hrunning : r.Running) (hregular : r.Regular c)
    (huncalled : ¬called → ∀ v, p.result c = some v →
      Value.sameOption p.readBack (some v) = true) : Round c r := by
  obtain ⟨hplain, hread, hwrites, -, hresult⟩ := h.kept hp hi
  refine ⟨hplain, hrunning, hregular, ?_⟩
  by_cases hcalled : called
  · exact .waits (h.called hcalled) hwrites h.readBack
  · refine .done (h.uncalled hcalled) hwrites (Or.inl h.readBack) ?_
    intro v hv
    rw [h.readBack, hread]
    exact huncalled hcalled v (hresult c ▸ hv)

theorem Refreshed.atRest {called : Prop} {p r : Port} (h : Refreshed c called p r) (hp : p.Plain)
    (hi : p.Idle) (hheld : ∀ v, p.result c = some v →
      Value.sameOption p.readBack (some v) = true) : AtRest c r := by
  obtain ⟨hplain, hread, hwrites, -, hresult⟩ := h.kept hp hi
  refine ⟨hplain, ?_, hwrites, h.readBack, ?_⟩
  · intro c' hc'
    by_cases hcalled : called
    · rw [h.called hcalled] at hc'
      exact List.mem_singleton.mp hc'
    · rw [h.uncalled hcalled] at hc'
      cases hc'
  · intro v hv
    rw [hread]
    exact hheld v (hresult c ▸ hv)

theorem Refreshes.refreshed_of {now : Int} {changed : List Dep} (hs : Sound m)
    (h : Refreshes m now changed c) {key : PortKey} {r : Port}
    (hr : (m.update now).Registered key r) :
    ∃ p, m.Registered key p ∧ Refreshed c (m.IsCalled now changed p) p r := by
  obtain ⟨p, hp, _⟩ := (update_proceeds hs now).registered_of hr
  obtain ⟨r', hr', hrefreshed⟩ := h.ports key p hp
  cases hr.1.symm.trans hr'.1
  exact ⟨p, hp, hrefreshed⟩

theorem Refreshes.lastValues {now : Int} {changed : List Dep} (hs : Sound m)
    (hd : m.Drained) (hn : m.Steady) (h : Refreshes m now changed c) (id : String) (v : Value) :
    c.values.get? id = some v ↔ ∃ r, (m.update now).port? id = some r ∧ r.lastRead = some v := by
  rw [h.values]
  constructor
  · rintro ⟨p, hp, hv⟩
    have hreg := hs.filed.registered hp
    have hid : p.key.id = id := hs.filed.ids id p hp
    obtain ⟨r, hr, hrefreshed⟩ := h.ports _ p hreg
    obtain ⟨-, hread, -⟩ := hrefreshed.kept (hn.plain _ hreg.mem) (hd.ports _ hreg.mem)
    exact ⟨r, hid ▸ hr.1, hread.trans hv⟩
  · rintro ⟨r, hr, hv⟩
    have hf := (hs.proceeds (update_proceeds hs now)).filed
    have hid : r.key.id = id := hf.ids id r hr
    obtain ⟨p, hp, hrefreshed⟩ := h.refreshed_of hs (hf.registered hr)
    obtain ⟨-, hread, -⟩ := hrefreshed.kept (hn.plain _ hp.mem) (hd.ports _ hp.mem)
    exact ⟨p, hid ▸ hp.1, hread.symm.trans hv⟩

/-- A tick begins a new phase where ports that it does not call, and ports that are not deep, are
going to be read as their expressions say. -/
theorem Refreshes.phase {t : Nat} {now : Int} {changed : List Dep} (hs : Sound n)
    (hproceeds : Proceeds n m) (hd : m.Drained) (hn : m.Steady) (h : Refreshes m now changed c)
    (hregular : ∀ e ∈ (m.update now).ports, e.2.Regular ((m.update now).view now))
    (huncalled : ∀ key p, m.Registered key p → ¬m.IsCalled now changed p →
      ∀ v, p.result c = some v → Value.sameOption p.readBack (some v) = true)
    (hshallow : ∀ key p d, m.Registered key p → n.Depth d p.id → d ≤ t →
      ∀ v, p.result c = some v → Value.sameOption p.readBack (some v) = true) :
    Phase n (t + 1) c (m.update now) := by
  have hm := hs.proceeds hproceeds
  have hlater := update_proceeds hm now
  have hk := hm.proceeds hlater
  have hlast := h.lastValues hm hd hn
  have hplain {key : PortKey} {r : Port} (hr : (m.update now).Registered key r) : r.Plain := by
    obtain ⟨p, hp, hrefreshed⟩ := h.refreshed_of hm hr
    exact (hrefreshed.kept (hn.plain _ hp.mem) (hd.ports _ hp.mem)).1
  have hseen {key : PortKey} {r : Port} (hr : (m.update now).Registered key r) :
      r.result ((m.update now).view now) = r.result c := by
    apply result_congr (hk.fits _ r hr.1) (hplain hr)
    intro id _ _
    apply Option.ext
    intro v
    rw [view_get? hk.filed fun _ _ hq => (hplain (hk.filed.registered hq)).enabled, hlast]
  refine ⟨hproceeds.trans hlater, ?_, ?_, ?_, hlast⟩
  · intro id r hr
    obtain ⟨p, hp, _⟩ := h.refreshed_of hm (hk.filed.registered hr)
    have hid : r.key.id = id := hk.filed.ids id r hr
    rw [h.backoff, ← hid]
    exact hn.backoff _ hp.mem
  · intro key r hr
    obtain ⟨p, hp, hrefreshed⟩ := h.refreshed_of hm hr
    exact hrefreshed.round (hn.plain _ hp.mem) (hd.ports _ hp.mem) (hk.fits _ r hr.1).running
      ((hregular _ hr.mem).congr (hseen hr).symm) (huncalled key p hp)
  · intro key r d hr hdepth hd'
    obtain ⟨p, hp, hrefreshed⟩ := h.refreshed_of hm hr
    have hid : r.id = p.id := congrArg PortKey.id (hr.2.trans hp.2.symm)
    exact hrefreshed.atRest (hn.plain _ hp.mem) (hd.ports _ hp.mem)
      (hshallow key p d hp (hid ▸ hdepth) (Nat.le_of_lt_succ hd'))

/-- Whatever has been asked of the ports, the first tick calls them all. -/
theorem Awaits.tick (hs : Sound n) (h : Awaits n m) (hd : m.Drained) (now : Int)
    (hregular : ∀ e ∈ (m.update now).ports, e.2.Regular ((m.update now).view now)) :
    ∃ c, Phase n 1 c (m.update now) := by
  have hm := hs.proceeds h.proceeds
  have hn := steady_of_ports hm.filed h.backoff h.ports
  obtain ⟨changed, c, hrefreshes⟩ := exists_refreshes hm hd hn now
  refine ⟨c, hrefreshes.phase hs h.proceeds hd hn hregular ?_ ?_⟩
  · intro key p hp hno v hv
    have hsome := isSome_of_result hv
    exact absurd ⟨(h.ports key p hp).enabled, hsome, Or.inl (Or.inl h.forceAll)⟩ hno
  · intro key p d hp hdepth hd' v hv
    have hpos := hdepth.pos (h.proceeds.hasExpression hp (isSome_of_result hv))
    omega

theorem Phase.steady {t : Nat} (hf : Filed m) (h : Phase n t c m) : m.Steady :=
  steady_of_ports hf h.backoff fun key p hp => (h.ports key p hp).plain

/-- A port is going to be read as its expression says after a tick that reads from all it depends
on what had been read before. -/
theorem Phase.held {t : Nat} (hm : Sound m) (h : Phase n t c m) (hd : m.Drained) {now : Int}
    {changed : List Dep} {c' : EvalContext} (hrefreshes : Refreshes m now changed c')
    {key : PortKey} {p : Port} (hp : m.Registered key p)
    (hsame : ∀ id, p.expression.isSome → .port id ∈ p.expressionDeps →
      ∀ q, m.port? id = some q → q.readBack = q.lastRead) {v : Value}
    (hv : p.result c' = some v) : Value.sameOption p.readBack (some v) = true := by
  have hagree : p.result c' = p.result c := by
    apply result_congr (hm.fits _ p hp.1) (h.ports key p hp).plain
    intro id he hid
    apply Option.ext
    intro v
    rw [hrefreshes.values, h.values]
    constructor
    · rintro ⟨q, hq, hv⟩
      exact ⟨q, hq, hsame id he hid q hq ▸ hv⟩
    · rintro ⟨q, hq, hv⟩
      exact ⟨q, hq, (hsame id he hid q hq).symm ▸ hv⟩
  exact ((h.ports key p hp).of_idle (hd.ports _ hp.mem)).2 v (hagree ▸ hv)

theorem Phase.tick {t : Nat} (hs : Sound n) (h : Phase n t c m) (hd : m.Drained) (now : Int)
    (hregular : ∀ e ∈ (m.update now).ports, e.2.Regular ((m.update now).view now)) :
    ∃ c', Phase n (t + 1) c' (m.update now) := by
  have hm := hs.proceeds h.proceeds
  have hn := h.steady hm.filed
  obtain ⟨changed, c', hrefreshes⟩ := exists_refreshes hm hd hn now
  refine ⟨c', hrefreshes.phase hs h.proceeds hd hn hregular ?_ ?_⟩
  · intro key p hp hno v hv
    refine h.held hm hd hrefreshes hp ?_ hv
    -- a dependency that is news would have called the port
    intro id he hid q hq
    have hreg := hm.filed.registered hq
    have hqid : q.id = id := hm.filed.ids id q hq
    have hunchanged : .port q.id ∉ changed := by
      intro hmem
      rw [hqid] at hmem
      exact hno (isCalled_of_change now (h.ports key p hp).plain.enabled he hid hmem)
    rcases ((h.ports _ q hreg).of_idle (hd.ports _ hreg.mem)).1 with hread | hnews
    · exact hread
    · rcases hrefreshes.unchanged _ q hreg hunchanged with hread | hold
      · exact hread
      · rw [hnews] at hold
        cases hold
  · intro key p d hp hdepth hd' v hv
    have hpos := hdepth.pos (h.proceeds.hasExpression hp (isSome_of_result hv))
    refine h.held hm hd hrefreshes hp ?_ hv
    -- what the port depends on is less deep and at rest already
    intro id he hid q hq
    obtain ⟨e, he'⟩ := Option.isSome_iff_exists.mp he
    have hkey : key.id = p.id := congrArg PortKey.id hp.2.symm
    have hleads : n.LeadsTo p.id id := by
      rw [← h.proceeds.leadsTo hs.filed]
      exact ⟨p, e, hkey ▸ hp.1, he', hid⟩
    have hqid : q.id = id := hm.filed.ids id q hq
    exact (h.rest _ q (d - 1) (hm.filed.registered hq) (hqid ▸ hdepth.next hleads)
      (by omega)).read

/-! ### Runs -/

/-- A node `t` ticks after `n`. -/
def Reached (n : Node) : (t : Nat) → Node → Prop
  | 0, m => Awaits n m
  | t + 1, m => ∃ c, Phase n (t + 1) c m

variable {t : Nat}

theorem Reached.proceeds (h : Reached n t m) : Proceeds n m := by
  cases t with
  | zero => exact Awaits.proceeds h
  | succ t =>
    obtain ⟨c, h⟩ := h
    exact h.proceeds

theorem Reached.pass (hs : Sound n) (h : Reached n t m) (hpass : Passes m k) :
    Reached n t k := by
  have hf := (hs.proceeds h.proceeds).filed
  cases t with
  | zero => exact Awaits.pass h hpass
  | succ t =>
    obtain ⟨c, h⟩ := h
    exact ⟨c, h.pass hf hpass⟩

theorem Reached.tick (hs : Sound n) (h : Reached n t m) (hd : m.Drained) (now : Int)
    (hregular : ∀ e ∈ (m.update now).ports, e.2.Regular ((m.update now).view now)) :
    Reached n (t + 1) (m.update now) := by
  cases t with
  | zero => exact Awaits.tick hs h hd now hregular
  | succ t =>
    obtain ⟨c, h⟩ := h
    exact h.tick hs hd now hregular

theorem Undisturbed.reached (hs : Sound n) {pre post : List Operation}
    (h : Undisturbed m (pre ++ post)) (hm : Reached n t m) :
    Reached n (t + ticks pre) (m.after pre) ∧ Undisturbed (m.after pre) post := by
  induction pre generalizing m t with
  | nil => exact ⟨hm, h⟩
  | cons op pre ih =>
    rw [List.cons_append] at h
    cases h with
    | quiet hop hrest =>
      have hnext := hm.pass hs (perform_passes (hs.proceeds hm.proceeds).services hop)
      have hcount : ticks (op :: pre) = ticks pre := by
        cases op <;> first | rfl | cases hop
      rw [hcount]
      exact ih hrest hnext
    | @tick _ now _ hdrained hregular hrest =>
      have hcount : t + ticks (.update now :: pre) = t + 1 + ticks pre := by
        rw [ticks, List.countP_cons_of_pos rfl, ticks]
        omega
      rw [hcount]
      exact ih hrest (hm.tick hs hdrained now hregular)

/-- Once all ports are at rest, their devices are not written to any more. -/
theorem Undisturbed.devices {d : Nat} (hs : Sound n) (hdepth : ∀ id, n.Depth d id)
    {run : List Operation} (h : Undisturbed m run) (hm : Reached n t m) (ht : d < t)
    {key : PortKey} {p : Port} (hp : m.Registered key p) :
    ∃ q, (m.after run).Registered key q ∧ q.device = p.device := by
  induction h generalizing t p with
  | nil => exact ⟨p, hp, rfl⟩
  | quiet hop hrest ih =>
    have hpass := perform_passes (hs.proceeds hm.proceeds).services hop
    obtain ⟨q, hq, hmoves⟩ := hpass.ports.registered hp
    have hsame : q.device = p.device := by
      cases t with
      | zero => omega
      | succ t =>
        obtain ⟨c, hphase⟩ := hm
        exact (hmoves.atRest (hphase.rest key p d hp (hdepth _) ht)).2
    obtain ⟨r, hr, hlater⟩ := ih (hm.pass hs hpass) ht hq
    exact ⟨r, hr, hlater.trans hsame⟩
  | @tick m now _ hdrained hregular hrest ih =>
    have hsound := hs.proceeds hm.proceeds
    have hsteady : m.Steady := by
      cases t with
      | zero => omega
      | succ t =>
        obtain ⟨c, hphase⟩ := hm
        exact hphase.steady hsound.filed
    obtain ⟨changed, c, hrefreshes⟩ := exists_refreshes hsound hdrained hsteady now
    obtain ⟨q, hq, hrefreshed⟩ := hrefreshes.ports key p hp
    obtain ⟨-, -, -, hsame, -⟩ := hrefreshed.kept (hsteady.plain _ hp.mem)
      (hdrained.ports _ hp.mem)
    obtain ⟨r, hr, hlater⟩ := ih (hm.tick hs hdrained now hregular) (by omega) hq
    exact ⟨r, hr, hlater.trans hsame⟩

/-- All ports show what their expressions yield on the values that the ports show. No write is on
its way, evaluations that wait write nothing, and the devices are the same once the node has
become `m`. -/
structure Settled (n m : Node) : Prop where
  results : ∀ key p, n.Registered key p → ∀ now v, p.result (n.view now) = some v →
    Value.sameOption p.lastRead (some v) = true
  writes : ∀ key p, n.Registered key p → p.writes.IsEmpty
  evaluations : ∀ key p, n.Registered key p → ∀ c q, p.takeEval = some (c, q) →
    ∀ t now, (q.evaluate c t now).2.writes.IsEmpty
  devices : ∀ key p, n.Registered key p →
    ∃ q, m.Registered key q ∧ q.device = p.device

theorem Phase.results {d : Nat} (hs : Sound n) (h : Phase n t c m) (hdepth : ∀ id, n.Depth d id)
    (ht : d < t) {key : PortKey} {p : Port} (hp : m.Registered key p) (now : Int) {v : Value}
    (hv : p.result (m.view now) = some v) : Value.sameOption p.lastRead (some v) = true := by
  have hm := hs.proceeds h.proceeds
  have hrest := h.rest key p d hp (hdepth _) ht
  have hseen : p.result (m.view now) = p.result c := by
    apply result_congr (hm.fits _ p hp.1) hrest.plain
    intro id _ _
    apply Option.ext
    intro v
    rw [view_get? hm.filed, h.values]
    intro id q hq
    exact (h.ports _ q (hm.filed.registered hq)).plain.enabled
  exact hrest.result v (hseen ▸ hv)

theorem noSelfReference_of_plain (hs : Sound n) (hn : n.Steady) : n.NoSelfReference := by
  rintro id ⟨p, e, hp, he, hid⟩
  have hreg := hs.filed.registered hp
  have hpid : p.id = id := hs.filed.ids id p hp
  obtain ⟨-, hdeps⟩ := (hs.fits id p hp).read e he
  have hself := ((hn.plain _ hreg.mem).combinational e he).noSelf
  rw [hpid] at hself
  exact hself (Expr.mem_mentions_of_deps (hdeps ▸ hid))

/-- Ports that are left to their expressions settle. After all expressions have been asked for,
one tick more than there are ports in the longest chain of expressions is enough, however the
workers take their turns between the ticks. -/
theorem settled_of_undisturbed (config : NodeConfig) (backend : Backend) (wall : Int) (zone : Zone)
    (ops run : List Operation) (hsteady : Steady ((create config backend wall zone).after ops))
    (hrun : Undisturbed (((create config backend wall zone).after ops).perform .forceEvalAll) run) :
    ∃ k, IsGreatest
        {k | ∃ ids, ((create config backend wall zone).after ops).Chain ids ∧ ids.length = k} k ∧
      ∀ pre post, run = pre ++ post → k + 1 ≤ ticks pre →
        Settled ((((create config backend wall zone).after ops).perform .forceEvalAll).after pre)
          ((((create config backend wall zone).after ops).perform .forceEvalAll).after run) := by
  have hs := after_sound (sound_create config backend wall zone) ops
  generalize (create config backend wall zone).after ops = n at hs hsteady hrun ⊢
  obtain ⟨k, hk⟩ := exists_longest hs.noCircle (noSelfReference_of_plain hs hsteady)
  refine ⟨k, hk, ?_⟩
  have hdepth : ∀ id, n.Depth k id := Chain.depth fun ids hids => hk.2 ⟨ids, hids, rfl⟩
  have hstart : Reached n 0 (n.perform .forceEvalAll) := by
    refine ⟨(Proceeds.refl n).beside rfl rfl, ?_, ?_, rfl⟩
    · intro id p hp
      exact hsteady.backoff (id, p) (Dict.mem_of_get? hp)
    · intro key p hp
      exact hsteady.plain (key.id, p) (Registered.mem hp)
  rintro pre post rfl hticks
  obtain ⟨hreached, hlater⟩ := hrun.reached hs hstart
  have hlast : (n.perform .forceEvalAll).after (pre ++ post) =
      ((n.perform .forceEvalAll).after pre).after post := List.foldl_append ..
  rw [hlast]
  rw [Nat.zero_add] at hreached
  obtain ⟨t, ht⟩ : ∃ t, ticks pre = t + 1 := ⟨ticks pre - 1, by omega⟩
  have hphases := hreached
  rw [ht] at hphases
  obtain ⟨c, hphase⟩ := hphases
  have hrest (key : PortKey) (p : Port)
      (hp : ((n.perform .forceEvalAll).after pre).Registered key p) : AtRest c p :=
    hphase.rest key p k hp (hdepth _) (by omega)
  refine ⟨?_, fun key p hp => (hrest key p hp).writes, ?_, ?_⟩
  · intro key p hp now v hv
    exact hphase.results hs hdepth (by omega) hp now hv
  · intro key p hp c' q hq t now
    exact (hrest key p hp).evaluate hq t now
  · intro key p hp
    exact hlater.devices hs hdepth hreached (by omega) hp

/-- A port that follows the opposite of another one, and a port that follows it in turn. -/
def cascade : List Operation := [
  .add "in" (.memory { type := .boolean, value := some (.bool true) }),
  .add "mid" (.software { type := .boolean }),
  .add "out" (.memory { type := .boolean, writable := true }),
  .setAttr "mid" "expression" (.str "NOT($in)"),
  .setAttr "out" "expression" (.str "$mid")]

/-- Three ticks; waiting for a write that nobody has asked for lets the workers drain. -/
def cascadeRun : List Operation :=
  [.await 0, .update 1000, .await 0, .update 1050, .await 0, .update 1100]

theorem settled_of_cascadeRun :
    Steady ((create {} (.memory {}) 0).after cascade) ∧
    Undisturbed (((create {} (.memory {}) 0).after cascade).perform .forceEvalAll) cascadeRun ∧
    ∃ k, IsGreatest
        {k | ∃ ids, ((create {} (.memory {}) 0).after cascade).Chain ids ∧ ids.length = k} k ∧
      ∀ pre post, cascadeRun = pre ++ post → k + 1 ≤ ticks pre →
        Settled ((((create {} (.memory {}) 0).after cascade).perform .forceEvalAll).after pre)
          ((((create {} (.memory {}) 0).after cascade).perform .forceEvalAll).after
          cascadeRun) := by
  have hsteady : Steady ((create {} (.memory {}) 0).after cascade) := by decide +kernel
  have hrun : Undisturbed (((create {} (.memory {}) 0).after cascade).perform .forceEvalAll)
      cascadeRun := by
    refine .quiet rfl (.tick ?_ ?_ ?_)
    · decide +kernel
    · decide +kernel
    refine .quiet rfl (.tick ?_ ?_ ?_)
    · decide +kernel
    · decide +kernel
    refine .quiet rfl (.tick ?_ ?_ (.nil _))
    · decide +kernel
    · decide +kernel
  exact ⟨hsteady, hrun,
    settled_of_undisturbed {} (.memory {}) 0 .utc cascade cascadeRun hsteady hrun⟩

end ControlNode.Node
