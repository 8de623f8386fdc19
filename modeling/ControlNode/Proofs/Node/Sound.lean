import ControlNode.Node.Registry
import ControlNode.Proofs.Node.Ticks
import ControlNode.Proofs.Port.Setup

/-!
# Sound nodes

In a sound node the registered ports fit the graph of their references, which has no cycles.
Whatever goes on in it between changes of the registry or of attributes keeps it sound
(`Sound.proceeds`), and so do these changes.
-/

namespace ControlNode.Node

open Relation Port

/-- A node without services whose expressions refer to each other in no circle. -/
structure Sound (n : Node) : Prop where
  services : n.services = []
  filed : Filed n
  fits : ∀ id p, n.port? id = some p → p.Fits n.graph
  acyclic : n.graph.Acyclic

theorem sound_create (config : NodeConfig) (backend : Backend) (wall : Int) (zone : Zone) :
    Sound (create config backend wall zone) := by
  refine ⟨rfl, ⟨Dict.sorted_nil, ?_⟩, ?_, DepGraph.acyclic_nil⟩
  · intro id p hp
    cases hp
  · intro id p hp
    cases hp

variable {n m k : Node}

/-! ### Going on -/

/-- The registered ports go on as they were set up. -/
structure Proceeds (n m : Node) : Prop where
  keys : ∀ id, m.keyAt id = n.keyAt id
  ports : ∀ key p, n.Registered key p → ∃ q, m.Registered key q ∧ Continues p q
  sorted : Dict.Sorted n.ports → Dict.Sorted m.ports
  services : m.services = n.services

theorem PortsRel.proceeds {R : Port → Port → Prop} (h : PortsRel R n m)
    (hR : ∀ key p q, n.Registered key p → R p q → Continues p q)
    (hserv : m.services = n.services) : Proceeds n m := by
  refine ⟨h.keys, ?_, h.sorted, hserv⟩
  intro key p hp
  obtain ⟨q, hq, hpq⟩ := h.registered hp
  exact ⟨q, hq, hR key p q hp hpq⟩

theorem Moved.proceeds (h : Moved n m) : Proceeds n m :=
  h.ports.proceeds (fun _ _ _ _ => Moves.continues) h.services

namespace Proceeds

theorem refl (n : Node) : Proceeds n n :=
  ⟨fun _ => rfl, fun _ p hp => ⟨p, hp, .refl p⟩, id, rfl⟩

theorem trans (h : Proceeds n m) (h' : Proceeds m k) : Proceeds n k := by
  refine ⟨fun id => (h'.keys id).trans (h.keys id), ?_, fun hs => h'.sorted (h.sorted hs),
    h'.services.trans h.services⟩
  intro key p hp
  obtain ⟨q, hq, hpq⟩ := h.ports key p hp
  obtain ⟨r, hr, hqr⟩ := h'.ports key q hq
  exact ⟨r, hr, hpq.trans hqr⟩

/-- Everything but the registered ports may change by itself. -/
theorem beside {m' : Node} (h : Proceeds n m) (hports : m'.ports = m.ports)
    (hserv : m'.services = m.services) : Proceeds n m' := by
  have hport (id : String) : m'.port? id = m.port? id := by rw [port?, port?, hports]
  refine ⟨?_, ?_, ?_, hserv.trans h.services⟩
  · intro id
    rw [← h.keys id, keyAt, keyAt, hport]
  · intro key p hp
    obtain ⟨q, hq, hpq⟩ := h.ports key p hp
    exact ⟨q, ⟨by rw [hport]; exact hq.1, hq.2⟩, hpq⟩
  · intro hs
    rw [hports]
    exact h.sorted hs

theorem putPort {key : PortKey} {p q : Port} (hp : n.portOf? key = some p)
    (h : Continues p q) : Proceeds n (n.putPort q) := by
  have hkey : q.key = key := h.setup.key.trans (key_of_portOf? hp)
  have hports : PortsRel Continues n (n.putPort q) := by
    refine .putPort (fun r _ => .refl r) ?_
    intro r hr
    rw [hkey, hp] at hr
    cases hr
    exact h
  exact hports.proceeds (fun _ _ _ _ hpq => hpq) (by rw [putPort_frame])

theorem registered_of (h : Proceeds n m) {key : PortKey} {q : Port} (hq : m.Registered key q) :
    ∃ p, n.Registered key p ∧ Continues p q := by
  obtain ⟨hport, rfl⟩ := hq
  have hkeys := h.keys q.key.id
  unfold keyAt at hkeys
  rw [hport] at hkeys
  obtain ⟨p, hp, hkey⟩ := Option.map_eq_some_iff.mp hkeys.symm
  obtain ⟨r, hr, hpr⟩ := h.ports q.key p ⟨hp, hkey⟩
  have heq := hr.1
  rw [hport] at heq
  cases heq
  exact ⟨p, ⟨hp, hkey⟩, hpr⟩

theorem filed (h : Proceeds n m) (hf : Filed n) : Filed m := by
  refine ⟨h.sorted hf.sorted, ?_⟩
  intro id q hq
  have hkeys := h.keys id
  unfold keyAt at hkeys
  rw [hq] at hkeys
  obtain ⟨p, hp, hkey⟩ := Option.map_eq_some_iff.mp hkeys.symm
  rw [Port.id, ← hkey]
  exact hf.ids id p hp

theorem graph_get? (h : Proceeds n m) (hf : Filed n) (id : String) :
    m.graph.get? id = n.graph.get? id := by
  rw [Node.graph_get? hf.sorted, Node.graph_get? (h.sorted hf.sorted)]
  cases hp : n.port? id with
  | none =>
    have hkeys := h.keys id
    unfold keyAt at hkeys
    rw [hp] at hkeys
    rw [Option.map_eq_none_iff.mp hkeys]
  | some p =>
    have hid := hf.ids id p hp
    obtain ⟨q, hq, hpq⟩ := h.ports p.key p (hf.registered hp)
    have hport : m.port? id = some q := by rw [← hid]; exact hq.1
    rw [hport, Option.bind_some, Option.bind_some, hpq.setup.deps?_eq]

end Proceeds

theorem acyclic_congr {g g' : DepGraph} (h : g.Acyclic) (hg : ∀ id, g'.get? id = g.get? id) :
    g'.Acyclic := by
  apply h.mono
  intro p q hpq
  rw [DepGraph.refers_congr hg] at hpq
  exact hpq

theorem Sound.proceeds (h : Sound n) (hnm : Proceeds n m) : Sound m := by
  have hgraph := hnm.graph_get? h.filed
  have hf := hnm.filed h.filed
  refine ⟨hnm.services.trans h.services, hf, ?_, acyclic_congr h.acyclic hgraph⟩
  intro id q hq
  obtain ⟨p, hp, hpq⟩ := hnm.registered_of (hf.registered hq)
  exact ((h.fits _ p hp.1).continues hpq).congr hgraph

/-! ### Ticks -/

theorem enqueueEval_of_running {p : Port} (h : p.Running) (c : EvalContext) :
    p.enqueueEval c = if p.evalPending then (false, p) else
      (true, { p with evals := { p.evals with items := [c] }, evalPending := true }) := by
  unfold enqueueEval
  split
  · rfl
  · rename_i hpending
    have hnil : p.evals.items = [] := by
      have hp := h.pending
      simpa [hpending] using hp
    have hpush : p.evals.push c = (.stored, { p.evals with items := [c] }) := by
      simp [BoundedQueue.push, h.evalsOpen, hnil]
    rw [hpush]

theorem Call.answer_continues (c : Call) (p : Port) : Continues p (c.answer p) := by
  refine ⟨c.answer_setup p, ?_⟩
  intro h
  unfold Call.answer
  split
  · rw [enqueueEval_of_running h]
    split
    · exact h
    · exact ⟨h.writesOpen, h.evalsOpen, Nat.le_refl 1, rfl⟩
  · exact h

theorem update_proceeds (h : Sound n) (now : Int) : Proceeds n (n.update now) := by
  obtain ⟨t, ids, m, hcall⟩ := exists_calling h.filed h.services now
  have hsent := dispatch_called (n := m) hcall.of.nodup ids
  have hserv : (m.dispatch t ids).services = n.services := by
    rw [hsent.rest, hcall.rest]
    rfl
  have harrived : PortsRel Continues n m := hcall.ports.mono fun _ _ hpq => hpq.continues
  have hanswered := hsent.ports.mono (S := Continues) fun p q hpq => by
    rw [hpq]
    split
    · exact Call.answer_continues _ p
    · exact .refl p
  have hdispatch : PortsRel Continues m (m.dispatch t ids) :=
    ⟨hanswered.keys, hanswered.ports, hanswered.sorted⟩
  have hports := harrived.trans (T := Continues) (fun _ _ _ hpq hqr => hpq.trans hqr) hdispatch
  have hproceeds := hports.proceeds (fun _ _ _ _ hpq => hpq) hserv
  rw [hcall.outcome]
  exact hproceeds.beside rfl rfl

/-! ### Changes of one port -/

/-- In a graph without cycles the registered ports fit. -/
theorem fits_of_acyclic (hf : Filed n) (h : n.graph.Acyclic) {id : String} {p : Port}
    (hp : n.port? id = some p) {g : DepGraph} (hfits : p.Fits g) : p.Fits n.graph := by
  refine ⟨hfits.running, hfits.read, ?_⟩
  intro deps hdeps
  have hid := hf.ids id p hp
  apply h.not_isLoop
  rw [graph_get? hf.sorted, hid, hp]
  exact hdeps

/-- A port that fits may be filed under its id, anew or in place of another one. -/
theorem Sound.file (h : Sound n) {q : Port} (hq : q.Fits n.graph)
    (hport : ∀ id, m.port? id = if q.id = id then some q else n.port? id)
    (hsorted : Dict.Sorted m.ports) (hserv : m.services = n.services) : Sound m := by
  have hself : m.port? q.id = some q := by rw [hport, if_pos rfl]
  have hf : Filed m := by
    refine ⟨hsorted, ?_⟩
    intro id p hp
    rw [hport] at hp
    split at hp
    · rename_i hid
      cases hp
      exact hid
    · exact h.filed.ids id p hp
  have hother (id : String) (hne : id ≠ q.id) : m.graph.get? id = n.graph.get? id := by
    rw [graph_get? hsorted, graph_get? h.filed.sorted, hport, if_neg (Ne.symm hne)]
  have hanew : m.graph.get? q.id = q.deps? := by
    rw [graph_get? hsorted, hself]
    rfl
  have hacyclic : m.graph.Acyclic := by
    apply h.acyclic.replace hother
    rw [hanew]
    exact hq.noLoop
  refine ⟨hserv.trans h.services, hf, ?_, hacyclic⟩
  intro id p hp
  by_cases hid : q.id = id
  · have hpq := hp
    rw [hport, if_pos hid] at hpq
    cases hpq
    exact fits_of_acyclic hf hacyclic hp hq
  · have hold := hp
    rw [hport, if_neg hid] at hold
    exact fits_of_acyclic hf hacyclic hp (h.fits id p hold)

theorem port?_putPort {p q : Port} (hp : n.port? p.id = some p) (hkey : q.key = p.key)
    (id : String) : (n.putPort q).port? id = if q.id = id then some q else n.port? id := by
  have hid : q.id = p.id := congrArg PortKey.id hkey
  have hput : n.putPort q = { n with ports := Dict.insert n.ports q.id q } := by
    unfold putPort
    rw [hid, hp, if_pos (by simp [hkey])]
  rw [hput]
  exact Dict.get?_insert ..

theorem Sound.putPort (h : Sound n) {p q : Port} (hp : n.port? p.id = some p)
    (hq : q.Fits n.graph) (hkey : q.key = p.key) : Sound (n.putPort q) :=
  h.file hq (port?_putPort hp hkey) (sorted_putPort n q h.filed.sorted) (by rw [putPort_frame])

theorem forceEval_proceeds (n : Node) (id : String) : Proceeds n (n.forceEval id) := by
  rw [forceEval_frame]
  exact (Proceeds.refl n).beside rfl rfl

theorem publish_proceeds (hs : n.services = []) (e : Event) : Proceeds n (n.publish e) := by
  rw [publish_eq hs]
  exact (Proceeds.refl n).beside rfl rfl

theorem access_proceeds {α : Type} (n : Node) (writes : Bool) (op : Backend.Outcome α) :
    Proceeds n (n.access writes op).2 := (access_tended writes op).moved.proceeds

theorem awaitStorage_proceeds (hs : n.services = []) : Proceeds n n.awaitStorage :=
  (awaitStorage_worked hs).moved.proceeds

theorem publishUpdate_proceeds (hs : n.services = []) {p : Port}
    (hp : n.portOf? p.key = some p) : Proceeds n (n.publishUpdate p) := by
  have hput : Proceeds n (n.putPort p.attrsJson.2) := .putPort hp p.attrsJson_upkeep.continues
  exact hput.trans (publish_proceeds (hput.services.trans hs) _)

theorem setAttr_sound (h : Sound n) (id name : String) (value : Json) :
    Sound (n.setAttr id name value).2 := by
  unfold setAttr
  split
  · exact h
  · rename_i p hp
    have hid := h.filed.ids id p hp
    have hp' : n.port? p.id = some p := by rw [hid]; exact hp
    obtain ⟨hfits, hkey⟩ := setAttr_fits (h.fits id p hp) name value
    have hput := h.putPort hp' hfits hkey
    have hself : (n.putPort (p.setAttr n.graph name value).port).portOf?
        (p.setAttr n.graph name value).port.key = some (p.setAttr n.graph name value).port := by
      refine portOf?_of_port? ?_ rfl
      rw [port?_putPort hp' hkey, if_pos rfl]
    dsimp only
    split
    · exact hput
    · refine hput.proceeds ?_
      split
      · have hforce := forceEval_proceeds (n.putPort (p.setAttr n.graph name value).port) id
        refine hforce.trans (publishUpdate_proceeds (hforce.services.trans hput.services) ?_)
        rw [forceEval_frame]
        exact hself
      · exact publishUpdate_proceeds hput.services hself

/-! ### Adding -/

theorem register_sound (h : Sound n) {p : Port} (hp : p.Fits n.graph) :
    Sound (n.register p).2 := by
  have hcached := hp.continues p.attrsJson_upkeep.continues
  have hfiled : Sound { n with ports := Dict.insert n.ports p.attrsJson.2.id p.attrsJson.2 } :=
    h.file hcached (fun _ => Dict.get?_insert ..) (Dict.sorted_insert _ _ h.filed.sorted) rfl
  have hforce := hfiled.proceeds (forceEval_proceeds _ p.attrsJson.2.id)
  exact hforce.proceeds (publish_proceeds hforce.services _)

theorem loadAttrs_proceeds {p : Port} (hp : p.Fits n.graph) (r : Record) :
    (n.loadAttrs p r).1.Fits n.graph ∧ Proceeds n (n.loadAttrs p r).2 := by
  refine ⟨(loadAttrs_fits hp r).1, ?_⟩
  unfold loadAttrs
  dsimp only
  split
  · exact forceEval_proceeds ..
  · exact .refl n

theorem storedRecord_proceeds (hs : n.services = []) (id : String) :
    Proceeds n (n.storedRecord id).2 := by
  have haccess := access_proceeds n false
    (n.backend.query portsCollection { filter := [("id", .str id)], limit := some 1 }, n.backend)
  exact haccess.trans (awaitStorage_proceeds (haccess.services.trans hs))

theorem restoreValue_proceeds (hs : n.services = []) (p : Port) (v : Value) :
    Proceeds n (n.restoreValue p v).2 := by
  unfold restoreValue
  dsimp only
  split
  · exact (advance_worked hs _).moved.proceeds
  · exact .refl n

/-- A port goes on fitting while the node proceeds. -/
theorem Sound.fits_later (h : Sound n) (hnm : Proceeds n m) {p : Port} (hp : p.Fits n.graph) :
    p.Fits m.graph := hp.congr (hnm.graph_get? h.filed)

theorem startWorkers_proceeds (n : Node) (key : PortKey) : Proceeds n (n.startWorkers key) := by
  unfold startWorkers
  dsimp only
  split
  · exact .refl n
  · exact (Proceeds.refl n).beside rfl rfl

section Add

variable {id : String} {device : Device} {isVirtual : Bool} {defaults : Record}

/-- A port that is about to be registered, and the node by then. -/
def prepare (n : Node) (id : String) (device : Device) (isVirtual : Bool) (defaults : Record) :
    Port × Node :=
  let (p, n) := { n with nextSerial := n.nextSerial + 1 }.loadAttrs
    (.create ⟨id, n.nextSerial⟩ device isVirtual n.config.queueCapacity n.zone) defaults
  let (stored, n) := n.storedRecord id
  let (p, n) := n.loadAttrs p (stored.getD [])
  match storedValue? p (stored.getD []) with
  | some v => n.restoreValue p v
  | none => (p, n)

theorem add_of_fault {fault : LoadFault} (h : n.idFault? id = some fault) :
    n.add id device isVirtual defaults = (.error (.portLoad id fault), n) := by
  simp only [add, h]

theorem add_of_no_fault (h : n.idFault? id = none) : n.add id device isVirtual defaults =
    (.ok ((n.prepare id device isVirtual defaults).2.register
        (n.prepare id device isVirtual defaults).1).1,
      ((n.prepare id device isVirtual defaults).2.register
        (n.prepare id device isVirtual defaults).1).2.startWorkers ⟨id, n.nextSerial⟩) := by
  unfold add
  rw [h]
  rfl

/-- What each step keeps holds of a port and its node when the port is registered. -/
theorem prepare_induction {motive : Port → Node → Prop}
    (create : motive (.create ⟨id, n.nextSerial⟩ device isVirtual n.config.queueCapacity n.zone)
      { n with nextSerial := n.nextSerial + 1 })
    (load : ∀ p m r, motive p m → motive (m.loadAttrs p r).1 (m.loadAttrs p r).2)
    (query : ∀ p m, motive p m → motive p (m.storedRecord id).2)
    (restore : ∀ p m v, motive p m → motive (m.restoreValue p v).1 (m.restoreValue p v).2) :
    motive (n.prepare id device isVirtual defaults).1
      (n.prepare id device isVirtual defaults).2 := by
  have hloaded := fun r => load _ _ r (query _ _ (load _ _ defaults create))
  unfold prepare
  dsimp only
  split
  · exact restore _ _ _ (hloaded _)
  · exact hloaded _

theorem prepare_sound (h : Sound n) (id : String) (device : Device) (isVirtual : Bool)
    (defaults : Record) :
    Sound (n.prepare id device isVirtual defaults).2 ∧
      (n.prepare id device isVirtual defaults).1.Fits
        (n.prepare id device isVirtual defaults).2.graph := by
  refine prepare_induction (motive := fun p m => Sound m ∧ p.Fits m.graph) ?_ ?_ ?_ ?_
  · exact ⟨h.proceeds ((Proceeds.refl _).beside rfl rfl),
      fits_create _ ⟨id, n.nextSerial⟩ device isVirtual n.config.queueCapacity n.zone⟩
  · rintro p m r ⟨hm, hp⟩
    obtain ⟨hfits, hload⟩ := loadAttrs_proceeds hp r
    exact ⟨hm.proceeds hload, hm.fits_later hload hfits⟩
  · rintro p m ⟨hm, hp⟩
    have hquery := storedRecord_proceeds hm.services id
    exact ⟨hm.proceeds hquery, hm.fits_later hquery hp⟩
  · rintro p m v ⟨hm, hp⟩
    have hwait := restoreValue_proceeds hm.services p v
    exact ⟨hm.proceeds hwait, (hm.fits_later hwait hp).continues (restore_continues p v)⟩

theorem add_sound (h : Sound n) (id : String) (device : Device) (isVirtual : Bool)
    (defaults : Record) : Sound (n.add id device isVirtual defaults).2 := by
  cases hfault : n.idFault? id with
  | some fault =>
    rw [add_of_fault hfault]
    exact h
  | none =>
    have hprepared := prepare_sound h id device isVirtual defaults
    rw [add_of_no_fault hfault]
    revert hprepared
    generalize n.prepare id device isVirtual defaults = prepared
    rintro ⟨hm, hp⟩
    exact (register_sound hm hp).proceeds (startWorkers_proceeds ..)

end Add

theorem addVirtual_sound (h : Sound n) (d : VirtualPortDef) : Sound (n.addVirtual d).2 := by
  have hadd : Sound (n.addDefined d).2 := add_sound h d.id d.device true d.attrs
  unfold addVirtual
  split
  · rename_i e m hm
    rw [hm] at hadd
    exact hadd
  · rename_i attrs m hm
    rw [hm] at hadd
    have haccess := access_proceeds m true
      (m.backend.replace definitionsCollection d.id d.toRecord)
    split
    · rename_i r k hk
      rw [hk] at haccess
      exact (hadd.proceeds haccess).proceeds
        (awaitStorage_proceeds (haccess.services.trans hadd.services))
    · rename_i e k hk
      rw [hk] at haccess
      exact (hadd.proceeds haccess).proceeds
        (awaitStorage_proceeds (haccess.services.trans hadd.services))

/-! ### Loading -/

theorem loadEach_sound {α : Type} {add : Node → α → Option NodeError × Node}
    (hadd : ∀ n a, Sound n → Sound (add n a).2) (h : Sound n) (as : List α) :
    Sound (loadEach add n as).2 := by
  induction as generalizing n with
  | nil => exact h
  | cons a as ih => exact ih (hadd n a h)

theorem loadPort_sound (mappings : Dict String String) (h : Sound n) (c : PortConfig) :
    Sound (loadPort mappings n c).2 := by
  unfold loadPort
  split
  · exact h
  · rename_i id _
    split
    · exact h
    · rename_i device _
      have hadd := add_sound h id device false []
      split
      · rename_i e m hm
        rw [hm] at hadd
        exact hadd
      · rename_i attrs m hm
        rw [hm] at hadd
        exact hadd

theorem loadDefined_sound (h : Sound n) (r : Record) : Sound (loadDefined n r).2 := by
  unfold loadDefined
  split
  · exact h
  · rename_i d _
    have hadd : Sound (n.addDefined d).2 := add_sound h d.id d.device true d.attrs
    split
    · rename_i e m hm
      rw [hm] at hadd
      exact hadd
    · rename_i attrs m hm
      rw [hm] at hadd
      exact hadd

theorem accessAwait_sound {α : Type} (h : Sound n) (writes : Bool) (op : Backend.Outcome α) :
    Sound (n.access writes op).2.awaitStorage := by
  have haccess := access_proceeds n writes op
  exact (h.proceeds haccess).proceeds
    (awaitStorage_proceeds (haccess.services.trans h.services))

theorem load_sound (h : Sound n) (configs : List PortConfig) (mappings : Dict String String) :
    Sound (n.load configs mappings).2 := by
  have hfirst := accessAwait_sound h false n.backend.ensureIndex
  have hsecond := accessAwait_sound hfirst false
    (n.access false n.backend.ensureIndex).2.awaitStorage.backend.ensureIndex
  have hports := loadEach_sound (fun _ c hk => loadPort_sound mappings hk c) hsecond configs
  exact loadEach_sound (fun _ r hk => loadDefined_sound hk r)
    (accessAwait_sound hports false _) _

/-! ### Stopping and removing -/

/-- Ports of other keys go on. -/
structure ContinuesBeside (keys : List PortKey) (p q : Port) : Prop where
  key : q.key = p.key
  continues : p.key ∉ keys → Continues p q

/-- Only ports of the given keys do not go on. -/
structure Stops (keys : List PortKey) (n m : Node) : Prop where
  ports : PortsRel (ContinuesBeside keys) n m
  services : m.services = n.services

namespace Stops

variable {keys : List PortKey}

theorem refl (n : Node) : Stops keys n n :=
  ⟨.refl (fun p => ⟨rfl, fun _ => .refl p⟩) n, rfl⟩

theorem trans (h : Stops keys n m) (h' : Stops keys m k) : Stops keys n k := by
  refine ⟨h.ports.trans ?_ h'.ports, h'.services.trans h.services⟩
  intro p q r hpq hqr
  exact ⟨hqr.key.trans hpq.key,
    fun hp => (hpq.continues hp).trans (hqr.continues (by rw [hpq.key]; exact hp))⟩

theorem beside {m' : Node} (h : Stops keys n m) (hports : m'.ports = m.ports)
    (hgone : m'.gone = m.gone) (hserv : m'.services = m.services) : Stops keys n m' :=
  ⟨h.ports.congr hports hgone, hserv.trans h.services⟩

theorem of_moved (h : Moved n m) : Stops keys n m :=
  ⟨h.ports.mono fun _ _ hpq => ⟨hpq.continues.setup.key, fun _ => hpq.continues⟩, h.services⟩

theorem putPort {key : PortKey} {p q : Port} (hp : n.portOf? key = some p)
    (hkey : q.key = p.key) (h : p.key ∉ keys → Continues p q) : Stops keys n (n.putPort q) := by
  have hq : q.key = key := hkey.trans (key_of_portOf? hp)
  refine ⟨.putPort (fun r _ => ⟨rfl, fun _ => .refl r⟩) ?_, by rw [putPort_frame]⟩
  intro r hr
  rw [hq, hp] at hr
  cases hr
  exact ⟨hkey, h⟩

theorem proceeds (h : Stops keys n m) (hkeys : ∀ key p, n.Registered key p → key ∉ keys) :
    Proceeds n m := by
  refine h.ports.proceeds ?_ h.services
  intro key p q hp hpq
  apply hpq.continues
  rw [hp.2]
  exact hkeys key p hp

end Stops

theorem foldl_stops {keys : List PortKey} {f : Node → PortKey → Node}
    (hf : ∀ n key, key ∈ keys → Stops keys n (f n key)) {few : List PortKey} (h : few ⊆ keys) :
    Stops keys n (few.foldl f n) := by
  induction few generalizing n with
  | nil => exact .refl n
  | cons key few ih =>
    have hstep := hf n key (h (List.mem_cons_self ..))
    exact hstep.trans (ih fun key' hk => h (List.mem_cons_of_mem _ hk))

theorem haltPort_stops {keys : List PortKey} {key : PortKey} (h : key ∈ keys) :
    Stops keys n (n.haltPort key) := by
  unfold haltPort
  split
  · exact .refl n
  · rename_i p hp
    have hmem : p.key ∈ keys := by rw [key_of_portOf? hp]; exact h
    have hput : Stops keys n (n.putPort p.halt.2) :=
      .putPort hp rfl fun hno => absurd hmem hno
    have hemit := hput.trans (.of_moved (emitAll_worked key p.halt.1).moved)
    exact hemit.beside rfl rfl rfl

theorem stopPorts_stops (hs : n.services = []) (keys : List PortKey) :
    Stops keys n (n.stopPorts keys) := by
  have hhalt : Stops keys n (keys.foldl haltPort n) :=
    foldl_stops (fun _ _ => haltPort_stops) (List.Subset.refl keys)
  have hwait := hhalt.trans (.of_moved (waitFor_worked (hhalt.services.trans hs)
    fun n => keys.all n.workersEnded).moved)
  refine hwait.trans (foldl_stops ?_ (List.Subset.refl keys))
  intro m key _
  split
  · exact .refl m
  · rename_i p hp
    have hclear : Continues p p.clearPending :=
      ⟨⟨rfl, rfl, rfl, rfl, rfl, rfl, rfl, rfl, rfl⟩, fun h => h.of_evals rfl rfl rfl⟩
    exact .putPort hp rfl fun _ => hclear

theorem unregister_sound (h : Sound n) (p : Port) : Sound (n.unregister p) := by
  have hport (id : String) : (n.unregister p).port? id =
      if p.id = id then none else n.port? id := Dict.get?_erase ..
  have hf : Filed (n.unregister p) := by
    refine ⟨Dict.sorted_erase p.id h.filed.sorted, ?_⟩
    intro id q hq
    rw [hport] at hq
    split at hq
    · cases hq
    · exact h.filed.ids id q hq
  have hacyclic : (n.unregister p).graph.Acyclic := by
    apply h.acyclic.mono
    rintro a b ⟨deps, hdeps, hb⟩
    rw [graph_get? hf.sorted, hport] at hdeps
    split at hdeps
    · cases hdeps
    · exact ⟨deps, by rw [graph_get? h.filed.sorted]; exact hdeps, hb⟩
  refine ⟨h.services, hf, ?_, hacyclic⟩
  intro id q hq
  have hold := hq
  rw [hport] at hold
  split at hold
  · cases hold
  · exact fits_of_acyclic hf hacyclic hq (h.fits id q hold)

theorem thenAccess_proceeds {r : Except PersistError Unit × Node} (hs : r.2.services = [])
    (op : Node → Backend.Outcome Nat) : Proceeds r.2 (thenAccess r op).2 := by
  unfold thenAccess
  split
  · exact .refl _
  · rename_i k
    have haccess := access_proceeds k ((op k).1.toOption.any (· > 0)) (op k)
    exact haccess.trans (awaitStorage_proceeds (haccess.services.trans hs))

theorem purge_proceeds (hs : n.services = []) (p : Port) : Proceeds n (n.purge p).2 := by
  have hrecord := thenAccess_proceeds (r := (.ok (), n)) hs
    fun n => n.backend.remove portsCollection [("id", .str p.id)]
  unfold purge
  dsimp only
  generalize thenAccess (.ok (), n) (fun n =>
    n.backend.remove portsCollection [("id", .str p.id)]) = r at hrecord
  have hdefinition : Proceeds n (if p.isVirtual then
      thenAccess r fun n => n.backend.remove definitionsCollection [("id", .str p.id)]
      else r).2 := by
    split
    · exact hrecord.trans (thenAccess_proceeds (hrecord.services.trans hs) _)
    · exact hrecord
  split
  · exact hdefinition.trans (thenAccess_proceeds (hdefinition.services.trans hs) _)
  · exact hdefinition

theorem not_registered_unregister (n : Node) {p q : Port} {key : PortKey}
    (hkey : key.id = p.id) : ¬(n.unregister p).Registered key q := by
  rintro ⟨hq, _⟩
  have herase := Dict.get?_erase n.ports p.id key.id
  rw [if_pos hkey.symm] at herase
  rw [port?, unregister, herase] at hq
  cases hq

theorem remove_sound (h : Sound n) (id : String) (purged : Bool) :
    Sound (n.remove id purged).2 := by
  unfold remove
  split
  · exact h
  · rename_i p hp
    have hout := unregister_sound h p
    have hstop : Proceeds (n.unregister p) ((n.unregister p).stopPorts [p.key]) := by
      apply (stopPorts_stops hout.services [p.key]).proceeds
      rintro key q hq hmem
      exact not_registered_unregister n (by rw [List.mem_singleton.mp hmem]; rfl) hq
    dsimp only
    obtain ⟨k, hk⟩ : ∃ k, k = { (n.unregister p).stopPorts [p.key] with
      backoff := ((n.unregister p).stopPorts [p.key]).backoff.erase id
      forced := ((n.unregister p).stopPorts [p.key]).forced.filter (· ≠ id) } := ⟨_, rfl⟩
    have hcleared : Sound k := (hout.proceeds hstop).proceeds
      (hk ▸ (Proceeds.refl _).beside rfl rfl)
    rw [← hk]
    have hpurged : Sound (if purged then k.purge p else (.ok (), k)).2 := by
      split
      · exact hcleared.proceeds (purge_proceeds hcleared.services p)
      · exact hcleared
    split
    · exact hpurged
    · exact hpurged.proceeds (publish_proceeds hpurged.services _)

/-! ### Saving and ending -/

theorem savePortList_moved (hs : n.services = []) (force : Bool) (keys : List PortKey) :
    Moved n (n.savePortList force awaitStorage keys).2 := by
  induction keys generalizing n with
  | nil => exact .refl n
  | cons key keys ih =>
    have hsave := (savePort_tended (n := n) force key).moved
    have hwait := hsave.trans (awaitStorage_worked (hsave.services.trans hs)).moved
    exact hwait.trans (ih (hwait.services.trans hs))

theorem cleanup_sound (h : Sound n) : Sound n.cleanup := by
  have hsave : Moved n (n.savePorts true awaitStorage).2 := savePortList_moved h.services true _
  have hsaved := h.proceeds hsave.proceeds
  unfold cleanup
  dsimp only
  obtain ⟨k, hk⟩ : ∃ k, k = (n.savePorts true awaitStorage).2 := ⟨_, rfl⟩
  rw [← hk] at hsaved ⊢
  have hempty : Sound { k with ports := [], gone := Dict.values k.ports ++ k.gone } := by
    refine ⟨hsaved.services, ⟨Dict.sorted_nil, ?_⟩, ?_, DepGraph.acyclic_nil⟩
    · intro id p hp
      cases hp
    · intro id p hp
      cases hp
  apply hempty.proceeds
  apply (stopPorts_stops hempty.services _).proceeds
  rintro key p ⟨hp, _⟩
  cases hp

end ControlNode.Node
