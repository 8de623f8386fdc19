import ControlNode.Proofs.Node.Histories
import ControlNode.Proofs.Node.Settling
import ControlNode.Proofs.Port.Switching

/-!
# Where values come from

Between ticks a registered port keeps the value that it has or loses it (`Lasts`), and a port
that has been added may come with a value (`perform_lasting`).
-/

namespace ControlNode

namespace Port

variable {p q : Port}

theorem Moves.lasting (h : Moves p q) : Lasting p q :=
  .of_eq h.continues.setup.key h.continues.setup.enabled h.lastRead

theorem Upkeep.lasting (h : Upkeep p q) : Lasting p q :=
  .of_eq h.setup.key h.setup.enabled h.lastRead

theorem submit_lasting (p : Port) (v : Value) (t : Ticket) (now : Int) :
    Lasting p (p.submit v t now).2 := by
  rw [submit_frame]
  exact .of_eq rfl rfl rfl

theorem enqueueWrite_lasting (p : Port) (v : Value) (t : Ticket) :
    Lasting p (p.enqueueWrite v t).2 := by
  unfold enqueueWrite
  split
  · exact .refl p
  · exact .of_eq rfl rfl rfl

theorem setSequence_lasting (p : Port) (s : Option Sequence) :
    Lasting p (p.setSequence s).2 := by
  unfold setSequence
  dsimp only
  repeat' split
  all_goals exact .of_eq rfl rfl rfl

end Port

namespace Node

open Relation Port

variable {n m k : Node}

/-! ### Operations on registered ports -/

/-- The ports that were registered still are, with the values they had or none; others may have
been added. -/
structure Extends (n m : Node) : Prop where
  ports : ∀ key p, n.Registered key p → ∃ q, m.Registered key q ∧ Lasting p q
  services : m.services = n.services

theorem Extends.trans (h : Extends n m) (h' : Extends m k) : Extends n k := by
  refine ⟨?_, h'.services.trans h.services⟩
  intro key p hp
  obtain ⟨q, hq, hpq⟩ := h.ports key p hp
  obtain ⟨r, hr, hqr⟩ := h'.ports key q hq
  exact ⟨r, hr, hpq.trans hqr⟩

/-- No port has been added or removed. -/
structure Lasts (n m : Node) : Prop extends Extends n m where
  keys : ∀ id, m.keyAt id = n.keyAt id

namespace Lasts

theorem of_portsRel {R : Port → Port → Prop} (h : PortsRel R n m)
    (hR : ∀ p q, R p q → Lasting p q) (hserv : m.services = n.services) : Lasts n m := by
  refine ⟨⟨?_, hserv⟩, h.keys⟩
  intro key p hp
  obtain ⟨q, hq, hpq⟩ := h.registered hp
  exact ⟨q, hq, hR p q hpq⟩

theorem refl (n : Node) : Lasts n n := ⟨⟨fun _ p hp => ⟨p, hp, .refl p⟩, rfl⟩, fun _ => rfl⟩

theorem trans (h : Lasts n m) (h' : Lasts m k) : Lasts n k :=
  ⟨h.toExtends.trans h'.toExtends, fun id => (h'.keys id).trans (h.keys id)⟩

/-- Everything but the registered ports may change by itself. -/
theorem beside {m' : Node} (h : Lasts n m) (hports : m'.ports = m.ports)
    (hserv : m'.services = m.services) : Lasts n m' := by
  have hport (id : String) : m'.port? id = m.port? id := by rw [port?, port?, hports]
  refine ⟨⟨?_, hserv.trans h.services⟩, ?_⟩
  · intro key p hp
    obtain ⟨q, hq, hpq⟩ := h.ports key p hp
    exact ⟨q, ⟨by rw [hport]; exact hq.1, hq.2⟩, hpq⟩
  · intro id
    rw [← h.keys id, keyAt, keyAt, hport]

theorem putPort {key : PortKey} {p q : Port} (hp : n.portOf? key = some p)
    (h : Lasting p q) : Lasts n (n.putPort q) := by
  have hkey : q.key = key := h.key.trans (key_of_portOf? hp)
  have hports : PortsRel Lasting n (n.putPort q) := by
    refine .putPort (fun r _ => .refl r) ?_
    intro r hr
    rw [hkey, hp] at hr
    cases hr
    exact h
  exact .of_portsRel hports (fun _ _ hpq => hpq) (by rw [putPort_frame])

theorem registered_of (h : Lasts n m) {key : PortKey} {q : Port} (hq : m.Registered key q) :
    ∃ p, n.Registered key p ∧ Lasting p q := by
  obtain ⟨hport, rfl⟩ := hq
  have hkeys := h.keys q.key.id
  unfold keyAt at hkeys
  rw [hport] at hkeys
  obtain ⟨p, hp, hkey⟩ := Option.map_eq_some_iff.mp hkeys.symm
  obtain ⟨r, hr, hpr⟩ := h.ports q.key p ⟨hp, hkey⟩
  have heq := hr.1
  rw [hport] at heq
  cases heq
  exact ⟨p, ⟨hp, hkey⟩, hpr⟩

end Lasts

theorem Moved.lasts (h : Moved n m) : Lasts n m :=
  .of_portsRel h.ports (fun _ _ => Moves.lasting) h.services

theorem Worked.lasts (h : Worked n m) : Lasts n m := h.moved.lasts

theorem forceEval_lasts (n : Node) (id : String) : Lasts n (n.forceEval id) := by
  rw [forceEval_frame]
  exact (Lasts.refl n).beside rfl rfl

theorem publish_lasts (hs : n.services = []) (e : Event) : Lasts n (n.publish e) := by
  rw [publish_eq hs]
  exact (Lasts.refl n).beside rfl rfl

theorem access_lasts {α : Type} (n : Node) (writes : Bool) (op : Backend.Outcome α) :
    Lasts n (n.access writes op).2 := (access_tended writes op).moved.lasts

theorem awaitStorage_lasts (hs : n.services = []) : Lasts n n.awaitStorage :=
  (awaitStorage_worked hs).lasts

theorem withPort_lasts {key : PortKey} {f : Port → Node}
    (h : ∀ p, n.portOf? key = some p → Lasts n (f p)) : Lasts n (n.withPort key f) :=
  withPort_induction (.refl n) h

theorem withTicket_lasts {key : PortKey} {p : Port} (hp : n.portOf? key = some p)
    {f : Ticket → Except PortError (List Signal) × Port} (hf : ∀ t, Lasting p (f t).2) :
    Lasts n (n.withTicket f).2 := by
  have hcount : Lasts n { n with nextTicket := n.nextTicket + 1 } :=
    (Lasts.refl n).beside rfl rfl
  exact (hcount.trans (.putPort hp (hf _))).trans (withTicket_signals f).lasts

theorem writeValue_lasts (hs : n.services = []) {key : PortKey} {p : Port}
    (hp : n.portOf? key = some p) (v : Value) : Lasts n (n.writeValue p v).2 := by
  have hsubmit := withTicket_lasts hp fun t => submit_lasting p v t n.wall
  exact hsubmit.trans (writeValue_moved hs p v).lasts

theorem setValue_lasts (hs : n.services = []) {key : PortKey} {p : Port}
    (hp : n.portOf? key = some p) (v : Value) : Lasts n (n.setValue p v).2 := by
  unfold setValue
  split
  · exact .refl n
  · exact writeValue_lasts hs hp v

theorem setSequence_lasts {key : PortKey} {p : Port} (hp : n.portOf? key = some p)
    (s : Option Sequence) : Lasts n (n.setSequence p s).2 := by
  have hput : Lasts n (n.putPort (p.setSequence s).2) := .putPort hp (setSequence_lasting p s)
  unfold Node.setSequence
  dsimp only
  split
  · exact hput.beside rfl rfl
  · exact hput

theorem publishUpdate_lasts (hs : n.services = []) {p : Port}
    (hp : n.portOf? p.key = some p) : Lasts n (n.publishUpdate p) := by
  have hput : Lasts n (n.putPort p.attrsJson.2) := .putPort hp p.attrsJson_upkeep.lasting
  exact hput.trans (publish_lasts (hput.services.trans hs) _)

theorem setAttr_lasts (h : Sound n) (id name : String) (value : Json) :
    Lasts n (n.setAttr id name value).2 := by
  unfold setAttr
  split
  · exact .refl n
  · rename_i p hp
    have hid := h.filed.ids id p hp
    have hswitched := setAttr_switched p n.graph name value
    have hput : Lasts n (n.putPort (p.setAttr n.graph name value).port) :=
      .putPort (portOf?_of_port? hp hid) hswitched.toLasting
    have hself : (n.putPort (p.setAttr n.graph name value).port).portOf?
        (p.setAttr n.graph name value).port.key = some (p.setAttr n.graph name value).port := by
      refine portOf?_of_port? ?_ rfl
      rw [port?_putPort (by rw [hid]; exact hp) hswitched.key, if_pos rfl]
    have hserv := hput.services.trans h.services
    dsimp only
    split
    · exact hput
    · refine hput.trans ?_
      split
      · have hforce := forceEval_lasts (n.putPort (p.setAttr n.graph name value).port) id
        refine hforce.trans (publishUpdate_lasts (hforce.services.trans hserv) ?_)
        rw [forceEval_frame]
        exact hself
      · exact publishUpdate_lasts hserv hself

theorem loadAttrs_lasts (n : Node) (p : Port) (r : Record) : Lasts n (n.loadAttrs p r).2 := by
  unfold Node.loadAttrs
  dsimp only
  split
  · exact forceEval_lasts ..
  · exact .refl n

theorem reloadAttrs_lasts (h : Sound n) (id : String) (r : Record) :
    Lasts n (n.reloadAttrs id r) := by
  unfold reloadAttrs
  split
  · exact .refl n
  · rename_i p hp
    have hload := loadAttrs_lasts n p r
    have hid := h.filed.ids id p hp
    have hport : (n.loadAttrs p r).2.portOf? p.key = some p := by
      refine portOf?_of_port? ?_ rfl
      unfold Node.loadAttrs
      dsimp only
      split
      · rw [forceEval_frame, hid]
        exact hp
      · rw [hid]
        exact hp
    exact hload.trans (.putPort hport (loadAttrs_switched p n.graph r).toLasting)

/-! ### Adding -/

theorem register_extends (hs : n.services = []) {p : Port} (hp : n.port? p.id = none) :
    Extends n (n.register p).2 := by
  have hid : p.attrsJson.2.id = p.id := congrArg PortKey.id p.attrsJson_upkeep.setup.key
  have hfiled :
    Extends n { n with ports := Dict.insert n.ports p.attrsJson.2.id p.attrsJson.2 } := by
    refine ⟨?_, rfl⟩
    intro key q hq
    refine ⟨q, ⟨?_, hq.2⟩, .refl q⟩
    rw [port?, Dict.get?_insert, if_neg]
    · exact hq.1
    · intro heq
      rw [hid] at heq
      rw [heq, hq.1] at hp
      cases hp
  have hforce := hfiled.trans (forceEval_lasts _ p.attrsJson.2.id).toExtends
  exact hforce.trans (publish_lasts (hforce.services.trans hs) _).toExtends

theorem storedRecord_lasts (hs : n.services = []) (id : String) :
    Lasts n (n.storedRecord id).2 := by
  have haccess := access_lasts n false
    (n.backend.query portsCollection { filter := [("id", .str id)], limit := some 1 }, n.backend)
  exact haccess.trans (awaitStorage_lasts (haccess.services.trans hs))

theorem restoreValue_lasts (hs : n.services = []) (p : Port) (v : Value) :
    Lasts n (n.restoreValue p v).2 := by
  unfold restoreValue
  dsimp only
  split
  · exact (advance_worked hs _).lasts
  · exact .refl n

theorem startWorkers_lasts (n : Node) (key : PortKey) : Lasts n (n.startWorkers key) := by
  unfold startWorkers
  dsimp only
  split
  · exact .refl n
  · exact (Lasts.refl n).beside rfl rfl

theorem Lasts.port?_eq_none (h : Lasts n m) {id : String} (hn : n.port? id = none) :
    m.port? id = none := by
  have hkeys := h.keys id
  unfold keyAt at hkeys
  rw [hn] at hkeys
  exact Option.map_eq_none_iff.mp hkeys

theorem port?_of_idFault? {id : String} (h : n.idFault? id = none) : n.port? id = none := by
  unfold idFault? at h
  split at h
  · cases h
  · split at h
    · cases h
    · rename_i hnone
      simpa using hnone

theorem loadAttrs_id (n : Node) (p : Port) (r : Record) : (n.loadAttrs p r).1.id = p.id :=
  congrArg PortKey.id (loadAttrs_switched p n.graph r).key

theorem restoreValue_id (n : Node) (p : Port) (v : Value) : (n.restoreValue p v).1.id = p.id :=
  congrArg PortKey.id (restore_continues p v).setup.key

/-- The id of a new port stays free until it is registered. -/
theorem prepare_lasts (hs : n.services = []) (id : String) (device : Device) (isVirtual : Bool)
    (defaults : Record) : (n.prepare id device isVirtual defaults).1.id = id ∧
      Lasts n (n.prepare id device isVirtual defaults).2 := by
  refine prepare_induction (motive := fun p m => p.id = id ∧ Lasts n m) ?_ ?_ ?_ ?_
  · exact ⟨rfl, (Lasts.refl n).beside rfl rfl⟩
  · rintro p m r ⟨hp, hm⟩
    exact ⟨(loadAttrs_id m p r).trans hp, hm.trans (loadAttrs_lasts m p r)⟩
  · rintro p m ⟨hp, hm⟩
    exact ⟨hp, hm.trans (storedRecord_lasts (hm.services.trans hs) id)⟩
  · rintro p m v ⟨hp, hm⟩
    exact ⟨(restoreValue_id m p v).trans hp,
      hm.trans (restoreValue_lasts (hm.services.trans hs) p v)⟩

theorem add_extends (hs : n.services = []) (id : String) (device : Device) (isVirtual : Bool)
    (defaults : Record) : Extends n (n.add id device isVirtual defaults).2 := by
  cases hfault : n.idFault? id with
  | some fault =>
    rw [add_of_fault hfault]
    exact (Lasts.refl n).toExtends
  | none =>
    have hprepared := prepare_lasts hs id device isVirtual defaults
    rw [add_of_no_fault hfault]
    revert hprepared
    generalize n.prepare id device isVirtual defaults = prepared
    rintro ⟨hid, hlast⟩
    have hfree := hlast.port?_eq_none (port?_of_idFault? hfault)
    have hregister := register_extends (hlast.services.trans hs) (p := prepared.1) (by rwa [hid])
    exact (hlast.toExtends.trans hregister).trans (startWorkers_lasts ..).toExtends

theorem addVirtual_extends (hs : n.services = []) (d : VirtualPortDef) :
    Extends n (n.addVirtual d).2 := by
  have hadd : Extends n (n.addDefined d).2 := add_extends hs d.id d.device true d.attrs
  unfold addVirtual
  split
  · rename_i e m hm
    rw [hm] at hadd
    exact hadd
  · rename_i attrs m hm
    rw [hm] at hadd
    have haccess := access_lasts m true
      (m.backend.replace definitionsCollection d.id d.toRecord)
    have hwait := awaitStorage_lasts ((haccess.services.trans hadd.services).trans hs)
    have hall := hadd.trans (haccess.trans hwait).toExtends
    split
    · rename_i r k hk
      rw [hk] at hall
      exact hall
    · rename_i e k hk
      rw [hk] at hall
      exact hall

theorem loadEach_extends {α : Type} {add : Node → α → Option NodeError × Node}
    (hadd : ∀ n a, n.services = [] → Extends n (add n a).2) (hs : n.services = []) (as : List α) :
    Extends n (loadEach add n as).2 := by
  induction as generalizing n with
  | nil => exact (Lasts.refl n).toExtends
  | cons a as ih =>
    have hstep := hadd n a hs
    exact hstep.trans (ih (hstep.services.trans hs))

theorem loadPort_extends (mappings : Dict String String) (hs : n.services = []) (c : PortConfig) :
    Extends n (loadPort mappings n c).2 := by
  unfold loadPort
  split
  · exact (Lasts.refl n).toExtends
  · rename_i id _
    split
    · exact (Lasts.refl n).toExtends
    · rename_i device _
      have hadd := add_extends hs id device false []
      split
      · rename_i e m hm
        rw [hm] at hadd
        exact hadd
      · rename_i attrs m hm
        rw [hm] at hadd
        exact hadd

theorem loadDefined_extends (hs : n.services = []) (r : Record) :
    Extends n (loadDefined n r).2 := by
  unfold loadDefined
  split
  · exact (Lasts.refl n).toExtends
  · rename_i d _
    have hadd : Extends n (n.addDefined d).2 := add_extends hs d.id d.device true d.attrs
    split
    · rename_i e m hm
      rw [hm] at hadd
      exact hadd
    · rename_i attrs m hm
      rw [hm] at hadd
      exact hadd

theorem accessAwait_lasts {α : Type} (hs : n.services = []) (writes : Bool)
    (op : Backend.Outcome α) : Lasts n (n.access writes op).2.awaitStorage := by
  have haccess := access_lasts n writes op
  exact haccess.trans (awaitStorage_lasts (haccess.services.trans hs))

theorem load_extends (hs : n.services = []) (configs : List PortConfig)
    (mappings : Dict String String) : Extends n (n.load configs mappings).2 := by
  have hfirst := accessAwait_lasts hs false n.backend.ensureIndex
  have hsecond := hfirst.trans (accessAwait_lasts (hfirst.services.trans hs) false
    (n.access false n.backend.ensureIndex).2.awaitStorage.backend.ensureIndex)
  have hports := hsecond.toExtends.trans (loadEach_extends
    (fun _ c hk => loadPort_extends mappings hk c) (hsecond.services.trans hs) configs)
  unfold load
  dsimp only
  generalize loadEach (loadPort mappings) _ configs = loaded at hports
  obtain ⟨errors, k⟩ := loaded
  have hstored := hports.trans (accessAwait_lasts (hports.services.trans hs) false
    (k.backend.query definitionsCollection {}, k.backend)).toExtends
  exact hstored.trans (loadEach_extends (fun _ r hk => loadDefined_extends hk r)
    (hstored.services.trans hs) _)

/-! ### Removing -/

theorem haltPort_lasts (n : Node) (key : PortKey) : Lasts n (n.haltPort key) := by
  unfold haltPort
  split
  · exact .refl n
  · rename_i p hp
    have hput : Lasts n (n.putPort p.halt.2) := .putPort hp (.of_eq rfl rfl rfl)
    exact (hput.trans (emitAll_worked key p.halt.1).lasts).beside rfl rfl

theorem foldl_lasts {α : Type} {f : Node → α → Node} (hf : ∀ n a, Lasts n (f n a))
    (as : List α) : Lasts n (as.foldl f n) := by
  induction as generalizing n with
  | nil => exact .refl n
  | cons a as ih => exact (hf n a).trans ih

theorem stopPorts_lasts (hs : n.services = []) (keys : List PortKey) :
    Lasts n (n.stopPorts keys) := by
  have hhalt : Lasts n (keys.foldl haltPort n) := foldl_lasts haltPort_lasts keys
  have hwait := hhalt.trans (waitFor_worked (hhalt.services.trans hs)
    fun n => keys.all n.workersEnded).lasts
  refine hwait.trans (foldl_lasts (fun m key => ?_) keys)
  split
  · exact .refl m
  · rename_i p hp
    exact .putPort hp (.of_eq rfl rfl rfl)

theorem thenAccess_lasts {r : Except PersistError Unit × Node} (hs : r.2.services = [])
    (op : Node → Backend.Outcome Nat) : Lasts r.2 (thenAccess r op).2 := by
  unfold thenAccess
  split
  · exact .refl _
  · rename_i k
    exact accessAwait_lasts hs ((op k).1.toOption.any (· > 0)) (op k)

theorem purge_lasts (hs : n.services = []) (p : Port) : Lasts n (n.purge p).2 := by
  have hrecord := thenAccess_lasts (r := (.ok (), n)) hs
    fun n => n.backend.remove portsCollection [("id", .str p.id)]
  unfold purge
  dsimp only
  generalize thenAccess (.ok (), n) (fun n =>
    n.backend.remove portsCollection [("id", .str p.id)]) = r at hrecord
  have hdefinition : Lasts n (if p.isVirtual then
      thenAccess r fun n => n.backend.remove definitionsCollection [("id", .str p.id)]
      else r).2 := by
    split
    · exact hrecord.trans (thenAccess_lasts (hrecord.services.trans hs) _)
    · exact hrecord
  split
  · exact hdefinition.trans (thenAccess_lasts (hdefinition.services.trans hs) _)
  · exact hdefinition

/-- The values that registered ports have are values that they had before. -/
def Inherits (n m : Node) : Prop :=
  ∀ key q w, m.Registered key q → q.lastRead = some w →
    ∃ p, n.Registered key p ∧ p.lastRead = some w ∧ (p.enabled = true → q.enabled = true)

theorem Lasts.inherits (h : Lasts n m) : Inherits n m := by
  intro key q w hq hw
  obtain ⟨p, hp, hpq⟩ := h.registered_of hq
  obtain ⟨hvalue, hon⟩ := hpq.value_eq hw
  exact ⟨p, hp, hvalue, hon⟩

theorem Inherits.lasts (h : Inherits n m) (h' : Lasts m k) : Inherits n k := by
  intro key r w hr hw
  obtain ⟨q, hq, hqw, hqr⟩ := h'.inherits key r w hr hw
  obtain ⟨p, hp, hpw, hpq⟩ := h key q w hq hqw
  exact ⟨p, hp, hpw, fun henabled => hqr (hpq henabled)⟩

theorem unregister_inherits (n : Node) (p : Port) : Inherits n (n.unregister p) := by
  intro key q w hreg hw
  obtain ⟨hq, hkey⟩ := hreg
  have herase := Dict.get?_erase n.ports p.id key.id
  rw [port?, unregister, herase] at hq
  split at hq
  · cases hq
  · exact ⟨q, ⟨hq, hkey⟩, hw, id⟩

theorem remove_inherits (hs : n.services = []) (id : String) (purged : Bool) :
    Inherits n (n.remove id purged).2 := by
  unfold remove
  split
  · exact (Lasts.refl n).inherits
  · rename_i p hp
    have hstop : Lasts (n.unregister p) ((n.unregister p).stopPorts [p.key]) :=
      stopPorts_lasts (n := n.unregister p) hs [p.key]
    dsimp only
    obtain ⟨k, hk⟩ : ∃ k, k = { (n.unregister p).stopPorts [p.key] with
      backoff := ((n.unregister p).stopPorts [p.key]).backoff.erase id
      forced := ((n.unregister p).stopPorts [p.key]).forced.filter (· ≠ id) } := ⟨_, rfl⟩
    have hcleared : Lasts (n.unregister p) k := hstop.trans (hk ▸ (Lasts.refl _).beside rfl rfl)
    rw [← hk]
    have hpurged : Lasts (n.unregister p) (if purged then k.purge p else (.ok (), k)).2 := by
      split
      · exact hcleared.trans (purge_lasts (hcleared.services.trans hs) p)
      · exact hcleared
    split
    · exact (unregister_inherits n p).lasts hpurged
    · exact (unregister_inherits n p).lasts
        (hpurged.trans (publish_lasts (hpurged.services.trans hs) _))

theorem cleanup_inherits (hs : n.services = []) : Inherits n n.cleanup := by
  have hsave : Moved n (n.savePorts true awaitStorage).2 := savePortList_moved hs true _
  unfold cleanup
  dsimp only
  obtain ⟨k, hk⟩ : ∃ k, k = (n.savePorts true awaitStorage).2 := ⟨_, rfl⟩
  rw [← hk] at hsave ⊢
  have hstop := stopPorts_lasts (n := { k with ports := [], gone := Dict.values k.ports ++ k.gone })
    (hsave.services.trans hs) ((Dict.values k.ports).map Port.key)
  intro key q w hq _
  obtain ⟨p, ⟨hp, -⟩, -⟩ := hstop.registered_of hq
  cases hp

/-! ### One operation -/

def Operation.isAddition : Operation → Bool
  | .load .. => true
  | .add .. => true
  | .addVirtual .. => true
  | _ => false

theorem Extends.inherits_or_new (h : Extends n m) {key : PortKey} {q : Port} {w : Value}
    (hq : m.Registered key q) (hw : q.lastRead = some w) :
    (∀ p, ¬n.Registered key p) ∨
      ∃ p, n.Registered key p ∧ p.lastRead = some w ∧ (p.enabled = true → q.enabled = true) := by
  by_cases hknown : ∃ p, n.Registered key p
  · obtain ⟨p, hp⟩ := hknown
    obtain ⟨r, hr, hpr⟩ := h.ports key p hp
    have heq := hr.1
    rw [hq.1] at heq
    cases heq
    exact .inr ⟨p, hp, hpr.value_eq hw⟩
  · exact .inl fun p hp => hknown ⟨p, hp⟩

/-- What an operation that adds no port does to the values of ports, between ticks. -/
theorem perform_inherits (h : Sound n) {op : Operation} (hno : op.isTick = false)
    (hold : op.isAddition = false) : Inherits n (n.perform op) := by
  have hs := h.services
  have hbeside {m : Node} (hports : m.ports = n.ports) (hserv : m.services = n.services) :
      Inherits n m := ((Lasts.refl n).beside hports hserv).inherits
  cases op with
  | load configs mappings => cases hold
  | add id device => cases hold
  | addVirtual d => cases hold
  | update now => cases hno
  | remove id purged => exact remove_inherits hs id purged
  | cleanup => exact cleanup_inherits hs
  | setAttr id name value => exact (setAttr_lasts h id name value).inherits
  | loadAttrs id r => exact (reloadAttrs_lasts h id r).inherits
  | getAttr key name =>
    exact (withPort_lasts fun p hp => .putPort hp (p.getAttr_upkeep name).lasting).inherits
  | attrs key =>
    exact (withPort_lasts fun p hp => .putPort hp p.attrsJson_upkeep.lasting).inherits
  | forceEval id => exact (forceEval_lasts n id).inherits
  | forceEvalAll => exact hbeside rfl rfl
  | pauseAsap limit => exact hbeside rfl rfl
  | save force => exact (savePortList_moved hs force _).lasts.inherits
  | setValue key v => exact (withPort_lasts fun p hp => setValue_lasts hs hp v).inherits
  | writeValue key v => exact (withPort_lasts fun p hp => writeValue_lasts hs hp v).inherits
  | enqueueValue key v =>
    exact (withPort_lasts fun p hp =>
      withTicket_lasts hp fun t => enqueueWrite_lasting p v t).inherits
  | await t => exact (awaitResult_moved hs t).lasts.inherits
  | readValue key => exact (readValue_moved hs key).lasts.inherits
  | setSequence key s => exact (withPort_lasts fun p hp => setSequence_lasts hp s).inherits
  | run t => exact (runReadyTask_worked hs t).lasts.inherits
  | elapse time => exact hbeside rfl rfl
  | wall time => exact hbeside rfl rfl
  | device key value failReads failures =>
    exact (withPort_lasts fun p hp =>
      .putPort (q := { p with device := p.device.change value failReads failures }) hp
        (.of_eq rfl rfl rfl)).inherits
  | storage b => exact hbeside rfl rfl

theorem perform_extends (hs : n.services = []) {op : Operation} (hadd : op.isAddition = true) :
    Extends n (n.perform op) := by
  cases op with
  | load configs mappings => exact load_extends hs configs mappings
  | add id device => exact add_extends hs id device false []
  | addVirtual d => exact addVirtual_extends hs d
  | _ => cases hadd

/-- Between ticks a port that has a value had it before, or has just been added. One that keeps
its value is not disabled. -/
theorem perform_lasting (h : Sound n) {op : Operation} (hno : op.isTick = false) {key : PortKey}
    {q : Port} {w : Value} (hq : (n.perform op).Registered key q) (hw : q.lastRead = some w) :
    (op.isAddition = true ∧ ∀ p, ¬n.Registered key p) ∨
      ∃ p, n.Registered key p ∧ p.lastRead = some w ∧ (p.enabled = true → q.enabled = true) := by
  cases hadd : op.isAddition with
  | true =>
    rcases (perform_extends h.services hadd).inherits_or_new hq hw with hnew | hkept
    · exact .inl ⟨rfl, hnew⟩
    · exact .inr hkept
  | false => exact .inr (perform_inherits h hno hadd key q w hq hw)

end Node

end ControlNode
