import ControlNode.Proofs.Node.Saving
import ControlNode.Proofs.Port.Contacts

/-!
# Changes of nodes

Whatever is done to a node is a row of changes (`after_changes`): ports have been in contact with
what lies around them, an event is announced, or a port is registered. What comes into a port
comes from its device, from the values of the ports, or from callers who queue it as it is.
-/

namespace ControlNode

/-! ### New devices -/

theorem MemoryDevice.ofSettings_written {s : Settings} {d : MemoryDevice}
    (h : ofSettings s = .ok d) : d.written = [] := by
  unfold ofSettings at h
  dsimp only at h
  repeat' split at h
  all_goals cases h
  all_goals rfl

theorem SoftwareDevice.ofSettings_value {s : Settings} {d : SoftwareDevice}
    (h : ofSettings s = .ok d) : d.value = none := by
  unfold ofSettings at h
  split at h
  · cases h
    rfl
  · cases h

theorem Device.builtIn_record {name : String} {s : Settings} {d : Device}
    (h : builtIn.build name s = .ok d) : d.record = [] := by
  unfold Registry.build at h
  split at h
  · cases h
  · rename_i make hmake
    split at h
    · rename_i hd
      cases h
      rcases List.mem_cons.mp (Dict.mem_of_get? hmake) with hmemory | hrest
      · cases hmemory
        cases hm : MemoryDevice.ofSettings s with
        | error => simp [hm, Except.map] at hd
        | ok m =>
          obtain rfl : Device.memory m = d := by simpa [hm, Except.map] using hd
          exact MemoryDevice.ofSettings_written hm
      · cases List.mem_singleton.mp hrest
        cases hm : SoftwareDevice.ofSettings s with
        | error => simp [hm, Except.map] at hd
        | ok m =>
          obtain rfl : Device.software m = d := by simpa [hm, Except.map] using hd
          simp [record, SoftwareDevice.ofSettings_value hm]
    · cases h

namespace Port

/-- What the port reads from its device, in some state of both. -/
def CanRead (p : Port) (v : Value) : Prop :=
  ∃ q now, q.type = p.type ∧ (readValue q now).1 = .ok v

theorem CanRead.hasType {p : Port} {v : Value} (h : p.CanRead v) : Domain.HasType p.type v := by
  obtain ⟨q, now, htype, hread⟩ := h
  exact htype ▸ readValue_hasType hread

end Port

namespace Node

open Relation Port

variable {n m k : Node} {key : PortKey} {p q : Port}

/-! ### What a change is -/

/-- What callers bring into a node: values that they queue as they are, and devices of ports that
they add by id. -/
structure Brought where
  values : WriteRequest → Prop
  devices : String → Device → Prop

/-- What a port starts with is a new device, or one that a caller has brought. -/
def Brought.Provides (brought : Brought) (id : String) (d : Device) : Prop :=
  d.record = [] ∨ brought.devices id d

variable {brought : Brought}

/-- Where a contact of a port comes from: a reading of its device, the values of the ports, or a
caller who queues a value as it is. -/
def Source (brought : Brought) (n : Node) (p : Port) : Contact → Prop
  | .handed .. => True
  | .taken v => p.CanRead v
  | .called c => ∃ keys now, c = .ofValues (n.snapshot keys) now
  | .queued r => brought.values r

/-- A port after contacts that come from the node. -/
def Supplies (brought : Brought) (n : Node) (p q : Port) : Prop :=
  ∃ log, Lives p log q ∧ ∀ c ∈ log, n.Source brought p c

/-- A change of a value is announced with a value that its port has and one that it can read. -/
def Warrants (n : Node) (e : Event) : Prop :=
  e.type = "Port/ValueChange" → ∃ key p v, n.portOf? key = some p ∧ p.CanRead v ∧
    e = .valueChange key.id p.lastRead v

/-- A step that a node can take. -/
inductive Change (brought : Brought) (n : Node) : Node → Prop
  | ports {m : Node}
      (hports : ∀ key, Option.Rel (n.Supplies brought) (n.portOf? key) (m.portOf? key))
      (hevents : m.events = n.events) (hserv : m.services = n.services)
      (hserial : n.nextSerial ≤ m.nextSerial) : Change brought n m
  | announce {e : Event} (he : n.Warrants e) : Change brought n { n with events := e :: n.events }
  | register {p : Port} {device : Device} {isVirtual : Bool} {capacity : Nat}
      {zone : Zone} (hdevice : brought.Provides p.id device)
      (h : Alone (.create p.key device isVirtual capacity zone) p) (hid : n.port? p.id = none)
      (hfree : n.portOf? p.key = none) (hserial : p.key.serial < n.nextSerial) :
      Change brought n { n with ports := Dict.insert n.ports p.id p }

abbrev Changes (brought : Brought) : Node → Node → Prop := ReflTransGen (Change brought)

/-- The serial numbers of all ports, registered or gone, have been given out. -/
def Counted (n : Node) : Prop := ∀ key p, n.portOf? key = some p → key.serial < n.nextSerial

theorem Change.services (h : Change brought n m) : m.services = n.services := by
  cases h with
  | ports _ _ hserv _ => exact hserv
  | announce | register => rfl

theorem Changes.trans (h : Changes brought n m) (h' : Changes brought m k) : Changes brought n k :=
  ReflTransGen.trans h h'

theorem Changes.services (h : Changes brought n m) : m.services = n.services := by
  induction h with
  | refl => rfl
  | tail _ hstep ih => exact hstep.services.trans ih

theorem portOf?_insert (hid : n.port? p.id = none) (key : PortKey) :
    { n with ports := Dict.insert n.ports p.id p }.portOf? key =
      if p.key = key then some p else n.portOf? key := by
  unfold portOf? port? at *
  simp only [Dict.get?_insert]
  by_cases hsame : p.id = key.id
  · rw [if_pos hsame, ← hsame, hid]
  · have hne : ¬p.key = key := fun h => hsame (congrArg PortKey.id h)
    rw [if_neg hsame, if_neg hne]

theorem Change.counted (h : Change brought n m) (hn : n.Counted) : m.Counted := by
  intro key q hq
  cases h with
  | ports hports _ _ hserial =>
    have hkey := hports key
    rw [hq] at hkey
    cases hp : n.portOf? key with
    | none =>
      rw [hp] at hkey
      cases hkey
    | some p => exact (hn key p hp).trans_le hserial
  | announce => exact hn key q hq
  | register _ _ hid _ hserial =>
    rw [portOf?_insert hid] at hq
    split at hq
    · rename_i hkey
      exact hkey ▸ hserial
    · exact hn key q hq

theorem Changes.counted (h : Changes brought n m) (hn : n.Counted) : m.Counted := by
  induction h with
  | refl => exact hn
  | tail _ hstep ih => exact hstep.counted ih

theorem counted_create (config : NodeConfig) (backend : Backend) (wall : Int) (zone : Zone) :
    (create config backend wall zone).Counted := by
  intro key p hp
  have hnone : none = some p := hp
  cases hnone

/-! ### Changes of ports -/

theorem source_of_isHandover {c : Contact} (h : c.isHandover = true) : n.Source brought p c := by
  cases c with
  | handed v t => trivial
  | _ => cases h

theorem Supplies.of_alone (h : Alone p q) : n.Supplies brought p q := by
  obtain ⟨log, hlives, hout⟩ := h
  exact ⟨log, hlives, fun c hc => source_of_isHandover (hout c hc)⟩

theorem Supplies.of_step {c : Contact} (h : Step p [c] q) (hc : n.Source brought p c) :
    n.Supplies brought p q :=
  ⟨[c], .single h, List.forall_mem_singleton.mpr hc⟩

/-- What is looked after later makes no difference. -/
theorem Supplies.upkeep {r : Port} (h : n.Supplies brought p q) (hkept : Upkeep q r) :
    n.Supplies brought p r := by
  obtain ⟨log, hlives, hlog⟩ := h
  refine ⟨log ++ [], hlives.tail (.upkeep hkept), ?_⟩
  rwa [List.append_nil]

namespace Changes

theorem of_portOf? (hports : ∀ key, m.portOf? key = n.portOf? key) (hevents : m.events = n.events)
    (hserv : m.services = n.services) (hserial : n.nextSerial ≤ m.nextSerial) :
    Changes brought n m := by
  refine .single (.ports (fun key => ?_) hevents hserv hserial)
  rw [hports]
  cases n.portOf? key with
  | none => exact .none
  | some p => exact .some (.of_alone (.refl p))

/-- Everything but ports and events may change by itself. -/
theorem beside (hports : m.ports = n.ports) (hgone : m.gone = n.gone)
    (hevents : m.events = n.events) (hserv : m.services = n.services)
    (hserial : n.nextSerial ≤ m.nextSerial) : Changes brought n m := by
  refine of_portOf? (fun key => ?_) hevents hserv hserial
  simp only [portOf?, port?, hports, hgone]

theorem of_portsRel {R : Port → Port → Prop} (h : PortsRel R n m)
    (hR : ∀ p q, R p q → n.Supplies brought p q) (hevents : m.events = n.events)
    (hserv : m.services = n.services) (hserial : n.nextSerial ≤ m.nextSerial) :
    Changes brought n m :=
  .single (.ports (h.mono hR).ports hevents hserv hserial)

theorem putPort (hp : n.portOf? key = some p) (h : n.Supplies brought p q) :
    Changes brought n (n.putPort q) := by
  have hkey : q.key = key := by
    obtain ⟨log, hlives, -⟩ := h
    exact hlives.follows.key.trans (key_of_portOf? hp)
  have hports : PortsRel (n.Supplies brought) n (n.putPort q) := by
    refine .putPort (fun r _ => .of_alone (.refl r)) ?_
    intro r hr
    rw [hkey, hp] at hr
    cases hr
    exact h
  refine of_portsRel hports (fun _ _ hpq => hpq) ?_ ?_ ?_
  all_goals rw [putPort_frame]

theorem putAlone (hp : n.portOf? key = some p) (h : Alone p q) : Changes brought n (n.putPort q) :=
  putPort hp (.of_alone h)

theorem putSilent (hp : n.portOf? key = some p) (h : Step p [] q) :
    Changes brought n (n.putPort q) :=
  putAlone hp (.of_silent h)

end Changes

theorem Moved.changes (h : Moved n m) : Changes brought n m := by
  refine .of_portsRel h.ports (fun p q hpq => .of_alone hpq.alone) ?_ h.services ?_
  all_goals rw [h.rest]

theorem Worked.changes (h : Worked n m) : Changes brought n m := h.moved.changes

theorem Tended.changes (h : Tended n m) : Changes brought n m := h.moved.changes

theorem foldl_changes {α : Type} {f : Node → α → Node} (hs : n.services = [])
    (hf : ∀ m a, m.services = [] → Changes brought m (f m a)) (as : List α) :
    Changes brought n (as.foldl f n) := by
  induction as generalizing n with
  | nil => exact .refl
  | cons a as ih =>
    have hstep := hf n a hs
    exact hstep.trans (ih (hstep.services.trans hs))

theorem forceEval_changes (n : Node) (id : String) : Changes brought n (n.forceEval id) := by
  rw [forceEval_frame]
  exact .beside rfl rfl rfl rfl (Nat.le_refl _)

theorem warrants_of_type {e : Event} (h : e.type ≠ "Port/ValueChange") : n.Warrants e :=
  fun htype => absurd htype h

theorem publish_changes (hs : n.services = []) {e : Event} (he : n.Warrants e) :
    Changes brought n (n.publish e) := by
  rw [publish_eq hs]
  exact .single (.announce he)

theorem accessAwait_moved {α : Type} (hs : n.services = []) (writes : Bool)
    (op : Backend.Outcome α) : Moved n (n.access writes op).2.awaitStorage := by
  have haccess : Moved n (n.access writes op).2 := (access_tended writes op).moved
  exact haccess.trans (awaitStorage_worked (haccess.services.trans hs)).moved

/-! ### Calls -/

theorem withPort_changes {f : Port → Node}
    (h : ∀ p, n.portOf? key = some p → Changes brought n (f p)) :
    Changes brought n (n.withPort key f) :=
  withPort_induction .refl h

theorem withTicket_changes (hp : n.portOf? key = some p)
    {f : Ticket → Except PortError (List Signal) × Port}
    (hf : n.Supplies brought p (f n.nextTicket).2) :
    Changes brought n (n.withTicket f).2 := by
  have hcount : Changes brought n { n with nextTicket := n.nextTicket + 1 } :=
    .beside rfl rfl rfl rfl (Nat.le_refl _)
  have hput : Changes brought { n with nextTicket := n.nextTicket + 1 }
      ({ n with nextTicket := n.nextTicket + 1 }.putPort (f n.nextTicket).2) := .putPort hp hf
  exact (hcount.trans hput).trans (withTicket_signals f).changes

theorem writeValue_changes (hs : n.services = []) (hp : n.portOf? key = some p) (v : Value) :
    Changes brought n (n.writeValue p v).2 := by
  have hsubmit : Changes brought n (n.withTicket fun t => p.submit v t n.wall).2 :=
    withTicket_changes hp (.of_alone (.of_silent (.submit v _ _)))
  exact hsubmit.trans (writeValue_moved hs p v).changes

theorem setValue_changes (hs : n.services = []) (hp : n.portOf? key = some p) (v : Value) :
    Changes brought n (n.setValue p v).2 := by
  unfold setValue
  split
  · exact .refl
  · exact writeValue_changes hs hp v

theorem enqueueValue_changes (hp : n.portOf? key = some p) {v : Value}
    (hvalue : brought.values ⟨v, n.nextTicket⟩) : Changes brought n (n.enqueueValue p v).2 :=
  withTicket_changes hp (.of_step (.enqueueWrite v n.nextTicket) hvalue)

theorem setSequence_changes (hp : n.portOf? key = some p) (s : Option Sequence) :
    Changes brought n (n.setSequence p s).2 := by
  have hput : Changes brought n (n.putPort (p.setSequence s).2) := .putAlone hp (.setSequence p s)
  unfold Node.setSequence
  dsimp only
  split
  · exact hput.trans (.beside rfl rfl rfl rfl (Nat.le_refl _))
  · exact hput

theorem change_kept (d : Device) (value : Option Value) (failReads : Bool)
    (failures : List (DeviceCall × PortError)) : d.Kept (d.change value failReads failures) := by
  cases d <;> exact ⟨rfl, rfl⟩

/-! ### Attributes -/

theorem publishUpdate_changes (hs : n.services = []) (hp : n.portOf? p.key = some p) :
    Changes brought n (n.publishUpdate p) := by
  have hput : Changes brought n (n.putPort p.attrsJson.2) :=
    .putSilent hp (.upkeep p.attrsJson_upkeep)
  exact hput.trans (publish_changes (hput.services.trans hs)
    (warrants_of_type (by simp [Event.portUpdate])))

theorem setAttr_changes (h : Sound n) (id name : String) (value : Json) :
    Changes brought n (n.setAttr id name value).2 := by
  unfold Node.setAttr
  split
  · exact .refl
  · rename_i p hp
    have hid := h.filed.ids id p hp
    have hkey := (setAttr_switched p n.graph name value).key
    have hput : Changes brought n (n.putPort (p.setAttr n.graph name value).port) :=
      .putSilent (portOf?_of_port? hp hid) (.setAttr n.graph name value)
    have hserv := hput.services.trans h.services
    have hself : (n.putPort (p.setAttr n.graph name value).port).portOf?
        (p.setAttr n.graph name value).port.key = some (p.setAttr n.graph name value).port := by
      refine portOf?_of_port? ?_ rfl
      rw [port?_putPort (by rw [hid]; exact hp) hkey, if_pos rfl]
    dsimp only
    split
    · exact hput
    · refine hput.trans ?_
      split
      · have hforce : Changes brought (n.putPort (p.setAttr n.graph name value).port) _ :=
          forceEval_changes _ id
        refine hforce.trans (publishUpdate_changes (hforce.services.trans hserv) ?_)
        rw [forceEval_frame]
        exact hself
      · exact publishUpdate_changes hserv hself

theorem loadAttrs_changes (n : Node) (p : Port) (r : Record) :
    Changes brought n (n.loadAttrs p r).2 := by
  unfold Node.loadAttrs
  dsimp only
  split
  · exact forceEval_changes ..
  · exact .refl

theorem reloadAttrs_changes (h : Sound n) (id : String) (r : Record) :
    Changes brought n (n.reloadAttrs id r) := by
  unfold reloadAttrs
  split
  · exact .refl
  · rename_i p hp
    have hid := h.filed.ids id p hp
    have hport : (n.loadAttrs p r).2.portOf? p.key = some p := by
      refine portOf?_of_port? ?_ rfl
      unfold Node.loadAttrs
      dsimp only
      split
      · rw [forceEval_frame, hid]
        exact hp
      · rw [hid]
        exact hp
    exact (loadAttrs_changes n p r).trans (.putSilent hport (.loadAttrs n.graph r))

/-! ### Adding -/

theorem register_changes (hs : n.services = []) {device : Device} {isVirtual : Bool}
    {capacity : Nat} {zone : Zone} (hdevice : brought.Provides p.id device)
    (h : Alone (.create p.key device isVirtual capacity zone) p) (hid : n.port? p.id = none)
    (hfree : n.portOf? p.key = none)
    (hserial : p.key.serial < n.nextSerial) : Changes brought n (n.register p).2 := by
  have hkey : p.attrsJson.2.key = p.key := p.attrsJson_upkeep.setup.key
  have hfiled : Changes brought n
      { n with ports := Dict.insert n.ports p.attrsJson.2.id p.attrsJson.2 } := by
    refine .single
      (@Change.register brought n p.attrsJson.2 device isVirtual capacity zone ?_ ?_ ?_ ?_ ?_)
    · rwa [Port.id, hkey]
    · rw [hkey]
      exact h.trans (.of_silent (.upkeep p.attrsJson_upkeep))
    · rwa [Port.id, hkey]
    · rwa [hkey]
    · rwa [hkey]
  have hforce := hfiled.trans (forceEval_changes _ p.attrsJson.2.id)
  exact hforce.trans (publish_changes (hforce.services.trans hs)
    (warrants_of_type (by simp [Event.portAdd])))

theorem restoreValue_moved (hs : n.services = []) (p : Port) (v : Value) :
    Moved n (n.restoreValue p v).2 := by
  unfold restoreValue
  dsimp only
  split
  · exact (advance_worked hs _).moved
  · exact .refl n

theorem startWorkers_changes (n : Node) (key : PortKey) :
    Changes brought n (n.startWorkers key) := by
  unfold startWorkers
  dsimp only
  split
  · exact .refl
  · exact .beside rfl rfl rfl rfl (Nat.le_refl _)

/-- A new port is in contact with nothing but its device until it is registered. -/
theorem prepare_changes (hs : n.services = []) (id : String) (device : Device) (isVirtual : Bool)
    (defaults : Record) :
    Alone (.create ⟨id, n.nextSerial⟩ device isVirtual n.config.queueCapacity n.zone)
        (n.prepare id device isVirtual defaults).1 ∧
      Changes brought n (n.prepare id device isVirtual defaults).2 := by
  refine prepare_induction (motive := fun p m =>
    Alone (.create ⟨id, n.nextSerial⟩ device isVirtual n.config.queueCapacity n.zone) p ∧
      Changes brought n m) ?_ ?_ ?_ ?_
  · exact ⟨.refl _, .beside rfl rfl rfl rfl (Nat.le_succ _)⟩
  · rintro p m r ⟨hp, hm⟩
    exact ⟨hp.trans (.of_silent (.loadAttrs m.graph r)), hm.trans (loadAttrs_changes m p r)⟩
  · rintro p m ⟨hp, hm⟩
    exact ⟨hp, hm.trans (accessAwait_moved (hm.services.trans hs) false _).changes⟩
  · rintro p m v ⟨hp, hm⟩
    exact ⟨hp.trans (.restore p v),
      hm.trans (restoreValue_moved (hm.services.trans hs) p v).changes⟩

theorem add_changes (hs : n.services = []) (hn : n.Counted) (id : String) (device : Device)
    (hdevice : brought.Provides id device) (isVirtual : Bool) (defaults : Record) :
    Changes brought n (n.add id device isVirtual defaults).2 := by
  cases hfault : n.idFault? id with
  | some fault => rw [add_of_fault hfault]
  | none =>
    obtain ⟨hkey, hmarks⟩ := prepare_marks hs id device isVirtual defaults
    obtain ⟨halone, hprepared⟩ := @prepare_changes n brought hs id device isVirtual defaults
    have hadd := @add_of_no_fault _ id device isVirtual defaults hfault
    obtain ⟨prepared, hdef⟩ : ∃ r, r = n.prepare id device isVirtual defaults := ⟨_, rfl⟩
    rw [← hdef] at hkey hmarks halone hprepared hadd
    -- the serial number is a new one
    have hfree : prepared.2.portOf? prepared.1.key = none := by
      have hrel := hmarks.ports.ports prepared.1.key
      cases hold : { n with nextSerial := n.nextSerial + 1 }.portOf? prepared.1.key with
      | none =>
        rw [hold] at hrel
        generalize prepared.2.portOf? prepared.1.key = found at hrel ⊢
        cases hrel
        rfl
      | some p =>
        have hlt := hn _ p hold
        rw [hkey] at hlt
        exact absurd hlt (Nat.lt_irrefl _)
    have hid : prepared.2.port? prepared.1.id = none := by
      rw [Port.id, hkey]
      exact hmarks.ports.port?_eq_none (port?_of_idFault? hfault)
    have hserial : prepared.1.key.serial < prepared.2.nextSerial := by
      rw [hkey, hmarks.nextSerial]
      exact Nat.lt_succ_self _
    rw [hadd]
    have hregister : Changes brought prepared.2 (prepared.2.register prepared.1).2 :=
      register_changes (hprepared.services.trans hs) (by rwa [Port.id, hkey]) (hkey ▸ halone) hid
        hfree hserial
    exact (hprepared.trans hregister).trans (startWorkers_changes ..)

theorem addVirtual_changes (hs : n.services = []) (hn : n.Counted) (d : VirtualPortDef) :
    Changes brought n (n.addVirtual d).2 := by
  have hadd : Changes brought n (n.addDefined d).2 :=
    add_changes hs hn d.id d.device (.inl rfl) true d.attrs
  unfold addVirtual
  split
  · rename_i e m hm
    rw [hm] at hadd
    exact hadd
  · rename_i attrs m hm
    rw [hm] at hadd
    have hall := hadd.trans (accessAwait_moved (hadd.services.trans hs) true
      (m.backend.replace definitionsCollection d.id d.toRecord)).changes
    split
    · rename_i r k hk
      rw [hk] at hall
      exact hall
    · rename_i e k hk
      rw [hk] at hall
      exact hall

theorem loadEach_changes {α : Type} {add : Node → α → Option NodeError × Node}
    (hadd : ∀ n a, n.services = [] → n.Counted → Changes brought n (add n a).2)
    (hs : n.services = []) (hn : n.Counted) (as : List α) :
    Changes brought n (loadEach add n as).2 := by
  induction as generalizing n with
  | nil => exact .refl
  | cons a as ih =>
    have hstep := hadd n a hs hn
    exact hstep.trans (ih (hstep.services.trans hs) (hstep.counted hn))

theorem buildDevice_record {c : PortConfig} {id : String} {d : Device}
    (h : buildDevice c id = .ok d) : d.record = [] := by
  unfold buildDevice at h
  split at h
  · rename_i hbuild
    cases h
    exact Device.builtIn_record hbuild
  · cases h
  · cases h

theorem loadPort_changes (mappings : Dict String String) (hs : n.services = []) (hn : n.Counted)
    (c : PortConfig) : Changes brought n (loadPort mappings n c).2 := by
  unfold loadPort
  split
  · exact .refl
  · split
    · exact .refl
    · rename_i id _ _ device hdevice
      have hadd : Changes brought n (n.add id device).2 :=
        add_changes hs hn id device (.inl (buildDevice_record hdevice)) false []
      split
      · rename_i hm
        rwa [hm] at hadd
      · rename_i hm
        rwa [hm] at hadd

theorem loadDefined_changes (hs : n.services = []) (hn : n.Counted) (r : Record) :
    Changes brought n (loadDefined n r).2 := by
  rcases loadDefined_eq n r with hsame | ⟨d, hadd⟩
  · rw [hsame]
  · rw [hadd]
    exact add_changes hs hn d.id d.device (.inl rfl) true d.attrs

theorem load_changes (hs : n.services = []) (hn : n.Counted) (configs : List PortConfig)
    (mappings : Dict String String) : Changes brought n (n.load configs mappings).2 := by
  have hfirst := accessAwait_moved hs false n.backend.ensureIndex
  have hsecond : Changes brought n _ :=
    (hfirst.trans (accessAwait_moved (hfirst.services.trans hs) false
    (n.access false n.backend.ensureIndex).2.awaitStorage.backend.ensureIndex)).changes
  have hports := hsecond.trans (loadEach_changes
    (fun _ c hk hc => loadPort_changes mappings hk hc c) (hsecond.services.trans hs)
    (hsecond.counted hn) configs)
  unfold load
  dsimp only
  generalize loadEach (loadPort mappings) _ configs = loaded at hports
  obtain ⟨errors, k⟩ := loaded
  have hstored := hports.trans (accessAwait_moved (hports.services.trans hs) false
    (k.backend.query definitionsCollection {}, k.backend)).changes
  exact hstored.trans (loadEach_changes (fun _ r hk hc => loadDefined_changes hk hc r)
    (hstored.services.trans hs) (hstored.counted hn) _)

/-! ### Removing -/

theorem haltPort_changes (n : Node) (key : PortKey) : Changes brought n (n.haltPort key) := by
  unfold haltPort
  split
  · exact .refl
  · rename_i p hp
    have hput : Changes brought n (n.putPort p.halt.2) := .putSilent hp .halt
    have hall := hput.trans (emitAll_worked key p.halt.1).changes
    exact hall.trans (.beside rfl rfl rfl rfl (Nat.le_refl _))

theorem stopPorts_changes (hs : n.services = []) (keys : List PortKey) :
    Changes brought n (n.stopPorts keys) := by
  have hhalt : Changes brought n (keys.foldl haltPort n) :=
    foldl_changes hs (fun m key _ => haltPort_changes m key) keys
  have hwait := hhalt.trans (waitFor_worked (hhalt.services.trans hs)
    fun n => keys.all n.workersEnded).changes
  refine hwait.trans (foldl_changes (hwait.services.trans hs) (fun m key _ => ?_) keys)
  split
  · exact .refl
  · rename_i p hp
    exact .putSilent hp .clearPending

theorem thenAccess_moved {r : Except PersistError Unit × Node} (hs : r.2.services = [])
    (op : Node → Backend.Outcome Nat) : Moved r.2 (thenAccess r op).2 := by
  unfold thenAccess
  split
  · exact .refl _
  · rename_i k
    exact accessAwait_moved hs _ (op k)

theorem purge_moved (hs : n.services = []) (p : Port) : Moved n (n.purge p).2 := by
  have hrecord := thenAccess_moved (r := (.ok (), n)) hs
    fun n => n.backend.remove portsCollection [("id", .str p.id)]
  unfold purge
  dsimp only
  generalize thenAccess (.ok (), n) (fun n =>
    n.backend.remove portsCollection [("id", .str p.id)]) = r at hrecord
  have hdefinition : Moved n (if p.isVirtual then
      thenAccess r fun n => n.backend.remove definitionsCollection [("id", .str p.id)]
      else r).2 := by
    split
    · exact hrecord.trans (thenAccess_moved (hrecord.services.trans hs) _)
    · exact hrecord
  split
  · exact hdefinition.trans (thenAccess_moved (hdefinition.services.trans hs) _)
  · exact hdefinition

/-- A port that is not registered any more is still there for those who hold on to it. -/
theorem portOf?_unregister (hp : n.port? p.id = some p) (key : PortKey) :
    (n.unregister p).portOf? key = n.portOf? key := by
  unfold portOf? port? unregister at *
  simp only [Dict.get?_erase, List.find?_cons]
  by_cases hid : p.id = key.id
  · rw [if_pos hid, ← hid, hp]
    by_cases hkey : p.key = key
    · simp [hkey]
    · simp [hkey]
  · have hkey : ¬p.key = key := fun h => hid (congrArg PortKey.id h)
    simp [hid, hkey]

theorem remove_changes (h : Sound n) (id : String) (purged : Bool) :
    Changes brought n (n.remove id purged).2 := by
  unfold remove
  split
  · exact .refl
  · rename_i p hp
    have hid := h.filed.ids id p hp
    have hout : Changes brought n (n.unregister p) :=
      .of_portOf? (portOf?_unregister (by rw [hid]; exact hp)) rfl rfl (Nat.le_refl _)
    have hstop := hout.trans (stopPorts_changes (hout.services.trans h.services) [p.key])
    dsimp only
    obtain ⟨k, hk⟩ : ∃ k, k = { (n.unregister p).stopPorts [p.key] with
      backoff := ((n.unregister p).stopPorts [p.key]).backoff.erase id
      forced := ((n.unregister p).stopPorts [p.key]).forced.filter (· ≠ id) } := ⟨_, rfl⟩
    have hcleared : Changes brought n k :=
      hstop.trans (hk ▸ .beside rfl rfl rfl rfl (Nat.le_refl _))
    have hpurged : Changes brought n (if purged then k.purge p else (.ok (), k)).2 := by
      split
      · exact hcleared.trans (purge_moved (hcleared.services.trans h.services) p).changes
      · exact hcleared
    rw [← hk]
    split
    · exact hpurged
    · exact hpurged.trans (publish_changes (hpurged.services.trans h.services)
        (warrants_of_type (by simp [Event.portRemove])))

theorem port?_of_mem_values (hf : Filed n) (hq : q ∈ Dict.values n.ports) :
    n.port? q.key.id = some q := by
  obtain ⟨⟨id, q⟩, he, rfl⟩ := List.mem_map.mp hq
  have hport : n.port? id = some q := Dict.get?_of_mem hf.sorted he
  rwa [show q.key.id = id from hf.ids id q hport]

theorem find?_values (hf : Filed n) (key : PortKey) :
    ((Dict.values n.ports).find? fun q => q.key = key) =
      (n.port? key.id).filter fun q => q.key = key := by
  cases hfind : (Dict.values n.ports).find? fun q => q.key = key with
  | some q =>
    have hkey : q.key = key := by simpa using List.find?_some hfind
    have hport := port?_of_mem_values hf (List.mem_of_find?_eq_some hfind)
    rw [hkey] at hport
    simp [hport, Option.filter, hkey]
  | none =>
    refine (Option.filter_eq_none_iff.mpr fun q hq => ?_).symm
    have hmem : q ∈ Dict.values n.ports := List.mem_map_of_mem (Dict.mem_of_get? hq)
    exact List.find?_eq_none.mp hfind q hmem

theorem portOf?_archive (hf : Filed n) (key : PortKey) :
    { n with ports := [], gone := Dict.values n.ports ++ n.gone }.portOf? key = n.portOf? key := by
  change (Dict.values n.ports ++ n.gone).find? (fun q => q.key = key) = n.portOf? key
  rw [List.find?_append, find?_values hf]
  unfold portOf?
  cases n.port? key.id with
  | none => rfl
  | some p =>
    by_cases hkey : p.key = key
    · simp [Option.filter, hkey]
    · simp [Option.filter, hkey]

theorem cleanup_changes (h : Sound n) : Changes brought n n.cleanup := by
  have hsave : Moved n (n.savePorts true awaitStorage).2 := savePortList_moved h.services true _
  unfold cleanup
  dsimp only
  obtain ⟨k, hk⟩ : ∃ k, k = (n.savePorts true awaitStorage).2 := ⟨_, rfl⟩
  rw [← hk] at hsave ⊢
  have harchive : Changes brought k { k with ports := [], gone := Dict.values k.ports ++ k.gone } :=
    .of_portOf? (portOf?_archive (h.filed.of_portsRel hsave.ports)) rfl rfl (Nat.le_refl _)
  have hput := hsave.changes.trans harchive
  exact hput.trans (stopPorts_changes (hput.services.trans h.services) _)

/-! ### Ticks -/

theorem publish_putPort (hs : n.services = []) (q : Port) (e : Event) :
    (n.putPort q).publish e = { n with events := e :: n.events }.putPort q := by
  rw [publish_eq (by rw [putPort_frame]; exact hs)]
  unfold putPort port?
  split <;> rfl

theorem takeValue_changes (hs : n.services = []) {v : Value} (now : Int)
    (hv : ∀ p, n.portOf? key = some p → p.CanRead v) :
    Changes brought n (n.takeValue key v now).2 := by
  cases hp : n.portOf? key with
  | none =>
    rw [takeValue_of_none hp]
  | some p =>
    have htaken : n.Supplies brought p { p with lastRead := some v } := .of_step (.take v) (hv p hp)
    cases hsame : Value.sameOption p.lastRead (some v) with
    | true =>
      rw [takeValue_of_same hp hsame]
      exact .putPort hp htaken
    | false =>
      have hkept : n.Supplies brought p (renewed p v) := htaken.upkeep ⟨rfl, .same _, rfl⟩
      have hsent : Changes brought n (n.announcing p v) := by
        unfold announcing
        split
        · exact .putPort hp hkept
        -- the announcement is of the value that the port still has
        · rw [publish_putPort hs]
          have hannounced : Changes brought n
              { n with events := .valueChange p.id p.lastRead v :: n.events } :=
            .single (.announce fun _ =>
              ⟨key, p, v, hp, hv p hp, by rw [Port.id, key_of_portOf? hp]⟩)
          exact hannounced.trans (.putPort hp hkept)
      rw [takeValue_of_new hp hsame]
      dsimp only
      split
      · exact hsent.trans (saveHistory_tended key v now).changes
      · exact hsent

theorem takeRead_changes (hs : n.services = []) (now : Int) {r : Except PortError Value}
    (hr : ∀ v p, r = .ok v → n.portOf? key = some p → p.CanRead v) :
    Changes brought n (takeRead now n key r).2 := by
  unfold takeRead
  split
  · rename_i v
    exact takeValue_changes hs now fun p hp => hr v p rfl hp
  · exact .refl
  · exact .beside rfl rfl rfl rfl (Nat.le_refl _)

theorem Taken.type {reads : Reads} (h : Taken reads p q) : q.type = p.type := by
  by_cases hread : ∃ v, (p.key, some (.ok v)) ∈ reads
  · obtain ⟨v, hv⟩ := hread
    exact (h.read v hv).setup.type
  · exact (h.unread fun v hv => hread ⟨v, hv⟩).setup.type

theorem takeReads_changes (hs : n.services = []) (now : Int) {reads : Reads}
    (hreads : ∀ key v p, (key, some (.ok v)) ∈ reads → n.portOf? key = some p → p.CanRead v) :
    Changes brought n (takeReads now n reads).2 := by
  induction reads generalizing n with
  | nil => exact .refl
  | cons e rest ih =>
    obtain ⟨key, r⟩ := e
    have hrest : ∀ key v p, (key, some (.ok v)) ∈ rest → n.portOf? key = some p → p.CanRead v :=
      fun key v p hmem => hreads key v p (List.mem_cons_of_mem _ hmem)
    cases r with
    | none => exact ih hs hrest
    | some r =>
      have htook := takeRead_tookOver hs key r now
      have hfirst : Changes brought n (takeRead now n key r).2 :=
        takeRead_changes hs now fun v p hv hp =>
        hreads key v p (hv ▸ List.mem_cons_self ..) hp
      refine hfirst.trans (ih (hfirst.services.trans hs) fun other v q hmem hq => ?_)
      have hports := htook.ports.ports other
      rw [hq] at hports
      cases hp : n.portOf? other with
      | none =>
        rw [hp] at hports
        cases hports
      | some p =>
        rw [hp] at hports
        cases hports with
        | some hpq =>
          obtain ⟨s, time, htype, hread⟩ := hrest other v p hmem hp
          exact ⟨s, time, htype.trans hpq.type.symm, hread⟩

theorem dispatch_changes {t : Tick} (hnodup : t.enabled.Nodup) (ids : List String) :
    Changes brought n (n.dispatch t ids) := by
  have hsent := dispatch_called (n := n) hnodup ids
  have hports : PortsRel (fun p q => q = if p.key ∈ t.enabled then (n.callOf t ids).answer p else p)
      n (n.dispatch t ids) := ⟨hsent.ports.keys, hsent.ports.ports, hsent.ports.sorted⟩
  refine .of_portsRel hports (fun p q hq => ?_) ?_ ?_ ?_
  · have hrefl : n.Supplies brought p p := .of_alone (.refl p)
    rw [hq]
    split
    · unfold Call.answer
      split
      · exact .of_step (.enqueueEval _) ⟨t.enabled, t.now, rfl⟩
      · exact hrefl
    · exact hrefl
  all_goals rw [hsent.rest]

theorem update_changes (h : Sound n) (now : Int) : Changes brought n (n.update now) := by
  obtain ⟨t, hof, hin⟩ := readsIn_moved h.filed h.services now
  have hnoted : Changes brought n (n.noting t) := .beside rfl rfl rfl rfl (Nat.le_refl _)
  have hread := hnoted.trans hin.changes
  have hserv := hread.services.trans h.services
  have hreadings : ∀ key v r, (key, some (.ok v)) ∈ t.reads →
      (n.readsIn now).portOf? key = some r → r.CanRead v := by
    intro key v r hmem hr
    obtain ⟨p, q, hp, hmoves, hvalue⟩ := hof.faithful key _ hmem
    obtain ⟨r', hr', hpr⟩ := hin.ports.exists_of_portOf? (n := n.noting t) (p := p) hp
    obtain rfl : r' = r := Option.some.inj (hr'.symm.trans hr)
    exact ⟨q, n.wall, hmoves.continues.setup.type.trans hpr.continues.setup.type.symm, hvalue.symm⟩
  have htaken := hread.trans (takeReads_changes hserv t.now hreadings)
  rw [update_eq]
  unfold closeTick
  rw [hin.tick]
  dsimp only [Node.noting]
  generalize takeReads t.now (n.readsIn now) t.reads = taken at htaken
  obtain ⟨ids, m⟩ := taken
  have hidle := htaken.trans (awaitStorage_worked (htaken.services.trans h.services)).changes
  have hsent := hidle.trans (dispatch_changes hof.nodup ids)
  exact hsent.trans (.beside rfl rfl rfl rfl (Nat.le_refl _))

/-! ### Histories -/

theorem perform_changes (h : Sound n) (hn : n.Counted) {op : Operation}
    (hvalue : ∀ key v p, op = .enqueueValue key v → n.portOf? key = some p →
      brought.values ⟨v, n.nextTicket⟩)
    (hdevice : ∀ id d, op = .add id d → brought.devices id d) :
    Changes brought n (n.perform op) := by
  have hs := h.services
  have hbeside {m : Node} (hports : m.ports = n.ports) (hgone : m.gone = n.gone)
      (hevents : m.events = n.events) (hserv : m.services = n.services)
      (hserial : m.nextSerial = n.nextSerial) : Changes brought n m :=
    .beside hports hgone hevents hserv hserial.ge
  cases op with
  | load configs mappings => exact load_changes hs hn configs mappings
  | add id device => exact add_changes hs hn id device (.inr (hdevice id device rfl)) false []
  | addVirtual d => exact addVirtual_changes hs hn d
  | remove id purged => exact remove_changes h id purged
  | cleanup => exact cleanup_changes h
  | setAttr id name value => exact setAttr_changes h id name value
  | loadAttrs id r => exact reloadAttrs_changes h id r
  | getAttr key name =>
    exact withPort_changes fun p hp => .putSilent hp (.upkeep (p.getAttr_upkeep name))
  | attrs key => exact withPort_changes fun p hp => .putSilent hp (.upkeep p.attrsJson_upkeep)
  | update now => exact update_changes h now
  | forceEval id => exact forceEval_changes n id
  | forceEvalAll => exact hbeside rfl rfl rfl rfl rfl
  | pauseAsap limit => exact hbeside rfl rfl rfl rfl rfl
  | save force => exact (savePortList_moved hs force _).changes
  | setValue key v => exact withPort_changes fun p hp => setValue_changes hs hp v
  | writeValue key v => exact withPort_changes fun p hp => writeValue_changes hs hp v
  | enqueueValue key v =>
    exact withPort_changes fun p hp => enqueueValue_changes hp (hvalue key v p rfl hp)
  | await t => exact (awaitResult_moved hs t).changes
  | readValue key => exact (readValue_moved hs key).changes
  | setSequence key s => exact withPort_changes fun p hp => setSequence_changes hp s
  | run t => exact (runReadyTask_worked hs t).changes
  | elapse time => exact hbeside rfl rfl rfl rfl rfl
  | wall time => exact hbeside rfl rfl rfl rfl rfl
  | device key value failReads failures =>
    exact withPort_changes fun p hp => .putSilent hp (.change (change_kept ..))
  | storage b => exact hbeside rfl rfl rfl rfl rfl

theorem after_changes (h : Sound n) (hn : n.Counted) {ops : List Operation}
    (hvalue : ∀ front key v p, front ++ [.enqueueValue key v] <+: ops →
      (n.after front).portOf? key = some p → brought.values ⟨v, (n.after front).nextTicket⟩)
    (hdevice : ∀ id d, .add id d ∈ ops → brought.devices id d) :
    Changes brought n (n.after ops) := by
  induction ops generalizing n with
  | nil => exact .refl
  | cons op ops ih =>
    have hstep : Changes brought n (n.perform op) := by
      refine perform_changes h hn (fun key v p hop => hvalue [] key v p ?_) fun id d hop => ?_
      · rw [hop]
        exact ⟨ops, rfl⟩
      · exact hdevice id d (hop ▸ List.mem_cons_self ..)
    refine hstep.trans (ih (perform_sound h op) (hstep.counted hn)
      (fun front key v p hfront => ?_) fun id d hop => hdevice id d (List.mem_cons_of_mem _ hop))
    exact hvalue (op :: front) key v p ((List.prefix_cons_inj op).mpr hfront)

end Node

end ControlNode
