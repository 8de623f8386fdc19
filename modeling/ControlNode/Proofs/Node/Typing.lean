import ControlNode.Proofs.Node.Changes

/-!
# Types of values

Whatever the history of a node, each port shows values of its type or none, each tick calls out
values of the types of their ports, and a change of a value is announced with such values. What a
port hands to its device has its type, unless a caller has queued it as it is, and so has what the
device holds on to (`after_valuesTyped`). Along the changes of a node the invariant is that each
port has lived in contacts that fit (`WellTyped`).
-/

namespace ControlNode.Node

open Relation Port

variable {brought : Brought} {n m : Node} {key : PortKey} {p q : Port} {v : Value}

/-- A port of the id, registered or gone, has the type of the value. -/
def Knows (n : Node) (id : String) (v : Value) : Prop :=
  ∃ key p, n.portOf? key = some p ∧ key.id = id ∧ Domain.HasType p.type v

/-- Since the port was created on a device, all its contacts have fitted. -/
def HasLived (brought : Brought) (n : Node) (p : Port) : Prop :=
  ∃ device isVirtual capacity zone log, brought.Provides p.id device ∧
    Lives (.create p.key device isVirtual capacity zone) log p ∧
      ∀ c ∈ log, c.Fits brought.values n.Knows p.type

/-- A change of a value is announced with values of the type of a port. -/
def Truthful (n : Node) (e : Event) : Prop :=
  e.type = "Port/ValueChange" → ∃ key p old v, n.portOf? key = some p ∧
    e = .valueChange key.id old v ∧ Domain.HasType p.type v ∧
      ∀ w, old = some w → Domain.HasType p.type w

structure WellTyped (brought : Brought) (n : Node) : Prop where
  ports : ∀ key p, n.portOf? key = some p → n.HasLived brought p
  events : ∀ e ∈ n.events, n.Truthful e

/-! ### Ports that are known -/

theorem Change.exists_of_portOf? (h : Change brought n m) (hp : n.portOf? key = some p) :
    ∃ q, m.portOf? key = some q ∧ q.type = p.type := by
  cases h with
  | ports hports _ _ _ =>
    have hkey := hports key
    rw [hp] at hkey
    cases hq : m.portOf? key with
    | none =>
      rw [hq] at hkey
      cases hkey
    | some q =>
      rw [hq] at hkey
      cases hkey with
      | some hpq =>
        obtain ⟨log, hlives, -⟩ := hpq
        exact ⟨q, rfl, hlives.follows.type⟩
  | announce => exact ⟨p, hp, rfl⟩
  | @register r _ _ _ _ _ _ hid hfree _ =>
    refine ⟨p, ?_, rfl⟩
    rw [portOf?_insert hid, if_neg]
    · exact hp
    · rintro rfl
      rw [hfree] at hp
      cases hp

theorem Change.knows (h : Change brought n m) {id : String} (hn : n.Knows id v) : m.Knows id v := by
  obtain ⟨key, p, hp, hid, htype⟩ := hn
  obtain ⟨q, hq, hqp⟩ := h.exists_of_portOf? hp
  exact ⟨key, q, hq, hid, hqp ▸ htype⟩

theorem Change.truthful (h : Change brought n m) {e : Event} (hn : n.Truthful e) :
    m.Truthful e := by
  intro htype
  obtain ⟨key, p, old, v, hp, heq, hv, hold⟩ := hn htype
  obtain ⟨q, hq, hqp⟩ := h.exists_of_portOf? hp
  exact ⟨key, q, old, v, hq, heq, hqp ▸ hv, fun w hw => hqp ▸ hold w hw⟩

theorem HasLived.later (h : n.HasLived brought p) (hnm : Change brought n m) :
    m.HasLived brought p := by
  obtain ⟨device, isVirtual, capacity, zone, log, hdevice, hlives, hfits⟩ := h
  exact ⟨device, isVirtual, capacity, zone, log, hdevice, hlives,
    fun c hc => (hfits c hc).mono fun _ _ => hnm.knows⟩

theorem HasLived.typed (h : n.HasLived brought p) : p.Typed brought.values := by
  obtain ⟨device, isVirtual, capacity, zone, log, -, hlives, hfits⟩ := h
  have htype := hlives.follows.type
  exact (hlives.fits (typed_create ..) fun c hc _ => htype ▸ hfits c hc).1

/-- What the device holds on to was handed to it by the port, or the device came with it. -/
theorem HasLived.recorded (h : n.HasLived brought p) (hv : v ∈ p.device.record) :
    Domain.HasType p.type v ∨ (∃ t, brought.values ⟨v, t⟩) ∨
      ∃ device, brought.devices p.id device ∧ v ∈ device.record := by
  obtain ⟨device, isVirtual, capacity, zone, log, hdevice, hlives, hfits⟩ := h
  rcases hlives.follows.record v hv with hold | ⟨t, hhanded⟩
  · rcases hdevice with hnew | hadded
    · have hnone : v ∈ ([] : List Value) := hnew ▸ hold
      cases hnone
    · exact .inr (.inr ⟨device, hadded, hold⟩)
  · rcases hfits _ hhanded with htype | ⟨ticket, -, hraw⟩
    · exact .inl htype
    · exact .inr (.inl ⟨ticket, hraw⟩)

/-- What a port is in contact with until it is registered fits. -/
theorem HasLived.of_alone {device : Device} {isVirtual : Bool} {capacity : Nat} {zone : Zone}
    (hdevice : brought.Provides p.id device)
    (h : Alone (.create p.key device isVirtual capacity zone) p) :
    n.HasLived brought p := by
  obtain ⟨log, hlives, hout⟩ := h
  have hall : p.Typed brought.values ∧ ∀ c ∈ log, c.Fits brought.values n.Knows device.type :=
    hlives.fits (typed_create ..) fun c hc hin => by
      rw [hout c hc] at hin
      cases hin
  exact ⟨device, isVirtual, capacity, zone, log, hdevice, hlives, hlives.follows.type ▸ hall.2⟩

/-! ### Changes -/

namespace WellTyped

theorem value (h : n.WellTyped brought) (hp : n.portOf? key = some p) (hv : p.lastRead = some v) :
    Domain.HasType p.type v :=
  (h.ports key p hp).typed.value v hv

theorem fits_of_source (h : n.WellTyped brought) {c : Contact} (hc : n.Source brought p c)
    (hin : c.isHandover = false) : c.Fits brought.values n.Knows p.type := by
  cases c with
  | handed v t => cases hin
  | taken v => exact CanRead.hasType hc
  | queued r => exact hc
  | called c =>
    obtain ⟨keys, now, rfl⟩ := hc
    intro e he
    obtain ⟨key, -, hshown⟩ := List.mem_filterMap.mp (Dict.mem_ofList he)
    obtain ⟨p, hp, hvalue⟩ := Option.bind_eq_some_iff.mp hshown
    obtain ⟨v, hv, rfl⟩ := Option.map_eq_some_iff.mp hvalue
    exact ⟨key, p, hp, rfl, h.value hp hv⟩

theorem supplied (h : n.WellTyped brought) (hp : n.HasLived brought p)
    (hpq : n.Supplies brought p q) : n.HasLived brought q := by
  obtain ⟨device, isVirtual, capacity, zone, log, hdevice, hlives, hfits⟩ := hp
  obtain ⟨new, hnew, hsource⟩ := hpq
  have hkey := hnew.follows.key
  have htype := hlives.follows.type
  have hlonger := hlives.trans hnew
  have hin : ∀ c ∈ log ++ new, c.isHandover = false → c.Fits brought.values n.Knows p.type := by
    intro c hc hin
    rcases List.mem_append.mp hc with hold | hlater
    · exact hfits c hold
    · exact h.fits_of_source (hsource c hlater) hin
  refine ⟨device, isVirtual, capacity, zone, log ++ new, ?_, ?_, ?_⟩
  · rwa [Port.id, hkey]
  · rw [hkey]
    exact hlonger
  · rw [hnew.follows.type]
    rw [htype] at hin ⊢
    exact (hlonger.fits (typed_create ..) hin).2

theorem change (h : n.WellTyped brought) (hnm : Change brought n m) : m.WellTyped brought := by
  constructor
  · intro key q hq
    suffices hlived : n.HasLived brought q from hlived.later hnm
    cases hnm with
    | ports hports _ _ _ =>
      have hkey := hports key
      rw [hq] at hkey
      cases hp : n.portOf? key with
      | none =>
        rw [hp] at hkey
        cases hkey
      | some p =>
        rw [hp] at hkey
        cases hkey with
        | some hpq => exact h.supplied (h.ports key p hp) hpq
    | announce => exact h.ports key q hq
    | register hdevice halone hid _ _ =>
      rw [portOf?_insert hid] at hq
      split at hq
      · cases hq
        exact .of_alone hdevice halone
      · exact h.ports key q hq
  · intro e he
    suffices htrue : n.Truthful e from hnm.truthful htrue
    cases hnm with
    | ports _ hevents _ _ => exact h.events e (hevents ▸ he)
    | register => exact h.events e he
    | announce hwarrants =>
      rcases List.mem_cons.mp he with rfl | hold
      · intro htype
        obtain ⟨key, p, v, hp, hv, heq⟩ := hwarrants htype
        exact ⟨key, p, p.lastRead, v, hp, heq, hv.hasType, fun w hw => h.value hp hw⟩
      · exact h.events e hold

theorem changes (h : n.WellTyped brought) (hnm : Changes brought n m) : m.WellTyped brought := by
  induction hnm with
  | refl => exact h
  | tail _ hstep ih => exact ih.change hstep

end WellTyped

theorem wellTyped_create (config : NodeConfig) (backend : Backend) (wall : Int) (zone : Zone) :
    (create config backend wall zone).WellTyped brought := by
  refine ⟨fun key p hp => ?_, fun e he => by cases he⟩
  have hnone : none = some p := hp
  cases hnone

/-! ### Histories -/

/-- A caller has queued the value of the request as it is, under this ticket. -/
def QueuedAsIs (start : Node) (ops : List Operation) (r : WriteRequest) : Prop :=
  ∃ front key p, front ++ [.enqueueValue key r.value] <+: ops ∧
    (start.after front).portOf? key = some p ∧ r.ticket = (start.after front).nextTicket

def broughtBy (start : Node) (ops : List Operation) : Brought where
  values := QueuedAsIs start ops
  devices := fun id d => .add id d ∈ ops

theorem after_wellTyped (config : NodeConfig) (backend : Backend) (wall : Int) (zone : Zone)
    (ops : List Operation) : ((create config backend wall zone).after ops).WellTyped
      (broughtBy (create config backend wall zone) ops) :=
  (wellTyped_create config backend wall zone).changes
    (after_changes (sound_create config backend wall zone) (counted_create config backend wall zone)
      (fun front key _ p hfront hp => ⟨front, key, p, hfront, hp, rfl⟩) fun _ _ hop => hop)

/-- The values that a tick calls out are those of the registered ports, of their types. -/
theorem Calling.snapshot_typed (h : n.WellTyped brought) {now : Int} {t : Tick} {ids : List String}
    (hcall : Calling n now t ids m) : ∀ e ∈ m.snapshot t.enabled,
      ∃ p, m.port? e.1 = some p ∧ p.lastRead = some e.2 ∧ Domain.HasType p.type e.2 := by
  intro e he
  obtain ⟨key, hkey, hshown⟩ := List.mem_filterMap.mp (Dict.mem_ofList he)
  obtain ⟨q, hq, hvalue⟩ := Option.bind_eq_some_iff.mp hshown
  obtain ⟨v, hv, rfl⟩ := Option.map_eq_some_iff.mp hvalue
  obtain ⟨p, hp, -⟩ := (hcall.of.enabled key).mp hkey
  obtain ⟨q', hreg, harrived⟩ := hcall.ports.registered hp
  obtain rfl : q' = q := Option.some.inj (hreg.portOf?.symm.trans hq)
  have htype := harrived.continues.setup.type
  refine ⟨q', hreg.1, hv, ?_⟩
  rw [htype]
  by_cases hread : ∃ w, (p.key, some (.ok w)) ∈ t.reads
  · obtain ⟨w, hw⟩ := hread
    obtain ⟨p', r, hp', hmoves, hreading⟩ := hcall.of.faithful _ _ hw
    rw [hp.2, hp.portOf?] at hp'
    cases hp'
    rw [harrived.read w hw] at hv
    cases hv
    exact hmoves.continues.setup.type ▸ readValue_hasType hreading.symm
  · rw [harrived.unread fun w hw => hread ⟨w, hw⟩] at hv
    exact h.value hp.portOf? hv

/-- What holds of the values in a node after a history: those that ports show, those that wait to
be written, those that have passed between ports and their devices and those that the devices
hold on to, those that the next tick calls out, and those that have been announced. -/
structure ValuesTyped (start : Node) (ops : List Operation) : Prop where
  shown : ∀ key p v, (start.after ops).portOf? key = some p → p.lastRead = some v →
    Domain.HasType p.type v
  waiting : ∀ key p r, (start.after ops).portOf? key = some p → p.writes.Holds r →
    Domain.HasType p.type r.value ∨ QueuedAsIs start ops r
  contacts : ∀ key p, (start.after ops).portOf? key = some p →
    ∃ device isVirtual capacity zone log, (device.record = [] ∨ .add key.id device ∈ ops) ∧
      Lives (.create key device isVirtual capacity zone) log p ∧
        ∀ c ∈ log, c.Fits (QueuedAsIs start ops) (start.after ops).Knows p.type
  recorded : ∀ key p v, (start.after ops).portOf? key = some p → v ∈ p.device.record →
    Domain.HasType p.type v ∨ (∃ t, QueuedAsIs start ops ⟨v, t⟩) ∨
      ∃ device, .add key.id device ∈ ops ∧ v ∈ device.record
  ticks : ∀ now, (∃ t ids m, Calling (start.after ops) now t ids m) ∧
    ∀ t ids m, Calling (start.after ops) now t ids m → ∀ e ∈ m.snapshot t.enabled,
      ∃ p, m.port? e.1 = some p ∧ p.lastRead = some e.2 ∧ Domain.HasType p.type e.2
  announced : ∀ e ∈ (start.after ops).events, (start.after ops).Truthful e

/-- Whatever is done to a node, whatever its devices read and whatever is stored, values have the
types of their ports. -/
theorem after_valuesTyped (config : NodeConfig) (backend : Backend) (wall : Int) (zone : Zone)
    (ops : List Operation) : ValuesTyped (create config backend wall zone) ops := by
  have htyped := after_wellTyped config backend wall zone ops
  have hsound := after_sound (sound_create config backend wall zone) ops
  refine ⟨fun key p v hp hv => htyped.value hp hv, fun key p r hp hr => ?_, fun key p hp => ?_,
    fun key p v hp hv => ?_, fun now => ⟨exists_calling hsound.filed hsound.services now,
      fun t ids m hcall => hcall.snapshot_typed htyped⟩, htyped.events⟩
  · exact (htyped.ports key p hp).typed.requests r hr
  · obtain ⟨device, isVirtual, capacity, zone, log, hdevice, hlives, hfits⟩ := htyped.ports key p hp
    rw [Port.id, key_of_portOf? hp] at hdevice
    rw [key_of_portOf? hp] at hlives
    exact ⟨device, isVirtual, capacity, zone, log, hdevice, hlives, hfits⟩
  · have hrecorded := (htyped.ports key p hp).recorded hv
    rwa [Port.id, key_of_portOf? hp] at hrecorded

end ControlNode.Node
