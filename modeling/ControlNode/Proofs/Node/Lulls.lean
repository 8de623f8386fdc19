import ControlNode.Proofs.Node.Additions
import ControlNode.Proofs.Node.Changes
import ControlNode.Proofs.Port.Steadiness

/-!
# Stretches without ticks

Tasks, calls, saves and additions begin no second, announce no value, and leave the ports that there
are their values and their accounts of samples and seconds (`Lull`). A port that is added has no
value, or the one in the record under its id, made to fit the port (`Gains`).
-/

namespace ControlNode

namespace Port

variable {p q : Port} {record : Option Record}

/-- The port has no value, or the one in a record, made to fit. -/
def StartsFrom (record : Option Record) (q : Port) : Prop :=
  q.lastRead = none ∨ ∃ r w, record = some r ∧ Node.storedValue? q r = some w ∧
    q.lastRead = some (q.domain.adapt w)

theorem StartsFrom.steady (h : StartsFrom record p) (hpq : Steady p q) : StartsFrom record q := by
  rcases h with hnone | ⟨r, w, hr, hw, hvalue⟩
  · exact .inl (hpq.value.trans hnone)
  · refine .inr ⟨r, w, hr, ?_, ?_⟩
    · rw [Node.storedValue?, hpq.isPersisted]
      exact hw
    · rw [hpq.value, hvalue, hpq.domain]

theorem restore_startsFrom (hnone : p.lastRead = none) {r : Record} {w : Value}
    (hw : Node.storedValue? p r = some w) : StartsFrom (some r) (p.restore w) := by
  unfold restore
  dsimp only
  split
  · have hdomain {v : Option Value} :
        domain { p with device := (p.device.write (p.domain.adapt w)).2, lastRead := v } =
          p.domain := by
      simp only [domain, type, p.device.write_type]
    split
    · exact .inr ⟨r, w, rfl, hw, by rw [hdomain]⟩
    · exact .inl hnone
  · exact .inr ⟨r, w, rfl, hw, rfl⟩

/-- A new port is set up with the value of its record at most. -/
theorem setUp_startsFrom (key : PortKey) (device : Device) (isVirtual : Bool) (capacity : Nat)
    (zone : Zone) (g g' : DepGraph) (defaults : Record) (record : Option Record) :
    StartsFrom record ((Port.create key device isVirtual capacity zone).setUp g g' defaults
      (record.getD [])) := by
  obtain ⟨p, hp⟩ : ∃ p, p = (((Port.create key device isVirtual capacity zone).loadAttrs g
    defaults).1.loadAttrs g' (record.getD [])).1 := ⟨_, rfl⟩
  have hnone : p.lastRead = none := by
    cases hv : p.lastRead with
    | none => rfl
    | some v =>
      have hswitched := ((Port.create key device isVirtual capacity zone).loadAttrs_switched g
        defaults).trans (loadAttrs_switched _ g' (record.getD []))
      cases (hswitched.value_eq (hp ▸ hv)).1
  rw [setUp, ← hp]
  refine StartsFrom.steady ?_ (attrsJson_steady _)
  unfold takeOver
  split
  · rename_i w hw
    cases record with
    | some r => exact restore_startsFrom hnone hw
    -- the empty record has no value
    | none =>
      unfold Node.storedValue? at hw
      split at hw <;> cases hw
  · exact .inl hnone

end Port

namespace Node

open Relation Port

variable {n m k : Node} {key : PortKey} {p q : Port} {R : Port → Port → Prop}

/-- A stretch without ticks: the ports that there are go on as `R` says, no change of a value is
announced, and no second begins. -/
structure Interlude (R : Port → Port → Prop) (n m : Node) : Prop where
  ports : ∀ key p, n.portOf? key = some p → ∃ q, m.portOf? key = some q ∧ R p q
  events : ∃ more, m.events = more ++ n.events ∧ ∀ e ∈ more, e.type ≠ "Port/ValueChange"
  second : m.lastSecond = n.lastSecond
  services : m.services = n.services

/-- A stretch in which ports keep their values and switches. -/
abbrev Lull : Node → Node → Prop := Interlude Port.Steady

namespace Interlude

theorem mono {S : Port → Port → Prop} (hRS : ∀ p q, R p q → S p q) (h : Interlude R n m) :
    Interlude S n m := by
  refine ⟨fun key p hp => ?_, h.events, h.second, h.services⟩
  obtain ⟨q, hq, hpq⟩ := h.ports key p hp
  exact ⟨q, hq, hRS p q hpq⟩

theorem trans {S T : Port → Port → Prop} (hRST : ∀ p q r, R p q → S q r → T p r)
    (h : Interlude R n m) (h' : Interlude S m k) : Interlude T n k := by
  refine ⟨fun key p hp => ?_, ?_, h'.second.trans h.second, h'.services.trans h.services⟩
  · obtain ⟨q, hq, hpq⟩ := h.ports key p hp
    obtain ⟨r, hr, hqr⟩ := h'.ports key q hq
    exact ⟨r, hr, hRST p q r hpq hqr⟩
  · obtain ⟨more, heq, hmore⟩ := h.events
    obtain ⟨later, heq', hlater⟩ := h'.events
    refine ⟨later ++ more, by rw [heq', heq, List.append_assoc], fun e he => ?_⟩
    rcases List.mem_append.mp he with he | he
    · exact hlater e he
    · exact hmore e he

/-- Nothing is announced, and the ports of before are there as `R` says. -/
theorem of_ports (hports : ∀ key p, n.portOf? key = some p → ∃ q, m.portOf? key = some q ∧ R p q)
    (hevents : m.events = n.events) (hsecond : m.lastSecond = n.lastSecond)
    (hserv : m.services = n.services) : Interlude R n m :=
  ⟨hports, ⟨[], hevents, fun _ he => by cases he⟩, hsecond, hserv⟩

theorem putPort (hp : n.portOf? key = some p) (hkey : q.key = p.key) (h : R p q)
    (hrefl : ∀ r, R r r) : Interlude R n (n.putPort q) := by
  have hports : PortsRel R n (n.putPort q) := by
    refine .putPort (fun r _ => hrefl r) fun r hr => ?_
    rw [hkey.trans (key_of_portOf? hp), hp] at hr
    cases hr
    exact h
  refine of_ports (fun _ _ => hports.exists_of_portOf?) ?_ ?_ ?_
  all_goals rw [putPort_frame]

end Interlude

namespace Lull

theorem refl (n : Node) : Lull n n := .of_ports (fun _ p hp => ⟨p, hp, .refl p⟩) rfl rfl rfl

theorem trans (h : Lull n m) (h' : Lull m k) : Lull n k :=
  Interlude.trans (S := Port.Steady) (fun _ _ _ => Port.Steady.trans) h h'

theorem of_portOf? (hports : ∀ key, m.portOf? key = n.portOf? key) (hevents : m.events = n.events)
    (hsecond : m.lastSecond = n.lastSecond) (hserv : m.services = n.services) : Lull n m :=
  .of_ports (fun key p hp => ⟨p, (hports key).trans hp, .refl p⟩) hevents hsecond hserv

/-- Everything but ports, events and seconds may change by itself. -/
theorem beside (hports : m.ports = n.ports) (hgone : m.gone = n.gone)
    (hevents : m.events = n.events) (hsecond : m.lastSecond = n.lastSecond)
    (hserv : m.services = n.services) : Lull n m := by
  refine of_portOf? (fun key => ?_) hevents hsecond hserv
  simp only [portOf?, port?, hports, hgone]

theorem putPort (hp : n.portOf? key = some p) (h : Port.Steady p q) : Lull n (n.putPort q) :=
  Interlude.putPort hp h.key h .refl

end Lull

theorem Evolves.lull (h : Evolves Port.Steady n m) : Lull n m := by
  refine .of_ports (fun _ _ => h.ports.exists_of_portOf?) ?_ ?_ ?_
  all_goals rw [h.rest]

theorem Worked.lull (h : Worked n m) : Lull n m := Evolves.lull (h.mono fun _ _ => steady_of_works)

theorem foldl_lull {α : Type} {f : Node → α → Node} (hs : n.services = [])
    (hf : ∀ m a, m.services = [] → Lull m (f m a)) (as : List α) : Lull n (as.foldl f n) := by
  induction as generalizing n with
  | nil => exact .refl n
  | cons a as ih =>
    have hstep := hf n a hs
    exact hstep.trans (ih (hstep.services.trans hs))

theorem forceEval_lull (n : Node) (id : String) : Lull n (n.forceEval id) := by
  rw [forceEval_frame]
  exact .beside rfl rfl rfl rfl rfl

theorem publish_lull (hs : n.services = []) {e : Event} (he : e.type ≠ "Port/ValueChange") :
    Lull n (n.publish e) := by
  rw [publish_eq hs]
  exact ⟨fun key p hp => ⟨p, hp, .refl p⟩, ⟨[e], rfl, fun e' he' => List.mem_singleton.mp he' ▸ he⟩,
    rfl, rfl⟩

theorem access_lull {α : Type} (n : Node) (writes : Bool) (op : Backend.Outcome α) :
    Lull n (n.access writes op).2 := .beside rfl rfl rfl rfl rfl

theorem accessAwait_lull {α : Type} (hs : n.services = []) (writes : Bool)
    (op : Backend.Outcome α) : Lull n (n.access writes op).2.awaitStorage :=
  (access_lull n writes op).trans (awaitStorage_worked (n := (n.access writes op).2) hs).lull

/-! ### Calls -/

theorem withPort_lull {f : Port → Node} (h : ∀ p, n.portOf? key = some p → Lull n (f p)) :
    Lull n (n.withPort key f) := withPort_induction (.refl n) h

theorem withTicket_lull (hp : n.portOf? key = some p)
    {f : Ticket → Except PortError (List Signal) × Port} (hf : Port.Steady p (f n.nextTicket).2) :
    Lull n (n.withTicket f).2 := by
  have hcount : Lull n { n with nextTicket := n.nextTicket + 1 } := .beside rfl rfl rfl rfl rfl
  have hput : Lull { n with nextTicket := n.nextTicket + 1 }
      ({ n with nextTicket := n.nextTicket + 1 }.putPort (f n.nextTicket).2) := .putPort hp hf
  exact (hcount.trans hput).trans (withTicket_signals f).lull

theorem awaitResult_lull (hs : n.services = []) (t : Ticket) : Lull n (n.awaitResult t).2 :=
  (waitFor_worked hs _).lull.trans (.beside rfl rfl rfl rfl rfl)

theorem writeValue_lull (hs : n.services = []) (hp : n.portOf? key = some p) (v : Value) :
    Lull n (n.writeValue p v).2 := by
  have hsubmit : Lull n (n.withTicket fun t => p.submit v t n.wall).2 :=
    withTicket_lull hp (p.submit_steady v _ _)
  unfold writeValue
  split
  · rename_i hr
    rwa [hr] at hsubmit
  · rename_i t _ hr
    rw [hr] at hsubmit
    exact hsubmit.trans (awaitResult_lull (hsubmit.services.trans hs) t)

theorem setValue_lull (hs : n.services = []) (hp : n.portOf? key = some p) (v : Value) :
    Lull n (n.setValue p v).2 := by
  unfold setValue
  split
  · exact .refl n
  · exact writeValue_lull hs hp v

theorem setSequence_lull (hp : n.portOf? key = some p) (s : Option Sequence) :
    Lull n (n.setSequence p s).2 := by
  have hput : Lull n (n.putPort (p.setSequence s).2) := .putPort hp (p.setSequence_steady s)
  unfold Node.setSequence
  dsimp only
  split
  · exact hput.trans (.beside rfl rfl rfl rfl rfl)
  · exact hput

theorem readPort_lull (n : Node) (key : PortKey) : Lull n (n.readPort key).2 := by
  unfold readPort
  split
  · exact .refl n
  · rename_i p hp
    exact .putPort hp (p.readValue_steady n.wall)

theorem readValue_lull (hs : n.services = []) (key : PortKey) : Lull n (n.readValue key).2 := by
  have hask : Lull n { n with agenda := (n.agenda.acquire (.device key) .caller).2 } :=
    .beside rfl rfl rfl rfl rfl
  have hwait := hask.trans (waitFor_worked (hask.services.trans hs) fun n =>
    n.agenda.locks.any fun l => l.resource = .device key && l.holder = .caller).lull
  exact (hwait.trans (readPort_lull _ key)).trans (.beside rfl rfl rfl rfl rfl)

theorem change_steady (p : Port) (value : Option Value) (failReads : Bool)
    (failures : List (DeviceCall × PortError)) :
    Port.Steady p { p with device := p.device.change value failReads failures } := by
  refine .withDevice p ?_ ?_
  all_goals cases p.device <;> rfl

/-! ### Saving -/

theorem savePort_lull (n : Node) (force : Bool) (key : PortKey) :
    Lull n (savePort force n key).2 := by
  unfold savePort
  split
  · exact .refl n
  · rename_i p hp
    split
    · have hclean : Lull n (n.putPort { p with dirty := false }) :=
        .putPort hp ⟨rfl, rfl, rfl, rfl, rfl, rfl, rfl, rfl, rfl⟩
      have hstored := hclean.trans (access_lull _ true
        ((n.putPort { p with dirty := false }).backend.replace portsCollection p.id
          (toRecord { p with dirty := false })))
      dsimp only
      split
      · exact hstored
      · dsimp only
        split
        · rename_i q hq
          exact hstored.trans (.putPort hq ⟨rfl, rfl, rfl, rfl, rfl, rfl, rfl, rfl, rfl⟩)
        · exact hstored
    · exact .refl n

theorem savePortList_lull (hs : n.services = []) (force : Bool) (keys : List PortKey) :
    Lull n (n.savePortList force awaitStorage keys).2 := by
  induction keys generalizing n with
  | nil => exact .refl n
  | cons key keys ih =>
    have hsave := savePort_lull n force key
    have hwait := hsave.trans (awaitStorage_worked (hsave.services.trans hs)).lull
    exact hwait.trans (ih (hwait.services.trans hs))

/-! ### Adding -/

theorem publishUpdate_lull (hs : n.services = []) (hp : n.portOf? p.key = some p) :
    Lull n (n.publishUpdate p) := by
  have hput : Lull n (n.putPort p.attrsJson.2) := .putPort hp p.attrsJson_steady
  exact hput.trans (publish_lull (hput.services.trans hs) (by simp [Event.portUpdate]))

theorem loadAttrs_lull (n : Node) (p : Port) (r : Record) : Lull n (n.loadAttrs p r).2 := by
  unfold Node.loadAttrs
  dsimp only
  split
  · exact forceEval_lull ..
  · exact .refl n

theorem register_lull (hs : n.services = []) (hid : n.port? p.id = none)
    (hfree : n.portOf? p.key = none) : Lull n (n.register p).2 := by
  have hkey : p.attrsJson.2.key = p.key := p.attrsJson_steady.key
  have hfiled : Lull n { n with ports := Dict.insert n.ports p.attrsJson.2.id p.attrsJson.2 } := by
    refine .of_ports (fun key q hq => ⟨q, ?_, .refl q⟩) rfl rfl rfl
    rw [portOf?_insert (by rwa [Port.id, hkey]), if_neg, hq]
    intro heq
    rw [← heq, hkey, hfree] at hq
    cases hq
  have hforce := hfiled.trans (forceEval_lull _ p.attrsJson.2.id)
  exact hforce.trans (publish_lull (hforce.services.trans hs) (by simp [Event.portAdd]))

theorem startWorkers_lull (n : Node) (key : PortKey) : Lull n (n.startWorkers key) := by
  unfold startWorkers
  dsimp only
  split
  · exact .refl n
  · exact .beside rfl rfl rfl rfl rfl

theorem restoreValue_lull (hs : n.services = []) (p : Port) (v : Value) :
    Lull n (n.restoreValue p v).2 := by
  unfold restoreValue
  dsimp only
  split
  · exact (advance_worked hs _).lull
  · exact .refl n

theorem prepare_lull (hs : n.services = []) (id : String) (device : Device) (isVirtual : Bool)
    (defaults : Record) : Lull n (n.prepare id device isVirtual defaults).2 := by
  refine prepare_induction (motive := fun _ m => Lull n m) ?_ ?_ ?_ ?_
  · exact .beside rfl rfl rfl rfl rfl
  · exact fun p m r hm => hm.trans (loadAttrs_lull m p r)
  · exact fun p m hm => hm.trans (accessAwait_lull (hm.services.trans hs) false _)
  · exact fun p m v hm => hm.trans (restoreValue_lull (hm.services.trans hs) p v)

theorem add_lull (hs : n.services = []) (hn : n.Counted) (id : String) (device : Device)
    (isVirtual : Bool) (defaults : Record) : Lull n (n.add id device isVirtual defaults).2 := by
  cases hfault : n.idFault? id with
  | some fault =>
    rw [add_of_fault hfault]
    exact .refl n
  | none =>
    obtain ⟨hkey, hmarks⟩ := prepare_marks hs id device isVirtual defaults
    have hprepared := prepare_lull hs id device isVirtual defaults
    rw [add_of_no_fault hfault]
    generalize n.prepare id device isVirtual defaults = prepared at hkey hmarks hprepared ⊢
    -- the serial number is a new one
    have hfree : prepared.2.portOf? prepared.1.key = none := by
      have hrel := hmarks.ports.ports prepared.1.key
      cases hold : { n with nextSerial := n.nextSerial + 1 }.portOf? prepared.1.key with
      | none =>
        rw [hold] at hrel
        generalize prepared.2.portOf? prepared.1.key = found at hrel ⊢
        cases hrel
        rfl
      | some p =>
        have hlt := hn _ p hold
        rw [hkey] at hlt
        exact absurd hlt (Nat.lt_irrefl _)
    have hid : prepared.2.port? prepared.1.id = none := by
      rw [Port.id, hkey]
      exact hmarks.ports.port?_eq_none (port?_of_idFault? hfault)
    have hregister := register_lull (hprepared.services.trans hs) hid hfree
    exact (hprepared.trans hregister).trans (startWorkers_lull ..)

/-- Once the port of a definition has been added, tasks run while the definition is stored. -/
theorem addVirtual_worked (d : VirtualPortDef) (hs : (n.addDefined d).2.services = []) :
    Worked (n.addDefined d).2 (n.addVirtual d).2 := by
  unfold addVirtual
  generalize n.addDefined d = added at hs ⊢
  obtain ⟨r, k⟩ := added
  cases r with
  | error e => exact .refl k
  | ok attrs =>
    have haccess : Worked k (k.access true
        (k.backend.replace definitionsCollection d.id d.toRecord)).2 :=
      (Worked.refl k).beside rfl rfl rfl
    have hall := haccess.trans (awaitStorage_worked (haccess.services.trans hs))
    dsimp only
    split
    · rename_i hr
      rwa [hr] at hall
    · rename_i hr
      rwa [hr] at hall

/-! ### Several additions -/

def Brought.anything : Brought := ⟨fun _ => True, fun _ _ => True⟩

/-- What adding ports does: those that were there are left alone, nothing is stored, and a new one
starts from its record. -/
structure Gains (n m : Node) : Prop where
  lull : Lull n m
  backend : m.backend = n.backend
  anew : ∀ key q, m.Registered key q →
    (∃ p, n.Registered key p) ∨ StartsFrom (n.recordOf? key.id) q

namespace Gains

theorem of_same (h : Lull n m) (hb : m.backend = n.backend)
    (hkeys : ∀ id, m.keyAt id = n.keyAt id) :
    Gains n m := by
  refine ⟨h, hb, fun key q hq => .inl ?_⟩
  refine registered_of_keyAt ?_
  rw [← hkeys, keyAt, hq.1, Option.map_some, hq.2]

theorem refl (n : Node) : Gains n n := .of_same (.refl n) rfl fun _ => rfl

theorem trans (h : Gains n m) (h' : Gains m k) : Gains n k := by
  refine ⟨h.lull.trans h'.lull, h'.backend.trans h.backend, fun key r hr => ?_⟩
  have hrecord : m.recordOf? key.id = n.recordOf? key.id := by rw [recordOf?, recordOf?, h.backend]
  rcases h'.anew key r hr with ⟨q, hq⟩ | hnew
  · obtain ⟨r', hr', hqr⟩ := h'.lull.ports key q hq.portOf?
    obtain rfl : r' = r := Option.some.inj (hr'.symm.trans hr.portOf?)
    exact (h.anew key q hq).imp_right fun hstarts => hstarts.steady hqr
  · exact .inr (hrecord ▸ hnew)

end Gains

theorem accessAwait_gains {α : Type} (hs : n.services = []) (writes : Bool) {op : Backend.Outcome α}
    (hop : op.2 = n.backend) : Gains n (n.access writes op).2.awaitStorage := by
  have hwait := awaitStorage_worked (n := (n.access writes op).2) hs
  exact .of_same (accessAwait_lull hs writes op)
    ((awaitStorage_backend (n := (n.access writes op).2) hs).trans hop) hwait.ports.keys

theorem keyAt_add_of_ne (hs : n.services = []) {id other : String} (hne : id ≠ other)
    (device : Device) (isVirtual : Bool) (defaults : Record) :
    (n.add id device isVirtual defaults).2.keyAt other = n.keyAt other := by
  cases hfault : n.idFault? id with
  | some fault => rw [add_of_fault hfault]
  | none => rw [keyAt_add hs hfault, Function.update_of_ne hne.symm]

theorem add_gains (hs : n.services = []) (hn : n.Counted) (id : String) (device : Device)
    (isVirtual : Bool) (defaults : Record) : Gains n (n.add id device isVirtual defaults).2 := by
  cases hfault : n.idFault? id with
  | some fault =>
    rw [add_of_fault hfault]
    exact .refl n
  | none =>
    have hlull := add_lull hs hn id device isVirtual defaults
    have hothers {other : String} (hne : id ≠ other) :=
      keyAt_add_of_ne hs hne device isVirtual defaults
    obtain ⟨attrs, m, p, hadd, hbackend, hp, g, g', hset⟩ :=
      add_setUp hs hfault device isVirtual defaults
    rw [hadd] at hlull hothers ⊢
    refine ⟨hlull, hbackend, fun key q hq => ?_⟩
    by_cases hid : id = key.id
    · have hport := hq.1
      rw [← hid, hp.1] at hport
      cases hport
      refine .inr ?_
      rw [hset, ← hid]
      exact setUp_startsFrom ..
    · refine .inl (registered_of_keyAt ?_)
      rw [← hothers hid, keyAt, hq.1, Option.map_some, hq.2]

/-- Ports are added one after another; some are left out. -/
theorem loadEach_gains {α : Type} (add : Node → α → Option NodeError × Node)
    (hadd : ∀ n a, (add n a).2 = n ∨
      ∃ id device isVirtual defaults, (add n a).2 = (n.add id device isVirtual defaults).2)
    (hs : n.services = []) (hn : n.Counted) (as : List α) :
    Gains n (loadEach add n as).2 ∧ (loadEach add n as).2.Counted := by
  induction as generalizing n with
  | nil => exact ⟨.refl n, hn⟩
  | cons a as ih =>
    obtain ⟨hstep, hcounted⟩ : Gains n (add n a).2 ∧ (add n a).2.Counted := by
      rcases hadd n a with hsame | ⟨id, device, isVirtual, defaults, hadds⟩
      · rw [hsame]
        exact ⟨.refl n, hn⟩
      · rw [hadds]
        have hadded : Changes .anything n (n.add id device isVirtual defaults).2 :=
          add_changes hs hn id device (.inr trivial) isVirtual defaults
        exact ⟨add_gains hs hn id device isVirtual defaults, hadded.counted hn⟩
    obtain ⟨hrest, hall⟩ := ih (hstep.lull.services.trans hs) hcounted
    exact ⟨hstep.trans hrest, hall⟩

theorem load_gains (hs : n.services = []) (hn : n.Counted) (configs : List PortConfig)
    (mappings : Dict String String) : Gains n (n.load configs mappings).2 := by
  have hopen {k : Node} {α : Type} (op : Backend.Outcome α) (hs : k.services = []) (hk : k.Counted)
      (hop : op.2 = k.backend) : Gains k (k.access false op).2.awaitStorage ∧
        (k.access false op).2.awaitStorage.Counted := by
    have hmoved : Changes .anything k (k.access false op).2.awaitStorage :=
      (accessAwait_moved hs false op).changes
    exact ⟨accessAwait_gains hs false hop, hmoved.counted hk⟩
  obtain ⟨hfirst, hn'⟩ := hopen _ hs hn n.backend.ensureIndex_snd
  obtain ⟨hsecond, hn''⟩ := hopen _ (hfirst.lull.services.trans hs) hn'
    (Backend.ensureIndex_snd _)
  have hindexed := hfirst.trans hsecond
  obtain ⟨hports, hk⟩ := loadEach_gains (loadPort mappings) (fun n c =>
    (loadPort_eq mappings n c).imp_right fun ⟨other, device, h⟩ => ⟨other, device, false, [], h⟩)
    (hindexed.lull.services.trans hs) hn'' configs
  have hloaded := hindexed.trans hports
  unfold load
  dsimp only
  generalize loadEach (loadPort mappings) _ configs = loaded at hloaded hk ⊢
  obtain ⟨errors, k⟩ := loaded
  obtain ⟨hread, hcounted⟩ := hopen (k.backend.query definitionsCollection {}, k.backend)
    (hloaded.lull.services.trans hs) hk rfl
  have hstored := hloaded.trans hread
  exact hstored.trans (loadEach_gains loadDefined (fun n r =>
    (loadDefined_eq n r).imp_right fun ⟨d, h⟩ => ⟨d.id, d.device, true, d.attrs, h⟩)
    (hstored.lull.services.trans hs) hcounted _).1

end Node

end ControlNode
