import ControlNode.Proofs.Node.ChangedSet
import ControlNode.Proofs.Node.Drained
import ControlNode.Proofs.Node.VirtualPorts
import ControlNode.Proofs.Port.Revivals

/-!
# First ticks after a restart

A tick announces the values that it finds changed and nothing else (`update_events`). The first
tick of a node over the storage of an earlier one finds the saved value of a port again if the
transform for reads leaves that value as it is (`restart_keeps_value`).
-/

namespace ControlNode.Node

open Port Backend

variable {n m k : Node} {key : PortKey} {p q : Port} {v w : Value}

/-! ### Announcements of a tick -/

/-- The events are announcements of values that the reads bring. -/
def Announced (n : Node) (reads : Reads) (events : List Event) : Prop :=
  ∀ e ∈ events, ∃ key v old, (key, some (.ok v)) ∈ reads ∧ n.Brings key (.ok v) ∧
    e = .valueChange key.id old v

/-- What has happened since is some more events in front. -/
def AddsEvents (n m : Node) (new : List Event) : Prop := m.events = new ++ n.events

theorem Evolves.events {R : Port → Port → Prop} (h : Evolves R n m) : m.events = n.events := by
  rw [h.rest]

theorem takeRead_events (hs : n.services = []) (key : PortKey) (r : Except PortError Value)
    (now : Int) : ∃ new, AddsEvents n (takeRead now n key r).2 new ∧
      n.Announced [(key, some r)] new := by
  have hsilent {m : Node} (h : m.events = n.events) :
      ∃ new, AddsEvents n m new ∧ n.Announced [(key, some r)] new :=
        ⟨[], h, fun _ he => by cases he⟩
  unfold takeRead
  split
  · rename_i v
    cases hp : n.portOf? key with
    | none =>
      rw [takeValue_of_none hp]
      exact hsilent rfl
    | some p =>
      cases hsame : Value.sameOption p.lastRead (some v) with
      | true =>
        rw [takeValue_of_same hp hsame]
        exact hsilent (by rw [putPort_frame])
      | false =>
        obtain ⟨new, hadds, hannounced⟩ : ∃ new, AddsEvents n (n.announcing p v) new ∧
            n.Announced [(key, some (.ok v))] new := by
          rw [announcing_eq hs]
          by_cases hinternal : p.internal = true
          · exact ⟨[], if_pos hinternal, fun _ he => by cases he⟩
          · refine ⟨[.valueChange p.id p.lastRead v], if_neg hinternal, fun e he => ?_⟩
            rw [List.mem_singleton.mp he, Port.id, key_of_portOf? hp]
            exact ⟨key, v, p.lastRead, by simp, ⟨v, p, rfl, hp, hsame⟩, rfl⟩
        rw [takeValue_of_new hp hsame]
        refine ⟨new, ?_, hannounced⟩
        dsimp only
        split
        · exact (saveHistory_tended key v now).evolves.events.trans hadds
        · exact hadds
  · exact hsilent rfl
  · exact hsilent rfl

theorem takeReads_events (hs : n.services = []) (now : Int) {reads : Reads}
    (honce : (reads.map Prod.fst).Nodup) : ∃ new, AddsEvents n (takeReads now n reads).2 new ∧
      n.Announced reads new := by
  induction reads generalizing n with
  | nil => exact ⟨[], rfl, fun _ he => by cases he⟩
  | cons e rest ih =>
    obtain ⟨key, r⟩ := e
    obtain ⟨hnew, hrest⟩ := List.nodup_cons.mp honce
    cases r with
    | none =>
      obtain ⟨new, hadds, hannounced⟩ := ih hs hrest
      refine ⟨new, hadds, fun e he => ?_⟩
      obtain ⟨key', v, old, hmem, hbrings, heq⟩ := hannounced e he
      exact ⟨key', v, old, List.mem_cons_of_mem _ hmem, hbrings, heq⟩
    | some r =>
      have htook := takeRead_tookOver hs key r now
      obtain ⟨new, hadds, hannounced⟩ := takeRead_events hs key r now
      obtain ⟨later, hadds', hannounced'⟩ := ih (htook.services.trans hs) hrest
      refine ⟨later ++ new, ?_, fun e he => ?_⟩
      · refine hadds'.trans ?_
        rw [hadds, List.append_assoc]
      · rcases List.mem_append.mp he with he | he
        · obtain ⟨key', v, old, hmem, hbrings, heq⟩ := hannounced' e he
          refine ⟨key', v, old, List.mem_cons_of_mem _ hmem, ?_, heq⟩
          -- the first read leaves the other ports as they are
          refine (htook.brings_iff (fun hfirst => ?_) _).mp hbrings
          rw [List.mem_singleton.mp hfirst] at hmem
          exact hnew (List.mem_map.mpr ⟨_, hmem, rfl⟩)
        · obtain ⟨key', v, old, hmem, hbrings, heq⟩ := hannounced e he
          exact ⟨key', v, old, List.mem_cons.mpr (.inl (List.mem_singleton.mp hmem)), hbrings, heq⟩

/-- Nothing is announced by a tick once the values have been taken over. -/
theorem update_events_eq (hf : Filed n) (hs : n.services = []) {now : Int} {t : Tick}
    (ht : (n.readsIn now).tick = some t) :
    (n.update now).events = (takeReads t.now (n.readsIn now) t.reads).2.events := by
  obtain ⟨t', hof, hin⟩ := readsIn_moved hf hs now
  obtain rfl : t' = t := Option.some.inj (hin.tick.symm.trans ht)
  have hserv : (n.readsIn now).services = [] := hin.services.trans hs
  have htook := takeReads_tookOver hserv t'.now hof.once
  have hwait := awaitStorage_worked (htook.services.trans hserv)
  have hsent := dispatch_called (n := (takeReads t'.now (n.readsIn now) t'.reads).2.awaitStorage)
    hof.nodup (takeReads t'.now (n.readsIn now) t'.reads).1
  rw [update_eq]
  unfold closeTick
  rw [ht]
  change ((takeReads t'.now (n.readsIn now) t'.reads).2.awaitStorage.dispatch t'
    (takeReads t'.now (n.readsIn now) t'.reads).1).events = _
  rw [hsent.rest]
  exact hwait.events

/-- A tick announces nothing but values that it brings. -/
theorem update_events (hf : Filed n) (hs : n.services = []) {now : Int} {t : Tick}
    (ht : (n.readsIn now).tick = some t) :
    ∃ new, AddsEvents n (n.update now) new ∧ n.Announced t.reads new := by
  obtain ⟨t', hof, hin⟩ := readsIn_moved hf hs now
  obtain rfl : t' = t := Option.some.inj (hin.tick.symm.trans ht)
  have hserv : (n.readsIn now).services = [] := hin.services.trans hs
  obtain ⟨new, hadds, hannounced⟩ := takeReads_events hserv t'.now hof.once
  refine ⟨new, ?_, fun e he => ?_⟩
  · rw [AddsEvents, update_events_eq hf hs ht, hadds, hin.events]
    rfl
  · obtain ⟨key, v, old, hmem, hbrings, heq⟩ := hannounced e he
    exact ⟨key, v, old, hmem,
      (hin.ports.brings_iff (fun _ _ _ => Moves.lastRead) (.ok v)).mp hbrings, heq⟩

/-! ### Ticks of calm nodes -/

theorem Tended.calm (h : Tended n m) (hn : n.Calm) : m.Calm := by
  refine ⟨h.evolves.services.trans hn.services, h.agenda ▸ hn.agenda, fun key q hq => ?_⟩
  have hports := h.evolves.ports.ports key
  rw [hq] at hports
  cases hp : n.portOf? key with
  | none =>
    rw [hp] at hports
    cases hports
  | some p =>
    rw [hp] at hports
    cases hports with
    | some hpq => exact hpq.idle (hn.ports key p hp)

/-- A tick of a calm node reads every enabled port whose reads have not failed. -/
theorem readsIn_of_calm (h : n.Calm) (hlocks : n.agenda.locks = []) {now : Int} {t : Tick}
    (ht : (n.readsIn now).tick = some t) (hkey : key ∈ t.enabled)
    (hback : n.backoff.members.get? key.id = none) : ∃ r, (key, some r) ∈ t.reads := by
  have hbegun : n.begun.Calm := by
    rw [begun_eq hlocks]
    exact ⟨h.services, h.agenda, h.ports⟩
  have hnoted : (n.begun.noting (n.begun.firstTick now)).Calm :=
    ⟨hbegun.services, hbegun.agenda, hbegun.ports⟩
  have hwait := awaitStorage_rests ((openTick_tended (n := n.begun) now).calm hnoted)
  refine readsIn_of_free hlocks rfl ?_ ?_ hwait.locks ht hkey hback
  all_goals rw [hwait.rest]

/-- A port that reads nothing but its value keeps it, and nothing is announced of the port. -/
theorem update_of_kept_value (h : Sound n) (hcalm : n.Calm) (hlocks : n.agenda.locks = [])
    (hq : n.Registered key q) (hon : q.enabled = true)
    (hback : n.backoff.members.get? key.id = none) (hw : q.lastRead = some w)
    (hself : w.same w = true) {r : Except PortError Value}
    (hread : ∀ q', Upkeep q q' → (q'.readValue n.wall).1 = r) (hkept : ∀ v, r = .ok v → v = w)
    (now : Int) : ∃ t q' new, (n.readsIn now).tick = some t ∧ (key, some r) ∈ t.reads ∧
      (n.update now).Registered key q' ∧ q'.lastRead = some w ∧
      AddsEvents n (n.update now) new ∧ ∀ old v, .valueChange key.id old v ∉ new := by
  obtain ⟨t, ids, m, hcall⟩ := exists_calling h.filed h.services now
  have hmem : key ∈ t.enabled := (hcall.of.enabled key).mpr ⟨q, hq, hon⟩
  have hreading (r' : Except PortError Value) (hr' : (key, some r') ∈ t.reads) : r' = r := by
    obtain ⟨p, q', hp, hmoves, rfl⟩ := hcall.of.faithful key r' hr'
    obtain rfl : q = p := Option.some.inj (hq.portOf?.symm.trans hp)
    exact hread q' (hmoves.upkeep (hcalm.ports key q hq.portOf?))
  obtain ⟨r', hr'⟩ := readsIn_of_calm hcalm hlocks hcall.tick hmem hback
  have hin : (key, some r) ∈ t.reads := hreading r' hr' ▸ hr'
  have hfound := hcall.findings h
  obtain ⟨a, ha, -, -, htaken, hleft⟩ := hfound.values key q hq
  obtain ⟨q', hq', hvalue⟩ := hfound.lasting key a ha
  obtain ⟨new, hadds, hannounced⟩ := update_events h.filed h.services hcall.tick
  refine ⟨t, q', new, hcall.tick, hin, hq', ?_, hadds, fun old v hv => ?_⟩
  · rw [hvalue]
    cases r with
    | ok v => rw [htaken v hin, hkept v rfl]
    | error e =>
      rw [hleft, hw]
      intro v hv
      cases hreading _ hv
  · obtain ⟨key', v', old', hmem', ⟨u, p, hu, hp, hdiff⟩, heq⟩ := hannounced _ hv
    have hid : key.id = key'.id := congrArg Event.source heq
    cases hu
    obtain ⟨p', hp', -⟩ := (hcall.of.enabled key').mp (hcall.of.planned _ hmem')
    -- two registered ports of one id are the same
    obtain rfl : q = p' := Option.some.inj (hq.1.symm.trans (hid ▸ hp'.1))
    obtain rfl : key' = key := hp'.2.symm.trans hq.2
    obtain rfl : q = p := Option.some.inj (hq.portOf?.symm.trans hp)
    rw [hkept v' (hreading _ hmem').symm, hw] at hdiff
    exact Bool.false_ne_true (hdiff.symm.trans hself)

/-! ### Coming back -/

/-- A port is added to a node in front of a device: directly, from the configuration, or from its
stored definition, where definitions are filed under their ids. -/
inductive Enters (n : Node) (id : String) : Device → Node → Prop
  | added (device : Device) : Enters n id device (n.add id device).2
  | configured {front back : List PortConfig} {c : PortConfig} {mappings : Dict String String}
      {device : Device} (hfront : ∀ c ∈ front, mappedId mappings c ≠ .ok id)
      (hc : mappedId mappings c = .ok id) (hdevice : buildDevice c id = .ok device) :
      Enters n id device (n.load (front ++ c :: back) mappings).2
  | defined {configs : List PortConfig} {mappings : Dict String String} {r : Record}
      {d : VirtualPortDef} (hconfigs : ∀ c ∈ configs, mappedId mappings c ≠ .ok id)
      (hdefs : (n.backend.collection definitionsCollection).Labelled)
      (hr : n.backend.recordAt? definitionsCollection id = some r)
      (hd : VirtualPortDef.ofRecord? r = some d) :
      Enters n id d.device (n.load configs mappings).2

namespace Enters

variable {id : String} {device : Device}

theorem sound (h : Enters n id device m) (hn : Sound n) : Sound m := by
  cases h with
  | added device => exact add_sound hn id device false []
  | configured => exact load_sound hn _ _
  | defined => exact load_sound hn _ _

/-- The port is set up in front of the device; its defaults, if any, are those of a definition. -/
theorem joins (h : Enters n id device m) (hcalm : n.Calm) (hready : n.backend.isReady)
    (hfault : n.idFault? id = none) :
    ∃ isVirtual defaults q, Joins n id device isVirtual defaults q m ∧
      Dict.get? defaults "transform_read" = none := by
  cases h with
  | added device =>
    obtain ⟨attrs, q, k, hadd, hq, -⟩ := add_calm hcalm hfault device false []
    rw [hadd]
    exact ⟨false, [], q, hq, rfl⟩
  | configured hfront hc hdevice =>
    obtain ⟨q, hq⟩ := load_configured hcalm hready hfault hfront hc hdevice
    exact ⟨false, [], q, hq, rfl⟩
  | @defined _ _ _ d hconfigs hdefs hr hd =>
    obtain ⟨q, hq⟩ := load_defined hcalm hready hfault hconfigs hdefs hr hd
    refine ⟨true, d.attrs, q, hq, ?_⟩
    rw [VirtualPortDef.get?_attrs]
    rfl

end Enters

/-- A transform that has been read for a port, remembers nothing and holds no negative zero. -/
structure PlainTransform (id : String) (e : Expr) : Prop where
  readable : Expr.Readable id e
  confined : e.Confined id
  memoryless : e.Memoryless
  unsigned : e.Unsigned

theorem restart_sound (h : Sound n) : Sound n.restart := by
  have hempty (id : String) (p : Port) : n.restart.port? id ≠ some p := nofun
  exact ⟨(cleanup_sound h).services, ⟨Dict.sorted_nil, fun id p hp => absurd hp (hempty id p)⟩,
    fun id p hp => absurd hp (hempty id p), DepGraph.acyclic_nil⟩

/-- The value of a persisted port that has been saved is there again after a restart, in the port
and in its device, if the storage gives the record of the port back. If the transform for reads
leaves the value as it is, the first tick reads it, unless reads are made to fail, and the port
keeps it unannounced. -/
theorem restart_keeps_value (h : Sound n) (hp : n.Registered key p) (henabled : p.enabled = true)
    (hpersisted : p.persisted = true) (hwritable : p.writable = true) (hv : p.lastRead = some v)
    (hfin : v.IsFinite) (htransform : ∀ e, p.transformRead = some e → PlainTransform p.id e)
    (hsaved : key ∈ n.savedBy .cleanup)
    (hgives : GivesBack n.cleanup.backend n.restart.backend portsCollection key.id)
    {device : Device} (hdevice : p.device.Alike device)
    (hblank : Text.allBlank key.id.toList = false) (hm : Enters n.restart key.id device m)
    (hfixed : { p with zone := n.restart.zone }.received v.stored n.restart.wall = .ok v.stored)
    (now : Int) :
    v.stored.same v = true ∧ ∃ key' q t r new,
      key'.id = key.id ∧ m.Registered key' q ∧ q.lastRead = some v.stored ∧
      (m.readsIn now).tick = some t ∧
      (key', some (if p.device.isReliable then .ok v.stored else .error readFailure)) ∈ t.reads ∧
      (m.update now).Registered key' r ∧ r.lastRead = some v.stored ∧
      AddsEvents m (m.update now) new ∧ ∀ old x, .valueChange key.id old x ∉ new := by
  refine ⟨Value.same_stored hfin, ?_⟩
  have hrecord : n.restart.recordOf? key.id = some p.toRecord :=
    recordOf?_restart h hp hsaved hgives
  obtain ⟨isVirtual, defaults, q, hjoins, hdefaults⟩ :=
    hm.joins (restart_calm h) hgives.ready (idFault?_restart hblank)
  obtain ⟨serial, capacity, g, g', hset⟩ := hjoins.setUp
  have hid : p.id = key.id := congrArg PortKey.id hp.2
  have hzone : q.zone = n.restart.zone := by
    rw [hset, (SameMake.setUp ..).zone]
    rfl
  have hrevived : Revived p q (p.domain.adapt v.stored) := by
    rw [hset, hrecord]
    exact revived_setUp ⟨hid.symm, hdevice⟩ henabled hpersisted hwritable hv hfin
      (fun e he => ⟨(htransform e he).readable, (htransform e he).confined,
        (htransform e he).unsigned⟩) hdefaults
  have hfit : p.domain.adapt v.stored = v.stored :=
    adapt_of_received (p := { p with zone := n.restart.zone }) hfixed
  rw [hfit] at hrevived
  rw [← hzone, ← hjoins.grows.wall] at hfixed
  have hkey : q.key.id = key.id := hrevived.id.trans hid
  have hq : m.Registered q.key q := ⟨hkey ▸ hjoins.port, rfl⟩
  have hlocks : m.agenda.locks = [] := hjoins.grows.locks
  have hback : m.backoff.members.get? q.key.id = none := by
    rw [hjoins.grows.backoff]
    rfl
  have hsame := Value.same_self (Value.isNaN_of_isFinite (Value.isFinite_stored hfin))
  obtain ⟨t, r, new, ht, hread, hr, hlast, hadds, hnone⟩ :=
    update_of_kept_value (hm.sound (restart_sound h)) hjoins.grows.calm hlocks hq hrevived.enabled
      hback hrevived.lastRead hsame
      (fun q' hkept => hrevived.reads hkept (fun e he => (htransform e he).memoryless) hfixed)
      (fun x hx => by
        split at hx
        · exact (Except.ok.inj hx).symm
        · cases hx) now
  exact ⟨q.key, q, t, r, new, hkey, hq, hrevived.lastRead, ht, hread, hr, hlast, hadds,
    fun old x => hkey ▸ hnone old x⟩

/-- A data file with the record of a tank that never shows more than a hundred. -/
def filled : Backend :=
  .file { directory := true } { collections := [("ports", [("tank",
    [("id", .str "tank"), ("persisted", .bool true),
      ("transform_read", .str "MIN($tank, 100)"), ("value", .int 10)])])] }

def tank : Device := .memory { type := .number, writable := true }

theorem filled_labelled : filled.Labelled := by
  intro name
  by_cases hname : name = "ports"
  · subst hname
    refine ⟨List.pairwise_singleton .., fun e he => ?_⟩
    rw [List.mem_singleton.mp he]
    rfl
  · have hnone : filled.collection name = [] := by
      have hget : Dict.get? (κ := String) [("ports", [("tank", [("id", Json.str "tank"),
          ("persisted", .bool true), ("transform_read", .str "MIN($tank, 100)"),
          ("value", .int 10)])])] name = none := by
        simp [Dict.get?, Ne.symm hname]
      exact congrArg (fun o => o.getD []) hget
    rw [hnone]
    exact ⟨.nil, fun _ he => by cases he⟩

theorem restart_keeps_value_capped :
    let k := ((create {} filled 0).add "tank" tank).2
    let m := (k.restart.add "tank" tank).2
    (Value.num 10).stored.same (.num 10) = true ∧ ∃ key' q t r new,
      key'.id = "tank" ∧ m.Registered key' q ∧ q.lastRead = some (Value.num 10).stored ∧
      (m.readsIn 1000).tick = some t ∧ (key', some (.ok (Value.num 10).stored)) ∈ t.reads ∧
      (m.update 1000).Registered key' r ∧ r.lastRead = some (Value.num 10).stored ∧
      AddsEvents m (m.update 1000) new ∧ ∀ old x, .valueChange "tank" old x ∉ new := by
  intro k m
  have hfault : (create {} filled 0).idFault? "tank" = none := by decide +kernel
  obtain ⟨attrs, k', p, hadd, hbackend, hp, g, g', hset⟩ := add_setUp rfl hfault tank false []
  obtain rfl : k = k' := congrArg Prod.snd hadd
  have hself : tank.Alike tank := .memory rfl rfl
  have hk : Sound k := add_sound (sound_create _ _ _ _) "tank" tank false []
  have hfields : (k.port? "tank").map (fun p => (p.enabled, p.persisted, p.lastRead,
      p.device.isReliable)) = some (true, true, some (.num 10), true) := by decide +kernel
  have hread : (k.port? "tank").map (fun p => (p.transformRead.all fun e =>
        decide ((∀ f ∈ e.calls, f.remembers = false) ∧ e.Unsigned),
      ({ p with zone := k.restart.zone }.received (Value.num 10).stored k.restart.wall).toOption)) =
      some (true, some (Value.num 10).stored) := by decide +kernel
  have hsaved : ⟨"tank", 0⟩ ∈ k.savedBy .cleanup := by decide +kernel
  have hfile : k.cleanup.backend.name = "json" ∧
      k.cleanup.backend.files.directory = true ∧ k.cleanup.backend.store.isFlat = true ∧
      k.cleanup.backend.store.toJson.isPlain Json.maxDepth = true := by decide +kernel
  have hm : Enters k.restart "tank" tank m := .added tank
  clear_value m k
  have hport : k.port? "tank" = some p := hp.1
  rw [hport] at hfields hread
  simp only [Option.map_some, Option.some.injEq, Prod.mk.injEq] at hfields hread
  obtain ⟨hon, hpersisted, hlast, hreliable⟩ := hfields
  obtain ⟨hplain, hreceived⟩ := hread
  have hrestorable : Restorable p := by
    rw [hset]
    exact (restorable_create hself ..).setUp g g' _ _
  have hdevice : tank.Alike p.device := by
    rw [hset]
    exact (restorable_create hself ..).device_setUp g g' _ _
  have htransform (e : Expr) (he : p.transformRead = some e) : PlainTransform p.id e := by
    obtain ⟨hreadable, hconfined⟩ := hrestorable.readTransform e he
    rw [he] at hplain
    obtain ⟨hmemoryless, hunsigned⟩ := of_decide_eq_true hplain
    exact ⟨hreadable, hconfined, hmemoryless, hunsigned⟩
  have hgives : GivesBack k.cleanup.backend k.restart.backend portsCollection "tank" := by
    obtain ⟨hname, hdirectory, hflat, hplain⟩ := hfile
    cases hb : k.cleanup.backend with
    | file files s =>
      rw [hb] at hdirectory hflat hplain
      rw [← hb]
      exact givesBack_of_file hk (hbackend ▸ filled_labelled) hb hdirectory
        (Store.normal_of_isFlat hflat) (Store.readsBack_of_isPlain hplain) "tank"
    | memory | tables | recordsOnly =>
      rw [hb] at hname
      simp [Backend.name] at hname
  have hfixed : { p with zone := k.restart.zone }.received (Value.num 10).stored k.restart.wall =
      .ok (Value.num 10).stored := by
    cases hr : { p with zone := k.restart.zone }.received (Value.num 10).stored k.restart.wall with
    | ok x =>
      rw [hr] at hreceived
      exact congrArg Except.ok (Option.some.inj hreceived)
    | error e =>
      rw [hr] at hreceived
      cases hreceived
  have hfin : (Value.num 10).IsFinite := by
    change Binary64.isFinite 10 = true
    decide +kernel
  have hresult := restart_keeps_value hk hp hon hpersisted hdevice.writable_eq hlast hfin
    htransform hsaved hgives hdevice.symm (by decide) hm hfixed 1000
  rw [hreliable] at hresult
  exact hresult

/-- A level whose device holds half of the value. -/
def halved : List Operation := [
  .addVirtual { id := "p", type := .number },
  .setAttr "p" "persisted" (.bool true),
  .setAttr "p" "transform_read" (.str "MUL($p, 2)"),
  .setAttr "p" "transform_write" (.str "DIV($p, 2)"),
  .setValue ⟨"p", 0⟩ (.num 10),
  .update 1000]

/-- Both transforms together leave the saved value as it is, but it has gone to the device without
the one for writes. -/
theorem saved_value_changes :
    let k := (create {} (.memory {}) 0).after halved
    let m := (k.restart.load [] []).2
    (k.port? "p").map (fun p => (p.enabled, p.writable, p.persisted, p.lastRead,
      ((p.transform p.transformWrite (.num 10) m.wall).1.toOption.bind fun raw =>
        (p.received raw m.wall).toOption))) =
      some (true, true, true, some (.num 10), some (.num 10)) ∧
    (m.port? "p").map (fun p => (p.enabled, p.lastRead, p.device.value)) =
      some (true, some (.num 10), some (.num 10)) ∧
    ((m.update 2000).port? "p").map Port.lastRead = some (some (.num 20)) := by
  decide +kernel

end ControlNode.Node
