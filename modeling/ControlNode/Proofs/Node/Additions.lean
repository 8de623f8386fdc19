import ControlNode.Proofs.Node.Calm
import ControlNode.Proofs.Node.Saving
import ControlNode.Proofs.Port.Definitions
import ControlNode.Proofs.Port.Newcomers
import ControlNode.Proofs.Store.Lookups

/-!
# Adding ports to calm nodes

As long as nothing is asked of the ports of a node, adding a port leaves the others and the
records alone (`Grows`). The new port is set up from its defaults and its record (`add_calm`).
-/

namespace ControlNode.Node

open Port

variable {n m k : Node}

/-- Ports have been added, and nothing else has happened. -/
structure Grows (n m : Node) : Prop where
  calm : m.Calm
  locks : m.agenda.locks = n.agenda.locks
  backend : m.backend = n.backend
  backoff : m.backoff = n.backoff
  zone : m.zone = n.zone
  wall : m.wall = n.wall
  ports : ∀ id p, n.port? id = some p → m.port? id = some p

namespace Grows

theorem refl (h : n.Calm) : Grows n n := ⟨h, rfl, rfl, rfl, rfl, rfl, fun _ _ hp => hp⟩

theorem trans (h : Grows n m) (h' : Grows m k) : Grows n k :=
  ⟨h'.calm, h'.locks.trans h.locks, h'.backend.trans h.backend, h'.backoff.trans h.backoff,
    h'.zone.trans h.zone, h'.wall.trans h.wall, fun id p hp => h'.ports id p (h.ports id p hp)⟩

end Grows

theorem Rests.grows (h : Rests n m) (hn : n.Calm) : Grows n m := by
  refine ⟨h.calm hn, h.locks, ?_, ?_, ?_, ?_, ?_⟩
  all_goals
    rw [h.rest]
  exact fun _ _ hp => hp

/-! ### One port -/

theorem loadAttrs_rests (h : n.Calm) (p : Port) (r : Record) : Rests n (n.loadAttrs p r).2 := by
  unfold Node.loadAttrs
  dsimp only
  split
  · rw [forceEval_frame]
    exact ⟨rfl, h.agenda, rfl⟩
  · exact .refl h

/-- A query is answered, and nothing happens meanwhile. -/
theorem accessAwait_rests {α : Type} (h : n.Calm) (r : Except PersistError α) :
    Rests n (n.access false (r, n.backend)).2.awaitStorage := by
  have haccess : Rests n (n.access false (r, n.backend)).2 := ⟨rfl, h.agenda, rfl⟩
  exact haccess.trans (awaitStorage_rests (haccess.calm h))

/-- The record that is found under the id of a new port. -/
def recordOf? (n : Node) (id : String) : Option Record :=
  (n.backend.query portsCollection { filter := Filter.byId id, limit := some 1 }).toOption.bind
    List.head?

theorem storedRecord_rests (h : n.Calm) (id : String) :
    (n.storedRecord id).1 = n.recordOf? id ∧ Rests n (n.storedRecord id).2 :=
  ⟨rfl, accessAwait_rests h _⟩

theorem restoreValue_rests (h : n.Calm) (p : Port) (v : Value) :
    (n.restoreValue p v).1 = p.restore v ∧ Rests n (n.restoreValue p v).2 := by
  refine ⟨rfl, ?_⟩
  unfold restoreValue
  dsimp only
  split
  · exact advance_rests h _
  · exact .refl h

theorem startWorkers_frame (n : Node) (key : PortKey) :
    n.startWorkers key = { n with agenda := (n.startWorkers key).agenda } := by
  unfold startWorkers
  dsimp only
  split <;> rfl

theorem startWorkers_calm (h : n.Calm) (key : PortKey) : Grows n (n.startWorkers key) := by
  have hspawn {a : Agenda} (ha : a.Calm) (t : TaskId) :
      (a.spawn t).Calm ∧ (a.spawn t).locks = a.locks := by
    obtain ⟨htasks, hlocks⟩ := Agenda.wake_keeps { a with tasks := a.tasks ++ [(t, Wait.start)] } t
    refine ⟨fun e he => ?_, hlocks⟩
    rw [Agenda.spawn, htasks] at he
    rcases List.mem_append.mp he with he | he
    · exact ha e he
    · rw [List.mem_singleton.mp he]
      exact .inl rfl
  unfold startWorkers
  dsimp only
  split
  · exact .refl h
  · obtain ⟨hwriter, hlocks⟩ := hspawn h.agenda (.writer key)
    obtain ⟨heval, hlocks'⟩ := hspawn hwriter (.evaluator key)
    exact ⟨⟨h.services, heval, h.ports⟩, hlocks'.trans hlocks, rfl, rfl, rfl, rfl,
      fun _ _ hp => hp⟩

theorem register_frame (hs : n.services = []) (p : Port) : (n.register p).2 = { n with
    ports := Dict.insert n.ports p.id p.attrsJson.2
    forced := (n.register p).2.forced
    events := (n.register p).2.events } := by
  have hannounce (k : Node) (hk : k.services = []) (id : String) (e : Event) :
      (k.forceEval id).publish e = { k with
        forced := ((k.forceEval id).publish e).forced
        events := ((k.forceEval id).publish e).events } := by
    rw [forceEval_frame, publish_eq (by exact hk)]
  have hid : p.attrsJson.2.id = p.id := by
    rw [attrsJson_frame]
    rfl
  unfold register
  dsimp only
  rw [hid]
  exact hannounce { n with ports := Dict.insert n.ports p.id p.attrsJson.2 } hs p.id _

theorem port?_register (hs : n.services = []) (p : Port) (id : String) :
    (n.register p).2.port? id = if p.id = id then some p.attrsJson.2 else n.port? id := by
  rw [register_frame hs]
  exact Dict.get?_insert ..

/-- Nothing is asked of a new port under a free id. -/
theorem register_calm (h : n.Calm) {p : Port} (hp : p.Idle) (hfree : n.port? p.id = none) :
    Grows n (n.register p).2 := by
  have hidle : p.attrsJson.2.Idle := by
    rw [attrsJson_frame]
    exact hp.of_queues rfl rfl rfl
  have hframe := register_frame h.services p
  have hgone : (n.register p).2.gone = n.gone := by rw [hframe]
  refine ⟨⟨by rw [hframe, h.services], by rw [hframe]; exact h.agenda, ?_⟩, by rw [hframe],
    by rw [hframe], by rw [hframe], by rw [hframe], by rw [hframe], ?_⟩
  · intro key r hr
    rw [portOf?, port?_register h.services, hgone] at hr
    by_cases hid : p.id = key.id
    · rw [if_pos hid] at hr
      dsimp only at hr
      split at hr
      · cases hr
        exact hidle
      · refine h.ports key r ?_
        rw [portOf?, ← hid, hfree]
        exact hr
    · rw [if_neg hid] at hr
      exact h.ports key r hr
  · intro id r hr
    rw [port?_register h.services, if_neg]
    · exact hr
    · rintro rfl
      rw [hfree] at hr
      cases hr

/-- The port `q` stands among ports that have been added; it has been set up for the device from
the defaults and the record of its id. -/
structure Joins (n : Node) (id : String) (device : Device) (isVirtual : Bool) (defaults : Record)
    (q : Port) (m : Node) : Prop where
  grows : Grows n m
  port : m.port? id = some q
  setUp : ∃ serial capacity g g', q =
      (Port.create ⟨id, serial⟩ device isVirtual capacity n.zone).setUp
    g g' defaults ((n.recordOf? id).getD [])

namespace Joins

variable {id : String} {device : Device} {isVirtual : Bool} {defaults : Record} {q : Port}

theorem later (h : Joins n id device isVirtual defaults q m) (hk : Grows m k) :
    Joins n id device isVirtual defaults q k :=
  ⟨h.grows.trans hk, hk.ports id q h.port, h.setUp⟩

theorem earlier (hn : Grows n m) (h : Joins m id device isVirtual defaults q k) :
    Joins n id device isVirtual defaults q k := by
  refine ⟨hn.trans h.grows, h.port, ?_⟩
  have hrecord : m.recordOf? id = n.recordOf? id := by rw [recordOf?, recordOf?, hn.backend]
  rw [← hrecord, ← hn.zone]
  exact h.setUp

end Joins

section Add

variable {id : String} {device : Device} {isVirtual : Bool} {defaults : Record}

theorem loadAttrs_backend (n : Node) (p : Port) (r : Record) :
    (n.loadAttrs p r).2.backend = n.backend := by
  unfold Node.loadAttrs
  dsimp only
  split
  · rw [forceEval_frame]
  · rfl

/-- A new port is set up from its defaults and the record that is found. -/
theorem exists_prepare_port (n : Node) (id : String) (device : Device) (isVirtual : Bool)
    (defaults : Record) : ∃ g g', (n.prepare id device isVirtual defaults).1.attrsJson.2 =
      (Port.create ⟨id, n.nextSerial⟩ device isVirtual n.config.queueCapacity n.zone).setUp
        g g' defaults
        ((n.recordOf? id).getD []) := by
  obtain ⟨k, hk⟩ : ∃ k, k = { n with nextSerial := n.nextSerial + 1 } := ⟨_, rfl⟩
  obtain ⟨p, hp⟩ : ∃ p, p =
    Port.create ⟨id, n.nextSerial⟩ device isVirtual n.config.queueCapacity n.zone :=
    ⟨_, rfl⟩
  have hrecord : ((k.loadAttrs p defaults).2.storedRecord id).1 = n.recordOf? id := by
    change (k.loadAttrs p defaults).2.recordOf? id = _
    rw [recordOf?, loadAttrs_backend, hk]
    rfl
  refine ⟨k.graph, ((k.loadAttrs p defaults).2.storedRecord id).2.graph, ?_⟩
  rw [prepare, ← hk, ← hp]
  dsimp only
  rw [hrecord]
  refine congrArg (fun q : Port => q.attrsJson.2) ?_
  split
  · rename_i hstored
    exact (takeOver_of_some hstored).symm
  · rename_i hstored
    exact (takeOver_of_none hstored).symm

theorem prepare_rests (h : n.Calm) (id : String) (device : Device) (isVirtual : Bool)
    (defaults : Record) : (n.prepare id device isVirtual defaults).1.Idle ∧
      (n.prepare id device isVirtual defaults).1.id = id ∧
        Rests n (n.prepare id device isVirtual defaults).2 := by
  refine prepare_induction (motive := fun p m => p.Idle ∧ p.id = id ∧ Rests n m) ?_ ?_ ?_ ?_
  · exact ⟨idle_create .., rfl, ⟨rfl, h.agenda, rfl⟩⟩
  · rintro p m r ⟨hp, hid, hm⟩
    exact ⟨hp.loadAttrs m.graph r, (loadAttrs_id m p r).trans hid,
      hm.trans (loadAttrs_rests (hm.calm h) p r)⟩
  · rintro p m ⟨hp, hid, hm⟩
    exact ⟨hp, hid, hm.trans (storedRecord_rests (hm.calm h) id).2⟩
  · rintro p m v ⟨hp, hid, hm⟩
    exact ⟨hp.restore v, (restoreValue_id m p v).trans hid,
      hm.trans (restoreValue_rests (hm.calm h) p v).2⟩

theorem add_calm (h : n.Calm) (hfault : n.idFault? id = none) (device : Device) (isVirtual : Bool)
    (defaults : Record) : ∃ attrs q m, n.add id device isVirtual defaults = (.ok attrs, m) ∧
      Joins n id device isVirtual defaults q m ∧
        ∀ other, id ≠ other → m.port? other = n.port? other := by
  have hfree := port?_of_idFault? hfault
  obtain ⟨hidle, hid, hrests⟩ := prepare_rests h id device isVirtual defaults
  obtain ⟨g, g', hset⟩ := exists_prepare_port n id device isVirtual defaults
  have hadd := @add_of_no_fault _ id device isVirtual defaults hfault
  obtain ⟨prepared, hprepared⟩ : ∃ r, r = n.prepare id device isVirtual defaults := ⟨_, rfl⟩
  rw [← hprepared] at hidle hid hrests hset hadd
  have hsame : prepared.2.port? = n.port? := by
    rw [hrests.rest]
    rfl
  have hregister := register_calm (hrests.calm h) hidle (by rw [hsame, hid, hfree])
  have hstart := startWorkers_calm hregister.calm ⟨id, n.nextSerial⟩
  have hport (other : String) :
      ((prepared.2.register prepared.1).2.startWorkers ⟨id, n.nextSerial⟩).port? other =
        if id = other then some prepared.1.attrsJson.2 else n.port? other := by
    rw [startWorkers_frame, ← hsame, ← hid]
    exact port?_register (hrests.calm h).services ..
  refine ⟨_, prepared.1.attrsJson.2, _, hadd,
    ⟨((hrests.grows h).trans hregister).trans hstart, ?_, ?_⟩, ?_⟩
  · rw [hport, if_pos rfl]
  · exact ⟨_, _, g, g', hset⟩
  · intro other hne
    rw [hport, if_neg hne]

theorem add_grows (h : n.Calm) (id : String) (device : Device) (isVirtual : Bool)
    (defaults : Record) : Grows n (n.add id device isVirtual defaults).2 ∧
      ∀ other, id ≠ other → (n.add id device isVirtual defaults).2.port? other = n.port? other := by
  cases hfault : n.idFault? id with
  | some fault =>
    rw [add_of_fault hfault]
    exact ⟨.refl h, fun _ _ => rfl⟩
  | none =>
    obtain ⟨attrs, q, m, hadd, hjoin, hothers⟩ := add_calm h hfault device isVirtual defaults
    rw [hadd]
    exact ⟨hjoin.grows, hothers⟩

theorem prepare_backend (hs : n.services = []) (id : String) (device : Device) (isVirtual : Bool)
    (defaults : Record) : (n.prepare id device isVirtual defaults).2.backend = n.backend := by
  refine (prepare_induction (motive := fun _ m => m.services = [] ∧ m.backend = n.backend)
    ⟨hs, rfl⟩ ?_ ?_ ?_).2
  · rintro p m r ⟨hm, hb⟩
    exact ⟨(loadAttrs_lasts m p r).services.trans hm, (loadAttrs_backend m p r).trans hb⟩
  · rintro p m ⟨hm, hb⟩
    exact ⟨(storedRecord_lasts hm id).services.trans hm,
      (awaitStorage_backend (by exact hm)).trans hb⟩
  · rintro p m v ⟨hm, hb⟩
    refine ⟨(restoreValue_lasts hm p v).services.trans hm, ?_⟩
    unfold restoreValue
    dsimp only
    split
    · exact (advance_backend hm _).trans hb
    · exact hb

theorem add_setUp (hs : n.services = []) (hfault : n.idFault? id = none) (device : Device)
    (isVirtual : Bool) (defaults : Record) : ∃ attrs m q,
      n.add id device isVirtual defaults = (.ok attrs, m) ∧ m.backend = n.backend ∧
        m.Registered ⟨id, n.nextSerial⟩ q ∧ ∃ g g',
          q = (Port.create ⟨id, n.nextSerial⟩ device isVirtual n.config.queueCapacity n.zone).setUp
            g g'
            defaults ((n.recordOf? id).getD []) := by
  obtain ⟨hkey, hmarks⟩ := prepare_marks hs id device isVirtual defaults
  have hbackend := prepare_backend hs id device isVirtual defaults
  obtain ⟨g, g', hset⟩ := exists_prepare_port n id device isVirtual defaults
  have hadd := @add_of_no_fault _ id device isVirtual defaults hfault
  obtain ⟨prepared, hprepared⟩ : ∃ r, r = n.prepare id device isVirtual defaults := ⟨_, rfl⟩
  rw [← hprepared] at hkey hmarks hbackend hset hadd
  have hservices : prepared.2.services = [] := hmarks.services.trans hs
  refine ⟨_, _, prepared.1.attrsJson.2, hadd, ?_, ⟨?_, ?_⟩, g, g', hset⟩
  · rw [startWorkers_frame, register_frame hservices]
    exact hbackend
  · rw [startWorkers_frame]
    refine (port?_register hservices ..).trans (if_pos ?_)
    exact congrArg PortKey.id hkey
  · rw [attrsJson_frame]
    exact hkey

end Add

/-- The id of the new port leads to its key, and other ids lead where they did. -/
theorem keyAt_add (hs : n.services = []) {id : String} (hfault : n.idFault? id = none)
    (device : Device) (isVirtual : Bool) (defaults : Record) :
    (n.add id device isVirtual defaults).2.keyAt =
      Function.update n.keyAt id (some ⟨id, n.nextSerial⟩) := by
  obtain ⟨hkey, hmarks⟩ := prepare_marks hs id device isVirtual defaults
  rw [add_of_no_fault hfault]
  revert hkey hmarks
  generalize n.prepare id device isVirtual defaults = prepared
  intro hkey hmarks
  have hid : prepared.1.id = id := congrArg PortKey.id hkey
  have hregistered : prepared.1.attrsJson.2.key = ⟨id, n.nextSerial⟩ := by
    rw [attrsJson_frame]
    exact hkey
  funext other
  rw [startWorkers_frame]
  change ((prepared.2.register prepared.1).2.port? other).map Port.key = _
  rw [port?_register (hmarks.services.trans hs), hid, Function.update_apply]
  by_cases hother : id = other
  · rw [if_pos hother, if_pos hother.symm, Option.map_some, hregistered]
  · rw [if_neg hother, if_neg fun h => hother h.symm]
    exact hmarks.ports.keys other

/-! ### Loading -/

/-- A step of loading in which no port is added under an id. -/
structure Spares (id : String) (n m : Node) : Prop extends Grows n m where
  same : m.port? id = n.port? id

theorem loadEach_grows {α : Type} {add : Node → α → Option NodeError × Node}
    (hadd : ∀ n a, n.Calm → Grows n (add n a).2) (h : n.Calm) (as : List α) :
    Grows n (loadEach add n as).2 := by
  induction as generalizing n with
  | nil => exact .refl h
  | cons a as ih =>
    have hstep := hadd n a h
    exact hstep.trans (ih hstep.calm)

theorem loadEach_spares {α : Type} {add : Node → α → Option NodeError × Node} {id : String}
    {as : List α} (hadd : ∀ n, ∀ a ∈ as, n.Calm → Spares id n (add n a).2) (h : n.Calm) :
    Spares id n (loadEach add n as).2 := by
  induction as generalizing n with
  | nil => exact ⟨.refl h, rfl⟩
  | cons a as ih =>
    have hstep := hadd n a List.mem_cons_self h
    have hrest := ih (fun n a ha => hadd n a (List.mem_cons_of_mem _ ha)) hstep.calm
    exact ⟨hstep.toGrows.trans hrest.toGrows, hrest.same.trans hstep.same⟩

theorem loadEach_append {α : Type} (add : Node → α → Option NodeError × Node) (n : Node)
    (as bs : List α) :
    (loadEach add n (as ++ bs)).2 = (loadEach add (loadEach add n as).2 bs).2 := by
  induction as generalizing n with
  | nil => rfl
  | cons a as ih => exact ih _

theorem loadPort_grows (mappings : Dict String String) (h : n.Calm) (c : PortConfig) :
    Grows n (loadPort mappings n c).2 ∧ ∀ id, mappedId mappings c ≠ .ok id →
      (loadPort mappings n c).2.port? id = n.port? id := by
  unfold loadPort
  split
  · exact ⟨.refl h, fun _ _ => rfl⟩
  · rename_i id hid
    split
    · exact ⟨.refl h, fun _ _ => rfl⟩
    · rename_i device _
      obtain ⟨hgrows, hothers⟩ := add_grows h id device false []
      have hne (other : String) (hother : mappedId mappings c ≠ .ok other) : id ≠ other := by
        rintro rfl
        exact hother hid
      split
      · rename_i hm
        rw [hm] at hgrows hothers
        exact ⟨hgrows, fun other hother => hothers other (hne other hother)⟩
      · rename_i hm
        rw [hm] at hgrows hothers
        exact ⟨hgrows, fun other hother => hothers other (hne other hother)⟩

theorem loadDefined_grows (h : n.Calm) (r : Record) : Grows n (loadDefined n r).2 ∧
    ∀ id, (VirtualPortDef.ofRecord? r).map VirtualPortDef.id ≠ some id →
      (loadDefined n r).2.port? id = n.port? id := by
  unfold loadDefined
  split
  · exact ⟨.refl h, fun _ _ => rfl⟩
  · rename_i d hd
    obtain ⟨hgrows, hothers⟩ := add_grows h d.id d.device true d.attrs
    have hne (other : String)
        (hother : (VirtualPortDef.ofRecord? r).map VirtualPortDef.id ≠ some other) :
        d.id ≠ other := by
      rintro rfl
      exact hother (by rw [hd]; rfl)
    unfold addDefined
    split
    · rename_i hm
      rw [hm] at hgrows hothers
      exact ⟨hgrows, fun other hother => hothers other (hne other hother)⟩
    · rename_i hm
      rw [hm] at hgrows hothers
      exact ⟨hgrows, fun other hother => hothers other (hne other hother)⟩

/-- Loading adds the configured ports first and then those that are defined. -/
theorem load_calm (h : n.Calm) (hready : n.backend.isReady) (configs : List PortConfig)
    (mappings : Dict String String) : ∃ m k, Rests n m ∧
      Rests (loadEach (loadPort mappings) m configs).2 k ∧ (n.load configs mappings).2 =
        (loadEach loadDefined k (Dict.values (n.backend.collection definitionsCollection))).2 := by
  have hindex (k : Node) (hk : k.Calm) :
      Rests k (k.access false k.backend.ensureIndex).2.awaitStorage := by
    rw [show k.backend.ensureIndex = (k.backend.ensureIndex.1, k.backend) from
      Prod.ext rfl k.backend.ensureIndex_snd]
    exact accessAwait_rests hk _
  obtain ⟨m, hm⟩ : ∃ m, m = ((n.access false n.backend.ensureIndex).2.awaitStorage.access false
      (n.access false n.backend.ensureIndex).2.awaitStorage.backend.ensureIndex).2.awaitStorage :=
    ⟨_, rfl⟩
  have hrests : Rests n m := by
    have hfirst := hindex n h
    rw [hm]
    exact hfirst.trans (hindex _ (hfirst.calm h))
  have hloaded := (hrests.grows h).trans (loadEach_grows
    (fun _ c hk => (loadPort_grows mappings hk c).1) (hrests.calm h) configs)
  obtain ⟨k, hk⟩ : ∃ k, k = (loadEach (loadPort mappings) m configs).2 := ⟨_, rfl⟩
  rw [← hk] at hloaded
  have hstored : k.backend.query definitionsCollection {} =
      .ok (Dict.values (n.backend.collection definitionsCollection)) := by
    rw [hloaded.backend, Backend.query_all hready]
  refine ⟨m, _, hrests,
    hk ▸ accessAwait_rests hloaded.calm (k.backend.query definitionsCollection {}),
    ?_⟩
  unfold load
  dsimp only
  rw [← hm, ← hk]
  simp only [access, hstored]
  rfl

section Load

variable {id : String} {device : Device} {isVirtual : Bool} {defaults : Record}

theorem idFault?_congr (h : m.port? id = n.port? id) : m.idFault? id = n.idFault? id := by
  rw [idFault?, idFault?, h]

/-- One of several steps adds a port under an id that those in front of it leave free. -/
theorem loadEach_joins {α : Type} {add : Node → α → Option NodeError × Node} {front back : List α}
    {a : α} (hgrows : ∀ n a, n.Calm → Grows n (add n a).2)
    (hfront : ∀ n, ∀ b ∈ front, n.Calm → Spares id n (add n b).2)
    (hadd : ∀ n, n.Calm → n.idFault? id = none →
      ∃ q, Joins n id device isVirtual defaults q (add n a).2)
    (h : n.Calm) (hfault : n.idFault? id = none) :
    ∃ q, Joins n id device isVirtual defaults q (loadEach add n (front ++ a :: back)).2 := by
  have hspares := loadEach_spares hfront h
  obtain ⟨q, hq⟩ := hadd _ hspares.calm ((idFault?_congr hspares.same).trans hfault)
  have hback := loadEach_grows hgrows hq.grows.calm back
  rw [loadEach_append]
  exact ⟨q, .earlier hspares.toGrows (hq.later hback)⟩

variable {configs : List PortConfig} {mappings : Dict String String}

theorem load_configured (h : n.Calm) (hready : n.backend.isReady) (hfault : n.idFault? id = none)
    {front back : List PortConfig} {c : PortConfig}
    (hfront : ∀ c ∈ front, mappedId mappings c ≠ .ok id) (hc : mappedId mappings c = .ok id)
    (hdevice : buildDevice c id = .ok device) :
    ∃ q, Joins n id device false [] q (n.load (front ++ c :: back) mappings).2 := by
  obtain ⟨m, k, hrests, hstored, hload⟩ := load_calm h hready (front ++ c :: back) mappings
  have hsame : m.port? id = n.port? id := by
    rw [hrests.rest]
    rfl
  obtain ⟨q, hq⟩ : ∃ q, Joins m id device false [] q
      (loadEach (loadPort mappings) m (front ++ c :: back)).2 := by
    refine loadEach_joins (fun _ c hk => (loadPort_grows mappings hk c).1) ?_ ?_ (hrests.calm h)
      ((idFault?_congr hsame).trans hfault)
    · intro k c' hc' hk
      obtain ⟨hgrows, hothers⟩ := loadPort_grows mappings hk c'
      exact ⟨hgrows, hothers id (hfront c' hc')⟩
    · intro k hk hfree
      obtain ⟨attrs, q, k', hadd, hq, -⟩ := add_calm hk hfree device false []
      refine ⟨q, ?_⟩
      simp only [loadPort, hc, hdevice, hadd]
      exact hq
  have hdefined := loadEach_grows (fun _ r hk => (loadDefined_grows hk r).1)
    (hstored.calm hq.grows.calm) (Dict.values (n.backend.collection definitionsCollection))
  rw [hload]
  exact ⟨q, .earlier (hrests.grows h)
    (hq.later ((hstored.grows hq.grows.calm).trans hdefined))⟩

/-- A port with a stored definition is added, unless one is configured under its id. -/
theorem load_defined (h : n.Calm) (hready : n.backend.isReady) (hfault : n.idFault? id = none)
    (hconfigs : ∀ c ∈ configs, mappedId mappings c ≠ .ok id)
    (hdefs : (n.backend.collection definitionsCollection).Labelled) {r : Record}
    (hr : n.backend.recordAt? definitionsCollection id = some r) {d : VirtualPortDef}
    (hd : VirtualPortDef.ofRecord? r = some d) :
    ∃ q, Joins n id d.device true d.attrs q (n.load configs mappings).2 := by
  obtain ⟨m, k, hrests, hstored, hload⟩ := load_calm h hready configs mappings
  have hspares : Spares id m (loadEach (loadPort mappings) m configs).2 := by
    refine loadEach_spares (fun k c hc hk => ?_) (hrests.calm h)
    obtain ⟨hgrows, hothers⟩ := loadPort_grows mappings hk c
    exact ⟨hgrows, hothers id (hconfigs c hc)⟩
  have hsame : k.port? id = n.port? id := by
    rw [hstored.rest]
    refine hspares.same.trans ?_
    rw [hrests.rest]
    rfl
  obtain ⟨front, back, hsplit⟩ := List.append_of_mem (Dict.mem_of_get? hr)
  -- no definition in front is filed under the id
  have hid (e : String × Record) (he : e ∈ n.backend.collection definitionsCollection)
      {d' : VirtualPortDef} (hd' : VirtualPortDef.ofRecord? e.2 = some d') : d'.id = e.1 := by
    have hlabel := hdefs.label e he
    rw [VirtualPortDef.get?_id_of_ofRecord? hd'] at hlabel
    exact Json.str.inj (Option.some.inj hlabel)
  have hdid : d.id = id := hid (id, r) (Dict.mem_of_get? hr) hd
  have hfront (e : String × Record) (he : e ∈ front) : e.1 ≠ id := by
    have hsorted := hdefs.sorted
    rw [hsplit, Dict.Sorted, List.pairwise_append] at hsorted
    exact ne_of_lt (hsorted.2.2 e he (id, r) List.mem_cons_self)
  obtain ⟨q, hq⟩ : ∃ q, Joins k id d.device true d.attrs q
      (loadEach loadDefined k (Dict.values (n.backend.collection definitionsCollection))).2 := by
    rw [hsplit, Dict.values, List.map_append, List.map_cons]
    refine loadEach_joins (fun _ r hk => (loadDefined_grows hk r).1) ?_ ?_
      (hstored.calm hspares.calm) ((idFault?_congr hsame).trans hfault)
    · intro m' r' hr' hm'
      obtain ⟨e, he, rfl⟩ := List.mem_map.mp hr'
      obtain ⟨hgrows, hothers⟩ := loadDefined_grows hm' e.2
      refine ⟨hgrows, hothers id fun hsome => hfront e he ?_⟩
      obtain ⟨d', hd', hid'⟩ := Option.map_eq_some_iff.mp hsome
      rw [← hid e (by rw [hsplit]; exact List.mem_append_left _ he) hd', hid']
    · intro m' hm' hfree
      obtain ⟨attrs, q, k', hadd, hq, -⟩ := add_calm hm' hfree d.device true d.attrs
      refine ⟨q, ?_⟩
      simp only [loadDefined, hd, addDefined, hdid, hadd]
      exact hq
  rw [hload]
  exact ⟨q, .earlier ((hrests.grows h).trans
    (hspares.toGrows.trans (hstored.grows hspares.calm))) hq⟩

end Load

end ControlNode.Node
