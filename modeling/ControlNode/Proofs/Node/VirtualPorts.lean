import ControlNode.Proofs.Node.Restarts
import ControlNode.Proofs.Port.Embodiments
import ControlNode.Proofs.Port.Views

/-!
# Virtual ports across restarts

A virtual port that has been added and configured is there again after a restart, with the limits
that were set. A limit that was cleared is as the definition has it (`addVirtual_restored`).
-/

namespace ControlNode.Node

open Port Backend

variable {n m k : Node} {d : VirtualPortDef}

/-! ### Adding and configuring -/

/-- The port of a definition is registered, and the definition is stored. -/
structure Hosts (d : VirtualPortDef) (key : PortKey) (n : Node) (p : Port) : Prop where
  registered : n.Registered key p
  embodies : Embodies d p
  stored : n.backend.recordAt? definitionsCollection d.id = some d.toRecord

theorem toRecord_withId (d : VirtualPortDef) : d.toRecord.withId d.id = d.toRecord := by
  have hsorted : Dict.Sorted d.toRecord :=
    Dict.sorted_insert _ _ (Dict.sorted_insert _ _ (Dict.sorted_ofList _))
  refine Dict.ext_get? (Dict.sorted_insert _ _ hsorted) hsorted fun name => ?_
  rw [Record.withId, Dict.get?_insert]
  split
  · rename_i hname
    rw [← hname, d.get?_toRecord, if_pos rfl]
  · rfl

theorem idFault?_of_addVirtual {attrs : Json} (hadd : n.addVirtual d = (.ok attrs, m)) :
    n.idFault? d.id = none := by
  cases hfault : n.idFault? d.id with
  | none => rfl
  | some fault =>
    rw [addVirtual, addDefined, add_of_fault hfault] at hadd
    cases hadd

/-- An added port is idle, and so it stays as it is while the definition is stored. -/
theorem addVirtual_hosts (hs : n.services = []) (hlabels : n.backend.Labelled) {attrs : Json}
    (hadd : n.addVirtual d = (.ok attrs, m)) :
    m.backend.Labelled ∧ ∃ p, Hosts d ⟨d.id, n.nextSerial⟩ m p := by
  have hfault := idFault?_of_addVirtual hadd
  obtain ⟨_, k, q, hk, hbackend, hq, g, g', hset⟩ := add_setUp hs hfault d.device true d.attrs
  have hservices : k.services = [] := by
    have hextends := (add_extends hs d.id d.device true d.attrs).services
    rw [hk] at hextends
    exact hextends.trans hs
  obtain ⟨j, hj⟩ : ∃ j, j = (k.access true
      (k.backend.replace definitionsCollection d.id d.toRecord)).2 := ⟨_, rfl⟩
  have haccess : Worked k j := hj ▸ (Worked.refl k).beside rfl rfl rfl
  have hwait := awaitStorage_worked (haccess.services.trans hservices)
  rw [addVirtual, addDefined, hk] at hadd
  dsimp only at hadd
  split at hadd
  · rename_i found i hi
    have hstored : (k.backend.replace definitionsCollection d.id d.toRecord).1 = .ok found :=
      congrArg Prod.fst hi
    obtain rfl : j = i := hj.trans (congrArg Prod.snd hi)
    cases hadd
    obtain ⟨q', hq', hworks⟩ := (haccess.trans hwait).ports.registered hq
    have hidle : q.Idle := by
      rw [hset]
      exact (idle_create ..).setUp g g' d.attrs _
    obtain rfl : q' = q := eq_of_works_of_idle hworks hidle
    have hkept : j.awaitStorage.backend =
        (k.backend.replace definitionsCollection d.id d.toRecord).2 := by
      rw [awaitStorage_backend (haccess.services.trans hservices), hj]
      rfl
    rw [hkept]
    refine ⟨(hbackend ▸ hlabels : k.backend.Labelled).replace _ _ _, q', hq', ?_, ?_⟩
    · rw [hset]
      exact Embodies.setUp _ rfl _ _ g g' d.attrs _
    · have hrecord := recordAt?_replace hstored
      rw [toRecord_withId] at hrecord
      rwa [hkept]
  · cases hadd

/-- Attributes of a port have been changed, each time with success. -/
inductive Configures (id : String) (n : Node) : Node → Prop
  | start : Configures id n n
  | setAttr {m k : Node} {name : String} {value : Json} (h : Configures id n m)
      (hok : m.setAttr id name value = (.ok (), k)) : Configures id n k

theorem setAttr_hosts (h : Sound n) {key : PortKey} {p : Port} (hp : Hosts d key n p)
    (hid : key.id = d.id) {name : String} {value : Json}
    (hok : n.setAttr d.id name value = (.ok (), m)) :
    Sound m ∧ m.backend = n.backend ∧ ∃ q, Hosts d key m q := by
  have hsound := perform_sound h (.setAttr d.id name value)
  have hport := hp.registered.1
  rw [hid] at hport
  change Sound (n.setAttr d.id name value).2 at hsound
  rw [hok] at hsound
  refine ⟨hsound, ?_⟩
  rw [Node.setAttr, hport] at hok
  dsimp only at hok
  split at hok
  · cases hok
  · rename_i hresult
    have hset := hp.embodies.setAttr hresult
    have hkey : (p.setAttr n.graph name value).port.key = key :=
      (setAttr_switched p n.graph name value).key.trans hp.registered.2
    have hkey' : (p.setAttr n.graph name value).port.attrsJson.2.key = key := by
      rw [attrsJson_frame]
      exact hkey
    obtain ⟨k, hk⟩ : ∃ k, k = if (p.setAttr n.graph name value).evaluate then
      (n.putPort (p.setAttr n.graph name value).port).forceEval d.id
      else n.putPort (p.setAttr n.graph name value).port := ⟨_, rfl⟩
    have hput := hp.registered.putPort hkey
    obtain ⟨hregistered, hservices, hbackend⟩ :
      k.Registered key (p.setAttr n.graph name value).port ∧
        k.services = [] ∧ k.backend = n.backend := by
      rw [hk]
      split
      · rw [forceEval_frame]
        exact ⟨hput, by rw [putPort_frame]; exact h.services, putPort_backend ..⟩
      · exact ⟨hput, by rw [putPort_frame]; exact h.services, putPort_backend ..⟩
    rw [← hk] at hok
    obtain ⟨attrs, hm⟩ : ∃ attrs, m = (k.putPort
        (p.setAttr n.graph name value).port.attrsJson.2).publish attrs :=
      ⟨_, (congrArg Prod.snd hok).symm⟩
    have hlast : (k.putPort (p.setAttr n.graph name value).port.attrsJson.2).services = [] := by
      rw [putPort_frame]
      exact hservices
    rw [hm, publish_eq hlast]
    refine ⟨(putPort_backend ..).trans hbackend, _, hregistered.putPort hkey', hset, ?_⟩
    rw [putPort_backend, hbackend]
    exact hp.stored

theorem Configures.hosts (h : Configures d.id n m) (hn : Sound n) {key : PortKey}
    (hid : key.id = d.id) {p : Port} (hp : Hosts d key n p) :
    Sound m ∧ m.backend = n.backend ∧ ∃ q, Hosts d key m q := by
  induction h with
  | start => exact ⟨hn, rfl, p, hp⟩
  | setAttr _ hok ih =>
    obtain ⟨hsound, hbackend, q, hq⟩ := ih
    obtain ⟨hsound', hbackend', hq'⟩ := setAttr_hosts hsound hq hid hok
    exact ⟨hsound', hbackend'.trans hbackend, hq'⟩

/-! ### Coming back -/

theorem allBlank_of_idFault? {id : String} (h : n.idFault? id = none) :
    Text.allBlank id.toList = false := by
  unfold idFault? at h
  split at h
  · cases h
  · rename_i hblank
    exact Bool.eq_false_iff.mpr hblank

theorem idFault?_restart {id : String} (hblank : Text.allBlank id.toList = false) :
    n.restart.idFault? id = none := by
  have hempty : n.restart.port? id = none := rfl
  rw [idFault?, hblank, hempty]
  rfl

theorem restart_hosts (h : Sound n) (hlabels : n.backend.Labelled) {key : PortKey}
    (hid : key.id = d.id) {p : Port} (hp : Hosts d key n p)
    (hblank : Text.allBlank d.id.toList = false) (hsaved : key ∈ n.savedBy .cleanup)
    (hreopens : Reopens n.cleanup.backend (reopenBackend n.cleanup.backend))
    {configs : List PortConfig} {mappings : Dict String String}
    (hconfigs : ∀ c ∈ configs, mappedId mappings c ≠ .ok d.id) :
    ∃ q serial capacity g g', (n.restart.load configs mappings).2.port? d.id = some q ∧
      q = (Port.create ⟨d.id, serial⟩ d.device true capacity n.restart.zone).setUp g g'
        d.storable.attrs p.toRecord := by
  have hcleaned := cleanup_labelled h hlabels
  have hbackend : n.restart.backend = reopenBackend n.cleanup.backend := rfl
  have hcollection : n.restart.backend.collection definitionsCollection =
      n.backend.collection definitionsCollection := by
    rw [hbackend, hreopens.collection, collection_cleanup h definitions_ne_ports.symm]
  have hrecord : n.restart.recordOf? d.id = some p.toRecord := by
    rw [← hid]
    exact recordOf?_restart h hp.registered hsaved
      (hreopens.givesBack (hcleaned portsCollection) key.id)
  obtain ⟨q, hq⟩ := load_defined (restart_calm h) (hbackend ▸ hreopens.ready)
    (idFault?_restart hblank) hconfigs (hcollection ▸ hlabels definitionsCollection)
    ((recordAt?_congr hcollection d.id).trans hp.stored) d.ofRecord?_toRecord
  obtain ⟨serial, capacity, g, g', hset⟩ := hq.setUp
  rw [hrecord] at hset
  exact ⟨q, serial, capacity, g, g', hq.port, hset⟩

/-- A virtual port that has been added and configured is there again after a restart, virtual and
writable. It shows each limit that was set, and each one that was cleared as the definition has it.
The storage that follows is the one that the port has been saved in, and no configured port takes
its id. -/
theorem addVirtual_restored (h : Sound n) (hlabels : n.backend.Labelled) {attrs : Json}
    (hadd : n.addVirtual d = (.ok attrs, m)) (hset : Configures d.id m k)
    (hsaved : ⟨d.id, n.nextSerial⟩ ∈ k.savedBy .cleanup)
    (hreopens : Reopens k.cleanup.backend (reopenBackend k.cleanup.backend))
    {configs : List PortConfig} {mappings : Dict String String}
    (hconfigs : ∀ c ∈ configs, mappedId mappings c ≠ .ok d.id) :
    ∃ p q, k.port? d.id = some p ∧ (k.restart.load configs mappings).2.port? d.id = some q ∧
      q.isVirtual = true ∧ q.writable = true ∧ ∀ name ∈ limitNames,
        (q.getAttr name).1 = (p.getAttr name).1.or (d.port.getAttr name).1 := by
  have hsound : Sound m := by
    have hperformed := perform_sound h (.addVirtual d)
    change Sound (n.addVirtual d).2 at hperformed
    rwa [hadd] at hperformed
  obtain ⟨hlabels', p₀, hp₀⟩ := addVirtual_hosts h.services hlabels hadd
  obtain ⟨hk, hbackend, p, hp⟩ := hset.hosts hsound rfl hp₀
  have hblank := allBlank_of_idFault? (idFault?_of_addVirtual hadd)
  obtain ⟨q, serial, capacity, g, g', hq, hsetUp⟩ :=
    restart_hosts hk (hbackend ▸ hlabels') rfl hp hblank hsaved hreopens hconfigs
  have hembodies : Embodies d q := hsetUp ▸ Embodies.setUp _ rfl capacity _ g g' _ _
  refine ⟨p, q, hp.registered.1, hq, hembodies.isVirtual, hembodies.writable, fun name hname => ?_⟩
  rw [hsetUp]
  exact hp.embodies.getAttr_setUp hname _ rfl capacity _

theorem eq_ok_of_isSome {ε α : Type} {r : Except ε α × Node} (h : r.1.toOption.isSome = true) :
    ∃ a, r = (.ok a, r.2) := by
  obtain ⟨_ | a, m⟩ := r
  · cases h
  · exact ⟨a, rfl⟩

def level : VirtualPortDef :=
  { id := "level", type := .number, limits := { min := some 5, max := some 100 } }

theorem addVirtual_restored_level :
    let m := ((create {} (.memory {}) 0).addVirtual level).2
    let k := ((m.setAttr "level" "max" (.int 50)).2.setAttr "level" "min" .null).2
    ∃ p q, k.port? "level" = some p ∧ (k.restart.load [] []).2.port? "level" = some q ∧
      q.isVirtual = true ∧ q.writable = true ∧ ∀ name ∈ limitNames,
        (q.getAttr name).1 = (p.getAttr name).1.or (level.port.getAttr name).1 := by
  intro m k
  have hlabels : (create {} (.memory {}) 0).backend.Labelled := fun _ =>
    ⟨.nil, fun _ he => by cases he⟩
  obtain ⟨attrs, hadd⟩ := eq_ok_of_isSome (by decide +kernel :
    ((create {} (.memory {}) 0).addVirtual level).1.toOption.isSome = true)
  obtain ⟨_, hmax⟩ := eq_ok_of_isSome (by decide +kernel :
    (m.setAttr "level" "max" (.int 50)).1.toOption.isSome = true)
  obtain ⟨_, hmin⟩ := eq_ok_of_isSome (by decide +kernel :
    ((m.setAttr "level" "max" (.int 50)).2.setAttr "level" "min" .null).1.toOption.isSome = true)
  have hsaved : ⟨"level", 0⟩ ∈ k.savedBy .cleanup := by decide +kernel
  have hmemory : (k.cleanup.backend matches .memory _) = true := by decide +kernel
  have hreopens : Reopens k.cleanup.backend (reopenBackend k.cleanup.backend) := by
    cases hb : k.cleanup.backend with
    | memory s => exact reopens_memory s
    | _ =>
      rw [hb] at hmemory
      cases hmemory
  exact addVirtual_restored (sound_create _ _ _ _) hlabels hadd
    (.setAttr (.setAttr .start hmax) hmin) hsaved hreopens (by simp)

/-- A bound that has been cleared is there again after a restart. -/
theorem cleared_limit_returns :
    let m := ((create {} (.memory {}) 0).addVirtual level).2
    let k := (m.setAttr "level" "max" .null).2
    (m.setAttr "level" "max" .null).1.toOption = some () ∧
      (k.port? "level").map (fun p => (p.getAttr "max").1.isSome) = some false ∧
      ((k.restart.load [] []).2.port? "level").map (fun p => (p.getAttr "max").1.isSome) =
        some true := by decide +kernel

end ControlNode.Node
