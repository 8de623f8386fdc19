import ControlNode.Proofs.Node.Lasting
import ControlNode.Proofs.Node.Marks

/-!
# No unsaved change

Whatever the history, a registered port that has been saved and carries no mark is stored as it
is (`stored_of_unmarked`). Saving stores a port or marks it again; every other operation keeps
what is stored of a port that goes on being registered, or marks the port (`Preserves`).
-/

namespace ControlNode.Node

open Port

variable {n m k : Node}

/-! ### Stored ports -/

abbrev storedPort? (n : Node) (id : String) : Option Record :=
  n.backend.recordAt? portsCollection id

/-- Unless it is marked, the port of a key is stored as it is. -/
def Current (n : Node) (key : PortKey) : Prop :=
  ∀ p, n.Registered key p → p.dirty = false → n.storedPort? key.id = some p.toRecord

def Numbered (n : Node) : Prop := ∀ key p, n.Registered key p → key.serial < n.nextSerial

/-- Ports that were there before have not become out of date. -/
structure Preserves (n m : Node) : Prop where
  services : m.services = n.services
  serial : n.nextSerial ≤ m.nextSerial
  numbered : n.Numbered → m.Numbered
  current : ∀ key, key.serial < n.nextSerial → n.Current key → m.Current key

namespace Preserves

theorem refl (n : Node) : Preserves n n := ⟨rfl, Nat.le_refl _, fun h => h, fun _ _ h => h⟩

theorem trans (h : Preserves n m) (h' : Preserves m k) : Preserves n k :=
  ⟨h'.services.trans h.services, h.serial.trans h'.serial,
    fun hn => h'.numbered (h.numbered hn),
    fun key hkey hc => h'.current key (hkey.trans_le h.serial) (h.current key hkey hc)⟩

end Preserves

theorem Marks.current (h : Marks n m) {key : PortKey} (hc : n.Current key) : m.Current key := by
  intro q hq hclean
  obtain ⟨p, hp, hpq⟩ := h.ports.registered_of hq
  obtain ⟨hpclean, hrecord⟩ := hpq.record hclean
  rw [hrecord, ← hc p hp hpclean]
  exact Backend.recordAt?_congr h.records key.id

theorem Marks.preserves (h : Marks n m) : Preserves n m := by
  refine ⟨h.services, h.nextSerial.ge, ?_, fun key _ hc => h.current hc⟩
  intro hn key q hq
  obtain ⟨p, hp, -⟩ := h.ports.registered_of hq
  rw [h.nextSerial]
  exact hn key p hp

/-! ### Saving -/

theorem current_of_put {key : PortKey} {q : Port} (hq : q.key = key)
    (hport : ∀ id, m.port? id = if key.id = id then some q else n.port? id)
    (hrecords : ∀ id, key.id ≠ id → m.storedPort? id = n.storedPort? id)
    (hstored : q.dirty = false → m.storedPort? key.id = some q.toRecord) :
    m.Current key ∧ ∀ other, n.Current other → m.Current other := by
  have hself : m.Current key := by
    intro p hp hclean
    have hport := hp.1.symm.trans (hport key.id)
    rw [if_pos rfl] at hport
    cases hport
    exact hstored hclean
  refine ⟨hself, ?_⟩
  intro other hc p hp hclean
  have hp' := hp.1
  rw [hport] at hp'
  split at hp'
  · cases hp'
    have hsame : key = other := hq.symm.trans hp.2
    subst hsame
    exact hself q hp hclean
  · rename_i hne
    rw [hrecords other.id hne]
    exact hc p ⟨hp', hp.2⟩ hclean

theorem registered_of_keyAt {key : PortKey} (h : n.keyAt key.id = some key) :
    ∃ p, n.Registered key p := by
  obtain ⟨p, hp, hkey⟩ := Option.map_eq_some_iff.mp h
  exact ⟨p, hp, hkey⟩

theorem Registered.port?_putPort {key : PortKey} {p q : Port} (hp : n.Registered key p)
    (hq : q.key = key) (id : String) :
    (n.putPort q).port? id = if key.id = id then some q else n.port? id := by
  obtain ⟨hport, rfl⟩ := hp
  have hid : q.id = p.key.id := congrArg PortKey.id hq
  rw [Node.port?_putPort hport hq, hid]

theorem Registered.putPort {key : PortKey} {p q : Port} (hp : n.Registered key p)
    (hq : q.key = key) : (n.putPort q).Registered key q :=
  ⟨by rw [hp.port?_putPort hq, if_pos rfl], hq⟩

theorem savePort_current (force : Bool) {key : PortKey} (hkey : n.keyAt key.id = some key) :
    ((savePort force n key).1 = true → (savePort force n key).2.Current key) ∧
      ∀ other, n.Current other → (savePort force n key).2.Current other := by
  obtain ⟨p, hp⟩ := registered_of_keyAt hkey
  have hid : p.id = key.id := congrArg PortKey.id hp.2
  unfold savePort
  rw [hp.portOf?]
  dsimp only
  split
  · obtain ⟨q, hq⟩ : ∃ q : Port, q = { p with dirty := false } := ⟨_, rfl⟩
    have hqkey : q.key = key := by rw [hq]; exact hp.2
    have hrecord : p.toRecord = q.toRecord := by rw [hq]; rfl
    rw [← hq, hid, hrecord, putPort_backend]
    have hreg := hp.putPort hqkey
    have hothers (id : String) (hne : key.id ≠ id) :
        (n.backend.replace portsCollection key.id q.toRecord).2.recordAt? portsCollection id =
          n.storedPort? id := Backend.recordAt?_replace_of_ne _ _ _ hne
    split
    · rename_i found hok
      have hstored : (n.backend.replace portsCollection key.id q.toRecord).2.recordAt?
          portsCollection key.id = some q.toRecord := by
        have hqid : q.id = key.id := congrArg PortKey.id hqkey
        rw [Backend.recordAt?_replace hok, ← hqid, q.toRecord_withId]
      have hput := current_of_put (n := n) (m := ((n.putPort q).access true
        (n.backend.replace portsCollection key.id q.toRecord)).2) hqkey
        (hp.port?_putPort hqkey) hothers fun _ => hstored
      exact ⟨fun _ => hput.1, hput.2⟩
    -- the port in its place is marked again
    · obtain ⟨m, hm⟩ : ∃ m, m = ((n.putPort q).access true
          (n.backend.replace portsCollection key.id q.toRecord)).2 := ⟨_, rfl⟩
      obtain ⟨r, hr⟩ : ∃ r : Port, r = { q with dirty := true } := ⟨_, rfl⟩
      have hunsaved : m.Registered key q := by rw [hm]; exact hreg
      have hrkey : r.key = key := by rw [hr]; exact hqkey
      have hport (id : String) :
          (m.putPort r).port? id = if key.id = id then some r else n.port? id := by
        rw [hunsaved.port?_putPort hrkey]
        split
        · rfl
        · rename_i hne
          rw [hm]
          exact (hp.port?_putPort hqkey id).trans (if_neg hne)
      have hmarked : r.dirty = true := by rw [hr]
      have hput := current_of_put (n := n) (m := m.putPort r) hrkey hport
        (fun id hne => by
          rw [storedPort?, putPort_backend, hm]
          exact hothers id hne)
        fun h => by
          rw [hmarked] at h
          cases h
      rw [← hm, hunsaved.portOf?]
      dsimp only
      rw [← hr]
      exact ⟨fun h => (by cases h), hput.2⟩
  · exact ⟨fun h => (by cases h), fun _ hc => hc⟩

theorem savePort_preserves (force : Bool) {key : PortKey} (hkey : n.keyAt key.id = some key) :
    Preserves n (savePort force n key).2 := by
  have htended := (savePort_tended (n := n) force key).evolves
  have hserial : (savePort force n key).2.nextSerial = n.nextSerial := by rw [htended.rest]
  refine ⟨htended.services, hserial.ge, ?_, fun other _ hc => (savePort_current force hkey).2 _ hc⟩
  intro hn other q hq
  obtain ⟨p, hp, -⟩ := htended.ports.registered_of hq
  rw [hserial]
  exact hn other p hp

/-- The keys of the ports that are stored when the given ones are saved in turn. -/
def savedKeys (force : Bool) (pause : Node → Node) : Node → List PortKey → List PortKey
  | _, [] => []
  | n, key :: keys =>
    let rest := savedKeys force pause (pause (savePort force n key).2) keys
    if (savePort force n key).1 then key :: rest else rest

/-- After a save each port is stored as it is or marked, if it was before or has been stored. -/
theorem savePortList_current (hs : n.services = []) (force : Bool) {keys : List PortKey}
    (hkeys : ∀ key ∈ keys, n.keyAt key.id = some key) :
    Preserves n (n.savePortList force awaitStorage keys).2 ∧
      ∀ key, n.Current key ∨ key ∈ savedKeys force awaitStorage n keys →
        (n.savePortList force awaitStorage keys).2.Current key := by
  induction keys generalizing n with
  | nil =>
    refine ⟨.refl n, ?_⟩
    rintro key (hc | hmem)
    · exact hc
    · cases hmem
  | cons key keys ih =>
    have hkey := hkeys key (List.mem_cons_self ..)
    obtain ⟨hsaved, hkept⟩ := savePort_current force hkey
    have htended := (savePort_tended (n := n) force key).evolves
    have hidle := awaitStorage_marks (htended.services.trans hs)
    have hkeys' : ∀ other ∈ keys,
        (savePort force n key).2.awaitStorage.keyAt other.id = some other := by
      intro other ho
      rw [hidle.ports.keys, htended.ports.keys]
      exact hkeys other (List.mem_cons_of_mem _ ho)
    obtain ⟨hrest, hstored⟩ := ih (hidle.services.trans (htended.services.trans hs)) hkeys'
    refine ⟨((savePort_preserves force hkey).trans hidle.preserves).trans hrest, ?_⟩
    intro other hother
    apply hstored
    rcases hother with hc | hmem
    · exact .inl (hidle.current (hkept other hc))
    · unfold savedKeys at hmem
      split at hmem
      · rename_i htrue
        rcases List.mem_cons.mp hmem with rfl | hmem
        · exact .inl (hidle.current (hsaved htrue))
        · exact .inr hmem
      · exact .inr hmem

/-! ### Adding -/

theorem loadAttrs_marks (n : Node) (p : Port) (r : Record) : Marks n (n.loadAttrs p r).2 := by
  unfold Node.loadAttrs
  dsimp only
  split
  · exact forceEval_marks ..
  · exact .refl n

theorem accessAwait_marks {α : Type} (hs : n.services = []) (writes : Bool)
    {o : Backend.Outcome α}
    (h : o.2.collection portsCollection = n.backend.collection portsCollection) :
    Marks n (n.access writes o).2.awaitStorage := by
  have haccess := access_marks n writes h
  exact haccess.trans (awaitStorage_marks (haccess.services.trans hs))

theorem storedRecord_marks (hs : n.services = []) (id : String) :
    Marks n (n.storedRecord id).2 := accessAwait_marks hs false rfl

theorem restoreValue_marks (hs : n.services = []) (p : Port) (v : Value) :
    Marks n (n.restoreValue p v).2 := by
  unfold restoreValue
  dsimp only
  split
  · exact .of_worked (advance_worked hs _) (advance_backend hs _)
  · exact .refl n

/-- A port of a new serial number takes the place of no older one. -/
theorem file_preserves {id : String} {q : Port}
    (h : Marks { n with nextSerial := n.nextSerial + 1 } m) (hq : q.key = ⟨id, n.nextSerial⟩) :
    Preserves n { m with ports := Dict.insert m.ports q.id q } := by
  have hcases {key : PortKey} {p : Port}
      (hp : { m with ports := Dict.insert m.ports q.id q }.Registered key p) :
      key.serial = n.nextSerial ∨ m.Registered key p := by
    obtain ⟨hport, hkey⟩ := hp
    rw [port?, Dict.get?_insert] at hport
    split at hport
    · cases hport
      exact .inl (by rw [← hkey, hq])
    · exact .inr ⟨hport, hkey⟩
  have hserial : m.nextSerial = n.nextSerial + 1 := h.nextSerial
  refine ⟨h.services, ?_, ?_, ?_⟩
  · change n.nextSerial ≤ m.nextSerial
    omega
  · intro hn key p hp
    change key.serial < m.nextSerial
    rcases hcases hp with hnew | hold
    · omega
    · obtain ⟨r, hr, -⟩ := h.ports.registered_of hold
      have hlt := hn key r hr
      omega
  · intro key hkey hc p hp hclean
    rcases hcases hp with hnew | hold
    · omega
    · exact h.current hc p hold hclean

theorem register_preserves {id : String} {p : Port} (hs : n.services = [])
    (h : Marks { n with nextSerial := n.nextSerial + 1 } m) (hp : p.key = ⟨id, n.nextSerial⟩) :
    Preserves n (m.register p).2 := by
  have hkey : p.attrsJson.2.key = ⟨id, n.nextSerial⟩ := p.attrsJson_marking.key.trans hp
  have hfile := file_preserves h hkey
  have hforce := hfile.trans (forceEval_marks _ p.attrsJson.2.id).preserves
  exact hforce.trans (publish_marks (hforce.services.trans hs) _).preserves

theorem startWorkers_marks (n : Node) (key : PortKey) : Marks n (n.startWorkers key) := by
  unfold startWorkers
  dsimp only
  split
  · exact .refl n
  · exact (Marks.refl n).beside rfl rfl rfl rfl rfl

theorem loadAttrs_key (n : Node) (p : Port) (r : Record) : (n.loadAttrs p r).1.key = p.key :=
  (loadAttrs_switched p n.graph r).key

theorem prepare_marks (hs : n.services = []) (id : String) (device : Device) (isVirtual : Bool)
    (defaults : Record) :
    (n.prepare id device isVirtual defaults).1.key = ⟨id, n.nextSerial⟩ ∧
      Marks { n with nextSerial := n.nextSerial + 1 }
      (n.prepare id device isVirtual defaults).2 := by
  refine prepare_induction (motive := fun p m => p.key = ⟨id, n.nextSerial⟩ ∧
    Marks { n with nextSerial := n.nextSerial + 1 } m) ?_ ?_ ?_ ?_
  · exact ⟨rfl, .refl _⟩
  · rintro p m r ⟨hp, hm⟩
    exact ⟨(loadAttrs_key m p r).trans hp, hm.trans (loadAttrs_marks m p r)⟩
  · rintro p m ⟨hp, hm⟩
    exact ⟨hp, hm.trans (storedRecord_marks (hm.services.trans hs) id)⟩
  · rintro p m v ⟨hp, hm⟩
    exact ⟨(restore_continues p v).setup.key.trans hp,
      hm.trans (restoreValue_marks (hm.services.trans hs) p v)⟩

theorem add_preserves (hs : n.services = []) (id : String) (device : Device) (isVirtual : Bool)
    (defaults : Record) : Preserves n (n.add id device isVirtual defaults).2 := by
  cases hfault : n.idFault? id with
  | some fault =>
    rw [add_of_fault hfault]
    exact .refl n
  | none =>
    have hprepared := prepare_marks hs id device isVirtual defaults
    rw [add_of_no_fault hfault]
    revert hprepared
    generalize n.prepare id device isVirtual defaults = prepared
    rintro ⟨hkey, hmarks⟩
    exact (register_preserves hs hmarks hkey).trans (startWorkers_marks ..).preserves

theorem definitions_ne_ports : portsCollection ≠ definitionsCollection := by decide

theorem addVirtual_preserves (hs : n.services = []) (d : VirtualPortDef) :
    Preserves n (n.addVirtual d).2 := by
  have hadd : Preserves n (n.addDefined d).2 := add_preserves hs d.id d.device true d.attrs
  unfold addVirtual
  split
  · rename_i e m hm
    rw [hm] at hadd
    exact hadd
  · rename_i attrs m hm
    rw [hm] at hadd
    have hstored := accessAwait_marks (hadd.services.trans hs) true
      (m.backend.collection_replace_of_ne d.id d.toRecord definitions_ne_ports)
    have hall := hadd.trans hstored.preserves
    split
    · rename_i r k hk
      rw [hk] at hall
      exact hall
    · rename_i e k hk
      rw [hk] at hall
      exact hall

theorem loadEach_preserves {α : Type} {add : Node → α → Option NodeError × Node}
    (hadd : ∀ n a, n.services = [] → Preserves n (add n a).2) (hs : n.services = [])
    (as : List α) : Preserves n (loadEach add n as).2 := by
  induction as generalizing n with
  | nil => exact .refl n
  | cons a as ih =>
    have hstep := hadd n a hs
    exact hstep.trans (ih (hstep.services.trans hs))

theorem loadPort_eq (mappings : Dict String String) (n : Node) (c : PortConfig) :
    (loadPort mappings n c).2 = n ∨
      ∃ id device, (loadPort mappings n c).2 = (n.add id device).2 := by
  unfold loadPort
  split
  · exact .inl rfl
  · rename_i id _
    split
    · exact .inl rfl
    · rename_i device _
      refine .inr ⟨id, device, ?_⟩
      split
      · rename_i hm
        rw [hm]
      · rename_i hm
        rw [hm]

theorem loadPort_preserves (mappings : Dict String String) (hs : n.services = [])
    (c : PortConfig) : Preserves n (loadPort mappings n c).2 := by
  rcases loadPort_eq mappings n c with hsame | ⟨id, device, hadd⟩
  · rw [hsame]
    exact .refl n
  · rw [hadd]
    exact add_preserves hs id device false []

theorem loadDefined_eq (n : Node) (r : Record) :
    (loadDefined n r).2 = n ∨ ∃ d, (loadDefined n r).2 = (n.addDefined d).2 := by
  unfold loadDefined
  split
  · exact .inl rfl
  · rename_i d _
    refine .inr ⟨d, ?_⟩
    split
    · rename_i hm
      rw [hm]
    · rename_i hm
      rw [hm]

theorem loadDefined_preserves (hs : n.services = []) (r : Record) :
    Preserves n (loadDefined n r).2 := by
  rcases loadDefined_eq n r with hsame | ⟨d, hadd⟩
  · rw [hsame]
    exact .refl n
  · rw [hadd]
    exact add_preserves hs d.id d.device true d.attrs

theorem load_preserves (hs : n.services = []) (configs : List PortConfig)
    (mappings : Dict String String) : Preserves n (n.load configs mappings).2 := by
  have hindex (k : Node) (hk : k.services = []) :
      Marks k (k.access false k.backend.ensureIndex).2.awaitStorage :=
    accessAwait_marks hk false (by rw [Backend.collection_ensureIndex])
  have hfirst := hindex n hs
  have hsecond := hfirst.trans (hindex _ (hfirst.services.trans hs))
  have hports := hsecond.preserves.trans (loadEach_preserves
    (fun _ c hk => loadPort_preserves mappings hk c) (hsecond.services.trans hs) configs)
  unfold load
  dsimp only
  generalize loadEach (loadPort mappings) _ configs = loaded at hports
  obtain ⟨errors, k⟩ := loaded
  have hstored := hports.trans (accessAwait_marks (hports.services.trans hs) false
    (o := (k.backend.query definitionsCollection {}, k.backend)) rfl).preserves
  exact hstored.trans (loadEach_preserves (fun _ r hk => loadDefined_preserves hk r)
    (hstored.services.trans hs) _)

/-! ### Removing -/

theorem unregister_preserves (n : Node) (p : Port) : Preserves n (n.unregister p) := by
  have hold {key : PortKey} {q : Port} (hq : (n.unregister p).Registered key q) :
      n.Registered key q := by
    obtain ⟨hport, hkey⟩ := hq
    rw [port?, unregister, Dict.get?_erase] at hport
    split at hport
    · cases hport
    · exact ⟨hport, hkey⟩
  exact ⟨rfl, Nat.le_refl _, fun hn key q hq => hn key q (hold hq),
    fun key _ hc q hq hclean => hc q (hold hq) hclean⟩

/-- What is stored under an id of which no port is registered may be dropped. -/
theorem dropRecord_preserves {id : String} (h : n.port? id = none) (writes : Bool) :
    Preserves n (n.access writes (n.backend.remove portsCollection (Filter.byId id))).2 := by
  refine ⟨rfl, Nat.le_refl _, fun hn => hn, ?_⟩
  intro key _ hc p hp hclean
  have hold : n.Registered key p := hp
  have hne : key.id ≠ id := by
    rintro rfl
    rw [hold.1] at h
    cases h
  have hid : Dict.get? p.toRecord "id" = some (.str key.id) := by
    rw [p.get?_toRecord_id, Port.id, hold.2]
  exact Backend.recordAt?_remove (hc p hold hclean) hid hne

theorem thenAccess_preserves {r : Except PersistError Unit × Node} (hs : r.2.services = [])
    {f : Node → Backend.Outcome Nat}
    (h : ∀ writes, Preserves r.2 (r.2.access writes (f r.2)).2) :
    Preserves r.2 (thenAccess r f).2 := by
  unfold thenAccess
  split
  · exact .refl _
  · rename_i m
    have haccess := h ((f m).1.toOption.any (· > 0))
    exact haccess.trans (awaitStorage_marks (haccess.services.trans hs)).preserves

theorem purge_preserves (hs : n.services = []) {p : Port} (h : n.port? p.id = none) :
    Preserves n (n.purge p).2 := by
  have hrecord := thenAccess_preserves (r := (.ok (), n)) hs (f := fun n =>
    n.backend.remove portsCollection (Filter.byId p.id)) (dropRecord_preserves h)
  unfold purge
  dsimp only
  generalize thenAccess (.ok (), n) (fun n =>
    n.backend.remove portsCollection (Filter.byId p.id)) = r at hrecord
  have hdefinition : Preserves n (if p.isVirtual then
      thenAccess r fun n => n.backend.remove definitionsCollection (Filter.byId p.id)
      else r).2 := by
    split
    · exact hrecord.trans (thenAccess_preserves (hrecord.services.trans hs) fun writes =>
        (access_marks r.2 writes
          (r.2.backend.collection_remove_of_ne _ definitions_ne_ports)).preserves)
    · exact hrecord
  split
  · refine hdefinition.trans (thenAccess_preserves (hdefinition.services.trans hs) fun writes => ?_)
    exact (access_marks _ writes (by rw [Backend.collection_removeSamples])).preserves
  · exact hdefinition

theorem remove_preserves (hs : n.services = []) (id : String) (purged : Bool) :
    Preserves n (n.remove id purged).2 := by
  unfold remove
  split
  · exact .refl n
  · rename_i p hp
    have hstop : Marks (n.unregister p) ((n.unregister p).stopPorts [p.key]) :=
      stopPorts_marks (n := n.unregister p) hs [p.key]
    dsimp only
    obtain ⟨k, hk⟩ : ∃ k, k = { (n.unregister p).stopPorts [p.key] with
      backoff := ((n.unregister p).stopPorts [p.key]).backoff.erase id
      forced := ((n.unregister p).stopPorts [p.key]).forced.filter (· ≠ id) } := ⟨_, rfl⟩
    have hcleared : Marks (n.unregister p) k :=
      hstop.trans (hk ▸ (Marks.refl _).beside rfl rfl rfl rfl rfl)
    have hfree : k.port? p.id = none := by
      apply hcleared.ports.port?_eq_none
      rw [port?, unregister, Dict.get?_erase, if_pos rfl]
    have hout := (unregister_preserves n p).trans hcleared.preserves
    rw [← hk]
    have hpurged : Preserves n (if purged then k.purge p else (.ok (), k)).2 := by
      split
      · exact hout.trans (purge_preserves (hout.services.trans hs) hfree)
      · exact hout
    split
    · exact hpurged
    · exact hpurged.trans (publish_marks (hpurged.services.trans hs) _).preserves

theorem keyAt_of_mem_ports (h : Filed n) : ∀ key ∈ n.ports.map fun e => e.2.key,
    n.keyAt key.id = some key := by
  intro key hkey
  obtain ⟨⟨id, p⟩, he, rfl⟩ := List.mem_map.mp hkey
  have hport : n.port? id = some p := Dict.get?_of_mem h.sorted he
  have hid : p.key.id = id := h.ids id p hport
  rw [keyAt, hid, hport]
  rfl

/-! ### Saves of a history -/

/-- The keys of the ports that an operation stores. -/
def savedBy (n : Node) : Operation → List PortKey
  | .save force => savedKeys force awaitStorage n (n.ports.map fun e => e.2.key)
  | .cleanup => savedKeys true awaitStorage n (n.ports.map fun e => e.2.key)
  | _ => []

/-- The keys of the ports that are stored in the course of a history. -/
def savedIn (n : Node) : List Operation → List PortKey
  | [] => []
  | op :: ops => n.savedBy op ++ (n.perform op).savedIn ops

theorem mem_of_mem_savedKeys {force : Bool} {pause : Node → Node} {keys : List PortKey}
    {key : PortKey} (h : key ∈ savedKeys force pause n keys) : key ∈ keys := by
  induction keys generalizing n with
  | nil => cases h
  | cons other keys ih =>
    unfold savedKeys at h
    split at h
    · rcases List.mem_cons.mp h with rfl | h
      · exact List.mem_cons_self ..
      · exact List.mem_cons_of_mem _ (ih h)
    · exact List.mem_cons_of_mem _ (ih h)

theorem registered_of_mem_savedBy (h : Sound n) {op : Operation} {key : PortKey}
    (hkey : key ∈ n.savedBy op) : ∃ p, n.Registered key p := by
  have hmem : key ∈ n.ports.map fun e => e.2.key := by
    cases op with
    | save force => exact mem_of_mem_savedKeys hkey
    | cleanup => exact mem_of_mem_savedKeys hkey
    | _ => cases hkey
  exact registered_of_keyAt (keyAt_of_mem_ports h.filed key hmem)

theorem cleanup_preserves (h : Sound n) :
    Preserves n n.cleanup ∧ ∀ key, n.cleanup.Current key := by
  obtain ⟨hsave, -⟩ := savePortList_current h.services true (keyAt_of_mem_ports h.filed)
  unfold cleanup
  dsimp only
  obtain ⟨k, hk⟩ : ∃ k, k = (n.savePorts true awaitStorage).2 := ⟨_, rfl⟩
  have hsaved : Preserves n k := hk ▸ hsave
  rw [← hk]
  have hstop := stopPorts_marks (n := { k with ports := [], gone := Dict.values k.ports ++ k.gone })
    (hsaved.services.trans h.services) ((Dict.values k.ports).map Port.key)
  have hfree (key : PortKey) (p : Port) :
      ¬Registered ({ k with ports := [], gone := Dict.values k.ports ++ k.gone }.stopPorts
        ((Dict.values k.ports).map Port.key)) key p := by
    intro hp
    obtain ⟨q, ⟨hq, -⟩, -⟩ := hstop.ports.registered_of hp
    cases hq
  refine ⟨⟨hstop.services.trans hsaved.services, ?_, ?_, ?_⟩, ?_⟩
  · rw [hstop.nextSerial]
    exact hsaved.serial
  · exact fun _ key p hp => absurd hp (hfree key p)
  · exact fun key _ _ p hp => absurd hp (hfree key p)
  · exact fun key p hp => absurd hp (hfree key p)

/-- What the world around a node may do: nobody else writes the records of ports, and devices
keep their attributes. Stored attributes are restored only where a port is added. -/
def Admits (n : Node) : Operation → Prop
  | .loadAttrs .. => False
  | .device key value failReads failures => ∀ p, n.portOf? key = some p →
    (p.device.change value failReads failures).getAttr = p.device.getAttr
  | .storage b => b.collection portsCollection = n.backend.collection portsCollection
  | _ => True

/-- All operations of a history are admitted where they come. -/
def Untampered (n : Node) : List Operation → Prop
  | [] => True
  | op :: ops => n.Admits op ∧ (n.perform op).Untampered ops

theorem change_sameAttrs {d : Device} {value : Option Value} {failReads : Bool}
    {failures : List (DeviceCall × PortError)}
    (h : (d.change value failReads failures).getAttr = d.getAttr) :
    d.SameAttrs (d.change value failReads failures) := by
  cases d <;> exact ⟨rfl, rfl, rfl, h⟩

theorem perform_preserves (h : Sound n) {op : Operation} (ha : n.Admits op) :
    Preserves n (n.perform op) := by
  have hs := h.services
  have hbeside {m : Node} (hports : m.ports = n.ports) (hgone : m.gone = n.gone)
      (hserv : m.services = n.services) (hserial : m.nextSerial = n.nextSerial)
      (hb : m.backend.collection portsCollection = n.backend.collection portsCollection) :
      Preserves n m := ((Marks.refl n).beside hports hgone hserv hserial hb).preserves
  cases op with
  | load configs mappings => exact load_preserves hs configs mappings
  | add id device => exact add_preserves hs id device false []
  | addVirtual d => exact addVirtual_preserves hs d
  | remove id purged => exact remove_preserves hs id purged
  | cleanup => exact (cleanup_preserves h).1
  | setAttr id name value => exact (setAttr_marks h id name value).preserves
  | loadAttrs id r => exact ha.elim
  | getAttr key name =>
    exact (withPort_marks fun p hp => .putPort hp (p.getAttr_marking name)).preserves
  | attrs key => exact (withPort_marks fun p hp => .putPort hp p.attrsJson_marking).preserves
  | update now => exact (update_marks hs now).preserves
  | forceEval id => exact (forceEval_marks n id).preserves
  | forceEvalAll => exact hbeside rfl rfl rfl rfl rfl
  | pauseAsap limit => exact hbeside rfl rfl rfl rfl rfl
  | save force => exact (savePortList_current hs force (keyAt_of_mem_ports h.filed)).1
  | setValue key v => exact (withPort_marks fun p hp => setValue_marks hs hp v).preserves
  | writeValue key v => exact (withPort_marks fun p hp => writeValue_marks hs hp v).preserves
  | enqueueValue key v =>
    exact (withPort_marks fun p hp =>
      withTicket_marks hp fun t => p.enqueueWrite_marking v t).preserves
  | await t => exact (awaitResult_marks hs t).preserves
  | readValue key => exact (readValue_marks hs key).preserves
  | setSequence key s => exact (withPort_marks fun p hp => setSequence_marks hp s).preserves
  | run t => exact (runReadyTask_marks hs t).preserves
  | elapse time => exact hbeside rfl rfl rfl rfl rfl
  | wall time => exact hbeside rfl rfl rfl rfl rfl
  | device key value failReads failures =>
    exact (withPort_marks fun p hp =>
      .putPort hp (p.device_marking (change_sameAttrs (ha p hp)))).preserves
  | storage b => exact hbeside rfl rfl rfl rfl ha

theorem perform_saves (h : Sound n) {op : Operation} {key : PortKey}
    (hkey : key ∈ n.savedBy op) : (n.perform op).Current key := by
  cases op with
  | save force =>
    exact (savePortList_current h.services force (keyAt_of_mem_ports h.filed)).2 key (.inr hkey)
  | cleanup => exact (cleanup_preserves h).2 key
  | _ => cases hkey

/-- The saved ports of a node are stored as they are, unless they are marked. -/
structure Kept (n : Node) (saved : List PortKey) : Prop where
  sound : Sound n
  numbered : Numbered n
  current : ∀ key ∈ saved, key.serial < n.nextSerial ∧ n.Current key

theorem Kept.perform {saved : List PortKey} (h : Kept n saved) {op : Operation}
    (ha : n.Admits op) : Kept (n.perform op) (saved ++ n.savedBy op) := by
  have hstep := perform_preserves h.sound ha
  refine ⟨perform_sound h.sound op, hstep.numbered h.numbered, ?_⟩
  intro key hkey
  rcases List.mem_append.mp hkey with hold | hnew
  · obtain ⟨hlt, hc⟩ := h.current key hold
    exact ⟨hlt.trans_le hstep.serial, hstep.current key hlt hc⟩
  · obtain ⟨p, hp⟩ := registered_of_mem_savedBy h.sound hnew
    exact ⟨(h.numbered key p hp).trans_le hstep.serial, perform_saves h.sound hnew⟩

theorem Kept.after {saved : List PortKey} {ops : List Operation} (h : Kept n saved)
    (hw : n.Untampered ops) : Kept (n.after ops) (saved ++ n.savedIn ops) := by
  induction ops generalizing n saved with
  | nil =>
    rw [savedIn, List.append_nil]
    exact h
  | cons op ops ih =>
    rw [savedIn, ← List.append_assoc]
    exact ih (h.perform hw.1) hw.2

theorem kept_create (config : NodeConfig) (backend : Backend) (wall : Int) (zone : Zone) :
    Kept (create config backend wall zone) [] := by
  refine ⟨sound_create config backend wall zone, ?_, fun key hkey => by cases hkey⟩
  rintro key p ⟨hp, -⟩
  cases hp

/-- Whatever is done to a node, a registered port that has been saved since it was added and has
no mark is stored as it is. -/
theorem stored_of_unmarked (config : NodeConfig) (backend : Backend) (wall : Int) (zone : Zone)
    {ops : List Operation} (hw : (create config backend wall zone).Untampered ops) {id : String}
    {p : Port} (hp : ((create config backend wall zone).after ops).port? id = some p)
    (hsaved : p.key ∈ (create config backend wall zone).savedIn ops) (hclean : p.dirty = false) :
    ((create config backend wall zone).after ops).backend.recordAt? portsCollection id =
      some p.toRecord := by
  have hkept := (kept_create config backend wall zone).after hw
  have hid := hkept.sound.filed.ids id p hp
  rw [← hid]
  exact (hkept.current p.key hsaved).2 p (hkept.sound.filed.registered hp) hclean

/-- A save that fails and is made up for, and a tick that brings a value to be saved as well. -/
def retried : List Operation := [
  .add "tank" (.memory { type := .boolean, value := some (.bool true) }),
  .setAttr "tank" "persisted" (.bool true),
  .save false,
  .storage (.recordsOnly false {}),
  .save false,
  .update 1000,
  .save false]

theorem stored_of_unmarked_retried :
    (create {} (.recordsOnly true {}) 0).Untampered retried ∧
    ∃ p, ((create {} (.recordsOnly true {}) 0).after retried).port? "tank" = some p ∧
      p.key ∈ (create {} (.recordsOnly true {}) 0).savedIn retried ∧ p.dirty = false ∧
      ((create {} (.recordsOnly true {}) 0).after retried).backend.recordAt? portsCollection
        "tank" = some p.toRecord := by
  have hw : (create {} (.recordsOnly true {}) 0).Untampered retried := by
    have hempty : (((create {} (.recordsOnly true {}) 0).after (retried.take 3)).backend.collection
        portsCollection).isEmpty = true := by decide +kernel
    exact ⟨trivial, trivial, trivial, (List.isEmpty_iff.mp hempty).symm, trivial, trivial, trivial,
      trivial⟩
  have hport : (((create {} (.recordsOnly true {}) 0).after retried).port? "tank").map
      (fun p => (p.key, p.dirty)) = some (⟨"tank", 0⟩, false) := by decide +kernel
  have hsaved : ⟨"tank", 0⟩ ∈ (create {} (.recordsOnly true {}) 0).savedIn retried := by
    decide +kernel
  obtain ⟨p, hp, hpair⟩ := Option.map_eq_some_iff.mp hport
  obtain ⟨hkey, hclean⟩ := Prod.mk.inj hpair
  have hmem : p.key ∈ (create {} (.recordsOnly true {}) 0).savedIn retried := by
    rw [hkey]
    exact hsaved
  exact ⟨hw, p, hp, hmem, hclean,
    stored_of_unmarked {} (.recordsOnly true {}) 0 .utc hw hp hmem hclean⟩

end ControlNode.Node
