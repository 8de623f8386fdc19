import ControlNode.Proofs.Node.Lulls

/-!
# Between ticks

What is done to a node between ticks begins no second and announces no value. The ports that there
are keep their values while they are on, and the account of their samples and of their seconds
(`perform_undergoes`); a new one starts from its record (`perform_newcomer`).
-/

namespace ControlNode.Node

open Relation Port

variable {n m k : Node} {key : PortKey} {p q : Port}

/-! ### Removing -/

theorem haltPort_lull (n : Node) (key : PortKey) : Lull n (n.haltPort key) := by
  unfold haltPort
  split
  · exact .refl n
  · rename_i p hp
    have hput : Lull n (n.putPort p.halt.2) :=
      .putPort hp ⟨rfl, rfl, rfl, rfl, rfl, rfl, rfl, rfl, rfl⟩
    have hall := hput.trans (emitAll_worked key p.halt.1).lull
    exact hall.trans (.beside rfl rfl rfl rfl rfl)

theorem stopPorts_lull (hs : n.services = []) (keys : List PortKey) :
    Lull n (n.stopPorts keys) := by
  have hhalt : Lull n (keys.foldl haltPort n) :=
    foldl_lull hs (fun m key _ => haltPort_lull m key) keys
  have hwait := hhalt.trans (waitFor_worked (hhalt.services.trans hs)
    fun n => keys.all n.workersEnded).lull
  refine hwait.trans (foldl_lull (hwait.services.trans hs) (fun m key _ => ?_) keys)
  split
  · exact .refl m
  · rename_i p hp
    exact .putPort hp ⟨rfl, rfl, rfl, rfl, rfl, rfl, rfl, rfl, rfl⟩

theorem thenAccess_lull {r : Except PersistError Unit × Node} (hs : r.2.services = [])
    (op : Node → Backend.Outcome Nat) : Lull r.2 (thenAccess r op).2 := by
  unfold thenAccess
  split
  · exact .refl _
  · exact accessAwait_lull hs _ _

theorem purge_lull (hs : n.services = []) (p : Port) : Lull n (n.purge p).2 := by
  have hrecord := thenAccess_lull (r := (.ok (), n)) hs
    fun n => n.backend.remove portsCollection [("id", .str p.id)]
  unfold purge
  dsimp only
  generalize thenAccess (.ok (), n) (fun n =>
    n.backend.remove portsCollection [("id", .str p.id)]) = r at hrecord
  have hdefinition : Lull n (if p.isVirtual then
      thenAccess r fun n => n.backend.remove definitionsCollection [("id", .str p.id)]
      else r).2 := by
    split
    · exact hrecord.trans (thenAccess_lull (hrecord.services.trans hs) _)
    · exact hrecord
  split
  · exact hdefinition.trans (thenAccess_lull (hdefinition.services.trans hs) _)
  · exact hdefinition

theorem remove_lull (h : Sound n) (id : String) (purged : Bool) :
    Lull n (n.remove id purged).2 := by
  unfold remove
  split
  · exact .refl n
  · rename_i p hp
    have hid := h.filed.ids id p hp
    have hout : Lull n (n.unregister p) :=
      .of_portOf? (portOf?_unregister (by rw [hid]; exact hp)) rfl rfl rfl
    have hstop := hout.trans (stopPorts_lull (hout.services.trans h.services) [p.key])
    dsimp only
    obtain ⟨k, hk⟩ : ∃ k, k = { (n.unregister p).stopPorts [p.key] with
      backoff := ((n.unregister p).stopPorts [p.key]).backoff.erase id
      forced := ((n.unregister p).stopPorts [p.key]).forced.filter (· ≠ id) } := ⟨_, rfl⟩
    have hcleared : Lull n k := hstop.trans (hk ▸ .beside rfl rfl rfl rfl rfl)
    have hpurged : Lull n (if purged then k.purge p else (.ok (), k)).2 := by
      split
      · exact hcleared.trans (purge_lull (hcleared.services.trans h.services) p)
      · exact hcleared
    rw [← hk]
    split
    · exact hpurged
    · exact hpurged.trans (publish_lull (hpurged.services.trans h.services)
        (by simp [Event.portRemove]))

theorem cleanup_lull (h : Sound n) : Lull n n.cleanup := by
  have hsave : Lull n (n.savePorts true awaitStorage).2 := savePortList_lull h.services true _
  have hmoved : Moved n (n.savePorts true awaitStorage).2 := savePortList_moved h.services true _
  unfold cleanup
  dsimp only
  generalize (n.savePorts true awaitStorage).2 = k at hsave hmoved ⊢
  have harchive : Lull k { k with ports := [], gone := Dict.values k.ports ++ k.gone } :=
    .of_portOf? (portOf?_archive (h.filed.of_portsRel hmoved.ports)) rfl rfl rfl
  have hput := hsave.trans harchive
  exact hput.trans (stopPorts_lull (hput.services.trans h.services) _)

/-! ### All operations -/

/-- What an operation that is no tick leaves of a port. -/
structure Undergoes (op : Operation) (p q : Port) : Prop where
  key : q.key = p.key
  /-- A port that is on before and after the operation keeps its value. -/
  value : p.enabled = true → q.enabled = true → q.lastRead = p.lastRead
  /-- The time of the last sample is only ever restored with other attributes. -/
  last : (∀ r, op = .loadAttrs p.id r → "history_last_timestamp" ∉ Dict.keys r) →
    q.historyLast = p.historyLast
  beats : q.device.beats? = p.device.beats?

namespace Undergoes

variable {op : Operation} {r : Port}

theorem of_steady (h : Port.Steady p q) : Undergoes op p q :=
  ⟨h.key, fun _ _ => h.value, fun _ => h.last, h.beats⟩

theorem refl (op : Operation) (p : Port) : Undergoes op p p := .of_steady (.refl p)

theorem steady (h : Undergoes op p q) (h' : Port.Steady q r) : Undergoes op p r :=
  ⟨h'.key.trans h.key, fun hp hr => h'.value.trans (h.value hp (h'.enabled ▸ hr)),
    fun hlast => h'.last.trans (h.last hlast), h'.beats.trans h.beats⟩

end Undergoes

theorem Lull.undergoes (h : Lull n m) (op : Operation) : Interlude (Undergoes op) n m :=
  h.mono fun _ _ => .of_steady

theorem setAttr_undergoes (h : Sound n) (id name : String) (value : Json) :
    Interlude (Undergoes (.setAttr id name value)) n (n.setAttr id name value).2 := by
  unfold Node.setAttr
  split
  · exact (Lull.refl n).undergoes _
  · rename_i p hp
    have hid := h.filed.ids id p hp
    have hturned := p.setAttr_turned n.graph name value
    have hkey := hturned.key
    have hput : Interlude (Undergoes (.setAttr id name value)) n
        (n.putPort (p.setAttr n.graph name value).port) :=
      .putPort (portOf?_of_port? hp hid) hkey
        ⟨hkey, hturned.value_eq, fun _ => p.setAttr_last n.graph name value, hturned.beats⟩
        (.refl _)
    have hserv := hput.services.trans h.services
    have hself : (n.putPort (p.setAttr n.graph name value).port).portOf?
        (p.setAttr n.graph name value).port.key = some (p.setAttr n.graph name value).port := by
      refine portOf?_of_port? ?_ rfl
      rw [port?_putPort (by rw [hid]; exact hp) hkey, if_pos rfl]
    dsimp only
    split
    · exact hput
    · refine hput.trans (S := Port.Steady) (fun _ _ _ => .steady) ?_
      split
      · have hforce := forceEval_lull (n.putPort (p.setAttr n.graph name value).port) id
        refine hforce.trans (publishUpdate_lull (hforce.services.trans hserv) ?_)
        rw [forceEval_frame]
        exact hself
      · exact publishUpdate_lull hserv hself

theorem reloadAttrs_undergoes (h : Sound n) (id : String) (r : Record) :
    Interlude (Undergoes (.loadAttrs id r)) n (n.reloadAttrs id r) := by
  unfold reloadAttrs
  split
  · exact (Lull.refl n).undergoes _
  · rename_i p hp
    have hid := h.filed.ids id p hp
    have hturned := p.loadAttrs_turned n.graph r
    have hload := loadAttrs_lull n p r
    have hport : (n.loadAttrs p r).2.portOf? p.key = some p := by
      refine portOf?_of_port? ?_ rfl
      unfold Node.loadAttrs
      dsimp only
      split
      · rw [forceEval_frame, hid]
        exact hp
      · rw [hid]
        exact hp
    have hput : Interlude (Undergoes (.loadAttrs id r)) (n.loadAttrs p r).2
        ((n.loadAttrs p r).2.putPort (n.loadAttrs p r).1) :=
      .putPort hport hturned.key ⟨hturned.key, hturned.value_eq,
        fun hlast => p.loadAttrs_last n.graph (hlast r (by rw [hid])), hturned.beats⟩ (.refl _)
    refine Interlude.trans (S := Undergoes (.loadAttrs id r)) (fun p q r hpq hqr => ?_) hload hput
    exact ⟨hqr.key.trans hpq.key,
      fun hp hr => (hqr.value (hpq.enabled.trans hp) hr).trans hpq.value,
      fun hlast => (hqr.last (by rwa [Port.id, hpq.key])).trans hpq.last,
      hqr.beats.trans hpq.beats⟩

/-- An operation that is no tick announces no value and begins no second; a port keeps its value
while it is on, and the account of its samples and of its seconds. -/
theorem perform_undergoes (h : Sound n) (hn : n.Counted) {op : Operation}
    (hno : op.isTick = false) :
    Interlude (Undergoes op) n (n.perform op) := by
  have hs := h.services
  have hbeside {m : Node} (hports : m.ports = n.ports) (hgone : m.gone = n.gone)
      (hevents : m.events = n.events) (hsecond : m.lastSecond = n.lastSecond)
      (hserv : m.services = n.services) : Interlude (Undergoes op) n m :=
    (Lull.beside hports hgone hevents hsecond hserv).undergoes op
  cases op with
  | load configs mappings => exact (load_gains hs hn configs mappings).lull.undergoes _
  | add id device => exact (add_lull hs hn id device false []).undergoes _
  | addVirtual d =>
    have hadd : Lull n (n.addDefined d).2 := add_lull hs hn d.id d.device true d.attrs
    exact (hadd.trans (addVirtual_worked d (hadd.services.trans hs)).lull).undergoes _
  | remove id purged => exact (remove_lull h id purged).undergoes _
  | cleanup => exact (cleanup_lull h).undergoes _
  | setAttr id name value => exact setAttr_undergoes h id name value
  | loadAttrs id r => exact reloadAttrs_undergoes h id r
  | getAttr key name =>
    exact (withPort_lull fun p hp => .putPort hp (p.getAttr_steady name)).undergoes _
  | attrs key => exact (withPort_lull fun p hp => .putPort hp p.attrsJson_steady).undergoes _
  | update now => cases hno
  | forceEval id => exact (forceEval_lull n id).undergoes _
  | forceEvalAll => exact hbeside rfl rfl rfl rfl rfl
  | pauseAsap limit => exact hbeside rfl rfl rfl rfl rfl
  | save force => exact (savePortList_lull hs force _).undergoes _
  | setValue key v => exact (withPort_lull fun p hp => setValue_lull hs hp v).undergoes _
  | writeValue key v => exact (withPort_lull fun p hp => writeValue_lull hs hp v).undergoes _
  | enqueueValue key v =>
    exact (withPort_lull fun p hp => withTicket_lull hp (p.enqueueWrite_steady v _)).undergoes _
  | await t => exact (awaitResult_lull hs t).undergoes _
  | readValue key => exact (readValue_lull hs key).undergoes _
  | setSequence key s => exact (withPort_lull fun p hp => setSequence_lull hp s).undergoes _
  | run t => exact (runReadyTask_worked hs t).lull.undergoes _
  | elapse time => exact hbeside rfl rfl rfl rfl rfl
  | wall time => exact hbeside rfl rfl rfl rfl rfl
  | device key value failReads failures =>
    exact (withPort_lull fun p hp =>
      .putPort hp (change_steady p value failReads failures)).undergoes _
  | storage b => exact hbeside rfl rfl rfl rfl rfl

theorem after_counted (h : Sound n) (hn : n.Counted) (ops : List Operation) :
    (n.after ops).Counted := by
  have hchanges : Changes .anything n (n.after ops) :=
    after_changes h hn (fun _ _ _ _ _ _ => trivial) fun _ _ _ => trivial
  exact hchanges.counted hn

/-! ### New ports -/

/-- A port that has just been added has no value or the one that was stored under its id. -/
theorem perform_newcomer (hs : n.services = []) (hn : n.Counted) {op : Operation}
    (hadd : op.isAddition = true) (hnew : ∀ p, ¬n.Registered key p)
    (hq : (n.perform op).Registered key q) : StartsFrom (n.recordOf? key.id) q := by
  cases op with
  | load configs mappings =>
    exact ((load_gains hs hn configs mappings).anew key q hq).resolve_left fun ⟨p, hp⟩ => hnew p hp
  | add id device =>
    exact ((add_gains hs hn id device false []).anew key q hq).resolve_left
      fun ⟨p, hp⟩ => hnew p hp
  | addVirtual d =>
    have hgains : Gains n (n.addDefined d).2 := add_gains hs hn d.id d.device true d.attrs
    have hlater := addVirtual_worked d (hgains.lull.services.trans hs)
    obtain ⟨p, hp, hpq⟩ := hlater.ports.registered_of hq
    exact ((hgains.anew key p hp).resolve_left fun ⟨p, hp⟩ => hnew p hp).steady
      (steady_of_works hpq)
  | _ => cases hadd

end ControlNode.Node
