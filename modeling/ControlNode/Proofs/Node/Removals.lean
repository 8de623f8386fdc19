import ControlNode.Proofs.Node.Restarts
import ControlNode.Proofs.Port.Views
import ControlNode.Proofs.Store.Purges

/-!
# Removals

A port that is removed is taken out of the registry and stopped (`detach`); with a purge, what is
stored of it is dropped after that. In memory a purge leaves nothing of the port behind and
leaves everything else alone (`remove_purges`).
-/

namespace ControlNode.Node

open Port

variable {n m k : Node}

/-! ### Taking out -/

/-- A node after a port has been taken out and stopped. -/
def detach (n : Node) (p : Port) : Node :=
  { (n.unregister p).stopPorts [p.key] with
    backoff := ((n.unregister p).stopPorts [p.key]).backoff.erase p.id
    forced := ((n.unregister p).stopPorts [p.key]).forced.filter (· ≠ p.id) }

theorem remove_eq {p : Port} (hp : n.port? p.id = some p) (purged : Bool) :
    n.remove p.id purged =
      match if purged then (n.detach p).purge p else (.ok (), n.detach p) with
      | (.error e, m) => (.error (.persist e), m)
      | (.ok (), m) => (.ok (), m.publish (.portRemove p.id)) := by
  simp only [remove, hp, detach]
  generalize (if purged = true then _ else _) = r
  obtain ⟨_ | _, m⟩ := r <;> rfl

theorem port?_unregister (n : Node) (p : Port) (id : String) :
    (n.unregister p).port? id = if p.id = id then none else n.port? id :=
  Dict.get?_erase ..

theorem keyAt_unregister (n : Node) (p : Port) :
    (n.unregister p).keyAt = Function.update n.keyAt p.id none := by
  funext id
  rw [keyAt, port?_unregister, Function.update_apply]
  by_cases hid : p.id = id
  · rw [if_pos hid, if_pos hid.symm]
    rfl
  · rw [if_neg hid, if_neg fun h => hid h.symm]
    rfl

/-- All ports but the one of the key show what they showed. -/
abbrev Besides (key : PortKey) (p q : Port) : Prop := p.key ≠ key → SameView p q

theorem besides_refl (key : PortKey) (p : Port) : Besides key p p := fun _ => .refl p

theorem besides_trans (key : PortKey) (p q r : Port) (h : Besides key p q) (h' : Besides key q r) :
    Besides key p r := by
  intro hkey
  have hpq := h hkey
  exact hpq.trans (h' (by rwa [hpq.key]))

theorem Worked.besides (h : Worked n m) (key : PortKey) : Evolves (Besides key) n m :=
  h.mono fun _ _ hpq _ => sameView_of_works hpq

theorem putPort_besides (n : Node) (p : Port) : Evolves (Besides p.key) n (n.putPort p) :=
  .putPort (besides_refl _) fun _ hq hkey => absurd (key_of_portOf? hq) hkey

theorem haltPort_besides (n : Node) (key : PortKey) :
    Evolves (Besides key) n (n.haltPort key) := by
  unfold haltPort
  split
  · exact .refl (besides_refl key) n
  · rename_i p hp
    have hhalt : p.halt.2.key = p.key := rfl
    have hkey : p.halt.2.key = key := hhalt.trans (key_of_portOf? hp)
    have hput : Evolves (Besides key) n (n.putPort p.halt.2) := hkey ▸ putPort_besides n p.halt.2
    exact (hput.trans (besides_trans key) ((emitAll_worked key p.halt.1).besides key)).beside
      rfl rfl rfl

theorem stopPorts_besides (hs : n.services = []) (key : PortKey) :
    Evolves (Besides key) n (n.stopPorts [key]) := by
  have hhalt := haltPort_besides n key
  have hwait := hhalt.trans (besides_trans key)
    ((waitFor_worked (hhalt.services.trans hs) fun n => [key].all n.workersEnded).besides key)
  refine hwait.trans (besides_trans key) ?_
  simp only [stopPorts, List.foldl_cons, List.foldl_nil]
  split
  · exact .refl (besides_refl key) _
  · rename_i p hp
    have hcleared : p.clearPending.key = p.key := rfl
    have hkey : p.clearPending.key = key := hcleared.trans (key_of_portOf? hp)
    exact hkey ▸ putPort_besides _ p.clearPending

theorem detach_services (hs : n.services = []) (p : Port) : (n.detach p).services = [] :=
  (stopPorts_besides (n := n.unregister p) hs p.key).services.trans hs

theorem detach_keyAt (hs : n.services = []) (p : Port) :
    (n.detach p).keyAt = Function.update n.keyAt p.id none :=
  (funext (stopPorts_besides (n := n.unregister p) hs p.key).ports.keys).trans
    (keyAt_unregister n p)

/-! ### Dropping what is stored -/

theorem thenAccess_ok (hs : n.services = []) (op : Node → Backend.Outcome Nat) {count : Nat}
    {b : Backend} (h : op n = (.ok count, b)) : ∃ m, thenAccess (.ok (), n) op = (.ok (), m) ∧
      Worked n m ∧ m.backend = b := by
  obtain ⟨k, hk⟩ : ∃ k, k = (n.access (count > 0) ((.ok count, b) : Backend.Outcome Nat)).2 :=
    ⟨_, rfl⟩
  have haccess : Worked n k := hk ▸ (Worked.refl n).beside rfl rfl rfl
  have hservices := haccess.services.trans hs
  refine ⟨k.awaitStorage, ?_, haccess.trans (awaitStorage_worked hservices), ?_⟩
  · rw [hk]
    simp only [thenAccess, h]
    rfl
  · rw [awaitStorage_backend hservices, hk]
    rfl

/-- All that is stored of a port has been dropped, and nothing else. -/
structure Dropped (p : Port) (s s' : Store) : Prop where
  records : ∀ name, s'.collection name =
    if name = portsCollection ∨ name = definitionsCollection ∧ p.isVirtual = true then
      (s.collection name).filter fun e => !e.2.hasId p.id
    else s.collection name
  samples : ∀ name object, s'.series name object =
    if name = historyCollection ∧ object = p.id then [] else s.series name object

theorem remove_memory (s : Store) (name id : String) : ∃ count s',
    (Backend.memory s).remove name (Filter.byId id) = (.ok count, .memory s') ∧
      s'.samples = s.samples ∧ s'.collection = Function.update s.collection name
        ((s.collection name).filter fun e => !e.2.hasId id) := by
  obtain ⟨⟨count, hcount⟩, hcollection⟩ := s.remove_byId name id
  refine ⟨count, _, ?_, s.samples_remove name (Filter.byId id), hcollection⟩
  rw [Backend.remove]
  generalize s.remove name (Filter.byId id) = r at hcount
  obtain ⟨result, s'⟩ := r
  obtain rfl : result = .ok count := hcount
  rfl

theorem purge_memory (hs : n.services = []) {s : Store} (hb : n.backend = .memory s)
    (hsorted : Dict.Sorted (s.objects historyCollection)) (p : Port) : ∃ m s',
      n.purge p = (.ok (), m) ∧ Worked n m ∧ m.backend = .memory s' ∧ Dropped p s s' := by
  let drop (name : String) (n : Node) := n.backend.remove name (Filter.byId p.id)
  let dropSamples (n : Node) := n.backend.removeSamples historyCollection (some [p.id]) {}
  obtain ⟨_, s₁, hremove₁, hsamples₁, hrecords₁⟩ := remove_memory s portsCollection p.id
  obtain ⟨n₁, hstep₁, hworked₁, hb₁⟩ := thenAccess_ok hs (drop portsCollection)
    (by rw [← hremove₁, ← hb])
  have hs₁ := hworked₁.services.trans hs
  -- the definition of a virtual port goes with its record
  obtain ⟨n₂, s₂, hstep₂, hworked₂, hb₂, hsamples₂, hrecords₂⟩ : ∃ n₂ s₂,
      (if p.isVirtual then thenAccess (.ok (), n₁) (drop definitionsCollection) else (.ok (), n₁)) =
          (.ok (), n₂) ∧ Worked n₁ n₂ ∧ n₂.backend = .memory s₂ ∧ s₂.samples = s₁.samples ∧
        s₂.collection = if p.isVirtual then Function.update s₁.collection definitionsCollection
          ((s₁.collection definitionsCollection).filter fun e => !e.2.hasId p.id)
          else s₁.collection := by
    cases hvirtual : p.isVirtual with
    | false => exact ⟨n₁, s₁, rfl, .refl n₁, hb₁, rfl, rfl⟩
    | true =>
      obtain ⟨_, s₂, hremove₂, hsamples₂, hrecords₂⟩ := remove_memory s₁ definitionsCollection p.id
      obtain ⟨n₂, hstep₂, hworked₂, hb₂⟩ := thenAccess_ok hs₁ (drop definitionsCollection)
        (by rw [← hremove₂, ← hb₁])
      exact ⟨n₂, s₂, hstep₂, hworked₂, hb₂, hsamples₂, hrecords₂⟩
  have hs₂ := hworked₂.services.trans hs₁
  obtain ⟨m, hstep₃, hworked₃, hb₃⟩ := thenAccess_ok hs₂ dropSamples
    (b := .memory (s₂.removeSamples historyCollection (some [p.id]) {}).2)
    (by simp only [dropSamples, hb₂]; rfl)
  refine ⟨m, _, ?_, hworked₁.trans (hworked₂.trans hworked₃), hb₃, ?_, ?_⟩
  · have hsupported : n₂.backend.samplesSupported = true := by rw [hb₂]; rfl
    rw [← hstep₃, ← hstep₂, ← hstep₁, purge, hb]
    rfl
  · intro name
    rw [Store.collection_removeSamples, hrecords₂, hrecords₁]
    have hne := definitions_ne_ports
    cases p.isVirtual with
    | false => by_cases hname : name = portsCollection <;> simp [hname]
    | true =>
      by_cases hname : name = portsCollection
      · simp [hname, hne]
      · by_cases hname' : name = definitionsCollection
        · simp [hname', hne.symm]
        · simp [hname, hname']
  · intro name object
    have hobjects : s₂.objects historyCollection = s.objects historyCollection := by
      rw [Store.objects, Store.objects, hsamples₂, hsamples₁]
    have hsame : s₂.series name object = s.series name object := by
      rw [Store.series, Store.series, hsamples₂, hsamples₁]
    rw [Store.series_removeSamples_of_object (by rwa [hobjects]), hsame]

/-! ### Purges -/

/-- A port has been taken out of the registry, and nobody else has noticed. -/
structure Vanished (p : Port) (n m : Node) : Prop where
  keys : m.keyAt = Function.update n.keyAt p.id none
  others : ∀ key q, key.id ≠ p.id → n.Registered key q → ∃ q', m.Registered key q' ∧
    q'.lastRead = q.lastRead ∧ ∀ name, (q'.getAttr name).1 = (q.getAttr name).1
  backoff : ∀ id now, m.backoff.contains id now = (decide (p.id ≠ id) && n.backoff.contains id now)
  forced : ∀ id, id ∈ m.forced ↔ id ∈ n.forced ∧ id ≠ p.id

theorem detach_vanished (hs : n.services = []) (p : Port) : Vanished p n (n.detach p) := by
  have hstop := stopPorts_besides (n := n.unregister p) hs p.key
  refine ⟨detach_keyAt hs p, ?_, fun id now => ?_, fun id => ?_⟩
  · intro key q hid hq
    have hport : (n.unregister p).Registered key q := by
      refine ⟨?_, hq.2⟩
      rw [port?_unregister, if_neg fun h => hid h.symm]
      exact hq.1
    obtain ⟨q', hq', hbeside⟩ := hstop.ports.registered hport
    have hview : SameView q q' := hbeside fun hkey => hid (by rw [← hq.2, hkey]; rfl)
    exact ⟨q', hq', hview.lastRead, hview.getAttr⟩
  · rw [detach, ExpirySet.contains_erase, hstop.rest]
    rfl
  · rw [detach, hstop.rest]
    simp [unregister]

theorem Vanished.worked {p : Port} (h : Vanished p n m) (hw : Worked m k) : Vanished p n k := by
  refine ⟨(funext hw.ports.keys).trans h.keys, ?_, fun id now => ?_, fun id => ?_⟩
  · intro key q hid hq
    obtain ⟨q', hq', hlast, hattrs⟩ := h.others key q hid hq
    obtain ⟨q'', hq'', hworks⟩ := hw.ports.registered hq'
    have hview := sameView_of_works hworks
    exact ⟨q'', hq'', hview.lastRead.trans hlast,
      fun name => (hview.getAttr name).trans (hattrs name)⟩
  · rw [hw.rest]
    exact h.backoff id now
  · rw [hw.rest]
    exact h.forced id

theorem Vanished.publish {p : Port} (h : Vanished p n m) (hs : m.services = []) (e : Event) :
    Vanished p n (m.publish e) := by
  rw [publish_eq hs]
  exact ⟨h.keys, h.others, h.backoff, h.forced⟩

theorem detach_backend (hs : n.services = []) (p : Port) : (n.detach p).backend = n.backend :=
  stopPorts_backend (n := n.unregister p) hs [p.key]

/-- A port that is removed from a node over a memory, with what is stored of it, leaves nothing
behind, and nothing else is touched. Objects with samples are listed once. -/
theorem remove_purges (h : Sound n) {s : Store} (hb : n.backend = .memory s)
    (hsorted : Dict.Sorted (s.objects historyCollection)) {id : String} {p : Port}
    (hp : n.port? id = some p) : ∃ m s', n.remove id true = (.ok (), m) ∧ Vanished p n m ∧
      m.backend = .memory s' ∧ Dropped p s s' := by
  obtain rfl := h.filed.ids id p hp
  obtain ⟨k, s', hpurge, hworked, hk, hdropped⟩ := purge_memory (detach_services h.services p)
    ((detach_backend h.services p).trans hb) hsorted p
  have hservices := hworked.services.trans (detach_services h.services p)
  refine ⟨k.publish (.portRemove p.id), s', ?_,
    ((detach_vanished h.services p).worked hworked).publish hservices _, ?_, hdropped⟩
  · rw [remove_eq hp, if_pos rfl, hpurge]
  · rw [publish_eq hservices]
    exact hk

/-- A virtual port and another one, both with a record and a sample. -/
def furnished : List Operation := [
  .addVirtual { id := "lamp", type := .boolean },
  .add "door" (.memory { type := .boolean, value := some (.bool true) }),
  .setAttr "lamp" "history_interval" (.int (-1)),
  .setAttr "door" "history_interval" (.int (-1)),
  .writeValue ⟨"lamp", 0⟩ (.bool true),
  .update 1000,
  .save true]

theorem remove_purges_lamp :
    let n := (create {} (.memory {}) 0).after furnished
    ∃ p s m s', n.port? "lamp" = some p ∧ n.backend = .memory s ∧
      (s.series historyCollection "lamp").length = 1 ∧ n.remove "lamp" true = (.ok (), m) ∧
      Vanished p n m ∧ m.backend = .memory s' ∧ Dropped p s s' := by
  intro n
  have hsound : Sound n := after_sound (sound_create _ _ _ _) _
  have hport : (n.port? "lamp").isSome = true := by decide +kernel
  have hstore : (match n.backend with
      | .memory s => decide (Dict.Sorted (s.objects historyCollection) ∧
          (s.series historyCollection "lamp").length = 1)
      | _ => false) = true := by decide +kernel
  obtain ⟨p, hp⟩ := Option.isSome_iff_exists.mp hport
  cases hb : n.backend with
  | memory s =>
    rw [hb] at hstore
    obtain ⟨hsorted, hsample⟩ := of_decide_eq_true hstore
    obtain ⟨m, s', hremove, hvanished, hm, hdropped⟩ := remove_purges hsound hb hsorted hp
    exact ⟨p, s, m, s', hp, rfl, hsample, hremove, hvanished, hm, hdropped⟩
  | _ =>
    rw [hb] at hstore
    cases hstore

end ControlNode.Node
