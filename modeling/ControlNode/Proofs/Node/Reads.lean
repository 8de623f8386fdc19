import ControlNode.Node.Calls
import ControlNode.Proofs.Node.Tasks
import ControlNode.Proofs.Node.Upkeep

/-!
# The reads of a tick

A tick lists the enabled ports as it begins. Until all of its reads are in, tasks may run and
ports are looked after, but no value is taken over (`readsIn_moved`).
-/

namespace ControlNode.Node

open Relation Port

variable {n m : Node}

/-! ### Moves of ports -/

/-- The workers of ports have moved and ports have been looked after. -/
abbrev Moved : Node → Node → Prop := Evolves Moves

namespace Moved

theorem refl (n : Node) : Moved n n := Evolves.refl (fun _ => .refl) n

theorem trans {k : Node} (h : Moved n m) (h' : Moved m k) : Moved n k :=
  Evolves.trans (fun _ _ _ => ReflTransGen.trans) h h'

end Moved

theorem Worked.moved (h : Worked n m) : Moved n m :=
  h.mono fun _ _ hpq => hpq.lift (fun p => p) fun _ _ => .work

theorem Tended.moved (h : Tended n m) : Moved n m :=
  h.evolves.mono fun _ _ hpq => .single (.upkeep hpq)

/-- What a tick remembers plays no part in what happens to the ports. -/
theorem Evolves.withTick {R : Port → Port → Prop} (h : Evolves R n m) (t : Option Tick) :
    Evolves R { n with tick := t } { m with tick := t } := by
  refine ⟨⟨h.ports.keys, h.ports.ports, h.ports.sorted⟩, ?_⟩
  rw [h.rest]

theorem Evolves.tick {R : Port → Port → Prop} (h : Evolves R n m) : m.tick = n.tick := by
  rw [h.rest]

/-! ### Registered ports -/

def Registered (n : Node) (key : PortKey) (p : Port) : Prop :=
  n.port? key.id = some p ∧ p.key = key

theorem Registered.portOf? {key : PortKey} {p : Port} (h : n.Registered key p) :
    n.portOf? key = some p := by
  obtain ⟨hp, rfl⟩ := h
  exact portOf?_of_port? hp rfl

theorem PortsRel.registered {R : Port → Port → Prop} (h : PortsRel R n m) {key : PortKey}
    {p : Port} (hp : n.Registered key p) : ∃ q, m.Registered key q ∧ R p q := by
  obtain ⟨hport, rfl⟩ := hp
  obtain ⟨q, hq, hkey, hR⟩ := h.exists_of_port? hport rfl
  exact ⟨q, ⟨hq, hkey⟩, hR⟩

theorem PortsRel.registered_of {R : Port → Port → Prop} (h : PortsRel R n m) {key : PortKey}
    {q : Port} (hq : m.Registered key q) : ∃ p, n.Registered key p ∧ R p q := by
  have hkeys := h.keys key.id
  obtain ⟨hport, rfl⟩ := hq
  unfold keyAt at hkeys
  rw [hport] at hkeys
  obtain ⟨p, hp, hkey⟩ := Option.map_eq_some_iff.mp hkeys.symm
  have hreg : n.Registered q.key p := ⟨hp, hkey⟩
  obtain ⟨q', hq', hR⟩ := h.registered hreg
  have heq := hq'.1
  rw [hport] at heq
  cases heq
  exact ⟨p, hreg, hR⟩

/-- The registry files each port under its own id, in order. -/
structure Filed (n : Node) : Prop where
  sorted : Dict.Sorted n.ports
  ids : ∀ id p, n.port? id = some p → p.id = id

theorem Filed.registered (h : Filed n) {id : String} {p : Port} (hp : n.port? id = some p) :
    n.Registered p.key p := by
  have hid := h.ids id p hp
  exact ⟨by rw [← hp, ← hid]; rfl, rfl⟩

theorem Filed.of_portsRel {R : Port → Port → Prop} (h : Filed n) (hnm : PortsRel R n m) :
    Filed m := by
  refine ⟨hnm.sorted h.sorted, ?_⟩
  intro id q hq
  have hkeys := hnm.keys id
  unfold keyAt at hkeys
  rw [hq] at hkeys
  obtain ⟨p, hp, hkey⟩ := Option.map_eq_some_iff.mp hkeys.symm
  rw [Port.id, ← hkey]
  exact h.ids id p hp

theorem mem_enabledKeys (h : Filed n) (key : PortKey) :
    key ∈ n.enabledKeys ↔ ∃ p, n.Registered key p ∧ p.enabled = true := by
  unfold enabledKeys
  rw [List.mem_map]
  constructor
  · rintro ⟨⟨id, p⟩, he, rfl⟩
    obtain ⟨hmem, henabled⟩ := List.mem_filter.mp he
    have hport : n.port? id = some p := Dict.get?_of_mem h.sorted hmem
    have hid := h.ids id p hport
    refine ⟨p, ⟨?_, rfl⟩, henabled⟩
    rw [← hport, ← hid]
    rfl
  · rintro ⟨p, ⟨hport, rfl⟩, henabled⟩
    exact ⟨(p.key.id, p), List.mem_filter.mpr ⟨Dict.mem_of_get? hport, henabled⟩, rfl⟩

theorem nodup_enabledKeys (h : Filed n) : n.enabledKeys.Nodup := by
  have hsorted : (n.enabledKeys).Pairwise fun a b => a.id < b.id := by
    unfold enabledKeys
    rw [List.pairwise_map]
    refine (List.Pairwise.filter _ h.sorted).imp_of_mem ?_
    intro a b ha hb hlt
    have hida := h.ids a.1 a.2 (Dict.get?_of_mem h.sorted (List.mem_filter.mp ha).1)
    have hidb := h.ids b.1 b.2 (Dict.get?_of_mem h.sorted (List.mem_filter.mp hb).1)
    rw [Port.id] at hida hidb
    rw [hida, hidb]
    exact hlt
  refine hsorted.imp ?_
  rintro a b hlt rfl
  exact lt_irrefl _ hlt

/-! ### The beginning -/

def firstTick (n : Node) (now : Int) : Tick :=
  { now := now, enabled := n.enabledKeys, newSecond := n.lastSecond < secondOf now }

def noting (n : Node) (t : Tick) : Node :=
  { n with tick := some t, lastSecond := max n.lastSecond (secondOf t.now) }

theorem openTick_tended (now : Int) :
    Tended (n.noting (n.firstTick now)) (n.openTick now) := by
  unfold openTick
  dsimp only
  split
  · rename_i hlt
    have hmax : max n.lastSecond (secondOf now) = secondOf now :=
      max_eq_right (le_of_lt hlt)
    have hbeats : Tended (n.noting (n.firstTick now))
        (n.enabledKeys.foldl beat (n.noting (n.firstTick now))) :=
      foldl_tended (fun _ => beat_tended) _
    have hall := hbeats.trans (foldl_tended (fun _ => sampleIfDue_tended now) n.enabledKeys)
    simpa only [noting, firstTick, hmax] using hall
  · rename_i hlt
    have hmax : max n.lastSecond (secondOf now) = n.lastSecond :=
      max_eq_left (not_lt.mp hlt)
    have hrefl := Tended.refl (n.noting (n.firstTick now))
    simpa only [noting, firstTick, hmax] using hrefl

/-- The ports that a tick is going to read, without outcomes yet. -/
def plannedReads (n : Node) (t : Tick) : List (PortKey × Option (Except PortError Value)) :=
  (t.enabled.filter fun k => !n.backoff.contains k.id n.agenda.clock).map fun k => (k, none)

theorem planReads_tended {t : Tick} (ht : n.tick = some t) :
    Tended { n with tick := some { t with reads := n.plannedReads t } } n.planReads := by
  have hall {f : Node → PortKey → Node} (hf : ∀ k key, Tended k (f k key)) :
      Tended { n with tick := some { t with reads := n.plannedReads t } }
        { (t.enabled.filter fun k => !n.backoff.contains k.id n.agenda.clock).foldl f n with
          tick := some { t with reads := n.plannedReads t } } := by
    have hfold := foldl_tended (n := n) hf
      (t.enabled.filter fun k => !n.backoff.contains k.id n.agenda.clock)
    exact ⟨hfold.evolves.withTick _, hfold.agenda⟩
  unfold planReads
  rw [ht]
  refine hall fun k key => ?_
  split
  · exact .refl k
  · rename_i p hp
    exact .update hp ⟨rfl, .same _, rfl⟩

/-! ### Reading -/

/-- A reading of a port while nothing but moves has happened to it. -/
def IsReading (n : Node) (key : PortKey) (r : Except PortError Value) : Prop :=
  ∃ p q, n.portOf? key = some p ∧ Moves p q ∧ r = (q.readValue n.wall).1

theorem IsReading.of_moved {key : PortKey} {r : Except PortError Value} (h : Moved n m)
    (hr : m.IsReading key r) : n.IsReading key r := by
  obtain ⟨q, q', hq, hmoves, rfl⟩ := hr
  have hkey := h.ports.ports key
  rw [hq] at hkey
  cases hp : n.portOf? key with
  | none =>
    rw [hp] at hkey
    cases hkey
  | some p =>
    rw [hp] at hkey
    cases hkey with
    | some hpq =>
      have hwall : m.wall = n.wall := by rw [h.rest]
      exact ⟨p, q', hp, hpq.trans hmoves, by rw [hwall]⟩

abbrev Reads := List (PortKey × Option (Except PortError Value))

def Faithful (n : Node) (reads : Reads) : Prop :=
  ∀ key r, (key, some r) ∈ reads → n.IsReading key r

theorem tryRead_moved (who : Party) (key : PortKey) : Moved n (n.tryRead who key).2 := by
  unfold tryRead
  split
  · exact (Moved.refl n).beside rfl rfl rfl
  · rename_i a _
    have hclaim : Moved n { n with agenda := a } := (Moved.refl n).beside rfl rfl rfl
    exact (hclaim.trans (readPort_tended key).moved).beside rfl rfl rfl

theorem tryRead_faithful {who : Party} {key : PortKey} {r : Except PortError Value}
    (hkey : (n.portOf? key).isSome) (h : (n.tryRead who key).1 = some r) :
    n.IsReading key r := by
  obtain ⟨p, hp⟩ := Option.isSome_iff_exists.mp hkey
  unfold tryRead at h
  split at h
  · cases h
  · rename_i a _
    have hp' : { n with agenda := a }.portOf? key = some p := hp
    simp only [readPort, hp'] at h
    cases h
    exact ⟨p, p, hp, .refl, rfl⟩

theorem readPending_moved (who : Party) (reads : Reads) :
    Moved n (readPending who n reads).2 := by
  induction reads generalizing n with
  | nil => exact .refl n
  | cons e rest ih =>
    obtain ⟨key, r⟩ := e
    cases r with
    | some r => exact ih
    | none => exact (tryRead_moved who key).trans ih

theorem readPending_keys (who : Party) (reads : Reads) :
    (readPending who n reads).1.map Prod.fst = reads.map Prod.fst := by
  induction reads generalizing n with
  | nil => rfl
  | cons e rest ih =>
    obtain ⟨key, r⟩ := e
    cases r with
    | some r => simp only [readPending, List.map_cons, ih]
    | none => simp only [readPending, List.map_cons, ih]

theorem readPending_faithful {k : Node} {who : Party} {reads : Reads} (hk : Moved k n)
    (h : k.Faithful reads) (hkeys : ∀ e ∈ reads, (k.portOf? e.1).isSome) :
    k.Faithful (readPending who n reads).1 := by
  induction reads generalizing n with
  | nil => exact h
  | cons e rest ih =>
    obtain ⟨key, r⟩ := e
    have hrest : k.Faithful rest := fun key r hr => h key r (List.mem_cons_of_mem _ hr)
    have hkeys' : ∀ e ∈ rest, (k.portOf? e.1).isSome := fun e he =>
      hkeys e (List.mem_cons_of_mem _ he)
    cases r with
    | some r =>
      have hall := ih hk hrest hkeys'
      intro key' r' hr
      rcases List.mem_cons.mp hr with hr | hr
      · cases hr
        exact h key r (List.mem_cons_self ..)
      · exact hall key' r' hr
    | none =>
      have hall := ih (hk.trans (tryRead_moved who key)) hrest hkeys'
      intro key' r' hr
      rcases List.mem_cons.mp hr with hr | hr
      · obtain ⟨rfl, hr⟩ := Prod.mk.inj hr
        obtain ⟨p, hp⟩ := Option.isSome_iff_exists.mp (hkeys _ (List.mem_cons_self ..))
        obtain ⟨q, hq, _⟩ := hk.ports.exists_of_portOf? hp
        exact (tryRead_faithful (by rw [hq]; rfl) hr.symm).of_moved hk
      · exact hall key' r' hr

structure Reading (n m : Node) (t : Tick) (reads : Reads) : Prop where
  moved : Moved { n with tick := some { t with reads := reads } } m
  keys : reads.map Prod.fst = t.reads.map Prod.fst
  faithful : n.Faithful reads

theorem Reading.tick {t : Tick} {reads : Reads} (h : Reading n m t reads) :
    m.tick = some { t with reads := reads } := h.moved.tick

theorem continueReads_reading {k : Node} {t : Tick} {reads : Reads} (h : Reading k n t reads)
    (who : Party) (hkeys : ∀ e ∈ t.reads, (k.portOf? e.1).isSome) :
    ∃ reads', Reading k (n.continueReads who).2 t reads' := by
  have hkeys' : ∀ e ∈ reads, (k.portOf? e.1).isSome := by
    intro e he
    have hmem : e.1 ∈ t.reads.map Prod.fst := h.keys ▸ List.mem_map_of_mem he
    obtain ⟨e', he', heq⟩ := List.mem_map.mp hmem
    rw [← heq]
    exact hkeys e' he'
  unfold continueReads
  rw [h.tick]
  refine ⟨(readPending who n reads).1, ?_, ?_, ?_⟩
  · have hpending := h.moved.trans (readPending_moved who reads)
    exact hpending.withTick _
  · rw [readPending_keys, h.keys]
  · exact readPending_faithful (k := { k with tick := some { t with reads := reads } }) h.moved
      h.faithful hkeys'

theorem readAll_reading {k : Node} {t : Tick} {reads : Reads} (h : Reading k n t reads)
    (hs : k.services = []) (hkeys : ∀ e ∈ t.reads, (k.portOf? e.1).isSome) (fuel : Nat) :
    ∃ reads', Reading k (readAll fuel n) t reads' := by
  induction fuel generalizing n reads with
  | zero => exact ⟨reads, h⟩
  | succ fuel ih =>
    obtain ⟨reads', hread⟩ := continueReads_reading h .caller hkeys
    unfold readAll
    split
    · rename_i m hm
      rw [hm] at hread
      exact ⟨reads', hread⟩
    · rename_i m hm
      rw [hm] at hread
      have hwait := waitFor_worked (hread.moved.services.trans hs) holdsDevice
      exact ih ⟨hread.moved.trans hwait.moved, hread.keys, hread.faithful⟩

/-! ### All reads of a tick -/

/-- The node once the caller of a tick may begin it. -/
def begun (n : Node) : Node :=
  { n with agenda := (n.agenda.acquire .tick .caller).2 }.waitFor holdsTick

def planned (n : Node) (now : Int) : Node := (n.begun.openTick now).awaitStorage.planReads

def readsIn (n : Node) (now : Int) : Node :=
  readAll ((n.planned now).ports.length + 1) (n.planned now)

theorem update_eq (n : Node) (now : Int) : n.update now = (n.readsIn now).closeTick awaitStorage :=
  rfl

/-- What a tick remembers of the node as it was at the beginning. -/
structure TickOf (n : Node) (now : Int) (t : Tick) : Prop where
  time : t.now = now
  newSecond : t.newSecond = decide (n.lastSecond < secondOf now)
  enabled : ∀ key, key ∈ t.enabled ↔ ∃ p, n.Registered key p ∧ p.enabled = true
  nodup : t.enabled.Nodup
  planned : ∀ e ∈ t.reads, e.1 ∈ t.enabled
  once : (t.reads.map Prod.fst).Nodup
  faithful : n.Faithful t.reads

theorem mem_enabledKeys_of_moved (hf : Filed n) (h : Moved n m) (key : PortKey) :
    key ∈ m.enabledKeys ↔ ∃ p, n.Registered key p ∧ p.enabled = true := by
  rw [mem_enabledKeys (hf.of_portsRel h.ports)]
  constructor
  · rintro ⟨q, hq, henabled⟩
    obtain ⟨p, hp, hpq⟩ := h.ports.registered_of hq
    exact ⟨p, hp, hpq.continues.setup.enabled ▸ henabled⟩
  · rintro ⟨p, hp, henabled⟩
    obtain ⟨q, hq, hpq⟩ := h.ports.registered hp
    exact ⟨q, hq, by rw [hpq.continues.setup.enabled, henabled]⟩

theorem keys_plannedReads (n : Node) (t : Tick) : (n.plannedReads t).map Prod.fst =
    t.enabled.filter fun k => !n.backoff.contains k.id n.agenda.clock := by
  rw [plannedReads, List.map_map]
  exact List.map_id _

theorem Evolves.noting {R : Port → Port → Prop} (h : Evolves R n m) (t : Tick) :
    Evolves R (n.noting t) (m.noting t) := by
  refine ⟨⟨h.ports.keys, h.ports.ports, h.ports.sorted⟩, ?_⟩
  have hsecond : m.lastSecond = n.lastSecond := by rw [h.rest]
  unfold Node.noting
  rw [hsecond, h.rest]

theorem begun_worked (hs : n.services = []) : Worked n n.begun := by
  have hask : Worked n { n with agenda := (n.agenda.acquire .tick .caller).2 } :=
    (Worked.refl n).beside rfl rfl rfl
  exact hask.trans (waitFor_worked (hask.services.trans hs) holdsTick)

theorem planned_moved (hf : Filed n) (hs : n.services = []) (now : Int) :
    ∃ t, TickOf n now t ∧ Moved (n.noting t) (n.planned now) := by
  have hbegun := (begun_worked hs).moved
  have hopen := openTick_tended (n := n.begun) now
  have hnone : (n.begun.openTick now).services = [] :=
    hopen.evolves.services.trans (hbegun.services.trans hs)
  have hopened := hopen.moved.trans (awaitStorage_worked hnone).moved
  have hplan := (planReads_tended hopened.tick).moved
  have henabled := mem_enabledKeys_of_moved hf hbegun
  have hnodup := nodup_enabledKeys (hf.of_portsRel hbegun.ports)
  have hkeys := keys_plannedReads (n.begun.openTick now).awaitStorage (n.begun.firstTick now)
  refine ⟨{ n.begun.firstTick now with
    reads := (n.begun.openTick now).awaitStorage.plannedReads (n.begun.firstTick now) },
    ⟨rfl, ?_, henabled, hnodup, ?_, ?_, ?_⟩,
    Moved.trans (hbegun.noting _) (Moved.trans (hopened.withTick _) hplan)⟩
  · have hsecond : n.begun.lastSecond = n.lastSecond := by rw [hbegun.rest]
    rw [← hsecond]
    rfl
  · intro e he
    have hfst := List.mem_map_of_mem (f := Prod.fst) he
    rw [hkeys] at hfst
    exact (List.mem_filter.mp hfst).1
  · rw [hkeys]
    exact hnodup.filter _
  · intro key r hr
    obtain ⟨_, _, heq⟩ := List.mem_map.mp hr
    cases heq

/-- Once all reads are in, nothing but moves has happened to the ports. -/
theorem readsIn_moved (hf : Filed n) (hs : n.services = []) (now : Int) :
    ∃ t, TickOf n now t ∧ Moved (n.noting t) (n.readsIn now) := by
  obtain ⟨t, ht, hplanned⟩ := planned_moved hf hs now
  have hport : ∀ e ∈ t.reads, ((n.noting t).portOf? e.1).isSome := by
    intro e he
    obtain ⟨p, hp, _⟩ := (ht.enabled e.1).mp (ht.planned e he)
    have hof : (n.noting t).portOf? e.1 = some p := hp.portOf?
    rw [hof]
    rfl
  have hfirst : Reading (n.noting t) (n.planned now) t t.reads := ⟨hplanned, rfl, ht.faithful⟩
  obtain ⟨reads, hall⟩ := readAll_reading hfirst hs hport ((n.planned now).ports.length + 1)
  refine ⟨{ t with reads := reads }, ⟨ht.time, ht.newSecond, ht.enabled, ht.nodup, ?_, ?_,
    hall.faithful⟩, hall.moved⟩
  · intro e he
    have hfst : e.1 ∈ reads.map Prod.fst := List.mem_map_of_mem he
    rw [hall.keys] at hfst
    obtain ⟨e', he', heq⟩ := List.mem_map.mp hfst
    exact heq ▸ ht.planned e' he'
  · change (reads.map Prod.fst).Nodup
    rw [hall.keys]
    exact ht.once

end ControlNode.Node
