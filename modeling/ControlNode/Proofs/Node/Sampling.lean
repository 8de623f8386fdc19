import ControlNode.Proofs.Node.Interludes
import ControlNode.Proofs.Node.Retention
import ControlNode.Proofs.Node.ValueLogs

/-!
# Seconds and samples of a tick

The first tick of a second tells the devices of the ports that are on that a second has passed.
Then it goes about storing a sample of each of these ports that is due one, if the port has a value
(`Attempts`). A sample that the storage accepts is dated; one that it refuses is not, although a
data file that could not be written holds it (`Leaves`). Of a port that is not sampled at changes of
its value nothing else is stored, and nothing else dates its last sample (`update_settles`).
-/

namespace ControlNode

namespace Backend

variable {b b' : Backend} {name object other : String} {change : Series → Series}

/-- A backend has become another one that takes samples as it did, and what it holds of the samples
of an object has changed. -/
structure Revised (name object : String) (change : Series → Series) (b b' : Backend) : Prop where
  supports : b'.samplesSupported = b.samplesSupported
  stores : b'.storesSamples = b.storesSamples
  series : ∀ held, b.Holds name object held → b'.Holds name object (change held)

namespace Revised

theorem refl (b : Backend) : Revised name object (fun held => held) b b := ⟨rfl, rfl, fun _ h => h⟩

theorem saveSample (h : Revised name object change b b') (x : Sample) :
    Revised name object (fun held => Dict.insert (change held) x.time x.value) b
      (b'.saveSample name object x).2 :=
  ⟨(samplesSupported_saveSample ..).trans h.supports, (storesSamples_saveSample ..).trans h.stores,
    fun held hb => (h.series held hb).saveSample x⟩

theorem saveSample_of_ne (h : Revised name object change b b') (hne : other ≠ object)
    (x : Sample) : Revised name object change b (b'.saveSample name other x).2 :=
  ⟨(samplesSupported_saveSample ..).trans h.supports, (storesSamples_saveSample ..).trans h.stores,
    fun held hb => (h.series held hb).saveSample_of_ne hne x⟩

theorem removeSamples (h : Revised name object change b b') (ids : Option (List String))
    (r : SampleRange) : ∃ keep, Revised name object (fun held => (change held).filter keep) b
      (b'.removeSamples name ids r).2 :=
  ⟨_, (samplesSupported_removeSamples ..).trans h.supports,
    (storesSamples_removeSamples ..).trans h.stores,
    fun held hb => (h.series held hb).removeSamples ids r⟩

theorem removeSamples_of_ne (h : Revised name object change b b') (hne : other ≠ object)
    (r : SampleRange) :
    Revised name object change b (b'.removeSamples name (some [other]) r).2 :=
  ⟨(samplesSupported_removeSamples ..).trans h.supports,
    (storesSamples_removeSamples ..).trans h.stores,
    fun held hb => (h.series held hb).removeSamples_of_ne hne r⟩

end Revised

end Backend

namespace Port

structure Account where
  value : Option Value
  interval : Int
  last : Int
  beats : Option Nat

def account (p : Port) : Account :=
  ⟨p.lastRead, p.historyInterval, p.historyLast, p.device.beats?⟩

def Account.isDue (a : Account) (now : Int) : Bool :=
  a.interval > 0 && a.interval * 1000 ≤ Binary64.wrapInt64 (now - a.last)

theorem Steady.account_eq {p q : Port} (h : Steady p q) : q.account = p.account := by
  rw [account, h.value, h.interval, h.last, h.beats]
  rfl

end Port

namespace Node

open Port

variable {n m : Node} {key other : PortKey} {p q : Port} {a : Account} {b : Backend}
  {change : Series → Series} {v : Value} {now : Int}

/-- The port of the key has the account `a`, and what `b` held of its samples has changed. -/
structure Carries (n : Node) (key : PortKey) (a : Account) (b : Backend)
    (change : Series → Series) : Prop where
  port : ∃ p, n.portOf? key = some p ∧ p.account = a
  storage : Backend.Revised historyCollection key.id change b n.backend

namespace Carries

theorem lull (h : n.Carries key a b change) (hnm : Lull n m) (hb : m.backend = n.backend) :
    m.Carries key a b change := by
  obtain ⟨p, hp, ha⟩ := h.port
  obtain ⟨q, hq, hpq⟩ := hnm.ports key p hp
  exact ⟨⟨q, hq, hpq.account_eq.trans ha⟩, hb ▸ h.storage⟩

theorem putPort (h : n.Carries key a b change) (hp : n.portOf? key = some p)
    (hkey : q.key = p.key) :
    (n.putPort q).Carries key q.account b change := by
  refine ⟨⟨q, ?_, rfl⟩, (putPort_backend n q).symm ▸ h.storage⟩
  rw [portOf?_putPort, if_pos (hkey.trans (key_of_portOf? hp)).symm, hp]
  rfl

theorem putOther (h : n.Carries key a b change) (hne : q.key ≠ key) :
    (n.putPort q).Carries key a b change := by
  obtain ⟨p, hp, ha⟩ := h.port
  refine ⟨⟨p, ?_, ha⟩, (putPort_backend n q).symm ▸ h.storage⟩
  rw [portOf?_putPort, if_neg hne.symm, hp]

/-! ### Heart beats -/

theorem beat_other (h : n.Carries key a b change) (hne : other ≠ key) :
    (n.beat other).Carries key a b change := by
  unfold beat
  split
  · exact h
  · rename_i q hq
    refine h.putOther ?_
    change q.key ≠ key
    rwa [key_of_portOf? hq]

theorem beat (h : n.Carries key a b change) :
    (n.beat key).Carries key { a with beats := a.beats.map (· + 1) } b change := by
  obtain ⟨p, hp, rfl⟩ := h.port
  have hput := h.putPort (q := { p with device := p.device.beat }) hp rfl
  unfold Node.beat
  simp only [hp]
  simpa only [Port.account, Device.beats?_beat] using hput

/-! ### Samples -/

theorem pruneHistory (h : n.Carries key a b change) (p : Port) (now : Int) :
    ∃ keep, (n.pruneHistory p now).Carries key a b fun held => (change held).filter keep := by
  have hport : ∃ q, (n.pruneHistory p now).portOf? key = some q ∧ q.account = a := by
    unfold Node.pruneHistory
    split <;> exact h.port
  by_cases hr : 0 < p.historyRetention
  · obtain ⟨keep, hkeep⟩ := h.storage.removeSamples (some [p.id])
      { stop := some (pruneLimit now p.historyRetention) }
    refine ⟨keep, hport, ?_⟩
    rwa [pruneHistory_backend, if_pos hr]
  · refine ⟨fun _ => true, hport, ?_⟩
    rw [pruneHistory_backend, if_neg hr]
    simpa only [List.filter_true] using h.storage

theorem pruneHistory_other (h : n.Carries key a b change) (hne : p.id ≠ key.id) (now : Int) :
    (n.pruneHistory p now).Carries key a b change := by
  refine ⟨?_, ?_⟩
  · unfold Node.pruneHistory
    split <;> exact h.port
  · rw [pruneHistory_backend]
    split
    · exact h.storage.removeSamples_of_ne hne _
    · exact h.storage

theorem saveHistory_other (h : n.Carries key a b change) (hne : other.id ≠ key.id) (v : Value)
    (now : Int) : (n.saveHistory other v now).Carries key a b change := by
  unfold Node.saveHistory
  split
  · exact h
  · rename_i q hq
    have hkey : q.key = other := key_of_portOf? hq
    have hid : q.id ≠ key.id := by rwa [Port.id, hkey]
    have hsaved : (n.access true
        (n.backend.saveSample historyCollection q.id ⟨now, v.toJson⟩)).2.Carries key a b change :=
      ⟨h.port, h.storage.saveSample_of_ne hid _⟩
    split
    · dsimp only
      split
      · exact hsaved
      · exact (hsaved.putOther (q := { q with historyLast := now, dirty := true })
          fun heq => hid (congrArg PortKey.id heq)).pruneHistory_other hid ..
    · exact h

/-- A sample that is accepted is dated and may drive out others. One that is refused is not dated,
and yet it is held where there is something to hold it. -/
theorem saveHistory (h : n.Carries key a b change) (v : Value) (now : Int) :
    (b.storesSamples = true ∧ ∃ keep, (n.saveHistory key v now).Carries key { a with last := now } b
      fun held => (Dict.insert (change held) now v.toJson).filter keep) ∨
    (b.storesSamples = false ∧ b.samplesSupported = true ∧
      (n.saveHistory key v now).Carries key a b
        fun held => Dict.insert (change held) now v.toJson) ∨
    (b.samplesSupported = false ∧ (n.saveHistory key v now).Carries key a b change) := by
  obtain ⟨p, hp, rfl⟩ := h.port
  have hid : p.id = key.id := congrArg PortKey.id (key_of_portOf? hp)
  have hsaved : (n.access true
      (n.backend.saveSample historyCollection p.id ⟨now, v.toJson⟩)).2.Carries key p.account b
        fun held => Dict.insert (change held) now v.toJson :=
    ⟨h.port, hid ▸ h.storage.saveSample ⟨now, v.toJson⟩⟩
  cases hstores : b.storesSamples with
  | true =>
    have haccepts : n.Accepts p v now :=
      (Backend.saveSample_eq_ok_iff ..).mpr (h.storage.stores.trans hstores)
    refine .inl ⟨rfl, ?_⟩
    rw [saveHistory_eq hp haccepts]
    exact Carries.pruneHistory
      (hsaved.putPort (q := { p with historyLast := now, dirty := true }) hp rfl) ..
  | false =>
    have hno : (n.backend.saveSample historyCollection p.id ⟨now, v.toJson⟩).1 ≠ .ok () := by
      rw [ne_eq, Backend.saveSample_eq_ok_iff, h.storage.stores, hstores]
      decide
    unfold Node.saveHistory
    simp only [hp, h.storage.supports]
    cases hsupported : b.samplesSupported with
    | true =>
      refine .inr (.inl ⟨trivial, rfl, ?_⟩)
      simp only [if_true]
      split
      · exact hsaved
      · rename_i hok
        exact absurd hok hno
    | false => exact .inr (.inr ⟨rfl, h⟩)

theorem sampleIfDue_other (h : n.Carries key a b change) (hne : other.id ≠ key.id) (now : Int) :
    (sampleIfDue now n other).Carries key a b change := by
  unfold sampleIfDue
  split
  · exact h
  · split
    · split
      · exact h.saveHistory_other hne ..
      · exact h
    · exact h

/-- Nothing happens unless the port has a value and a sample is due. -/
theorem sampleIfDue_of_not_due (h : n.Carries key a b change)
    (hno : ∀ v, a.value = some v → a.isDue now = false) :
    (sampleIfDue now n key).Carries key a b change := by
  obtain ⟨p, hp, rfl⟩ := h.port
  unfold Node.sampleIfDue
  simp only [hp]
  split
  · rename_i v hv
    have hdue : isSampleDue p now = false := hno v hv
    rw [if_neg (Bool.eq_false_iff.mp hdue)]
    exact h
  · exact h

theorem sampleIfDue_eq (h : n.Carries key a b change) (hv : a.value = some v)
    (hdue : a.isDue now = true) : sampleIfDue now n key = n.saveHistory key v now := by
  obtain ⟨p, hp, rfl⟩ := h.port
  have hvalue : p.lastRead = some v := hv
  have hyes : isSampleDue p now = true := hdue
  simp only [Node.sampleIfDue, hp, hvalue, hyes, if_true]

end Carries

/-! ### The beginning of a tick -/

theorem foldl_once {f : Node → PortKey → Node} {P Q : Node → Prop} {keys : List PortKey}
    (hkey : key ∈ keys) (honce : keys.Nodup)
    (hother : ∀ m, ∀ other ∈ keys, other ≠ key → P m → P (f m other))
    (hother' : ∀ m, ∀ other ∈ keys, other ≠ key → Q m → Q (f m other))
    (hown : ∀ m, P m → Q (f m key)) (h : P n) : Q (keys.foldl f n) := by
  obtain ⟨front, back, rfl⟩ := List.append_of_mem hkey
  obtain ⟨-, hback, hdisjoint⟩ := List.nodup_append.mp honce
  have hfront : P (front.foldl f n) := List.foldlRecOn front f h fun m hm other ho =>
    hother m other (List.mem_append_left _ ho) (hdisjoint other ho key List.mem_cons_self) hm
  rw [List.foldl_append, List.foldl_cons]
  refine List.foldlRecOn back f (hown _ hfront) fun m hm other ho => ?_
  refine hother' m other (List.mem_append_right _ (List.mem_cons_of_mem _ ho)) ?_ hm
  rintro rfl
  exact (List.nodup_cons.mp hback).1 ho

/-- A tick goes about storing a sample of a value of a port: it is the first one of its second, the
port is on and due a sample, and samples are supported. -/
structure Attempts (n : Node) (now : Int) (p : Port) (v : Value) : Prop where
  second : n.lastSecond < secondOf now
  enabled : p.enabled = true
  due : isSampleDue p now = true
  value : p.lastRead = some v
  supported : n.backend.samplesSupported = true

/-- A tick stores a sample of a value of a port: the storage accepts it. -/
structure Samples (n : Node) (now : Int) (p : Port) (v : Value) : Prop
    extends Attempts n now p v where
  accepted : n.Accepts p v now

/-- Of a port whose last sample had the time `p.historyLast` a tick leaves the time of the last
sample and a change of the samples that are held. A sample that is accepted is dated and may drive
out others. One that is refused is not dated, but it is held. -/
def Leaves (n : Node) (now : Int) (p : Port) (last : Int) (change : Series → Series) : Prop :=
  (∃ v keep, n.Samples now p v ∧ last = now ∧
    change = fun held => (Dict.insert held now v.toJson).filter keep) ∨
  (∃ v, n.Attempts now p v ∧ ¬n.Accepts p v now ∧ last = p.historyLast ∧
    change = fun held => Dict.insert held now v.toJson) ∨
  ((∀ v, ¬n.Attempts now p v) ∧ last = p.historyLast ∧ change = fun held => held)

/-- The seconds that the device of a port has heard of after a tick. -/
def beatsAfter (n : Node) (now : Int) (p : Port) : Option Nat :=
  if n.lastSecond < secondOf now ∧ p.enabled = true then p.device.beats?.map (· + 1)
  else p.device.beats?

/-- What a tick does at its beginning to the account of a port. -/
structure Opens (n : Node) (now : Int) (p : Port) (a : Account) (change : Series → Series) :
    Prop where
  interval : a.interval = p.historyInterval
  beats : a.beats = n.beatsAfter now p
  leaves : n.Leaves now p a.last change

theorem accepts_iff (n : Node) (p : Port) (v : Value) (now : Int) :
    n.Accepts p v now ↔ n.backend.storesSamples = true := Backend.saveSample_eq_ok_iff ..

theorem sampleIfDue_leaves (hsecond : n.lastSecond < secondOf now) (hon : p.enabled = true)
    (hvalue : a.value = p.lastRead) (hinterval : a.interval = p.historyInterval)
    (hlast : a.last = p.historyLast) (hm : m.Carries key a n.backend fun held => held) :
    ∃ a' change, (sampleIfDue now m key).Carries key a' n.backend change ∧
      a'.interval = a.interval ∧ a'.beats = a.beats ∧ n.Leaves now p a'.last change := by
  have hdue : isSampleDue p now = a.isDue now := by
    rw [Account.isDue, hinterval, hlast]
    rfl
  by_cases hyes : ∃ v, a.value = some v ∧ a.isDue now = true
  · obtain ⟨v, hv, hyes⟩ := hyes
    have hattempt (hsupported : n.backend.samplesSupported = true) : n.Attempts now p v :=
      ⟨hsecond, hon, hdue.trans hyes, hvalue ▸ hv, hsupported⟩
    rw [hm.sampleIfDue_eq hv hyes]
    rcases hm.saveHistory v now with
      ⟨hstores, keep, hsaved⟩ | ⟨hstores, hsupported, hheld⟩ | ⟨hsupported, hleft⟩
    · have hsample : n.Samples now p v :=
        ⟨hattempt (Backend.samplesSupported_of_storesSamples hstores),
          (accepts_iff ..).mpr hstores⟩
      exact ⟨_, _, hsaved, rfl, rfl, .inl ⟨v, keep, hsample, rfl, rfl⟩⟩
    · refine ⟨_, _, hheld, rfl, rfl, .inr (.inl ⟨v, hattempt hsupported, ?_, hlast, rfl⟩)⟩
      rw [accepts_iff, hstores]
      exact Bool.false_ne_true
    · refine ⟨_, _, hleft, rfl, rfl, .inr (.inr ⟨fun w h => ?_, hlast, rfl⟩)⟩
      exact Bool.false_ne_true (hsupported.symm.trans h.supported)
  · refine ⟨_, _, hm.sampleIfDue_of_not_due fun v hv => Bool.eq_false_iff.mpr fun h =>
      hyes ⟨v, hv, h⟩,
      rfl, rfl, .inr (.inr ⟨fun v h => hyes ⟨v, hvalue.trans h.value, hdue ▸ h.due⟩, hlast, rfl⟩)⟩

section Opening

variable (hf : Filed n) (hp : n.Registered key p)

include hf hp

theorem mem_enabledKeys_self : key ∈ n.enabledKeys ↔ p.enabled = true := by
  rw [mem_enabledKeys hf]
  exact ⟨fun ⟨q, hq, hon⟩ => hp.unique hq ▸ hon, fun hon => ⟨p, hp, hon⟩⟩

theorem id_ne_of_enabled (ho : other ∈ n.enabledKeys) (hne : other ≠ key) : other.id ≠ key.id := by
  obtain ⟨q, hq, -⟩ := (mem_enabledKeys hf other).mp ho
  exact (eq_or_id_ne hp hq).resolve_left hne

/-- The device of the port hears of the second if the port is on. -/
theorem foldl_beat_carries (hm : m.Carries key p.account b change) :
    (n.enabledKeys.foldl beat m).Carries key { p.account with
      beats := if p.enabled = true then p.device.beats?.map (· + 1) else p.device.beats? } b
      change := by
  have hkey := mem_enabledKeys_self hf hp
  split
  · rename_i hon
    exact foldl_once (f := beat) (P := fun m => m.Carries key p.account b change)
      (Q := fun m => m.Carries key { p.account with beats := p.device.beats?.map (· + 1) } b change)
      (hkey.mpr hon) (nodup_enabledKeys hf) (fun m other _ hne hm => hm.beat_other hne)
      (fun m other _ hne hm => hm.beat_other hne) (fun m hm => hm.beat) hm
  · rename_i hoff
    refine List.foldlRecOn (motive := fun m => m.Carries key p.account b change) n.enabledKeys
      beat hm
      fun m hm other ho => hm.beat_other ?_
    rintro rfl
    exact hoff (hkey.mp ho)

theorem foldl_sampleIfDue_carries (hsecond : n.lastSecond < secondOf now)
    (hvalue : a.value = p.lastRead) (hinterval : a.interval = p.historyInterval)
    (hlast : a.last = p.historyLast) (hm : m.Carries key a n.backend fun held => held) :
    ∃ a' change, (n.enabledKeys.foldl (sampleIfDue now) m).Carries key a' n.backend change ∧
      a'.interval = a.interval ∧ a'.beats = a.beats ∧ n.Leaves now p a'.last change := by
  have hkey := mem_enabledKeys_self hf hp
  by_cases hon : p.enabled = true
  · exact foldl_once (f := sampleIfDue now)
      (P := fun m => m.Carries key a n.backend fun held => held)
      (Q := fun m => ∃ a' change, m.Carries key a' n.backend change ∧ a'.interval = a.interval ∧
        a'.beats = a.beats ∧ n.Leaves now p a'.last change) (hkey.mpr hon) (nodup_enabledKeys hf)
      (fun m other ho hne hm => hm.sampleIfDue_other (id_ne_of_enabled hf hp ho hne) now)
      (fun m other ho hne ⟨a', change, hm, hleft⟩ =>
        ⟨a', change, hm.sampleIfDue_other (id_ne_of_enabled hf hp ho hne) now, hleft⟩)
      (fun m hm => sampleIfDue_leaves hsecond hon hvalue hinterval hlast hm) hm
  · refine ⟨a, fun held => held, ?_, rfl, rfl, .inr (.inr ⟨fun v h => hon h.enabled, hlast, rfl⟩)⟩
    refine List.foldlRecOn (motive := fun m : Node => m.Carries key a n.backend fun held => held)
      n.enabledKeys _
      hm fun m hm other ho => hm.sampleIfDue_other (id_ne_of_enabled hf hp ho ?_) now
    rintro rfl
    exact hon (hkey.mp ho)

theorem openTick_carries (now : Int) :
    ∃ a change, (n.openTick now).Carries key a n.backend change ∧ n.Opens now p a change := by
  have hport : ∃ q, n.portOf? key = some q ∧ q.account = p.account := ⟨p, hp.portOf?, rfl⟩
  unfold openTick
  dsimp only
  split
  · rename_i hsecond
    have hbeaten := foldl_beat_carries hf hp (m := { n with
      tick := some
        { now := now, enabled := n.enabledKeys, newSecond := n.lastSecond < secondOf now }
      lastSecond := secondOf now }) ⟨hport, .refl n.backend⟩
    obtain ⟨a, change, hsampled, hinterval, hbeats, hleaves⟩ :=
      foldl_sampleIfDue_carries hf hp hsecond rfl rfl rfl hbeaten
    refine ⟨a, change, hsampled, hinterval, hbeats.trans ?_, hleaves⟩
    simp only [beatsAfter, hsecond, true_and]
  · rename_i hsecond
    refine ⟨p.account, fun held => held, ⟨hport, .refl n.backend⟩, rfl,
      (if_neg fun h => hsecond h.1).symm, ?_⟩
    exact .inr (.inr ⟨fun v h => hsecond h.second, rfl, rfl⟩)

end Opening

/-! ### Reads -/

theorem planReads_lull (n : Node) : Lull n n.planReads := by
  unfold planReads
  split
  · exact .refl n
  · refine Lull.trans (List.foldlRecOn (motive := Lull n) _ _ (.refl n) fun m hm key _ => ?_)
      (.beside rfl rfl rfl rfl rfl)
    split
    · exact hm
    · rename_i p hp
      exact hm.trans (.putPort hp ⟨rfl, rfl, rfl, rfl, rfl, rfl, rfl, rfl, rfl⟩)

theorem readPending_lull (who : Party) (n : Node) (reads : Reads) :
    Lull n (readPending who n reads).2 := by
  have htry (m : Node) (key : PortKey) : Lull m (m.tryRead who key).2 := by
    unfold tryRead
    split
    · exact .beside rfl rfl rfl rfl rfl
    · rename_i a _
      have hclaim : Lull m { m with agenda := a } := .beside rfl rfl rfl rfl rfl
      exact (hclaim.trans (readPort_lull _ key)).trans (.beside rfl rfl rfl rfl rfl)
  induction reads generalizing n with
  | nil => exact .refl n
  | cons e rest ih =>
    obtain ⟨key, r⟩ := e
    cases r with
    | some r => exact ih n
    | none => exact (htry n key).trans (ih _)

theorem readAll_lull (hs : n.services = []) (fuel : Nat) : Lull n (readAll fuel n) := by
  induction fuel generalizing n with
  | zero => exact .refl n
  | succ fuel ih =>
    have hread : Lull n (n.continueReads .caller).2 := by
      unfold continueReads
      split
      · exact .refl n
      · exact (readPending_lull ..).trans (.beside rfl rfl rfl rfl rfl)
    unfold readAll
    split
    · rename_i m hm
      rwa [hm] at hread
    · rename_i m hm
      rw [hm] at hread
      have hwait := hread.trans (waitFor_worked (hread.services.trans hs) holdsDevice).lull
      exact hwait.trans (ih (hwait.services.trans hs))

theorem Carries.readsIn (hs : n.services = []) (h : (n.begun.openTick now).Carries key a b change) :
    (n.readsIn now).Carries key a b change := by
  have hserv : (n.begun.openTick now).services = [] :=
    (openTick_tended now).evolves.services.trans ((begun_worked hs).services.trans hs)
  have hwait := (awaitStorage_worked hserv).lull
  have hplan := hwait.trans (planReads_lull _)
  exact (h.lull hplan ((planReads_backend _).trans (awaitStorage_backend hserv))).lull
    (readAll_lull (hplan.services.trans hserv) _) (readAll_backend (hplan.services.trans hserv) _)

/-! ### Taking over values -/

/-- Values may have been taken over: the account is `a` but for the value, and only if the port is
sampled at changes its last sample may be a new one. -/
def CarriesOn (n : Node) (key : PortKey) (a : Account) (b : Backend) (change : Series → Series) :
    Prop :=
  ∃ a' change', n.Carries key a' b change' ∧ a'.interval = a.interval ∧ a'.beats = a.beats ∧
    (a.interval ≠ -1 → a'.last = a.last ∧ change' = change)

theorem Carries.carriesOn (h : n.Carries key a b change) : n.CarriesOn key a b change :=
  ⟨a, change, h, rfl, rfl, fun _ => ⟨rfl, rfl⟩⟩

theorem Carries.withEvents (h : n.Carries key a b change) (events : List Event) :
    Carries { n with events := events } key a b change := ⟨h.port, h.storage⟩

theorem Carries.takeValue_other (h : n.Carries key a b change) (hs : n.services = [])
    (hne : other.id ≠ key.id) (v : Value) (now : Int) :
    (n.takeValue other v now).2.Carries key a b change := by
  cases hp : n.portOf? other with
  | none =>
    rw [takeValue_of_none hp]
    exact h
  | some p =>
    have hkey : p.key ≠ key := by
      rw [key_of_portOf? hp]
      exact fun heq => hne (congrArg PortKey.id heq)
    cases hsame : Value.sameOption p.lastRead (some v) with
    | true =>
      rw [takeValue_of_same hp hsame]
      exact h.putOther hkey
    | false =>
      have hsent : (n.announcing p v).Carries key a b change := by
        rw [announcing_eq hs]
        exact (h.putOther (q := renewed p v) hkey).withEvents _
      rw [takeValue_of_new hp hsame]
      dsimp only
      split
      · exact hsent.saveHistory_other hne ..
      · exact hsent

theorem Carries.takeValue (h : n.Carries key a b change) (hs : n.services = []) (v : Value)
    (now : Int) : (n.takeValue key v now).2.CarriesOn key a b change := by
  obtain ⟨p, hp, rfl⟩ := h.port
  cases hsame : Value.sameOption p.lastRead (some v) with
  | true =>
    rw [takeValue_of_same hp hsame]
    exact ⟨_, _, h.putPort hp rfl, rfl, rfl, fun _ => ⟨rfl, rfl⟩⟩
  | false =>
    have hsent : (n.announcing p v).Carries key (renewed p v).account b change := by
      rw [announcing_eq hs]
      exact (h.putPort (q := renewed p v) hp rfl).withEvents _
    rw [takeValue_of_new hp hsame]
    dsimp only
    split
    · rename_i honce
      rcases hsent.saveHistory v now with ⟨-, keep, hsaved⟩ | ⟨-, -, hheld⟩ | ⟨-, hleft⟩
      · exact ⟨_, _, hsaved, rfl, rfl, fun hno => absurd honce hno⟩
      · exact ⟨_, _, hheld, rfl, rfl, fun hno => absurd honce hno⟩
      · exact ⟨_, _, hleft, rfl, rfl, fun hno => absurd honce hno⟩
    · exact ⟨_, _, hsent, rfl, rfl, fun _ => ⟨rfl, rfl⟩⟩

theorem CarriesOn.takeRead (h : n.CarriesOn key a b change) (hs : n.services = [])
    (hother : other = key ∨ other.id ≠ key.id) (r : Except PortError Value) (now : Int) :
    (takeRead now n other r).2.CarriesOn key a b change := by
  obtain ⟨a', change', hcarries, hinterval, hbeats, hsame⟩ := h
  unfold Node.takeRead
  split
  · rename_i v
    rcases hother with rfl | hne
    · obtain ⟨c, more, htaken, hinterval', hbeats', hsame'⟩ := hcarries.takeValue hs v now
      refine ⟨c, more, htaken, hinterval'.trans hinterval, hbeats'.trans hbeats, fun hno => ?_⟩
      obtain ⟨hlast, hchange⟩ := hsame hno
      obtain ⟨hlast', hchange'⟩ := hsame' (hinterval ▸ hno)
      exact ⟨hlast'.trans hlast, hchange'.trans hchange⟩
    · exact ⟨a', change', hcarries.takeValue_other hs hne v now, hinterval, hbeats, hsame⟩
  · exact ⟨a', change', hcarries, hinterval, hbeats, hsame⟩
  · exact ⟨a', change', ⟨hcarries.port, hcarries.storage⟩, hinterval, hbeats, hsame⟩

theorem CarriesOn.takeReads (h : n.CarriesOn key a b change) (hs : n.services = []) {reads : Reads}
    (hids : ∀ e ∈ reads, e.1 = key ∨ e.1.id ≠ key.id) (now : Int) :
    (takeReads now n reads).2.CarriesOn key a b change := by
  induction reads generalizing n with
  | nil => exact h
  | cons e rest ih =>
    obtain ⟨other, r⟩ := e
    have hrest : ∀ e ∈ rest, e.1 = key ∨ e.1.id ≠ key.id :=
      fun e he => hids e (List.mem_cons_of_mem _ he)
    cases r with
    | none => exact ih h hs hrest
    | some r =>
      have hfirst := h.takeRead hs (hids _ List.mem_cons_self) r now
      exact ih hfirst ((takeRead_tookOver hs other r now).services.trans hs) hrest

/-! ### Whole ticks -/

theorem CarriesOn.lull (h : n.CarriesOn key a b change) (hnm : Lull n m)
    (hb : m.backend = n.backend) :
    m.CarriesOn key a b change := by
  obtain ⟨a', change', hcarries, hsame⟩ := h
  exact ⟨a', change', hcarries.lull hnm hb, hsame⟩

theorem callPort_lull (c : Call) (n : Node) (key : PortKey) : Lull n (n.callPort c key) := by
  rw [callPort_eq]
  split
  · exact .refl n
  · rename_i p hp
    have hput : Lull n (n.putPort (p.enqueueEval c.snapshot).2) :=
      .putPort hp (p.enqueueEval_steady c.snapshot)
    split
    · split
      · rename_i hr
        rw [hr] at hput
        exact hput.trans (emitAll_worked key _).lull
      · rename_i hr
        rw [hr] at hput
        split
        · exact hput.trans (forceEval_lull ..)
        · exact hput
    · exact .refl n

theorem dispatch_lull (n : Node) (t : Tick) (ids : List String) : Lull n (n.dispatch t ids) := by
  have hcalls (m : Node) : Lull m (t.enabled.foldl (callPort (n.callOf t ids)) m) :=
    List.foldlRecOn (motive := Lull m) t.enabled _ (.refl m)
      fun k hk key _ => hk.trans (callPort_lull _ k key)
  have hclear : Lull n { n with forceAll := false, forced := [] } := .beside rfl rfl rfl rfl rfl
  exact hclear.trans (hcalls _)

theorem Leaves.of_steady {last : Int} (h : m.Leaves now q last change) (hpq : Port.Steady p q)
    (hsecond : m.lastSecond = n.lastSecond) (hbackend : m.backend = n.backend) :
    n.Leaves now p last change := by
  have hattempts (v : Value) : m.Attempts now q v ↔ n.Attempts now p v := by
    have hdue : isSampleDue q now = isSampleDue p now := by
      rw [isSampleDue, hpq.interval, hpq.last, isSampleDue]
    constructor
    · rintro ⟨hs, hon, hd, hv, hb⟩
      exact ⟨hsecond ▸ hs, hpq.enabled ▸ hon, hdue ▸ hd, hpq.value ▸ hv, hbackend ▸ hb⟩
    · rintro ⟨hs, hon, hd, hv, hb⟩
      exact ⟨hsecond ▸ hs, hpq.enabled.trans hon, hdue.trans hd, hpq.value.trans hv,
        hbackend ▸ hb⟩
  have haccepts (v : Value) : m.Accepts q v now ↔ n.Accepts p v now := by
    rw [accepts_iff, hbackend, accepts_iff]
  rcases h with ⟨v, keep, hsample, hlast, hchange⟩ | ⟨v, htry, hno, hlast, hchange⟩ |
    ⟨hnone, hlast, hchange⟩
  · exact .inl ⟨v, keep, ⟨(hattempts v).mp hsample.toAttempts, (haccepts v).mp hsample.accepted⟩,
      hlast, hchange⟩
  · exact .inr (.inl ⟨v, (hattempts v).mp htry, fun h => hno ((haccepts v).mpr h),
      hlast.trans hpq.last, hchange⟩)
  · exact .inr (.inr ⟨fun v h => hnone v ((hattempts v).mpr h), hlast.trans hpq.last, hchange⟩)

theorem update_carriesOn (h : Sound n) (hp : n.Registered key p) (now : Int) :
    ∃ a change, (n.update now).CarriesOn key a n.backend change ∧ n.Opens now p a change := by
  have hs := h.services
  have hbegun := begun_worked hs
  have hbackend : n.begun.backend = n.backend :=
    waitFor_backend (n := { n with agenda := (n.agenda.acquire .tick .caller).2 }) hs _
  obtain ⟨q, hq, hworks⟩ := hbegun.ports.registered hp
  have hpq := steady_of_works hworks
  obtain ⟨a, change, hopened, hopens⟩ :=
    openTick_carries (h.filed.of_portsRel hbegun.moved.ports) hq now
  rw [hbackend] at hopened
  have hread := hopened.readsIn hs
  obtain ⟨t, hof, hin⟩ := readsIn_moved h.filed hs now
  have hserv : (n.readsIn now).services = [] := hin.services.trans hs
  have hids : ∀ e ∈ t.reads, e.1 = key ∨ e.1.id ≠ key.id := by
    intro e he
    obtain ⟨p', hp', -⟩ := (hof.enabled e.1).mp (hof.planned e he)
    exact eq_or_id_ne hp hp'
  have htaken := hread.carriesOn.takeReads hserv hids t.now
  have hserv' := (takeReads_tookOver hserv t.now hof.once).services.trans hserv
  have hsecond := hbegun.lull.second
  refine ⟨a, change, ?_, hopens.interval.trans hpq.interval, ?_,
    hopens.leaves.of_steady hpq hsecond hbackend⟩
  · rw [update_eq]
    unfold closeTick
    rw [hin.tick]
    dsimp only
    have hwait := htaken.lull (awaitStorage_worked hserv').lull (awaitStorage_backend hserv')
    refine (hwait.lull (dispatch_lull ..) ?_).lull (.beside rfl rfl rfl rfl rfl) rfl
    rw [(dispatch_called hof.nodup _).rest]
  · rw [hopens.beats, beatsAfter, hsecond, hpq.enabled, hpq.beats, beatsAfter]

/-- What a tick does about the seconds and the samples of a port. The device hears of the second if
it is a new one and the port is on. If the port is not sampled at changes of its value, the tick
stores and dates the sample that is due or none. -/
theorem update_settles (h : Sound n) (hp : n.Registered key p) (now : Int) :
    ∃ q change, (n.update now).Registered key q ∧
      Backend.Revised historyCollection key.id change n.backend (n.update now).backend ∧
      q.device.beats? = n.beatsAfter now p ∧
      (p.historyInterval ≠ -1 → n.Leaves now p q.historyLast change) := by
  obtain ⟨a, change, ⟨a', change', hcarries, -, hbeats, hsame⟩, hopens⟩ := update_carriesOn h hp now
  obtain ⟨t, -, hin⟩ := readsIn_moved h.filed h.services now
  obtain ⟨q, hq, -⟩ := update_took h hp hin.tick
  obtain ⟨q', hq', rfl⟩ := hcarries.port
  obtain rfl : q' = q := Option.some.inj (hq'.symm.trans hq.portOf?)
  refine ⟨q', change', hq, hcarries.storage, hbeats.trans hopens.beats, fun hno => ?_⟩
  obtain ⟨hlast, hchange⟩ := hsame (hopens.interval ▸ hno)
  rw [hchange, show q'.historyLast = a.last from hlast]
  exact hopens.leaves

end Node

end ControlNode
