import ControlNode.Proofs.Node.ChangedSet
import ControlNode.Proofs.Node.Series

/-!
# Logs of values

The samples that a memory keeps of a port that is sampled at each change are a log of its values.
A tick appends a sample where it takes a new value over (`update_logs`), and nothing else touches
the log. The invariant over a history is that the last sample is the value that the port has, at
the time of the tick that took it over (`Recorded`). What is looked up at the time of a tick is
then the value that the port had after it (`samplesAt_of_logging`).
-/

namespace ControlNode

namespace Port

variable {p q : Port}

/-- A sample is taken at each change of the value and kept for ever. -/
structure LogsChanges (p : Port) : Prop where
  interval : p.historyInterval = -1
  retention : p.historyRetention = 0

namespace LogsChanges

theorem upkeep (h : p.LogsChanges) (hpq : Upkeep p q) : q.LogsChanges := by
  rw [hpq.frame]
  exact ⟨h.interval, h.retention⟩

theorem moves (h : p.LogsChanges) (hpq : Moves p q) : q.LogsChanges := by
  induction hpq with
  | refl => exact h
  | tail _ hstep ih =>
    cases hstep with
    | work hwork =>
      rw [hwork.frame]
      exact ⟨ih.interval, ih.retention⟩
    | upkeep hkept => exact ih.upkeep hkept

end LogsChanges

end Port

namespace Node

open Port

variable {start n m : Node} {key other : PortKey} {p q : Port} {v : Value} {series : Series}
  {now time : Int} {ops : List Operation}

/-- The port of the key logs its changes, and this is its log so far. -/
structure Logs (n : Node) (key : PortKey) (series : Series) : Prop where
  port : ∃ p, n.portOf? key = some p ∧ p.LogsChanges
  holds : n.HasSeries key.id series

theorem Logs.moved (h : n.Logs key series) (hnm : Moved n m) (hb : m.backend = n.backend) :
    m.Logs key series := by
  obtain ⟨p, hp, hlogs⟩ := h.port
  obtain ⟨q, hq, hpq⟩ := hnm.ports.exists_of_portOf? hp
  exact ⟨⟨q, hq, hlogs.moves hpq⟩, KeepsSeries.of_backend hb _ h.holds⟩

theorem Logs.tended (h : n.Logs key series) (hnm : Tended n m) {series' : Series}
    (hm : m.HasSeries key.id series') : m.Logs key series' := by
  obtain ⟨p, hp, hlogs⟩ := h.port
  obtain ⟨q, hq, hpq⟩ := hnm.evolves.ports.exists_of_portOf? hp
  exact ⟨⟨q, hq, hlogs.upkeep hpq⟩, hm⟩

/-! ### Saving samples -/

theorem saveHistory_keepsSeries {object : String} (hne : other.id ≠ object) (v : Value)
    (now : Int) : KeepsSeries object n (n.saveHistory other v now) := by
  intro series hn
  unfold saveHistory
  split
  · exact hn
  · rename_i p hp
    have hid : p.id ≠ object := by rwa [Port.id, key_of_portOf? hp]
    split
    · have hsaved := Backend.Holds.saveSample_of_ne hn hid ⟨now, v.toJson⟩
      dsimp only
      split
      · exact hsaved
      · unfold pruneHistory
        split
        · refine Backend.Holds.removeSamples_of_ne ?_ hid _
          rw [putPort_backend]
          exact hsaved
        · rw [HasSeries, putPort_backend]
          exact hsaved
    · exact hn

theorem saveHistory_logs (h : n.Logs key series) (v : Value) (now : Int) :
    (n.saveHistory key v now).Logs key (Dict.insert series now v.toJson) := by
  refine h.tended (saveHistory_tended key v now) ?_
  obtain ⟨p, hp, hlogs⟩ := h.port
  have hid : p.id = key.id := congrArg PortKey.id (key_of_portOf? hp)
  have hsaved : (n.backend.saveSample historyCollection p.id ⟨now, v.toJson⟩).2.Holds
      historyCollection key.id (Dict.insert series now v.toJson) := by
    rw [hid]
    exact Backend.Holds.saveSample h.holds _
  have hsupported : n.backend.samplesSupported = true := h.holds.samplesSupported
  unfold saveHistory
  simp only [hp, hsupported, if_true]
  split
  · exact hsaved
  -- the samples of the port are kept for ever
  · rw [pruneHistory, if_neg (by simp [hlogs.retention]), HasSeries, putPort_backend]
    exact hsaved

theorem sampleIfDue_logs (h : n.Logs key series) (hother : other = key ∨ other.id ≠ key.id)
    (now : Int) : (sampleIfDue now n other).Logs key series := by
  rcases hother with rfl | hne
  · obtain ⟨p, hp, hlogs⟩ := h.port
    have hdue : isSampleDue p now = false := by simp [isSampleDue, hlogs.interval]
    unfold sampleIfDue
    simp only [hp, hdue, Bool.false_eq_true, if_false]
    split <;> exact h
  · refine h.tended (sampleIfDue_tended now other) ?_
    unfold sampleIfDue
    split
    · exact h.holds
    · split
      · split
        · exact saveHistory_keepsSeries hne _ now _ h.holds
        · exact h.holds
      · exact h.holds

/-! ### Reading -/

theorem foldl_logs {f : Node → PortKey → Node} {keys : List PortKey}
    (hf : ∀ m, ∀ other ∈ keys, m.Logs key series → (f m other).Logs key series)
    (h : n.Logs key series) : (keys.foldl f n).Logs key series := by
  induction keys generalizing n with
  | nil => exact h
  | cons other keys ih =>
    exact ih (fun m k hk => hf m k (List.mem_cons_of_mem _ hk))
      (hf n other (List.mem_cons_self ..) h)

/-- The port of an id is the only one that a tick can find enabled. -/
theorem eq_or_id_ne (hp : n.Registered key p) (hq : n.Registered other q) :
    other = key ∨ other.id ≠ key.id := by
  by_cases hid : other.id = key.id
  · have hport := hq.1
    rw [hid, hp.1] at hport
    cases hport
    exact .inl (hq.2.symm.trans hp.2)
  · exact .inr hid

theorem openTick_logs (hf : Filed n) (hp : n.Registered key p) (h : n.Logs key series)
    (now : Int) : (n.openTick now).Logs key series := by
  have hbeat (m : Node) (other : PortKey) (hm : m.Logs key series) :
      (m.beat other).Logs key series := by
    refine hm.moved (beat_tended other).moved ?_
    unfold beat
    split
    · rfl
    · exact putPort_backend ..
  unfold openTick
  dsimp only
  split
  · refine foldl_logs (fun m other hother hm => ?_)
      (foldl_logs (fun m other _ hm => hbeat m other hm) ⟨h.port, h.holds⟩)
    obtain ⟨q, hq, -⟩ := (mem_enabledKeys hf other).mp hother
    exact sampleIfDue_logs hm (eq_or_id_ne hp hq) now
  · exact ⟨h.port, h.holds⟩

theorem readsIn_logs (hf : Filed n) (hs : n.services = []) (hp : n.Registered key p)
    (hlogs : p.LogsChanges) (h : n.HasSeries key.id series) (now : Int) :
    (n.readsIn now).Logs key series := by
  have hbegun := begun_worked hs
  obtain ⟨q, hq, hpq⟩ := hbegun.moved.ports.registered hp
  have hlog : n.begun.Logs key series := by
    refine ⟨⟨q, hq.portOf?, hlogs.moves hpq⟩, KeepsSeries.of_backend ?_ _ h⟩
    exact waitFor_backend (n := { n with agenda := (n.agenda.acquire .tick .caller).2 }) hs _
  have hopen := openTick_logs (hf.of_portsRel hbegun.ports) hq hlog now
  have hserv : (n.begun.openTick now).services = [] :=
    (openTick_tended now).evolves.services.trans (hbegun.services.trans hs)
  obtain ⟨t, -, hin⟩ := readsIn_moved hf hs now
  obtain ⟨r, hr, hpr⟩ := hin.ports.exists_of_portOf? (n := n.noting t) (p := p) hp.portOf?
  refine ⟨⟨r, hr, hlogs.moves hpr⟩, KeepsSeries.of_backend ?_ _ hopen.holds⟩
  have hidle := (awaitStorage_worked hserv).services.trans hserv
  refine (readAll_backend (n := n.planned now) ?_ _).trans
    ((planReads_backend _).trans (awaitStorage_backend hserv))
  exact (planReads_marks hidle).services.trans hidle

/-! ### Taking over values -/

theorem takeValue_logs (hs : n.services = []) (h : n.Logs key series) (v : Value) (now : Int) :
    (n.Brings key (.ok v) ∧
      (n.takeValue key v now).2.Logs key (Dict.insert series now v.toJson)) ∨
    (¬n.Brings key (.ok v) ∧ (n.takeValue key v now).2.Logs key series) := by
  obtain ⟨p, hp, hlogs⟩ := h.port
  have hput (q : Port) (hkey : q.key = p.key) (hq : q.LogsChanges) :
      (n.putPort q).Logs key series := by
    have hqkey : q.key = key := hkey.trans (key_of_portOf? hp)
    refine ⟨⟨q, ?_, hq⟩, KeepsSeries.of_backend (putPort_backend ..) _ h.holds⟩
    rw [portOf?_putPort, hqkey, if_pos rfl, hp]
    rfl
  rw [brings_ok_iff hp]
  cases hsame : Value.sameOption p.lastRead (some v) with
  | true =>
    refine .inr ⟨by decide, ?_⟩
    rw [takeValue_of_same hp hsame]
    exact hput _ rfl ⟨hlogs.interval, hlogs.retention⟩
  | false =>
    have hrenewed := hput (renewed p v) rfl ⟨hlogs.interval, hlogs.retention⟩
    have hsent : (n.announcing p v).Logs key series := by
      rw [announcing_eq hs]
      exact ⟨hrenewed.port, hrenewed.holds⟩
    refine .inl ⟨rfl, ?_⟩
    rw [takeValue_of_new hp hsame]
    dsimp only
    rw [if_pos hlogs.interval]
    exact saveHistory_logs hsent v now

theorem takeRead_logs_of_ne (hs : n.services = []) (h : n.Logs key series)
    (hne : other.id ≠ key.id) (r : Except PortError Value) (now : Int) :
    (takeRead now n other r).2.Logs key series := by
  obtain ⟨p, hp, hlogs⟩ := h.port
  obtain ⟨q, hq, htaken⟩ := (takeRead_tookOver hs other r now).ports.exists_of_portOf? hp
  have hkept : Upkeep p q := htaken.unread fun v hv => by
    rw [key_of_portOf? hp] at hv
    exact hne (congrArg PortKey.id (Prod.mk.inj (List.mem_singleton.mp hv)).1).symm
  refine ⟨⟨q, hq, hlogs.upkeep hkept⟩, ?_⟩
  unfold takeRead
  split
  · rename_i v
    cases hp' : n.portOf? other with
    | none =>
      rw [takeValue_of_none hp']
      exact h.holds
    | some p' =>
      cases hsame : Value.sameOption p'.lastRead (some v) with
      | true =>
        rw [takeValue_of_same hp' hsame]
        exact KeepsSeries.of_backend (putPort_backend ..) _ h.holds
      | false =>
        have hsent : (n.announcing p' v).HasSeries key.id series := by
          rw [announcing_eq hs]
          exact KeepsSeries.of_backend (putPort_backend n (renewed p' v)) _ h.holds
        rw [takeValue_of_new hp' hsame]
        dsimp only
        split
        · exact saveHistory_keepsSeries hne v now _ hsent
        · exact hsent
  · exact h.holds
  · exact h.holds

theorem takeRead_logs (hs : n.services = []) (h : n.Logs key series)
    (r : Except PortError Value) (now : Int) :
    (∃ v, r = .ok v ∧ n.Brings key (.ok v) ∧
      (takeRead now n key r).2.Logs key (Dict.insert series now v.toJson)) ∨
    ((∀ v, r = .ok v → ¬n.Brings key (.ok v)) ∧ (takeRead now n key r).2.Logs key series) := by
  cases r with
  | error e => exact .inr ⟨nofun, by cases e <;> exact ⟨h.port, h.holds⟩⟩
  | ok v =>
    rcases takeValue_logs hs h v now with ⟨hbrings, hlog⟩ | ⟨hno, hlog⟩
    · exact .inl ⟨v, rfl, hbrings, hlog⟩
    · refine .inr ⟨fun w hw => ?_, hlog⟩
      cases hw
      exact hno

theorem mem_reads_cons {r : Option (Except PortError Value)} {reads : Reads} :
    (key, some (.ok v)) ∈ (other, r) :: reads ↔
      (other = key ∧ r = some (.ok v)) ∨ (key, some (.ok v)) ∈ reads := by
  simp [eq_comm]

theorem takeReads_others {P : Node → Prop}
    (hother : ∀ m other r, m.services = [] → other.id ≠ key.id → P m → P (takeRead now m other r).2)
    (hs : n.services = []) (h : P n) {reads : Reads} (hne : ∀ e ∈ reads, e.1.id ≠ key.id) :
    P (takeReads now n reads).2 := by
  induction reads generalizing n with
  | nil => exact h
  | cons e rest ih =>
    obtain ⟨other, r⟩ := e
    have hrest : ∀ e ∈ rest, e.1.id ≠ key.id := fun e he => hne e (List.mem_cons_of_mem _ he)
    cases r with
    | none => exact ih hs h hrest
    | some r =>
      have hfirst := hother n other r hs (hne _ (List.mem_cons_self ..)) h
      exact ih ((takeRead_tookOver hs other r now).services.trans hs) hfirst hrest

/-- Of the reads that are taken over in turn, one at most is of the port: what they bring about is
what it brings about if nothing changes that by reads of other ports. -/
theorem takeReads_cases {P : Node → Prop} {Q : Value → Node → Prop}
    (hother : ∀ m other r, m.services = [] → other.id ≠ key.id → P m → P (takeRead now m other r).2)
    (hother' : ∀ v m other r, m.services = [] → other.id ≠ key.id → Q v m →
      Q v (takeRead now m other r).2)
    (hown : ∀ m r, m.services = [] → P m →
      (∃ v, r = .ok v ∧ m.Brings key (.ok v) ∧ Q v (takeRead now m key r).2) ∨
        ((∀ v, r = .ok v → ¬m.Brings key (.ok v)) ∧ P (takeRead now m key r).2))
    (hs : n.services = []) (h : P n) {reads : Reads} (honce : (reads.map Prod.fst).Nodup)
    (hids : ∀ e ∈ reads, e.1 = key ∨ e.1.id ≠ key.id) :
    (∃ v, (key, some (.ok v)) ∈ reads ∧ n.Brings key (.ok v) ∧ Q v (takeReads now n reads).2) ∨
    ((∀ v, (key, some (.ok v)) ∈ reads → ¬n.Brings key (.ok v)) ∧ P (takeReads now n reads).2) := by
  induction reads generalizing n with
  | nil => exact .inr ⟨fun v hv => (by cases hv), h⟩
  | cons e rest ih =>
    obtain ⟨other, r⟩ := e
    obtain ⟨hnew, hrest⟩ := List.nodup_cons.mp honce
    have hids' : ∀ e ∈ rest, e.1 = key ∨ e.1.id ≠ key.id := fun e he =>
      hids e (List.mem_cons_of_mem _ he)
    simp only [mem_reads_cons]
    cases r with
    | none =>
      simp only [reduceCtorEq, and_false, false_or]
      exact ih hs h hrest hids'
    | some r =>
      have hserv := (takeRead_tookOver hs other r now).services.trans hs
      by_cases hsame : other = key
      · -- the port is read once
        subst hsame
        have hothers : ∀ e ∈ rest, e.1.id ≠ other.id := fun e he =>
          (hids' e he).resolve_left fun heq => hnew (List.mem_map.mpr ⟨e, he, heq⟩)
        rcases hown n r hs h with ⟨v, rfl, hbrings, hq⟩ | ⟨hno, hp⟩
        · exact .inl ⟨v, .inl ⟨rfl, rfl⟩, hbrings,
            takeReads_others (hother' v) hserv hq hothers⟩
        · refine .inr ⟨?_, takeReads_others hother hserv hp hothers⟩
          rintro v (⟨-, hv⟩ | hv)
          · exact hno v (Option.some.inj hv)
          · exact absurd rfl (hothers _ hv)
      · have hne : other.id ≠ key.id := (hids _ (List.mem_cons_self ..)).resolve_left hsame
        have hbrings (r' : Except PortError Value) :
            (takeRead now n other r).2.Brings key r' ↔ n.Brings key r' :=
          (takeRead_tookOver hs other r now).brings_iff
            (fun hmem => hsame (List.mem_singleton.mp hmem).symm) r'
        have hrests := ih hserv (hother n other r hs hne h) hrest hids'
        simp only [hbrings] at hrests
        simp only [hsame, false_and, false_or]
        exact hrests

theorem takeReads_logs (hs : n.services = []) (h : n.Logs key series) {reads : Reads}
    (honce : (reads.map Prod.fst).Nodup) (hids : ∀ e ∈ reads, e.1 = key ∨ e.1.id ≠ key.id)
    (now : Int) :
    (∃ v, (key, some (.ok v)) ∈ reads ∧ n.Brings key (.ok v) ∧
      (takeReads now n reads).2.Logs key (Dict.insert series now v.toJson)) ∨
    ((∀ v, (key, some (.ok v)) ∈ reads → ¬n.Brings key (.ok v)) ∧
      (takeReads now n reads).2.Logs key series) :=
  takeReads_cases (P := fun m => m.Logs key series)
    (Q := fun v m => m.Logs key (Dict.insert series now v.toJson))
    (fun _ _ r hm hne hlog => takeRead_logs_of_ne hm hlog hne r now)
    (fun _ _ _ r hm hne hlog => takeRead_logs_of_ne hm hlog hne r now)
    (fun _ r hm hlog => takeRead_logs hm hlog r now) hs h honce hids

/-! ### Whole ticks -/

/-- The tick reads a value from the port that differs from the one before. -/
def Takes (n : Node) (now : Int) (key : PortKey) (v : Value) : Prop :=
  ∃ t, (n.readsIn now).tick = some t ∧ (key, some (.ok v)) ∈ t.reads ∧ n.Brings key (.ok v)

/-- Nothing is stored by a tick once the values have been taken over. -/
theorem update_backend {t : Tick} (hs : (n.readsIn now).services = [])
    (htick : (n.readsIn now).tick = some t) (hof : TickOf n now t) :
    (n.update now).backend = (takeReads t.now (n.readsIn now) t.reads).2.backend := by
  have htook := takeReads_tookOver hs t.now hof.once
  have hsent := dispatch_called (n := (takeReads t.now (n.readsIn now) t.reads).2.awaitStorage)
    hof.nodup (takeReads t.now (n.readsIn now) t.reads).1
  rw [update_eq]
  unfold closeTick
  rw [htick]
  change ((takeReads t.now (n.readsIn now) t.reads).2.awaitStorage.dispatch t
    (takeReads t.now (n.readsIn now) t.reads).1).backend = _
  rw [hsent.rest]
  exact awaitStorage_backend (htook.services.trans hs)

/-- After a tick the port has the value that has been read from it, and JSON of the one before
where none differs from that. -/
theorem update_took (h : Sound n) (hp : n.Registered key p) {t : Tick}
    (ht : (n.readsIn now).tick = some t) :
    ∃ q, (n.update now).Registered key q ∧
      (∀ v, (key, some (.ok v)) ∈ t.reads → q.lastRead = some v) ∧
      ((∀ v, (key, some (.ok v)) ∈ t.reads → ¬n.Brings key (.ok v)) →
        q.lastRead.map Value.toJson = p.lastRead.map Value.toJson) := by
  obtain ⟨t', ids, m, hcall⟩ := exists_calling h.filed h.services now
  obtain rfl : t' = t := Option.some.inj (hcall.tick.symm.trans ht)
  have hfound := hcall.findings h
  obtain ⟨a, ha, -, -, htaken, hleft⟩ := hfound.values key p hp
  obtain ⟨q, hq, hvalue⟩ := hfound.lasting key a ha
  refine ⟨q, hq, fun v hv => hvalue.trans (htaken v hv), fun hno => ?_⟩
  rw [hvalue]
  by_cases hread : ∃ v, (key, some (.ok v)) ∈ t'.reads
  · obtain ⟨v, hv⟩ := hread
    have hsame : Value.sameOption p.lastRead (some v) = true := by
      by_contra hdiff
      exact hno v hv ⟨v, p, rfl, hp.portOf?, Bool.eq_false_iff.mpr hdiff⟩
    rw [htaken v hv]
    exact Value.map_toJson_of_sameOption hsame
  · rw [hleft fun v hv => hread ⟨v, hv⟩]

/-- A tick appends the value that it takes over to the log; otherwise the log stays, and so does
the value. -/
theorem update_logs (h : Sound n) (hp : n.Registered key p) (hlogs : p.LogsChanges)
    (hholds : n.HasSeries key.id series) (now : Int) :
    ∃ q, (n.update now).Registered key q ∧
      ((∃ v, n.Takes now key v ∧ q.lastRead = some v ∧
        (n.update now).HasSeries key.id (Dict.insert series now v.toJson)) ∨
      ((∀ v, ¬n.Takes now key v) ∧
        q.lastRead.map Value.toJson = p.lastRead.map Value.toJson ∧
        (n.update now).HasSeries key.id series)) := by
  have hlog := readsIn_logs h.filed h.services hp hlogs hholds now
  obtain ⟨t, hof, hin⟩ := readsIn_moved h.filed h.services now
  have hserv : (n.readsIn now).services = [] := hin.services.trans h.services
  have hids : ∀ e ∈ t.reads, e.1 = key ∨ e.1.id ≠ key.id := by
    intro e he
    obtain ⟨p', hp', -⟩ := (hof.enabled e.1).mp (hof.planned e he)
    exact eq_or_id_ne hp hp'
  have hbrings (r : Except PortError Value) : (n.readsIn now).Brings key r ↔ n.Brings key r :=
    hin.ports.brings_iff (fun _ _ _ => Moves.lastRead) r
  have hbackend := update_backend hserv hin.tick hof
  obtain ⟨q, hq, hread, hkept⟩ := update_took h hp hin.tick
  have htimes := takeReads_logs hserv hlog hof.once hids t.now
  rw [hof.time] at htimes hbackend
  simp only [hbrings] at htimes
  refine ⟨q, hq, ?_⟩
  rcases htimes with ⟨v, hv, hnew, hlater⟩ | ⟨hno, hlater⟩
  · exact .inl
      ⟨v, ⟨t, hin.tick, hv, hnew⟩, hread v hv, KeepsSeries.of_backend hbackend _ hlater.holds⟩
  · refine .inr ⟨?_, hkept hno, KeepsSeries.of_backend hbackend _ hlater.holds⟩
    rintro v ⟨t', ht', hv, hnew⟩
    obtain rfl : t' = t := Option.some.inj (ht'.symm.trans hin.tick)
    exact hno v hv hnew

/-! ### Histories -/

def Operation.time? : Operation → Option Int
  | .update now => some now
  | _ => none

def tickTimes (ops : List Operation) : List Int := ops.filterMap Operation.time?

/-- All along the history the port is registered and logs its changes, and the storage is not
replaced. -/
structure Logging (start : Node) (key : PortKey) (ops : List Operation) : Prop where
  port : ∀ front, front <+: ops → ∃ p, (start.after front).Registered key p ∧ p.LogsChanges
  storage : ∀ b, .storage b ∉ ops

/-- The time of the latest tick of a history that has taken a value over from the port. -/
inductive LastTook (start : Node) (key : PortKey) : List Operation → Int → Prop
  | now {ops : List Operation} {time : Int} {v : Value} (h : (start.after ops).Takes time key v) :
      LastTook start key (ops ++ [.update time]) time
  | before {ops : List Operation} {op : Operation} {time : Int} (h : LastTook start key ops time)
      (hnone : ∀ now v, op = .update now → ¬(start.after ops).Takes now key v) :
      LastTook start key (ops ++ [op]) time

/-- After the history the log holds samples of its ticks, the last one of the value that the port
has. -/
structure Recorded (start : Node) (key : PortKey) (ops : List Operation) (series : Series) :
    Prop where
  holds : (start.after ops).HasSeries key.id series
  times : ∀ e ∈ series, e.1 ∈ tickTimes ops
  latest : ∀ q v, (start.after ops).Registered key q → q.lastRead = some v →
    ∃ time, LastTook start key ops time ∧ series.getLast? = some (time, v.toJson)

namespace Recorded

variable {op : Operation}

theorem mem_tickTimes_append {more : List Operation} (h : time ∈ tickTimes ops) :
    time ∈ tickTimes (ops ++ more) := by
  rw [tickTimes, List.filterMap_append]
  exact List.mem_append_left _ h

/-- An operation that takes no value over from the port leaves the log alone: a value that the
port has after it is the one before. -/
theorem untaken (h : Recorded start key ops series)
    (hm : (start.after (ops ++ [op])).HasSeries key.id series)
    (hp : (start.after ops).Registered key p)
    (hnone : ∀ now v, op = .update now → ¬(start.after ops).Takes now key v)
    (hold : ∀ q v, (start.after (ops ++ [op])).Registered key q → q.lastRead = some v →
      ∃ w, p.lastRead = some w ∧ w.toJson = v.toJson) :
    Recorded start key (ops ++ [op]) series where
  holds := hm
  times e he := mem_tickTimes_append (h.times e he)
  latest q v hq hv := by
    obtain ⟨w, hw, hjson⟩ := hold q v hq hv
    obtain ⟨time, htook, hlast⟩ := h.latest p w hp hw
    exact ⟨time, .before htook hnone, hjson ▸ hlast⟩

/-- Ticks go on with the log, and other operations leave it alone. -/
theorem step (h : Recorded start key ops series) (hs : Sound start)
    (hp : (start.after ops).Registered key p) (hlogs : p.LogsChanges)
    (hq : (start.after (ops ++ [op])).Registered key q) (hstorage : ∀ b, op ≠ .storage b)
    (hlater : ∀ now, op = .update now → ∀ time ∈ tickTimes ops, time < now) :
    ∃ new, Recorded start key (ops ++ [op]) (series ++ new) ∧
      ∀ e ∈ new, e.1 ∈ tickTimes [op] := by
  have hsound := after_sound hs ops
  have hstep : start.after (ops ++ [op]) = (start.after ops).perform op :=
    after_append start ops [op]
  have hkeep (h' : Recorded start key (ops ++ [op]) series) :
      ∃ new, Recorded start key (ops ++ [op]) (series ++ new) ∧
        ∀ e ∈ new, e.1 ∈ tickTimes [op] :=
    ⟨[], by rwa [List.append_nil], fun e he => by cases he⟩
  cases hop : op.isTick with
  | false =>
    have hkept := perform_keepsSeries hsound hop hstorage (hstep ▸ hq) _ h.holds
    refine hkeep (h.untaken (hstep ▸ hkept) hp (fun now v heq => by rw [heq] at hop; cases hop) ?_)
    intro q v hq hv
    rcases perform_lasting hsound hop (hstep ▸ hq) hv with ⟨-, hnew⟩ | ⟨p', hp', hv', -⟩
    · exact absurd hp (hnew p)
    · cases hp.unique hp'
      exact ⟨v, hv', rfl⟩
  | true =>
    cases op <;> cases hop
    rename_i now
    obtain ⟨r, hr, hcase⟩ := update_logs hsound hp hlogs h.holds now
    rw [show (start.after ops).update now = start.after (ops ++ [.update now]) from hstep.symm]
      at hr hcase
    rcases hcase with ⟨v, htakes, hv, hm⟩ | ⟨hnone, hvalue, hm⟩
    · rw [Dict.insert_of_forall_gt fun e he => hlater now rfl e.1 (h.times e he)] at hm
      refine ⟨[(now, v.toJson)], ⟨hm, ?_, ?_⟩, ?_⟩
      · intro e he
        rcases List.mem_append.mp he with he | he
        · exact mem_tickTimes_append (h.times e he)
        · rw [List.mem_singleton.mp he, tickTimes, List.filterMap_append]
          exact List.mem_append_right _ (List.mem_singleton_self now)
      · intro q w hq hw
        cases hr.unique hq
        rw [hv] at hw
        cases hw
        exact ⟨now, .now htakes, by simp⟩
      · intro e he
        rw [List.mem_singleton.mp he]
        exact List.mem_singleton_self now
    · refine hkeep (h.untaken hm hp (fun now' v heq => ?_) fun q v hq hv => ?_)
      · cases heq
        exact hnone v
      · cases hr.unique hq
        rw [hv] at hvalue
        obtain ⟨w, hw, hjson⟩ := Option.map_eq_some_iff.mp hvalue.symm
        exact ⟨w, hw, hjson⟩

/-- The log only grows, by samples of later ticks. -/
theorem run (h : Recorded start key ops series) (hs : Sound start) {more : List Operation}
    (hlog : Logging start key (ops ++ more)) (hinc : (tickTimes (ops ++ more)).Pairwise (· < ·)) :
    ∃ new, Recorded start key (ops ++ more) (series ++ new) ∧
      ∀ e ∈ new, e.1 ∈ tickTimes more := by
  induction more generalizing ops series with
  | nil =>
    refine ⟨[], ?_, fun e he => by cases he⟩
    rwa [List.append_nil, List.append_nil]
  | cons op more ih =>
    have hassoc : ops ++ op :: more = ops ++ [op] ++ more := by simp
    rw [hassoc] at hlog hinc ⊢
    have hfront : ops <+: ops ++ [op] ++ more := by simp
    obtain ⟨p, hp, hlogs⟩ := hlog.port ops hfront
    obtain ⟨q, hq, -⟩ := hlog.port (ops ++ [op]) (List.prefix_append ..)
    obtain ⟨first, hfirst, hnow⟩ := h.step hs hp hlogs hq
      (fun b hb => hlog.storage b (by simp [hb]))
      (fun now hop time htime => by
        rw [tickTimes, List.append_assoc, List.filterMap_append, List.pairwise_append] at hinc
        exact hinc.2.2 time htime now (by simp [hop, Operation.time?]))
    obtain ⟨new, hnew, hlater⟩ := ih hfirst hlog hinc
    refine ⟨first ++ new, by rwa [← List.append_assoc], fun e he => ?_⟩
    have hcons : tickTimes (op :: more) = tickTimes [op] ++ tickTimes more :=
      List.filterMap_append (l := [op])
    rw [hcons]
    rcases List.mem_append.mp he with he | he
    · exact List.mem_append_left _ (hnow e he)
    · exact List.mem_append_right _ (hlater e he)

end Recorded

/-- Over a memory or a data file without samples of it, a port that has no value yet logs its
changes from then on. For every tick after which it has a value, the sample that is found at the
time of the tick is this value, stamped with the tick that took it over. Ticks come at ever later
times. -/
theorem samplesAt_of_logging (hs : Sound start) {front back : List Operation}
    (hlog : Logging start key (front ++ [.update time] ++ back))
    (hnone : ∀ p, start.Registered key p → p.lastRead = none) (hempty : start.HasSeries key.id [])
    (hinc : (tickTimes (front ++ [.update time] ++ back)).Pairwise (· < ·))
    (hq : (start.after (front ++ [.update time])).Registered key q) (hv : q.lastRead = some v) :
    ∃ taken, LastTook start key (front ++ [.update time]) taken ∧
      (start.after (front ++ [.update time] ++ back)).backend.samplesAt historyCollection key.id
        [time] = .ok [some ⟨taken, v.toJson⟩] := by
  have hbegun : Recorded start key [] [] := by
    refine ⟨hempty, fun e he => (by cases he), fun p v hp hv => ?_⟩
    rw [hnone p hp] at hv
    cases hv
  have hsplit : tickTimes (front ++ [.update time] ++ back) =
      tickTimes front ++ [time] ++ tickTimes back := by
    rw [tickTimes, List.filterMap_append, List.filterMap_append]
    rfl
  have hfront : Logging start key (front ++ [.update time]) :=
    ⟨fun ops hops => hlog.port ops (hops.trans (List.prefix_append ..)),
      fun b hb => hlog.storage b (List.mem_append_left _ hb)⟩
  obtain ⟨hpast, -, hnext⟩ := List.pairwise_append.mp (hsplit ▸ hinc)
  have htimes : tickTimes (front ++ [.update time]) = tickTimes front ++ [time] := by
    rw [tickTimes, List.filterMap_append]
    rfl
  have hpast' : (tickTimes ([] ++ (front ++ [.update time]))).Pairwise (· < ·) := by
    rw [List.nil_append, htimes]
    exact hpast
  have hrun : ∃ series, Recorded start key ([] ++ (front ++ [.update time])) ([] ++ series) ∧ _ :=
    hbegun.run hs hfront hpast'
  obtain ⟨series, hrecorded, -⟩ := hrun
  rw [List.nil_append, List.nil_append] at hrecorded
  obtain ⟨taken, htook, hlast⟩ := hrecorded.latest q v hq hv
  obtain ⟨later, hall, hlater⟩ := hrecorded.run hs hlog hinc
  refine ⟨taken, htook, ?_⟩
  rw [Backend.Holds.samplesAt_append hall.holds, hlast]
  · rfl
  · intro e he
    have hmem := hrecorded.times e he
    rw [htimes] at hmem
    rcases List.mem_append.mp hmem with hbefore | hnow
    · exact le_of_lt ((List.pairwise_append.mp hpast).2.2 e.1 hbefore time (by simp))
    · exact (List.mem_singleton.mp hnow).le
  · intro e he
    exact hnext time (by simp) e.1 (hlater e he)

/-- A door that is open and has not been looked at. -/
def doorway : Node := (create {} (.memory {}) 0).after [
  .add "door" (.memory { type := .boolean, value := some (.bool true) }),
  .setAttr "door" "history_interval" (.int (-1))]

def closing : List Operation := [
  .update 1000,
  .device ⟨"door", 0⟩ (some (.bool false)) false [],
  .addVirtual { id := "lamp", type := .boolean },
  .update 2000]

/-- The door is opened again and the lamp removed with all that is stored of it. -/
def reopening : List Operation := [
  .device ⟨"door", 0⟩ (some (.bool true)) false [],
  .remove "lamp" true,
  .update 4000]

theorem samplesAt_of_logging_door :
    Logging doorway ⟨"door", 0⟩ (closing ++ [.update 3000] ++ reopening) ∧
      (tickTimes (closing ++ [.update 3000] ++ reopening)).Pairwise (· < ·) ∧
      ∃ taken, LastTook doorway ⟨"door", 0⟩ (closing ++ [.update 3000]) taken ∧
        (doorway.after (closing ++ [.update 3000] ++ reopening)).backend.samplesAt
          historyCollection "door" [3000] = .ok [some ⟨taken, .bool false⟩] := by
  have hsound : Sound doorway := after_sound (sound_create _ _ _ _) _
  have hports : ∀ front ∈ (closing ++ [Operation.update 3000] ++ reopening).inits,
      ((doorway.after front).port? "door").any (fun p => decide (p.key = ⟨"door", 0⟩ ∧
        p.historyInterval = -1 ∧ p.historyRetention = 0)) = true := by decide +kernel
  have hlog : Logging doorway ⟨"door", 0⟩ (closing ++ [.update 3000] ++ reopening) := by
    refine ⟨fun front hfront => ?_, fun b hb => ?_⟩
    · obtain ⟨p, hp, hfields⟩ := (Option.any_eq_true ..).mp
        (hports front ((List.mem_inits ..).mpr hfront))
      obtain ⟨hkey, hinterval, hretention⟩ := of_decide_eq_true hfields
      exact ⟨p, ⟨hp, hkey⟩, hinterval, hretention⟩
    · simp [closing, reopening] at hb
  have hinc : (tickTimes (closing ++ [.update 3000] ++ reopening)).Pairwise (· < ·) := by decide
  have hunread : (doorway.port? "door").map Port.lastRead = some none := by decide +kernel
  have hvalue : ((doorway.after (closing ++ [.update 3000])).port? "door").map
      (fun p => (p.key, p.lastRead)) = some (⟨"door", 0⟩, some (.bool false)) := by decide +kernel
  have hstore : (match doorway.backend with
      | .memory s => decide (Dict.Sorted (s.objects historyCollection)) &&
          (s.series historyCollection "door").isEmpty
      | _ => false) = true := by decide +kernel
  have hempty : doorway.HasSeries "door" [] := by
    cases hb : doorway.backend with
    | memory s =>
      rw [hb, Bool.and_eq_true, List.isEmpty_iff] at hstore
      rw [HasSeries, hb]
      exact ⟨s, rfl, of_decide_eq_true hstore.1, hstore.2⟩
    | _ =>
      rw [hb] at hstore
      cases hstore
  obtain ⟨q, hq, hfields⟩ := Option.map_eq_some_iff.mp hvalue
  obtain ⟨hkey, hv⟩ := Prod.mk.inj hfields
  refine ⟨hlog, hinc, samplesAt_of_logging hsound hlog (fun p hp => ?_) hempty hinc ⟨hq, hkey⟩ hv⟩
  obtain ⟨p', hp', hnone⟩ := Option.map_eq_some_iff.mp hunread
  have hport := hp.1
  rw [hp'] at hport
  cases hport
  exact hnone

end Node

end ControlNode
