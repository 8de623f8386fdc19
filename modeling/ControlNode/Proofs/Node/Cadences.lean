import ControlNode.Proofs.Node.Sampling

/-!
# Cadences

Ticks come at any times: the clock may stand still, jump ahead or go back. The first tick of a
second is the one whose second lies past those of all ticks before it (`lastSecond_lt_iff`); it
tells the devices, and time counts as changed. After a sample that has been accepted the next one
of a port that is sampled every `s` seconds comes `s` seconds later at least (`SampledEvery.apart`):
the invariant over a history is that the date of the last sample never goes back (`Dated`).

A sample that has been refused is not dated, so that the next second brings another one. A data file
holds the refused one all the same, and so its samples can come closer (`refused_samples_held`).
-/

namespace ControlNode.Node

open Port

variable {n start : Node} {key : PortKey} {p q : Port} {v : Value} {now time s : Int}
  {ops front back : List Operation} {op : Operation}

/-! ### Seconds -/

/-- The second of a tick lies past the beginning and past the seconds of all ticks before. -/
def FirstOfSecond (ops : List Operation) (now : Int) : Prop :=
  0 < secondOf now ∧ ∀ time ∈ tickTimes ops, secondOf time < secondOf now

theorem perform_counted (h : Sound n) (hn : n.Counted) (op : Operation) : (n.perform op).Counted :=
  after_counted h hn [op]

theorem update_lastSecond (h : Sound n) (now : Int) :
    (n.update now).lastSecond = max n.lastSecond (secondOf now) := by
  obtain ⟨t, ids, m, hcall⟩ := exists_calling h.filed h.services now
  have hm : m.lastSecond = max n.lastSecond (secondOf t.now) := by
    rw [hcall.rest]
    rfl
  rw [hcall.outcome]
  change (m.dispatch t ids).lastSecond = _
  rw [(dispatch_lull m t ids).second, hm, hcall.of.time]

theorem lastSecond_lt_iff (h : Sound n) (hn : n.Counted) (ops : List Operation) (second : Int) :
    (n.after ops).lastSecond < second ↔
      n.lastSecond < second ∧ ∀ time ∈ tickTimes ops, secondOf time < second := by
  induction ops generalizing n with
  | nil => simp [after, tickTimes]
  | cons op ops ih =>
    rw [after, List.foldl_cons]
    refine (ih (perform_sound h op) (perform_counted h hn op)).trans ?_
    cases hop : op.isTick with
    | false =>
      have htimes : tickTimes (op :: ops) = tickTimes ops := by
        cases op <;> first | rfl | cases hop
      rw [(perform_undergoes h hn hop).second, htimes]
    | true =>
      cases op <;> cases hop
      rename_i now
      have htimes : tickTimes (.update now :: ops) = now :: tickTimes ops := rfl
      rw [perform, update_lastSecond h, htimes, max_lt_iff, List.forall_mem_cons, and_assoc]

/-- A tick after a history: what it says about the second, and to whom. -/
structure TellsSecond (start : Node) (ops : List Operation) (now : Int) : Prop where
  /-- Time counts as changed. -/
  time : ∃ t ids m, Calling (start.after ops) now t ids m ∧
    (.time ∈ changedDeps t ids ↔ FirstOfSecond ops now)
  /-- The devices of the ports that are on hear of it. -/
  heard : ∀ key p, (start.after ops).Registered key p → p.enabled = true → FirstOfSecond ops now →
    ∃ q, (start.after (ops ++ [.update now])).Registered key q ∧
      q.device.beats? = p.device.beats?.map (· + 1)
  unheard : ∀ key p, (start.after ops).Registered key p →
    ¬(p.enabled = true ∧ FirstOfSecond ops now) →
    ∃ q, (start.after (ops ++ [.update now])).Registered key q ∧ q.device.beats? = p.device.beats?

theorem tellsSecond (h : Sound start) (hn : start.Counted) (hzero : start.lastSecond = 0)
    (ops : List Operation) (now : Int) : TellsSecond start ops now := by
  have hsound := after_sound h ops
  have hfirst : (start.after ops).lastSecond < secondOf now ↔ FirstOfSecond ops now := by
    rw [lastSecond_lt_iff h hn, hzero]
    rfl
  have hbeats (key : PortKey) (p : Port) (hp : (start.after ops).Registered key p) :
      ∃ q, (start.after (ops ++ [.update now])).Registered key q ∧
        q.device.beats? = (start.after ops).beatsAfter now p := by
    obtain ⟨q, -, hq, -, hbeats, -⟩ := update_settles hsound hp now
    exact ⟨q, (after_append start ops [.update now]).symm ▸ hq, hbeats⟩
  refine ⟨?_, fun key p hp hon hnew => ?_, fun key p hp hold => ?_⟩
  · obtain ⟨t, ids, m, hcall⟩ := exists_calling hsound.filed hsound.services now
    refine ⟨t, ids, m, hcall, ?_⟩
    rw [mem_changedDeps, hcall.of.newSecond, decide_eq_true_eq, hfirst]
    simp
  · obtain ⟨q, hq, hheard⟩ := hbeats key p hp
    exact ⟨q, hq, hheard.trans (if_pos ⟨hfirst.mpr hnew, hon⟩)⟩
  · obtain ⟨q, hq, hheard⟩ := hbeats key p hp
    exact ⟨q, hq, hheard.trans (if_neg fun h => hold ⟨h.2, hfirst.mp h.1⟩)⟩

/-! ### Samples -/

/-- All along the history the port is registered and to be sampled every `s` seconds, and the time
of its last sample is not restored from a record. -/
structure SampledEvery (start : Node) (key : PortKey) (s : Int) (ops : List Operation) : Prop where
  port : ∀ front, front <+: ops →
    ∃ p, (start.after front).Registered key p ∧ p.historyInterval = s
  restored : ∀ r, .loadAttrs key.id r ∈ ops → "history_last_timestamp" ∉ Dict.keys r

/-- A tick goes about storing a sample of the port. -/
def Tries (n : Node) (now : Int) (key : PortKey) (v : Value) : Prop :=
  ∃ p, n.Registered key p ∧ n.Attempts now p v

def Stores (n : Node) (now : Int) (key : PortKey) (v : Value) : Prop :=
  ∃ p, n.Registered key p ∧ n.Samples now p v

theorem Tries.stores (h : n.Tries now key v) (hb : n.backend.storesSamples = true) :
    n.Stores now key v := by
  obtain ⟨p, hp, hattempt⟩ := h
  exact ⟨p, hp, hattempt, (accepts_iff ..).mpr hb⟩

/-- A tick that goes about storing a sample is later than all ticks before. -/
theorem Tries.lt_of_mem (h : (start.after ops).Tries now key v) (hs : Sound start)
    (hn : start.Counted) (ht : time ∈ tickTimes ops) : time < now := by
  obtain ⟨p, -, hattempt⟩ := h
  have hsecond := ((lastSecond_lt_iff hs hn ops _).mp hattempt.second).2 time ht
  unfold secondOf at hsecond
  omega

/-- Between dates nothing wraps around. -/
theorem le_of_due (hnow : Calendar.inRange now = true)
    (hlast : Calendar.inRange p.historyLast = true)
    (hdue : isSampleDue p now = true) : p.historyLast + p.historyInterval * 1000 ≤ now := by
  simp only [Calendar.inRange, Bool.and_eq_true, decide_eq_true_eq] at hnow hlast
  obtain ⟨-, hpassed⟩ := (Bool.and_eq_true ..).mp hdue
  have hage := Binary64.wrapInt64_of_range (n := now - p.historyLast)
    (by simp only [Calendar.minMs, Calendar.maxMs, Binary64.minInt64] at hnow hlast ⊢; omega)
    (by simp only [Calendar.minMs, Calendar.maxMs, Binary64.maxInt64] at hnow hlast ⊢; omega)
  have hle := of_decide_eq_true hpassed
  rw [hage] at hle
  omega

/-- The last sample of the port has a date, which is `time` or later. -/
def Dated (n : Node) (key : PortKey) (time : Int) : Prop :=
  ∃ p, n.Registered key p ∧ time ≤ p.historyLast ∧ Calendar.inRange p.historyLast = true

/-- The next sample comes `s` seconds later at least. -/
theorem Dated.apart (h : n.Dated key time) (hp : n.Registered key p)
    (hinterval : p.historyInterval = s)
    (hnow : Calendar.inRange now = true) (hattempt : n.Attempts now p v) :
    time + s * 1000 ≤ now := by
  obtain ⟨p', hp', hle, hlast⟩ := h
  obtain rfl : p' = p := hp'.unique hp
  have hdue := le_of_due hnow hlast hattempt.due
  rw [hinterval] at hdue
  omega

/-- One operation: the date of the last sample goes on to that of the tick or stays. -/
theorem Dated.perform (h : n.Dated key time) (hs : Sound n) (hn : n.Counted)
    (hp : n.Registered key p) (hpos : 0 < p.historyInterval)
    (hnow : ∀ now, op = .update now → Calendar.inRange now = true)
    (hrestored : ∀ r, op = .loadAttrs key.id r → "history_last_timestamp" ∉ Dict.keys r)
    (hq : (n.perform op).Registered key q) : (n.perform op).Dated key time := by
  obtain ⟨p', hp', hle, hlast⟩ := id h
  obtain rfl : p' = p := hp'.unique hp
  cases hop : op.isTick with
  | false =>
    obtain ⟨q', hq', hpq⟩ := (perform_undergoes hs hn hop).ports key p' hp.portOf?
    obtain rfl : q' = q := Option.some.inj (hq'.symm.trans hq.portOf?)
    have hsame : q'.historyLast = p'.historyLast := hpq.last fun r heq =>
      hrestored r (by rw [heq, Port.id, hp.2])
    exact ⟨q', hq, hsame ▸ hle, hsame ▸ hlast⟩
  | true =>
    cases op <;> cases hop
    rename_i now
    obtain ⟨q', new, hq', -, -, hleaves⟩ := update_settles hs hp now
    rcases hleaves (by omega) with
      ⟨v, -, hsample, hdated, -⟩ | ⟨-, -, -, hdated, -⟩ | ⟨-, hdated, -⟩
    · have hapart := h.apart hp rfl (hnow now rfl) hsample.toAttempts
      exact ⟨q', hq', by rw [hdated]; omega, hdated ▸ hnow now rfl⟩
    · exact ⟨q', hq', hdated ▸ hle, hdated ▸ hlast⟩
    · exact ⟨q', hq', hdated ▸ hle, hdated ▸ hlast⟩

theorem SampledEvery.of_prefix (h : SampledEvery start key s ops) (hfront : front <+: ops) :
    SampledEvery start key s front :=
  ⟨fun ops hops => h.port ops (hops.trans hfront), fun r hr => h.restored r (hfront.subset hr)⟩

theorem SampledEvery.dated (h : SampledEvery start key s (front ++ back)) (hs : Sound start)
    (hn : start.Counted) (hpos : 0 < s)
    (hdates : ∀ time ∈ tickTimes back, Calendar.inRange time = true)
    (hfrom : (start.after front).Dated key time) :
    (start.after (front ++ back)).Dated key time := by
  induction back using List.reverseRecOn with
  | nil => rwa [List.append_nil]
  | append_singleton back op ih =>
    rw [← List.append_assoc] at h ⊢
    have htimes : tickTimes (back ++ [op]) = tickTimes back ++ tickTimes [op] :=
      List.filterMap_append ..
    rw [htimes] at hdates
    have hearlier : SampledEvery start key s (front ++ back) := h.of_prefix (List.prefix_append ..)
    have hbefore := ih hearlier fun time ht => hdates time (List.mem_append_left _ ht)
    obtain ⟨p, hp, hinterval⟩ := hearlier.port _ (List.prefix_refl _)
    obtain ⟨q, hq, -⟩ := h.port _ (List.prefix_refl _)
    rw [after_append] at hq ⊢
    refine hbefore.perform (after_sound hs _) (after_counted hs hn _) hp (hinterval ▸ hpos) ?_ ?_ hq
    · rintro now rfl
      exact hdates now (List.mem_append_right _ (List.mem_singleton_self now))
    · rintro r rfl
      exact h.restored r (by simp)

/-- After a sample of the port that has been stored `s` seconds pass at least before a tick goes
about storing another one. -/
theorem SampledEvery.apart {later : Int} {w : Value}
    (h : SampledEvery start key s (front ++ [.update time] ++ back ++ [.update later]))
    (hs : Sound start) (hn : start.Counted) (hpos : 0 < s)
    (hdates : ∀ now ∈ tickTimes (front ++ [.update time] ++ back ++ [.update later]),
      Calendar.inRange now = true)
    (hfirst : (start.after front).Stores time key v)
    (hnext : (start.after (front ++ [.update time] ++ back)).Tries later key w) :
    time + s * 1000 ≤ later := by
  obtain ⟨p, hp, hsample⟩ := hfirst
  obtain ⟨q, hq, hattempt⟩ := hnext
  have hin {now : Int} (hmem : .update now ∈ front ++ [.update time] ++ back ++ [.update later]) :
      Calendar.inRange now = true := hdates now (List.mem_filterMap.mpr ⟨.update now, hmem, rfl⟩)
  have hdated : (start.after (front ++ [.update time])).Dated key time := by
    obtain ⟨r, change, hr, -, -, hleaves⟩ := update_settles (after_sound hs front) hp time
    obtain ⟨p', hp', hinterval⟩ := h.port front (by simp)
    obtain rfl : p' = p := hp'.unique hp
    rw [after_append]
    rcases hleaves (by omega) with ⟨-, -, -, hlast, -⟩ | ⟨_, -, hrefused, -⟩ | ⟨hno, -⟩
    · exact ⟨r, hr, hlast.ge, hlast ▸ hin (by simp)⟩
    · rw [accepts_iff] at hrefused
      exact absurd ((accepts_iff ..).mp hsample.accepted) hrefused
    · exact absurd hsample.toAttempts (hno v)
  have hearlier : SampledEvery start key s (front ++ [.update time] ++ back) :=
    h.of_prefix (List.prefix_append ..)
  have hlater := hearlier.dated hs hn hpos (fun now ht => hdates now ?_) hdated
  · obtain ⟨q', hq', hinterval⟩ := h.port _ (List.prefix_append ..)
    obtain rfl : q' = q := hq'.unique hq
    exact hlater.apart hq hinterval (hin (by simp)) hattempt
  · rw [tickTimes, List.filterMap_append, List.filterMap_append]
    exact List.mem_append_left _ (List.mem_append_right _ ht)

/-! ### Held samples -/

/-- What a change of the samples leaves was there before or is a sample that the tick went about
storing. -/
theorem Leaves.known {last : Int} {change : Series → Series} (h : n.Leaves now p last change)
    {held : Series} {e : Int × Json} (he : e ∈ change held) :
    e ∈ held ∨ ∃ v, n.Attempts now p v ∧ e = (now, v.toJson) := by
  rcases h with ⟨v, keep, hsample, -, rfl⟩ | ⟨v, hattempt, -, -, rfl⟩ | ⟨-, -, rfl⟩
  · rcases Dict.mem_insert (List.mem_filter.mp he).1 with hnew | hold
    · exact .inr ⟨v, hsample.toAttempts, hnew⟩
    · exact .inl hold
  · rcases Dict.mem_insert he with hnew | hold
    · exact .inr ⟨v, hattempt, hnew⟩
    · exact .inl hold
  · exact .inl he

/-- What is held of the port after a history was held before, or a tick of the history has gone
about storing it. -/
theorem SampledEvery.held (h : SampledEvery start key s ops) (hs : Sound start)
    (hpos : 0 < s) (hstorage : ∀ b, .storage b ∉ ops) {held : Series}
    (hheld : start.HasSeries key.id held) :
    ∃ series, (start.after ops).HasSeries key.id series ∧ ∀ e ∈ series, e ∈ held ∨
      ∃ front v, front ++ [.update e.1] <+: ops ∧ (start.after front).Tries e.1 key v ∧
        e.2 = v.toJson := by
  induction ops using List.reverseRecOn with
  | nil => exact ⟨held, hheld, fun e he => .inl he⟩
  | append_singleton ops op ih =>
    have hprefix : ops <+: ops ++ [op] := List.prefix_append ..
    obtain ⟨series, hseries, hknown⟩ := ih (h.of_prefix hprefix)
      fun b hb => hstorage b (List.mem_append_left _ hb)
    have hknown' : ∀ e ∈ series, e ∈ held ∨ ∃ front v, front ++ [.update e.1] <+: ops ++ [op] ∧
        (start.after front).Tries e.1 key v ∧ e.2 = v.toJson := fun e he =>
      (hknown e he).imp_right fun ⟨front, v, hfront, hrest⟩ =>
        ⟨front, v, hfront.trans hprefix, hrest⟩
    have hsound := after_sound hs ops
    obtain ⟨p, hp, hinterval⟩ := h.port ops hprefix
    obtain ⟨q, hq, -⟩ := h.port _ (List.prefix_refl _)
    rw [after_append] at hq ⊢
    cases hop : op.isTick with
    | false =>
      refine ⟨series, ?_, hknown'⟩
      exact perform_keepsSeries hsound hop (fun b hb => hstorage b (by simp [hb])) hq _ hseries
    | true =>
      cases op <;> cases hop
      rename_i now
      obtain ⟨r, change, -, hrevised, -, hleaves⟩ := update_settles hsound hp now
      refine ⟨change series, hrevised.series series hseries, fun e he => ?_⟩
      rcases (hleaves (by omega)).known he with hold | ⟨v, hattempt, rfl⟩
      · exact hknown' e hold
      · exact .inr ⟨ops, v, List.prefix_refl _, ⟨p, hp, hattempt⟩, rfl⟩

/-- A data file that cannot be written, for want of its directory. -/
def Unwritable (b : Backend) : Prop := ∃ files s, b = .file files s ∧ files.directory = false

/-- A sample that is held has been stored, unless the data file could not be written. -/
theorem Tries.stores_or_unwritable (h : n.Tries now key v) {series : Series}
    (hheld : n.HasSeries key.id series) : n.Stores now key v ∨ Unwritable n.backend := by
  cases hstores : n.backend.storesSamples with
  | true => exact .inl (h.stores hstores)
  | false =>
    have ⟨p, _, hattempt⟩ := h
    rcases Backend.eq_of_not_storesSamples hstores hattempt.supported with hfile | ⟨t, htables⟩
    · exact .inr hfile
    · obtain ⟨s, hresident, -⟩ := hheld
      rw [htables] at hresident
      cases hresident

/-! ### Histories -/

/-- Ticks, and nothing else, tell the seconds. -/
structure KeepsSeconds (start : Node) : Prop where
  tick : ∀ ops now, TellsSecond start ops now
  between : ∀ ops op key p, op.isTick = false → (start.after ops).portOf? key = some p →
    ∃ q, (start.after (ops ++ [op])).portOf? key = some q ∧ q.device.beats? = p.device.beats?

/-- Over a history the samples of a port are `s` seconds apart, but for those that follow one that
was refused. -/
structure KeepsApart (start : Node) (key : PortKey) (s : Int) (ops : List Operation) : Prop where
  /-- A tick goes about storing one sample at most, and dates it if it has been accepted. -/
  one : ∀ front now, front ++ [.update now] <+: ops → ∃ p q change,
    (start.after front).Registered key p ∧ (start.after (front ++ [.update now])).Registered key q ∧
      (start.after front).Leaves now p q.historyLast change ∧
      Backend.Revised historyCollection key.id change (start.after front).backend
        (start.after (front ++ [.update now])).backend
  apart : ∀ front back time later v w,
    front ++ [.update time] ++ back ++ [.update later] <+: ops →
    (start.after front).Stores time key v →
    (start.after (front ++ [.update time] ++ back)).Tries later key w → time + s * 1000 ≤ later
  /-- A memory or a data file that is not exchanged holds samples that are so far apart, beside
  those that it held before. If two are closer, the file could not be written when the first one
  came. -/
  held : (∀ b, .storage b ∉ ops) → ∀ held, start.HasSeries key.id held →
    ∃ series, (start.after ops).HasSeries key.id series ∧
      ∀ e ∈ series, ∀ e' ∈ series, e ∉ held → e' ∉ held → e.1 < e'.1 →
        e.1 + s * 1000 ≤ e'.1 ∨
          ∃ front, front ++ [.update e.1] <+: ops ∧ Unwritable (start.after front).backend

theorem SampledEvery.keepsApart (h : SampledEvery start key s ops) (hs : Sound start)
    (hn : start.Counted) (hpos : 0 < s)
    (hdates : ∀ time ∈ tickTimes ops, Calendar.inRange time = true) :
    KeepsApart start key s ops := by
  have hapart (front back : List Operation) (time later : Int) (v w : Value)
      (hops : front ++ [.update time] ++ back ++ [.update later] <+: ops)
      (hfirst : (start.after front).Stores time key v)
      (hnext : (start.after (front ++ [.update time] ++ back)).Tries later key w) :
      time + s * 1000 ≤ later := by
    refine (h.of_prefix hops).apart hs hn hpos (fun now hnow => hdates now ?_) hfirst hnext
    exact (hops.filterMap Operation.time?).subset hnow
  refine ⟨fun front now hfront => ?_, hapart, fun hstorage held hheld => ?_⟩
  · obtain ⟨p, hp, hinterval⟩ := h.port front ((List.prefix_append ..).trans hfront)
    obtain ⟨q, change, hq, hrevised, -, hleaves⟩ := update_settles (after_sound hs front) hp now
    rw [after_append]
    exact ⟨p, q, change, hp, hq, hleaves (by omega), hrevised⟩
  · obtain ⟨series, hseries, hknown⟩ := h.held hs hpos hstorage hheld
    refine ⟨series, hseries, fun e he e' he' hnew hnew' hlt => ?_⟩
    obtain ⟨front, v, hfront, hfirst, -⟩ := (hknown e he).resolve_left hnew
    obtain ⟨front', v', hfront', hnext, -⟩ := (hknown e' he').resolve_left hnew'
    have hbefore : front <+: ops := (List.prefix_append ..).trans hfront
    obtain ⟨earlier, hearlier, -⟩ := (h.of_prefix hbefore).held hs hpos
      (fun b hb => hstorage b (hbefore.subset hb)) hheld
    rcases hfirst.stores_or_unwritable hearlier with hstored | hfile
    · refine .inl ?_
      -- the later sample belongs to a later tick
      have hother : ¬front' ++ [.update e'.1] <+: front ++ [.update e.1] := by
        intro hle
        rcases List.prefix_concat_iff.mp hle with heq | hle
        · have hsame := (List.append_inj' heq rfl).2
          simp only [List.cons.injEq, Operation.update.injEq, and_true] at hsame
          omega
        · have hpast : e'.1 ∈ tickTimes front :=
            (hle.filterMap Operation.time?).subset (by simp [Operation.time?])
          have hback := hfirst.lt_of_mem hs hn hpast
          omega
      have hle := (List.prefix_or_prefix_of_prefix hfront hfront').resolve_right hother
      rcases List.prefix_concat_iff.mp hle with heq | ⟨back, rfl⟩
      · exact absurd ⟨[], by rw [List.append_nil, heq]⟩ hother
      · exact hapart front back e.1 e'.1 v v' hfront' hstored hnext
    · exact .inr ⟨front, hfront, hfile⟩

/-- The cadence of ticks. At whatever times they come, a tick counts time as changed and tells the
devices of the ports that are on exactly if its second lies past those of all ticks before it. As
long as the interval stays and the times are dates, there is one periodic sample of a port a tick at
most, and after one that has been stored the next one keeps the distance that the interval says.
Samples that are held can only be closer if the first one could not be written to the data file. -/
theorem ticks_keep_cadence (config : NodeConfig) (backend : Backend) (wall : Int) (zone : Zone) :
    KeepsSeconds (create config backend wall zone) ∧
      ∀ before ops key s, 0 < s →
        SampledEvery ((create config backend wall zone).after before) key s ops →
        (∀ time ∈ tickTimes ops, Calendar.inRange time = true) →
        KeepsApart ((create config backend wall zone).after before) key s ops := by
  have hs := sound_create config backend wall zone
  have hn := counted_create config backend wall zone
  refine ⟨⟨tellsSecond hs hn rfl, fun ops op key p hop hp => ?_⟩,
    fun before ops key s hpos h hdates =>
    h.keepsApart (after_sound hs before) (after_counted hs hn before) hpos hdates⟩
  obtain ⟨q, hq, hpq⟩ :=
    (perform_undergoes (after_sound hs ops) (after_counted hs hn ops) hop).ports key p hp
  exact ⟨q, (after_append _ ops [op]).symm ▸ hq, hpq.beats⟩

/-- A meter that is to be sampled every two seconds. -/
def metering : List Operation := [
  .add "meter" (.scripted { type := .number, value := some (.num 7) }),
  .setAttr "meter" "history_interval" (.int 2)]

/-- The clock goes on, back, and jumps ahead. -/
def clocking : List Operation :=
  [.update 1000, .update 2500, .update 3000, .update 1500, .update 9000, .update 9999]

theorem ticks_keep_cadence_meter :
    (0 : Int) < 2 ∧
    SampledEvery ((create {} (.memory {}) 0).after metering) ⟨"meter", 0⟩ 2 clocking ∧
      (∀ time ∈ tickTimes clocking, Calendar.inRange time = true) ∧
      KeepsSeconds (create {} (.memory {}) 0) ∧
      KeepsApart ((create {} (.memory {}) 0).after metering) ⟨"meter", 0⟩ 2 clocking ∧
      ((((create {} (.memory {}) 0).after metering).after clocking).backend.sample?
        historyCollection "meter" 2500).isSome = true ∧
      ((((create {} (.memory {}) 0).after metering).after clocking).port? "meter").map
        (fun p => (p.device.beats?, p.historyLast)) = some (some 4, 9000) := by
  have hports : ∀ front ∈ clocking.inits, ((((create {} (.memory {}) 0).after metering).after
      front).port? "meter").any (fun p => decide (p.key = ⟨"meter", 0⟩ ∧ p.historyInterval = 2)) =
        true := by decide +kernel
  have hevery :
    SampledEvery ((create {} (.memory {}) 0).after metering) ⟨"meter", 0⟩ 2 clocking := by
    refine ⟨fun front hfront => ?_, fun r hr => by simp [clocking] at hr⟩
    obtain ⟨p, hp, hfields⟩ := (Option.any_eq_true ..).mp
      (hports front ((List.mem_inits ..).mpr hfront))
    obtain ⟨hkey, hinterval⟩ := of_decide_eq_true hfields
    exact ⟨p, ⟨hp, hkey⟩, hinterval⟩
  have hdates : ∀ time ∈ tickTimes clocking, Calendar.inRange time = true := by decide
  obtain ⟨hseconds, hapart⟩ := ticks_keep_cadence {} (.memory {}) 0 .utc
  exact ⟨by decide, hevery, hdates, hseconds,
    hapart metering clocking _ 2 (by decide) hevery hdates,
    by decide +kernel, by decide +kernel⟩

def minutely : List Operation := [
  .add "meter" (.scripted { type := .number, value := some (.num 7) }),
  .setAttr "meter" "history_interval" (.int 60)]

/-- Over a data file whose directory is gone each tick brings a sample, and all of them are held. -/
theorem refused_samples_held :
    let start := (create {} (.file {} {}) 0).after minutely
    let ticks := [Operation.update 99000, .update 100000, .update 101000]
    (∀ front ∈ ticks.inits, ((start.after front).port? "meter").map
      (fun p => (p.historyInterval, p.historyLast)) = some (60, 0)) ∧
    ((start.after ticks).backend.sample? historyCollection "meter" 100000).isSome = true ∧
    ((start.after ticks).backend.sample? historyCollection "meter" 101000).isSome = true := by
  decide +kernel

end ControlNode.Node
