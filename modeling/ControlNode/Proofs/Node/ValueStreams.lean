import ControlNode.Proofs.Node.FirstTicks
import ControlNode.Proofs.Node.Interludes
import ControlNode.Proofs.Node.ValueLogs

/-!
# Streams of changes

The changes that are announced of a port mirror its value. A tick announces the value that it takes
over, with the one before it, and nothing else does (`perform_announces`). So whoever follows the
announcements of a port from the time it is added, in the order in which they come, finds each old
value to be the new one of the announcement before, and the last new one to be the value that the
port has (`valueChanges_mirror`).
-/

namespace ControlNode

namespace Event

/-- What an announcement says under a name. -/
def part (e : Event) (name : String) : Json :=
  match e.data with
  | .obj fields => (Dict.get? fields name).getD .null
  | _ => .null

theorem ofOption_congr {old old' : Option Value}
    (h : old'.map Value.toJson = old.map Value.toJson) :
    Json.ofOption Value.toJson old' = Json.ofOption Value.toJson old := by
  cases old <;> cases old' <;> simp_all [Json.ofOption]

/-- Values of the same JSON make the same announcement. -/
theorem valueChange_congr {old old' : Option Value}
    (h : old'.map Value.toJson = old.map Value.toJson) (id : String) (v : Value) :
    valueChange id old' v = valueChange id old v := by
  rw [valueChange, valueChange, ofOption_congr h]

def changesOf (id : String) (events : List Event) : List Event :=
  events.filter fun e => e.type = "Port/ValueChange" ∧ e.source = id

@[simp] theorem changesOf_append (id : String) (es es' : List Event) :
    changesOf id (es ++ es') = changesOf id es ++ changesOf id es' := List.filter_append ..

theorem changesOf_singleton (id : String) (old : Option Value) (v : Value) :
    changesOf id [.valueChange id old v] = [.valueChange id old v] := by
  simp [changesOf, valueChange]

theorem changesOf_eq_nil {id : String} {es : List Event}
    (h : ∀ e ∈ es, e.type ≠ "Port/ValueChange" ∨ e.source ≠ id) : changesOf id es = [] := by
  refine List.filter_eq_nil_iff.mpr fun e he => ?_
  rw [decide_eq_true_eq, not_and_or]
  exact h e he

end Event

namespace Port

theorem Moves.internal_eq {p q : Port} (h : Moves p q) : q.internal = p.internal := by
  induction h with
  | refl => rfl
  | tail _ hstep ih =>
    cases hstep with
    | work hwork =>
      rw [hwork.frame]
      exact ih
    | upkeep hkept =>
      rw [hkept.frame]
      exact ih

end Port

namespace Node

open Port Event

variable {start n m : Node} {key other : PortKey} {p q : Port} {v : Value} {old : Option Value}
  {es : List Event} {now : Int} {ops : List Operation} {op : Operation}

/-! ### Announcements of a tick -/

/-- The port of the key announces its changes and has a value of the same JSON as `old`; `es` have
been announced. -/
structure Speaks (n : Node) (key : PortKey) (old : Option Value) (es : List Event) : Prop where
  port : ∃ p, n.portOf? key = some p ∧ p.internal = false ∧
    p.lastRead.map Value.toJson = old.map Value.toJson
  events : changesOf key.id n.events = es

/-- Reads of other ports announce nothing of the port. -/
theorem takeRead_changesOf (hs : n.services = []) (hne : other.id ≠ key.id)
    (r : Except PortError Value) (now : Int) :
    changesOf key.id (takeRead now n other r).2.events = changesOf key.id n.events := by
  obtain ⟨new, hadds, hannounced⟩ := takeRead_events hs other r now
  have hnone : changesOf key.id new = [] := by
    refine changesOf_eq_nil fun e he => .inr ?_
    obtain ⟨other', v, old, hmem, -, rfl⟩ := hannounced e he
    obtain rfl : other' = other := (Prod.mk.inj (List.mem_singleton.mp hmem)).1
    exact hne
  rw [hadds, changesOf_append, hnone, List.nil_append]

theorem Speaks.others (h : n.Speaks key old es) (hs : n.services = []) (hne : other.id ≠ key.id)
    (r : Except PortError Value) (now : Int) : (takeRead now n other r).2.Speaks key old es := by
  obtain ⟨p, hp, hext, hold⟩ := h.port
  obtain ⟨q, hq, htaken⟩ := (takeRead_tookOver hs other r now).ports.exists_of_portOf? hp
  have hkept : Upkeep p q := htaken.unread fun v hv => by
    rw [key_of_portOf? hp] at hv
    exact hne (congrArg PortKey.id (Prod.mk.inj (List.mem_singleton.mp hv)).1).symm
  refine ⟨⟨q, hq, ?_, ?_⟩, (takeRead_changesOf hs hne r now).trans h.events⟩
  · rw [hkept.frame]
    exact hext
  · rw [hkept.lastRead]
    exact hold

theorem Speaks.takeValue (h : n.Speaks key old es) (hs : n.services = []) (v : Value) (now : Int) :
    (n.Brings key (.ok v) ∧
      changesOf key.id (n.takeValue key v now).2.events = .valueChange key.id old v :: es) ∨
    (¬n.Brings key (.ok v) ∧ (n.takeValue key v now).2.Speaks key old es) := by
  obtain ⟨p, hp, hext, hold⟩ := h.port
  have hkey := key_of_portOf? hp
  rw [brings_ok_iff hp]
  cases hsame : Value.sameOption p.lastRead (some v) with
  | true =>
    refine .inr ⟨by decide, ?_⟩
    rw [takeValue_of_same hp hsame]
    refine ⟨⟨{ p with lastRead := some v }, ?_, hext, ?_⟩, ?_⟩
    · rw [portOf?_putPort, if_pos hkey.symm, hp]
      rfl
    · exact (Value.map_toJson_of_sameOption hsame).trans hold
    · rw [putPort_frame]
      exact h.events
  | false =>
    have hsent : changesOf key.id (n.announcing p v).events = .valueChange key.id old v :: es := by
      rw [announcing_eq hs]
      dsimp only
      rw [if_neg (by rw [hext]; decide), Port.id, hkey]
      change changesOf key.id ([.valueChange key.id p.lastRead v] ++ n.events) = _
      rw [changesOf_append, changesOf_singleton, h.events, valueChange_congr hold]
      rfl
    refine .inl ⟨rfl, ?_⟩
    rw [takeValue_of_new hp hsame]
    dsimp only
    split
    · rw [(saveHistory_tended key v now).evolves.events]
      exact hsent
    · exact hsent

theorem Speaks.takeRead (h : n.Speaks key old es) (hs : n.services = [])
    (r : Except PortError Value) (now : Int) :
    (∃ v, r = .ok v ∧ n.Brings key (.ok v) ∧
      changesOf key.id (takeRead now n key r).2.events = .valueChange key.id old v :: es) ∨
    ((∀ v, r = .ok v → ¬n.Brings key (.ok v)) ∧ (takeRead now n key r).2.Speaks key old es) := by
  cases r with
  | error e => exact .inr ⟨nofun, by cases e <;> exact ⟨h.port, h.events⟩⟩
  | ok v =>
    rcases h.takeValue hs v now with ⟨hbrings, hevents⟩ | ⟨hno, hspeaks⟩
    · exact .inl ⟨v, rfl, hbrings, hevents⟩
    · refine .inr ⟨fun w hw => ?_, hspeaks⟩
      cases hw
      exact hno

/-- The reads of a tick are followed by one announcement of the port, or by none. -/
theorem Speaks.takeReads (h : n.Speaks key old es) (hs : n.services = []) {reads : Reads}
    (honce : (reads.map Prod.fst).Nodup) (hids : ∀ e ∈ reads, e.1 = key ∨ e.1.id ≠ key.id)
    (now : Int) :
    (∃ v, (key, some (.ok v)) ∈ reads ∧ n.Brings key (.ok v) ∧
      changesOf key.id (takeReads now n reads).2.events = .valueChange key.id old v :: es) ∨
    ((∀ v, (key, some (.ok v)) ∈ reads → ¬n.Brings key (.ok v)) ∧
      changesOf key.id (takeReads now n reads).2.events = es) := by
  have hcases := takeReads_cases (P := fun m => m.Speaks key old es)
    (Q := fun v m => changesOf key.id m.events = .valueChange key.id old v :: es)
    (fun _ _ r hm hne hspeaks => hspeaks.others hm hne r now)
    (fun _ _ _ r hm hne hevents => (takeRead_changesOf hm hne r now).trans hevents)
    (fun _ r hm hspeaks => hspeaks.takeRead hm r now) hs h honce hids
  exact hcases.imp_right fun ⟨hno, hspeaks⟩ => ⟨hno, hspeaks.events⟩

/-- A tick announces the value that it takes over, with the one before it, and nothing else of the
port. -/
theorem update_announces (h : Sound n) (hp : n.Registered key p) (hext : p.internal = false)
    (now : Int) : ∃ q new, (n.update now).Registered key q ∧ AddsEvents n (n.update now) new ∧
      ((∃ v, n.Takes now key v ∧ changesOf key.id new = [.valueChange key.id p.lastRead v] ∧
          q.lastRead = some v) ∨
        ((∀ v, ¬n.Takes now key v) ∧ changesOf key.id new = [] ∧
          q.lastRead.map Value.toJson = p.lastRead.map Value.toJson)) := by
  obtain ⟨t, hof, hin⟩ := readsIn_moved h.filed h.services now
  have hserv : (n.readsIn now).services = [] := hin.services.trans h.services
  have hids : ∀ e ∈ t.reads, e.1 = key ∨ e.1.id ≠ key.id := by
    intro e he
    obtain ⟨p', hp', -⟩ := (hof.enabled e.1).mp (hof.planned e he)
    exact eq_or_id_ne hp hp'
  have hbrings (r : Except PortError Value) : (n.readsIn now).Brings key r ↔ n.Brings key r :=
    hin.ports.brings_iff (fun _ _ _ => Moves.lastRead) r
  have hspeaks : (n.readsIn now).Speaks key p.lastRead (changesOf key.id n.events) := by
    obtain ⟨r, hr, hpr⟩ := hin.ports.exists_of_portOf? (n := n.noting t) (p := p) hp.portOf?
    refine ⟨⟨r, hr, hpr.internal_eq.trans hext, congrArg _ hpr.lastRead⟩, ?_⟩
    rw [hin.events]
    rfl
  obtain ⟨q, hq, hread, hkept⟩ := update_took h hp hin.tick
  obtain ⟨new, hadds, -⟩ := update_events h.filed h.services hin.tick
  have hcount := hspeaks.takeReads hserv hof.once hids t.now
  rw [← update_events_eq h.filed h.services hin.tick, hadds, changesOf_append] at hcount
  simp only [hbrings] at hcount
  refine ⟨q, new, hq, hadds, ?_⟩
  rcases hcount with ⟨v, hv, hnew, hall⟩ | ⟨hno, hall⟩
  · refine .inl ⟨v, ⟨t, hin.tick, hv, hnew⟩, ?_, hread v hv⟩
    have hone : changesOf key.id new ++ changesOf key.id n.events =
      [.valueChange key.id p.lastRead v] ++ changesOf key.id n.events := hall
    exact List.append_cancel_right hone
  · refine .inr ⟨?_, List.append_left_eq_self.mp hall, hkept hno⟩
    rintro v ⟨t', ht', hv, hnew⟩
    obtain rfl : t' = t := Option.some.inj (ht'.symm.trans hin.tick)
    exact hno v hv hnew

/-! ### Histories -/

/-- All along the history the port is registered, on, and no internal one. -/
def Followed (start : Node) (key : PortKey) (ops : List Operation) : Prop :=
  ∀ front, front <+: ops →
    ∃ p, (start.after front).Registered key p ∧ p.enabled = true ∧ p.internal = false

theorem Followed.front {more : List Operation} (h : Followed start key (ops ++ more)) :
    Followed start key ops := fun front hfront => h front (hfront.trans (List.prefix_append ..))

/-- Of a port with the value `old`, an operation announces what it takes over from it, if it is a
tick that does, and nothing else. -/
structure Announces (n : Node) (key : PortKey) (old : Option Value) (op : Operation)
    (new : List Event) : Prop where
  adds : AddsEvents n (n.perform op) new
  one : ∀ now v, op = .update now → n.Takes now key v →
    changesOf key.id new = [.valueChange key.id old v]
  none : (∀ now v, op = .update now → ¬n.Takes now key v) → changesOf key.id new = []

/-- The announcements so far, the last one first, lead from the value `first` to the value `last`:
each old value is the new one of the announcement before. -/
def Links (id : String) (first last : Option Value) (events : List Event) : Prop :=
  Json.ofOption Value.toJson last :: (changesOf id events).map (part · "old_value") =
    (changesOf id events).map (part · "value") ++ [Json.ofOption Value.toJson first]

theorem Takes.unique {w : Value} (h : Sound n) (hv : n.Takes now key v) (hw : n.Takes now key w) :
    v = w := by
  obtain ⟨t, hof, hin⟩ := readsIn_moved h.filed h.services now
  obtain ⟨t₁, ht₁, hread, -⟩ := hv
  obtain ⟨t₂, ht₂, hread', -⟩ := hw
  obtain rfl : t = t₁ := Option.some.inj (hin.tick.symm.trans ht₁)
  obtain rfl : t = t₂ := Option.some.inj (hin.tick.symm.trans ht₂)
  have heq := List.inj_on_of_nodup_map hof.once hread hread' rfl
  cases heq
  rfl

/-- One operation: what it announces of the port leads from the value that the port had to the one
that it has then. -/
theorem perform_announces (h : Sound n) (hn : n.Counted) (hp : n.Registered key p)
    (hon : p.enabled = true) (hext : p.internal = false)
    (hq : (n.perform op).Registered key q) (hqon : q.enabled = true) :
    ∃ new, n.Announces key p.lastRead op new ∧
      Links key.id p.lastRead q.lastRead new := by
  cases hop : op.isTick with
  | true =>
    cases op <;> cases hop
    rename_i now
    obtain ⟨q', new, hq', hadds, hcase⟩ := update_announces h hp hext now
    obtain rfl : q' = q := hq'.unique hq
    refine ⟨new, ?_⟩
    rcases hcase with ⟨v, htakes, hnew, hvalue⟩ | ⟨hno, hnew, hvalue⟩
    · refine ⟨⟨hadds, ?_, fun hno => absurd htakes (hno now v rfl)⟩, ?_⟩
      · intro now' w heq hw
        cases heq
        rw [hnew, htakes.unique h hw]
      · rw [Links, hnew, hvalue]
        rfl
    · refine ⟨⟨hadds, ?_, fun _ => hnew⟩, ?_⟩
      · intro now' w heq hw
        cases heq
        exact absurd hw (hno w)
      · rw [Links, hnew, ofOption_congr hvalue]
        rfl
  | false =>
    have hkept := perform_undergoes h hn hop
    obtain ⟨more, hadds, hmore⟩ := hkept.events
    obtain ⟨q', hq', hpq⟩ := hkept.ports key p hp.portOf?
    obtain rfl : q' = q := Option.some.inj (hq'.symm.trans hq.portOf?)
    have hnone : changesOf key.id more = [] := changesOf_eq_nil fun e he => .inl (hmore e he)
    refine ⟨more, ⟨hadds, fun now v heq => ?_, fun _ => hnone⟩, ?_⟩
    · rw [heq] at hop
      cases hop
    · rw [Links, hnone, hpq.value hon hqon]
      rfl

theorem Links.trans {id : String} {a b c : Option Value} {es es' : List Event}
    (h : Links id a b es) (h' : Links id b c es') : Links id a c (es' ++ es) := by
  unfold Links at h h' ⊢
  rw [changesOf_append, List.map_append, List.map_append, ← List.cons_append, h', List.append_assoc,
    List.singleton_append, h, List.append_assoc]

/-- The announcements of a port over a history mirror the values that it has. -/
structure Mirrors (n : Node) (key : PortKey) (first : Option Value) (ops : List Operation) :
    Prop where
  each : ∀ front op, front ++ [op] <+: ops → ∃ q new, (n.after front).Registered key q ∧
    (n.after front).Announces key q.lastRead op new
  all : ∀ front, front <+: ops → ∃ q es, (n.after front).Registered key q ∧
    AddsEvents n (n.after front) es ∧ Links key.id first q.lastRead es

theorem Followed.mirrors (h : Sound n) (hn : n.Counted) (hfollowed : Followed n key ops)
    (hp : n.Registered key p) : Mirrors n key p.lastRead ops := by
  induction ops using List.reverseRecOn with
  | nil =>
    refine ⟨fun front op hfront => ?_, fun front hfront => ?_⟩
    · simp at hfront
    · rw [List.prefix_nil.mp hfront]
      exact ⟨p, [], hp, rfl, rfl⟩
  | append_singleton ops op ih =>
    have hbefore := ih hfollowed.front
    obtain ⟨q, es, hq, hadds, hleads⟩ := hbefore.all ops (List.prefix_refl _)
    obtain ⟨q', hq', hon, hext⟩ := hfollowed ops (List.prefix_append ..)
    obtain rfl : q' = q := hq'.unique hq
    obtain ⟨r, hr, hron, -⟩ := hfollowed (ops ++ [op]) (List.prefix_refl _)
    have hstep : n.after (ops ++ [op]) = (n.after ops).perform op := after_append n ops [op]
    obtain ⟨new, hannounces, hnew⟩ := perform_announces (after_sound h ops)
      (after_counted h hn ops) hq hon hext (hstep ▸ hr) hron
    refine ⟨fun front o hfront => ?_, fun front hfront => ?_⟩
    · rcases List.prefix_concat_iff.mp hfront with heq | hfront
      · obtain ⟨rfl, hlast⟩ := List.append_inj' heq rfl
        cases hlast
        exact ⟨q', new, hq, hannounces⟩
      · exact hbefore.each front o hfront
    · rcases List.prefix_concat_iff.mp hfront with rfl | hfront
      · refine ⟨r, new ++ es, hr, ?_, hleads.trans hnew⟩
        have hall := hannounces.adds
        rw [AddsEvents] at hadds hall ⊢
        rw [hstep, hall, hadds, List.append_assoc]
      · exact hbefore.all front hfront

/-- The stream of changes of a port mirrors its value. Of a port that is added, and is on and no
internal one from then on, each tick announces the value that it takes over, with the value before
the tick, and nothing else is announced. At any time the latest announcement is of the value that
the port has, each old value is the new one of the announcement before, and the first old value is
the one that the port came with: none, or the one that was stored. -/
theorem valueChanges_mirror (config : NodeConfig) (backend : Backend) (wall : Int) (zone : Zone)
    {before more : List Operation} (hadd : op.isAddition = true)
    (hnew : ∀ p, ¬((create config backend wall zone).after before).Registered key p)
    (hfollowed : Followed ((create config backend wall zone).after (before ++ [op])) key more) :
    ∃ p, ((create config backend wall zone).after (before ++ [op])).Registered key p ∧
      p.StartsFrom (((create config backend wall zone).after before).recordOf? key.id) ∧
      Mirrors ((create config backend wall zone).after (before ++ [op])) key p.lastRead more := by
  have hs := sound_create config backend wall zone
  have hc := counted_create config backend wall zone
  generalize create config backend wall zone = start at hs hc hnew hfollowed ⊢
  obtain ⟨p, hp, -, -⟩ := hfollowed [] List.nil_prefix
  have hstep : start.after (before ++ [op]) = (start.after before).perform op :=
    after_append start before [op]
  have hp' := hp
  rw [hstep] at hp'
  refine ⟨p, hp, perform_newcomer (after_sound hs before).services (after_counted hs hc before) hadd
    hnew hp', ?_⟩
  exact hfollowed.mirrors (after_sound hs _) (after_counted hs hc _) hp

/-- A switch that is read, turned off, and then cannot be read any more. -/
def switching : List Operation := [
  .update 1000,
  .device ⟨"in", 0⟩ (some (.bool false)) false [],
  .update 2000,
  .device ⟨"in", 0⟩ none true [],
  .update 3000]

theorem valueChanges_mirror_switch :
    Operation.isAddition (.add "in" (.memory { type := .boolean, writable := true })) = true ∧
      (∀ p, ¬((create {} stocked 0).after []).Registered ⟨"in", 0⟩ p) ∧
      Followed ((create {} stocked 0).after
        ([] ++ [.add "in" (.memory { type := .boolean, writable := true })])) ⟨"in", 0⟩ switching ∧
      ∃ p, ((create {} stocked 0).after
          ([] ++ [.add "in" (.memory { type := .boolean, writable := true })])).Registered
            ⟨"in", 0⟩ p ∧
        p.StartsFrom (((create {} stocked 0).after []).recordOf? "in") ∧
        Mirrors ((create {} stocked 0).after
          ([] ++ [.add "in" (.memory { type := .boolean, writable := true })])) ⟨"in", 0⟩ p.lastRead
            switching := by
  have hports : ∀ front ∈ switching.inits, ((((create {} stocked 0).after
      ([] ++ [.add "in" (.memory { type := .boolean, writable := true })])).after front).port?
        "in").any (fun p => decide (p.key = ⟨"in", 0⟩ ∧ p.enabled = true ∧ p.internal = false)) =
      true := by decide +kernel
  have hnew : ∀ p, ¬((create {} stocked 0).after []).Registered ⟨"in", 0⟩ p := by
    intro p hp
    cases hp.1
  have hfollowed : Followed ((create {} stocked 0).after
      ([] ++ [.add "in" (.memory { type := .boolean, writable := true })])) ⟨"in", 0⟩
      switching := by
    intro front hfront
    obtain ⟨p, hp, hfields⟩ := (Option.any_eq_true ..).mp
      (hports front ((List.mem_inits ..).mpr hfront))
    obtain ⟨hkey, hon, hext⟩ := of_decide_eq_true hfields
    exact ⟨p, ⟨hp, hkey⟩, hon, hext⟩
  exact ⟨rfl, hnew, hfollowed, valueChanges_mirror {} stocked 0 .utc rfl hnew hfollowed⟩

end Node

end ControlNode
