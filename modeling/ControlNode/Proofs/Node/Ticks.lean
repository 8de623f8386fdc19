import ControlNode.Proofs.Node.Reads

/-!
# What a tick takes over and sends out

The values that have been read are taken over port by port (`takeReads_tookOver`,
`mem_takeReads`). Then each enabled port is sent the snapshot where its expression is due or
forced (`dispatch_called`).
-/

namespace ControlNode.Node

open Relation Port

variable {n m k : Node}

/-! ### Taking over values -/

/-- A port after the outcomes of reads have been taken over. -/
structure Taken (reads : Reads) (p q : Port) : Prop where
  read : ∀ v, (p.key, some (.ok v)) ∈ reads → Upkeep { p with lastRead := some v } q
  unread : (∀ v, (p.key, some (.ok v)) ∉ reads) → Upkeep p q

theorem Taken.key {reads : Reads} {p q : Port} (h : Taken reads p q) : q.key = p.key := by
  by_cases hread : ∃ v, (p.key, some (.ok v)) ∈ reads
  · obtain ⟨v, hv⟩ := hread
    exact (h.read v hv).setup.key
  · exact (h.unread fun v hv => hread ⟨v, hv⟩).setup.key

/-- All reads either had a value or had to be left out. -/
def NoneFailed (reads : Reads) : Prop := ∀ key e, (key, some (.error e)) ∈ reads → e = .skipRead

structure TookOver (reads : Reads) (n m : Node) : Prop where
  ports : PortsRel (Taken reads) n m
  /-- Where no read has failed, no port is left alone for a while. -/
  backoff : NoneFailed reads → m.backoff = n.backoff
  rest : m = { n with
    ports := m.ports
    gone := m.gone
    backend := m.backend
    storageBusy := m.storageBusy
    results := m.results
    nextTicket := m.nextTicket
    backoff := m.backoff
    events := m.events }

theorem TookOver.services {reads : Reads} (h : TookOver reads n m) : m.services = n.services := by
  rw [h.rest]

/-- What is looked after later makes no difference. -/
theorem TookOver.tended {reads : Reads} (h : TookOver reads n m) (h' : Tended m k) :
    TookOver reads n k := by
  refine ⟨h.ports.trans ?_ h'.evolves.ports, ?_, ?_⟩
  · intro p q r hpq hqr
    exact ⟨fun v hv => (hpq.read v hv).trans hqr, fun hno => (hpq.unread hno).trans hqr⟩
  · intro hok
    rw [h'.evolves.rest]
    exact h.backoff hok
  · have hm := h.rest
    have hk := h'.evolves.rest
    have hbackoff : k.backoff = m.backoff := by rw [hk]
    have hevents : k.events = m.events := by rw [hk]
    rw [h'.agenda, hm] at hk
    rw [hbackoff, hevents]
    exact hk

/-- Events and backing off have nothing to do with ports. -/
theorem TookOver.beside {reads : Reads} {m' : Node} (h : TookOver reads n m)
    (hrest : m' = { m with backoff := m'.backoff, events := m'.events })
    (hbackoff : NoneFailed reads → m'.backoff = m.backoff) : TookOver reads n m' := by
  have hm := h.rest
  refine ⟨h.ports.congr (by rw [hrest]) (by rw [hrest]),
    fun hok => (hbackoff hok).trans (h.backoff hok), ?_⟩
  rw [hm] at hrest
  rw [hrest]

theorem taken_of_no_value {key : PortKey} {r : Option (Except PortError Value)}
    (h : ∀ v, r ≠ some (.ok v)) (p : Port) : Taken [(key, r)] p p := by
  refine ⟨?_, fun _ => .refl p⟩
  intro v hv
  have heq := (Prod.mk.inj (List.mem_singleton.mp hv)).2
  exact absurd heq.symm (h v)

theorem publish_eq (hs : n.services = []) (e : Event) :
    n.publish e = { n with events := e :: n.events } := by
  simp only [publish, hs, List.length_nil, List.range_zero, List.foldl_nil]

theorem TookOver.of_putPort {key : PortKey} {v : Value} {p q : Port}
    (hp : n.portOf? key = some p) (hq : Upkeep { p with lastRead := some v } q) :
    TookOver [(key, some (.ok v))] n (n.putPort q) := by
  have hkey := key_of_portOf? hp
  have hqkey : q.key = key := hq.setup.key.trans hkey
  refine ⟨.putPort ?_ ?_, fun _ => by rw [putPort_frame], by rw [putPort_frame]⟩
  · intro r hr
    rw [hqkey] at hr
    refine ⟨?_, fun _ => .refl r⟩
    intro w hw
    exact absurd (Prod.mk.inj (List.mem_singleton.mp hw)).1 hr
  · intro r hr
    rw [hqkey, hp] at hr
    cases hr
    refine ⟨?_, ?_⟩
    · intro w hw
      have heq := (Prod.mk.inj (List.mem_singleton.mp hw)).2
      cases heq
      exact hq
    · intro hno
      exact absurd (List.mem_singleton.mpr (by rw [hkey])) (hno v)

/-- A port that has taken a new value over. -/
def renewed (p : Port) (v : Value) : Port :=
  { p with lastRead := some v, dirty := p.persisted || p.dirty }

/-- A new value of a port is put into its place and announced. -/
def announcing (n : Node) (p : Port) (v : Value) : Node :=
  if p.internal then n.putPort (renewed p v)
  else (n.putPort (renewed p v)).publish (.valueChange p.id p.lastRead v)

theorem announcing_eq (hs : n.services = []) (p : Port) (v : Value) :
    n.announcing p v = { n.putPort (renewed p v) with
      events := if p.internal then n.events else .valueChange p.id p.lastRead v :: n.events } := by
  have hevents : (n.putPort (renewed p v)).events = n.events := by rw [putPort_frame]
  unfold announcing
  split
  · rw [← hevents]
  · rw [publish_eq (by rw [putPort_frame]; exact hs), hevents]

section TakeValue

variable {key : PortKey} {p : Port} {v : Value}

theorem takeValue_of_none (hnone : n.portOf? key = none) (v : Value) (now : Int) :
    n.takeValue key v now = (false, n) := by
  simp only [takeValue, hnone]

theorem takeValue_of_same (hp : n.portOf? key = some p)
    (hsame : Value.sameOption p.lastRead (some v) = true) (now : Int) :
    n.takeValue key v now = (false, n.putPort { p with lastRead := some v }) := by
  simp only [takeValue, hp, hsame, if_true]

/-- A new value is put into its place and announced; where that is asked for a sample of it is
stored. -/
theorem takeValue_of_new (hp : n.portOf? key = some p)
    (hnew : Value.sameOption p.lastRead (some v) = false) (now : Int) :
    n.takeValue key v now = (true, if p.historyInterval = -1
      then (n.announcing p v).saveHistory key v now else n.announcing p v) := by
  obtain ⟨q, hq⟩ : ∃ q, q = if p.persisted then { p with lastRead := some v, dirty := true }
      else { p with lastRead := some v } := ⟨_, rfl⟩
  have hrenewed : q = renewed p v := by
    rw [hq, renewed]
    cases p.persisted <;> rfl
  unfold takeValue
  simp only [hp, hnew, Bool.false_eq_true, if_false, ← hq]
  rw [hrenewed]
  rfl

end TakeValue

theorem takeValue_tookOver (hs : n.services = []) (key : PortKey) (v : Value) (now : Int) :
    TookOver [(key, some (.ok v))] n (n.takeValue key v now).2 := by
  cases hp : n.portOf? key with
  | none =>
    rw [takeValue_of_none hp]
    refine ⟨⟨fun _ => rfl, ?_, id⟩, fun _ => rfl, rfl⟩
    intro other
    cases hp' : n.portOf? other with
    | none => exact .none
    | some p =>
      refine .some ⟨?_, fun _ => .refl p⟩
      intro w hw
      have hkey : p.key = key := (Prod.mk.inj (List.mem_singleton.mp hw)).1
      rw [key_of_portOf? hp'] at hkey
      rw [hkey, hp] at hp'
      cases hp'
  | some p =>
    cases hsame : Value.sameOption p.lastRead (some v) with
    | true =>
      rw [takeValue_of_same hp hsame]
      exact .of_putPort hp (.refl _)
    | false =>
      have hput : TookOver [(key, some (.ok v))] n (n.putPort (renewed p v)) :=
        .of_putPort hp ⟨rfl, .same _, rfl⟩
      have hsent : TookOver [(key, some (.ok v))] n (n.announcing p v) := by
        rw [announcing_eq hs]
        exact hput.beside rfl fun _ => rfl
      rw [takeValue_of_new hp hsame]
      dsimp only
      split
      · exact hsent.tended (saveHistory_tended ..)
      · exact hsent

theorem takeRead_tookOver (hs : n.services = []) (key : PortKey) (r : Except PortError Value)
    (now : Int) : TookOver [(key, some r)] n (takeRead now n key r).2 := by
  have hnone (e : PortError) : TookOver [(key, some (.error e))] n n := by
    refine ⟨.refl (taken_of_no_value ?_) n, fun _ => rfl, rfl⟩
    intro v hv
    cases hv
  unfold takeRead
  split
  · exact takeValue_tookOver hs key _ now
  · exact hnone _
  · rename_i e hfail
    exact (hnone e).beside rfl fun hok => absurd (hok key e (List.mem_singleton_self _)) hfail

theorem Taken.cons {e : PortKey × Option (Except PortError Value)} {reads : Reads} {p q r : Port}
    (hnew : e.1 ∉ reads.map Prod.fst) (h : Taken [e] p q) (h' : Taken reads q r) :
    Taken (e :: reads) p r := by
  have hkey := h.key
  constructor
  · intro v hv
    rcases List.mem_cons.mp hv with hv | hv
    · have hq := h.read v (List.mem_singleton.mpr hv)
      have hr : Upkeep q r := by
        apply h'.unread
        intro w hw
        exact hnew (List.mem_map.mpr ⟨_, hw, by rw [← hv, hkey]⟩)
      exact hq.trans hr
    · have hq : Upkeep p q := by
        apply h.unread
        intro w hw
        exact hnew (List.mem_map.mpr ⟨_, hv, by rw [← List.mem_singleton.mp hw]⟩)
      have hr := h'.read v (by rw [hkey]; exact hv)
      exact (hq.withLastRead _).trans hr
  · intro hno
    have hq : Upkeep p q := h.unread fun v hv =>
      hno v (List.mem_singleton.mp hv ▸ List.mem_cons_self ..)
    have hr : Upkeep q r := h'.unread fun v hv =>
      hno v (List.mem_cons_of_mem _ (by rw [← hkey]; exact hv))
    exact hq.trans hr

theorem TookOver.cons {e : PortKey × Option (Except PortError Value)} {reads : Reads}
    (hnew : e.1 ∉ reads.map Prod.fst) (h : TookOver [e] n m) (h' : TookOver reads m k) :
    TookOver (e :: reads) n k := by
  refine ⟨h.ports.trans (fun _ _ _ hpq hqr => hpq.cons hnew hqr) h'.ports, ?_, ?_⟩
  · intro hok
    have hfirst := h.backoff fun key err he =>
      hok key err (List.mem_singleton.mp he ▸ List.mem_cons_self ..)
    have hrest := h'.backoff fun key err he => hok key err (List.mem_cons_of_mem _ he)
    exact hrest.trans hfirst
  · have hm := h.rest
    have hk := h'.rest
    rw [hm] at hk
    exact hk

theorem takeReads_tookOver (hs : n.services = []) (now : Int) {reads : Reads}
    (honce : (reads.map Prod.fst).Nodup) : TookOver reads n (takeReads now n reads).2 := by
  induction reads generalizing n with
  | nil =>
    refine ⟨.refl ?_ n, fun _ => rfl, rfl⟩
    intro p
    exact ⟨fun v hv => absurd hv (List.not_mem_nil), fun _ => .refl p⟩
  | cons e rest ih =>
    obtain ⟨key, r⟩ := e
    obtain ⟨hnew, hrest⟩ := List.nodup_cons.mp honce
    cases r with
    | none =>
      have hfirst : TookOver [(key, none)] n n := by
        refine ⟨.refl (taken_of_no_value ?_) n, fun _ => rfl, rfl⟩
        intro v hv
        cases hv
      exact hfirst.cons hnew (ih hs hrest)
    | some r =>
      have hfirst := takeRead_tookOver hs key r now
      exact hfirst.cons hnew (ih (hfirst.services.trans hs) hrest)

/-- A read that brings a value other than the last one. -/
def Brings (n : Node) (key : PortKey) (r : Except PortError Value) : Prop :=
  ∃ v p, r = .ok v ∧ n.portOf? key = some p ∧ Value.sameOption p.lastRead (some v) = false

theorem brings_ok_iff {key : PortKey} {p : Port} (hp : n.portOf? key = some p) (v : Value) :
    n.Brings key (.ok v) ↔ Value.sameOption p.lastRead (some v) = false := by
  constructor
  · rintro ⟨w, q, hw, hq, hnew⟩
    cases hw
    rw [hp] at hq
    cases hq
    exact hnew
  · exact fun hnew => ⟨v, p, rfl, hp, hnew⟩

theorem takeRead_changed (key : PortKey) (r : Except PortError Value) (now : Int) :
    (takeRead now n key r).1 = true ↔ n.Brings key r := by
  cases r with
  | error e => cases e <;> simp [takeRead, Brings]
  | ok v =>
    simp only [takeRead, takeValue]
    cases hp : n.portOf? key with
    | none => simp [Brings, hp]
    | some p =>
      cases hsame : Value.sameOption p.lastRead (some v) with
      | true => simp [Brings, hp, hsame]
      | false => simp [Brings, hp, hsame]

theorem PortsRel.brings_iff {R : Port → Port → Prop} (h : PortsRel R n m) {key : PortKey}
    (hkept : ∀ p q, n.portOf? key = some p → R p q → q.lastRead = p.lastRead)
    (r : Except PortError Value) : m.Brings key r ↔ n.Brings key r := by
  have hports := h.ports key
  constructor
  · rintro ⟨v, q, rfl, hq, hdiff⟩
    rw [hq] at hports
    cases hp : n.portOf? key with
    | none =>
      rw [hp] at hports
      cases hports
    | some p =>
      rw [hp] at hports
      cases hports with
      | some hpq => exact ⟨v, p, rfl, hp, by rw [← hkept p q hp hpq]; exact hdiff⟩
  · rintro ⟨v, p, rfl, hp, hdiff⟩
    obtain ⟨q, hq, hpq⟩ := h.exists_of_portOf? hp
    exact ⟨v, q, rfl, hq, by rw [hkept p q hp hpq]; exact hdiff⟩

theorem TookOver.brings_iff {reads : Reads} (h : TookOver reads n m) {key : PortKey}
    (hnew : key ∉ reads.map Prod.fst) (r : Except PortError Value) :
    m.Brings key r ↔ n.Brings key r := by
  apply h.ports.brings_iff
  intro p q hp hpq
  apply Upkeep.lastRead
  apply hpq.unread
  intro v hv
  exact hnew (List.mem_map.mpr ⟨_, hv, key_of_portOf? hp⟩)

theorem mem_takeReads_cons (now : Int) (key : PortKey) (r : Except PortError Value)
    (rest : Reads) (id : String) :
    id ∈ (takeReads now n ((key, some r) :: rest)).1 ↔
      (n.Brings key r ∧ key.id = id) ∨ id ∈ (takeReads now (takeRead now n key r).2 rest).1 := by
  simp only [takeReads]
  split
  · rename_i hc
    rw [List.mem_cons]
    simp only [(takeRead_changed key r now).mp hc, true_and, eq_comm]
  · rename_i hc
    have hno := mt (takeRead_changed key r now).mpr hc
    simp only [hno, false_and, false_or]

/-- The ports that a tick finds changed are those whose reads bring something new. -/
theorem mem_takeReads (hs : n.services = []) (now : Int) {reads : Reads}
    (honce : (reads.map Prod.fst).Nodup) (id : String) :
    id ∈ (takeReads now n reads).1 ↔
      ∃ key r, (key, some r) ∈ reads ∧ key.id = id ∧ n.Brings key r := by
  induction reads generalizing n with
  | nil => simp [takeReads]
  | cons e rest ih =>
    obtain ⟨key, r⟩ := e
    obtain ⟨hnew, hrest⟩ := List.nodup_cons.mp honce
    cases r with
    | none => simp [takeReads, ih hs hrest]
    | some r =>
      have hfirst := takeRead_tookOver hs key r now
      have hkept (key' : PortKey) (r' : Except PortError Value) (hr : (key', some r') ∈ rest) :
          (takeRead now n key r).2.Brings key' r' ↔ n.Brings key' r' := by
        apply hfirst.brings_iff
        intro hmem
        rw [List.mem_singleton.mp hmem] at hr
        exact hnew (List.mem_map.mpr ⟨_, hr, rfl⟩)
      have hrest : id ∈ (takeReads now (takeRead now n key r).2 rest).1 ↔
          ∃ key' r', (key', some r') ∈ rest ∧ key'.id = id ∧ n.Brings key' r' := by
        rw [ih (hfirst.services.trans hs) hrest]
        constructor
        · rintro ⟨key', r', hr, hid, hbrings⟩
          exact ⟨key', r', hr, hid, (hkept key' r' hr).mp hbrings⟩
        · rintro ⟨key', r', hr, hid, hbrings⟩
          exact ⟨key', r', hr, hid, (hkept key' r' hr).mpr hbrings⟩
      rw [mem_takeReads_cons, hrest]
      constructor
      · rintro (⟨hbrings, hid⟩ | ⟨key', r', hr, hid, hbrings⟩)
        · exact ⟨key, r, List.mem_cons_self .., hid, hbrings⟩
        · exact ⟨key', r', List.mem_cons_of_mem _ hr, hid, hbrings⟩
      · rintro ⟨key', r', hr, hid, hbrings⟩
        rcases List.mem_cons.mp hr with hr | hr
        · cases hr
          exact Or.inl ⟨hbrings, hid⟩
        · exact Or.inr ⟨key', r', hr, hid, hbrings⟩

/-! ### Queueing evaluations -/

structure Call where
  changed : List Dep
  isForced : String → Bool
  asapPaused : Bool
  snapshot : EvalContext

namespace Call

/-- Whether a port is called on to evaluate its expression. -/
def reaches (c : Call) (p : Port) : Bool :=
  p.deps?.any fun deps => c.isForced p.id || isDue c.changed c.asapPaused deps

/-- A port after the call. -/
def answer (c : Call) (p : Port) : Port :=
  if c.reaches p then (p.enqueueEval c.snapshot).2 else p

end Call

theorem enqueueEval_setup (p : Port) (c : EvalContext) : SameSetup p (p.enqueueEval c).2 := by
  unfold enqueueEval
  split
  · exact .refl p
  · split <;> exact ⟨rfl, rfl, rfl, rfl, rfl, rfl, rfl, rfl, rfl⟩

theorem Call.answer_setup (c : Call) (p : Port) : SameSetup p (c.answer p) := by
  unfold Call.answer
  split
  · exact enqueueEval_setup p c.snapshot
  · exact .refl p

def callPort (c : Call) (n : Node) (key : PortKey) : Node :=
  dispatchTo c.changed c.isForced c.asapPaused c.snapshot n key

theorem callPort_eq (c : Call) (key : PortKey) : n.callPort c key = match n.portOf? key with
    | none => n
    | some p =>
      if c.reaches p then
        match p.enqueueEval c.snapshot with
        | (true, p) => (n.putPort p).emitAll key [.evalQueued]
        | (false, p) => if c.isForced key.id then (n.putPort p).forceEval key.id else n.putPort p
      else n := by
  unfold callPort dispatchTo
  cases hp : n.portOf? key with
  | none => rfl
  | some p =>
    have hkey := key_of_portOf? hp
    cases hdeps : p.deps? with
    | none => simp [Call.reaches, hdeps]
    | some deps =>
      have hreaches : (c.isForced key.id || isDue c.changed c.asapPaused deps) =
          c.reaches p := by
        simp only [Call.reaches, hdeps, Option.any_some, Port.id, hkey]
      simp only [hdeps]
      exact if_congr (Bool.eq_iff_iff.mp hreaches) rfl rfl

/-- A port that is forced but still has an evaluation to take up. -/
def PutOff (n : Node) (c : Call) (key : PortKey) : Prop :=
  ∃ p, n.portOf? key = some p ∧ c.reaches p = true ∧ c.isForced p.id = true ∧
    (p.enqueueEval c.snapshot).1 = false

structure Called (c : Call) (n m : Node) (keys : List PortKey) : Prop where
  ports : PortsRel (fun p q => q = if p.key ∈ keys then c.answer p else p) n m
  forced : ∀ id, id ∈ m.forced ↔ id ∈ n.forced ∨ ∃ key ∈ keys, key.id = id ∧ n.PutOff c key
  rest : m = { n with
    ports := m.ports
    gone := m.gone
    agenda := m.agenda
    forced := m.forced }

theorem mem_forceEval (n : Node) (id other : String) :
    other ∈ (n.forceEval id).forced ↔ other ∈ n.forced ∨ id = other := by
  unfold forceEval
  split
  · rename_i h
    constructor
    · exact Or.inl
    · rintro (hmem | rfl)
      · exact hmem
      · exact h
  · simp [eq_comm]

theorem forceEval_frame (n : Node) (id : String) :
    n.forceEval id = { n with forced := (n.forceEval id).forced } := by
  unfold forceEval
  split <;> rfl

theorem Called.of_unreached {c : Call} {key : PortKey}
    (h : ∀ p, n.portOf? key = some p → c.reaches p = false) : Called c n n [key] := by
  refine ⟨⟨fun _ => rfl, ?_, fun hs => hs⟩, ?_, rfl⟩
  · intro other
    cases hp : n.portOf? other with
    | none => exact .none
    | some p =>
      refine .some ?_
      split
      · rename_i hk
        have hkey : other = key := by
          rw [← key_of_portOf? hp]
          exact List.mem_singleton.mp hk
        rw [hkey] at hp
        rw [Call.answer, h p hp]
        rfl
      · rfl
  · intro id
    constructor
    · exact Or.inl
    · rintro (hmem | ⟨key', hk, _, p, hp, hreaches, _⟩)
      · exact hmem
      · rw [List.mem_singleton.mp hk] at hp
        rw [h p hp] at hreaches
        cases hreaches

section Reached

variable {c : Call} {key : PortKey} {p : Port}

theorem putPort_answered (hp : n.portOf? key = some p) (hreaches : c.reaches p = true) :
    PortsRel (fun p q => q = if p.key ∈ [key] then c.answer p else p) n
      (n.putPort (p.enqueueEval c.snapshot).2) := by
  have hkey := key_of_portOf? hp
  have hqkey : (p.enqueueEval c.snapshot).2.key = key :=
    (enqueueEval_setup p c.snapshot).key.trans hkey
  refine .putPort ?_ ?_
  · intro q hq
    rw [hqkey] at hq
    rw [if_neg (by simpa using hq)]
  · intro q hq
    rw [hqkey, hp] at hq
    cases hq
    rw [if_pos (by simp [hkey]), Call.answer, hreaches, if_pos rfl]

theorem putOff_iff (hp : n.portOf? key = some p) (hreaches : c.reaches p = true) :
    n.PutOff c key ↔ c.isForced key.id = true ∧ (p.enqueueEval c.snapshot).1 = false := by
  have hid : p.id = key.id := by rw [Port.id, key_of_portOf? hp]
  constructor
  · rintro ⟨q, hq, _, hforced, hdeclined⟩
    rw [hp] at hq
    cases hq
    exact ⟨hid ▸ hforced, hdeclined⟩
  · rintro ⟨hforced, hdeclined⟩
    exact ⟨p, hp, hreaches, hid ▸ hforced, hdeclined⟩

end Reached

theorem callPort_called (c : Call) (key : PortKey) : Called c n (n.callPort c key) [key] := by
  rw [callPort_eq]
  split
  · rename_i hnone
    apply Called.of_unreached
    intro p hp
    rw [hnone] at hp
    cases hp
  · rename_i p hp
    split
    · rename_i hreaches
      have hports := putPort_answered hp hreaches
      have hputOff := putOff_iff hp hreaches
      split
      · rename_i q hq
        rw [hq] at hports hputOff
        have hnot : ¬n.PutOff c key := fun h => by simpa using (hputOff.mp h).2
        refine ⟨hports.congr rfl rfl, ?_, ?_⟩
        · intro id
          have hsame : ((n.putPort q).emitAll key [.evalQueued]).forced = n.forced := by
            rw [putPort_frame]
            rfl
          simp [hsame, hnot]
        · simp only [emitAll, emit, List.foldl_cons, List.foldl_nil]
          rw [putPort_frame]
      · rename_i q hq
        rw [hq] at hports hputOff
        have hsame : (n.putPort q).forced = n.forced := by rw [putPort_frame]
        split
        · rename_i hforced
          have hyes : n.PutOff c key := hputOff.mpr ⟨hforced, rfl⟩
          refine ⟨?_, ?_, ?_⟩
          · rw [forceEval_frame]
            exact hports.congr rfl rfl
          · intro id
            rw [mem_forceEval, hsame]
            simp [hyes]
          · rw [forceEval_frame, putPort_frame]
        · rename_i hforced
          have hnot : ¬n.PutOff c key := fun h => hforced (hputOff.mp h).1
          refine ⟨hports, ?_, by rw [putPort_frame]⟩
          intro id
          simp [hsame, hnot]
    · rename_i hreaches
      apply Called.of_unreached
      intro q hq
      rw [hp] at hq
      cases hq
      simpa using hreaches

theorem Called.portOf?_of_not_mem {c : Call} {keys : List PortKey} (h : Called c n m keys)
    {key : PortKey} (hkey : key ∉ keys) : m.portOf? key = n.portOf? key := by
  have hports := h.ports.ports key
  cases hp : n.portOf? key with
  | none =>
    rw [hp] at hports
    cases hq : m.portOf? key with
    | none => rfl
    | some q =>
      rw [hq] at hports
      cases hports
  | some p =>
    obtain ⟨q, hq, rfl⟩ := h.ports.exists_of_portOf? hp
    rw [hq, key_of_portOf? hp, if_neg hkey]

theorem Called.cons {c : Call} {key : PortKey} {keys : List PortKey} (hnew : key ∉ keys)
    (h : Called c n m [key]) (h' : Called c m k keys) : Called c n k (key :: keys) := by
  refine ⟨h.ports.trans ?_ h'.ports, ?_, ?_⟩
  · intro p q r hpq hqr
    have hkey : q.key = p.key := by
      rw [hpq]
      split
      · exact (c.answer_setup p).key
      · rfl
    rw [hqr, hkey, hpq]
    by_cases hk : p.key = key
    · simp [hk, hnew]
    · simp [hk]
  · intro id
    -- the first call leaves the ports of the others as they are
    have hsame (key' : PortKey) (hk : key' ∈ keys) : m.PutOff c key' ↔ n.PutOff c key' := by
      have hne : key' ∉ [key] := fun hmem => hnew (List.mem_singleton.mp hmem ▸ hk)
      simp only [PutOff, h.portOf?_of_not_mem hne]
    rw [h'.forced, h.forced]
    constructor
    · rintro ((hold | ⟨key', hk, hid, hoff⟩) | ⟨key', hk, hid, hoff⟩)
      · exact Or.inl hold
      · rw [List.mem_singleton.mp hk] at hid hoff
        exact Or.inr ⟨key, List.mem_cons_self .., hid, hoff⟩
      · exact Or.inr ⟨key', List.mem_cons_of_mem _ hk, hid, (hsame key' hk).mp hoff⟩
    · rintro (hold | ⟨key', hk, hid, hoff⟩)
      · exact Or.inl (Or.inl hold)
      · rcases List.mem_cons.mp hk with rfl | hk
        · exact Or.inl (Or.inr ⟨key', List.mem_singleton_self _, hid, hoff⟩)
        · exact Or.inr ⟨key', hk, hid, (hsame key' hk).mpr hoff⟩
  · have hm := h.rest
    have hk := h'.rest
    rw [hm] at hk
    exact hk

theorem foldl_callPort (c : Call) {keys : List PortKey} (hnodup : keys.Nodup) :
    Called c n (keys.foldl (callPort c) n) keys := by
  induction keys generalizing n with
  | nil =>
    refine ⟨.refl (fun p => ?_) n, fun id => by simp, rfl⟩
    simp
  | cons key keys ih =>
    obtain ⟨hnew, hrest⟩ := List.nodup_cons.mp hnodup
    exact (callPort_called c key).cons hnew (ih hrest)

/-- The call of a tick after the values of the ports `ids` have changed. -/
def callOf (n : Node) (t : Tick) (ids : List String) : Call :=
  { changed := changedDeps t ids
    isForced := fun id => n.forceAll || n.forced.contains id
    asapPaused := t.now < n.asapPausedUntil
    snapshot := .ofValues (n.snapshot t.enabled) t.now }

theorem dispatch_called {t : Tick} (hnodup : t.enabled.Nodup) (ids : List String) :
    Called (n.callOf t ids) { n with forceAll := false, forced := [] } (n.dispatch t ids)
      t.enabled :=
  foldl_callPort _ hnodup

/-! ### Snapshots -/

theorem snapshot_get? {keys : List PortKey} (hf : Filed n)
    (hkeys : ∀ key ∈ keys, ∃ p, n.Registered key p) (id : String) (v : Value) :
    (n.snapshot keys).get? id = some v ↔
      ∃ p, n.port? id = some p ∧ p.key ∈ keys ∧ p.lastRead = some v := by
  have hmem (id : String) (v : Value) :
      (id, v) ∈ (keys.filterMap fun k => (n.portOf? k).bind fun p =>
        p.lastRead.map fun v => (k.id, v)) ↔
      ∃ p, n.port? id = some p ∧ p.key ∈ keys ∧ p.lastRead = some v := by
    rw [List.mem_filterMap]
    constructor
    · rintro ⟨key, hkey, heq⟩
      obtain ⟨p, hp, hv⟩ := Option.bind_eq_some_iff.mp heq
      obtain ⟨w, hw, hpair⟩ := Option.map_eq_some_iff.mp hv
      cases hpair
      obtain ⟨q, hq⟩ := hkeys key hkey
      have hof := hq.portOf?
      rw [hp] at hof
      cases hof
      exact ⟨p, hq.1, hq.2 ▸ hkey, hw⟩
    · rintro ⟨p, hp, hkey, hv⟩
      have hid := hf.ids id p hp
      exact ⟨p.key, hkey, by rw [portOf?_of_port? hp hid, ← hid]; simp [hv, Port.id]⟩
  unfold snapshot
  rw [Dict.get?_ofList, hmem]
  rintro ⟨a, x⟩ ha ⟨b, y⟩ hb hab
  change a = b at hab
  subst hab
  obtain ⟨p, hp, _, hx⟩ := (hmem a x).mp ha
  obtain ⟨q, hq, _, hy⟩ := (hmem a y).mp hb
  rw [hp] at hq
  cases hq
  rw [hx] at hy
  cases hy
  rfl

/-! ### Whole ticks -/

/-- A port between the beginning of a tick and its call. -/
structure Arrived (reads : Reads) (p q : Port) : Prop where
  continues : Continues p q
  read : ∀ v, (p.key, some (.ok v)) ∈ reads → q.lastRead = some v
  unread : (∀ v, (p.key, some (.ok v)) ∉ reads) → q.lastRead = p.lastRead
  evals : q.evals.items <:+ p.evals.items
  /-- Workers have nothing to do at an idle port. -/
  idle : p.Idle → Upkeep { p with lastRead := q.lastRead } q

theorem Taken.arrived {reads : Reads} {p q : Port} (h : Taken reads p q) :
    Arrived reads p q := by
  have hread (v : Value) (hv : (p.key, some (.ok v)) ∈ reads) : q.lastRead = some v :=
    (h.read v hv).lastRead
  have hunread (hno : ∀ v, (p.key, some (.ok v)) ∉ reads) : q.lastRead = p.lastRead :=
    (h.unread hno).lastRead
  have hkept : Upkeep { p with lastRead := q.lastRead } q := by
    by_cases hsome : ∃ v, (p.key, some (.ok v)) ∈ reads
    · obtain ⟨v, hv⟩ := hsome
      rw [hread v hv]
      exact h.read v hv
    · have hno : ∀ v, (p.key, some (.ok v)) ∉ reads := fun v hv => hsome ⟨v, hv⟩
      rw [hunread hno]
      exact h.unread hno
  obtain ⟨hk, he, hx, hd, hr, hw, hl, ht, hwr⟩ := hkept.setup
  refine ⟨⟨⟨hk, he, hx, hd, hr, hw, hl, ht, hwr⟩, ?_⟩, hread, hunread, ?_, fun _ => hkept⟩
  · intro hp
    exact hkept.running (hp.of_evals rfl rfl rfl)
  · have hevals : q.evals = p.evals := by rw [hkept.frame]
    exact ⟨[], congrArg BoundedQueue.items hevals⟩

theorem Arrived.of_moves {reads : Reads} {p q r s : Port} (hpq : Moves p q)
    (hqr : Arrived reads q r) (hrs : Moves r s) : Arrived reads p s := by
  have hkey := hpq.continues.setup.key
  refine ⟨(hpq.continues.trans hqr.continues).trans hrs.continues, ?_, ?_,
    (hrs.evals.trans hqr.evals).trans hpq.evals, ?_⟩
  · intro v hv
    rw [hrs.lastRead]
    exact hqr.read v (by rw [hkey]; exact hv)
  · intro hno
    rw [hrs.lastRead, hqr.unread (by rw [hkey]; exact hno), hpq.lastRead]
  · intro hidle
    have hq := hpq.upkeep hidle
    have hr := hqr.idle (hq.idle hidle)
    have hridle : r.Idle := hr.idle ⟨(hq.idle hidle).evals, (hq.idle hidle).writes,
      (hq.idle hidle).sequence⟩
    rw [hrs.lastRead]
    exact ((hq.withLastRead r.lastRead).trans hr).trans (hrs.upkeep hridle)

/-- The node `m` is `n` in a tick that has taken over its readings and is about to call the
ports. -/
structure Calling (n : Node) (now : Int) (t : Tick) (ids : List String) (m : Node) : Prop where
  of : TickOf n now t
  tick : (n.readsIn now).tick = some t
  ports : PortsRel (Arrived t.reads) n m
  changed : ∀ id, id ∈ ids ↔ ∃ key r, (key, some r) ∈ t.reads ∧ key.id = id ∧ n.Brings key r
  rest : m = { n.noting t with
    ports := m.ports
    gone := m.gone
    backend := m.backend
    storageBusy := m.storageBusy
    results := m.results
    nextTicket := m.nextTicket
    agenda := m.agenda
    backoff := m.backoff
    events := m.events }
  backoff : NoneFailed t.reads → m.backoff = n.backoff
  outcome : n.update now =
    { m.dispatch t ids with tick := none, agenda := (m.dispatch t ids).agenda.release .tick }

theorem TookOver.rest_between {R S : Port → Port → Prop} {reads : Reads} {l : Node}
    (h : TookOver reads m k) (hbefore : Evolves R n m) (hafter : Evolves S k l) :
    l = { n with
      ports := l.ports
      gone := l.gone
      backend := l.backend
      storageBusy := l.storageBusy
      results := l.results
      nextTicket := l.nextTicket
      agenda := l.agenda
      backoff := l.backoff
      events := l.events } := by
  have hm := hbefore.rest
  have hk := h.rest
  have hl := hafter.rest
  have hbackoff : l.backoff = k.backoff := by rw [hl]
  have hevents : l.events = k.events := by rw [hl]
  rw [hm] at hk
  rw [hk] at hl
  rw [hbackoff, hevents]
  exact hl

theorem exists_calling (hf : Filed n) (hs : n.services = []) (now : Int) :
    ∃ t ids m, Calling n now t ids m := by
  obtain ⟨t, ht, hin⟩ := readsIn_moved hf hs now
  have hserv : (n.readsIn now).services = [] := hin.services.trans hs
  have htook := takeReads_tookOver hserv t.now ht.once
  have hwait := awaitStorage_worked (htook.services.trans hserv)
  refine ⟨t, (takeReads t.now (n.readsIn now) t.reads).1,
    (takeReads t.now (n.readsIn now) t.reads).2.awaitStorage, ht, hin.tick, ?_, ?_, ?_, ?_, ?_⟩
  · have hready := hin.ports.trans (T := fun p q => ∃ r, Moves p r ∧ Arrived t.reads r q)
      (fun p q r hpq hqr => ⟨q, hpq, hqr.arrived⟩) htook.ports
    have hall := hready.trans (T := Arrived t.reads) (fun p q r hpq hqr => by
      obtain ⟨p', hpp, hpq'⟩ := hpq
      exact .of_moves hpp hpq' (hqr.lift (fun p => p) fun _ _ => .work)) hwait.ports
    exact ⟨hall.keys, hall.ports, hall.sorted⟩
  · intro id
    rw [mem_takeReads hserv t.now ht.once]
    have hbrings (key : PortKey) (r : Except PortError Value) :
        (n.readsIn now).Brings key r ↔ n.Brings key r :=
        hin.ports.brings_iff (fun _ _ _ => Moves.lastRead) r
    simp only [hbrings]
  · exact htook.rest_between hin hwait
  · intro hok
    rw [hwait.rest]
    refine (htook.backoff hok).trans ?_
    rw [hin.rest]
    rfl
  · rw [update_eq]
    unfold closeTick
    rw [hin.tick]
    rfl

end ControlNode.Node
