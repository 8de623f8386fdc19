import ControlNode.Proofs.Decimal.Whole
import ControlNode.Proofs.Expr.Combinational
import ControlNode.Proofs.Port.Moves

/-!
# Rounds of ports

A tick sends a port a snapshot; the workers then evaluate its expression and write what it yields.
This module follows one port that is left to its expression through such a round: what its device
holds in the end is what the expression yields (`Moves.round`), and a port that has nothing new to
write stays as it is (`Moves.atRest`).
-/

namespace ControlNode

/-! ### Values and devices -/

namespace Value

def isNaN : Value → Bool
  | .bool _ => false
  | .num x => x.isNaN

theorem same_self {v : Value} (h : v.isNaN = false) : v.same v = true := by
  cases v with
  | bool b => exact beq_self_eq_true b
  | num x =>
    have hnumber : x.toModel.unpack ≠ .notANumber := by
      intro heq
      have hnan : x.toModel.unpack.isNaN = false := h
      rw [heq] at hnan
      cases hnan
    have hbeq : x.toModel.unpack.beq x.toModel.unpack = true :=
      (Float.Model.UnpackedFloat.beq_iff_ne_notANumber_and_eq _ _).mpr
        ⟨hnumber, hnumber, Or.inl rfl⟩
    exact hbeq

end Value

theorem Domain.adapt_adapt (d : Domain) (v : Value) : d.adapt (d.adapt v) = d.adapt v := by
  unfold adapt
  cases d.type with
  | boolean => rfl
  | number =>
    dsimp only [Value.toFloat]
    split
    · rw [Binary64.trunc_trunc]
    · rfl

namespace Device

/-- Whether the device holds a value, answers all reads and refuses no write that it is made for. -/
def isReliable : Device → Bool
  | .memory m => !m.failReads
  | .software _ => true
  | _ => false

variable {d d' : Device}

theorem read_of_isReliable (h : d.isReliable = true) : d.read = (held d.value, d) := by
  cases d with
  | memory m =>
    have hok : m.failReads = false := by simpa [isReliable] using h
    simp [read, hok, value]
  | software s => rfl
  | scripted s => cases h
  | unit => cases h

theorem Touched.eq_of_isReliable (h : Touched d d') (hd : d.isReliable = true) : d' = d := by
  cases h with
  | same => rfl
  | scripted => cases hd

theorem write_isReliable (v : Value) (h : d.isReliable = true) :
    (d.write v).2.isReliable = true := by
  cases d with
  | memory m =>
    simp only [write]
    split
    · exact h
    · exact h
  | software s => rfl
  | scripted s => cases h
  | unit => cases h

theorem value_write (v : Value) (h : d.isReliable = true) (hw : d.writable = true) :
    (d.write v).2.value = some v := by
  cases d with
  | memory m =>
    have hw' : m.writable = true := hw
    simp [write, hw', value]
  | software s => rfl
  | scripted s => cases h
  | unit => cases h

end Device

theorem WritePipe.enqueue_items {w : WritePipe} (h : w.IsEmpty)
    (hopen : w.queue.closed = false) (r : WriteRequest) :
    (w.enqueue r).2.queue.items = [r] := by
  rw [enqueue_queue]
  simp [BoundedQueue.push, hopen, h.queue]

namespace Port

/-! ### Ports that follow their expressions -/

/-- What the expression yields on the values of a snapshot, made to fit the port. -/
def result (p : Port) (c : EvalContext) : Option Value :=
  p.expression.bind fun e => (e.eval (c.forPort p.id p.zone)).1.toOption.map p.domain.adapt

/-- The value that the port has after its next read. -/
def readBack (p : Port) : Option Value :=
  match p.device.value with
  | some v => some (p.domain.adapt v)
  | none => p.lastRead

/-- What a read of the port gives if nothing fails. -/
def reading (p : Port) : Except PortError Value :=
  match p.device.value with
  | some v => .ok (p.domain.adapt v)
  | none => .error .skipRead

/-- An enabled port over a reliable device that is left to its expression, if it has one. -/
structure Plain (p : Port) : Prop where
  enabled : p.enabled = true
  reliable : p.device.isReliable = true
  readTransform : p.transformRead = none
  writeTransform : p.transformWrite = none
  fraction : p.limits.integer = false
  sequence : p.sequence = none
  combinational : ∀ e ∈ p.expression, e.Combinational p.id

instance (p : Port) : Decidable p.Plain :=
  decidable_of_iff (p.enabled = true ∧ p.device.isReliable = true ∧ p.transformRead.isNone ∧
      p.transformWrite.isNone ∧ p.limits.integer = false ∧ p.sequence.isNone ∧
      p.expression.all fun e => decide (e.Combinational p.id)) <| by
    simp only [Option.isNone_iff_eq_none, Option.all_eq_true, decide_eq_true_eq]
    exact ⟨fun ⟨h₁, h₂, h₃, h₄, h₅, h₆, h₇⟩ => ⟨h₁, h₂, h₃, h₄, h₅, h₆, h₇⟩,
      fun ⟨h₁, h₂, h₃, h₄, h₅, h₆, h₇⟩ => ⟨h₁, h₂, h₃, h₄, h₅, h₆, h₇⟩⟩

variable {p q : Port} {c : EvalContext}

theorem isSome_of_result {v : Value} (hv : p.result c = some v) : p.expression.isSome := by
  obtain ⟨e, he, _⟩ := Option.bind_eq_some_iff.mp hv
  rw [he]
  rfl

theorem adapt_result {v : Value} (hv : p.result c = some v) : p.domain.adapt v = v := by
  obtain ⟨e, _, hw⟩ := Option.bind_eq_some_iff.mp hv
  obtain ⟨w, _, rfl⟩ := Option.map_eq_some_iff.mp hw
  exact Domain.adapt_adapt p.domain w

theorem readValue_of_plain (h : p.Plain) (now : Int) : (p.readValue now).1 = p.reading := by
  unfold readValue reading
  rw [Device.read_of_isReliable h.reliable]
  cases p.device.value with
  | none => rfl
  | some v =>
    simp only [Device.held, transform, h.readTransform]
    rfl

theorem submit_of_plain (h : p.Plain) {v : Value} (hv : p.domain.adapt v = v) (t : Ticket)
    (now : Int) : (p.submit v t now).2 =
      if p.writable then { p with writes := (p.writes.enqueue ⟨v, t⟩).2 } else p := by
  have htransform : p.transform p.transformWrite v now = (.ok v, none) := by
    rw [h.writeTransform, transform, hv]
  have hsame : { p with transformWrite := none } = p := by rw [← h.writeTransform]
  unfold submit
  rw [htransform]
  dsimp only
  rw [hsame]
  unfold enqueueWrite
  cases hw : p.writable with
  | true =>
    have hcheck : p.checkWritable = .ok () := by simp [checkWritable, h.enabled, hw]
    rw [hcheck]
    rfl
  | false =>
    have hcheck : p.checkWritable = .error .notWritable := by simp [checkWritable, h.enabled, hw]
    rw [hcheck]
    rfl

/-- Evaluation queues what the expression yields if that is news and can be written. -/
theorem evaluate_of_plain (h : p.Plain) (c : EvalContext) (t : Ticket) (now : Int) :
    (p.evaluate c t now).2 = match p.result c with
      | none => p
      | some v =>
        if Value.sameOption p.lastRead (some v) then p
        else if p.writable then { p with writes := (p.writes.enqueue ⟨v, t⟩).2 } else p := by
  unfold evaluate
  split
  · rename_i e _ he
    have hsame : { p with expression := some e } = p := by rw [← he]
    have hkept := (h.combinational e he).memoryless.eval (c.forPort p.id p.zone)
    dsimp only
    simp only [hkept, hsame]
    cases hr : (e.eval (c.forPort p.id p.zone)).1 with
    | error err =>
      have hv : p.result c = none := by simp [result, he, hr, Except.toOption]
      rw [hv]
    | ok w =>
      have hv : p.result c = some (p.domain.adapt w) := by simp [result, he, hr, Except.toOption]
      rw [hv]
      dsimp only
      split
      · rfl
      · exact submit_of_plain h (adapt_result hv) t now
  · rename_i hno
    cases he : p.expression with
    | none =>
      have hv : p.result c = none := by simp [result, he]
      rw [hv]
    | some e => exact absurd he (hno e h.enabled)

/-! ### Rounds -/

/-- What the expression yields is a number and can be written where it is news. -/
structure Regular (c : EvalContext) (p : Port) : Prop where
  number : ∀ v, p.result c = some v → v.isNaN = false
  writable : ∀ v, p.result c = some v → Value.sameOption p.lastRead (some v) = false →
    p.writable = true

instance (c : EvalContext) (p : Port) : Decidable (p.Regular c) :=
  decidable_of_iff ((p.result c).all fun v =>
      !v.isNaN && (Value.sameOption p.lastRead (some v) || p.writable)) <| by
    simp only [Option.all_eq_true, Bool.and_eq_true, Bool.not_eq_true', Bool.or_eq_true]
    constructor
    · intro h
      exact ⟨fun v hv => (h v hv).1, fun v hv hnews =>
        (h v hv).2.resolve_left (by simp [hnews])⟩
    · intro h v hv
      refine ⟨h.number v hv, ?_⟩
      cases hsame : Value.sameOption p.lastRead (some v) with
      | true => exact Or.inl rfl
      | false => exact Or.inr (h.writable v hv hsame)

theorem Regular.congr {c' : EvalContext} (h : p.Regular c) (hresult : p.result c' = p.result c) :
    p.Regular c' := by
  constructor
  · intro v hv
    exact h.number v (hresult ▸ hv)
  · intro v hv hnews
    exact h.writable v (hresult ▸ hv) hnews

/-- How far a port has come with the snapshot of a tick. -/
inductive Stage (c : EvalContext) (p : Port) : Prop
  | waits (hevals : p.evals.items = [c]) (hwrites : p.writes.IsEmpty)
      (hread : p.readBack = p.lastRead)
  | queued {v : Value} {t : Ticket} (hevals : p.evals.items = [])
      (hqueue : p.writes.queue.items = [⟨v, t⟩]) (hcurrent : p.writes.current = none)
      (hresult : p.result c = some v) (hnews : Value.sameOption p.lastRead (some v) = false)
  | taken {v : Value} {t : Ticket} (hevals : p.evals.items = [])
      (hqueue : p.writes.queue.items = []) (hcurrent : p.writes.current = some ⟨v, t⟩)
      (hresult : p.result c = some v) (hnews : Value.sameOption p.lastRead (some v) = false)
  /-- What the expression yields can be read. What is read then has been read before or is
  news. -/
  | done (hevals : p.evals.items = []) (hwrites : p.writes.IsEmpty)
      (hread : p.readBack = p.lastRead ∨ Value.sameOption p.lastRead p.readBack = false)
      (hresult : ∀ v, p.result c = some v → Value.sameOption p.readBack (some v) = true)

/-- A port between a tick with the snapshot `c` and the next one. -/
structure Round (c : EvalContext) (p : Port) : Prop where
  plain : p.Plain
  running : p.Running
  regular : p.Regular c
  stage : p.Stage c

structure Kept (p q : Port) : Prop where
  plain : q.Plain
  key : q.key = p.key
  expression : q.expression = p.expression
  domain : q.domain = p.domain
  lastRead : q.lastRead = p.lastRead
  writable : q.writable = p.writable
  zone : q.zone = p.zone

theorem Kept.result (h : Kept p q) (c : EvalContext) : q.result c = p.result c := by
  have hid : q.id = p.id := congrArg PortKey.id h.key
  unfold Port.result
  rw [h.expression, hid, h.domain, h.zone]

theorem Kept.regular (h : Kept p q) (hp : p.Regular c) : q.Regular c := by
  constructor
  · intro v hv
    rw [h.result] at hv
    exact hp.number v hv
  · intro v hv hnews
    rw [h.result] at hv
    rw [h.lastRead] at hnews
    rw [h.writable]
    exact hp.writable v hv hnews

/-- A port that has taken up an evaluation. -/
abbrev tookUp (p : Port) (rest : List EvalContext) : Port :=
  { p with evals := { p.evals with items := rest }, evalPending := false }

theorem Advance.kept (h : Advance p q) (hp : p.Plain) : Kept p q := by
  cases h with
  | stay => exact ⟨hp, rfl, rfl, rfl, rfl, rfl, rfl⟩
  | take => exact ⟨{ hp with }, rfl, rfl, rfl, rfl, rfl, rfl⟩
  | @write r _ =>
    have htype : (p.device.write r.value).2.type = p.device.type := Device.write_type ..
    refine ⟨{ hp with reliable := Device.write_isReliable _ hp.reliable }, rfl, rfl, ?_, rfl,
      Device.write_writable .., rfl⟩
    simp only [domain, type, htype]
  | @evaluate c rest _ t now =>
    have htook : (p.tookUp rest).Plain := { hp with }
    rw [evaluate_of_plain htook]
    split
    · exact ⟨htook, rfl, rfl, rfl, rfl, rfl, rfl⟩
    · split
      · exact ⟨htook, rfl, rfl, rfl, rfl, rfl, rfl⟩
      · split
        · exact ⟨{ htook with }, rfl, rfl, rfl, rfl, rfl, rfl⟩
        · exact ⟨htook, rfl, rfl, rfl, rfl, rfl, rfl⟩

theorem Advance.done_of_taken {v : Value} {t : Ticket} (hp : p.Plain) (hr : p.Regular c)
    (hevals : p.evals.items = []) (hqueue : p.writes.queue.items = [])
    (hcurrent : p.writes.current = some ⟨v, t⟩) (hresult : p.result c = some v)
    (hnews : Value.sameOption p.lastRead (some v) = false) :
    Stage c { p with
      device := (p.device.write v).2
      writes := (p.writes.finish (p.device.write v).1).2 } := by
  have hkept := (Advance.write hcurrent).kept hp
  have hempty : (p.writes.finish (p.device.write v).1).2.IsEmpty := by
    constructor
    · rw [WritePipe.finish_queue, hqueue]
    · simp [WritePipe.finish, hcurrent, WritePipe.showHead]
  have hheld : (p.device.write v).2.value = some v :=
    Device.value_write v hp.reliable (hr.writable v hresult hnews)
  have hread : readBack { p with
      device := (p.device.write v).2
      writes := (p.writes.finish (p.device.write v).1).2 } = some v := by
    unfold readBack
    rw [hheld]
    exact congrArg some ((congrArg (Domain.adapt · v) hkept.domain).trans (adapt_result hresult))
  refine .done hevals hempty ?_ ?_
  · rw [hread]
    exact Or.inr hnews
  · intro w hw
    rw [hkept.result, hresult] at hw
    cases hw
    rw [hread]
    exact Value.same_self (hr.number v hresult)

/-- An evaluation that is taken up queues what it yields, unless the port holds that already. -/
theorem Advance.evaluated_of_waiting (hp : Round c p) (hwrites : p.writes.IsEmpty)
    (hread : p.readBack = p.lastRead) (t : Ticket) (now : Int) :
    Stage c ((p.tookUp []).evaluate c t now).2 := by
  have htook : (p.tookUp []).Plain := { hp.plain with }
  have hresult : (p.tookUp []).result c = p.result c := rfl
  rw [evaluate_of_plain htook, hresult]
  cases hv : p.result c with
  | none =>
    refine .done rfl hwrites (Or.inl hread) ?_
    intro v hv'
    rw [hresult, hv] at hv'
    cases hv'
  | some v =>
    dsimp only
    split
    · rename_i hsame
      refine .done rfl hwrites (Or.inl hread) ?_
      intro w hw
      rw [hresult, hv] at hw
      cases hw
      change Value.sameOption p.readBack (some v) = true
      rw [hread]
      exact hsame
    · rename_i hnews
      have hnews' : Value.sameOption p.lastRead (some v) = false := by simpa using hnews
      have hw : (p.tookUp []).writable = true := hp.regular.writable v hv hnews'
      rw [hw, if_pos rfl]
      refine .queued (t := t) rfl ?_ ?_ hv hnews'
      · exact WritePipe.enqueue_items hwrites hp.running.writesOpen _
      · exact (WritePipe.enqueue_current ..).trans hwrites.current

theorem Advance.stage (h : Advance p q) (hp : Round c p) : Stage c q := by
  -- each move is possible at one stage only
  cases h with
  | stay => exact hp.stage
  | @take r rest hitems =>
    cases hp.stage with
    | waits _ hwrites _ =>
      rw [hwrites.queue] at hitems
      cases hitems
    | queued hevals hqueue hcurrent hresult hnews =>
      rw [hqueue] at hitems
      cases hitems
      exact .taken hevals rfl rfl hresult hnews
    | taken _ hqueue _ _ _ =>
      rw [hqueue] at hitems
      cases hitems
    | done _ hwrites _ _ =>
      rw [hwrites.queue] at hitems
      cases hitems
  | @write r hr =>
    cases hp.stage with
    | waits _ hwrites _ =>
      rw [hwrites.current] at hr
      cases hr
    | queued _ _ hcurrent _ _ =>
      rw [hcurrent] at hr
      cases hr
    | taken hevals hqueue hcurrent hresult hnews =>
      rw [hcurrent] at hr
      cases hr
      exact done_of_taken hp.plain hp.regular hevals hqueue hcurrent hresult hnews
    | done _ hwrites _ _ =>
      rw [hwrites.current] at hr
      cases hr
  | @evaluate c' rest hitems t now =>
    cases hp.stage with
    | waits hevals hwrites hread =>
      rw [hevals] at hitems
      cases hitems
      exact evaluated_of_waiting hp hwrites hread t now
    | queued hevals _ _ _ _ =>
      rw [hevals] at hitems
      cases hitems
    | taken hevals _ _ _ _ =>
      rw [hevals] at hitems
      cases hitems
    | done hevals _ _ _ =>
      rw [hevals] at hitems
      cases hitems

theorem Upkeep.eq_of_plain (h : Upkeep p q) (hp : p.Plain) : q = { p with
    historyLast := q.historyLast
    attrCache := q.attrCache
    dirty := q.dirty } := by
  have hdevice := h.device.eq_of_isReliable hp.reliable
  have hread : q.transformRead = p.transformRead := by
    have hmap := h.transform
    rw [hp.readTransform, Option.map_none] at hmap
    rw [Option.map_eq_none_iff.mp hmap, hp.readTransform]
  have hq := h.frame
  rw [hdevice, hread] at hq
  exact hq

theorem Upkeep.kept (h : Upkeep p q) (hp : p.Plain) : Kept p q := by
  rw [h.eq_of_plain hp]
  exact ⟨{ hp with }, rfl, rfl, rfl, rfl, rfl, rfl⟩

theorem Moves.plain (h : Moves p q) (hp : p.Plain) : q.Plain := by
  induction h with
  | refl => exact hp
  | tail _ hstep ih =>
    cases hstep with
    | work h => exact ((h.advance ih.sequence).kept ih).plain
    | upkeep h => exact (h.kept ih).plain

theorem Moves.round (h : Moves p q) (hp : Round c p) : Round c q := by
  induction h with
  | refl => exact hp
  | tail _ hstep ih =>
    cases hstep with
    | work h =>
      have hadvance := h.advance ih.plain.sequence
      have hkept := hadvance.kept ih.plain
      exact ⟨hkept.plain, h.running ih.running, hkept.regular ih.regular, hadvance.stage ih⟩
    | upkeep h =>
      have hkept := h.kept ih.plain
      refine ⟨hkept.plain, h.running ih.running, hkept.regular ih.regular, ?_⟩
      rw [h.eq_of_plain ih.plain]
      cases ih.stage with
      | waits hevals hwrites hread => exact .waits hevals hwrites hread
      | queued hevals hqueue hcurrent hresult hnews =>
        exact .queued hevals hqueue hcurrent hresult hnews
      | taken hevals hqueue hcurrent hresult hnews =>
        exact .taken hevals hqueue hcurrent hresult hnews
      | done hevals hwrites hread hresult => exact .done hevals hwrites hread hresult

theorem Round.of_idle (h : Round c p) (hi : p.Idle) :
    (p.readBack = p.lastRead ∨ Value.sameOption p.lastRead p.readBack = false) ∧
      ∀ v, p.result c = some v → Value.sameOption p.readBack (some v) = true := by
  cases h.stage with
  | waits hevals _ _ =>
    rw [hi.evals] at hevals
    cases hevals
  | queued _ hqueue _ _ _ =>
    rw [hi.writes.queue] at hqueue
    cases hqueue
  | taken _ _ hcurrent _ _ =>
    rw [hi.writes.current] at hcurrent
    cases hcurrent
  | done _ _ hread hresult => exact ⟨hread, hresult⟩

/-! ### Ports at rest -/

/-- Nothing is on its way to the device of the port, and the evaluations that wait yield nothing
new. -/
structure AtRest (c : EvalContext) (p : Port) : Prop where
  plain : p.Plain
  evals : ∀ c' ∈ p.evals.items, c' = c
  writes : p.writes.IsEmpty
  read : p.readBack = p.lastRead
  result : ∀ v, p.result c = some v → Value.sameOption p.lastRead (some v) = true

theorem Advance.atRest (h : Advance p q) (hp : AtRest c p) : AtRest c q ∧ q.device = p.device := by
  cases h with
  | stay => exact ⟨hp, rfl⟩
  | take hitems =>
    rw [hp.writes.queue] at hitems
    cases hitems
  | write hcurrent =>
    rw [hp.writes.current] at hcurrent
    cases hcurrent
  | @evaluate c' rest hitems t now =>
    obtain rfl := hp.evals c' (by rw [hitems]; exact List.mem_cons_self ..)
    have htook : (p.tookUp rest).Plain := { hp.plain with }
    have hsame : ((p.tookUp rest).evaluate c' t now).2 = p.tookUp rest := by
      rw [evaluate_of_plain htook]
      split
      · rfl
      · rename_i v hv
        exact if_pos (hp.result v hv)
    rw [hsame]
    refine ⟨⟨htook, ?_, hp.writes, hp.read, hp.result⟩, rfl⟩
    intro c hc
    exact hp.evals c (by rw [hitems]; exact List.mem_cons_of_mem _ hc)

theorem AtRest.evaluate (hp : AtRest c p) {c' : EvalContext} (h : p.takeEval = some (c', q))
    (t : Ticket) (now : Int) : (q.evaluate c' t now).2.writes.IsEmpty :=
  (((Work.evaluate h t now).advance hp.plain.sequence).atRest hp).1.writes

theorem Moves.atRest (h : Moves p q) (hp : AtRest c p) : AtRest c q ∧ q.device = p.device := by
  induction h with
  | refl => exact ⟨hp, rfl⟩
  | tail _ hstep ih =>
    obtain ⟨hrest, hdevice⟩ := ih
    cases hstep with
    | work h =>
      obtain ⟨hq, hsame⟩ := (h.advance hrest.plain.sequence).atRest hrest
      exact ⟨hq, hsame.trans hdevice⟩
    | upkeep h =>
      rw [h.eq_of_plain hrest.plain]
      exact ⟨⟨{ hrest.plain with }, hrest.evals, hrest.writes, hrest.read, hrest.result⟩, hdevice⟩

end Port

end ControlNode
