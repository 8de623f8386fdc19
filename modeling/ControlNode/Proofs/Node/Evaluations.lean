import ControlNode.Proofs.Node.Typing
import ControlNode.Proofs.Port.Pipeline

/-!
# Evaluations that wait

Whether an evaluation waits at a port is said by a flag and by a queue, which callers and the
worker change in different steps. A ledger (`EvalLedger`) records what each context has come to
while anything else happens to the port. At most one context waits, so that the queue never
gives one up. Each port of a node has got to where it is by the moves of such a ledger
(`exists_moves_of_lives`).
-/

namespace ControlNode

open Port

/-! ### The ledger -/

structure EvalLedger where
  port : Port
  /-- The context that the worker has taken out. -/
  current : Option EvalContext := none
  /-- The contexts that callers were told to be queued. -/
  stored : List EvalContext := []
  evaluated : List EvalContext := []
  /-- The contexts that the queue has given up for others. -/
  evicted : List EvalContext := []
  /-- The contexts that a stop has taken out. -/
  drained : List EvalContext := []

inductive EvalMove where
  | enqueue (c : EvalContext)
  /-- The worker takes the next context, if it is idle and the queue is open. -/
  | dequeue
  /-- The worker evaluates what it has taken out. -/
  | evaluate (t : Ticket) (now : Int)
  /-- Anything else that changes the port. -/
  | beside (f : Port → Port)
  | stop

def EvalMove.isStop : EvalMove → Bool
  | .stop => true
  | _ => false

namespace EvalLedger

def enqueue (s : EvalLedger) (c : EvalContext) : EvalLedger :=
  match s.port.enqueueEval c with
  | (false, p) => { s with port := p }
  | (true, p) => { s with
      port := p
      stored := s.stored ++ [c]
      evicted := s.evicted ++ (s.port.evals.push c).1.dropped }

def dequeue (s : EvalLedger) : EvalLedger :=
  if s.current.isSome || s.port.evals.closed then s
  else match s.port.takeEval with
    | none => s
    | some (c, p) => { s with port := p, current := some c }

def evaluate (s : EvalLedger) (t : Ticket) (now : Int) : EvalLedger :=
  match s.current with
  | none => s
  | some c => { s with
      port := (s.port.evaluate c t now).2
      current := none
      evaluated := s.evaluated ++ [c] }

def beside (s : EvalLedger) (f : Port → Port) : EvalLedger :=
  { s with
    port := { f s.port with evals := s.port.evals, evalPending := s.port.evalPending } }

def stop (s : EvalLedger) : EvalLedger :=
  { s with port := s.port.halt.2, drained := s.drained ++ s.port.evals.items }

def act (s : EvalLedger) : EvalMove → EvalLedger
  | .enqueue c => s.enqueue c
  | .dequeue => s.dequeue
  | .evaluate t now => s.evaluate t now
  | .beside f => s.beside f
  | .stop => s.stop

def run (p : Port) (moves : List EvalMove) : EvalLedger := moves.foldl act { port := p }

/-- What is true of a port after these moves. -/
structure Sound (p : Port) (moves : List EvalMove) (s : EvalLedger) : Prop where
  one : s.port.evals.items.length ≤ 1
  evicted : s.evicted = []
  /-- Each context that was queued is at one place, in the order of the calls. -/
  account : s.evaluated ++ s.current.toList ++ s.port.evals.items ++ s.drained = s.stored
  stopped : s.port.evals.closed = moves.any EvalMove.isStop
  pending : s.port.evals.closed = false → s.port.evalPending = !s.port.evals.items.isEmpty
  drained : s.port.evals.closed = false → s.drained = []
  /-- Callers are told whether their context was stored. -/
  answers : ∀ c, (s.port.enqueueEval c).2.evals.items =
    s.port.evals.items ++ if (s.port.enqueueEval c).1 then [c] else []
  /-- The worker of a running port has soon evaluated all that was queued, each context once. -/
  complete : s.port.evals.closed = false → ∀ t now t' now',
    (run p (moves ++ [.evaluate t now, .dequeue, .evaluate t' now'])).evaluated = s.stored

/-! ### One move -/

/-- What every move keeps. -/
structure Kept (s : EvalLedger) : Prop where
  one : s.port.evals.items.length ≤ 1
  evicted : s.evicted = []
  account : s.evaluated ++ s.current.toList ++ s.port.evals.items ++ s.drained = s.stored
  pending : s.port.evals.closed = false → s.port.evalPending = !s.port.evals.items.isEmpty
  drained : s.port.evals.closed = false → s.drained = []
  emptied : s.port.evals.closed = true → s.port.evals.items = []

theorem takeEval_of_nil {p : Port} (h : p.evals.items = []) : p.takeEval = none := by
  simp only [takeEval, BoundedQueue.pop, h, Option.map_none]

theorem takeEval_of_single {p : Port} {c : EvalContext} (h : p.evals.items = [c]) :
    p.takeEval =
      some (c, { p with evals := { p.evals with items := [] }, evalPending := false }) := by
  simp only [takeEval, BoundedQueue.pop, h, Option.map_some]

theorem evaluate_of_idle {s : EvalLedger} (h : s.current = none) (t : Ticket) (now : Int) :
    s.evaluate t now = s := by
  simp only [evaluate, h]

theorem evaluate_idle (s : EvalLedger) (t : Ticket) (now : Int) :
    (s.evaluate t now).current = none ∧ (s.evaluate t now).port.evals = s.port.evals ∧
      (s.evaluate t now).stored = s.stored := by
  unfold evaluate
  split
  · rename_i hidle
    exact ⟨hidle, rfl, rfl⟩
  · refine ⟨rfl, ?_, rfl⟩
    rw [evaluate_frame]

namespace Kept

variable {s : EvalLedger}

theorem rest_eq_nil (h : s.Kept) {c : EvalContext} {rest : List EvalContext}
    (hitems : s.port.evals.items = c :: rest) : rest = [] := by
  have hone := h.one
  rw [hitems, List.length_cons] at hone
  exact List.length_eq_zero_iff.mp (by omega)

/-- While no evaluation waits a context that comes in is the only one. -/
theorem enqueueEval_eq (h : s.Kept) (c : EvalContext) :
    s.port.enqueueEval c =
      if s.port.evalPending || s.port.evals.closed then (false, s.port)
      else (true, { s.port with
        evals := { s.port.evals with items := [c] }
        evalPending := true }) := by
  cases hpending : s.port.evalPending with
  | true => rw [enqueueEval, if_pos hpending, Bool.true_or, if_pos rfl]
  | false =>
    rw [enqueueEval, if_neg (by simp [hpending]), Bool.false_or]
    cases hc : s.port.evals.closed with
    | true => rw [BoundedQueue.push_of_closed _ _ hc, if_pos rfl]
    | false =>
      have hitems := h.pending hc
      rw [hpending] at hitems
      have hnil : s.port.evals.items = [] := by simpa using hitems.symm
      have hpush : s.port.evals.push c = (.stored, { s.port.evals with items := [c] }) := by
        simp only [BoundedQueue.push, hc, hnil, Bool.false_eq_true, if_false]
      rw [hpush, if_neg Bool.false_ne_true]

theorem items_of_free (h : s.Kept) (hc : s.port.evals.closed = false)
    (hpending : s.port.evalPending = false) : s.port.evals.items = [] := by
  have hitems := h.pending hc
  rw [hpending] at hitems
  simpa using hitems.symm

theorem answers (h : s.Kept) (c : EvalContext) :
    (s.port.enqueueEval c).2.evals.items =
      s.port.evals.items ++ if (s.port.enqueueEval c).1 then [c] else [] := by
  rw [h.enqueueEval_eq c]
  split
  · simp
  · rename_i hfree
    rw [Bool.or_eq_true, not_or, Bool.not_eq_true, Bool.not_eq_true] at hfree
    rw [h.items_of_free hfree.2 hfree.1]
    rfl

theorem create (key : PortKey) (device : Device) (isVirtual : Bool) (capacity : Nat)
    (zone : Zone) :
    Kept { port := .create key device isVirtual capacity zone } where
  one := Nat.zero_le 1
  evicted := rfl
  account := rfl
  pending _ := rfl
  drained _ := rfl
  emptied _ := rfl

theorem enqueue (h : s.Kept) (c : EvalContext) : (s.enqueue c).Kept := by
  rw [EvalLedger.enqueue, h.enqueueEval_eq c]
  split
  · rename_i hput
    split at hput
    · cases hput
      exact h
    · cases hput
  · rename_i hput
    split at hput
    · cases hput
    · rename_i hfree
      rw [Bool.or_eq_true, not_or, Bool.not_eq_true, Bool.not_eq_true] at hfree
      have hnil := h.items_of_free hfree.2 hfree.1
      have hpush : (s.port.evals.push c).1 = .stored := by
        simp only [BoundedQueue.push, hfree.2, hnil, Bool.false_eq_true, if_false]
      cases hput
      exact {
        one := Nat.le_refl 1
        evicted := by rw [hpush, h.evicted]; rfl
        account := by
          have haccount := h.account
          rw [hnil, h.drained hfree.2, List.append_nil, List.append_nil] at haccount
          rw [← haccount, h.drained hfree.2, List.append_nil]
        pending := fun _ => rfl
        drained := h.drained
        emptied := fun hc => absurd (hfree.2.symm.trans hc) (by simp) }

theorem dequeue (h : s.Kept) : s.dequeue.Kept := by
  unfold EvalLedger.dequeue
  split
  · exact h
  · rename_i hidle
    rw [Bool.or_eq_true, not_or, Bool.not_eq_true, Bool.not_eq_true,
      Option.isSome_eq_false_iff, Option.isNone_iff_eq_none] at hidle
    cases hitems : s.port.evals.items with
    | nil =>
      rw [takeEval_of_nil hitems]
      exact h
    | cons c rest =>
      obtain rfl := h.rest_eq_nil hitems
      rw [takeEval_of_single hitems]
      exact { h with
        one := Nat.zero_le 1
        account := by
          have haccount := h.account
          rw [hidle.1, hitems, h.drained hidle.2, Option.toList_none, List.append_nil,
            List.append_nil] at haccount
          rw [← haccount, h.drained hidle.2]
          simp
        pending := fun _ => rfl
        emptied := fun _ => rfl }

theorem evaluate (h : s.Kept) (t : Ticket) (now : Int) : (s.evaluate t now).Kept := by
  unfold EvalLedger.evaluate
  split
  · exact h
  · rename_i c hcurrent
    have haccount := h.account
    rw [hcurrent] at haccount
    rw [evaluate_frame]
    exact { h with account := by simpa using haccount }

theorem stop (h : s.Kept) : s.stop.Kept where
  one := Nat.zero_le 1
  evicted := h.evicted
  account := by
    have haccount := h.account
    cases hc : s.port.evals.closed with
    | true =>
      -- a second stop finds nothing to take out
      rw [h.emptied hc, List.append_nil] at haccount
      simpa [EvalLedger.stop, halt, BoundedQueue.close, h.emptied hc] using haccount
    | false =>
      rw [h.drained hc, List.append_nil] at haccount
      simpa [EvalLedger.stop, halt, BoundedQueue.close, h.drained hc] using haccount
  pending hc := absurd hc (by simp [EvalLedger.stop, halt, BoundedQueue.close])
  drained hc := absurd hc (by simp [EvalLedger.stop, halt, BoundedQueue.close])
  emptied _ := rfl

theorem act (h : s.Kept) (m : EvalMove) : (s.act m).Kept := by
  cases m with
  | enqueue c => exact h.enqueue c
  | dequeue => exact h.dequeue
  | evaluate t now => exact h.evaluate t now
  | beside f => exact { h with }
  | stop => exact h.stop

theorem foldl_act (h : s.Kept) (moves : List EvalMove) : (moves.foldl EvalLedger.act s).Kept := by
  induction moves generalizing s with
  | nil => exact h
  | cons m moves ih => exact ih (h.act m)

/-- A worker that ends what it has begun and then takes what waits has evaluated everything. -/
theorem finish (h : s.Kept) (hc : s.port.evals.closed = false) (t t' : Ticket) (now now' : Int) :
    (((s.evaluate t now).dequeue).evaluate t' now').evaluated = s.stored := by
  have hkept := h.evaluate t now
  obtain ⟨hidle, hevals, hstored⟩ := s.evaluate_idle t now
  rw [← hevals] at hc
  have haccount := hkept.account
  rw [hidle, hkept.drained hc, hstored, List.append_nil, Option.toList_none,
    List.append_nil] at haccount
  rw [← haccount, EvalLedger.dequeue, hidle, hc, if_neg (by simp)]
  cases hitems : (s.evaluate t now).port.evals.items with
  | nil =>
    rw [takeEval_of_nil hitems, List.append_nil, evaluate_of_idle hidle]
  | cons c rest =>
    obtain rfl := hkept.rest_eq_nil hitems
    rw [takeEval_of_single hitems]
    rfl

end Kept

end EvalLedger

/-! ### Whatever happens to a port -/

namespace Port

variable {p q r : Port}

structure SameEvals (p q : Port) : Prop where
  evals : q.evals = p.evals
  evalPending : q.evalPending = p.evalPending

namespace SameEvals

theorem refl (p : Port) : SameEvals p p := ⟨rfl, rfl⟩

theorem trans (h : SameEvals p q) (h' : SameEvals q r) : SameEvals p r :=
  ⟨h'.evals.trans h.evals, h'.evalPending.trans h.evalPending⟩

theorem of_core (h : SameCore p q) : SameEvals p q := ⟨h.evals, h.evalPending⟩

end SameEvals

theorem applyAttr_evals (p : Port) (g : DepGraph) (name : String) (value : Json) :
    SameEvals p (p.applyAttr g name value).port := by
  unfold applyAttr
  split
  · exact ⟨rfl, rfl⟩
  · split
    · exact .of_core (setEnabled_core ..)
    · split
      · unfold setExpression
        repeat' split
        all_goals exact ⟨rfl, rfl⟩
      · split
        · rename_i q hq
          exact .of_core (setPlain_core hq)
        · exact .refl p

theorem setAttr_evals (p : Port) (g : DepGraph) (name : String) (value : Json) :
    SameEvals p (p.setAttr g name value).port := by
  have happly := p.applyAttr_evals g name value
  unfold setAttr
  split
  · exact .refl p
  · split
    · exact .refl p
    · split
      · exact .refl p
      · dsimp only
        split
        · exact happly
        · exact happly.trans ⟨rfl, rfl⟩

theorem loadAttr_evals (p : Port) (g : DepGraph) (name : String) (value : Json) :
    SameEvals p (p.loadAttr g name value).1 := by
  unfold loadAttr
  split
  · exact ⟨rfl, rfl⟩
  · split
    · exact .refl p
    · split
      · exact p.applyAttr_evals g name value
      · exact .refl p

theorem loadAttrs_evals (p : Port) (g : DepGraph) (record : Record) :
    SameEvals p (p.loadAttrs g record).1 :=
  loadAttrs_induction g record (fun q name value hq => hq.trans (q.loadAttr_evals g name value))
    (fun _ hq => hq.trans ⟨rfl, rfl⟩) (.refl p)

theorem enqueueWrite_evals (p : Port) (v : Value) (t : Ticket) :
    SameEvals p (p.enqueueWrite v t).2 := by
  unfold enqueueWrite
  split
  · exact .refl p
  · exact ⟨rfl, rfl⟩

theorem restore_evals (p : Port) (v : Value) : SameEvals p (p.restore v) := by
  unfold restore
  dsimp only
  repeat' split
  all_goals exact ⟨rfl, rfl⟩

end Port

namespace EvalLedger

variable {s : EvalLedger}

theorem beside_eq {q : Port} (h : SameEvals s.port q) :
    s.beside (fun _ => q) = { s with port := q } := by
  rw [beside, ← h.evals, ← h.evalPending]

theorem enqueue_port (s : EvalLedger) (c : EvalContext) :
    (s.enqueue c).port = (s.port.enqueueEval c).2 := by
  unfold enqueue
  split <;> rename_i hput <;> rw [hput]

theorem enqueue_current (s : EvalLedger) (c : EvalContext) :
    (s.enqueue c).current = s.current := by
  unfold enqueue
  split <;> rfl

theorem exists_moves_of_step (hs : s.Kept) (hidle : s.current = none) {cs : List Contact}
    {q : Port} (h : Step s.port cs q) : ∃ moves : List EvalMove,
      (moves.foldl act s).port = q ∧ (moves.foldl act s).current = none := by
  have hsame (hq : SameEvals s.port q) : ∃ moves : List EvalMove,
      (moves.foldl act s).port = q ∧ (moves.foldl act s).current = none :=
    ⟨[.beside fun _ => q], congrArg EvalLedger.port (beside_eq hq), hidle⟩
  cases h with
  | takeWrite h =>
    obtain ⟨_, -, rfl⟩ := Option.map_eq_some_iff.mp h
    exact hsame ⟨rfl, rfl⟩
  | carryOut =>
    rw [carryOut_frame] at hsame ⊢
    exact hsame ⟨rfl, rfl⟩
  | evaluate h t now =>
    -- one step of the port, but two moves of its worker, which is idle before and after
    refine ⟨[.dequeue, .evaluate t now], ?_⟩
    cases hitems : s.port.evals.items with
    | nil => exact absurd ((takeEval_of_nil hitems).symm.trans h) (by simp)
    | cons c' rest =>
      obtain rfl := hs.rest_eq_nil hitems
      have hopen : s.port.evals.closed = false :=
        Bool.eq_false_iff.mpr fun hc => absurd (hs.emptied hc) (by simp [hitems])
      have htake := (takeEval_of_single hitems).symm.trans h
      have hdequeue : s.dequeue = { s with
          port := { s.port with
            evals := { s.port.evals with items := [] }
            evalPending := false }
          current := some c' } := by
        rw [dequeue, hidle, hopen, if_neg (by simp), takeEval_of_single hitems]
      cases htake
      rw [List.foldl_cons, List.foldl_cons, List.foldl_nil, act, act, hdequeue]
      exact ⟨rfl, rfl⟩
  | sequence => exact hsame ⟨rfl, rfl⟩
  | submit v t now =>
    rw [submit_frame] at hsame ⊢
    exact hsame ⟨rfl, rfl⟩
  | enqueueWrite v t => exact hsame (enqueueWrite_evals ..)
  | upkeep h =>
    rw [h.frame] at hsame ⊢
    exact hsame ⟨rfl, rfl⟩
  | take v => exact hsame ⟨rfl, rfl⟩
  | enqueueEval c =>
    exact ⟨[.enqueue c], s.enqueue_port c, (s.enqueue_current c).trans hidle⟩
  | setAttr g name value => exact hsame (setAttr_evals ..)
  | loadAttrs g record => exact hsame (loadAttrs_evals ..)
  | restore v => exact hsame (restore_evals ..)
  | halt => exact ⟨[.stop], rfl, hidle⟩
  | clearPending => exact hsame ⟨rfl, rfl⟩
  | change h => exact hsame ⟨rfl, rfl⟩

theorem exists_moves_of_lives {p q : Port} {log : List Contact} (hp : Kept { port := p })
    (h : Lives p log q) : ∃ moves, (run p moves).port = q ∧ (run p moves).current = none := by
  induction h with
  | refl => exact ⟨[], rfl, rfl⟩
  | tail h hs ih =>
    obtain ⟨moves, rfl, hidle⟩ := ih
    obtain ⟨more, hport, hcurrent⟩ := exists_moves_of_step (hp.foldl_act moves) hidle hs
    refine ⟨moves ++ more, ?_, ?_⟩
    · rw [run, List.foldl_append]
      exact hport
    · rw [run, List.foldl_append]
      exact hcurrent

/-! ### Whole runs -/

theorem act_closed (h : s.Kept) (m : EvalMove) :
    (s.act m).port.evals.closed = (s.port.evals.closed || m.isStop) := by
  cases m with
  | enqueue c =>
    refine Eq.trans ?_ (Bool.or_false _).symm
    rw [act, enqueue_port, h.enqueueEval_eq c]
    split <;> rfl
  | dequeue =>
    refine Eq.trans ?_ (Bool.or_false _).symm
    rw [act, dequeue]
    split
    · rfl
    · cases hitems : s.port.evals.items with
      | nil => rw [takeEval_of_nil hitems]
      | cons c rest =>
        obtain rfl := h.rest_eq_nil hitems
        rw [takeEval_of_single hitems]
  | evaluate t now =>
    exact (congrArg BoundedQueue.closed (s.evaluate_idle t now).2.1).trans (Bool.or_false _).symm
  | beside f => exact (Bool.or_false _).symm
  | stop => exact (Bool.or_true _).symm

theorem foldl_act_closed (h : s.Kept) (moves : List EvalMove) :
    (moves.foldl act s).port.evals.closed =
      (s.port.evals.closed || moves.any EvalMove.isStop) := by
  induction moves generalizing s with
  | nil => rw [List.foldl_nil, List.any_nil, Bool.or_false]
  | cons m moves ih =>
    rw [List.foldl_cons, ih (h.act m), act_closed h, List.any_cons, Bool.or_assoc]

theorem sound_run {p : Port} (hp : Kept { port := p }) (hopen : p.evals.closed = false)
    (moves : List EvalMove) : (run p moves).Sound p moves := by
  have h := hp.foldl_act moves
  exact {
    one := h.one
    evicted := h.evicted
    account := h.account
    stopped := by rw [run, foldl_act_closed hp, hopen, Bool.false_or]
    pending := h.pending
    drained := h.drained
    answers := h.answers
    complete := fun hc t now t' now' => by
      rw [run, List.foldl_append]
      exact h.finish hc t t' now now' }

end EvalLedger

namespace Node

/-- At most one evaluation waits at a port, it is never given up for another one, and it is
evaluated once unless a stop takes it out. Each port of a node has come about in this way. -/
theorem evaluations_sound :
    (∀ key device isVirtual capacity zone (moves : List EvalMove),
      (EvalLedger.run (.create key device isVirtual capacity zone) moves).Sound
        (.create key device isVirtual capacity zone) moves) ∧
    ∀ config backend wall zone ops key p,
      ((create config backend wall zone).after ops).portOf? key = some p →
        ∃ device isVirtual capacity zone' moves,
          (EvalLedger.run (.create key device isVirtual capacity zone') moves).port = p := by
  refine ⟨fun key device isVirtual capacity zone moves =>
    EvalLedger.sound_run (.create key device isVirtual capacity zone) rfl moves,
    fun config backend wall zone ops key p hp => ?_⟩
  obtain ⟨device, isVirtual, capacity, zone', log, -, hlives, -⟩ :=
    (after_wellTyped config backend wall zone ops).ports key p hp
  rw [key_of_portOf? hp] at hlives
  obtain ⟨moves, hport, -⟩ := EvalLedger.exists_moves_of_lives (.create ..) hlives
  exact ⟨device, isVirtual, capacity, zone', moves, hport⟩

end Node

end ControlNode
