import ControlNode.Proofs.Expr.Held
import ControlNode.Proofs.Expr.Visits

/-!
# Why evaluations fail

A call that was read has the arguments that its function looks at and a memory of its kind. So an
evaluation without a value has a reason in what it looks at: a port without a value, a delay that
has let nothing through yet, a time outside the calendar, or an argument outside its domain
(`eval_after_faults`).
-/

namespace ControlNode

namespace Func

/-! ### Single calls -/

/-- The functions that read a part of a date or of a time of day. -/
def isCalendar : Func → Bool
  | .year | .month | .day | .dow | .hour | .minute | .second => true
  | _ => false

/-- Why an application fails; `after` is what the call remembers then. -/
inductive Fault (f : Func) (vs : List Value) (now : Int) (after : NodeState) : EvalError → Prop
  | delayed {s : DelayState} (hf : f = .delay) (hafter : after = .delay s)
      (h : s.current = none) : Fault f vs now after .valueUnavailable
  | noTimeOfDay (hf : f = .hmsInterval) (h : Calendar.inRange now = false) :
      Fault f vs now after .valueUnavailable
  | argument {i : Nat} {v : Value} (h : vs[i]? = some v) : Fault f vs now after (.badArgument i v)
  | noDate (v : Value) (hf : f.isCalendar = true) (hvs : vs = [])
      (h : Calendar.inRange now = false) : Fault f vs now after (.badArgument 0 v)

variable {f : Func} {vs : List Value} {now : Int} {zone : Zone} {state after : NodeState}
    {err : EvalError}

theorem length_of_accepts {count : Nat} (h : f.accepts vs.length = true)
    (hmin : f.signature.minArgs = count) (hmax : f.signature.maxArgs = some count) :
    vs.length = count := by
  simp only [accepts, hmin, hmax, Bool.and_eq_true, decide_eq_true_eq] at h
  omega

theorem shiftAmount_error {v : Value} (h : shiftAmount v = .error err) :
    err = .badArgument 1 v := by
  simp only [shiftAmount] at h
  split at h
  · cases h
  · cases h
    rfl

theorem fault_of_calendar (part : Int → Int) (hf : f.isCalendar = true)
    (h : calendar part vs now zone = .error err) : Fault f vs now after err := by
  unfold calendar at h
  cases vs with
  | nil =>
    dsimp only at h
    split at h
    · cases h
    · rename_i hrange
      cases h
      exact .noDate _ hf rfl (Bool.eq_false_iff.mpr hrange)
  | cons v vs =>
    dsimp only at h
    split at h
    · cases h
    · cases h
      exact .argument rfl

theorem firstOutside_eq_some {first : Nat} {limits : List (Value × Int)}
    (h : firstOutside first limits = some err) :
    ∃ i v, err = .badArgument (first + i) v ∧ (limits.map Prod.fst)[i]? = some v := by
  induction limits generalizing first with
  | nil => cases h
  | cons l limits ih =>
    rw [firstOutside] at h
    split at h
    · cases h
      exact ⟨0, l.1, rfl, rfl⟩
    · obtain ⟨i, v, rfl, hv⟩ := ih h
      exact ⟨i + 1, v, by rw [Nat.add_assoc, Nat.add_comm 1], hv⟩

theorem fault_of_hmsInside (hcount : vs.length = 6) (h : hmsInside vs now zone = .error err) :
    Fault .hmsInterval vs now after err := by
  match vs, hcount with
  | [h1, m1, s1, h2, m2, s2], _ =>
    simp only [hmsInside] at h
    split at h
    · rename_i hout
      cases h
      obtain ⟨i, v, rfl, hv⟩ := firstOutside_eq_some hout
      rw [Nat.zero_add]
      exact .argument hv
    · split at h
      · cases h
      · rename_i hrange
        cases h
        exact .noTimeOfDay rfl (Bool.eq_false_iff.mpr hrange)

theorem fault_of_round (zone : Zone) (hcount : f.accepts vs.length = true) (hf : f = .round)
    (h : f.compute vs now zone = .error err) : Fault f vs now after err := by
  subst hf
  match vs, hcount with
  | [a], _ => cases h
  | [a, places], _ =>
    have hplaces : (if 0 ≤ places.toInt ∧ places.toInt ≤ maxPlaces then
        number (roundTo a.toFloat places.toInt.toNat) else .error (.badArgument 1 places)) =
          Except.error err := h
    split at hplaces
    · cases hplaces
    · cases hplaces
      exact .argument rfl

theorem fault_of_shift (shift : Int → Nat → Int) {a b : Value} (hvs : vs = [a, b])
    (h : (do integer (shift a.toInt (← shiftAmount b))) = Except.error err) :
    Fault f vs now after err := by
  cases hb : shiftAmount b with
  | ok n =>
    rw [hb] at h
    cases h
  | error e =>
    rw [hb] at h
    cases h
    rw [shiftAmount_error hb, hvs]
    exact .argument rfl

theorem fault_of_evalHeld (hcount : vs.length = 3) (hstate : state.Fits .held)
    (h : (evalHeld vs state now).1 = .error err) : Fault .held vs now after err := by
  obtain ⟨s, rfl⟩ := hstate.exists_held
  obtain ⟨v, fixed, duration, rfl⟩ := List.length_eq_three.mp hcount
  simp only [evalHeld] at h
  split at h
  · cases h
    exact .argument rfl
  · cases h

theorem fault_of_evalDelay (hcount : vs.length = 2) (hstate : state.Fits .delay)
    (h : (evalDelay vs state now).1 = .error err) :
    Fault .delay vs now (evalDelay vs state now).2 err := by
  obtain ⟨s, rfl⟩ := hstate.exists_delay
  obtain ⟨v, wait, rfl⟩ := List.length_eq_two.mp hcount
  simp only [evalDelay] at h ⊢
  split at h
  · cases h
    exact .argument rfl
  · rename_i hwait
    rw [if_neg hwait]
    split at h
    · cases h
    · rename_i hnone
      cases h
      exact .delayed rfl rfl hnone

theorem evalHyst_ne_error (hcount : vs.length = 3) (hstate : state.Fits .hyst) :
    (evalHyst vs state).1 ≠ .error err := by
  obtain ⟨on, rfl⟩ := hstate.exists_hyst
  obtain ⟨v, rise, fall, rfl⟩ := List.length_eq_three.mp hcount
  simp [evalHyst, truth]

/-- With as many arguments as its function takes and a memory of its kind, a call fails for a
reason only. -/
theorem fault_of_apply (hcount : f.accepts vs.length = true) (hstate : state.Fits f)
    (h : (f.apply vs state now zone).1 = .error err) :
    Fault f vs now (f.apply vs state now zone).2 err := by
  have hone (hmin : f.signature.minArgs = 1) (hmax : f.signature.maxArgs = some 1) :
      ∃ a, vs = [a] := List.length_eq_one_iff.mp (length_of_accepts hcount hmin hmax)
  have htwo (hmin : f.signature.minArgs = 2) (hmax : f.signature.maxArgs = some 2) :
      ∃ a b, vs = [a, b] := List.length_eq_two.mp (length_of_accepts hcount hmin hmax)
  -- one group for each number of arguments, and apart from them the functions that can fail
  cases f with
  | add | mul | bitAnd | bitOr | and | or | min | max | time | timeMs | millisecond => cases h
  | bitNot | not | abs | sgn | floor | ceil =>
    obtain ⟨a, rfl⟩ := hone rfl rfl
    cases h
  | sub | div | mod | bitXor | xor | eq | gt | gte | lt | lte =>
    obtain ⟨a, b, rfl⟩ := htwo rfl rfl
    cases h
  | shl =>
    obtain ⟨a, b, rfl⟩ := htwo rfl rfl
    exact fault_of_shift (fun x n => Binary64.wrapInt64 (x * Binary64.pow2 n)) rfl h
  | shr =>
    obtain ⟨a, b, rfl⟩ := htwo rfl rfl
    exact fault_of_shift (fun x n => x / Binary64.pow2 n) rfl h
  | cond =>
    obtain ⟨a, b, d, rfl⟩ := List.length_eq_three.mp (length_of_accepts hcount rfl rfl)
    have hbranch : argument [a, b, d] (if a.toBool then 1 else 2) = .error err := h
    split at hbranch <;> cases hbranch
  | round => exact fault_of_round zone hcount rfl h
  | year => exact fault_of_calendar (fun ms => (Calendar.date ms).year) rfl h
  | month => exact fault_of_calendar (fun ms => (Calendar.date ms).month) rfl h
  | day => exact fault_of_calendar (fun ms => (Calendar.date ms).day) rfl h
  | dow => exact fault_of_calendar Calendar.weekday rfl h
  | hour => exact fault_of_calendar Calendar.hour rfl h
  | minute => exact fault_of_calendar Calendar.minute rfl h
  | second => exact fault_of_calendar Calendar.second rfl h
  | hmsInterval => exact fault_of_hmsInside (length_of_accepts hcount rfl rfl) h
  | held => exact fault_of_evalHeld (length_of_accepts hcount rfl rfl) hstate h
  | delay => exact fault_of_evalDelay (length_of_accepts hcount rfl rfl) hstate h
  | hyst => exact absurd h (evalHyst_ne_error (length_of_accepts hcount rfl rfl) hstate)

end Func

namespace Expr

/-! ### Expressions -/

/-- A part that has no value to give: a reference to a port without one, a delay that has let
nothing through yet, or an interval of the day at a time outside the calendar. -/
inductive LacksValue (c : EvalContext) : Expr → Prop
  | ref {r : PortRef} (h : c.valueOf r.id = none) : LacksValue c (.ref r)
  | delay {pos : Nat} {state : NodeState} {args args' : List Expr} {s : DelayState}
      (heval : eval c (.call .delay pos state args) =
        (.error .valueUnavailable, .call .delay pos (.delay s) args'))
      (h : s.current = none) : LacksValue c (.call .delay pos state args)
  | interval {pos : Nat} {state : NodeState} {args : List Expr}
      (h : Calendar.inRange c.now = false) : LacksValue c (.call .hmsInterval pos state args)

/-- A call that refuses its argument `i`, whose value is `v`, or a calendar function without an
argument at a time outside the calendar. -/
inductive Refuses (c : EvalContext) (i : Nat) (v : Value) : Expr → Prop
  | argument {f : Func} {pos : Nat} {state : NodeState} {args : List Expr} {vs : List Value}
      (hargs : (evalArgs c args).1 = .ok vs) (hi : i < args.length) (hv : vs[i]? = some v) :
      Refuses c i v (.call f pos state args)
  | date {f : Func} {pos : Nat} {state : NodeState} (hf : f.isCalendar = true) (hi : i = 0)
      (h : Calendar.inRange c.now = false) : Refuses c i v (.call f pos state [])

variable {c : EvalContext} {e n : Expr} {err : EvalError}

theorem fault_of_failsAt {selfId : String} (hwf : WellFormed selfId n)
    (hfits : Throughout (fun f state => state.Fits f) n) (h : FailsAt c err n) :
    (err = .valueUnavailable ∧ LacksValue c n) ∨
      ∃ i v, err = .badArgument i v ∧ Refuses c i v n := by
  cases h with
  | ref h => exact Or.inl ⟨rfl, .ref h⟩
  | @call f pos state args vs _ hargs h =>
    have hev : evalArgs c args = (.ok vs, (evalArgs c args).2) := Prod.ext hargs rfl
    have hlength := length_of_evalArgs hev
    have hcount : f.accepts vs.length = true := by
      rw [hlength]
      exact hwf.accepts
    cases Func.fault_of_apply hcount hfits.head h with
    | delayed hf hafter hcurrent =>
      subst hf
      have heval := eval_strict_ok (f := .delay) nofun hev pos state
      rw [h, hafter] at heval
      exact Or.inl ⟨rfl, .delay heval hcurrent⟩
    | noTimeOfDay hf hrange =>
      subst hf
      exact Or.inl ⟨rfl, .interval hrange⟩
    | @argument i v hv =>
      have hi : i < args.length := by
        rw [← hlength]
        exact (List.getElem?_eq_some_iff.mp hv).1
      exact Or.inr ⟨i, v, rfl, .argument hargs hi hv⟩
    | noDate v hf hvs hrange =>
      rw [hvs] at hlength
      obtain rfl := List.eq_nil_of_length_eq_zero hlength.symm
      exact Or.inr ⟨0, v, rfl, .date hf rfl hrange⟩

theorem Throughout.of_occurs {P : Func → NodeState → Prop} (h : Throughout P e)
    (ho : Occurs n e) : Throughout P n := by
  induction ho with
  | here => exact h
  | inside ha _ ih => exact ih (h.arg ha)

/-- An expression that was read, after any evaluations, at times that leave room for their
differences: no call looks for an argument that it does not have, each has as many as its function
takes and remembers what belongs to its function, no difference of times overflows, and each error
comes from a part that is visited and has a reason for it. -/
theorem eval_after_faults {source selfId : String} (hparse : parse source selfId = .ok e)
    (history : List EvalContext) (c : EvalContext) (htimes : ∀ d ∈ c :: history, |d.now| < 2 ^ 62) :
    let now := e.after history
    (∀ i, (now.eval c).1 ≠ .error (.missingArgument i)) ∧
      (∀ f pos state args, Occurs (.call f pos state args) now →
        f.accepts args.length = true ∧ state.Fits f ∧
          ∀ t ∈ state.times, Binary64.wrapInt64 (c.now - t) = c.now - t) ∧
      ((now.eval c).1 = .error .valueUnavailable → ∃ n ∈ visits c now, LacksValue c n) ∧
      ∀ i v, (now.eval c).1 = .error (.badArgument i v) → ∃ n ∈ visits c now, Refuses c i v n := by
  intro now
  have hwf : WellFormed selfId now := (wellFormed_of_parse hparse).after history
  have hfits : Throughout (fun f state => state.Fits f) now := fits_after hparse history
  obtain ⟨hc, hhistory⟩ := List.forall_mem_cons.mp htimes
  have hbounds := times_after hparse history (by decide) hhistory
  have hreason (err : EvalError) (h : (now.eval c).1 = .error err) : ∃ n ∈ visits c now,
      (err = .valueUnavailable ∧ LacksValue c n) ∨
        ∃ i v, err = .badArgument i v ∧ Refuses c i v n := by
    obtain ⟨n, hn, hfails⟩ := exists_failsAt h
    have ho := occurs_of_mem_visits hn
    exact ⟨n, hn, fault_of_failsAt (hwf.of_occurs ho) (hfits.of_occurs ho) hfails⟩
  refine ⟨?_, ?_, ?_, ?_⟩
  · intro i h
    obtain ⟨n, -, ⟨herr, -⟩ | ⟨j, v, herr, -⟩⟩ := hreason _ h
    · cases herr
    · cases herr
  · intro f pos state args ho
    refine ⟨(hwf.of_occurs ho).accepts, hfits f pos state args ho, ?_⟩
    intro t ht
    have ht := abs_lt.mp (hbounds f pos state args ho t ht)
    have hc := abs_lt.mp hc
    apply Binary64.wrapInt64_of_range
    · unfold Binary64.minInt64
      omega
    · unfold Binary64.maxInt64
      omega
  · intro h
    obtain ⟨n, hn, ⟨-, hlacks⟩ | ⟨i, v, herr, -⟩⟩ := hreason _ h
    · exact ⟨n, hn, hlacks⟩
    · cases herr
  · intro i v h
    obtain ⟨n, hn, ⟨herr, -⟩ | ⟨j, w, herr, hrefuses⟩⟩ := hreason _ h
    · cases herr
    · cases herr
      exact ⟨n, hn, hrefuses⟩

def gateContext (now : Int) : EvalContext :=
  .ofValues [("open", .bool true), ("wait", .num 500)] now

/-- `IF(HELD($open, $open, $wait), DELAY($open, $wait), HOUR($wait))` as it is read. -/
def gate : Expr :=
  .call .cond 0 .none
    [.call .held 3 (.held ⟨none, 0⟩)
      [.ref ⟨"open", false, 8⟩, .ref ⟨"open", false, 15⟩, .ref ⟨"wait", false, 22⟩],
    .call .delay 30 (.delay ⟨[], none, none⟩) [.ref ⟨"open", false, 36⟩, .ref ⟨"wait", false, 43⟩],
    .call .hour 51 .none [.ref ⟨"wait", false, 56⟩]]

/-- When the gate has been open for long enough, the delay is asked for the first time and has
nothing to show. -/
theorem eval_after_faults_delayed :
    let history := [gateContext 0]
    let c := gateContext 600
    let now := gate.after history
    parse "IF(HELD($open, $open, $wait), DELAY($open, $wait), HOUR($wait))" "me" = .ok gate ∧
      (∀ d ∈ c :: history, |d.now| < 2 ^ 62) ∧
      (now.eval c).1 = .error .valueUnavailable ∧ (∃ n ∈ visits c now, LacksValue c n) ∧
      ∀ f pos state args, Occurs (.call f pos state args) now →
        f.accepts args.length = true ∧ state.Fits f ∧
          ∀ t ∈ state.times, Binary64.wrapInt64 (600 - t) = 600 - t := by
  intro history c now
  have hparse : parse "IF(HELD($open, $open, $wait), DELAY($open, $wait), HOUR($wait))" "me" =
      .ok gate := by cbv
  have htimes : ∀ d ∈ c :: history, |d.now| < 2 ^ 62 := by decide
  have hresult : (now.eval c).1 = .error .valueUnavailable := by decide +kernel
  obtain ⟨-, hcalls, hlacks, -⟩ := eval_after_faults hparse history c htimes
  exact ⟨hparse, htimes, hresult, hlacks hresult, hcalls⟩

end Expr

end ControlNode
