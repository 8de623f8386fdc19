import ControlNode.Proofs.Expr.Held
import Mathlib

/-!
# DELAY over runs

The transitions of a run are the steps that bring a new value. DELAY keeps those that are younger
than its delay in a queue and has let all older ones through, the last of which is what it shows
(`Follows`). A new transition drives the oldest one out of a full queue before the matured ones are
let through, so the queue must have room for those that were young at the step before; then DELAY
shows the last transition of sufficient age at each step (`eval_after_delay`).
-/

namespace ControlNode

theorem Value.same_congr {a b : Value} (h : a.same b = true) (c : Value) :
    a.same c = b.same c := by
  cases a with
  | bool x =>
    cases b with
    | bool y => rw [beq_iff_eq.mp h]
    | num y => cases h
  | num x =>
    cases b with
    | bool y => cases h
    | num y =>
      cases c with
      | bool z => rfl
      | num z => exact BEq.congr_left h

/-! ### Transitions -/

/-- The steps whose value differs from the one before; `before` is the value before the first. -/
def transitionsAfter (before : Option Value) : List (Int × Value) → List (Int × Value)
  | [] => []
  | s :: steps =>
    if Value.sameOption before (some s.2) then transitionsAfter (some s.2) steps
    else s :: transitionsAfter (some s.2) steps

/-- The transitions of a run; its first step is one. -/
def transitions (steps : List (Int × Value)) : List (Int × Value) := transitionsAfter none steps

theorem transitionsAfter_concat (before : Option Value) (steps : List (Int × Value))
    (s : Int × Value) : transitionsAfter before (steps ++ [s]) =
      transitionsAfter before steps ++
        if Value.sameOption ((steps.getLast?.map Prod.snd).or before) (some s.2) then []
        else [s] := by
  induction steps generalizing before with
  | nil =>
    simp only [List.nil_append, transitionsAfter, List.getLast?_nil, Option.map_none,
      Option.none_or]
    rfl
  | cons t steps ih =>
    have hlast : ((steps.getLast?.map Prod.snd).or (some t.2)) =
        (((t :: steps).getLast?.map Prod.snd).or before) := by
      cases hsteps : steps.getLast? <;> simp [List.getLast?_cons, hsteps]
    simp only [List.cons_append, transitionsAfter, ih, hlast]
    split <;> rfl

theorem transitions_concat (steps : List (Int × Value)) (s : Int × Value) :
    transitions (steps ++ [s]) = transitions steps ++
      if Value.sameOption (steps.getLast?.map Prod.snd) (some s.2) then [] else [s] := by
  rw [transitions, transitionsAfter_concat, Option.or_none]
  rfl

theorem transitionsAfter_sublist (before : Option Value) (steps : List (Int × Value)) :
    (transitionsAfter before steps).Sublist steps := by
  induction steps generalizing before with
  | nil => exact List.Sublist.refl _
  | cons s steps ih =>
    rw [transitionsAfter]
    split
    · exact (ih _).cons s
    · exact (ih _).cons_cons s

theorem transitions_sublist (steps : List (Int × Value)) : (transitions steps).Sublist steps :=
  transitionsAfter_sublist none steps

/-! ### Runs that DELAY keeps up with -/

def delaySteps (as : List Application) : List (Int × Value) :=
  as.filterMap fun a => a.args.head?.map fun v => (a.now, v)

/-- A run that a delay of `d` milliseconds loses nothing of. -/
structure Paced (d : Int) (steps : List (Int × Value)) : Prop where
  /-- Times do not decrease. -/
  order : steps.Pairwise fun s t => s.1 ≤ t.1
  /-- Ages fit 64 bits. -/
  span : ∀ s ∈ steps, ∀ t ∈ steps, t.1 - s.1 ≤ Binary64.maxInt64
  /-- At each step the transitions up to it that were younger than the delay at the step before
  fit the queue. -/
  room : ∀ before p s, before ++ [p, s] <+: steps →
    (transitions (before ++ [p, s])).countP (fun e => p.1 - e.1 < d) ≤ Func.delayCapacity

theorem Paced.init {d : Int} {steps : List (Int × Value)} {s : Int × Value}
    (h : Paced d (steps ++ [s])) : Paced d steps where
  order := (List.pairwise_append.mp h.order).1
  span t ht u hu := h.span t (List.mem_append_left _ ht) u (List.mem_append_left _ hu)
  room before p t hpre := h.room before p t (hpre.trans (List.prefix_append ..))

theorem Paced.le_last {d : Int} {steps : List (Int × Value)} {s : Int × Value}
    (h : Paced d (steps ++ [s])) {t : Int × Value} (ht : t ∈ steps) : t.1 ≤ s.1 :=
  (List.pairwise_append.mp h.order).2.2 t ht s (List.mem_singleton_self s)

theorem room_of_length_le {steps : List (Int × Value)}
    (h : steps.length ≤ Func.delayCapacity) {before : List (Int × Value)} {p s : Int × Value}
    (hpre : before ++ [p, s] <+: steps) (young : Int × Value → Bool) :
    (transitions (before ++ [p, s])).countP young ≤ Func.delayCapacity :=
  calc (transitions (before ++ [p, s])).countP young
    _ ≤ (transitions (before ++ [p, s])).length := List.countP_le_length
    _ ≤ (before ++ [p, s]).length := (transitions_sublist _).length_le
    _ ≤ steps.length := hpre.length_le
    _ ≤ Func.delayCapacity := h

/-! ### What DELAY remembers -/

/-- The state belongs to the steps: all transitions are let through or wait, according to their age
at the last step. -/
structure Follows (d : Int) (steps : List (Int × Value)) (s : DelayState) : Prop where
  seen : ∀ v, Value.sameOption s.seen (some v) =
    Value.sameOption (steps.getLast?.map Prod.snd) (some v)
  split : ∃ released, transitions steps = released ++ s.pending ∧
    s.current = released.getLast?.map Prod.snd ∧
    ∀ last ∈ steps.getLast?, (∀ e ∈ released, d ≤ last.1 - e.1) ∧
      ∀ e ∈ s.pending, last.1 - e.1 < d

/-- The front of an ordered queue that has matured is let through. -/
theorem Func.delayRelease_split {d now : Int} (queue : List (Int × Value)) (current : Option Value)
    (horder : queue.Pairwise fun s t => s.1 ≤ t.1)
    (hrange : ∀ e ∈ queue, e.1 ≤ now ∧ now - e.1 ≤ Binary64.maxInt64) :
    ∃ out rest, queue = out ++ rest ∧ (∀ e ∈ out, d ≤ now - e.1) ∧ (∀ e ∈ rest, now - e.1 < d) ∧
      delayRelease d now queue current = (rest, (out.getLast?.map Prod.snd).or current) := by
  induction queue generalizing current with
  | nil => exact ⟨[], [], rfl, nofun, nofun, rfl⟩
  | cons e queue ih =>
    obtain ⟨he, hqueue⟩ := List.forall_mem_cons.mp hrange
    obtain ⟨hfirst, horder⟩ := List.pairwise_cons.mp horder
    have hmin : Binary64.minInt64 ≤ now - e.1 := by
      unfold Binary64.minInt64
      omega
    have hage := Binary64.wrapInt64_of_range hmin he.2
    by_cases hyoung : now - e.1 < d
    · refine ⟨[], e :: queue, rfl, nofun, ?_, ?_⟩
      · intro t ht
        rcases List.mem_cons.mp ht with rfl | ht
        · exact hyoung
        · have hle := hfirst t ht
          omega
      · simp only [delayRelease, hage, hyoung, if_true, List.getLast?_nil, Option.map_none,
          Option.none_or]
    · obtain ⟨out, rest, rfl, hout, hrest, heq⟩ := ih (some e.2) horder hqueue
      refine ⟨e :: out, rest, rfl, ?_, hrest, ?_⟩
      · intro t ht
        rcases List.mem_cons.mp ht with rfl | ht
        · omega
        · exact hout t ht
      · simp only [delayRelease, hage, hyoung, if_false, heq]
        cases hlast : out.getLast? <;> simp [List.getLast?_cons, hlast]

namespace Follows

variable {d : Int} {steps : List (Int × Value)} {s : DelayState} {step : Int × Value}

theorem initial (d : Int) : Follows d [] ⟨[], none, none⟩ where
  seen _ := rfl
  split := ⟨[], rfl, rfl, nofun⟩

theorem mem_of_pending (h : Follows d steps s) {e : Int × Value} (he : e ∈ s.pending) :
    e ∈ steps := by
  obtain ⟨released, hsplit, -, -⟩ := h.split
  apply (transitions_sublist steps).subset
  rw [hsplit]
  exact List.mem_append_right _ he

theorem pending_of_zero (h : Follows 0 (steps ++ [step]) s) (hpaced : Paced 0 (steps ++ [step])) :
    s.pending = [] := by
  obtain ⟨released, -, -, hages⟩ := h.split
  apply List.eq_nil_iff_forall_not_mem.mpr
  intro e he
  have hage := (hages step (by simp)).2 e he
  have hle : e.1 ≤ step.1 := by
    rcases List.mem_append.mp (h.mem_of_pending he) with hmem | hmem
    · exact hpaced.le_last hmem
    · rw [List.mem_singleton.mp hmem]
  omega

theorem room (h : Follows d steps s) (hd : 0 ≤ d) (hpaced : Paced d (steps ++ [step]))
    (hnew : transitions (steps ++ [step]) = transitions steps ++ [step]) :
    s.pending.length < Func.delayCapacity := by
  obtain ⟨released, hsplit, -, hages⟩ := h.split
  rcases List.eq_nil_or_concat' steps with rfl | ⟨before, p, rfl⟩
  · rw [(List.append_eq_nil_iff.mp hsplit.symm).2]
    decide
  · rcases Int.lt_or_eq_of_le hd with hpos | rfl
    · have hyoung : ∀ e ∈ s.pending ++ [step], p.1 - e.1 < d := by
        intro e he
        rcases List.mem_append.mp he with he | he
        · exact (hages p (by simp)).2 e he
        · have hlast : p.1 ≤ step.1 := hpaced.le_last (by simp)
          rw [List.mem_singleton.mp he]
          omega
      have hcount : (s.pending ++ [step]).countP (fun e => p.1 - e.1 < d) =
          s.pending.length + 1 := by
        rw [List.countP_eq_length.mpr fun e he => decide_eq_true (hyoung e he),
          List.length_append, List.length_singleton]
      have hroom := hpaced.room before p step (by simp)
      rw [show before ++ [p, step] = before ++ [p] ++ [step] by simp, hnew, hsplit,
        List.append_assoc, List.countP_append, hcount] at hroom
      omega
    · rw [h.pending_of_zero hpaced.init]
      decide

theorem note (h : Follows d steps s) (hd : 0 ≤ d) (hpaced : Paced d (steps ++ [step])) :
    ∃ released, transitions (steps ++ [step]) =
        released ++ (Func.delayNote s step.2 step.1).pending ∧
      s.current = released.getLast?.map Prod.snd ∧ (∀ e ∈ released, d ≤ step.1 - e.1) ∧
      (Func.delayNote s step.2 step.1).current = s.current ∧
      ∀ v, Value.sameOption (Func.delayNote s step.2 step.1).seen (some v) = step.2.same v := by
  obtain ⟨released, hsplit, hcurrent, hages⟩ := h.split
  have hmature : ∀ e ∈ released, d ≤ step.1 - e.1 := by
    intro e he
    rcases List.eq_nil_or_concat' steps with rfl | ⟨before, p, rfl⟩
    · rw [(List.append_eq_nil_iff.mp hsplit.symm).1] at he
      cases he
    · have hage := (hages p (by simp)).1 e he
      have hlast : p.1 ≤ step.1 := hpaced.le_last (by simp)
      omega
  have hnext := transitions_concat steps step
  by_cases hsame : Value.sameOption s.seen (some step.2) = true
  · have hnote : Func.delayNote s step.2 step.1 = s := by
      simp only [Func.delayNote, hsame, if_true]
    rw [← h.seen, if_pos hsame, List.append_nil] at hnext
    rw [hnote, hnext]
    refine ⟨released, hsplit, hcurrent, hmature, rfl, ?_⟩
    intro v
    cases hseen : s.seen with
    | none =>
      rw [hseen] at hsame
      cases hsame
    | some x =>
      rw [hseen] at hsame
      exact Value.same_congr hsame v
  · rw [← h.seen, if_neg hsame] at hnext
    have hroom := h.room hd hpaced hnext
    have hnote : Func.delayNote s step.2 step.1 =
        { s with seen := some step.2, pending := s.pending ++ [step] } := by
      simp only [Func.delayNote, hsame, if_false, Nat.not_le.mpr hroom, Bool.false_eq_true]
    rw [hnote]
    refine ⟨released, ?_, hcurrent, hmature, rfl, fun v => rfl⟩
    rw [hnext, hsplit, List.append_assoc]

/-- One application of a delay: the state follows, and the result is the last transition that was
let through. -/
theorem apply (h : Follows d steps s) (hd : 0 ≤ d) (hpaced : Paced d (steps ++ [step]))
    {wait : Value} (hwait : wait.toInt = d) :
    ∃ s', (Func.evalDelay [step.2, wait] (.delay s) step.1).2 = .delay s' ∧
      Follows d (steps ++ [step]) s' ∧
      (Func.evalDelay [step.2, wait] (.delay s) step.1).1 =
        s'.current.elim (.error .valueUnavailable) .ok := by
  obtain ⟨released, hsplit, hcurrent, hmature, hkeep, hseen⟩ := h.note hd hpaced
  have hsub : ((Func.delayNote s step.2 step.1).pending).Sublist (steps ++ [step]) :=
    (hsplit ▸ List.sublist_append_right ..).trans (transitions_sublist _)
  have hrange : ∀ e ∈ (Func.delayNote s step.2 step.1).pending,
      e.1 ≤ step.1 ∧ step.1 - e.1 ≤ Binary64.maxInt64 := by
    intro e he
    have hmem := hsub.subset he
    refine ⟨?_, hpaced.span e hmem step (by simp)⟩
    rcases List.mem_append.mp hmem with hmem | hmem
    · exact hpaced.le_last hmem
    · rw [List.mem_singleton.mp hmem]
  obtain ⟨out, rest, hqueue, hout, hrest, hrelease⟩ :=
    Func.delayRelease_split (d := d) _ (Func.delayNote s step.2 step.1).current
      (hpaced.order.sublist hsub) hrange
  have hnow : ((steps ++ [step]).getLast?.map Prod.snd) = some step.2 := by simp
  refine ⟨⟨rest, (Func.delayNote s step.2 step.1).seen,
    (out.getLast?.map Prod.snd).or (Func.delayNote s step.2 step.1).current⟩, ?_, ⟨?_, ?_⟩, ?_⟩
  · simp only [Func.evalDelay, hwait, Int.not_lt.mpr hd, if_false, hrelease]
  · intro v
    rw [hseen, hnow]
    rfl
  · refine ⟨released ++ out, ?_, ?_, ?_⟩
    · rw [hsplit, hqueue, List.append_assoc]
    · rw [hkeep, hcurrent, List.getLast?_append, Option.map_or]
    · intro last hlast
      rw [List.getLast?_concat, Option.mem_some_iff] at hlast
      subst hlast
      refine ⟨?_, hrest⟩
      intro e he
      rcases List.mem_append.mp he with he | he
      · exact hmature e he
      · exact hout e he
  · simp only [Func.evalDelay, hwait, Int.not_lt.mpr hd, if_false, hrelease]
    cases (out.getLast?.map Prod.snd).or (Func.delayNote s step.2 step.1).current <;> rfl

/-- The last transition of sufficient age is the one shown. -/
theorem current_eq (h : Follows d (steps ++ [step]) s) :
    s.current = ((transitions (steps ++ [step])).filter
      fun e => d ≤ step.1 - e.1).getLast?.map Prod.snd := by
  obtain ⟨released, hsplit, hcurrent, hages⟩ := h.split
  obtain ⟨hmature, hyoung⟩ := hages step (by simp)
  have hreleased : released.filter (fun e => d ≤ step.1 - e.1) = released := by
    apply List.filter_eq_self.mpr
    intro e he
    exact decide_eq_true (hmature e he)
  have hpending : s.pending.filter (fun e => d ≤ step.1 - e.1) = [] := by
    apply List.filter_eq_nil_iff.mpr
    intro e he
    have hage := hyoung e he
    simpa using hage
  rw [hsplit, List.filter_append, hreleased, hpending, List.append_nil, hcurrent]

/-- Over a run that it keeps up with the state of a delay follows the steps. -/
theorem run {as : List Application} (hd : 0 ≤ d)
    (hargs : ∀ a ∈ as, ∃ v wait, a.args = [v, wait] ∧ wait.toInt = d)
    (hpaced : Paced d (delaySteps as)) :
    ∃ s, Func.stateAfter .delay (.initial .delay) as = .delay s ∧
      Follows d (delaySteps as) s := by
  induction as using List.reverseRecOn with
  | nil => exact ⟨_, rfl, initial d⟩
  | append_singleton as a ih =>
    obtain ⟨v, wait, hvalues, hwait⟩ := hargs a (by simp)
    have hsteps : delaySteps (as ++ [a]) = delaySteps as ++ [(a.now, v)] := by
      simp [delaySteps, hvalues]
    rw [hsteps] at hpaced ⊢
    obtain ⟨s, hs, hfollows⟩ := ih (fun b hb => hargs b (List.mem_append_left _ hb)) hpaced.init
    obtain ⟨s', hs', hfollows', -⟩ := hfollows.apply hd hpaced hwait
    refine ⟨s', ?_, hfollows'⟩
    rw [Func.stateAfter_concat, hs, hvalues]
    exact hs'

end Follows

/-! ### Results -/

namespace Expr

/-- A delay that has room for its young transitions shows the last one of sufficient age. -/
theorem eval_after_delay (value wait : Expr) (pos : Nat) (cs : List EvalContext)
    (c : EvalContext) (v w : Value)
    (hargs : (evalArgs c (argsAfter [value, wait] cs)).1 = .ok [v, w])
    (hd : 0 ≤ w.toInt)
    (hconst : ∀ a ∈ applications [value, wait] cs, a.args[1]?.map Value.toInt = some w.toInt)
    (hpaced : Paced w.toInt (delaySteps (applications [value, wait] cs) ++ [(c.now, v)])) :
    (((call .delay pos (.initial .delay) [value, wait]).after cs).eval c).1 =
      match ((transitions (delaySteps (applications [value, wait] cs) ++ [(c.now, v)])).filter
        fun e => w.toInt ≤ c.now - e.1).getLast? with
      | some e => .ok e.2
      | none => .error .valueUnavailable := by
  have hpairs : ∀ a ∈ applications [value, wait] cs,
      ∃ v wait, a.args = [v, wait] ∧ wait.toInt = w.toInt := by
    intro a ha
    obtain ⟨v, wait, hvalues⟩ := List.length_eq_two.mp (length_of_applications ha)
    have hwait := hconst a ha
    rw [hvalues] at hwait
    exact ⟨v, wait, hvalues, Option.some.inj hwait⟩
  obtain ⟨s, hs, hfollows⟩ := Follows.run hd hpairs hpaced.init
  obtain ⟨s', -, hfollows', hresult⟩ := hfollows.apply hd hpaced rfl
  have heval : (((call .delay pos (.initial .delay) [value, wait]).after cs).eval c).1 =
      (Func.evalDelay [v, w] (.delay s) c.now).1 := by
    rw [← hs]
    exact eval_after_call (by decide) pos _ cs hargs
  rw [heval, hresult, hfollows'.current_eq]
  cases ((transitions (delaySteps (applications [value, wait] cs) ++ [(c.now, v)])).filter
    fun e => w.toInt ≤ c.now - e.1).getLast? <;> rfl

/-- The value of the port of the next runs at a time. -/
def delayContext (v : Value) (now : Int) : EvalContext := .ofValues [("p", v)] now

/-- Three transitions, all of which have matured at the end. -/
theorem eval_after_delay_matured :
    let args := [.ref ⟨"p", false, 6⟩, .const (.num 100)]
    let cs := [delayContext (.num 1) 0, delayContext (.num 1) 50, delayContext (.num 1) 100,
      delayContext (.num 2) 150, delayContext (.num 3) 200, delayContext (.num 3) 250]
    let c := delayContext (.num 3) 300
    (evalArgs c (argsAfter args cs)).1 = .ok [.num 3, .num 100] ∧ 0 ≤ (Value.num 100).toInt ∧
      (∀ a ∈ applications args cs, a.args[1]?.map Value.toInt = some (Value.num 100).toInt) ∧
      Paced (Value.num 100).toInt (delaySteps (applications args cs) ++ [(300, .num 3)]) ∧
      (((call .delay 0 (.initial .delay) args).after cs).eval c).1 = .ok (.num 3) := by
  intro args cs c
  have hargs : (evalArgs c (argsAfter args cs)).1 = .ok [.num 3, .num 100] := by decide +kernel
  have hd : 0 ≤ (Value.num 100).toInt := by decide +kernel
  have hconst : ∀ a ∈ applications args cs,
      a.args[1]?.map Value.toInt = some (Value.num 100).toInt := by
    decide +kernel
  have hsteps : delaySteps (applications args cs) = [(0, .num 1), (50, .num 1), (100, .num 1),
      (150, .num 2), (200, .num 3), (250, .num 3)] := by
    decide +kernel
  have hpaced : Paced (Value.num 100).toInt
      (delaySteps (applications args cs) ++ [(300, .num 3)]) := by
    rw [hsteps]
    exact ⟨by decide, by decide, fun _ _ _ hpre => room_of_length_le (by decide) hpre _⟩
  have hshown := eval_after_delay _ _ 0 cs c _ _ hargs hd hconst hpaced
  exact ⟨hargs, hd, hconst, hpaced, hshown.trans (by decide +kernel)⟩

end Expr

/-! ### A full queue -/

/-- A run that fills the queue: one value at zero, then another one at each of many evaluations one
millisecond later. -/
def crowd (n : Nat) : List (Int × Value) :=
  (List.range n).map fun i => (if i = 0 then 0 else 1, .bool (i % 2 = 0))

theorem crowd_succ (n : Nat) :
    crowd (n + 1) = crowd n ++ [(if n = 0 then 0 else 1, .bool (n % 2 = 0))] := by
  rw [crowd, List.range_succ, List.map_append, List.map_singleton, crowd]

theorem crowd_eq_cons (n : Nat) : crowd (n + 1) = (0, .bool true) ::
    (List.range n).map fun i => (1, .bool ((i + 1) % 2 = 0)) := by
  rw [crowd, List.range_succ_eq_map, List.map_cons, List.map_map]
  rfl

theorem length_crowd (n : Nat) : (crowd n).length = n := by
  rw [crowd, List.length_map, List.length_range]

theorem sameOption_crowd (n : Nat) :
    Value.sameOption ((crowd n).getLast?.map Prod.snd) (some (.bool (n % 2 = 0))) = false := by
  cases n with
  | zero => rfl
  | succ n =>
    rw [crowd_succ, List.getLast?_concat]
    have hdiffer : (decide (n % 2 = 0) == decide ((n + 1) % 2 = 0)) = false := by
      rcases Nat.mod_two_eq_zero_or_one n with h | h <;> simp [Nat.add_mod, h]
    exact hdiffer

theorem stateAfter_crowd {n : Nat} (hn : n ≤ Func.delayCapacity) {wait : Value}
    (hwait : wait.toInt = 2) :
    Func.stateAfter .delay (.initial .delay)
        ((crowd n).map fun s => { now := s.1, args := [s.2, wait] }) =
      .delay ⟨crowd n, (crowd n).getLast?.map Prod.snd, none⟩ := by
  induction n with
  | zero => rfl
  | succ n ih =>
    have hroom : ¬Func.delayCapacity ≤ n := by omega
    have hrelease (now : Int) (hnow : now = 0 ∨ now = 1) :
        Func.delayRelease 2 now (crowd (n + 1)) none = (crowd (n + 1), none) := by
      rw [crowd_eq_cons]
      rcases hnow with rfl | rfl <;> rfl
    rw [crowd_succ, List.map_append, List.map_singleton, Func.stateAfter_concat, ih (by omega)]
    simp only [Func.apply, Func.evalDelay, hwait, Func.delayNote, sameOption_crowd, length_crowd,
      hroom, if_false, Bool.false_eq_true, ← crowd_succ]
    rw [hrelease _ (by split <;> simp)]
    simp [crowd_succ]

theorem crowd_order (n : Nat) : (crowd n).Pairwise fun s t => s.1 ≤ t.1 := by
  apply List.pairwise_map.mpr
  apply List.pairwise_lt_range.imp
  intro i j hij
  dsimp only
  split <;> split <;> omega

theorem transitions_crowd (n : Nat) : transitions (crowd n) = crowd n := by
  induction n with
  | zero => rfl
  | succ n ih => rw [crowd_succ, transitions_concat, sameOption_crowd, ih]; rfl

/-- The run that fills the queue, and a transition that finds no room. -/
def overflow : List (Int × Value) := crowd Func.delayCapacity ++ [(2, .bool true)]

theorem overflow_eq_cons : overflow = (0, .bool true) :: ((List.range 1023).map
    fun i => ((1 : Int), Value.bool ((i + 1) % 2 = 0))) ++ [(2, .bool true)] := by
  rw [← crowd_eq_cons 1023]
  rfl

theorem overflow_order : overflow.Pairwise fun s t => s.1 ≤ t.1 := by
  refine List.pairwise_append.mpr ⟨crowd_order _, List.pairwise_singleton .., ?_⟩
  intro s hs t ht
  obtain ⟨i, -, rfl⟩ := List.mem_map.mp hs
  rw [List.mem_singleton.mp ht]
  dsimp only
  split <;> decide

theorem transitions_overflow : transitions overflow = overflow := by
  rw [overflow, transitions_concat, transitions_crowd]
  exact congrArg _ (if_neg (Bool.eq_false_iff.mp (sameOption_crowd Func.delayCapacity)))

/-- At each step the queue takes the transitions that have not matured. -/
theorem countP_overflow_le {before : List (Int × Value)} {s : Int × Value}
    (h : before ++ [s] <+: overflow) :
    (transitions (before ++ [s])).countP (fun e => s.1 - e.1 < 2) ≤ Func.delayCapacity := by
  rcases List.prefix_concat_iff.mp h with hlast | hpre
  · -- at the last step the first transition is old enough not to count
    have hall : before ++ [s] = overflow := hlast
    have hs : s = (2, .bool true) := List.singleton_inj.mp (List.append_inj' hlast rfl).2
    rw [hall, transitions_overflow, hs, overflow_eq_cons, List.cons_append,
      List.countP_cons_of_neg (by decide)]
    refine List.countP_le_length.trans ?_
    rw [List.length_append, List.length_map, List.length_range]
    decide
  · refine List.countP_le_length.trans ((transitions_sublist _).length_le.trans ?_)
    rw [← length_crowd Func.delayCapacity]
    exact hpre.length_le

/-- In the end the first transition has matured, and no other one. -/
theorem filter_overflow : overflow.filter (fun e => 2 ≤ 2 - e.1) = [(0, .bool true)] := by
  have hyoung : ((List.range 1023).map fun i => ((1 : Int), Value.bool ((i + 1) % 2 = 0))).filter
      (fun e => 2 ≤ 2 - e.1) = [] := by
    apply List.filter_eq_nil_iff.mpr
    intro e he
    obtain ⟨i, -, rfl⟩ := List.mem_map.mp he
    simp
  rw [overflow_eq_cons, List.filter_append, List.filter_cons_of_pos (by decide), hyoung]
  rfl

/-- The full queue has dropped its first transition when it is asked for what has matured. -/
theorem evalDelay_crowd {wait : Value} (hwait : wait.toInt = 2) :
    (Func.evalDelay [.bool true, wait] (.delay ⟨crowd Func.delayCapacity,
      (crowd Func.delayCapacity).getLast?.map Prod.snd, none⟩) 2).1 = .error .valueUnavailable := by
  have hnew : Value.sameOption ((crowd Func.delayCapacity).getLast?.map Prod.snd)
      (some (.bool true)) = false := sameOption_crowd Func.delayCapacity
  have hqueue : (crowd Func.delayCapacity).drop 1 = (1, .bool false) ::
      (List.range 1022).map fun i => ((1 : Int), Value.bool ((i + 1 + 1) % 2 = 0)) := by
    rw [show Func.delayCapacity = 1023 + 1 from rfl, crowd_eq_cons, List.drop_one,
      List.tail_cons, List.range_succ_eq_map, List.map_cons, List.map_map]
    rfl
  simp only [Func.evalDelay, hwait, Func.delayNote, hnew, length_crowd, hqueue, Nat.le_refl,
    if_true, if_false, Bool.false_eq_true]
  rfl

namespace Expr

theorem applications_delayContext (pos : Nat) (wait : Value) (steps : List (Int × Value)) :
    applications [.ref ⟨"p", false, pos⟩, .const wait]
        (steps.map fun s => delayContext s.2 s.1) =
      steps.map fun s => { now := s.1, args := [s.2, wait] } := by
  induction steps with
  | nil => rfl
  | cons s steps ih =>
    rw [List.map_cons, List.map_cons, ← ih]
    rfl

theorem argsAfter_delayContext (pos : Nat) (wait : Value) (steps : List (Int × Value)) :
    argsAfter [.ref ⟨"p", false, pos⟩, .const wait] (steps.map fun s => delayContext s.2 s.1) =
      [.ref ⟨"p", false, pos⟩, .const wait] := by
  induction steps with
  | nil => rfl
  | cons s steps ih => exact ih

/-- The queue is full, and the new transition drives out the first one at the very step at which
that has matured: at each step no more transitions than the queue takes are younger than the delay,
but the one of sufficient age is not shown. -/
theorem eval_after_delay_crowded :
    let args := [.ref ⟨"p", false, 6⟩, .const (.num 2)]
    let cs := (crowd Func.delayCapacity).map fun s => delayContext s.2 s.1
    let c := delayContext (.bool true) 2
    let steps := delaySteps (applications args cs) ++ [(2, .bool true)]
    (evalArgs c (argsAfter args cs)).1 = .ok [.bool true, .num 2] ∧ (Value.num 2).toInt = 2 ∧
      (∀ a ∈ applications args cs, a.args[1]? = some (.num 2)) ∧
      (steps.Pairwise fun s t => s.1 ≤ t.1) ∧
      (∀ before s, before ++ [s] <+: steps →
        (transitions (before ++ [s])).countP (fun e => s.1 - e.1 < 2) ≤ Func.delayCapacity) ∧
      ((transitions steps).filter fun e => 2 ≤ 2 - e.1).getLast? = some (0, .bool true) ∧
      (((call .delay 0 (.initial .delay) args).after cs).eval c).1 = .error .valueUnavailable := by
  intro args cs c steps
  have hwait : (Value.num 2).toInt = 2 := by decide +kernel
  have happlied : applications args cs =
      (crowd Func.delayCapacity).map fun s => { now := s.1, args := [s.2, .num 2] } :=
    applications_delayContext 6 (.num 2) (crowd Func.delayCapacity)
  have hargs : (evalArgs c (argsAfter args cs)).1 = .ok [.bool true, .num 2] := by
    rw [argsAfter_delayContext]
    rfl
  have hsteps : steps = overflow := by
    have hcrowd : delaySteps (applications args cs) = crowd Func.delayCapacity := by
      rw [happlied, delaySteps, List.filterMap_map]
      exact List.filterMap_some
    rw [overflow, ← hcrowd]
  refine ⟨hargs, hwait, ?_, ?_, ?_, ?_, ?_⟩
  · intro a ha
    rw [happlied] at ha
    obtain ⟨s, -, rfl⟩ := List.mem_map.mp ha
    rfl
  · rw [hsteps]
    exact overflow_order
  · intro before s hpre
    rw [hsteps] at hpre
    exact countP_overflow_le hpre
  · rw [hsteps, transitions_overflow, filter_overflow]
    rfl
  · have heval := eval_after_call (f := .delay) (by decide) 0 (.initial .delay) cs hargs
    rw [happlied, stateAfter_crowd (Nat.le_refl _) hwait] at heval
    simp only [heval, Func.apply]
    exact evalDelay_crowd hwait

end Expr

end ControlNode
