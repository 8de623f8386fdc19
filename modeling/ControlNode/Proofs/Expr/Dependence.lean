import ControlNode.Proofs.Expr.WellFormed

/-!
# Dependencies are enough

Two contexts that agree on the dependencies of an expression are the same to it, whatever its
calls remember (`eval_after_eq_of_agreeOn_deps`).
-/

namespace ControlNode

/-! ### Times of one second -/

/-- Two times within one whole second of the calendar. -/
structure SameSecond (a b : Int) : Prop where
  second : Calendar.secondOf a = Calendar.secondOf b
  left : Calendar.inRange a = true
  right : Calendar.inRange b = true

/-- Whether a clock shows the same at two times. -/
def Clock.Same : Clock → Int → Int → Prop
  | .none, _, _ => True
  | .seconds, a, b => SameSecond a b
  | .millis, a, b => a = b

namespace Calendar

variable {a b : Int}

theorem dayOf_eq (ms : Int) : dayOf ms = secondOf ms / 86400 := by
  unfold dayOf secondOf
  omega

theorem dayOf_congr (h : secondOf a = secondOf b) : dayOf a = dayOf b := by
  rw [dayOf_eq, dayOf_eq, h]

theorem secondOfDay_congr (h : secondOf a = secondOf b) : secondOfDay a = secondOfDay b := by
  rw [secondOfDay, secondOfDay, h]

theorem date_congr (h : secondOf a = secondOf b) : date a = date b := by
  rw [date, date, dayOf_congr h]

theorem weekday_congr (h : secondOf a = secondOf b) : weekday a = weekday b := by
  rw [weekday, weekday, dayOf_congr h]

theorem hour_congr (h : secondOf a = secondOf b) : hour a = hour b := by
  rw [hour, hour, secondOfDay_congr h]

theorem minute_congr (h : secondOf a = secondOf b) : minute a = minute b := by
  rw [minute, minute, secondOfDay_congr h]

theorem second_congr (h : secondOf a = secondOf b) : second a = second b := by
  rw [second, second, secondOfDay_congr h]

end Calendar

theorem Zone.clock_congr (z : Zone) {a b : Int} (h : Calendar.secondOf a = Calendar.secondOf b) :
    Calendar.secondOf (z.clock a) = Calendar.secondOf (z.clock b) := by
  have hsecond (ms : Int) :
      Calendar.secondOf (z.clock ms) =
        Calendar.secondOf ms + z.offsetAt (Calendar.secondOf ms) := by
    unfold clock
    generalize z.offsetAt (Calendar.secondOf ms) = offset
    unfold Calendar.secondOf
    omega
  rw [hsecond, hsecond, h]

namespace Func

variable {zone : Zone}

/-! ### Functions of a clock -/

/-- A calendar function reads the clock only where no time is given. -/
theorem calendar_congr {part : Int → Int} {a b : Int} (vs : List Value)
    (hpart : ∀ {a b}, Calendar.secondOf a = Calendar.secondOf b → part a = part b)
    (h : vs = [] → SameSecond a b) : calendar part vs a zone = calendar part vs b zone := by
  cases vs with
  | cons v vs => rfl
  | nil =>
    have hs := h rfl
    simp only [calendar, hs.left, hs.right, if_true, hpart (zone.clock_congr hs.second)]

theorem hmsInside_congr {a b : Int} (vs : List Value) (h : SameSecond a b) :
    hmsInside vs a zone = hmsInside vs b zone := by
  unfold hmsInside
  rw [h.left, h.right, Calendar.secondOfDay_congr (zone.clock_congr h.second)]

/-- A call depends on the time only through the clock that its function reads. -/
theorem apply_congr {f : Func} {vs : List Value} {a b : Int} (state : NodeState)
    (hcount : f.accepts vs.length = true) (h : (f.clockOfCall vs.length).Same a b) :
    f.apply vs state a zone = f.apply vs state b zone := by
  have hmillis (hc : f.clockOfCall vs.length = .millis) : a = b := by
    rw [hc] at h
    exact h
  have hseconds (hc : f.clockOfCall vs.length = .seconds) : SameSecond a b := by
    rw [hc] at h
    exact h
  have hpart (part : Int → Int) (hf : f.signature.clock = .seconds)
      (hp : ∀ {a b}, Calendar.secondOf a = Calendar.secondOf b → part a = part b) :
      calendar part vs a zone = calendar part vs b zone := by
    apply calendar_congr vs hp
    intro hvs
    apply hseconds
    simp only [clockOfCall, hf, hvs, List.length_nil, true_or, if_true]
  have hdate (field : Calendar.Date → Int) (hf : f.signature.clock = .seconds) :
      calendar (fun ms => field (Calendar.date ms)) vs a zone =
        calendar (fun ms => field (Calendar.date ms)) vs b zone :=
    hpart _ hf fun hs => congrArg field (Calendar.date_congr hs)
  -- one group of functions for each clock; the others never look at the time
  cases f with
  | timeMs | millisecond | held | delay => rw [hmillis rfl]
  | time =>
    have hnil : vs.length = 0 := by
      simpa [accepts, signature] using hcount
    have hs := hseconds (by rw [hnil]; rfl)
    simp only [apply, compute, hs.second]
  | year => simp only [apply, compute, hdate Calendar.Date.year rfl]
  | month => simp only [apply, compute, hdate Calendar.Date.month rfl]
  | day => simp only [apply, compute, hdate Calendar.Date.day rfl]
  | dow => simp only [apply, compute, hpart _ rfl Calendar.weekday_congr]
  | hour => simp only [apply, compute, hpart _ rfl Calendar.hour_congr]
  | minute => simp only [apply, compute, hpart _ rfl Calendar.minute_congr]
  | second => simp only [apply, compute, hpart _ rfl Calendar.second_congr]
  | hmsInterval =>
    have hs := hseconds (by simp [clockOfCall, signature])
    simp only [apply, compute, hmsInside_congr vs hs]
  | _ => rfl

end Func

/-! ### Contexts that agree -/

/-- Contexts of one zone that show the same values and, as far as they are asked for, the same
times. -/
structure EvalContext.AgreeOn (deps : List Dep) (c₁ c₂ : EvalContext) : Prop where
  values : ∀ id, .port id ∈ deps → c₁.valueOf id = c₂.valueOf id
  millis : .timeMs ∈ deps → c₁.now = c₂.now
  seconds : .time ∈ deps → SameSecond c₁.now c₂.now
  zone : c₁.zone = c₂.zone

theorem EvalContext.AgreeOn.mono {deps few : List Dep} {c₁ c₂ : EvalContext}
    (h : EvalContext.AgreeOn deps c₁ c₂) (hsub : few ⊆ deps) :
    EvalContext.AgreeOn few c₁ c₂ :=
  ⟨fun id hid => h.values id (hsub hid), fun ht => h.millis (hsub ht),
    fun ht => h.seconds (hsub ht), h.zone⟩

theorem EvalContext.AgreeOn.clock {clock : Clock} {c₁ c₂ : EvalContext}
    (h : EvalContext.AgreeOn (Dep.ofClock clock) c₁ c₂) : clock.Same c₁.now c₂.now := by
  cases clock with
  | none => trivial
  | seconds => exact h.seconds (List.mem_singleton_self _)
  | millis => exact h.millis (List.mem_singleton_self _)

namespace Expr

theorem mentions_subset_deps (e : Expr) : e.mentions ⊆ e.deps := by
  intro d hd
  have hne : e.mentions.isEmpty = false := by
    rw [List.isEmpty_eq_false_iff]
    exact List.ne_nil_of_mem hd
  rw [deps, hne]
  exact (DepSet.mem_ofList d e.mentions).mpr hd

theorem mem_mentions_of_deps {e : Expr} {id : String} (h : .port id ∈ e.deps) :
    .port id ∈ e.mentions := by
  unfold deps at h
  split at h
  · simp at h
  · exact (DepSet.mem_ofList _ _).mp h

/-! ### Evaluation in contexts that agree -/

theorem evalArgs_congr {c₁ c₂ : EvalContext} {args : List Expr}
    (h : ∀ a ∈ args, eval c₁ a = eval c₂ a) : evalArgs c₁ args = evalArgs c₂ args := by
  induction args with
  | nil => rfl
  | cons e es ih =>
    have he := h e (List.mem_cons_self ..)
    have hes := ih fun a ha => h a (List.mem_cons_of_mem e ha)
    simp only [evalArgs, he, hes]

/-- A well-formed tree cannot tell contexts apart that agree on what it mentions. -/
theorem eval_congr {selfId : String} {e : Expr} {c₁ c₂ : EvalContext}
    (hwf : WellFormed selfId e) (h : EvalContext.AgreeOn e.mentions c₁ c₂) :
    eval c₁ e = eval c₂ e := by
  induction e using induct with
  | const v => rfl
  | ref r =>
    have hval := h.values r.id (List.mem_singleton_self _)
    simp only [eval, hval]
  | call f pos state args ih =>
    rw [mentions_call] at h
    have hclock := (h.mono (List.subset_append_left _ _)).clock
    have hargs (a : Expr) (ha : a ∈ args) : eval c₁ a = eval c₂ a := by
      apply ih a ha (hwf.arg ha)
      apply h.mono
      intro d hd
      exact List.mem_append_right _ (List.mem_flatMap.mpr ⟨a, ha, hd⟩)
    rcases cond_or_strict f args with ⟨rfl, test, yes, no, rest, rfl⟩ | hstrict
    · have htest := hargs test (by simp)
      have hyes := hargs yes (by simp)
      have hno := hargs no (by simp)
      rw [eval_cond, eval_cond, htest, hyes, hno]
    · rw [eval_strict c₁ pos state hstrict, eval_strict c₂ pos state hstrict,
        evalArgs_congr hargs]
      split
      · rfl
      · rename_i vs args' hvs
        have hlen := length_of_evalArgs hvs
        rw [← hlen] at hclock
        have hcount := hwf.accepts
        rw [← hlen] at hcount
        rw [Func.apply_congr state hcount hclock, h.zone]

/-- The dependencies of an expression are all it depends on: after any evaluations, contexts
that agree on them give the same result and leave the same memories. -/
theorem eval_after_eq_of_agreeOn_deps {source selfId : String} {e : Expr}
    {c₁ c₂ : EvalContext} (hparse : parse source selfId = .ok e)
    (h : EvalContext.AgreeOn e.deps c₁ c₂) (history : List EvalContext) :
    (e.after history).eval c₁ = (e.after history).eval c₂ := by
  have hwf := (wellFormed_of_parse hparse).after history
  apply eval_congr hwf
  rw [mentions_after]
  exact h.mono e.mentions_subset_deps

/-- The port `z` and the milliseconds within a second are nothing to an hour. -/
theorem eval_after_eq_within_second :
    ∃ e, parse "IF($a, HYST($b, $, $), HOUR())" "me" = .ok e ∧
      EvalContext.AgreeOn e.deps (.ofValues [("a", .bool true), ("z", .bool true)] 1200)
        (.ofValues [("a", .bool true)] 1900) ∧
      ∀ history : List EvalContext,
        (e.after history).eval (.ofValues [("a", .bool true), ("z", .bool true)] 1200) =
          (e.after history).eval (.ofValues [("a", .bool true)] 1900) := by
  have hparse : parse "IF($a, HYST($b, $, $), HOUR())" "me" = .ok (.call .cond 0 .none
      [.ref ⟨"a", false, 3⟩,
        .call .hyst 7 (.hyst false) [.ref ⟨"b", false, 12⟩, .ref ⟨"me", true, 16⟩,
          .ref ⟨"me", true, 19⟩],
        .call .hour 23 .none []]) := by cbv
  refine ⟨_, hparse, ?_⟩
  refine (fun hagree => ⟨hagree, eval_after_eq_of_agreeOn_deps hparse hagree⟩) ⟨?_, ?_, ?_, ?_⟩
  · intro id hid
    have hports : id ∈ ["a", "b", "me"] := (DepSet.mem_portIds id _).mpr hid
    have hids : id = "a" ∨ id = "b" ∨ id = "me" := by simpa using hports
    rcases hids with rfl | rfl | rfl
    · decide
    · decide
    · decide
  · intro ht
    exact absurd ht (by decide)
  · intro _
    exact ⟨by decide, by decide, by decide⟩
  · rfl

end Expr

end ControlNode
