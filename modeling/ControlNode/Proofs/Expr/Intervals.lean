import ControlNode.Expr.Eval
import Mathlib.Data.List.Basic

/-!
# Intervals of the day

An interval is given by two times of day, both of which belong to it. On the circle of the day a
second lies in it if it is reached from the start no later than the end is (`apply_hmsInterval`),
also where the interval passes midnight. The seconds are those of local time: two zones may answer
differently at one time (`apply_hmsInterval_east`).
-/

namespace ControlNode.Func

def daySeconds : Int := 86400

/-- Whether a second is reached from `start`, going round the day, no later than `stop` is. -/
def IsBetween (start stop s : Int) : Prop := (s - start) % daySeconds ≤ (stop - start) % daySeconds

instance (start stop s : Int) : Decidable (IsBetween start stop s) :=
  inferInstanceAs (Decidable (_ ≤ _))

/-! ### Seconds -/

def secondsAt (h m s : Value) : Int := h.toInt * 3600 + m.toInt * 60 + s.toInt

theorem insideInterval_iff {start stop s : Int} (hstart : 0 ≤ start ∧ start < daySeconds)
    (hstop : 0 ≤ stop ∧ stop < daySeconds) (hs : 0 ≤ s ∧ s < daySeconds) :
    insideInterval start stop s = true ↔ IsBetween start stop s := by
  have hround {a b : Int} (ha : 0 ≤ a ∧ a < daySeconds) (hb : 0 ≤ b ∧ b < daySeconds) :
      (b - a) % daySeconds = if a ≤ b then b - a else b - a + daySeconds := by
    unfold daySeconds at *
    split <;> omega
  unfold IsBetween
  rw [hround hstart hs, hround hstart hstop]
  unfold insideInterval
  by_cases hle : start ≤ stop
  · simp only [if_pos hle, Bool.and_eq_true, decide_eq_true_eq]
    split <;> omega
  -- the interval passes midnight
  · simp only [if_neg hle, Bool.or_eq_true, decide_eq_true_eq]
    unfold daySeconds at *
    split <;> omega

/-! ### Limits -/

def timeLimits : List Int := [24, 60, 60, 24, 60, 60]

/-- A number that is negative or not below its limit. -/
def IsOutside (v : Value) (limit : Int) : Prop := v.toInt < 0 ∨ limit ≤ v.toInt

instance (v : Value) (limit : Int) : Decidable (IsOutside v limit) :=
  inferInstanceAs (Decidable (_ ∨ _))

theorem firstOutside_of_inside {l : List (Value × Int)} (h : ∀ e ∈ l, ¬ IsOutside e.1 e.2)
    (index : Nat) : firstOutside index l = none := by
  induction l generalizing index with
  | nil => rfl
  | cons e rest ih =>
    have he : ¬ IsOutside e.1 e.2 := h e List.mem_cons_self
    exact (if_neg he).trans (ih (fun e he => h e (List.mem_cons_of_mem _ he)) (index + 1))

theorem firstOutside_of_outside {front back : List (Value × Int)} {v : Value} {limit : Int}
    (hfront : ∀ e ∈ front, ¬ IsOutside e.1 e.2) (hv : IsOutside v limit) (index : Nat) :
    firstOutside index (front ++ (v, limit) :: back) =
      some (.badArgument (index + front.length) v) := by
  induction front generalizing index with
  | nil => exact if_pos hv
  | cons e rest ih =>
    have he : ¬ IsOutside e.1 e.2 := hfront e List.mem_cons_self
    have hrest := ih (fun e he => hfront e (List.mem_cons_of_mem _ he)) (index + 1)
    rw [Nat.add_assoc, Nat.add_comm 1] at hrest
    exact (if_neg he).trans hrest

/-- The argument at a place is outside its limit, and none before it is. -/
structure IsFirstOutside (args : List Value) (place : Nat) (v : Value) (limit : Int) : Prop where
  at_place : (args.zip timeLimits)[place]? = some (v, limit)
  outside : IsOutside v limit
  before : ∀ e ∈ (args.zip timeLimits).take place, ¬ IsOutside e.1 e.2

theorem firstOutside_of_first {args : List Value} {place : Nat} {v : Value} {limit : Int}
    (h : IsFirstOutside args place v limit) :
    firstOutside 0 (args.zip timeLimits) = some (.badArgument place v) := by
  obtain ⟨hlt, hget⟩ := List.getElem?_eq_some_iff.mp h.at_place
  have hsplit : args.zip timeLimits =
      (args.zip timeLimits).take place ++ (v, limit) :: (args.zip timeLimits).drop (place + 1) := by
    rw [← hget, List.getElem_cons_drop, List.take_append_drop]
  have hlength : ((args.zip timeLimits).take place).length = place :=
    List.length_take_of_le (Nat.le_of_lt hlt)
  rw [hsplit, firstOutside_of_outside h.before h.outside, hlength, Nat.zero_add]

/-! ### Intervals -/

section Interval

variable {h₁ m₁ s₁ h₂ m₂ s₂ : Value}

theorem secondsAt_bounds {h m s : Value} (hh : ¬ IsOutside h 24) (hm : ¬ IsOutside m 60)
    (hs : ¬ IsOutside s 60) : 0 ≤ secondsAt h m s ∧ secondsAt h m s < daySeconds := by
  unfold IsOutside at hh hm hs
  unfold secondsAt daySeconds
  omega

theorem hmsInside_eq (now : Int) (zone : Zone) : hmsInside [h₁, m₁, s₁, h₂, m₂, s₂] now zone =
    match firstOutside 0 ([h₁, m₁, s₁, h₂, m₂, s₂].zip timeLimits) with
    | some e => .error e
    | none =>
      if Calendar.inRange now then
        truth (insideInterval (secondsAt h₁ m₁ s₁) (secondsAt h₂ m₂ s₂)
          (Calendar.secondOfDay (zone.clock now)))
      else .error .valueUnavailable := rfl

end Interval

/-- An interval reports the first argument that is outside its limit. With all arguments within
their limits it holds exactly at the seconds between its two ends, in the order of the circle. -/
theorem apply_hmsInterval (h₁ m₁ s₁ h₂ m₂ s₂ : Value) (state : NodeState) (zone : Zone) {now : Int}
    (hnow : Calendar.inRange now = true) :
    (∀ place v limit, IsFirstOutside [h₁, m₁, s₁, h₂, m₂, s₂] place v limit →
      apply .hmsInterval [h₁, m₁, s₁, h₂, m₂, s₂] state now zone =
        (.error (.badArgument place v), state)) ∧
    ((∀ e ∈ [h₁, m₁, s₁, h₂, m₂, s₂].zip timeLimits, ¬ IsOutside e.1 e.2) →
      apply .hmsInterval [h₁, m₁, s₁, h₂, m₂, s₂] state now zone =
        (.ok (.bool (decide (IsBetween (secondsAt h₁ m₁ s₁) (secondsAt h₂ m₂ s₂)
          (Calendar.secondOfDay (zone.clock now))))), state)) := by
  have happly : apply .hmsInterval [h₁, m₁, s₁, h₂, m₂, s₂] state now zone =
      (hmsInside [h₁, m₁, s₁, h₂, m₂, s₂] now zone, state) := rfl
  rw [happly, hmsInside_eq]
  constructor
  · intro place v limit hfirst
    rw [firstOutside_of_first hfirst]
  · intro hinside
    have hstart := secondsAt_bounds (hinside (h₁, 24) (by simp [timeLimits]))
      (hinside (m₁, 60) (by simp [timeLimits])) (hinside (s₁, 60) (by simp [timeLimits]))
    have hstop := secondsAt_bounds (hinside (h₂, 24) (by simp [timeLimits]))
      (hinside (m₂, 60) (by simp [timeLimits])) (hinside (s₂, 60) (by simp [timeLimits]))
    have hiff := insideInterval_iff hstart hstop (Calendar.secondOfDay_bounds (zone.clock now))
    rw [firstOutside_of_inside hinside]
    simp only [hnow, if_true, truth]
    rw [Bool.eq_iff_iff.mpr (hiff.trans decide_eq_true_iff.symm)]

/-- A zone whose clocks are an hour ahead, and two hours in the summer of 2024. -/
def summery : Zone := { first := 3600, changes := [(1711846800, 7200), (1729990800, 3600)] }

/-- From eleven at night to one, an hour and a half before 1970; and an hour that no day has. -/
theorem apply_hmsInterval_night :
    Calendar.inRange (-5400000) = true ∧
      apply .hmsInterval [.num 23, .num 0, .num 0, .num 1, .num 0, .num 0] .none (-5400000)
        summery = (.ok (.bool true), .none) ∧
      apply .hmsInterval [.num 23, .num 0, .num 0, .num 25, .num 60, .num 0] .none (-5400000)
        summery = (.error (.badArgument 3 (.num 25)), .none) := by
  have hnow : Calendar.inRange (-5400000) = true := by decide
  have hbetween : IsBetween (secondsAt (.num 23) (.num 0) (.num 0))
      (secondsAt (.num 1) (.num 0) (.num 0))
      (Calendar.secondOfDay (summery.clock (-5400000))) := by
    decide +kernel
  refine ⟨hnow, ?_, ?_⟩
  · have hinside := (apply_hmsInterval (.num 23) (.num 0) (.num 0) (.num 1) (.num 0) (.num 0)
      .none summery hnow).2 (by decide +kernel)
    rw [hinside, decide_eq_true hbetween]
  · exact (apply_hmsInterval (.num 23) (.num 0) (.num 0) (.num 25) (.num 60) (.num 0) .none
      summery hnow).1 3 (.num 25) 24 ⟨rfl, by decide +kernel, by decide +kernel⟩

/-- Twelve hours ahead of UTC, the morning is over when it begins there. -/
theorem apply_hmsInterval_east :
    Calendar.inRange 0 = true ∧
      IsBetween (secondsAt (.num 0) (.num 0) (.num 0)) (secondsAt (.num 11) (.num 59) (.num 59))
        (Calendar.secondOfDay 0) ∧
      apply .hmsInterval [.num 0, .num 0, .num 0, .num 11, .num 59, .num 59] .none 0
        { first := 43200 } = (.ok (.bool false), .none) :=
  ⟨by decide, by decide +kernel, Prod.ext (by decide +kernel) rfl⟩

end ControlNode.Func
