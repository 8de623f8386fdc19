import ControlNode.Expr.Basic

/-!
# Dependencies

What an expression depends on: the values of ports, the wall clock, or nothing at all, in
which case it is due at every tick.
-/

namespace ControlNode

inductive Dep where
  | port (id : String)
  /-- The wall clock in whole seconds. -/
  | time
  /-- The wall clock in milliseconds. -/
  | timeMs
  /-- Nothing else: due at every tick. -/
  | asap
  deriving Repr, DecidableEq

namespace Dep

/-- Ports come first, by id, then the clocks. -/
def precedes : Dep → Dep → Bool
  | .port a, .port b => a < b
  | .port _, _ => true
  | _, .port _ => false
  | .time, .time => false
  | .time, _ => true
  | .timeMs, .asap => true
  | _, _ => false

def text : Dep → String
  | .port id => "$" ++ id
  | .time => "time"
  | .timeMs => "time_ms"
  | .asap => "asap"

def portId? : Dep → Option String
  | .port id => some id
  | _ => none

/-- Whether every tick brings it about, whatever the values. -/
def isTick : Dep → Bool
  | .asap | .timeMs => true
  | _ => false

def ofClock : Clock → List Dep
  | .none => []
  | .seconds => [.time]
  | .millis => [.timeMs]

end Dep

abbrev DepSet := List Dep

namespace DepSet

def insert (d : Dep) : DepSet → DepSet
  | [] => [d]
  | e :: es => if d = e then e :: es else if d.precedes e then d :: e :: es else e :: insert d es

def ofList (ds : List Dep) : DepSet := ds.foldr insert []

theorem mem_insert (d e : Dep) (s : DepSet) : e ∈ insert d s ↔ e = d ∨ e ∈ s := by
  induction s with
  | nil => simp [insert]
  | cons a s ih =>
    unfold insert
    split
    · rename_i h
      subst h
      simp
    · split
      · simp
      · simp only [List.mem_cons, ih]
        constructor
        · rintro (h | h | h) <;> simp [h]
        · rintro (h | h | h) <;> simp [h]

theorem mem_ofList (e : Dep) (ds : List Dep) : e ∈ ofList ds ↔ e ∈ ds := by
  induction ds with
  | nil => simp [ofList]
  | cons d ds ih =>
    change e ∈ insert d (ofList ds) ↔ e ∈ d :: ds
    rw [mem_insert, ih, List.mem_cons]

def portIds (s : DepSet) : List String := s.filterMap Dep.portId?

theorem mem_portIds (id : String) (s : DepSet) : id ∈ s.portIds ↔ Dep.port id ∈ s := by
  unfold portIds
  rw [List.mem_filterMap]
  constructor
  · rintro ⟨d, hd, h⟩
    cases d with
    | port a =>
      simp only [Dep.portId?, Option.some.injEq] at h
      exact h ▸ hd
    | time => simp [Dep.portId?] at h
    | timeMs => simp [Dep.portId?] at h
    | asap => simp [Dep.portId?] at h
  · intro h
    exact ⟨_, h, rfl⟩

end DepSet

namespace Expr

mutual

/-- The ports and clocks that an expression mentions, left to right. -/
def mentions : Expr → List Dep
  | .const _ => []
  | .ref r => [.port r.id]
  | .call f _ _ args => Dep.ofClock (f.clockOfCall args.length) ++ mentionsOfArgs args
termination_by structural e => e

def mentionsOfArgs : List Expr → List Dep
  | [] => []
  | e :: es => mentions e ++ mentionsOfArgs es
termination_by structural es => es

end

/-- The dependencies of an expression; `asap` where it mentions nothing. -/
def deps (e : Expr) : DepSet :=
  if e.mentions.isEmpty then [.asap] else .ofList e.mentions

end Expr

end ControlNode
