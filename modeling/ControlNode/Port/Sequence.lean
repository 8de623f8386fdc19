import ControlNode.Port.Error

/-!
# Sequences of values

Values to be written one after another, each followed by a pause, the whole list some number
of times, or for ever.
-/

namespace ControlNode

/-- A sequence of values with pauses in milliseconds; `rounds` is zero for ever. -/
structure Sequence where
  steps : List (Value × Nat)
  rounds : Nat
  deriving Repr, DecidableEq

namespace Sequence

/-- Pairs values with pauses; there is at least one value and one pause for each. -/
def create (values : List Value) (pauses : List Nat) (rounds : Nat) :
    Except PortError Sequence :=
  if values.isEmpty then .error (.invalidValue .emptySequence)
  else if values.length = pauses.length then .ok ⟨values.zip pauses, rounds⟩
  else .error (.invalidValue (.unpaired values.length pauses.length))

def values (s : Sequence) : List Value := s.steps.map Prod.fst

end Sequence

/-- How far a sequence has come: the steps that remain in this round and the rounds done. -/
structure SequenceRun where
  sequence : Sequence
  remaining : List (Value × Nat)
  done : Nat
  deriving Repr, DecidableEq

namespace SequenceRun

def start (s : Sequence) : SequenceRun := ⟨s, s.steps, 0⟩

/-- The next step and the run behind it; none where the sequence has ended. -/
def next? (r : SequenceRun) : Option ((Value × Nat) × SequenceRun) :=
  match r.remaining with
  | step :: rest => some (step, { r with remaining := rest })
  | [] =>
    let done := r.done + 1
    if r.sequence.rounds ≠ 0 ∧ r.sequence.rounds ≤ done then none
    else match r.sequence.steps with
      | step :: rest => some (step, { r with remaining := rest, done := done })
      | [] => none

end SequenceRun

end ControlNode
