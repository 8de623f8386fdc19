import ControlNode.Dict

/-!
# Sets with expiring members

A member stays in the set for a fixed time after it was last added.
-/

namespace ControlNode

structure ExpirySet where
  /-- How long a member stays, in milliseconds. -/
  lifetime : Nat
  members : Dict String Nat := []

namespace ExpirySet

def insert (s : ExpirySet) (key : String) (now : Nat) : ExpirySet :=
  { s with members := Dict.insert s.members key (now + s.lifetime) }

def erase (s : ExpirySet) (key : String) : ExpirySet :=
  { s with members := Dict.erase s.members key }

def contains (s : ExpirySet) (key : String) (now : Nat) : Bool :=
  (Dict.get? s.members key).any (now < ·)

theorem contains_erase (s : ExpirySet) (key other : String) (now : Nat) :
    (s.erase key).contains other now = (decide (key ≠ other) && s.contains other now) := by
  unfold contains erase
  rw [Dict.get?_erase]
  by_cases h : key = other <;> simp [h]

def prune (s : ExpirySet) (now : Nat) : ExpirySet :=
  { s with members := s.members.filter fun e => now < e.2 }

def size (s : ExpirySet) (now : Nat) : Nat := (s.prune now).members.length

end ExpirySet

end ControlNode
