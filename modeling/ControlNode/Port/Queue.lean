/-!
# Bounded queues

A queue that never blocks its producers: a full queue gives up its oldest item for a new
one, and a closed queue hands new items back. Consumers that find the queue empty wait; they
are woken one at a time, the longest waiting first, or all together when the queue closes.
-/

namespace ControlNode

/-! ### Queues -/

/-- A first-in first-out queue of at most `capacity` items. -/
structure BoundedQueue (α : Type) where
  capacity : Nat
  items : List α := []
  closed : Bool := false

inductive PushResult (α : Type) where
  | stored
  /-- Stored in place of the oldest item. -/
  | evicted (oldest : α)
  /-- Handed back by a closed queue. -/
  | rejected

def PushResult.dropped {α : Type} : PushResult α → List α
  | .evicted oldest => [oldest]
  | _ => []

namespace BoundedQueue

variable {α : Type}

/-- An empty queue; it holds at least one item. -/
def create (capacity : Nat) : BoundedQueue α := { capacity := max capacity 1 }

def push (q : BoundedQueue α) (a : α) : PushResult α × BoundedQueue α :=
  if q.closed then (.rejected, q)
  else match q.items with
    | oldest :: rest =>
      if q.capacity ≤ q.items.length then
        (.evicted oldest, { q with items := rest ++ [a] })
      else (.stored, { q with items := q.items ++ [a] })
    | [] => (.stored, { q with items := [a] })

theorem push_of_closed (q : BoundedQueue α) (a : α) (h : q.closed = true) :
    q.push a = (.rejected, q) := by
  simp [push, h]

theorem dropped_append_items_push (q : BoundedQueue α) (a : α) (h : q.closed = false) :
    (q.push a).1.dropped ++ (q.push a).2.items = q.items ++ [a] := by
  obtain ⟨capacity, items, closed⟩ := q
  change closed = false at h
  subst h
  cases items with
  | nil => rfl
  | cons oldest rest =>
    simp only [push, Bool.false_eq_true, if_false]
    split <;> simp [PushResult.dropped]

theorem length_items_push_le (q : BoundedQueue α) (a : α) (hc : 0 < q.capacity)
    (hl : q.items.length ≤ q.capacity) : (q.push a).2.items.length ≤ q.capacity := by
  obtain ⟨capacity, items, closed⟩ := q
  cases closed with
  | true => exact hl
  | false =>
    cases items with
    | nil => exact hc
    | cons oldest rest =>
      simp only [push, Bool.false_eq_true, if_false]
      split
      · simpa using hl
      · rename_i h
        simp only [List.length_append, List.length_cons, List.length_nil] at h ⊢
        omega

def pop (q : BoundedQueue α) : Option (α × BoundedQueue α) :=
  match q.items with
  | a :: rest => some (a, { q with items := rest })
  | [] => none

theorem items_of_pop (q r : BoundedQueue α) (a : α) (h : q.pop = some (a, r)) :
    q.items = a :: r.items := by
  unfold pop at h
  split at h
  · rename_i b rest hi
    simp only [Option.some.injEq, Prod.mk.injEq] at h
    obtain ⟨rfl, rfl⟩ := h
    exact hi
  · exact absurd h (by simp)

def head? (q : BoundedQueue α) : Option α := q.items.head?

def close (q : BoundedQueue α) : List α × BoundedQueue α :=
  (q.items, { q with items := [], closed := true })

end BoundedQueue

/-! ### Waiting consumers -/

inductive Consumer (α : Type) where
  | waiting
  /-- It has taken an item, or found the queue closed. -/
  | served (item : Option α)

/-- A queue with consumers that each wait for one item. A wake-up that finds nobody waiting
is kept as one permit. -/
structure ServedQueue (α : Type) where
  queue : BoundedQueue α
  permit : Bool := false
  /-- Consumers that wait for a wake-up, the longest waiting first. -/
  asleep : List Nat := []
  /-- Consumers that are about to look for an item. -/
  awake : List Nat := []
  /-- All consumers in the order in which they came. -/
  consumers : List (Nat × Consumer α) := []

namespace ServedQueue

variable {α : Type}

def create (capacity : Nat) : ServedQueue α := { queue := .create capacity }

/-- Wakes the longest waiting consumer, or keeps the wake-up. -/
def notifyOne (s : ServedQueue α) : ServedQueue α :=
  match s.asleep with
  | c :: cs => { s with asleep := cs, awake := s.awake ++ [c] }
  | [] => { s with permit := true }

def notifyAll (s : ServedQueue α) : ServedQueue α :=
  { s with asleep := [], awake := s.awake ++ s.asleep }

def push (s : ServedQueue α) (a : α) : PushResult α × ServedQueue α :=
  match s.queue.push a with
  | (.rejected, q) => (.rejected, { s with queue := q })
  | (r, q) => (r, notifyOne { s with queue := q })

def tryPop (s : ServedQueue α) : Option α × ServedQueue α :=
  match s.queue.pop with
  | some (a, q) => (some a, { s with queue := q })
  | none => (none, s)

def close (s : ServedQueue α) : List α × ServedQueue α :=
  let (rest, q) := s.queue.close
  (rest, notifyAll { s with queue := q })

/-- A new consumer, about to look for an item. -/
def arrive (s : ServedQueue α) : ServedQueue α :=
  let id := s.consumers.length
  { s with awake := s.awake ++ [id], consumers := s.consumers ++ [(id, .waiting)] }

def serve (s : ServedQueue α) (id : Nat) (item : Option α) : ServedQueue α :=
  { s with consumers := s.consumers.map fun c => if c.1 = id then (id, .served item) else c }

/-- One consumer looks for an item and falls asleep where there is none. -/
def look (s : ServedQueue α) (id : Nat) : ServedQueue α :=
  if s.queue.closed then s.serve id none
  else match s.queue.pop with
    | some (a, q) => { s with queue := q }.serve id (some a)
    | none => { s with permit := false, asleep := s.asleep ++ [id] }

/-- Lets the awake consumers look for an item one after another, until all are served or
asleep. Looking wakes nobody. -/
def settle (s : ServedQueue α) : ServedQueue α :=
  s.awake.foldl look { s with awake := [] }

end ServedQueue

end ControlNode
