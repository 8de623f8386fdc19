import ControlNode.Proofs.Port.Pipeline
import Mathlib.Data.List.Perm.Basic
import Mathlib.Data.List.TakeWhile

/-!
# Queues and those who wait for their items

Producers, consumers that wait, and a stop act on one queue in any order, and consumers that
have been woken take their turns in any order. A ledger (`QueueLedger`) records what the queue
has accepted and refused, and what has left it in which way. Everything that was accepted is
accounted for, and no wake-up is lost: a consumer sleeps only while there are at least as many
others awake as items left.
-/

namespace ControlNode

variable {α : Type}

/-! ### Consumers -/

namespace Consumer

def item? : Consumer α → Option α
  | .served item => item
  | .waiting => none

def serving? (c : Nat × Consumer α) : Option (Nat × α) := c.2.item?.map (Prod.mk c.1)

theorem serving?_split (before after : List (Nat × Consumer α)) (id : Nat) (item : Option α) :
    ((before ++ (id, .served item) :: after).filterMap serving?).Perm
      ((before ++ (id, .waiting) :: after).filterMap serving? ++ item.toList.map (Prod.mk id)) := by
  simp only [serving?, item?, List.filterMap_append, List.filterMap_cons, Option.map_none]
  cases item with
  | none => simp
  | some a => exact List.perm_middle.trans (List.perm_append_singleton _ _).symm

end Consumer

namespace ServedQueue

variable (s : ServedQueue α)

/-- The consumers that have got an item, in the order in which they came. -/
def servings : List (Nat × α) :=
  s.consumers.filterMap Consumer.serving?

theorem look_with_awake (ids : List Nat) (id : Nat) :
    { s with awake := ids }.look id = { s.look id with awake := ids } := by
  simp only [look]
  split
  · rfl
  · split <;> rfl

theorem look_of_closed (id : Nat) (hc : s.queue.closed = true) : s.look id = s.serve id none :=
  if_pos hc

theorem look_of_item (id : Nat) (hc : s.queue.closed = false) {a : α} {items : List α}
    (hi : s.queue.items = a :: items) :
    s.look id = { s with queue := { s.queue with items := items } }.serve id (some a) := by
  simp only [look, hc, Bool.false_eq_true, if_false, BoundedQueue.pop, hi]

theorem look_of_empty (id : Nat) (hc : s.queue.closed = false) (hi : s.queue.items = []) :
    s.look id = { s with permit := false, asleep := s.asleep ++ [id] } := by
  simp only [look, hc, Bool.false_eq_true, if_false, BoundedQueue.pop, hi]

@[simp] theorem look_awake (id : Nat) : (s.look id).awake = s.awake := by
  simp only [look]
  split
  · rfl
  · split <;> rfl

@[simp] theorem look_closed (id : Nat) : (s.look id).queue.closed = s.queue.closed := by
  simp only [look]
  split
  · rfl
  · split
    · rename_i hpop
      unfold BoundedQueue.pop at hpop
      split at hpop
      · cases hpop
        rfl
      · cases hpop
    · rfl

theorem foldl_look_awake (ids : List Nat) : (ids.foldl look s).awake = s.awake := by
  induction ids generalizing s with
  | nil => rfl
  | cons id ids ih => rw [List.foldl_cons, ih, look_awake]

@[simp] theorem settle_awake : s.settle.awake = [] := foldl_look_awake _ _

theorem not_mem_split {before after : List (Nat × Consumer α)} {id : Nat} {c : Consumer α}
    (h : ((before ++ (id, c) :: after).map Prod.fst).Nodup) :
    id ∉ before.map Prod.fst ∧ id ∉ after.map Prod.fst := by
  rw [List.map_append, List.map_cons, List.nodup_middle, List.nodup_cons, List.mem_append,
    not_or] at h
  exact h.1

theorem serve_split {before after : List (Nat × Consumer α)} {id : Nat}
    {c : Consumer α} (hs : s.consumers = before ++ (id, c) :: after)
    (hids : (s.consumers.map Prod.fst).Nodup) (item : Option α) :
    s.serve id item = { s with consumers := before ++ (id, .served item) :: after } := by
  have hfree := not_mem_split (hs ▸ hids)
  have hother (l : List (Nat × Consumer α)) (hl : id ∉ l.map Prod.fst) :
      (l.map fun c => if c.1 = id then (id, Consumer.served item) else c) = l := by
    conv_rhs => rw [← List.map_id l]
    refine List.map_congr_left fun c hc => if_neg fun heq => hl ?_
    exact List.mem_map.mpr ⟨c, hc, heq⟩
  simp only [serve, hs, List.map_append, List.map_cons, if_true, hother before hfree.1,
    hother after hfree.2]

end ServedQueue

/-! ### The ledger -/

/-- The way in which an item leaves a queue. -/
inductive Departure (α : Type) where
  /-- Taken by a caller that does not wait. -/
  | taken (a : α)
  /-- Got by a consumer. -/
  | served (id : Nat) (a : α)
  /-- Given up by a full queue. -/
  | evicted (a : α)
  /-- Taken out by a close. -/
  | drained (a : α)

namespace Departure

def item : Departure α → α
  | .taken a | .served _ a | .evicted a | .drained a => a

def serving? : Departure α → Option (Nat × α)
  | .served id a => some (id, a)
  | _ => none

end Departure

structure QueueLedger (α : Type) where
  state : ServedQueue α
  accepted : List α := []
  /-- The items that were handed back. -/
  refused : List α := []
  /-- What has left the queue, in that order. -/
  left : List (Departure α) := []

inductive QueueCall (α : Type) where
  | push (a : α)
  | tryPop
  | close
  /-- A new consumer begins to wait for an item. -/
  | wait

inductive QueueMove (α : Type) where
  | call (c : QueueCall α)
  /-- One consumer that is awake looks for an item. -/
  | turn (id : Nat)
  /-- All consumers that are awake look for an item. -/
  | rest

namespace QueueMove

def isClose : QueueMove α → Bool
  | .call .close => true
  | _ => false

def pushed? : QueueMove α → Option α
  | .call (.push a) => some a
  | _ => none

def toRest (calls : List (QueueCall α)) : List (QueueMove α) :=
  calls.flatMap fun c => [.call c, .rest]

end QueueMove

namespace QueueLedger

def push (l : QueueLedger α) (a : α) : QueueLedger α :=
  match l.state.push a with
  | (.rejected, s) => { l with state := s, refused := l.refused ++ [a] }
  | (r, s) => { l with
      state := s
      accepted := l.accepted ++ [a]
      left := l.left ++ r.dropped.map .evicted }

def tryPop (l : QueueLedger α) : QueueLedger α :=
  { l with
    state := l.state.tryPop.2
    left := l.left ++ l.state.tryPop.1.toList.map .taken }

def close (l : QueueLedger α) : QueueLedger α :=
  { l with
    state := l.state.close.2
    left := l.left ++ l.state.close.1.map .drained }

def call (l : QueueLedger α) : QueueCall α → QueueLedger α
  | .push a => l.push a
  | .tryPop => l.tryPop
  | .close => l.close
  | .wait => { l with state := l.state.arrive }

/-- The queue while a consumer that was awake looks for an item. -/
def calling (l : QueueLedger α) (id : Nat) : ServedQueue α :=
  { l.state with awake := l.state.awake.erase id }

/-- An awake consumer looks for an item; what it then has got has left the queue. -/
def turn (l : QueueLedger α) (id : Nat) : QueueLedger α :=
  if id ∈ l.state.awake then
    let s := (l.calling id).look id
    let got := (s.consumers.lookup id).bind Consumer.item?
    { l with state := s, left := l.left ++ got.toList.map (.served id) }
  else l

def rest (l : QueueLedger α) : QueueLedger α := l.state.awake.foldl turn l

def act (l : QueueLedger α) : QueueMove α → QueueLedger α
  | .call c => l.call c
  | .turn id => l.turn id
  | .rest => l.rest

/-- The ledger of a new queue after some moves. -/
def run (capacity : Nat) (moves : List (QueueMove α)) : QueueLedger α :=
  moves.foldl act { state := .create capacity }

/-- The consumers that got an item, in the order in which they got it. -/
def servings (l : QueueLedger α) : List (Nat × α) := l.left.filterMap Departure.serving?

/-- All that is true of a queue of this capacity after these moves. -/
structure Accounted (capacity : Nat) (moves : List (QueueMove α)) (l : QueueLedger α) :
    Prop where
  bounded : l.state.queue.items.length ≤ max capacity 1
  /-- Nothing is lost, nothing comes twice, and the order is kept. -/
  complete : l.left.map Departure.item ++ l.state.queue.items = l.accepted
  /-- What was pushed before the first close was accepted. -/
  accepted : l.accepted = (moves.takeWhile (!·.isClose)).filterMap QueueMove.pushed?
  refused : l.refused = (moves.dropWhile (!·.isClose)).filterMap QueueMove.pushed?
  /-- Nothing leaves the queue after its first close. -/
  silent : l.left = (run capacity
    (moves.takeWhile (!·.isClose) ++ (moves.dropWhile (!·.isClose)).take 1)).left
  /-- Consumers have got what has left the queue for them. -/
  served : l.servings.Perm l.state.servings
  numbered : l.state.consumers.map Prod.fst = List.range l.state.consumers.length
  dismissed : ∀ id, (id, .served none) ∈ l.state.consumers → l.state.queue.closed = true
  /-- At rest, consumers are blocked only by an empty queue that is open. -/
  blocked : l.state.awake = [] → ∀ id, (id, .waiting) ∈ l.state.consumers →
    l.state.queue.items = [] ∧ l.state.queue.closed = false

/-- The consumers that have got an item, in the order in which they got it. -/
def got (l : QueueLedger α) : List (Nat × Consumer α) :=
  l.servings.map fun s => (s.1, .served (some s.2))

/-- Those who have got an item came before all others, in that order. -/
def FirstServed (l : QueueLedger α) : Prop :=
  ∃ others, (∀ c ∈ others, c.2.item? = none) ∧ l.state.consumers = l.got ++ others

structure InOrder (l : QueueLedger α) : Prop where
  rest : l.state.awake = []
  first : l.FirstServed

/-! ### One move -/

theorem push_of_closed {l : QueueLedger α} (a : α) (hc : l.state.queue.closed = true) :
    l.push a = { l with refused := l.refused ++ [a] } := by
  simp only [push, ServedQueue.push, BoundedQueue.push_of_closed _ _ hc]

theorem push_of_idle {l : QueueLedger α} (a : α) (hc : l.state.queue.closed = false)
    (hasleep : l.state.asleep = []) :
    l.push a = { l with
      state := { l.state with queue := (l.state.queue.push a).2, permit := true }
      accepted := l.accepted ++ [a]
      left := l.left ++ (l.state.queue.push a).1.dropped.map .evicted } := by
  simp only [push, ServedQueue.push, BoundedQueue.push_of_open _ _ hc]
  cases l.state.queue.oldestIfFull <;> simp only [ServedQueue.notifyOne, hasleep]

theorem push_of_asleep {l : QueueLedger α} (a : α) (hc : l.state.queue.closed = false)
    {c : Nat} {cs : List Nat} (hasleep : l.state.asleep = c :: cs) :
    l.push a = { l with
      state := { l.state with
        queue := (l.state.queue.push a).2
        asleep := cs
        awake := l.state.awake ++ [c] }
      accepted := l.accepted ++ [a]
      left := l.left ++ (l.state.queue.push a).1.dropped.map .evicted } := by
  simp only [push, ServedQueue.push, BoundedQueue.push_of_open _ _ hc]
  cases l.state.queue.oldestIfFull <;> simp only [ServedQueue.notifyOne, hasleep]

theorem lookup_split {before after : List (Nat × Consumer α)} {id : Nat} {c : Consumer α}
    (hb : id ∉ before.map Prod.fst) : (before ++ (id, c) :: after).lookup id = some c := by
  refine List.lookup_eq_some_iff.mpr ⟨before, after, rfl, fun p hp => ?_⟩
  have hne : id ≠ p.1 := fun heq => hb (List.mem_map.mpr ⟨p, hp, heq.symm⟩)
  simpa using hne

section Turns

variable {l : QueueLedger α} {id : Nat} {before after : List (Nat × Consumer α)}
  (hs : l.state.consumers = before ++ (id, .waiting) :: after)
  (hids : (l.state.consumers.map Prod.fst).Nodup) (hid : id ∈ l.state.awake)

theorem turn_of_look {s : ServedQueue α} (hid : id ∈ l.state.awake)
    (hlook : (l.calling id).look id = s) :
    l.turn id = { l with
      state := s
      left := l.left ++
        ((s.consumers.lookup id).bind Consumer.item?).toList.map (.served id) } := by
  rw [turn, if_pos hid, hlook]

include hs hids hid

theorem turn_of_closed (hc : l.state.queue.closed = true) :
    l.turn id = { l with state := { l.state with
      awake := l.state.awake.erase id
      consumers := before ++ (id, .served none) :: after } } := by
  have hlook := (ServedQueue.look_of_closed (l.calling id) id hc).trans
    ((l.calling id).serve_split hs hids none)
  rw [turn_of_look hid hlook]
  simp only [calling, lookup_split (ServedQueue.not_mem_split (hs ▸ hids)).1,
    Option.bind_some, Consumer.item?, Option.toList_none, List.map_nil, List.append_nil]

theorem turn_of_item (hc : l.state.queue.closed = false) {a : α} {items : List α}
    (hi : l.state.queue.items = a :: items) :
    l.turn id = { l with
      state := { l.state with
        queue := { l.state.queue with items := items }
        awake := l.state.awake.erase id
        consumers := before ++ (id, .served (some a)) :: after }
      left := l.left ++ [.served id a] } := by
  have hlook := (ServedQueue.look_of_item (l.calling id) id hc hi).trans
    (ServedQueue.serve_split _ (by exact hs) (by exact hids) (some a))
  rw [turn_of_look hid hlook]
  simp only [calling, lookup_split (ServedQueue.not_mem_split (hs ▸ hids)).1,
    Option.bind_some, Consumer.item?, Option.toList_some, List.map_cons, List.map_nil]

theorem turn_of_empty (hc : l.state.queue.closed = false) (hi : l.state.queue.items = []) :
    l.turn id = { l with state := { l.state with
      permit := false
      awake := l.state.awake.erase id
      asleep := l.state.asleep ++ [id] } } := by
  rw [turn_of_look hid (ServedQueue.look_of_empty (l.calling id) id hc hi)]
  simp only [calling, hs, lookup_split (ServedQueue.not_mem_split (hs ▸ hids)).1,
    Option.bind_some, Consumer.item?, Option.toList_none, List.map_nil, List.append_nil]

end Turns

/-! ### What every move keeps -/

/-- What is true of a ledger whatever has been done to its queue. -/
structure Kept (capacity : Nat) (l : QueueLedger α) : Prop where
  capacity_eq : l.state.queue.capacity = max capacity 1
  bounded : l.state.queue.items.length ≤ max capacity 1
  complete : l.left.map Departure.item ++ l.state.queue.items = l.accepted
  served : l.servings.Perm l.state.servings
  numbered : l.state.consumers.map Prod.fst = List.range l.state.consumers.length
  waiting : ∀ id, (id, .waiting) ∈ l.state.consumers ↔
    id ∈ l.state.asleep ∨ id ∈ l.state.awake
  once : (l.state.asleep ++ l.state.awake).Nodup
  dismissed : ∀ id, (id, .served none) ∈ l.state.consumers → l.state.queue.closed = true
  /-- While consumers sleep, those who are awake are enough for all items. -/
  woken : l.state.asleep ≠ [] → l.state.queue.closed = false ∧
    l.state.queue.items.length ≤ l.state.awake.length
  drained : l.state.queue.closed = true → l.state.queue.items = []

/-- What leaves the queue in another way has not been got by a consumer. -/
theorem servings_others (left : List (Departure α)) (items : List α) (way : α → Departure α)
    (hway : ∀ a, (way a).serving? = none) :
    (left ++ items.map way).filterMap Departure.serving? =
      left.filterMap Departure.serving? := by
  have hnone : (items.map way).filterMap Departure.serving? = [] :=
    List.filterMap_eq_nil_iff.mpr fun d hd => by
      obtain ⟨a, -, rfl⟩ := List.mem_map.mp hd
      exact hway a
  rw [List.filterMap_append, hnone, List.append_nil]

namespace Kept

variable {capacity : Nat} {l : QueueLedger α}

theorem nodup (h : l.Kept capacity) : (l.state.consumers.map Prod.fst).Nodup :=
  h.numbered ▸ List.nodup_range

theorem create (capacity : Nat) :
    Kept capacity { state := (.create capacity : ServedQueue α) } where
  capacity_eq := rfl
  bounded := Nat.zero_le _
  complete := rfl
  served := .refl _
  numbered := rfl
  waiting _ := by simp [ServedQueue.create]
  once := by simp [ServedQueue.create]
  dismissed _ h := absurd h (by simp [ServedQueue.create])
  woken h := absurd rfl h
  drained _ := rfl

section Turn

variable {id : Nat} {before after : List (Nat × Consumer α)}
  (hs : l.state.consumers = before ++ (id, .waiting) :: after)

include hs in
theorem waiting_served (h : l.Kept capacity) (hid : id ∈ l.state.awake) (item : Option α)
    (i : Nat) : (i, Consumer.waiting) ∈ before ++ (id, .served item) :: after ↔
      i ∈ l.state.asleep ∨ i ∈ l.state.awake.erase id := by
  have hold := h.waiting i
  have hfree := ServedQueue.not_mem_split (hs ▸ h.nodup)
  obtain ⟨-, hawake, hapart⟩ := List.nodup_append.mp h.once
  by_cases hi : i = id
  · subst hi
    have hbefore : (i, Consumer.waiting) ∉ before := fun hm => hfree.1 (List.mem_map_of_mem hm)
    have hafter : (i, Consumer.waiting) ∉ after := fun hm => hfree.2 (List.mem_map_of_mem hm)
    have hasleep : i ∉ l.state.asleep := fun hm => hapart i hm i hid rfl
    simp [hbefore, hafter, hasleep, hawake.mem_erase_iff]
  · simpa [hs, hi, List.mem_erase_of_ne hi] using hold

include hs in
theorem numbered_served (h : l.Kept capacity) (item : Option α) :
    (before ++ (id, Consumer.served item) :: after).map Prod.fst =
      List.range (before ++ (id, Consumer.served item) :: after).length := by
  have hold := h.numbered
  rw [hs] at hold
  simpa using hold

theorem once_erase (h : l.Kept capacity) : (l.state.asleep ++ l.state.awake.erase id).Nodup :=
  h.once.sublist (List.Sublist.append_left List.erase_sublist _)

end Turn

theorem turn (h : l.Kept capacity) (id : Nat) : (l.turn id).Kept capacity := by
  by_cases hid : id ∈ l.state.awake
  swap
  · rwa [QueueLedger.turn, if_neg hid]
  obtain ⟨before, after, hs⟩ := List.append_of_mem ((h.waiting id).mpr (.inr hid))
  have hserved (item : Option α) := (h.served.append_right (item.toList.map (Prod.mk id))).trans
    (hs ▸ Consumer.serving?_split before after id item).symm
  cases hc : l.state.queue.closed with
  | true =>
    rw [turn_of_closed hs h.nodup hid hc]
    exact { h with
      served := by
        simpa [ServedQueue.servings, QueueLedger.servings] using hserved none
      numbered := h.numbered_served hs none
      waiting := h.waiting_served hs hid none
      once := h.once_erase
      dismissed := fun _ _ => hc
      woken := fun hne => absurd (h.woken hne).1 (by simp [hc]) }
  | false =>
    cases hi : l.state.queue.items with
    | nil =>
      rw [turn_of_empty hs h.nodup hid hc hi]
      -- it goes back to sleep, with no item left that needs anyone awake
      have hperm : (l.state.asleep ++ [id] ++ l.state.awake.erase id).Perm
          (l.state.asleep ++ l.state.awake) := by
        rw [List.append_assoc]
        exact (List.perm_cons_erase hid).symm.append_left _
      exact { h with
        waiting := fun i => by
          rw [h.waiting i, ← List.mem_append, ← List.mem_append]
          exact hperm.mem_iff.symm
        once := hperm.nodup_iff.mpr h.once
        woken := fun _ => ⟨hc, by simp [hi]⟩ }
    | cons a items =>
      rw [turn_of_item hs h.nodup hid hc hi]
      -- for `woken`: one item less, and one less awake
      have hlen := List.length_erase_of_mem hid
      have hpos := List.length_pos_of_mem hid
      exact { h with
        bounded := by
          have hle := h.bounded
          rw [hi, List.length_cons] at hle
          exact Nat.le_of_succ_le hle
        complete := by simpa [hi, Departure.item] using h.complete
        served := by
          simpa [ServedQueue.servings, QueueLedger.servings, Departure.serving?] using
            hserved (some a)
        numbered := h.numbered_served hs (some a)
        waiting := h.waiting_served hs hid (some a)
        once := h.once_erase
        dismissed := fun i hm => h.dismissed i (by
          rw [hs]
          simpa using hm)
        woken := fun hne => by
          have hle := (h.woken hne).2
          rw [hi, List.length_cons] at hle
          exact ⟨hc, by dsimp only; omega⟩
        drained := fun hcl => absurd (hc.symm.trans hcl) (by simp) }

theorem foldl_turn (h : l.Kept capacity) (ids : List Nat) :
    (ids.foldl QueueLedger.turn l).Kept capacity := by
  induction ids generalizing l with
  | nil => exact h
  | cons id ids ih => exact ih (h.turn id)

theorem push (h : l.Kept capacity) (a : α) : (l.push a).Kept capacity := by
  cases hc : l.state.queue.closed with
  | true =>
    rw [push_of_closed a hc]
    exact { h with }
  | false =>
    have hle := BoundedQueue.length_items_push_le l.state.queue a
      (by rw [h.capacity_eq]; exact Nat.le_max_right _ _) (h.capacity_eq ▸ h.bounded)
    have hpush := BoundedQueue.dropped_append_items_push l.state.queue a hc
    have hgrown : (l.state.queue.push a).2.items.length ≤ l.state.queue.items.length + 1 := by
      have hlen := congrArg List.length hpush
      simp only [List.length_append, List.length_singleton] at hlen
      omega
    have hqueue := congrArg Prod.snd (BoundedQueue.push_of_open l.state.queue a hc)
    have hclosed : (l.state.queue.push a).2.closed = false := by rw [hqueue, ← hc]
    have hcapacity : (l.state.queue.push a).2.capacity = max capacity 1 := by
      rw [hqueue, ← h.capacity_eq]
    rw [h.capacity_eq] at hle
    have hcomplete : (l.left ++ (l.state.queue.push a).1.dropped.map Departure.evicted).map
        Departure.item ++ (l.state.queue.push a).2.items = l.accepted ++ [a] := by
      rw [List.map_append, List.map_map, List.append_assoc, ← h.complete, List.append_assoc,
        ← hpush]
      exact congrArg _ (congrArg (· ++ _) (List.map_id _))
    have hserved := (List.Perm.of_eq (servings_others l.left
      (l.state.queue.push a).1.dropped .evicted fun _ => rfl)).trans h.served
    have hdrained (hcl : (l.state.queue.push a).2.closed = true) :
        (l.state.queue.push a).2.items = [] := absurd (hclosed.symm.trans hcl) (by simp)
    have hdismissed (id : Nat) (hm : (id, .served none) ∈ l.state.consumers) :
        (l.state.queue.push a).2.closed = true :=
      absurd (hc.symm.trans (h.dismissed id hm)) (by simp)
    cases hasleep : l.state.asleep with
    | nil =>
      rw [push_of_idle a hc hasleep]
      exact { h with
        capacity_eq := hcapacity
        bounded := hle
        complete := hcomplete
        served := hserved
        dismissed := hdismissed
        woken := fun hne => absurd hasleep hne
        drained := hdrained }
    | cons c cs =>
      rw [push_of_asleep a hc hasleep]
      -- for `woken`: at most one item more, and one more awake
      have hwoken := (h.woken (by simp [hasleep])).2
      have hperm : (cs ++ (l.state.awake ++ [c])).Perm (l.state.asleep ++ l.state.awake) := by
        rw [hasleep, ← List.append_assoc]
        exact List.perm_append_singleton c _
      exact { h with
        capacity_eq := hcapacity
        bounded := hle
        complete := hcomplete
        served := hserved
        waiting := fun i => by
          rw [h.waiting i, ← List.mem_append, ← List.mem_append]
          exact hperm.mem_iff.symm
        once := hperm.nodup_iff.mpr h.once
        dismissed := hdismissed
        woken := fun _ => ⟨hclosed, by
          dsimp only
          rw [List.length_append, List.length_singleton]
          omega⟩
        drained := hdrained }

theorem tryPop (h : l.Kept capacity) : l.tryPop.Kept capacity := by
  cases hi : l.state.queue.items with
  | nil =>
    have hnone : l.state.tryPop = (none, l.state) := by
      simp only [ServedQueue.tryPop, BoundedQueue.pop, hi]
    rw [QueueLedger.tryPop, hnone]
    exact { h with
      complete := by simpa using h.complete
      served := by simpa using h.served }
  | cons a items =>
    have hsome : l.state.tryPop =
        (some a, { l.state with queue := { l.state.queue with items := items } }) := by
      simp only [ServedQueue.tryPop, BoundedQueue.pop, hi]
    have hbounded := h.bounded
    rw [hi, List.length_cons] at hbounded
    rw [QueueLedger.tryPop, hsome]
    exact { h with
      bounded := Nat.le_of_succ_le hbounded
      complete := by simpa [hi, Departure.item] using h.complete
      served := (List.Perm.of_eq (servings_others l.left [a] .taken fun _ => rfl)).trans h.served
      woken := fun hne => by
        have hwoken := h.woken hne
        rw [hi, List.length_cons] at hwoken
        exact ⟨hwoken.1, Nat.le_of_succ_le hwoken.2⟩
      drained := fun hcl => absurd (h.drained hcl) (by simp [hi]) }

theorem close (h : l.Kept capacity) : l.close.Kept capacity where
  capacity_eq := h.capacity_eq
  bounded := Nat.zero_le _
  complete := by
    have hitems : (l.state.queue.items.map Departure.drained).map Departure.item =
        l.state.queue.items := by
      rw [List.map_map]
      exact List.map_id _
    change (l.left ++ l.state.queue.items.map Departure.drained).map _ ++ [] = _
    rw [List.append_nil, List.map_append, hitems]
    exact h.complete
  served := (List.Perm.of_eq (servings_others l.left l.state.queue.items .drained fun _ =>
    rfl)).trans h.served
  numbered := h.numbered
  waiting i := by
    have hmem := h.waiting i
    rw [← List.mem_append] at hmem
    change _ ↔ i ∈ [] ∨ i ∈ l.state.awake ++ l.state.asleep
    rw [← List.mem_append]
    exact hmem.trans List.perm_append_comm.mem_iff
  once := by
    change (l.state.awake ++ l.state.asleep).Nodup
    exact List.perm_append_comm.nodup_iff.mp h.once
  dismissed _ _ := rfl
  woken hne := absurd rfl hne
  drained _ := rfl

theorem wait (h : l.Kept capacity) : { l with state := l.state.arrive }.Kept capacity := by
  -- those who came before are numbered from zero on
  have hnew : l.state.consumers.length ∉ l.state.asleep ++ l.state.awake := fun hm => by
    have hmem := List.mem_map_of_mem (f := Prod.fst)
      ((h.waiting _).mpr (List.mem_append.mp hm))
    rw [h.numbered, List.mem_range] at hmem
    exact Nat.lt_irrefl _ hmem
  exact { h with
    served := by
      change l.servings.Perm
        ((l.state.consumers ++ [(l.state.consumers.length, Consumer.waiting)]).filterMap _)
      have hnone : [(l.state.consumers.length, (Consumer.waiting : Consumer α))].filterMap
          Consumer.serving? = [] := rfl
      rw [List.filterMap_append, hnone, List.append_nil]
      exact h.served
    numbered := by
      simp only [ServedQueue.arrive, List.map_append, h.numbered, List.length_append,
        List.map_cons, List.map_nil, List.length_singleton, List.range_succ]
    waiting := fun i => by
      have hmem := h.waiting i
      simp only [ServedQueue.arrive, List.mem_append, List.mem_singleton, Prod.mk.injEq,
        and_true, hmem, or_assoc]
    once := by
      simp only [ServedQueue.arrive]
      rw [← List.append_assoc]
      exact h.once.append (List.nodup_singleton _) (by simpa using hnew)
    dismissed := fun i hm => h.dismissed i (by simpa [ServedQueue.arrive] using hm)
    woken := fun hne => by
      have hwoken := h.woken hne
      exact ⟨hwoken.1, by
        simp only [ServedQueue.arrive, List.length_append]
        omega⟩ }

theorem act (h : l.Kept capacity) (m : QueueMove α) : (l.act m).Kept capacity := by
  match m with
  | .call (.push a) => exact h.push a
  | .call .tryPop => exact h.tryPop
  | .call .close => exact h.close
  | .call .wait => exact h.wait
  | .turn id => exact h.turn id
  | .rest => exact h.foldl_turn _

theorem run (capacity : Nat) (moves : List (QueueMove α)) :
    (run capacity moves).Kept capacity := by
  induction moves using List.reverseRecOn with
  | nil => exact create capacity
  | append_singleton moves m ih =>
    rw [QueueLedger.run, List.foldl_append]
    exact ih.act m

end Kept

/-! ### Before and after a close -/

section Ends

variable (l : QueueLedger α) (id : Nat)

@[simp] theorem turn_closed : (l.turn id).state.queue.closed = l.state.queue.closed := by
  unfold turn
  split
  · exact ServedQueue.look_closed _ id
  · rfl

@[simp] theorem turn_accepted : (l.turn id).accepted = l.accepted := by
  unfold turn
  split <;> rfl

@[simp] theorem turn_refused : (l.turn id).refused = l.refused := by
  unfold turn
  split <;> rfl

end Ends

structure Receives (m : QueueMove α) (l r : QueueLedger α) : Prop where
  stays : r.state.queue.closed = (l.state.queue.closed || m.isClose)
  accepted : r.accepted = l.accepted ++ if l.state.queue.closed then [] else m.pushed?.toList
  refused : r.refused = l.refused ++ if l.state.queue.closed then m.pushed?.toList else []

theorem foldl_turn_receives (l : QueueLedger α) (ids : List Nat) :
    (ids.foldl turn l).state.queue.closed = l.state.queue.closed ∧
      (ids.foldl turn l).accepted = l.accepted ∧ (ids.foldl turn l).refused = l.refused := by
  induction ids generalizing l with
  | nil => exact ⟨rfl, rfl, rfl⟩
  | cons id ids ih => simpa using ih (l.turn id)

theorem Receives.of_same {m : QueueMove α} {l r : QueueLedger α} (hm : m.isClose = false)
    (hp : m.pushed? = none)
    (h : r.state.queue.closed = l.state.queue.closed ∧ r.accepted = l.accepted ∧
      r.refused = l.refused) : Receives m l r where
  stays := by rw [h.1, hm, Bool.or_false]
  accepted := by simp [h.2.1, hp]
  refused := by simp [h.2.2, hp]

theorem act_receives (l : QueueLedger α) (m : QueueMove α) : Receives m l (l.act m) := by
  match m with
  | .call (.push a) =>
    cases hc : l.state.queue.closed with
    | true =>
      simp only [act, call, push_of_closed a hc]
      exact ⟨by simp [hc], by simp [hc], by simp [hc, QueueMove.pushed?]⟩
    | false =>
      have hqueue := congrArg Prod.snd (BoundedQueue.push_of_open l.state.queue a hc)
      have hclosed : (l.state.queue.push a).2.closed = false := by rw [hqueue, ← hc]
      simp only [act, call]
      cases hasleep : l.state.asleep with
      | nil =>
        rw [push_of_idle a hc hasleep]
        exact ⟨by simp [hclosed, hc, QueueMove.isClose], by simp [hc, QueueMove.pushed?],
          by simp [hc]⟩
      | cons c cs =>
        rw [push_of_asleep a hc hasleep]
        exact ⟨by simp [hclosed, hc, QueueMove.isClose], by simp [hc, QueueMove.pushed?],
          by simp [hc]⟩
  | .call .tryPop =>
    refine .of_same rfl rfl ⟨?_, rfl, rfl⟩
    simp only [act, call, tryPop, ServedQueue.tryPop, BoundedQueue.pop]
    cases l.state.queue.items <;> rfl
  | .call .close =>
    exact ⟨(Bool.or_true _).symm, by simp [QueueMove.pushed?, act, call, close],
      by simp [QueueMove.pushed?, act, call, close]⟩
  | .call .wait => exact .of_same rfl rfl ⟨rfl, rfl, rfl⟩
  | .turn id => exact .of_same rfl rfl ⟨l.turn_closed id, l.turn_accepted id, l.turn_refused id⟩
  | .rest => exact .of_same rfl rfl (l.foldl_turn_receives _)

theorem foldl_act_of_open (l : QueueLedger α) (hc : l.state.queue.closed = false)
    (moves : List (QueueMove α)) (hmoves : ∀ m ∈ moves, m.isClose = false) :
    (moves.foldl act l).state.queue.closed = false ∧
      (moves.foldl act l).accepted = l.accepted ++ moves.filterMap QueueMove.pushed? ∧
      (moves.foldl act l).refused = l.refused := by
  induction moves generalizing l with
  | nil => exact ⟨hc, (List.append_nil _).symm, rfl⟩
  | cons m moves ih =>
    have hact := l.act_receives m
    have hopen : (l.act m).state.queue.closed = false := by
      rw [hact.stays, hc, hmoves m List.mem_cons_self, Bool.or_false]
    obtain ⟨hclosed, haccepted, hrefused⟩ :=
      ih (l.act m) hopen fun n hn => hmoves n (List.mem_cons_of_mem m hn)
    refine ⟨hclosed, haccepted.trans ?_, hrefused.trans ?_⟩
    · rw [hact.accepted, hc, if_neg Bool.false_ne_true, List.append_assoc]
      cases h : m.pushed? <;> simp [h]
    · rw [hact.refused, hc, if_neg Bool.false_ne_true, List.append_nil]

namespace Kept

variable {capacity : Nat} {l : QueueLedger α}

theorem left_turn_of_closed (h : l.Kept capacity) (hc : l.state.queue.closed = true) (id : Nat) :
    (l.turn id).left = l.left := by
  by_cases hid : id ∈ l.state.awake
  · obtain ⟨before, after, hs⟩ := List.append_of_mem ((h.waiting id).mpr (.inr hid))
    rw [turn_of_closed hs h.nodup hid hc]
  · rw [QueueLedger.turn, if_neg hid]

theorem left_foldl_turn_of_closed (h : l.Kept capacity) (hc : l.state.queue.closed = true)
    (ids : List Nat) : (ids.foldl QueueLedger.turn l).left = l.left := by
  induction ids generalizing l with
  | nil => rfl
  | cons id ids ih =>
    exact (ih (h.turn id) (by rw [turn_closed, hc])).trans (h.left_turn_of_closed hc id)

theorem left_act_of_closed (h : l.Kept capacity) (hc : l.state.queue.closed = true)
    (m : QueueMove α) : (l.act m).left = l.left := by
  match m with
  | .call (.push a) => rw [QueueLedger.act, call, push_of_closed a hc]
  | .call .tryPop =>
    simp [QueueLedger.act, call, QueueLedger.tryPop, ServedQueue.tryPop, BoundedQueue.pop,
      h.drained hc]
  | .call .close =>
    simp [QueueLedger.act, call, QueueLedger.close, ServedQueue.close, BoundedQueue.close,
      h.drained hc]
  | .call .wait => rfl
  | .turn id => exact h.left_turn_of_closed hc id
  | .rest => exact h.left_foldl_turn_of_closed hc _

theorem foldl_act_of_closed (h : l.Kept capacity) (hc : l.state.queue.closed = true)
    (moves : List (QueueMove α)) :
    (moves.foldl QueueLedger.act l).accepted = l.accepted ∧
      (moves.foldl QueueLedger.act l).refused =
        l.refused ++ moves.filterMap QueueMove.pushed? ∧
      (moves.foldl QueueLedger.act l).left = l.left := by
  induction moves generalizing l with
  | nil => exact ⟨rfl, (List.append_nil _).symm, rfl⟩
  | cons m moves ih =>
    have hact := l.act_receives m
    have hclosed : (l.act m).state.queue.closed = true := by
      rw [hact.stays, hc, Bool.true_or]
    obtain ⟨haccepted, hrefused, hleft⟩ := ih (h.act m) hclosed
    refine ⟨haccepted.trans ?_, hrefused.trans ?_, hleft.trans (h.left_act_of_closed hc m)⟩
    · rw [hact.accepted, hc, if_pos rfl, List.append_nil]
    · rw [hact.refused, hc, if_pos rfl, List.append_assoc]
      cases h : m.pushed? <;> simp [h]

end Kept

/-! ### The order of service -/

theorem waiting_not_got (l : QueueLedger α) (id : Nat) : (id, .waiting) ∉ l.got := fun hm => by
  obtain ⟨_, -, heq⟩ := List.mem_map.mp hm
  cases heq

theorem FirstServed.turn {capacity : Nat} {l : QueueLedger α} (hl : l.FirstServed)
    (h : l.Kept capacity) (hc : l.state.queue.closed = true) (id : Nat) :
    (l.turn id).FirstServed := by
  by_cases hid : id ∈ l.state.awake
  swap
  · rwa [QueueLedger.turn, if_neg hid]
  obtain ⟨others, hothers, hs⟩ := hl
  have hmem := (h.waiting id).mpr (.inr hid)
  rw [hs, List.mem_append, or_iff_right (l.waiting_not_got id)] at hmem
  obtain ⟨before, after, rfl⟩ := List.append_of_mem hmem
  have hsplit := hs.trans (List.append_assoc _ _ _).symm
  rw [turn_of_closed hsplit h.nodup hid hc]
  refine ⟨before ++ (id, .served none) :: after, fun c hm => ?_, List.append_assoc _ _ _⟩
  rcases List.mem_append.mp hm with hm | hm
  · exact hothers c (List.mem_append_left _ hm)
  · rcases List.mem_cons.mp hm with rfl | hm
    · rfl
    · exact hothers c (List.mem_append_right _ (List.mem_cons_of_mem _ hm))

theorem FirstServed.foldl_turn {capacity : Nat} {l : QueueLedger α} (hl : l.FirstServed)
    (h : l.Kept capacity) (hc : l.state.queue.closed = true) (ids : List Nat) :
    (ids.foldl QueueLedger.turn l).FirstServed := by
  induction ids generalizing l with
  | nil => exact hl
  | cons id ids ih => exact ih (hl.turn h hc id) (h.turn id) (by rw [turn_closed, hc])

theorem got_push (l : QueueLedger α) (a : α) : (l.push a).got = l.got := by
  rw [got, got, servings, servings, push]
  split
  · rfl
  · rw [servings_others l.left _ .evicted fun _ => rfl]

theorem got_tryPop (l : QueueLedger α) : l.tryPop.got = l.got := by
  rw [got, servings, tryPop, servings_others l.left _ .taken fun _ => rfl, got, servings]

theorem got_close (l : QueueLedger α) : l.close.got = l.got := by
  rw [got, servings, close, servings_others l.left _ .drained fun _ => rfl, got, servings]

theorem tryPop_consumers (l : QueueLedger α) :
    l.tryPop.state.consumers = l.state.consumers := by
  simp only [tryPop, ServedQueue.tryPop, BoundedQueue.pop]
  cases l.state.queue.items <;> rfl

theorem tryPop_sleepers (l : QueueLedger α) :
    l.tryPop.state.asleep = l.state.asleep ∧ l.tryPop.state.awake = l.state.awake := by
  simp only [tryPop, ServedQueue.tryPop, BoundedQueue.pop]
  cases l.state.queue.items <;> exact ⟨rfl, rfl⟩

structure AtRest (l : QueueLedger α) : Prop extends l.InOrder where
  /-- Consumers sleep in the order in which they came. -/
  asleep : l.state.queue.closed = false →
    l.state.consumers = l.got ++ l.state.asleep.map fun id => (id, .waiting)

theorem rest_of_asleep {l : QueueLedger α} (h : l.state.awake = []) : l.rest = l := by
  rw [rest, h, List.foldl_nil]

theorem rest_of_single {l : QueueLedger α} {id : Nat} (h : l.state.awake = [id]) :
    l.rest = l.turn id := by
  rw [rest, h, List.foldl_cons, List.foldl_nil]

theorem state_foldl_turn (l : QueueLedger α) :
    (l.state.awake.foldl turn l).state = l.state.settle := by
  suffices h : ∀ (ids : List Nat) (l : QueueLedger α), l.state.awake = ids →
      (ids.foldl turn l).state = ids.foldl ServedQueue.look { l.state with awake := [] } from
    h _ l rfl
  intro ids
  induction ids with
  | nil =>
    intro l hl
    rw [List.foldl_nil, List.foldl_nil, ← hl]
  | cons id ids ih =>
    intro l hl
    have hid : id ∈ l.state.awake := hl ▸ List.mem_cons_self
    have hturn : (l.turn id).state = (l.calling id).look id := by
      rw [turn, if_pos hid]
    have hawake : (l.turn id).state.awake = ids := by
      rw [hturn, ServedQueue.look_awake, calling, hl, List.erase_cons_head]
    rw [List.foldl_cons, List.foldl_cons, ih _ hawake, hturn, ← ServedQueue.look_with_awake]
    rfl

theorem state_rest (l : QueueLedger α) : l.rest.state = l.state.settle := l.state_foldl_turn

theorem rest_awake (l : QueueLedger α) : l.rest.state.awake = [] := by
  rw [state_rest, ServedQueue.settle_awake]

theorem AtRest.of_closed {capacity : Nat} {l : QueueLedger α} (hl : l.FirstServed)
    (h : l.Kept capacity) (hc : l.state.queue.closed = true) : l.rest.AtRest where
  rest := l.rest_awake
  first := hl.foldl_turn h hc _
  asleep hopen := absurd ((l.foldl_turn_receives _).1.symm.trans hopen) (by simp [hc])

theorem AtRest.of_open {l : QueueLedger α} (hrest : l.state.awake = [])
    (hs : l.state.consumers = l.got ++ l.state.asleep.map fun id => (id, .waiting)) :
    l.AtRest where
  rest := hrest
  first := ⟨_, fun c hm => by obtain ⟨_, -, rfl⟩ := List.mem_map.mp hm; rfl, hs⟩
  asleep _ := hs

namespace AtRest

variable {capacity : Nat} {l : QueueLedger α}

theorem call_of_closed (hl : l.AtRest) (h : l.Kept capacity)
    (hc : l.state.queue.closed = true) (c : QueueCall α) : (l.call c).rest.AtRest := by
  have hclosed : (l.call c).state.queue.closed = true :=
    (l.act_receives (.call c)).stays.trans (by rw [hc, Bool.true_or])
  refine .of_closed ?_ (h.act (.call c)) hclosed
  obtain ⟨others, hothers, hs⟩ := hl.first
  cases c with
  | push a =>
    rw [call, push_of_closed a hc]
    exact ⟨others, hothers, hs⟩
  | tryPop => exact ⟨others, hothers, by rw [call, got_tryPop, tryPop_consumers, hs]⟩
  | close => exact ⟨others, hothers, by rw [call, got_close]; exact hs⟩
  | wait =>
    refine ⟨others ++ [(l.state.consumers.length, .waiting)], fun c hm => ?_, ?_⟩
    · rcases List.mem_append.mp hm with hm | hm
      · exact hothers c hm
      · rw [List.mem_singleton.mp hm, Consumer.item?]
    · rw [← List.append_assoc]
      exact congrArg (· ++ _) hs

theorem rest_of_item (h : l.Kept capacity) (hc : l.state.queue.closed = false) {id : Nat}
    (hawake : l.state.awake = [id]) {a : α} {items : List α}
    (hi : l.state.queue.items = a :: items)
    (hs : l.state.consumers =
      l.got ++ (id, .waiting) :: l.state.asleep.map fun id => (id, .waiting)) :
    l.rest.AtRest := by
  have hid : id ∈ l.state.awake := hawake ▸ List.mem_singleton_self id
  rw [rest_of_single hawake, turn_of_item hs h.nodup hid hc hi]
  refine .of_open (by rw [hawake, List.erase_cons_head]) ?_
  simp [got, servings, Departure.serving?]

/-- Where consumers sleep there is no item, so that a new one goes to the first of them. -/
theorem push_of_open (hl : l.AtRest) (h : l.Kept capacity)
    (hc : l.state.queue.closed = false) (a : α) : (l.push a).rest.AtRest := by
  have hs := hl.asleep hc
  have hgot : (l.push a).got = l.got := got_push l a
  cases hasleep : l.state.asleep with
  | nil =>
    have hpush := push_of_idle a hc hasleep
    rw [rest_of_asleep (by rw [hpush, hl.rest])]
    refine .of_open (by rw [hpush, hl.rest]) ?_
    rw [hgot, hpush]
    exact hs
  | cons c cs =>
    have hitems : l.state.queue.items = [] := by
      have hle := (h.woken (by simp [hasleep])).2
      rw [hl.rest, List.length_nil, Nat.le_zero] at hle
      exact List.length_eq_zero_iff.mp hle
    have hstored : l.state.queue.push a = (.stored, { l.state.queue with items := [a] }) := by
      simp only [BoundedQueue.push, hc, hitems, Bool.false_eq_true, if_false]
    have hpush := push_of_asleep a hc hasleep
    rw [hstored] at hpush
    rw [hasleep, List.map_cons] at hs
    refine rest_of_item (h.push a) ?_ (by rw [hpush, hl.rest, List.nil_append]) (by rw [hpush]) ?_
    · rw [hpush]
      exact hc
    · rw [hgot, hpush]
      exact hs

theorem wait_of_open (hl : l.AtRest) (h : l.Kept capacity)
    (hc : l.state.queue.closed = false) : (l.call .wait).rest.AtRest := by
  have hs := hl.asleep hc
  have hawake : (l.call .wait).state.awake = [l.state.consumers.length] :=
    congrArg (· ++ [l.state.consumers.length]) hl.rest
  have hconsumers : (l.call .wait).state.consumers =
      l.got ++ l.state.asleep.map (fun id => (id, .waiting)) ++
        [(l.state.consumers.length, .waiting)] := congrArg (· ++ _) hs
  have hkept := h.act (.call .wait)
  cases hi : l.state.queue.items with
  | nil =>
    have hid : l.state.consumers.length ∈ (l.call .wait).state.awake :=
      hawake ▸ List.mem_singleton_self _
    rw [rest_of_single hawake, turn_of_empty hconsumers hkept.nodup hid hc hi]
    refine .of_open (by rw [hawake, List.erase_cons_head]) ?_
    rw [hconsumers, List.append_assoc]
    exact congrArg (l.got ++ ·) (by rw [List.map_append]; rfl)
  | cons a items =>
    have hasleep : l.state.asleep = [] := by
      by_contra hne
      have hle := (h.woken hne).2
      rw [hl.rest, hi] at hle
      exact absurd hle (by simp)
    refine rest_of_item hkept hc hawake hi ?_
    rw [hconsumers, show (l.call .wait).state.asleep = [] from hasleep, hasleep]
    simp [got, servings, call]

theorem call (hl : l.AtRest) (h : l.Kept capacity) (c : QueueCall α) :
    (l.call c).rest.AtRest := by
  cases hc : l.state.queue.closed with
  | true => exact hl.call_of_closed h hc c
  | false =>
    cases c with
    | push a => exact hl.push_of_open h hc a
    | tryPop =>
      obtain ⟨hasleep, hawake⟩ := l.tryPop_sleepers
      rw [QueueLedger.call, rest_of_asleep (hawake.trans hl.rest)]
      refine .of_open (hawake.trans hl.rest) ?_
      rw [got_tryPop, tryPop_consumers, hasleep]
      exact hl.asleep hc
    | close =>
      obtain ⟨others, hothers, hs⟩ := hl.first
      have hfirst : l.close.FirstServed := ⟨others, hothers, by rw [got_close]; exact hs⟩
      exact .of_closed hfirst h.close rfl
    | wait => exact hl.wait_of_open h hc

end AtRest

theorem run_append (capacity : Nat) (front back : List (QueueMove α)) :
    run capacity (front ++ back) = back.foldl act (run capacity front) :=
  List.foldl_append

theorem toRest_append (front back : List (QueueCall α)) :
    QueueMove.toRest (front ++ back) = QueueMove.toRest front ++ QueueMove.toRest back :=
  List.flatMap_append

theorem run_toRest (capacity : Nat) (calls : List (QueueCall α)) :
    (run capacity (QueueMove.toRest calls)).AtRest := by
  induction calls using List.reverseRecOn with
  | nil => exact .of_open rfl rfl
  | append_singleton calls c ih =>
    rw [toRest_append, run_append]
    exact ih.call (Kept.run capacity _) c

/-! ### The account -/

theorem Kept.blocked {capacity : Nat} {l : QueueLedger α} (h : l.Kept capacity)
    (hawake : l.state.awake = []) (id : Nat) (hid : (id, .waiting) ∈ l.state.consumers) :
    l.state.queue.items = [] ∧ l.state.queue.closed = false := by
  have hasleep := (h.waiting id).mp hid
  rw [hawake, or_iff_left List.not_mem_nil] at hasleep
  obtain ⟨hc, hle⟩ := h.woken (List.ne_nil_of_mem hasleep)
  rw [hawake, List.length_nil, Nat.le_zero] at hle
  exact ⟨List.length_eq_zero_iff.mp hle, hc⟩

/-- Before its first close a queue accepts what is pushed; then it hands all back, and nothing
leaves it any more. -/
theorem run_received (capacity : Nat) (moves : List (QueueMove α)) :
    (run capacity moves).accepted =
        (moves.takeWhile (!·.isClose)).filterMap QueueMove.pushed? ∧
      (run capacity moves).refused =
        (moves.dropWhile (!·.isClose)).filterMap QueueMove.pushed? ∧
      (run capacity moves).left = (run capacity
        (moves.takeWhile (!·.isClose) ++ (moves.dropWhile (!·.isClose)).take 1)).left := by
  have hfront (m : QueueMove α) (hm : m ∈ moves.takeWhile (!·.isClose)) :
      m.isClose = false := by
    simpa using List.mem_takeWhile_imp hm
  obtain ⟨-, haccepted, hrefused⟩ :=
    foldl_act_of_open { state := .create capacity } rfl _ hfront
  have hsplit := List.takeWhile_append_dropWhile (p := (!·.isClose)) (l := moves)
  cases hback : moves.dropWhile (!·.isClose) with
  | nil =>
    rw [hback, List.append_nil] at hsplit
    rw [hsplit] at haccepted hrefused ⊢
    exact ⟨haccepted, hrefused, by rw [List.take_nil, List.append_nil]⟩
  | cons m back =>
    -- the first close pushes nothing, and what follows it finds the queue closed
    have hm : m.isClose = true := by
      have hhead := List.head_dropWhile_not (fun n : QueueMove α => !n.isClose)
        (l := moves) (by simp [hback])
      simpa [hback] using hhead
    have hkept := (Kept.run capacity (moves.takeWhile (!·.isClose))).act m
    have hreceives := (run capacity (moves.takeWhile (!·.isClose))).act_receives m
    have hpushed : m.pushed? = none := by
      cases m with
      | call c => cases c <;> simp_all [QueueMove.isClose, QueueMove.pushed?]
      | turn id => rfl
      | rest => rfl
    have hclosed := hreceives.stays.trans (by rw [hm, Bool.or_true])
    obtain ⟨hacc, href, hleft⟩ := hkept.foldl_act_of_closed hclosed back
    have hrun : run capacity moves =
        back.foldl act ((run capacity (moves.takeWhile (!·.isClose))).act m) := by
      conv_lhs => rw [← hsplit, hback, run_append, List.foldl_cons]
    rw [hrun]
    refine ⟨hacc.trans ?_, href.trans ?_, hleft.trans ?_⟩
    · rw [hreceives.accepted, hpushed, Option.toList_none, ite_self, List.append_nil]
      exact haccepted
    · rw [hreceives.refused, hpushed, Option.toList_none, ite_self, List.append_nil,
        List.filterMap_cons_none hpushed]
      exact congrArg (· ++ _) hrefused
    · rw [run_append]
      rfl

/-- Nothing is lost, doubled or reordered, whatever callers and consumers do and in which
order. Where all consumers come to rest before the next call they are served in the order in
which they came. -/
theorem run_accounted (capacity : Nat) :
    (∀ moves : List (QueueMove α), (run capacity moves).Accounted capacity moves) ∧
      ∀ calls : List (QueueCall α), (run capacity (QueueMove.toRest calls)).InOrder := by
  refine ⟨fun moves => ?_, fun calls => ?_⟩
  · have hkept := Kept.run capacity moves
    obtain ⟨haccepted, hrefused, hleft⟩ := run_received capacity moves
    exact {
      bounded := hkept.bounded
      complete := hkept.complete
      accepted := haccepted
      refused := hrefused
      silent := hleft
      served := hkept.served
      numbered := hkept.numbered
      dismissed := hkept.dismissed
      blocked := hkept.blocked }
  · have hrest := run_toRest capacity calls
    exact hrest.toInOrder

end QueueLedger

end ControlNode
