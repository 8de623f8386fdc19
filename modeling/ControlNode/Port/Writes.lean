import ControlNode.Port.Error
import ControlNode.Port.Queue

/-!
# Queued writes

Values on their way to a device. A write waits in a bounded queue, is taken out to be carried
out, one at a time, and is completed once: with the answer of the device, as dropped from a
full queue, or as cancelled.
-/

namespace ControlNode

abbrev Ticket := Nat

structure WriteRequest where
  value : Value
  ticket : Ticket
  deriving Repr, DecidableEq

/-- What the workers and callers of a port are told. -/
inductive Signal where
  | writeQueued
  | evalQueued
  | completed (ticket : Ticket) (result : Except PortError Unit)

/-- The writes of a port: those that wait, the one that is carried out, and the value that is
shown as being on its way. -/
structure WritePipe where
  queue : BoundedQueue WriteRequest
  current : Option WriteRequest := none
  pending : Option Value := none

namespace WritePipe

def create (capacity : Nat) : WritePipe := { queue := .create capacity }

def showHead (w : WritePipe) : WritePipe :=
  { w with pending := w.queue.head?.map WriteRequest.value }

/-- Shows the value at the head of the queue, unless a write is being carried out. -/
def showNext (w : WritePipe) : WritePipe := if w.current.isSome then w else w.showHead

/-- Queues a write; a full queue drops its oldest one, a closed queue cancels the new one. -/
def enqueue (w : WritePipe) (r : WriteRequest) : List Signal × WritePipe :=
  match w.queue.push r with
  | (.stored, q) => ([.writeQueued], { w with queue := q }.showNext)
  | (.evicted oldest, q) =>
    ([.writeQueued, .completed oldest.ticket (.error .queueFull)], { w with queue := q }.showNext)
  | (.rejected, q) => ([.completed r.ticket (.error .cancelled)], { w with queue := q }.showNext)

def take (w : WritePipe) : Option (WriteRequest × WritePipe) :=
  w.queue.pop.map fun (r, q) => (r, { queue := q, current := some r, pending := some r.value })

def finish (w : WritePipe) (result : Except PortError Unit) : List Signal × WritePipe :=
  match w.current with
  | some r => ([.completed r.ticket result], { w with current := none }.showHead)
  | none => ([], w)

/-- Cancels what waits in the queue and accepts nothing more. -/
def close (w : WritePipe) : List Signal × WritePipe :=
  let (rest, q) := w.queue.close
  (rest.map fun r => .completed r.ticket (.error .cancelled), { w with queue := q })

end WritePipe

end ControlNode
