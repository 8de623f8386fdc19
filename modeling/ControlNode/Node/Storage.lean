import ControlNode.Node.Tick

/-!
# Stored ports

Ports that have changed are marked and stored from time to time, each in a record of its own.
A port that cannot be stored stays marked.
-/

namespace ControlNode.Node

/-- Stores a port if it is marked or `force` is set; returns whether it has been stored. -/
def savePort (force : Bool) (n : Node) (key : PortKey) : Bool × Node :=
  match n.portOf? key with
  | none => (false, n)
  | some p =>
    if p.dirty || force then
      let n := n.putPort { p with dirty := false }
      let (r, n) := n.access true (n.backend.replace portsCollection p.id p.toRecord)
      match r with
      | .ok _ => (true, n)
      | .error _ => (false, match n.portOf? key with
        | some p => n.putPort { p with dirty := true }
        | none => n)
    else (false, n)

/-- Stores the given ports in turn; returns how many have been stored. `pause` lets others
run while files are written. -/
def savePortList (force : Bool) (pause : Node → Node) : Node → List PortKey → Nat × Node
  | n, [] => (0, n)
  | n, key :: keys =>
    let (saved, n) := savePort force n key
    let (count, n) := savePortList force pause (pause n) keys
    (if saved then count + 1 else count, n)

/-- Stores all marked ports, or all ports; returns how many have been stored. -/
def savePorts (n : Node) (force : Bool) (pause : Node → Node) : Nat × Node :=
  n.savePortList force pause (n.ports.map fun e => e.2.key)

end ControlNode.Node
