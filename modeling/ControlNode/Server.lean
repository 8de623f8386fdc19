import ControlNode.Config.Basic
import ControlNode.Node.Management
import ControlNode.Store.TableFile

/-!
# Running a configured node

A node is started over the data of its files; in the end its services are shut down, its
ports are saved, and its backend is closed.
-/

namespace ControlNode.Server

/-- Puts a backend over what its files hold; tables are not opened over another file. -/
def withFiles (files : DataFiles) : Backend → Except PersistError Backend
  | .file _ store => .ok (.file files store)
  | .tables isOpen t =>
    match files.data.map KeyTables.ofFileText? with
    | none => .ok (.tables isOpen t)
    | some (some t) => .ok (.tables isOpen t)
    | some none => .error (.database "Failed to open database: invalid data")
  | b => .ok b

/-- Makes the backend of a configuration ready over what its data files hold. -/
def openBackend (c : PersistConfig) (files : DataFiles) : Except PersistError Backend := do
  let b ← withFiles files (← Backend.ofName c.driver)
  match b.init with
  | (.ok (), b) => .ok b
  | (.error e, _) => .error e

/-- Starts a node with its ports and services; returns why some ports are left out. -/
def start (c : Config) (files : DataFiles) (wall : Int) :
    Except PersistError (List NodeError × Node) := do
  let b ← openBackend c.persist files
  let (left, n) := (Node.create c.core b wall c.zone).load c.ports c.mappings
  .ok (left, n.startServices.2.settle)

def stop (n : Node) : Node :=
  let n := n.shutdownAll.2.cleanup
  { n with backend := n.backend.cleanup.2 }

def dataFiles? (n : Node) : Option DataFiles :=
  match n.backend with
  | .file files _ => some files
  | _ => none

def tables? (n : Node) : Option KeyTables :=
  match n.backend with
  | .tables _ t => some t
  | _ => none

end ControlNode.Server
