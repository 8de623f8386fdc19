import ControlNode.Config.Basic
import ControlNode.Config.Environment

/-!
# Loading configurations

A configuration comes from a file and from environment variables, and the variables count
for more.
-/

namespace ControlNode.Config

/-- The configuration of a file with the given text, if there is one, and of environment
variables. -/
def load? (file : Option String) (vars : List (String × String)) : Option Config := do
  let under ← match file with
    | none => some []
    | some text => Toml.parse? text
  let document := Json.merge (.obj under) (Environment.document vars)
  let c ← ofFields? (← document.normalize.asObj?)
  some { c with zone := Environment.zone vars }

end ControlNode.Config
