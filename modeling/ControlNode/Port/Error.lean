import ControlNode.Attr.Basic
import ControlNode.Expr.Eval

/-!
# Errors of reads and writes
-/

namespace ControlNode

inductive ValueFault where
  /-- A limit of the port is broken. -/
  | limit (fault : AttrFault)
  | wrongType (expected : PortType)
  | notAChoice (value : Value)
  | transformFailed (cause : EvalError)
  | emptySequence
  /-- A sequence with a different number of delays. -/
  | unpaired (values delays : Nat)
  deriving Repr, DecidableEq

def ValueFault.message : ValueFault → String
  | .limit fault => (AttrError.invalid "value" fault).message
  | .wrongType expected => "expected a " ++ expected.text ++ " value"
  | .notAChoice value => value.text ++ " is not an allowed choice"
  | .transformFailed cause => "transform failed: " ++ cause.message
  | .emptySequence => "empty sequence"
  | .unpaired values delays =>
    toString values ++ " values but " ++ toString delays ++ " delays"

/-- Why a read or a write fails. -/
inductive PortError where
  /-- The device has nothing to report this time. -/
  | skipRead
  | read (detail : String)
  | write (detail : String)
  | timeout
  /-- Dropped from a full queue in favour of a newer value. -/
  | queueFull
  | cancelled
  | disabled
  | notWritable
  | invalidValue (fault : ValueFault)
  deriving Repr, DecidableEq

def PortError.message : PortError → String
  | .skipRead => "Read skipped"
  | .read detail => "Read failed: " ++ detail
  | .write detail => "Write failed: " ++ detail
  | .timeout => "Operation timed out"
  | .queueFull => "Write queue full"
  | .cancelled => "Cancelled"
  | .disabled => "Port is disabled"
  | .notWritable => "Port is not writable"
  | .invalidValue fault => "Invalid value: " ++ fault.message

end ControlNode
