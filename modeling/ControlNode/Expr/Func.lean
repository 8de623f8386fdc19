/-!
# Functions

The functions that expressions may call: the name of each, how many arguments it takes and
which clock it reads. A function is found by its name in any mixture of ASCII cases.
-/

namespace ControlNode

inductive Clock where
  | none
  /-- The wall clock in whole seconds. -/
  | seconds
  /-- The wall clock in milliseconds. -/
  | millis
  deriving Repr, DecidableEq

structure Signature where
  name : String
  minArgs : Nat
  /-- The greatest number of arguments; none where there is no limit. -/
  maxArgs : Option Nat
  clock : Clock
  deriving Repr, DecidableEq

inductive Func where
  | add
  | sub
  | mul
  | div
  | mod
  | bitAnd
  | bitOr
  | bitNot
  | bitXor
  | shl
  | shr
  | and
  | or
  | not
  | xor
  | cond
  | eq
  | gt
  | gte
  | lt
  | lte
  | abs
  | sgn
  | min
  | max
  | floor
  | ceil
  | round
  | time
  | timeMs
  | millisecond
  | year
  | month
  | day
  | dow
  | hour
  | minute
  | second
  | hmsInterval
  | held
  | delay
  | hyst
  deriving Repr, DecidableEq

namespace Func

/-! ### The table -/

/-- All functions, in the order of the table. -/
def all : List Func :=
  [.add, .sub, .mul, .div, .mod, .bitAnd, .bitOr, .bitNot, .bitXor, .shl, .shr, .and, .or,
   .not, .xor, .cond, .eq, .gt, .gte, .lt, .lte, .abs, .sgn, .min, .max, .floor, .ceil,
   .round, .time, .timeMs, .millisecond, .year, .month, .day, .dow, .hour, .minute,
   .second, .hmsInterval, .held, .delay, .hyst]

def signature : Func → Signature
  | .add => ⟨"ADD", 2, none, .none⟩
  | .sub => ⟨"SUB", 2, some 2, .none⟩
  | .mul => ⟨"MUL", 2, none, .none⟩
  | .div => ⟨"DIV", 2, some 2, .none⟩
  | .mod => ⟨"MOD", 2, some 2, .none⟩
  | .bitAnd => ⟨"BITAND", 2, none, .none⟩
  | .bitOr => ⟨"BITOR", 2, none, .none⟩
  | .bitNot => ⟨"BITNOT", 1, some 1, .none⟩
  | .bitXor => ⟨"BITXOR", 2, some 2, .none⟩
  | .shl => ⟨"SHL", 2, some 2, .none⟩
  | .shr => ⟨"SHR", 2, some 2, .none⟩
  | .and => ⟨"AND", 2, none, .none⟩
  | .or => ⟨"OR", 2, none, .none⟩
  | .not => ⟨"NOT", 1, some 1, .none⟩
  | .xor => ⟨"XOR", 2, some 2, .none⟩
  | .cond => ⟨"IF", 3, some 3, .none⟩
  | .eq => ⟨"EQ", 2, some 2, .none⟩
  | .gt => ⟨"GT", 2, some 2, .none⟩
  | .gte => ⟨"GTE", 2, some 2, .none⟩
  | .lt => ⟨"LT", 2, some 2, .none⟩
  | .lte => ⟨"LTE", 2, some 2, .none⟩
  | .abs => ⟨"ABS", 1, some 1, .none⟩
  | .sgn => ⟨"SGN", 1, some 1, .none⟩
  | .min => ⟨"MIN", 2, none, .none⟩
  | .max => ⟨"MAX", 2, none, .none⟩
  | .floor => ⟨"FLOOR", 1, some 1, .none⟩
  | .ceil => ⟨"CEIL", 1, some 1, .none⟩
  | .round => ⟨"ROUND", 1, some 2, .none⟩
  | .time => ⟨"TIME", 0, some 0, .seconds⟩
  | .timeMs => ⟨"TIMEMS", 0, some 0, .millis⟩
  | .millisecond => ⟨"MILLISECOND", 0, some 0, .millis⟩
  | .year => ⟨"YEAR", 0, some 1, .seconds⟩
  | .month => ⟨"MONTH", 0, some 1, .seconds⟩
  | .day => ⟨"DAY", 0, some 1, .seconds⟩
  | .dow => ⟨"DOW", 0, some 1, .seconds⟩
  | .hour => ⟨"HOUR", 0, some 1, .seconds⟩
  | .minute => ⟨"MINUTE", 0, some 1, .seconds⟩
  | .second => ⟨"SECOND", 0, some 1, .seconds⟩
  | .hmsInterval => ⟨"HMSINTERVAL", 6, some 6, .seconds⟩
  | .held => ⟨"HELD", 3, some 3, .millis⟩
  | .delay => ⟨"DELAY", 2, some 2, .millis⟩
  | .hyst => ⟨"HYST", 3, some 3, .none⟩

def name (f : Func) : String := f.signature.name

/-! ### Questions about a call -/

/-- Whether a call may have `count` arguments. -/
def accepts (f : Func) (count : Nat) : Bool :=
  f.signature.minArgs ≤ count &&
    match f.signature.maxArgs with
    | none => true
    | some most => count ≤ most

/-- The clock that a call with `count` arguments reads. With an explicit time a calendar
function reads none; the arguments of an interval are no times. -/
def clockOfCall (f : Func) (count : Nat) : Clock :=
  match f.signature.clock with
  | .none => .none
  | .seconds => if count = 0 ∨ f = .hmsInterval then .seconds else .none
  | .millis => .millis

/-- The function of a name, whatever the case of its ASCII letters. -/
def find? (name : List Char) : Option Func :=
  all.find? fun f => f.name.toList == name.map Char.toUpper

end Func

end ControlNode
