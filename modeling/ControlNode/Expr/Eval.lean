import ControlNode.Expr.Basic
import ControlNode.Calendar

/-!
# Evaluation

An expression is evaluated against a snapshot of port values at a time. Evaluation returns
its result together with the expression as it remembers what it has now seen; what a call
remembers changes also where the result is an error.
-/

namespace ControlNode

/-! ### Snapshots -/

/-- What an evaluation sees: port values, the time in milliseconds, the port that it is for, and the
zone whose clocks tell the time of day. A transform sees the raw value of its own port only. -/
structure EvalContext where
  values : Dict String Value
  now : Int
  selfId : Option String
  selfValue : Option Value
  zone : Zone := .utc
  deriving Repr

namespace EvalContext

def ofValues (values : Dict String Value) (now : Int) : EvalContext :=
  { values := values, now := now, selfId := none, selfValue := none }

def forPort (c : EvalContext) (id : String) (zone : Zone := .utc) : EvalContext :=
  { c with selfId := some id, selfValue := none, zone := zone }

/-- The context of a transform of the port `id` whose raw value is `v`. -/
def forTransform (id : String) (v : Value) (now : Int) (zone : Zone := .utc) : EvalContext :=
  ⟨[], now, some id, some v, zone⟩

def valueOf (c : EvalContext) (id : String) : Option Value :=
  if c.selfId = some id ∧ c.selfValue.isSome then c.selfValue else c.values.get? id

end EvalContext

/-! ### Errors -/

inductive EvalError where
  /-- A port without a value, a delay that has let nothing through yet, or a time of day
  outside the calendar. -/
  | valueUnavailable
  /-- An argument outside its domain. -/
  | badArgument (index : Nat) (value : Value)
  /-- An argument that the call does not have; a call that was read has all it needs. -/
  | missingArgument (index : Nat)
  deriving Repr, DecidableEq

def EvalError.message : EvalError → String
  | .valueUnavailable => "value unavailable"
  | .badArgument index value => "invalid argument " ++ toString index ++ ": " ++ value.text
  | .missingArgument index => "missing argument " ++ toString index

abbrev EvalResult := Except EvalError Value

namespace Func

open Binary64 (ofInt toInt64 wrapInt64)

/-! ### Arguments -/

def argument (args : List Value) (i : Nat) : EvalResult :=
  match args[i]? with
  | some v => .ok v
  | none => .error (.missingArgument i)

/-- Applies `f` to the only argument. -/
def unary (f : Value → EvalResult) (args : List Value) : EvalResult := do
  f (← argument args 0)

/-- Applies `f` to the two arguments. -/
def binary (f : Value → Value → EvalResult) (args : List Value) : EvalResult := do
  let a ← argument args 0
  let b ← argument args 1
  f a b

def number (x : Float) : EvalResult := .ok (.num x)

def integer (n : Int) : EvalResult := .ok (.ofInt n)

def truth (b : Bool) : EvalResult := .ok (.bool b)

/-! ### Arithmetic -/

/-- The sum, added up from the negative zero, which changes no summand. -/
def sum (xs : List Float) : Float := xs.foldl (· + ·) (-0.0)

def product (xs : List Float) : Float := xs.foldl (· * ·) 1.0

/-- The whole part of the quotient; zero where the divisor is zero. -/
def quotient (a b : Float) : Float := if b == 0 then 0 else Binary64.trunc (a / b)

/-- The remainder with the sign of the divisor; zero where the divisor is zero. -/
def remainder (a b : Float) : Float :=
  if b == 0 then 0 else a - b * Binary64.floor (a / b)

/-- The smaller of two doubles; what is no number gives way to the other. -/
def lesser (a b : Float) : Float := if a.isNaN then b else if b < a then b else a

/-- The greater of two doubles; what is no number gives way to the other. -/
def greater (a b : Float) : Float := if a.isNaN then b else if a < b then b else a

def infinity : Float := 1.0 / 0.0

def least (xs : List Float) : Float := xs.foldl lesser infinity

def greatest (xs : List Float) : Float := xs.foldl greater (-infinity)

def signum (x : Float) : Float := if 0 < x then 1 else if x < 0 then -1 else 0

/-- Rounds to a number of decimal places, a half away from zero. -/
def roundTo (x : Float) (places : Nat) : Float :=
  let scale := Float.ofNat (Decimal.pow10 places)
  Binary64.round (x * scale) / scale

/-- The greatest number of decimal places that are rounded to. -/
def maxPlaces : Int := 15

/-! ### Words of 64 bits -/

def word (n : Int) : BitVec 64 := BitVec.ofInt 64 n

def allBits (ns : List Int) : Int := (ns.foldl (fun w n => w &&& word n) (word (-1))).toInt

def anyBits (ns : List Int) : Int := (ns.foldl (fun w n => w ||| word n) (word 0)).toInt

def differingBits (a b : Int) : Int := (word a ^^^ word b).toInt

/-- The amount of a shift, at most 63. -/
def shiftAmount (v : Value) : Except EvalError Nat :=
  let n := v.toInt
  if 0 ≤ n ∧ n < 64 then .ok n.toNat else .error (.badArgument 1 v)

/-! ### Times -/

/-- A calendar function at the local time that its argument gives in seconds, else now. -/
def calendar (part : Int → Int) (args : List Value) (now : Int) (zone : Zone) : EvalResult :=
  let ms := match args with
    | v :: _ => toInt64 (v.toFloat * 1000)
    | [] => now
  if Calendar.inRange ms then integer (part (zone.clock ms))
  else .error (.badArgument 0 (args.head?.getD (.ofInt ms)))

def firstOutside : (index : Nat) → List (Value × Int) → Option EvalError
  | _, [] => none
  | index, (v, limit) :: rest =>
    if v.toInt < 0 ∨ limit ≤ v.toInt then some (.badArgument index v)
    else firstOutside (index + 1) rest

/-- Whether a second of the day lies in an interval that may pass midnight; both ends
count. -/
def insideInterval (start stop s : Int) : Bool :=
  if start ≤ stop then start ≤ s && s ≤ stop else start ≤ s || s ≤ stop

/-- Whether the local time of day lies in the interval given by two times of day. -/
def hmsInside (args : List Value) (now : Int) (zone : Zone) : EvalResult :=
  match args with
  | [h1, m1, s1, h2, m2, s2] =>
    match firstOutside 0 [(h1, 24), (m1, 60), (s1, 60), (h2, 24), (m2, 60), (s2, 60)] with
    | some e => .error e
    | none =>
      if Calendar.inRange now then
        truth (insideInterval (h1.toInt * 3600 + m1.toInt * 60 + s1.toInt)
          (h2.toInt * 3600 + m2.toInt * 60 + s2.toInt) (Calendar.secondOfDay (zone.clock now)))
      else .error .valueUnavailable
  | _ => .error (.missingArgument args.length)

/-! ### Functions without a memory -/

/-- The result of a call that remembers nothing. -/
def compute (f : Func) (args : List Value) (now : Int) (zone : Zone) : EvalResult :=
  match f with
  | .add => number (sum (args.map Value.toFloat))
  | .sub => binary (fun a b => number (a.toFloat - b.toFloat)) args
  | .mul => number (product (args.map Value.toFloat))
  | .div => binary (fun a b => number (quotient a.toFloat b.toFloat)) args
  | .mod => binary (fun a b => number (remainder a.toFloat b.toFloat)) args
  | .bitAnd => integer (allBits (args.map Value.toInt))
  | .bitOr => integer (anyBits (args.map Value.toInt))
  | .bitNot => unary (fun a => integer (-1 - a.toInt)) args
  | .bitXor => binary (fun a b => integer (differingBits a.toInt b.toInt)) args
  | .shl =>
    binary (fun a b => do integer (wrapInt64 (a.toInt * Binary64.pow2 (← shiftAmount b)))) args
  | .shr => binary (fun a b => do integer (a.toInt / Binary64.pow2 (← shiftAmount b))) args
  | .and => truth (args.all Value.toBool)
  | .or => truth (args.any Value.toBool)
  | .not => unary (fun a => truth (!a.toBool)) args
  | .xor => binary (fun a b => truth (a.toBool != b.toBool)) args
  | .cond => do
    let c ← argument args 0
    argument args (if c.toBool then 1 else 2)
  | .eq => binary (fun a b => truth (a.toFloat == b.toFloat)) args
  | .gt => binary (fun a b => truth (b.toFloat < a.toFloat)) args
  | .gte => binary (fun a b => truth (b.toFloat ≤ a.toFloat)) args
  | .lt => binary (fun a b => truth (a.toFloat < b.toFloat)) args
  | .lte => binary (fun a b => truth (a.toFloat ≤ b.toFloat)) args
  | .abs => unary (fun a => number a.toFloat.abs) args
  | .sgn => unary (fun a => number (signum a.toFloat)) args
  | .min => number (least (args.map Value.toFloat))
  | .max => number (greatest (args.map Value.toFloat))
  | .floor => unary (fun a => number (Binary64.floor a.toFloat)) args
  | .ceil => unary (fun a => number (Binary64.ceil a.toFloat)) args
  | .round => do
    let a ← argument args 0
    match args[1]? with
    | none => number (roundTo a.toFloat 0)
    | some places =>
      if 0 ≤ places.toInt ∧ places.toInt ≤ maxPlaces then
        number (roundTo a.toFloat places.toInt.toNat)
      else .error (.badArgument 1 places)
  | .time => integer (Calendar.secondOf now)
  | .timeMs => integer now
  | .millisecond => integer (now % 1000)
  | .year => calendar (fun ms => (Calendar.date ms).year) args now zone
  | .month => calendar (fun ms => (Calendar.date ms).month) args now zone
  | .day => calendar (fun ms => (Calendar.date ms).day) args now zone
  | .dow => calendar Calendar.weekday args now zone
  | .hour => calendar Calendar.hour args now zone
  | .minute => calendar Calendar.minute args now zone
  | .second => calendar Calendar.second args now zone
  | .hmsInterval => hmsInside args now zone
  | .held | .delay | .hyst => .error .valueUnavailable

/-! ### Functions with a memory -/

/-- Notes the value at a time; a new value starts the clock again. -/
def heldNote (s : HeldState) (x : Float) (now : Int) : HeldState :=
  if s.last.any (· == x) then s else ⟨some x, now⟩

/-- HELD: whether a value has been the given one for some milliseconds. -/
def evalHeld (args : List Value) (state : NodeState) (now : Int) : EvalResult × NodeState :=
  match args, state with
  | [v, fixed, duration], .held s =>
    if duration.toInt < 0 then (.error (.badArgument 2 duration), state)
    else
      let s := heldNote s v.toFloat now
      (truth (v.toFloat == fixed.toFloat && duration.toInt ≤ wrapInt64 (now - s.since)),
        .held s)
  | [_, _, duration], _ =>
    (.error (if duration.toInt < 0 then .badArgument 2 duration else .valueUnavailable), state)
  | _, _ => (.error (.missingArgument args.length), state)

/-- The greatest number of transitions that a delay remembers. -/
def delayCapacity : Nat := 1024

/-- Notes a transition if the value differs from the last one; the oldest one gives way
where there are too many. -/
def delayNote (s : DelayState) (v : Value) (now : Int) : DelayState :=
  if Value.sameOption s.seen (some v) then s
  else
    let kept := if delayCapacity ≤ s.pending.length then s.pending.drop 1 else s.pending
    { s with seen := some v, pending := kept ++ [(now, v)] }

/-- Lets the transitions through that are at least `delay` old, oldest first, up to the
first that is too young. -/
def delayRelease (delay now : Int) : List (Int × Value) → Option Value →
    List (Int × Value) × Option Value
  | [], current => ([], current)
  | (t, v) :: rest, current =>
    if wrapInt64 (now - t) < delay then ((t, v) :: rest, current)
    else delayRelease delay now rest (some v)

/-- DELAY: the value as it was some milliseconds ago. -/
def evalDelay (args : List Value) (state : NodeState) (now : Int) : EvalResult × NodeState :=
  match args, state with
  | [v, wait], .delay s =>
    if wait.toInt < 0 then (.error (.badArgument 1 wait), state)
    else
      let s := delayNote s v now
      let (pending, current) := delayRelease wait.toInt now s.pending s.current
      ((match current with
        | some v => .ok v
        | none => .error .valueUnavailable),
        .delay { s with pending := pending, current := current })
  | [_, wait], _ =>
    (.error (if wait.toInt < 0 then .badArgument 1 wait else .valueUnavailable), state)
  | _, _ => (.error (.missingArgument args.length), state)

/-- HYST: switches on above the first threshold and off below the second. -/
def hystStep (on : Bool) (x rise fall : Float) : Bool :=
  if !on && rise < x then true else if on && x < fall then false else on

def evalHyst (args : List Value) (state : NodeState) : EvalResult × NodeState :=
  match args, state with
  | [v, rise, fall], .hyst on =>
    let on := hystStep on v.toFloat rise.toFloat fall.toFloat
    (truth on, .hyst on)
  | [_, _, _], _ => (truth false, state)
  | _, _ => (.error (.missingArgument args.length), state)

/-- The result of a call with evaluated arguments, and what it remembers then. -/
def apply (f : Func) (args : List Value) (state : NodeState) (now : Int) (zone : Zone) :
    EvalResult × NodeState :=
  match f with
  | .held => evalHeld args state now
  | .delay => evalDelay args state now
  | .hyst => evalHyst args state
  | f => (f.compute args now zone, state)

end Func

namespace Expr

/-! ### Trees -/

mutual

/-- Evaluates an expression. A condition evaluates one of its branches; any other call
evaluates its arguments left to right up to the first error. -/
def eval (c : EvalContext) : Expr → EvalResult × Expr
  | .const v => (.ok v, .const v)
  | .ref r =>
    ((match c.valueOf r.id with
      | some v => .ok v
      | none => .error .valueUnavailable), .ref r)
  | .call .cond pos state (test :: yes :: no :: rest) =>
    match eval c test with
    | (.error e, test') => (.error e, .call .cond pos state (test' :: yes :: no :: rest))
    | (.ok v, test') =>
      if v.toBool then
        let (r, yes') := eval c yes
        (r, .call .cond pos state (test' :: yes' :: no :: rest))
      else
        let (r, no') := eval c no
        (r, .call .cond pos state (test' :: yes :: no' :: rest))
  | .call f pos state args =>
    match evalArgs c args with
    | (.error e, args') => (.error e, .call f pos state args')
    | (.ok vs, args') =>
      let (r, state') := f.apply vs state c.now c.zone
      (r, .call f pos state' args')
termination_by structural e => e

def evalArgs (c : EvalContext) : List Expr → Except EvalError (List Value) × List Expr
  | [] => (.ok [], [])
  | e :: es =>
    match eval c e with
    | (.error err, e') => (.error err, e' :: es)
    | (.ok v, e') =>
      match evalArgs c es with
      | (.error err, es') => (.error err, e' :: es')
      | (.ok vs, es') => (.ok (v :: vs), e' :: es')
termination_by structural es => es

end

/-- Evaluates at each context in turn, keeping what calls remember. -/
def evalAll (e : Expr) : List EvalContext → List EvalResult
  | [] => []
  | c :: cs =>
    let (r, e') := e.eval c
    r :: evalAll e' cs

end Expr

end ControlNode
