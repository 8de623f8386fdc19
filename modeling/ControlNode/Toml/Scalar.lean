import ControlNode.Decimal.Literal
import ControlNode.Json.Parser

/-!
# TOML numbers and dates

Reading the words that stand for numbers, truth values, dates and times. Underscores may
separate digits. A date or time becomes an object with its normal form in one field.
-/

namespace ControlNode.Toml

/-! ### Digits -/

/-- Drops the underscores of a run of digits: each stands between two digits of the base. -/
def plainDigits? (isDigit : Char → Bool) (cs : List Char) : Option (List Char) :=
  let runs := cs.splitOn '_'
  if runs.all fun r => !r.isEmpty && r.all isDigit then some runs.flatten else none

def digitsValue (base : Nat) (cs : List Char) : Nat :=
  cs.foldl (fun n c => n * base + (Json.hexValue? c).getD 0) 0

/-- Reads decimal digits without a leading zero. -/
def wholeDigits? (cs : List Char) : Option (List Char) :=
  match plainDigits? Char.isDigit cs with
  | some ('0' :: _ :: _) => none
  | ds => ds

/-! ### Integers -/

/-- An integer that fits into 64 bits with a sign. -/
def integer? (n : Int) : Option Json :=
  if Binary64.minInt64 ≤ n && n ≤ Binary64.maxInt64 then some (.int n) else none

def isHexDigit (c : Char) : Bool := (Json.hexValue? c).isSome

def isOctalDigit (c : Char) : Bool := '0' ≤ c && c ≤ '7'

def isBinaryDigit (c : Char) : Bool := c == '0' || c == '1'

def readInteger? (cs : List Char) : Option Json :=
  match cs with
  | '0' :: 'x' :: ds => do integer? (digitsValue 16 (← plainDigits? isHexDigit ds))
  | '0' :: 'o' :: ds => do integer? (digitsValue 8 (← plainDigits? isOctalDigit ds))
  | '0' :: 'b' :: ds => do integer? (digitsValue 2 (← plainDigits? isBinaryDigit ds))
  | cs => do
    let (negative, ds) := Decimal.splitSign cs
    let n : Int := digitsValue 10 (← wholeDigits? ds)
    integer? (if negative then -n else n)

/-! ### Floats -/

def isExponentMark (c : Char) : Bool := c == 'e' || c == 'E'

def exponent? (cs : List Char) : Option Int := do
  let (negative, ds) := Decimal.splitSign cs
  let n : Int := digitsValue 10 (← plainDigits? Char.isDigit ds)
  some (if negative then -n else n)

/-- Reads a number with a fraction or an exponent, or one of the words `inf` and `nan`. A
number beyond the greatest double is refused. -/
def readFloat? (cs : List Char) : Option Json :=
  let (negative, r) := Decimal.splitSign cs
  if r = ['i', 'n', 'f'] then some (.float (if negative then -(1.0 / 0.0) else 1.0 / 0.0))
  else if r = ['n', 'a', 'n'] then some (.float (0.0 / 0.0))
  else do
    let mantissa := r.takeWhile fun c => !isExponentMark c
    let whole := mantissa.takeWhile (· != '.')
    let fraction ← match mantissa.dropWhile (· != '.') with
      | _ :: ds => plainDigits? Char.isDigit ds
      | [] => if mantissa.length = r.length then none else some []
    let e ← match r.dropWhile fun c => !isExponentMark c with
      | _ :: ds => exponent? ds
      | [] => some 0
    let digits := (← wholeDigits? whole) ++ fraction
    let x := Decimal.toDouble negative (digitsValue 10 digits) (e - (fraction.length : Int))
    if x == 1.0 / 0.0 then none else some (.float x)

/-! ### Dates and times -/

/-- Reads two digits of a number from `low` to `high`. -/
def twoDigits? (low high : Nat) : List Char → Option (List Char × List Char)
  | a :: b :: rest =>
    let n := digitsValue 10 [a, b]
    if a.isDigit && b.isDigit && low ≤ n && n ≤ high then some ([a, b], rest) else none
  | _ => none

def daysOfMonth (year month : Nat) : Nat :=
  if month = 2 then
    if year % 4 = 0 ∧ (year % 100 ≠ 0 ∨ year % 400 = 0) then 29 else 28
  else if month = 4 ∨ month = 6 ∨ month = 9 ∨ month = 11 then 30
  else 31

def date? (cs : List Char) : Option (List Char × List Char) := do
  let (century, cs) ← twoDigits? 0 99 cs
  let (year, cs) ← twoDigits? 0 99 cs
  let (month, cs) ← match cs with
    | '-' :: cs => twoDigits? 1 12 cs
    | _ => none
  let days := daysOfMonth (digitsValue 10 (century ++ year)) (digitsValue 10 month)
  let (day, cs) ← match cs with
    | '-' :: cs => twoDigits? 1 days cs
    | _ => none
  some (century ++ year ++ ['-'] ++ month ++ ['-'] ++ day, cs)

/-- The normal form of a fraction of a second: nine digits at most, no zeros at the end. -/
def fractionText (ds : List Char) : List Char :=
  match (((ds.take 9).reverse.dropWhile (· == '0')).reverse) with
  | [] => []
  | ds => '.' :: ds

def time? (cs : List Char) : Option (List Char × List Char) := do
  let (hour, cs) ← twoDigits? 0 23 cs
  let (minute, cs) ← match cs with
    | ':' :: cs => twoDigits? 0 59 cs
    | _ => none
  let (second, cs) ← match cs with
    | ':' :: cs => twoDigits? 0 60 cs
    | _ => none
  let clock := hour ++ [':'] ++ minute ++ [':'] ++ second
  match cs with
  | '.' :: cs =>
    let ds := cs.takeWhile Char.isDigit
    if ds.isEmpty then none else some (clock ++ fractionText ds, cs.dropWhile Char.isDigit)
  | cs => some (clock, cs)

def offset? : List Char → Option (List Char)
  | [] => some []
  | ['Z'] => some ['Z']
  | ['z'] => some ['Z']
  | sign :: cs => do
    let (hour, cs) ← twoDigits? 0 23 cs
    let (minute, cs) ← match cs with
      | ':' :: cs => twoDigits? 0 59 cs
      | _ => none
    let zero := digitsValue 10 (hour ++ minute) == 0
    if (sign == '+' || sign == '-') && cs.isEmpty then
      some ((if zero then '+' else sign) :: hour ++ [':'] ++ minute)
    else none

/-- Reads the whole of a date, a time, or both with or without an offset. -/
def dateText? (cs : List Char) : Option (List Char) :=
  match date? cs with
  | none => match time? cs with
    | some (t, []) => some t
    | _ => none
  | some (d, []) => some d
  | some (d, c :: cs) =>
    if c == 'T' || c == 't' || c == ' ' then do
      let (t, cs) ← time? cs
      let o ← offset? cs
      some (d ++ ['T'] ++ t ++ o)
    else none

def dateField : String := "$__toml_private_datetime"

def readDate? (cs : List Char) : Option Json :=
  (dateText? cs).map fun t => .obj [(dateField, .str (String.ofList t))]

/-! ### Words -/

/-- Characters of numbers, dates and truth values. -/
def isWordChar (c : Char) : Bool :=
  c.isAlphanum || c == '_' || c == '+' || c == '-' || c == '.' || c == ':'

/-- Splits off a word; a date takes a time behind a blank with it. -/
def splitWord (cs : List Char) : List Char × List Char :=
  let word := cs.takeWhile isWordChar
  let rest := cs.dropWhile isWordChar
  match date? word, rest with
  | some (_, []), ' ' :: more =>
    if (time? more).isSome then
      (word ++ ' ' :: more.takeWhile isWordChar, more.dropWhile isWordChar)
    else (word, rest)
  | _, _ => (word, rest)

/-- Reads a number, a truth value, a date or a time. -/
def readScalar? (cs : List Char) : Option Json :=
  if cs = ['t', 'r', 'u', 'e'] then some (.bool true)
  else if cs = ['f', 'a', 'l', 's', 'e'] then some (.bool false)
  else (readDate? cs).or ((readInteger? cs).or (readFloat? cs))

end ControlNode.Toml
