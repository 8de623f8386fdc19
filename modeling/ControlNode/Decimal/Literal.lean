import ControlNode.Decimal.Binary64

/-!
# Number literals

Readers for the integer and double literals that expressions, record ids and settings may
contain. A reader accepts the whole text or refuses it.
-/

namespace ControlNode.Decimal

/-! ### Digits -/

def digitValue (c : Char) : Nat := c.toNat - 48

/-- The number that a run of digits denotes, continuing from `acc`. -/
def valueFrom (acc : Nat) : List Char → Nat
  | [] => acc
  | c :: cs => valueFrom (acc * 10 + digitValue c) cs

/-- The number that a non-empty run of ASCII digits denotes. -/
def readDigits? (cs : List Char) : Option Nat :=
  if cs.isEmpty || !cs.all Char.isDigit then none else some (valueFrom 0 cs)

def splitSign : List Char → Bool × List Char
  | '-' :: cs => (true, cs)
  | '+' :: cs => (false, cs)
  | cs => (false, cs)

/-! ### Integers -/

def readInt64? (cs : List Char) : Option Int :=
  let (negative, ds) := splitSign cs
  match readDigits? ds with
  | none => none
  | some n =>
    let i : Int := if negative then -(n : Int) else n
    if Binary64.minInt64 ≤ i && i ≤ Binary64.maxInt64 then some i else none

/-- Reads a natural number below `2^64`, a plus sign in front allowed. -/
def readUInt64? (cs : List Char) : Option Nat :=
  let ds := match cs with
    | '+' :: r => r
    | _ => cs
  match readDigits? ds with
  | some n => if n < Binary64.wordCount then some n else none
  | none => none

/-! ### Doubles -/

/-- The double nearest to `±mant · 10^exp`. Beyond the range of doubles this is an infinity
or a zero. -/
def toDouble (negative : Bool) (mant : Nat) (exp : Int) : Float :=
  let magnitude : Float :=
    if mant == 0 then 0
    else
      let top := (Nat.toDigits 10 mant).length + exp
      if top > 320 then 1.0 / 0.0
      else if top < -330 then 0
      else Float.ofScientific mant (exp < 0) exp.natAbs
  if negative then -magnitude else magnitude

def readExponent? : List Char → Option Int
  | [] => some 0
  | c :: cs =>
    if c == 'e' || c == 'E' then
      let (negative, ds) := splitSign cs
      (readDigits? ds).map fun n => if negative then -(n : Int) else n
    else none

/-- Reads unsigned digits with an optional fraction and an optional exponent; there is at
least one digit before the exponent. -/
def readUnsigned? (cs : List Char) : Option (Nat × Int) :=
  let whole := cs.takeWhile Char.isDigit
  let rest := cs.dropWhile Char.isDigit
  let (fraction, rest) := match rest with
    | '.' :: r => (r.takeWhile Char.isDigit, r.dropWhile Char.isDigit)
    | _ => ([], rest)
  if whole.isEmpty && fraction.isEmpty then none
  else
    (readExponent? rest).map fun e =>
      (valueFrom 0 (whole ++ fraction), e - (fraction.length : Int))

/-- Whether a text is `word` in any mixture of ASCII cases; `word` is in lower case. -/
def isWord (word : String) (cs : List Char) : Bool :=
  cs.map Char.toLower == word.toList

/-- Reads a double literal: digits with an optional fraction and exponent, or one of the
words `inf`, `infinity` and `nan` in any case; a sign may stand in front. -/
def readDouble? (cs : List Char) : Option Float :=
  let (negative, r) := splitSign cs
  if isWord "inf" r || isWord "infinity" r then
    some (if negative then -(1.0 / 0.0) else 1.0 / 0.0)
  else if isWord "nan" r then some (0.0 / 0.0)
  else (readUnsigned? r).map fun (mant, exp) => toDouble negative mant exp

end ControlNode.Decimal
