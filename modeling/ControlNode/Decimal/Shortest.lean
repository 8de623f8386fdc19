import ControlNode.Decimal.Binary64

/-!
# Shortest decimal digits

The fewest decimal digits that still read back as the same double. A double stands for all
reals that round to it; the digits are those of the first decimal grid that has a point in
this interval, and of two such points the one nearer to the double.
-/

namespace ControlNode.Decimal

/-! ### Digits -/

/-- The decimal digits of `n`, most significant first; zero has one. -/
def digitChars (n : Nat) : List Char := Nat.toDigits 10 n

def digitCount (n : Nat) : Nat := (digitChars n).length

/-- The `k`-th power of ten. -/
def pow10 (k : Nat) : Nat := Nat.pow 10 k

/-- The decimal exponent of the positive fraction `num / den`: the greatest `e` with
`10^e ≤ num / den`. -/
def exponent10 (num den : Nat) : Int :=
  if den ≤ num then (digitCount (num / den) : Int) - 1
  else
    let e := digitCount (den / num)
    if num * pow10 (e - 1) == den then -((e : Int) - 1) else -(e : Int)

/-! ### Rounding intervals -/

/-- The reals that round to a positive double `num / den`: those within `below / den` under
it and `above / den` over it, the ends counting when `closed`. -/
structure Interval where
  num : Nat
  den : Nat
  below : Nat
  above : Nat
  closed : Bool

/-- The interval of `mant · 2^exp`. Below a power of two the doubles lie twice as dense,
unless the power is the least normal one. -/
def Interval.ofParts (mant : Nat) (exp : Int) : Interval :=
  let scale := Binary64.pow2 (exp - 2).toNat
  { num := 4 * mant * scale
    den := Binary64.pow2 (2 - exp).toNat
    below := (if mant == Binary64.pow2 52 && -1074 < exp then 1 else 2) * scale
    above := 2 * scale
    closed := mant % 2 == 0 }

/-- A decimal number `coeff · 10^exp`. -/
structure Digits where
  coeff : Nat
  exp : Int
  deriving Repr, DecidableEq

/-- Which of two equally near decimals stands for a double. -/
inductive Tie where
  | up
  | even
  deriving Repr, DecidableEq

def Interval.gridPoint? (iv : Interval) (tie : Tie) (k : Int) : Option Nat :=
  let up := pow10 (-k).toNat
  let value := iv.num * up
  let unit := iv.den * pow10 k.toNat
  let low := value / unit
  let under := value - low * unit
  let excess := (low + 1) * unit - value
  let within (distance bound : Nat) : Bool :=
    if iv.closed then distance ≤ bound else distance < bound
  let lowOk := within under (iv.below * up)
  let highOk := within excess (iv.above * up)
  match lowOk, highOk with
  | false, false => none
  | true, false => some low
  | false, true => some (low + 1)
  | true, true =>
    if under < excess then some low
    else if excess < under then some (low + 1)
    else match tie with
      | .up => some (low + 1)
      | .even => some (if low % 2 == 0 then low else low + 1)

/-- Searches the grids from `10^k` downwards, at most `tries` of them. -/
def Interval.search (iv : Interval) (tie : Tie) : Nat → Int → Digits
  | 0, k => ⟨iv.num * pow10 (-k).toNat / (iv.den * pow10 k.toNat), k⟩
  | tries + 1, k =>
    match iv.gridPoint? tie k with
    | some coeff => ⟨coeff, k⟩
    | none => iv.search tie tries (k - 1)

/-- The shortest decimal that reads back as the positive double `mant · 2^exp`. Seventeen
digits always suffice. -/
def shortest (tie : Tie) (mant : Nat) (exp : Int) : Digits :=
  let iv := Interval.ofParts mant exp
  iv.search tie 17 (exponent10 iv.num iv.den)

end ControlNode.Decimal
