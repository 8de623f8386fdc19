/-!
# Exact parts of a double

A finite double is `±mant · 2^exp` with natural `mant`. The operations here work on these
parts in exact arithmetic: truncation to an integer, the four roundings to a whole number,
and the saturating conversion to a 64-bit integer.
-/

namespace ControlNode.Binary64

/-! ### Parts -/

/-- What a double is: no number, an infinity, or `±mant · 2^exp`. -/
inductive Parts where
  | nan
  | infinite (negative : Bool)
  | finite (negative : Bool) (mant : Nat) (exp : Int)
  deriving Repr, DecidableEq

/-- The `k`-th power of two. -/
def pow2 (k : Nat) : Nat := Nat.pow 2 k

/-- The parts of a double, read from its 64 bits. -/
def parts (x : Float) : Parts :=
  let bits : Nat := x.toBits.toNat
  let negative := bits / pow2 63 == 1
  let biased : Nat := bits / pow2 52 % pow2 11
  let fraction : Nat := bits % pow2 52
  if biased == 2047 then
    if fraction == 0 then .infinite negative else .nan
  else if biased == 0 then .finite negative fraction (-1074)
  else .finite negative (pow2 52 + fraction) ((biased : Int) - 1075)

def isFinite (x : Float) : Bool :=
  match parts x with
  | .finite .. => true
  | _ => false

/-- The double `±n`; a negative zero keeps its sign. -/
def ofSigned (negative : Bool) (n : Nat) : Float :=
  if negative then -(Float.ofNat n) else Float.ofNat n

/-! ### Whole numbers -/

def wholePart (mant : Nat) (exp : Int) : Nat :=
  match exp with
  | .ofNat k => mant * pow2 k
  | .negSucc k => mant / pow2 (k + 1)

def isWhole (mant : Nat) : Int → Bool
  | .ofNat _ => true
  | .negSucc k => mant % pow2 (k + 1) == 0

/-- Whether twice the fraction of `mant · 2^exp` is at least one. -/
def reachesHalf (mant : Nat) : Int → Bool
  | .ofNat _ => false
  | .negSucc k => pow2 (k + 1) ≤ 2 * (mant % pow2 (k + 1))

/-- A finite double without a fraction. -/
def isIntegral (x : Float) : Bool :=
  match parts x with
  | .finite _ mant exp => isWhole mant exp
  | _ => false

/-- Replaces a finite double with a fraction by its whole part, one larger in magnitude
where `away` says so; everything else stays as it is. -/
def roundBy (away : Bool → Nat → Int → Bool) (x : Float) : Float :=
  match parts x with
  | .finite negative mant exp =>
    if isWhole mant exp then x
    else ofSigned negative (wholePart mant exp + if away negative mant exp then 1 else 0)
  | _ => x

/-- The whole number nearest to `x` towards zero. -/
def trunc : Float → Float := roundBy fun _ _ _ => false

/-- The greatest whole number that is at most `x`. -/
def floor : Float → Float := roundBy fun negative _ _ => negative

/-- The least whole number that is at least `x`. -/
def ceil : Float → Float := roundBy fun negative _ _ => !negative

/-- The whole number nearest to `x`; a half goes away from zero. -/
def round : Float → Float := roundBy fun _ mant exp => reachesHalf mant exp

/-! ### Sixty-four-bit integers -/

/-- The least 64-bit integer. -/
def minInt64 : Int := -9223372036854775808

/-- The greatest 64-bit integer. -/
def maxInt64 : Int := 9223372036854775807

/-- The number of words of 64 bits. -/
def wordCount : Nat := 18446744073709551616

/-- The nearest 64-bit integer to `n`. -/
def clampInt64 (n : Int) : Int := max minInt64 (min maxInt64 n)

/-- The 64-bit integer that `n` is congruent to modulo `2^64`. -/
def wrapInt64 (n : Int) : Int := Int.bmod n wordCount

/-- Truncates towards zero and clamps to 64 bits; what is no number gives zero. -/
def toInt64 (x : Float) : Int :=
  match parts x with
  | .nan => 0
  | .infinite negative => if negative then minInt64 else maxInt64
  | .finite negative mant exp =>
    let whole : Int := wholePart mant exp
    clampInt64 (if negative then -whole else whole)

def ofInt (n : Int) : Float := ofSigned (n < 0) n.natAbs

end ControlNode.Binary64
