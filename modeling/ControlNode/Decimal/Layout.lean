import ControlNode.Decimal.Shortest

/-!
# Layouts of decimal numbers

How the shortest digits of a double are written: which exponents are written out in
positional notation, what follows a whole number, and how an exponent looks.
-/

namespace ControlNode.Decimal

structure Layout where
  /-- The decimal exponents that are written out in positional notation. -/
  positional : Int → Bool
  /-- What follows the digits of a whole number in positional notation. -/
  wholeSuffix : String
  /-- Which decimal stands for a double half-way between two. -/
  tie : Tie

def dropTrailingZeros (ds : List Char) : List Char :=
  (ds.reverse.dropWhile (· == '0')).reverse

/-- Writes the digits `ds`, the first of them at the decimal exponent `e`, without an
exponent. -/
def positionalText (wholeSuffix : String) (ds : List Char) (e : Int) : String :=
  if e < 0 then
    "0." ++ String.ofList (List.replicate (-e - 1).toNat '0' ++ ds)
  else
    let whole := e.toNat + 1
    if ds.length ≤ whole then
      String.ofList (ds ++ List.replicate (whole - ds.length) '0') ++ wholeSuffix
    else
      String.ofList (ds.take whole) ++ "." ++ String.ofList (ds.drop whole)

/-- Writes the digits `ds` as one digit, a fraction and a signed exponent. -/
def exponentText (ds : List Char) (e : Int) : String :=
  let mantissa := match ds with
    | d :: rest@(_ :: _) => String.ofList [d] ++ "." ++ String.ofList rest
    | _ => String.ofList ds
  mantissa ++ (if e < 0 then "e-" else "e+") ++ String.ofList (digitChars e.natAbs)

def Layout.positiveText (layout : Layout) (mant : Nat) (exp : Int) : String :=
  let d := shortest layout.tie mant exp
  let ds := digitChars d.coeff
  let e := d.exp + (ds.length : Int) - 1
  let ds := dropTrailingZeros ds
  if layout.positional e then positionalText layout.wholeSuffix ds e else exponentText ds e

def Layout.text (layout : Layout) (x : Float) : String :=
  match Binary64.parts x with
  | .nan => "NaN"
  | .infinite negative => if negative then "-inf" else "inf"
  | .finite negative mant exp =>
    (if negative then "-" else "") ++
      (if mant == 0 then "0" ++ layout.wholeSuffix else layout.positiveText mant exp)

/-- Plain numbers: positional at every magnitude, with a fraction only where there is one. -/
def plain : Layout := ⟨fun _ => true, "", .up⟩

/-- Numbers of configuration texts: positional, and a whole number ends in `.0`. -/
def plainFraction : Layout := ⟨fun _ => true, ".0", .up⟩

/-- Numbers of interchange texts: always with a fraction or an exponent, the exponent from
`10^16` upwards and below `10^-5`. -/
def interchange : Layout := ⟨fun e => -5 ≤ e && e ≤ 15, ".0", .even⟩

end ControlNode.Decimal
