import ControlNode.Json.Basic

/-!
# Reading JSON

A strict reader: one value, blank characters around it, nothing else. Nesting is limited and a
number beyond the range of doubles is refused. The raw reading keeps the fields of an object
as they stand; the normal one lists them in key order, of two of one name the later.
-/

namespace ControlNode.Json

/-! ### Tokens -/

def isSpace (c : Char) : Bool := c == ' ' || c == '\n' || c == '\t' || c == '\r'

def skipSpace (cs : List Char) : List Char := cs.dropWhile isSpace

def hexValue? (c : Char) : Option Nat :=
  if c.isDigit then some (c.toNat - 48)
  else if 'a' ≤ c && c ≤ 'f' then some (c.toNat - 87)
  else if 'A' ≤ c && c ≤ 'F' then some (c.toNat - 55)
  else none

/-- Four hexadecimal digits and what follows them. -/
def hexUnit? : List Char → Option (Nat × List Char)
  | a :: b :: c :: d :: rest => do
    let a ← hexValue? a
    let b ← hexValue? b
    let c ← hexValue? c
    let d ← hexValue? d
    some (((a * 16 + b) * 16 + c) * 16 + d, rest)
  | _ => none

/-- The character of an escape after `\u`: one unit, or a pair of surrogates. -/
def unicodeEscape? (cs : List Char) : Option (Char × List Char) := do
  let (high, rest) ← hexUnit? cs
  if 0xD800 ≤ high && high < 0xDC00 then
    match rest with
    | '\\' :: 'u' :: rest => do
      let (low, rest) ← hexUnit? rest
      if 0xDC00 ≤ low && low < 0xE000 then
        some (Char.ofNat (0x10000 + (high - 0xD800) * 1024 + (low - 0xDC00)), rest)
      else none
    | _ => none
  else if 0xDC00 ≤ high && high < 0xE000 then none
  else some (Char.ofNat high, rest)

def letterEscape? (c : Char) : Option Char :=
  if c == '"' || c == '\\' || c == '/' then some c
  else if c == 'b' then some (Char.ofNat 8)
  else if c == 'f' then some (Char.ofNat 12)
  else if c == 'n' then some '\n'
  else if c == 'r' then some '\r'
  else if c == 't' then some '\t'
  else none

/-- Reads a string from behind its opening quote; `acc` holds the characters so far, the last
one first. `fuel` bounds the number of characters and escapes. -/
def readString? : (fuel : Nat) → (acc : List Char) → List Char →
    Option (String × List Char)
  | 0, _, _ => none
  | fuel + 1, acc, cs =>
    match cs with
    | [] => none
    | '"' :: rest => some (String.ofList acc.reverse, rest)
    | '\\' :: 'u' :: rest => do
      let (c, rest) ← unicodeEscape? rest
      readString? fuel (c :: acc) rest
    | '\\' :: c :: rest => do
      let c ← letterEscape? c
      readString? fuel (c :: acc) rest
    | c :: rest => if c.toNat < 32 || c == '\\' then none else readString? fuel (c :: acc) rest

def spanDigits (cs : List Char) : List Char × List Char :=
  (cs.takeWhile Char.isDigit, cs.dropWhile Char.isDigit)

/-- Reads a decimal point with its digits, if one is there; `none` where digits are missing. -/
def readFraction? : List Char → Option (Option (List Char) × List Char)
  | '.' :: cs =>
    let (ds, rest) := spanDigits cs
    if ds.isEmpty then none else some (some ds, rest)
  | cs => some (none, cs)

/-- Reads an exponent mark with its digits, if one is there; `none` where digits are missing. -/
def readExponent? : List Char → Option (Option Int × List Char)
  | c :: cs =>
    if c == 'e' || c == 'E' then
      let (negative, r) := Decimal.splitSign cs
      let (ds, rest) := spanDigits r
      if ds.isEmpty then none
      else
        let n : Int := Decimal.valueFrom 0 ds
        some (some (if negative then -n else n), rest)
    else some (none, c :: cs)
  | [] => some (none, [])

/-- Reads digits while the number stays below `2^64`; the digits that do not fit are left over. -/
def fillWord (acc : Nat) : List Char → Nat × List Char
  | [] => (acc, [])
  | c :: cs =>
    let next := acc * 10 + Decimal.digitValue c
    if next < Binary64.wordCount then fillWord next cs else (acc, c :: cs)

/-- A double that is not finite is out of range. -/
def finite? (x : Float) : Option Json := if Binary64.isFinite x then some (.float x) else none

/-- The number of an integer text that fits into 64 bits: a double only where the sign does not fit
as well. -/
def integerValue (negative : Bool) (n : Nat) : Option Json :=
  if !negative then some (.int n)
  else if 0 < n && n ≤ Binary64.pow2 63 then some (.int (-(n : Int)))
  else finite? (Binary64.ofSigned true n)

def pow10 (n : Nat) : Float := Float.ofScientific 1 false n

/-- The double that `mant · 10^exp` is read as, for a `mant` of 64 bits. It is rounded as an integer
and once more by each power of ten, so that it need not be the nearest one. -/
def scaled (mant : Nat) (exp : Int) : Float :=
  let x := Float.ofNat mant
  match exp with
  | .ofNat n => if mant = 0 then 0 else if n ≤ 308 then x * pow10 n else 1.0 / 0.0
  | .negSucc k =>
    let n := k + 1
    if n ≤ 308 then x / pow10 n
    else if n ≤ 616 then x / pow10 308 / pow10 (n - 308)
    else 0

/-- The number of a text with its parts. Digits that do not fit into 64 bits count as zeros before
the decimal point and are passed over behind it. -/
def numberValue (negative : Bool) (whole : List Char) (fraction : Option (List Char))
    (exponent : Option Int) : Option Json :=
  let (n, dropped) := fillWord 0 whole
  match dropped, fraction, exponent with
  | [], none, none => integerValue negative n
  | _, _, _ =>
    let ds := fraction.getD []
    let (mant, unused) := fillWord n ds
    let x := scaled mant (exponent.getD 0 + dropped.length - (ds.length - unused.length : Int))
    finite? (if negative then -x else x)

def readUnsigned? (negative : Bool) (cs : List Char) : Option (Json × List Char) := do
  let (whole, rest) := spanDigits cs
  if whole.isEmpty || (whole.head? == some '0' && whole.length != 1) then none
  else
    let (fraction, rest) ← readFraction? rest
    let (exponent, rest) ← readExponent? rest
    let j ← numberValue negative whole fraction exponent
    some (j, rest)

def readNumber? : List Char → Option (Json × List Char)
  | '-' :: cs => readUnsigned? true cs
  | cs => readUnsigned? false cs

def afterWord? (word : List Char) (cs : List Char) : Option (List Char) :=
  if word.isPrefixOf cs then some (cs.drop word.length) else none

/-! ### Values -/

/-- The number of nested lists and objects that are accepted. -/
def maxDepth : Nat := 127

mutual

/-- Reads one value. `fuel` bounds the steps, `depth` the levels that may still open. -/
def readValue? (fuel depth : Nat) (cs : List Char) : Option (Json × List Char) :=
  match fuel with
  | 0 => none
  | fuel + 1 =>
    match skipSpace cs with
    | '"' :: rest => (readString? (rest.length + 1) [] rest).map fun (s, r) => (.str s, r)
    | '[' :: rest =>
      match depth with
      | 0 => none
      | depth + 1 =>
        match skipSpace rest with
        | ']' :: rest => some (.arr [], rest)
        | rest => (readItems? fuel depth [] rest).map fun (items, r) => (.arr items, r)
    | '\x7b' :: rest =>
      match depth with
      | 0 => none
      | depth + 1 =>
        match skipSpace rest with
        | '\x7d' :: rest => some (.obj [], rest)
        | rest => (readFields? fuel depth [] rest).map fun (fields, r) => (.obj fields, r)
    | 'n' :: rest => (afterWord? "ull".toList rest).map fun r => (.null, r)
    | 't' :: rest => (afterWord? "rue".toList rest).map fun r => (.bool true, r)
    | 'f' :: rest => (afterWord? "alse".toList rest).map fun r => (.bool false, r)
    | cs => readNumber? cs

/-- Reads the items of a list up to its closing bracket; `acc` holds those so far, the last
one first. -/
def readItems? (fuel depth : Nat) (acc : List Json) (cs : List Char) :
    Option (List Json × List Char) :=
  match fuel with
  | 0 => none
  | fuel + 1 => do
    let (item, rest) ← readValue? fuel depth cs
    match skipSpace rest with
    | ',' :: rest => readItems? fuel depth (item :: acc) rest
    | ']' :: rest => some ((item :: acc).reverse, rest)
    | _ => none

/-- Reads the fields of an object up to its closing brace; `acc` holds those so far, the last
one first. -/
def readFields? (fuel depth : Nat) (acc : List (String × Json)) (cs : List Char) :
    Option (List (String × Json) × List Char) :=
  match fuel with
  | 0 => none
  | fuel + 1 =>
    match skipSpace cs with
    | '"' :: rest => do
      let (name, rest) ← readString? (rest.length + 1) [] rest
      match skipSpace rest with
      | ':' :: rest => do
        let (value, rest) ← readValue? fuel depth rest
        match skipSpace rest with
        | ',' :: rest => readFields? fuel depth ((name, value) :: acc) rest
        | '\x7d' :: rest => some (((name, value) :: acc).reverse, rest)
        | _ => none
      | _ => none
    | _ => none

end

/-- Reads a text that holds one value and nothing else, with all fields as they stand. -/
def parseRaw? (s : String) : Option Json :=
  let cs := s.toList
  match readValue? (3 * cs.length + 3) maxDepth cs with
  | some (j, rest) => if (skipSpace rest).isEmpty then some j else none
  | none => none

/-! ### Normal form -/

mutual

/-- Lists the fields of every object in key order; of two of one name the later counts.
Doubles that are not finite become null. -/
def normalize : Json → Json
  | .arr items => .arr (normalizeItems items)
  | .obj fields => .obj (Dict.ofList (normalizeFields fields))
  | .null => .null
  | .bool b => .bool b
  | .int n => .int n
  | .float x => ofFloat x
  | .str s => .str s
termination_by structural j => j

def normalizeItems : List Json → List Json
  | [] => []
  | a :: as => normalize a :: normalizeItems as
termination_by structural as => as

def normalizeFields : List (String × Json) → List (String × Json)
  | [] => []
  | (k, a) :: as => (k, normalize a) :: normalizeFields as
termination_by structural as => as

end

/-- Reads a text that holds one value and nothing else. -/
def parse? (s : String) : Option Json := (parseRaw? s).map normalize

end ControlNode.Json
