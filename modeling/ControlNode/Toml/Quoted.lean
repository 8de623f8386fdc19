import ControlNode.Json.Parser

/-!
# TOML strings

Basic strings, in which a backslash begins an escape, and literal strings, in which every
character stands for itself; both on one line, or on several between three quotes.
-/

namespace ControlNode.Toml

/-- Whether a character may stand in a string or comment: no control character but a tab. -/
def isPrintable (c : Char) : Bool := c == '\t' || (' ' ≤ c && c.toNat ≠ 127)

/-- Reads hexadecimal digits of a character's code. -/
def codePoint? (count : Nat) (cs : List Char) : Option (Char × List Char) := do
  let ds ← (cs.take count).mapM Json.hexValue?
  let n := ds.foldl (fun n d => n * 16 + d) 0
  if ds.length = count && (n < 0xD800 || (0xE000 ≤ n && n < 0x110000)) then
    some (Char.ofNat n, cs.drop count)
  else none

def escape? : List Char → Option (Char × List Char)
  | 'b' :: cs => some (Char.ofNat 8, cs)
  | 't' :: cs => some ('\t', cs)
  | 'n' :: cs => some ('\n', cs)
  | 'f' :: cs => some (Char.ofNat 12, cs)
  | 'r' :: cs => some ('\r', cs)
  | '"' :: cs => some ('"', cs)
  | '\\' :: cs => some ('\\', cs)
  | 'u' :: cs => codePoint? 4 cs
  | 'U' :: cs => codePoint? 8 cs
  | _ => none

/-- The text behind the end of a line. -/
def afterNewline? : List Char → Option (List Char)
  | '\n' :: cs => some cs
  | '\r' :: '\n' :: cs => some cs
  | _ => none

def isBlankOrNewline (c : Char) : Bool := c == ' ' || c == '\t' || c == '\n' || c == '\r'

def isInlineBlank (c : Char) : Bool := c == ' ' || c == '\t'

/-- What follows a backslash at the end of a line: the first text on a later line. -/
def afterContinuation? (cs : List Char) : Option (List Char) :=
  (afterNewline? (cs.dropWhile isInlineBlank)).map fun cs => cs.dropWhile isBlankOrNewline

def lineString? (quote : Char) : (fuel : Nat) → (acc : List Char) → List Char →
    Option (String × List Char)
  | 0, _, _ => none
  | fuel + 1, acc, cs =>
    match cs with
    | [] => none
    | c :: cs =>
      if c = quote then some (String.ofList acc.reverse, cs)
      else if c = '\\' && quote = '"' then do
        let (c, cs) ← escape? cs
        lineString? quote fuel (c :: acc) cs
      else if isPrintable c then lineString? quote fuel (c :: acc) cs
      else none

/-- The quotes in front of a text, five at most. -/
def leadingQuotes (quote : Char) (cs : List Char) : Nat :=
  ((cs.take 5).takeWhile (· == quote)).length

/-- Reads a string on several lines up to its closing quotes; one or two quotes in front of
these belong to the string. -/
def blockString? (quote : Char) : (fuel : Nat) → (acc : List Char) → List Char →
    Option (String × List Char)
  | 0, _, _ => none
  | fuel + 1, acc, cs =>
    match cs with
    | [] => none
    | c :: rest =>
      if c = quote then
        let n := leadingQuotes quote cs
        if 3 ≤ n then
          some (String.ofList (List.replicate (n - 3) quote ++ acc).reverse, cs.drop n)
        else blockString? quote fuel (c :: acc) rest
      else match afterNewline? cs with
        | some cs => blockString? quote fuel ('\n' :: acc) cs
        | none =>
          if c = '\\' && quote = '"' then
            match afterContinuation? rest with
            | some cs => blockString? quote fuel acc cs
            | none => do
              let (c, cs) ← escape? rest
              blockString? quote fuel (c :: acc) cs
          else if isPrintable c then blockString? quote fuel (c :: acc) rest
          else none

def simpleString? (cs : List Char) : Option (String × List Char) :=
  match cs with
  | '"' :: rest => lineString? '"' cs.length [] rest
  | '\'' :: rest => lineString? '\'' cs.length [] rest
  | _ => none

def readString? (cs : List Char) : Option (String × List Char) :=
  let block (quote : Char) (rest : List Char) : Option (String × List Char) :=
    blockString? quote (cs.length + 1) [] ((afterNewline? rest).getD rest)
  match cs with
  | '"' :: '"' :: '"' :: rest => block '"' rest
  | '\'' :: '\'' :: '\'' :: rest => block '\'' rest
  | cs => simpleString? cs

end ControlNode.Toml
