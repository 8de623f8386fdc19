import ControlNode.Expr.Basic
import ControlNode.Text.Blank

/-!
# Reading expressions

An expression is read from a range of the source. What starts with a dollar sign is a
reference, what holds a parenthesis is a call, all else is a constant. A refusal names the
offending token and the byte at which it starts.
-/

namespace ControlNode

/-! ### Refusals -/

inductive ParseReason where
  | invalidExpression
  | unbalancedParens
  | unexpectedText
  | unknownFunction
  | wrongArity
  | invalidConstant
  | externalDependency
  deriving Repr, DecidableEq

def ParseReason.text : ParseReason → String
  | .invalidExpression => "invalid expression"
  | .unbalancedParens => "unbalanced parentheses"
  | .unexpectedText => "unexpected text"
  | .unknownFunction => "unknown function"
  | .wrongArity => "wrong number of arguments"
  | .invalidConstant => "invalid constant"
  | .externalDependency => "external dependency"

/-- A refusal: the reason, the offending token and the byte at which it starts. -/
structure ParseError where
  reason : ParseReason
  token : String
  pos : Nat
  deriving Repr, DecidableEq

def ParseError.message (e : ParseError) : String :=
  e.reason.text ++ " \"" ++ e.token ++ "\" at position " ++ toString e.pos

namespace Expr

open Text

def refuse (reason : ParseReason) (token : List Char) (pos : Nat) : Except ParseError α :=
  .error ⟨reason, String.ofList token, pos⟩

/-! ### References -/

def isIdChar (c : Char) : Bool := c.isAlphanum || c == '_' || c == '-' || c == '.'

/-- The reserved id that stands for the owner of an expression. -/
def selfWord : List Char := ['s', 'e', 'l', 'f']

/-- Reads the id behind a dollar sign that stands at `pos`. -/
def readRef (selfId : String) (pos : Nat) (id : List Char) : Except ParseError Expr :=
  match id.dropWhile isIdChar with
  | c :: rest =>
    refuse (if c = ')' then .unbalancedParens else .unexpectedText) (c :: rest)
      (pos + 1 + byteLength (id.takeWhile isIdChar))
  | [] =>
    if id = [] ∨ id = selfWord then .ok (.ref ⟨selfId, true, pos⟩)
    else .ok (.ref ⟨String.ofList id, false, pos⟩)

/-! ### Constants -/

def constantValue? (token : List Char) : Option Value :=
  if token = ['t', 'r', 'u', 'e'] then some (.bool true)
  else if token = ['f', 'a', 'l', 's', 'e'] then some (.bool false)
  else match Decimal.readInt64? token with
    | some i => some (Value.ofInt i)
    | none => match Decimal.readDouble? token with
      | some x => if Binary64.isFinite x then some (.num x) else none
      | none => none

def readConstant (pos : Nat) (token : List Char) : Except ParseError Expr :=
  if ')' ∈ token then
    refuse .unbalancedParens [')'] (pos + byteLength (token.takeWhile (· ≠ ')')))
  else if ',' ∈ token then
    refuse .unexpectedText (token.dropWhile (· ≠ ','))
      (pos + byteLength (token.takeWhile (· ≠ ',')))
  else match constantValue? token with
    | some v => .ok (.const v)
    | none => refuse .invalidConstant token pos

/-! ### Calls -/

def isNameChar (c : Char) : Bool := c.isAlphanum || c == '_'

/-- Puts a character in front of the first piece. -/
def pushChar (c : Char) : List (List Char) × List Char → List (List Char) × List Char
  | ([], rest) => ([[c]], rest)
  | (p :: ps, rest) => ((c :: p) :: ps, rest)

/-- Splits what follows an opening parenthesis at the commas of its own level, up to the
parenthesis that closes it; `depth` counts the inner parentheses that are open. -/
def splitArgs : (depth : Nat) → List Char → Option (List (List Char) × List Char)
  | _, [] => none
  | depth, c :: cs =>
    if c = '(' then (splitArgs (depth + 1) cs).map (pushChar c)
    else if c = ')' then
      match depth with
      | 0 => some ([[]], cs)
      | depth + 1 => (splitArgs depth cs).map (pushChar c)
    else if c = ',' ∧ depth = 0 then
      (splitArgs 0 cs).map fun (ps, rest) => ([] :: ps, rest)
    else (splitArgs depth cs).map (pushChar c)

def piecesLength : List (List Char) → Nat
  | [] => 0
  | p :: ps => p.length + 1 + piecesLength ps

theorem piecesLength_pushChar (c : Char) (r : List (List Char) × List Char)
    (h : r.1 ≠ []) : piecesLength (pushChar c r).1 = piecesLength r.1 + 1 := by
  obtain ⟨ps, rest⟩ := r
  cases ps with
  | nil => exact absurd rfl h
  | cons p ps => simp [pushChar, piecesLength]; omega

theorem pushChar_fst_ne_nil (c : Char) (r : List (List Char) × List Char) :
    (pushChar c r).1 ≠ [] := by
  obtain ⟨ps, rest⟩ := r
  cases ps <;> simp [pushChar]

theorem pushChar_snd (c : Char) (r : List (List Char) × List Char) :
    (pushChar c r).2 = r.2 := by
  obtain ⟨ps, rest⟩ := r
  cases ps <;> rfl

/-- The pieces and the rest use up the text: nothing is lost. -/
theorem splitArgs_length (cs : List Char) (depth : Nat)
    (r : List (List Char) × List Char) (h : splitArgs depth cs = some r) :
    r.1 ≠ [] ∧ piecesLength r.1 + r.2.length = cs.length := by
  induction cs generalizing depth r with
  | nil => simp [splitArgs] at h
  | cons c cs ih =>
    have push (d : Nat) (h : (splitArgs d cs).map (pushChar c) = some r) :
        r.1 ≠ [] ∧ piecesLength r.1 + r.2.length = (c :: cs).length := by
      obtain ⟨q, hq, rfl⟩ := Option.map_eq_some_iff.1 h
      obtain ⟨hne, hlen⟩ := ih d q hq
      refine ⟨pushChar_fst_ne_nil c q, ?_⟩
      rw [piecesLength_pushChar c q hne, pushChar_snd, List.length_cons]
      omega
    unfold splitArgs at h
    split at h
    · exact push _ h
    · split at h
      · split at h
        · cases h
          simp [piecesLength]
          omega
        · exact push _ h
      · split at h
        · obtain ⟨q, hq, rfl⟩ := Option.map_eq_some_iff.1 h
          obtain ⟨_, hlen⟩ := ih 0 q hq
          simp only [piecesLength, List.length_nil, List.length_cons]
          exact ⟨by simp, by omega⟩
        · exact push _ h

/-- A text that starts at a byte of the source. -/
structure Located where
  pos : Nat
  chars : List Char

/-- Drops the blank characters at the ends. -/
def Located.trim (s : Located) : Located :=
  ⟨s.pos + byteLength (s.chars.takeWhile isBlank), Text.trim s.chars⟩

/-- Attaches to each piece the byte at which it starts; the pieces stand one character
apart. -/
def locate (pos : Nat) : List (List Char) → List Located
  | [] => []
  | p :: ps => ⟨pos, p⟩ :: locate (pos + byteLength p + 1) ps

/-- The arguments of a call: none where there is but one blank piece. -/
def argPieces : List (List Char) → List (List Char)
  | [p] => if allBlank p then [] else [p]
  | ps => ps

structure CallParts where
  name : List Char
  /-- The byte behind the opening parenthesis. -/
  bodyPos : Nat
  pieces : List (List Char)

/-- Takes a call apart that starts at `pos`: `nameText` stands in front of its first
parenthesis, `body` behind it. -/
def readCallParts (pos : Nat) (nameText body : List Char) : Except ParseError CallParts :=
  let name := trimEnd nameText
  let open_ := pos + byteLength nameText
  if name = [] then refuse .invalidExpression ['('] open_
  else match name.dropWhile isNameChar with
    | c :: rest =>
      refuse .unexpectedText (c :: rest) (pos + byteLength (name.takeWhile isNameChar))
    | [] => match splitArgs 0 body with
      | none => refuse .unbalancedParens ['('] open_
      | some (pieces, rest) =>
        let tail := Text.trim rest
        if tail = [] then .ok ⟨name, open_ + 1, argPieces pieces⟩
        else
          let used := body.take (body.length - rest.length)
          refuse (if tail.head? = some ')' then .unbalancedParens else .unexpectedText) tail
            (open_ + 1 + byteLength used + byteLength (rest.takeWhile isBlank))

theorem piecesLength_argPieces_le (ps : List (List Char)) :
    piecesLength (argPieces ps) ≤ piecesLength ps := by
  unfold argPieces
  split
  · split <;> simp [piecesLength]
  · exact Nat.le_refl _

theorem readCallParts_length {pos : Nat} {nameText body : List Char} {parts : CallParts}
    (h : readCallParts pos nameText body = .ok parts) :
    piecesLength parts.pieces ≤ body.length := by
  simp only [readCallParts, refuse] at h
  split at h
  · cases h
  · split at h
    · cases h
    · split at h
      · cases h
      · rename_i pieces rest hs
        split at h
        · cases h
          have hlen := (splitArgs_length body 0 _ hs).2
          have hle := piecesLength_argPieces_le pieces
          simp only at hlen ⊢
          omega
        · cases h

def locatedLength : List Located → Nat
  | [] => 0
  | s :: ss => s.chars.length + 1 + locatedLength ss

theorem locatedLength_locate (pos : Nat) (ps : List (List Char)) :
    locatedLength (locate pos ps) = piecesLength ps := by
  induction ps generalizing pos with
  | nil => rfl
  | cons p ps ih => simp [locate, locatedLength, piecesLength, ih]

/-! ### Expressions -/

/-- The first parenthesis of a text: what stands in front of it and behind it. -/
def splitAtParen (cs : List Char) : Option (List Char × List Char) :=
  match cs.dropWhile (· ≠ '(') with
  | [] => none
  | _ :: body => some (cs.takeWhile (· ≠ '('), body)

theorem splitAtParen_length {cs front body : List Char}
    (h : splitAtParen cs = some (front, body)) : body.length < cs.length := by
  unfold splitAtParen at h
  split at h
  · cases h
  · rename_i c rest heq
    cases h
    have hle := (List.dropWhile_sublist (l := cs) (· ≠ '(')).length_le
    rw [heq, List.length_cons] at hle
    omega

mutual

def readRange (selfId : String) (s : Located) : Except ParseError Expr :=
  let t := s.trim
  match t.chars with
  | [] => refuse .invalidExpression [] s.pos
  | c :: cs =>
    if c = '$' then readRef selfId t.pos cs
    else match _hp : splitAtParen t.chars with
      | none => readConstant t.pos t.chars
      | some (front, body) =>
        match _hc : readCallParts t.pos front body with
        | .error e => .error e
        | .ok parts => match Func.find? parts.name with
          | none => refuse .unknownFunction parts.name t.pos
          | some f => match readArgs selfId (locate parts.bodyPos parts.pieces) with
            | .error e => .error e
            | .ok args =>
              if f.accepts args.length then .ok (.call f t.pos (.initial f) args)
              else refuse .wrongArity parts.name t.pos
termination_by s.chars.length
decreasing_by
  have h1 := splitAtParen_length _hp
  have h2 := readCallParts_length _hc
  have h3 := length_trim_le s.chars
  rw [locatedLength_locate]
  simp only [t, Located.trim] at h1
  omega

def readArgs (selfId : String) : List Located → Except ParseError (List Expr)
  | [] => .ok []
  | s :: ss => match readRange selfId s with
    | .error e => .error e
    | .ok e => match readArgs selfId ss with
      | .error err => .error err
      | .ok es => .ok (e :: es)
termination_by ss => locatedLength ss
decreasing_by
  · simp only [locatedLength]; omega
  · simp only [locatedLength]; omega

end

/-- Reads an expression that `selfId` is going to own. -/
def parse (source selfId : String) : Except ParseError Expr :=
  readRange selfId ⟨0, source.toList⟩

/-- Reads a transform of the port `selfId`: it may refer to no other port. -/
def parseTransform (source selfId : String) : Except ParseError Expr :=
  match parse source selfId with
  | .error e => .error e
  | .ok e => match e.externalRefs.find? fun r => r.id ≠ selfId with
    | some r => .error ⟨.externalDependency, "$" ++ r.id, r.pos⟩
    | none => .ok e

end Expr

end ControlNode
