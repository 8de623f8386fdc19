import ControlNode.Proofs.Expr.Positions

/-!
# Reading by byte positions

A reader may keep the source whole and pass on where a part begins and ends, in bytes. Every cut
then has to be a legal one: its ends in order, inside the text and between two characters. The
functions here read that way and yield none where a cut, a difference or the count of open
parentheses would fail. None ever does, and what they read is what `parse` reads (`read_eq`).
-/

namespace ControlNode.Expr.Span

open Text

/-! ### Cuts -/

/-- The first `n` bytes and what is behind them, if they end between two characters. -/
def splitAtByte? : Nat → List Char → Option (List Char × List Char)
  | 0, text => some ([], text)
  | _ + 1, [] => none
  | n + 1, c :: text =>
    if c.utf8Size ≤ n + 1 then
      (splitAtByte? (n + 1 - c.utf8Size) text).map fun (front, rest) => (c :: front, rest)
    else none

def sub? (a b : Nat) : Option Nat := if b ≤ a then some (a - b) else none

/-- The text between two byte positions. -/
def slice? (source : List Char) (start stop : Nat) : Option (List Char) := do
  let size ← sub? stop start
  let (_, behind) ← splitAtByte? start source
  let (text, _) ← splitAtByte? size behind
  some text

theorem splitAtByte?_append (front rest : List Char) :
    splitAtByte? (byteLength front) (front ++ rest) = some (front, rest) := by
  induction front with
  | nil => simp [splitAtByte?, byteLength]
  | cons c front ih =>
    have hpos := c.utf8Size_pos
    obtain ⟨n, hn⟩ : ∃ n, byteLength (c :: front) = n + 1 :=
      Nat.exists_eq_succ_of_ne_zero (by rw [byteLength]; omega)
    have hle : c.utf8Size ≤ n + 1 := by
      rw [← hn, byteLength]
      omega
    have hfront : n + 1 - c.utf8Size = byteLength front := by
      rw [← hn, byteLength]
      omega
    rw [hn, List.cons_append, splitAtByte?, if_pos hle, hfront, ih, Option.map_some]

theorem eq_append_of_splitAtByte? {n : Nat} {text front rest : List Char}
    (h : splitAtByte? n text = some (front, rest)) :
    text = front ++ rest ∧ byteLength front = n := by
  induction text generalizing n front with
  | nil =>
    cases n with
    | zero =>
      cases h
      exact ⟨rfl, rfl⟩
    | succ n => cases h
  | cons c text ih =>
    cases n with
    | zero =>
      cases h
      exact ⟨rfl, rfl⟩
    | succ n =>
      rw [splitAtByte?] at h
      split at h
      · rename_i hle
        obtain ⟨⟨front', rest'⟩, hsplit, heq⟩ := Option.map_eq_some_iff.mp h
        cases heq
        obtain ⟨htext, hlength⟩ := ih hsplit
        refine ⟨by rw [htext, List.cons_append], ?_⟩
        rw [byteLength, hlength]
        omega
      · cases h

/-- A text can be cut out where it stands, and nothing else can. -/
theorem slice?_eq_some_iff {source text : List Char} {start stop : Nat} :
    slice? source start stop = some text ↔ ∃ before, before ++ text <+: source ∧
      start = byteLength before ∧ stop = start + byteLength text := by
  constructor
  · intro h
    simp only [slice?, sub?, Option.bind_eq_bind, Option.bind_eq_some_iff] at h
    obtain ⟨size, hsize, ⟨before, behind⟩, hbefore, ⟨text', after⟩, htext, heq⟩ := h
    cases heq
    obtain ⟨rfl, hstart⟩ := eq_append_of_splitAtByte? hbefore
    obtain ⟨rfl, hstop⟩ := eq_append_of_splitAtByte? htext
    dsimp only at hstop ⊢
    refine ⟨before, ⟨after, List.append_assoc _ _ _⟩, hstart.symm, ?_⟩
    split at hsize
    · rw [Option.some.injEq] at hsize
      omega
    · cases hsize
  · rintro ⟨before, ⟨after, rfl⟩, rfl, rfl⟩
    have hsize : sub? (byteLength before + byteLength text) (byteLength before) =
        some (byteLength text) := by
      rw [sub?, if_pos (Nat.le_add_right _ _), Nat.add_sub_cancel_left]
    simp only [slice?, hsize, List.append_assoc, splitAtByte?_append, Option.bind_eq_bind,
      Option.bind_some]

theorem sub?_byteLength {text front back : List Char} (h : text = front ++ back) :
    sub? (byteLength text) (byteLength back) = some (byteLength front) := by
  rw [h, byteLength_append, sub?, if_pos (Nat.le_add_left _ _), Nat.add_sub_cancel]

/-! ### The reader -/

/-- The first character that `p` is not true of, with the byte at which it starts. -/
def find? (p : Char → Bool) (text : List Char) : Option (Nat × Char) :=
  match text.dropWhile p with
  | [] => none
  | c :: _ => some (byteLength (text.takeWhile p), c)

def readRef (source : List Char) (selfId : String) (start stop : Nat) :
    Option (Except ParseError Expr) := do
  let id ← slice? source (start + 1) stop
  match find? isIdChar id with
  | some (i, c) =>
    let token ← slice? source (start + 1 + i) stop
    some (refuse (if c = ')' then .unbalancedParens else .unexpectedText) token (start + 1 + i))
  | none =>
    if id = [] ∨ id = selfWord then some (.ok (.ref ⟨selfId, true, start⟩))
    else some (.ok (.ref ⟨String.ofList id, false, start⟩))

def readConstant (source : List Char) (start stop : Nat) : Option (Except ParseError Expr) := do
  let token ← slice? source start stop
  match find? (· ≠ ')') token with
  | some (i, _) => some (refuse .unbalancedParens [')'] (start + i))
  | none => match find? (· ≠ ',') token with
    | some (i, _) =>
      let tail ← slice? token i (byteLength token)
      some (refuse .unexpectedText tail (start + i))
    | none => match constantValue? token with
      | some v => some (.ok (.const v))
      | none => some (refuse .invalidConstant token start)

/-- Looks for the parenthesis that closes the first one: the bytes of the commas of its level and
its own byte. There is no count below zero of open parentheses. -/
def scan : (depth pos : Nat) → List Char → Option (Option (List Nat × Nat))
  | _, _, [] => some none
  | depth, pos, c :: text =>
    if c = '(' then scan (depth + 1) (pos + c.utf8Size) text
    else if c = ')' then
      match depth with
      | 0 => none
      | 1 => some (some ([], pos))
      | depth + 2 => scan (depth + 1) (pos + c.utf8Size) text
    else if c = ',' ∧ depth = 1 then
      (scan depth (pos + c.utf8Size) text).map fun closed =>
        closed.map fun (commas, close) => (pos :: commas, close)
    else scan depth (pos + c.utf8Size) text

/-- Reads the parts between `start` and the first of `stops`, and between any two of them. -/
def readArgs (inner : Nat → Nat → Option (Except ParseError Expr)) :
    (start : Nat) → (stops : List Nat) → Option (Except ParseError (List Expr))
  | _, [] => some (.ok [])
  | start, stop :: stops => do
    match ← inner start stop with
    | .error err => some (.error err)
    | .ok e => match ← readArgs inner (stop + 1) stops with
      | .error err => some (.error err)
      | .ok es => some (.ok (e :: es))

/-- Reads a call of `name` with its parentheses at the bytes `paren` and `close`. -/
def readClosed (source : List Char) (inner : Nat → Nat → Option (Except ParseError Expr))
    (name : List Char) (start paren stop : Nat) :
    List Nat × Nat → Option (Except ParseError Expr)
  | (commas, close) => do
    let rest ← slice? source (close + 1) stop
    if trim rest ≠ [] then
      let blanks ← sub? (byteLength rest) (byteLength (trimStart rest))
      some (refuse (if (trim rest).head? = some ')' then .unbalancedParens else .unexpectedText)
        (trim rest) (close + 1 + blanks))
    else match Func.find? name with
    | none => some (refuse .unknownFunction name start)
    | some f =>
      let body ← slice? source (paren + 1) close
      let stops := if trim body = [] then [] else commas ++ [close]
      match ← readArgs inner (paren + 1) stops with
      | .error err => some (.error err)
      | .ok args =>
        if f.accepts args.length then some (.ok (.call f start (.initial f) args))
        else some (refuse .wrongArity name start)

/-- Reads a call with its first parenthesis at the byte `paren`. -/
def readCall (source : List Char) (inner : Nat → Nat → Option (Except ParseError Expr))
    (start paren stop : Nat) : Option (Except ParseError Expr) := do
  let front ← slice? source start paren
  let name := trimEnd front
  if name = [] then some (refuse .invalidExpression ['('] paren)
  else match find? isNameChar name with
  | some (i, _) =>
    let token ← slice? name i (byteLength name)
    some (refuse .unexpectedText token (start + i))
  | none =>
    let text ← slice? source paren stop
    match ← scan 0 paren text with
    | none => some (refuse .unbalancedParens ['('] paren)
    | some closed => readClosed source inner name start paren stop closed

/-- Reads the expression between two bytes of the source. The arguments of a call stand between
nearer bytes than the call. -/
def read (source : List Char) (selfId : String) (start stop : Nat) :
    Option (Except ParseError Expr) := do
  let text ← slice? source start stop
  if trim text = [] then some (refuse .invalidExpression [] start)
  else
    let blanks ← sub? (byteLength text) (byteLength (trimStart text))
    let first := start + blanks
    let last := first + byteLength (trim text)
    if (trim text).head? = some '$' then readRef source selfId first last
    else match find? (· ≠ '(') (trim text) with
    | some (i, _) =>
      let inside := fun a b =>
        if _h : b - a < stop - start then read source selfId a b else none
      readCall source inside first (first + i) last
    | none => readConstant source first last
termination_by stop - start

def parse (source selfId : String) : Option (Except ParseError Expr) :=
  read source.toList selfId 0 source.utf8ByteSize

def parseTransform (source selfId : String) : Option (Except ParseError Expr) := do
  match ← parse source selfId with
  | .error err => some (.error err)
  | .ok e => match e.externalRefs.find? fun r => r.id ≠ selfId with
    | some r => some (.error ⟨.externalDependency, "$" ++ r.id, r.pos⟩)
    | none => some (.ok e)

/-! ### References and constants -/

variable {source before text : List Char} {selfId : String}

theorem find?_eq_none {p : Char → Bool} (h : text.dropWhile p = []) : find? p text = none := by
  rw [find?, h]

theorem find?_eq_some {p : Char → Bool} {c : Char} {rest : List Char}
    (h : text.dropWhile p = c :: rest) :
    find? p text = some (byteLength (text.takeWhile p), c) := by
  rw [find?, h]

theorem slice?_dropWhile (p : Char → Bool) (text : List Char) :
    slice? text (byteLength (text.takeWhile p)) (byteLength text) = some (text.dropWhile p) := by
  have htext : text.takeWhile p ++ text.dropWhile p = text := List.takeWhile_append_dropWhile
  refine slice?_eq_some_iff.mpr ⟨text.takeWhile p, by rw [htext], rfl, ?_⟩
  rw [← byteLength_append, htext]

theorem readRef_eq {id : List Char} (h : before ++ '$' :: id <+: source) :
    readRef source selfId (byteLength before) (byteLength before + byteLength ('$' :: id)) =
      some (Expr.readRef selfId (byteLength before) id) := by
  have hstop : byteLength ('$' :: id) = 1 + byteLength id := rfl
  have hid : slice? source (byteLength before + 1) (byteLength before + byteLength ('$' :: id)) =
      some id := by
    have hstart : byteLength before + 1 = byteLength (before ++ ['$']) :=
      (byteLength_append before ['$']).symm
    refine slice?_eq_some_iff.mpr ⟨before ++ ['$'], by simpa using h, hstart, by omega⟩
  rw [readRef, hid, Option.bind_eq_bind, Option.bind_some, Expr.readRef]
  cases hdrop : id.dropWhile isIdChar with
  | nil =>
    rw [find?_eq_none hdrop]
    dsimp only
    split <;> rfl
  | cons c rest =>
    have hsplit : id.takeWhile isIdChar ++ c :: rest = id := by
      rw [← hdrop, List.takeWhile_append_dropWhile]
    have hlength : byteLength id = byteLength (id.takeWhile isIdChar) + byteLength (c :: rest) := by
      rw [← byteLength_append, hsplit]
    have htoken : slice? source (byteLength before + 1 + byteLength (id.takeWhile isIdChar))
        (byteLength before + byteLength ('$' :: id)) = some (c :: rest) := by
      have hstart : byteLength before + 1 + byteLength (id.takeWhile isIdChar) =
          byteLength (before ++ '$' :: id.takeWhile isIdChar) := by
        rw [byteLength_append, Nat.add_assoc]
        rfl
      refine slice?_eq_some_iff.mpr ⟨_, ?_, hstart, by omega⟩
      rw [List.append_assoc, List.cons_append, hsplit]
      exact h
    rw [find?_eq_some hdrop]
    dsimp only
    rw [htoken, Option.bind_some]

theorem find?_of_notMem {c : Char} (h : c ∉ text) : find? (fun d => decide (d ≠ c)) text = none :=
  find?_eq_none ((dropWhile_ne_eq_nil_iff c text).mpr h)

theorem find?_of_mem {c : Char} (h : c ∈ text) :
    find? (fun d => decide (d ≠ c)) text =
      some (byteLength (text.takeWhile (fun d => decide (d ≠ c))), c) := by
  obtain ⟨rest, hdrop⟩ := exists_dropWhile_ne h
  exact find?_eq_some hdrop

theorem readConstant_eq (h : before ++ text <+: source) :
    readConstant source (byteLength before) (byteLength before + byteLength text) =
      some (Expr.readConstant (byteLength before) text) := by
  have htoken : slice? source (byteLength before) (byteLength before + byteLength text) =
      some text := slice?_eq_some_iff.mpr ⟨before, h, rfl, rfl⟩
  rw [readConstant, htoken, Option.bind_eq_bind, Option.bind_some, Expr.readConstant]
  by_cases hclose : ')' ∈ text
  · rw [find?_of_mem hclose, if_pos hclose]
  · rw [find?_of_notMem hclose, if_neg hclose]
    dsimp only
    by_cases hcomma : ',' ∈ text
    · rw [find?_of_mem hcomma, if_pos hcomma]
      dsimp only
      rw [slice?_dropWhile, Option.bind_some]
    · rw [find?_of_notMem hcomma, if_neg hcomma]
      dsimp only
      cases constantValue? text <;> rfl

/-! ### Arguments -/

/-- The bytes of the commas between pieces of which the first starts at `pos`. -/
def commas : (pos : Nat) → List (List Char) → List Nat
  | pos, p :: q :: ps =>
    (pos + byteLength p) :: commas (pos + byteLength p + 1) (q :: ps)
  | _, _ => []

theorem commas_pushChar (pos : Nat) (c : Char) (r : List (List Char) × List Char) (h : r.1 ≠ []) :
    commas pos (pushChar c r).1 = commas (pos + c.utf8Size) r.1 := by
  obtain ⟨ps, rest⟩ := r
  match ps with
  | [] => exact absurd rfl h
  | [p] => rfl
  | p :: q :: ps => simp only [pushChar, commas, byteLength, Nat.add_assoc]

/-- Where the scan ends that starts behind an opening parenthesis. -/
def closed (pos : Nat) (r : List (List Char) × List Char) : List Nat × Nat :=
  (commas pos r.1, pos + byteLength (joinPieces r.1))

theorem closed_pushChar (pos : Nat) (c : Char) {r : List (List Char) × List Char} (h : r.1 ≠ []) :
    closed pos (pushChar c r) = closed (pos + c.utf8Size) r := by
  rw [closed, closed, commas_pushChar pos c r h, joinPieces_pushChar c r h, byteLength,
    Nat.add_assoc]

theorem closed_comma (pos : Nat) {r : List (List Char) × List Char} (h : r.1 ≠ []) :
    closed pos ([] :: r.1, r.2) =
      (pos :: (closed (pos + 1) r).1, (closed (pos + 1) r).2) := by
  obtain ⟨ps, rest⟩ := r
  cases ps with
  | nil => exact absurd rfl h
  | cons p ps =>
    have hcomma : byteLength (joinPieces ([] :: p :: ps)) = 1 + byteLength (joinPieces (p :: ps)) :=
      rfl
    rw [closed, closed, hcomma, Nat.add_assoc]
    rfl

/-- The scan comes to the parenthesis at which splitting ends, and passes the commas at which it
cuts. -/
theorem scan_eq (depth pos : Nat) (text : List Char) :
    scan (depth + 1) pos text = some ((splitArgs depth text).map (closed pos)) := by
  induction text generalizing depth pos with
  | nil => rfl
  | cons c text ih =>
    have push (d : Nat) : scan (d + 1) (pos + c.utf8Size) text =
        some (((splitArgs d text).map (pushChar c)).map (closed pos)) := by
      rw [ih d (pos + c.utf8Size), Option.map_map]
      cases hsplit : splitArgs d text with
      | none => rfl
      | some r =>
        have hne := (splitArgs_length text d r hsplit).1
        rw [Option.map_some, Option.map_some, Function.comp_apply, closed_pushChar pos c hne]
    unfold scan splitArgs
    -- the scan counts the parenthesis of the call itself, splitting does not
    by_cases hopen : c = '('
    · rw [if_pos hopen, if_pos hopen]
      exact push (depth + 1)
    rw [if_neg hopen, if_neg hopen]
    by_cases hclose : c = ')'
    · rw [if_pos hclose, if_pos hclose]
      cases depth with
      | zero => rfl
      | succ depth => exact push depth
    rw [if_neg hclose, if_neg hclose]
    by_cases hcomma : c = ',' ∧ depth = 0
    · obtain ⟨rfl, rfl⟩ := hcomma
      rw [if_pos ⟨rfl, rfl⟩, if_pos ⟨rfl, rfl⟩]
      have htext : scan 1 (pos + 1) text = some ((splitArgs 0 text).map (closed (pos + 1))) :=
        ih 0 (pos + 1)
      change (scan 1 (pos + 1) text).map _ = _
      rw [htext, Option.map_some, Option.map_map, Option.map_map]
      cases hsplit : splitArgs 0 text with
      | none => rfl
      | some r =>
        have hne := (splitArgs_length text 0 r hsplit).1
        rw [Option.map_some, Option.map_some, Function.comp_apply, Function.comp_apply,
          closed_comma pos hne]
    · rw [if_neg (by simpa using hcomma), if_neg hcomma]
      exact push depth

/-- `inner` reads the parts of the source of at most `size` bytes. -/
def ReadsUpTo (selfId : String) (source : List Char) (size : Nat)
    (inner : Nat → Nat → Option (Except ParseError Expr)) : Prop :=
  ∀ before text, before ++ text <+: source → byteLength text ≤ size →
    inner (byteLength before) (byteLength before + byteLength text) =
      some (readRange selfId ⟨byteLength before, text⟩)

variable {inner : Nat → Nat → Option (Except ParseError Expr)} {size : Nat}

theorem readArgs_eq {pieces : List (List Char)} (hinner : ReadsUpTo selfId source size inner)
    (hne : pieces ≠ []) (h : before ++ joinPieces pieces <+: source)
    (hsize : byteLength (joinPieces pieces) ≤ size) :
    readArgs inner (byteLength before) (commas (byteLength before) pieces ++
        [byteLength before + byteLength (joinPieces pieces)]) =
      some (Expr.readArgs selfId (locate (byteLength before) pieces)) := by
  induction pieces generalizing before with
  | nil => exact absurd rfl hne
  | cons p ps ih =>
    rw [locate, readArgs_cons]
    cases ps with
    | nil =>
      have hp := hinner before p h hsize
      have hnone : Expr.readArgs selfId (locate (byteLength before + byteLength p + 1) []) =
          .ok [] := by
        rw [locate, Expr.readArgs]
      have hstop : joinPieces [p] = p := rfl
      have hcommas : commas (byteLength before) [p] = [] := rfl
      rw [hnone, hstop, hcommas, List.nil_append, readArgs, hp]
      cases readRange selfId ⟨byteLength before, p⟩ <;> rfl
    | cons q qs =>
      have hjoin : joinPieces (p :: q :: qs) = p ++ [','] ++ joinPieces (q :: qs) := by
        rw [joinPieces_cons_of_ne_nil p (List.cons_ne_nil q qs), List.append_assoc]
        rfl
      have hbehind := byteLength_behind before p (c := ',') (by decide)
      have hlength : byteLength (joinPieces (p :: q :: qs)) =
          byteLength p + 1 + byteLength (joinPieces (q :: qs)) := by
        rw [hjoin, byteLength_append, byteLength_append]
        rfl
      have hp : inner (byteLength before) (byteLength before + byteLength p) =
          some (readRange selfId ⟨byteLength before, p⟩) := by
        refine hinner before p (List.IsPrefix.trans ?_ h) (by omega)
        rw [hjoin, List.append_assoc, ← List.append_assoc before]
        exact List.prefix_append _ _
      have hrest : before ++ p ++ [','] ++ joinPieces (q :: qs) <+: source := by
        simpa [hjoin] using h
      have hps := ih (List.cons_ne_nil q qs) hrest (by omega)
      have hclose : byteLength before + byteLength (joinPieces (p :: q :: qs)) =
          byteLength before + byteLength p + 1 + byteLength (joinPieces (q :: qs)) := by
        omega
      rw [hbehind] at hps
      rw [commas, List.cons_append, readArgs, hp, hclose, Option.bind_eq_bind, Option.bind_some]
      cases readRange selfId ⟨byteLength before, p⟩ with
      | error err => rfl
      | ok e =>
        dsimp only
        rw [hps, Option.bind_eq_bind, Option.bind_some]
        cases Expr.readArgs selfId (locate (byteLength before + byteLength p + 1) (q :: qs)) <;> rfl

/-! ### Calls -/

/-- A call has no arguments just if what stands between its parentheses is blank. -/
theorem argPieces_of_blank {pieces : List (List Char)} (hne : pieces ≠ [])
    (h : trim (joinPieces pieces) = []) : argPieces pieces = [] := by
  rw [trim_eq_nil_iff] at h
  match pieces with
  | [p] => exact if_pos h
  | p :: q :: qs =>
    have hcomma : ',' ∈ joinPieces (p :: q :: qs) := by simp [joinPieces]
    exact absurd hcomma (not_mem_of_allBlank h (by decide))

theorem argPieces_of_not_blank {pieces : List (List Char)}
    (h : trim (joinPieces pieces) ≠ []) : argPieces pieces = pieces := by
  rcases argPieces_cases pieces with hall | ⟨p, rfl, hblank, -⟩
  · exact hall
  · exact absurd ((trim_eq_nil_iff p).mpr hblank) h

theorem readArgs_argPieces_eq {pieces : List (List Char)}
    (hinner : ReadsUpTo selfId source size inner) (hne : pieces ≠ [])
    (h : before ++ joinPieces pieces <+: source) (hsize : byteLength (joinPieces pieces) ≤ size) :
    readArgs inner (byteLength before)
        (if trim (joinPieces pieces) = [] then []
        else commas (byteLength before) pieces ++
          [byteLength before + byteLength (joinPieces pieces)]) =
      some (Expr.readArgs selfId (locate (byteLength before) (argPieces pieces))) := by
  by_cases hblank : trim (joinPieces pieces) = []
  · rw [if_pos hblank, argPieces_of_blank hne hblank, locate, Expr.readArgs]
    rfl
  · rw [if_neg hblank, argPieces_of_not_blank hblank]
    exact readArgs_eq hinner hne h hsize

theorem byteLength_call (front body : List Char) :
    byteLength (front ++ '(' :: body) = byteLength front + (1 + byteLength body) :=
  byteLength_append front _

theorem readClosed_eq {front body rest : List Char} {pieces : List (List Char)}
    (hinner : ReadsUpTo selfId source (byteLength body) inner)
    (h : before ++ (front ++ '(' :: body) <+: source) (hname : trimEnd front ≠ [])
    (hdrop : (trimEnd front).dropWhile isNameChar = [])
    (hsplit : splitArgs 0 body = some (pieces, rest)) :
    readClosed source inner (trimEnd front) (byteLength before)
        (byteLength before + byteLength front)
        (byteLength before + byteLength (front ++ '(' :: body))
        (closed (byteLength before + byteLength front + 1) (pieces, rest)) =
      some (Expr.readCall selfId (byteLength before) front body) := by
  have hne : pieces ≠ [] := (splitArgs_length body 0 _ hsplit).1
  have hbody : body = joinPieces pieces ++ ')' :: rest := eq_joinPieces_of_splitArgs body 0 _ hsplit
  have hused : body.take (body.length - rest.length) = joinPieces pieces ++ [')'] :=
    take_of_splitArgs hsplit
  have hlength : byteLength body = byteLength (joinPieces pieces) + (1 + byteLength rest) := by
    rw [hbody, byteLength_append]
    rfl
  have hstop := byteLength_call front body
  have hparen : byteLength (before ++ front ++ ['(']) = byteLength before + byteLength front + 1 :=
    byteLength_behind _ _ (by decide)
  have hmiddle : before ++ front ++ ['('] ++ joinPieces pieces <+: source := by
    refine List.IsPrefix.trans ⟨')' :: rest, ?_⟩ h
    rw [hbody]
    simp
  have hclose : byteLength (before ++ front ++ ['('] ++ joinPieces pieces ++ [')']) =
      byteLength before + byteLength front + 1 + byteLength (joinPieces pieces) + 1 := by
    rw [byteLength_behind _ _ (by decide), hparen]
  have hrest : slice? source
      (byteLength before + byteLength front + 1 + byteLength (joinPieces pieces) + 1)
      (byteLength before + byteLength (front ++ '(' :: body)) = some rest := by
    refine slice?_eq_some_iff.mpr ⟨_, ?_, hclose.symm, by omega⟩
    rw [hbody] at h
    simpa using h
  rw [readClosed, closed, hrest, Option.bind_eq_bind, Option.bind_some]
  by_cases htail : trim rest = []
  · have hparts : readCallParts (byteLength before) front body =
        .ok ⟨trimEnd front, byteLength before + byteLength front + 1, argPieces pieces⟩ := by
      simp only [readCallParts, hname, hdrop, hsplit, htail, if_false, if_true]
    rw [if_neg (not_not.mpr htail), readCall_of_parts hparts]
    dsimp only
    cases Func.find? (trimEnd front) with
    | none => rfl
    | some f =>
      have hcut : slice? source (byteLength before + byteLength front + 1)
          (byteLength before + byteLength front + 1 + byteLength (joinPieces pieces)) =
          some (joinPieces pieces) :=
        slice?_eq_some_iff.mpr ⟨_, hmiddle, hparen.symm, rfl⟩
      have hargs := readArgs_argPieces_eq hinner hne hmiddle (by omega)
      rw [hparen] at hargs
      dsimp only
      rw [hcut, Option.bind_some, hargs, Option.bind_eq_bind, Option.bind_some]
      cases Expr.readArgs selfId
          (locate (byteLength before + byteLength front + 1) (argPieces pieces)) with
      | error err => rfl
      | ok args =>
        dsimp only
        split <;> rfl
  · have hparts : readCallParts (byteLength before) front body =
        refuse (if (trim rest).head? = some ')' then .unbalancedParens else .unexpectedText)
          (trim rest) (byteLength before + byteLength front + 1 +
            byteLength (joinPieces pieces) + 1 + byteLength (rest.takeWhile isBlank)) := by
      have hbytes : byteLength (joinPieces pieces ++ [')']) = byteLength (joinPieces pieces) + 1 :=
        byteLength_append _ _
      simp only [readCallParts, hname, hdrop, hsplit, htail, hused, hbytes, if_false, Nat.add_assoc]
    have hblanks : sub? (byteLength rest) (byteLength (trimStart rest)) =
        some (byteLength (rest.takeWhile isBlank)) :=
      sub?_byteLength List.takeWhile_append_dropWhile.symm
    rw [if_pos htail, hblanks, Option.bind_eq_bind, Option.bind_some, Expr.readCall, hparts]
    rfl

theorem readCall_eq {front body : List Char}
    (hinner : ReadsUpTo selfId source (byteLength body) inner)
    (h : before ++ (front ++ '(' :: body) <+: source) :
    readCall source inner (byteLength before) (byteLength before + byteLength front)
        (byteLength before + byteLength (front ++ '(' :: body)) =
      some (Expr.readCall selfId (byteLength before) front body) := by
  have hstop := byteLength_call front body
  have hfront : slice? source (byteLength before) (byteLength before + byteLength front) =
      some front := by
    refine slice?_eq_some_iff.mpr ⟨before, List.IsPrefix.trans ?_ h, rfl, rfl⟩
    rw [← List.append_assoc]
    exact List.prefix_append _ _
  have htext : slice? source (byteLength before + byteLength front)
      (byteLength before + byteLength (front ++ '(' :: body)) = some ('(' :: body) := by
    refine slice?_eq_some_iff.mpr ⟨before ++ front, ?_, (byteLength_append _ _).symm, ?_⟩
    · rwa [List.append_assoc]
    · rw [hstop, Nat.add_assoc]
      rfl
  rw [readCall, Expr.readCall, hfront, Option.bind_eq_bind, Option.bind_some]
  dsimp only
  by_cases hname : trimEnd front = []
  · have hparts : readCallParts (byteLength before) front body =
        refuse .invalidExpression ['('] (byteLength before + byteLength front) := by
      simp only [readCallParts, hname, if_true]
    rw [if_pos hname, hparts]
    rfl
  rw [if_neg hname]
  cases hdrop : (trimEnd front).dropWhile isNameChar with
  | cons c rest =>
    have hparts : readCallParts (byteLength before) front body = refuse .unexpectedText (c :: rest)
        (byteLength before + byteLength ((trimEnd front).takeWhile isNameChar)) := by
      simp only [readCallParts, hname, hdrop, if_false]
    rw [find?_eq_some hdrop, hparts]
    dsimp only
    rw [slice?_dropWhile, hdrop]
    rfl
  | nil =>
    have hscan : scan 0 (byteLength before + byteLength front) ('(' :: body) =
        some ((splitArgs 0 body).map (closed (byteLength before + byteLength front + 1))) :=
      scan_eq 0 _ body
    rw [find?_eq_none hdrop]
    dsimp only
    rw [htext, Option.bind_some, hscan, Option.bind_eq_bind, Option.bind_some]
    cases hsplit : splitArgs 0 body with
    | none =>
      have hparts : readCallParts (byteLength before) front body =
          refuse .unbalancedParens ['('] (byteLength before + byteLength front) := by
        simp only [readCallParts, hname, hdrop, hsplit, if_false]
      rw [hparts]
      rfl
    | some r =>
      exact readClosed_eq hinner h hname hdrop hsplit

/-! ### Expressions -/

theorem find?_paren (text : List Char) :
    find? (fun c => decide (c ≠ '(')) text =
      (splitAtParen text).map fun r => (byteLength r.1, '(') := by
  cases hsplit : splitAtParen text with
  | none => exact find?_of_notMem ((splitAtParen_eq_none_iff text).mp hsplit)
  | some r =>
    obtain ⟨hfront, hbody⟩ := splitAtParen_eq_some hsplit
    rw [find?_eq_some hbody, hfront]
    rfl

/-- No check fails on the way, and the reader of positions reads what the reader of texts reads. -/
theorem read_eq {before text : List Char} (h : before ++ text <+: source) :
    read source selfId (byteLength before) (byteLength before + byteLength text) =
      some (readRange selfId ⟨byteLength before, text⟩) := by
  obtain ⟨right, -, htext⟩ := exists_surround_trim text
  have hslice : slice? source (byteLength before) (byteLength before + byteLength text) =
      some text := slice?_eq_some_iff.mpr ⟨before, h, rfl, rfl⟩
  have hblanks : sub? (byteLength text) (byteLength (trimStart text)) =
      some (byteLength (text.takeWhile isBlank)) :=
    sub?_byteLength List.takeWhile_append_dropWhile.symm
  have hlength : byteLength text = byteLength (text.takeWhile isBlank) + byteLength (trim text) +
      byteLength right := by
    rw [← byteLength_append, ← byteLength_append, ← htext]
  have hfirst : byteLength before + byteLength (text.takeWhile isBlank) =
      byteLength (before ++ text.takeWhile isBlank) := (byteLength_append _ _).symm
  have hcore : before ++ text.takeWhile isBlank ++ trim text <+: source := by
    refine List.IsPrefix.trans ⟨right, ?_⟩ h
    rw [List.append_assoc, List.append_assoc, ← List.append_assoc _ (trim text), ← htext]
  have htrim : Located.trim ⟨byteLength before, text⟩ =
      ⟨byteLength (before ++ text.takeWhile isBlank), trim text⟩ := by
    rw [← hfirst]
    rfl
  rw [read, hslice, Option.bind_eq_bind, Option.bind_some]
  dsimp only
  by_cases hblank : trim text = []
  · rw [if_pos hblank, readRange_blank (by rw [htrim]; exact hblank)]
  rw [if_neg hblank, hblanks, Option.bind_eq_bind, Option.bind_some, hfirst]
  by_cases hdollar : (trim text).head? = some '$'
  · obtain ⟨id, hid⟩ := List.head?_eq_some_iff.mp hdollar
    have href : (Located.trim ⟨byteLength before, text⟩).chars = '$' :: id := by rw [htrim, hid]
    rw [hid] at hcore
    rw [if_pos hdollar, readRange_ref href, htrim, hid, readRef_eq hcore]
  rw [if_neg hdollar, readRange_other (by rw [htrim]; exact hblank) (by rw [htrim]; exact hdollar),
    htrim, find?_paren]
  cases hsplit : splitAtParen (trim text) with
  | none => exact readConstant_eq hcore
  | some r =>
    obtain ⟨front, body⟩ := r
    have hcall := eq_of_splitAtParen hsplit
    have hbody : byteLength (trim text) = byteLength front + (1 + byteLength body) := by
      rw [hcall, byteLength_call]
    rw [hcall] at hcore ⊢
    -- the induction is on the bytes of the range: what stands in parentheses has fewer
    refine readCall_eq ?_ hcore
    intro before' text' h' hsize
    have hnearer : byteLength before' + byteLength text' - byteLength before' <
        byteLength before + byteLength text - byteLength before := by omega
    exact (dif_pos hnearer).trans (read_eq h')
termination_by byteLength text
decreasing_by omega

theorem parse_eq (source selfId : String) :
    parse source selfId = some (Expr.parse source selfId) := by
  have hsize : source.utf8ByteSize = byteLength [] + byteLength source.toList := by
    rw [← utf8ByteSize_ofList source.toList, String.ofList_toList]
    exact (Nat.zero_add _).symm
  have hread : read source.toList selfId (byteLength [])
      (byteLength [] + byteLength source.toList) = some (Expr.parse source selfId) :=
    read_eq (List.prefix_refl source.toList)
  rw [parse, hsize]
  exact hread

theorem parseTransform_eq (source selfId : String) :
    parseTransform source selfId = some (Expr.parseTransform source selfId) := by
  rw [parseTransform, parse_eq, Option.bind_eq_bind, Option.bind_some, Expr.parseTransform]
  cases Expr.parse source selfId with
  | error err => rfl
  | ok e =>
    dsimp only
    cases e.externalRefs.find? fun r => r.id ≠ selfId <;> rfl

/-- Whatever the source, reading fails none of its checks, and a refusal names a token that stands
in the source at the byte it names. -/
theorem refusals_pointInto (source selfId : String) :
    parse source selfId = some (Expr.parse source selfId) ∧
      parseTransform source selfId = some (Expr.parseTransform source selfId) ∧
      ∀ err, Expr.parse source selfId = .error err ∨
        Expr.parseTransform source selfId = .error err → PointsInto source err := by
  refine ⟨parse_eq source selfId, parseTransform_eq source selfId, ?_⟩
  rintro err (h | h)
  · exact pointsInto_of_parse h
  · exact pointsInto_of_parseTransform h

/-- A stray word behind a reference, with wide blanks around the call that it stands in. -/
theorem refusals_pointInto_nested :
    Expr.parse "\u00a0If( $a ,\u2003not( $b c ), false )" "me" =
        .error ⟨.unexpectedText, " c", 20⟩ ∧
      PointsInto "\u00a0If( $a ,\u2003not( $b c ), false )" ⟨.unexpectedText, " c", 20⟩ := by
  have hparse : Expr.parse "\u00a0If( $a ,\u2003not( $b c ), false )" "me" =
      .error ⟨.unexpectedText, " c", 20⟩ := by cbv
  exact ⟨hparse, (refusals_pointInto _ "me").2.2 _ (Or.inl hparse)⟩

end ControlNode.Expr.Span
