import ControlNode.Proofs.Expr.Reprint

/-!
# Where refusals point

A text is read by parts, and a refusal of a part names a token of it and the byte at which this
token starts (`names_of_readRange`). The parts stand in the source in the order in which they are
read, so that the token of every refusal is found in the source at its byte.
-/

namespace ControlNode.Expr

open Text

/-! ### Tokens of a text -/

/-- The refusal of `text`, which starts at the byte `pos`, names a token of it. Reading has
nothing against references to other ports. -/
structure Names (pos : Nat) (text : List Char) (err : ParseError) : Prop where
  place : ∃ before after, text = before ++ err.token.toList ++ after ∧
    err.pos = pos + byteLength before
  reason : err.reason ≠ .externalDependency

variable {pos : Nat} {text token : List Char} {reason : ParseReason} {err : ParseError}
  {selfId : String}

theorem names_of_refuse (before after : List Char)
    (h : (refuse reason token (pos + byteLength before) : Except ParseError α) = .error err)
    (htext : text = before ++ token ++ after) (hreason : reason ≠ .externalDependency) :
    Names pos text err := by
  cases h
  exact ⟨⟨before, after, by rw [String.toList_ofList]; exact htext, rfl⟩, hreason⟩

theorem Names.surround {before : List Char} (h : Names (pos + byteLength before) text err)
    (after : List Char) : Names pos (before ++ text ++ after) err := by
  obtain ⟨⟨front, back, htext, hpos⟩, hreason⟩ := h
  refine ⟨⟨before ++ front, back ++ after, ?_, ?_⟩, hreason⟩
  · rw [htext]
    simp only [List.append_assoc]
  · rw [hpos, byteLength_append, Nat.add_assoc]

/-! ### References and constants -/

theorem names_of_readRef {id : List Char} (h : readRef selfId pos id = .error err) :
    Names pos ('$' :: id) err := by
  unfold readRef at h
  split at h
  · rename_i c rest hdrop
    have hid : id = id.takeWhile isIdChar ++ c :: rest := by
      rw [← hdrop, List.takeWhile_append_dropWhile]
    have hpos : pos + 1 + byteLength (id.takeWhile isIdChar) =
        pos + byteLength ('$' :: id.takeWhile isIdChar) := by
      rw [byteLength, Nat.add_assoc]
      rfl
    rw [hpos] at h
    refine names_of_refuse _ [] h ?_ ?_
    · simpa using hid
    · split <;> decide
  · split at h
    · cases h
    · cases h

theorem names_of_readConstant (h : readConstant pos token = .error err) :
    Names pos token err := by
  unfold readConstant at h
  split at h
  · rename_i hclose
    obtain ⟨rest, hdrop⟩ := exists_dropWhile_ne hclose
    refine names_of_refuse _ rest h ?_ (by decide)
    rw [List.append_assoc, List.singleton_append, ← hdrop, List.takeWhile_append_dropWhile]
  · split at h
    · rename_i hcomma
      refine names_of_refuse _ [] h ?_ (by decide)
      rw [List.append_nil, List.takeWhile_append_dropWhile]
    · split at h
      · cases h
      · refine names_of_refuse [] [] h ?_ (by decide)
        simp

/-! ### Calls -/

theorem take_of_splitArgs {body rest : List Char} {pieces : List (List Char)}
    (h : splitArgs 0 body = some (pieces, rest)) :
    body.take (body.length - rest.length) = joinPieces pieces ++ [')'] := by
  have hbody : body = (joinPieces pieces ++ [')']) ++ rest := by
    simpa using eq_joinPieces_of_splitArgs body 0 _ h
  rw [hbody, List.length_append, Nat.add_sub_cancel, List.take_left]

theorem names_of_readCallParts {front body : List Char}
    (h : readCallParts pos front body = .error err) : Names pos (front ++ '(' :: body) err := by
  obtain ⟨gap, hgap, hfront⟩ := exists_append_trimEnd front
  simp only [readCallParts] at h
  split at h
  · refine names_of_refuse _ body h ?_ (by decide)
    simp
  · split at h
    · rename_i c rest hdrop
      have hname : trimEnd front = (trimEnd front).takeWhile isNameChar ++ c :: rest := by
        rw [← hdrop, List.takeWhile_append_dropWhile]
      refine names_of_refuse _ (gap ++ '(' :: body) h ?_ (by decide)
      rw [← hname, ← List.append_assoc, ← hfront]
    · split at h
      · refine names_of_refuse _ body h ?_ (by decide)
        simp
      · rename_i pieces rest hsplit
        split at h
        · cases h
        · obtain ⟨right, -, hrest⟩ := exists_surround_trim rest
          have hbody := eq_joinPieces_of_splitArgs body 0 _ hsplit
          have hpos : pos + byteLength front + 1 + byteLength (joinPieces pieces ++ [')']) +
                byteLength (rest.takeWhile isBlank) =
              pos + byteLength (front ++ '(' :: (joinPieces pieces ++ [')'] ++
                rest.takeWhile isBlank)) := by
            rw [byteLength_append front, byteLength, byteLength_append (_ ++ _),
              show '('.utf8Size = 1 from rfl]
            omega
          rw [take_of_splitArgs hsplit, hpos] at h
          refine names_of_refuse _ right h ?_ ?_
          · rw [hbody]
            simp [← hrest]
          · split <;> decide

/-- The arguments of a call stand in its text one behind the other, a comma apart. -/
theorem names_of_readArgs {pieces : List (List Char)}
    (ih : ∀ p ∈ pieces, ∀ pos err, readRange selfId ⟨pos, p⟩ = .error err → Names pos p err)
    (h : readArgs selfId (locate pos pieces) = .error err) : Names pos (joinPieces pieces) err := by
  induction pieces generalizing pos with
  | nil =>
    rw [locate, readArgs] at h
    cases h
  | cons p ps ihps =>
    rw [locate, readArgs_cons] at h
    split at h
    · rename_i hp
      cases h
      have hfirst : Names (pos + byteLength []) p err := ih p (List.mem_cons_self ..) _ _ hp
      cases ps with
      | nil => simpa [joinPieces] using hfirst.surround []
      | cons q qs => exact hfirst.surround (',' :: joinPieces (q :: qs))
    · split at h
      · rename_i hps
        cases h
        cases ps with
        | nil =>
          rw [locate, readArgs] at hps
          cases hps
        | cons q qs =>
          have hrest := ihps (fun p' hp' => ih p' (List.mem_cons_of_mem p hp')) hps
          have hpos : pos + byteLength p + 1 = pos + byteLength (p ++ [',']) := by
            rw [byteLength_append]
            rfl
          rw [hpos] at hrest
          simpa [joinPieces] using hrest.surround []
      · cases h

theorem names_of_readCall {front body : List Char}
    (ih : ∀ p, p.length < body.length → ∀ pos err,
      readRange selfId ⟨pos, p⟩ = .error err → Names pos p err)
    (h : readCall selfId pos front body = .error err) : Names pos (front ++ '(' :: body) err := by
  unfold readCall at h
  split at h
  · rename_i hparts
    cases h
    exact names_of_readCallParts hparts
  · rename_i parts hparts
    obtain ⟨gap, pieces, rest, -, rfl, hsplit, -, hbodyPos, hpieces⟩ := readCallParts_eq_ok hparts
    have hbody := eq_joinPieces_of_splitArgs body 0 _ hsplit
    have hname (reason : ParseReason) (hreason : reason ≠ .externalDependency)
        (h : (refuse reason parts.name pos : Except ParseError Expr) = .error err) :
        Names pos (parts.name ++ gap ++ '(' :: body) err := by
      refine names_of_refuse [] (gap ++ '(' :: body) h ?_ hreason
      simp
    split at h
    · exact hname _ (by decide) h
    · split at h
      · rename_i hargs
        cases h
        rcases argPieces_cases pieces with hall | ⟨p, -, -, hnone⟩
        · rw [hpieces, hall] at hargs
          have hlength := (splitArgs_length body 0 _ hsplit).2
          have hinner : Names parts.bodyPos (joinPieces pieces) err := by
            refine names_of_readArgs (fun p hp => ih p ?_) hargs
            have hp := length_lt_piecesLength hp
            dsimp only at hlength
            omega
          have hpos : parts.bodyPos = pos + byteLength (parts.name ++ gap ++ ['(']) := by
            rw [hbodyPos, byteLength_append (parts.name ++ gap)]
            rfl
          rw [hpos] at hinner
          have houter := hinner.surround (')' :: rest)
          rw [hbody]
          simpa using houter
        -- a call without arguments refuses none
        · rw [hpieces, hnone, locate, readArgs] at hargs
          cases hargs
      · split at h
        · cases h
        · exact hname _ (by decide) h

theorem names_of_readRange {s : Located} {err : ParseError} (h : readRange selfId s = .error err) :
    Names s.pos s.chars err := by
  obtain ⟨left, right, -, -, hchars, hpos⟩ := s.exists_trim
  have hlength : s.trim.chars.length ≤ s.chars.length := length_trim_le s.chars
  have hsurround (htrim : Names s.trim.pos s.trim.chars err) : Names s.pos s.chars err := by
    rw [hpos] at htrim
    rw [hchars]
    exact htrim.surround right
  by_cases hne : s.trim.chars = []
  · rw [readRange_blank hne] at h
    exact names_of_refuse [] s.chars h rfl (by decide)
  by_cases hd : s.trim.chars.head? = some '$'
  · obtain ⟨id, hid⟩ := List.head?_eq_some_iff.mp hd
    rw [readRange_ref hid] at h
    apply hsurround
    rw [hid]
    exact names_of_readRef h
  rw [readRange_other hne hd] at h
  cases hp : splitAtParen s.trim.chars with
  | none =>
    rw [hp] at h
    exact hsurround (names_of_readConstant h)
  | some r =>
    obtain ⟨front, body⟩ := r
    rw [hp] at h
    have hbody := splitAtParen_length hp
    apply hsurround
    rw [eq_of_splitAtParen hp]
    exact names_of_readCall
      (fun p hlt pos err hread => names_of_readRange (s := ⟨pos, p⟩) hread) h
termination_by s.chars.length
decreasing_by omega

/-! ### The whole source -/

/-- The token of a refusal stands in the source and starts at the byte that the refusal names. -/
def PointsInto (source : String) (err : ParseError) : Prop :=
  ∃ before after : String, source = before ++ err.token ++ after ∧
    before.utf8ByteSize = err.pos

theorem utf8ByteSize_ofList (cs : List Char) : (String.ofList cs).utf8ByteSize = byteLength cs := by
  induction cs with
  | nil => rfl
  | cons c cs ih =>
    have hcons : String.ofList (c :: cs) = String.singleton c ++ String.ofList cs := by simp
    rw [hcons, String.utf8ByteSize_append, ih, String.utf8ByteSize_singleton, byteLength]

theorem pointsInto_of_toList {source : String} {before after : List Char}
    (h : source.toList = before ++ err.token.toList ++ after)
    (hpos : err.pos = byteLength before) : PointsInto source err := by
  refine ⟨String.ofList before, String.ofList after, ?_, ?_⟩
  · apply String.toList_injective
    simpa using h
  · rw [utf8ByteSize_ofList, hpos]

theorem names_of_parse {source : String} (h : parse source selfId = .error err) :
    Names 0 source.toList err :=
  names_of_readRange (s := ⟨0, source.toList⟩) h

theorem pointsInto_of_parse {source : String} (h : parse source selfId = .error err) :
    PointsInto source err := by
  obtain ⟨⟨before, after, htext, hpos⟩, -⟩ := names_of_parse h
  exact pointsInto_of_toList htext (by omega)

theorem occurs_of_mem_refs {e : Expr} {r : PortRef} (h : r ∈ e.refs) : Occurs (.ref r) e := by
  induction e using induct with
  | const v => cases h
  | ref r' =>
    rw [List.mem_singleton.mp h]
    exact .here
  | call f pos state args ih =>
    rw [refs_call] at h
    obtain ⟨a, ha, hr⟩ := List.mem_flatMap.mp h
    exact .inside ha (ih a ha hr)

/-- The text of a reference to another port is a dollar sign and the id of this port, whatever
else is written around it. -/
theorem exists_text_of_foreign {source : String} {e : Expr} {r : PortRef}
    (h : parse source selfId = .ok e) (hr : r ∈ e.refs) (hid : r.id ≠ selfId) :
    ∃ before after, source.toList = before ++ ("$" ++ r.id).toList ++ after ∧
      r.pos = byteLength before := by
  obtain ⟨before, core, after, hsource, hpos, -, hcore⟩ :=
    (derives_of_parse h).startsAt rfl (occurs_of_mem_refs hr)
  cases hcore with
  | selfRef _ => exact absurd rfl hid
  | portRef _ _ _ =>
    refine ⟨before, after, ?_, rfl⟩
    simpa using hsource

theorem pointsInto_of_parseTransform {source : String}
    (h : parseTransform source selfId = .error err) : PointsInto source err := by
  unfold parseTransform at h
  split at h
  · rename_i hparse
    cases h
    exact pointsInto_of_parse hparse
  · rename_i e hparse
    split at h
    · rename_i r hfind
      cases h
      have hforeign : r.id ≠ selfId := by simpa using List.find?_some hfind
      have hr := List.mem_of_mem_filter (List.mem_of_find?_eq_some hfind)
      obtain ⟨before, after, hsource, hpos⟩ := exists_text_of_foreign hparse hr hforeign
      exact pointsInto_of_toList hsource hpos
    · cases h

end ControlNode.Expr
