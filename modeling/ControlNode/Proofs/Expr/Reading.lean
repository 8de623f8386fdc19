import ControlNode.Proofs.Expr.Grammar

/-!
# Reading by the grammar

Reading accepts exactly the texts that have a derivation, and reads them as the tree of the
derivation (`parse_eq_ok_iff_derives`).
-/

namespace ControlNode.Expr

open Text

variable {selfId : String}

/-! ### Reading by the shape of the text -/

theorem dropWhile_ne_eq_nil_iff (c : Char) (cs : List Char) :
    cs.dropWhile (fun d => decide (d ≠ c)) = [] ↔ c ∉ cs := by
  rw [List.dropWhile_eq_nil_iff]
  constructor
  · intro h hmem
    exact absurd (h c hmem) (by simp)
  · intro h d hd
    simp only [ne_eq, decide_eq_true_eq]
    rintro rfl
    exact h hd

theorem exists_dropWhile_ne {c : Char} {cs : List Char} (h : c ∈ cs) :
    ∃ rest, cs.dropWhile (fun d => decide (d ≠ c)) = c :: rest := by
  have hne : cs.dropWhile (fun d => decide (d ≠ c)) ≠ [] := fun hnil =>
    (dropWhile_ne_eq_nil_iff c cs).mp hnil h
  obtain ⟨d, rest, hdrop⟩ := List.exists_cons_of_ne_nil hne
  have hhead := List.head_dropWhile_not _ hne
  simp only [hdrop, List.head_cons, decide_eq_false_iff_not, ne_eq, not_not] at hhead
  exact ⟨rest, by rw [hdrop, hhead]⟩

theorem splitAtParen_append {front : List Char} (body : List Char) (h : '(' ∉ front) :
    splitAtParen (front ++ '(' :: body) = some (front, body) := by
  have hne : ∀ c ∈ front, (decide (c ≠ '(')) = true := by
    intro c hc
    simp only [ne_eq, decide_eq_true_eq]
    rintro rfl
    exact h hc
  unfold splitAtParen
  rw [List.dropWhile_append_of_pos hne, List.takeWhile_append_of_pos hne]
  simp

theorem splitAtParen_eq_none_iff (cs : List Char) : splitAtParen cs = none ↔ '(' ∉ cs := by
  rw [← dropWhile_ne_eq_nil_iff]
  unfold splitAtParen
  split
  · rename_i hdrop
    exact ⟨fun _ => hdrop, fun _ => rfl⟩
  · rename_i hdrop
    rw [hdrop]
    simp

theorem splitAtParen_eq_some {cs front body : List Char}
    (h : splitAtParen cs = some (front, body)) :
    cs.takeWhile (fun c => decide (c ≠ '(')) = front ∧
      cs.dropWhile (fun c => decide (c ≠ '(')) = '(' :: body := by
  have hopen : '(' ∈ cs := by
    by_contra hnone
    rw [(splitAtParen_eq_none_iff cs).mpr hnone] at h
    cases h
  obtain ⟨rest, hdrop⟩ := exists_dropWhile_ne hopen
  rw [splitAtParen, hdrop] at h
  cases h
  exact ⟨rfl, hdrop⟩

theorem eq_of_splitAtParen {cs front body : List Char}
    (h : splitAtParen cs = some (front, body)) : cs = front ++ '(' :: body := by
  obtain ⟨hfront, hbody⟩ := splitAtParen_eq_some h
  rw [← hfront, ← hbody, List.takeWhile_append_dropWhile]

/-- Reads a call that starts at `pos`, from what stands in front of its first parenthesis and
behind it. -/
def readCall (selfId : String) (pos : Nat) (front body : List Char) : Except ParseError Expr :=
  match readCallParts pos front body with
  | .error e => .error e
  | .ok parts => match Func.find? parts.name with
    | none => refuse .unknownFunction parts.name pos
    | some f => match readArgs selfId (locate parts.bodyPos parts.pieces) with
      | .error e => .error e
      | .ok args =>
        if f.accepts args.length then .ok (.call f pos (.initial f) args)
        else refuse .wrongArity parts.name pos

theorem readCall_of_parts {pos : Nat} {front body : List Char} {parts : CallParts}
    (h : readCallParts pos front body = .ok parts) :
    readCall selfId pos front body = match Func.find? parts.name with
      | none => refuse .unknownFunction parts.name pos
      | some f => match readArgs selfId (locate parts.bodyPos parts.pieces) with
        | .error e => .error e
        | .ok args =>
          if f.accepts args.length then .ok (.call f pos (.initial f) args)
          else refuse .wrongArity parts.name pos := by
  rw [readCall, h]

theorem readRange_blank {s : Located} (h : s.trim.chars = []) :
    readRange selfId s = refuse .invalidExpression [] s.pos := by
  rw [readRange]
  simp only [h]

theorem readRange_ref {s : Located} {id : List Char} (h : s.trim.chars = '$' :: id) :
    readRange selfId s = readRef selfId s.trim.pos id := by
  rw [readRange]
  simp only [h, if_true]

theorem readRange_other {s : Located} (hne : s.trim.chars ≠ [])
    (hd : s.trim.chars.head? ≠ some '$') :
    readRange selfId s = match splitAtParen s.trim.chars with
      | none => readConstant s.trim.pos s.trim.chars
      | some (front, body) => readCall selfId s.trim.pos front body := by
  obtain ⟨c, cs, hc⟩ := List.exists_cons_of_ne_nil hne
  have hcd : c ≠ '$' := by
    rintro rfl
    exact hd (by rw [hc]; rfl)
  rw [readRange, hc]
  simp only [if_neg hcd]
  cases splitAtParen (c :: cs) with
  | none => rfl
  | some r =>
    obtain ⟨front, body⟩ := r
    dsimp only
    split
    · rename_i hparts
      rw [readCall, hparts]
    · rename_i hparts
      exact (readCall_of_parts hparts).symm

theorem readArgs_cons (s : Located) (ss : List Located) :
    readArgs selfId (s :: ss) = match readRange selfId s with
      | .error e => .error e
      | .ok e => match readArgs selfId ss with
        | .error err => .error err
        | .ok es => .ok (e :: es) := by
  exact readArgs.eq_def selfId (s :: ss)

/-! ### What is read has a derivation -/

theorem readCall_eq_ok {pos : Nat} {front body : List Char} {e : Expr}
    (h : readCall selfId pos front body = .ok e) :
    ∃ parts f args, readCallParts pos front body = .ok parts ∧
      Func.find? parts.name = some f ∧
      readArgs selfId (locate parts.bodyPos parts.pieces) = .ok args ∧
      f.accepts args.length = true ∧ e = .call f pos (.initial f) args := by
  unfold readCall at h
  split at h
  · cases h
  · rename_i parts hparts
    split at h
    · cases h
    · rename_i f hf
      split at h
      · cases h
      · rename_i args hargs
        split at h
        · rename_i hcount
          cases h
          exact ⟨parts, f, args, hparts, hf, hargs, hcount, rfl⟩
        · cases h

theorem readCallParts_eq_ok {pos : Nat} {front body : List Char} {parts : CallParts}
    (h : readCallParts pos front body = .ok parts) :
    ∃ gap pieces rest, allBlank gap = true ∧ front = parts.name ++ gap ∧
      splitArgs 0 body = some (pieces, rest) ∧ allBlank rest = true ∧
      parts.bodyPos = pos + byteLength front + 1 ∧ parts.pieces = argPieces pieces := by
  simp only [readCallParts, refuse] at h
  split at h
  · cases h
  · split at h
    · cases h
    · split at h
      · cases h
      · rename_i pieces rest hsplit
        split at h
        · rename_i htail
          cases h
          obtain ⟨gap, hgap, hfront⟩ := exists_append_trimEnd front
          exact ⟨gap, pieces, rest, hgap, hfront, hsplit, allBlank_of_trim_eq_nil htail, rfl, rfl⟩
        · cases h

theorem argPieces_cases (pieces : List (List Char)) :
    argPieces pieces = pieces ∨
      ∃ p, pieces = [p] ∧ allBlank p = true ∧ argPieces pieces = [] := by
  unfold argPieces
  split
  · rename_i p
    split
    · rename_i hblank
      exact Or.inr ⟨p, rfl, hblank, rfl⟩
    · exact Or.inl rfl
  · exact Or.inl rfl

theorem derivesCore_of_readRef {before id : List Char} {e : Expr}
    (h : readRef selfId (byteLength before) id = .ok e) :
    DerivesCore selfId before ('$' :: id) e := by
  unfold readRef at h
  split at h
  · cases h
  · rename_i hdrop
    have hid := List.dropWhile_eq_nil_iff.mp hdrop
    split at h
    · rename_i hself
      cases h
      exact .selfRef hself
    · rename_i hself
      cases h
      exact .portRef (fun h => hself (Or.inl h)) (fun h => hself (Or.inr h)) hid

theorem derivesCore_of_readConstant {before token : List Char} {pos : Nat} {e : Expr}
    (hne : token ≠ []) (hopen : '(' ∉ token) (hd : token.head? ≠ some '$')
    (h : readConstant pos token = .ok e) : DerivesCore selfId before token e := by
  unfold readConstant at h
  split at h
  · cases h
  · rename_i hclose
    split at h
    · cases h
    · rename_i hcomma
      split at h
      · rename_i v hv
        cases h
        exact .const ⟨hne, hopen, hclose, hcomma, hd⟩ ((literal_iff token v).mpr hv)
      · cases h

theorem Located.exists_trim (s : Located) : ∃ left right, allBlank left = true ∧
    allBlank right = true ∧ s.chars = left ++ s.trim.chars ++ right ∧
    s.trim.pos = s.pos + byteLength left := by
  obtain ⟨right, hr, hchars⟩ := exists_surround_trim s.chars
  exact ⟨_, right, allBlank_takeWhile s.chars, hr, hchars, rfl⟩

theorem byteLength_behind (before text : List Char) {c : Char} (h : c.utf8Size = 1) :
    byteLength (before ++ text ++ [c]) = byteLength before + byteLength text + 1 := by
  rw [byteLength_append, byteLength_append, byteLength, byteLength, h]

theorem length_lt_piecesLength {p : List Char} {ps : List (List Char)} (h : p ∈ ps) :
    p.length < piecesLength ps := by
  induction ps with
  | nil => cases h
  | cons q qs ih =>
    rw [piecesLength]
    rcases List.mem_cons.mp h with rfl | h
    · omega
    · have hq := ih h
      omega

theorem derivesArgs_of_readArgs {before : List Char} {pieces : List (List Char)}
    {es : List Expr} (hne : pieces ≠ [])
    (ih : ∀ p ∈ pieces, ∀ before e, readRange selfId ⟨byteLength before, p⟩ = .ok e →
      Derives selfId before p e)
    (h : readArgs selfId (locate (byteLength before) pieces) = .ok es) :
    DerivesArgs selfId before (joinPieces pieces) es := by
  induction pieces generalizing before es with
  | nil => exact absurd rfl hne
  | cons p ps ihps =>
    rw [locate, readArgs_cons] at h
    split at h
    · cases h
    · rename_i e he
      have hp := ih p (List.mem_cons_self ..) before e he
      split at h
      · cases h
      · rename_i es' hes
        cases h
        cases ps with
        | nil =>
          rw [locate, readArgs] at hes
          cases hes
          exact .last hp
        | cons q qs =>
          rw [← byteLength_behind before p (c := ',') (by decide)] at hes
          have htail := ihps (List.cons_ne_nil q qs)
            (fun p' hp' => ih p' (List.mem_cons_of_mem p hp')) hes
          exact .next hp htail

theorem derivesBody_of_readArgs {before : List Char} {pieces : List (List Char)}
    {args : List Expr} (hne : pieces ≠ [])
    (ih : ∀ p ∈ pieces, ∀ before e, readRange selfId ⟨byteLength before, p⟩ = .ok e →
      Derives selfId before p e)
    (h : readArgs selfId (locate (byteLength before) (argPieces pieces)) = .ok args) :
    DerivesBody selfId before (joinPieces pieces) args := by
  rcases argPieces_cases pieces with hall | ⟨p, rfl, hblank, hnone⟩
  · rw [hall] at h
    exact .list (derivesArgs_of_readArgs hne ih h)
  · rw [hnone, locate, readArgs] at h
    cases h
    exact .blank hblank

theorem derivesCore_of_readCall {before front body : List Char} {e : Expr}
    (ih : ∀ p, p.length < body.length → ∀ before e,
      readRange selfId ⟨byteLength before, p⟩ = .ok e → Derives selfId before p e)
    (h : readCall selfId (byteLength before) front body = .ok e) :
    ∃ core rest, front ++ '(' :: body = core ++ rest ∧ allBlank rest = true ∧
      DerivesCore selfId before core e := by
  obtain ⟨parts, f, args, hparts, hf, hargs, hcount, rfl⟩ := readCall_eq_ok h
  obtain ⟨gap, pieces, rest, hgap, rfl, hsplit, hrest, hbodyPos, hpieces⟩ :=
    readCallParts_eq_ok hparts
  obtain ⟨hne, hlength⟩ := splitArgs_length body 0 _ hsplit
  have hbody := eq_joinPieces_of_splitArgs body 0 _ hsplit
  simp only at hne hlength hbody
  have hpos : parts.bodyPos = byteLength (before ++ parts.name ++ gap ++ ['(']) := by
    rw [hbodyPos, List.append_assoc before, byteLength_behind _ _ (by decide)]
  have hderives : DerivesBody selfId (before ++ parts.name ++ gap ++ ['('])
      (joinPieces pieces) args := by
    rw [hpos, hpieces] at hargs
    refine derivesBody_of_readArgs hne (fun p hp => ih p ?_) hargs
    have hp := length_lt_piecesLength hp
    omega
  have hname : SameLetters parts.name f.name.toList := by
    rw [SameLetters, Func.map_toUpper_name]
    exact (Func.find?_eq_some_iff parts.name f).mp hf
  refine ⟨_, rest, ?_, hrest, .call hname hgap hderives hcount⟩
  rw [hbody]
  simp only [List.append_assoc, List.cons_append, List.nil_append]

theorem derives_of_readRange {s : Located} {before : List Char} {e : Expr}
    (hpos : s.pos = byteLength before) (h : readRange selfId s = .ok e) :
    Derives selfId before s.chars e := by
  obtain ⟨left, right, hl, hr, hchars, htrim⟩ := s.exists_trim
  have hcore : s.trim.pos = byteLength (before ++ left) := by
    rw [htrim, hpos, byteLength_append]
  have hlength : s.trim.chars.length ≤ s.chars.length := length_trim_le s.chars
  rw [hchars]
  by_cases hne : s.trim.chars = []
  · rw [readRange_blank hne] at h
    cases h
  by_cases hd : s.trim.chars.head? = some '$'
  · obtain ⟨id, hid⟩ := List.head?_eq_some_iff.mp hd
    rw [readRange_ref hid, hcore] at h
    rw [hid]
    exact .surround hl hr (derivesCore_of_readRef h)
  rw [readRange_other hne hd, hcore] at h
  cases hp : splitAtParen s.trim.chars with
  | none =>
    rw [hp] at h
    have hopen := (splitAtParen_eq_none_iff _).mp hp
    exact .surround hl hr (derivesCore_of_readConstant hne hopen hd h)
  | some r =>
    obtain ⟨front, body⟩ := r
    rw [hp] at h
    have hbody := splitAtParen_length hp
    obtain ⟨core, rest, hsplit, hrest, hderives⟩ := derivesCore_of_readCall
      (fun p hlt before e hread => derives_of_readRange (s := ⟨byteLength before, p⟩) rfl hread) h
    rw [eq_of_splitAtParen hp, hsplit, ← List.append_assoc, List.append_assoc _ rest]
    exact .surround hl (allBlank_append hrest hr) hderives
termination_by s.chars.length
decreasing_by omega

/-! ### What has a derivation is read -/

theorem dropWhile_isIdChar {id : List Char} (h : ∀ c ∈ id, isIdChar c = true) :
    id.dropWhile isIdChar = [] :=
  List.dropWhile_eq_nil_iff.mpr h

theorem readRef_self (pos : Nat) {id : List Char} (h : id = [] ∨ id = selfWord) :
    readRef selfId pos id = .ok (.ref ⟨selfId, true, pos⟩) := by
  unfold readRef
  rw [dropWhile_isIdChar (isIdChar_of_id h)]
  simp only [h, if_true]

theorem readRef_port (pos : Nat) {id : List Char} (hne : id ≠ []) (hself : id ≠ selfWord)
    (hid : ∀ c ∈ id, isIdChar c = true) :
    readRef selfId pos id = .ok (.ref ⟨String.ofList id, false, pos⟩) := by
  have hnot : ¬(id = [] ∨ id = selfWord) := fun h => h.elim hne hself
  unfold readRef
  rw [dropWhile_isIdChar hid]
  simp only [hnot, if_false]

theorem readConstant_literal (pos : Nat) {token : List Char} {v : Value}
    (ht : ConstantText token) (h : Literal token v) : readConstant pos token = .ok (.const v) := by
  unfold readConstant
  rw [if_neg ht.no_close, if_neg ht.no_comma, (literal_iff token v).mp h]

theorem readCallParts_name (pos : Nat) {name gap body : List Char}
    {pieces : List (List Char)} {f : Func} (hname : SameLetters name f.name.toList)
    (hgap : allBlank gap = true) (hsplit : splitArgs 0 body = some (pieces, [])) :
    readCallParts pos (name ++ gap) body =
      .ok ⟨name, pos + byteLength (name ++ gap) + 1, argPieces pieces⟩ := by
  have hne := ne_nil_of_sameLetters hname
  have hplain := plain_of_id (isIdChar_of_sameLetters hname)
  have htrim : trimEnd (name ++ gap) = name :=
    trimEnd_append hgap (trimmed_of_plain hne hplain).ends
  have hdrop : name.dropWhile isNameChar = [] :=
    List.dropWhile_eq_nil_iff.mpr
      (Func.isNameChar_of_name (map_toUpper_of_sameLetters hname))
  have hblank : Text.trim [] = [] := rfl
  simp only [readCallParts, htrim, if_neg hne, hdrop, hsplit, hblank, if_true]

theorem trim_located (before : List Char) {left core right : List Char}
    (hl : allBlank left = true) (hr : allBlank right = true) (hc : Trimmed core) :
    Located.trim ⟨byteLength before, left ++ core ++ right⟩ =
      ⟨byteLength (before ++ left), core⟩ := by
  have hstart : (left ++ core ++ right).takeWhile isBlank = left := by
    rw [List.append_assoc]
    exact takeWhile_isBlank_append hl (hc.starts.append right)
  simp only [Located.trim, hstart, trim_surround hl hr hc, byteLength_append]

theorem argPieces_of_not_blank {pieces : List (List Char)}
    (h : ∀ p ∈ pieces, allBlank p = false) : argPieces pieces = pieces := by
  rcases argPieces_cases pieces with hall | ⟨p, rfl, hblank, _⟩
  · exact hall
  · rw [h p (List.mem_singleton_self p)] at hblank
    cases hblank

/-- The cut of a list of arguments, whatever follows its closing parenthesis. -/
def CutsInto (body : List Char) (pieces : List (List Char)) : Prop :=
  ∀ rest, splitArgs 0 (body ++ ')' :: rest) = some (pieces, rest)

theorem readRange_core_call {s : Located} {before name gap body : List Char} {f : Func}
    {args : List Expr} {pieces : List (List Char)}
    (htrim : s.trim = ⟨byteLength before, name ++ gap ++ '(' :: body ++ [')']⟩)
    (hname : SameLetters name f.name.toList) (hgap : allBlank gap = true)
    (hcut : CutsInto body pieces)
    (hargs : readArgs selfId
      (locate (byteLength (before ++ name ++ gap ++ ['('])) (argPieces pieces)) = .ok args)
    (hcount : f.accepts args.length = true) :
    readRange selfId s = .ok (.call f (byteLength before) (.initial f) args) := by
  have hplain := plain_of_id (isIdChar_of_sameLetters hname)
  have hne := ne_nil_of_sameLetters hname
  have hchars : s.trim.chars = (name ++ gap) ++ '(' :: (body ++ [')']) := by
    rw [htrim]
    simp only [List.append_assoc, List.cons_append]
  have hopen : '(' ∉ name ++ gap := by
    intro hmem
    rcases List.mem_append.mp hmem with hmem | hmem
    · exact (hplain _ hmem).ne_open rfl
    · exact not_mem_of_allBlank hgap (by decide) hmem
  have hdollar : s.trim.chars.head? ≠ some '$' := by
    obtain ⟨c, cs, rfl⟩ := List.exists_cons_of_ne_nil hne
    rw [hchars]
    intro h
    exact (hplain c (List.mem_cons_self ..)).ne_dollar (Option.some.inj h)
  have hpos : byteLength before + byteLength (name ++ gap) + 1 =
      byteLength (before ++ name ++ gap ++ ['(']) := by
    rw [List.append_assoc before, byteLength_behind _ _ (by decide)]
  have hparen : splitAtParen s.trim.chars = some (name ++ gap, body ++ [')']) := by
    rw [hchars, splitAtParen_append _ hopen]
  rw [readRange_other (by rw [hchars]; simp) hdollar, hparen, htrim]
  simp only [readCall, readCallParts_name _ hname hgap (hcut []),
    (Func.find?_eq_some_iff name f).mpr (map_toUpper_of_sameLetters hname), hpos, hargs, hcount,
    if_true]

mutual

theorem Derives.readRange_eq : ∀ {before text : List Char} {e : Expr},
    Derives selfId before text e → readRange selfId ⟨byteLength before, text⟩ = .ok e
  | before, _, _, .surround hl hr h => h.readRange_eq (trim_located before hl hr h.trimmed)

theorem DerivesCore.readRange_eq : ∀ {before core : List Char} {e : Expr} {s : Located},
    DerivesCore selfId before core e → s.trim = ⟨byteLength before, core⟩ →
    readRange selfId s = .ok e
  | _, _, _, s, .selfRef h, ht => by
    rw [readRange_ref (by rw [ht]), ht]
    exact readRef_self _ h
  | _, _, _, s, .portRef hne hself hid, ht => by
    rw [readRange_ref (by rw [ht]), ht]
    exact readRef_port _ hne hself hid
  | _, _, _, s, .const hc h, ht => by
    have hparen := (splitAtParen_eq_none_iff _).mpr hc.no_open
    rw [readRange_other (by rw [ht]; exact hc.ne_nil) (by rw [ht]; exact hc.no_dollar), ht, hparen]
    exact readConstant_literal _ hc h
  | _, _, _, s, .call hname hgap h hcount, ht => by
    obtain ⟨pieces, hcut, hargs⟩ := h.cut
    exact readRange_core_call ht hname hgap hcut hargs hcount

theorem DerivesBody.cut : ∀ {before body : List Char} {args : List Expr},
    DerivesBody selfId before body args → ∃ pieces, CutsInto body pieces ∧
      readArgs selfId (locate (byteLength before) (argPieces pieces)) = .ok args
  | _, body, _, .blank h => by
    refine ⟨[body], splitArgs_last (closed_of_allBlank h), ?_⟩
    have hnone : argPieces [body] = [] := by simp only [argPieces, h, if_true]
    rw [hnone, locate, readArgs]
  | _, _, _, .list h => by
    obtain ⟨pieces, hcut, hsolid, hargs⟩ := h.cut
    exact ⟨pieces, hcut, by rw [argPieces_of_not_blank hsolid, hargs]⟩

theorem DerivesArgs.cut : ∀ {before body : List Char} {args : List Expr},
    DerivesArgs selfId before body args → ∃ pieces, CutsInto body pieces ∧
      (∀ p ∈ pieces, allBlank p = false) ∧
      readArgs selfId (locate (byteLength before) pieces) = .ok args
  | _, text, _, .last h => by
    have hread := h.readRange_eq
    refine ⟨[text], splitArgs_last h.closed, ?_, ?_⟩
    · intro p hp
      rw [List.mem_singleton.mp hp]
      exact h.not_allBlank
    · simp only [locate, readArgs_cons, hread]
      rw [readArgs]
  | before, _, _, @DerivesArgs.next _ _ text _ _ _ h hrest => by
    have hread := h.readRange_eq
    obtain ⟨pieces, hcut, hsolid, hargs⟩ := hrest.cut
    refine ⟨text :: pieces, ?_, ?_, ?_⟩
    · intro rest
      rw [List.append_assoc, List.cons_append]
      exact splitArgs_next h.closed (hcut rest)
    · intro p hp
      rcases List.mem_cons.mp hp with rfl | hp
      · exact h.not_allBlank
      · exact hsolid p hp
    · rw [byteLength_behind before text (by decide)] at hargs
      simp only [locate, readArgs_cons, hread, hargs]

end

/-! ### Reading a source -/

theorem derives_of_parse {source : String} {e : Expr} (h : parse source selfId = .ok e) :
    Derives selfId [] source.toList e :=
  derives_of_readRange (s := ⟨0, source.toList⟩) rfl h

theorem parse_of_derives {source : String} {e : Expr}
    (h : Derives selfId [] source.toList e) : parse source selfId = .ok e :=
  h.readRange_eq

/-- Reading accepts the texts of the grammar and no others. A text has at most one tree, and
every reference and call of it notes the byte of its first character. -/
theorem parse_eq_ok_iff_derives (source selfId : String) (e : Expr) :
    (parse source selfId = .ok e ↔ Derives selfId [] source.toList e) ∧
      (Derives selfId [] source.toList e →
        (∀ e', Derives selfId [] source.toList e' → e' = e) ∧
        ∀ n pos, Occurs n e → n.pos? = some pos → StartsAt selfId source.toList n pos) := by
  refine ⟨⟨derives_of_parse, parse_of_derives⟩, ?_⟩
  intro h
  constructor
  · intro e' h'
    have heq := (parse_of_derives h).symm.trans (parse_of_derives h')
    exact (Except.ok.inj heq).symm
  · intro n pos ho hpos
    exact h.startsAt hpos ho

/-- Wide blanks count with all their bytes. -/
theorem parse_surrounded_call :
    parse "\u00a0If( $a ,\u2003not($), false )" "me" = .ok (.call .cond 2 .none
      [.ref ⟨"a", false, 6⟩, .call .not 13 .none [.ref ⟨"me", true, 17⟩],
        .const (.bool false)]) ∧
      StartsAt "me" "\u00a0If( $a ,\u2003not($), false )".toList (.ref ⟨"me", true, 17⟩) 17 := by
  have hparse : parse "\u00a0If( $a ,\u2003not($), false )" "me" = .ok (.call .cond 2 .none
      [.ref ⟨"a", false, 6⟩, .call .not 13 .none [.ref ⟨"me", true, 17⟩],
        .const (.bool false)]) := by cbv
  have hderives := (parse_eq_ok_iff_derives _ _ _).1.mp hparse
  have hinner : Occurs (.ref ⟨"me", true, 17⟩)
      (.call .not 13 .none [.ref ⟨"me", true, 17⟩]) :=
    .inside (List.mem_singleton_self _) .here
  have hoccurs : Occurs (.ref ⟨"me", true, 17⟩) (.call .cond 2 .none
      [.ref ⟨"a", false, 6⟩, .call .not 13 .none [.ref ⟨"me", true, 17⟩],
        .const (.bool false)]) :=
    .inside (List.mem_cons_of_mem _ (List.mem_cons_self ..)) hinner
  exact ⟨hparse, ((parse_eq_ok_iff_derives _ _ _).2 hderives).2 _ _ hoccurs rfl⟩

end ControlNode.Expr
