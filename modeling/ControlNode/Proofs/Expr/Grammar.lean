import ControlNode.Proofs.Expr.Name
import ControlNode.Proofs.Expr.Split
import ControlNode.Proofs.Text.Trim

/-!
# The grammar of expressions

The texts of expressions as derivations. A derivation carries what stands in the source in
front of its text, so that it says at which byte each reference and each call starts.
-/

namespace ControlNode.Expr

open Text

/-! ### Derivations -/

/-- Equal texts but for the case of ASCII letters. -/
def SameLetters (a b : List Char) : Prop := a.map Char.toUpper = b.map Char.toUpper

/-- The texts of values. An integer counts as one although it is a double as well. -/
inductive Literal : List Char → Value → Prop where
  | yes : Literal ['t', 'r', 'u', 'e'] (.bool true)
  | no : Literal ['f', 'a', 'l', 's', 'e'] (.bool false)
  | int {token : List Char} {i : Int} (h : Decimal.readInt64? token = some i) :
      Literal token (.ofInt i)
  | double {token : List Char} {x : Float} (hint : Decimal.readInt64? token = none)
      (h : Decimal.readDouble? token = some x) (hfin : Binary64.isFinite x = true) :
      Literal token (.num x)

/-- A non-empty text without parentheses and commas that does not start with a dollar sign. -/
structure ConstantText (token : List Char) : Prop where
  ne_nil : token ≠ []
  no_open : '(' ∉ token
  no_close : ')' ∉ token
  no_comma : ',' ∉ token
  no_dollar : token.head? ≠ some '$'

variable (selfId : String)

mutual

/-- `Derives selfId before text e`: behind `before`, `text` is a text of the expression `e`. -/
inductive Derives : (before text : List Char) → Expr → Prop
  | surround {before left core right : List Char} {e : Expr} (hl : allBlank left = true)
      (hr : allBlank right = true) (h : DerivesCore (before ++ left) core e) :
      Derives before (left ++ core ++ right) e

/-- The same without blank characters at the ends. -/
inductive DerivesCore : (before core : List Char) → Expr → Prop
  | selfRef {before id : List Char} (h : id = [] ∨ id = selfWord) :
      DerivesCore before ('$' :: id) (.ref ⟨selfId, true, byteLength before⟩)
  | portRef {before id : List Char} (hne : id ≠ []) (hself : id ≠ selfWord)
      (hid : ∀ c ∈ id, isIdChar c = true) :
      DerivesCore before ('$' :: id) (.ref ⟨String.ofList id, false, byteLength before⟩)
  | const {before token : List Char} {v : Value} (ht : ConstantText token)
      (h : Literal token v) : DerivesCore before token (.const v)
  | call {before name gap body : List Char} {f : Func} {args : List Expr}
      (hname : SameLetters name f.name.toList) (hgap : allBlank gap = true)
      (h : DerivesBody (before ++ name ++ gap ++ ['(']) body args)
      (hcount : f.accepts args.length = true) :
      DerivesCore before (name ++ gap ++ '(' :: body ++ [')'])
        (.call f (byteLength before) (.initial f) args)

/-- The texts between the parentheses of a call. -/
inductive DerivesBody : (before body : List Char) → List Expr → Prop
  | blank {before body : List Char} (h : allBlank body = true) : DerivesBody before body []
  | list {before body : List Char} {args : List Expr} (h : DerivesArgs before body args) :
      DerivesBody before body args

/-- Texts of expressions with a comma between any two. -/
inductive DerivesArgs : (before body : List Char) → List Expr → Prop
  | last {before text : List Char} {e : Expr} (h : Derives before text e) :
      DerivesArgs before text [e]
  | next {before text rest : List Char} {e : Expr} {es : List Expr} (h : Derives before text e)
      (hrest : DerivesArgs (before ++ text ++ [',']) rest es) :
      DerivesArgs before (text ++ ',' :: rest) (e :: es)

end

variable {selfId : String}

/-! ### Literals -/

theorem readInt64?_true : Decimal.readInt64? ['t', 'r', 'u', 'e'] = none := by decide

theorem readInt64?_false : Decimal.readInt64? ['f', 'a', 'l', 's', 'e'] = none := by decide

theorem readDouble?_true : Decimal.readDouble? ['t', 'r', 'u', 'e'] = none := by decide

theorem readDouble?_false : Decimal.readDouble? ['f', 'a', 'l', 's', 'e'] = none := by decide

theorem literal_iff (token : List Char) (v : Value) :
    Literal token v ↔ constantValue? token = some v := by
  unfold constantValue?
  constructor
  · intro h
    cases h with
    | yes => rfl
    | no => rfl
    | int h =>
      rw [if_neg, if_neg, h]
      · rintro rfl
        rw [readInt64?_false] at h
        cases h
      · rintro rfl
        rw [readInt64?_true] at h
        cases h
    | double hint h hfin =>
      rw [if_neg, if_neg, hint, h]
      · simp only [hfin, if_true]
      · rintro rfl
        rw [readDouble?_false] at h
        cases h
      · rintro rfl
        rw [readDouble?_true] at h
        cases h
  · intro h
    split at h
    · rename_i htrue
      cases h
      rw [htrue]
      exact .yes
    · split at h
      · rename_i hfalse
        cases h
        rw [hfalse]
        exact .no
      · cases hint : Decimal.readInt64? token with
        | some i =>
          rw [hint] at h
          cases h
          exact .int hint
        | none =>
          rw [hint] at h
          cases hd : Decimal.readDouble? token with
          | none => simp [hd] at h
          | some x =>
            simp only [hd] at h
            split at h
            · rename_i hfin
              cases h
              exact .double hint hd hfin
            · cases h

/-! ### Derived texts -/

theorem not_mem_of_allBlank {cs : List Char} (h : allBlank cs = true) {c : Char}
    (hc : isBlank c = false) : c ∉ cs := by
  intro hmem
  rw [(allBlank_iff cs).mp h c hmem] at hc
  cases hc

theorem closed_of_allBlank {cs : List Char} (h : allBlank cs = true) : Closed cs := by
  apply closed_of_forall
  intro c hc
  have hb := (allBlank_iff cs).mp h c hc
  refine ⟨?_, ?_, ?_⟩
  all_goals
    rintro rfl
    exact absurd hb (by decide)

theorem closed_dollar : Closed ['$'] := closed_char (by decide) (by decide) (by decide)

theorem closed_of_isIdChar {cs : List Char} (h : ∀ c ∈ cs, isIdChar c = true) : Closed cs := by
  apply closed_of_forall
  intro c hc
  have hp := plain_of_isIdChar (h c hc)
  exact ⟨hp.ne_open, hp.ne_close, hp.ne_comma⟩

theorem isIdChar_of_id {id : List Char} (h : id = [] ∨ id = selfWord) :
    ∀ c ∈ id, isIdChar c = true := by
  rw [← List.all_eq_true]
  rcases h with rfl | rfl
  · rfl
  · decide

theorem ConstantText.closed {token : List Char} (h : ConstantText token) : Closed token := by
  apply closed_of_forall
  intro c hc
  refine ⟨?_, ?_, ?_⟩
  · rintro rfl
    exact h.no_open hc
  · rintro rfl
    exact h.no_close hc
  · rintro rfl
    exact h.no_comma hc

theorem map_toUpper_of_sameLetters {name : List Char} {f : Func}
    (h : SameLetters name f.name.toList) : name.map Char.toUpper = f.name.toList := by
  rw [h, Func.map_toUpper_name]

theorem isIdChar_of_sameLetters {name : List Char} {f : Func}
    (h : SameLetters name f.name.toList) : ∀ c ∈ name, isIdChar c = true := by
  intro c hc
  exact isIdChar_of_isNameChar (Func.isNameChar_of_name (map_toUpper_of_sameLetters h) c hc)

theorem ne_nil_of_sameLetters {name : List Char} {f : Func}
    (h : SameLetters name f.name.toList) : name ≠ [] :=
  Func.ne_nil_of_name (map_toUpper_of_sameLetters h)

mutual

/-- A text of an expression can be an argument: nothing in it is at the level around it. -/
theorem Derives.closed : ∀ {before text : List Char} {e : Expr},
    Derives selfId before text e → Closed text
  | _, _, _, .surround hl hr h => by
    have hcore := h.closed
    exact ((closed_of_allBlank hl).append hcore).append (closed_of_allBlank hr)

theorem DerivesCore.closed : ∀ {before core : List Char} {e : Expr},
    DerivesCore selfId before core e → Closed core
  | _, _, _, .selfRef h => closed_dollar.append (closed_of_isIdChar (isIdChar_of_id h))
  | _, _, _, .portRef _ _ hid => closed_dollar.append (closed_of_isIdChar hid)
  | _, _, _, .const ht _ => ht.closed
  | _, _, _, .call hname hgap h _ => by
    have hbody := h.passed
    have hletters := closed_of_isIdChar (isIdChar_of_sameLetters hname)
    rw [List.append_assoc]
    exact (hletters.append (closed_of_allBlank hgap)).append (closed_parens hbody)

theorem DerivesBody.passed : ∀ {before body : List Char} {args : List Expr},
    DerivesBody selfId before body args → PassedAt 1 body
  | _, _, _, .blank h => PassedAt.mono (closed_of_allBlank h) (Nat.zero_le 1)
  | _, _, _, .list h => h.passed

theorem DerivesArgs.passed : ∀ {before body : List Char} {args : List Expr},
    DerivesArgs selfId before body args → PassedAt 1 body
  | _, _, _, .last h => PassedAt.mono h.closed (Nat.zero_le 1)
  | _, _, _, .next h hrest => by
    have htext := PassedAt.mono h.closed (Nat.zero_le 1)
    have htail := hrest.passed
    exact htext.append (passedAt_comma.append htail)

end

theorem Literal.plain {token : List Char} {v : Value} (h : Literal token v) :
    ∀ c ∈ token, Plain c := by
  have hword (word : List Char) (hw : word.all isIdChar = true) : ∀ c ∈ word, Plain c :=
    fun c hc => plain_of_isIdChar (List.all_eq_true.mp hw c hc)
  cases h with
  | yes => exact hword _ (by decide)
  | no => exact hword _ (by decide)
  | int h => exact fun c hc => plain_of_isLiteralChar (Decimal.literalText_of_readInt64? h c hc)
  | double _ h _ =>
    exact fun c hc => plain_of_isLiteralChar (Decimal.literalText_of_readDouble? h c hc)

theorem trimmed_of_plain {cs : List Char} (hne : cs ≠ []) (h : ∀ c ∈ cs, Plain c) :
    Trimmed cs :=
  trimmed_of_no_blank hne fun c hc => (h c hc).solid

theorem plain_of_id {id : List Char} (h : ∀ c ∈ id, isIdChar c = true) : ∀ c ∈ id, Plain c :=
  fun c hc => plain_of_isIdChar (h c hc)

theorem trimmed_dollar {id : List Char} (h : ∀ c ∈ id, isIdChar c = true) :
    Trimmed ('$' :: id) := by
  refine trimmed_of_no_blank (List.cons_ne_nil _ _) ?_
  intro c hc
  rcases List.mem_cons.mp hc with rfl | hc
  · decide
  · exact (plain_of_isIdChar (h c hc)).solid

theorem DerivesCore.trimmed {before core : List Char} {e : Expr}
    (h : DerivesCore selfId before core e) : Trimmed core := by
  cases h with
  | selfRef h => exact trimmed_dollar (isIdChar_of_id h)
  | portRef _ _ hid => exact trimmed_dollar hid
  | const ht h => exact trimmed_of_no_blank ht.ne_nil fun c hc => (h.plain c hc).solid
  | call hname hgap h _ =>
    have hplain := plain_of_id (isIdChar_of_sameLetters hname)
    have hstarts := (trimmed_of_plain (ne_nil_of_sameLetters hname) hplain).starts
    refine ⟨?_, ⟨_, ')', rfl, by decide⟩⟩
    rw [List.append_assoc, List.append_assoc]
    exact hstarts.append _

theorem Derives.not_allBlank {before text : List Char} {e : Expr}
    (h : Derives selfId before text e) : allBlank text = false := by
  cases h with
  | surround hl hr h =>
    have hcore := h.trimmed.starts.not_allBlank
    simp only [allBlank] at hcore
    simp [allBlank, List.all_append, hcore]

/-! ### Parts of derivations -/

/-- `n` is `e` or stands inside it. -/
inductive Occurs (n : Expr) : Expr → Prop
  | here : Occurs n n
  | inside {f : Func} {pos : Nat} {state : NodeState} {args : List Expr} {a : Expr}
      (ha : a ∈ args) (h : Occurs n a) : Occurs n (.call f pos state args)

/-- The byte that a reference or a call notes as its start. -/
def pos? : Expr → Option Nat
  | .const _ => none
  | .ref r => some r.pos
  | .call _ pos _ _ => some pos

/-- The first character of a text of `n` stands at the byte `pos` of the source. -/
def StartsAt (selfId : String) (source : List Char) (n : Expr) (pos : Nat) : Prop :=
  ∃ before core after, source = before ++ core ++ after ∧ byteLength before = pos ∧
    StartsSolid core ∧ DerivesCore selfId before core n

theorem StartsAt.append {source : List Char} {n : Expr} {pos : Nat}
    (h : StartsAt selfId source n pos) (more : List Char) :
    StartsAt selfId (source ++ more) n pos := by
  obtain ⟨before, core, after, rfl, hpos, hsolid, hcore⟩ := h
  exact ⟨before, core, after ++ more, List.append_assoc _ after more, hpos, hsolid, hcore⟩

theorem DerivesCore.startsAt_self {before core : List Char} {e : Expr} {pos : Nat}
    (h : DerivesCore selfId before core e) (hpos : e.pos? = some pos) :
    StartsAt selfId (before ++ core) e pos := by
  have hsolid := h.trimmed.starts
  refine ⟨before, core, [], (List.append_nil _).symm, ?_, hsolid, h⟩
  cases h with
  | const _ _ => cases hpos
  | selfRef _ => exact Option.some.inj hpos
  | portRef _ _ _ => exact Option.some.inj hpos
  | call _ _ _ _ => exact Option.some.inj hpos

mutual

theorem Derives.startsAt {n : Expr} {pos : Nat} (hpos : n.pos? = some pos) :
    ∀ {before text : List Char} {e : Expr}, Derives selfId before text e → Occurs n e →
      StartsAt selfId (before ++ text) n pos
  | before, _, _, @Derives.surround _ _ left core right _ _ _ h, ho => by
    have hcore := (h.startsAt hpos ho).append right
    simpa only [List.append_assoc] using hcore

theorem DerivesCore.startsAt {n : Expr} {pos : Nat} (hpos : n.pos? = some pos) :
    ∀ {before core : List Char} {e : Expr}, DerivesCore selfId before core e → Occurs n e →
      StartsAt selfId (before ++ core) n pos
  | _, _, _, .selfRef h, ho => by
    cases ho
    exact (DerivesCore.selfRef h).startsAt_self hpos
  | _, _, _, .portRef hne hself hid, ho => by
    cases ho
    exact (DerivesCore.portRef hne hself hid).startsAt_self hpos
  | _, _, _, .const ht h, ho => by
    cases ho
    exact (DerivesCore.const ht h).startsAt_self hpos
  | _, _, _, .call hname hgap h hcount, ho => by
    have hargs := h.startsAt hpos
    cases ho with
    | here => exact (DerivesCore.call hname hgap h hcount).startsAt_self hpos
    | inside ha ho =>
      have hbody := (hargs _ ha ho).append [')']
      simpa only [List.append_assoc, List.cons_append, List.nil_append] using hbody

theorem DerivesBody.startsAt {n : Expr} {pos : Nat} (hpos : n.pos? = some pos) :
    ∀ {before body : List Char} {args : List Expr}, DerivesBody selfId before body args →
      ∀ a ∈ args, Occurs n a → StartsAt selfId (before ++ body) n pos
  | _, _, _, .blank _ => by
    intro a ha
    cases ha
  | _, _, _, .list h => h.startsAt hpos

theorem DerivesArgs.startsAt {n : Expr} {pos : Nat} (hpos : n.pos? = some pos) :
    ∀ {before body : List Char} {args : List Expr}, DerivesArgs selfId before body args →
      ∀ a ∈ args, Occurs n a → StartsAt selfId (before ++ body) n pos
  | _, _, _, .last h => by
    have htext := h.startsAt hpos
    intro a ha ho
    rw [List.mem_singleton.mp ha] at ho
    exact htext ho
  | _, _, _, @DerivesArgs.next _ _ text rest _ _ h hrest => by
    have htext := h.startsAt hpos
    have htail := hrest.startsAt hpos
    intro a ha ho
    rcases List.mem_cons.mp ha with rfl | ha
    · simpa only [List.append_assoc] using (htext ho).append (',' :: rest)
    · simpa only [List.append_assoc, List.cons_append, List.nil_append] using htail a ha ho

end

end ControlNode.Expr
