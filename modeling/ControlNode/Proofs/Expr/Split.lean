import ControlNode.Expr.Parser
import Mathlib.Data.List.Basic

/-!
# Splitting arguments

Arguments are cut at the commas of their own level. Taking the cut pieces together gives the
text back, and a text is never cut if its parentheses are matched and every comma of it stands
inside them.
-/

namespace ControlNode.Expr

/-! ### One character -/

theorem splitArgs_open (depth : Nat) (cs : List Char) :
    splitArgs depth ('(' :: cs) = (splitArgs (depth + 1) cs).map (pushChar '(') := by
  simp [splitArgs]

theorem splitArgs_close (cs : List Char) : splitArgs 0 (')' :: cs) = some ([[]], cs) := by
  simp [splitArgs]

theorem splitArgs_close_inner (depth : Nat) (cs : List Char) :
    splitArgs (depth + 1) (')' :: cs) = (splitArgs depth cs).map (pushChar ')') := by
  simp [splitArgs]

theorem splitArgs_comma (cs : List Char) :
    splitArgs 0 (',' :: cs) = (splitArgs 0 cs).map fun (ps, rest) => ([] :: ps, rest) := by
  simp [splitArgs]

theorem splitArgs_comma_inner (depth : Nat) (cs : List Char) :
    splitArgs (depth + 1) (',' :: cs) = (splitArgs (depth + 1) cs).map (pushChar ',') := by
  simp [splitArgs]

theorem splitArgs_other (depth : Nat) {c : Char} (cs : List Char) (ho : c ≠ '(')
    (hc : c ≠ ')') (hs : c ≠ ',') :
    splitArgs depth (c :: cs) = (splitArgs depth cs).map (pushChar c) := by
  simp [splitArgs, ho, hc, hs]

/-! ### Nothing is lost -/

/-- The text of some pieces with a comma between any two. -/
def joinPieces : List (List Char) → List Char
  | [] => []
  | [p] => p
  | p :: ps => p ++ ',' :: joinPieces ps

theorem joinPieces_cons_of_ne_nil (p : List Char) {ps : List (List Char)} (h : ps ≠ []) :
    joinPieces (p :: ps) = p ++ ',' :: joinPieces ps := by
  cases ps with
  | nil => exact absurd rfl h
  | cons q qs => rfl

theorem joinPieces_pushChar (c : Char) (r : List (List Char) × List Char) (h : r.1 ≠ []) :
    joinPieces (pushChar c r).1 = c :: joinPieces r.1 := by
  obtain ⟨ps, rest⟩ := r
  cases ps with
  | nil => exact absurd rfl h
  | cons p ps =>
    cases ps with
    | nil => rfl
    | cons q qs => rfl

theorem eq_joinPieces_of_splitArgs (cs : List Char) (depth : Nat)
    (r : List (List Char) × List Char) (h : splitArgs depth cs = some r) :
    cs = joinPieces r.1 ++ ')' :: r.2 := by
  induction cs generalizing depth r with
  | nil => simp [splitArgs] at h
  | cons c cs ih =>
    have push (d : Nat) (h : (splitArgs d cs).map (pushChar c) = some r) :
        c :: cs = joinPieces r.1 ++ ')' :: r.2 := by
      obtain ⟨q, hq, rfl⟩ := Option.map_eq_some_iff.1 h
      have hne := (splitArgs_length cs d q hq).1
      rw [joinPieces_pushChar c q hne, pushChar_snd, List.cons_append, ← ih d q hq]
    unfold splitArgs at h
    split at h
    · exact push _ h
    · split at h
      · rename_i hclose
        split at h
        · cases h
          rw [hclose]
          rfl
        · exact push _ h
      · split at h
        · rename_i hcomma
          obtain ⟨q, hq, rfl⟩ := Option.map_eq_some_iff.1 h
          have hne := (splitArgs_length cs 0 q hq).1
          rw [joinPieces_cons_of_ne_nil [] hne, List.nil_append, List.cons_append,
            ← ih 0 q hq, hcomma.1]
        · exact push _ h

/-! ### Texts that are not cut -/

/-- Puts a text in front of the first piece. -/
def pushText (t : List Char) (r : List (List Char) × List Char) : List (List Char) × List Char :=
  t.foldr pushChar r

theorem pushText_cons (t p : List Char) (ps : List (List Char)) (rest : List Char) :
    pushText t (p :: ps, rest) = ((t ++ p) :: ps, rest) := by
  induction t with
  | nil => rfl
  | cons c t ih =>
    change pushChar c (pushText t (p :: ps, rest)) = _
    rw [ih]
    rfl

theorem map_pushText_append (s t : List Char) (o : Option (List (List Char) × List Char)) :
    o.map (pushText (s ++ t)) = (o.map (pushText t)).map (pushText s) := by
  rw [Option.map_map]
  congr 1
  funext r
  simp only [pushText, List.foldr_append, Function.comp_apply]

/-- Splitting passes over `t` as a whole wherever at least `level` parentheses are open. -/
def PassedAt (level : Nat) (t : List Char) : Prop :=
  ∀ depth rest, level ≤ depth →
    splitArgs depth (t ++ rest) = (splitArgs depth rest).map (pushText t)

/-- A text without a parenthesis or comma of its own level: it can be an argument. -/
def Closed (t : List Char) : Prop := PassedAt 0 t

theorem passedAt_nil (level : Nat) : PassedAt level [] := by
  intro depth rest _
  exact Option.map_id'.symm

theorem PassedAt.append {level : Nat} {s t : List Char} (hs : PassedAt level s)
    (ht : PassedAt level t) : PassedAt level (s ++ t) := by
  intro depth rest hd
  rw [List.append_assoc, hs depth (t ++ rest) hd, ht depth rest hd, map_pushText_append]

theorem PassedAt.mono {level level' : Nat} {t : List Char} (h : PassedAt level t)
    (hle : level ≤ level') : PassedAt level' t := by
  intro depth rest hd
  exact h depth rest (Nat.le_trans hle hd)

theorem closed_char {c : Char} (ho : c ≠ '(') (hc : c ≠ ')') (hs : c ≠ ',') : Closed [c] := by
  intro depth rest _
  exact splitArgs_other depth rest ho hc hs

theorem closed_of_forall {t : List Char} (h : ∀ c ∈ t, c ≠ '(' ∧ c ≠ ')' ∧ c ≠ ',') :
    Closed t := by
  induction t with
  | nil => exact passedAt_nil 0
  | cons c t ih =>
    obtain ⟨ho, hc, hs⟩ := h c (List.mem_cons_self ..)
    have ht := ih (fun d hd => h d (List.mem_cons_of_mem c hd))
    exact PassedAt.append (closed_char ho hc hs) ht

theorem passedAt_comma : PassedAt 1 [','] := by
  intro depth rest hd
  obtain ⟨inner, rfl⟩ := Nat.exists_eq_add_of_le' hd
  exact splitArgs_comma_inner inner rest

theorem closed_parens {t : List Char} (h : PassedAt 1 t) : Closed ('(' :: t ++ [')']) := by
  intro depth rest _
  have hopen : splitArgs depth ('(' :: (t ++ ')' :: rest)) =
      (splitArgs (depth + 1) (t ++ ')' :: rest)).map (pushText ['(']) := splitArgs_open _ _
  have hclose : splitArgs (depth + 1) (')' :: rest) =
      (splitArgs depth rest).map (pushText [')']) := splitArgs_close_inner _ _
  have hlist : '(' :: t ++ [')'] ++ rest = '(' :: (t ++ ')' :: rest) := by simp
  rw [hlist, hopen, h (depth + 1) (')' :: rest) (by omega), hclose, ← map_pushText_append,
    ← map_pushText_append]
  rfl

/-! ### Cutting -/

theorem splitArgs_last {t : List Char} (h : Closed t) (rest : List Char) :
    splitArgs 0 (t ++ ')' :: rest) = some ([t], rest) := by
  rw [h 0 (')' :: rest) (Nat.le_refl 0), splitArgs_close, Option.map_some, pushText_cons,
    List.append_nil]

theorem splitArgs_next {t cs rest : List Char} {ps : List (List Char)} (h : Closed t)
    (hcs : splitArgs 0 cs = some (ps, rest)) :
    splitArgs 0 (t ++ ',' :: cs) = some (t :: ps, rest) := by
  rw [h 0 (',' :: cs) (Nat.le_refl 0), splitArgs_comma, hcs, Option.map_some, Option.map_some,
    pushText_cons, List.append_nil]

end ControlNode.Expr
