import ControlNode.Proofs.Expr.Dependence
import ControlNode.Proofs.Expr.Positions
import ControlNode.Proofs.Expr.Visits

/-!
# Transforms

A transform refers to no port but its own, by whichever spelling. What it yields is what is left
of it when the raw value of the port is written in place of every reference, whatever its calls
remember (`eval_fill`); the refusal of a text that refers to another port names the first
reference that does (`Foreign`).
-/

namespace ControlNode.Expr

open Text

variable {id source : String} {e : Expr}

/-! ### References in their order -/

/-- References that stand one behind the other between two bytes. -/
structure InOrder (start stop : Nat) (rs : List PortRef) : Prop where
  sorted : rs.Pairwise fun r r' => r.pos < r'.pos
  inside : ∀ r ∈ rs, start ≤ r.pos ∧ r.pos < stop

theorem inOrder_nil (start stop : Nat) : InOrder start stop [] := by
  refine ⟨.nil, ?_⟩
  intro r hr
  cases hr

theorem InOrder.mono {start stop start' stop' : Nat} {rs : List PortRef}
    (h : InOrder start stop rs) (hstart : start' ≤ start) (hstop : stop ≤ stop') :
    InOrder start' stop' rs := by
  refine ⟨h.sorted, ?_⟩
  intro r hr
  obtain ⟨hleft, hright⟩ := h.inside r hr
  omega

theorem InOrder.append {start middle stop : Nat} {rs rs' : List PortRef}
    (h : InOrder start middle rs) (h' : InOrder middle stop rs') (hstart : start ≤ middle)
    (hstop : middle ≤ stop) : InOrder start stop (rs ++ rs') := by
  refine ⟨List.pairwise_append.mpr ⟨h.sorted, h'.sorted, ?_⟩, ?_⟩
  · intro r hr r' hr'
    have hleft := (h.inside r hr).2
    have hright := (h'.inside r' hr').1
    omega
  · intro r hr
    rcases List.mem_append.mp hr with hr | hr
    · exact (h.mono (Nat.le_refl _) hstop).inside r hr
    · exact (h'.mono hstart (Nat.le_refl _)).inside r hr

theorem inOrder_ref (before text : List Char) (r : PortRef) (hpos : r.pos = byteLength before) :
    InOrder (byteLength before) (byteLength (before ++ '$' :: text)) [r] := by
  refine ⟨List.pairwise_singleton _ _, ?_⟩
  intro r' hr'
  rw [List.mem_singleton.mp hr', hpos, byteLength_append]
  have hdollar : byteLength ('$' :: text) = 1 + byteLength text := rfl
  omega

theorem byteLength_le_append (before text : List Char) :
    byteLength before ≤ byteLength (before ++ text) := by
  rw [byteLength_append]
  exact Nat.le_add_right _ _

mutual

theorem Derives.inOrder : ∀ {before text : List Char} {e : Expr}, Derives id before text e →
    InOrder (byteLength before) (byteLength (before ++ text)) e.refs
  | before, _, _, @Derives.surround _ _ left core right _ _ _ h => by
    have hcore := h.inOrder
    have hstop := byteLength_le_append (before ++ left ++ core) right
    have htext : before ++ left ++ core ++ right = before ++ (left ++ core ++ right) := by simp
    rw [htext] at hstop
    exact hcore.mono (byteLength_le_append before left) hstop

theorem DerivesCore.inOrder : ∀ {before core : List Char} {e : Expr}, DerivesCore id before core e →
    InOrder (byteLength before) (byteLength (before ++ core)) e.refs
  | before, _, _, @DerivesCore.selfRef _ _ text _ => inOrder_ref before text _ rfl
  | before, _, _, @DerivesCore.portRef _ _ text _ _ _ => inOrder_ref before text _ rfl
  | _, _, _, .const _ _ => inOrder_nil _ _
  | before, _, _, @DerivesCore.call _ _ name gap body _ _ _ _ h _ => by
    have hbody := h.inOrder
    have hstart := byteLength_le_append before (name ++ gap ++ ['('])
    have hstop := byteLength_le_append (before ++ name ++ gap ++ ['('] ++ body) [')']
    simp only [← List.append_assoc] at hstart
    refine hbody.mono hstart ?_
    simpa using hstop

theorem DerivesBody.inOrder : ∀ {before body : List Char} {args : List Expr},
    DerivesBody id before body args →
      InOrder (byteLength before) (byteLength (before ++ body)) (refsOfArgs args)
  | _, _, _, .blank _ => inOrder_nil _ _
  | _, _, _, .list h => h.inOrder

theorem DerivesArgs.inOrder : ∀ {before body : List Char} {args : List Expr},
    DerivesArgs id before body args →
      InOrder (byteLength before) (byteLength (before ++ body)) (refsOfArgs args)
  | before, _, _, @DerivesArgs.last _ _ text e h => by
    have he : refsOfArgs [e] = e.refs := List.append_nil _
    rw [he]
    exact h.inOrder
  | before, _, _, @DerivesArgs.next _ _ text rest e es h hrest => by
    have hcomma := byteLength_le_append (before ++ text) [',']
    have htext : before ++ (text ++ ',' :: rest) = before ++ text ++ [','] ++ rest := by simp
    rw [htext]
    exact (h.inOrder.mono (Nat.le_refl _) hcomma).append hrest.inOrder
      (Nat.le_trans (byteLength_le_append before text) hcomma) (byteLength_le_append _ rest)

end

/-! ### Texts that are refused -/

theorem WellFormed.id_of_isSelf (h : WellFormed id e) {r : PortRef} (hr : r ∈ e.refs)
    (hself : r.isSelf = true) : r.id = id := by
  cases h.of_occurs (occurs_of_mem_refs hr) with
  | selfRef pos => rfl
  | portRef hne hword hid pos => cases hself

/-- The first reference of an expression to another port than `id`. -/
structure Foreign (id : String) (e : Expr) (r : PortRef) : Prop where
  mem : r ∈ e.refs
  other : r.id ≠ id
  first : ∀ r' ∈ e.refs, r'.id ≠ id → r' ≠ r → r.pos < r'.pos

theorem foreign_of_find? {r : PortRef} (h : parse source id = .ok e)
    (hfind : e.externalRefs.find? (fun r => r.id ≠ id) = some r) : Foreign id e r := by
  rw [externalRefs, List.find?_filter, List.find?_eq_some_iff_append] at hfind
  obtain ⟨hr, front, back, hrefs, hfront⟩ := hfind
  simp only [decide_eq_true_eq] at hr
  refine ⟨by rw [hrefs]; simp, hr.2, ?_⟩
  intro r' hr' hother hne
  have hsorted := (derives_of_parse h).inOrder.sorted
  rw [hrefs] at hr' hsorted
  -- only self references stand in front of `r`; what stands behind it has a later byte
  rcases List.mem_append.mp hr' with hmem | hmem
  · have hself : r'.isSelf = true := by simpa [hother] using hfront r' hmem
    have hmem' : r' ∈ e.refs := by
      rw [hrefs]
      exact hr'
    exact absurd ((wellFormed_of_parse h).id_of_isSelf hmem' hself) hother
  · have hmem : r' ∈ back := (List.mem_cons.mp hmem).resolve_left hne
    exact (List.pairwise_cons.mp (List.pairwise_append.mp hsorted).2.1).1 r' hmem

/-- Reading itself has nothing against other ports. -/
theorem exists_foreign {err : ParseError} (h : parseTransform source id = .error err)
    (hreason : err.reason = .externalDependency) :
    ∃ e r, parse source id = .ok e ∧ Foreign id e r ∧ err.token = "$" ++ r.id ∧
      err.pos = r.pos := by
  unfold parseTransform at h
  split at h
  · rename_i hparse
    cases h
    exact absurd hreason (names_of_parse hparse).reason
  · rename_i e hparse
    split at h
    · rename_i r hfind
      cases h
      exact ⟨e, r, hparse, foreign_of_find? hparse hfind, rfl, rfl⟩
    · cases h

/-! ### Texts that are accepted -/

theorem port_mem_mentions_iff (p : String) (e : Expr) :
    .port p ∈ e.mentions ↔ ∃ r ∈ e.refs, r.id = p := by
  induction e using induct with
  | const v => simp [mentions, refs]
  | ref r => simp [mentions, refs, eq_comm]
  | call f pos state args ih =>
    have hclock : Dep.port p ∉ Dep.ofClock (f.clockOfCall args.length) := by
      cases f.clockOfCall args.length <;> simp [Dep.ofClock]
    rw [mentions_call, refs_call, List.mem_append]
    simp only [hclock, false_or, List.mem_flatMap]
    constructor
    · rintro ⟨a, ha, hp⟩
      obtain ⟨r, hr, hid⟩ := (ih a ha).mp hp
      exact ⟨r, ⟨a, ha, hr⟩, hid⟩
    · rintro ⟨r, ⟨a, ha, hr⟩, hid⟩
      exact ⟨a, ha, (ih a ha).mpr ⟨r, hr, hid⟩⟩

theorem port_mem_deps_iff (p : String) (e : Expr) :
    .port p ∈ e.deps ↔ ∃ r ∈ e.refs, r.id = p := by
  rw [← port_mem_mentions_iff]
  exact ⟨mem_mentions_of_deps, fun h => mentions_subset_deps e h⟩

theorem parseTransform_eq_ok_iff_deps :
    parseTransform source id = .ok e ↔
      parse source id = .ok e ∧ ∀ p, .port p ∈ e.deps → p = id := by
  rw [parseTransform_eq_ok_iff]
  refine and_congr_right fun hparse => ?_
  constructor
  · intro hconfined p hp
    obtain ⟨r, hr, rfl⟩ := (port_mem_deps_iff p e).mp hp
    cases hspelled : r.isSelf with
    | true => exact (wellFormed_of_parse hparse).id_of_isSelf hr hspelled
    | false => exact hconfined r hr hspelled
  · intro hdeps r hr _
    exact hdeps r.id ((port_mem_deps_iff _ e).mpr ⟨r, hr, rfl⟩)

/-! ### Constants for references -/

mutual

/-- The expression with the constant `v` in place of every reference. -/
def fill (v : Value) : Expr → Expr
  | .const w => .const w
  | .ref _ => .const v
  | .call f pos state args => .call f pos state (fillArgs v args)
termination_by structural e => e

def fillArgs (v : Value) : List Expr → List Expr
  | [] => []
  | e :: es => fill v e :: fillArgs v es
termination_by structural es => es

end

theorem fillArgs_eq_map (v : Value) (args : List Expr) : fillArgs v args = args.map (fill v) := by
  induction args with
  | nil => rfl
  | cons e es ih => rw [fillArgs, ih, List.map_cons]

theorem fill_call (v : Value) (f : Func) (pos : Nat) (state : NodeState) (args : List Expr) :
    fill v (.call f pos state args) = .call f pos state (args.map (fill v)) := by
  rw [fill, fillArgs_eq_map]

theorem evalArgs_fill {c c' : EvalContext} {v : Value} {args : List Expr}
    (h : ∀ a ∈ args, eval c' (a.fill v) = ((eval c a).1, (eval c a).2.fill v)) :
    evalArgs c' (args.map (fill v)) = ((evalArgs c args).1, (evalArgs c args).2.map (fill v)) := by
  induction args with
  | nil => rfl
  | cons e es ih =>
    have he := h e (List.mem_cons_self ..)
    have hes := ih fun a ha => h a (List.mem_cons_of_mem e ha)
    rw [List.map_cons]
    cases hev : eval c e with
    | mk r e' =>
      rw [hev] at he
      cases r with
      | error err => rw [evalArgs_cons_error he, evalArgs_cons_error hev, List.map_cons]
      | ok w => rw [evalArgs_cons_ok he, evalArgs_cons_ok hev, hes, List.map_cons]

/-- A transform sees nothing but the raw value of its own port: written in place of the references
this value makes the same result and the same memories, in any context of the same time and zone. -/
theorem eval_fill {v : Value} {now : Int} {zone : Zone} {c : EvalContext} (hnow : c.now = now)
    (hzone : c.zone = zone) (hrefs : ∀ r ∈ e.refs, r.id = id) :
    eval c (e.fill v) = ((eval (.forTransform id v now zone) e).1,
      (eval (.forTransform id v now zone) e).2.fill v) := by
  induction e using induct with
  | const w => rfl
  | ref r =>
    have hvalue : (EvalContext.forTransform id v now zone).valueOf r.id = some v := by
      rw [hrefs r (List.mem_singleton_self r)]
      simp [EvalContext.forTransform, EvalContext.valueOf]
    simp only [eval, hvalue, fill]
  | call f pos state args ih =>
    simp only [refs_call, List.mem_flatMap] at hrefs
    have hargs (a : Expr) (ha : a ∈ args) := ih a ha fun r hr => hrefs r ⟨a, ha, hr⟩
    rw [fill_call]
    -- a constant has the truth value that the reference had, so both take the same branch
    rcases cond_or_strict f args with ⟨rfl, test, yes, no, rest, rfl⟩ | hstrict
    · have htest := hargs test (by simp)
      have hyes := hargs yes (by simp)
      have hno := hargs no (by simp)
      simp only [List.map_cons]
      cases hev : eval (.forTransform id v now zone) test with
      | mk r test' =>
        rw [hev] at htest
        cases r with
        | error err =>
          rw [eval_cond_error htest, eval_cond_error hev, fill_call]
          rfl
        | ok w =>
          rw [eval_cond_ok htest, eval_cond_ok hev, hyes, hno]
          split
          · rw [fill_call]
            rfl
          · rw [fill_call]
            rfl
    · have hfilled : f = .cond → (args.map (fill v)).length < 3 := by
        rw [List.length_map]
        exact hstrict
      have hall := evalArgs_fill hargs
      cases hev : evalArgs (.forTransform id v now zone) args with
      | mk rs args' =>
        rw [hev] at hall
        cases rs with
        | error err => rw [eval_strict_error hfilled hall, eval_strict_error hstrict hev, fill_call]
        | ok vs =>
          rw [eval_strict_ok hfilled hall, eval_strict_ok hstrict hev, fill_call, hnow, hzone]
          rfl

theorem refs_reset (e : Expr) : e.reset.refs = e.refs := by
  induction e using induct with
  | const v => rfl
  | ref r => rfl
  | call f pos state args ih =>
    rw [reset_call, refs_call, refs_call, List.flatMap_map]
    exact List.flatMap_congr ih

/-- Transforms are the expressions that depend on no other port; a text of another expression is
refused at the first reference that makes it one. Evaluated for the port `id`, a transform yields
what is left of it with the raw value written for every reference, whatever it remembers. -/
theorem transform_sees_own_port (source id : String) :
    (∀ e, parseTransform source id = .ok e ↔
      parse source id = .ok e ∧ ∀ p, .port p ∈ e.deps → p = id) ∧
    (∀ err, parseTransform source id = .error err → err.reason = .externalDependency →
      ∃ e r, parse source id = .ok e ∧ Foreign id e r ∧
        StartsAt id source.toList (.ref r) r.pos ∧ err.token = "$" ++ r.id ∧ err.pos = r.pos) ∧
    ∀ e, parseTransform source id = .ok e → ∀ t : Expr, t.reset = e.reset →
      ∀ v now zone c, c.now = now → c.zone = zone →
        (t.fill v).eval c = ((t.eval (.forTransform id v now zone)).1,
          (t.eval (.forTransform id v now zone)).2.fill v) := by
  refine ⟨fun e => parseTransform_eq_ok_iff_deps, ?_, ?_⟩
  · intro err h hreason
    obtain ⟨e, r, hparse, hforeign, htoken, hpos⟩ := exists_foreign h hreason
    have hstarts := (derives_of_parse hparse).startsAt rfl (occurs_of_mem_refs hforeign.mem)
    exact ⟨e, r, hparse, hforeign, hstarts, htoken, hpos⟩
  · intro e h t hreset v now zone c hnow hzone
    obtain ⟨-, hdeps⟩ := parseTransform_eq_ok_iff_deps.mp h
    refine eval_fill hnow hzone ?_
    intro r hr
    rw [← refs_reset, hreset, refs_reset] at hr
    exact hdeps r.id ((port_mem_deps_iff _ e).mpr ⟨r, hr, rfl⟩)

/-- A comparator that remembers, with all three spellings of its port, and a text whose third
reference is the first to another port. -/
theorem transform_sees_own_port_spelled :
    (∃ e r, parse "IF($self, MAX($me,\u3000$b), $a)" "me" = .ok e ∧ Foreign "me" e r ∧
      StartsAt "me" "IF($self, MAX($me,\u3000$b), $a)".toList (.ref r) r.pos ∧
      "$b" = "$" ++ r.id ∧ 21 = r.pos) ∧
    ∃ e t : Expr, parseTransform "HYST($, $self, $me)" "me" = .ok e ∧ t.reset = e.reset ∧
      (t.fill (.bool true)).eval (.ofValues [] 7) =
        ((t.eval (.forTransform "me" (.bool true) 7)).1,
          (t.eval (.forTransform "me" (.bool true) 7)).2.fill (.bool true)) := by
  have hforeign : parseTransform "IF($self, MAX($me,\u3000$b), $a)" "me" =
      .error ⟨.externalDependency, "$b", 21⟩ := by cbv
  have hown : parseTransform "HYST($, $self, $me)" "me" = .ok (.call .hyst 0 (.hyst false)
      [.ref ⟨"me", true, 5⟩, .ref ⟨"me", true, 8⟩, .ref ⟨"me", false, 15⟩]) := by cbv
  have hreset : (call .hyst 0 (.hyst true)
      [.ref ⟨"me", true, 5⟩, .ref ⟨"me", true, 8⟩, .ref ⟨"me", false, 15⟩]).reset =
        (call .hyst 0 (.hyst false)
          [.ref ⟨"me", true, 5⟩, .ref ⟨"me", true, 8⟩, .ref ⟨"me", false, 15⟩]).reset := rfl
  exact ⟨(transform_sees_own_port _ "me").2.1 _ hforeign rfl, _, _, hown, hreset,
    (transform_sees_own_port _ "me").2.2 _ hown _ hreset _ _ _ _ rfl rfl⟩

end ControlNode.Expr
