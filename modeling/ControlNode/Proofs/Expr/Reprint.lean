import ControlNode.Proofs.Decimal.ReadBack
import ControlNode.Proofs.Expr.Combinational
import ControlNode.Proofs.Expr.RoundTrip

/-!
# Expressions that are stored as texts

The printed text of an expression reads as the same expression but for positions and memories
(`parse_text_bare`), as long as no number in it is a negative zero, which is written like an
integer and read as the positive one. So the text is a normal form: it is printed again as it
was, and without memories both expressions yield the same.
-/

namespace ControlNode.Expr

open Text

/-! ### Trees without positions and memories -/

mutual

/-- The tree alone, without positions and memories. -/
def bare : Expr → Expr
  | .const v => .const v
  | .ref r => .ref { r with pos := 0 }
  | .call f _ _ args => .call f 0 (.initial f) (bareArgs args)
termination_by structural e => e

def bareArgs : List Expr → List Expr
  | [] => []
  | e :: es => bare e :: bareArgs es
termination_by structural es => es

end

theorem bareArgs_eq_map (args : List Expr) : bareArgs args = args.map bare := by
  induction args with
  | nil => rfl
  | cons e es ih => rw [bareArgs, ih, List.map_cons]

theorem bare_call (f : Func) (pos : Nat) (state : NodeState) (args : List Expr) :
    bare (.call f pos state args) = .call f 0 (.initial f) (args.map bare) := by
  rw [bare, bareArgs_eq_map]

theorem map_bare_of_forall₂ {es es' : List Expr}
    (h : List.Forall₂ (fun e e' => bare e' = bare e) es es') : es'.map bare = es.map bare := by
  induction h with
  | nil => rfl
  | cons he _ ih => rw [List.map_cons, List.map_cons, he, ih]

theorem congruence_bare : Congruence fun e e' => bare e' = bare e where
  bool _ := rfl
  ref hid hself := by simp only [bare, hid, hself]
  call hargs := by rw [bare_call, bare_call, map_bare_of_forall₂ hargs]

/-! ### What does not look at positions and memories -/

theorem text_bare (e : Expr) : e.bare.text = e.text := by
  induction e using induct with
  | const v => rfl
  | ref r => rfl
  | call f pos state args ih => rw [bare_call, text, text, textOfArgs_map ih]

theorem bare_reset (e : Expr) : e.reset.bare = e.bare := by
  induction e using induct with
  | const v => rfl
  | ref r => rfl
  | call f pos state args ih =>
    rw [reset_call, bare_call, bare_call, List.map_map]
    exact congrArg _ (List.map_congr_left ih)

theorem mentions_bare (e : Expr) : e.bare.mentions = e.mentions := by
  induction e using induct with
  | const v => rfl
  | ref r => rfl
  | call f pos state args ih =>
    have hargs : (args.map bare).flatMap mentions = args.flatMap mentions := by
      rw [List.flatMap_map]
      exact List.flatMap_congr ih
    rw [bare_call, mentions_call, mentions_call, List.length_map, hargs]

theorem deps_of_bare {e e' : Expr} (h : e'.bare = e.bare) : e'.deps = e.deps := by
  rw [deps, deps, ← mentions_bare e', ← mentions_bare e, h]

theorem refsOfArgs_eq_flatMap (args : List Expr) : refsOfArgs args = args.flatMap refs := by
  induction args with
  | nil => rfl
  | cons e es ih => rw [refsOfArgs, ih, List.flatMap_cons]

theorem refs_call (f : Func) (pos : Nat) (state : NodeState) (args : List Expr) :
    refs (.call f pos state args) = args.flatMap refs := by
  rw [refs, refsOfArgs_eq_flatMap]

theorem refs_bare (e : Expr) : e.bare.refs = e.refs.map fun r => { r with pos := 0 } := by
  induction e using induct with
  | const v => rfl
  | ref r => rfl
  | call f pos state args ih =>
    rw [bare_call, refs_call, refs_call, List.flatMap_map, List.map_flatMap]
    exact List.flatMap_congr ih

/-- The expression refers to no port but `selfId`. -/
def Confined (selfId : String) (e : Expr) : Prop := ∀ r ∈ e.refs, r.isSelf = false → r.id = selfId

theorem confined_iff (selfId : String) (e : Expr) :
    Confined selfId e ↔ e.externalRefs.find? (fun r => r.id ≠ selfId) = none := by
  simp [Confined, externalRefs]

theorem confined_bare (selfId : String) (e : Expr) :
    Confined selfId e.bare ↔ Confined selfId e := by
  simp [Confined, refs_bare]

theorem Confined.of_bare {selfId : String} {e e' : Expr} (h : Confined selfId e)
    (he : e'.bare = e.bare) : Confined selfId e' := by
  rw [← confined_bare, he, confined_bare]
  exact h

theorem calls_bare (e : Expr) : e.bare.calls = e.calls := by
  induction e using induct with
  | const v => rfl
  | ref r => rfl
  | call f pos state args ih =>
    rw [bare_call, calls, calls, callsOfArgs_eq_flatMap, callsOfArgs_eq_flatMap, List.flatMap_map,
      List.flatMap_congr ih]

theorem memoryless_bare (e : Expr) : Memoryless e.bare ↔ Memoryless e := by
  unfold Memoryless
  rw [calls_bare]

/-! ### Evaluation without memories -/

theorem evalArgs_fst_map {c : EvalContext} {f : Expr → Expr} {args : List Expr}
    (h : ∀ a ∈ args, (eval c (f a)).1 = (eval c a).1) :
    (evalArgs c (args.map f)).1 = (evalArgs c args).1 := by
  induction args with
  | nil => rfl
  | cons e es ih =>
    have he := h e (List.mem_cons_self ..)
    have hes := ih fun a ha => h a (List.mem_cons_of_mem e ha)
    simp only [List.map_cons, evalArgs]
    cases hev : eval c e with
    | mk r e' =>
      cases hevf : eval c (f e) with
      | mk rf ef =>
        obtain rfl : rf = r := by rw [hev, hevf] at he; exact he
        cases rf with
        | error err => rfl
        | ok v =>
          cases hevs : evalArgs c es with
          | mk rs es' =>
            cases hevfs : evalArgs c (es.map f) with
            | mk rfs efs =>
              obtain rfl : rfs = rs := by rw [hevs, hevfs] at hes; exact hes
              cases rfs with
              | error err => rfl
              | ok vs => rfl


theorem apply_fst {f : Func} (h : f.remembers = false) (vs : List Value)
    (state state' : NodeState) (now : Int) (zone : Zone) :
    (f.apply vs state now zone).1 = (f.apply vs state' now zone).1 := by
  cases f with
  | held | delay | hyst => cases h
  | _ => rfl

/-- What an expression without memories yields does not depend on its positions either. -/
theorem Memoryless.eval_bare {e : Expr} (h : e.Memoryless) (c : EvalContext) :
    (e.bare.eval c).1 = (e.eval c).1 := by
  induction e using induct with
  | const v => rfl
  | ref r => rfl
  | call f pos state args ih =>
    have hargs (a : Expr) (ha : a ∈ args) : (Expr.eval c a.bare).1 = (Expr.eval c a).1 :=
      ih a ha (h.arg ha)
    rw [bare_call]
    rcases cond_or_strict f args with ⟨rfl, test, yes, no, rest, rfl⟩ | hstrict
    · have htest := hargs test (by simp)
      have hyes := hargs yes (by simp)
      have hno := hargs no (by simp)
      simp only [List.map_cons, eval_cond]
      cases hev : Expr.eval c test with
      | mk r test' =>
        cases hevb : Expr.eval c test.bare with
        | mk rb testb =>
          obtain rfl : rb = r := by rw [hev, hevb] at htest; exact htest
          cases rb with
          | error err => rfl
          | ok v =>
            simp only
            split
            · exact hyes
            · exact hno
    · have hall := evalArgs_fst_map hargs
      have hstrict' : f = .cond → (args.map bare).length < 3 := by
        rw [List.length_map]
        exact hstrict
      rw [eval_strict c pos state hstrict, eval_strict c 0 _ hstrict']
      cases hev : evalArgs c args with
      | mk r args' =>
        cases hevb : evalArgs c (args.map bare) with
        | mk rb argsb =>
          obtain rfl : rb = r := by rw [hev, hevb] at hall; exact hall
          cases rb with
          | error err => rfl
          | ok vs => exact apply_fst h.head vs _ _ _ _

theorem Memoryless.eval_of_bare {e e' : Expr} (h : e.Memoryless) (he : e'.bare = e.bare)
    (c : EvalContext) : (e'.eval c).1 = (e.eval c).1 := by
  have h' : e'.Memoryless := by
    rw [← memoryless_bare, he, memoryless_bare]
    exact h
  rw [← h'.eval_bare, he, h.eval_bare]

/-! ### The numbers of expressions that were read -/

theorem Literal.isFinite {token : List Char} {x : Float} (h : Literal token (.num x)) :
    Binary64.isFinite x = true := by
  generalize hv : Value.num x = v at h
  cases h with
  | yes => cases hv
  | no => cases hv
  | int hi =>
    cases hv
    exact Binary64.isFinite_ofInt (Decimal.range_of_readInt64? hi)
  | double _ _ hfin =>
    cases hv
    exact hfin

mutual

theorem Derives.finite {selfId : String} : ∀ {before text : List Char} {e : Expr},
    Derives selfId before text e → ∀ x ∈ e.numbers, Binary64.isFinite x = true
  | _, _, _, .surround _ _ h => h.finite

theorem DerivesCore.finite {selfId : String} : ∀ {before core : List Char} {e : Expr},
    DerivesCore selfId before core e → ∀ x ∈ e.numbers, Binary64.isFinite x = true
  | _, _, _, .selfRef _ => by simp [numbers]
  | _, _, _, .portRef _ _ _ => by simp [numbers]
  | _, _, .const (.bool _), .const _ _ => by simp [numbers]
  | _, _, .const (.num _), .const _ h => by simpa [numbers] using h.isFinite
  | _, _, _, .call _ _ h _ => by
    rw [numbers]
    exact h.finite

theorem DerivesBody.finite {selfId : String} : ∀ {before body : List Char} {args : List Expr},
    DerivesBody selfId before body args → ∀ x ∈ numbersOfArgs args, Binary64.isFinite x = true
  | _, _, _, .blank _ => by simp [numbersOfArgs]
  | _, _, _, .list h => h.finite

theorem DerivesArgs.finite {selfId : String} : ∀ {before body : List Char} {args : List Expr},
    DerivesArgs selfId before body args → ∀ x ∈ numbersOfArgs args, Binary64.isFinite x = true
  | _, _, _, .last h => by
    have he := h.finite
    simpa [numbersOfArgs] using he
  | _, _, _, .next h hrest => by
    have he := h.finite
    have hes := hrest.finite
    intro x hx
    rw [numbersOfArgs] at hx
    rcases List.mem_append.mp hx with hx | hx
    · exact he x hx
    · exact hes x hx

end

/-- A tree that reading can give, with the numbers that reading can give. -/
structure Readable (selfId : String) (e : Expr) : Prop where
  wellFormed : WellFormed selfId e
  finite : ∀ x ∈ e.numbers, Binary64.isFinite x = true

theorem readable_of_parse {source selfId : String} {e : Expr} (h : parse source selfId = .ok e) :
    Readable selfId e :=
  ⟨wellFormed_of_parse h, (derives_of_parse h).finite⟩

theorem length_textOfArgs {args : List Expr} {n : Nat} (hne : args ≠ [])
    (h : ∀ a ∈ args, a.text.length = n) :
    (textOfArgs args).length + 2 = args.length * (n + 2) := by
  induction args with
  | nil => exact absurd rfl hne
  | cons e es ih =>
    have hfirst : e.text.length = n := h e List.mem_cons_self
    cases es with
    | nil => simp [textOfArgs, hfirst]
    | cons e' es =>
      have hrest := ih (List.cons_ne_nil e' es) fun a ha => h a (List.mem_cons_of_mem e ha)
      have hblank : (", " : String).length = 2 := rfl
      rw [textOfArgs, String.length_append, String.length_append, hfirst, hblank,
        List.length_cons, Nat.add_mul]
      · omega
      · exact List.cons_ne_nil e' es

/-! ### Printing and reading -/

/-- No number is a negative zero. -/
def Unsigned (e : Expr) : Prop := ∀ x ∈ e.numbers, x ≠ -0

instance (e : Expr) : Decidable e.Unsigned := inferInstanceAs (Decidable (∀ x ∈ e.numbers, x ≠ -0))

theorem constantValue?_text {x : Float} (hfin : Binary64.isFinite x = true) (hzero : x ≠ -0) :
    constantValue? (Decimal.plain.text x).toList = some (.num x) := by
  obtain ⟨negative, m, e, hparts⟩ : ∃ negative m e, Binary64.parts x = .finite negative m e := by
    unfold Binary64.isFinite at hfin
    split at hfin
    · exact ⟨_, _, _, by assumption⟩
    · cases hfin
  rcases Nat.eq_zero_or_pos m with rfl | hm
  · obtain rfl : x = 0 := by
      have h := Binary64.unsigned_of_zero hparts
      rwa [Binary64.unsigned, if_neg hzero] at h
    decide +kernel
  · obtain ⟨hint, hdouble⟩ := Decimal.text_readsBack hm hparts
    have hlit : Literal (Decimal.plain.text x).toList (.num x) := by
      cases hread : Decimal.readInt64? (Decimal.plain.text x).toList with
      | some i =>
        have h := Literal.int hread
        rwa [Value.ofInt, hint i hread] at h
      | none => exact .double hread hdouble hfin
    exact (literal_iff _ _).mp hlit

theorem parse_text_bare {selfId : String} {e : Expr} (h : Readable selfId e) (hzero : e.Unsigned) :
    ∃ e', parse e.text selfId = .ok e' ∧ e'.bare = e.bare := by
  obtain ⟨e', hcore, hbare⟩ := exists_derivesCore_of_congruence congruence_bare h.wellFormed
    (fun x hx => ⟨.num x,
      (literal_iff _ _).mpr (constantValue?_text (h.finite x hx) (hzero x hx)), rfl⟩) []
  exact ⟨e', parse_of_derives hcore.derives, hbare⟩

theorem parseTransform_eq_ok_iff {source selfId : String} {e : Expr} :
    parseTransform source selfId = .ok e ↔ parse source selfId = .ok e ∧ Confined selfId e := by
  unfold parseTransform
  cases parse source selfId with
  | error err => simp
  | ok e' =>
    simp only
    cases hfind : e'.externalRefs.find? fun r => r.id ≠ selfId with
    | some r =>
      simp only [reduceCtorEq, false_iff, not_and, Except.ok.injEq]
      rintro rfl hconfined
      rw [(confined_iff selfId e').mp hconfined] at hfind
      cases hfind
    | none =>
      simp only [Except.ok.injEq, iff_self_and]
      rintro rfl
      exact (confined_iff selfId e').mpr hfind

theorem readable_of_parseTransform {source selfId : String} {e : Expr}
    (h : parseTransform source selfId = .ok e) : Readable selfId e ∧ Confined selfId e :=
  have ⟨hparse, hconfined⟩ := parseTransform_eq_ok_iff.mp h
  ⟨readable_of_parse hparse, hconfined⟩

theorem parseTransform_text_bare {selfId : String} {e : Expr} (h : Readable selfId e)
    (hconfined : Confined selfId e) (hzero : e.Unsigned) :
    ∃ e', parseTransform e.text selfId = .ok e' ∧ e'.bare = e.bare := by
  obtain ⟨e', hparse, hbare⟩ := parse_text_bare h hzero
  exact ⟨e', parseTransform_eq_ok_iff.mpr ⟨hparse, hconfined.of_bare hbare⟩, hbare⟩

theorem text_of_bare {e e' : Expr} (h : e'.bare = e.bare) : e'.text = e.text := by
  rw [← text_bare e', h, text_bare]

theorem not_allBlank_text {selfId : String} {e : Expr} (h : Readable selfId e)
    (hzero : e.Unsigned) :
    allBlank e.text.toList = false := by
  obtain ⟨e', hparse, -⟩ := parse_text_bare h hzero
  exact (derives_of_parse hparse).not_allBlank

end ControlNode.Expr
