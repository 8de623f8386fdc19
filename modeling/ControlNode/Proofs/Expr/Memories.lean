import ControlNode.Proofs.Expr.Combinational

/-!
# What calls remember over runs

What a call remembers is of the kind of its function and holds no times but those of evaluations.
Both are properties of single calls that every application keeps, so that they hold throughout a
tree after any evaluations (`Throughout.after`).
-/

namespace ControlNode

/-! ### Single calls -/

namespace NodeState

def Fits (f : Func) : NodeState → Prop
  | .none => f.remembers = false
  | .held _ => f = .held
  | .delay _ => f = .delay
  | .hyst _ => f = .hyst

def times : NodeState → List Int
  | .held s => [s.since]
  | .delay s => s.pending.map Prod.fst
  | .none | .hyst _ => []

variable {f : Func} {state : NodeState}

theorem fits_initial (f : Func) : (initial f).Fits f := by
  cases f <;> rfl

theorem Fits.exists_held (h : state.Fits .held) : ∃ s, state = .held s := by
  cases state with
  | held s => exact ⟨s, rfl⟩
  | none | delay s | hyst on => cases h

theorem Fits.exists_delay (h : state.Fits .delay) : ∃ s, state = .delay s := by
  cases state with
  | delay s => exact ⟨s, rfl⟩
  | none | held s | hyst on => cases h

theorem Fits.exists_hyst (h : state.Fits .hyst) : ∃ on, state = .hyst on := by
  cases state with
  | hyst on => exact ⟨on, rfl⟩
  | none | held s | delay s => cases h

theorem times_initial (f : Func) : ∀ t ∈ (initial f).times, t = 0 := by
  cases f <;> simp [initial, times]

end NodeState

namespace Func

variable {state : NodeState} {t now : Int}

theorem fits_evalHeld (h : state.Fits .held) (vs : List Value) (now : Int) :
    (evalHeld vs state now).2.Fits .held := by
  unfold evalHeld
  split
  · split
    · exact h
    · rfl
  · exact h
  · exact h

theorem fits_evalDelay (h : state.Fits .delay) (vs : List Value) (now : Int) :
    (evalDelay vs state now).2.Fits .delay := by
  unfold evalDelay
  split
  · split
    · exact h
    · rfl
  · exact h
  · exact h

theorem fits_evalHyst (h : state.Fits .hyst) (vs : List Value) :
    (evalHyst vs state).2.Fits .hyst := by
  unfold evalHyst
  split
  · rfl
  · exact h
  · exact h

theorem fits_apply {f : Func} (h : state.Fits f) (vs : List Value) (now : Int)
    (zone : Zone) : (f.apply vs state now zone).2.Fits f := by
  cases f with
  | held => exact fits_evalHeld h vs now
  | delay => exact fits_evalDelay h vs now
  | hyst => exact fits_evalHyst h vs
  | _ => exact h

theorem mem_times_evalHeld {vs : List Value} (h : t ∈ (evalHeld vs state now).2.times) :
    t = now ∨ t ∈ state.times := by
  unfold evalHeld at h
  split at h
  · rename_i s
    split at h
    · exact Or.inr h
    · simp only [NodeState.times, heldNote, List.mem_singleton] at h ⊢
      split at h
      · exact Or.inr h
      · exact Or.inl h
  · exact Or.inr h
  · exact Or.inr h

theorem pending_delayRelease_suffix (wait now : Int) (queue : List (Int × Value))
    (current : Option Value) : (delayRelease wait now queue current).1 <:+ queue := by
  induction queue generalizing current with
  | nil => exact List.suffix_rfl
  | cons e queue ih =>
    rw [delayRelease]
    split
    · exact List.suffix_rfl
    · exact (ih _).trans (List.suffix_cons e queue)

theorem mem_pending_delayNote {s : DelayState} {v : Value} {e : Int × Value}
    (h : e ∈ (delayNote s v now).pending) : e.1 = now ∨ e ∈ s.pending := by
  unfold delayNote at h
  split at h
  · exact Or.inr h
  · rcases List.mem_append.mp h with h | h
    · split at h
      · exact Or.inr (List.mem_of_mem_drop h)
      · exact Or.inr h
    · rw [List.mem_singleton.mp h]
      exact Or.inl rfl

theorem mem_times_evalDelay {vs : List Value} (h : t ∈ (evalDelay vs state now).2.times) :
    t = now ∨ t ∈ state.times := by
  unfold evalDelay at h
  split at h
  · rename_i v wait s
    split at h
    · exact Or.inr h
    · obtain ⟨e, he, rfl⟩ := List.mem_map.mp h
      have hnoted : e ∈ (delayNote s v now).pending :=
        (pending_delayRelease_suffix _ _ _ _).subset he
      rcases mem_pending_delayNote hnoted with hnow | hold
      · exact Or.inl hnow
      · exact Or.inr (List.mem_map_of_mem hold)
  · exact Or.inr h
  · exact Or.inr h

theorem mem_times_apply {f : Func} {vs : List Value}
    {zone : Zone} (h : t ∈ (f.apply vs state now zone).2.times) : t = now ∨ t ∈ state.times := by
  by_cases hf : f.remembers = false
  · rw [apply_snd hf] at h
    exact Or.inr h
  · cases f with
    | held => exact mem_times_evalHeld h
    | delay => exact mem_times_evalDelay h
    | hyst =>
      simp only [apply, evalHyst] at h
      split at h
      · cases h
      · exact Or.inr h
      · exact Or.inr h
    | _ => exact absurd rfl hf

end Func

/-! ### Trees -/

namespace Expr

/-- `P` holds of the function and the memory of every call. -/
def Throughout (P : Func → NodeState → Prop) (e : Expr) : Prop :=
  ∀ f pos state args, Occurs (.call f pos state args) e → P f state

variable {P : Func → NodeState → Prop} {f : Func} {pos : Nat} {state : NodeState}
  {args : List Expr}

theorem Throughout.head (h : Throughout P (.call f pos state args)) : P f state :=
  h f pos state args .here

theorem Throughout.arg (h : Throughout P (.call f pos state args)) {a : Expr} (ha : a ∈ args) :
    Throughout P a :=
  fun g pos' state' args' ho => h g pos' state' args' (.inside ha ho)

theorem Throughout.call (h : P f state) (hargs : ∀ a ∈ args, Throughout P a) :
    Throughout P (.call f pos state args) := by
  intro g pos' state' args' ho
  cases ho with
  | here => exact h
  | inside ha ho => exact hargs _ ha _ _ _ _ ho

theorem throughout_evalArgs {c : EvalContext} {args : List Expr}
    (h : ∀ a ∈ args, Throughout P a) (hnext : ∀ a ∈ args, Throughout P (eval c a).2) :
    ∀ a ∈ (evalArgs c args).2, Throughout P a := by
  induction args with
  | nil => exact h
  | cons e es ih =>
    have he := hnext e (List.mem_cons_self ..)
    have hes := List.forall_mem_of_forall_mem_cons h
    have hrest := ih hes (List.forall_mem_of_forall_mem_cons hnext)
    simp only [evalArgs]
    cases hev : eval c e with
    | mk r e' =>
      rw [hev] at he
      cases r with
      | error err => exact List.forall_mem_cons.mpr ⟨he, hes⟩
      | ok v =>
        cases hevs : evalArgs c es with
        | mk rs es' =>
          rw [hevs] at hrest
          cases rs with
          | error err => exact List.forall_mem_cons.mpr ⟨he, hrest⟩
          | ok vs => exact List.forall_mem_cons.mpr ⟨he, hrest⟩

/-- What every application keeps holds throughout a tree after an evaluation. -/
theorem Throughout.eval {c : EvalContext} {e : Expr}
    (hkeep : ∀ f vs state, P f state → P f (f.apply vs state c.now c.zone).2) (h : Throughout P e) :
    Throughout P (e.eval c).2 := by
  induction e using induct with
  | const v => exact h
  | ref r => exact h
  | call f pos state args ih =>
    have hnext (a : Expr) (ha : a ∈ args) : Throughout P (Expr.eval c a).2 := ih a ha (h.arg ha)
    rcases cond_or_strict f args with ⟨rfl, test, yes, no, rest, rfl⟩ | hstrict
    · obtain ⟨htest, hargs⟩ := List.forall_mem_cons.mp fun a (ha : a ∈ _) => h.arg ha
      obtain ⟨hyes, hargs⟩ := List.forall_mem_cons.mp hargs
      obtain ⟨hno, hrest⟩ := List.forall_mem_cons.mp hargs
      have htest' := hnext test (by simp)
      have hyes' := hnext yes (by simp)
      have hno' := hnext no (by simp)
      -- a condition remembers nothing: its test changes and one branch at most
      have hcall (a b d : Expr) (ha : Throughout P a) (hb : Throughout P b)
          (hd : Throughout P d) : Throughout P (.call .cond pos state (a :: b :: d :: rest)) := by
        refine .call h.head ?_
        simpa only [List.forall_mem_cons] using And.intro ha ⟨hb, hd, hrest⟩
      rw [eval_cond]
      cases hev : Expr.eval c test with
      | mk r test' =>
        rw [hev] at htest'
        cases r with
        | error err => exact hcall _ _ _ htest' hyes hno
        | ok v =>
          dsimp only
          split
          · exact hcall _ _ _ htest' hyes' hno
          · exact hcall _ _ _ htest' hyes hno'
    · have hargs := throughout_evalArgs (fun a ha => h.arg ha) hnext
      rw [eval_strict c pos state hstrict]
      cases hev : evalArgs c args with
      | mk rs args' =>
        rw [hev] at hargs
        cases rs with
        | error err => exact .call h.head hargs
        | ok vs => exact .call (hkeep f vs state h.head) hargs

theorem Throughout.after {cs : List EvalContext} {e : Expr}
    (hkeep : ∀ c ∈ cs, ∀ f vs state, P f state → P f (f.apply vs state c.now c.zone).2)
    (h : Throughout P e) : Throughout P (e.after cs) := by
  induction cs generalizing e with
  | nil => exact h
  | cons c cs ih =>
    obtain ⟨hc, hcs⟩ := List.forall_mem_cons.mp hkeep
    exact ih hcs (h.eval hc)

/-- The calls of a tree that was read remember what new calls do. -/
theorem throughout_of_parse {source selfId : String} {e : Expr}
    (hparse : parse source selfId = .ok e) (h : ∀ f, P f (.initial f)) : Throughout P e := by
  intro f pos state args ho
  obtain ⟨before, core, after, -, -, -, hcore⟩ := (derives_of_parse hparse).startsAt rfl ho
  cases hcore with
  | call _ _ _ _ => exact h f

variable {source selfId : String} {e : Expr}

theorem fits_after (hparse : parse source selfId = .ok e) (history : List EvalContext) :
    Throughout (fun f state => state.Fits f) (e.after history) :=
  (throughout_of_parse hparse NodeState.fits_initial).after
    fun c _ _ vs _ h => Func.fits_apply h vs c.now c.zone

/-- All times that are remembered are as close to zero as those of the evaluations. -/
theorem times_after {bound : Int} (hparse : parse source selfId = .ok e)
    (history : List EvalContext) (hbound : 0 < bound) (h : ∀ c ∈ history, |c.now| < bound) :
    Throughout (fun _ state => ∀ t ∈ state.times, |t| < bound) (e.after history) := by
  refine (throughout_of_parse hparse ?_).after ?_
  · intro f t ht
    rw [NodeState.times_initial f t ht, abs_zero]
    exact hbound
  · intro c hc f vs state hstate t ht
    rcases Func.mem_times_apply ht with rfl | hold
    · exact h c hc
    · exact hstate t hold

end Expr

end ControlNode
