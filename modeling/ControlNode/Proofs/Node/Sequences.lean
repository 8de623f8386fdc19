import ControlNode.Proofs.Node.Invariants

/-!
# Refused sequences

A port cancels the sequence that runs before it looks at the new one. So a sequence that is refused
does what setting none does: the old one is cancelled, and nothing of the new one is left
(`setSequence_refused`).
-/

namespace ControlNode

namespace Port

variable {p q : Port} {s : Sequence} {e : PortError}

/-! ### Refusals -/

/-- Why a port refuses a sequence: the first value that does not fit is named. -/
inductive Refusal (p : Port) (s : Sequence) : PortError → Prop
  | disabled (hoff : p.enabled = false) : Refusal p s .disabled
  | notWritable (hon : p.enabled = true) (h : p.writable = false) : Refusal p s .notWritable
  | value {front back : List Value} {v : Value} {e : PortError} (hon : p.enabled = true)
      (hwritable : p.writable = true) (hvalues : s.values = front ++ v :: back)
      (hfront : ∀ w ∈ front, p.domain.check w = .ok ()) (h : p.domain.check v = .error e) :
      Refusal p s e

theorem checkValues_error_iff {vs : List Value} : p.checkValues vs = .error e ↔
    ∃ front v back, vs = front ++ v :: back ∧ (∀ w ∈ front, p.domain.check w = .ok ()) ∧
      p.domain.check v = .error e := by
  induction vs with
  | nil => simp [checkValues]
  | cons w ws ih =>
    cases hw : p.domain.check w with
    | error e' =>
      simp only [checkValues, hw]
      constructor
      · intro h
        exact ⟨[], w, ws, rfl, fun _ hv => absurd hv List.not_mem_nil, hw.trans h⟩
      · rintro ⟨front, v, back, hvs, hfront, hv⟩
        cases front with
        | nil =>
          cases hvs
          exact hw.symm.trans hv
        | cons u front =>
          cases hvs
          exact nomatch hw.symm.trans (hfront w List.mem_cons_self)
    | ok =>
      simp only [checkValues, hw, ih]
      constructor
      · rintro ⟨front, v, back, rfl, hfront, hv⟩
        exact ⟨w :: front, v, back, rfl, List.forall_mem_cons.mpr ⟨hw, hfront⟩, hv⟩
      · rintro ⟨front, v, back, hvs, hfront, hv⟩
        cases front with
        | nil =>
          cases hvs
          exact nomatch hw.symm.trans hv
        | cons u front =>
          cases hvs
          exact ⟨front, v, back, rfl, (List.forall_mem_cons.mp hfront).2, hv⟩

theorem checkWritable_ok_iff : p.checkWritable = .ok () ↔ p.enabled = true ∧ p.writable = true := by
  unfold checkWritable
  cases p.enabled <;> cases p.writable <;> simp

theorem checkWritable_error_iff : p.checkWritable = .error e ↔
    p.enabled = false ∧ e = .disabled ∨
      p.enabled = true ∧ p.writable = false ∧ e = .notWritable := by
  unfold checkWritable
  cases p.enabled <;> cases p.writable <;> simp [eq_comm]

/-- A sequence is refused for the state of the port or for one of its values, wherever it stands. -/
theorem setSequence_error_iff : (p.setSequence (some s)).1 = .error e ↔ p.Refusal s e := by
  -- the sequence that runs makes no difference to what the port accepts
  have hwritable : p.cancelSequence.checkWritable = p.checkWritable := rfl
  have hvalues : p.cancelSequence.checkValues s.values = .error e ↔ ∃ front v back,
      s.values = front ++ v :: back ∧ (∀ w ∈ front, p.domain.check w = .ok ()) ∧
        p.domain.check v = .error e := checkValues_error_iff
  unfold setSequence
  dsimp only
  rw [hwritable]
  constructor
  · intro h
    split at h
    · rename_i hcheck
      cases h
      rcases checkWritable_error_iff.mp hcheck with ⟨hoff, rfl⟩ | ⟨hon, hfixed, rfl⟩
      · exact .disabled hoff
      · exact .notWritable hon hfixed
    · rename_i hcheck
      obtain ⟨hon, hfree⟩ := checkWritable_ok_iff.mp hcheck
      split at h
      · rename_i hunfit
        cases h
        obtain ⟨front, v, back, hsplit, hfront, hv⟩ := hvalues.mp hunfit
        exact .value hon hfree hsplit hfront hv
      · cases h
  · rintro (hoff | ⟨hon, hfixed⟩ | ⟨hon, hfree, hsplit, hfront, hv⟩)
    · rw [checkWritable_error_iff.mpr (.inl ⟨hoff, rfl⟩)]
    · rw [checkWritable_error_iff.mpr (.inr ⟨hon, hfixed, rfl⟩)]
    · rw [checkWritable_ok_iff.mpr ⟨hon, hfree⟩]
      dsimp only
      rw [hvalues.mpr ⟨_, _, _, hsplit, hfront, hv⟩]

theorem setSequence_refused_snd (h : (p.setSequence (some s)).1 = .error e) :
    (p.setSequence (some s)).2 = p.cancelSequence := by
  unfold setSequence at h ⊢
  dsimp only at h ⊢
  split at h
  · rfl
  · split at h
    · rfl
    · cases h

/-! ### Ports without a sequence -/

/-- No sequence starts: the one that runs may go on or end. -/
structure StartsNone (p q : Port) : Prop where
  key : q.key = p.key
  sequence : p.sequence = none → q.sequence = none

namespace StartsNone

theorem refl (p : Port) : StartsNone p p := ⟨rfl, fun hnone => hnone⟩

theorem of_eq (hkey : q.key = p.key) (h : q.sequence = p.sequence) : StartsNone p q :=
  ⟨hkey, h.trans⟩

theorem trans {r : Port} (h : StartsNone p q) (h' : StartsNone q r) : StartsNone p r :=
  ⟨h'.key.trans h.key, fun hp => h'.sequence (h.sequence hp)⟩

theorem work (h : Work p q) : StartsNone p q := by
  refine ⟨by rw [h.frame], fun hnone => ?_⟩
  cases h.advance hnone with
  | stay => exact hnone
  | take => exact hnone
  | write => exact hnone
  | evaluate =>
    rw [evaluate_frame]
    exact hnone

theorem applyAttr (p : Port) (g : DepGraph) (name : String) (value : Json) :
    StartsNone p (p.applyAttr g name value).port := by
  unfold Port.applyAttr
  split
  · exact .of_eq rfl rfl
  · split
    · unfold setEnabled
      dsimp only
      repeat' split
      -- a port that is disabled ends its sequence
      all_goals first | exact .of_eq rfl rfl | exact ⟨rfl, fun _ => rfl⟩
    · split
      · unfold setExpression
        repeat' split
        all_goals exact .of_eq rfl rfl
      · split
        · rename_i q hq
          change StartsNone p q
          rw [setPlain_frame hq]
          exact .of_eq rfl rfl
        · exact .refl p

theorem setAttr (p : Port) (g : DepGraph) (name : String) (value : Json) :
    StartsNone p (p.setAttr g name value).port := by
  have happly := applyAttr p g name value
  cases hr : (p.setAttr g name value).result with
  | error e =>
    rw [(setAttr_refused hr).port.frame]
    exact .of_eq rfl rfl
  | ok =>
    obtain ⟨_, -, -, -, -, heq⟩ := setAttr_accepted hr
    rw [heq]
    exact happly.trans (.of_eq rfl rfl)

theorem loadAttrs (p : Port) (g : DepGraph) (record : Record) :
    StartsNone p (p.loadAttrs g record).1 := by
  refine loadAttrs_induction g record (fun q name value hq => hq.trans ?_)
    (fun q hq => hq.trans (.of_eq rfl rfl)) (.refl p)
  unfold loadAttr
  repeat' split
  all_goals first | exact .of_eq rfl rfl | exact applyAttr q g name value

end StartsNone

theorem Handling.startsNone (h : Handling p q) : StartsNone p q := by
  cases h with
  | evaluate h t now => exact .work (.evaluate h t now)
  | cancelSequence => exact .work (.endSequence p)
  | stepSequence h next v t now => exact .work (.stepSequence p h next v t now)
  | submit v t now =>
    rw [submit_frame]
    exact .of_eq rfl rfl
  | enqueueWrite v t =>
    unfold Port.enqueueWrite
    split <;> exact .of_eq rfl rfl
  | enqueueEval c =>
    unfold Port.enqueueEval
    repeat' split
    all_goals exact .of_eq rfl rfl
  | readValue now =>
    rw [(p.readValue_upkeep now).frame]
    exact .of_eq rfl rfl
  | getAttr name =>
    rw [getAttr_frame]
    exact .of_eq rfl rfl
  | attrsJson =>
    rw [attrsJson_frame]
    exact .of_eq rfl rfl
  | setAttr g name value => exact .setAttr p g name value
  | loadAttrs g record => exact .loadAttrs p g record
  | restore v =>
    rw [restore_frame]
    exact .of_eq rfl rfl
  | halt => exact ⟨rfl, fun _ => rfl⟩
  | _ => exact .of_eq rfl rfl

end Port

namespace Node

open Port

variable {n : Node} {key : PortKey} {p : Port} {s : Sequence} {e : PortError} {op : Operation}

/-! ### Nodes -/

def Unsequenced (key : PortKey) (p : Port) (_ : WriteStage) : Prop :=
  p.key = key → p.sequence = none

theorem Unsequenced.startsNone {stage stage' : WriteStage} {q : Port} (h : Unsequenced key p stage)
    (hq : StartsNone p q) : Unsequenced key q stage' :=
  fun hkey => hq.sequence (h (hq.key.symm.trans hkey))

theorem unsequenced_invariant (key : PortKey) : Invariant (Unsequenced key) where
  create _ _ _ _ _ _ _ := rfl
  handling h hq := h.startsNone hq.startsNone
  writer h hstep := by
    cases hstep with
    | takes _ htake => exact h.startsNone (.work (.takeWrite htake))
    | begins => exact h
    | finishes => exact h.startsNone (.work (.carryOut _))

def Operation.StartsSequence (key : PortKey) : Operation → Prop
  | .setSequence other (some _) => other = key
  | _ => False

theorem respects_of_not_starts (h : n.Maintains (Unsequenced key))
    (hop : ¬op.StartsSequence key) : n.Respects (Unsequenced key) op := by
  cases op with
  | setSequence other s =>
    intro p hp hkey
    cases s with
    | none => rfl
    | some s =>
      have hsame := (setSequence_lasting p (some s)).key
      exact absurd ((key_of_portOf? hp).symm.trans (hsame.symm.trans hkey)) hop
  | device other value failReads failures => exact fun p hp => h.ports other p hp
  | _ => trivial

theorem Maintains.after_unsequenced {ops : List Operation} (h : n.Maintains (Unsequenced key))
    (hs : Sound n) (hops : ∀ op ∈ ops, ¬op.StartsSequence key) :
    (n.after ops).Maintains (Unsequenced key) :=
  h.after hs fun op hop _ hm => respects_of_not_starts hm (hops op hop)

theorem Maintains.runTask_sequence (h : n.Maintains (Unsequenced key)) (number : Nat) :
    n.runTask (.sequence key number) = (.waits, n.endTask (.sequence key number)) := by
  have hnone : n.sequenceOf? key number = none := by
    unfold sequenceOf?
    cases hp : n.portOf? key with
    | none => rfl
    | some p =>
      have hsequence := h.ports key p hp (key_of_portOf? hp)
      rw [Option.bind_some, hsequence]
      rfl
  rw [Node.runTask, Node.pollSequence, hnone]

theorem maintains_cancelSequence (hs : n.services = []) (hp : n.portOf? key = some p) :
    (n.putPort p.cancelSequence).Maintains (Unsequenced key) := by
  refine ⟨unsequenced_invariant key, ?_, fun other q hq hkey => ?_⟩
  · rw [putPort_frame]
    exact hs
  · obtain rfl : other = key := (key_of_portOf? hq).symm.trans hkey
    have hsame : other = p.cancelSequence.key := (key_of_portOf? hp).symm
    rw [portOf?_putPort, if_pos hsame, hp] at hq
    cases hq
    rfl

theorem setSequence_fst (n : Node) (p : Port) (s : Option Sequence) :
    (n.setSequence p s).1 = (p.setSequence s).1 := by
  unfold Node.setSequence
  dsimp only
  split <;> rfl

theorem setSequence_refused_snd (h : (n.setSequence p (some s)).1 = .error e) :
    (n.setSequence p (some s)).2 = n.putPort p.cancelSequence := by
  have hport : (p.setSequence (some s)).2 = p.cancelSequence :=
    Port.setSequence_refused_snd ((setSequence_fst ..).symm.trans h)
  unfold Node.setSequence
  dsimp only
  rw [hport]
  rfl

/-- A sequence that is refused has the effect of none: the one that runs is cancelled. Whatever is
done to the node then, until a sequence is set on the port again, the tasks of its sequences do
nothing but end. -/
theorem setSequence_refused (h : (n.setSequence p (some s)).1 = .error e) :
    p.Refusal s e ∧ (n.setSequence p (some s)).2 = (n.setSequence p none).2 ∧
      (Sound n → ∀ key, n.portOf? key = some p → ∀ ops,
        (∀ op ∈ ops, ¬op.StartsSequence key) → ∀ number,
          ((n.setSequence p (some s)).2.after ops).runTask (.sequence key number) =
            (.waits, ((n.setSequence p (some s)).2.after ops).endTask (.sequence key number))) := by
  refine ⟨setSequence_error_iff.mp ((setSequence_fst ..).symm.trans h),
    setSequence_refused_snd h, fun hn key hp ops hops number => ?_⟩
  have hsound := hn.proceeds (setSequence_proceeds hp (some s))
  rw [setSequence_refused_snd h] at hsound ⊢
  exact ((maintains_cancelSequence hn.services hp).after_unsequenced hsound hops).runTask_sequence
    number

/-- A port that switches on and off every second, for ever; it has just been switched on. -/
def blinking : Node := ((create {} (.memory {}) 0).after [
  .add "led" (.memory { type := .boolean, writable := true }),
  .setSequence ⟨"led", 0⟩ (some ⟨[(.bool true, 1000), (.bool false, 1000)], 0⟩)]).advance 500

theorem sound_blinking : Sound blinking := by
  have hset := after_sound (sound_create {} (.memory {}) 0 .utc) [
    .add "led" (.memory { type := .boolean, writable := true }),
    .setSequence ⟨"led", 0⟩ (some ⟨[(.bool true, 1000), (.bool false, 1000)], 0⟩)]
  exact hset.proceeds (advance_worked hset.services 500).moved.proceeds

theorem isSome_blinking : (blinking.portOf? ⟨"led", 0⟩).isSome = true := by decide +kernel

def led : Port := (blinking.portOf? ⟨"led", 0⟩).get isSome_blinking

/-- Its first value fits a port that switches, its second one does not. -/
def unfit : Sequence := ⟨[(.bool false, 0), (.num 3, 0)], 1⟩

theorem setSequence_refused_led :
    (blinking.setSequence led (some unfit)).1 = .error (.invalidValue (.wrongType .boolean)) ∧
      (blinking.setSequence led (some unfit)).2 = (blinking.setSequence led none).2 ∧
      let m := (blinking.setSequence led (some unfit)).2.after
        [.setValue ⟨"led", 0⟩ (.bool true), .update 1000]
      m.runTask (.sequence ⟨"led", 0⟩ 0) = (.waits, m.endTask (.sequence ⟨"led", 0⟩ 0)) := by
  have hrefused : (blinking.setSequence led (some unfit)).1 =
      .error (.invalidValue (.wrongType .boolean)) := by decide +kernel
  obtain ⟨-, hsame, hlater⟩ := setSequence_refused hrefused
  refine ⟨hrefused, hsame, hlater sound_blinking _ (Option.some_get isSome_blinking).symm _ ?_ 0⟩
  simp [Operation.StartsSequence]

/-- The sequence that runs does not go on after another one has been refused. -/
theorem setSequence_refused_cancels :
    blinking.portOf? ⟨"led", 0⟩ = some led ∧ led.hasSequence = true ∧
      (blinking.setSequence led (some unfit)).1 = .error (.invalidValue (.wrongType .boolean)) ∧
      ((blinking.setSequence led (some unfit)).2.portOf? ⟨"led", 0⟩).map Port.hasSequence =
        some false ∧
      ((blinking.advance 2000).portOf? ⟨"led", 0⟩).map (fun p => p.device.record) =
        some [.bool true, .bool false, .bool true] ∧
      (((blinking.setSequence led (some unfit)).2.advance 2000).portOf? ⟨"led", 0⟩).map
        (fun p => p.device.record) = some [.bool true] := by
  refine ⟨(Option.some_get isSome_blinking).symm, ?_, ?_, ?_, ?_, ?_⟩
  all_goals decide +kernel

end Node

end ControlNode
