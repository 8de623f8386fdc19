import ControlNode.Port.Attributes

/-!
# Outcomes of changes

A change of an attribute goes through or fails (`setAttr_accepted`, `setAttr_refused`). It can
fail because the attribute does not exist or cannot be changed, because its definition, the
reader of expressions or the search for loops turns the value down, or because the device does.
Wherever it fails, the port stays as it was: all that a device may have done by then is to count
that it was told to start or to stop.
-/

namespace ControlNode

namespace Device

/-- A device with its counts of starts and stops back at zero. -/
def uncounted : Device → Device
  | .scripted s => .scripted { s with enables := 0, disables := 0 }
  | d => d

theorem uncounted_enable (d : Device) : d.enable.2.uncounted = d.uncounted := by
  cases d <;> rfl

theorem uncounted_disable (d : Device) : d.disable.2.uncounted = d.uncounted := by
  cases d <;> rfl

theorem setAttr_refused {d : Device} {name : String} {value : Json} {e : AttrError}
    (h : (d.setAttr name value).1 = .error e) : (d.setAttr name value).2 = d := by
  cases d with
  | memory m =>
    simp only [setAttr] at h ⊢
    by_cases hname : name = "fail_reads"
    · rw [if_pos hname] at h ⊢
      cases value with
      | bool b => cases h
      | _ => rfl
    · rw [if_neg hname]
  | software s => rfl
  | scripted s =>
    simp only [setAttr] at h ⊢
    split at h
    · rename_i hvalue
      rw [if_pos hvalue]
    · cases h
  | unit => rfl

end Device

namespace Port

variable {p : Port}

/-- A port that is as it was but for what its device has counted. -/
structure Recounted (p q : Port) : Prop where
  frame : q = { p with device := q.device }
  device : q.device.uncounted = p.device.uncounted

namespace AttrChange

/-- Nothing has come of a change of `p`. -/
structure Idle (p : Port) (c : AttrChange) : Prop where
  evaluate : c.evaluate = false
  port : Recounted p c.port

theorem idle_refused (p : Port) (e : AttrError) : Idle p (refused e p) := ⟨rfl, rfl, rfl⟩

end AttrChange

open AttrChange

theorem setEnabled_refused {enabled : Bool} {e : AttrError}
    (h : (p.setEnabled enabled).result = .error e) : AttrChange.Idle p (p.setEnabled enabled) := by
  unfold setEnabled at h ⊢
  split
  · rename_i hsame
    rw [if_pos hsame] at h
    cases h
  · rename_i hdiff
    rw [if_neg hdiff] at h
    have hdevice : (if enabled then p.device.enable else p.device.disable).2.uncounted =
        p.device.uncounted := by
      split
      · exact p.device.uncounted_enable
      · exact p.device.uncounted_disable
    dsimp only at h ⊢
    split
    · exact ⟨rfl, rfl, hdevice⟩
    · rename_i hok
      rw [hok] at h
      dsimp only at h
      split at h <;> cases h

theorem setExpression_refused {g : DepGraph} {value : Json} {e : AttrError}
    (h : (p.setExpression g value).result = .error e) :
    AttrChange.Idle p (p.setExpression g value) := by
  unfold setExpression at h ⊢
  split
  · rename_i hnone
    rw [hnone] at h
    cases h
  · rename_i source hsource
    rw [hsource] at h
    dsimp only at h
    split
    · exact idle_refused p _
    · rename_i expr hparse
      rw [hparse] at h
      dsimp only at h
      split
      · exact idle_refused p _
      · rename_i hfree
        rw [hfree] at h
        cases h

theorem applyAttr_refused {g : DepGraph} {name : String} {value : Json} {e : AttrError}
    (h : (p.applyAttr g name value).result = .error e) :
    AttrChange.Idle p (p.applyAttr g name value) := by
  unfold applyAttr at h ⊢
  split
  · rename_i hforeign
    rw [if_pos hforeign] at h
    exact ⟨rfl, rfl, congrArg Device.uncounted (Device.setAttr_refused h)⟩
  · rename_i hstandard
    rw [if_neg hstandard] at h
    split
    · rename_i henabled
      rw [if_pos henabled] at h
      exact setEnabled_refused h
    · rename_i henabled
      rw [if_neg henabled] at h
      split
      · rename_i hexpression
        rw [if_pos hexpression] at h
        exact setExpression_refused h
      · rename_i hexpression
        rw [if_neg hexpression] at h
        split
        · rename_i q hq
          rw [hq] at h
          cases h
        · exact idle_refused p _

theorem exists_of_map_eq_ok {ε α β : Type} {x : Except ε α} {f : α → β} {b : β}
    (h : x.map f = .ok b) : ∃ a, x = .ok a ∧ f a = b := by
  cases x with
  | error e => cases h
  | ok a => exact ⟨a, rfl, Except.ok.inj h⟩

theorem setPlain_frame {q : Port} {name : String} {value : Json}
    (h : p.setPlain name value = .ok q) : q = { p with
      displayName := q.displayName
      unit := q.unit
      tag := q.tag
      persisted := q.persisted
      internal := q.internal
      transformRead := q.transformRead
      transformWrite := q.transformWrite
      historyInterval := q.historyInterval
      historyRetention := q.historyRetention
      limits := q.limits
      choices := q.choices } := by
  unfold setPlain at h
  split at h
  case h_12 =>
    repeat' split at h
    all_goals
      cases h
    all_goals rfl
  case h_13 | h_14 =>
    obtain ⟨e, -, rfl⟩ := exists_of_map_eq_ok h
    rfl
  case h_15 => cases h
  all_goals
    cases h
    rfl

/-- A change that goes through is one to an attribute that can be changed and accepts the
value. -/
theorem setAttr_accepted {g : DepGraph} {name : String} {value : Json}
    (h : (p.setAttr g name value).result = .ok ()) :
    ∃ d, p.attrDef? name = some d ∧ d.modifiable = true ∧ d.validate value = .ok () ∧
      (p.applyAttr g name value).result = .ok () ∧
      p.setAttr g name value = { p.applyAttr g name value with
        port := { (p.applyAttr g name value).port.dropAttrCache with dirty := true } } := by
  unfold setAttr at h ⊢
  cases hd : p.attrDef? name with
  | none =>
    rw [hd] at h
    cases h
  | some d =>
    rw [hd] at h
    dsimp only at h ⊢
    cases hmodifiable : d.modifiable with
    | false =>
      rw [hmodifiable] at h
      cases h
    | true =>
      rw [hmodifiable] at h
      cases hvalid : d.validate value with
      | error e =>
        rw [hvalid] at h
        cases h
      | ok =>
        rw [hvalid] at h
        dsimp only at h ⊢
        cases hdone : (p.applyAttr g name value).result with
        | error e =>
          rw [hdone] at h
          exact nomatch hdone.symm.trans h
        | ok => exact ⟨d, rfl, hmodifiable, hvalid, rfl, rfl⟩

/-- No effect comes before the last point at which a change can fail. -/
theorem setAttr_refused {g : DepGraph} {name : String} {value : Json} {e : AttrError}
    (h : (p.setAttr g name value).result = .error e) :
    AttrChange.Idle p (p.setAttr g name value) := by
  unfold setAttr at h ⊢
  cases hd : p.attrDef? name with
  | none => exact idle_refused p _
  | some d =>
    rw [hd] at h
    dsimp only at h ⊢
    cases hmodifiable : d.modifiable with
    | false => exact idle_refused p _
    | true =>
      rw [hmodifiable] at h
      cases hvalid : d.validate value with
      | error e' => exact idle_refused p _
      | ok =>
        rw [hvalid] at h
        dsimp only at h ⊢
        cases hdone : (p.applyAttr g name value).result with
        | error e' => exact applyAttr_refused hdone
        | ok =>
          rw [hdone] at h
          cases h

end Port

end ControlNode
