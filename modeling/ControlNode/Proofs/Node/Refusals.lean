import ControlNode.Proofs.Node.Histories
import ControlNode.Proofs.Port.Marking

/-!
# Refused changes of attributes

A node refuses a change without a trace (`setAttr_keeps_of_refused`): no port shows anything
else than before, no evaluation is asked for and no event is published.
-/

namespace ControlNode

namespace Port

/-- A port that shows what it showed before. Its device may have counted one more start or stop;
everything else about it, the expression and the transforms with what their calls remember, the
dependencies, the last value and the mark of a port to be saved, is the same. -/
structure Unchanged (p q : Port) : Prop extends Recounted p q where
  attrs : ∀ name, (q.getAttr name).1 = (p.getAttr name).1
  attrsJson : q.attrsJson.1 = p.attrsJson.1
  record : q.toRecord = p.toRecord

theorem Recounted.unchanged {p q : Port} (h : Recounted p q) : Unchanged p q :=
  ⟨h, fun name => (h.getAttr name).1, h.attrsJson, h.sameRecord.toRecord⟩

theorem Unchanged.refl (p : Port) : Unchanged p p :=
  Recounted.unchanged ⟨rfl, rfl⟩

end Port

namespace Node

open Port

variable {n : Node}

/-- A change that is refused, for whatever reason, leaves each port unchanged and everything
else in the node alone: the evaluations that have been asked for, the events, the storage. -/
theorem setAttr_keeps_of_refused (h : Filed n) {id name : String} {value : Json} {e : AttrError}
    (hrefused : (n.setAttr id name value).1 = .error e) :
    (n.setAttr id name value).2 = { n with ports := (n.setAttr id name value).2.ports } ∧
      ∀ i, Option.Rel Unchanged (n.port? i) ((n.setAttr id name value).2.port? i) := by
  have hself (i : String) : Option.Rel Unchanged (n.port? i) (n.port? i) := by
    cases n.port? i with
    | none => exact .none
    | some p => exact .some (.refl p)
  unfold setAttr at hrefused ⊢
  cases hp : n.port? id with
  | none => exact ⟨rfl, hself⟩
  | some p =>
    rw [hp] at hrefused
    dsimp only at hrefused ⊢
    have hid : p.id = id := h.ids id p hp
    cases hchange : (p.setAttr n.graph name value).result with
    | ok =>
      rw [hchange] at hrefused
      cases hrefused
    | error cause =>
      have hport := (setAttr_refused hchange).port
      have hkey : (p.setAttr n.graph name value).port.key = p.key := by rw [hport.frame]
      have hregistered : n.port? p.id = some p := by rw [hid, hp]
      have hput := port?_putPort hregistered hkey
      dsimp only
      refine ⟨?_, fun i => ?_⟩
      · -- the port is still registered, so none of those that are gone is replaced
        have hany : (n.port? (p.setAttr n.graph name value).port.id).any
            (fun q => q.key = (p.setAttr n.graph name value).port.key) = true := by
          rw [Port.id, hkey, ← Port.id, hregistered]
          simp
        unfold putPort
        rw [if_pos hany]
      · rw [hput]
        split
        · rename_i hi
          rw [← hi, Port.id, hkey, ← Port.id, hregistered]
          exact .some hport.unchanged
        · exact hself i

/-- A device that refuses to be stopped: the port stays enabled. -/
theorem setAttr_keeps_of_refused_stop :
    let d : Device := .scripted { type := .number, failures := [(.disable, .timeout)] }
    let n := (create {} (.memory {}) 0).after [.add "p" d]
    let m := (n.setAttr "p" "enabled" (.bool false)).2
    m = { n with ports := m.ports } ∧
      ∀ i, Option.Rel Unchanged (n.port? i) (m.port? i) := by
  intro d n m
  have hsound : Sound n := after_sound (sound_create _ _ _ _) _
  have hrefused : (n.setAttr "p" "enabled" (.bool false)).1 =
      .error (.invalid "enabled" (.refused PortError.timeout.message)) := by decide +kernel
  exact setAttr_keeps_of_refused hsound.filed hrefused

end Node

end ControlNode
