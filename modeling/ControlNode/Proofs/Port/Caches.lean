import ControlNode.Proofs.Node.Saving
import ControlNode.Proofs.Port.Newcomers
import ControlNode.Proofs.Port.Views

/-!
# The cache of attributes

A port is used by callers, by ticks, by its workers and by the registry (`Use`). Whatever a port
has been used for, its cache says what would be found without it (`Faithful.use`), and a change of
one attribute is seen in no other one (`Faithful.setAttr_getAttr_of_ne`).
-/

namespace ControlNode

namespace Device

theorem setAttr_attrDefs (d : Device) (name : String) (value : Json) :
    (d.setAttr name value).2.attrDefs = d.attrDefs := by
  cases d with
  | memory m =>
    simp only [setAttr]
    repeat' split
    all_goals rfl
  | scripted s =>
    simp only [setAttr]
    split <;> rfl
  | software s => rfl
  | unit => rfl

end Device

namespace Port

variable {p q : Port}

/-! ### Uses -/

inductive Use (p : Port) : Port → Prop
  | work {q : Port} (h : Work p q) : Use p q
  | submit (v : Value) (t : Ticket) (now : Int) : Use p (p.submit v t now).2
  | enqueueWrite (v : Value) (t : Ticket) : Use p (p.enqueueWrite v t).2
  | setSequence (s : Option Sequence) : Use p (p.setSequence s).2
  | enqueueEval (c : EvalContext) : Use p (p.enqueueEval c).2
  | readValue (now : Int) : Use p (p.readValue now).2
  | beat : Use p { p with device := p.device.beat }
  | take (v : Value) (dirty : Bool) : Use p { p with lastRead := some v, dirty := dirty }
  | mark (dirty : Bool) : Use p { p with dirty := dirty }
  | sample (now : Int) : Use p { p with historyLast := now, dirty := true }
  | dropAttrCache : Use p p.dropAttrCache
  | getAttr (name : String) : Use p (p.getAttr name).2
  | attrsJson : Use p p.attrsJson.2
  | setAttr (g : DepGraph) (name : String) (value : Json) : Use p (p.setAttr g name value).port
  | loadAttrs (g : DepGraph) (record : Record) : Use p (p.loadAttrs g record).1
  | restore (v : Value) : Use p (p.restore v)
  | halt : Use p p.halt.2
  | clearPending : Use p p.clearPending
  /-- Something happens at the far end, but not to the attributes of the device. -/
  | change {device : Device} (h : p.device.SameAttrs device) : Use p { p with device := device }

/-! ### The cache -/

theorem attrDefs_of_device (htype : q.device.type = p.device.type)
    (hwritable : q.device.writable = p.device.writable)
    (hdefs : q.device.attrDefs = p.device.attrDefs) : q.attrDefs = p.attrDefs := by
  rw [attrDefs, attrDefs, type, type, writable, writable, htype, hwritable, hdefs]

structure SameCache (p q : Port) : Prop where
  cache : q.attrCache = p.attrCache
  lookUp : ∀ name, q.lookUp name = p.lookUp name

namespace SameCache

theorem of_sameRecord (h : SameRecord p q) (hcache : q.attrCache = p.attrCache) :
    SameCache p q := ⟨hcache, h.lookUp⟩

/-- What goes on in the queues of a port is seen in none of its attributes. -/
theorem of_frame (h : q = { p with
    writes := q.writes
    evals := q.evals
    evalPending := q.evalPending
    sequence := q.sequence
    nextSequence := q.nextSequence
    dirty := q.dirty }) : SameCache p q := by
  refine .of_sameRecord (.of_frame ?_) ?_
  · rw [h]
  · rw [h]

theorem of_device {device : Device} (h : p.device.SameAttrs device) :
    SameCache p { p with device := device } :=
  .of_sameRecord ⟨rfl, h, rfl, rfl, rfl, fun _ => rfl⟩ rfl

theorem submit (p : Port) (v : Value) (t : Ticket) (now : Int) :
    SameCache p (p.submit v t now).2 := by
  have hwrite := Expr.map_text_of_map_reset (transform_reset p p.transformWrite v now)
  rw [submit_frame]
  exact .of_sameRecord ⟨rfl, .refl _, rfl, rfl, hwrite, fun _ => rfl⟩ rfl

theorem enqueueWrite (p : Port) (v : Value) (t : Ticket) :
    SameCache p (p.enqueueWrite v t).2 := by
  unfold Port.enqueueWrite
  split
  all_goals exact .of_frame rfl

theorem setSequence (p : Port) (s : Option Sequence) : SameCache p (p.setSequence s).2 := by
  unfold Port.setSequence
  dsimp only
  repeat' split
  all_goals exact .of_frame rfl

theorem enqueueEval (p : Port) (c : EvalContext) : SameCache p (p.enqueueEval c).2 := by
  unfold Port.enqueueEval
  repeat' split
  all_goals exact .of_frame rfl

theorem readValue (p : Port) (now : Int) : SameCache p (p.readValue now).2 := by
  have hdevice := p.device.read_sameAttrs
  unfold Port.readValue
  dsimp only
  split
  · exact .of_device hdevice
  · exact .of_sameRecord ⟨rfl, hdevice, rfl,
      Expr.map_text_of_map_reset (transform_reset ..), rfl, fun _ => rfl⟩ rfl

/-- A value that a port takes over is none of its attributes. -/
theorem restore (p : Port) (v : Value) : SameCache p (p.restore v) := by
  have hdevice := p.restore_sameAttrs v
  have hdefs := attrDefs_of_device hdevice.type hdevice.writable hdevice.attrDefs
  refine ⟨by rw [restore_frame], fun name => ?_⟩
  rw [Port.lookUp, Port.lookUp, attrDef?, attrDef?, hdefs, restore_rawValue]

end SameCache

namespace Faithful

theorem sameCache (h : p.Faithful) (hq : SameCache p q) : q.Faithful := h.of_same hq.cache hq.lookUp

/-- A change that is refused leaves the cache as it is, and one that goes through drops it. -/
theorem setAttr (h : p.Faithful) (g : DepGraph) (name : String) (value : Json) :
    (p.setAttr g name value).port.Faithful := by
  cases hr : (p.setAttr g name value).result with
  | error e =>
    have hsame := (setAttr_refused hr).port
    exact h.sameCache (.of_sameRecord hsame.sameRecord (by rw [hsame.frame]))
  | ok =>
    obtain ⟨_, -, -, -, -, heq⟩ := setAttr_accepted hr
    rw [heq]
    exact .of_empty rfl

/-- Each use touches neither the cache nor the attributes, fills the cache with what is found, or
drops it. -/
theorem use (h : p.Faithful) (hq : Use p q) : q.Faithful := by
  cases hq with
  | work hq => exact h.sameCache (.of_sameRecord hq.sameRecord hq.sameView.cache)
  | submit v t now => exact h.sameCache (.submit p v t now)
  | enqueueWrite v t => exact h.sameCache (.enqueueWrite p v t)
  | setSequence s => exact h.sameCache (.setSequence p s)
  | enqueueEval c => exact h.sameCache (.enqueueEval p c)
  | readValue now => exact h.sameCache (.readValue p now)
  | beat => exact h.sameCache (.of_device p.device.beat_sameAttrs)
  | take v dirty => exact h.of_same rfl fun _ => rfl
  | mark dirty => exact h.of_same rfl fun _ => rfl
  | sample now => exact h.of_same rfl fun _ => rfl
  | dropAttrCache => exact .of_empty rfl
  | getAttr name => exact h.getAttr name
  | attrsJson => exact h.attrsJson
  | setAttr g name value => exact h.setAttr g name value
  | loadAttrs g record => exact .of_empty rfl
  | restore v => exact h.sameCache (.restore p v)
  | halt => exact h.sameCache (.of_frame rfl)
  | clearPending => exact h.sameCache (.of_frame rfl)
  | change hdevice => exact h.sameCache (.of_device hdevice)

end Faithful

/-! ### Changes of attributes -/

variable {name other : String}

theorem setEnabled_attrDefs (p : Port) (enabled : Bool) :
    (p.setEnabled enabled).port.attrDefs = p.attrDefs := by
  have hdevice : p.device.SameAttrs (if enabled then p.device.enable else p.device.disable).2 := by
    split
    · exact Device.sameAttrs_of_uncounted p.device.uncounted_enable
    · exact Device.sameAttrs_of_uncounted p.device.uncounted_disable
  unfold setEnabled
  split
  · rfl
  · revert hdevice
    dsimp only
    generalize (if enabled then p.device.enable else p.device.disable) = out
    intro hdevice
    repeat' split
    all_goals exact attrDefs_of_device hdevice.type hdevice.writable hdevice.attrDefs

/-- Which attributes a port has is not changed through its attributes. -/
theorem applyAttr_attrDefs (p : Port) (g : DepGraph) (name : String) (value : Json) :
    (p.applyAttr g name value).port.attrDefs = p.attrDefs := by
  unfold applyAttr
  split
  · obtain ⟨htype, hwritable⟩ := p.device.setAttr_type name value
    exact attrDefs_of_device htype hwritable (p.device.setAttr_attrDefs name value)
  · split
    · exact p.setEnabled_attrDefs _
    · split
      · unfold setExpression
        repeat' split
        all_goals rfl
      · split
        · rename_i q hq
          have hdevice : q.device = p.device := by rw [setPlain_frame hq]
          exact attrDefs_of_device (congrArg _ hdevice) (congrArg _ hdevice) (congrArg _ hdevice)
        · rfl

theorem applyAttr_lookUp_of_ne (p : Port) (g : DepGraph) (value : Json) (h : other ≠ name) :
    (p.applyAttr g name value).port.lookUp other = p.lookUp other := by
  rw [lookUp, lookUp, attrDef?, attrDef?, applyAttr_attrDefs, rawValue_applyAttr_of_ne h]

/-- A change of one attribute that goes through is seen in no other one. -/
theorem Faithful.setAttr_getAttr_of_ne (h : p.Faithful) {g : DepGraph} {value : Json}
    (hdone : (p.setAttr g name value).result = .ok ()) (hne : other ≠ name) :
    ((p.setAttr g name value).port.getAttr other).1 = (p.getAttr other).1 := by
  obtain ⟨_, -, -, -, -, heq⟩ := setAttr_accepted hdone
  have hsame : (p.setAttr g name value).port.lookUp other =
      (p.applyAttr g name value).port.lookUp other := by
    rw [heq]
    rfl
  rw [(h.setAttr g name value).getAttr_fst, h.getAttr_fst, hsame,
    applyAttr_lookUp_of_ne p g value hne]

end Port

end ControlNode
