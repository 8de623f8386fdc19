import ControlNode.Proofs.Dict
import ControlNode.Proofs.Port.Outcomes
import ControlNode.Proofs.Port.Switching
import Mathlib

/-!
# The records of ports

What the record of a port is made of, and which changes it does not show (`SameRecord`). Every
other change marks the port as one to be saved, so that a port without a mark has the record
that it had (`Marking`).
-/

namespace ControlNode

/-! ### Texts and values -/

namespace Expr

theorem map_text_of_map_reset {e e' : Option Expr} (h : e'.map reset = e.map reset) :
    e'.map text = e.map text := by
  have hread (x : Option Expr) : x.map text = (x.map reset).map text := by
    cases x with
    | none => rfl
    | some x => rw [Option.map_some, Option.map_some, Option.map_some, text_reset]
  rw [hread e', hread e, h]

end Expr

namespace Value

theorem toJson_of_zero {x : Float} (hx : x = 0 ∨ x = -0) : toJson (.num x) = .int 0 := by
  have hpositive : toJson (.num 0) = .int 0 := by
    have hwhole : Binary64.isIntegral 0 = true := by decide +kernel
    have habove : -integerBound < 0 := by decide +kernel
    have hbelow : (0 : Float) < integerBound := by decide +kernel
    have hvalue : Binary64.toInt64 0 = 0 := by decide +kernel
    simp [toJson, hwhole, habove, hbelow, hvalue]
  have hnegative : toJson (.num (-0)) = .int 0 := by
    have hwhole : Binary64.isIntegral (-0) = true := by decide +kernel
    have habove : -integerBound < -0 := by decide +kernel
    have hbelow : (-0 : Float) < integerBound := by decide +kernel
    have hvalue : Binary64.toInt64 (-0) = 0 := by decide +kernel
    simp [toJson, hwhole, habove, hbelow, hvalue]
  rcases hx with rfl | rfl
  · exact hpositive
  · exact hnegative

/-- Values that count as the same are stored in the same way, the two zeros included. -/
theorem toJson_eq_of_same {v w : Value} (h : v.same w = true) : w.toJson = v.toJson := by
  cases v with
  | bool a =>
    cases w with
    | bool b => rw [beq_iff_eq.mp h]
    | num y => cases h
  | num x =>
    cases w with
    | bool b => cases h
    | num y =>
      obtain ⟨-, -, heq | ⟨hx, hy⟩ | ⟨hx, hy⟩⟩ := Float.beq_iff_ne_nan_and_eq.mp h
      · rw [heq]
      · rw [toJson_of_zero (.inl hx), toJson_of_zero (.inr hy)]
      · rw [toJson_of_zero (.inr hx), toJson_of_zero (.inl hy)]

theorem map_toJson_of_sameOption {a b : Option Value} (h : sameOption a b = true) :
    b.map toJson = a.map toJson := by
  cases a with
  | none =>
    cases b with
    | none => rfl
    | some w => cases h
  | some v =>
    cases b with
    | none => cases h
    | some w => exact congrArg some (toJson_eq_of_same h)

end Value

/-! ### Attributes of devices -/

namespace Device

structure SameAttrs (d d' : Device) : Prop where
  type : d'.type = d.type
  writable : d'.writable = d.writable
  attrDefs : d'.attrDefs = d.attrDefs
  getAttr : d'.getAttr = d.getAttr

variable {d : Device}

theorem SameAttrs.refl (d : Device) : SameAttrs d d := ⟨rfl, rfl, rfl, rfl⟩

theorem SameAttrs.trans {d' d'' : Device} (h : SameAttrs d d') (h' : SameAttrs d' d'') :
    SameAttrs d d'' :=
  ⟨h'.type.trans h.type, h'.writable.trans h.writable, h'.attrDefs.trans h.attrDefs,
    h'.getAttr.trans h.getAttr⟩

theorem read_sameAttrs (d : Device) : SameAttrs d d.read.2 := by
  cases d <;> exact ⟨rfl, rfl, rfl, rfl⟩

theorem beat_sameAttrs (d : Device) : SameAttrs d d.beat := by
  cases d <;> exact ⟨rfl, rfl, rfl, rfl⟩

theorem write_sameAttrs (d : Device) (v : Value) : SameAttrs d (d.write v).2 := by
  cases d with
  | memory m => simp only [write]; split <;> exact ⟨rfl, rfl, rfl, rfl⟩
  | software s => exact ⟨rfl, rfl, rfl, rfl⟩
  | scripted s => simp only [write]; split <;> exact ⟨rfl, rfl, rfl, rfl⟩
  | unit => exact .refl _

theorem sameAttrs_uncounted (d : Device) : SameAttrs d d.uncounted := by
  cases d <;> exact ⟨rfl, rfl, rfl, rfl⟩

theorem sameAttrs_of_uncounted {d' : Device} (h : d'.uncounted = d.uncounted) :
    SameAttrs d d' := by
  have hd := d.sameAttrs_uncounted
  rw [← h] at hd
  have hd' := d'.sameAttrs_uncounted
  exact ⟨hd'.type.symm.trans hd.type, hd'.writable.symm.trans hd.writable,
    hd'.attrDefs.symm.trans hd.attrDefs, hd'.getAttr.symm.trans hd.getAttr⟩

end Device

namespace Port

variable {p q r : Port}

/-! ### Fields -/

def attrFields (p : Port) : List (String × Json) :=
  p.attrDefs.filterMap fun d =>
    if d.modifiable && !(p.rawValue d.name).isNull then some (d.name, p.rawValue d.name) else none

def valueField (p : Port) : List (String × Json) :=
  if p.persisted then (p.lastRead.map Value.toJson).toList.map fun j => ("value", j) else []

theorem toRecord_eq (p : Port) : p.toRecord = Dict.ofList
    (("id", .str p.id) :: (p.attrFields ++ [("history_last_timestamp", .int p.historyLast)] ++
      p.valueField)) := by
  unfold toRecord valueField
  cases p.lastRead <;> cases p.persisted <;> rfl

theorem id_of_mem_fields {p : Port} {e : String × Json}
    (h : e ∈ p.attrFields ++ [("history_last_timestamp", .int p.historyLast)] ++ p.valueField)
    (hid : e.1 = "id") : e.2 = .str p.id := by
  rcases List.mem_append.mp h with h | h
  · rcases List.mem_append.mp h with h | h
    · obtain ⟨d, -, hd⟩ := List.mem_filterMap.mp h
      split at hd
      · cases hd
        have hname : d.name = "id" := hid
        change p.rawValue d.name = .str p.id
        rw [hname]
        rfl
      · cases hd
    · rw [List.mem_singleton.mp h] at hid
      have hname : "history_last_timestamp" = "id" := hid
      exact absurd hname (by decide)
  · unfold valueField at h
    split at h
    · obtain ⟨j, -, rfl⟩ := List.mem_map.mp h
      have hname : "value" = "id" := hid
      exact absurd hname (by decide)
    · cases h

theorem get?_toRecord_id (p : Port) : Dict.get? p.toRecord "id" = some (.str p.id) := by
  have hfirst : Dict.get? [("id", Json.str p.id)] "id" = some (.str p.id) := rfl
  have hrest := Dict.get?_foldl_insert_of_same (fun _ he => id_of_mem_fields he) hfirst
  rw [toRecord_eq]
  exact hrest

theorem toRecord_withId (p : Port) : p.toRecord.withId p.id = p.toRecord := by
  have hsorted : Dict.Sorted p.toRecord := Dict.sorted_ofList _
  refine Dict.ext_get? (Dict.sorted_insert _ _ hsorted) hsorted fun name => ?_
  rw [Record.withId, Dict.get?_insert]
  split
  · rename_i hname
    rw [← hname, get?_toRecord_id]
  · rfl

/-! ### What a record does not show -/

/-- Two ports that differ at most in what their records do not show. -/
structure SameRecord (p q : Port) : Prop where
  frame : q = { p with
    device := q.device
    expression := q.expression
    transformRead := q.transformRead
    transformWrite := q.transformWrite
    lastRead := q.lastRead
    writes := q.writes
    evals := q.evals
    evalPending := q.evalPending
    sequence := q.sequence
    nextSequence := q.nextSequence
    attrCache := q.attrCache
    dirty := q.dirty }
  device : p.device.SameAttrs q.device
  expression : q.expression.map Expr.text = p.expression.map Expr.text
  readTransform : q.transformRead.map Expr.text = p.transformRead.map Expr.text
  writeTransform : q.transformWrite.map Expr.text = p.transformWrite.map Expr.text
  value : p.persisted = true → q.lastRead.map Value.toJson = p.lastRead.map Value.toJson

namespace SameRecord

theorem refl (p : Port) : SameRecord p p := ⟨rfl, .refl _, rfl, rfl, rfl, fun _ => rfl⟩

theorem trans (h : SameRecord p q) (h' : SameRecord q r) : SameRecord p r := by
  have hpersisted : q.persisted = p.persisted := by rw [h.frame]
  refine ⟨?_, h.device.trans h'.device, h'.expression.trans h.expression,
    h'.readTransform.trans h.readTransform, h'.writeTransform.trans h.writeTransform,
    fun hp => (h'.value (hpersisted.trans hp)).trans (h.value hp)⟩
  have hq := h.frame
  have hr := h'.frame
  rw [hq] at hr
  exact hr

/-- What goes on in the queues of a port and in its cache is not stored. -/
theorem of_frame (h : q = { p with
    writes := q.writes
    evals := q.evals
    evalPending := q.evalPending
    sequence := q.sequence
    nextSequence := q.nextSequence
    attrCache := q.attrCache
    dirty := q.dirty }) : SameRecord p q := by
  rw [h]
  exact ⟨rfl, .refl _, rfl, rfl, rfl, fun _ => rfl⟩

theorem attrDefs (h : SameRecord p q) : q.attrDefs = p.attrDefs := by
  rw [Port.attrDefs, Port.attrDefs, Port.type, Port.type, Port.writable, Port.writable,
    h.device.type, h.device.writable, h.device.attrDefs]

theorem rawValue (h : SameRecord p q) (name : String) : q.rawValue name = p.rawValue name := by
  have hexpr {e e' : Option Expr} (he : e'.map Expr.text = e.map Expr.text) :
      Json.ofOption (fun e => .str (Expr.text e)) e' =
        Json.ofOption (fun e => .str (Expr.text e)) e := by
    cases e' <;> cases e <;> simp_all [Json.ofOption]
  have htype : q.type = p.type := h.device.type
  have hwritable : q.writable = p.writable := h.device.writable
  have hstandard : q.standardValue? name = p.standardValue? name := by
    unfold standardValue?
    dsimp only
    rw [htype, hwritable, hexpr h.expression, hexpr h.readTransform, hexpr h.writeTransform,
      h.frame]
    rfl
  rw [Port.rawValue, Port.rawValue, hstandard, h.device.getAttr]

theorem toRecord (h : SameRecord p q) : q.toRecord = p.toRecord := by
  have hid : q.id = p.id := by rw [h.frame]; rfl
  have hhistory : q.historyLast = p.historyLast := by rw [h.frame]
  have hpersisted : q.persisted = p.persisted := by rw [h.frame]
  have hattrs : q.attrFields = p.attrFields := by
    simp only [attrFields, h.attrDefs, h.rawValue]
  have hvalue : q.valueField = p.valueField := by
    rw [valueField, valueField, hpersisted]
    split
    · rename_i hp
      rw [h.value hp]
    · rfl
  rw [toRecord_eq, toRecord_eq, hid, hattrs, hhistory, hvalue]

theorem lookUp (h : SameRecord p q) (name : String) : q.lookUp name = p.lookUp name := by
  simp only [Port.lookUp, attrDef?, h.attrDefs, h.rawValue]

end SameRecord

namespace Recounted

theorem sameRecord (h : Recounted p q) : SameRecord p q := by
  have hdevice := Device.sameAttrs_of_uncounted h.device
  rw [h.frame]
  exact ⟨rfl, hdevice, rfl, rfl, rfl, fun _ => rfl⟩

theorem getAttr (h : Recounted p q) (name : String) :
    (q.getAttr name).1 = (p.getAttr name).1 ∧ Recounted (p.getAttr name).2 (q.getAttr name).2 := by
  have hfound := h.sameRecord.lookUp name
  have hcache : q.attrCache = p.attrCache := by rw [h.frame]
  unfold Port.getAttr
  rw [hcache, hfound]
  split
  · exact ⟨rfl, h⟩
  · split
    · refine ⟨rfl, ?_, h.device⟩
      rw [h.frame]
    · exact ⟨rfl, h⟩

theorem collectAttrs (h : Recounted p q) (ds : List AttrDef) :
    (q.collectAttrs ds).1 = (p.collectAttrs ds).1 ∧
      Recounted (p.collectAttrs ds).2 (q.collectAttrs ds).2 := by
  induction ds generalizing p q with
  | nil => exact ⟨rfl, h⟩
  | cons d ds ih =>
    obtain ⟨hvalue, hnext⟩ := h.getAttr d.name
    obtain ⟨hrest, hlast⟩ := ih hnext
    simp only [Port.collectAttrs]
    rw [hvalue]
    split
    · exact ⟨by rw [hrest], hlast⟩
    · exact ⟨hrest, hlast⟩

theorem attrsJson (h : Recounted p q) : q.attrsJson.1 = p.attrsJson.1 := by
  obtain ⟨hattrs, hport⟩ := h.collectAttrs p.attrDefs
  have hvalue : (q.collectAttrs p.attrDefs).2.lastRead =
    (p.collectAttrs p.attrDefs).2.lastRead := by
    rw [hport.frame]
  unfold Port.attrsJson
  rw [h.sameRecord.attrDefs]
  dsimp only
  rw [hattrs, hvalue]

end Recounted

/-! ### Marks -/

structure Marking (p q : Port) : Prop where
  key : q.key = p.key
  record : q.dirty = false → p.dirty = false ∧ q.toRecord = p.toRecord

namespace Marking

theorem refl (p : Port) : Marking p p := ⟨rfl, fun h => ⟨h, rfl⟩⟩

theorem trans (h : Marking p q) (h' : Marking q r) : Marking p r := by
  refine ⟨h'.key.trans h.key, fun hr => ?_⟩
  obtain ⟨hq, hqr⟩ := h'.record hr
  obtain ⟨hp, hpq⟩ := h.record hq
  exact ⟨hp, hqr.trans hpq⟩

theorem of_dirty (hkey : q.key = p.key) (h : q.dirty = true) : Marking p q :=
  ⟨hkey, fun hq => absurd hq (by rw [h]; decide)⟩

theorem of_sameRecord (h : SameRecord p q) (hdirty : q.dirty = p.dirty) : Marking p q :=
  ⟨by rw [h.frame], fun hq => ⟨hdirty.symm.trans hq, h.toRecord⟩⟩

theorem of_frame (h : q = { p with
    writes := q.writes
    evals := q.evals
    evalPending := q.evalPending
    sequence := q.sequence
    nextSequence := q.nextSequence
    attrCache := q.attrCache }) : Marking p q :=
  .of_sameRecord (.of_frame (by rw [h])) (by rw [h])

end Marking

/-! ### Workers -/

theorem Work.device {p q : Port} (h : Work p q) : p.device.SameAttrs q.device := by
  cases h with
  | takeWrite h =>
    obtain ⟨_, _, rfl⟩ := Option.map_eq_some_iff.mp h
    exact .refl _
  | carryOut =>
    unfold Port.carryOut
    split
    · exact .refl _
    · exact Device.write_sameAttrs ..
  | evaluate h t now =>
    obtain ⟨_, _, heq⟩ := Option.map_eq_some_iff.mp h
    cases heq
    rw [evaluate_frame]
    exact .refl _
  | endSequence => exact .refl _
  | stepSequence =>
    rw [submit_frame]
    exact .refl _

theorem Work.sameRecord {p q : Port} (h : Work p q) : SameRecord p q := by
  refine ⟨?_, h.device, Expr.map_text_of_map_reset h.setup.expression,
    Expr.map_text_of_map_reset h.setup.readTransform,
    Expr.map_text_of_map_reset h.setup.writeTransform, fun _ => by rw [h.lastRead]⟩
  have hframe := h.frame
  rw [hframe]

theorem Work.marking {p q : Port} (h : Work p q) : Marking p q :=
  .of_sameRecord h.sameRecord (by rw [h.frame])

/-! ### Calls -/

theorem submit_marking (p : Port) (v : Value) (t : Ticket) (now : Int) :
    Marking p (p.submit v t now).2 := by
  have hwrite := Expr.map_text_of_map_reset (transform_reset p p.transformWrite v now)
  rw [submit_frame]
  exact .of_sameRecord ⟨rfl, .refl _, rfl, rfl, hwrite, fun _ => rfl⟩ rfl

theorem enqueueWrite_marking (p : Port) (v : Value) (t : Ticket) :
    Marking p (p.enqueueWrite v t).2 := by
  unfold enqueueWrite
  split
  · exact .refl p
  · exact .of_frame rfl

theorem setSequence_marking (p : Port) (s : Option Sequence) :
    Marking p (p.setSequence s).2 := by
  unfold setSequence
  dsimp only
  repeat' split
  all_goals exact .of_frame rfl

theorem enqueueEval_marking (p : Port) (c : EvalContext) : Marking p (p.enqueueEval c).2 := by
  unfold enqueueEval
  repeat' split
  all_goals exact .of_frame rfl

theorem readValue_marking (p : Port) (now : Int) : Marking p (p.readValue now).2 := by
  have hdevice := p.device.read_sameAttrs
  unfold readValue
  dsimp only
  split
  · exact .of_sameRecord ⟨rfl, hdevice, rfl, rfl, rfl, fun _ => rfl⟩ rfl
  · exact .of_sameRecord ⟨rfl, hdevice, rfl,
      Expr.map_text_of_map_reset (transform_reset ..), rfl, fun _ => rfl⟩ rfl

theorem device_marking (p : Port) {d : Device} (h : p.device.SameAttrs d) :
    Marking p { p with device := d } :=
  .of_sameRecord ⟨rfl, h, rfl, rfl, rfl, fun _ => rfl⟩ rfl

/-- A value that counts as the one before leaves the record alone; for a port whose value is not
stored any value does. -/
theorem lastRead_marking (p : Port) {v : Option Value}
    (h : p.persisted = true → Value.sameOption p.lastRead v = true) :
    Marking p { p with lastRead := v } :=
  .of_sameRecord ⟨rfl, .refl _, rfl, rfl, rfl,
    fun hp => Value.map_toJson_of_sameOption (h hp)⟩ rfl

theorem getAttr_marking (p : Port) (name : String) : Marking p (p.getAttr name).2 := by
  unfold getAttr
  repeat' split
  all_goals exact .of_frame rfl

theorem collectAttrs_marking (p : Port) (ds : List AttrDef) :
    Marking p (p.collectAttrs ds).2 := by
  induction ds generalizing p with
  | nil => exact .refl p
  | cons d ds ih =>
    have hall := (p.getAttr_marking d.name).trans (ih (p.getAttr d.name).2)
    simp only [collectAttrs]
    split <;> exact hall

theorem attrsJson_marking (p : Port) : Marking p p.attrsJson.2 :=
  p.collectAttrs_marking p.attrDefs

/-! ### Changes of attributes -/

/-- A change of attributes marks the port; a change that is refused leaves its record alone. -/
theorem setAttr_marking (p : Port) (g : DepGraph) (name : String) (value : Json) :
    Marking p (p.setAttr g name value).port := by
  cases h : (p.setAttr g name value).result with
  | error e =>
    have hport := (setAttr_refused h).port
    exact .of_sameRecord hport.sameRecord (by rw [hport.frame])
  | ok =>
    obtain ⟨d, -, -, -, -, heq⟩ := setAttr_accepted h
    rw [heq]
    exact .of_dirty (applyAttr_switched p g name value).key rfl

end Port

end ControlNode
