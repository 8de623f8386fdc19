import ControlNode.Proofs.Port.Definitions
import ControlNode.Proofs.Port.Newcomers
import ControlNode.Proofs.Port.Rounds

/-!
# Values that come back

A port that is set up from the record of another one takes over the value in it. The value goes to
the device as it is, not through the transform for writes, so that it is read back through the
transform for reads (`Revived.reads`).
-/

namespace ControlNode

/-! ### Stored values -/

namespace Value

variable {v : Value}

def IsFinite : Value → Prop
  | .bool _ => True
  | .num x => Binary64.isFinite x = true

/-- What is read from the JSON form of a value: a negative zero loses its sign. -/
def stored : Value → Value
  | .bool b => .bool b
  | .num x => .num (Binary64.unsigned x)

theorem ofJson?_toJson (h : v.IsFinite) : ofJson? v.toJson = some v.stored := by
  cases v with
  | bool b => rfl
  | num x =>
    by_cases hzero : x = -0
    · have hint : Binary64.ofInt 0 = 0 := by decide +kernel
      rw [toJson_of_zero (.inr hzero), stored, Binary64.unsigned, if_pos hzero, ofJson?, hint]
    · have hsame : Binary64.unsigned x = x := if_neg hzero
      rw [toJson, stored]
      split
      · rename_i hinteger
        rw [Bool.and_eq_true, Bool.and_eq_true, decide_eq_true_eq, decide_eq_true_eq] at hinteger
        obtain ⟨⟨hwhole, habove⟩, hbelow⟩ := hinteger
        -- nine quadrillions fit into 64 bits
        have hbound : Binary64.isIntegral integerBound = true ∧
            Binary64.isIntegral (-integerBound) = true ∧
            Binary64.toInt64 integerBound = 9000000000000000 ∧
            Binary64.toInt64 (-integerBound) = -9000000000000000 := by decide +kernel
        obtain ⟨hplus, hminus, htop, hbottom⟩ := hbound
        have hfin := Binary64.isFinite_of_isIntegral hwhole
        have hle : Binary64.toInt64 x ≤ 9000000000000000 := by
          rw [← htop]
          refine Binary64.toInt64_mono hwhole hplus fun hlt => ?_
          rw [Binary64.lt_iff_value (Binary64.isFinite_of_isIntegral hplus) hfin] at hlt
          rw [Binary64.lt_iff_value hfin (Binary64.isFinite_of_isIntegral hplus)] at hbelow
          exact absurd hbelow hlt.le.not_gt
        have hge : -9000000000000000 ≤ Binary64.toInt64 x := by
          rw [← hbottom]
          refine Binary64.toInt64_mono hminus hwhole fun hlt => ?_
          rw [Binary64.lt_iff_value hfin (Binary64.isFinite_of_isIntegral hminus)] at hlt
          rw [Binary64.lt_iff_value (Binary64.isFinite_of_isIntegral hminus) hfin] at habove
          exact absurd habove hlt.le.not_gt
        rw [ofJson?, Binary64.ofInt_toInt64 hwhole
          (by unfold Binary64.minInt64 Binary64.maxInt64; omega)]
      · have hfin : Binary64.isFinite x = true := h
        rw [Json.ofFloat, if_pos hfin, ofJson?, hsame]

theorem isNaN_of_isFinite (h : v.IsFinite) : v.isNaN = false := by
  cases v with
  | bool b => rfl
  | num x =>
    change x.toModel.unpack.isNaN = false
    rcases Binary64.unpack_of_isFinite h with ⟨s, hu, -⟩ | ⟨s, m, e, hc, hu, -⟩ <;> rw [hu] <;> rfl

theorem isFinite_stored (h : v.IsFinite) : v.stored.IsFinite := by
  cases v with
  | bool b => trivial
  | num x =>
    change Binary64.isFinite (Binary64.unsigned x) = true
    unfold Binary64.unsigned
    split
    · decide +kernel
    · exact h

theorem same_stored (h : v.IsFinite) : v.stored.same v = true := by
  by_cases hzero : v = .num (-0)
  · rw [hzero]
    decide +kernel
  · have hsame : v.stored = v := by
      cases v with
      | bool b => rfl
      | num x =>
        have hx : x ≠ -0 := fun hx => hzero (congrArg Value.num hx)
        rw [stored, Binary64.unsigned, if_neg hx]
    rw [hsame]
    exact same_self (isNaN_of_isFinite h)

end Value

namespace Port

variable {p q : Port} {name : String} {g g' : DepGraph} {value : Json} {v w : Value}
  {r defaults : Record}

theorem get?_toRecord_value (hself : Alike p p) (hpersisted : p.persisted = true)
    (hv : p.lastRead = some v) : Dict.get? p.toRecord "value" = some v.toJson := by
  have hfield : p.valueField = [("value", v.toJson)] := by
    rw [valueField, if_pos hpersisted, hv]
    rfl
  rw [toRecord_eq, hfield]
  refine Dict.get?_ofList_of_mem (by simp) fun e he hname => ?_
  rcases List.mem_cons.mp he with rfl | he
  · have hid : "id" = "value" := hname
    exact absurd hid (by decide)
  rcases List.mem_append.mp he with he | he
  · rcases List.mem_append.mp he with he | he
    · -- no attribute has that name
      obtain ⟨other, w⟩ := e
      obtain rfl : other = "value" := hname
      obtain ⟨-, -, d, hd, hdname, hmodifiable⟩ := mem_attrFields_iff.mp he
      have hsome : (p.attrDef? "value").isSome = true :=
        List.find?_isSome.mpr ⟨d, hd, by simp [hdname]⟩
      obtain ⟨d', hd'⟩ := Option.isSome_iff_exists.mp hsome
      rcases attrDef?_cases hself hd' with hstandard | ⟨hother, -⟩
      · cases hstandard
      · exact absurd hother (by decide)
    · rw [List.mem_singleton.mp he] at hname
      have hhistory : "history_last_timestamp" = "value" := hname
      exact absurd hhistory (by decide)
  · rw [List.mem_singleton.mp he]

/-! ### Switches -/

def switchNames : List String := ["enabled", "persisted", "internal", "integer"]

theorem settled_of_switch {d : AttrDef} (hself : Alike p p) (hname : name ∈ switchNames)
    (hd : p.attrDef? name = some d) (b : Bool) :
    d.modifiable = true ∧ Settled p name (.bool b) := by
  have hstandard : StandardAttr.def? name = some d := by
    rcases attrDef?_cases hself hd with hstandard | ⟨rfl, -⟩
    · exact hstandard
    · exact absurd hname (by decide)
  have hmem := List.mem_of_find?_eq_some hstandard
  simp only [switchNames, List.mem_cons, List.not_mem_nil, or_false] at hname
  rcases hname with rfl | rfl | rfl | rfl
  all_goals
    cases hstandard
    refine ⟨rfl, settled_bool hd rfl (by decide) rfl rfl ?_ b⟩
  · exact fun q g b hq => hq.enabled g b
  all_goals exact fun q g b _ => rawValue_applyAttr_plain hmem (by decide) rfl

theorem attrDef?_standard {d : AttrDef}
    (hd : (StandardAttr.forPort ⟨p.type, p.writable⟩).find? (fun d => d.name == name) = some d) :
    p.attrDef? name = some d := by
  rw [attrDef?, attrDefs, List.find?_append, hd]
  rfl

theorem exists_switch (hname : name ∈ ["enabled", "persisted", "internal"]) :
    ∃ d, p.attrDef? name = some d := by
  have hfind (t : PortTraits) :
    ((StandardAttr.forPort t).find? fun d => d.name == name).isSome := by
    obtain ⟨type, writable⟩ := t
    simp only [List.mem_cons, List.not_mem_nil, or_false] at hname
    rcases hname with rfl | rfl | rfl <;> cases type <;> cases writable <;> rfl
  obtain ⟨d, hd⟩ := Option.isSome_iff_exists.mp (hfind ⟨p.type, p.writable⟩)
  exact ⟨d, attrDef?_standard hd⟩

theorem rawValue_loadAttrs_switch (hq : Alike p q) (hname : name ∈ switchNames) {d : AttrDef}
    (hd : p.attrDef? name = some d) {b : Bool} (hb : p.rawValue name = .bool b) :
    (q.loadAttrs g p.toRecord).1.rawValue name = .bool b := by
  have hself : Alike p p := hq.trans hq.symm
  obtain ⟨hmodifiable, hsettled⟩ := settled_of_switch hself hname hd b
  have hfield := get?_toRecord hself hd hmodifiable (by rw [hb]; rfl)
  rw [hb] at hfield
  exact rawValue_loadAttrs_of_settled hq hfield fun q hq => hsettled q g hq

/-! ### Transforms -/

theorem transformRead_setPlain (h : p.setPlain name value = .ok q) (hne : name ≠ "transform_read") :
    q.transformRead = p.transformRead := by
  unfold setPlain at h
  split at h
  case h_12 =>
    repeat' split at h
    all_goals
      cases h
    all_goals rfl
  case h_13 => exact absurd rfl hne
  case h_14 =>
    obtain ⟨t, -, rfl⟩ := exists_of_map_eq_ok h
    rfl
  case h_15 => cases h
  all_goals
    cases h
    rfl

theorem transformRead_loadAttr (p : Port) (g : DepGraph) (value : Json)
    (hne : name ≠ "transform_read") :
    (p.loadAttr g name value).1.transformRead = p.transformRead := by
  unfold loadAttr
  split
  · rfl
  · split
    · rfl
    · split
      · unfold applyAttr
        split
        · rfl
        · split
          · exact (transforms_setEnabled ..).1
          · split
            · exact (transforms_setExpression ..).1
            · split
              · rename_i q hq
                exact transformRead_setPlain hq hne
              · rfl
      · rfl

theorem transformRead_eq_none_iff :
    p.transformRead = none ↔ p.rawValue "transform_read" = .null := by
  rw [rawValue_eq_text (by decide)]
  change _ ↔ Json.ofOption _ p.transformRead = .null
  cases p.transformRead with
  | none => exact ⟨fun _ => rfl, fun _ => rfl⟩
  | some e => exact ⟨nofun, nofun⟩

theorem exists_transformDef : ∃ d, p.attrDef? "transform_read" = some d ∧ d.modifiable = true := by
  have hfind (t : PortTraits) :
      (StandardAttr.forPort t).find? (fun d => d.name == "transform_read") =
        some (StandardAttr.shortText "transform_read" 1024) := by
    obtain ⟨type, writable⟩ := t
    cases type <;> cases writable <;> rfl
  exact ⟨_, attrDef?_standard (hfind _), rfl⟩

/-- The transform for reads comes back from a record but for positions and memories, or there is
none because its text has become too long. -/
theorem transformRead_loadAttrs (hq : Alike p q) (hnone : q.transformRead = none)
    (hread : ∀ e, p.transformRead = some e → Expr.Readable p.id e ∧ e.Confined p.id ∧ e.Unsigned) :
    (q.loadAttrs g p.toRecord).1.transformRead = none ∨
      ∃ e e', p.transformRead = some e ∧ (q.loadAttrs g p.toRecord).1.transformRead = some e' ∧
        e'.bare = e.bare := by
  have hself : Alike p p := hq.trans hq.symm
  obtain ⟨d, hd, hmodifiable⟩ := exists_transformDef (p := p)
  cases he : p.transformRead with
  | none =>
    left
    have hraw : p.rawValue "transform_read" = .null := transformRead_eq_none_iff.mp he
    have habsent := get?_toRecord_of_unset hself hd hmodifiable (by rw [hraw]; rfl)
    rw [transformRead_eq_none_iff, rawValue_loadAttrs_of_absent hq habsent]
    exact transformRead_eq_none_iff.mp hnone
  | some e =>
    obtain ⟨hreadable, hconfined, hunsigned⟩ := hread e he
    have hraw : p.rawValue "transform_read" = .str e.text := by
      rw [rawValue_eq_text (by decide),
        show p.expressionAt "transform_read" = p.transformRead from rfl,
        he, Json.ofOption]
    have hset : (p.rawValue "transform_read").isNull = false := by rw [hraw]; rfl
    have hfield := get?_toRecord hself hd hmodifiable hset
    rw [hraw] at hfield
    cases hfault : d.fault (.str e.text) with
    | none =>
      right
      have hload (q : Port) (hq : Alike p q) :
          ∃ e', (q.loadAttr g "transform_read" (.str e.text)).1.transformRead = some e' ∧
            e'.bare = e.bare := by
        rw [loadAttr_of_accepted hd (by decide) (by rw [hmodifiable, hfault]; rfl) hq]
        rw [← hq.id] at hreadable hconfined
        exact applyAttr_transformRead hreadable hconfined hunsigned
      obtain ⟨e', he', hbare⟩ := loadAttrs_brings
        (motive := fun q => ∃ e', q.transformRead = some e' ∧ e'.bare = e.bare) hq hfield hload
        (fun q other value hne hdone => by rwa [transformRead_loadAttr q g value hne])
        (fun q hdone => hdone)
      exact ⟨e, e', rfl, he', hbare⟩
    | some fault =>
      left
      rw [transformRead_eq_none_iff, rawValue_loadAttrs_of_refused hq hd hmodifiable hset
        (by rw [hraw, hfault]; rfl)]
      exact transformRead_eq_none_iff.mp hnone

/-! ### Revived ports -/

/-- What comes of a value that the device of a port says. -/
def received (p : Port) (raw : Value) (now : Int) : Except PortError Value :=
  (p.transform p.transformRead raw now).1

theorem readValue_of_read {r : Except PortError Value} (h : p.device.read = (r, p.device))
    (now : Int) : (p.readValue now).1 = r.bind fun raw => p.received raw now := by
  unfold readValue
  rw [h]
  cases r <;> rfl

theorem adapt_of_received {raw : Value} {now : Int} (h : p.received raw now = .ok w) :
    p.domain.adapt w = w := by
  unfold received transform at h
  split at h
  · cases h
    exact Domain.adapt_adapt ..
  · dsimp only at h
    split at h
    · cases h
      exact Domain.adapt_adapt ..
    · cases h

/-- Which value of a port is closest depends on its type, and for numbers on whether they are
whole. -/
theorem adapt_congr (htype : q.type = p.type)
    (hinteger : p.type = .number → q.limits.integer = p.limits.integer) :
    q.domain.adapt = p.domain.adapt := by
  funext v
  unfold Domain.adapt Port.domain
  rw [htype]
  cases hp : p.type with
  | boolean => rfl
  | number => simp only [hinteger hp]

theorem received_congr {raw : Value} (hadapt : q.domain.adapt = p.domain.adapt) (hid : q.id = p.id)
    (hzone : q.zone = p.zone) (hnone : p.transformRead = none → q.transformRead = none)
    (hsome : ∀ e, p.transformRead = some e → ∃ e', q.transformRead = some e' ∧
      ∀ c, (e'.eval c).1 = (e.eval c).1) (now : Int) : q.received raw now = p.received raw now := by
  unfold received transform
  rw [hadapt, hid, hzone]
  cases he : p.transformRead with
  | none => rw [hnone he]
  | some e =>
    obtain ⟨e', he', heval⟩ := hsome e he
    rw [he']
    have hsame := heval (.forTransform p.id raw now p.zone)
    dsimp only
    rw [hsame]
    split <;> rfl

/-- The text of the failure of a device whose reads are made to fail. -/
def readFailure : PortError := .read "simulated failure"

/-- The port `q` has taken over the value `w` of `p`, and its device holds it. -/
structure Revived (p q : Port) (w : Value) : Prop where
  id : q.id = p.id
  idle : q.Idle
  enabled : q.enabled = true
  lastRead : q.lastRead = some w
  adapt : q.domain.adapt = p.domain.adapt
  transform : q.transformRead = none ∨ ∃ e e', p.transformRead = some e ∧
    q.transformRead = some e' ∧ e'.bare = e.bare
  device : q.device.read = (if p.device.isReliable then .ok w else .error readFailure, q.device)
  alike : p.device.Alike q.device

theorem writable_of_alike (hq : Alike p q) (hwritable : p.writable = true) :
    q.writable = true := hq.device.writable_eq.trans hwritable

theorem restore_of_writable (hself : Alike q q) (hwritable : q.writable = true) (v : Value) :
    ∃ device, q.restore v = { q with device := device, lastRead := some (q.domain.adapt v) } ∧
      q.device.Alike device ∧ device.read = (if q.device.isReliable then
        .ok (q.domain.adapt v) else .error readFailure, device) := by
  obtain ⟨w, hw⟩ : ∃ w, w = q.domain.adapt v := ⟨_, rfl⟩
  obtain ⟨device, hwrite, halike, hread⟩ : ∃ device, q.device.write w = (.ok (), device) ∧
      q.device.Alike device ∧ device.read = (if q.device.isReliable then
        .ok w else .error readFailure, device) := by
    have hdevice := hself.device
    unfold Port.writable at hwritable
    generalize q.device = d at hdevice hwritable
    cases hdevice with
    | @memory m _ _ =>
      have hopen : m.writable = true := hwritable
      refine ⟨.memory { m with value := some w, written := w :: m.written }, ?_, .memory rfl rfl,
        ?_⟩
      · simp only [Device.write, hopen, if_true]
      · cases hfail : m.failReads <;>
          simp [Device.read, Device.isReliable, Device.held, hfail, readFailure]
    | @software s _ => exact ⟨.software { s with value := some w }, rfl, .software rfl, rfl⟩
  refine ⟨device, ?_, halike, ?_⟩
  · unfold restore
    dsimp only
    rw [if_pos hwritable, ← hw, hwrite]
  · rw [← hw]
    exact hread

theorem isReliable_loadAttrs (hq : Alike p q) :
    (q.loadAttrs g p.toRecord).1.device.isReliable = p.device.isReliable := by
  have hself : Alike p p := hq.trans hq.symm
  have hloaded := (hq.loadAttrs g p.toRecord).device
  have hdevice := hself.device
  generalize hd : p.device = device at hdevice hloaded
  cases hdevice with
  | @memory m _ _ =>
    have hdef : p.attrDef? "fail_reads" = some Device.failReadsDef := by
      have hfind (t : PortTraits) : (StandardAttr.forPort t ++ [Device.failReadsDef]).find?
          (fun d => d.name == "fail_reads") = some Device.failReadsDef := by
        obtain ⟨type, writable⟩ := t
        cases type <;> cases writable <;> rfl
      rw [attrDef?, attrDefs, hd]
      exact hfind _
    have hraw : p.rawValue "fail_reads" = .bool m.failReads := by
      have hstandard : p.standardValue? "fail_reads" = none := rfl
      rw [rawValue, hstandard, hd]
      rfl
    have hfield := get?_toRecord hself hdef rfl (by rw [hraw]; rfl)
    rw [hraw] at hfield
    have hsettled : Settled p "fail_reads" (.bool m.failReads) :=
      settled_bool hdef rfl (by decide) rfl rfl (fun q g b hq => hq.failReads hd g b) _
    have hrestored := rawValue_loadAttrs_of_settled (g := g) hq hfield fun q hq => hsettled q g hq
    have hstandard : (q.loadAttrs g p.toRecord).1.standardValue? "fail_reads" = none := rfl
    rw [rawValue, hstandard] at hrestored
    generalize (q.loadAttrs g p.toRecord).1.device = device' at hloaded hrestored
    cases hloaded with
    | @memory _ m' _ _ =>
      have hsame : Json.bool m'.failReads = .bool m.failReads := hrestored
      rw [Device.isReliable, Device.isReliable, Json.bool.inj hsame]
  | software =>
    generalize (q.loadAttrs g p.toRecord).1.device = device' at hloaded
    cases hloaded
    rfl

theorem adapt_loadAttrs (hq : Alike p q) :
    (q.loadAttrs g p.toRecord).1.domain.adapt = p.domain.adapt := by
  refine adapt_congr (hq.loadAttrs g p.toRecord).device.type_eq fun hnumber => ?_
  have hfind (writable : Bool) : ((StandardAttr.forPort ⟨.number, writable⟩).find?
      fun d => d.name == "integer").isSome := by cases writable <;> rfl
  obtain ⟨d, hd⟩ := Option.isSome_iff_exists.mp (hfind p.writable)
  have hrestored := rawValue_loadAttrs_switch (g := g) hq (by decide)
    (attrDef?_standard (hnumber ▸ hd)) (show p.rawValue "integer" = .bool p.limits.integer from rfl)
  exact Json.bool.inj hrestored

/-- A writable port takes over the value in the record, and so does its device. -/
theorem revived_takeOver {r : Record} (hq : Alike p q) (hwritable : p.writable = true)
    (henabled : q.enabled = true) (hstored : Node.storedValue? q r = some w)
    (hadapt : q.domain.adapt = p.domain.adapt)
    (hreliable : q.device.isReliable = p.device.isReliable)
    (htransform : q.transformRead = none ∨ ∃ e e', p.transformRead = some e ∧
      q.transformRead = some e' ∧ e'.bare = e.bare)
    (hidle : (q.takeOver r).attrsJson.2.Idle) :
    Revived p (q.takeOver r).attrsJson.2 (p.domain.adapt w) := by
  obtain ⟨device, hrestore, hwritten, hheld⟩ :=
    restore_of_writable (hq.symm.trans hq) (writable_of_alike hq hwritable) w
  have htaken : (q.takeOver r).attrsJson.2 = { q with
      device := device
      lastRead := some (q.domain.adapt w)
      attrCache := (q.takeOver r).attrsJson.2.attrCache } := by
    rw [attrsJson_frame, takeOver_of_some hstored, hrestore]
  rw [htaken] at hidle ⊢
  refine ⟨hq.id, hidle, henabled, congrArg (fun f => some (f w)) hadapt, ?_, htransform, ?_,
    hq.device.trans hwritten⟩
  · rw [← hadapt]
    exact adapt_congr hwritten.type_eq fun _ => rfl
  · rw [hreliable, hadapt] at hheld
    exact hheld

/-- A port that is set up from the record of an enabled and persisted port takes over its value. -/
theorem revived_setUp {key : PortKey} {device : Device} {isVirtual : Bool} {capacity : Nat}
    {zone : Zone} (hq : Alike p (create key device isVirtual capacity zone))
    (henabled : p.enabled = true) (hpersisted : p.persisted = true) (hwritable : p.writable = true)
    (hv : p.lastRead = some v)
    (hfin : v.IsFinite)
    (hread : ∀ e, p.transformRead = some e → Expr.Readable p.id e ∧ e.Confined p.id ∧ e.Unsigned)
    (hdefaults : Dict.get? defaults "transform_read" = none) :
    Revived p ((create key device isVirtual capacity zone).setUp g g' defaults p.toRecord)
      (p.domain.adapt v.stored) := by
  have hself : Alike p p := hq.trans hq.symm
  have hidle := (idle_create key device isVirtual capacity zone).setUp g g' defaults p.toRecord
  obtain ⟨q₀, hq₀⟩ : ∃ q₀, q₀ =
    ((create key device isVirtual capacity zone).loadAttrs g defaults).1 :=
    ⟨_, rfl⟩
  have halike₀ : Alike p q₀ := hq₀ ▸ hq.loadAttrs g defaults
  have hnone : q₀.transformRead = none := by
    rw [transformRead_eq_none_iff, hq₀, rawValue_loadAttrs_of_absent hq hdefaults]
    rfl
  obtain ⟨q₁, hq₁⟩ : ∃ q₁, q₁ = (q₀.loadAttrs g' p.toRecord).1 := ⟨_, rfl⟩
  have hswitch (name : String) (hname : name ∈ ["enabled", "persisted", "internal"])
      (hswitch : name ∈ switchNames) (hon : p.rawValue name = .bool true) :
      q₁.rawValue name = .bool true := by
    obtain ⟨d, hd⟩ := exists_switch (p := p) hname
    exact hq₁ ▸ rawValue_loadAttrs_switch halike₀ hswitch hd hon
  have hon : q₁.enabled = true :=
    Json.bool.inj (hswitch "enabled" (by decide) (by decide) (congrArg Json.bool henabled))
  have hkept : q₁.persisted = true :=
    Json.bool.inj (hswitch "persisted" (by decide) (by decide) (congrArg Json.bool hpersisted))
  have hstored : Node.storedValue? q₁ p.toRecord = some v.stored := by
    rw [Node.storedValue?, if_pos hkept, get?_toRecord_value hself hpersisted hv]
    exact Value.ofJson?_toJson hfin
  rw [setUp, ← hq₀, ← hq₁] at hidle ⊢
  exact revived_takeOver (hq₁ ▸ halike₀.loadAttrs g' p.toRecord) hwritable hon hstored
    (hq₁ ▸ adapt_loadAttrs halike₀) (hq₁ ▸ isReliable_loadAttrs halike₀)
    (hq₁ ▸ transformRead_loadAttrs halike₀ hnone hread) hidle

/-- As long as the port has only been looked after, it reads the value if the transform for reads
leaves that as it is, or its reads are made to fail. -/
theorem Revived.reads {q' : Port} (h : Revived p q w) (hkept : Upkeep q q')
    (hmemoryless : ∀ e, p.transformRead = some e → e.Memoryless) {now : Int}
    (hfixed : { p with zone := q.zone }.received w now = .ok w) :
    (q'.readValue now).1 = if p.device.isReliable then .ok w else .error readFailure := by
  have hdevice : q'.device = q.device := by
    have halike := h.alike
    have htouched := hkept.device
    generalize q'.device = d', q.device = d at halike htouched
    cases htouched with
    | same => rfl
    | scripted => exact absurd halike Device.Alike.not_scripted
  have hid : q'.id = p.id := (congrArg PortKey.id hkept.setup.key).trans h.id
  have hadapt : q'.domain.adapt = p.domain.adapt := by
    rw [← h.adapt, hkept.frame, hdevice]
    rfl
  have hzone : q'.zone = q.zone := by rw [hkept.frame]
  have hread := h.device
  rw [← hdevice] at hread
  rw [readValue_of_read hread]
  split
  · change q'.received w now = _
    rcases h.transform with hnone | ⟨e, e', he, he', hbare⟩
    · have hnone' : q'.transformRead = none := by
        have hreset := hkept.transform
        rw [hnone] at hreset
        exact Option.map_eq_none_iff.mp hreset
      unfold received Port.transform
      rw [hnone']
      have hfit := adapt_of_received (p := { p with zone := q.zone }) hfixed
      exact congrArg Except.ok ((congrFun hadapt w).trans hfit)
    · rw [← hfixed]
      refine received_congr (p := { p with zone := q.zone }) hadapt hid hzone (fun hnone => ?_)
        (fun e₁ he₁ => ?_) now
      · cases hnone.symm.trans he
      · obtain rfl : e = e₁ := Option.some.inj (he.symm.trans he₁)
        have hreset := hkept.transform
        rw [he'] at hreset
        obtain ⟨e₂, he₂, hsame⟩ := Option.map_eq_some_iff.mp hreset
        have hbare₂ : e₂.bare = e.bare := by
          rw [← Expr.bare_reset, hsame, Expr.bare_reset, hbare]
        exact ⟨e₂, he₂, (hmemoryless e he).eval_of_bare hbare₂⟩
  · rfl

end Port

end ControlNode
