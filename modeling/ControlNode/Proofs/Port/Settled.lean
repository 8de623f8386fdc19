import ControlNode.Proofs.Decimal.Whole
import ControlNode.Proofs.Port.Marking
import Mathlib

/-!
# Settled values of attributes

An attribute keeps an accepted value in a form of its own: numbers as doubles, times as integers,
lists of choices as they were read. What is kept is accepted again and kept as it is
(`settled_applyAttr`), and a change of one attribute leaves the others alone
(`rawValue_applyAttr_of_ne`). Expressions are not looked at here.
-/

namespace ControlNode

theorem NumberLimits.within_of_check {l : NumberLimits} {x : Float} (h : l.check x = none) :
    Binary64.isFinite x = true ∧ (l.integer = true → Binary64.isIntegral x = true) ∧
      (∀ low, l.min = some low → ¬x < low) ∧ ∀ high, l.max = some high → ¬high < x := by
  have hnone {o : Option Float} {P : Float → Bool} (ho : o.filter P = none) (a : Float)
      (ha : o = some a) : P a = false := by
    subst ha
    simpa using ho
  unfold check at h
  split at h
  · cases h
  · rename_i hfin
    split at h
    · cases h
    · rename_i hwhole
      split at h
      · cases h
      · rename_i hmin
        split at h
        · cases h
        · rename_i hmax
          refine ⟨by simpa using hfin, fun hinteger => by simpa [hinteger] using hwhole, ?_, ?_⟩
          · exact fun low hlow => of_decide_eq_false (hnone hmin low hlow)
          · exact fun high hhigh => of_decide_eq_false (hnone hmax high hhigh)
namespace AttrDef

variable {d : AttrDef} {value : Json}

theorem fault_eq_none_iff : d.fault value = none ↔
    value.isNull = true ∧ d.optional = true ∨
      value.isNull = false ∧ d.typeFault value = none ∧ isChoice d.choices value = true := by
  unfold fault
  cases value.isNull <;> cases d.optional <;> cases d.typeFault value <;> simp

theorem bool_of_fault (h : d.fault value = none) (htype : d.type = .boolean)
    (hneeded : d.optional = false) : ∃ b, value = .bool b := by
  rcases fault_eq_none_iff.mp h with ⟨-, hoptional⟩ | ⟨-, hfault, -⟩
  · rw [hneeded] at hoptional
    cases hoptional
  · cases value <;> simp_all [typeFault, Json.asBool?]

theorem number_of_fault (h : d.fault value = none) (htype : d.type = .number) :
    value = .null ∨ ∃ x, value.asFloat? = some x ∧ d.limits.check x = none := by
  rcases fault_eq_none_iff.mp h with ⟨hnull, -⟩ | ⟨-, hfault, -⟩
  · cases value <;> simp_all [Json.isNull]
  · cases hx : value.asFloat? with
    | none => simp [typeFault, htype, hx] at hfault
    | some x => exact .inr ⟨x, rfl, by simpa [typeFault, htype, hx] using hfault⟩

theorem string_of_fault (h : d.fault value = none) (htype : d.type = .string) :
    value = .null ∨ ∃ s, value = .str s := by
  rcases fault_eq_none_iff.mp h with ⟨hnull, -⟩ | ⟨-, hfault, -⟩
  · cases value <;> simp_all [Json.isNull]
  · cases value <;> simp_all [typeFault, Json.asStr?]

theorem fault_bool (htype : d.type = .boolean) (hchoices : d.choices = none) (b : Bool) :
    d.fault (.bool b) = none := by
  rw [fault_eq_none_iff, typeFault, htype, hchoices]
  exact .inr ⟨rfl, rfl, rfl⟩

theorem fault_int (htype : d.type = .number) (hchoices : d.choices = none) {n : Int}
    (h : d.limits.check (Binary64.ofInt n) = none) : d.fault (.int n) = none := by
  rw [fault_eq_none_iff, typeFault, htype, hchoices]
  exact .inr ⟨rfl, h, rfl⟩

theorem fault_float (htype : d.type = .number) (hchoices : d.choices = none) {x : Float}
    (h : d.limits.check x = none) : d.fault (.float x) = none := by
  rw [fault_eq_none_iff, typeFault, htype, hchoices]
  exact .inr ⟨rfl, h, rfl⟩

end AttrDef

namespace StandardAttr

/-- The definition of a standard attribute. -/
def def? (name : String) : Option AttrDef := all.find? fun d => d.name == name

theorem def?_name : ∀ d ∈ all, def? d.name = some d := by
  intro d hd
  simp only [all, List.mem_cons, List.not_mem_nil, or_false] at hd
  rcases hd with rfl | rfl | rfl | rfl | rfl | rfl | rfl | rfl | rfl | rfl | rfl | rfl | rfl | rfl
    | rfl | rfl | rfl | rfl | rfl | rfl
  all_goals rfl

end StandardAttr

namespace Device

theorem setAttr_type (d : Device) (name : String) (value : Json) :
    (d.setAttr name value).2.type = d.type ∧ (d.setAttr name value).2.writable = d.writable := by
  cases d with
  | memory m =>
    simp only [setAttr]
    repeat' split
    all_goals exact ⟨rfl, rfl⟩
  | software s => exact ⟨rfl, rfl⟩
  | scripted s =>
    simp only [setAttr]
    split <;> exact ⟨rfl, rfl⟩
  | unit => exact ⟨rfl, rfl⟩

theorem getAttr_setAttr_of_ne (d : Device) {name other : String} (value : Json)
    (hne : other ≠ name) : (d.setAttr name value).2.getAttr other = d.getAttr other := by
  cases d with
  | memory m =>
    simp only [setAttr]
    split
    · rename_i hname
      have hother : other ≠ "fail_reads" := by rwa [← hname]
      split
      · simp only [getAttr, if_neg hother]
      · rfl
    · rfl
  | software s => rfl
  | scripted s =>
    simp only [setAttr]
    split
    · rfl
    · simp only [getAttr, Dict.get?_insert, if_neg hne.symm]
  | unit => rfl

end Device

/-! ### Ports that are alike -/

namespace Device

/-- Memory devices, or software ones, of the same type and direction. -/
inductive Alike : Device → Device → Prop
  | memory {m m' : MemoryDevice} (htype : m'.type = m.type) (hwritable : m'.writable = m.writable) :
      Alike (.memory m) (.memory m')
  | software {s s' : SoftwareDevice} (htype : s'.type = s.type) : Alike (.software s) (.software s')

namespace Alike

variable {d d' d'' : Device}

theorem trans (h : d.Alike d') (h' : d'.Alike d'') : d.Alike d'' := by
  cases h with
  | memory htype hwritable =>
    cases h' with
    | memory htype' hwritable' => exact .memory (htype'.trans htype) (hwritable'.trans hwritable)
  | software htype =>
    cases h' with
    | software htype' => exact .software (htype'.trans htype)

theorem symm (h : d.Alike d') : d'.Alike d := by
  cases h with
  | memory htype hwritable => exact .memory htype.symm hwritable.symm
  | software htype => exact .software htype.symm

theorem type_eq (h : d.Alike d') : d'.type = d.type := by
  cases h with
  | memory htype _ => exact htype
  | software htype => exact htype

theorem writable_eq (h : d.Alike d') : d'.writable = d.writable := by
  cases h with
  | memory _ hwritable => exact hwritable
  | software _ => rfl

theorem attrDefs_eq (h : d.Alike d') : d'.attrDefs = d.attrDefs := by
  cases h <;> rfl

/-- Such devices do not mind being enabled or disabled. -/
theorem switch (h : d.Alike d') (enabled : Bool) :
    (if enabled then d'.enable else d'.disable) = (.ok (), d') := by
  cases h <;> cases enabled <;> rfl

theorem setAttr (h : d.Alike d') (name : String) (value : Json) :
    d.Alike (d'.setAttr name value).2 := by
  cases h with
  | memory htype hwritable =>
    simp only [Device.setAttr]
    repeat' split
    all_goals exact .memory htype hwritable
  | software htype => exact .software htype

theorem not_scripted {s : ScriptedDevice} : ¬d.Alike (.scripted s) := nofun

end Alike

end Device

namespace Port

variable {p q r : Port} {name other : String} {g : DepGraph} {value : Json}

/-- Ports of one id in front of devices that are alike. -/
structure Alike (p q : Port) : Prop where
  id : q.id = p.id
  device : p.device.Alike q.device

namespace Alike

theorem trans (h : Alike p q) (h' : Alike q r) : Alike p r :=
  ⟨h'.id.trans h.id, h.device.trans h'.device⟩

theorem symm (h : Alike p q) : Alike q p := ⟨h.id.symm, h.device.symm⟩

theorem attrDef?_eq (h : Alike p q) (name : String) : q.attrDef? name = p.attrDef? name := by
  unfold attrDef? attrDefs type writable
  rw [h.device.type_eq, h.device.writable_eq, h.device.attrDefs_eq]

end Alike

theorem attrDef?_cases {d : AttrDef} (hself : Alike p p)
    (h : p.attrDef? name = some d) : StandardAttr.def? name = some d ∨
      name = "fail_reads" ∧ d = Device.failReadsDef ∧ ∃ m, p.device = .memory m := by
  have hname : d.name = name := by simpa using List.find?_some h
  have hdevice := hself.device
  rcases List.mem_append.mp (List.mem_of_find?_eq_some h) with hmem | hmem
  · left
    rw [← hname]
    exact StandardAttr.def?_name d (List.mem_of_mem_filter hmem)
  · right
    generalize p.device = device at hmem hdevice
    cases hdevice with
    | @memory m =>
      obtain rfl := List.mem_singleton.mp hmem
      exact ⟨hname.symm, rfl, m, rfl⟩
    | software => cases hmem

/-! ### The other attributes -/

theorem standardValue?_setPlain (h : p.setPlain name value = .ok q) (hne : other ≠ name) :
    q.standardValue? other = p.standardValue? other := by
  unfold setPlain at h
  split at h
  case h_12 =>
    repeat' split at h
    all_goals
      cases h
    all_goals
      unfold standardValue?
      split <;> first | rfl | contradiction
  case h_13 | h_14 =>
    obtain ⟨e, -, rfl⟩ := exists_of_map_eq_ok h
    unfold standardValue?
    split <;> first | rfl | contradiction
  case h_15 => cases h
  all_goals
    cases h
    unfold standardValue?
    split <;> first | rfl | contradiction

theorem standardValue?_device {d : Device} (htype : d.type = p.device.type)
    (hwritable : d.writable = p.device.writable) (other : String) :
    { p with device := d }.standardValue? other = p.standardValue? other := by
  unfold standardValue? type writable
  simp only [htype, hwritable]
  rfl

theorem rawValue_setEnabled_of_ne (enabled : Bool) (hne : other ≠ "enabled") :
    (p.setEnabled enabled).port.rawValue other = p.rawValue other := by
  have hdevice : (if enabled then p.device.enable else p.device.disable).2.uncounted =
      p.device.uncounted := by
    split
    · exact p.device.uncounted_enable
    · exact p.device.uncounted_disable
  unfold setEnabled
  split
  · rfl
  · dsimp only
    revert hdevice
    generalize (if enabled then p.device.enable else p.device.disable) = out
    intro hdevice
    have hsame := Device.sameAttrs_of_uncounted hdevice
    have hraw (r : Port) (hd : r.device = out.2) (hs : ∀ other, other ≠ "enabled" →
       r.standardValue? other = { p with device := out.2}.standardValue? other) :
        r.rawValue other = p.rawValue other := by
      rw [rawValue, rawValue, hs other hne, standardValue?_device hsame.type hsame.writable, hd,
        hsame.getAttr]
    split
    · exact hraw _ rfl fun _ _ => rfl
    · split
      · refine hraw _ rfl fun other hne => ?_
        unfold standardValue?
        split <;> first | rfl | contradiction
      · refine hraw _ rfl fun other hne => ?_
        unfold standardValue?
        split <;> first | rfl | contradiction

theorem rawValue_setExpression_of_ne (hne : other ≠ "expression") :
    (p.setExpression g value).port.rawValue other = p.rawValue other := by
  have hraw (e : Option Expr) (deps : DepSet) :
     { p with expression := e, expressionDeps := deps}.rawValue other = p.rawValue other := by
    have hs : { p with expression := e, expressionDeps := deps }.standardValue? other =
        p.standardValue? other := by
      unfold standardValue?
      split <;> first | rfl | contradiction
    rw [rawValue, rawValue, hs]
  unfold setExpression
  split
  · exact hraw _ _
  · split
    · rfl
    · split
      · rfl
      · exact hraw _ _

theorem rawValue_applyAttr_of_ne (hne : other ≠ name) :
    (p.applyAttr g name value).port.rawValue other = p.rawValue other := by
  unfold applyAttr
  split
  · obtain ⟨htype, hwritable⟩ := p.device.setAttr_type name value
    dsimp only
    rw [rawValue, rawValue, standardValue?_device htype hwritable,
      p.device.getAttr_setAttr_of_ne value hne]
  · split
    · rename_i henabled
      rw [henabled] at hne
      exact rawValue_setEnabled_of_ne _ hne
    · split
      · rename_i hexpression
        rw [hexpression] at hne
        exact rawValue_setExpression_of_ne hne
      · split
        · rename_i q hq
          have hdevice : q.device = p.device := by rw [setPlain_frame hq]
          change q.rawValue other = p.rawValue other
          rw [rawValue, rawValue, standardValue?_setPlain hq hne, hdevice]
        · rfl

/-! ### Ports stay alike -/

theorem Alike.setEnabled (h : Alike p q) (enabled : Bool) :
    Alike p (q.setEnabled enabled).port := by
  unfold Port.setEnabled
  split
  · exact h
  · rw [h.device.switch]
    dsimp only
    split <;> exact ⟨h.id, h.device⟩

theorem Alike.setExpression (h : Alike p q) (g : DepGraph) (value : Json) :
    Alike p (q.setExpression g value).port := by
  unfold Port.setExpression
  repeat' split
  all_goals exact ⟨h.id, h.device⟩

theorem Alike.applyAttr (h : Alike p q) (g : DepGraph) (name : String) (value : Json) :
    Alike p (q.applyAttr g name value).port := by
  unfold Port.applyAttr
  split
  · exact ⟨h.id, h.device.setAttr name value⟩
  · split
    · exact h.setEnabled _
    · split
      · exact h.setExpression g value
      · split
        · rename_i r hr
          change Alike p r
          rw [setPlain_frame hr]
          exact ⟨h.id, h.device⟩
        · exact h

theorem Alike.loadAttr (h : Alike p q) (g : DepGraph) (name : String) (value : Json) :
    Alike p (q.loadAttr g name value).1 := by
  unfold Port.loadAttr
  split
  · exact ⟨h.id, h.device⟩
  · split
    · exact h
    · split
      · exact h.applyAttr g name value
      · exact h

theorem rawValue_loadAttr_of_ne (hne : other ≠ name) :
    (p.loadAttr g name value).1.rawValue other = p.rawValue other := by
  unfold loadAttr
  split
  · rfl
  · split
    · rfl
    · split
      · exact rawValue_applyAttr_of_ne hne
      · rfl

/-! ### Settled values -/

/-- Each port like `p` takes the value for the attribute and has it then. -/
def Settled (p : Port) (name : String) (w : Json) : Prop :=
  ∀ q g, Alike p q → (q.loadAttr g name w).1.rawValue name = w

theorem settled_of_fault {d : AttrDef} {w : Json} (hd : p.attrDef? name = some d)
    (hmodifiable : d.modifiable = true) (hname : name ≠ "history_last_timestamp")
    (hfault : d.fault w = none)
    (h : ∀ q g, Alike p q → (q.applyAttr g name w).port.rawValue name = w) : Settled p name w := by
  intro q g hq
  rw [loadAttr, if_neg hname, hq.attrDef?_eq, hd]
  simp only [hmodifiable, hfault, Option.isNone_none, Bool.and_true, if_true]
  exact h q g hq

section Kinds

variable {d : AttrDef}

theorem settled_bool (hd : p.attrDef? name = some d) (hmodifiable : d.modifiable = true)
    (hname : name ≠ "history_last_timestamp") (htype : d.type = .boolean)
    (hchoices : d.choices = none)
    (h : ∀ q g b, Alike p q → (q.applyAttr g name (.bool b)).port.rawValue name = .bool b)
    (b : Bool) : Settled p name (.bool b) :=
  settled_of_fault hd hmodifiable hname (AttrDef.fault_bool htype hchoices b)
    fun q g hq => h q g b hq

theorem settled_switch (hd : p.attrDef? name = some d) (hmodifiable : d.modifiable = true)
    (hname : name ≠ "history_last_timestamp") (htype : d.type = .boolean)
    (hchoices : d.choices = none) (hneeded : d.optional = false)
    (h : ∀ q g b, Alike p q → (q.applyAttr g name (.bool b)).port.rawValue name = .bool b)
    (hq : Alike p q) (hfault : d.fault value = none) :
    Settled p name ((q.applyAttr g name value).port.rawValue name) := by
  obtain ⟨b, rfl⟩ := AttrDef.bool_of_fault hfault htype hneeded
  rw [h q g b hq]
  exact settled_bool hd hmodifiable hname htype hchoices h b

theorem settled_text (hd : p.attrDef? name = some d) (hmodifiable : d.modifiable = true)
    (hname : name ≠ "history_last_timestamp") (htype : d.type = .string)
    (h : ∀ (q : Port) (g : DepGraph) (value : Json),
      (q.applyAttr g name value).port.rawValue name = Json.ofOption .str value.asStr?)
    (hfault : d.fault value = none) :
    (q.applyAttr g name value).port.rawValue name = .null ∨
      Settled p name ((q.applyAttr g name value).port.rawValue name) := by
  rw [h q g value]
  rcases AttrDef.string_of_fault hfault htype with rfl | ⟨s, rfl⟩
  · exact .inl rfl
  · exact .inr (settled_of_fault hd hmodifiable hname hfault fun r g _ => h r g (.str s))

theorem settled_number (hd : p.attrDef? name = some d) (hmodifiable : d.modifiable = true)
    (hname : name ≠ "history_last_timestamp") (htype : d.type = .number)
    (hchoices : d.choices = none)
    (h : ∀ (q : Port) (g : DepGraph) (value : Json),
      (q.applyAttr g name value).port.rawValue name = Json.ofOption .ofFloat value.asFloat?)
    (hfault : d.fault value = none) :
    (q.applyAttr g name value).port.rawValue name = .null ∨
      Settled p name ((q.applyAttr g name value).port.rawValue name) := by
  rw [h q g value]
  rcases AttrDef.number_of_fault hfault htype with rfl | ⟨x, hx, hcheck⟩
  · exact .inl rfl
  · right
    have hfinite := (NumberLimits.within_of_check hcheck).1
    have hvalue : Json.ofOption .ofFloat value.asFloat? = .float x := by
      rw [hx, Json.ofOption, Json.ofFloat, if_pos hfinite]
    rw [hvalue]
    refine settled_of_fault hd hmodifiable hname (AttrDef.fault_float htype hchoices hcheck) ?_
    intro r g _
    rw [h r g, Json.asFloat?, Json.ofOption, Json.ofFloat, if_pos hfinite]

/-- An integer that is accepted is kept if it comes back from the double next to it. -/
theorem settled_int (hd : p.attrDef? name = some d) (hmodifiable : d.modifiable = true)
    (hname : name ≠ "history_last_timestamp") (htype : d.type = .number)
    (hchoices : d.choices = none)
    (h : ∀ (q : Port) (g : DepGraph) (value : Json),
      (q.applyAttr g name value).port.rawValue name = .int (integerOf value)) {n : Int}
    (haccepted : d.limits.check (Binary64.ofInt n) = none)
    (hback : Binary64.toInt64 (Binary64.ofInt n) = n) : Settled p name (.int n) := by
  refine settled_of_fault hd hmodifiable hname (AttrDef.fault_int htype hchoices haccepted) ?_
  intro q g _
  rw [h q g, integerOf, Json.asFloat?, Option.map_some, Option.getD_some, hback]

theorem settled_whole (hd : p.attrDef? name = some d) (hmodifiable : d.modifiable = true)
    (hname : name ≠ "history_last_timestamp") (htype : d.type = .number)
    (hchoices : d.choices = none) (hneeded : d.optional = false)
    (h : ∀ (q : Port) (g : DepGraph) (value : Json),
      (q.applyAttr g name value).port.rawValue name = .int (integerOf value))
    (hwhole : ∀ x, d.limits.check x = none →
      d.limits.check (Binary64.ofInt (Binary64.toInt64 x)) = none ∧
        Binary64.toInt64 (Binary64.ofInt (Binary64.toInt64 x)) = Binary64.toInt64 x)
    (hfault : d.fault value = none) :
    Settled p name ((q.applyAttr g name value).port.rawValue name) := by
  rcases AttrDef.number_of_fault hfault htype with rfl | ⟨x, hx, hcheck⟩
  · rw [AttrDef.fault, hneeded] at hfault
    cases hfault
  · obtain ⟨haccepted, hback⟩ := hwhole x hcheck
    have hvalue : integerOf value = Binary64.toInt64 x := by
      rw [integerOf, hx, Option.map_some, Option.getD_some]
    rw [h q g value, hvalue]
    exact settled_int hd hmodifiable hname htype hchoices h haccepted hback

/-! ### Whole numbers -/

theorem check_unsigned {l : NumberLimits} {x : Float} (hzero : l.check 0 = none)
    (h : l.check x = none) : l.check (Binary64.unsigned x) = none := by
  unfold Binary64.unsigned
  split
  · exact hzero
  · exact h

/-- A whole number within 64 bits is accepted again as an integer. -/
theorem whole_of_check {l : NumberLimits} {x : Float} (hinteger : l.integer = true)
    (hzero : l.check 0 = none) (h : l.check x = none)
    (hrange : Binary64.minInt64 < Binary64.toInt64 x ∧ Binary64.toInt64 x < Binary64.maxInt64) :
    l.check (Binary64.ofInt (Binary64.toInt64 x)) = none ∧
      Binary64.toInt64 (Binary64.ofInt (Binary64.toInt64 x)) = Binary64.toInt64 x := by
  rw [Binary64.ofInt_toInt64 ((NumberLimits.within_of_check h).2.1 hinteger) hrange]
  exact ⟨check_unsigned hzero h, Binary64.toInt64_unsigned x⟩

theorem interval_of_check {x : Float}
    (h : NumberLimits.check { min := some (-1), max := some 2147483647, integer := true }
      x = none) :
    NumberLimits.check { min := some (-1), max := some 2147483647, integer := true }
        (Binary64.ofInt (Binary64.toInt64 x)) = none ∧
      Binary64.toInt64 (Binary64.ofInt (Binary64.toInt64 x)) = Binary64.toInt64 x := by
  obtain ⟨-, hwhole, hlow, hhigh⟩ := NumberLimits.within_of_check h
  have hbelow := Binary64.toInt64_mono (by decide +kernel) (hwhole rfl) (hlow _ rfl)
  have habove := Binary64.toInt64_mono (hwhole rfl) (by decide +kernel) (hhigh _ rfl)
  have hfirst : Binary64.toInt64 (-1) = -1 := by decide +kernel
  have hlast : Binary64.toInt64 2147483647 = 2147483647 := by decide +kernel
  refine whole_of_check rfl (by decide +kernel) h ⟨?_, ?_⟩
  · rw [hfirst] at hbelow
    exact lt_of_lt_of_le (by decide) hbelow
  · rw [hlast] at habove
    exact lt_of_le_of_lt habove (by decide)

/-- A time beyond 64 bits is kept as the greatest one that fits. -/
theorem retention_of_check {x : Float}
    (h : NumberLimits.check { min := some 0, integer := true } x = none) :
    NumberLimits.check { min := some 0, integer := true }
        (Binary64.ofInt (Binary64.toInt64 x)) = none ∧
      Binary64.toInt64 (Binary64.ofInt (Binary64.toInt64 x)) = Binary64.toInt64 x := by
  obtain ⟨-, hwhole, hlow, -⟩ := NumberLimits.within_of_check h
  have hbelow := Binary64.toInt64_mono (by decide +kernel) (hwhole rfl) (hlow _ rfl)
  have hfirst : Binary64.toInt64 0 = 0 := by decide +kernel
  rw [hfirst] at hbelow
  obtain ⟨n, hn, -⟩ := Binary64.exists_value (hwhole rfl)
  have hmost : Binary64.toInt64 x ≤ Binary64.maxInt64 := by
    rw [hn]
    unfold Binary64.clampInt64 Binary64.minInt64 Binary64.maxInt64
    omega
  rcases hmost.lt_or_eq with hless | htop
  · exact whole_of_check rfl (by decide +kernel) h ⟨lt_of_lt_of_le (by decide) hbelow, hless⟩
  · rw [htop]
    decide +kernel

end Kinds

/-! ### All attributes -/

theorem applyAttr_plain (hstandard : StandardAttr.isStandard name = true)
    (henabled : name ≠ "enabled") (hexpression : name ≠ "expression")
    (h : q.setPlain name value = .ok r) : (q.applyAttr g name value).port = r := by
  rw [applyAttr, hstandard, if_neg henabled, if_neg hexpression, h]
  rfl

theorem rawValue_applyAttr_plain {d : AttrDef} (hmem : d ∈ StandardAttr.all)
    (hother : d.name ≠ "enabled" ∧ d.name ≠ "expression") (h : q.setPlain d.name value = .ok r) :
    (q.applyAttr g d.name value).port.rawValue d.name = r.rawValue d.name := by
  have hstandard : StandardAttr.isStandard d.name = true :=
    List.any_eq_true.mpr ⟨d, hmem, beq_self_eq_true d.name⟩
  rw [applyAttr_plain hstandard hother.1 hother.2 h]

def expressionNames : List String := ["expression", "transform_read", "transform_write"]

theorem Alike.enabled (hq : Alike p q) (g : DepGraph) (b : Bool) :
    (q.applyAttr g "enabled" (.bool b)).port.rawValue "enabled" = .bool b := by
  have hdone : (q.setEnabled b).port.enabled = b := by
    unfold Port.setEnabled
    split
    · rename_i hsame
      exact beq_iff_eq.mp hsame
    · rw [hq.device.switch]
      cases b <;> rfl
  exact congrArg Json.bool hdone

theorem Alike.failReads (hq : Alike p q) {m : MemoryDevice} (hm : p.device = .memory m)
    (g : DepGraph) (b : Bool) :
    (q.applyAttr g "fail_reads" (.bool b)).port.rawValue "fail_reads" = .bool b := by
  have hforeign : (!StandardAttr.isStandard "fail_reads") = true := by decide
  have hdevice := hq.device
  rw [hm] at hdevice
  rw [Port.applyAttr, if_pos hforeign]
  dsimp only [rawValue, standardValue?]
  generalize q.device = device at hdevice
  cases hdevice with
  | memory => rfl

theorem listOfJson?_listToJson (cs : List Choice) :
    Choice.listOfJson? (Choice.listToJson cs) = some cs := by
  have hitem (c : Choice) : Choice.ofJson? c.toJson = some c := by
    obtain ⟨value, name⟩ := c
    cases name with
    | none => rfl
    | some name => rfl
  have hitems : (cs.map Choice.toJson).mapM Choice.ofJson? = some cs := by
    induction cs with
    | nil => rfl
    | cons c cs ih => simp [hitem, ih]
  exact hitems

theorem settled_choices {d : AttrDef} (hd : p.attrDef? "choices" = some d)
    (hmodifiable : d.modifiable = true) (htype : d.type = .list) (hchoices : d.choices = none) :
    (q.applyAttr g "choices" value).port.rawValue "choices" = .null ∨
      (q.applyAttr g "choices" value).port.rawValue "choices" = q.rawValue "choices" ∨
      Settled p "choices" ((q.applyAttr g "choices" value).port.rawValue "choices") := by
  have hlist (q : Port) (g : DepGraph) (cs : List Choice) {value : Json}
      (hvalue : value.isNull = false) (hcs : Choice.listOfJson? value = some cs) :
      (q.applyAttr g "choices" value).port.rawValue "choices" = Choice.listToJson cs := by
    have hset : q.setPlain "choices" value = .ok { q with choices := some cs } := by
      simp only [setPlain, hvalue, hcs, Bool.false_eq_true, if_false]
    exact congrArg (fun r : Port => r.rawValue "choices")
      (applyAttr_plain (by decide) (by decide) (by decide) hset)
  cases hnull : value.isNull with
  | true =>
    have hset : q.setPlain "choices" value = .ok { q with choices := none } := by
      simp only [setPlain, hnull, if_true]
    exact .inl (congrArg (fun r : Port => r.rawValue "choices")
      (applyAttr_plain (by decide) (by decide) (by decide) hset))
  | false =>
    cases hcs : Choice.listOfJson? value with
    | none =>
      have hset : q.setPlain "choices" value = .error (.invalid "choices" .malformedChoices) := by
        simp only [setPlain, hnull, hcs, Bool.false_eq_true, if_false]
      have hkept : (q.applyAttr g "choices" value).port = q := by
        have hstandard : StandardAttr.isStandard "choices" = true := by decide
        have hother : "choices" ≠ "enabled" ∧ "choices" ≠ "expression" := by decide
        rw [applyAttr, hstandard, if_neg hother.1, if_neg hother.2, hset]
        rfl
      exact .inr (.inl (congrArg (fun r : Port => r.rawValue "choices") hkept))
    | some cs =>
      rw [hlist q g cs hnull hcs]
      refine .inr (.inr (settled_of_fault hd hmodifiable (by decide) ?_ fun r g _ =>
        hlist r g cs rfl (listOfJson?_listToJson cs)))
      rw [AttrDef.fault_eq_none_iff, AttrDef.typeFault, htype, hchoices]
      exact .inr ⟨rfl, rfl, rfl⟩

/-- A change to an accepted value is refused, or leaves a value that is settled, or none. -/
theorem settled_applyAttr {d : AttrDef} (hd : p.attrDef? name = some d)
    (hmodifiable : d.modifiable = true) (hname : name ∉ expressionNames) (hq : Alike p q)
    (hfault : d.fault value = none) :
    (q.applyAttr g name value).port.rawValue name = .null ∨
      (q.applyAttr g name value).port.rawValue name = q.rawValue name ∨
      Settled p name ((q.applyAttr g name value).port.rawValue name) := by
  rcases attrDef?_cases (hq.trans hq.symm) hd with hstandard | ⟨rfl, rfl, m, hm⟩
  · have hkey : d.name = name := by simpa using List.find?_some hstandard
    subst hkey
    have hmem := List.mem_of_find?_eq_some hstandard
    have hplain {q r : Port} {g : DepGraph} {value : Json}
        (hother : d.name ≠ "enabled" ∧ d.name ≠ "expression")
        (h : q.setPlain d.name value = .ok r) :
        (q.applyAttr g d.name value).port.rawValue d.name = r.rawValue d.name :=
      rawValue_applyAttr_plain hmem hother h
    simp only [StandardAttr.all, List.mem_cons, List.not_mem_nil, or_false] at hmem
    rcases hmem with rfl | rfl | rfl | rfl | rfl | rfl | rfl | rfl | rfl | rfl | rfl | rfl | rfl
      | rfl | rfl | rfl | rfl | rfl | rfl | rfl
    -- the identifier, the type, and whether the port is writable or virtual never change
    · cases hmodifiable
    · cases hmodifiable
    · exact (settled_text hd rfl (by decide) rfl
        (fun q g value => hplain (by decide) rfl) hfault).imp_right .inr
    · exact (settled_text hd rfl (by decide) rfl
        (fun q g value => hplain (by decide) rfl) hfault).imp_right .inr
    · cases hmodifiable
    · exact .inr (.inr (settled_switch hd rfl (by decide) rfl rfl rfl
        (fun q g b hq => hq.enabled g b) hq hfault))
    · exact .inr (.inr (settled_switch hd rfl (by decide) rfl rfl rfl
        (fun q g b _ => hplain (by decide) rfl) hq hfault))
    · exact .inr (.inr (settled_switch hd rfl (by decide) rfl rfl rfl
        (fun q g b _ => hplain (by decide) rfl) hq hfault))
    · cases hmodifiable
    · exact (settled_text hd rfl (by decide) rfl
        (fun q g value => hplain (by decide) rfl) hfault).imp_right .inr
    · exact absurd (by decide) hname
    · exact absurd (by decide) hname
    · exact absurd (by decide) hname
    · exact .inr (.inr (settled_whole hd rfl (by decide) rfl rfl rfl
        (fun q g value => hplain (by decide) rfl) (fun x => interval_of_check) hfault))
    · exact .inr (.inr (settled_whole hd rfl (by decide) rfl rfl rfl
        (fun q g value => hplain (by decide) rfl) (fun x => retention_of_check) hfault))
    · exact (settled_number hd rfl (by decide) rfl rfl
        (fun q g value => hplain (by decide) rfl) hfault).imp_right .inr
    · exact (settled_number hd rfl (by decide) rfl rfl
        (fun q g value => hplain (by decide) rfl) hfault).imp_right .inr
    · exact .inr (.inr (settled_switch hd rfl (by decide) rfl rfl rfl
        (fun q g b _ => hplain (by decide) rfl) hq hfault))
    · exact (settled_number hd rfl (by decide) rfl rfl
        (fun q g value => hplain (by decide) rfl) hfault).imp_right .inr
    · exact settled_choices hd rfl rfl rfl
  · exact .inr (.inr (settled_switch hd rfl (by decide) rfl rfl rfl
      (fun q g b hq => hq.failReads hm g b) hq hfault))

/-- The attributes of a new port have settled values, or none. -/
theorem settled_create {key : PortKey} {device : Device} {isVirtual : Bool} {capacity : Nat}
    {zone : Zone} {d : AttrDef} (hself : device.Alike device)
    (hd : (create key device isVirtual capacity zone).attrDef? name = some d)
    (hmodifiable : d.modifiable = true) :
    (create key device isVirtual capacity zone).rawValue name = .null ∨
      Settled (create key device isVirtual capacity zone) name
        ((create key device isVirtual capacity zone).rawValue name) := by
  have hp : Alike (create key device isVirtual capacity zone)
    (create key device isVirtual capacity zone) := ⟨rfl, hself⟩
  have hback : Binary64.toInt64 (Binary64.ofInt 0) = 0 := by decide +kernel
  have hinterval : NumberLimits.check { min := some (-1), max := some 2147483647, integer := true }
      (Binary64.ofInt 0) = none := by decide +kernel
  have hretention : NumberLimits.check { min := some 0, integer := true } (Binary64.ofInt 0) =
      none := by decide +kernel
  rcases attrDef?_cases hp hd with hstandard | ⟨rfl, rfl, m, hm⟩
  · have hkey : d.name = name := by simpa using List.find?_some hstandard
    subst hkey
    have hmem := List.mem_of_find?_eq_some hstandard
    have hplain {q r : Port} {g : DepGraph} {value : Json}
        (hother : d.name ≠ "enabled" ∧ d.name ≠ "expression")
        (h : q.setPlain d.name value = .ok r) :
        (q.applyAttr g d.name value).port.rawValue d.name = r.rawValue d.name :=
      rawValue_applyAttr_plain hmem hother h
    simp only [StandardAttr.all, List.mem_cons, List.not_mem_nil, or_false] at hmem
    rcases hmem with rfl | rfl | rfl | rfl | rfl | rfl | rfl | rfl | rfl | rfl | rfl | rfl | rfl
      | rfl | rfl | rfl | rfl | rfl | rfl | rfl
    · cases hmodifiable
    · cases hmodifiable
    · exact .inl rfl
    · exact .inl rfl
    · cases hmodifiable
    · exact .inr (settled_bool hd rfl (by decide) rfl rfl (fun q g b hq => hq.enabled g b) true)
    · exact .inr (settled_bool hd rfl (by decide) rfl rfl
        (fun q g b _ => hplain (by decide) rfl) false)
    · exact .inr (settled_bool hd rfl (by decide) rfl rfl
        (fun q g b _ => hplain (by decide) rfl) false)
    · cases hmodifiable
    · exact .inl rfl
    · exact .inl rfl
    · exact .inl rfl
    · exact .inl rfl
    · exact .inr (settled_int hd rfl (by decide) rfl rfl
        (fun q g value => hplain (by decide) rfl) hinterval hback)
    · exact .inr (settled_int hd rfl (by decide) rfl rfl
        (fun q g value => hplain (by decide) rfl) hretention hback)
    · exact .inl rfl
    · exact .inl rfl
    · exact .inr (settled_bool hd rfl (by decide) rfl rfl
        (fun q g b _ => hplain (by decide) rfl) _)
    · exact .inl rfl
    · exact .inl rfl
  · obtain rfl : device = .memory m := hm
    exact .inr (settled_bool hd rfl (by decide) rfl rfl
      (fun q g b hq => hq.failReads rfl g b) m.failReads)

end Port

end ControlNode
