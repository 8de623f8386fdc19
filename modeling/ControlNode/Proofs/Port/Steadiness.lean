import ControlNode.Proofs.Port.Newcomers

/-!
# What a port has between ticks

Workers, reads, callers and the storage leave a port its value, its switches and the account of
its samples and seconds (`Steady`). A change of attributes can turn it on or off and set switches,
but a port that is on before and after it has kept its value (`Turned`).
-/

namespace ControlNode

namespace Device

variable {d : Device}

/-- The seconds that the device has heard of, if it keeps count. -/
def beats? : Device → Option Nat
  | .scripted s => some s.beats
  | _ => none

@[simp] theorem beats?_beat (d : Device) : d.beat.beats? = d.beats?.map (· + 1) := by
  cases d <;> rfl

@[simp] theorem beats?_read (d : Device) : d.read.2.beats? = d.beats? := by cases d <;> rfl

@[simp] theorem beats?_write (d : Device) (v : Value) : (d.write v).2.beats? = d.beats? := by
  cases d with
  | memory m => simp only [write]; split <;> rfl
  | scripted s => simp only [write]; split <;> rfl
  | _ => rfl

@[simp] theorem beats?_enable (d : Device) : d.enable.2.beats? = d.beats? := by cases d <;> rfl

@[simp] theorem beats?_disable (d : Device) : d.disable.2.beats? = d.beats? := by cases d <;> rfl

@[simp] theorem beats?_setAttr (d : Device) (name : String) (value : Json) :
    (d.setAttr name value).2.beats? = d.beats? := by
  cases d with
  | memory m =>
    simp only [setAttr]
    split
    · split <;> rfl
    · rfl
  | scripted s => simp only [setAttr]; split <;> rfl
  | _ => rfl

end Device

namespace Port

open Relation

variable {p q r : Port}

/-! ### Steady ports -/

/-- A port with the value, the switches and the account of samples and seconds that it had. -/
structure Steady (p q : Port) : Prop where
  key : q.key = p.key
  enabled : q.enabled = p.enabled
  value : q.lastRead = p.lastRead
  isInternal : q.internal = p.internal
  interval : q.historyInterval = p.historyInterval
  last : q.historyLast = p.historyLast
  isPersisted : q.persisted = p.persisted
  domain : q.domain = p.domain
  beats : q.device.beats? = p.device.beats?

namespace Steady

theorem refl (p : Port) : Steady p p := ⟨rfl, rfl, rfl, rfl, rfl, rfl, rfl, rfl, rfl⟩

theorem trans (h : Steady p q) (h' : Steady q r) : Steady p r :=
  ⟨h'.key.trans h.key, h'.enabled.trans h.enabled, h'.value.trans h.value,
    h'.isInternal.trans h.isInternal, h'.interval.trans h.interval, h'.last.trans h.last,
    h'.isPersisted.trans h.isPersisted, h'.domain.trans h.domain, h'.beats.trans h.beats⟩

/-- A device that is of the same type and has heard of the same seconds may take the place of
the other one. -/
theorem withDevice (p : Port) {d : Device} (htype : d.type = p.device.type)
    (hbeats : d.beats? = p.device.beats?) : Steady p { p with device := d } := by
  refine ⟨rfl, rfl, rfl, rfl, rfl, rfl, rfl, ?_, hbeats⟩
  simp only [Port.domain, Port.type, htype]

end Steady

theorem submit_steady (p : Port) (v : Value) (t : Ticket) (now : Int) :
    Steady p (p.submit v t now).2 := by
  rw [submit_frame]
  exact ⟨rfl, rfl, rfl, rfl, rfl, rfl, rfl, rfl, rfl⟩

theorem enqueueWrite_steady (p : Port) (v : Value) (t : Ticket) :
    Steady p (p.enqueueWrite v t).2 := by
  unfold enqueueWrite
  split
  · exact .refl p
  · exact ⟨rfl, rfl, rfl, rfl, rfl, rfl, rfl, rfl, rfl⟩

theorem setSequence_steady (p : Port) (s : Option Sequence) : Steady p (p.setSequence s).2 := by
  unfold setSequence
  dsimp only
  repeat' split
  all_goals exact ⟨rfl, rfl, rfl, rfl, rfl, rfl, rfl, rfl, rfl⟩

theorem enqueueEval_steady (p : Port) (c : EvalContext) : Steady p (p.enqueueEval c).2 := by
  unfold enqueueEval
  repeat' split
  all_goals exact ⟨rfl, rfl, rfl, rfl, rfl, rfl, rfl, rfl, rfl⟩

theorem readValue_steady (p : Port) (now : Int) : Steady p (p.readValue now).2 := by
  have hread : Steady p { p with device := p.device.read.2 } :=
    .withDevice p p.device.read_touched.type_eq p.device.beats?_read
  unfold readValue
  dsimp only
  split
  · exact hread
  · exact hread.trans ⟨rfl, rfl, rfl, rfl, rfl, rfl, rfl, rfl, rfl⟩

theorem getAttr_steady (p : Port) (name : String) : Steady p (p.getAttr name).2 := by
  rw [getAttr_frame]
  exact ⟨rfl, rfl, rfl, rfl, rfl, rfl, rfl, rfl, rfl⟩

theorem attrsJson_steady (p : Port) : Steady p p.attrsJson.2 := by
  rw [attrsJson_frame]
  exact ⟨rfl, rfl, rfl, rfl, rfl, rfl, rfl, rfl, rfl⟩

theorem carryOut_steady (p : Port) : Steady p p.carryOut.2 := by
  unfold carryOut
  split
  · exact .refl p
  · rename_i r _
    have hwrite : Steady p { p with device := (p.device.write r.value).2 } :=
      .withDevice p (p.device.write_type r.value) (p.device.beats?_write r.value)
    exact hwrite.trans ⟨rfl, rfl, rfl, rfl, rfl, rfl, rfl, rfl, rfl⟩

theorem Work.steady (h : Work p q) : Steady p q := by
  cases h with
  | takeWrite h =>
    obtain ⟨_, _, rfl⟩ := Option.map_eq_some_iff.mp h
    exact ⟨rfl, rfl, rfl, rfl, rfl, rfl, rfl, rfl, rfl⟩
  | carryOut => exact carryOut_steady p
  | evaluate h t now =>
    obtain ⟨_, _, heq⟩ := Option.map_eq_some_iff.mp h
    cases heq
    rw [evaluate_frame]
    exact ⟨rfl, rfl, rfl, rfl, rfl, rfl, rfl, rfl, rfl⟩
  | endSequence => exact ⟨rfl, rfl, rfl, rfl, rfl, rfl, rfl, rfl, rfl⟩
  | stepSequence =>
    rw [submit_frame]
    exact ⟨rfl, rfl, rfl, rfl, rfl, rfl, rfl, rfl, rfl⟩

theorem steady_of_works (h : ReflTransGen Work p q) : Steady p q := by
  induction h with
  | refl => exact .refl p
  | tail _ hstep ih => exact ih.trans hstep.steady

/-! ### Changes of attributes -/

/-- A port that has been left as it was or turned on or off, as `on` says. -/
structure Turned (on : Bool) (p q : Port) : Prop where
  key : q.key = p.key
  value : q.enabled = p.enabled ∧ q.lastRead = p.lastRead ∨ p.enabled = !on ∧ q.enabled = on
  beats : q.device.beats? = p.device.beats?

namespace Turned

variable {on : Bool}

theorem of_same (hkey : q.key = p.key) (henabled : q.enabled = p.enabled)
    (hvalue : q.lastRead = p.lastRead) (hbeats : q.device.beats? = p.device.beats?) :
    Turned on p q := ⟨hkey, .inl ⟨henabled, hvalue⟩, hbeats⟩

theorem refl (p : Port) : Turned on p p := .of_same rfl rfl rfl rfl

theorem trans (h : Turned on p q) (h' : Turned on q r) : Turned on p r := by
  refine ⟨h'.key.trans h.key, ?_, h'.beats.trans h.beats⟩
  rcases h.value with ⟨henabled, hvalue⟩ | ⟨hbefore, hafter⟩
  · rw [← henabled, ← hvalue]
    exact h'.value
  · refine .inr ⟨hbefore, ?_⟩
    rcases h'.value with ⟨henabled, -⟩ | ⟨-, honce⟩
    · exact henabled.trans hafter
    · exact honce

theorem value_eq (h : Turned on p q) (hp : p.enabled = true) (hq : q.enabled = true) :
    q.lastRead = p.lastRead := by
  rcases h.value with ⟨-, hvalue⟩ | ⟨hoff, hon⟩
  · exact hvalue
  · rw [← hon, hq, hp] at hoff
    cases hoff

end Turned

theorem setEnabled_turned (p : Port) (on : Bool) : Turned on p (p.setEnabled on).port := by
  unfold setEnabled
  split
  · exact .refl p
  · rename_i hne
    have hoff : p.enabled = !on := by
      cases hp : p.enabled <;> cases on <;> simp_all
    cases on with
    | true =>
      dsimp only [if_true]
      split
      · exact .of_same rfl rfl rfl p.device.beats?_enable
      · exact ⟨rfl, .inr ⟨hoff, rfl⟩, p.device.beats?_enable⟩
    | false =>
      dsimp only
      split
      · exact .of_same rfl rfl rfl p.device.beats?_disable
      · exact ⟨rfl, .inr ⟨hoff, rfl⟩, p.device.beats?_disable⟩

theorem setExpression_turned (on : Bool) (p : Port) (g : DepGraph) (value : Json) :
    Turned on p (p.setExpression g value).port := by
  unfold setExpression
  repeat' split
  all_goals exact .of_same rfl rfl rfl rfl

theorem applyAttr_turned {on : Bool} (p : Port) (g : DepGraph) {name : String} {value : Json}
    (hon : name = "enabled" → switchOf value = on) :
    Turned on p (p.applyAttr g name value).port := by
  unfold applyAttr
  split
  · exact .of_same rfl rfl rfl (p.device.beats?_setAttr name value)
  · split
    · rename_i hname
      rw [hon hname]
      exact p.setEnabled_turned on
    · split
      · exact setExpression_turned on p g value
      · split
        · rename_i q hq
          have hframe : Turned on p q := by
            rw [setPlain_frame hq]
            exact .of_same rfl rfl rfl rfl
          exact hframe
        · exact .refl p

theorem setAttr_turned (p : Port) (g : DepGraph) (name : String) (value : Json) :
    Turned (switchOf value) p (p.setAttr g name value).port := by
  have happly : Turned (switchOf value) p (p.applyAttr g name value).port :=
    p.applyAttr_turned g fun _ => rfl
  unfold setAttr
  repeat' split
  · exact .refl p
  · exact .refl p
  · exact .refl p
  · dsimp only
    split
    · exact happly
    · exact happly.trans (.of_same rfl rfl rfl rfl)

theorem loadAttrs_fields {motive : Port → Prop} (g : DepGraph) (record : Record)
    (hfield : ∀ q, ∀ name ∈ Dict.keys record, motive q →
      motive (q.loadAttr g name ((Dict.get? record name).getD .null)).1)
    (hcache : ∀ q, motive q → motive q.dropAttrCache) (hp : motive p) :
    motive (p.loadAttrs g record).1 := by
  rw [loadAttrs_eq]
  refine hcache _ ?_
  have hnames : ∀ name ∈ StandardAttr.loadOrder (Dict.keys record), name ∈ Dict.keys record :=
    fun name => mem_loadOrder.mp
  generalize StandardAttr.loadOrder (Dict.keys record) = names at hnames
  induction names generalizing p with
  | nil => exact hp
  | cons name names ih =>
    exact ih (hfield p name (hnames name List.mem_cons_self) hp)
      fun other hother => hnames other (List.mem_cons_of_mem _ hother)

theorem loadAttrs_turned (p : Port) (g : DepGraph) (record : Record) :
    Turned (switchOf ((Dict.get? record "enabled").getD .null)) p (p.loadAttrs g record).1 := by
  refine loadAttrs_fields g record (fun q name _ hq => ?_)
    (fun _ hq => hq.trans (.of_same rfl rfl rfl rfl)) (.refl p)
  unfold loadAttr
  split
  · exact hq.trans (.of_same rfl rfl rfl rfl)
  · split
    · exact hq
    · split
      · exact hq.trans (q.applyAttr_turned g fun hname => by rw [hname])
      · exact hq

/-! ### The time of the last sample -/

theorem applyAttr_last (p : Port) (g : DepGraph) (name : String) (value : Json) :
    (p.applyAttr g name value).port.historyLast = p.historyLast := by
  unfold applyAttr setEnabled setExpression
  dsimp only
  repeat' split
  all_goals first
    | rfl
    | rename_i hq
      rw [setPlain_frame hq]
      rfl

theorem setAttr_last (p : Port) (g : DepGraph) (name : String) (value : Json) :
    (p.setAttr g name value).port.historyLast = p.historyLast := by
  have happly := p.applyAttr_last g name value
  unfold setAttr
  repeat' split
  · rfl
  · rfl
  · rfl
  · dsimp only
    split <;> exact happly

/-- Only a record that has the time of a last sample sets it. -/
theorem loadAttrs_last (p : Port) (g : DepGraph) {record : Record}
    (h : "history_last_timestamp" ∉ Dict.keys record) :
    (p.loadAttrs g record).1.historyLast = p.historyLast := by
  refine loadAttrs_fields (motive := fun q => q.historyLast = p.historyLast) g record
    (fun q name hname hq => ?_) (fun _ hq => hq) rfl
  have hother : name ≠ "history_last_timestamp" := fun hlast => h (hlast ▸ hname)
  unfold loadAttr
  rw [if_neg hother]
  split
  · exact hq
  · split
    · exact (q.applyAttr_last g name _).trans hq
    · exact hq

end Port

end ControlNode
