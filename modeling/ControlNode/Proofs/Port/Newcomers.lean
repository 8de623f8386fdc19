import ControlNode.Node.Registry
import ControlNode.Proofs.Port.Restoring

/-!
# New ports

Before a port is registered it is set up from its defaults and its record, takes over a stored
value and fills its cache (`setUp`). Nothing waits in it then, and it shows the attributes that
it was set up with.
-/

namespace ControlNode.Port

variable {p q : Port} {name : String} {g : DepGraph} {value : Json} {v : Value} {r : Record}

/-! ### Nothing waits -/

theorem idle_create (key : PortKey) (device : Device) (isVirtual : Bool) (capacity : Nat)
    (zone : Zone) :
    (create key device isVirtual capacity zone).Idle := ⟨rfl, ⟨rfl, rfl⟩, rfl⟩

theorem Idle.of_queues (h : p.Idle) (hevals : q.evals = p.evals) (hwrites : q.writes = p.writes)
    (hsequence : q.sequence = p.sequence) : q.Idle :=
  ⟨hevals ▸ h.evals, hwrites ▸ h.writes, hsequence.trans h.sequence⟩

theorem Idle.setEnabled (h : p.Idle) (enabled : Bool) : (p.setEnabled enabled).port.Idle := by
  unfold Port.setEnabled
  split
  · exact h
  · dsimp only
    split
    · exact h.of_queues rfl rfl rfl
    · split
      · exact h.of_queues rfl rfl rfl
      · exact ⟨h.evals, h.writes, rfl⟩

theorem Idle.applyAttr (h : p.Idle) (g : DepGraph) (name : String) (value : Json) :
    (p.applyAttr g name value).port.Idle := by
  unfold Port.applyAttr
  split
  · exact h.of_queues rfl rfl rfl
  · split
    · exact h.setEnabled _
    · split
      · unfold Port.setExpression
        repeat' split
        all_goals exact h.of_queues rfl rfl rfl
      · split
        · rename_i q hq
          change q.Idle
          rw [setPlain_frame hq]
          exact h.of_queues rfl rfl rfl
        · exact h

theorem Idle.loadAttr (h : p.Idle) (g : DepGraph) (name : String) (value : Json) :
    (p.loadAttr g name value).1.Idle := by
  unfold Port.loadAttr
  split
  · exact h.of_queues rfl rfl rfl
  · split
    · exact h
    · split
      · exact h.applyAttr g name value
      · exact h

theorem Idle.loadAttrs (h : p.Idle) (g : DepGraph) (r : Record) : (p.loadAttrs g r).1.Idle :=
  loadAttrs_induction g r (fun _ name value hq => hq.loadAttr g name value)
    (fun _ hq => hq.of_queues rfl rfl rfl) h

/-! ### The cache -/

theorem getAttr_frame (p : Port) (name : String) :
    (p.getAttr name).2 = { p with attrCache := (p.getAttr name).2.attrCache } := by
  unfold getAttr
  split
  · rfl
  · split <;> rfl

theorem collectAttrs_frame (p : Port) (ds : List AttrDef) :
    (p.collectAttrs ds).2 = { p with attrCache := (p.collectAttrs ds).2.attrCache } := by
  induction ds generalizing p with
  | nil => rfl
  | cons d ds ih =>
    have hrest := ih (p.getAttr d.name).2
    rw [p.getAttr_frame d.name] at hrest
    simp only [collectAttrs]
    rw [p.getAttr_frame d.name]
    split <;> exact hrest

theorem attrsJson_frame (p : Port) :
    p.attrsJson.2 = { p with attrCache := p.attrsJson.2.attrCache } :=
  p.collectAttrs_frame p.attrDefs

/-- What is in the cache is what would be found. -/
def Faithful (p : Port) : Prop :=
  ∀ name v, Dict.get? p.attrCache name = some v → p.lookUp name = some v

namespace Faithful

theorem of_empty (h : p.attrCache = []) : Faithful p := by
  intro name v hv
  rw [h] at hv
  cases hv

theorem of_same (h : Faithful p) (hcache : q.attrCache = p.attrCache)
    (hlookUp : ∀ name, q.lookUp name = p.lookUp name) : Faithful q := by
  intro name v hv
  rw [hcache] at hv
  rw [hlookUp]
  exact h name v hv

theorem getAttr_fst (h : Faithful p) (name : String) : (p.getAttr name).1 = p.lookUp name := by
  unfold Port.getAttr
  split
  · rename_i v hv
    exact (h name v hv).symm
  · cases p.lookUp name <;> rfl

theorem getAttr (h : Faithful p) (name : String) : Faithful (p.getAttr name).2 := by
  unfold Port.getAttr
  split
  · exact h
  · split
    · rename_i v hv
      intro other w hw
      rw [Dict.get?_insert] at hw
      split at hw
      · rename_i hsame
        cases hw
        exact hsame ▸ hv
      · exact h other w hw
    · exact h

theorem collectAttrs (h : Faithful p) (ds : List AttrDef) : Faithful (p.collectAttrs ds).2 := by
  induction ds generalizing p with
  | nil => exact h
  | cons d ds ih =>
    have hrest := ih (h.getAttr d.name)
    simp only [Port.collectAttrs]
    split <;> exact hrest

theorem attrsJson (h : Faithful p) : Faithful p.attrsJson.2 := h.collectAttrs p.attrDefs

end Faithful

/-- Filling the cache changes nothing else. -/
theorem attrsJson_sameRecord (p : Port) : SameRecord p p.attrsJson.2 :=
  .of_frame (by rw [p.attrsJson_frame])

theorem Restorable.attrsJson (h : Restorable p) : Restorable p.attrsJson.2 := by
  have hsame := p.attrsJson_sameRecord
  rw [p.attrsJson_frame] at hsame ⊢
  exact h.of_same ⟨rfl, h.alike.device⟩ hsame.rawValue rfl rfl rfl rfl

/-! ### Stored values -/

theorem restore_frame (p : Port) (v : Value) :
    p.restore v =
    { p with device := (p.restore v).device, lastRead := (p.restore v).lastRead } := by
  unfold restore
  dsimp only
  split
  · split <;> rfl
  · rfl

theorem restore_sameAttrs (p : Port) (v : Value) : p.device.SameAttrs (p.restore v).device := by
  unfold restore
  dsimp only
  split
  · split <;> exact p.device.write_sameAttrs _
  · exact .refl _

theorem restore_rawValue (p : Port) (v : Value) (name : String) :
    (p.restore v).rawValue name = p.rawValue name := by
  have hwritten {d : Device} (h : p.device.SameAttrs d) (last : Option Value) :
      SameRecord { p with lastRead := last } { p with device := d, lastRead := last } :=
    ⟨rfl, h, rfl, rfl, rfl, fun _ => rfl⟩
  rw [restore_frame]
  exact (hwritten (p.restore_sameAttrs v) _).rawValue name

theorem Device.Alike.restore {device : Device} (h : device.Alike p.device) (v : Value) :
    device.Alike (p.restore v).device := by
  have hwrite (w : Value) : device.Alike (p.device.write w).2 := by
    generalize p.device = device' at h
    cases h with
    | memory htype hwritable =>
      simp only [Device.write]
      split <;> exact .memory htype hwritable
    | software htype => exact .software htype
  unfold Port.restore
  dsimp only
  split
  · split <;> exact hwrite _
  · exact h

theorem Alike.restore (h : Alike p q) (v : Value) : Alike p (q.restore v) := by
  have hdevice := Device.Alike.restore h.device v
  rw [restore_frame]
  exact ⟨h.id, hdevice⟩

theorem Idle.restore (h : p.Idle) (v : Value) : (p.restore v).Idle := by
  rw [restore_frame]
  exact h.of_queues rfl rfl rfl

theorem Restorable.restore (h : Restorable p) (v : Value) : Restorable (p.restore v) := by
  have hraw := p.restore_rawValue v
  have hq := h.alike.restore v
  rw [restore_frame] at hraw hq ⊢
  exact h.of_same hq hraw rfl rfl rfl rfl

def takeOver (p : Port) (r : Record) : Port :=
  match Node.storedValue? p r with
  | some v => p.restore v
  | none => p

theorem takeOver_of_some {v : Value} (h : Node.storedValue? p r = some v) :
    p.takeOver r = p.restore v := by
  rw [takeOver, h]

theorem takeOver_of_none (h : Node.storedValue? p r = none) : p.takeOver r = p := by
  rw [takeOver, h]

theorem takeOver_induction {motive : Port → Prop} (hp : motive p)
    (hrestore : ∀ v, motive (p.restore v)) : motive (p.takeOver r) := by
  unfold takeOver
  split
  · exact hrestore _
  · exact hp

theorem takeOver_rawValue (p : Port) (r : Record) (name : String) :
    (p.takeOver r).rawValue name = p.rawValue name :=
  takeOver_induction (motive := fun q => q.rawValue name = p.rawValue name) rfl
    fun v => p.restore_rawValue v name

theorem takeOver_attrCache (p : Port) (r : Record) : (p.takeOver r).attrCache = p.attrCache :=
  takeOver_induction (motive := fun q => q.attrCache = p.attrCache) rfl
    fun v => by rw [restore_frame]

/-! ### Setting up -/

/-- What becomes of a port that is set up from defaults and a record; `g` and `g'` are the graphs
of the node meanwhile. -/
def setUp (p : Port) (g g' : DepGraph) (defaults record : Record) : Port :=
  (((p.loadAttrs g defaults).1.loadAttrs g' record).1.takeOver record).attrsJson.2

section SetUp

variable (g g' : DepGraph) (defaults record : Record)

theorem setUp_rawValue (p : Port) (name : String) : (p.setUp g g' defaults record).rawValue name =
    ((p.loadAttrs g defaults).1.loadAttrs g' record).1.rawValue name := by
  rw [setUp, (attrsJson_sameRecord _).rawValue, takeOver_rawValue]

theorem Alike.setUp (h : Alike p q) : Alike p (q.setUp g g' defaults record) := by
  have hloaded := (h.loadAttrs g defaults).loadAttrs g' record
  have htaken : Alike p (((q.loadAttrs g defaults).1.loadAttrs g' record).1.takeOver record) :=
    takeOver_induction hloaded hloaded.restore
  rw [Port.setUp, attrsJson_frame]
  exact ⟨htaken.id, htaken.device⟩

theorem Idle.setUp (h : p.Idle) : (p.setUp g g' defaults record).Idle := by
  have hloaded := (h.loadAttrs g defaults).loadAttrs g' record
  have htaken : (((p.loadAttrs g defaults).1.loadAttrs g' record).1.takeOver record).Idle :=
    takeOver_induction hloaded hloaded.restore
  rw [Port.setUp, attrsJson_frame]
  exact htaken.of_queues rfl rfl rfl

theorem Restorable.device_setUp (h : Restorable p) :
    p.device.Alike (p.setUp g g' defaults record).device :=
  (h.alike.setUp g g' defaults record).device

theorem Restorable.setUp (h : Restorable p) : Restorable (p.setUp g g' defaults record) := by
  have hloaded := (h.loadAttrs g defaults).loadAttrs g' record
  exact (takeOver_induction (motive := Restorable) hloaded hloaded.restore).attrsJson

theorem faithful_setUp (p : Port) : Faithful (p.setUp g g' defaults record) := by
  refine Faithful.attrsJson (.of_empty ?_)
  rw [takeOver_attrCache]
  rfl

end SetUp

end ControlNode.Port
