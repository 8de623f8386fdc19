import ControlNode.Proofs.Expr.Cycles
import ControlNode.Proofs.Expr.WellFormed
import ControlNode.Proofs.Port.Switching

/-!
# Setting up ports

Whatever is done to the attributes of a port, its expression is one that was read for it and
closes no loop in the graph it was checked against (`Fits`).
-/

namespace ControlNode

namespace DepGraph

variable {g g' : DepGraph}

theorem refers_congr (h : ∀ p, g'.get? p = g.get? p) : g'.Refers = g.Refers := by
  funext p q
  simp only [Refers, h]

theorem isLoop_congr (h : ∀ p, g'.get? p = g.get? p) {origin : String} {deps : DepSet}
    {ps : List String} (hloop : g'.IsLoop origin deps ps) : g.IsLoop origin deps ps := by
  obtain ⟨hne, hfirst, hchain, havoids⟩ := hloop
  rw [refers_congr h] at hchain
  exact ⟨hne, hfirst, hchain, havoids⟩

end DepGraph

namespace Port

variable {g g' : DepGraph} {p q : Port}

/-- A port that can stand in a graph of references. -/
structure Fits (g : DepGraph) (p : Port) : Prop where
  running : p.Running
  read : ∀ e, p.expression = some e → Expr.WellFormed p.id e ∧ p.expressionDeps = e.deps
  noLoop : ∀ deps, p.deps? = some deps → ¬∃ ps, g.IsLoop p.id deps ps

theorem fits_create (g : DepGraph) (key : PortKey) (device : Device) (isVirtual : Bool)
    (capacity : Nat) (zone : Zone) : (create key device isVirtual capacity zone).Fits g := by
  refine ⟨running_create .., ?_, ?_⟩
  · intro e he
    cases he
  · intro deps hdeps
    cases hdeps

theorem Fits.congr (h : p.Fits g) (hg : ∀ id, g'.get? id = g.get? id) : p.Fits g' := by
  refine ⟨h.running, h.read, ?_⟩
  rintro deps hdeps ⟨ps, hloop⟩
  exact h.noLoop deps hdeps ⟨ps, DepGraph.isLoop_congr hg hloop⟩

/-- An expression stays as it was read, whatever its calls remember. -/
theorem Fits.continues (h : p.Fits g) (hpq : Continues p q) : q.Fits g := by
  have hid : q.id = p.id := congrArg PortKey.id hpq.setup.key
  refine ⟨hpq.running h.running, ?_, ?_⟩
  · intro e' he'
    have hreset := hpq.setup.expression
    rw [he'] at hreset
    obtain ⟨e, he, hsame⟩ := Option.map_eq_some_iff.mp hreset.symm
    obtain ⟨hwf, hdeps⟩ := h.read e he
    have hmentions : e'.mentions = e.mentions := by
      rw [← Expr.mentions_reset e', ← hsame, Expr.mentions_reset]
    constructor
    · rw [hid, ← Expr.wellFormed_reset_iff, ← hsame, Expr.wellFormed_reset_iff]
      exact hwf
    · rw [hpq.setup.deps, hdeps, Expr.deps, Expr.deps, hmentions]
  · intro deps hdeps
    rw [hpq.setup.deps?_eq] at hdeps
    rw [hid]
    exact h.noLoop deps hdeps

/-! ### Changes of attributes -/

/-- A port whose queues and expression are those of another one. -/
structure SameCore (p q : Port) : Prop where
  key : q.key = p.key
  expression : q.expression = p.expression
  deps : q.expressionDeps = p.expressionDeps
  writes : q.writes = p.writes
  evals : q.evals = p.evals
  evalPending : q.evalPending = p.evalPending

theorem Fits.of_core (h : p.Fits g) (hpq : SameCore p q) : q.Fits g := by
  obtain ⟨hkey, hexpr, hdeps, hwrites, hevals, hpending⟩ := hpq
  have hid : q.id = p.id := congrArg PortKey.id hkey
  refine ⟨h.running.of_evals hevals hpending (by rw [hwrites]), ?_, ?_⟩
  · intro e he
    rw [hid, hdeps]
    exact h.read e (hexpr ▸ he)
  · intro deps hd
    rw [hid]
    apply h.noLoop
    simpa only [deps?, hexpr, hdeps] using hd

theorem setPlain_core {name : String} {value : Json} (h : p.setPlain name value = .ok q) :
    SameCore p q := by
  rw [setPlain_frame h]
  exact ⟨rfl, rfl, rfl, rfl, rfl, rfl⟩

theorem setEnabled_core (p : Port) (enabled : Bool) : SameCore p (p.setEnabled enabled).port := by
  unfold setEnabled
  split
  · exact ⟨rfl, rfl, rfl, rfl, rfl, rfl⟩
  · dsimp only
    split
    · exact ⟨rfl, rfl, rfl, rfl, rfl, rfl⟩
    · split <;> exact ⟨rfl, rfl, rfl, rfl, rfl, rfl⟩

theorem setExpression_fits (h : p.Fits g) (value : Json) :
    (p.setExpression g value).port.Fits g ∧ (p.setExpression g value).port.key = p.key := by
  unfold setExpression
  split
  · refine ⟨⟨h.running.of_evals rfl rfl rfl, ?_, ?_⟩, rfl⟩
    · intro e he
      cases he
    · intro deps hd
      cases hd
  · split
    · exact ⟨h, rfl⟩
    · rename_i e hparse
      split
      · exact ⟨h, rfl⟩
      · rename_i hloop
        refine ⟨⟨h.running.of_evals rfl rfl rfl, ?_, ?_⟩, rfl⟩
        · intro e' he'
          cases he'
          exact ⟨Expr.wellFormed_of_parse hparse, rfl⟩
        · intro deps hd
          cases hd
          exact (DepGraph.findLoop_eq_none_iff g p.id e.deps).mp hloop

theorem applyAttr_fits (h : p.Fits g) (name : String) (value : Json) :
    (p.applyAttr g name value).port.Fits g ∧ (p.applyAttr g name value).port.key = p.key := by
  have hcore {q : Port} (hq : SameCore p q) : q.Fits g ∧ q.key = p.key :=
    ⟨h.of_core hq, hq.key⟩
  unfold applyAttr
  split
  · exact hcore ⟨rfl, rfl, rfl, rfl, rfl, rfl⟩
  · split
    · exact hcore (setEnabled_core ..)
    · split
      · exact setExpression_fits h value
      · split
        · rename_i q hq
          exact hcore (setPlain_core hq)
        · exact ⟨h, rfl⟩

theorem setAttr_fits (h : p.Fits g) (name : String) (value : Json) :
    (p.setAttr g name value).port.Fits g ∧ (p.setAttr g name value).port.key = p.key := by
  unfold setAttr
  split
  · exact ⟨h, rfl⟩
  · split
    · exact ⟨h, rfl⟩
    · split
      · exact ⟨h, rfl⟩
      · obtain ⟨hfits, hkey⟩ := applyAttr_fits h name value
        dsimp only
        split
        · exact ⟨hfits, hkey⟩
        · exact ⟨hfits.of_core ⟨rfl, rfl, rfl, rfl, rfl, rfl⟩, hkey⟩

theorem loadAttr_fits (h : p.Fits g) (name : String) (value : Json) :
    (p.loadAttr g name value).1.Fits g ∧ (p.loadAttr g name value).1.key = p.key := by
  unfold loadAttr
  split
  · exact ⟨h.of_core ⟨rfl, rfl, rfl, rfl, rfl, rfl⟩, rfl⟩
  · split
    · exact ⟨h, rfl⟩
    · split
      · exact applyAttr_fits h name value
      · exact ⟨h, rfl⟩

theorem loadAttrs_fits (h : p.Fits g) (r : Record) :
    (p.loadAttrs g r).1.Fits g ∧ (p.loadAttrs g r).1.key = p.key := by
  refine loadAttrs_induction (motive := fun q => q.Fits g ∧ q.key = p.key) g r ?_ ?_ ⟨h, rfl⟩
  · intro q name value hq
    obtain ⟨hfits, hkey⟩ := loadAttr_fits hq.1 name value
    exact ⟨hfits, hkey.trans hq.2⟩
  · intro q hq
    exact ⟨hq.1.of_core ⟨rfl, rfl, rfl, rfl, rfl, rfl⟩, hq.2⟩

/-- A stored value that is written to the device changes nothing about the setup. -/
theorem restore_continues (p : Port) (v : Value) : Continues p (p.restore v) := by
  have htype := p.device.write_type (p.domain.adapt v)
  have hwritable := p.device.write_writable (p.domain.adapt v)
  have hwritten (last : Option Value) : Continues p
      { p with device := (p.device.write (p.domain.adapt v)).2, lastRead := last } :=
    ⟨⟨rfl, rfl, rfl, rfl, rfl, rfl, rfl, htype, hwritable⟩, fun h => h.of_evals rfl rfl rfl⟩
  unfold restore
  dsimp only
  split
  · split
    · exact hwritten _
    · exact hwritten _
  · exact ⟨⟨rfl, rfl, rfl, rfl, rfl, rfl, rfl, rfl, rfl⟩, fun h => h.of_evals rfl rfl rfl⟩

end Port

end ControlNode
