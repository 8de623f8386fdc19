import ControlNode.Port.Attributes
import ControlNode.Proofs.Port.Moves
import ControlNode.Proofs.Port.Outcomes

/-!
# Attributes, values and writes

A change of attributes leaves the writes of a port alone. It can enable the port, or disable it,
and then the port has no value.
-/

namespace ControlNode.Port

variable {p q r : Port}

/-- A port that shows no new value. One that still has its value has not been disabled. -/
structure Lasting (p q : Port) : Prop where
  key : q.key = p.key
  value : q.lastRead = p.lastRead ∧ (q.enabled = p.enabled ∨ q.enabled = true) ∨
    q.lastRead = none

namespace Lasting

theorem refl (p : Port) : Lasting p p := ⟨rfl, .inl ⟨rfl, .inl rfl⟩⟩

theorem of_eq (hkey : q.key = p.key) (henabled : q.enabled = p.enabled)
    (hvalue : q.lastRead = p.lastRead) : Lasting p q :=
  ⟨hkey, .inl ⟨hvalue, .inl henabled⟩⟩

theorem trans (h : Lasting p q) (h' : Lasting q r) : Lasting p r := by
  refine ⟨h'.key.trans h.key, ?_⟩
  rcases h'.value with ⟨hr, hon⟩ | hr
  · rcases h.value with ⟨hq, hon'⟩ | hq
    · refine .inl ⟨hr.trans hq, ?_⟩
      rcases hon with hsame | htrue
      · rwa [hsame]
      · exact .inr htrue
    · exact .inr (hr.trans hq)
  · exact .inr hr

theorem value_eq (h : Lasting p q) {w : Value} (hw : q.lastRead = some w) :
    p.lastRead = some w ∧ (p.enabled = true → q.enabled = true) := by
  rcases h.value with ⟨hvalue, hon⟩ | hnone
  · refine ⟨hvalue.symm.trans hw, fun henabled => ?_⟩
    rcases hon with hsame | htrue
    · rw [hsame, henabled]
    · exact htrue
  · rw [hw] at hnone
    cases hnone

end Lasting

/-- A port after changes of attributes. -/
structure Switched (p q : Port) : Prop extends Lasting p q where
  writes : q.writes = p.writes

namespace Switched

theorem refl (p : Port) : Switched p p := ⟨.refl p, rfl⟩

theorem of_eq (hkey : q.key = p.key) (hwrites : q.writes = p.writes)
    (henabled : q.enabled = p.enabled) (hvalue : q.lastRead = p.lastRead) : Switched p q :=
  ⟨.of_eq hkey henabled hvalue, hwrites⟩

theorem trans (h : Switched p q) (h' : Switched q r) : Switched p r :=
  ⟨h.toLasting.trans h'.toLasting, h'.writes.trans h.writes⟩

end Switched

theorem setEnabled_switched (p : Port) (enabled : Bool) :
    Switched p (p.setEnabled enabled).port := by
  unfold setEnabled
  split
  · exact .refl p
  · dsimp only
    split
    · exact .of_eq rfl rfl rfl rfl
    · split
      · exact ⟨⟨rfl, .inl ⟨rfl, .inr rfl⟩⟩, rfl⟩
      · exact ⟨⟨rfl, .inr rfl⟩, rfl⟩

theorem setExpression_switched (p : Port) (g : DepGraph) (value : Json) :
    Switched p (p.setExpression g value).port := by
  unfold setExpression
  repeat' split
  all_goals exact .of_eq rfl rfl rfl rfl

theorem setPlain_switched {name : String} {value : Json} (h : p.setPlain name value = .ok q) :
    Switched p q := by
  rw [setPlain_frame h]
  exact .of_eq rfl rfl rfl rfl

theorem applyAttr_switched (p : Port) (g : DepGraph) (name : String) (value : Json) :
    Switched p (p.applyAttr g name value).port := by
  unfold applyAttr
  split
  · exact .of_eq rfl rfl rfl rfl
  · split
    · exact setEnabled_switched ..
    · split
      · exact setExpression_switched ..
      · split
        · rename_i q hq
          exact setPlain_switched hq
        · exact .refl p

theorem setAttr_switched (p : Port) (g : DepGraph) (name : String) (value : Json) :
    Switched p (p.setAttr g name value).port := by
  unfold setAttr
  split
  · exact .refl p
  · split
    · exact .refl p
    · split
      · exact .refl p
      · dsimp only
        split
        · exact applyAttr_switched ..
        · exact (applyAttr_switched ..).trans (.of_eq rfl rfl rfl rfl)

theorem loadAttr_switched (p : Port) (g : DepGraph) (name : String) (value : Json) :
    Switched p (p.loadAttr g name value).1 := by
  unfold loadAttr
  split
  · exact .of_eq rfl rfl rfl rfl
  · split
    · exact .refl p
    · split
      · exact applyAttr_switched ..
      · exact .refl p

/-- What each field of a record keeps, the record keeps. -/
theorem loadAttrs_induction {motive : Port → Prop} (g : DepGraph) (record : Record)
    (hfield : ∀ q name value, motive q → motive (q.loadAttr g name value).1)
    (hcache : ∀ q, motive q → motive q.dropAttrCache) (hp : motive p) :
    motive (p.loadAttrs g record).1 := by
  suffices hfold : ∀ (names : List String) (s : Port × Bool), motive s.1 →
      motive (names.foldl (fun s name =>
        ((s.1.loadAttr g name ((Dict.get? record name).getD .null)).1,
          s.2 || (s.1.loadAttr g name ((Dict.get? record name).getD .null)).2)) s).1 from
    hcache _ (hfold (StandardAttr.loadOrder (Dict.keys record)) (p, false) hp)
  intro names
  induction names with
  | nil => exact fun s hs => hs
  | cons name names ih =>
    intro s hs
    exact ih _ (hfield s.1 name ((Dict.get? record name).getD .null) hs)

theorem loadAttrs_switched (p : Port) (g : DepGraph) (record : Record) :
    Switched p (p.loadAttrs g record).1 :=
  loadAttrs_induction g record
    (fun q name value hq => hq.trans (loadAttr_switched q g name value))
    (fun _ hq => hq.trans (.of_eq rfl rfl rfl rfl)) (.refl p)

end ControlNode.Port
