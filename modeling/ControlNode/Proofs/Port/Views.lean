import ControlNode.Proofs.Port.Marking

/-!
# What users see of a port

While its workers go on, a port shows its users the same attributes and the same value
(`Work.sameView`).
-/

namespace ControlNode.Port

/-- Two ports that show the same attributes and the same value. -/
structure SameView (p q : Port) : Prop where
  record : SameRecord p q
  lastRead : q.lastRead = p.lastRead
  cache : q.attrCache = p.attrCache

namespace SameView

variable {p q r : Port}

theorem refl (p : Port) : SameView p p := ⟨.refl p, rfl, rfl⟩

theorem trans (h : SameView p q) (h' : SameView q r) : SameView p r :=
  ⟨h.record.trans h'.record, h'.lastRead.trans h.lastRead, h'.cache.trans h.cache⟩

theorem key (h : SameView p q) : q.key = p.key := by rw [h.record.frame]

theorem getAttr (h : SameView p q) (name : String) :
    (q.getAttr name).1 = (p.getAttr name).1 := by
  unfold Port.getAttr
  rw [h.cache, h.record.lookUp]
  split
  · rfl
  · split <;> rfl

end SameView

theorem Work.sameView {p q : Port} (h : Work p q) : SameView p q :=
  ⟨h.sameRecord, h.lastRead, by rw [h.frame]⟩

theorem sameView_of_works {p q : Port} (h : Relation.ReflTransGen Work p q) : SameView p q := by
  induction h with
  | refl => exact .refl p
  | tail _ hstep ih => exact ih.trans hstep.sameView

theorem eq_of_works_of_idle {p q : Port} (h : Relation.ReflTransGen Work p q) (hp : p.Idle) :
    q = p := by
  induction h with
  | refl => rfl
  | tail _ hstep ih =>
    subst ih
    exact hstep.eq_of_idle hp

end ControlNode.Port
