import ControlNode.Proofs.Port.Definitions
import ControlNode.Proofs.Port.Newcomers
import ControlNode.Proofs.Port.Outcomes

/-!
# Ports of definitions

A virtual port is set up from its definition and configured after that (`Embodies`). The record of
the port has no field for a limit that is unset, so a port that is set up from the definition and
the record shows the limits that the first one shows, and where that shows none, what the
definition alone gives (`Embodies.getAttr_setUp`).
-/

namespace ControlNode.Port

variable {p q : Port} {name : String} {g g' : DepGraph} {value : Json} {r defaults : Record}
  {d : VirtualPortDef}

/-! ### What a port is made with -/

/-- The ports are of one origin and in one time zone, which nothing that is set changes. -/
structure SameMake (p q : Port) : Prop where
  isVirtual : q.isVirtual = p.isVirtual
  zone : q.zone = p.zone

namespace SameMake

theorem refl (p : Port) : SameMake p p := ⟨rfl, rfl⟩

theorem trans {k : Port} (h : SameMake p q) (h' : SameMake q k) : SameMake p k :=
  ⟨h'.isVirtual.trans h.isVirtual, h'.zone.trans h.zone⟩

theorem applyAttr (p : Port) (g : DepGraph) (name : String) (value : Json) :
    SameMake p (p.applyAttr g name value).port := by
  unfold Port.applyAttr
  split
  · exact ⟨rfl, rfl⟩
  · split
    · unfold Port.setEnabled
      split
      · exact .refl p
      · dsimp only
        split
        · exact ⟨rfl, rfl⟩
        · split <;> exact ⟨rfl, rfl⟩
    · split
      · unfold Port.setExpression
        repeat' split
        all_goals exact ⟨rfl, rfl⟩
      · split
        · rename_i q hq
          change SameMake p q
          rw [setPlain_frame hq]
          exact ⟨rfl, rfl⟩
        · exact .refl p

theorem loadAttrs (p : Port) (g : DepGraph) (r : Record) : SameMake p (p.loadAttrs g r).1 := by
  refine loadAttrs_induction (motive := SameMake p) g r ?_
    (fun _ hq => ⟨hq.isVirtual, hq.zone⟩) (.refl p)
  intro q name value hq
  unfold Port.loadAttr
  split
  · exact ⟨hq.isVirtual, hq.zone⟩
  · split
    · exact hq
    · split
      · exact hq.trans (applyAttr q g name value)
      · exact hq

theorem setUp (p : Port) (g g' : DepGraph) (defaults r : Record) :
    SameMake p (p.setUp g g' defaults r) := by
  have hloaded : SameMake p ((p.loadAttrs g defaults).1.loadAttrs g' r).1 :=
    (loadAttrs p g defaults).trans (loadAttrs _ g' r)
  have htaken : SameMake p (((p.loadAttrs g defaults).1.loadAttrs g' r).1.takeOver r) :=
    takeOver_induction (motive := SameMake p) hloaded fun v => by
      rw [restore_frame]
      exact ⟨hloaded.isVirtual, hloaded.zone⟩
  rw [Port.setUp, attrsJson_frame]
  exact ⟨htaken.isVirtual, htaken.zone⟩

end SameMake

/-! ### Limits -/

theorem def?_limit (hname : name ∈ limitNames) {a : AttrDef}
    (ha : StandardAttr.def? name = some a) :
    a.modifiable = true ∧ a.default = none := by
  simp only [limitNames, List.mem_cons, List.not_mem_nil, or_false] at hname
  rcases hname with rfl | rfl | rfl | rfl | rfl
  all_goals
    cases ha
    exact ⟨rfl, rfl⟩

theorem attrDef?_limit (hself : Alike p p) (hname : name ∈ limitNames) {a : AttrDef}
    (ha : p.attrDef? name = some a) : a.modifiable = true ∧ a.default = none := by
  rcases attrDef?_cases hself ha with hstandard | ⟨rfl, -⟩
  · exact def?_limit hname hstandard
  · exact absurd hname (by decide)

/-! ### Embodiments -/

/-- The port that a definition is set up on. -/
abbrev blank (d : VirtualPortDef) : Port := create ⟨d.id, 0⟩ d.device true 1

theorem alike_blank (key : PortKey) (hid : key.id = d.id) (capacity : Nat) (zone : Zone) :
    Alike (blank d) (create key d.device true capacity zone) := ⟨hid, .software rfl⟩

/-- A port that has been set up from a definition, as it has been configured. -/
structure Embodies (d : VirtualPortDef) (p : Port) : Prop where
  isVirtual : p.isVirtual = true
  alike : Alike (blank d) p
  restorable : Restorable p
  faithful : Faithful p

namespace Embodies

theorem setUp (key : PortKey) (hid : key.id = d.id) (capacity : Nat) (zone : Zone) (g g' : DepGraph)
    (defaults r : Record) :
    Embodies d ((create key d.device true capacity zone).setUp g g' defaults r) :=
  ⟨(SameMake.setUp ..).isVirtual, (alike_blank key hid capacity zone).setUp g g' defaults r,
    (restorable_create (.software rfl) key true capacity zone).setUp g g' defaults r,
    faithful_setUp g g' defaults r _⟩

theorem writable (h : Embodies d p) : p.writable = true := by
  have hdevice := h.alike.device
  unfold Port.writable
  generalize p.device = device at hdevice
  cases hdevice
  rfl

/-- A change that is accepted, with the cache filled anew. -/
theorem setAttr (h : Embodies d p) (hok : (p.setAttr g name value).result = .ok ()) :
    Embodies d (p.setAttr g name value).port.attrsJson.2 := by
  obtain ⟨a, -, -, -, -, heq⟩ := setAttr_accepted hok
  have halike := h.alike.applyAttr g name value
  have hset : Embodies d (p.setAttr g name value).port := by
    refine ⟨?_, ?_, h.restorable.setAttr hok, .of_empty (by rw [heq]; rfl)⟩
    · rw [heq]
      exact (SameMake.applyAttr p g name value).isVirtual.trans h.isVirtual
    · rw [heq]
      exact ⟨halike.id, halike.device⟩
  refine ⟨?_, ?_, hset.restorable.attrsJson, hset.faithful.attrsJson⟩
  · rw [attrsJson_frame]
    exact hset.isVirtual
  · rw [attrsJson_frame]
    exact ⟨hset.alike.id, hset.alike.device⟩

/-- The value of a limit after the definition and the record have been loaded. -/
theorem rawValue_setUp (h : Embodies d p) (hname : name ∈ limitNames) {a : AttrDef}
    (ha : p.attrDef? name = some a) (key : PortKey) (hid : key.id = d.id) (capacity : Nat)
    (zone : Zone) :
    ((create key d.device true capacity zone).setUp g g' d.storable.attrs p.toRecord).rawValue
        name =
      if (p.rawValue name).isNull then d.port.rawValue name else p.rawValue name := by
  obtain ⟨hmodifiable, -⟩ := attrDef?_limit h.restorable.alike hname ha
  have hloaded :
    Alike p ((create key d.device true capacity zone).loadAttrs g d.storable.attrs).1 :=
    h.alike.symm.trans ((alike_blank key hid capacity zone).loadAttrs g d.storable.attrs)
  rw [setUp_rawValue]
  cases hnull : (p.rawValue name).isNull with
  | true =>
    rw [if_pos rfl, rawValue_loadAttrs_of_absent hloaded
      (get?_toRecord_of_unset h.restorable.alike ha hmodifiable hnull)]
    exact VirtualPortDef.rawValue_loadAttrs_storable hname key capacity zone hid
  | false =>
    rw [if_neg (by simp)]
    have hsettled : Settled p name (p.rawValue name) := by
      refine (h.restorable.settled name a ha hmodifiable ?_).resolve_left fun heq => ?_
      · intro hexpression
        simp only [limitNames, expressionNames, List.mem_cons, List.not_mem_nil, or_false]
          at hname hexpression
        rcases hname with rfl | rfl | rfl | rfl | rfl <;> simp at hexpression
      · rw [heq] at hnull
        cases hnull
    exact rawValue_loadAttrs_of_settled hloaded
      (get?_toRecord h.restorable.alike ha hmodifiable hnull) fun q hq => hsettled q g' hq

theorem getAttr_setUp (h : Embodies d p) (hname : name ∈ limitNames) (key : PortKey)
    (hid : key.id = d.id) (capacity : Nat) (zone : Zone) :
    (((create key d.device true capacity zone).setUp g g' d.storable.attrs
      p.toRecord).getAttr name).1 =
      (p.getAttr name).1.or (d.port.getAttr name).1 := by
  have hq := Embodies.setUp key hid capacity zone g g' d.storable.attrs p.toRecord
  have hport : Faithful d.port := .of_empty rfl
  rw [hq.faithful.getAttr_fst, h.faithful.getAttr_fst, hport.getAttr_fst]
  have hportAlike : Alike (blank d) d.port :=
    (alike_blank ⟨d.id, 0⟩ rfl 1 .utc).loadAttrs [] d.attrs
  simp only [lookUp, hq.alike.attrDef?_eq, h.alike.attrDef?_eq, hportAlike.attrDef?_eq]
  cases ha : (blank d).attrDef? name with
  | none => rfl
  | some a =>
    have hp : p.attrDef? name = some a := (h.alike.attrDef?_eq name).trans ha
    obtain ⟨-, hdefault⟩ := attrDef?_limit h.restorable.alike hname hp
    dsimp only
    rw [h.rawValue_setUp hname hp key hid capacity zone, hdefault]
    cases hnull : (p.rawValue name).isNull with
    | true => simp
    | false => simp [hnull]

end Embodies

end ControlNode.Port
