import ControlNode.Device.Registry
import ControlNode.Proofs.Port.Restoring

/-!
# Definitions of software ports

A definition is stored as a record and read back but for bounds that are not finite
(`ofRecord?_toRecord`), which is all the same to a new port (`rawValue_loadAttrs_storable`).
-/

namespace ControlNode

namespace VirtualPortDef

variable {d : VirtualPortDef} {name : String}

/-! ### Fields -/

def field (d : VirtualPortDef) (name : String) : Option Json :=
  if name = "min" then d.limits.min.map .ofFloat
  else if name = "max" then d.limits.max.map .ofFloat
  else if name = "step" then d.limits.step.map .ofFloat
  else if name = "integer" then some (.bool d.limits.integer)
  else if name = "choices" then d.choices.map Choice.listToJson
  else none

/-- A field that may be missing. -/
def optional (name : String) (value : Option Json) : List (String × Json) :=
  value.toList.map fun j => (name, j)

theorem mem_optional {key : String} {value : Option Json} {w : Json} :
    (name, w) ∈ optional key value ↔ name = key ∧ value = some w := by
  cases value <;> simp [optional, eq_comm]

theorem attrs_eq (d : VirtualPortDef) : d.attrs = Dict.ofList (
    optional "min" (d.limits.min.map .ofFloat) ++ optional "max" (d.limits.max.map .ofFloat) ++
      optional "step" (d.limits.step.map .ofFloat) ++
      optional "integer" (some (.bool d.limits.integer)) ++
      optional "choices" (d.choices.map Choice.listToJson)) := by
  unfold attrs
  cases d.limits.min <;> cases d.limits.max <;> cases d.limits.step <;> cases d.choices <;> rfl

theorem get?_attrs (d : VirtualPortDef) (name : String) :
    Dict.get? d.attrs name = d.field name := by
  obtain ⟨pairs, hpairs, hmem⟩ : ∃ pairs, d.attrs = Dict.ofList pairs ∧
      ∀ e, e ∈ pairs ↔ d.field e.1 = some e.2 := by
    refine ⟨_, d.attrs_eq, fun ⟨name, w⟩ => ?_⟩
    simp only [List.mem_append, mem_optional, field]
    split_ifs <;> simp_all
  rw [hpairs]
  cases hfield : d.field name with
  | none =>
    refine Dict.get?_ofList_eq_none fun e he hname => ?_
    rw [hmem, hname, hfield] at he
    cases he
  | some w =>
    refine Dict.get?_ofList_of_mem ((hmem (name, w)).mpr hfield) fun e he hname => ?_
    rw [hmem, hname, hfield] at he
    exact (Option.some.inj he).symm

theorem get?_toRecord (d : VirtualPortDef) (name : String) : Dict.get? d.toRecord name =
    if name = "id" then some (.str d.id) else if name = "type" then some (.str d.type.text)
    else d.field name := by
  rw [toRecord, Dict.get?_insert, Dict.get?_insert, get?_attrs]
  simp only [eq_comm]

/-! ### Reading back -/

/-- The definition without the bounds that cannot be stored. -/
def storable (d : VirtualPortDef) : VirtualPortDef :=
  { d with limits :=
    { d.limits with
      min := d.limits.min.filter Binary64.isFinite
      max := d.limits.max.filter Binary64.isFinite
      step := d.limits.step.filter Binary64.isFinite } }

theorem numberOfJson?_ofFloat (o : Option Float) :
    numberOfJson? (o.map .ofFloat) = some (o.filter Binary64.isFinite) := by
  cases o with
  | none => rfl
  | some x =>
    cases hx : Binary64.isFinite x <;>
      simp [Json.ofFloat, hx, numberOfJson?, Json.asFloat?, Option.filter]

theorem get?_id_of_ofRecord? {r : Record} (h : ofRecord? r = some d) :
    Dict.get? r "id" = some (.str d.id) := by
  unfold ofRecord? at h
  obtain ⟨id, hid, h⟩ := Option.bind_eq_some_iff.mp h
  obtain ⟨j, hj, hj'⟩ := Option.bind_eq_some_iff.mp hid
  have hd : d.id = id := by
    obtain ⟨type, -, h⟩ := Option.bind_eq_some_iff.mp h
    obtain ⟨min, -, h⟩ := Option.bind_eq_some_iff.mp h
    obtain ⟨max, -, h⟩ := Option.bind_eq_some_iff.mp h
    obtain ⟨integer, -, h⟩ := Option.bind_eq_some_iff.mp h
    obtain ⟨step, -, h⟩ := Option.bind_eq_some_iff.mp h
    dsimp only at h
    split at h
    · cases h
      rfl
    · cases h
      rfl
    · obtain ⟨choices, -, h⟩ := Option.bind_eq_some_iff.mp h
      cases h
      rfl
  cases j with
  | str s =>
    cases hj'
    rw [hj, hd]
  | _ => cases hj'

theorem ofRecord?_toRecord (d : VirtualPortDef) : ofRecord? d.toRecord = some d.storable := by
  obtain ⟨id, type, limits, choices⟩ := d
  have htype : PortType.ofJson? (.str type.text) = some type := by cases type <;> rfl
  cases choices with
  | none =>
    simp [ofRecord?, get?_toRecord, field, Json.asStr?, htype, numberOfJson?_ofFloat,
      switchOfJson?, storable]
  | some cs =>
    have hchoices : Choice.listOfJson? (Choice.listToJson cs) = some cs :=
      Port.listOfJson?_listToJson cs
    simp only [Choice.listToJson] at hchoices
    simp [ofRecord?, get?_toRecord, field, Json.asStr?, htype, numberOfJson?_ofFloat,
      switchOfJson?, storable, Choice.listToJson, hchoices]

end VirtualPortDef

namespace Port

variable {p q : Port} {name : String} {g g' : DepGraph} {value : Json} {r r' : Record}

/-! ### Limits and choices -/

def limitNames : List String := ["min", "max", "step", "integer", "choices"]

theorem loadAttr_of_accepted {d : AttrDef} (hd : p.attrDef? name = some d)
    (hname : name ≠ "history_last_timestamp") (hok : d.modifiable && (d.fault value).isNone)
    (hq : Alike p q) : (q.loadAttr g name value).1 = (q.applyAttr g name value).port := by
  rw [loadAttr, if_neg hname, hq.attrDef?_eq, hd]
  simp only [hok, if_true]

/-- A limit that is accepted becomes what the value alone determines; a list of choices that
cannot be read changes nothing. -/
theorem applyAttr_limit (hname : name ∈ limitNames) (value : Json) :
    (∀ (q : Port) (g : DepGraph),
        (q.applyAttr g name value).port.rawValue name = q.rawValue name) ∨
      ∃ w, (value = .null → name = "integer" ∨ w = .null) ∧ ∀ (q : Port) (g : DepGraph),
        (q.applyAttr g name value).port.rawValue name = w := by
  simp only [limitNames, List.mem_cons, List.not_mem_nil, or_false] at hname
  rcases hname with rfl | rfl | rfl | rfl | rfl
  · exact .inr ⟨Json.ofOption .ofFloat value.asFloat?, fun h => by rw [h]; exact .inr rfl,
      fun _ _ => rfl⟩
  · exact .inr ⟨Json.ofOption .ofFloat value.asFloat?, fun h => by rw [h]; exact .inr rfl,
      fun _ _ => rfl⟩
  · exact .inr ⟨Json.ofOption .ofFloat value.asFloat?, fun h => by rw [h]; exact .inr rfl,
      fun _ _ => rfl⟩
  · exact .inr ⟨.bool (switchOf value), fun _ => .inl rfl, fun _ _ => rfl⟩
  · have hset (q r : Port) (g : DepGraph) (h : q.setPlain "choices" value = .ok r) :
        (q.applyAttr g "choices" value).port = r :=
      applyAttr_plain (by decide) (by decide) (by decide) h
    cases hnull : value.isNull with
    | true =>
      refine .inr ⟨.null, fun _ => .inr rfl, fun q g => ?_⟩
      rw [hset q { q with choices := none } g (by simp [setPlain, hnull])]
      rfl
    | false =>
      cases hcs : Choice.listOfJson? value with
      | some cs =>
        refine .inr ⟨Choice.listToJson cs, fun h => ?_, fun q g => ?_⟩
        · rw [h] at hnull
          cases hnull
        · rw [hset q { q with choices := some cs } g (by simp [setPlain, hnull, hcs])]
          rfl
      | none =>
        refine .inl fun q g => ?_
        have hstandard : StandardAttr.isStandard "choices" = true := by decide
        have hother : "choices" ≠ "enabled" ∧ "choices" ≠ "expression" := by decide
        rw [applyAttr, hstandard, if_neg hother.1, if_neg hother.2]
        simp [setPlain, hnull, hcs, AttrChange.refused]

theorem loadAttr_limit (hself : Alike p p) (hname : name ∈ limitNames) (value : Json) :
    (∀ q g, Alike p q → (q.loadAttr g name value).1.rawValue name = q.rawValue name) ∨
      ∃ w, (value = .null → w = .null) ∧
        ∀ q g, Alike p q → (q.loadAttr g name value).1.rawValue name = w := by
  have hother : name ≠ "history_last_timestamp" := by
    rintro rfl
    exact absurd hname (by decide)
  cases hd : p.attrDef? name with
  | none =>
    refine .inl fun q g hq => ?_
    rw [loadAttr, if_neg hother, hq.attrDef?_eq, hd]
  | some d =>
    by_cases hok : d.modifiable && (d.fault value).isNone
    · rcases applyAttr_limit hname value with hkept | ⟨w, hnull, hset⟩
      · refine .inl fun q g hq => ?_
        rw [loadAttr_of_accepted hd hother hok hq]
        exact hkept q g
      · refine .inr ⟨w, fun hvalue => (hnull hvalue).resolve_left ?_, fun q g hq => ?_⟩
        · rintro rfl
          rw [hvalue] at hok
          rcases attrDef?_cases hself hd with hstandard | ⟨hname, -⟩
          · cases hstandard
            cases hok
          · exact absurd hname (by decide)
        · rw [loadAttr_of_accepted hd hother hok hq]
          exact hset q g
    · refine .inl fun q g hq => ?_
      rw [loadAttr, if_neg hother, hq.attrDef?_eq, hd]
      simp [hok]

/-- The same field has the same effect on ports with the same limit. -/
theorem rawValue_loadAttrs_congr (hname : name ∈ limitNames) (hp : Alike p p) (hq : Alike p q)
    (hraw : q.rawValue name = p.rawValue name) (hfield : Dict.get? r' name = Dict.get? r name) :
    (q.loadAttrs g' r').1.rawValue name = (p.loadAttrs g r).1.rawValue name := by
  cases hvalue : Dict.get? r name with
  | none =>
    rw [rawValue_loadAttrs_of_absent hq (hfield.trans hvalue),
      rawValue_loadAttrs_of_absent hp hvalue, hraw]
  | some value =>
    have hvalue' := hfield.trans hvalue
    rcases loadAttr_limit hp hname value with hkept | ⟨w, -, hset⟩
    · rw [rawValue_loadAttrs_of_kept hq, rawValue_loadAttrs_of_kept hp, hraw]
      · intro k w hk hw
        rw [hvalue] at hw
        cases hw
        exact hkept k g hk
      · intro k w hk hw
        rw [hvalue'] at hw
        cases hw
        exact hkept k g' hk
    · have hbrings {k : Port} {g : DepGraph} {r : Record} (hk : Alike p k)
          (hfield : Dict.get? r name = some value) : (k.loadAttrs g r).1.rawValue name = w :=
        loadAttrs_brings (motive := fun k => k.rawValue name = w) hk hfield
          (fun k hk => hset k g hk)
          (fun _ _ _ hne hdone => (rawValue_loadAttr_of_ne (Ne.symm hne)).trans hdone)
          fun _ hdone => hdone
      rw [hbrings hq hvalue', hbrings hp hvalue]

theorem rawValue_loadAttrs_of_null (hname : name ∈ limitNames) (hp : Alike p p)
    (hraw : p.rawValue name = .null) (hfield : Dict.get? r name = some .null) :
    (p.loadAttrs g r).1.rawValue name = .null := by
  rcases loadAttr_limit hp hname .null with hkept | ⟨w, hnull, hset⟩
  · rw [rawValue_loadAttrs_of_kept hp, hraw]
    intro k w hk hw
    rw [hfield] at hw
    cases hw
    exact hkept k g hk
  · refine loadAttrs_brings (motive := fun k => k.rawValue name = .null) hp hfield
      (fun k hk => (hset k g hk).trans (hnull rfl))
      (fun _ _ _ hne hdone => (rawValue_loadAttr_of_ne (Ne.symm hne)).trans hdone)
      fun _ hdone => hdone

end Port

namespace VirtualPortDef

open Port

variable {d : VirtualPortDef} {name : String} {g : DepGraph}

def port (d : VirtualPortDef) : Port :=
  ((create ⟨d.id, 0⟩ d.device true 1).loadAttrs [] d.attrs).1

theorem field_storable (d : VirtualPortDef) (name : String) :
    d.storable.field name = (d.field name).filter fun w => !w.isNull := by
  have hnumber (o : Option Float) : (o.filter Binary64.isFinite).map Json.ofFloat =
      (o.map Json.ofFloat).filter fun w => !w.isNull := by
    cases o with
    | none => rfl
    | some x =>
      cases hx : Binary64.isFinite x <;> simp [Json.ofFloat, hx, Option.filter, Json.isNull]
  have hchoices (o : Option (List Choice)) : (o.map Choice.listToJson).filter (fun w => !w.isNull) =
      o.map Choice.listToJson := by
    cases o <;> rfl
  unfold field
  split_ifs
  · exact hnumber _
  · exact hnumber _
  · exact hnumber _
  · rfl
  · exact (hchoices _).symm
  · rfl

/-- To a new port a definition that has been read back is as good as the definition itself. -/
theorem rawValue_loadAttrs_storable (hname : name ∈ limitNames) (key : PortKey) (capacity : Nat)
    (zone : Zone) (hid : key.id = d.id) :
    ((create key d.device true capacity zone).loadAttrs g d.storable.attrs).1.rawValue name =
      d.port.rawValue name := by
  have hself : Device.Alike d.device d.device := .software rfl
  have hp : Alike (create ⟨d.id, 0⟩ d.device true 1) (create ⟨d.id, 0⟩ d.device true 1) :=
    ⟨rfl, hself⟩
  have hq : Alike (create ⟨d.id, 0⟩ d.device true 1) (create key d.device true capacity zone) :=
    ⟨hid, hself⟩
  have hraw : (create key d.device true capacity zone).rawValue name =
      (create ⟨d.id, 0⟩ d.device true 1).rawValue name := by
    simp only [limitNames, List.mem_cons, List.not_mem_nil, or_false] at hname
    rcases hname with rfl | rfl | rfl | rfl | rfl <;> rfl
  by_cases hnull : d.field name = some .null
  · have hunset : (create ⟨d.id, 0⟩ d.device true 1).rawValue name = .null := by
      simp only [limitNames, List.mem_cons, List.not_mem_nil, or_false] at hname
      rcases hname with rfl | rfl | rfl | rfl | rfl
      · rfl
      · rfl
      · rfl
      · cases hnull
      · rfl
    rw [rawValue_loadAttrs_of_absent hq, hraw, hunset, port,
      rawValue_loadAttrs_of_null hname hp hunset]
    · rw [get?_attrs, hnull]
    · rw [get?_attrs, field_storable, hnull]
      rfl
  · refine rawValue_loadAttrs_congr hname hp hq hraw ?_
    rw [get?_attrs, get?_attrs, field_storable]
    cases hfield : d.field name with
    | none => rfl
    | some w =>
      have hset : w.isNull = false := by
        cases w with
        | null => exact absurd hfield hnull
        | _ => rfl
      simp [Option.filter, hset]

end VirtualPortDef

end ControlNode
