import ControlNode.Proofs.Expr.Reprint
import ControlNode.Proofs.Port.Settled
import ControlNode.Proofs.Port.Setup

/-!
# Restoring attributes

A port is stored as a record of the attributes that are set, and a new port loads the record
attribute by attribute. Each of them comes back as it was (`getAttr_restored`): an attribute that
is unset is not stored, and a value that is settled is accepted again and gives itself. The
expressions are stored as their texts. They come back when the text is short enough to be accepted
(`expression_lost`) and holds no negative zero.
-/

namespace ControlNode.Port

variable {p q : Port} {name : String} {g : DepGraph} {value : Json}

/-! ### Where expressions come from -/

theorem expression_setExpression {e : Expr}
    (h : (p.setExpression g value).port.expression = some e) :
    p.expression = some e ∧ (p.setExpression g value).port.expressionDeps = p.expressionDeps ∨
      (∃ source, Expr.parse source p.id = .ok e) ∧
        (p.setExpression g value).port.expressionDeps = e.deps := by
  unfold setExpression at h ⊢
  split
  · rename_i hnone
    rw [hnone] at h
    cases h
  · rename_i source hsource
    rw [hsource] at h
    dsimp only at h ⊢
    split
    · rename_i hparse
      rw [hparse] at h
      exact .inl ⟨h, rfl⟩
    · rename_i e' hparse
      rw [hparse] at h
      dsimp only at h
      split
      · rename_i hloop
        rw [hloop] at h
        exact .inl ⟨h, rfl⟩
      · rename_i hloop
        rw [hloop] at h
        cases h
        exact .inr ⟨⟨source, hparse⟩, rfl⟩

theorem expression_applyAttr {e : Expr}
    (h : (p.applyAttr g name value).port.expression = some e) :
    p.expression = some e ∧ (p.applyAttr g name value).port.expressionDeps = p.expressionDeps ∨
      (∃ source, Expr.parse source p.id = .ok e) ∧
        (p.applyAttr g name value).port.expressionDeps = e.deps := by
  have hcore {r : Port} (hr : SameCore p r) (he : r.expression = some e) :
      p.expression = some e ∧ r.expressionDeps = p.expressionDeps :=
    ⟨hr.expression.symm.trans he, hr.deps⟩
  unfold applyAttr at h ⊢
  split
  · rename_i hforeign
    rw [if_pos hforeign] at h
    exact .inl ⟨h, rfl⟩
  · rename_i hstandard
    rw [if_neg hstandard] at h
    split
    · rename_i henabled
      rw [if_pos henabled] at h
      exact .inl (hcore (setEnabled_core ..) h)
    · rename_i henabled
      rw [if_neg henabled] at h
      split
      · rename_i hexpression
        rw [if_pos hexpression] at h
        exact expression_setExpression h
      · rename_i hexpression
        rw [if_neg hexpression] at h
        split
        · rename_i r hr
          rw [hr] at h
          exact .inl (hcore (setPlain_core hr) h)
        · rename_i hr
          rw [hr] at h
          exact .inl ⟨h, rfl⟩

theorem parseTransform_of_readTransform {e : Expr}
    (h : p.readTransform name value = .ok (some e)) :
    ∃ source, Expr.parseTransform source p.id = .ok e := by
  unfold readTransform at h
  split at h
  · cases h
  · rename_i source _
    split at h
    · rename_i e' hparse
      cases h
      exact ⟨source, hparse⟩
    · cases h

theorem transforms_setPlain (h : p.setPlain name value = .ok q) :
    (∀ e, q.transformRead = some e → p.transformRead = some e ∨
        ∃ source, Expr.parseTransform source p.id = .ok e) ∧
      ∀ e, q.transformWrite = some e → p.transformWrite = some e ∨
        ∃ source, Expr.parseTransform source p.id = .ok e := by
  unfold setPlain at h
  split at h
  case h_12 =>
    repeat' split at h
    all_goals
      cases h
    all_goals exact ⟨fun _ he => .inl he, fun _ he => .inl he⟩
  case h_13 =>
    obtain ⟨t, ht, rfl⟩ := exists_of_map_eq_ok h
    refine ⟨fun e he => .inr ?_, fun _ he => .inl he⟩
    obtain rfl : t = some e := he
    exact parseTransform_of_readTransform ht
  case h_14 =>
    obtain ⟨t, ht, rfl⟩ := exists_of_map_eq_ok h
    refine ⟨fun _ he => .inl he, fun e he => .inr ?_⟩
    obtain rfl : t = some e := he
    exact parseTransform_of_readTransform ht
  case h_15 => cases h
  all_goals
    cases h
    exact ⟨fun _ he => .inl he, fun _ he => .inl he⟩

theorem transforms_setEnabled (p : Port) (enabled : Bool) :
    (p.setEnabled enabled).port.transformRead = p.transformRead ∧
      (p.setEnabled enabled).port.transformWrite = p.transformWrite := by
  unfold setEnabled
  split
  · exact ⟨rfl, rfl⟩
  · dsimp only
    split
    · exact ⟨rfl, rfl⟩
    · split <;> exact ⟨rfl, rfl⟩

theorem transforms_setExpression (p : Port) (g : DepGraph) (value : Json) :
    (p.setExpression g value).port.transformRead = p.transformRead ∧
      (p.setExpression g value).port.transformWrite = p.transformWrite := by
  unfold setExpression
  repeat' split
  all_goals exact ⟨rfl, rfl⟩

theorem transforms_applyAttr (p : Port) (g : DepGraph) (name : String) (value : Json) :
    (∀ e, (p.applyAttr g name value).port.transformRead = some e → p.transformRead = some e ∨
        ∃ source, Expr.parseTransform source p.id = .ok e) ∧
      ∀ e, (p.applyAttr g name value).port.transformWrite = some e → p.transformWrite = some e ∨
        ∃ source, Expr.parseTransform source p.id = .ok e := by
  have hsame {r : Port}
    (h : r.transformRead = p.transformRead ∧ r.transformWrite = p.transformWrite) :
      (∀ e, r.transformRead = some e → p.transformRead = some e ∨
          ∃ source, Expr.parseTransform source p.id = .ok e) ∧
        ∀ e, r.transformWrite = some e → p.transformWrite = some e ∨
          ∃ source, Expr.parseTransform source p.id = .ok e :=
    ⟨fun _ he => .inl (h.1.symm.trans he), fun _ he => .inl (h.2.symm.trans he)⟩
  unfold applyAttr
  split
  · exact hsame ⟨rfl, rfl⟩
  · split
    · exact hsame (transforms_setEnabled ..)
    · split
      · exact hsame (transforms_setExpression ..)
      · split
        · rename_i r hr
          exact transforms_setPlain hr
        · exact hsame ⟨rfl, rfl⟩

/-! ### Ports that can be restored -/

/-- Every attribute has a value that is settled, or none, and the expressions have been read. -/
structure Restorable (p : Port) : Prop where
  alike : Alike p p
  settled : ∀ name d, p.attrDef? name = some d → d.modifiable = true → name ∉ expressionNames →
    p.rawValue name = .null ∨ Settled p name (p.rawValue name)
  expression : ∀ e, p.expression = some e → Expr.Readable p.id e ∧ p.expressionDeps = e.deps
  readTransform : ∀ e, p.transformRead = some e → Expr.Readable p.id e ∧ Expr.Confined p.id e
  writeTransform : ∀ e, p.transformWrite = some e → Expr.Readable p.id e ∧ Expr.Confined p.id e

theorem Settled.alike {w : Json} (h : Settled p name w) (hq : Alike p q) : Settled q name w :=
  fun r g hr => h r g (hq.trans hr)

namespace Restorable

theorem of_same (h : Restorable p) (hq : Alike p q)
    (hraw : ∀ name, q.rawValue name = p.rawValue name) (hexpression : q.expression = p.expression)
    (hdeps : q.expressionDeps = p.expressionDeps) (hread : q.transformRead = p.transformRead)
    (hwrite : q.transformWrite = p.transformWrite) : Restorable q := by
  refine ⟨hq.symm.trans hq, ?_, ?_, ?_, ?_⟩
  · intro name d hd hmodifiable hname
    rw [hq.attrDef?_eq] at hd
    rw [hraw]
    exact (h.settled name d hd hmodifiable hname).imp_right fun hs => hs.alike hq
  · rw [hq.id, hexpression, hdeps]
    exact h.expression
  · rw [hq.id, hread]
    exact h.readTransform
  · rw [hq.id, hwrite]
    exact h.writeTransform

theorem applyAttr (h : Restorable p) {d : AttrDef} (hd : p.attrDef? name = some d)
    (hmodifiable : d.modifiable = true) (hfault : d.fault value = none) (g : DepGraph) :
    Restorable (p.applyAttr g name value).port := by
  have hq := h.alike.applyAttr g name value
  refine ⟨hq.symm.trans hq, ?_, ?_, ?_, ?_⟩
  · intro other d' hd' hmodifiable' hother
    rw [hq.attrDef?_eq] at hd'
    by_cases hsame : other = name
    · subst hsame
      rcases settled_applyAttr (g := g) hd hmodifiable hother h.alike hfault with
        hnull | hkept | hsettled
      · exact .inl hnull
      · rw [hkept]
        exact (h.settled other d' hd' hmodifiable' hother).imp_right fun hs => hs.alike hq
      · exact .inr (hsettled.alike hq)
    · rw [rawValue_applyAttr_of_ne hsame]
      exact (h.settled other d' hd' hmodifiable' hother).imp_right fun hs => hs.alike hq
  · intro e he
    rw [hq.id]
    rcases expression_applyAttr he with ⟨hold, hdeps⟩ | ⟨⟨source, hparse⟩, hdeps⟩
    · rw [hdeps]
      exact h.expression e hold
    · exact ⟨Expr.readable_of_parse hparse, hdeps⟩
  all_goals
    intro e he
    rw [hq.id]
  · rcases (transforms_applyAttr p g name value).1 e he with hold | ⟨source, hparse⟩
    · exact h.readTransform e hold
    · exact Expr.readable_of_parseTransform hparse
  · rcases (transforms_applyAttr p g name value).2 e he with hold | ⟨source, hparse⟩
    · exact h.writeTransform e hold
    · exact Expr.readable_of_parseTransform hparse

theorem loadAttr (h : Restorable p) (g : DepGraph) (name : String) (value : Json) :
    Restorable (p.loadAttr g name value).1 := by
  unfold Port.loadAttr
  split
  · exact h.of_same ⟨rfl, h.alike.device⟩ (fun _ => rfl) rfl rfl rfl rfl
  · split
    · exact h
    · rename_i d hd
      split
      · rename_i haccepted
        rw [Bool.and_eq_true, Option.isNone_iff_eq_none] at haccepted
        exact h.applyAttr hd haccepted.1 haccepted.2 g
      · exact h

theorem dropAttrCache (h : Restorable p) : Restorable p.dropAttrCache :=
  h.of_same ⟨rfl, h.alike.device⟩ (fun _ => rfl) rfl rfl rfl rfl

theorem loadAttrs (h : Restorable p) (g : DepGraph) (r : Record) :
    Restorable (p.loadAttrs g r).1 :=
  loadAttrs_induction g r (fun _ name value hq => hq.loadAttr g name value)
    (fun _ hq => hq.dropAttrCache) h

theorem setAttr (h : Restorable p) (hok : (p.setAttr g name value).result = .ok ()) :
    Restorable (p.setAttr g name value).port := by
  obtain ⟨d, hd, hmodifiable, hvalid, -, heq⟩ := setAttr_accepted hok
  have hfault : d.fault value = none := by
    unfold AttrDef.validate at hvalid
    split at hvalid
    · assumption
    · cases hvalid
  have happlied := h.applyAttr hd hmodifiable hfault g
  rw [heq]
  exact happlied.of_same ⟨rfl, happlied.alike.device⟩ (fun _ => rfl) rfl rfl rfl rfl

end Restorable

theorem restorable_create {device : Device} (h : device.Alike device) (key : PortKey)
    (isVirtual : Bool) (capacity : Nat) (zone : Zone) :
    Restorable (create key device isVirtual capacity zone) := by
  refine ⟨⟨rfl, h⟩, fun name d hd hmodifiable _ => settled_create h hd hmodifiable, ?_, ?_, ?_⟩
  all_goals
    intro e he
    cases he

/-! ### Fields of records -/

/-- The fields of a record that are no attributes. -/
def besideNames : List String := ["id", "value", "history_last_timestamp"]

theorem not_mem_besideNames (hself : Alike p p) {d : AttrDef} (hd : p.attrDef? name = some d)
    (hmodifiable : d.modifiable = true) : name ∉ besideNames := by
  rcases attrDef?_cases hself hd with hstandard | ⟨rfl, -⟩
  · intro hmem
    simp only [besideNames, List.mem_cons, List.not_mem_nil, or_false] at hmem
    rcases hmem with rfl | rfl | rfl
    · cases hstandard
      cases hmodifiable
    · cases hstandard
    · cases hstandard
  · decide

theorem mem_attrFields_iff {w : Json} : (name, w) ∈ p.attrFields ↔
    w = p.rawValue name ∧ w.isNull = false ∧
      ∃ d ∈ p.attrDefs, d.name = name ∧ d.modifiable = true := by
  unfold attrFields
  rw [List.mem_filterMap]
  constructor
  · rintro ⟨d, hd, heq⟩
    split at heq
    · rename_i hshown
      rw [Bool.and_eq_true, Bool.not_eq_true'] at hshown
      cases heq
      exact ⟨rfl, hshown.2, d, hd, rfl, hshown.1⟩
    · cases heq
  · rintro ⟨rfl, hnull, d, hd, rfl, hmodifiable⟩
    exact ⟨d, hd, by rw [hmodifiable, hnull]; rfl⟩

theorem name_of_mem_valueField {e : String × Json} (h : e ∈ p.valueField) : e.1 = "value" := by
  unfold valueField at h
  split at h
  · obtain ⟨j, -, rfl⟩ := List.mem_map.mp h
    rfl
  · cases h

/-- Of the fields of a record only those of attributes have a name of an attribute. -/
theorem mem_attrFields_of_name (hother : name ∉ besideNames) {e : String × Json}
    (he : e ∈ ("id", .str p.id) :: (p.attrFields ++
      [("history_last_timestamp", .int p.historyLast)] ++ p.valueField)) (hname : e.1 = name) :
    e ∈ p.attrFields := by
  simp only [besideNames, List.mem_cons, List.not_mem_nil, or_false, not_or] at hother
  obtain ⟨hid, hvalue, hhistory⟩ := hother
  rcases List.mem_cons.mp he with rfl | he
  · exact absurd hname.symm hid
  · rcases List.mem_append.mp he with he | he
    · rcases List.mem_append.mp he with he | he
      · exact he
      · rw [List.mem_singleton.mp he] at hname
        exact absurd hname.symm hhistory
    · exact absurd (hname.symm.trans (name_of_mem_valueField he)) hvalue

theorem get?_toRecord (hself : Alike p p) {d : AttrDef} (hd : p.attrDef? name = some d)
    (hmodifiable : d.modifiable = true) (hset : (p.rawValue name).isNull = false) :
    Dict.get? p.toRecord name = some (p.rawValue name) := by
  have hkey : d.name = name := by simpa using List.find?_some hd
  have hmem : (name, p.rawValue name) ∈ p.attrFields :=
    mem_attrFields_iff.mpr ⟨rfl, hset, d, List.mem_of_find?_eq_some hd, hkey, hmodifiable⟩
  rw [toRecord_eq]
  refine Dict.get?_ofList_of_mem (List.mem_cons_of_mem _ (by simp [hmem])) ?_
  rintro ⟨other, w⟩ he rfl
  exact (mem_attrFields_iff.mp (mem_attrFields_of_name
    (not_mem_besideNames hself hd hmodifiable) he rfl)).1

theorem get?_toRecord_of_unset (hself : Alike p p) {d : AttrDef} (hd : p.attrDef? name = some d)
    (hmodifiable : d.modifiable = true) (hunset : (p.rawValue name).isNull = true) :
    Dict.get? p.toRecord name = none := by
  rw [toRecord_eq]
  refine Dict.get?_ofList_eq_none ?_
  rintro ⟨other, w⟩ he rfl
  obtain ⟨rfl, hset, -⟩ := mem_attrFields_iff.mp (mem_attrFields_of_name
    (not_mem_besideNames hself hd hmodifiable) he rfl)
  rw [hunset] at hset
  cases hset

/-! ### Loading field by field -/

theorem mem_insertInOrder {other : String} {names : List String} :
    other ∈ StandardAttr.insertInOrder name names ↔ other = name ∨ other ∈ names := by
  induction names with
  | nil => simp [StandardAttr.insertInOrder]
  | cons first names ih =>
    unfold StandardAttr.insertInOrder
    split
    · simp
    · rw [List.mem_cons, ih, List.mem_cons]
      tauto

theorem mem_loadOrder {names : List String} :
    name ∈ StandardAttr.loadOrder names ↔ name ∈ names := by
  induction names with
  | nil => rfl
  | cons first names ih => rw [StandardAttr.loadOrder, mem_insertInOrder, ih, List.mem_cons]

theorem loadAttrs_eq (p : Port) (g : DepGraph) (r : Record) : (p.loadAttrs g r).1 =
    ((StandardAttr.loadOrder (Dict.keys r)).foldl (fun q name =>
      (q.loadAttr g name ((Dict.get? r name).getD .null)).1) p).dropAttrCache := by
  suffices hfold : ∀ (names : List String) (s : Port × Bool),
      (names.foldl (fun s name =>
        ((s.1.loadAttr g name ((Dict.get? r name).getD .null)).1,
          s.2 || (s.1.loadAttr g name ((Dict.get? r name).getD .null)).2)) s).1 =
        names.foldl (fun q name =>
          (q.loadAttr g name ((Dict.get? r name).getD .null)).1) s.1 from
    congrArg dropAttrCache (hfold _ (p, false))
  intro names
  induction names with
  | nil => exact fun _ => rfl
  | cons name names ih => exact fun s => ih _

theorem Alike.loadAttrs (h : Alike p q) (g : DepGraph) (r : Record) : Alike p (q.loadAttrs g r).1 :=
  loadAttrs_induction g r (fun _ name value hq => hq.loadAttr g name value)
    (fun _ hq => ⟨hq.id, hq.device⟩) h

/-- What loading one field brings about lasts if no other field undoes it. -/
theorem loadAttrs_brings {motive : Port → Prop} {r : Record} {w : Json} (hq : Alike p q)
    (hfield : Dict.get? r name = some w)
    (hload : ∀ q, Alike p q → motive (q.loadAttr g name w).1)
    (hkeep : ∀ q other value, other ≠ name → motive q → motive (q.loadAttr g other value).1)
    (hcache : ∀ q, motive q → motive q.dropAttrCache) : motive (q.loadAttrs g r).1 := by
  rw [loadAttrs_eq]
  apply hcache
  have hmem : name ∈ StandardAttr.loadOrder (Dict.keys r) :=
    mem_loadOrder.mpr (List.mem_map_of_mem (f := Prod.fst) (Dict.mem_of_get? hfield))
  have hpart : name ∈ StandardAttr.loadOrder (Dict.keys r) ∨ motive q := .inl hmem
  clear hmem
  generalize StandardAttr.loadOrder (Dict.keys r) = names at hpart
  induction names generalizing q with
  | nil => exact hpart.resolve_left List.not_mem_nil
  | cons other names ih =>
    apply ih (hq.loadAttr g other _)
    by_cases hsame : other = name
    · subst hsame
      rw [hfield]
      exact .inr (hload q hq)
    · rcases hpart with hmem | hdone
      · exact .inl ((List.mem_cons.mp hmem).resolve_left (Ne.symm hsame))
      · exact .inr (hkeep q other _ hsame hdone)

theorem rawValue_loadAttrs_of_settled {r : Record} {w : Json} (hq : Alike p q)
    (hfield : Dict.get? r name = some w)
    (hload : ∀ q, Alike p q → (q.loadAttr g name w).1.rawValue name = w) :
    (q.loadAttrs g r).1.rawValue name = w :=
  loadAttrs_brings (motive := fun q => q.rawValue name = w) hq hfield hload
    (fun _ _ _ hne hdone => (rawValue_loadAttr_of_ne (Ne.symm hne)).trans hdone)
    fun _ hdone => hdone

theorem rawValue_loadAttrs_of_kept {r : Record} (hq : Alike p q)
    (hkeep : ∀ q w, Alike p q → Dict.get? r name = some w →
      (q.loadAttr g name w).1.rawValue name = q.rawValue name) :
    (q.loadAttrs g r).1.rawValue name = q.rawValue name := by
  rw [loadAttrs_eq]
  change Port.rawValue (List.foldl _ q _) name = _
  have hfields : ∀ other ∈ StandardAttr.loadOrder (Dict.keys r),
      ∃ w, Dict.get? r other = some w := by
    intro other hmem
    rw [mem_loadOrder, ← List.contains_iff_mem, Dict.contains_keys] at hmem
    exact Option.isSome_iff_exists.mp hmem
  generalize StandardAttr.loadOrder (Dict.keys r) = names at hfields
  induction names generalizing q with
  | nil => rfl
  | cons other names ih =>
    rw [List.foldl_cons, ih (hq.loadAttr g other _) fun o ho =>
      hfields o (List.mem_cons_of_mem _ ho)]
    by_cases hsame : other = name
    · subst hsame
      obtain ⟨w, hw⟩ := hfields other List.mem_cons_self
      rw [hw]
      exact hkeep q w hq hw
    · exact rawValue_loadAttr_of_ne (Ne.symm hsame)

theorem rawValue_loadAttrs_of_absent {r : Record} (hq : Alike p q)
    (hfield : Dict.get? r name = none) : (q.loadAttrs g r).1.rawValue name = q.rawValue name := by
  refine rawValue_loadAttrs_of_kept hq fun _ w _ hw => ?_
  rw [hfield] at hw
  cases hw

theorem loadAttr_of_refused {d : AttrDef} (hd : p.attrDef? name = some d)
    (hother : name ≠ "history_last_timestamp") (hfault : (d.fault value).isSome) :
    (p.loadAttr g name value).1 = p := by
  rw [loadAttr, if_neg hother, hd]
  simp [Option.isNone_eq_false_iff.mpr hfault]

/-! ### Loading expressions -/

theorem fault_shortText {d : AttrDef} {n : Nat} {text : String} (htype : d.type = .string)
    (hchoices : d.choices = none) (hlimits : d.limits = { max := some (Float.ofNat n) })
    (hn : n < 2 ^ 53) (hshort : text.length ≤ n) : d.fault (.str text) = none := by
  have hlength : ¬Float.ofNat n < Float.ofNat text.length := by
    rw [Binary64.ofNat_lt_iff hn (by omega)]
    omega
  rw [AttrDef.fault_eq_none_iff, AttrDef.typeFault, htype, hchoices, hlimits]
  exact .inr ⟨rfl, by simp [Json.asStr?, hlength], rfl⟩

theorem fault_longText {d : AttrDef} {n : Nat} {text : String} (htype : d.type = .string)
    (hlimits : d.limits = { max := some (Float.ofNat n) }) (hlong : n < text.length)
    (hlength : text.length < 2 ^ 53) : d.fault (.str text) = some .lengthOutOfRange := by
  have habove : Float.ofNat n < Float.ofNat text.length :=
    (Binary64.ofNat_lt_iff (hlong.trans hlength) hlength).mpr hlong
  simp [AttrDef.fault, AttrDef.typeFault, Json.isNull, Json.asStr?, htype, hlimits, habove]

/-- The greatest length of the texts of expressions. -/
def expressionLength : Nat := 1024

/-- The text of an expression is accepted for an attribute, and reads as it was. -/
structure Recoverable (e : Expr) : Prop where
  short : e.text.length ≤ expressionLength
  unsigned : e.Unsigned

instance (e : Expr) : Decidable (Recoverable e) :=
  decidable_of_iff (e.text.length ≤ expressionLength ∧ e.Unsigned)
    ⟨fun h => ⟨h.1, h.2⟩, fun h => ⟨h.short, h.unsigned⟩⟩

theorem fault_text {d : AttrDef} {e : Expr} (hd : StandardAttr.def? name = some d)
    (hname : name ∈ expressionNames) (h : Recoverable e) :
    d.modifiable = true ∧ d.fault (.str e.text) = none := by
  simp only [expressionNames, List.mem_cons, List.not_mem_nil, or_false] at hname
  rcases hname with rfl | rfl | rfl
  all_goals
    cases hd
    exact ⟨rfl, fault_shortText rfl rfl rfl (by decide) h.short⟩

theorem sourceText?_text {selfId : String} {e : Expr} (h : Expr.Readable selfId e)
    (hunsigned : e.Unsigned) : sourceText? (.str e.text) = some e.text := by
  simp [sourceText?, Json.asStr?, Expr.not_allBlank_text h hunsigned]

theorem loadAttr_text {d : AttrDef} {e : Expr} (hq : Alike p q) (hd : p.attrDef? name = some d)
    (hname : name ∈ expressionNames) (h : Recoverable e) :
    (q.loadAttr g name (.str e.text)).1 = (q.applyAttr g name (.str e.text)).port := by
  have hstandard : StandardAttr.def? name = some d := by
    rcases attrDef?_cases (hq.trans hq.symm) hd with hstandard | ⟨rfl, -⟩
    · exact hstandard
    · exact absurd hname (by decide)
  obtain ⟨hmodifiable, hfault⟩ := fault_text hstandard hname h
  have hother : name ≠ "history_last_timestamp" := by
    rintro rfl
    exact absurd hname (by decide)
  rw [loadAttr, if_neg hother, hq.attrDef?_eq, hd]
  simp only [hmodifiable, hfault, Option.isNone_none, Bool.and_true, if_true]

theorem readTransform_text {e : Expr} (h : Expr.Readable q.id e) (hconfined : e.Confined q.id)
    (hunsigned : e.Unsigned) : ∃ e', q.readTransform name (.str e.text) = .ok (some e') ∧
      e'.bare = e.bare := by
  obtain ⟨e', hparse, hbare⟩ := Expr.parseTransform_text_bare h hconfined hunsigned
  exact ⟨e', by simp only [readTransform, sourceText?_text h hunsigned, hparse], hbare⟩

theorem applyAttr_transformRead {e : Expr} (hread : Expr.Readable q.id e)
    (hconfined : e.Confined q.id) (hunsigned : e.Unsigned) :
    ∃ e', (q.applyAttr g "transform_read" (.str e.text)).port.transformRead = some e' ∧
      e'.bare = e.bare := by
  obtain ⟨e', hset, hbare⟩ : ∃ e', q.readTransform "transform_read" (.str e.text) = .ok (some e') ∧
      e'.bare = e.bare := readTransform_text hread hconfined hunsigned
  have hplain : q.setPlain "transform_read" (.str e.text) =
    .ok { q with transformRead := some e' } := by
    change (q.readTransform "transform_read" (.str e.text)).map _ = _
    rw [hset]
    rfl
  refine ⟨e', ?_, hbare⟩
  rw [applyAttr_plain (by decide) (by decide) (by decide) hplain]

theorem loadAttr_transformRead {d : AttrDef} {e : Expr} (hq : Alike p q)
    (hd : p.attrDef? "transform_read" = some d) (hread : Expr.Readable p.id e)
    (hconfined : e.Confined p.id) (h : Recoverable e) :
    ∃ e', (q.loadAttr g "transform_read" (.str e.text)).1.transformRead = some e' ∧
      e'.bare = e.bare := by
  rw [← hq.id] at hread hconfined
  rw [loadAttr_text hq hd (by decide) h]
  exact applyAttr_transformRead hread hconfined h.unsigned

theorem loadAttr_transformWrite {d : AttrDef} {e : Expr} (hq : Alike p q)
    (hd : p.attrDef? "transform_write" = some d) (hread : Expr.Readable p.id e)
    (hconfined : e.Confined p.id) (h : Recoverable e) :
    ∃ e', (q.loadAttr g "transform_write" (.str e.text)).1.transformWrite = some e' ∧
      e'.bare = e.bare := by
  rw [← hq.id] at hread hconfined
  obtain ⟨e', hset, hbare⟩ : ∃ e', q.readTransform "transform_write" (.str e.text) = .ok (some e') ∧
      e'.bare = e.bare := readTransform_text hread hconfined h.unsigned
  have hplain : q.setPlain "transform_write" (.str e.text) =
    .ok { q with transformWrite := some e' } := by
    change (q.readTransform "transform_write" (.str e.text)).map _ = _
    rw [hset]
    rfl
  refine ⟨e', ?_, hbare⟩
  rw [loadAttr_text hq hd (by decide) h, applyAttr_plain (by decide) (by decide) (by decide) hplain]

theorem loadAttr_expression {d : AttrDef} {e : Expr} (hq : Alike p q)
    (hd : p.attrDef? "expression" = some d) (hread : Expr.Readable p.id e) (h : Recoverable e)
    (hloop : ¬∃ ps, g.IsLoop p.id e.deps ps) :
    ∃ e', (q.loadAttr g "expression" (.str e.text)).1.expression = some e' ∧ e'.bare = e.bare := by
  rw [← hq.id] at hread hloop
  obtain ⟨e', hparse, hbare⟩ := Expr.parse_text_bare hread h.unsigned
  refine ⟨e', ?_, hbare⟩
  have hfree : g.findLoop q.id e'.deps = none := by
    rw [Expr.deps_of_bare hbare]
    exact (DepGraph.findLoop_eq_none_iff g q.id e.deps).mpr hloop
  have happly : q.applyAttr g "expression" (.str e.text) = q.setExpression g (.str e.text) := rfl
  rw [loadAttr_text hq hd (by decide) h, happly, setExpression, sourceText?_text hread h.unsigned]
  simp only [hparse, hfree]

def expressionAt (p : Port) (name : String) : Option Expr :=
  if name = "expression" then p.expression
  else if name = "transform_read" then p.transformRead
  else if name = "transform_write" then p.transformWrite
  else none

theorem rawValue_eq_text (hname : name ∈ expressionNames) :
    p.rawValue name = Json.ofOption (fun e => .str e.text) (p.expressionAt name) := by
  simp only [expressionNames, List.mem_cons, List.not_mem_nil, or_false] at hname
  rcases hname with rfl | rfl | rfl <;> rfl

/-- An expression comes back from its text but for positions and memories. -/
theorem Restorable.loadAttr_text (h : Restorable p) (hq : Alike p q) {d : AttrDef}
    (hd : p.attrDef? name = some d) (hname : name ∈ expressionNames) {e : Expr}
    (he : p.expressionAt name = some e) (hrecoverable : Recoverable e)
    (hloop : ∀ deps, p.deps? = some deps → ¬∃ ps, g.IsLoop p.id deps ps) :
    ∃ e', (q.loadAttr g name (.str e.text)).1.expressionAt name = some e' ∧ e'.bare = e.bare := by
  simp only [expressionNames, List.mem_cons, List.not_mem_nil, or_false] at hname
  rcases hname with rfl | rfl | rfl
  · obtain ⟨hread, hdeps⟩ := h.expression e he
    refine loadAttr_expression hq hd hread hrecoverable (hloop e.deps ?_)
    have hsome : p.expression = some e := he
    rw [deps?, hsome, hdeps]
    rfl
  · obtain ⟨hread, hconfined⟩ := h.readTransform e he
    exact loadAttr_transformRead hq hd hread hconfined hrecoverable
  · obtain ⟨hread, hconfined⟩ := h.writeTransform e he
    exact loadAttr_transformWrite hq hd hread hconfined hrecoverable

/-! ### Restored attributes -/

/-- What an attribute holds comes back from the record of the port. -/
theorem Restorable.rawValue_loadAttrs (h : Restorable p) (hq : Alike p q) {d : AttrDef}
    (hd : p.attrDef? name = some d) (hmodifiable : d.modifiable = true)
    (hset : (p.rawValue name).isNull = false)
    (hloop : ∀ deps, p.deps? = some deps → ¬∃ ps, g.IsLoop p.id deps ps)
    (hrecoverable : ∀ e, p.expressionAt name = some e → Recoverable e) :
    (q.loadAttrs g p.toRecord).1.rawValue name = p.rawValue name := by
  apply rawValue_loadAttrs_of_settled hq (get?_toRecord h.alike hd hmodifiable hset)
  intro q hq
  by_cases hname : name ∈ expressionNames
  · cases he : p.expressionAt name with
    | none =>
      rw [rawValue_eq_text hname, he] at hset
      cases hset
    | some e =>
      have htext : p.rawValue name = .str e.text := by
        rw [rawValue_eq_text hname, he, Json.ofOption]
      obtain ⟨e', he', hbare⟩ := h.loadAttr_text hq hd hname he (hrecoverable e he) hloop
      rw [htext, rawValue_eq_text hname, he', Json.ofOption, Expr.text_of_bare hbare]
  · rcases h.settled name d hd hmodifiable hname with hnull | hsettled
    · rw [hnull] at hset
      cases hset
    · exact hsettled q g hq

theorem rawValue_create_of_unset {key : PortKey} {device : Device} {isVirtual : Bool}
    {capacity : Nat} {zone : Zone} (hdevice : p.device.Alike device)
    (hunset : p.rawValue name = .null) :
    (create key device isVirtual capacity zone).rawValue name = .null := by
  unfold rawValue at hunset ⊢
  cases hstandard : p.standardValue? name with
  | some v =>
    rw [hstandard] at hunset
    obtain rfl : v = .null := hunset
    have hcreate : (create key device isVirtual capacity zone).standardValue? name =
      some .null := by
      unfold standardValue? at hstandard ⊢
      split at hstandard <;> first | rfl | cases hstandard
    rw [hcreate]
  | none =>
    have hcreate : (create key device isVirtual capacity zone).standardValue? name = none := by
      unfold standardValue? at hstandard ⊢
      split at hstandard <;> first | rfl | cases hstandard
    rw [hcreate]
    rw [hstandard] at hunset
    change (device.getAttr name).getD .null = .null
    generalize p.device = device' at hdevice hunset
    cases hdevice with
    | memory =>
      simp only [Device.getAttr] at hunset ⊢
      split
      · rename_i hname
        rw [if_pos hname] at hunset
        cases hunset
      · rfl
    | software => rfl

/-- The ports that accepted changes of attributes lead to. -/
inductive Configured (p : Port) : Port → Prop
  | start : Configured p p
  | setAttr {q : Port} (h : Configured p q) (g : DepGraph) (name : String) (value : Json)
      (hok : (q.setAttr g name value).result = .ok ()) : Configured p (q.setAttr g name value).port

theorem Configured.restorable (h : Configured p q) (hp : Restorable p) : Restorable q := by
  induction h with
  | start => exact hp
  | setAttr _ g name value hok ih => exact ih.setAttr hok

theorem Configured.alike (h : Configured p q) (hp : Alike p p) : Alike p q := by
  induction h with
  | start => exact hp
  | setAttr _ g name value hok ih =>
    obtain ⟨d, -, -, -, -, heq⟩ := setAttr_accepted hok
    have happlied := ih.applyAttr g name value
    rw [heq]
    exact ⟨happlied.id, happlied.device⟩

theorem Configured.attrCache (h : Configured p q) (hp : p.attrCache = []) : q.attrCache = [] := by
  cases h with
  | start => exact hp
  | setAttr _ g name value hok =>
    obtain ⟨d, -, -, -, -, heq⟩ := setAttr_accepted hok
    rw [heq]
    rfl

theorem getAttr_of_no_cache (h : p.attrCache = []) (name : String) :
    (p.getAttr name).1 = p.lookUp name := by
  unfold getAttr
  rw [h]
  cases p.lookUp name <;> rfl

theorem rawValue_loadAttrs_of_refused (hq : Alike p q) {d : AttrDef}
    (hd : p.attrDef? name = some d) (hmodifiable : d.modifiable = true)
    (hset : (p.rawValue name).isNull = false) (hfault : (d.fault (p.rawValue name)).isSome) :
    (q.loadAttrs g p.toRecord).1.rawValue name = q.rawValue name := by
  have hself : Alike p p := hq.trans hq.symm
  refine rawValue_loadAttrs_of_kept hq fun q' w hq' hw => ?_
  rw [get?_toRecord hself hd hmodifiable hset] at hw
  cases hw
  have hother : name ≠ "history_last_timestamp" := by
    have := not_mem_besideNames hself hd hmodifiable
    rintro rfl
    exact this (by decide)
  rw [loadAttr_of_refused ((hq'.attrDef?_eq name).trans hd) hother hfault]

/-- The record of a memory port restores every attribute that can be changed in a new port like
it, whatever changes it has accepted. Expressions that are found too long when they are written,
or that hold a negative zero, are not among them. -/
theorem getAttr_restored {key key' : PortKey} {m m' : MemoryDevice} {isVirtual isVirtual' : Bool}
    {capacity capacity' : Nat} {zone zone' : Zone}
    (hp : Configured (create key (.memory m) isVirtual capacity zone) p) (hid : key'.id = key.id)
    (htype : m'.type = m.type) (hwritable : m'.writable = m.writable)
    (hloop : ∀ deps, p.deps? = some deps → ¬∃ ps, g.IsLoop p.id deps ps) {d : AttrDef}
    (hd : p.attrDef? name = some d) (hmodifiable : d.modifiable = true)
    (hrecoverable : ∀ e, p.expressionAt name = some e → Recoverable e) :
    (((create key' (.memory m') isVirtual' capacity' zone').loadAttrs g p.toRecord).1.getAttr
      name).1 =
      (p.getAttr name).1 := by
  have hself : Device.Alike (.memory m) (.memory m) := .memory rfl rfl
  have hrestorable := hp.restorable (restorable_create hself key isVirtual capacity zone)
  have halike : Alike p (create key' (.memory m') isVirtual' capacity' zone') :=
    (hp.alike ⟨rfl, hself⟩).symm.trans ⟨hid, .memory htype hwritable⟩
  have hraw :
    ((create key' (.memory m') isVirtual' capacity' zone').loadAttrs g p.toRecord).1.rawValue
      name = p.rawValue name := by
    cases hset : (p.rawValue name).isNull with
    | false => exact hrestorable.rawValue_loadAttrs halike hd hmodifiable hset hloop hrecoverable
    | true =>
      have hnull : p.rawValue name = .null := by
        cases hv : p.rawValue name <;> simp_all [Json.isNull]
      rw [rawValue_loadAttrs_of_absent halike
        (get?_toRecord_of_unset hrestorable.alike hd hmodifiable hset), hnull]
      exact rawValue_create_of_unset halike.device hnull
  have hdef := (halike.loadAttrs g p.toRecord).attrDef?_eq name
  have hcache :
    ((create key' (.memory m') isVirtual' capacity' zone').loadAttrs g p.toRecord).1.attrCache =
      [] := rfl
  rw [getAttr_of_no_cache hcache, getAttr_of_no_cache (hp.attrCache rfl), lookUp, lookUp, hdef,
    hraw]

/-- Configured step by step, then restored among ports that it depends on. -/
theorem getAttr_restored_sum :
    let tank := create ⟨"tank", 0⟩ (.memory { type := .number, writable := true }) false 8
    let g : DepGraph := [("a", [.port "b"])]
    let p := ((tank.setAttr g "min" (.int 5)).port.setAttr g "expression"
      (.str "ADD($a,2.50)")).port
    let fresh := create ⟨"tank", 3⟩ (.memory { type := .number, writable := true }) false 4
    ((fresh.loadAttrs g p.toRecord).1.getAttr "expression").1 = (p.getAttr "expression").1 := by
  intro tank g p fresh
  have hmin : (tank.setAttr g "min" (.int 5)).result = .ok () := by decide +kernel
  have hsum : ((tank.setAttr g "min" (.int 5)).port.setAttr g "expression"
      (.str "ADD($a,2.50)")).result = .ok () := by decide +kernel
  have hdeps : p.deps? = some [.port "a"] := by decide +kernel
  have hrecoverable : p.expression.all (fun e => decide (Recoverable e)) = true := by decide +kernel
  have hdef : (p.attrDef? "expression").any (fun d => d.modifiable) = true := by decide +kernel
  obtain ⟨d, hd, hmodifiable⟩ := (Option.any_eq_true _ _).mp hdef
  have hid : p.id = "tank" := by decide +kernel
  have hloop : ∀ deps, p.deps? = some deps → ¬∃ ps, g.IsLoop p.id deps ps := by
    intro deps h
    obtain rfl := Option.some.inj (hdeps.symm.trans h)
    rw [hid, ← DepGraph.findLoop_eq_none_iff]
    decide +kernel
  refine getAttr_restored (.setAttr (.setAttr .start g _ _ hmin) g _ _ hsum) rfl rfl rfl hloop hd
    hmodifiable fun e he => ?_
  rw [show p.expression = some e from he] at hrecoverable
  exact of_decide_eq_true hrecoverable

theorem expression_lost {key key' : PortKey} {m m' : MemoryDevice} {isVirtual isVirtual' : Bool}
    {capacity capacity' : Nat} {zone zone' : Zone}
    (hp : Configured (create key (.memory m) isVirtual capacity zone) p) (hid : key'.id = key.id)
    (htype : m'.type = m.type) (hwritable : m'.writable = m.writable) {d : AttrDef}
    (hd : p.attrDef? "expression" = some d) {e : Expr} (he : p.expression = some e)
    (hlong : expressionLength < e.text.length) (hlength : e.text.length < 2 ^ 53) :
    (p.getAttr "expression").1 = some (.str e.text) ∧
      (((create key' (.memory m') isVirtual' capacity' zone').loadAttrs g p.toRecord).1.getAttr
        "expression").1 = none := by
  have hself : Device.Alike (.memory m) (.memory m) := .memory rfl rfl
  have halike : Alike p (create key' (.memory m') isVirtual' capacity' zone') :=
    (hp.alike ⟨rfl, hself⟩).symm.trans ⟨hid, .memory htype hwritable⟩
  have hstandard : StandardAttr.def? "expression" = some d :=
    (attrDef?_cases (halike.trans halike.symm) hd).resolve_right fun h => absurd h.1 (by decide)
  obtain ⟨hmodifiable, hdefault, hfault⟩ : d.modifiable = true ∧ d.default = none ∧
      d.fault (.str e.text) = some .lengthOutOfRange := by
    cases hstandard
    exact ⟨rfl, rfl, fault_longText (n := expressionLength) rfl rfl hlong hlength⟩
  have hraw : p.rawValue "expression" = .str e.text := by
    rw [rawValue_eq_text (by decide), show p.expressionAt "expression" = some e from he,
      Json.ofOption]
  have hset : (p.rawValue "expression").isNull = false := by
    rw [hraw]
    rfl
  have hlost := rawValue_loadAttrs_of_refused (g := g) halike hd hmodifiable hset
    (by rw [hraw, hfault]; rfl)
  have hfresh : (create key' (.memory m') isVirtual' capacity' zone').rawValue "expression" =
    .null := rfl
  have hdef := (halike.loadAttrs g p.toRecord).attrDef?_eq "expression"
  have hcache :
    ((create key' (.memory m') isVirtual' capacity' zone').loadAttrs g p.toRecord).1.attrCache =
      [] := rfl
  rw [getAttr_of_no_cache hcache, getAttr_of_no_cache (hp.attrCache rfl), lookUp, lookUp, hdef, hd,
    hlost, hfresh, hraw]
  exact ⟨rfl, hdefault⟩

/-- Whether a term is a number whose text is long. -/
def isGoogol : Expr → Bool
  | .const (.num x) => x = 1e100
  | _ => false

/-- Whether a term adds up eleven numbers whose texts are long. -/
def addsGoogols : Expr → Bool
  | .call f _ _ args => f = .add ∧ args.length = 11 ∧ args.all isGoogol
  | _ => false

theorem exists_long_text :
    ∃ p e, Configured
        (create ⟨"tank", 0⟩ (.memory { type := .number, writable := true }) false 8) p ∧
      p.expression = some e ∧ p.deps? = some [.asap] ∧ e.text.length = 1136 := by
  let tank := create ⟨"tank", 0⟩ (.memory { type := .number, writable := true }) false 8
  let sum := "ADD(1e100,1e100,1e100,1e100,1e100,1e100,1e100,1e100,1e100,1e100,1e100)"
  have hok : (tank.setAttr [] "expression" (.str sum)).result = .ok () := by decide +kernel
  have hdeps : (tank.setAttr [] "expression" (.str sum)).port.deps? = some [.asap] := by
    decide +kernel
  have hread : (tank.setAttr [] "expression" (.str sum)).port.expression.any addsGoogols =
    true := by
    decide +kernel
  obtain ⟨e, he, hshape⟩ := (Option.any_eq_true _ _).mp hread
  refine ⟨_, e, .setAttr .start [] _ _ hok, he, hdeps, ?_⟩
  unfold addsGoogols at hshape
  split at hshape
  · rename_i args
    obtain ⟨rfl, hcount, hall⟩ := of_decide_eq_true hshape
    have hlength : (Decimal.plain.text 1e100).length = 101 := by decide +kernel
    have hargs : ∀ a ∈ args, a.text.length = 101 := by
      intro a ha
      have hnumber := List.all_eq_true.mp hall a ha
      unfold isGoogol at hnumber
      split at hnumber
      · rw [of_decide_eq_true hnumber]
        exact hlength
      · cases hnumber
    have hsum := Expr.length_textOfArgs (List.ne_nil_of_length_eq_add_one hcount) hargs
    have hname : Func.add.name.length = 3 := rfl
    have hopen : ("(" : String).length = 1 := rfl
    have hclose : (")" : String).length = 1 := rfl
    rw [Expr.text, String.length_append, String.length_append, String.length_append, hname,
      hopen, hclose]
    omega
  · cases hshape

theorem getAttr_not_restored :
    ∃ p, Configured
        (create ⟨"tank", 0⟩ (.memory { type := .number, writable := true }) false 8) p ∧
      (∀ deps, p.deps? = some deps → ¬∃ ps, DepGraph.IsLoop [] p.id deps ps) ∧
      (p.attrDef? "expression").any (fun d => d.modifiable) = true ∧
      (((create ⟨"tank", 3⟩ (.memory { type := .number, writable := true }) false 4).loadAttrs []
        p.toRecord).1.getAttr "expression").1 ≠ (p.getAttr "expression").1 := by
  obtain ⟨p, e, hp, he, hdeps, hlength⟩ := exists_long_text
  have hdevice : Device.Alike (.memory { type := .number, writable := true })
      (.memory { type := .number, writable := true }) := .memory rfl rfl
  have htank := hp.alike ⟨rfl, hdevice⟩
  obtain ⟨d, hd, hmodifiable⟩ :
      ∃ d, p.attrDef? "expression" = some d ∧ d.modifiable = true := by
    rw [htank.attrDef?_eq]
    exact ⟨_, rfl, rfl⟩
  have hlong : expressionLength < e.text.length := by
    rw [hlength]
    decide
  refine ⟨p, hp, ?_, ?_, ?_⟩
  · intro deps h
    obtain rfl := Option.some.inj (hdeps.symm.trans h)
    rw [← DepGraph.findLoop_eq_none_iff]
    rfl
  · rw [hd]
    exact hmodifiable
  · obtain ⟨hbefore, hafter⟩ := @expression_lost p [] _ ⟨"tank", 3⟩ _
      { type := .number, writable := true } _ false _ 4 _ .utc hp rfl rfl rfl d hd e he hlong
        (by omega)
    rw [hbefore, hafter]
    exact (Option.some_ne_none _).symm

end ControlNode.Port
