import ControlNode.Proofs.Store.Comparisons

/-!
# Sorting records

Each value of a field has a place in one linear order, which is where its kind stands and then
what it is within its kind (`compareField_eq`). So the comparison of records by any keys is a
total preorder, that of ids a total order, and the sort a stable one (`sorting_lawful`).
-/

namespace ControlNode

open Std (TransCmp OrientedCmp ReflCmp LawfulEqCmp)

/-! ### Comparisons -/

section Comparisons

variable {α β : Type}

theorem transCmp_comap {cmp : β → β → Ordering} [TransCmp cmp] (f : α → β) :
    TransCmp fun a b => cmp (f a) (f b) where
  eq_swap := OrientedCmp.eq_swap
  isLE_trans := TransCmp.isLE_trans

theorem transCmp_swap {cmp : α → α → Ordering} [TransCmp cmp] :
    TransCmp fun a b => (cmp a b).swap where
  eq_swap {a b} := by
    have hswap : cmp a b = (cmp b a).swap := OrientedCmp.eq_swap
    rw [hswap]
  isLE_trans {a b c} hab hbc := by
    have hswap : ∀ x y, cmp x y = (cmp y x).swap := fun _ _ => OrientedCmp.eq_swap
    rw [← hswap] at hab hbc ⊢
    exact TransCmp.isLE_trans hbc hab

def notBehind (cmp : α → α → Ordering) (a b : α) : Bool := cmp a b != .gt

variable {cmp : α → α → Ordering}

theorem notBehind_iff {a b : α} : notBehind cmp a b = true ↔ (cmp a b).isLE = true := by
  rw [notBehind, bne_iff_ne, ne_eq, Ordering.ne_gt_iff_isLE]

theorem map_mergeSort_cmp (cmp : β → β → Ordering) (f : α → β) (l : List α) :
    (l.mergeSort (notBehind fun a b => cmp (f a) (f b))).map f =
      (l.map f).mergeSort (notBehind cmp) :=
  List.map_mergeSort fun _ _ _ _ => rfl

variable [TransCmp cmp]

theorem notBehind_trans (a b c : α) (hab : notBehind cmp a b = true)
    (hbc : notBehind cmp b c = true) : notBehind cmp a c = true := by
  rw [notBehind_iff] at hab hbc ⊢
  exact TransCmp.isLE_trans hab hbc

theorem notBehind_total (a b : α) : (notBehind cmp a b || notBehind cmp b a) = true := by
  have hswap : cmp b a = (cmp a b).swap := OrientedCmp.eq_swap
  unfold notBehind
  rw [hswap]
  cases cmp a b <;> rfl

theorem pairwise_mergeSort_cmp (l : List α) :
    (l.mergeSort (notBehind cmp)).Pairwise fun a b => cmp a b ≠ .gt :=
  (List.pairwise_mergeSort notBehind_trans notBehind_total l).imp fun h => bne_iff_ne.mp h

/-- What compares equal to `x` comes out as it went in. -/
theorem filter_mergeSort_cmp (x : α) (l : List α) :
    (l.mergeSort (notBehind cmp)).filter (fun a => cmp x a == .eq) =
      l.filter fun a => cmp x a == .eq := by
  have hequal : (l.filter fun a => cmp x a == .eq).Pairwise fun a b =>
      notBehind cmp a b = true := by
    refine List.pairwise_of_forall_mem_list fun a ha b hb => ?_
    have hxa : cmp x a = .eq := beq_iff_eq.mp (List.mem_filter.mp ha).2
    have hxb : cmp x b = .eq := beq_iff_eq.mp (List.mem_filter.mp hb).2
    have hab : cmp a b = .eq := by
      rw [← TransCmp.congr_left hxa, hxb]
    rw [notBehind, hab]
    rfl
  -- what compares equal is in order already, so it survives the sort as a sublist, and nothing
  -- else joins it since the sort is a permutation
  have hsub := List.sublist_mergeSort notBehind_trans notBehind_total hequal List.filter_sublist
  have hkept := hsub.filter fun a => cmp x a == .eq
  rw [List.filter_filter] at hkept
  simp only [Bool.and_self] at hkept
  have hlen := ((List.mergeSort_perm l (notBehind cmp)).filter fun a => cmp x a == .eq).length_eq
  exact (hkept.eq_of_length hlen.symm).symm

end Comparisons

/-! ### Places -/

/-- Where a value stands: by its kind, then within its kind. -/
structure Place where
  kind : ℕ
  late : Bool
  integer : ℤ
  number : ℚ
  text : String

namespace Place

def cmp : Place → Place → Ordering :=
  compareLex (compareOn Place.kind) (compareLex (compareOn Place.late)
    (compareLex (compareOn Place.integer) (compareLex (compareOn Place.number)
      (compareOn Place.text))))

instance : TransCmp cmp := inferInstanceAs (TransCmp (compareLex _ _))

theorem cmp_self (p : Place) : p.cmp p = .eq := ReflCmp.compare_self

theorem cmp_of_kind_ne {p q : Place} (h : p.kind ≠ q.kind) :
    p.cmp q = compare p.kind q.kind := by
  have hne : compare p.kind q.kind ≠ .eq := fun heq => h (Std.compare_eq_iff_eq.mp heq)
  show (compare p.kind q.kind).then _ = _
  cases hc : compare p.kind q.kind with
  | eq => exact absurd hc hne
  | _ => rfl

end Place

def idPlace (id : String) : Place :=
  match Decimal.readInt64? id.toList with
  | some n => ⟨3, false, n, 0, id⟩
  | none => ⟨3, true, 0, 0, id⟩

theorem idPlace_text (id : String) : (idPlace id).text = id := by
  unfold idPlace
  split <;> rfl

theorem compareIds_eq (a b : String) : compareIds a b = (idPlace a).cmp (idPlace b) := by
  unfold compareIds idPlace
  cases Decimal.readInt64? a.toList with
  | none =>
    cases Decimal.readInt64? b.toList with
    | none => simp [Place.cmp, compareLex, compareOn]
    | some y => rfl
  | some x =>
    cases Decimal.readInt64? b.toList with
    | none => rfl
    | some y => simp [Place.cmp, compareLex, compareOn]

instance : TransCmp compareIds := by
  have heq : compareIds = fun a b => (idPlace a).cmp (idPlace b) :=
    funext fun a => funext fun b => compareIds_eq a b
  rw [heq]
  exact transCmp_comap idPlace

instance : LawfulEqCmp compareIds where
  compare_self {a} := by
    rw [compareIds_eq]
    exact Place.cmp_self (idPlace a)
  eq_of_compare {a b} h := by
    rw [compareIds_eq] at h
    simp only [Place.cmp, compareLex, compareOn, Ordering.then_eq_eq] at h
    have htext := Std.compare_eq_iff_eq.mp h.2.2.2.2
    rwa [idPlace_text, idPlace_text] at htext

def valuePlace (field : String) : Json → Place
  | .bool b => ⟨1, b, 0, 0, ""⟩
  | .int n => ⟨2, false, 0, (Binary64.parts (Binary64.ofInt n)).value, ""⟩
  | .float x => ⟨2, false, 0, (Binary64.parts x).value, ""⟩
  | .str s => if field = "id" then idPlace s else ⟨3, false, 0, 0, s⟩
  | j => ⟨j.kindRank, false, 0, 0, ""⟩

theorem valuePlace_kind (field : String) (j : Json) : (valuePlace field j).kind = j.kindRank := by
  cases j with
  | str s =>
    rw [valuePlace]
    split
    · unfold idPlace
      split <;> rfl
    · rfl
  | _ => rfl

theorem valuePlace_of_asFloat? {j : Json} {x : Float} (hx : j.asFloat? = some x)
    (field : String) : valuePlace field j = ⟨2, false, 0, (Binary64.parts x).value, ""⟩ := by
  cases j with
  | int n =>
    cases hx
    rfl
  | float y =>
    cases hx
    rfl
  | _ => cases hx

/-- The order of two values that are there, as `compareField` takes it. -/
def compareShown (field : String) (a b : Json) : Ordering :=
  match a, b, decide (field = "id") with
  | .str x, .str y, true => compareIds x y
  | a, b, _ => (a.compareScalars? b).getD (compare a.kindRank b.kindRank)

theorem compareShown_of_comparable (field : String) {a b : Json} (ha : a.WellFormed)
    (hb : b.WellFormed) (h : a.comparable b = true) :
    compareShown field a b = (valuePlace field a).cmp (valuePlace field b) := by
  rcases Json.comparable_cases h with ⟨s, t, rfl, rfl⟩ | ⟨s, t, rfl, rfl⟩ | ⟨x, y, hx, hy⟩
  · rw [valuePlace, valuePlace]
    by_cases hid : field = "id"
    · rw [if_pos hid, if_pos hid, ← compareIds_eq]
      unfold compareShown
      rw [decide_eq_true hid]
    · rw [if_neg hid, if_neg hid]
      unfold compareShown
      rw [decide_eq_false hid]
      simp [Json.compareScalars?, Place.cmp, compareLex, compareOn]
  · simp [compareShown, valuePlace, Json.compareScalars?, Place.cmp, compareLex, compareOn]
  · have hscalars := Json.compareScalars?_numbers ha hb hx hy
    rw [valuePlace_of_asFloat? hx, valuePlace_of_asFloat? hy]
    unfold compareShown
    split
    · cases hx
    · rw [hscalars]
      simp [Place.cmp, compareLex, compareOn]

theorem valuePlace_eq (field : String) {a b : Json} (h : a.comparable b = false)
    (hkind : a.kindRank = b.kindRank) : valuePlace field a = valuePlace field b := by
  cases a <;> cases b <;>
    simp [Json.comparable, Json.asFloat?, Json.kindRank, valuePlace] at h hkind ⊢

theorem compareShown_eq (field : String) {a b : Json} (ha : a.WellFormed) (hb : b.WellFormed) :
    compareShown field a b = (valuePlace field a).cmp (valuePlace field b) := by
  cases h : a.comparable b with
  | true => exact compareShown_of_comparable field ha hb h
  | false =>
    have hranks : compareShown field a b = compare a.kindRank b.kindRank := by
      unfold compareShown
      split
      · cases h
      · rw [Json.compareScalars?_eq_none h]
        rfl
    rw [hranks]
    by_cases hkind : a.kindRank = b.kindRank
    · rw [valuePlace_eq field h hkind, Place.cmp_self, Std.compare_eq_iff_eq]
      exact hkind
    · have hne : (valuePlace field a).kind ≠ (valuePlace field b).kind := by
        rwa [valuePlace_kind, valuePlace_kind]
      rw [Place.cmp_of_kind_ne hne, valuePlace_kind, valuePlace_kind]

theorem shown_cases (a : Option Json) :
    (a.filter fun j => !j.isNull) = none ∧ a.getD .null = .null ∨
      (a.filter fun j => !j.isNull) = some (a.getD .null) ∧ 0 < (a.getD .null).kindRank := by
  cases a with
  | none => exact Or.inl ⟨rfl, rfl⟩
  | some j =>
    cases j with
    | null => exact Or.inl ⟨rfl, rfl⟩
    | _ => exact Or.inr ⟨rfl, Nat.succ_pos _⟩

/-- A missing value stands where null stands. -/
theorem compareField_eq (field : String) {a b : Option Json} (ha : (a.getD .null).WellFormed)
    (hb : (b.getD .null).WellFormed) :
    compareField field a b =
      (valuePlace field (a.getD .null)).cmp (valuePlace field (b.getD .null)) := by
  unfold compareField
  rcases shown_cases a with ⟨hsa, hna⟩ | ⟨hsa, hka⟩ <;>
    rcases shown_cases b with ⟨hsb, hnb⟩ | ⟨hsb, hkb⟩
  · rw [hsa, hsb, hna, hnb]
    exact (Place.cmp_self _).symm
  · have hlt : compare 0 (b.getD .null).kindRank = .lt := Nat.compare_eq_lt.mpr hkb
    rw [hsa, hsb, hna, Place.cmp_of_kind_ne, valuePlace_kind, valuePlace_kind]
    · exact hlt.symm
    · rw [valuePlace_kind, valuePlace_kind]
      exact hkb.ne
  · have hgt : compare (a.getD .null).kindRank 0 = .gt := Nat.compare_eq_gt.mpr hka
    rw [hsa, hsb, hnb, Place.cmp_of_kind_ne, valuePlace_kind, valuePlace_kind]
    · exact hgt.symm
    · rw [valuePlace_kind, valuePlace_kind]
      exact hka.ne'
  · rw [hsa, hsb]
    exact compareShown_eq field ha hb

/-! ### Records -/

theorem transCmp_compareRecords (keys : List SortKey) :
    TransCmp fun a b : {r : Record // r.WellFormed} => compareRecords keys a.1 b.1 := by
  induction keys with
  | nil => exact { eq_swap := rfl, isLE_trans := fun _ _ => rfl }
  | cons k keys ih =>
    have hplaces : (fun a b : {r : Record // r.WellFormed} =>
        compareField k.field (Dict.get? a.1 k.field) (Dict.get? b.1 k.field)) =
        fun a b => (valuePlace k.field ((Dict.get? a.1 k.field).getD .null)).cmp
          (valuePlace k.field ((Dict.get? b.1 k.field).getD .null)) :=
      funext fun a => funext fun b => compareField_eq k.field (a.2.getD _) (b.2.getD _)
    have hfield : TransCmp fun a b : {r : Record // r.WellFormed} =>
        compareField k.field (Dict.get? a.1 k.field) (Dict.get? b.1 k.field) := by
      rw [hplaces]
      exact transCmp_comap fun a : {r : Record // r.WellFormed} =>
        valuePlace k.field ((Dict.get? a.1 k.field).getD .null)
    have hkey : TransCmp fun a b : {r : Record // r.WellFormed} =>
        let o := compareField k.field (Dict.get? a.1 k.field) (Dict.get? b.1 k.field)
        if k.descending then o.swap else o := by
      cases k.descending with
      | false => exact hfield
      | true => exact transCmp_swap
    exact inferInstanceAs (TransCmp (compareLex _ _))

/-- Sorting permutes records into the order of the keys and leaves those that compare equal as
they were. -/
theorem sortRecords_spec (keys : List SortKey) {rs : List Record} (h : ∀ r ∈ rs, r.WellFormed) :
    (sortRecords keys rs).Perm rs ∧
      (sortRecords keys rs).Pairwise (fun a b => compareRecords keys a b ≠ .gt) ∧
      ∀ r : Record, r.WellFormed →
        (sortRecords keys rs).filter (fun a => compareRecords keys r a == .eq) =
          rs.filter fun a => compareRecords keys r a == .eq := by
  -- the laws hold of well-formed records only, so the sort is carried over to the subtype
  have htrans := transCmp_compareRecords keys
  let cmp := fun a b : {r : Record // r.WellFormed} => compareRecords keys a.1 b.1
  let ws := rs.attachWith Record.WellFormed h
  have hvals : ws.map Subtype.val = rs := List.attachWith_map_subtype_val h
  have hsort : sortRecords keys rs = (ws.mergeSort (notBehind cmp)).map Subtype.val := by
    rw [map_mergeSort_cmp, hvals]
    rfl
  refine ⟨List.mergeSort_perm .., ?_, fun r hr => ?_⟩
  · rw [hsort, List.pairwise_map]
    exact pairwise_mergeSort_cmp ws
  · have hkept : (ws.mergeSort (notBehind cmp)).filter (fun a => cmp ⟨r, hr⟩ a == .eq) =
        ws.filter fun a => cmp ⟨r, hr⟩ a == .eq := filter_mergeSort_cmp ⟨r, hr⟩ ws
    have hmapped := congrArg (List.map Subtype.val) hkept
    rw [hsort]
    conv_rhs => rw [← hvals]
    rw [List.filter_map, List.filter_map]
    exact hmapped

/-- Records are sorted by a total preorder, whatever the keys and the values; it orders ids
strictly, integers before all others and by number. -/
theorem sorting_lawful (keys : List SortKey) :
    (TransCmp fun a b : {r : Record // r.WellFormed} => compareRecords keys a.1 b.1) ∧
    TransCmp compareIds ∧ LawfulEqCmp compareIds ∧
    (∀ a b x, Decimal.readInt64? a.toList = some x → Decimal.readInt64? b.toList = none →
      compareIds a b = .lt) ∧
    (∀ a b x y, Decimal.readInt64? a.toList = some x → Decimal.readInt64? b.toList = some y →
      x < y → compareIds a b = .lt) ∧
    ∀ rs : List Record, (∀ r ∈ rs, r.WellFormed) →
      (sortRecords keys rs).Perm rs ∧
      (sortRecords keys rs).Pairwise (fun a b => compareRecords keys a b ≠ .gt) ∧
      ∀ r : Record, r.WellFormed →
        (sortRecords keys rs).filter (fun a => compareRecords keys r a == .eq) =
          rs.filter fun a => compareRecords keys r a == .eq := by
  refine ⟨transCmp_compareRecords keys, inferInstance, inferInstance, ?_, ?_, ?_⟩
  · intro a b x ha hb
    rw [compareIds, ha, hb]
  · intro a b x y ha hb hlt
    rw [compareIds, ha, hb]
    change (compare x y).then (compare a b) = .lt
    rw [compare_lt_iff_lt.mpr hlt]
    rfl
  · exact fun rs h => sortRecords_spec keys h

/-- Records with ids of several kinds and without one. -/
def mixedIds : List Record :=
  [[("id", .str "b")], [("id", .int 3)], [("id", .str "10")], [], [("id", .str "9")]]

theorem mixedIds_sorted :
    (∀ r ∈ mixedIds, r.WellFormed) ∧ compareIds "9" "b" = .lt ∧ compareIds "9" "10" = .lt ∧
      (sortRecords [⟨"id", true⟩] mixedIds).Perm mixedIds ∧
      (sortRecords [⟨"id", true⟩] mixedIds).Pairwise
        (fun a b => compareRecords [⟨"id", true⟩] a b ≠ .gt) := by
  have htext : ∀ s, Record.WellFormed [("id", .str s)] := fun s =>
    .obj (List.pairwise_singleton ..) (by simpa using .str s)
  have hwf : ∀ r ∈ mixedIds, r.WellFormed := by
    simp only [mixedIds, List.forall_mem_cons]
    refine ⟨htext _, .obj (List.pairwise_singleton ..) ?_, htext _, .obj .nil (by simp), htext _,
      by simp⟩
    simpa using .int (n := 3) (by decide) (by decide)
  have hlaws := sorting_lawful [⟨"id", true⟩]
  obtain ⟨hperm, hordered, -⟩ := hlaws.2.2.2.2.2 mixedIds hwf
  exact ⟨hwf, hlaws.2.2.2.1 "9" "b" 9 (by decide) (by decide),
    hlaws.2.2.2.2.1 "9" "10" 9 10 (by decide) (by decide) (by decide), hperm, hordered⟩

end ControlNode
