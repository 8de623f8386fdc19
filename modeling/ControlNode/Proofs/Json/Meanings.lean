import ControlNode.Proofs.Decimal.Comparison
import ControlNode.Proofs.Json.WellFormed

/-!
# Meanings of values

Two values are equivalent if they mean the same: numbers of either kind count by the number that
they stand for, everything else as it is (`equiv_iff_meaning`). So equivalence is one
(`equiv_equivalence`), although objects are compared by their size and by looking up the fields
of one of them in the other only.
-/

namespace ControlNode

/-- A value whose numbers are rational numbers. -/
inductive Meaning where
  | null
  | bool (b : Bool)
  | number (q : ℚ)
  | str (s : String)
  | arr (items : List Meaning)
  | obj (fields : List (String × Meaning))

namespace Json

mutual

def meaning : Json → Meaning
  | .null => .null
  | .bool b => .bool b
  | .int n => .number (Binary64.parts (Binary64.ofInt n)).value
  | .float x => .number (Binary64.parts x).value
  | .str s => .str s
  | .arr items => .arr (meaningItems items)
  | .obj fields => .obj (meaningFields fields)
termination_by structural j => j

def meaningItems : List Json → List Meaning
  | [] => []
  | a :: as => meaning a :: meaningItems as
termination_by structural as => as

def meaningFields : List (String × Json) → List (String × Meaning)
  | [] => []
  | (k, a) :: as => (k, meaning a) :: meaningFields as
termination_by structural as => as

end

theorem meaningItems_eq (items : List Json) : meaningItems items = items.map meaning := by
  induction items with
  | nil => rfl
  | cons a items ih => rw [meaningItems, ih, List.map_cons]

theorem meaningFields_eq (fields : List (String × Json)) :
    meaningFields fields = fields.map fun e => (e.1, e.2.meaning) := by
  induction fields with
  | nil => rfl
  | cons e fields ih =>
    obtain ⟨k, a⟩ := e
    rw [meaningFields, ih, List.map_cons]

/-! ### Numbers -/

theorem WellFormed.asFloat? {j : Json} (h : j.WellFormed) {x : Float} (hx : j.asFloat? = some x) :
    Binary64.isFinite x = true ∧ j.meaning = .number (Binary64.parts x).value := by
  cases h with
  | int low high =>
    cases hx
    exact ⟨Binary64.isFinite_ofInt_of_word ⟨low, high⟩, rfl⟩
  | float finite =>
    cases hx
    exact ⟨finite, rfl⟩
  | _ => cases hx

theorem equiv_of_asFloat? {a b : Json} {x y : Float} (hx : a.asFloat? = some x)
    (hy : b.asFloat? = some y) : a.equiv b = (x == y) := by
  cases a with
  | int m =>
    cases b with
    | int n =>
      cases hx
      cases hy
      rfl
    | float y =>
      cases hx
      cases hy
      rfl
    | _ => cases hy
  | float x =>
    cases b with
    | int n =>
      cases hx
      cases hy
      rfl
    | float y =>
      cases hx
      cases hy
      rfl
    | _ => cases hy
  | _ => cases hx

theorem equiv_numbers {a b : Json} (ha : a.WellFormed) (hb : b.WellFormed) {x y : Float}
    (hx : a.asFloat? = some x) (hy : b.asFloat? = some y) :
    a.equiv b = true ↔ a.meaning = b.meaning := by
  obtain ⟨hxfin, hxmean⟩ := ha.asFloat? hx
  obtain ⟨hyfin, hymean⟩ := hb.asFloat? hy
  rw [equiv_of_asFloat? hx hy, Binary64.beq_iff_value hxfin hyfin, hxmean, hymean,
    Meaning.number.injEq]

/-! ### Lists and objects -/

theorem equivItems_iff {as bs : List Json}
    (h : ∀ a ∈ as, ∀ b ∈ bs, (a.equiv b = true ↔ a.meaning = b.meaning)) :
    equivItems as bs = true ↔ as.map meaning = bs.map meaning := by
  induction as generalizing bs with
  | nil => cases bs <;> simp [equivItems]
  | cons a as ih =>
    cases bs with
    | nil => simp [equivItems]
    | cons b bs =>
      have hhead := h a (List.mem_cons_self ..) b (List.mem_cons_self ..)
      have htail : equivItems as bs = true ↔ as.map meaning = bs.map meaning :=
        ih fun x hx y hy => h x (List.mem_cons_of_mem _ hx) y (List.mem_cons_of_mem _ hy)
      rw [equivItems, Bool.and_eq_true, hhead, htail, List.map_cons, List.map_cons,
        List.cons.injEq]

theorem equivFields_iff (as bs : List (String × Json)) :
    equivFields as bs = true ↔
      ∀ e ∈ as, ∃ b, Dict.get? bs e.1 = some b ∧ e.2.equiv b = true := by
  induction as with
  | nil => simp [equivFields]
  | cons e as ih =>
    obtain ⟨k, a⟩ := e
    rw [equivFields, Bool.and_eq_true, ih, List.forall_mem_cons]
    cases Dict.get? bs k <;> simp

/-- Objects of one size are the same as soon as each field of one is found in the other, since
neither has a key twice. -/
theorem equivObjects_iff {as bs : List (String × Json)} (has : Dict.Sorted as)
    (hbs : Dict.Sorted bs)
    (h : ∀ e ∈ as, ∀ b, (e.1, b) ∈ bs → (e.2.equiv b = true ↔ e.2.meaning = b.meaning)) :
    (as.length == bs.length && equivFields as bs) = true ↔
      as.map (fun e => (e.1, e.2.meaning)) = bs.map (fun e => (e.1, e.2.meaning)) := by
  rw [Bool.and_eq_true, beq_iff_eq, equivFields_iff]
  constructor
  · rintro ⟨hlen, hfound⟩
    apply Dict.eq_of_subset
    · exact List.pairwise_map.mpr has
    · exact List.pairwise_map.mpr hbs
    · intro x hx
      obtain ⟨e, he, rfl⟩ := List.mem_map.mp hx
      obtain ⟨b, hget, hequiv⟩ := hfound e he
      have hmem := Dict.mem_of_get? hget
      rw [(h e he b hmem).mp hequiv]
      exact List.mem_map.mpr ⟨(e.1, b), hmem, rfl⟩
    · simpa using hlen
  · intro hsame
    have hlen := congrArg List.length hsame
    rw [List.length_map, List.length_map] at hlen
    refine ⟨hlen, fun e he => ?_⟩
    have hmem : (e.1, e.2.meaning) ∈ bs.map (fun e => (e.1, e.2.meaning)) :=
      hsame ▸ List.mem_map.mpr ⟨e, he, rfl⟩
    obtain ⟨⟨k, b⟩, hb, heq⟩ := List.mem_map.mp hmem
    obtain ⟨rfl, hmeaning⟩ := Prod.mk.inj heq
    exact ⟨b, Dict.get?_of_mem hbs hb, (h e he b hb).mpr hmeaning.symm⟩

/-! ### Equivalence -/

theorem equiv_iff_meaning {a b : Json} (ha : a.WellFormed) (hb : b.WellFormed) :
    a.equiv b = true ↔ a.meaning = b.meaning := by
  induction ha generalizing b with
  | null => cases b <;> simp [equiv, meaning]
  | bool x => cases b <;> simp [equiv, meaning]
  | str s => cases b <;> simp [equiv, meaning]
  | int low high =>
    cases hb with
    | int low' high' => exact equiv_numbers (.int low high) (.int low' high') rfl rfl
    | float finite => exact equiv_numbers (.int low high) (.float finite) rfl rfl
    | _ => simp [equiv, meaning]
  | float finite =>
    cases hb with
    | int low high => exact equiv_numbers (.float finite) (.int low high) rfl rfl
    | float finite' => exact equiv_numbers (.float finite) (.float finite') rfl rfl
    | _ => simp [equiv, meaning]
  | arr _ ih =>
    cases hb with
    | arr hitems =>
      rw [equiv, equivItems_iff fun a ha b hb => ih a ha (hitems b hb), meaning, meaning,
        meaningItems_eq, meaningItems_eq, Meaning.arr.injEq]
    | _ => simp [equiv, meaning]
  | obj hsorted _ ih =>
    cases hb with
    | obj hsorted' hentries =>
      rw [equiv, equivObjects_iff hsorted hsorted' fun e he b hb => ih e he (hentries _ hb),
        meaning, meaning, meaningFields_eq, meaningFields_eq, Meaning.obj.injEq]
    | _ => simp [equiv, meaning]

/-- Equivalence of well-formed values is reflexive, symmetric and transitive. -/
theorem equiv_equivalence :
    Equivalence fun a b : {j : Json // j.WellFormed} => a.1.equiv b.1 = true where
  refl a := (equiv_iff_meaning a.2 a.2).mpr rfl
  symm {a b} h := by
    have hmeaning := (equiv_iff_meaning a.2 b.2).mp h
    exact (equiv_iff_meaning b.2 a.2).mpr hmeaning.symm
  trans {a b c} hab hbc := by
    have hfirst := (equiv_iff_meaning a.2 b.2).mp hab
    have hsecond := (equiv_iff_meaning b.2 c.2).mp hbc
    exact (equiv_iff_meaning a.2 c.2).mpr (hfirst.trans hsecond)

end Json

end ControlNode
