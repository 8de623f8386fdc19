import ControlNode.Proofs.Store.Records

/-!
# Rejected updates and removals

An update and a removal are rejected where the filter is invalid for some record of the
collection. A filter that is invalid for one record finds no other one either, so that no
record has been changed by then and the store is as before (`Store.unchanged_of_rejected`).
-/

namespace ControlNode

namespace Filter

/-- The filter is invalid for a record. -/
def FailsAt (f : Filter) (r : Record) : Prop := ∃ e, f.matchesRecord r = .error e

theorem not_finds_of_failsAt {f : Filter} {r : Record} (h : f.FailsAt r) (other : Record) :
    f.matchesRecord other ≠ .ok true := by
  intro hother
  obtain ⟨e, he⟩ := h
  obtain ⟨hit, hhit⟩ := matchesRecord_valid hother r
  rw [he] at hhit
  cases hhit

/-- A scan fails exactly where the filter is invalid for one of the records. -/
theorem select_fails_iff (f : Filter) (rs : List Record) :
    (∃ e, f.select rs = .error e) ↔ ∃ r ∈ rs, f.FailsAt r := by
  induction rs with
  | nil => simp [select]
  | cons r rs ih =>
    rw [List.exists_mem_cons_iff, ← ih]
    cases hm : f.matchesRecord r with
    | error e =>
      have hfail : ∃ e, f.select (r :: rs) = .error e :=
        ⟨e, by simp [select, hm, bind, Except.bind]⟩
      exact iff_of_true hfail (Or.inl ⟨e, hm⟩)
    | ok hit =>
      have hvalid : ¬ f.FailsAt r := by
        rintro ⟨e, he⟩
        rw [hm] at he
        cases he
      rw [select_cons hm]
      cases f.select rs with
      | error e => simp [Except.map]
      | ok found => simp [Except.map, hvalid]

end Filter

namespace Collection

theorem update_fails_iff (part : Record) (f : Filter) (c : Collection) :
    (∃ e, (c.update part f).1 = .error e) ↔ ∃ r ∈ Dict.values c, f.FailsAt r := by
  rw [update_eq, ← Filter.select_fails_iff]
  cases f.select (Dict.values c) <;> simp

theorem remove_fails_iff (f : Filter) (c : Collection) :
    (∃ e, (c.remove f).1 = .error e) ↔ ∃ r ∈ Dict.values c, f.FailsAt r := by
  rw [remove_eq, ← Filter.select_fails_iff]
  cases f.select (Dict.values c) <;> simp

end Collection

namespace Store

variable {s : Store} {name : String}

theorem setCollection_self (hs : Dict.Sorted s.collections) {c : Collection}
    (hc : s.collections.get? name = some c) : s.setCollection name c = s := by
  rw [setCollection, Dict.insert_of_get? hs hc]

theorem update_unchanged (hs : Dict.Sorted s.collections) {part : Record} {f : Filter}
    {e : StoreError} (h : (s.update name part f).1 = .error e) :
    (s.update name part f).2 = s := by
  cases hc : s.collections.get? name with
  | none => simp [update, hc]
  | some c =>
    have hfail : (c.update part f).1 = .error e := by simpa [update, hc] using h
    have hsame : (c.update part f).2 = c := by
      refine Collection.update_unchanged fun n hn => ?_
      rw [hfail] at hn
      cases hn
    simp only [update, hc, hsame, setCollection_self hs hc]

theorem remove_unchanged (hs : Dict.Sorted s.collections) {f : Filter} {e : StoreError}
    (h : (s.remove name f).1 = .error e) : (s.remove name f).2 = s := by
  cases hc : s.collections.get? name with
  | none => simp [remove, hc]
  | some c =>
    have hfail : (c.remove f).1 = .error e := by simpa [remove, hc] using h
    have hsame : (c.remove f).2 = c := by
      refine Collection.remove_unchanged fun n hn => ?_
      rw [hfail] at hn
      cases hn
    simp only [remove, hc, hsame, setCollection_self hs hc]

/-- An update or a removal is rejected exactly where the filter is invalid for some record of
the collection, and leaves the store as it was; such a filter matches no record at all. -/
theorem unchanged_of_rejected (s : Store) (hs : Dict.Sorted s.collections) (name : String)
    (part : Record) (f : Filter) :
    ((∃ e, (s.update name part f).1 = .error e) ↔
      ∃ r ∈ Dict.values (s.collection name), f.FailsAt r) ∧
    ((∃ e, (s.remove name f).1 = .error e) ↔
      ∃ r ∈ Dict.values (s.collection name), f.FailsAt r) ∧
    (∀ e, (s.update name part f).1 = .error e → (s.update name part f).2 = s) ∧
    (∀ e, (s.remove name f).1 = .error e → (s.remove name f).2 = s) ∧
    ∀ r, f.FailsAt r → ∀ other, f.matchesRecord other ≠ .ok true := by
  refine ⟨?_, ?_, fun _ => update_unchanged hs, fun _ => remove_unchanged hs,
    fun _ => Filter.not_finds_of_failsAt⟩
  · rw [(s.update_eq name part f).1, Collection.update_fails_iff]
  · rw [(s.remove_eq name f).1, Collection.remove_fails_iff]

/-- Two lamps of which one is on. -/
def lamps : Store :=
  { collections := [("lamps", [("a", [("id", .str "a"), ("on", .bool false)]),
      ("b", [("id", .str "b"), ("on", .bool true)])])] }

/-- Asks for lamps that are on and, by an invalid condition, for those of a room. -/
def lampsOfRoom : Filter := [("on", .obj [("ge", .bool true)]), ("room", .obj [("in", .int 3)])]

/-- The condition is reached at the second lamp. -/
theorem unchanged_of_rejected_late :
    Dict.Sorted lamps.collections ∧
    (lamps.update "lamps" [("seen", .bool true)] lampsOfRoom).1 =
      .error (.invalidFilter (.notAList (.int 3))) ∧
    (lamps.update "lamps" [("seen", .bool true)] lampsOfRoom).2 = lamps ∧
    (lamps.remove "lamps" lampsOfRoom).2 = lamps := by
  have hsorted : Dict.Sorted lamps.collections := by decide
  have hupdate : (lamps.update "lamps" [("seen", .bool true)] lampsOfRoom).1 =
      .error (.invalidFilter (.notAList (.int 3))) := by rfl
  have hremove : (lamps.remove "lamps" lampsOfRoom).1 =
      .error (.invalidFilter (.notAList (.int 3))) := by rfl
  have h := unchanged_of_rejected lamps hsorted "lamps" [("seen", .bool true)] lampsOfRoom
  exact ⟨hsorted, hupdate, h.2.2.1 _ hupdate, h.2.2.2.1 _ hremove⟩

end Store

end ControlNode
