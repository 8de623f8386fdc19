import ControlNode.Proofs.Store.Records

/-!
# Stored records

The record that a backend of any kind holds under an id, whether or not it answers at the
moment. A replacement puts a record there if it succeeds, and whatever becomes of it leaves
the records of other ids alone.
-/

namespace ControlNode

namespace Filter

abbrev byId (id : String) : Filter := [("id", .str id)]

theorem matchesRecord_byId (id : String) (r : Record) :
    matchesRecord r (byId id) = .ok (((Dict.get? r "id").getD .null).equiv (.str id)) := by
  cases h : ((Dict.get? r "id").getD .null).equiv (.str id) <;>
    simp [matchesRecord, Condition.ofJson, Condition.matches, h, bind, Except.bind]

theorem finds_byId_eq_false {id other : String} {r : Record}
    (h : Dict.get? r "id" = some (.str id)) (hne : id ≠ other) :
    (byId other).finds r = false := by
  rw [finds, matchesRecord_byId, h]
  simp [Json.equiv, hne]

theorem id?_of_finds_byId {id other : String} {r : Record}
    (h : (byId other).finds r = true) (hid : r.id? = some id) : id = other := by
  by_contra hne
  unfold Record.id? at hid
  split at hid
  · rename_i s hs
    split at hid
    · cases hid
    · cases hid
      rw [finds_byId_eq_false hs hne] at h
      cases h
  · cases hid

end Filter

theorem KeyTables.found_of_select {f : Filter} {c : Collection} {hits : List (String × Record)}
    (h : select f c = .ok hits) :
    ∀ e ∈ hits, f.finds e.2 = true ∧ e.2.id? = some e.1 := by
  unfold select at h
  split at h
  · cases h
  · rename_i found hfound
    cases h
    intro e he
    obtain ⟨r, hr, hpair⟩ := List.mem_filterMap.mp he
    obtain ⟨id, hid, rfl⟩ := Option.map_eq_some_iff.mp hpair
    rw [Filter.select_eq hfound] at hr
    exact ⟨(List.mem_filter.mp hr).2, hid⟩

namespace Backend

def collection (b : Backend) (name : String) : Collection :=
  match b with
  | .memory s => s.collection name
  | .file _ s => s.collection name
  | .tables _ t => t.collection name
  | .recordsOnly _ s => s.collection name

def recordAt? (b : Backend) (name id : String) : Option Record :=
  Dict.get? (b.collection name) id

theorem recordAt?_congr {b b' : Backend} {name : String}
    (h : b'.collection name = b.collection name) (id : String) :
    b'.recordAt? name id = b.recordAt? name id := by
  rw [recordAt?, recordAt?, h]

/-! ### Replacement -/

theorem flush_collection {α : Type} (files : DataFiles) (s : Store) (a : α) :
    (flush files s a).2.collection = s.collection := by
  unfold flush
  split <;> rfl

/-- A replacement is carried out or refused; one that is carried out may fail to reach the
file. -/
theorem collection_replace (b : Backend) (name id : String) (r : Record) :
    (b.replace name id r).2.collection = Function.update b.collection name
        (Dict.insert (b.collection name) id (r.withId id)) ∨
      (b.replace name id r).2.collection = b.collection ∧
        ∀ found, (b.replace name id r).1 ≠ .ok found := by
  cases b with
  | memory s => exact .inl (s.replace_eq name id r).2
  | file files s =>
    exact .inl ((flush_collection files _ _).trans (s.replace_eq name id r).2)
  | tables isOpen t =>
    cases isOpen with
    | true => exact .inl (t.replace_eq name id r).2
    | false => exact .inr ⟨rfl, fun _ h => by cases h⟩
  | recordsOnly failing s =>
    cases failing with
    | true => exact .inr ⟨rfl, fun _ h => by cases h⟩
    | false => exact .inl (s.replace_eq name id r).2

theorem recordAt?_replace {b : Backend} {name id : String} {r : Record} {found : Bool}
    (h : (b.replace name id r).1 = .ok found) :
    (b.replace name id r).2.recordAt? name id = some (r.withId id) := by
  rcases b.collection_replace name id r with hc | ⟨-, hfail⟩
  · rw [recordAt?, hc, Function.update_self, Dict.get?_insert, if_pos rfl]
  · exact absurd h (hfail found)

theorem recordAt?_replace_of_ne (b : Backend) (name : String) {id other : String} (r : Record)
    (hne : id ≠ other) :
    (b.replace name id r).2.recordAt? name other = b.recordAt? name other := by
  rcases b.collection_replace name id r with hc | ⟨hc, -⟩
  · rw [recordAt?, hc, Function.update_self, Dict.get?_insert, if_neg hne, recordAt?]
  · rw [recordAt?, hc, recordAt?]

theorem collection_replace_of_ne (b : Backend) {name other : String} (id : String) (r : Record)
    (hne : other ≠ name) :
    (b.replace name id r).2.collection other = b.collection other := by
  rcases b.collection_replace name id r with hc | ⟨hc, -⟩
  · rw [hc, Function.update_of_ne hne]
  · rw [hc]

/-! ### Removal -/

theorem inFile_collection {α : Type} (files : DataFiles) (dirty : α → Bool)
    (r : Except StoreError α × Store) : (inFile files dirty r).2.collection = r.2.collection := by
  obtain ⟨result, s⟩ := r
  cases result with
  | ok a =>
    simp only [inFile]
    split
    · exact flush_collection files s a
    · rfl
  | error e => rfl

theorem inMemory_collection {α : Type} {make : Store → Backend}
    (hmake : ∀ s, (make s).collection = s.collection) (r : Except StoreError α × Store) :
    (inMemory make r).2.collection = r.2.collection := by
  obtain ⟨result, s⟩ := r
  cases result <;> exact hmake s

theorem inTables_collection {α : Type} (r : Except StoreError α × KeyTables) :
    (inTables r).2.collection = r.2.collection := by
  obtain ⟨result, t⟩ := r
  cases result <;> rfl

theorem get?_remove_store {s : Store} {name id : String} {f : Filter} {r : Record}
    (h : Dict.get? (s.collection name) id = some r) (hf : f.finds r = false) :
    Dict.get? ((s.remove name f).2.collection name) id = some r := by
  rw [(s.remove_eq name f).2, Function.update_self, Collection.remove_eq]
  split
  · exact h
  · exact Dict.get?_filter_of_kept h (by simp [hf])

theorem get?_remove_tables {t : KeyTables} {name id other : String} {r : Record}
    (h : Dict.get? (t.collection name) id = some r) (hne : id ≠ other) :
    Dict.get? ((t.remove name (Filter.byId other)).2.collection name) id = some r := by
  unfold KeyTables.remove
  dsimp only
  split
  · exact h
  · rename_i hits hhits
    rw [KeyTables.collection_setCollection, Function.update_self, Dict.get?_foldl_erase, if_neg]
    · exact h
    · intro hmem
      obtain ⟨r', hr'⟩ := Option.isSome_iff_exists.mp hmem
      obtain ⟨hfinds, hid⟩ := KeyTables.found_of_select hhits _ (Dict.mem_of_get? hr')
      exact hne (Filter.id?_of_finds_byId hfinds hid)

theorem recordAt?_remove {b : Backend} {name id other : String} {r : Record}
    (h : b.recordAt? name id = some r) (hid : Dict.get? r "id" = some (.str id))
    (hne : id ≠ other) :
    (b.remove name (Filter.byId other)).2.recordAt? name id = some r := by
  have hfinds := Filter.finds_byId_eq_false hid hne
  unfold recordAt? at h ⊢
  cases b with
  | memory s =>
    rw [Backend.remove, inMemory_collection fun _ => rfl]
    exact get?_remove_store h hfinds
  | file files s =>
    rw [Backend.remove, inFile_collection]
    exact get?_remove_store h hfinds
  | tables isOpen t =>
    cases isOpen with
    | true =>
      rw [Backend.remove, inTables_collection]
      exact get?_remove_tables h hne
    | false => exact h
  | recordsOnly failing s =>
    cases failing with
    | true => exact h
    | false =>
      rw [Backend.remove, inMemory_collection fun _ => rfl]
      exact get?_remove_store h hfinds

theorem collection_remove_of_ne (b : Backend) {name other : String} (f : Filter)
    (hne : other ≠ name) : (b.remove name f).2.collection other = b.collection other := by
  have hstore (s : Store) : (s.remove name f).2.collection other = s.collection other := by
    rw [(s.remove_eq name f).2, Function.update_of_ne hne]
  cases b with
  | memory s =>
    rw [Backend.remove, inMemory_collection fun _ => rfl]
    exact hstore s
  | file files s =>
    rw [Backend.remove, inFile_collection]
    exact hstore s
  | tables isOpen t =>
    cases isOpen with
    | true =>
      rw [Backend.remove, inTables_collection]
      unfold KeyTables.remove
      dsimp only
      split
      · rfl
      · rw [KeyTables.collection_setCollection, Function.update_of_ne hne]
        rfl
    | false => rfl
  | recordsOnly failing s =>
    cases failing with
    | true => rfl
    | false =>
      rw [Backend.remove, inMemory_collection fun _ => rfl]
      exact hstore s

/-! ### Samples and the rest -/

theorem collection_saveSample (b : Backend) (name object : String) (x : Sample) :
    (b.saveSample name object x).2.collection = b.collection := by
  cases b with
  | memory s => rfl
  | file files s => exact flush_collection ..
  | tables isOpen t => cases isOpen <;> rfl
  | recordsOnly failing s => rfl

theorem collection_removeSamples (b : Backend) (name : String) (objects : Option (List String))
    (r : SampleRange) : (b.removeSamples name objects r).2.collection = b.collection := by
  have hstore (s : Store) : (s.removeSamples name objects r).2.collection = s.collection := by
    unfold Store.removeSamples
    split <;> rfl
  cases b with
  | memory s => exact hstore s
  | file files s =>
    rw [Backend.removeSamples, inFile_collection]
    exact hstore s
  | tables isOpen t => cases isOpen <;> rfl
  | recordsOnly failing s => rfl

theorem collection_ensureIndex (b : Backend) : b.ensureIndex.2.collection = b.collection := by
  cases b with
  | memory s => rfl
  | file files s => rfl
  | tables isOpen t => cases isOpen <;> rfl
  | recordsOnly failing s => rfl

end Backend

end ControlNode
