import ControlNode.Proofs.Store.Effects

/-!
# Collections as maps from ids to records

In every collection that requests about records lead to, a query for an id finds one record or
none; filing a record under an id changes what is found for this id only, and an update changes
no id (`Backend.collection_maps_ids`).
-/

namespace ControlNode

theorem Collection.keys_mergedWhere (p : Record → Bool) (part : Record) (c : Collection) :
    Dict.keys (c.mergedWhere p part) = Dict.keys c := by
  rw [Dict.keys, mergedWhere, List.map_map]
  rfl

namespace Backend

variable {b : Backend} {name : String}

/-- What a query for an id answers. -/
def lookup (b : Backend) (name id : String) : Except PersistError (List Record) :=
  b.query name { filter := Filter.byId id }

/-- The second backend finds a record under an id and for all other ids what the first one
finds. -/
structure Files (b b' : Backend) (name id : String) (r : Record) : Prop where
  filed : b'.lookup name id = .ok [r.withId id]
  others : ∀ other key, (other, key) ≠ (name, id) → b'.lookup other key = b.lookup other key

theorem Orderly.lookup_eq (h : b.Orderly) (name id : String) :
    b.lookup name id = .ok (b.recordAt? name id).toList :=
  query_byId (isReady_of_isWritable h.writable) (h.labelled name) id

theorem Orderly.lookup_eq_nil_iff (h : b.Orderly) (name id : String) :
    b.lookup name id = .ok [] ↔ Dict.contains (b.collection name) id = false := by
  rw [h.lookup_eq, recordAt?, Dict.contains]
  cases Dict.get? (b.collection name) id <;> simp

theorem Orderly.files {α : Type} {result : Except StoreError α} {outcome : Outcome α}
    {id : String} {r : Record} (h : b.Orderly)
    (happ : Applied b.collection name
      (result, Dict.insert (b.collection name) id (r.withId id)) outcome) :
    b.Files outcome.2 name id r := by
  have hafter := happ.orderly h.labelled ((h.labelled name).insert id r)
  constructor
  · rw [hafter.lookup_eq, recordAt?_applied happ, if_pos rfl, Dict.get?_insert, if_pos rfl]
    rfl
  · intro other key hne
    rw [hafter.lookup_eq, h.lookup_eq, recordAt?_applied happ]
    split
    · rename_i hname
      subst hname
      rw [Dict.get?_insert, if_neg fun hkey => hne (by rw [hkey]), recordAt?]
    · rfl

theorem Orderly.insert_files (h : b.Orderly) {id : String} {r : Record} (hr : r.id? = some id)
    (hnew : b.lookup name id = .ok []) :
    (b.insert name r).1 = .ok id ∧ b.Files (b.insert name r).2 name id r := by
  have happ := insert_applied h.writable (h.labelled name) r
  rw [h.lookup_eq_nil_iff] at hnew
  simp only [Collection.insert, hr, Option.getD_some, hnew] at happ
  exact ⟨happ.answer, h.files happ⟩

theorem Orderly.insert_refused (h : b.Orderly) {id : String} {r : Record} (hr : r.id? = some id)
    (hold : b.lookup name id ≠ .ok []) :
    (b.insert name r).1 = .error (.store (.duplicateId id)) ∧
      (b.insert name r).2.collection = b.collection := by
  have happ := insert_applied h.writable (h.labelled name) r
  rw [ne_eq, h.lookup_eq_nil_iff, Bool.not_eq_false] at hold
  simp only [Collection.insert, hr, Option.getD_some, hold, if_true] at happ
  exact ⟨happ.answer, happ.collection.trans (Function.update_eq_self name b.collection)⟩

theorem Orderly.keys_update (h : b.Orderly) (part : Record) (f : Filter) (other : String) :
    Dict.keys ((b.update name part f).2.collection other) = Dict.keys (b.collection other) := by
  rw [(update_applied h.writable (h.labelled name) part f).collection, Function.update_apply]
  split
  · rename_i hname
    rw [hname, Collection.scan]
    split
    · rfl
    · exact Collection.keys_mergedWhere _ part _
  · rfl

/-- Each record is filed under the id in it, so that at most one is found for an id. A record
that is inserted under a new id, or put under any, is found for this id and changes nothing for
the others; one whose id is there already is refused. An update keeps the ids. -/
theorem collection_maps_ids (h : b.Reached) (name : String) :
    (∀ e ∈ b.collection name, Dict.get? e.2 "id" = some (.str e.1)) ∧
    (∀ id, ∃ found, b.lookup name id = .ok found ∧ found.length ≤ 1) ∧
    (∀ (id : String) (r : Record), r.id? = some id →
      (b.lookup name id = .ok [] →
        (b.insert name r).1 = .ok id ∧ b.Files (b.insert name r).2 name id r) ∧
      (b.lookup name id ≠ .ok [] →
        (b.insert name r).1 = .error (.store (.duplicateId id)) ∧
          (b.insert name r).2.collection = b.collection)) ∧
    (∀ (id : String) (r : Record), (∃ matched, (b.replace name id r).1 = .ok matched) ∧
      b.Files (b.replace name id r).2 name id r) ∧
    ∀ (part : Record) (f : Filter) (other : String),
      Dict.keys ((b.update name part f).2.collection other) = Dict.keys (b.collection other) := by
  have ho := h.orderly
  refine ⟨(ho.labelled name).label, fun id => ⟨_, ho.lookup_eq name id, ?_⟩, fun id r hr =>
    ⟨ho.insert_files hr, ho.insert_refused hr⟩, fun id r => ?_, ho.keys_update⟩
  · cases b.recordAt? name id <;> simp
  · have happ := replace_applied ho.writable name id r
    exact ⟨⟨_, happ.answer⟩, ho.files happ⟩

/-- A record whose id an update has tried to change. -/
def renamed : Backend :=
  ((RecordRequest.update "t" [("id", .str "b"), ("on", .bool true)] []).run
    ((RecordRequest.insert "t" [("id", .str "a")]).run (init (.memory {})).2).2).2

theorem collection_maps_ids_renamed :
    renamed.Reached ∧ Dict.keys (renamed.collection "t") = ["a"] ∧
    (renamed.insert "t" [("id", .str "b")]).1 = .ok "b" ∧
    (renamed.insert "t" [("id", .str "b")]).2.lookup "t" "b" = .ok [[("id", .str "b")]] ∧
    (renamed.insert "t" [("id", .str "b")]).2.lookup "t" "a" =
      .ok [[("id", .str "a"), ("on", .bool true)]] ∧
    (renamed.replace "t" "a" [("id", .int 3)]).2.lookup "t" "a" = .ok [[("id", .str "a")]] := by
  have hopened : ofName "memory" = .ok (.memory {}) := rfl
  have hreached : renamed.Reached := .answered (.answered (.opened hopened) _) _
  have hold : renamed.lookup "t" "a" = .ok [[("id", .str "a"), ("on", .bool true)]] :=
    hreached.orderly.lookup_eq "t" "a"
  have hnew : renamed.lookup "t" "b" = .ok [] := hreached.orderly.lookup_eq "t" "b"
  obtain ⟨-, -, hinsert, hreplace, -⟩ := collection_maps_ids hreached "t"
  obtain ⟨hid, hfiles⟩ := (hinsert "b" [("id", .str "b")] rfl).1 hnew
  have hothers := hfiles.others "t" "a" (by decide)
  exact ⟨hreached, rfl, hid, hfiles.filed, hothers.trans hold,
    (hreplace "a" [("id", .int 3)]).2.filed⟩

end Backend

end ControlNode
