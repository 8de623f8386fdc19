import ControlNode.Proofs.Store.Filters
import ControlNode.Proofs.Store.Requests

/-!
# Records in memory and in tables

A store changes its records in place; tables select what a filter finds and write it back by
id. The two agree because a collection is sorted and files each record under the id in it, so
that writing back by id is the same as changing in place, and because an invalid filter is met
before anything is found.
-/

namespace ControlNode

/-! ### Ids -/

namespace Record

theorem id?_of_get? {r : Record} {id : String} (h : Dict.get? r "id" = some (.str id))
    (hid : id ≠ "") : r.id? = some id := by
  simp [id?, h, hid]

theorem ne_empty_of_id? {r : Record} {id : String} (h : r.id? = some id) : id ≠ "" := by
  unfold id? at h
  split at h
  · rename_i s _
    by_cases hs : s = ""
    · simp [hs] at h
    · rw [if_neg hs] at h
      cases h
      exact hs
  · cases h

theorem id?_congr {r r' : Record} (h : Dict.get? r "id" = Dict.get? r' "id") :
    r.id? = r'.id? := by
  rw [id?, id?, h]

theorem id?_withId (r : Record) {id : String} (h : id ≠ "") : (r.withId id).id? = some id := by
  have hget : Dict.get? (r.withId id) "id" = some (.str id) := by
    rw [withId, Dict.get?_insert, if_pos rfl]
  exact id?_of_get? hget h

theorem get?_id_merge (r part : Record) :
    Dict.get? (r.merge part) "id" = Dict.get? r "id" := by
  unfold merge
  induction part generalizing r with
  | nil => rfl
  | cons e part ih =>
    rw [List.foldl_cons, ih]
    by_cases he : e.1 = "id"
    · rw [if_pos he]
    · rw [if_neg he, Dict.get?_insert, if_neg he]

theorem id?_merge (r part : Record) : (r.merge part).id? = r.id? :=
  id?_congr (get?_id_merge r part)

end Record

namespace Collection

theorem nextId_ne_empty (ids : List String) : nextId ids ≠ "" := by
  intro h
  have hlen := congrArg String.length h
  unfold nextId at hlen
  simp [toString, Nat.repr, String.length_ofList] at hlen

theorem nextId_filter (ids : List String) :
    nextId (ids.filter fun id => id != "") = nextId ids := by
  have hread : (ids.filter fun id => id != "").filterMap (fun id => Decimal.readUInt64? id.toList) =
      ids.filterMap fun id => Decimal.readUInt64? id.toList := by
    rw [List.filterMap_filter]
    refine List.filterMap_congr fun id _ => ?_
    by_cases hid : id = ""
    · subst hid
      rfl
    · simp [hid]
  rw [nextId, hread, nextId]

theorem insertionId_ne_empty (r : Record) (ids : List String) : r.id?.getD (nextId ids) ≠ "" := by
  cases hr : r.id? with
  | none => exact nextId_ne_empty ids
  | some id => exact Record.ne_empty_of_id? hr

theorem insert_snd (c : Collection) (r : Record) :
    (c.insert r).2 = c ∨ ∃ id ≠ "", (c.insert r).2 = Dict.insert c id (r.withId id) := by
  by_cases hc : Dict.contains c (r.id?.getD (nextId (Dict.keys c)))
  · exact Or.inl (by simp [insert, hc])
  · exact Or.inr ⟨_, insertionId_ne_empty r (Dict.keys c), by simp [insert, hc]⟩

/-- The records are listed by key and each has its key as its id, where the empty key is no
id. -/
structure Keyed (c : Collection) : Prop where
  sorted : Dict.Sorted c
  id_eq : ∀ e ∈ c, e.2.id? = if e.1 = "" then none else some e.1

namespace Keyed

variable {c : Collection}

theorem filter (h : c.Keyed) (p : String × Record → Bool) : Keyed (c.filter p) :=
  ⟨List.Pairwise.filter _ h.sorted, fun e he => h.id_eq e (List.mem_filter.mp he).1⟩

theorem ids_eq (h : c.Keyed) :
    (Dict.values c).filterMap Record.id? = (Dict.keys c).filter fun id => id != "" := by
  rw [Dict.values, List.filterMap_map, Dict.keys, ← List.filterMap_eq_filter, List.filterMap_map]
  refine List.filterMap_congr fun e he => ?_
  by_cases hid : e.1 = "" <;> simp [h.id_eq e he, Option.guard, hid]

theorem paired (h : c.Keyed) :
    ((Dict.values c).filterMap fun r => r.id?.map fun id => (id, r)) =
      c.filter fun e => !e.2.id?.isNone := by
  rw [Dict.values, List.filterMap_map, ← List.filterMap_eq_filter]
  refine List.filterMap_congr fun e he => ?_
  by_cases hid : e.1 = "" <;> simp [h.id_eq e he, Option.guard, hid]

end Keyed

structure ById (c : Collection) : Prop where
  sorted : Dict.Sorted c
  id_eq : ∀ e ∈ c, e.2.id? = some e.1

namespace ById

variable {c : Collection}

theorem nil : ById [] := ⟨Dict.sorted_nil, by simp⟩

theorem insert (h : ById c) {id : String} {r : Record} (hid : r.id? = some id) :
    ById (Dict.insert c id r) := by
  refine ⟨Dict.sorted_insert _ _ h.sorted, ?_⟩
  intro e he
  rcases Dict.mem_insert he with rfl | he
  · exact hid
  · exact h.id_eq e he

theorem merged (h : ById c) (part : Record) (f : Filter) : ById (c.merged part f) := by
  constructor
  · exact List.pairwise_map.mpr h.sorted
  · intro e he
    obtain ⟨x, hx, rfl⟩ := List.mem_map.mp he
    by_cases hf : f.finds x.2
    · simpa [hf, Record.id?_merge] using h.id_eq x hx
    · simpa [hf] using h.id_eq x hx

theorem keyed (h : ById c) : c.Keyed :=
  ⟨h.sorted, fun e he => by
    rw [h.id_eq e he, if_neg (Record.ne_empty_of_id? (h.id_eq e he))]⟩

/-! Each change of a collection keeps it so. -/

theorem after_insert (h : ById c) (r : Record) : ById (c.insert r).2 := by
  rcases c.insert_snd r with hsame | ⟨id, hid, hnew⟩
  · rw [hsame]
    exact h
  · rw [hnew]
    exact h.insert (Record.id?_withId r hid)

theorem after_update (h : ById c) (part : Record) (f : Filter) : ById (c.update part f).2 := by
  rw [update_eq]
  cases f.select (Dict.values c) with
  | error e => exact h
  | ok found => exact h.merged part f

theorem after_replace (h : ById c) {id : String} (hid : id ≠ "") (r : Record) :
    ById (c.replace id r).2 :=
  h.insert (Record.id?_withId r hid)

theorem after_remove (h : ById c) (f : Filter) : ById (c.remove f).2 := by
  rw [remove_eq]
  cases f.select (Dict.values c) with
  | error e => exact h
  | ok found =>
    exact ⟨List.Pairwise.filter _ h.sorted, fun e he => h.id_eq e (List.mem_filter.mp he).1⟩

end ById

end Collection

/-! ### One collection of a store

What an operation does to the collection that it names, in a store and in tables alike. -/

namespace Store

theorem collection_setCollection (s : Store) (name : String) (c : Collection) :
    (s.setCollection name c).collection = Function.update s.collection name c := by
  funext other
  rw [collection, setCollection, Dict.get?_insert]
  by_cases h : name = other
  · simp [h]
  · simp [h, Ne.symm h, collection]

theorem query_eq (s : Store) (name : String) (q : Query) :
    s.query name q = (q.apply (Dict.values (s.collection name))).mapError .invalidFilter := by
  cases h : s.collections.get? name with
  | none =>
    have hnone : q.apply [] = .ok [] := by
      cases hl : q.limit <;> simp [Query.apply, Filter.select, sortRecords, hl, bind, Except.bind]
    simp only [query, collection, h]
    rw [Option.getD_none, Dict.values, List.map_nil, hnone]
    rfl
  | some c =>
    simp only [query, collection, h, Option.getD_some]
    cases q.apply (Dict.values c) <;> rfl

theorem insert_eq (s : Store) (name : String) (r : Record) :
    (s.insert name r).1 = ((s.collection name).insert r).1 ∧
      (s.insert name r).2.collection =
        Function.update s.collection name ((s.collection name).insert r).2 :=
  ⟨rfl, collection_setCollection ..⟩

theorem replace_eq (s : Store) (name id : String) (r : Record) :
    (s.replace name id r).1 = ((s.collection name).replace id r).1 ∧
      (s.replace name id r).2.collection =
        Function.update s.collection name ((s.collection name).replace id r).2 :=
  ⟨rfl, collection_setCollection ..⟩

theorem update_eq (s : Store) (name : String) (part : Record) (f : Filter) :
    (s.update name part f).1 = ((s.collection name).update part f).1 ∧
      (s.update name part f).2.collection =
        Function.update s.collection name ((s.collection name).update part f).2 := by
  cases h : s.collections.get? name with
  | none =>
    have hc : s.collection name = [] := by simp [collection, h]
    have hsame : (s.collection name).update part f = (.ok 0, s.collection name) := by
      rw [hc]
      rfl
    simp [update, h, hsame]
  | some c =>
    have hc : s.collection name = c := by simp [collection, h]
    simp [update, h, hc, collection_setCollection]

theorem remove_eq (s : Store) (name : String) (f : Filter) :
    (s.remove name f).1 = ((s.collection name).remove f).1 ∧
      (s.remove name f).2.collection =
        Function.update s.collection name ((s.collection name).remove f).2 := by
  cases h : s.collections.get? name with
  | none =>
    have hc : s.collection name = [] := by simp [collection, h]
    have hsame : (s.collection name).remove f = (.ok 0, s.collection name) := by
      rw [hc]
      rfl
    simp [remove, h, hsame]
  | some c =>
    have hc : s.collection name = c := by simp [collection, h]
    simp [remove, h, hc, collection_setCollection]

end Store

namespace KeyTables

theorem collection_setCollection (t : KeyTables) (name : String) (c : Collection) :
    (t.setCollection name c).collection = Function.update t.collection name c := by
  funext other
  rw [collection, setCollection, Dict.get?_insert]
  by_cases h : name = other
  · simp [h]
  · simp [h, Ne.symm h, collection]

theorem query_eq (t : KeyTables) (name : String) (q : Query) :
    t.query name q = (q.apply (Dict.values (t.collection name))).mapError .invalidFilter := by
  unfold query
  cases q.apply (Dict.values (t.collection name)) <;> rfl

variable {t : KeyTables} {name : String}

/-- Whether tables take a record in a scan: the filter finds it, and there is an id to write it
back by. -/
def takes (f : Filter) (r : Record) : Bool := !r.id?.isNone && f.finds r

theorem select_eq {c : Collection} (h : c.Keyed) (f : Filter) :
    select f c = match f.select (Dict.values c) with
      | .error e => .error (.invalidFilter e)
      | .ok _ => .ok (c.having (takes f)) := by
  unfold select
  cases hs : f.select (Dict.values c) with
  | error e => rfl
  | ok found =>
    have hfound : found = Dict.values (c.filter fun e => f.finds e.2) := by
      rw [Filter.select_eq hs, Dict.values, List.filter_map]
      rfl
    simp only [hfound, (h.filter _).paired, List.filter_filter]
    rfl

theorem insert_eq (h : (t.collection name).Keyed) (r : Record) :
    (t.insert name r).1 = ((t.collection name).insert r).1 ∧
      (t.insert name r).2.collection =
        Function.update t.collection name ((t.collection name).insert r).2 := by
  have hfresh : Collection.nextId ((Dict.values (t.collection name)).filterMap Record.id?) =
      Collection.nextId (Dict.keys (t.collection name)) := by
    rw [h.ids_eq, Collection.nextId_filter]
  have hid := Collection.insertionId_ne_empty r (Dict.keys (t.collection name))
  have hthere {id : String} (hne : id ≠ "") :
      ((Dict.values (t.collection name)).filterMap Record.id?).contains id =
        Dict.contains (t.collection name) id := by
    rw [h.ids_eq, ← Dict.contains_keys, Bool.eq_iff_iff, List.contains_iff_mem,
      List.contains_iff_mem, List.mem_filter]
    simp [hne]
  simp only [insert, Collection.insert, hfresh, hthere hid]
  split
  · simp
  · simp [collection_setCollection]

theorem update_eq (h : (t.collection name).Keyed) (part : Record) (f : Filter) :
    (t.update name part f).1 = ((t.collection name).scan f (takes f)
        (Collection.mergedWhere (takes f) part)).1 ∧
      (t.update name part f).2.collection = Function.update t.collection name
        ((t.collection name).scan f (takes f) (Collection.mergedWhere (takes f) part)).2 := by
  simp only [update, select_eq h, Collection.scan]
  cases f.select (Dict.values (t.collection name)) with
  | error e => simp
  | ok found =>
    have hwritten := Dict.foldl_insert_filter h.sorted (takes f) fun r => Record.merge r part
    simp only [Collection.having, hwritten, collection_setCollection, Collection.mergedWhere,
      and_self]

theorem remove_eq (h : (t.collection name).Keyed) (f : Filter) :
    (t.remove name f).1 = ((t.collection name).scan f (takes f)
        (Collection.having fun r => !takes f r)).1 ∧
      (t.remove name f).2.collection = Function.update t.collection name
        ((t.collection name).scan f (takes f) (Collection.having fun r => !takes f r)).2 := by
  simp only [remove, select_eq h, Collection.scan]
  cases f.select (Dict.values (t.collection name)) with
  | error e => simp
  | ok found =>
    have herased := Dict.foldl_erase_filter h.sorted (takes f)
    simp only [Collection.having, herased, collection_setCollection, and_self]

theorem replace_eq (t : KeyTables) (name id : String) (r : Record) :
    (t.replace name id r).1 = ((t.collection name).replace id r).1 ∧
      (t.replace name id r).2.collection =
        Function.update t.collection name ((t.collection name).replace id r).2 :=
  ⟨rfl, collection_setCollection ..⟩

end KeyTables

namespace Collection.ById

variable {c : Collection}

theorem takes_eq (h : ById c) (f : Filter) : ∀ e ∈ c, KeyTables.takes f e.2 = f.finds e.2 := by
  intro e he
  rw [KeyTables.takes, h.id_eq e he]
  rfl

theorem update_eq (h : ById c) (part : Record) (f : Filter) : c.update part f =
    c.scan f (KeyTables.takes f) (mergedWhere (KeyTables.takes f) part) := by
  have htakes := h.takes_eq f
  rw [update_eq_scan, scan, scan, having_congr htakes, mergedWhere_congr htakes part]

theorem remove_eq (h : ById c) (f : Filter) : c.remove f =
    c.scan f (KeyTables.takes f) (having fun r => !KeyTables.takes f r) := by
  have htakes := h.takes_eq f
  have hleft : (c.having fun r => !KeyTables.takes f r) = c.having fun r => !f.finds r :=
    List.filter_congr fun e he => congrArg (! ·) (htakes e he)
  rw [remove_eq_scan, scan, scan, having_congr htakes, hleft]

end Collection.ById

/-! ### Agreement -/

namespace Backend

/-- Open tables and a memory with the same collections. -/
inductive SameRecords : Backend → Backend → Prop
  | intro (t : KeyTables) (s : Store) (same : t.collection = s.collection)
      (byId : ∀ name, (s.collection name).ById) : SameRecords (.tables true t) (.memory s)

theorem sameRecords_change {t t' : KeyTables} {s s' : Store} {name : String}
    {r r' : Except StoreError α} (change : Collection → Except StoreError α × Collection)
    (same : t.collection = s.collection) (byId : ∀ name, (s.collection name).ById)
    (ht : r = (change (t.collection name)).1 ∧
      t'.collection = Function.update t.collection name (change (t.collection name)).2)
    (hs : r' = (change (s.collection name)).1 ∧
      s'.collection = Function.update s.collection name (change (s.collection name)).2)
    (hc : (change (s.collection name)).2.ById) :
    (inTables (r, t')).1 = (inMemory .memory (r', s')).1 ∧
      SameRecords (inTables (r, t')).2 (inMemory .memory (r', s')).2 := by
  rw [same] at ht
  have hsame : t'.collection = s'.collection := ht.2.trans hs.2.symm
  have hbyId : ∀ name, (s'.collection name).ById := by
    rw [hs.2]
    exact (Function.forall_update_iff _ fun _ c => Collection.ById c).mpr
      ⟨hc, fun other _ => byId other⟩
  rw [ht.1, hs.1]
  cases (change (s.collection name)).1 with
  | error e => exact ⟨rfl, .intro t' s' hsame hbyId⟩
  | ok a => exact ⟨rfl, .intro t' s' hsame hbyId⟩

theorem sameRecords_run (q : RecordRequest) (b b' : Backend) (hq : q.NamesRecord)
    (h : SameRecords b b') :
    (q.run b).1 = (q.run b').1 ∧ SameRecords (q.run b).2 (q.run b').2 := by
  obtain ⟨t, s, same, byId⟩ := h
  have hname (name : String) : (t.collection name).ById := same ▸ byId name
  cases q with
  | query name q =>
    have hquery : t.query name q = s.query name q := by
      rw [t.query_eq, s.query_eq, same]
    exact ⟨by simp only [RecordRequest.run, query, hquery], .intro t s same byId⟩
  | insert name r =>
    have h := sameRecords_change (·.insert r) same byId (KeyTables.insert_eq (hname name).keyed r)
      (s.insert_eq name r) ((byId name).after_insert r)
    exact ⟨congrArg RecordAnswer.id h.1, h.2⟩
  | update name part f =>
    have ht := KeyTables.update_eq (hname name).keyed part f
    rw [← (hname name).update_eq part f] at ht
    have h := sameRecords_change (·.update part f) same byId ht (s.update_eq name part f)
      ((byId name).after_update part f)
    exact ⟨congrArg RecordAnswer.count h.1, h.2⟩
  | replace name id r =>
    have ht := t.replace_eq name id r
    have hs := s.replace_eq name id r
    have h := sameRecords_change
      (fun c => (.ok (c.replace id r).1, (c.replace id r).2)) same byId
      ⟨congrArg Except.ok ht.1, ht.2⟩ ⟨congrArg Except.ok hs.1, hs.2⟩
      ((byId name).after_replace hq r)
    exact ⟨congrArg RecordAnswer.replaced h.1, h.2⟩
  | remove name f =>
    have ht := KeyTables.remove_eq (hname name).keyed f
    rw [← (hname name).remove_eq f] at ht
    have h := sameRecords_change (·.remove f) same byId ht (s.remove_eq name f)
      ((byId name).after_remove f)
    exact ⟨congrArg RecordAnswer.count h.1, h.2⟩

/-- Key tables and a memory that start empty give the same answers about records: the same ids,
counts and records in the same order, and the same refusals. -/
theorem tables_answer_records_as_memory (requests : List RecordRequest)
    (h : ∀ q ∈ requests, q.NamesRecord) :
    answers RecordRequest.run (init (.tables false {})).2 requests =
      answers RecordRequest.run (init (.memory {})).2 requests := by
  have hempty : SameRecords (init (.tables false {})).2 (init (.memory {})).2 :=
    .intro {} {} rfl fun _ => Collection.ById.nil
  exact answers_eq sameRecords_run h hempty

/-- A generated id, the same id again, and filters that turn out to be invalid at the second
record or that find both. -/
def mixedRecords : List RecordRequest :=
  [.insert "ports" [("value", .int 0)], .insert "ports" [("id", .str "1")],
    .replace "ports" "a" [("value", .int 5)],
    .update "ports" [("seen", .bool true)]
      [("value", .obj [("gt", .int 0)]), ("id", .obj [("in", .int 1)])],
    .update "ports" [("seen", .bool true)] [("value", .obj [("ge", .int 0)])],
    .remove "ports" [("value", .int 5)], .query "ports" {}]

theorem tables_answer_records_as_memory_mixed :
    (∀ q ∈ mixedRecords, q.NamesRecord) ∧
    answers RecordRequest.run (init (.tables false {})).2 mixedRecords =
      answers RecordRequest.run (init (.memory {})).2 mixedRecords := by
  have h : ∀ q ∈ mixedRecords, q.NamesRecord := by
    simp [mixedRecords, RecordRequest.NamesRecord]
  exact ⟨h, tables_answer_records_as_memory mixedRecords h⟩

end Backend

end ControlNode
