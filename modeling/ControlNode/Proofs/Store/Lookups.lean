import ControlNode.Node.Registry
import ControlNode.Proofs.Store.Durability
import ControlNode.Proofs.Store.StoredRecords

/-!
# Looking up records

A backend that is ready finds the record of an id, and a backend that is opened anew holds the
records of the one before it.
-/

namespace ControlNode

/-! ### Queries -/

theorem sortRecords_nil (rs : List Record) : sortRecords [] rs = rs :=
  List.mergeSort_of_pairwise (List.pairwise_of_forall fun _ _ => rfl)

theorem Filter.select_nil (rs : List Record) : Filter.select [] rs = .ok rs := by
  induction rs with
  | nil => rfl
  | cons r rs ih =>
    have hhit : matchesRecord r [] = .ok true := rfl
    rw [Filter.select_cons hhit, ih]
    rfl

theorem Filter.select_byId (id : String) (rs : List Record) :
    (byId id).select rs = .ok (rs.filter (byId id).finds) := by
  have hvalid : ∃ found, (byId id).select rs = .ok found := by
    induction rs with
    | nil => exact ⟨[], rfl⟩
    | cons r rs ih =>
      obtain ⟨found, hfound⟩ := ih
      rw [select_cons (matchesRecord_byId id r), hfound]
      exact ⟨_, rfl⟩
  obtain ⟨found, hfound⟩ := hvalid
  rw [hfound, select_eq hfound]

def Record.hasId (id : String) (r : Record) : Bool :=
  match Dict.get? r "id" with
  | some (.str s) => s == id
  | _ => false

theorem Filter.finds_byId (id : String) : (byId id).finds = Record.hasId id := by
  funext r
  rw [← matchesRecord_eq (matchesRecord_byId id r), Record.hasId]
  cases Dict.get? r "id" with
  | none => rfl
  | some v => cases v <;> rfl

/-- The records are listed by id, each under its own. -/
structure Collection.Labelled (c : Collection) : Prop where
  sorted : Dict.Sorted c
  label : ∀ e ∈ c, Dict.get? e.2 "id" = some (.str e.1)

namespace Collection.Labelled

variable {c : Collection}

theorem insert (h : c.Labelled) (id : String) (r : Record) :
    Labelled (Dict.insert c id (r.withId id)) := by
  refine ⟨Dict.sorted_insert _ _ h.sorted, fun e he => ?_⟩
  rcases Dict.mem_insert he with rfl | he
  · rw [Record.withId, Dict.get?_insert, if_pos rfl]
  · exact h.label e he

theorem finds_iff (h : c.Labelled) {e : String × Record} (he : e ∈ c) (id : String) :
    (Filter.byId id).finds e.2 = true ↔ e.1 = id := by
  rw [Filter.finds_byId, Record.hasId, h.label e he]
  simp

end Collection.Labelled

namespace Backend

variable {b : Backend} {name : String}

/-- Whether operations on records are carried out. -/
def isReady : Backend → Bool
  | .tables isOpen _ => isOpen
  | .recordsOnly failing _ => !failing
  | _ => true

theorem query_eq (h : b.isReady) (name : String) (q : Query) : b.query name q =
    (q.apply (Dict.values (b.collection name))).mapError fun e => .store (.invalidFilter e) := by
  have hstore (s : Store) : (s.query name q).mapError PersistError.store =
      (q.apply (Dict.values (s.collection name))).mapError fun e => .store (.invalidFilter e) := by
    rw [s.query_eq]
    cases q.apply (Dict.values (s.collection name)) <;> rfl
  cases b with
  | memory s => exact hstore s
  | file files s => exact hstore s
  | tables isOpen t =>
    obtain rfl : isOpen = true := h
    simp only [query, t.query_eq]
    change _ = (q.apply (Dict.values (t.collection name))).mapError _
    cases q.apply (Dict.values (t.collection name)) <;> rfl
  | recordsOnly failing s =>
    obtain rfl : failing = false := by simpa [isReady] using h
    exact hstore s

theorem project_of_all {q : Query} (h : q.fields = none) : q.project = id := by
  funext r
  rw [Query.project, h]
  rfl

theorem query_all (h : b.isReady) (name : String) :
    b.query name {} = .ok (Dict.values (b.collection name)) := by
  rw [query_eq h, Query.apply, Filter.select_nil, project_of_all rfl]
  simp [sortRecords_nil, bind, Except.bind, Except.mapError]

theorem head?_query_byId (h : b.isReady) (hc : (b.collection name).Labelled) (id : String) :
    (b.query name { filter := Filter.byId id, limit := some 1 }).toOption.bind List.head? =
      b.recordAt? name id := by
  have hfind : (Dict.values (b.collection name)).find? (Filter.byId id).finds =
      b.recordAt? name id := by
    have hmem := fun e he => hc.finds_iff (e := e) he id
    unfold recordAt?
    generalize b.collection name = c at hmem
    induction c with
    | nil => rfl
    | cons e c ih =>
      have hrest := ih fun e' he' => hmem e' (List.mem_cons_of_mem _ he')
      rw [Dict.values_cons, List.find?_cons, hrest, Dict.get?]
      by_cases hid : e.1 = id
      · rw [(hmem e List.mem_cons_self).mpr hid, if_pos hid]
      · have hmiss : (Filter.byId id).finds e.2 = false :=
          Bool.eq_false_iff.mpr fun hhit => hid ((hmem e List.mem_cons_self).mp hhit)
        rw [hmiss, if_neg hid]
  rw [query_eq h, Query.apply, Filter.select_byId, project_of_all rfl]
  simp [sortRecords_nil, bind, Except.bind, Except.mapError, Except.toOption, List.head?_take,
    hfind]

theorem ensureIndex_snd (b : Backend) : b.ensureIndex.2 = b := by
  cases b with
  | tables isOpen t => cases isOpen <;> rfl
  | _ => rfl

/-! ### Labels -/

/-- In all collections the records are filed under their ids. -/
def Labelled (b : Backend) : Prop := ∀ name, (b.collection name).Labelled

theorem Labelled.replace (h : b.Labelled) (name id : String) (r : Record) :
    (b.replace name id r).2.Labelled := by
  intro other
  rcases b.collection_replace name id r with hc | ⟨hc, -⟩
  · rw [hc, Function.update_apply]
    split
    · exact (h name).insert id r
    · exact h other
  · rw [hc]
    exact h other

/-! ### Opening anew -/

/-- The backend that follows has the records of this one. -/
structure Reopens (b b' : Backend) : Prop where
  collection : b'.collection = b.collection
  ready : b'.isReady

theorem reopens_memory (s : Store) : Reopens (.memory s) (Node.reopenBackend (.memory s)) :=
  ⟨rfl, rfl⟩

theorem reopens_file {files : DataFiles} {s : Store} (hdirectory : files.directory = true)
    (hnormal : s.Normal) (hs : s.ReadsBack) :
    Reopens (.file files s) (Node.reopenBackend (.file files s)) := by
  obtain ⟨files', hflush, hdurable⟩ := Durable.flush hdirectory hnormal hs ()
  obtain ⟨saved, hinit, halike, -⟩ := hdurable.init {}
  have hreopen : Node.reopenBackend (.file files s) = .file files' saved := by
    rw [Node.reopenBackend, cleanup, hflush, successor, hinit]
    all_goals nofun
  rw [hreopen]
  exact ⟨halike.collection.symm, rfl⟩

/-- The backend that follows finds the record of an id as it has been saved. This is all that is
asked of a storage in which one record is to survive: other records may be lost or read otherwise,
such as doubles whose decimal digits name a neighbour to the reader. -/
structure GivesBack (b b' : Backend) (name id : String) : Prop where
  ready : b'.isReady
  record : (b'.query name { filter := Filter.byId id, limit := some 1 }).toOption.bind List.head? =
    b.recordAt? name id

theorem Reopens.givesBack {b' : Backend} (h : Reopens b b') (hc : (b.collection name).Labelled)
    (id : String) : GivesBack b b' name id :=
  ⟨h.ready, (head?_query_byId h.ready (by rwa [h.collection]) id).trans
    (recordAt?_congr (congrFun h.collection name) id)⟩

end Backend

end ControlNode
