import ControlNode.Proofs.Store.Lookups

/-!
# What requests about records change

A backend that keeps records takes each request about them as a change of one collection, the
same for all kinds of backend in all points but one: tables write what a scan has found back by
the id in it and pass over a record of the empty id (`Backend.passesOver`). Whatever it is
asked, an opened backend goes on keeping records, each under the id in it
(`Backend.Reached.orderly`).
-/

namespace ControlNode

/-! ### Collections of labelled records -/

namespace Collection.Labelled

variable {c : Collection}

theorem nil : Labelled [] := ⟨Dict.sorted_nil, by simp⟩

theorem filter (h : c.Labelled) (p : String × Record → Bool) : Labelled (c.filter p) :=
  ⟨List.Pairwise.filter _ h.sorted, fun e he => h.label e (List.mem_filter.mp he).1⟩

theorem map_merge (h : c.Labelled) (p : Record → Bool) (part : Record) :
    Labelled (c.map fun e => (e.1, if p e.2 then e.2.merge part else e.2)) := by
  refine ⟨List.pairwise_map.mpr h.sorted, fun e he => ?_⟩
  obtain ⟨x, hx, rfl⟩ := List.mem_map.mp he
  by_cases hp : p x.2
  · simpa [hp, Record.get?_id_merge] using h.label x hx
  · simpa [hp] using h.label x hx

theorem after_insert (h : c.Labelled) (r : Record) : (c.insert r).2.Labelled := by
  rcases c.insert_snd r with hsame | ⟨id, -, hnew⟩
  · rw [hsame]
    exact h
  · rw [hnew]
    exact h.insert id r

theorem keyed (h : c.Labelled) : c.Keyed :=
  ⟨h.sorted, fun e he => by rw [Record.id?, h.label e he]⟩

theorem filter_byId (h : c.Labelled) (id : String) :
    (Dict.values c).filter (Filter.byId id).finds = (Dict.get? c id).toList := by
  have hfinds : ∀ e ∈ c, ((Filter.byId id).finds e.2 = true ↔ e.1 = id) :=
    fun e he => h.finds_iff he id
  have hsorted := h.sorted
  clear h
  induction c with
  | nil => rfl
  | cons e c ih =>
    obtain ⟨hhead, htail⟩ := List.pairwise_cons.mp hsorted
    have hrest := ih (fun x hx => hfinds x (List.mem_cons_of_mem _ hx)) htail
    rw [Dict.values_cons, Dict.get?]
    by_cases hid : e.1 = id
    · have hnone : Dict.get? c id = none :=
        Dict.get?_eq_none_of_forall_ne fun x hx => hid ▸ (ne_of_lt (hhead x hx)).symm
      rw [List.filter_cons_of_pos ((hfinds e List.mem_cons_self).mpr hid), hrest, hnone, if_pos hid]
      rfl
    · rw [List.filter_cons_of_neg fun hhit => hid ((hfinds e List.mem_cons_self).mp hhit), hrest,
        if_neg hid]

end Collection.Labelled

/-! ### Queries -/

namespace Backend

variable {b : Backend} {name : String}

theorem query_filter (h : b.isReady) (name : String) (f : Filter) :
    b.query name { filter := f } = (f.select (Dict.values (b.collection name))).mapError fun e =>
      .store (.invalidFilter e) := by
  rw [query_eq h, Query.apply, project_of_all rfl]
  cases f.select (Dict.values (b.collection name)) <;>
    simp [sortRecords_nil, bind, Except.bind, Except.mapError]

theorem query_byId (h : b.isReady) (hc : (b.collection name).Labelled) (id : String) :
    b.query name { filter := Filter.byId id } = .ok (b.recordAt? name id).toList := by
  rw [query_filter h, Filter.select_byId, hc.filter_byId]
  rfl

/-! ### Changes -/

/-- Whether changes of records are carried out and reach the place where they are kept. -/
def isWritable : Backend → Bool
  | .memory _ => true
  | .file files _ => files.directory
  | .tables isOpen _ => isOpen
  | .recordsOnly failing _ => !failing

theorem isReady_of_isWritable (h : b.isWritable) : b.isReady := by
  cases b with
  | memory s => rfl
  | file files s => rfl
  | tables isOpen t => exact h
  | recordsOnly failing s => exact h

/-- Whether scans leave a record out even where the filter finds it: tables have nothing to
write it back by if it has no id that is not empty. -/
def passesOver (b : Backend) (r : Record) : Bool :=
  match b with
  | .tables .. => r.id?.isNone
  | _ => false

def takes (b : Backend) (f : Filter) (r : Record) : Bool := !b.passesOver r && f.finds r

/-- A change of one collection has been carried out: its result is answered and the collection
is kept as it leaves it. -/
structure Applied {α : Type} (cs : String → Collection) (name : String)
    (change : Except StoreError α × Collection) (outcome : Outcome α) : Prop where
  answer : outcome.1 = change.1.mapError .store
  collection : outcome.2.collection = Function.update cs name change.2
  writable : outcome.2.isWritable

section Applied

variable {α : Type} {cs : String → Collection} {change : Except StoreError α × Collection}

theorem recordAt?_applied {outcome : Outcome α} (h : Applied b.collection name change outcome)
    (other id : String) :
    outcome.2.recordAt? other id =
      if other = name then Dict.get? change.2 id else b.recordAt? other id := by
  rw [recordAt?, h.collection, Function.update_apply]
  split <;> rfl

theorem applied_inMemory {r : Except StoreError α × Store}
    (h : r.1 = change.1 ∧ r.2.collection = Function.update cs name change.2)
    {make : Store → Backend} (hcollection : ∀ s, (make s).collection = s.collection)
    (hmake : ∀ s, (make s).isWritable) : Applied cs name change (inMemory make r) := by
  obtain ⟨result, s⟩ := r
  obtain ⟨_, c⟩ := change
  obtain ⟨rfl, hs⟩ := h
  rw [← hcollection] at hs
  cases result with
  | error e => exact ⟨rfl, hs, hmake s⟩
  | ok a => exact ⟨rfl, hs, hmake s⟩

theorem flush_written {files : DataFiles} (h : files.directory = true) (s : Store) (a : α) :
    ∃ files', flush files s a = (.ok a, .file files' s) ∧ files'.directory = true := by
  have hreplace : files.replace? s.fileText = some (files.run (files.replaceSteps s.fileText)) :=
    if_pos h
  refine ⟨_, by rw [flush, hreplace], ?_⟩
  cases hdata : files.data <;>
    simp [DataFiles.run, DataFiles.replaceSteps, DataFiles.step, hdata, h]

theorem applied_inFile {r : Except StoreError α × Store}
    (h : r.1 = change.1 ∧ r.2.collection = Function.update cs name change.2) {files : DataFiles}
    (hfiles : files.directory = true) (dirty : α → Bool) :
    Applied cs name change (inFile files dirty r) := by
  obtain ⟨result, s⟩ := r
  obtain ⟨_, c⟩ := change
  obtain ⟨rfl, hs⟩ := h
  cases result with
  | error e => exact ⟨rfl, hs, hfiles⟩
  | ok a =>
    obtain ⟨files', hflush, hdirectory⟩ := flush_written hfiles s a
    rw [inFile, hflush]
    split
    · exact ⟨rfl, hs, hdirectory⟩
    · exact ⟨rfl, hs, hfiles⟩

theorem applied_inTables {r : Except StoreError α × KeyTables}
    (h : r.1 = change.1 ∧ r.2.collection = Function.update cs name change.2) :
    Applied cs name change (inTables r) := by
  obtain ⟨result, t⟩ := r
  obtain ⟨_, c⟩ := change
  obtain ⟨rfl, ht⟩ := h
  cases result with
  | error e => exact ⟨rfl, ht, rfl⟩
  | ok a => exact ⟨rfl, ht, rfl⟩

end Applied

end Backend

/-! ### Requests -/

namespace Backend

variable {b : Backend} {name : String}

theorem insert_applied (h : b.isWritable) (hc : (b.collection name).Labelled) (r : Record) :
    Applied b.collection name ((b.collection name).insert r) (b.insert name r) := by
  cases b with
  | memory s => exact applied_inMemory (s.insert_eq name r) (fun _ => rfl) fun _ => rfl
  | file files s => exact applied_inFile (s.insert_eq name r) h _
  | tables isOpen t =>
    obtain rfl : isOpen = true := h
    exact applied_inTables (KeyTables.insert_eq hc.keyed r)
  | recordsOnly failing s =>
    obtain rfl : failing = false := by simpa [isWritable] using h
    exact applied_inMemory (s.insert_eq name r) (fun _ => rfl) fun _ => rfl

theorem replace_applied (h : b.isWritable) (name id : String) (r : Record) :
    Applied b.collection name
      (.ok (Dict.contains (b.collection name) id),
        Dict.insert (b.collection name) id (r.withId id))
      (b.replace name id r) := by
  let replaced (s : Store) : Except StoreError Bool × Store :=
    (.ok (s.replace name id r).1, (s.replace name id r).2)
  have hstore (s : Store) := (s.replace_eq name id r).2
  cases b with
  | memory s => exact applied_inMemory (r := replaced s) ⟨rfl, hstore s⟩ (fun _ => rfl) fun _ => rfl
  | file files s => exact applied_inFile (r := replaced s) ⟨rfl, hstore s⟩ h fun _ => true
  | tables isOpen t =>
    obtain rfl : isOpen = true := h
    exact applied_inTables (r := (.ok (t.replace name id r).1, (t.replace name id r).2))
      ⟨rfl, (t.replace_eq name id r).2⟩
  | recordsOnly failing s =>
    obtain rfl : failing = false := by simpa [isWritable] using h
    exact applied_inMemory (r := replaced s) ⟨rfl, hstore s⟩ (fun _ => rfl) fun _ => rfl

theorem update_applied (h : b.isWritable) (hc : (b.collection name).Labelled) (part : Record)
    (f : Filter) : Applied b.collection name
      ((b.collection name).scan f (b.takes f) (Collection.mergedWhere (b.takes f) part))
      (b.update name part f) := by
  have hstore (s : Store) := s.update_eq name part f
  simp only [Collection.update_eq_scan] at hstore
  cases b with
  | memory s => exact applied_inMemory (hstore s) (fun _ => rfl) fun _ => rfl
  | file files s => exact applied_inFile (hstore s) h _
  | tables isOpen t =>
    obtain rfl : isOpen = true := h
    exact applied_inTables (KeyTables.update_eq hc.keyed part f)
  | recordsOnly failing s =>
    obtain rfl : failing = false := by simpa [isWritable] using h
    exact applied_inMemory (hstore s) (fun _ => rfl) fun _ => rfl

theorem remove_applied (h : b.isWritable) (hc : (b.collection name).Labelled) (f : Filter) :
    Applied b.collection name
      ((b.collection name).scan f (b.takes f) (Collection.having fun r => !b.takes f r))
      (b.remove name f) := by
  have hstore (s : Store) := s.remove_eq name f
  simp only [Collection.remove_eq_scan] at hstore
  cases b with
  | memory s => exact applied_inMemory (hstore s) (fun _ => rfl) fun _ => rfl
  | file files s => exact applied_inFile (hstore s) h _
  | tables isOpen t =>
    obtain rfl : isOpen = true := h
    exact applied_inTables (KeyTables.remove_eq hc.keyed f)
  | recordsOnly failing s =>
    obtain rfl : failing = false := by simpa [isWritable] using h
    exact applied_inMemory (hstore s) (fun _ => rfl) fun _ => rfl

/-! ### Runs -/

/-- A backend that carries changes out and files each record under the id in it. -/
structure Orderly (b : Backend) : Prop where
  writable : b.isWritable
  labelled : b.Labelled

theorem Applied.orderly {α : Type} {change : Except StoreError α × Collection}
    {outcome : Outcome α} (h : Applied b.collection name change outcome) (hb : b.Labelled)
    (hc : change.2.Labelled) : outcome.2.Orderly := by
  refine ⟨h.writable, ?_⟩
  rw [Labelled, h.collection]
  exact (Function.forall_update_iff _ fun _ c => Collection.Labelled c).mpr
    ⟨hc, fun other _ => hb other⟩

/-- A backend of any kind that was opened over no data and has answered requests about
records, those that it refused included. -/
inductive Reached : Backend → Prop
  | opened {driver : String} {b : Backend} (h : ofName driver = .ok b) : Reached (init b).2
  | answered {b : Backend} (h : Reached b) (q : RecordRequest) : Reached (q.run b).2

theorem orderly_opened {driver : String} (h : ofName driver = .ok b) : (init b).2.Orderly := by
  unfold ofName at h
  split at h
  · cases h
    exact ⟨rfl, fun _ => .nil⟩
  · split at h
    · cases h
      exact ⟨rfl, fun _ => .nil⟩
    · split at h
      · cases h
        exact ⟨rfl, fun _ => .nil⟩
      · cases h

theorem Orderly.scan (h : b.Orderly) {f : Filter} {p : Record → Bool}
    {change : Collection → Collection} (hchange : (change (b.collection name)).Labelled) :
    ((b.collection name).scan f p change).2.Labelled := by
  unfold Collection.scan
  split
  · exact h.labelled name
  · exact hchange

theorem Orderly.run (h : b.Orderly) (q : RecordRequest) : (q.run b).2.Orderly := by
  cases q with
  | query name q => exact h
  | insert name r =>
    exact (insert_applied h.writable (h.labelled name) r).orderly h.labelled
      ((h.labelled name).after_insert r)
  | update name part f =>
    exact (update_applied h.writable (h.labelled name) part f).orderly h.labelled
      (h.scan ((h.labelled name).map_merge _ part))
  | replace name id r =>
    exact (replace_applied h.writable name id r).orderly h.labelled ((h.labelled name).insert id r)
  | remove name f =>
    exact (remove_applied h.writable (h.labelled name) f).orderly h.labelled
      (h.scan ((h.labelled name).filter _))

theorem Reached.orderly (h : b.Reached) : b.Orderly := by
  induction h with
  | opened h => exact orderly_opened h
  | answered h q ih => exact ih.run q

end Backend

end ControlNode
