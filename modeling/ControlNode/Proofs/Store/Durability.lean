import ControlNode.Proofs.Store.Calls
import ControlNode.Proofs.Store.Documents
import ControlNode.Proofs.Store.Records
import ControlNode.Proofs.Store.Samples

/-!
# Durability of data files

After any calls a new backend over the data file answers as the old one does. The file holds
the store of the last call that wrote one; a call that writes none, because it was refused or
has found nothing, leaves a store with the same collections and the same series.
-/

namespace ControlNode

/-! ### Stores that answer alike -/

namespace Store

/-- Stores with the same collections and series; one may know an object without samples that
the other does not. -/
structure Alike (s s' : Store) : Prop where
  collection : s.collection = s'.collection
  series : ∀ name object, s.series name object = s'.series name object

namespace Alike

variable {s s' s'' : Store}

theorem refl (s : Store) : Alike s s := ⟨rfl, fun _ _ => rfl⟩

theorem symm (h : Alike s s') : Alike s' s :=
  ⟨h.collection.symm, fun name object => (h.series name object).symm⟩

theorem trans (h : Alike s s') (h' : Alike s' s'') : Alike s s'' :=
  ⟨h.collection.trans h'.collection, fun name object =>
    (h.series name object).trans (h'.series name object)⟩

theorem of_update {name : String} (hsamples : s'.samples = s.samples)
    (h : s'.collection = Function.update s.collection name (s.collection name)) : Alike s s' := by
  refine ⟨?_, fun name object => ?_⟩
  · rw [h, Function.update_eq_self]
  · rw [Store.series, Store.series, hsamples]

theorem query_eq (h : Alike s s') (name : String) (q : Query) :
    s.query name q = s'.query name q := by
  rw [Store.query_eq, Store.query_eq, h.collection]

theorem sampleSlice_eq (h : Alike s s') (name object : String) (r : SampleRange) :
    s.sampleSlice name object r = s'.sampleSlice name object r := by
  rw [sampleSlice, sampleSlice, h.series]

theorem sampleAt_eq (h : Alike s s') (name object : String) (time : Int) :
    s.sampleAt name object time = s'.sampleAt name object time := by
  rw [sampleAt, sampleAt, h.series]

end Alike

/-! ### Calls that write nothing -/

theorem insert_alike {s : Store} {name : String} {r : Record}
    (h : ∀ id, (s.insert name r).1 ≠ .ok id) : Alike s (s.insert name r).2 := by
  obtain ⟨hresult, hchange⟩ := s.insert_eq name r
  rw [hresult] at h
  rw [Collection.insert_unchanged h] at hchange
  exact .of_update rfl hchange

theorem update_alike {s : Store} {name : String} {part : Record} {f : Filter}
    (h : ∀ n, (s.update name part f).1 = .ok n → n = 0) : Alike s (s.update name part f).2 := by
  obtain ⟨hresult, hchange⟩ := s.update_eq name part f
  rw [hresult] at h
  rw [Collection.update_unchanged h] at hchange
  have hsamples : (s.update name part f).2.samples = s.samples := by
    unfold update
    split <;> rfl
  exact .of_update hsamples hchange

theorem remove_alike {s : Store} {name : String} {f : Filter}
    (h : ∀ n, (s.remove name f).1 = .ok n → n = 0) : Alike s (s.remove name f).2 := by
  obtain ⟨hresult, hchange⟩ := s.remove_eq name f
  rw [hresult] at h
  rw [Collection.remove_unchanged h] at hchange
  have hsamples : (s.remove name f).2.samples = s.samples := by
    unfold remove
    split <;> rfl
  exact .of_update hsamples hchange

theorem length_remaining_le (all : Dict String Series) (ids : Option (List String))
    (r : SampleRange) :
    (Series.keyedAll (remaining all ids r)).length ≤ (Series.keyedAll all).length := by
  induction all with
  | nil => exact Nat.le_refl _
  | cons e all ih =>
    have hhead := List.length_filter_le (fun x => !(wanted ids e.1 && r.contains x.1)) e.2
    simp only [remaining, List.map_cons, Series.keyedAll_cons, List.length_append,
      Series.length_keyed] at ih ⊢
    omega

theorem remaining_eq_self {all : Dict String Series} {ids : Option (List String)}
    {r : SampleRange} (h : (Series.keyedAll all).length ≤
      (Series.keyedAll (remaining all ids r)).length) : remaining all ids r = all := by
  induction all with
  | nil => rfl
  | cons e all ih =>
    have hhead := List.length_filter_le (fun x => !(wanted ids e.1 && r.contains x.1)) e.2
    have hrest := length_remaining_le all ids r
    simp only [remaining, List.map_cons, Series.keyedAll_cons, List.length_append,
      Series.length_keyed] at h hrest ih ⊢
    have hkept : e.2.filter (fun x => !(wanted ids e.1 && r.contains x.1)) = e.2 :=
      List.filter_sublist.eq_of_length (by omega)
    rw [hkept, ih (by omega)]

theorem ordered_objects {s : Store} (h : s.Normal) (name : String) :
    (s.objects name).Ordered Series.Normal := by
  rw [objects]
  cases hget : s.samples.get? name with
  | none => exact .nil
  | some all => exact h.samples.get? hget

theorem series_eq (s : Store) (name object : String) :
    s.series name object = ((s.objects name).get? object).getD [] := rfl

theorem collection_removeSamples (s : Store) (name : String) (ids : Option (List String))
    (r : SampleRange) : (s.removeSamples name ids r).2.collection = s.collection := by
  funext other
  unfold removeSamples
  split <;> rfl

theorem removeSamples_alike {s : Store} (hs : s.Normal) {name : String}
    {ids : Option (List String)} {r : SampleRange} (h : (s.removeSamples name ids r).1 = 0) :
    Alike s (s.removeSamples name ids r).2 := by
  refine ⟨(s.collection_removeSamples name ids r).symm, fun other object => ?_⟩
  rw [count_removeSamples] at h
  have hkept := remaining_eq_self (Nat.le_of_sub_eq_zero h)
  rw [series_eq, series_eq, objects_removeSamples, hkept]
  by_cases hn : name = other
  · subst hn
    rw [if_pos rfl, Dict.get?_filter (ordered_objects hs name).sorted fun x => !x.isEmpty]
    cases hget : (s.objects name).get? object with
    | none => rfl
    | some x => cases x <;> rfl
  · rw [if_neg hn]

/-! ### Changes keep stores in normal form -/

theorem normal_withId {r : Record} (h : r.Normal) (id : String) : (r.withId id).Normal :=
  Dict.Ordered.insert h "id" rfl

theorem normal_merge {r part : Record} (h : r.Normal) (hp : part.Normal) :
    (r.merge part).Normal := by
  have hvalues := hp.entries
  unfold Record.merge
  clear hp
  induction part generalizing r with
  | nil => exact h
  | cons e part ih =>
    rw [List.foldl_cons]
    have hrest : ∀ e ∈ part, e.2.normalize = e.2 := fun e he =>
      hvalues e (List.mem_cons_of_mem _ he)
    by_cases hid : e.1 = "id"
    · rw [if_pos hid]
      exact ih h hrest
    · rw [if_neg hid]
      exact ih (Dict.Ordered.insert h e.1 (hvalues e (List.mem_cons_self ..))) hrest

theorem normal_setCollection {s : Store} (h : s.Normal) (name : String) {c : Collection}
    (hc : c.Ordered Record.Normal) : (s.setCollection name c).Normal :=
  ⟨h.collections.insert name hc, h.samples⟩

theorem ordered_collection {s : Store} (h : s.Normal) (name : String) :
    (s.collection name).Ordered Record.Normal := by
  rw [collection]
  cases hget : s.collections.get? name with
  | none => exact .nil
  | some c => exact h.collections.get? hget

theorem normal_insert {s : Store} (h : s.Normal) (name : String) {r : Record} (hr : r.Normal) :
    (s.insert name r).2.Normal := by
  have hc := ordered_collection h name
  show (s.setCollection name ((s.collection name).insert r).2).Normal
  rcases (s.collection name).insert_snd r with hsame | ⟨id, -, hnew⟩
  · rw [hsame]
    exact normal_setCollection h name hc
  · rw [hnew]
    exact normal_setCollection h name (hc.insert id (normal_withId hr id))

theorem normal_update {s : Store} (h : s.Normal) (name : String) {part : Record}
    (hp : part.Normal) (f : Filter) : (s.update name part f).2.Normal := by
  unfold update
  split
  · exact h
  · rename_i c hget
    have hc := h.collections.get? hget
    refine normal_setCollection h name ?_
    rw [Collection.update_eq]
    cases f.select (Dict.values c) with
    | error e => exact hc
    | ok found =>
      refine hc.map fun e he => ?_
      split
      · exact normal_merge (hc.entries e he) hp
      · exact hc.entries e he

theorem normal_replace {s : Store} (h : s.Normal) (name id : String) {r : Record}
    (hr : r.Normal) : (s.replace name id r).2.Normal :=
  normal_setCollection h name ((ordered_collection h name).insert id (normal_withId hr id))

theorem normal_remove {s : Store} (h : s.Normal) (name : String) (f : Filter) :
    (s.remove name f).2.Normal := by
  unfold remove
  split
  · exact h
  · rename_i c hget
    have hc := h.collections.get? hget
    refine normal_setCollection h name ?_
    rw [Collection.remove_eq]
    cases f.select (Dict.values c) with
    | error e => exact hc
    | ok found => exact hc.filter _

theorem normal_saveSample {s : Store} (h : s.Normal) (name object : String) {x : Sample}
    (ht : SampleKey.InRange x.time) (hv : x.value.normalize = x.value) :
    (s.saveSample name object x).Normal := by
  have hobjects := ordered_objects h name
  have hseries : Series.Normal (((s.objects name).get? object).getD []) := by
    cases hget : (s.objects name).get? object with
    | none => exact ⟨.nil, by simp⟩
    | some series => exact hobjects.get? hget
  refine ⟨h.collections, h.samples.insert name (hobjects.insert object ⟨?_, ?_⟩)⟩
  · exact hseries.ordered.insert x.time hv
  · intro y hy
    rcases Dict.mem_insert hy with rfl | hy
    · exact ht
    · exact hseries.inRange y hy

theorem normal_filter {s : Series} (h : s.Normal) (p : Int × Json → Bool) :
    Series.Normal (s.filter p) :=
  ⟨h.ordered.filter p, fun x hx => h.inRange x (List.mem_filter.mp hx).1⟩

theorem normal_removeSamples {s : Store} (h : s.Normal) (name : String)
    (ids : Option (List String)) (r : SampleRange) : (s.removeSamples name ids r).2.Normal := by
  unfold removeSamples
  split
  · exact h
  · rename_i all hget
    have hall := h.samples.get? hget
    refine ⟨h.collections, h.samples.insert name (Dict.Ordered.filter ?_ _)⟩
    refine hall.map fun e he => ?_
    split
    · exact normal_filter (hall.entries e he) _
    · exact hall.entries e he

end Store

/-! ### Calls -/

namespace Backend

/-- A call with data in normal form and with times of 64 bits. -/
def Call.Normal : Call → Prop
  | .insert _ r => r.Normal
  | .update _ part _ => part.Normal
  | .replace _ _ r => r.Normal
  | .saveSample _ _ x => SampleKey.InRange x.time ∧ x.value.normalize = x.value
  | _ => True

/-- Data files whose contents answer as the store in memory does. -/
structure Durable (files : DataFiles) (s : Store) : Prop where
  directory : files.directory = true
  normal : s.Normal
  saved : ∃ saved, files.load? = some saved ∧ s.Alike saved

namespace Durable

variable {files : DataFiles} {s : Store}

theorem keep (h : Durable files s) {s' : Store} (hn : s'.Normal) (hs : s.Alike s') :
    Durable files s' := by
  obtain ⟨saved, hload, halike⟩ := h.saved
  exact ⟨h.directory, hn, saved, hload, hs.symm.trans halike⟩

theorem replace (hd : files.directory = true) (hn : s.Normal) (hr : s.ReadsBack) :
    ∃ files', files.replace? s.fileText = some files' ∧ Durable files' s := by
  have hreplace : files.replace? s.fileText =
      some (files.run (files.replaceSteps s.fileText)) := if_pos hd
  refine ⟨_, hreplace, ?_, hn, s, ?_, .refl s⟩
  · cases hdata : files.data <;>
      simp [DataFiles.run, DataFiles.replaceSteps, DataFiles.step, hd, hdata]
  · have hdata : (files.run (files.replaceSteps s.fileText)).data = some s.fileText := by
      cases hdata : files.data <;>
        simp [DataFiles.run, DataFiles.replaceSteps, DataFiles.step, hdata]
    rw [DataFiles.load?, hdata]
    simp only [Store.ofFileText?_fileText hn hr]

theorem flush (hd : files.directory = true) (hn : s.Normal) (hr : s.ReadsBack) (a : α) :
    ∃ files', (Backend.flush files s a).2 = .file files' s ∧ Durable files' s := by
  obtain ⟨files', hreplace, hdurable⟩ := replace hd hn hr
  exact ⟨files', by rw [Backend.flush, hreplace], hdurable⟩

theorem inFile (h : Durable files s) {dirty : α → Bool} {r : Except StoreError α × Store}
    (hn : r.2.Normal) (hkeep : Call.written? dirty r = none → s.Alike r.2)
    (hr : ∀ s' ∈ Call.written? dirty r, s'.ReadsBack) :
    ∃ files' s', (Backend.inFile files dirty r).2 = .file files' s' ∧ Durable files' s' := by
  obtain ⟨e | a, s'⟩ := r
  · exact ⟨files, s', rfl, h.keep hn (hkeep rfl)⟩
  · by_cases ha : dirty a = true
    · have hs' : s'.ReadsBack := hr s' (by simp [Call.written?, ha])
      obtain ⟨files', hflush, hdurable⟩ := flush h.directory hn hs' a
      exact ⟨files', s', by simp only [Backend.inFile, ha, if_true, hflush], hdurable⟩
    · refine ⟨files, s', by simp [Backend.inFile, ha], h.keep hn (hkeep ?_)⟩
      simp [Call.written?, ha]

/-- What a new backend is ready with over the same files. -/
theorem init (h : Durable files s) (store : Store) :
    ∃ saved, Backend.init (.file files store) = (.ok (), .file files saved) ∧ s.Alike saved ∧
      Durable files saved := by
  obtain ⟨saved, hload, halike⟩ := h.saved
  have hfiles : { files with directory := true } = files := by
    rw [← h.directory]
  refine ⟨saved, ?_, halike, h.keep (DataFiles.normal_of_load? hload) halike⟩
  simp only [Backend.init, hfiles, hload]

end Durable

theorem not_dirty_of_written? {dirty : α → Bool} {r : Except StoreError α × Store}
    (h : Call.written? dirty r = none) {a : α} (ha : r.1 = .ok a) : dirty a = false := by
  obtain ⟨e | b, s⟩ := r
  · cases ha
  · cases ha
    by_contra hdirty
    simp [Call.written?, hdirty] at h

theorem zero_of_written? {r : Except StoreError Nat × Store}
    (h : Call.written? (· > 0) r = none) {n : Nat} (hn : r.1 = .ok n) : n = 0 := by
  have hpos := not_dirty_of_written? h hn
  simp only [gt_iff_lt, decide_eq_false_iff_not] at hpos
  omega

theorem perform_durable {files : DataFiles} {s : Store} (h : Durable files s) (c : Call)
    (hc : c.Normal) (hr : ∀ s' ∈ c.writes? s, s'.ReadsBack) :
    ∃ files' s', c.perform (.file files s) = .file files' s' ∧ Durable files' s' := by
  cases c with
  | insert name r =>
    refine h.inFile (s.normal_insert h.normal name hc) (fun hnone => ?_) hr
    exact Store.insert_alike fun id hid => nomatch not_dirty_of_written? hnone hid
  | update name part f =>
    exact h.inFile (Store.normal_update h.normal name hc f)
      (fun hnone => Store.update_alike fun n => zero_of_written? hnone) hr
  | replace name id r =>
    let change : Except StoreError Bool × Store :=
      (.ok (s.replace name id r).1, (s.replace name id r).2)
    exact h.inFile (r := change) (Store.normal_replace h.normal name id hc)
      (fun hnone => nomatch hnone) hr
  | remove name f =>
    exact h.inFile (Store.normal_remove h.normal name f)
      (fun hnone => Store.remove_alike fun n => zero_of_written? hnone) hr
  | saveSample name object x =>
    obtain ⟨files', hflush, hdurable⟩ := Durable.flush h.directory
      (Store.normal_saveSample h.normal name object hc.1 hc.2) (hr _ rfl) ()
    exact ⟨files', _, hflush, hdurable⟩
  | removeSamples name ids r =>
    let change : Except StoreError Nat × Store :=
      (.ok (s.removeSamples name ids r).1, (s.removeSamples name ids r).2)
    refine h.inFile (r := change) (Store.normal_removeSamples h.normal name ids r)
      (fun hnone => ?_) hr
    exact Store.removeSamples_alike h.normal (zero_of_written? hnone rfl)
  | cleanup =>
    obtain ⟨files', hflush, hdurable⟩ := Durable.flush h.directory h.normal (hr _ rfl) ()
    exact ⟨files', _, hflush, hdurable⟩
  | reopen =>
    obtain ⟨saved, hinit, -, hdurable⟩ := h.init {}
    exact ⟨files, saved, congrArg Prod.snd hinit, hdurable⟩

/-- The stores that calls write to the data file. -/
def written (b : Backend) : List Call → List Store
  | [] => []
  | c :: cs => (c.writes? b.store).toList ++ written (c.perform b) cs

theorem written_append (b : Backend) (calls later : List Call) :
    written b (calls ++ later) =
      written b calls ++ written (calls.foldl (fun b c => c.perform b) b) later := by
  induction calls generalizing b with
  | nil => rfl
  | cons c calls ih => simp only [List.cons_append, written, ih, List.foldl_cons, List.append_assoc]

theorem durable_of_init {files : DataFiles} {b : Backend}
    (h : init (.file files {}) = (.ok (), b)) : ∃ files s, b = .file files s ∧ Durable files s := by
  unfold init at h
  simp only at h
  split at h
  · rename_i s hload
    cases h
    exact ⟨_, s, rfl, rfl, DataFiles.normal_of_load? hload, s, hload, .refl s⟩
  · cases h

theorem calls_durable {b : Backend} (hb : ∃ files s, b = .file files s ∧ Durable files s)
    (calls : List Call) (hc : ∀ c ∈ calls, c.Normal) (hr : ∀ s ∈ written b calls, s.ReadsBack) :
    ∃ files s, calls.foldl (fun b c => c.perform b) b = .file files s ∧ Durable files s := by
  induction calls generalizing b with
  | nil => exact hb
  | cons c calls ih =>
    obtain ⟨files, s, rfl, hdurable⟩ := hb
    rw [written] at hr
    have hhead : ∀ s' ∈ c.writes? s, s'.ReadsBack := fun s' hs' =>
      hr s' (List.mem_append_left _ (Option.mem_toList.mpr hs'))
    exact ih (perform_durable hdurable c (hc c (List.mem_cons_self ..)) hhead)
      (fun c hmem => hc c (List.mem_cons_of_mem _ hmem))
      (fun s' hs' => hr s' (List.mem_append_right _ hs'))

/-- A new backend over the data file of an old one answers as the old one does, whatever calls
came before. -/
theorem successor_answers_as_before (files : DataFiles) (b : Backend)
    (hb : init (.file files {}) = (.ok (), b)) (calls : List Call) (hc : ∀ c ∈ calls, c.Normal)
    (hr : ∀ s ∈ written b calls, s.ReadsBack) :
    ∃ b', init (calls.foldl (fun b c => c.perform b) b).successor = (.ok (), b') ∧
      (∀ name q, b'.query name q = (calls.foldl (fun b c => c.perform b) b).query name q) ∧
      (∀ name object r, b'.sampleSlice name object r =
        (calls.foldl (fun b c => c.perform b) b).sampleSlice name object r) ∧
      ∀ name object times, b'.samplesAt name object times =
        (calls.foldl (fun b c => c.perform b) b).samplesAt name object times := by
  obtain ⟨files, s, hfinal, hdurable⟩ := calls_durable (durable_of_init hb) calls hc hr
  rw [hfinal]
  obtain ⟨saved, hinit, halike, -⟩ := hdurable.init {}
  refine ⟨.file files saved, hinit, ?_, ?_, ?_⟩
  · intro name q
    simp only [query, halike.query_eq]
  · intro name object r
    simp only [sampleSlice, halike.sampleSlice_eq]
  · intro name object times
    have hsame : s.sampleAt name object = saved.sampleAt name object :=
      funext fun time => halike.sampleAt_eq name object time
    simp only [samplesAt, hsame]

/-- Changes of records and samples, among them an id given twice, an unreadable filter and a
removal that finds nothing. -/
def mixedCalls : List Call :=
  [.insert "ports" [("id", .str "lamp"), ("value", .int 5)],
    .insert "ports" [("id", .str "lamp")],
    .insert "ports" [("name", .str "on \"top\"")],
    .update "ports" [("seen", .bool true)] [("value", .obj [("ge", .int 0)])],
    .update "ports" [("seen", .bool false)] [("value", .obj [("in", .null)])],
    .replace "ports" "fan" [("levels", .arr [.int (-1), .null])],
    .saveSample "value_history" "lamp" ⟨-5, .int 1⟩,
    .saveSample "value_history" "lamp" ⟨10, .null⟩,
    .remove "ports" [("id", .str "none")],
    .removeSamples "value_history" none { start := some 0 },
    .cleanup]

theorem successor_answers_as_before_mixed :
    init (.file {} {}) = (.ok (), (init (.file {} {})).2) ∧ (∀ c ∈ mixedCalls, c.Normal) ∧
    (∀ s ∈ written (init (.file {} {})).2 mixedCalls, s.ReadsBack) ∧
    ∃ b', init (mixedCalls.foldl (fun b (c : Call) => c.perform b)
        (init (.file {} {})).2).successor = (.ok (), b') ∧
      ∀ name q, b'.query name q = (mixedCalls.foldl (fun b (c : Call) => c.perform b)
        (init (.file {} {})).2).query name q := by
  have hinit : init (.file {} {}) = (.ok (), (init (.file {} {})).2) := rfl
  have hcalls : ∀ c ∈ mixedCalls, c.Normal := by
    have hlamp : Record.Normal [("id", .str "lamp"), ("value", .int 5)] :=
      ⟨by decide, by simp [Json.normalize]⟩
    have hsingle (name : String) {j : Json} (hj : j.normalize = j) : Record.Normal [(name, j)] :=
      Dict.Ordered.nil.insert name hj
    have htimes : SampleKey.InRange (-5) ∧ SampleKey.InRange 10 := by decide
    simp only [mixedCalls, Call.Normal, List.forall_mem_cons]
    refine ⟨hlamp, hsingle _ rfl, hsingle _ rfl, hsingle _ rfl, hsingle _ rfl, hsingle _ rfl,
      ⟨htimes.1, rfl⟩, ⟨htimes.2, rfl⟩, trivial, trivial, trivial, by simp⟩
  have hplain : (written (init (.file {} {})).2 mixedCalls).all
      (fun s => s.toJson.isPlain Json.maxDepth) = true := by decide +kernel
  have hwritten : ∀ s ∈ written (init (.file {} {})).2 mixedCalls, s.ReadsBack := fun s hs =>
    Store.readsBack_of_isPlain (List.all_eq_true.mp hplain s hs)
  obtain ⟨b', hb', hquery, -⟩ := successor_answers_as_before {} _ hinit mixedCalls hcalls hwritten
  exact ⟨hinit, hcalls, hwritten, b', hb', hquery⟩

end Backend

end ControlNode
