import ControlNode.Proofs.Store.Purges

/-!
# The samples of one object in memory

What the calls of a backend do to the series that a memory or a data file holds of an object
(`Holds`), and what is found when the latest sample up to a time is looked up
(`Holds.samplesAt_append`). A data file answers from the store in memory, which has changed even
when the file could not be written.
-/

namespace ControlNode

namespace Store

variable {s : Store} {name : String}

theorem series_saveSample (s : Store) (name object : String) (x : Sample) (other : String) :
    (s.saveSample name object x).series name other =
      if object = other then Dict.insert (s.series name object) x.time x.value
      else s.series name other := by
  rw [series_eq, objects_saveSample, if_pos rfl, Dict.get?_insert]
  split <;> rfl

theorem sorted_objects_saveSample (h : Dict.Sorted (s.objects name)) (object : String)
    (x : Sample) : Dict.Sorted ((s.saveSample name object x).objects name) := by
  rw [objects_saveSample, if_pos rfl]
  exact Dict.sorted_insert _ _ h

theorem sorted_objects_removeSamples (h : Dict.Sorted (s.objects name))
    (ids : Option (List String)) (r : SampleRange) :
    Dict.Sorted ((s.removeSamples name ids r).2.objects name) := by
  rw [objects_removeSamples, if_pos rfl]
  exact List.Pairwise.filter _ (List.pairwise_map.mpr h)

end Store

namespace Backend

/-- The store that a backend answers from, be it written to a data file or not. -/
def resident? : Backend → Option Store
  | .memory s | .file _ s => some s
  | _ => none

section Resident

variable {b : Backend} {s : Store}

theorem resident?_flush {α : Type} (files : DataFiles) (s : Store) (a : α) :
    (flush files s a).2.resident? = some s := by
  unfold flush
  split <;> rfl

theorem resident?_inMemory {α : Type} (r : Except StoreError α × Store) :
    (inMemory .memory r).2.resident? = some r.2 := by
  unfold inMemory
  split <;> rfl

theorem resident?_inFile {α : Type} (files : DataFiles) (dirty : α → Bool)
    (r : Except StoreError α × Store) : (inFile files dirty r).2.resident? = some r.2 := by
  unfold inFile
  split
  · split
    · exact resident?_flush ..
    · rfl
  · rfl

theorem resident?_replace (h : b.resident? = some s) (name id : String) (r : Record) :
    (b.replace name id r).2.resident? = some (s.replace name id r).2 := by
  cases b with
  | memory => cases h; rfl
  | file => cases h; exact resident?_inFile ..
  | _ => cases h

theorem resident?_remove (h : b.resident? = some s) (name : String) (f : Filter) :
    (b.remove name f).2.resident? = some (s.remove name f).2 := by
  cases b with
  | memory => cases h; exact resident?_inMemory ..
  | file => cases h; exact resident?_inFile ..
  | _ => cases h

theorem resident?_saveSample (h : b.resident? = some s) (name object : String) (x : Sample) :
    (b.saveSample name object x).2.resident? = some (s.saveSample name object x) := by
  cases b with
  | memory => cases h; rfl
  | file => cases h; exact resident?_flush ..
  | _ => cases h

theorem resident?_removeSamples (h : b.resident? = some s) (name : String)
    (ids : Option (List String)) (r : SampleRange) :
    (b.removeSamples name ids r).2.resident? = some (s.removeSamples name ids r).2 := by
  cases b with
  | memory => cases h; rfl
  | file => cases h; exact resident?_inFile ..
  | _ => cases h

end Resident

/-- A memory or a data file lists each object once and holds the series of an object. -/
def Holds (b : Backend) (name object : String) (series : Series) : Prop :=
  ∃ s, b.resident? = some s ∧ Dict.Sorted (s.objects name) ∧ s.series name object = series

namespace Holds

variable {b b' : Backend} {name object other : String} {series earlier later : Series}

theorem of_samples {s s' : Store} (hb : b.resident? = some s) (hb' : b'.resident? = some s')
    (hsame : s'.samples = s.samples) (h : b.Holds name object series) :
    b'.Holds name object series := by
  obtain ⟨s₀, hs, hsorted, hseries⟩ := h
  obtain rfl : s = s₀ := Option.some.inj (hb.symm.trans hs)
  refine ⟨s', hb', ?_, ?_⟩
  · rwa [Store.objects, hsame]
  · rwa [Store.series, hsame]

theorem samplesSupported (h : b.Holds name object series) : b.samplesSupported = true := by
  obtain ⟨s, hs, -⟩ := h
  cases b <;> first | rfl | cases hs

/-! ### Records -/

theorem ensureIndex (h : b.Holds name object series) :
    b.ensureIndex.2.Holds name object series := by
  rwa [ensureIndex_snd]

theorem replace (h : b.Holds name object series) (collection id : String) (r : Record) :
    (b.replace collection id r).2.Holds name object series := by
  have ⟨s, hs, _⟩ := h
  exact of_samples hs (resident?_replace hs collection id r) rfl h

theorem remove (h : b.Holds name object series) (collection : String) (f : Filter) :
    (b.remove collection f).2.Holds name object series := by
  have ⟨s, hs, _⟩ := h
  exact of_samples hs (resident?_remove hs collection f) (s.samples_remove collection f) h

/-! ### Samples -/

theorem saveSample (h : b.Holds name object series) (x : Sample) :
    (b.saveSample name object x).2.Holds name object (Dict.insert series x.time x.value) := by
  obtain ⟨s, hs, hsorted, rfl⟩ := h
  refine ⟨_, resident?_saveSample hs name object x,
    Store.sorted_objects_saveSample hsorted object x, ?_⟩
  rw [Store.series_saveSample, if_pos rfl]

theorem saveSample_of_ne (h : b.Holds name object series) (hne : other ≠ object) (x : Sample) :
    (b.saveSample name other x).2.Holds name object series := by
  obtain ⟨s, hs, hsorted, rfl⟩ := h
  refine ⟨_, resident?_saveSample hs name other x,
    Store.sorted_objects_saveSample hsorted other x, ?_⟩
  rw [Store.series_saveSample, if_neg hne]

theorem removeSamples (h : b.Holds name object series) (ids : Option (List String))
    (r : SampleRange) : (b.removeSamples name ids r).2.Holds name object
      (series.filter fun e => !(Store.wanted ids object && r.contains e.1)) := by
  obtain ⟨s, hs, hsorted, rfl⟩ := h
  refine ⟨_, resident?_removeSamples hs name ids r,
    Store.sorted_objects_removeSamples hsorted ids r, ?_⟩
  rw [Store.series_removeSamples hsorted, if_pos rfl]

theorem removeSamples_of_ne (h : b.Holds name object series) (hne : other ≠ object)
    (r : SampleRange) : (b.removeSamples name (some [other]) r).2.Holds name object series := by
  have hkept (x : Int × Json) :
      (!(Store.wanted (some [other]) object && r.contains x.1)) = true := by
    simp [Store.wanted, hne.symm]
  have hremoved := h.removeSamples (some [other]) r
  rwa [List.filter_eq_self.mpr fun x _ => hkept x] at hremoved

/-- Samples of later times make no difference to what is found. -/
theorem samplesAt_append (h : b.Holds name object (earlier ++ later)) {time : Int}
    (hearlier : ∀ e ∈ earlier, e.1 ≤ time) (hlater : ∀ e ∈ later, time < e.1) :
    b.samplesAt name object [time] = .ok [earlier.getLast?.map fun e => ⟨e.1, e.2⟩] := by
  obtain ⟨s, hs, -, hseries⟩ := h
  have hfound : (earlier ++ later).filter (fun e => e.1 ≤ time) = earlier := by
    have hkept : earlier.filter (fun e => e.1 ≤ time) = earlier :=
      List.filter_eq_self.mpr fun e he => decide_eq_true (hearlier e he)
    have hdropped : later.filter (fun e => e.1 ≤ time) = [] :=
      List.filter_eq_nil_iff.mpr fun e he => by simpa using hlater e he
    rw [List.filter_append, hkept, hdropped, List.append_nil]
  have hanswer : b.samplesAt name object [time] = .ok [s.sampleAt name object time] := by
    cases b <;> cases hs <;> rfl
  rw [hanswer, Store.sampleAt, hseries, hfound]

end Holds

end Backend

end ControlNode
