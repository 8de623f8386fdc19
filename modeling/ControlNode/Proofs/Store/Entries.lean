import ControlNode.Proofs.Store.Effects
import ControlNode.Proofs.Store.Holdings

/-!
# Single samples

The sample that a backend holds of an object at one time (`Backend.sample?`), whichever way it
keeps its samples, and what saving and removing do to it.
-/

namespace ControlNode

theorem Dict.get?_filter_key {κ α : Type} [DecidableEq κ] (d : Dict κ α) (p : κ → Bool) (key : κ) :
    Dict.get? (d.filter fun e => p e.1) key = if p key then Dict.get? d key else none := by
  induction d with
  | nil => simp [Dict.get?]
  | cons e d ih =>
    obtain ⟨k, a⟩ := e
    by_cases hk : k = key
    · subst hk
      cases hp : p k <;> simp_all [Dict.get?]
    · cases hp : p k <;> simp_all [Dict.get?]

namespace Backend

variable {b : Backend} {name object other : String} {x : Sample} {time : Int}

def sample? (b : Backend) (name object : String) (time : Int) : Option Json :=
  match b with
  | .memory s | .file _ s => Dict.get? (s.series name object) time
  | .tables _ t => (Dict.get? (t.series name) (SampleKey.ofSample object time)).map Sample.value
  | .recordsOnly .. => none

/-- Each object of a collection is listed once. -/
def Catalogued (b : Backend) (name : String) : Prop :=
  match b with
  | .memory s | .file _ s => Dict.Sorted (s.objects name)
  | _ => True

/-- The backend can tell the sample of an object at a time from all others; in key tables this
takes an object without a separator and a time of 64 bits. -/
def Locates (b : Backend) (object : String) (time : Int) : Prop :=
  match b with
  | .tables .. => SampleKey.Unseparated object ∧ SampleKey.InRange time
  | _ => True

def takesSamples : Backend → Bool
  | .tables isOpen _ => isOpen
  | .recordsOnly .. => false
  | _ => true

/-- Whether samples are taken and reach the place where they are kept. -/
def storesSamples (b : Backend) : Bool := b.samplesSupported && b.isWritable

theorem flush_snd (files : DataFiles) (s : Store) {α : Type} (a : α) :
    ∃ files', (flush files s a).2 = .file files' s ∧ files'.directory = files.directory := by
  cases hd : files.directory with
  | true =>
    obtain ⟨files', hflush, hdirectory⟩ := flush_written hd s a
    exact ⟨files', by rw [hflush], hdirectory⟩
  | false =>
    have hflush : flush files s a = (.error .io, .file files s) := by
      simp [flush, DataFiles.replace?, hd]
    exact ⟨files, by rw [hflush], hd⟩

theorem inFile_snd (files : DataFiles) (dirty : Nat → Bool) (count : Nat) (s : Store) :
    ∃ files', (inFile files dirty (.ok count, s)).2 = .file files' s ∧
      files'.directory = files.directory := by
  unfold inFile
  dsimp only
  split
  · exact flush_snd files s count
  · exact ⟨files, rfl, rfl⟩

/-! ### Saving -/

theorem samplesSupported_of_storesSamples (h : b.storesSamples = true) :
    b.samplesSupported = true := ((Bool.and_eq_true ..).mp h).1

/-- What can be asked to store samples and does not is a data file without a directory, which
answers from memory, or tables that are closed. -/
theorem eq_of_not_storesSamples (hno : b.storesSamples = false) (h : b.samplesSupported = true) :
    (∃ files s, b = .file files s ∧ files.directory = false) ∨ ∃ t, b = .tables false t := by
  cases b with
  | memory => cases hno
  | file files s => exact .inl ⟨files, s, rfl, hno⟩
  | tables isOpen t =>
    cases isOpen with
    | true => cases hno
    | false => exact .inr ⟨t, rfl⟩
  | recordsOnly => cases h

theorem takesSamples_of_saved (h : (b.saveSample name object x).1 = .ok ()) :
    b.takesSamples = true := by
  cases b with
  | tables isOpen t =>
    cases isOpen with
    | true => rfl
    | false => cases h
  | recordsOnly => cases h
  | _ => rfl

theorem saveSample_eq_ok_iff (b : Backend) (name object : String) (x : Sample) :
    (b.saveSample name object x).1 = .ok () ↔ b.storesSamples = true := by
  cases b with
  | file files s =>
    cases hd : files.directory <;>
      simp [saveSample, storesSamples, samplesSupported, isWritable, flush, DataFiles.replace?, hd]
  | tables isOpen t =>
    cases isOpen <;> simp [saveSample, storesSamples, samplesSupported, isWritable]
  | _ => simp [saveSample, storesSamples, samplesSupported, isWritable]

theorem samplesSupported_saveSample (b : Backend) (name object : String) (x : Sample) :
    (b.saveSample name object x).2.samplesSupported = b.samplesSupported := by
  cases b with
  | file files s =>
    obtain ⟨files', hflush, -⟩ := flush_snd files (s.saveSample name object x) ()
    rw [saveSample, hflush]
    rfl
  | tables isOpen t => cases isOpen <;> rfl
  | _ => rfl

theorem storesSamples_saveSample (b : Backend) (name object : String) (x : Sample) :
    (b.saveSample name object x).2.storesSamples = b.storesSamples := by
  cases b with
  | file files s =>
    obtain ⟨files', hflush, hdirectory⟩ := flush_snd files (s.saveSample name object x) ()
    rw [saveSample, hflush]
    exact hdirectory
  | tables isOpen t => cases isOpen <;> rfl
  | _ => rfl

theorem takesSamples_saveSample (b : Backend) (name object : String) (x : Sample) :
    (b.saveSample name object x).2.takesSamples = b.takesSamples := by
  cases b with
  | file files s =>
    obtain ⟨files', hflush, -⟩ := flush_snd files (s.saveSample name object x) ()
    rw [saveSample, hflush]
    rfl
  | tables isOpen t => cases isOpen <;> rfl
  | _ => rfl

theorem Catalogued.saveSample (h : b.Catalogued name) (object : String) (x : Sample) :
    (b.saveSample name object x).2.Catalogued name := by
  cases b with
  | memory s => exact Store.sorted_objects_saveSample h object x
  | file files s =>
    obtain ⟨files', hflush, -⟩ := flush_snd files (s.saveSample name object x) ()
    rw [Backend.saveSample, hflush]
    exact Store.sorted_objects_saveSample h object x
  | tables isOpen t => cases isOpen <;> trivial
  | recordsOnly => trivial

theorem locates_saveSample (b : Backend) (name object : String) (x : Sample) :
    (b.saveSample name object x).2.Locates other time ↔ b.Locates other time := by
  cases b with
  | file files s =>
    obtain ⟨files', hflush, -⟩ := flush_snd files (s.saveSample name object x) ()
    rw [saveSample, hflush]
    rfl
  | tables isOpen t => cases isOpen <;> rfl
  | _ => rfl

theorem get?_series_saveSample (s : Store) (name object : String) (x : Sample) (other : String)
    (time : Int) : Dict.get? ((s.saveSample name object x).series name other) time =
      if other = object ∧ time = x.time then some x.value
      else Dict.get? (s.series name other) time := by
  rw [Store.series_saveSample]
  by_cases hobject : object = other
  · subst hobject
    rw [if_pos rfl, Dict.get?_insert]
    simp only [true_and, eq_comm]
  · rw [if_neg hobject, if_neg fun h => hobject h.1.symm]

theorem sample?_saveSample (hb : b.takesSamples = true) (hx : b.Locates object x.time)
    (ht : b.Locates other time) : (b.saveSample name object x).2.sample? name other time =
      if other = object ∧ time = x.time then some x.value else b.sample? name other time := by
  cases b with
  | memory s => exact get?_series_saveSample s name object x other time
  | file files s =>
    obtain ⟨files', hflush, -⟩ := flush_snd files (s.saveSample name object x) ()
    rw [saveSample, hflush]
    exact get?_series_saveSample s name object x other time
  | tables isOpen t =>
    obtain rfl : isOpen = true := hb
    have hkey := SampleKey.ofSample_inj hx.1 ht.1 hx.2 ht.2
    simp only [saveSample, sample?, KeyTables.series, KeyTables.saveSample, Dict.get?_insert,
      if_true, Option.getD_some, hkey, eq_comm (a := object), eq_comm (a := x.time)]
    split <;> rfl
  | recordsOnly => cases hb

/-! ### Removing -/

theorem samplesSupported_removeSamples (b : Backend) (name : String)
    (ids : Option (List String)) (r : SampleRange) :
    (b.removeSamples name ids r).2.samplesSupported = b.samplesSupported := by
  cases b with
  | file files s =>
    obtain ⟨files', hflush, -⟩ := inFile_snd files (· > 0) (s.removeSamples name ids r).1
      (s.removeSamples name ids r).2
    rw [removeSamples, hflush]
    rfl
  | tables isOpen t => cases isOpen <;> rfl
  | _ => rfl

theorem storesSamples_removeSamples (b : Backend) (name : String) (ids : Option (List String))
    (r : SampleRange) : (b.removeSamples name ids r).2.storesSamples = b.storesSamples := by
  cases b with
  | file files s =>
    obtain ⟨files', hflush, hdirectory⟩ := inFile_snd files (· > 0) (s.removeSamples name ids r).1
      (s.removeSamples name ids r).2
    rw [removeSamples, hflush]
    exact hdirectory
  | tables isOpen t => cases isOpen <;> rfl
  | _ => rfl

/-- The samples of the wanted objects in the range are gone, all others are there. -/
theorem sample?_removeSamples (hb : b.takesSamples = true) (hc : b.Catalogued name)
    (ht : b.Locates other time) (ids : Option (List String)) (r : SampleRange) :
    (b.removeSamples name ids r).2.sample? name other time =
      if Store.wanted ids other && r.contains time then none else b.sample? name other time := by
  have hstore (s : Store) (hs : Dict.Sorted (s.objects name)) :
      Dict.get? ((s.removeSamples name ids r).2.series name other) time =
        if Store.wanted ids other && r.contains time then none
        else Dict.get? (s.series name other) time := by
    rw [Store.series_removeSamples hs, if_pos rfl,
      Dict.get?_filter_key _ fun time => !(Store.wanted ids other && r.contains time)]
    cases Store.wanted ids other && r.contains time <;> rfl
  cases b with
  | memory s => exact hstore s hc
  | file files s =>
    obtain ⟨files', hflush, -⟩ := inFile_snd files (· > 0) (s.removeSamples name ids r).1
      (s.removeSamples name ids r).2
    rw [removeSamples, hflush]
    exact hstore s hc
  | tables isOpen t =>
    obtain rfl : isOpen = true := hb
    have hdrops : KeyTables.drops ids r (SampleKey.ofSample other time) =
        (Store.wanted ids other && r.contains time) := by
      rw [KeyTables.drops, SampleKey.split?_ofSample ht.1 ht.2]
    have hseries : (t.removeSamples name ids r).2.series name =
        (t.series name).filter fun e => !KeyTables.drops ids r e.1 := by
      rw [KeyTables.removeSamples_eq]
      simp [KeyTables.series, Dict.get?_insert]
    simp only [removeSamples, sample?, hseries]
    rw [Dict.get?_filter_key _ fun key => !KeyTables.drops ids r key, hdrops]
    cases Store.wanted ids other && r.contains time <;> rfl
  | recordsOnly => cases hb

end Backend

end ControlNode
