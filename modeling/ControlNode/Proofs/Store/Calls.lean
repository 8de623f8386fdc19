import ControlNode.Store.Backend

/-!
# Calls of a backend

The operations that can write a data file, as data: what a call does to a backend (`Call.perform`)
and which store it writes (`Call.writes?`). A replacement of the data file can be cut short
(`DataFiles.cut`).
-/

namespace ControlNode

/-- The files where the process dies after `k` steps of a replacement. -/
def DataFiles.cut (f : DataFiles) (text : String) (k : Nat) : DataFiles :=
  f.run ((f.replaceSteps text).take k)

namespace Backend

/-- The operations that can write a data file, and the start of a new backend over the files of
an old one. -/
inductive Call where
  | insert (name : String) (r : Record)
  | update (name : String) (part : Record) (f : Filter)
  | replace (name id : String) (r : Record)
  | remove (name : String) (f : Filter)
  | saveSample (name object : String) (x : Sample)
  | removeSamples (name : String) (objects : Option (List String)) (r : SampleRange)
  | cleanup
  | reopen

namespace Call

/-- The backend after a call, whether or not the call succeeds. -/
def perform (c : Call) (b : Backend) : Backend :=
  match c with
  | insert name r => (b.insert name r).2
  | update name part f => (b.update name part f).2
  | replace name id r => (b.replace name id r).2
  | remove name f => (b.remove name f).2
  | saveSample name object x => (b.saveSample name object x).2
  | removeSamples name objects r => (b.removeSamples name objects r).2
  | cleanup => b.cleanup.2
  | reopen => b.successor.init.2

/-- The store that a change writes to the file, if it writes at all. -/
def written? (dirty : α → Bool) (r : Except StoreError α × Store) : Option Store :=
  match r with
  | (.ok a, s) => if dirty a then some s else none
  | (.error _, _) => none

def writes? (c : Call) (s : Store) : Option Store :=
  match c with
  | insert name r => written? (fun _ => true) (s.insert name r)
  | update name part f => written? (· > 0) (s.update name part f)
  | replace name id r => some (s.replace name id r).2
  | remove name f => written? (· > 0) (s.remove name f)
  | saveSample name object x => some (s.saveSample name object x)
  | removeSamples name objects r =>
    written? (· > 0) (.ok (s.removeSamples name objects r).1, (s.removeSamples name objects r).2)
  | cleanup => some s
  | reopen => none

end Call

/-- The data files of a backend, none where it has none. -/
def files : Backend → DataFiles
  | .file files _ => files
  | _ => {}

/-- The store in the memory of a backend; tables keep none. -/
def store : Backend → Store
  | .memory s => s
  | .file _ s => s
  | .tables .. => {}
  | .recordsOnly _ s => s

variable {files : DataFiles} {s after : Store}

theorem store_flush (files : DataFiles) (s : Store) (a : α) : (flush files s a).2.store = s := by
  unfold flush
  split <;> rfl

theorem store_inFile (files : DataFiles) (dirty : α → Bool) (r : Except StoreError α × Store) :
    (inFile files dirty r).2.store = r.2 := by
  obtain ⟨e | a, s⟩ := r
  · rfl
  · by_cases ha : dirty a = true
    · rw [inFile, if_pos ha]
      exact store_flush ..
    · rw [inFile, if_neg ha]
      rfl

theorem written?_eq_some (dirty : α → Bool) (r : Except StoreError α × Store)
    (h : Call.written? dirty r = some after) : r.2 = after := by
  obtain ⟨e | a, s⟩ := r
  · cases h
  · simp only [Call.written?, Option.ite_none_right_eq_some, Option.some.injEq] at h
    exact h.2

theorem store_of_writes? {c : Call} (h : c.writes? s = some after) :
    (c.perform (.file files s)).store = after := by
  cases c with
  | insert name r => exact (store_inFile ..).trans (written?_eq_some _ _ h)
  | update name part f => exact (store_inFile ..).trans (written?_eq_some _ _ h)
  | replace name id r => exact (store_inFile ..).trans (Option.some.inj h)
  | remove name f => exact (store_inFile ..).trans (written?_eq_some _ _ h)
  | saveSample name object x => exact (store_flush ..).trans (Option.some.inj h)
  | removeSamples name objects r =>
    exact (store_inFile ..).trans (written?_eq_some (fun n : Nat => n > 0) _ h)
  | cleanup => exact (store_flush ..).trans (Option.some.inj h)
  | reopen => cases h

end Backend

end ControlNode
